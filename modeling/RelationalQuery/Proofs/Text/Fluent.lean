/-
  RelationalQuery.Proofs.Text.Fluent — fragments that can be written one after the other.

  A fragment is fluent if its chunks are plain and may stand beside each other, and if neither of
  its ends takes part in a doubtful neighbourhood. So what is put together from fluent fragments
  is fluent again. An operand can moreover stand behind a prefix operator.

  Main definitions:
    * `Fragment.Fluent`, `Fragment.Operand`: the two kinds of fragments.

  Main statements:
    * `Fragment.Fluent.append`: one fluent fragment behind the other.
    * One lemma for each construct of expressions and clauses, given its parts.
-/

import RelationalQuery.Proofs.Text.Spacing
import RelationalQuery.Select.Clauses

namespace RelationalQuery

open Lexeme Lexer

/-! ## Chunks -/

namespace Chunk

variable {c d : Chunk}

/-- The chunk does not lean on the next one. -/
def Calm (c : Chunk) : Prop := c ≠ .token .dot ∧ ∀ op, c ≠ .prefixOp op

theorem Calm.meets (hc : c.Calm) (hd : d ≠ .token .dot) : c.Meets d where
  dotted h := absurd h hd
  dot h := absurd h hc.1
  prefixed op h := absurd h (hc.2 op)

/-- What begins with neither a digit nor `>` can stand behind every chunk. -/
theorem meets_of_initial {x : Char} (hd : d ≠ .token .dot) (h : d.initial? = some x)
    (hx : x.isDigit = false ∧ x ≠ '>') : c.Meets d where
  dotted hdot := absurd hdot hd
  dot _ _ hy := Option.some.inj (h.symm.trans hy) ▸ hx.1
  prefixed _ _ harrow := hx.2 (Option.some.inj (h.symm.trans harrow))

end Chunk

namespace Fragment

/-! ## Fluent fragments -/

/-- Plain chunks that may stand beside each other, with ends that may stand anywhere. -/
structure Fluent (f : Fragment) : Prop where
  plain : ∀ c ∈ f.chunks, c.Plain
  meets : f.chunks.IsChain Chunk.Meets
  opens : ∀ c ∈ f.chunks.head?, c ≠ .token .dot
  closes : ∀ c ∈ f.chunks.getLast?, c.Calm

/-- A fluent fragment that can stand behind a prefix operator. -/
structure Operand (f : Fragment) : Prop extends Fluent f where
  first : ∃ c rest, f.chunks = c :: rest ∧ c.initial? ≠ some '>'

variable {a b f : Fragment}

theorem fluent_empty : Fluent empty := ⟨nofun, .nil, nofun, nofun⟩

theorem fluent_single {c : Chunk} (hplain : c.Plain) (hcalm : c.Calm) : Fluent (single c) where
  plain := List.forall_mem_singleton.mpr hplain
  meets := .singleton c
  opens _ hd := Option.some.inj hd ▸ hcalm.1
  closes _ hd := Option.some.inj hd ▸ hcalm

theorem operand_single {c : Chunk} (hplain : c.Plain) (hcalm : c.Calm)
    (hfirst : c.initial? ≠ some '>') : Operand (single c) :=
  ⟨fluent_single hplain hcalm, ⟨c, [], rfl, hfirst⟩⟩

/-- **Fluent fragments can be written one after the other.** -/
theorem Fluent.append (ha : a.Fluent) (hb : b.Fluent) : (a ++ b).Fluent where
  plain c hc := (List.mem_append.mp hc).elim (ha.plain c) (hb.plain c)
  meets := List.isChain_append.mpr
    ⟨ha.meets, hb.meets, fun c hc d hd => (ha.closes c hc).meets (hb.opens d hd)⟩
  opens c hc := by
    rw [chunks_append, List.head?_append, Option.mem_def, Option.or_eq_some_iff] at hc
    exact hc.elim (ha.opens c) fun h => hb.opens c h.2
  closes c hc := by
    rw [chunks_append, List.getLast?_append, Option.mem_def, Option.or_eq_some_iff] at hc
    exact hc.elim (hb.closes c) fun h => ha.closes c h.2

/-- An operand in front of a fluent fragment is one with it. -/
theorem Operand.append (ha : a.Operand) (hb : b.Fluent) : (a ++ b).Operand := by
  obtain ⟨c, rest, hchunks, hfirst⟩ := ha.first
  exact ⟨ha.toFluent.append hb, ⟨c, rest ++ b.chunks, congrArg (· ++ b.chunks) hchunks, hfirst⟩⟩

/-! ## Single chunks -/

theorem operand_token (t : Token) (h : t ≠ .dot) : (token t).Operand := by
  refine operand_single (.token t) ⟨fun h' => h (Chunk.token.inj h'), nofun⟩ ?_
  cases t <;> decide

theorem fluent_token (t : Token) (h : t ≠ .dot) : (token t).Fluent := (operand_token t h).toFluent

theorem initial?_ident (name : String) : (Chunk.ident name).initial? = some '"' := by
  rw [Chunk.initial?, Chunk.text, Identifier.toList_quoted]
  rfl

theorem operand_ident (name : String) : (ident name).Operand := by
  refine operand_single (.ident name) ⟨nofun, nofun⟩ ?_
  rw [initial?_ident]
  decide

theorem fluent_ident (name : String) : (ident name).Fluent := (operand_ident name).toFluent

theorem fluent_number (n : Nat) : (number n).Fluent :=
  fluent_single (.number n) ⟨nofun, nofun⟩

theorem fluent_raw {s : String} (h : (Chunk.raw s).Plain) : (raw s).Fluent :=
  fluent_single h ⟨nofun, nofun⟩

theorem operand_param (v : Value) : (param v).Operand := by
  unfold param
  split
  · exact operand_token .null nofun
  · exact operand_single (.param v) ⟨nofun, nofun⟩ (by simp [Chunk.initial?, Chunk.text])

/-- A name in front of a column, a star or the like. -/
theorem operand_qualified (source : Option String) {c : Chunk} {x : Char} (hplain : c.Plain)
    (hcalm : c.Calm) (hinitial : c.initial? = some x) (hx : x.isDigit = false ∧ x ≠ '>') :
    (Clauses.qualified source (single c)).Operand := by
  cases source with
  | none =>
      exact operand_single hplain hcalm fun h => hx.2 (Option.some.inj (hinitial.symm.trans h))
  | some name =>
      have hname := operand_ident name
      obtain ⟨_, _, hchunks, harrow⟩ := hname.first
      obtain ⟨rfl, _⟩ := List.cons.inj hchunks
      -- The dot leans on both of its neighbours.
      have hbefore : (Chunk.ident name).Meets (.token .dot) := ⟨fun _ => ⟨name, rfl⟩, nofun, nofun⟩
      have hbehind : (Chunk.token .dot).Meets c := Chunk.meets_of_initial hcalm.1 hinitial hx
      refine ⟨⟨?_, ?_, ?_, ?_⟩, ⟨.ident name, [.token .dot, c], rfl, harrow⟩⟩
      · exact List.forall_mem_cons.mpr ⟨.ident name,
          List.forall_mem_cons.mpr ⟨.token .dot, List.forall_mem_singleton.mpr hplain⟩⟩
      · exact .cons_cons hbefore (.cons_cons hbehind (.singleton c))
      · exact fun _ hd => Option.some.inj hd ▸ nofun
      · exact fun _ hd => Option.some.inj hd ▸ hcalm

theorem operand_column (source : Option String) (name : String) :
    (Clauses.qualified source (ident name)).Operand :=
  operand_qualified source (.ident name) ⟨nofun, nofun⟩ (initial?_ident name) (by decide)

theorem operand_star (source : Option String) :
    (Clauses.qualified source (token .star)).Operand :=
  operand_qualified source (.token .star) ⟨nofun, nofun⟩ rfl (by decide)

/-- An operand behind a prefix operator. -/
theorem Operand.prefixed (h : f.Operand) {op : String} (hop : op ∈ prefixOperators) :
    (single (.prefixOp op) ++ f).Operand := by
  obtain ⟨c, rest, hchunks, hfirst⟩ := h.first
  -- The operand begins with neither a dot nor a sign that the operator would take in.
  have hmeets : (Chunk.prefixOp op).Meets c :=
    ⟨fun hdot => absurd hdot (h.opens c (by rw [hchunks]; rfl)), nofun, fun _ _ => hfirst⟩
  have hall : ∀ op ∈ prefixOperators, (Chunk.prefixOp op).initial? ≠ some '>' := by decide
  have htext : (single (.prefixOp op) ++ f).chunks = .prefixOp op :: c :: rest :=
    congrArg (Chunk.prefixOp op :: ·) hchunks
  refine ⟨⟨?_, ?_, ?_, ?_⟩, ⟨_, _, htext, hall op hop⟩⟩
  · exact List.forall_mem_cons.mpr ⟨.prefixOp hop, h.plain⟩
  · rw [htext]
    exact .cons_cons hmeets (hchunks ▸ h.meets)
  · exact fun _ hd => Option.some.inj hd ▸ nofun
  · rw [htext, List.getLast?_cons_cons, ← hchunks]
    exact h.closes

/-! ## Groups -/

/-- Parentheses around a fluent fragment are an operand. -/
theorem Fluent.parens (h : f.Fluent) : f.parens.Operand :=
  ((operand_token .openParen nofun).append h).append (fluent_token .closeParen nofun)

/-- Fluent fragments with a separator between them are fluent. -/
theorem Fluent.joinWith (separator : Token) (hseparator : separator ≠ .dot) :
    {fs : List Fragment} → (∀ f ∈ fs, f.Fluent) → (joinWith separator fs).Fluent
  | [], _ => fluent_empty
  | [a], h => h a (List.mem_cons_self ..)
  | a :: b :: rest, h => by
      obtain ⟨ha, hrest⟩ := List.forall_mem_cons.mp h
      exact (ha.append (fluent_token separator hseparator)).append
        (Fluent.joinWith separator hseparator hrest)

theorem calm_function (name : String) : (Chunk.function name).Calm := ⟨nofun, nofun⟩

/-- A call of a word on fluent arguments is an operand. -/
theorem operand_call {name : String} (hname : IsWord name) (h : f.Fluent) :
    (call name f).Operand := by
  have hfirst : (Chunk.function name).initial? ≠ some '>' := by
    obtain ⟨c, rest, htext, hc, _⟩ := hname
    rw [Chunk.initial?, Chunk.text, htext]
    rintro h
    obtain rfl : c = '>' := Option.some.inj h
    exact absurd hc (by decide)
  exact (((operand_single (.function hname) (calm_function name) hfirst).append
    (fluent_token .openParen (by decide))).append h).append (fluent_token .closeParen (by decide))

theorem Fluent.aliased (h : f.Fluent) (name : String) : (f.aliased name).Fluent :=
  (h.append (fluent_token .as nofun)).append (fluent_ident name)

theorem Operand.aliased (h : f.Operand) (name : String) : (f.aliased name).Operand :=
  (h.append (fluent_token .as nofun)).append (fluent_ident name)

/-! ## Expressions -/

theorem Operand.negatedIf (h : f.Operand) (negated : Bool) :
    (Clauses.negatedIf negated f).Operand := by
  cases negated with
  | false => exact h
  | true => exact ((fluent_token .not nofun).append h.toFluent).parens

theorem fluent_notIf (negated : Bool) : (Clauses.notIf negated).Fluent := by
  cases negated with
  | false => exact fluent_empty
  | true => exact fluent_token .not nofun

theorem Operand.nullTest (h : f.Operand) (negated : Bool) :
    (Clauses.nullTest negated f).Operand :=
  (((h.toFluent.append (fluent_token .is nofun)).append (fluent_notIf negated)).append
    (fluent_token .null nofun)).parens

/-- Two operands with a mark between them. -/
theorem Fluent.between {mark : Fragment} (hmark : mark.Fluent) (ha : a.Operand) (hb : b.Operand) :
    (a ++ mark ++ b).parens.Operand :=
  ((ha.toFluent.append hmark).append hb.toFluent).parens

theorem operand_connective (mark : Token) (hmark : mark ≠ .dot) {neutral : String}
    (hneutral : neutral ∈ ["0", "1"]) : (terms : List Fragment) → (∀ f ∈ terms, f.Operand) →
    (Clauses.connective mark neutral terms).Operand
  | [], _ => by
      have hall : ∀ s ∈ ["0", "1"], (Chunk.raw s).initial? ≠ some '>' := by decide
      exact operand_single (.constant hneutral) ⟨nofun, nofun⟩ (hall neutral hneutral)
  | [term], h => h term (List.mem_cons_self ..)
  | a :: b :: rest, h => (Fluent.joinWith mark hmark fun f hf => (h f hf).toFluent).parens

theorem Operand.membership (ha : a.Operand) (hb : b.Fluent) (negated : Bool) :
    (Clauses.membership negated a b).Operand :=
  (((ha.toFluent.append (fluent_notIf negated)).append (fluent_token .in nofun)).append
    hb.parens.toFluent).parens

theorem Fluent.existence (h : f.Fluent) (negated : Bool) :
    (Clauses.existence negated f).Operand :=
  (((fluent_notIf negated).append (fluent_token .exists nofun)).append h.parens.toFluent).parens

theorem Operand.range {low high : Fragment} (h : f.Operand) (hlow : low.Operand)
    (hhigh : high.Operand) : (Clauses.range f low high).Operand :=
  ((((h.toFluent.append (fluent_token .between nofun)).append hlow.toFluent).append
    (fluent_token .and nofun)).append hhigh.toFluent).parens

/-- A collation stands behind the operand or inside the group that it ends with. -/
theorem Operand.collated (h : f.Operand) {collation : String} (hcollation : IsWord collation) :
    (Clauses.collated f collation).Operand := by
  have htail : (token .collate ++ raw collation).Operand :=
    (operand_token .collate nofun).append (fluent_raw (.word hcollation))
  unfold Clauses.collated insertBeforeClose
  split
  · rename_i hlast
    obtain ⟨init, hinit⟩ := List.getLast?_eq_some_iff.mp hlast
    have hclosed : (token .collate ++ raw collation ++ token .closeParen).Operand :=
      htail.append (fluent_token .closeParen nofun)
    rw [hinit, List.dropLast_concat, List.append_assoc]
    cases init with
    | nil => exact hclosed
    | cons c init =>
        obtain ⟨_, _, hchunks, hfirst⟩ := h.first
        obtain ⟨rfl, _⟩ := List.cons.inj (hinit.symm.trans hchunks)
        have hmeets := hinit ▸ h.meets
        -- Whatever the group held last, the keyword may stand behind it.
        have hboundary : ∀ d : Chunk, d.Meets (.token .collate) := fun d =>
          Chunk.meets_of_initial nofun rfl (by decide)
        refine ⟨⟨?_, ?_, ?_, ?_⟩, ⟨c, _, rfl, hfirst⟩⟩
        · intro d hd
          rcases List.mem_append.mp hd with hd | hd
          · exact h.plain d (hinit ▸ List.mem_append_left _ hd)
          · exact hclosed.plain d hd
        · refine List.isChain_append.mpr ⟨(List.isChain_append.mp hmeets).1, hclosed.meets, ?_⟩
          intro d _ e he
          exact Option.some.inj he ▸ hboundary d
        · exact fun _ hd => Option.some.inj hd ▸ h.opens c (hinit ▸ rfl)
        · intro d hd
          exact hclosed.closes d
            ((List.getLast?_append_of_ne_nil (c :: init) (List.cons_ne_nil _ _)).symm.trans hd)
  · exact h.append htail.toFluent

/-! ## Clauses -/

theorem Fluent.orderingTerm (h : f.Fluent) (direction : Option Direction) :
    (Clauses.orderingTerm f direction).Fluent := by
  rcases direction with _ | _ | _
  · exact h
  · exact h.append (fluent_token .asc nofun)
  · exact h.append (fluent_token .desc nofun)

theorem fluent_reverseRowIds (scope : Scope) (source : Option Source) :
    ∀ f ∈ Clauses.reverseRowIds scope source, f.Fluent := by
  have hrowId : IsWord "_rowid_" :=
    ⟨'_', ['r', 'o', 'w', 'i', 'd', '_'], rfl, by decide, List.all_eq_true.mp rfl⟩
  unfold Clauses.reverseRowIds
  split
  · refine List.forall_mem_singleton.mpr (Fluent.append ?_ (fluent_token .desc nofun))
    exact (operand_qualified _ (.word hrowId) ⟨nofun, nofun⟩ rfl (by decide)).toFluent
  · exact nofun

/-- Terms behind keywords. -/
theorem fluent_clause (keywords : List Token) (hkeywords : ∀ t ∈ keywords, t ≠ .dot)
    {terms : List Fragment} (hterms : ∀ f ∈ terms, f.Fluent) :
    (Clauses.clause keywords terms).Fluent := by
  have hwords : {keywords : List Token} → (∀ t ∈ keywords, t ≠ .dot) →
      Fluent ⟨keywords.map .token⟩ := by
    intro keywords
    induction keywords with
    | nil => exact fun _ => fluent_empty
    | cons t rest ih =>
        intro h
        exact (fluent_token t (h t (List.mem_cons_self ..))).append
          (ih fun t ht => h t (List.mem_cons_of_mem _ ht))
  unfold Clauses.clause
  split
  · exact fluent_empty
  · exact (hwords hkeywords).append (Fluent.joinWith .comma nofun hterms)

theorem fluent_orderClause (scope : Scope) (source : Option Source) (reversed : Bool)
    {terms : List Fragment} (hterms : ∀ f ∈ terms, f.Fluent) :
    (Clauses.orderClause scope source reversed terms).Fluent := by
  refine fluent_clause [.order, .by] (by decide) ?_
  split
  · exact fluent_reverseRowIds scope source
  · exact hterms

theorem fluent_limitClause (limit : Option Limit) : (Clauses.limitClause limit).Fluent := by
  rcases limit with _ | ⟨count, _ | offset⟩
  · exact fluent_empty
  · exact (fluent_token .limit nofun).append (fluent_number count)
  · exact (((fluent_token .limit nofun).append (fluent_number count)).append
      (fluent_token .offset nofun)).append (fluent_number offset)

/-! ## Sources -/

theorem fluent_tableSource (table : String) (name : Option String) :
    (Clauses.tableSource table name).Fluent := by
  unfold Clauses.tableSource
  cases name with
  | none => exact fluent_ident table
  | some name =>
      show Fluent (if name = table then _ else _)
      split
      · exact fluent_ident table
      · exact (fluent_ident table).append (fluent_ident name)

theorem Fluent.querySource (h : f.Fluent) (name : Option String) :
    (Clauses.querySource f name).Fluent := by
  cases name with
  | none => exact h.parens.toFluent
  | some name => exact (h.parens.aliased name).toFluent

theorem fluent_joinKeyword (kind : JoinKind) : (Clauses.joinKeyword kind).Fluent := by
  cases kind with
  | inner => exact fluent_token .join nofun
  | left => exact (fluent_token .left nofun).append (fluent_token .join nofun)
  | cross => exact (fluent_token .cross nofun).append (fluent_token .join nofun)

end Fragment

end RelationalQuery
