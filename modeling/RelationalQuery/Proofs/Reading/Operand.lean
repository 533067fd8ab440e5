/-
  RelationalQuery.Proofs.Reading.Operand — reading one construct after the other.

  A collation is written inside the group that its operand ends with. So the phrase that a term
  says depends on the collations around it: they stand at the last part of the term, or right
  behind the term if it ends with no group.

  Main definitions:
    * `Reader.Operand`: a phrase, and the collations right behind it.
    * `Sql.Term.operand`: what a term says inside collations.
    * `Reader.Reads`: a fragment is read as an operand.

  Main statements:
    * `Fragment.chunks_under_of_closed`, `Fragment.chunks_under_of_open`: where collations stand.
    * `Reader.operand_reads`, `Reader.operands_reads`: operands with collations behind them.
-/

import RelationalQuery.Proofs.Reading.Balance

namespace RelationalQuery

/-! ## What terms say -/

/-- A phrase and the collations right behind it. -/
structure Reader.Operand where
  core : Phrase
  collations : List String

namespace Reader.Operand

/-- The phrase of the operand with more collations behind it. -/
def phrase (o : Operand) (more : List String) : Phrase := o.core.under (o.collations ++ more)

/-- A phrase that ends with a group. -/
def closed (p : Phrase) : Operand := ⟨p, []⟩

end Reader.Operand

namespace Sql

open Reader

/-- The phrase of two compared operands. -/
def Comparison.phrase : Comparison → Phrase → Phrase → Phrase
  | .equal => .equal
  | .notEqual => .notEqual
  | .is => .is
  | .isNot => .isNot

mutual

/-- What a term says with collations around it, the innermost first. Nothing is said by what a
caller wrote, by an operator that is not known to bind most, and by a collation among no
arguments. -/
def Term.operand (around : List String) : Term → Option Operand
  | .literal _ _ => none
  | .value v => some ⟨if v.isNull then .null else .value v, around⟩
  | .constant text => some ⟨.constant text, around⟩
  | .column source name => some ⟨.column (source.bind (·.qualifier)) name, around⟩
  | .collate t collation => t.operand (collation :: around)
  | .negation t => (t.operand []).map fun o => .closed (.not (o.phrase around))
  | .comparison how lhs rhs => Option.map .closed do
    let a ← lhs.operand []
    let b ← rhs.operand []
    return how.phrase (a.phrase []) (b.phrase around)
  | .nullTest negated t => Option.map .closed do
    let o ← t.operand []
    return (if negated then Phrase.isNot else .is) (o.phrase []) (Phrase.null.under around)
  | .prefixOp op t =>
    if op ∈ prefixOperators then
      (t.operand around).map fun o => ⟨.prefixOp op o.core, o.collations⟩
    else none
  | .infixOp op lhs rhs => Option.map .closed do
    let a ← lhs.operand []
    let b ← rhs.operand []
    return .infixOp op (a.phrase []) (b.phrase around)
  | .and [] => some ⟨.constant "1", around⟩
  | .and [t] => t.operand around
  | .and (t :: u :: rest) => (Term.phrases around (t :: u :: rest)).map fun ps => .closed (.and ps)
  | .or [] => some ⟨.constant "0", around⟩
  | .or [t] => t.operand around
  | .or (t :: u :: rest) => (Term.phrases around (t :: u :: rest)).map fun ps => .closed (.or ps)
  | .inList negated t items => Option.map .closed do
    let o ← t.operand []
    let ps ← Term.phrases [] items
    return (Phrase.inList negated (o.phrase []) ps).under around
  | .inQuery negated t query => Option.map .closed do
    let o ← t.operand []
    return (Phrase.inQuery negated (o.phrase []) query.write.chunks).under around
  | .exists negated query =>
    let p := (Phrase.exists query.write.chunks).under around
    some (.closed (if negated then .not p else p))
  | .between t low high => Option.map .closed do
    let o ← t.operand []
    let low ← low.operand []
    let high ← high.operand []
    return .between (o.phrase []) (low.phrase []) (high.phrase around)
  | .call function [] => if around = [] then some (.closed (.call function [])) else none
  | .call function (t :: rest) =>
    (Term.phrases around (t :: rest)).map fun ps => .closed (.call function ps)
  | .countRows _ => if around = [] then some (.closed (.callStar "COUNT")) else none
  | .count t => (t.operand []).map fun o => .closed (.call "COUNT" [o.phrase around])
  | .countDistinct t =>
    (t.operand []).map fun o => .closed (.callDistinct "COUNT" (o.phrase around))

/-- What terms in order say, with the collations behind the last one. -/
def Term.phrases (around : List String) : List Term → Option (List Phrase)
  | [] => none
  | [t] => (t.operand []).map fun o => [o.phrase around]
  | t :: u :: rest => do
    let o ← t.operand []
    let ps ← Term.phrases around (u :: rest)
    return o.phrase [] :: ps

end

end Sql

/-! ## Collations that are written -/

namespace Reader

/-- Collations behind an operand. -/
def trailing (names : List String) : List Chunk :=
  names.flatMap fun name => [.token .collate, .raw name]

/-- More collations trail behind the ones before. -/
theorem trailing_append (a b : List String) : trailing (a ++ b) = trailing a ++ trailing b :=
  List.flatMap_append

theorem trailing_nil : trailing [] = [] := rfl

theorem trailing_cons (name : String) (rest : List String) :
    trailing (name :: rest) = .token .collate :: .raw name :: trailing rest := rfl

/-- The chunks begin with nothing that belongs to an operand in front of them. -/
def Stop (rest : List Chunk) : Prop :=
  rest.head? ≠ some (.token .dot) ∧ rest.head? ≠ some (.token .collate)

/-- A token that is neither a dot nor COLLATE belongs to nothing in front of it. -/
theorem stop_token {t : Token} (h : t ≠ .dot ∧ t ≠ .collate) (rest : List Chunk) :
    Stop (.token t :: rest) :=
  ⟨fun h' => h.1 (Chunk.token.inj (Option.some.inj h')),
    fun h' => h.2 (Chunk.token.inj (Option.some.inj h'))⟩

/-- Collations do not begin with a dot. -/
theorem head?_trailing {names : List String} {rest : List Chunk}
    (h : rest.head? ≠ some (.token .dot)) :
    (trailing names ++ rest).head? ≠ some (.token .dot) := by
  cases names with
  | nil => exact h
  | cons name others => exact nofun

/-- The collations that stand first are read. -/
theorem collations_trailing {names : List String} {rest : List Chunk} (h : Stop rest) :
    collations (trailing names ++ rest) = (names, rest) := by
  induction names with
  | nil =>
      rw [trailing, List.flatMap_nil, List.nil_append, collations]
      rintro name others rfl
      exact h.2 rfl
  | cons name others ih =>
      rw [trailing_cons, List.cons_append, List.cons_append, collations, ih]

/-- Trailing collations are read as those of the phrase in front of them. -/
theorem collated_trailing (p : Phrase) {names : List String} {rest : List Chunk} (h : Stop rest) :
    collated p (trailing names ++ rest) = (p.under names, rest) := by
  rw [collated, collations_trailing h]

end Reader

namespace Fragment

open Reader

/-- The fragment with collations around it, the innermost first. -/
def under (f : Fragment) (collations : List String) : Fragment :=
  collations.foldl Clauses.collated f

theorem under_nil (f : Fragment) : f.under [] = f := rfl

/-- A collation is written inside the group that a fragment ends with. -/
theorem chunks_collated_of_closed {init : List Chunk} (collation : String) :
    (Clauses.collated ⟨init ++ [.token .closeParen]⟩ collation).chunks =
      init ++ trailing [collation] ++ [.token .closeParen] := by
  rw [Clauses.collated, insertBeforeClose, if_pos (List.getLast?_concat ..), List.dropLast_concat]
  rfl

/-- Collations stand at the end of the last group. -/
theorem chunks_under_of_closed (collations : List String) : ∀ init : List Chunk,
    (under ⟨init ++ [.token .closeParen]⟩ collations).chunks =
      init ++ (trailing collations ++ [.token .closeParen]) := by
  induction collations with
  | nil => exact fun init => rfl
  | cons collation rest ih =>
      intro init
      have hstep : Clauses.collated ⟨init ++ [.token .closeParen]⟩ collation =
          ⟨init ++ trailing [collation] ++ [.token .closeParen]⟩ :=
        congrArg Fragment.mk (chunks_collated_of_closed collation)
      rw [under, List.foldl_cons, hstep]
      exact (ih (init ++ trailing [collation])).trans (by simp [trailing])

/-- Collations stand right behind what ends with no group. -/
theorem chunks_under_of_open (collations : List String) : ∀ f : Fragment,
    f.chunks.getLast? ≠ some (.token .closeParen) →
      (f.under collations).chunks = f.chunks ++ trailing collations := by
  induction collations with
  | nil => exact fun f _ => (List.append_nil _).symm
  | cons collation rest ih =>
      intro f h
      have hstep : Clauses.collated f collation = f ++ (token .collate ++ raw collation) :=
        if_neg h
      rw [under, List.foldl_cons, hstep]
      refine (ih _ ?_).trans (by simp [trailing, token, raw, single])
      simp [token, raw, single]

/-- Collations around parentheses stand inside them. -/
theorem chunks_parens_under (f : Fragment) (collations : List String) :
    (f.parens.under collations).chunks = .token .openParen :: (f.chunks ++ (trailing collations ++
      [.token .closeParen])) :=
  chunks_under_of_closed collations (.token .openParen :: f.chunks)

/-- Collations around a call stand behind its arguments. -/
theorem chunks_call_under (name : String) (f : Fragment) (collations : List String) :
    ((call name f).under collations).chunks = .function name :: .token .openParen ::
      (f.chunks ++ (trailing collations ++ [.token .closeParen])) :=
  chunks_under_of_closed collations (.function name :: .token .openParen :: f.chunks)

/-- Collations around one chunk stand behind it. -/
theorem chunks_single_under {c : Chunk} (h : c ≠ .token .closeParen) (collations : List String) :
    ((single c).under collations).chunks = c :: trailing collations :=
  chunks_under_of_open collations (single c) fun hlast => h (Option.some.inj hlast)

/-- A collation is written behind the first chunk of a fragment that has more than this one. -/
theorem collated_cons (first : Chunk) {f : Fragment} (h : f.chunks ≠ []) (collation : String) :
    Clauses.collated (single first ++ f) collation =
      single first ++ Clauses.collated f collation := by
  obtain ⟨_ | ⟨c, rest⟩⟩ := f
  · exact absurd rfl h
  · have hlast : (single first ++ ⟨c :: rest⟩).chunks.getLast? = (c :: rest).getLast? :=
      List.getLast?_cons_cons
    unfold Clauses.collated insertBeforeClose
    rw [hlast]
    split <;> rfl

/-- With a collation a fragment is not empty. -/
theorem collated_ne_nil (f : Fragment) (collation : String) :
    (Clauses.collated f collation).chunks ≠ [] := by
  unfold Clauses.collated insertBeforeClose
  split
  · exact List.append_ne_nil_of_right_ne_nil _ (List.cons_ne_nil _ _)
  · exact List.append_ne_nil_of_right_ne_nil _ (List.cons_ne_nil _ _)

/-- A collation stands in front of nothing but what closes a group. -/
theorem head_collated {f : Fragment} {c : Chunk} {rest : List Chunk} (h : f.chunks = c :: rest)
    (hc : c ≠ .token .closeParen) (collation : String) :
    ∃ others, (Clauses.collated f collation).chunks = c :: others := by
  obtain rfl : f = single c ++ ⟨rest⟩ := congrArg Fragment.mk h
  cases rest with
  | nil => exact ⟨_, chunks_single_under hc [collation]⟩
  | cons d rest =>
      rw [collated_cons c (List.cons_ne_nil d rest)]
      exact ⟨_, rfl⟩

/-- An operator in front of an operand has no part in the collations around it. -/
theorem prefixed_under (op : String) (collations : List String) : ∀ f : Fragment, f.chunks ≠ [] →
    (single (.prefixOp op) ++ f).under collations =
      single (.prefixOp op) ++ f.under collations := by
  induction collations with
  | nil => exact fun f _ => rfl
  | cons collation rest ih =>
      intro f h
      rw [under, List.foldl_cons, collated_cons _ h]
      exact ih (Clauses.collated f collation) (collated_ne_nil f collation)

/-- A collation is two chunks. -/
theorem length_collated (f : Fragment) (collation : String) :
    (Clauses.collated f collation).chunks.length = f.chunks.length + 2 := by
  unfold Clauses.collated insertBeforeClose
  split
  · rename_i hlast
    obtain ⟨init, hinit⟩ := List.getLast?_eq_some_iff.mp hlast
    rw [hinit, List.dropLast_concat]
    simp [token, raw, single]
  · simp [token, raw, single]

/-- Collations only make a fragment longer. -/
theorem length_under (collations : List String) : ∀ f : Fragment,
    f.chunks.length ≤ (f.under collations).chunks.length := by
  induction collations with
  | nil => exact fun f => Nat.le_refl _
  | cons collation rest ih =>
      intro f
      have hrest := ih (Clauses.collated f collation)
      rw [length_collated] at hrest
      exact Nat.le_of_add_right_le hrest

/-- What stands in a group is shorter than the group. -/
theorem length_parens_under (f : Fragment) (collations : List String) :
    f.chunks.length < (f.parens.under collations).chunks.length := by
  rw [chunks_parens_under]
  simp only [List.length_cons, List.length_append]
  omega

/-- The arguments of a call are shorter than the call. -/
theorem length_call_under (name : String) (f : Fragment) (collations : List String) :
    f.chunks.length < ((call name f).under collations).chunks.length := by
  rw [chunks_call_under]
  simp only [List.length_cons, List.length_append]
  omega

theorem length_append (a b : Fragment) :
    (a ++ b).chunks.length = a.chunks.length + b.chunks.length := List.length_append

/-- A separator is one chunk. -/
theorem length_joinWith_cons (separator : Token) (a b : Fragment) (rest : List Fragment) :
    (joinWith separator (a :: b :: rest)).chunks.length =
      a.chunks.length + 1 + (joinWith separator (b :: rest)).chunks.length := by
  rw [joinWith, length_append, length_append]
  rfl

end Fragment

/-! ## Reading -/

namespace Reader

open Sql

/-! ### Tokens that stand first -/

/-- What is expected is taken away. -/
theorem expect_token (t : Token) (rest : List Chunk) : expect t (.token t :: rest) = some rest :=
  if_pos rfl

/-- Another first chunk is not what is expected. -/
theorem expect_eq_none {t : Token} : {chunks : List Chunk} →
    chunks.head? ≠ some (.token t) → expect t chunks = none
  | [], _ => rfl
  | c :: rest, h => by
      cases c with
      | token other =>
          exact if_neg fun h' => h (congrArg (fun t => some (Chunk.token t)) h')
      | _ => rfl

/-- An operand begins with no keyword and no mark, but for NULL and parentheses. -/
def Opens : Chunk → Prop
  | .token t => t = .openParen ∨ t = .null
  | _ => True

end Reader

namespace Sql

open Fragment Reader

/-- A written term begins as operands do. -/
theorem Term.head_write : (t : Term) → ∃ c rest, t.write.chunks = c :: rest ∧ Opens c
  | .literal _ _ | .constant _ | .column none _ => ⟨_, _, rfl, trivial⟩
  | .value v => by
      rw [Term.write, param]
      split
      · exact ⟨_, _, rfl, .inr rfl⟩
      · exact ⟨_, _, rfl, trivial⟩
  | .column (some ⟨_, none⟩) _ | .column (some ⟨_, some _⟩) _ => ⟨_, _, rfl, trivial⟩
  | .collate t collation => by
      obtain ⟨c, rest, hchunks, hopens⟩ := t.head_write
      -- The collation goes in front of a closing parenthesis, and an operand does not begin with
      -- one.
      have hc : c ≠ .token .closeParen := by
        rintro rfl
        exact absurd hopens (by simp [Opens])
      obtain ⟨others, hothers⟩ := head_collated hchunks hc collation
      exact ⟨c, others, hothers, hopens⟩
  | .prefixOp _ _ | .call _ _ | .countRows _ | .count _ | .countDistinct _ => ⟨_, _, rfl, trivial⟩
  | .negation _ | .comparison _ _ _ | .nullTest _ _ | .infixOp _ _ _ | .inList _ _ _
  | .inQuery _ _ _ | .exists _ _ | .between _ _ _ => ⟨_, _, rfl, .inl rfl⟩
  | .and [] | .or [] => ⟨_, _, rfl, trivial⟩
  | .and [t] | .or [t] => t.head_write
  | .and (_ :: _ :: _) | .or (_ :: _ :: _) => ⟨_, _, rfl, .inl rfl⟩

/-- A written term begins with no keyword but NULL. -/
theorem Term.head?_write (t : Term) (rest : List Chunk) {token : Token}
    (h : token ≠ .openParen ∧ token ≠ .null) :
    (t.write.chunks ++ rest).head? ≠ some (.token token) := by
  obtain ⟨c, others, hchunks, hopens⟩ := t.head_write
  rw [hchunks]
  intro hhead
  obtain rfl : c = .token token := Option.some.inj hhead
  exact hopens.elim h.1 h.2

/-- No other keyword or mark stands in front of a written term. -/
theorem Term.expect_write (t : Term) (rest : List Chunk) {token : Token}
    (h : token ≠ .openParen ∧ token ≠ .null) :
    expect token (t.write.chunks ++ rest) = none := expect_eq_none (t.head?_write rest h)

end Sql

namespace Reader

open Sql Fragment

variable {part : Read Phrase} {f : Fragment} {o : Option Operand} {rest : List Chunk}

/-! ### Operands -/

/-- The fragment is read as the operand, and not at all if there is none. -/
def Reads (part : Read Phrase) (f : Fragment) (o : Option Operand) : Prop :=
  ∀ rest, rest.head? ≠ some (.token .dot) →
    part (f.chunks ++ rest) = o.map fun o => (o.core, trailing o.collations ++ rest)

/-- The collations behind an operand are read with it. -/
theorem operand_reads (h : Reads part f o) (around : List String) (hstop : Stop rest) :
    operand part (f.chunks ++ (trailing around ++ rest)) =
      o.map fun o => (o.phrase around, rest) := by
  rw [operand, h _ (head?_trailing hstop.1)]
  cases o with
  | none => rfl
  | some o =>
      refine congrArg some ?_
      show collated o.core (trailing o.collations ++ (trailing around ++ rest)) = _
      rw [← List.append_assoc, ← trailing_append, collated_trailing o.core hstop]
      rfl

/-- The second operand of a construct is read with the collations around that. -/
theorem second_reads (phrase : Phrase → Phrase) (h : Reads part f o) (around : List String)
    (hstop : Stop rest) : second part phrase (f.chunks ++ (trailing around ++ rest)) =
      o.map fun o => (phrase (o.phrase around), rest) := by
  rw [second, operand_reads h around hstop, Option.map_map]
  rfl

/-- A list of operands is read up to its end. -/
theorem operands_reads (separator : Token) (hseparator : separator ≠ .dot ∧ separator ≠ .collate)
    (around : List String) (hstop : Stop rest) (hend : rest.head? ≠ some (.token separator)) :
    (terms : List Term) → terms ≠ [] → (∀ t ∈ terms, Reads part t.write (t.operand [])) →
      ∀ most, terms.length ≤ most →
        operands part separator most
          ((joinWith separator (Term.writeAll terms)).chunks ++ (trailing around ++ rest)) =
            (Term.phrases around terms).map (·, rest)
  | [t], _, hparts, most + 1, _ => by
      have hfirst := operand_reads (hparts t (List.mem_cons_self ..)) around hstop
      rw [operands, Term.writeAll, Term.writeAll, joinWith, hfirst, Term.phrases]
      cases t.operand [] with
      | none => rfl
      | some o =>
          simp only [Option.map_some, Option.bind_eq_bind, Option.bind_some, expect_eq_none hend]
  | t :: u :: others, _, hparts, most + 1, hmost => by
      obtain ⟨ht, hrest⟩ := List.forall_mem_cons.mp hparts
      have ih := operands_reads separator hseparator around hstop hend (u :: others)
        (List.cons_ne_nil _ _) hrest most (Nat.le_of_succ_le_succ hmost)
      have hfirst := operand_reads ht [] (stop_token hseparator
        ((joinWith separator (Term.writeAll (u :: others))).chunks ++ (trailing around ++ rest)))
      -- The first operand is followed by the separator, and then by the others.
      have hchunks : (joinWith separator (Term.writeAll (t :: u :: others))).chunks ++
          (trailing around ++ rest) = t.write.chunks ++ (trailing [] ++ .token separator ::
            ((joinWith separator (Term.writeAll (u :: others))).chunks ++
              (trailing around ++ rest))) := by
        show (t.write.chunks ++ [Chunk.token separator] ++ _) ++ _ = _
        rw [List.append_assoc, List.append_assoc]
        rfl
      rw [operands, hchunks, hfirst, Term.phrases]
      cases t.operand [] with
      | none => rfl
      | some o =>
          simp only [Option.map_some, Option.bind_eq_bind, Option.bind_some, expect_token, ih]
          cases Term.phrases around (u :: others) <;> rfl

/-- The first term of a list stands first. -/
theorem expect_joinWith {t : Term} {others : List Term} {separator token : Token}
    (h : token ≠ .openParen ∧ token ≠ .null) (rest : List Chunk) :
    expect token ((joinWith separator (Term.writeAll (t :: others))).chunks ++ rest) = none := by
  cases others with
  | nil => exact t.expect_write rest h
  | cons u others =>
      show expect token (t.write.chunks ++ [Chunk.token separator] ++ _ ++ rest) = none
      rw [List.append_assoc, List.append_assoc]
      exact t.expect_write _ h

/-- A list is at least as long as it has terms. -/
theorem length_joinWith (separator : Token) : (terms : List Term) →
    terms.length ≤ (joinWith separator (Term.writeAll terms)).chunks.length
  | [] => Nat.zero_le _
  | [t] => by
      obtain ⟨c, others, hchunks, _⟩ := t.head_write
      rw [Term.writeAll, Term.writeAll, joinWith, hchunks]
      exact Nat.succ_le_succ (Nat.zero_le _)
  | t :: u :: others => by
      have ih := length_joinWith separator (u :: others)
      show _ ≤ (t.write.chunks ++ [Chunk.token separator] ++
        (joinWith separator (Term.writeAll (u :: others))).chunks).length
      simp only [List.length_append, List.length_cons, List.length_nil] at ih ⊢
      omega

end Reader

end RelationalQuery
