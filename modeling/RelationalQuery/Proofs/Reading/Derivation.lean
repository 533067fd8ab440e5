/-
  RelationalQuery.Proofs.Reading.Derivation — the written constructs are derived by the grammar.

  A collation is written behind the last token of its operand, or in front of it if that is a
  closing parenthesis. So to say of a fragment that it is an expression is to say it of the
  fragment with any collations around it. For a group and for a call with arguments that holds
  whenever it holds of what stands between the parentheses. A call without arguments and a count
  of rows are expressions, but with a collation around them they are not: `bare` says that of a
  fragment.

  Main definitions:
    * `Grammar.IsName`: what a function and a collation may be called.
    * `Fragment.tokens`: the tokens of the chunks.
    * `Fragment.IsExpr`: an expression, whatever collations stand around it.

  Main statements:
    * `Fragment.IsExpr.derives_collated_iff`: a collation around an expression is one unless it is
      bare.
    * One lemma for each construct of expressions, given its parts.
-/

import RelationalQuery.Proofs.Reading.Grammar
import RelationalQuery.Proofs.Reading.Operand
import RelationalQuery.Proofs.Text.Spacing

namespace RelationalQuery

open Grammar Lexer

/-! ## Tokens of texts -/

/-- What stands for the token in the grammar. -/
def Token.terminal : Token → Lexeme
  | .select => .word "select" | .distinct => .word "distinct" | .from => .word "from"
  | .where => .word "where" | .group => .word "group" | .by => .word "by"
  | .having => .word "having" | .order => .word "order" | .limit => .word "limit"
  | .offset => .word "offset" | .as => .word "as" | .join => .word "join"
  | .left => .word "left" | .cross => .word "cross" | .on => .word "on" | .and => .word "and"
  | .or => .word "or" | .not => .word "not" | .in => .word "in" | .exists => .word "exists"
  | .between => .word "between" | .is => .word "is" | .null => .word "null"
  | .collate => .word "collate" | .asc => .word "asc" | .desc => .word "desc"
  | .star => .mark "*" | .openParen => .mark "(" | .closeParen => .mark ")"
  | .comma => .mark "," | .dot => .mark "." | .equal => .mark "=" | .notEqual => .mark "<>"

/-- A text that spells a lexeme is that lexeme alone. -/
theorem Lexeme.Spells.lex_eq {text : String} {l : Lexeme} (h : Spells text l) :
    lex text = some [l] := by
  have hnothing : Held.nothing.complete = some [] := rfl
  have happend := h.lexFrom_append hnothing (fun _ _ => rfl) []
  rw [List.append_nil, lexFrom, h.complete] at happend
  exact happend

namespace Grammar

/-- A text that spells a lexeme has one token. -/
theorem tokens_of_spells {text : String} {l : Lexeme} (h : l.Spells text) :
    tokens text = [l.folded] := by
  rw [tokens, h.lex_eq]
  rfl

/-- The text of a token is its terminal. -/
theorem tokens_terminal (t : Token) : tokens t.text = [t.terminal] := by
  cases t <;> decide

/-- The text is a name: a word that is not reserved, or a quoted identifier. -/
def IsName (text : String) : Prop := Derives .name (tokens text)

theorem isName_count : IsName "COUNT" := Derives.word (by decide)

/-- Collations behind an operand. -/
def collations (names : List String) : List Lexeme :=
  names.flatMap fun name => [.word "collate"] ++ tokens name

/-- Any number of collations may stand behind an expression. -/
theorem Derives.collations {a : List Lexeme} (h : Derives .expr a) {names : List String}
    (hnames : ∀ name ∈ names, IsName name) : Derives .expr (a ++ collations names) := by
  induction names generalizing a with
  | nil => rwa [Grammar.collations, List.flatMap_nil, List.append_nil]
  | cons name rest ih =>
      obtain ⟨hname, hrest⟩ := List.forall_mem_cons.mp hnames
      have hmore := ih (h.collate hname) hrest
      rwa [List.append_assoc, List.append_assoc, ← List.append_assoc [Lexeme.word "collate"]]
        at hmore

/-- Collations behind a list stand behind its last expression. -/
theorem Derives.list_collations {a : List Lexeme} {names : List String}
    (hnames : ∀ name ∈ names, IsName name) :
    Derives (.list .expr) a → Derives (.list .expr) (a ++ Grammar.collations names)
  | .last h => .last (h.collations hnames)
  | .more first rest => by
      rw [List.append_assoc]
      exact .more first (rest.list_collations hnames)
termination_by a.length
decreasing_by simp only [List.length_append, List.length_singleton]; omega

end Grammar

/-! ## Tokens of fragments -/

namespace Fragment

/-- The tokens of the chunks, one chunk after the other. -/
def tokens (f : Fragment) : List Lexeme := f.chunks.flatMap fun c => Grammar.tokens c.text

variable {a b f : Fragment} {bare : Bool}

/-- The tokens of two fragments in a row are those of the first, then those of the second. -/
@[simp] theorem tokens_append (a b : Fragment) : (a ++ b).tokens = a.tokens ++ b.tokens :=
  List.flatMap_append

@[simp] theorem tokens_empty : empty.tokens = [] := rfl

/-- The tokens of a chunk are those of its text. -/
theorem tokens_single (c : Chunk) : (single c).tokens = Grammar.tokens c.text := List.append_nil _

@[simp] theorem tokens_token (t : Token) : (token t).tokens = [t.terminal] :=
  (tokens_single _).trans (tokens_terminal t)

@[simp] theorem tokens_ident (name : String) : (ident name).tokens = [.quoted name] :=
  (tokens_single _).trans (tokens_of_spells (Lexeme.spells_quoted name))

@[simp] theorem tokens_number (n : Nat) : (number n).tokens = [.number (toString n)] :=
  (tokens_single _).trans (tokens_of_spells (Lexeme.spells_number n))

@[simp] theorem tokens_raw (text : String) : (raw text).tokens = Grammar.tokens text :=
  tokens_single _

@[simp] theorem tokens_parens (f : Fragment) : f.parens.tokens = Grammar.parens f.tokens := by
  rw [parens, tokens_append, tokens_append, tokens_token, tokens_token]
  rfl

@[simp] theorem tokens_call (name : String) (f : Fragment) :
    (call name f).tokens = Grammar.tokens name ++ Grammar.parens f.tokens := by
  simp only [call, tokens_append, tokens_single, tokens_token, List.append_assoc]
  rfl

/-- Chunks that a reader finds trailing have the tokens of the collations. -/
theorem tokens_trailing (names : List String) :
    tokens ⟨Reader.trailing names⟩ = Grammar.collations names := by
  induction names with
  | nil => rfl
  | cons name rest ih =>
      have hcons : (⟨Reader.trailing (name :: rest)⟩ : Fragment) =
          token .collate ++ raw name ++ ⟨Reader.trailing rest⟩ := rfl
      rw [hcons, tokens_append, tokens_append, ih, tokens_token, tokens_raw]
      rfl

/-- Collations stand inside the parentheses of a group. -/
theorem tokens_parens_under (f : Fragment) (names : List String) :
    (f.parens.under names).tokens = Grammar.parens (f.tokens ++ Grammar.collations names) := by
  have hunder : f.parens.under names = (f ++ ⟨Reader.trailing names⟩).parens :=
    congrArg mk ((chunks_parens_under f names).trans
      (congrArg (_ :: ·) (List.append_assoc ..).symm))
  rw [hunder, tokens_parens, tokens_append, tokens_trailing]

/-- Collations stand inside the parentheses of a call. -/
theorem tokens_call_under (name : String) (f : Fragment) (names : List String) :
    ((call name f).under names).tokens =
      Grammar.tokens name ++ Grammar.parens (f.tokens ++ Grammar.collations names) := by
  have hunder : (call name f).under names = call name (f ++ ⟨Reader.trailing names⟩) :=
    congrArg mk ((chunks_call_under name f names).trans
      (congrArg (_ :: _ :: ·) (List.append_assoc ..).symm))
  rw [hunder, tokens_call, tokens_append, tokens_trailing]

/-- Collations stand behind a fragment that ends with no parenthesis. -/
theorem tokens_under_of_open (h : f.chunks.getLast? ≠ some (.token .closeParen))
    (names : List String) : (f.under names).tokens = f.tokens ++ Grammar.collations names := by
  have hunder : f.under names = f ++ ⟨Reader.trailing names⟩ :=
    congrArg mk (chunks_under_of_open names f h)
  rw [hunder, tokens_append, tokens_trailing]

/-! ## Fragments that are expressions -/

/-- The fragment ends with parentheses around nothing, or with a star between them. -/
def EndsBare (f : Fragment) : Prop :=
  ∃ init t, f = init ++ token t ++ token .closeParen ∧ (t = .openParen ∨ t = .star)

/-- The fragment is an expression with any collations around it; or it is bare, and one only as it
stands. -/
structure IsExpr (f : Fragment) (bare : Bool) : Prop where
  under : ∀ names, (∀ name ∈ names, IsName name) → (bare = true → names = []) →
    Derives .expr (f.under names).tokens
  ends : bare = true → f.EndsBare

/-- An expression is derived as one, bare or not. -/
theorem IsExpr.derives (h : f.IsExpr bare) : Derives .expr f.tokens := h.under [] nofun fun _ => rfl

/-- Between the parentheses that a bare fragment ends with, there is nothing that a collation could
stand behind. -/
theorem EndsBare.not_derives_collated (h : f.EndsBare) (name : String) :
    ¬ Derives .expr (Clauses.collated f name).tokens := by
  obtain ⟨init, t, rfl, ht⟩ := h
  have hcollated : Clauses.collated (init ++ token t ++ token .closeParen) name =
      init ++ token t ++ token .collate ++ (raw name ++ token .closeParen) := by
    have hchunks := @chunks_collated_of_closed (init.chunks ++ [Chunk.token t]) name
    exact congrArg mk (hchunks.trans (by simp [Reader.trailing, token, raw, single]))
  rw [hcollated]
  simp only [tokens_append, tokens_token]
  refine not_derives_of_collate ?_
  rcases ht with rfl | rfl <;> simp [Token.terminal, EndsOperand]

/-- **A collation may stand around every expression that is not bare**, and around no other. -/
theorem IsExpr.derives_collated_iff (h : f.IsExpr bare) {name : String} (hname : IsName name) :
    Derives .expr (Clauses.collated f name).tokens ↔ bare = false := by
  constructor
  · intro hderives
    rw [← Bool.not_eq_true]
    exact fun hbare => (h.ends hbare).not_derives_collated name hderives
  · rintro rfl
    exact h.under [name] (List.forall_mem_singleton.mpr hname) nofun

/-- A collation behind what does not end bare gives an expression that does not end bare either. -/
theorem IsExpr.collated (h : f.IsExpr false) {name : String} (hname : IsName name) :
    (Clauses.collated f name).IsExpr false where
  under names hnames _ := h.under (name :: names) (List.forall_mem_cons.mpr ⟨hname, hnames⟩) nofun
  ends := nofun

/-- What ends with no parenthesis is not bare. -/
theorem isExpr_of_open (hlast : f.chunks.getLast? ≠ some (.token .closeParen))
    (h : Derives .expr f.tokens) : f.IsExpr false where
  under names hnames _ := by
    rw [tokens_under_of_open hlast]
    exact h.collations hnames
  ends := nofun

/-- A group is not bare: inside it, collations stand behind what is between its parentheses. -/
theorem isExpr_parens (h : Derives .expr f.tokens) : f.parens.IsExpr false where
  under names hnames _ := by
    rw [tokens_parens_under]
    exact .group (h.collations hnames)
  ends := nofun

/-! ### Operands -/

/-- The constants that stand for false and true are expressions. -/
theorem isExpr_constant {text : String} (h : text ∈ ["0", "1"]) : (raw text).IsExpr false := by
  have hall : ∀ text ∈ ["0", "1"], Grammar.tokens text = [.number text] := by decide
  refine isExpr_of_open nofun ?_
  rw [tokens_raw, hall text h]
  exact .number text

/-- A name is an expression. -/
theorem isExpr_ident (name : String) : (ident name).IsExpr false :=
  isExpr_of_open nofun (tokens_ident name ▸ .column (.quoted name))

/-- A parameter is an expression. -/
theorem isExpr_param (v : Value) : (param v).IsExpr false := by
  unfold param
  split
  · exact isExpr_of_open nofun (tokens_token .null ▸ .null)
  · refine isExpr_of_open nofun ?_
    rw [tokens_single, Chunk.text, tokens_of_spells Lexeme.spells_placeholder]
    exact .placeholder ""

/-- A column, or the like, behind the name of its source. -/
theorem derives_qualified (source : Option String) (h : Derives .name f.tokens) :
    Derives .expr (Clauses.qualified source f).tokens := by
  cases source with
  | none => exact .column h
  | some name =>
      simp only [Clauses.qualified, tokens_append, tokens_ident, tokens_token]
      exact .qualified (.quoted name) h

/-- A column is an expression, with its source's name or without it. -/
theorem isExpr_column (source : Option String) (name : String) :
    (Clauses.qualified source (ident name)).IsExpr false := by
  refine isExpr_of_open ?_ (derives_qualified source (tokens_ident name ▸ .quoted name))
  cases source <;> exact nofun

/-- An operator in front of an operand does not change what the operand ends with. -/
theorem IsExpr.prefixed (h : f.IsExpr bare) {op : String}
    (hop : Grammar.tokens op ∈ unaryOperators) :
    (single (.prefixOp op) ++ f).IsExpr bare where
  under names hnames hbare := by
    -- Collations go to the operand if there is one, and an expression has tokens.
    have hne : f.chunks ≠ [] := fun hnil =>
      (h.derives.complete trivial).ne_nil (by rw [tokens, hnil]; rfl)
    rw [prefixed_under op names f hne, tokens_append, tokens_single]
    exact .prefixOp hop (h.under names hnames hbare)
  ends hbare := by
    obtain ⟨init, t, rfl, ht⟩ := h.ends hbare
    exact ⟨single (.prefixOp op) ++ init, t, rfl, ht⟩

/-- A NOT in front of an expression gives one in parentheses, so it does not end bare. -/
theorem IsExpr.negatedIf (h : f.IsExpr bare) (negated : Bool) :
    (Clauses.negatedIf negated f).IsExpr (!negated && bare) := by
  cases negated with
  | false => exact h
  | true =>
      refine isExpr_parens ?_
      rw [tokens_append, tokens_token]
      exact .prefixOp (by decide) h.derives

/-- What does not end bare does not do so behind a NOT. -/
theorem IsExpr.negatedIf_false (h : f.IsExpr false) (negated : Bool) :
    (Clauses.negatedIf negated f).IsExpr false :=
  Bool.and_false (!negated) ▸ h.negatedIf negated

/-! ### Groups -/

/-- Two expressions with an operator between them, in parentheses, are an expression. -/
theorem isExpr_infixed {mark : Fragment} (hmark : mark.tokens ∈ binaryOperators)
    (ha : Derives .expr a.tokens) (hb : Derives .expr b.tokens) :
    (a ++ mark ++ b).parens.IsExpr false :=
  isExpr_parens (by simpa only [tokens_append] using .infixOp hmark ha hb)

/-- A negated form has the token NOT, the other one has none. -/
theorem tokens_notIf (negated : Bool) :
    (Clauses.notIf negated).tokens = if negated then [.word "not"] else [] := by
  cases negated with
  | false => rfl
  | true => exact tokens_token .not

/-- IS and IS NOT are operators. -/
theorem identity_operator (negated : Bool) :
    (token .is ++ Clauses.notIf negated).tokens ∈ binaryOperators := by
  rw [tokens_append, tokens_token, tokens_notIf]
  cases negated <;> decide

/-- A test for NULL is an expression. -/
theorem isExpr_nullTest (negated : Bool) (h : Derives .expr f.tokens) :
    (Clauses.nullTest negated f).IsExpr false := by
  have hnull : Derives .expr (token .null).tokens := tokens_token .null ▸ .null
  have hparts : Clauses.nullTest negated f =
      (f ++ (token .is ++ Clauses.notIf negated) ++ token .null).parens :=
    congrArg (fun chunks => parens ⟨chunks ++ _⟩) (List.append_assoc ..)
  rw [hparts]
  exact isExpr_infixed (identity_operator negated) h hnull

/-- An EXISTS of a statement is an expression. -/
theorem isExpr_existence (negated : Bool) (h : Derives .statement f.tokens) :
    (Clauses.existence negated f).IsExpr false := by
  refine isExpr_parens ?_
  simp only [tokens_append, tokens_token, tokens_notIf, tokens_parens, List.append_assoc]
  cases negated with
  | false => exact .existence h
  | true => exact .prefixOp (by decide) (.existence h)

/-- An expression with what it may be a member of is an expression. -/
theorem isExpr_membership (negated : Bool) (ha : Derives .expr a.tokens)
    (hb : Derives .members b.tokens) : (Clauses.membership negated a b).IsExpr false := by
  have hwords : (if negated then [Lexeme.word "not"] else []) ++ [Token.in.terminal] ∈
      membershipWords := by cases negated <;> decide
  refine isExpr_parens ?_
  rw [tokens_append, tokens_append, tokens_append, tokens_token, tokens_notIf, tokens_parens,
    List.append_assoc a.tokens]
  exact .membership hwords ha hb

/-- A BETWEEN of three expressions is an expression. -/
theorem isExpr_range {low high : Fragment} (h : Derives .expr f.tokens)
    (hlow : Derives .expr low.tokens) (hhigh : Derives .expr high.tokens) :
    (Clauses.range f low high).IsExpr false := by
  refine isExpr_parens ?_
  simp only [tokens_append, tokens_token]
  exact .between h hlow hhigh

/-! ### Lists -/

/-- Fragments of one kind with commas between them are a list of that kind. -/
theorem derives_list {n : Nonterminal} : {fs : List Fragment} → fs ≠ [] →
    (∀ f ∈ fs, Derives n f.tokens) → Derives (.list n) (joinWith .comma fs).tokens
  | [f], _, h => .last (h f (List.mem_cons_self ..))
  | f :: g :: rest, _, h => by
      obtain ⟨hf, hrest⟩ := List.forall_mem_cons.mp h
      simp only [joinWith, tokens_append, tokens_token]
      exact .more hf (derives_list (List.cons_ne_nil g rest) hrest)

/-- Expressions between AND or between OR. -/
theorem derives_joined {mark : Token} (hmark : [mark.terminal] ∈ binaryOperators) :
    {fs : List Fragment} → fs ≠ [] → (∀ f ∈ fs, Derives .expr f.tokens) →
      Derives .expr (joinWith mark fs).tokens
  | [f], _, h => h f (List.mem_cons_self ..)
  | f :: g :: rest, _, h => by
      obtain ⟨hf, hrest⟩ := List.forall_mem_cons.mp h
      simp only [joinWith, tokens_append, tokens_token]
      exact .infixOp hmark hf (derives_joined hmark (List.cons_ne_nil g rest) hrest)

/-! ### Calls -/

/-- A call with arguments is not bare. -/
theorem isExpr_call {name : String} (hname : IsName name) (h : Derives (.list .expr) f.tokens) :
    (call name f).IsExpr false where
  under names hnames _ := by
    rw [tokens_call_under]
    exact .call hname (.present (.arguments (h.list_collations hnames)))
  ends := nofun

/-- A call on distinct values does not end bare. -/
theorem isExpr_call_distinct {name : String} (hname : IsName name)
    (h : Derives .expr f.tokens) : (call name (token .distinct ++ f)).IsExpr false where
  under names hnames _ := by
    rw [tokens_call_under, tokens_append, tokens_token, List.append_assoc]
    exact .call hname (.present (.distinct (.last (h.collations hnames))))
  ends := nofun

/-- A call without arguments ends bare: it closes around nothing. -/
theorem isExpr_call_empty {name : String} (hname : IsName name) :
    (call name empty).IsExpr true where
  under names _ hbare := by
    obtain rfl := hbare rfl
    rw [under_nil, tokens_call]
    exact .call hname .absent
  ends _ := ⟨single (.function name), .openParen, rfl, .inl rfl⟩

/-- A call on a star ends bare: it closes around no operand. -/
theorem isExpr_call_rows {name : String} (hname : IsName name) :
    (call name (token .star)).IsExpr true where
  under names _ hbare := by
    obtain rfl := hbare rfl
    rw [under_nil, tokens_call, tokens_token]
    exact .call hname (.present .rows)
  ends _ := ⟨single (.function name) ++ token .openParen, .star, rfl, .inr rfl⟩

end Fragment

end RelationalQuery
