/-
  RelationalQuery.Proofs.Reading.Grammar — the grammar of expressions and of the statements in
  them.

  The grammar is that of SQL as SQLite reads it, as far as it has to do with queries: which tokens
  an expression may consist of, whatever binds more. Keywords and bare names are read without
  regard to case, so tokens are lexemes with their words folded.

  Two properties can be read off the rules. Parentheses balance. And COLLATE stands behind a
  token that ends an operand: never first, and never behind an opening parenthesis, a star, a
  comma, an operator or another keyword than NULL.

  Main definitions:
    * `Grammar.tokens`: the tokens of a text.
    * `Grammar.Nonterminal`, `Grammar.Derives`: the nonterminals and the rules.

  Main statements:
    * `Grammar.Derives.balanced`: parentheses balance.
    * `Grammar.Derives.orderly`: COLLATE stands behind a token that ends an operand.
-/

import Mathlib.Data.List.Chain
import RelationalQuery.Proofs.Text.Lexer

namespace RelationalQuery

/-- Keywords and bare names are read without regard to case. -/
def Lexeme.folded : Lexeme → Lexeme
  | .word text => .word (Identifier.fold text)
  | l => l

namespace Grammar

/-! ## Tokens -/

/-- The tokens of a text. A text that does not fall into lexemes has none. -/
def tokens (text : String) : List Lexeme := ((Lexer.lex text).getD []).map Lexeme.folded

/-- The words that no bare name is. -/
def reserved : List String :=
  ["add", "all", "alter", "and", "as", "autoincrement", "between", "case", "check", "collate",
    "commit", "constraint", "create", "default", "deferrable", "delete", "distinct", "drop",
    "else", "escape", "exists", "foreign", "from", "group", "having", "in", "index", "insert",
    "into", "is", "isnull", "join", "limit", "not", "nothing", "notnull", "null", "on", "or",
    "order", "primary", "references", "returning", "select", "set", "table", "then", "to",
    "transaction", "union", "unique", "update", "using", "values", "when", "where"]

/-- The operators in front of an operand. -/
def unaryOperators : List (List Lexeme) := [[.mark "-"], [.mark "+"], [.mark "~"], [.word "not"]]

/-- The operators between two operands. -/
def binaryOperators : List (List Lexeme) :=
  ["||", "->", "->>", "*", "/", "%", "+", "-", "&", "|", "<<", ">>", "<", "<=", ">", ">=", "=",
      "==", "<>", "!="].map (fun text => [.mark text]) ++
    [["is"], ["is", "not"], ["is", "distinct", "from"], ["is", "not", "distinct", "from"],
      ["like"], ["not", "like"], ["glob"], ["not", "glob"], ["regexp"], ["not", "regexp"],
      ["match"], ["not", "match"], ["and"], ["or"]].map (·.map .word)

/-- Behind an operand, in front of what it may be a member of. -/
def membershipWords : List (List Lexeme) := [[.word "in"], [.word "not", .word "in"]]

/-- Between two joined sources. -/
def joinWords : List (List Lexeme) :=
  [[.word "join"], [.word "left", .word "join"], [.word "cross", .word "join"]]

/-- What an ordering term says of its direction. -/
def directions : List (List Lexeme) := [[], [.word "asc"], [.word "desc"]]

/-- What a select list begins with. -/
def quantifiers : List (List Lexeme) := [[], [.word "distinct"]]

/-! ## Rules -/

/-- What stands behind keywords of its own. -/
inductive Clause where
  | as | on | from | where | groupBy | having | orderBy | limit | offset

/-- The kinds of things that rules say how to write. -/
inductive Nonterminal where
  | name | expr | arguments | members | item | source | ordering | bound | statement
  | clause (c : Clause)
  | optional (n : Nonterminal)
  /-- At least one, with commas between them. -/
  | list (n : Nonterminal)

namespace Clause

/-- What the clause begins with. -/
def keywords : Clause → List Lexeme
  | as => [.word "as"]
  | on => [.word "on"]
  | «from» => [.word "from"]
  | «where» => [.word "where"]
  | groupBy => [.word "group", .word "by"]
  | having => [.word "having"]
  | orderBy => [.word "order", .word "by"]
  | limit => [.word "limit"]
  | offset => [.word "offset"]

/-- What stands behind the keywords. -/
def operand : Clause → Nonterminal
  | as => .name
  | on | «where» | having | offset => .expr
  | «from» => .source
  | groupBy => .list .expr
  | orderBy => .list .ordering
  | limit => .bound

end Clause

/-- Tokens between parentheses. -/
def parens (a : List Lexeme) : List Lexeme := [.mark "("] ++ a ++ [.mark ")"]

/-- **The rules of the grammar**: the token lists that each nonterminal derives. -/
inductive Derives : Nonterminal → List Lexeme → Prop
  | absent {n : Nonterminal} : Derives (.optional n) []
  | present {n : Nonterminal} {a : List Lexeme} (h : Derives n a) : Derives (.optional n) a
  | last {n : Nonterminal} {a : List Lexeme} (h : Derives n a) : Derives (.list n) a
  | more {n : Nonterminal} {a b : List Lexeme} (first : Derives n a)
      (rest : Derives (.list n) b) : Derives (.list n) (a ++ [.mark ","] ++ b)
  | clause {c : Clause} {a : List Lexeme} (h : Derives c.operand a) :
      Derives (.clause c) (c.keywords ++ a)
  -- Names
  | quoted (text : String) : Derives .name [.quoted text]
  | word {text : String} (h : text ∉ reserved) : Derives .name [.word text]
  -- Expressions
  | number (text : String) : Derives .expr [.number text]
  | placeholder (digits : String) : Derives .expr [.placeholder digits]
  | null : Derives .expr [.word "null"]
  | column {a : List Lexeme} (h : Derives .name a) : Derives .expr a
  | qualified {a b : List Lexeme} (source : Derives .name a) (column : Derives .name b) :
      Derives .expr (a ++ [.mark "."] ++ b)
  | group {a : List Lexeme} (h : Derives .expr a) : Derives .expr (parens a)
  | prefixOp {op a : List Lexeme} (hop : op ∈ unaryOperators) (h : Derives .expr a) :
      Derives .expr (op ++ a)
  | infixOp {op a b : List Lexeme} (hop : op ∈ binaryOperators) (lhs : Derives .expr a)
      (rhs : Derives .expr b) : Derives .expr (a ++ op ++ b)
  | collate {a b : List Lexeme} (h : Derives .expr a) (collation : Derives .name b) :
      Derives .expr (a ++ [.word "collate"] ++ b)
  | between {a b c : List Lexeme} (h : Derives .expr a) (low : Derives .expr b)
      (high : Derives .expr c) :
      Derives .expr (a ++ [.word "between"] ++ b ++ [.word "and"] ++ c)
  | membership {words a b : List Lexeme} (hwords : words ∈ membershipWords)
      (h : Derives .expr a) (members : Derives .members b) :
      Derives .expr (a ++ words ++ parens b)
  | existence {a : List Lexeme} (h : Derives .statement a) :
      Derives .expr ([.word "exists"] ++ parens a)
  | call {a b : List Lexeme} (function : Derives .name a)
      (arguments : Derives (.optional .arguments) b) : Derives .expr (a ++ parens b)
  | arguments {a : List Lexeme} (h : Derives (.list .expr) a) : Derives .arguments a
  | distinct {a : List Lexeme} (h : Derives (.list .expr) a) :
      Derives .arguments ([.word "distinct"] ++ a)
  | rows : Derives .arguments [.mark "*"]
  | values {a : List Lexeme} (h : Derives (.list .expr) a) : Derives .members a
  | query {a : List Lexeme} (h : Derives .statement a) : Derives .members a
  -- Statements
  | all : Derives .item [.mark "*"]
  | allOf {a : List Lexeme} (h : Derives .name a) :
      Derives .item (a ++ [.mark "."] ++ [.mark "*"])
  | result {a b : List Lexeme} (h : Derives .expr a)
      (label : Derives (.optional (.clause .as)) b) : Derives .item (a ++ b)
  | table {a b : List Lexeme} (h : Derives .name a) (label : Derives (.optional .name) b) :
      Derives .source (a ++ b)
  | subquery {a b : List Lexeme} (h : Derives .statement a)
      (label : Derives (.optional (.clause .as)) b) : Derives .source (parens a ++ b)
  | join {words a b c : List Lexeme} (hwords : words ∈ joinWords) (left : Derives .source a)
      (right : Derives .source b) (condition : Derives (.optional (.clause .on)) c) :
      Derives .source (a ++ words ++ b ++ c)
  | ordering {a d : List Lexeme} (hd : d ∈ directions) (h : Derives .expr a) :
      Derives .ordering (a ++ d)
  | bound {a b : List Lexeme} (h : Derives .expr a)
      (skipped : Derives (.optional (.clause .offset)) b) : Derives .bound (a ++ b)
  | select {quantifier items source rows groups groupRows order bound : List Lexeme}
      (hquantifier : quantifier ∈ quantifiers)
      (hitems : Derives (.list .item) items)
      (hsource : Derives (.optional (.clause .from)) source)
      (hrows : Derives (.optional (.clause .where)) rows)
      (hgroups : Derives (.optional (.clause .groupBy)) groups)
      (hgroupRows : Derives (.optional (.clause .having)) groupRows)
      (horder : Derives (.optional (.clause .orderBy)) order)
      (hbound : Derives (.optional (.clause .limit)) bound) :
      Derives .statement ([.word "select"] ++ quantifier ++ items ++ source ++ rows ++ groups ++
        groupRows ++ order ++ bound)

/-! ## Ends of operands -/

variable {a b : List Lexeme}

/-- An operand may end with the token. -/
def EndsOperand : Lexeme → Prop
  | .quoted _ | .number _ | .placeholder _ => True
  | .word text => text ∉ reserved ∨ text = "null"
  | .mark text => text = ")"
  | .comment => False

/-- The tokens end as operands do. -/
def Complete (a : List Lexeme) : Prop := ∃ init l, a = init ++ [l] ∧ EndsOperand l

/-- What ends with a token that an operand may end with is complete. -/
theorem complete_concat (init : List Lexeme) {l : Lexeme} (h : EndsOperand l) :
    Complete (init ++ [l]) := ⟨init, l, rfl, h⟩

/-- Parentheses are complete. -/
theorem complete_parens (a : List Lexeme) : Complete (parens a) := complete_concat _ rfl

/-- Whatever stands in front, what ends complete is complete. -/
theorem Complete.append (h : Complete b) (a : List Lexeme) : Complete (a ++ b) := by
  obtain ⟨init, l, rfl, hl⟩ := h
  exact ⟨a ++ init, l, (List.append_assoc ..).symm, hl⟩

/-- What is complete is not empty. -/
theorem Complete.ne_nil (h : Complete a) : a ≠ [] := by
  obtain ⟨init, l, rfl, _⟩ := h
  exact List.append_ne_nil_of_right_ne_nil init (List.cons_ne_nil l [])

/-- Names and expressions are the operands. -/
def Nonterminal.IsOperand : Nonterminal → Prop
  | name | expr => True
  | _ => False

/-- **What an operand derives ends as an operand**: by induction over the rules. -/
theorem Derives.complete {n : Nonterminal} (h : Derives n a) (hn : n.IsOperand) : Complete a := by
  induction h with
  | quoted | number | placeholder => exact complete_concat [] trivial
  | word h => exact complete_concat [] (.inl h)
  | null => exact complete_concat [] (.inr rfl)
  | column _ ih => exact ih trivial
  | group => exact complete_parens _
  | prefixOp _ _ ih | qualified _ _ _ ih | infixOp _ _ _ _ ih | collate _ _ _ ih
  | between _ _ _ _ _ ih => exact (ih trivial).append _
  | membership | existence | call => exact (complete_parens _).append _
  | absent | present | last | more | clause | arguments | distinct | rows | values | query | all
  | allOf | result | table | subquery | join | ordering | bound | select => exact hn.elim

/-! ## What every derivation has -/

/-- The token is no parenthesis, and it is not COLLATE. -/
def Neutral (l : Lexeme) : Prop := l ≠ .mark "(" ∧ l ≠ .mark ")" ∧ l ≠ .word "collate"

instance : DecidablePred Neutral := fun _ => inferInstanceAs (Decidable (_ ∧ _ ∧ _))

/-- **What is put together keeps what its parts have.** A property that goes through appending, and
through the two rules that are about parentheses and about COLLATE, is one of everything that is
derived. -/
theorem Derives.has {property : List Lexeme → Prop} {n : Nonterminal} (h : Derives n a)
    (neutral : ∀ a, (∀ l ∈ a, Neutral l) → property a)
    (append : ∀ {a b}, property a → property b → property (a ++ b))
    (group : ∀ {a}, property a → property (parens a))
    (collate : ∀ {a b}, property a → Complete a → property b →
      property (a ++ [.word "collate"] ++ b)) : property a := by
  have table : ∀ {words : List (List Lexeme)} {a : List Lexeme},
      (∀ a ∈ words, ∀ l ∈ a, Neutral l) → a ∈ words → property a :=
    fun hall ha => neutral _ (hall _ ha)
  induction h with
  | absent => exact neutral _ (List.forall_mem_nil _)
  | present _ ih | last _ ih | column _ ih | arguments _ ih | values _ ih | query _ ih => exact ih
  | more _ _ ha hb | qualified _ _ ha hb => exact append (append ha (neutral _ (by decide))) hb
  | @clause c _ _ ih => exact append (neutral _ (by cases c <;> decide)) ih
  | quoted | number | placeholder =>
      exact neutral _ (List.forall_mem_singleton.mpr ⟨nofun, nofun, nofun⟩)
  | @word text h =>
      -- COLLATE is reserved, so no name is spelled like it.
      refine neutral _ (List.forall_mem_singleton.mpr ⟨nofun, nofun, fun hcollate => h ?_⟩)
      rw [Lexeme.word.inj hcollate]
      decide
  | null | rows | all => exact neutral _ (by decide)
  | group _ ih => exact group ih
  | prefixOp hop _ ih => exact append (table (by decide) hop) ih
  | infixOp hop _ _ ha hb => exact append (append ha (table (by decide) hop)) hb
  | collate h _ ha hb => exact collate ha (h.complete trivial) hb
  | between _ _ _ ha hb hc =>
      exact append (append (append (append ha (neutral _ (by decide))) hb)
        (neutral _ (by decide))) hc
  | membership hwords _ _ ha hb => exact append (append ha (table (by decide) hwords)) (group hb)
  | existence _ ih => exact append (neutral _ (by decide)) (group ih)
  | call _ _ ha hb => exact append ha (group hb)
  | distinct _ ih => exact append (neutral _ (by decide)) ih
  | allOf _ ih => exact append (append ih (neutral _ (by decide))) (neutral _ (by decide))
  | result _ _ ha hb | table _ _ ha hb | bound _ _ ha hb => exact append ha hb
  | subquery _ _ ha hb => exact append (group ha) hb
  | join hwords _ _ _ ha hb hc =>
      exact append (append (append ha (table (by decide) hwords)) hb) hc
  | ordering hd _ ih => exact append ih (table (by decide) hd)
  | select hquantifier _ _ _ _ _ _ _ hitems hsource hrows hgroups hgroupRows horder hbound =>
      have hbegin := append (append (neutral [.word "select"] (by decide))
        (table (by decide) hquantifier)) hitems
      exact append (append (append (append (append (append hbegin hsource) hrows) hgroups)
        hgroupRows) horder) hbound

/-! ## Parentheses -/

/-- The number of open parentheses behind the tokens, where there are `depth` in front of them. -/
def depthBehind (depth : Nat) : List Lexeme → Option Nat
  | [] => some depth
  | l :: rest =>
    if l = .mark "(" then depthBehind (depth + 1) rest
    else if l = .mark ")" then
      match depth with
      | 0 => none
      | depth + 1 => depthBehind depth rest
    else depthBehind depth rest

/-- Whatever is opened is closed, and nothing else. -/
def Balanced (a : List Lexeme) : Prop := ∀ depth, depthBehind depth a = some depth

/-- The depth behind two pieces is that behind the second, from the depth behind the first. -/
theorem depthBehind_append (a b : List Lexeme) (depth : Nat) :
    depthBehind depth (a ++ b) = (depthBehind depth a).bind (depthBehind · b) := by
  fun_induction depthBehind depth a <;> simp_all [depthBehind]

/-- Balanced tokens in a row are balanced. -/
theorem Balanced.append (ha : Balanced a) (hb : Balanced b) : Balanced (a ++ b) := by
  intro depth
  rw [depthBehind_append, ha, Option.bind_some, hb]

/-- Parentheses around balanced tokens are balanced. -/
theorem Balanced.parens (h : Balanced a) : Balanced (parens a) := by
  intro depth
  rw [Grammar.parens, depthBehind_append, depthBehind_append]
  simp [depthBehind, h (depth + 1)]

/-- Tokens that are neither parentheses nor COLLATE are balanced. -/
theorem balanced_of_neutral (a : List Lexeme) (h : ∀ l ∈ a, Neutral l) : Balanced a := by
  induction a with
  | nil => exact fun depth => rfl
  | cons l rest ih =>
      obtain ⟨hl, hrest⟩ := List.forall_mem_cons.mp h
      intro depth
      simpa only [depthBehind, if_neg hl.1, if_neg hl.2.1] using ih hrest depth

/-- **Parentheses balance** in whatever is derived. -/
theorem Derives.balanced {n : Nonterminal} (h : Derives n a) : Balanced a :=
  h.has balanced_of_neutral .append .parens fun ha _ hb =>
    (ha.append fun _ => rfl).append hb

/-! ## Collations -/

/-- Tokens that do not begin with COLLATE, where COLLATE stands behind what an operand may end
with. -/
structure Orderly (a : List Lexeme) : Prop where
  chain : a.IsChain fun l m => m = .word "collate" → EndsOperand l
  first : a.head? ≠ some (.word "collate")

/-- In orderly tokens behind each other every COLLATE still has its operand in front. -/
theorem Orderly.append (ha : Orderly a) (hb : Orderly b) : Orderly (a ++ b) where
  chain := List.isChain_append.mpr
    ⟨ha.chain, hb.chain, fun _ _ m hm hcollate => absurd (hcollate ▸ hm) hb.first⟩
  first h := by
    rw [List.head?_append, Option.or_eq_some_iff] at h
    exact h.elim ha.first fun h => hb.first h.2

/-- Where there is no COLLATE the tokens are orderly. -/
theorem orderly_of_neutral (a : List Lexeme) (h : ∀ l ∈ a, Neutral l) : Orderly a where
  chain := by
    induction a with
    | nil => exact .nil
    | cons l rest ih =>
        obtain ⟨_, hrest⟩ := List.forall_mem_cons.mp h
        refine List.isChain_cons.mpr ⟨fun m hm hcollate => ?_, ih hrest⟩
        exact absurd hcollate (hrest m (List.mem_of_head? hm)).2.2
  first hfirst := (h _ (List.mem_of_head? hfirst)).2.2 rfl

/-- Parentheses around orderly tokens are orderly. -/
theorem Orderly.parens (h : Orderly a) : Orderly (parens a) where
  chain := by
    -- An opening parenthesis ends no operand, but nothing that is derived begins with COLLATE.
    refine List.isChain_append.mpr ⟨List.isChain_cons.mpr ⟨?_, h.chain⟩, .singleton _, ?_⟩
    · exact fun m hm hcollate => absurd (hcollate ▸ hm) h.first
    · rintro _ _ m hm rfl
      cases hm
  first := nofun

/-- COLLATE may stand behind tokens that end as operands do. -/
theorem Orderly.collate (ha : Orderly a) (hlast : Complete a) (hb : Orderly b) :
    Orderly (a ++ [.word "collate"] ++ b) := by
  refine Orderly.append ⟨?_, ?_⟩ hb
  · obtain ⟨init, l, rfl, hl⟩ := hlast
    refine List.isChain_append.mpr ⟨ha.chain, .singleton _, fun m hm _ _ _ => ?_⟩
    rw [List.getLast?_concat] at hm
    exact Option.some.inj hm ▸ hl
  · rw [List.head?_append_of_ne_nil _ hlast.ne_nil]
    exact ha.first

/-- **COLLATE stands behind what ends an operand** in whatever is derived. -/
theorem Derives.orderly {n : Nonterminal} (h : Derives n a) : Orderly a :=
  h.has orderly_of_neutral .append .parens .collate

/-- Behind anything else, COLLATE is in no derivation. -/
theorem not_derives_of_collate {n : Nonterminal} {l : Lexeme} (hl : ¬ EndsOperand l) :
    ¬ Derives n (a ++ [l] ++ [.word "collate"] ++ b) := by
  intro h
  have hchain := (List.isChain_append.mp (List.isChain_append.mp h.orderly.chain).1).2.2
  exact hl (hchain l (List.getLast?_concat ..) (.word "collate") rfl rfl)

end Grammar

end RelationalQuery
