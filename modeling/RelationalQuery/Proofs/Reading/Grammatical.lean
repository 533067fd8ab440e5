/-
  RelationalQuery.Proofs.Reading.Grammatical — rendered expressions are derived by the grammar.

  An expression is grammatical if no caller wrote SQL in it, its operators and names are those of
  the grammar, and the statements in it select something. It is rendered as an expression, unless
  a collation stands around what ends with parentheses around nothing or around a star: there the
  collation is written between the parentheses too, where no operand is.

  Main definitions:
    * `Expr.Grammatical`: what is asked of an expression, and of the operands of its collations.
    * `Expr.Collatable`: a collation may stand around the expression.

  Main statements:
    * `Expr.grammatical_render_derives`: rendered expressions are derived, and so are collations
      around them unless they end bare.
-/

import RelationalQuery.Proofs.Reading.Derivation
import RelationalQuery.Proofs.Reading.Legible
import RelationalQuery.Proofs.Text.Fidelity

namespace RelationalQuery

open Fragment Grammar

/-! ## Grammatical expressions -/

mutual

/-- There is no literal, operators and names are those of the grammar, and statements select
something. What collations stand around has a property besides. -/
def Expr.Grammatical (collatable : Expr → Prop) : Expr → Prop
  | .literal _ _ => False
  | .value _ | .column _ _ => True
  | .collate e collation => e.Grammatical collatable ∧ IsName collation ∧ collatable e
  | .not e | .countDistinct e => e.Grammatical collatable
  | .equal lhs rhs | .notEqual lhs rhs | .is lhs rhs | .isNot lhs rhs =>
    lhs.Grammatical collatable ∧ rhs.Grammatical collatable
  | .prefixOp op e => Grammar.tokens op ∈ unaryOperators ∧ e.Grammatical collatable
  | .infixOp op lhs rhs => Grammar.tokens op ∈ binaryOperators ∧ lhs.Grammatical collatable ∧
    rhs.Grammatical collatable
  | .and terms | .or terms => Expr.GrammaticalAll collatable terms
  | .inList e items => e.Grammatical collatable ∧ Expr.GrammaticalAll collatable items
  | .inQuery e query => e.Grammatical collatable ∧ query.Grammatical collatable
  | .exists query => query.Grammatical collatable
  | .between e low high =>
    e.Grammatical collatable ∧ low.Grammatical collatable ∧ high.Grammatical collatable
  | .call function arguments => IsName function ∧ Expr.GrammaticalAll collatable arguments
  | .count counted => counted.Grammatical collatable

/-- All of the expressions are grammatical. -/
def Expr.GrammaticalAll (collatable : Expr → Prop) : List Expr → Prop
  | [] => True
  | e :: rest => e.Grammatical collatable ∧ Expr.GrammaticalAll collatable rest

/-- The condition is grammatical, if there is one. -/
def Expr.GrammaticalClause (collatable : Expr → Prop) : Option Expr → Prop
  | some condition => condition.Grammatical collatable
  | none => True

/-- The entry of a select list is grammatical; a star is. -/
def ResultColumn.Grammatical (collatable : Expr → Prop) : ResultColumn → Prop
  | .star _ => True
  | .expr e | .aliased e _ => e.Grammatical collatable

def ResultColumn.GrammaticalAll (collatable : Expr → Prop) : List ResultColumn → Prop
  | [] => True
  | column :: rest =>
    column.Grammatical collatable ∧ ResultColumn.GrammaticalAll collatable rest

def OrderingTerm.GrammaticalAll (collatable : Expr → Prop) : List OrderingTerm → Prop
  | [] => True
  | ⟨e, _⟩ :: rest => e.Grammatical collatable ∧ OrderingTerm.GrammaticalAll collatable rest

/-- The query selects something, and all of its clauses are grammatical. -/
def Query.Grammatical (collatable : Expr → Prop) : Query → Prop
  | ⟨selection, _, source, filter, groupBy, having, orderings, _, _⟩ =>
    selection ≠ [] ∧ ResultColumn.GrammaticalAll collatable selection ∧
      Source.GrammaticalClause collatable source ∧ Expr.GrammaticalClause collatable filter ∧
      Expr.GrammaticalAll collatable groupBy ∧ Expr.GrammaticalClause collatable having ∧
      OrderingTerm.GrammaticalAll collatable orderings

def Source.GrammaticalClause (collatable : Expr → Prop) : Option Source → Prop
  | some source => source.Grammatical collatable
  | none => True

/-- The queries inside the source are grammatical, and so is what its joins say. -/
def Source.Grammatical (collatable : Expr → Prop) : Source → Prop
  | .table _ _ _ => True
  | .subquery _ query _ => query.Grammatical collatable
  | .joinTree _ left joins => left.Grammatical collatable ∧
    Join.GrammaticalAll collatable (Clauses.anchor left) joins

/-- Of conditions and selections it is asked at the references that they are given. -/
def Join.GrammaticalAll (collatable : Expr → Prop) (left : Clauses.Anchor) : List Join → Prop
  | [] => True
  | ⟨_, _, ⟨_, target, _, condition, selection, joins⟩⟩ :: rest =>
    target.Grammatical collatable ∧
      Expr.GrammaticalAll collatable (condition left.id target.id) ∧
      ResultColumn.GrammaticalAll collatable (selection target.id) ∧
      Join.GrammaticalAll collatable (Clauses.anchor target) joins ∧
      Join.GrammaticalAll collatable left rest

end

/-- A collation may stand around the expression. -/
def Expr.Collatable (e : Expr) : Prop := e.endsBare false = false

/-- A disjunction ends bare just when the conjunction of its terms does. -/
theorem Expr.endsBare_or (terms : List Expr) (negated : Bool) :
    (Expr.or terms).endsBare negated = (Expr.and terms).endsBare negated := by
  match terms with
  | [] | [_] | _ :: _ :: _ => rfl

/-! ## Constructs whose parts may fail -/

namespace Clauses

variable {scope : Scope} {f : Fragment}

/-- A column that is in scope is an expression that does not end bare. -/
theorem columnOf_isExpr {source : SourceId} {column : String}
    (h : columnOf scope source column = .ok f) : f.IsExpr false := by
  obtain ⟨name, _, hf⟩ := bind_eq_ok.mp h
  rw [← pure_eq_ok.mp hf]
  exact isExpr_column name column

/-- A star whose source is in scope is an item of a select list. -/
theorem starOf_derives {source : SourceId} (h : starOf scope source = .ok f) :
    Derives .item f.tokens := by
  obtain ⟨name, _, hf⟩ := bind_eq_ok.mp h
  rw [← pure_eq_ok.mp hf]
  cases name with
  | none => exact tokens_token .star ▸ .all
  | some name =>
      simp only [qualified, tokens_append, tokens_ident, tokens_token]
      exact .allOf (.quoted name)

/-- A comparison of expressions is one that does not end bare, with a NULL constant on either side
too. -/
theorem comparison_isExpr {mark : Fragment} (hmark : mark.tokens ∈ binaryOperators)
    {negated : Bool} {lhs rhs : Expr} {left right : Rendering}
    (hleft : ∀ g, left = .ok g → Derives .expr g.tokens)
    (hright : ∀ g, right = .ok g → Derives .expr g.tokens)
    (h : comparison mark negated lhs rhs left right = .ok f) : f.IsExpr false := by
  unfold comparison at h
  split at h
  · obtain ⟨g, hg, rfl⟩ := map_eq_ok.mp h
    exact isExpr_nullTest negated (hleft g hg)
  · split at h
    · obtain ⟨g, hg, rfl⟩ := map_eq_ok.mp h
      exact isExpr_nullTest negated (hright g hg)
    · obtain ⟨a, ha, h⟩ := bind_eq_ok.mp h
      obtain ⟨b, hb, h⟩ := bind_eq_ok.mp h
      rw [← pure_eq_ok.mp h]
      exact isExpr_infixed hmark (hleft a ha) (hright b hb)

/-- So is an equality or its negation. -/
theorem equality_isExpr {negated : Bool} {lhs rhs : Expr} {left right : Rendering}
    (hleft : ∀ g, left = .ok g → Derives .expr g.tokens)
    (hright : ∀ g, right = .ok g → Derives .expr g.tokens)
    (h : equality negated lhs rhs left right = .ok f) : f.IsExpr false := by
  refine comparison_isExpr ?_ hleft hright h
  rw [tokens_token]
  cases negated <;> decide

/-- So is an identity or its negation. -/
theorem identity_isExpr {negated : Bool} {lhs rhs : Expr} {left right : Rendering}
    (hleft : ∀ g, left = .ok g → Derives .expr g.tokens)
    (hright : ∀ g, right = .ok g → Derives .expr g.tokens)
    (h : identity negated lhs rhs left right = .ok f) : f.IsExpr false :=
  comparison_isExpr (identity_operator negated) hleft hright h

/-- The fragment is what the expression is written as. -/
abbrev Writes (e : Expr) (f : Fragment) : Prop := f.IsExpr (e.endsBare false)

/-- Fragments that expressions are written as are derived as expressions. -/
theorem derives_of_writes {es : List Expr} {fs : List Fragment}
    (h : List.Forall₂ Writes es fs) : ∀ f ∈ fs, Derives .expr f.tokens := by
  induction h with
  | nil => exact List.forall_mem_nil _
  | cons hfirst _ ih => exact List.forall_mem_cons.mpr ⟨hfirst.derives, ih⟩

/-- One term stands for itself; none are a constant, and more stand between parentheses. -/
theorem connective_isExpr {mark : Token} (hmark : [mark.terminal] ∈ binaryOperators)
    {neutral : String} (hneutral : neutral ∈ ["0", "1"]) {terms : List Expr}
    {fs : List Fragment} (h : List.Forall₂ Writes terms fs) (negated : Bool) :
    (negatedIf negated (connective mark neutral fs)).IsExpr
      ((Expr.and terms).endsBare negated) := by
  -- No terms leave a constant, one is written as it is, and only more have the sign between them.
  cases h with
  | nil => exact (isExpr_constant hneutral).negatedIf_false negated
  | cons hfirst hrest =>
      cases hrest with
      | nil => exact hfirst.negatedIf negated
      | cons hsecond hmore =>
          have hjoined := derives_joined hmark (List.cons_ne_nil _ _)
            (derives_of_writes (.cons hfirst (.cons hsecond hmore)))
          exact (isExpr_parens hjoined).negatedIf_false negated

/-- Without arguments a call is bare. -/
theorem call_isExpr {function : String} (hfunction : IsName function) {arguments : List Expr}
    {fs : List Fragment} (h : List.Forall₂ Writes arguments fs) (negated : Bool) :
    (negatedIf negated (call function (joinWith .comma fs))).IsExpr
      ((Expr.call function arguments).endsBare negated) := by
  cases h with
  | nil =>
      have hcall := (isExpr_call_empty hfunction).negatedIf negated
      rwa [Bool.and_true] at hcall
  | cons hfirst hrest =>
      have harguments := derives_list (List.cons_ne_nil _ _)
        (derives_of_writes (.cons hfirst hrest))
      exact (isExpr_call hfunction harguments).negatedIf_false negated

/-- A membership in a list of expressions is an expression that does not end bare. -/
theorem listMembership_isExpr {negated : Bool} {operand : Rendering} {items : List Expr}
    {rendered : Except QueryError (List Fragment)}
    (hoperand : ∀ g, operand = .ok g → Derives .expr g.tokens)
    (hitems : ∀ fs, rendered = .ok fs → List.Forall₂ Writes items fs)
    (h : listMembership negated operand rendered items.isEmpty = .ok f) : f.IsExpr false := by
  cases items with
  | nil =>
      -- Membership in no values is a constant.
      cases h
      exact isExpr_constant (by cases negated <;> decide)
  | cons first rest =>
      obtain ⟨a, ha, h⟩ := bind_eq_ok.mp h
      obtain ⟨fs, hfs, h⟩ := bind_eq_ok.mp h
      have hwrites := hitems fs hfs
      have hne : fs ≠ [] := by
        rintro rfl
        cases hwrites
      rw [← pure_eq_ok.mp h]
      exact isExpr_membership negated (hoperand a ha)
        (.values (derives_list hne (derives_of_writes hwrites)))

/-- A clause of terms, with nothing to derive if there are none. -/
theorem clause_derives {c : Clause} {n : Nonterminal} (hoperand : c.operand = .list n)
    {keywords : List Token} (hkeywords : keywords.map Token.terminal = c.keywords)
    {terms : List Fragment} (hterms : ∀ f ∈ terms, Derives n f.tokens) :
    Derives (.optional (.clause c)) (clause keywords terms).tokens := by
  have hwords : ∀ keywords : List Token,
      tokens ⟨keywords.map .token⟩ = keywords.map Token.terminal := by
    intro keywords
    induction keywords with
    | nil => rfl
    | cons t rest ih =>
        have hcons : (⟨(t :: rest).map .token⟩ : Fragment) = token t ++ ⟨rest.map .token⟩ := rfl
        rw [hcons, tokens_append, ih, tokens_token]
        rfl
  -- Without terms nothing is written, and the clause is optional.
  cases terms with
  | nil => exact .absent
  | cons first rest =>
      have hlist := derives_list (List.cons_ne_nil first rest) hterms
      rw [clause, List.isEmpty_cons, if_neg Bool.false_ne_true, tokens_append, hwords, hkeywords]
      exact .present (.clause (hoperand ▸ hlist))

/-- A keyword with its operand is the clause that the keyword begins. -/
theorem behind_derives {c : Clause} {keyword : Token} (hkeyword : [keyword.terminal] = c.keywords)
    {operand : Rendering} (hoperand : ∀ g, operand = .ok g → Derives c.operand g.tokens)
    (h : behind keyword operand = .ok f) : Derives (.optional (.clause c)) f.tokens := by
  obtain ⟨g, hg, rfl⟩ := map_eq_ok.mp h
  rw [tokens_append, tokens_token, hkeyword]
  exact .present (.clause (hoperand g hg))

/-- The equalities of a mapping are expressions. -/
theorem mappingTerms_derives {left right : SourceId} {mapping : List (String × String)}
    {fs : List Fragment} (h : mappingTerms scope left right mapping = .ok fs) :
    ∀ f ∈ fs, Derives .expr f.tokens := by
  intro f hf
  obtain ⟨_, target, _, source, htarget, hsource, rfl⟩ := of_mem_mappingTerms mapping fs h f hf
  rw [tokens_append, tokens_append, tokens_token]
  exact .infixOp (by decide) (columnOf_isExpr htarget).derives (columnOf_isExpr hsource).derives

/-- The condition of a join is an ON clause, if it is written at all. -/
theorem onClause_derives {kind : JoinKind} {mapped own : Except QueryError (List Fragment)}
    (hmapped : ∀ fs, mapped = .ok fs → ∀ f ∈ fs, Derives .expr f.tokens)
    (hown : ∀ fs, own = .ok fs → ∀ f ∈ fs, Derives .expr f.tokens)
    (h : onClause kind mapped own = .ok f) : Derives (.optional (.clause .on)) f.tokens := by
  obtain rfl | ⟨equalities, terms, hequalities, hterms, hne, rfl⟩ := of_onClause h
  · exact .absent
  · rw [tokens_append, tokens_token]
    refine .present (.clause (derives_joined (by decide) hne ?_))
    exact fun f hf => (List.mem_append.mp hf).elim (hmapped equalities hequalities f)
      (hown terms hterms f)

/-- The items of a select list are a list of items, if there is an own one. -/
theorem selectList_derives {whole : Bool} {own added : Except QueryError (List Fragment)}
    (hown : ∀ fs, own = .ok fs → fs ≠ [] ∧ ∀ f ∈ fs, Derives .item f.tokens)
    (hadded : ∀ fs, added = .ok fs → ∀ f ∈ fs, Derives .item f.tokens)
    (h : selectList whole own added = .ok f) : Derives (.list .item) f.tokens := by
  unfold selectList at h
  split at h
  · cases h
    exact tokens_token .star ▸ .last .all
  · obtain ⟨columns, hcolumns, h⟩ := bind_eq_ok.mp h
    obtain ⟨others, hothers, h⟩ := bind_eq_ok.mp h
    rw [← pure_eq_ok.mp h]
    obtain ⟨hne, hitems⟩ := hown columns hcolumns
    exact derives_list (List.append_ne_nil_of_left_ne_nil hne others) fun f hf =>
      (List.mem_append.mp hf).elim (hitems f) (hadded others hothers f)

/-- An expression with a direction is a term of an ordering. -/
theorem orderingTerm_derives (h : Derives .expr f.tokens) (direction : Option Direction) :
    Derives .ordering (orderingTerm f direction).tokens := by
  rcases direction with _ | _ | _
  · exact List.append_nil f.tokens ▸ .ordering (by decide) h
  · rw [orderingTerm, tokens_append, tokens_token]
    exact .ordering (by decide) h
  · rw [orderingTerm, tokens_append, tokens_token]
    exact .ordering (by decide) h

/-- An ordering is an ORDER BY clause, if it has terms or row ids to fall back on. -/
theorem orderClause_derives (scope : Scope) (source : Option Source) (reversed : Bool)
    {terms : List Fragment} (hterms : ∀ f ∈ terms, Derives .ordering f.tokens) :
    Derives (.optional (.clause .orderBy)) (orderClause scope source reversed terms).tokens := by
  refine clause_derives rfl rfl ?_
  split
  · unfold reverseRowIds
    split
    · refine List.forall_mem_singleton.mpr ?_
      rw [tokens_append, tokens_token]
      exact .ordering (by decide) (derives_qualified _ (.word (by decide)))
    · exact List.forall_mem_nil _
  · exact hterms

/-- A limit is a LIMIT clause. -/
theorem limitClause_derives (limit : Option Limit) :
    Derives (.optional (.clause .limit)) (limitClause limit).tokens := by
  rcases limit with _ | ⟨count, _ | offset⟩
  · exact .absent
  · have hbound := Derives.bound (.number (toString count)) .absent
    rw [limitClause, tokens_append, tokens_token, tokens_number]
    exact .present (.clause hbound)
  · have hbound := Derives.bound (.number (toString count))
      (.present (.clause (.number (toString offset))))
    simp only [limitClause, tokens_append, tokens_token, tokens_number, List.append_assoc]
    exact .present (.clause hbound)

/-- A table is a source, under its alias or without one. -/
theorem tableSource_derives (table : String) (name : Option String) :
    Derives .source (tableSource table name).tokens := by
  have hbare : Derives .source (ident table).tokens := by
    rw [tokens_ident]
    exact .table (.quoted table) .absent
  unfold tableSource
  cases name with
  | none => exact hbare
  | some name =>
      show Derives .source (if name = table then _ else _ : Fragment).tokens
      split
      · exact hbare
      · rw [tokens_append, tokens_ident, tokens_ident]
        exact .table (.quoted table) (.present (.quoted name))

/-- A statement in parentheses is a source, under its alias or without one. -/
theorem querySource_derives (h : Derives .statement f.tokens) (name : Option String) :
    Derives .source (querySource f name).tokens := by
  cases name with
  | none =>
      rw [querySource, tokens_parens, ← List.append_nil (Grammar.parens _)]
      exact .subquery h .absent
  | some name =>
      simp only [querySource, aliased, tokens_append, tokens_parens, tokens_token, tokens_ident,
        List.append_assoc]
      exact .subquery h (.present (.clause (.quoted name)))

/-- Joins are written with the keywords of the grammar. -/
theorem joinKeyword_mem (kind : JoinKind) : (joinKeyword kind).tokens ∈ joinWords := by
  cases kind <;> simp only [joinKeyword, tokens_append, tokens_token] <;> decide

/-- Behind a source, the fragment joins others to it. -/
def JoinsOn (f : Fragment) : Prop := ∀ a, Derives .source a → Derives .source (a ++ f.tokens)

end Clauses

/-! ## The walk over a query -/

section

open Clauses

mutual

/-- **A rendered expression is an expression of the grammar**, and ends bare just when the
description says so: by induction over it, together with all that can stand inside it. -/
theorem Expr.render_isExpr (scope : Scope) (negated : Bool) : (e : Expr) →
    e.Grammatical Expr.Collatable →
      ∀ f, e.render scope negated = .ok f → f.IsExpr (e.endsBare negated)
  | .literal _ _, hg, _, _ => hg.elim
  | .value v, _, f, h => by
      cases h
      exact (isExpr_param v).negatedIf_false negated
  | .column none name, _, f, h => by
      cases h
      exact (isExpr_ident name).negatedIf_false negated
  | .column (some source) name, _, f, h => by
      obtain ⟨g, hg, h⟩ := bind_eq_ok.mp h
      rw [← pure_eq_ok.mp h]
      exact (columnOf_isExpr hg).negatedIf_false negated
  | .collate e collation, hg, f, h => by
      obtain ⟨g, hrender, h⟩ := bind_eq_ok.mp h
      rw [← pure_eq_ok.mp h]
      -- The operand is not bare, so it has a place for one collation more.
      obtain ⟨he, hname, hbare⟩ := hg
      have hoperand := e.render_isExpr scope false he g hrender
      rw [hbare] at hoperand
      exact (hoperand.collated hname).negatedIf_false negated
  | .not e, hg, f, h => e.render_isExpr scope (!negated) hg f h
  | .equal lhs rhs, hg, f, h =>
      equality_isExpr (fun g hr => (lhs.render_isExpr scope false hg.1 g hr).derives)
        (fun g hr => (rhs.render_isExpr scope false hg.2 g hr).derives) h
  | .notEqual lhs rhs, hg, f, h =>
      equality_isExpr (fun g hr => (lhs.render_isExpr scope false hg.1 g hr).derives)
        (fun g hr => (rhs.render_isExpr scope false hg.2 g hr).derives) h
  | .is lhs rhs, hg, f, h =>
      identity_isExpr (fun g hr => (lhs.render_isExpr scope false hg.1 g hr).derives)
        (fun g hr => (rhs.render_isExpr scope false hg.2 g hr).derives) h
  | .isNot lhs rhs, hg, f, h =>
      identity_isExpr (fun g hr => (lhs.render_isExpr scope false hg.1 g hr).derives)
        (fun g hr => (rhs.render_isExpr scope false hg.2 g hr).derives) h
  | .prefixOp op e, hg, f, h => by
      obtain ⟨g, hrender, h⟩ := bind_eq_ok.mp h
      rw [← pure_eq_ok.mp h]
      exact ((e.render_isExpr scope false hg.2 g hrender).prefixed hg.1).negatedIf negated
  | .infixOp op lhs rhs, hg, f, h => by
      obtain ⟨left, hleft, h⟩ := bind_eq_ok.mp h
      obtain ⟨right, hright, h⟩ := bind_eq_ok.mp h
      rw [← pure_eq_ok.mp h]
      refine (isExpr_infixed ?_ (lhs.render_isExpr scope false hg.2.1 left hleft).derives
        (rhs.render_isExpr scope false hg.2.2 right hright).derives).negatedIf_false negated
      exact tokens_raw op ▸ hg.1
  | .and terms, hg, f, h => by
      obtain ⟨fs, hfs, h⟩ := bind_eq_ok.mp h
      rw [← pure_eq_ok.mp h]
      exact connective_isExpr (by decide) (by decide)
        (Expr.renderAll_isExpr scope terms hg fs hfs) negated
  | .or terms, hg, f, h => by
      obtain ⟨fs, hfs, h⟩ := bind_eq_ok.mp h
      rw [← pure_eq_ok.mp h, Expr.endsBare_or]
      exact connective_isExpr (by decide) (by decide)
        (Expr.renderAll_isExpr scope terms hg fs hfs) negated
  | .inList e items, hg, f, h =>
      listMembership_isExpr (fun g hr => (e.render_isExpr scope false hg.1 g hr).derives)
        (Expr.renderAll_isExpr scope items hg.2) h
  | .inQuery e query, hg, f, h => by
      obtain ⟨operand, hoperand, h⟩ := bind_eq_ok.mp h
      obtain ⟨inner, _, h⟩ := bind_eq_ok.mp h
      obtain ⟨statement, hstatement, h⟩ := bind_eq_ok.mp h
      rw [← pure_eq_ok.mp h]
      exact isExpr_membership negated (e.render_isExpr scope false hg.1 operand hoperand).derives
        (.query (query.render_derives inner hg.2 statement hstatement))
  | .exists query, hg, f, h => by
      obtain ⟨inner, _, h⟩ := bind_eq_ok.mp h
      obtain ⟨statement, hstatement, h⟩ := bind_eq_ok.mp h
      rw [← pure_eq_ok.mp h]
      exact isExpr_existence negated (query.render_derives inner hg statement hstatement)
  | .between e low high, hg, f, h => by
      obtain ⟨operand, hoperand, h⟩ := bind_eq_ok.mp h
      obtain ⟨lower, hlower, h⟩ := bind_eq_ok.mp h
      obtain ⟨upper, hupper, h⟩ := bind_eq_ok.mp h
      rw [← pure_eq_ok.mp h]
      exact (isExpr_range (e.render_isExpr scope false hg.1 operand hoperand).derives
        (low.render_isExpr scope false hg.2.1 lower hlower).derives
        (high.render_isExpr scope false hg.2.2 upper hupper).derives).negatedIf_false negated
  | .call function arguments, hg, f, h => by
      obtain ⟨fs, hfs, h⟩ := bind_eq_ok.mp h
      rw [← pure_eq_ok.mp h]
      exact call_isExpr hg.1 (Expr.renderAll_isExpr scope arguments hg.2 fs hfs) negated
  | .count counted, hg, f, h => by
      obtain ⟨g, hrender, h⟩ := bind_eq_ok.mp h
      rw [← pure_eq_ok.mp h]
      -- What is counted decides whether the call is bare.
      exact counted.renderCounted_isExpr scope negated hg g hrender
  | .countDistinct e, hg, f, h => by
      obtain ⟨g, hrender, h⟩ := bind_eq_ok.mp h
      rw [← pure_eq_ok.mp h]
      exact (isExpr_call_distinct isName_count
        (e.render_isExpr scope false hg g hrender).derives).negatedIf_false negated

/-- Each expression of a rendered list is one, in its order. -/
theorem Expr.renderAll_isExpr (scope : Scope) : (es : List Expr) →
    Expr.GrammaticalAll Expr.Collatable es →
      ∀ fs, Expr.renderAll scope es = .ok fs → List.Forall₂ Writes es fs
  | [], _, fs, h => by
      cases h
      exact .nil
  | e :: rest, hg, fs, h => by
      obtain ⟨first, hfirst, h⟩ := bind_eq_ok.mp h
      obtain ⟨others, hothers, h⟩ := bind_eq_ok.mp h
      rw [← pure_eq_ok.mp h]
      exact .cons (e.render_isExpr scope false hg.1 first hfirst)
        (Expr.renderAll_isExpr scope rest hg.2 others hothers)

/-- A rendered condition is the clause that its keyword begins. -/
theorem Expr.renderClause_derives (scope : Scope) {c : Clause} (hoperand : c.operand = .expr)
    {keyword : Token} (hkeyword : [keyword.terminal] = c.keywords) : (e : Option Expr) →
      Expr.GrammaticalClause Expr.Collatable e → ∀ f, Expr.renderClause scope keyword e = .ok f →
        Derives (.optional (.clause c)) f.tokens
  | some condition, hg, f, h =>
      behind_derives hkeyword (fun g hr =>
        hoperand ▸ (condition.render_isExpr scope false hg g hr).derives) h
  | none, _, f, h => by
      cases h
      exact .absent

/-- A rendered COUNT is an expression, which ends bare around a star. -/
theorem ResultColumn.renderCounted_isExpr (scope : Scope) (negated : Bool) :
    (column : ResultColumn) → column.Grammatical Expr.Collatable →
      ∀ f, column.renderCounted scope = .ok f →
        (negatedIf negated (call "COUNT" f)).IsExpr ((Expr.count column).endsBare negated)
  | .star source, _, f, h => by
      obtain ⟨_, _, h⟩ := bind_eq_ok.mp h
      rw [← pure_eq_ok.mp h]
      have hrows := (isExpr_call_rows isName_count).negatedIf negated
      rwa [Bool.and_true] at hrows
  | .expr e, hg, f, h => (isExpr_call isName_count
      (.last (e.render_isExpr scope false hg f h).derives)).negatedIf_false negated
  | .aliased e _, hg, f, h => (isExpr_call isName_count
      (.last (e.render_isExpr scope false hg f h).derives)).negatedIf_false negated

/-- A rendered result column is an item. -/
theorem ResultColumn.render_derives (scope : Scope) : (column : ResultColumn) →
    column.Grammatical Expr.Collatable →
      ∀ f, column.render scope = .ok f → Derives .item f.tokens
  | .star source, _, f, h => starOf_derives h
  | .expr e, hg, f, h => by
      rw [← List.append_nil f.tokens]
      exact .result (e.render_isExpr scope false hg f h).derives .absent
  | .aliased e label, hg, f, h => by
      obtain ⟨g, hrender, h⟩ := bind_eq_ok.mp h
      rw [← pure_eq_ok.mp h]
      simp only [aliased, tokens_append, tokens_token, tokens_ident, List.append_assoc]
      exact .result (e.render_isExpr scope false hg g hrender).derives
        (.present (.clause (.quoted label)))

/-- A rendered select list consists of items, and has some if there are columns. -/
theorem ResultColumn.renderAll_derives (scope : Scope) : (columns : List ResultColumn) →
    ResultColumn.GrammaticalAll Expr.Collatable columns →
      ∀ fs, ResultColumn.renderAll scope columns = .ok fs →
        (columns ≠ [] → fs ≠ []) ∧ ∀ f ∈ fs, Derives .item f.tokens
  | [], _, fs, h => by
      cases h
      exact ⟨fun hne => absurd rfl hne, List.forall_mem_nil _⟩
  | column :: rest, hg, fs, h => by
      obtain ⟨first, hfirst, h⟩ := bind_eq_ok.mp h
      obtain ⟨others, hothers, h⟩ := bind_eq_ok.mp h
      rw [← pure_eq_ok.mp h]
      exact ⟨fun _ => List.cons_ne_nil first others,
        List.forall_mem_cons.mpr ⟨column.render_derives scope hg.1 first hfirst,
          (ResultColumn.renderAll_derives scope rest hg.2 others hothers).2⟩⟩

/-- A rendered ordering consists of its terms, reversed or not. -/
theorem OrderingTerm.renderAll_derives (scope : Scope) (reversed : Bool) :
    (terms : List OrderingTerm) → OrderingTerm.GrammaticalAll Expr.Collatable terms →
      ∀ fs, OrderingTerm.renderAll scope reversed terms = .ok fs →
        ∀ f ∈ fs, Derives .ordering f.tokens
  | [], _, fs, h => by
      cases h
      exact List.forall_mem_nil _
  | ⟨e, direction⟩ :: rest, hg, fs, h => by
      obtain ⟨first, hfirst, h⟩ := bind_eq_ok.mp h
      obtain ⟨others, hothers, h⟩ := bind_eq_ok.mp h
      rw [← pure_eq_ok.mp h]
      exact List.forall_mem_cons.mpr
        ⟨orderingTerm_derives (e.render_isExpr scope false hg.1 first hfirst).derives _,
          OrderingTerm.renderAll_derives scope reversed rest hg.2 others hothers⟩

/-- **A grammatical query is rendered as a statement.** -/
theorem Query.render_derives (scope : Scope) : (q : Query) → q.Grammatical Expr.Collatable →
    ∀ f, q.render scope = .ok f → Derives .statement f.tokens
  | ⟨selection, distinct, source, filter, groupBy, having, orderings, reversed, limit⟩, hg,
      f, h => by
      obtain ⟨hsome, hselection, hsource, hfilter, hgroupBy, hhaving, horderings⟩ := hg
      obtain ⟨columns, sources, rows, groups, groupRows, terms, hcolumns, hsources, hrows, hgroups,
        hgroupRows, hterms, rfl⟩ := Query.of_render h
      -- Each clause that is left out is derived as the absent option.
      have hdistinct : (if distinct then token .distinct else empty).tokens ∈ quantifiers := by
        cases distinct with
        | false => exact List.mem_cons_self ..
        | true =>
            rw [if_pos rfl, tokens_token]
            decide
      have hitems := selectList_derives (fun fs hfs =>
          (ResultColumn.renderAll_derives scope selection hselection fs hfs).imp_left (· hsome))
        (Source.renderColumns_derives scope source hsource) hcolumns
      have hread := Source.renderClause_derives scope source hsource sources hsources
      have hwhere := Expr.renderClause_derives scope (c := .where) rfl rfl filter hfilter rows hrows
      have hgroup : Derives (.optional (.clause .groupBy)) (clause [.group, .by] groups).tokens :=
        clause_derives rfl rfl
          (derives_of_writes (Expr.renderAll_isExpr scope groupBy hgroupBy groups hgroups))
      have hkept := Expr.renderClause_derives scope (c := .having) rfl rfl having hhaving
        groupRows hgroupRows
      have horder := orderClause_derives scope source reversed
        (OrderingTerm.renderAll_derives scope reversed orderings horderings terms hterms)
      simp only [tokens_append]
      rw [Fragment.tokens_token .select]
      exact .select hdistinct hitems hread hwhere hgroup hkept horder (limitClause_derives limit)

/-- The columns that joins add are rendered as items. -/
theorem Source.renderColumns_derives (scope : Scope) : (source : Option Source) →
    Source.GrammaticalClause Expr.Collatable source →
      ∀ fs, Source.renderColumns scope source = .ok fs → ∀ f ∈ fs, Derives .item f.tokens
  | some (.joinTree _ left joins), hg, fs, h =>
      Join.renderColumns_derives scope (anchor left) joins hg.2 fs h
  | some (.table ..), _, fs, h => by
      cases h
      exact List.forall_mem_nil _
  | some (.subquery ..), _, fs, h => by
      cases h
      exact List.forall_mem_nil _
  | none, _, fs, h => by
      cases h
      exact List.forall_mem_nil _

/-- A rendered FROM clause is one. -/
theorem Source.renderClause_derives (scope : Scope) : (source : Option Source) →
    Source.GrammaticalClause Expr.Collatable source →
      ∀ f, Source.renderClause scope source = .ok f →
        Derives (.optional (.clause .from)) f.tokens
  | some source, hg, f, h => behind_derives rfl (source.render_derives scope hg) h
  | none, _, f, h => by
      cases h
      exact .absent

/-- The columns of joins, and of the joins below them, are rendered as items. -/
theorem Join.renderColumns_derives (scope : Scope) (left : Anchor) : (joins : List Join) →
    Join.GrammaticalAll Expr.Collatable left joins →
      ∀ fs, Join.renderColumns scope joins = .ok fs → ∀ f ∈ fs, Derives .item f.tokens
  | [], _, fs, h => by
      cases h
      exact List.forall_mem_nil _
  | ⟨included, _, ⟨_, target, _, _, selection, joins⟩⟩ :: rest, hg, fs, h => by
      obtain ⟨_, _, hselection, hjoins, hrest⟩ := hg
      obtain ⟨own, nested, others, hown, hnested, hothers, rfl⟩ := Join.of_renderColumns_cons h
      rw [List.forall_mem_append, List.forall_mem_append]
      refine ⟨⟨?_, Join.renderColumns_derives scope _ joins hjoins nested hnested⟩,
        Join.renderColumns_derives scope left rest hrest others hothers⟩
      cases included
      · cases hown
        exact List.forall_mem_nil _
      · exact (ResultColumn.renderAll_derives scope _ hselection own hown).2

/-- A rendered source is a source of the grammar, with the query inside it and the joins on it. -/
theorem Source.render_derives (scope : Scope) : (s : Source) → s.Grammatical Expr.Collatable →
    ∀ f, s.render scope = .ok f → Derives .source f.tokens
  | .table id table _, _, f, h => by
      cases h
      exact tableSource_derives table _
  | .subquery id query _, hg, f, h => by
      obtain ⟨statement, hstatement, h⟩ := bind_eq_ok.mp h
      rw [← pure_eq_ok.mp h]
      exact querySource_derives (query.render_derives scope hg statement hstatement) _
  -- A tree is its left source with the joins behind it.
  | .joinTree _ left joins, hg, f, h => by
      obtain ⟨source, hsource, h⟩ := bind_eq_ok.mp h
      obtain ⟨joined, hjoined, h⟩ := bind_eq_ok.mp h
      rw [← pure_eq_ok.mp h, tokens_append]
      exact Join.renderAll_joinsOn scope _ false joins hg.2 joined hjoined _
        (left.render_derives scope hg.1 source hsource)

/-- Rendered joins turn a source into a source, with the joins below each of them. -/
theorem Join.renderAll_joinsOn (scope : Scope) (left : Anchor) (afterOptional : Bool) :
    (joins : List Join) → Join.GrammaticalAll Expr.Collatable left joins →
      ∀ f, Join.renderAll scope left afterOptional joins = .ok f → JoinsOn f
  | [], _, f, h => by
      cases h
      intro a ha
      rwa [tokens_empty, List.append_nil]
  | ⟨_, kind, ⟨name, target, mapping, condition, _, joins⟩⟩ :: rest, hg, f, h => by
      obtain ⟨htarget, hcondition, _, hjoins, hrest⟩ := hg
      obtain ⟨source, on, nested, others, hsource, hon, hnested, hothers, rfl⟩ :=
        Join.of_renderAll_cons h
      intro a ha
      have hon := onClause_derives (fun _ => mappingTerms_derives)
        (fun fs hfs => derives_of_writes (Expr.renderAll_isExpr scope _ hcondition fs hfs)) hon
      -- The joins of the target follow its condition, so all of them hang on what is on the left.
      have hfirst := Derives.join (joinKeyword_mem kind) ha
        (target.render_derives scope htarget source hsource) hon
      have hall := Join.renderAll_joinsOn scope left afterOptional rest hrest others hothers _
        (Join.renderAll_joinsOn scope _ _ joins hjoins nested hnested _ hfirst)
      simpa only [tokens_append, List.append_assoc] using hall

end

end

/-! ## Expressions that stand alone -/

/-- The tokens of a text are those of its chunks if these can be written one after the other. -/
theorem Fragment.Fluent.tokens_text {f : Fragment} (h : f.Fluent) :
    Grammar.tokens f.text = f.tokens := by
  have hchunks : ∀ c ∈ f.chunks, Grammar.tokens c.text = [c.lexeme.folded] :=
    fun c hc => tokens_of_spells (h.plain c hc).spells
  rw [Grammar.tokens, lex_text h.plain h.meets, Option.getD_some, List.map_map, Fragment.tokens,
    List.flatMap_congr hchunks, List.map_eq_flatMap]
  rfl

/-- **Rendered expressions are derived by the grammar**, and so are their negations, if every
collation in them stands around something collatable; and around nothing else may one stand. So
parentheses balance (`Derives.balanced`), and COLLATE stands behind what ends an operand
(`Derives.orderly`). The tokens are those of the rendered text, if operators and names are one
lexeme each. -/
theorem Expr.grammatical_render_derives (scope : Scope) {e : Expr}
    (hg : e.Grammatical Expr.Collatable) :
    (∀ negated f, e.render scope negated = .ok f →
      Derives .expr f.tokens ∧ (e.Plain → Grammar.tokens f.text = f.tokens)) ∧
    ∀ collation f, IsName collation → (e.collate collation).render scope false = .ok f →
      (Derives .expr f.tokens ↔ e.Collatable) := by
  constructor
  · intro negated f h
    exact ⟨(e.render_isExpr scope negated hg f h).derives, fun hplain =>
      (e.render_operand scope negated hplain f h).toFluent.tokens_text⟩
  · intro collation f hname h
    obtain ⟨g, hrender, h⟩ := bind_eq_ok.mp h
    rw [← pure_eq_ok.mp h]
    exact (e.render_isExpr scope false hg g hrender).derives_collated_iff hname

/-- The name is not like another one in lower case, and there is a constant to select. -/
def oddName : Expr :=
  .and [.infixOp "NOT LIKE" (.collate (.column none "name") "NOCASE")
      (.call "LOWER" [.value (.text "A")]),
    .exists { Query.empty with selection := [.expr (.value (.integer 1))] }]

/-- It is derived, and a collation may stand around all of it. -/
theorem oddName_derives : oddName.Grammatical Expr.Collatable ∧
    ∃ f, (oddName.collate "RTRIM").render (Scope.outermost people) false = .ok f ∧ f.text =
        "((\"name\" COLLATE NOCASE NOT LIKE LOWER(?)) AND (EXISTS (SELECT ?)) COLLATE RTRIM)" ∧
      Derives .expr f.tokens := by
  have hnocase : IsName "NOCASE" := Derives.word (by decide)
  have hlower : IsName "LOWER" := Derives.word (by decide)
  have hrtrim : IsName "RTRIM" := Derives.word (by decide)
  have hlike : (Expr.infixOp "NOT LIKE" (.collate (.column none "name") "NOCASE")
      (.call "LOWER" [.value (.text "A")])).Grammatical Expr.Collatable :=
    ⟨by decide, ⟨trivial, hnocase, rfl⟩, hlower, trivial, trivial⟩
  have hone : Query.Grammatical Expr.Collatable
      { Query.empty with selection := [.expr (.value (.integer 1))] } :=
    ⟨List.cons_ne_nil _ _, ⟨trivial, trivial⟩, trivial, trivial, trivial, trivial, trivial⟩
  have hg : oddName.Grammatical Expr.Collatable := ⟨hlike, hone, trivial⟩
  -- The text is computed; that it is derived is left to the theorem.
  obtain ⟨f, hf⟩ : ∃ f, (oddName.collate "RTRIM").render (Scope.outermost people) false = .ok f :=
    exists_ok (by decide +kernel)
  have hcollated := (Expr.grammatical_render_derives _ hg).2 "RTRIM" f hrtrim hf
  refine ⟨hg, f, hf, ?_, hcollated.mpr rfl⟩
  obtain rfl := Except.ok.inj hf
  decide +kernel

/-- **A collation around a count of rows** is written behind the star, and one around a call
without arguments is written between its parentheses. Neither is an expression. -/
theorem collated_count_not_derived :
    let scope : Scope := ⟨people, [[(⟨0⟩, some "persons")]]⟩
    let rows := Expr.collate (.count (.star ⟨0⟩)) "NOCASE"
    let random := Expr.collate (.call "RANDOM" []) "NOCASE"
    (rows.Grammatical (fun _ => True) ∧ ∃ f, rows.render scope false = .ok f ∧
      f.text = "COUNT(* COLLATE NOCASE)" ∧ ¬ Derives .expr f.tokens) ∧
    random.Grammatical (fun _ => True) ∧ ∃ f, random.render scope false = .ok f ∧
      f.text = "RANDOM(COLLATE NOCASE)" ∧ ¬ Derives .expr f.tokens := by
  have hcollation : IsName "NOCASE" := Derives.word (by decide)
  have hfunction : IsName "RANDOM" := Derives.word (by decide)
  refine ⟨⟨⟨trivial, hcollation, trivial⟩, _, rfl, by decide +kernel, ?_⟩,
    ⟨⟨hfunction, trivial⟩, hcollation, trivial⟩, _, rfl, by decide +kernel, ?_⟩
  · exact EndsBare.not_derives_collated
      ⟨single (.function "COUNT") ++ token .openParen, .star, rfl, .inr rfl⟩ "NOCASE"
  · exact EndsBare.not_derives_collated
      ⟨single (.function "RANDOM"), .openParen, rfl, .inl rfl⟩ "NOCASE"

end RelationalQuery
