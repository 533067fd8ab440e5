/-
  RelationalQuery.Proofs.Text.Fidelity — compiled texts are read as they were meant.

  A query is plain when it has no text of the caller's own in it, apart from operators and names
  that are one lexeme each. Tables, columns and aliases may be any strings. The text of a plain
  query falls into one lexeme for each chunk: no identifier ends early, no two chunks fuse, no
  comment begins, and its placeholders are those of the bound values, in order.

  Main definitions:
    * `Query.Plain`: what may be asked of the texts in a query.

  Main statements:
    * `Query.render_fluent`: a plain query is rendered as a fluent fragment.
    * `Query.lex_compile`: the lexemes and the placeholders of a compiled text.
-/

import RelationalQuery.Proofs.Building.Reachable
import RelationalQuery.Proofs.Statement.Scoping
import RelationalQuery.Proofs.Text.Fluent

namespace RelationalQuery

open Lexeme Lexer Fragment

/-! ## Plain queries -/

mutual

/-- No literal, operators that are one lexeme, and functions and collations that are words. -/
def Expr.Plain : Expr → Prop
  | .literal _ _ => False
  | .value _ | .column _ _ => True
  | .collate e collation => e.Plain ∧ IsWord collation
  | .not e | .countDistinct e => e.Plain
  | .equal lhs rhs | .notEqual lhs rhs | .is lhs rhs | .isNot lhs rhs => lhs.Plain ∧ rhs.Plain
  | .prefixOp op e => op ∈ prefixOperators ∧ e.Plain
  | .infixOp op lhs rhs => op ∈ infixOperators ∧ lhs.Plain ∧ rhs.Plain
  | .and terms | .or terms => Expr.PlainAll terms
  | .inList e items => e.Plain ∧ Expr.PlainAll items
  | .inQuery e query => e.Plain ∧ query.Plain
  | .exists query => query.Plain
  | .between e low high => e.Plain ∧ low.Plain ∧ high.Plain
  | .call function arguments => IsWord function ∧ Expr.PlainAll arguments
  | .count counted => counted.Plain

/-- All of the expressions are plain. -/
def Expr.PlainAll : List Expr → Prop
  | [] => True
  | e :: rest => e.Plain ∧ Expr.PlainAll rest

/-- The condition is plain, if there is one. -/
def Expr.PlainClause : Option Expr → Prop
  | some condition => condition.Plain
  | none => True

/-- The entry of a select list is plain; a star is. -/
def ResultColumn.Plain : ResultColumn → Prop
  | .star _ => True
  | .expr e | .aliased e _ => e.Plain

def ResultColumn.PlainAll : List ResultColumn → Prop
  | [] => True
  | column :: rest => column.Plain ∧ ResultColumn.PlainAll rest

def OrderingTerm.PlainAll : List OrderingTerm → Prop
  | [] => True
  | ⟨e, _⟩ :: rest => e.Plain ∧ OrderingTerm.PlainAll rest

/-- All clauses of the query are plain. -/
def Query.Plain : Query → Prop
  | ⟨selection, _, source, filter, groupBy, having, orderings, _, _⟩ =>
    ResultColumn.PlainAll selection ∧ Source.PlainClause source ∧ Expr.PlainClause filter ∧
      Expr.PlainAll groupBy ∧ Expr.PlainClause having ∧ OrderingTerm.PlainAll orderings

def Source.PlainClause : Option Source → Prop
  | some source => source.Plain
  | none => True

/-- The queries inside the source are plain, and so is what its joins say. -/
def Source.Plain : Source → Prop
  | .table _ _ _ => True
  | .subquery _ query _ => query.Plain
  | .joinTree _ left joins => left.Plain ∧ Join.PlainAll (Clauses.anchor left) joins

/-- Of conditions and selections it is asked at the references that they are given. -/
def Join.PlainAll (left : Clauses.Anchor) : List Join → Prop
  | [] => True
  | ⟨_, _, ⟨_, target, _, condition, selection, joins⟩⟩ :: rest =>
    target.Plain ∧ Expr.PlainAll (condition left.id target.id) ∧
      ResultColumn.PlainAll (selection target.id) ∧
      Join.PlainAll (Clauses.anchor target) joins ∧ Join.PlainAll left rest

end

/-! ## Constructs whose parts may fail -/

namespace Clauses

variable {scope : Scope} {f : Fragment}

/-- A column can stand as an operand. -/
theorem columnOf_operand {source : SourceId} {column : String}
    (h : columnOf scope source column = .ok f) : f.Operand := by
  obtain ⟨name, _, hf⟩ := bind_eq_ok.mp h
  rw [← pure_eq_ok.mp hf]
  exact operand_column name column

theorem starOf_fluent {source : SourceId} (h : starOf scope source = .ok f) : f.Fluent := by
  obtain ⟨name, _, hf⟩ := bind_eq_ok.mp h
  rw [← pure_eq_ok.mp hf]
  exact (operand_star name).toFluent

/-- A comparison of operands is an operand, with a NULL constant on either side too. -/
theorem comparison_operand {mark : Fragment} (hmark : mark.Fluent) {negated : Bool}
    {lhs rhs : Expr} {left right : Rendering} (hleft : ∀ g, left = .ok g → g.Operand)
    (hright : ∀ g, right = .ok g → g.Operand)
    (h : comparison mark negated lhs rhs left right = .ok f) : f.Operand := by
  unfold comparison at h
  split at h
  · obtain ⟨g, hg, rfl⟩ := map_eq_ok.mp h
    exact (hleft g hg).nullTest negated
  · split at h
    · obtain ⟨g, hg, rfl⟩ := map_eq_ok.mp h
      exact (hright g hg).nullTest negated
    · obtain ⟨a, ha, h⟩ := bind_eq_ok.mp h
      obtain ⟨b, hb, h⟩ := bind_eq_ok.mp h
      rw [← pure_eq_ok.mp h]
      exact hmark.between (hleft a ha) (hright b hb)

theorem equality_operand {negated : Bool} {lhs rhs : Expr} {left right : Rendering}
    (hleft : ∀ g, left = .ok g → g.Operand) (hright : ∀ g, right = .ok g → g.Operand)
    (h : equality negated lhs rhs left right = .ok f) : f.Operand := by
  refine comparison_operand (fluent_token _ ?_) hleft hright h
  cases negated <;> nofun

theorem identity_operand {negated : Bool} {lhs rhs : Expr} {left right : Rendering}
    (hleft : ∀ g, left = .ok g → g.Operand) (hright : ∀ g, right = .ok g → g.Operand)
    (h : identity negated lhs rhs left right = .ok f) : f.Operand :=
  comparison_operand ((fluent_token .is nofun).append (fluent_notIf negated)) hleft hright h

theorem mappingTerms_fluent {left right : SourceId} {mapping : List (String × String)}
    {fs : List Fragment} (h : mappingTerms scope left right mapping = .ok fs) :
    ∀ f ∈ fs, f.Fluent := by
  intro f hf
  obtain ⟨_, target, _, source, htarget, hsource, rfl⟩ := of_mem_mappingTerms mapping fs h f hf
  exact ((columnOf_operand htarget).toFluent.append (fluent_token .equal nofun)).append
    (columnOf_operand hsource).toFluent

/-- The condition of a join is fluent if its own terms are operands. -/
theorem onClause_fluent {kind : JoinKind} {mapped own : Except QueryError (List Fragment)}
    (hmapped : ∀ fs, mapped = .ok fs → ∀ f ∈ fs, f.Fluent)
    (hown : ∀ fs, own = .ok fs → ∀ f ∈ fs, f.Operand)
    (h : onClause kind mapped own = .ok f) : f.Fluent := by
  obtain rfl | ⟨equalities, terms, hequalities, hterms, _, rfl⟩ := of_onClause h
  · exact fluent_empty
  · refine (fluent_token .on nofun).append (Fluent.joinWith .and nofun fun f hf => ?_)
    exact (List.mem_append.mp hf).elim (hmapped equalities hequalities f) fun hf =>
      (hown terms hterms f hf).toFluent

/-- A select list is fluent if its items are. -/
theorem selectList_fluent {whole : Bool} {own added : Except QueryError (List Fragment)}
    (hown : ∀ fs, own = .ok fs → ∀ f ∈ fs, f.Fluent)
    (hadded : ∀ fs, added = .ok fs → ∀ f ∈ fs, f.Fluent)
    (h : selectList whole own added = .ok f) : f.Fluent := by
  unfold selectList at h
  split at h
  · cases h
    exact fluent_token .star nofun
  · obtain ⟨columns, hcolumns, h⟩ := bind_eq_ok.mp h
    obtain ⟨others, hothers, h⟩ := bind_eq_ok.mp h
    rw [← pure_eq_ok.mp h]
    exact Fluent.joinWith .comma nofun fun f hf =>
      (List.mem_append.mp hf).elim (hown columns hcolumns f) (hadded others hothers f)

theorem behind_fluent (keyword : Token) (hkeyword : keyword ≠ .dot) {operand : Rendering}
    (hoperand : ∀ g, operand = .ok g → g.Fluent) (h : behind keyword operand = .ok f) :
    f.Fluent := by
  obtain ⟨g, hg, rfl⟩ := map_eq_ok.mp h
  exact (fluent_token keyword hkeyword).append (hoperand g hg)

theorem isWord_count : IsWord "COUNT" :=
  ⟨'C', ['O', 'U', 'N', 'T'], rfl, by decide, List.all_eq_true.mp rfl⟩

end Clauses

/-! ## The walk over a query -/

mutual

/-- **A plain expression is rendered as an operand**, which keeps apart from whatever stands beside
it: by induction over it, together with all that can stand inside it. -/
theorem Expr.render_operand (scope : Scope) (negated : Bool) : (e : Expr) → e.Plain →
    ∀ f, e.render scope negated = .ok f → f.Operand
  | .literal _ _, hplain, _, _ => hplain.elim
  | .value v, _, f, h => by
      cases h
      exact (operand_param v).negatedIf negated
  | .column none name, _, f, h => by
      cases h
      exact (operand_ident name).negatedIf negated
  | .column (some source) name, _, f, h => by
      obtain ⟨g, hg, h⟩ := bind_eq_ok.mp h
      rw [← pure_eq_ok.mp h]
      exact (Clauses.columnOf_operand hg).negatedIf negated
  | .collate e collation, hplain, f, h => by
      obtain ⟨g, hg, h⟩ := bind_eq_ok.mp h
      rw [← pure_eq_ok.mp h]
      exact ((e.render_operand scope false hplain.1 g hg).collated hplain.2).negatedIf negated
  | .not e, hplain, f, h => e.render_operand scope (!negated) hplain f h
  | .equal lhs rhs, hplain, f, h =>
      Clauses.equality_operand (lhs.render_operand scope false hplain.1)
        (rhs.render_operand scope false hplain.2) h
  | .notEqual lhs rhs, hplain, f, h =>
      Clauses.equality_operand (lhs.render_operand scope false hplain.1)
        (rhs.render_operand scope false hplain.2) h
  | .is lhs rhs, hplain, f, h =>
      Clauses.identity_operand (lhs.render_operand scope false hplain.1)
        (rhs.render_operand scope false hplain.2) h
  | .isNot lhs rhs, hplain, f, h =>
      Clauses.identity_operand (lhs.render_operand scope false hplain.1)
        (rhs.render_operand scope false hplain.2) h
  | .prefixOp op e, hplain, f, h => by
      obtain ⟨g, hg, h⟩ := bind_eq_ok.mp h
      rw [← pure_eq_ok.mp h]
      exact ((e.render_operand scope false hplain.2 g hg).prefixed hplain.1).negatedIf negated
  | .infixOp op lhs rhs, hplain, f, h => by
      obtain ⟨left, hleft, h⟩ := bind_eq_ok.mp h
      obtain ⟨right, hright, h⟩ := bind_eq_ok.mp h
      rw [← pure_eq_ok.mp h]
      exact ((fluent_raw (.infixOp hplain.1)).between
        (lhs.render_operand scope false hplain.2.1 left hleft)
        (rhs.render_operand scope false hplain.2.2 right hright)).negatedIf negated
  | .and terms, hplain, f, h => by
      obtain ⟨fs, hfs, h⟩ := bind_eq_ok.mp h
      rw [← pure_eq_ok.mp h]
      exact (operand_connective .and nofun (by decide) fs
        (Expr.renderAll_operand scope terms hplain fs hfs)).negatedIf negated
  | .or terms, hplain, f, h => by
      obtain ⟨fs, hfs, h⟩ := bind_eq_ok.mp h
      rw [← pure_eq_ok.mp h]
      exact (operand_connective .or nofun (by decide) fs
        (Expr.renderAll_operand scope terms hplain fs hfs)).negatedIf negated
  | .inList e items, hplain, f, h => by
      rw [Expr.render, Clauses.listMembership] at h
      split at h
      · cases h
        -- Membership in no values is a constant.
        have hconstant : (if negated then "1" else "0") ∈ ["0", "1"] := by
          cases negated <;> decide
        exact operand_connective .or nofun hconstant [] nofun
      · obtain ⟨operand, hoperand, h⟩ := bind_eq_ok.mp h
        obtain ⟨group, hgroup, h⟩ := bind_eq_ok.mp h
        rw [← pure_eq_ok.mp h]
        exact (e.render_operand scope false hplain.1 operand hoperand).membership
          (Fluent.joinWith .comma nofun fun g hg =>
            (Expr.renderAll_operand scope items hplain.2 group hgroup g hg).toFluent) negated
  | .inQuery e query, hplain, f, h => by
      obtain ⟨operand, hoperand, h⟩ := bind_eq_ok.mp h
      obtain ⟨inner, _, h⟩ := bind_eq_ok.mp h
      obtain ⟨statement, hstatement, h⟩ := bind_eq_ok.mp h
      rw [← pure_eq_ok.mp h]
      exact (e.render_operand scope false hplain.1 operand hoperand).membership
        (query.render_fluent inner hplain.2 statement hstatement) negated
  | .exists query, hplain, f, h => by
      obtain ⟨inner, _, h⟩ := bind_eq_ok.mp h
      obtain ⟨statement, hstatement, h⟩ := bind_eq_ok.mp h
      rw [← pure_eq_ok.mp h]
      exact (query.render_fluent inner hplain statement hstatement).existence negated
  | .between e low high, hplain, f, h => by
      obtain ⟨operand, hoperand, h⟩ := bind_eq_ok.mp h
      obtain ⟨lower, hlower, h⟩ := bind_eq_ok.mp h
      obtain ⟨upper, hupper, h⟩ := bind_eq_ok.mp h
      rw [← pure_eq_ok.mp h]
      exact ((e.render_operand scope false hplain.1 operand hoperand).range
        (low.render_operand scope false hplain.2.1 lower hlower)
        (high.render_operand scope false hplain.2.2 upper hupper)).negatedIf negated
  | .call function arguments, hplain, f, h => by
      obtain ⟨fs, hfs, h⟩ := bind_eq_ok.mp h
      rw [← pure_eq_ok.mp h]
      exact (operand_call hplain.1 (Fluent.joinWith .comma nofun fun g hg =>
        (Expr.renderAll_operand scope arguments hplain.2 fs hfs g hg).toFluent)).negatedIf negated
  | .count counted, hplain, f, h => by
      obtain ⟨g, hg, h⟩ := bind_eq_ok.mp h
      rw [← pure_eq_ok.mp h]
      exact (operand_call Clauses.isWord_count
        (counted.renderCounted_fluent scope hplain g hg)).negatedIf negated
  | .countDistinct e, hplain, f, h => by
      obtain ⟨g, hg, h⟩ := bind_eq_ok.mp h
      rw [← pure_eq_ok.mp h]
      exact (operand_call Clauses.isWord_count ((fluent_token .distinct nofun).append
        (e.render_operand scope false hplain g hg).toFluent)).negatedIf negated

theorem Expr.renderAll_operand (scope : Scope) : (es : List Expr) → Expr.PlainAll es →
    ∀ fs, Expr.renderAll scope es = .ok fs → ∀ f ∈ fs, f.Operand
  | [], _, fs, h => by
      cases h
      exact nofun
  | e :: rest, hplain, fs, h => by
      obtain ⟨first, hfirst, h⟩ := bind_eq_ok.mp h
      obtain ⟨others, hothers, h⟩ := bind_eq_ok.mp h
      rw [← pure_eq_ok.mp h]
      exact List.forall_mem_cons.mpr ⟨e.render_operand scope false hplain.1 first hfirst,
        Expr.renderAll_operand scope rest hplain.2 others hothers⟩

/-- The condition of a clause is fluent. -/
theorem Expr.renderClause_fluent (scope : Scope) (keyword : Token) (hkeyword : keyword ≠ .dot) :
    (e : Option Expr) → Expr.PlainClause e →
      ∀ f, Expr.renderClause scope keyword e = .ok f → f.Fluent
  | some condition, hplain, f, h =>
      Clauses.behind_fluent keyword hkeyword (fun g hg =>
        (condition.render_operand scope false hplain g hg).toFluent) h
  | none, _, f, h => by
      cases h
      exact fluent_empty

theorem ResultColumn.renderCounted_fluent (scope : Scope) : (column : ResultColumn) →
    column.Plain → ∀ f, column.renderCounted scope = .ok f → f.Fluent
  | .star source, _, f, h => by
      obtain ⟨_, _, h⟩ := bind_eq_ok.mp h
      rw [← pure_eq_ok.mp h]
      exact fluent_token .star nofun
  | .expr e, hplain, f, h => (e.render_operand scope false hplain f h).toFluent
  | .aliased e _, hplain, f, h => (e.render_operand scope false hplain f h).toFluent

/-- A result column is fluent. -/
theorem ResultColumn.render_fluent (scope : Scope) : (column : ResultColumn) → column.Plain →
    ∀ f, column.render scope = .ok f → f.Fluent
  | .star source, _, f, h => Clauses.starOf_fluent h
  | .expr e, hplain, f, h => (e.render_operand scope false hplain f h).toFluent
  | .aliased e label, hplain, f, h => by
      obtain ⟨g, hg, h⟩ := bind_eq_ok.mp h
      rw [← pure_eq_ok.mp h]
      exact (e.render_operand scope false hplain g hg).toFluent.aliased label

/-- The columns of a select list are fluent. -/
theorem ResultColumn.renderAll_fluent (scope : Scope) : (columns : List ResultColumn) →
    ResultColumn.PlainAll columns →
      ∀ fs, ResultColumn.renderAll scope columns = .ok fs → ∀ f ∈ fs, f.Fluent
  | [], _, fs, h => by
      cases h
      exact nofun
  | column :: rest, hplain, fs, h => by
      obtain ⟨first, hfirst, h⟩ := bind_eq_ok.mp h
      obtain ⟨others, hothers, h⟩ := bind_eq_ok.mp h
      rw [← pure_eq_ok.mp h]
      exact List.forall_mem_cons.mpr ⟨column.render_fluent scope hplain.1 first hfirst,
        ResultColumn.renderAll_fluent scope rest hplain.2 others hothers⟩

theorem OrderingTerm.renderAll_fluent (scope : Scope) (reversed : Bool) :
    (terms : List OrderingTerm) → OrderingTerm.PlainAll terms →
      ∀ fs, OrderingTerm.renderAll scope reversed terms = .ok fs → ∀ f ∈ fs, f.Fluent
  | [], _, fs, h => by
      cases h
      exact nofun
  | ⟨e, direction⟩ :: rest, hplain, fs, h => by
      obtain ⟨first, hfirst, h⟩ := bind_eq_ok.mp h
      obtain ⟨others, hothers, h⟩ := bind_eq_ok.mp h
      rw [← pure_eq_ok.mp h]
      exact List.forall_mem_cons.mpr
        ⟨(e.render_operand scope false hplain.1 first hfirst).toFluent.orderingTerm _,
          OrderingTerm.renderAll_fluent scope reversed rest hplain.2 others hothers⟩

/-- **A plain query is rendered as a fluent fragment.** -/
theorem Query.render_fluent (scope : Scope) : (q : Query) → q.Plain →
    ∀ f, q.render scope = .ok f → f.Fluent
  | ⟨selection, distinct, source, filter, groupBy, having, orderings, reversed, limit⟩, hplain,
      f, h => by
      obtain ⟨hselection, hsource, hfilter, hgroupBy, hhaving, horderings⟩ := hplain
      obtain ⟨columns, clause, rows, groups, groupRows, terms, hcolumns, hclause, hrows, hgroups,
        hgroupRows, hterms, rfl⟩ := Query.of_render h
      have hdistinct : (if distinct then token .distinct else empty).Fluent := by
        cases distinct with
        | false => exact fluent_empty
        | true => exact fluent_token .distinct nofun
      -- One clause after the other; those that are not there are empty.
      have hlist := Clauses.selectList_fluent
        (ResultColumn.renderAll_fluent scope selection hselection)
        (Source.renderColumns_fluent scope source hsource) hcolumns
      have hread := Source.renderClause_fluent scope source hsource clause hclause
      have hwhere := Expr.renderClause_fluent scope .where nofun filter hfilter rows hrows
      have hgroup := fluent_clause [.group, .by] (by decide) fun g hg =>
        (Expr.renderAll_operand scope groupBy hgroupBy groups hgroups g hg).toFluent
      have hkept := Expr.renderClause_fluent scope .having nofun having hhaving groupRows hgroupRows
      have horder := fluent_orderClause scope source reversed
        (OrderingTerm.renderAll_fluent scope reversed orderings horderings terms hterms)
      exact ((((((((fluent_token .select nofun).append hdistinct).append hlist).append
        hread).append hwhere).append hgroup).append hkept).append horder).append
        (fluent_limitClause limit)

/-- The columns that the joins of a FROM clause add are fluent. -/
theorem Source.renderColumns_fluent (scope : Scope) : (source : Option Source) →
    Source.PlainClause source →
      ∀ fs, Source.renderColumns scope source = .ok fs → ∀ f ∈ fs, f.Fluent
  | some (.joinTree _ left joins), hplain, fs, h =>
      Join.renderColumns_fluent scope (Clauses.anchor left) joins hplain.2 fs h
  | some (.table ..), _, fs, h => by
      cases h
      exact nofun
  | some (.subquery ..), _, fs, h => by
      cases h
      exact nofun
  | none, _, fs, h => by
      cases h
      exact nofun

/-- A FROM clause is fluent. -/
theorem Source.renderClause_fluent (scope : Scope) : (source : Option Source) →
    Source.PlainClause source → ∀ f, Source.renderClause scope source = .ok f → f.Fluent
  | some source, hplain, f, h =>
      Clauses.behind_fluent .from nofun (source.render_fluent scope hplain) h
  | none, _, f, h => by
      cases h
      exact fluent_empty

theorem Join.renderColumns_fluent (scope : Scope) (left : Clauses.Anchor) :
    (joins : List Join) → Join.PlainAll left joins →
      ∀ fs, Join.renderColumns scope joins = .ok fs → ∀ f ∈ fs, f.Fluent
  | [], _, fs, h => by
      cases h
      exact nofun
  | ⟨included, _, ⟨_, target, _, _, selection, joins⟩⟩ :: rest, hplain, fs, h => by
      obtain ⟨_, _, hselection, hjoins, hrest⟩ := hplain
      obtain ⟨own, nested, others, hown, hnested, hothers, rfl⟩ := Join.of_renderColumns_cons h
      rw [List.forall_mem_append, List.forall_mem_append]
      refine ⟨⟨?_, Join.renderColumns_fluent scope _ joins hjoins nested hnested⟩,
        Join.renderColumns_fluent scope left rest hrest others hothers⟩
      cases included
      · cases hown
        exact nofun
      · exact ResultColumn.renderAll_fluent scope _ hselection own hown

/-- A source is fluent, with the query inside it and the joins on it. -/
theorem Source.render_fluent (scope : Scope) : (s : Source) → s.Plain →
    ∀ f, s.render scope = .ok f → f.Fluent
  | .table id table _, _, f, h => by
      cases h
      exact fluent_tableSource table _
  | .subquery id query _, hplain, f, h => by
      obtain ⟨statement, hstatement, h⟩ := bind_eq_ok.mp h
      rw [← pure_eq_ok.mp h]
      exact (query.render_fluent scope hplain statement hstatement).querySource _
  | .joinTree _ left joins, hplain, f, h => by
      obtain ⟨source, hsource, h⟩ := bind_eq_ok.mp h
      obtain ⟨joined, hjoined, h⟩ := bind_eq_ok.mp h
      rw [← pure_eq_ok.mp h]
      exact (left.render_fluent scope hplain.1 source hsource).append
        (Join.renderAll_fluent scope _ false joins hplain.2 joined hjoined)

/-- Joins are fluent, with their conditions and the joins below them. -/
theorem Join.renderAll_fluent (scope : Scope) (left : Clauses.Anchor) (afterOptional : Bool) :
    (joins : List Join) → Join.PlainAll left joins →
      ∀ f, Join.renderAll scope left afterOptional joins = .ok f → f.Fluent
  | [], _, f, h => by
      cases h
      exact fluent_empty
  | ⟨_, kind, ⟨name, target, mapping, condition, _, joins⟩⟩ :: rest, hplain, f, h => by
      obtain ⟨htarget, hcondition, _, hjoins, hrest⟩ := hplain
      obtain ⟨source, on, nested, others, hsource, hon, hnested, hothers, rfl⟩ :=
        Join.of_renderAll_cons h
      have hon := Clauses.onClause_fluent (fun _ => Clauses.mappingTerms_fluent)
        (Expr.renderAll_operand scope _ hcondition) hon
      exact ((((fluent_joinKeyword kind).append
        (target.render_fluent scope htarget source hsource)).append hon).append
        (Join.renderAll_fluent scope _ _ joins hjoins nested hnested)).append
        (Join.renderAll_fluent scope left afterOptional rest hrest others hothers)

end

/-! ## Arguments -/

namespace Fragment

/-- Without literals the arguments are the values of the placeholders. -/
theorem arguments_of_plain {f : Fragment} (hplain : ∀ c ∈ f.chunks, c.Plain) :
    f.arguments = .ok ⟨f.params, []⟩ := by
  have hcollect : ∀ chunks : List Chunk, (∀ c ∈ chunks, c.Plain) → ∀ done : List Value,
      chunks.foldlM collect ⟨done, []⟩ = Except.ok ⟨done ++ params ⟨chunks⟩, []⟩ := by
    intro chunks
    induction chunks with
    | nil =>
        intro _ done
        rw [params, List.filterMap_nil, List.append_nil]
        rfl
    | cons c rest ih =>
        intro h done
        obtain ⟨hc, hrest⟩ := List.forall_mem_cons.mp h
        cases hc with
        -- Of plain chunks only a parameter has anything to collect.
        | param v => exact (ih hrest (done ++ [v])).trans (by rw [List.append_assoc]; rfl)
        | _ => exact ih hrest done
  exact hcollect f.chunks hplain []

/-- The chunks that stand for placeholders are those of the values. -/
theorem filter_placeholder (f : Fragment) :
    (f.chunks.filter fun c => decide (c.lexeme = .placeholder "")) = f.params.map .param := by
  obtain ⟨chunks⟩ := f
  induction chunks with
  | nil => rfl
  | cons c rest ih =>
      have hcons : params ⟨c :: rest⟩ = params ⟨[c]⟩ ++ params ⟨rest⟩ :=
        List.filterMap_append (l := [c])
      rw [List.filter_cons, hcons, List.map_append, ih]
      by_cases h : c.lexeme = .placeholder ""
      · obtain ⟨v, rfl⟩ := c.lexeme_cases.2.mp h
        rfl
      · have hnone : params ⟨[c]⟩ = [] := by
          cases c with
          | param v => exact absurd rfl h
          | _ => rfl
        rw [hnone, if_neg (by simpa using h)]
        rfl

end Fragment

/-! ## Statements that stand alone -/

/-- **A compiled text is read as it was meant.** The lexemes of the text of a plain query are those
of its chunks: every identifier is read as the name that it was written for, neighbours do not
fuse, and no comment begins. The chunks behind the placeholders are those of the positional
values in order, and there are no other values. -/
theorem Query.lex_compile {schema : Schema} {q : Query} {sql : BoundSql}
    (h : q.compile schema = .ok sql) (hplain : q.Plain) : ∃ f, q.fragment schema = .ok f ∧
      lex sql.sql = some (f.chunks.map Chunk.lexeme) ∧
      Lexeme.comment ∉ f.chunks.map Chunk.lexeme ∧
      (f.chunks.filter fun c => decide (c.lexeme = .placeholder "")) =
        sql.arguments.positional.map .param ∧
      sql.arguments.named = [] := by
  obtain ⟨f, hf, hbuild⟩ := bind_eq_ok.mp h
  obtain ⟨scope, _, hrender⟩ := bind_eq_ok.mp hf
  have hfluent := q.render_fluent scope hplain f hrender
  -- Plain fragments bind no names, so building them cannot fail.
  rw [build_eq, arguments_of_plain hfluent.plain] at hbuild
  rw [← pure_eq_ok.mp hbuild]
  refine ⟨f, hf, lex_text hfluent.plain hfluent.meets, fun hcomment => ?_,
    filter_placeholder f, rfl⟩
  obtain ⟨c, _, hc⟩ := List.mem_map.mp hcomment
  exact c.lexeme_cases.1 hc

/-- Rows of a table with an awkward name, of which a column with an awkward name is small. -/
def smallRows : Query :=
  let rows := ((Query.table "what is \" ?").run 0).1
  rows.restrict (.lt (rows.column "a /* b") (.value (.integer 5)))

/-- The awkward names are read as they are, and the only placeholder is that of the value. -/
theorem smallRows_read : ∃ sql, smallRows.compile people = .ok sql ∧
    lex sql.sql = some [.word "SELECT", .mark "*", .word "FROM", .quoted "what is \" ?",
      .word "WHERE", .mark "(", .quoted "what is \" ?", .mark ".", .quoted "a /* b", .mark "<",
      .placeholder "", .mark ")"] ∧ sql.arguments = ⟨[.integer 5], []⟩ := by
  obtain ⟨sql, hsql⟩ : ∃ sql, smallRows.compile people = .ok sql := exists_ok (by decide +kernel)
  have hplain : smallRows.Plain :=
    ⟨⟨trivial, trivial⟩, trivial, ⟨by decide, trivial, trivial⟩, trivial, trivial, trivial⟩
  obtain ⟨f, hf, hlex, _, hplaceholders, hnamed⟩ := Query.lex_compile hsql hplain
  obtain rfl := Except.ok.inj hf
  refine ⟨sql, hsql, hlex.trans (by decide), ?_⟩
  obtain ⟨text, positional, named⟩ := sql
  obtain rfl : named = [] := hnamed
  -- The placeholders of the text are those of the values, so there is one value.
  have hvalues : [Value.integer 5].map Chunk.param = positional.map Chunk.param := hplaceholders
  rw [(List.map_inj_right fun _ _ => Chunk.param.inj).mp hvalues]

end RelationalQuery
