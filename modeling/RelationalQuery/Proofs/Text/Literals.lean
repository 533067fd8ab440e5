/-
  RelationalQuery.Proofs.Text.Literals — a statement brings the literals of its query only.

  Arguments come into a statement in two ways: a bound value has a placeholder of its own, and a
  literal has the arguments that its writer gave it. Rendering writes literals as they stand,
  perhaps not all of them, and makes up none.

  Main definitions:
    * `Fragment.Brings`, `Query.Brings`: all literals have arguments of one kind.

  Main statements:
    * `Query.render_brings`: what a query is rendered to has literals of that kind, too.
-/

import RelationalQuery.Proofs.Outcome
import RelationalQuery.Select.Rendering

namespace RelationalQuery

open Fragment

variable (A : Arguments → Prop)

/-! ## Kinds of literals -/

/-- The arguments of each literal are of the kind. -/
def Fragment.Brings (f : Fragment) : Prop :=
  ∀ sql own, Chunk.literal sql (some own) ∈ f.chunks → A own

/-- All of the fragments are such. -/
abbrev Fragment.AllBring (fs : List Fragment) : Prop := ∀ f ∈ fs, f.Brings A

mutual

/-- The arguments of each literal are of the kind, also in the queries inside. -/
def Expr.Brings : Expr → Prop
  | .literal _ (some own) => A own
  | .literal _ none | .value _ | .column _ _ => True
  | .collate e _ | .not e | .prefixOp _ e | .countDistinct e => e.Brings
  | .equal lhs rhs | .notEqual lhs rhs | .is lhs rhs | .isNot lhs rhs | .infixOp _ lhs rhs =>
    lhs.Brings ∧ rhs.Brings
  | .and terms | .or terms | .call _ terms => Expr.BringsAll terms
  | .inList e items => e.Brings ∧ Expr.BringsAll items
  | .inQuery e query => e.Brings ∧ query.Brings
  | .exists query => query.Brings
  | .between e low high => e.Brings ∧ low.Brings ∧ high.Brings
  | .count counted => counted.Brings

/-- The same of each expression of a list. -/
def Expr.BringsAll : List Expr → Prop
  | [] => True
  | e :: rest => e.Brings ∧ Expr.BringsAll rest

def Expr.BringsClause : Option Expr → Prop
  | some condition => condition.Brings
  | none => True

/-- The same of an entry of a select list. -/
def ResultColumn.Brings : ResultColumn → Prop
  | .star _ => True
  | .expr e | .aliased e _ => e.Brings

def ResultColumn.BringsAll : List ResultColumn → Prop
  | [] => True
  | column :: rest => column.Brings ∧ ResultColumn.BringsAll rest

def OrderingTerm.BringsAll : List OrderingTerm → Prop
  | [] => True
  | ⟨e, _⟩ :: rest => e.Brings ∧ OrderingTerm.BringsAll rest

/-- The same of all clauses of a query. -/
def Query.Brings : Query → Prop
  | ⟨selection, _, source, filter, groupBy, having, orderings, _, _⟩ =>
    ResultColumn.BringsAll selection ∧ Source.BringsClause source ∧ Expr.BringsClause filter ∧
      Expr.BringsAll groupBy ∧ Expr.BringsClause having ∧ OrderingTerm.BringsAll orderings

def Source.BringsClause : Option Source → Prop
  | some source => source.Brings
  | none => True

/-- The same of the queries inside a source, and of what its joins say. -/
def Source.Brings : Source → Prop
  | .table _ _ _ => True
  | .subquery _ query _ => query.Brings
  | .joinTree _ left joins => left.Brings ∧ Join.BringsAll (Clauses.anchor left) joins

/-- Of conditions and selections it is asked at the references that they are given. -/
def Join.BringsAll (left : Clauses.Anchor) : List Join → Prop
  | [] => True
  | ⟨_, _, ⟨_, target, _, condition, selection, joins⟩⟩ :: rest =>
    target.Brings ∧ Expr.BringsAll (condition left.id target.id) ∧
      ResultColumn.BringsAll (selection target.id) ∧
      Join.BringsAll (Clauses.anchor target) joins ∧ Join.BringsAll left rest

end

/-! ## Constructs, given their parts -/

namespace Fragment

variable {A} {a b f : Fragment}

theorem brings_single {c : Chunk} (h : ∀ sql own, c ≠ .literal sql (some own)) :
    (single c).Brings A := fun sql own hmem => absurd (List.mem_singleton.mp hmem).symm (h sql own)

@[simp] theorem brings_empty : empty.Brings A := nofun

@[simp] theorem brings_token (t : Token) : (token t).Brings A := brings_single nofun

@[simp] theorem brings_ident (name : String) : (ident name).Brings A := brings_single nofun

@[simp] theorem brings_raw (text : String) : (raw text).Brings A := brings_single nofun

@[simp] theorem brings_number (n : Nat) : (number n).Brings A := brings_single nofun

@[simp] theorem brings_function (name : String) : (single (.function name)).Brings A :=
  brings_single nofun

@[simp] theorem brings_prefixOp (op : String) : (single (.prefixOp op)).Brings A :=
  brings_single nofun

@[simp] theorem brings_tokens (ts : List Token) : Brings A ⟨ts.map .token⟩ := by
  intro sql own hmem
  obtain ⟨_, _, h⟩ := List.mem_map.mp hmem
  cases h

/-- Two fragments in a row bring what both bring. -/
@[simp] theorem brings_append : (a ++ b).Brings A ↔ a.Brings A ∧ b.Brings A := by
  simp only [Brings, chunks_append, List.mem_append, or_imp, forall_and]

@[simp] theorem brings_param (v : Value) : (param v).Brings A := by
  unfold param
  split
  · exact brings_token .null
  · exact brings_single nofun

@[simp] theorem brings_parens : a.parens.Brings A ↔ a.Brings A := by simp [parens]

@[simp] theorem brings_call {name : String} : (call name a).Brings A ↔ a.Brings A := by
  simp [call]

@[simp] theorem brings_aliased {name : String} : (a.aliased name).Brings A ↔ a.Brings A := by
  simp [aliased]

@[simp] theorem brings_joinWith {separator : Token} : {fs : List Fragment} →
    ((joinWith separator fs).Brings A ↔ ∀ f ∈ fs, f.Brings A)
  | [] => by simp [joinWith]
  | [a] => by simp [joinWith]
  | a :: b :: rest => by
      rw [joinWith, brings_append, brings_append, brings_joinWith, List.forall_mem_cons]
      simp

/-- What is written inside the last group comes beside what is there. -/
@[simp] theorem brings_collated {collation : String} :
    (Clauses.collated f collation).Brings A ↔ f.Brings A := by
  unfold Clauses.collated insertBeforeClose
  split
  · rename_i hlast
    obtain ⟨inside, hinside⟩ := List.getLast?_eq_some_iff.mp hlast
    have hf : f = ⟨inside⟩ ++ token .closeParen := congrArg Fragment.mk hinside
    -- What is inserted stands between the same pieces as before.
    have htail : ∀ tail : Fragment, Fragment.mk (f.chunks.dropLast ++ tail.chunks ++
        [.token .closeParen]) = ⟨inside⟩ ++ tail ++ token .closeParen := by
      intro tail
      rw [hinside, List.dropLast_concat]
      rfl
    rw [htail, hf]
    simp
  · simp

@[simp] theorem brings_negatedIf {negated : Bool} :
    (Clauses.negatedIf negated f).Brings A ↔ f.Brings A := by
  cases negated <;> simp [Clauses.negatedIf]

@[simp] theorem brings_notIf {negated : Bool} : (Clauses.notIf negated).Brings A := by
  cases negated <;> simp [Clauses.notIf]

@[simp] theorem brings_nullTest {negated : Bool} :
    (Clauses.nullTest negated f).Brings A ↔ f.Brings A := by
  simp [Clauses.nullTest]

@[simp] theorem brings_connective {mark : Token} {neutral : String} {fs : List Fragment} :
    (Clauses.connective mark neutral fs).Brings A ↔ ∀ f ∈ fs, f.Brings A := by
  unfold Clauses.connective
  split <;> simp

@[simp] theorem brings_qualified {source : Option String} :
    (Clauses.qualified source f).Brings A ↔ f.Brings A := by
  cases source <;> simp [Clauses.qualified]

@[simp] theorem brings_joinKeyword (kind : JoinKind) : (Clauses.joinKeyword kind).Brings A := by
  cases kind <;> simp [Clauses.joinKeyword]

@[simp] theorem brings_tableSource (table : String) (name : Option String) :
    (Clauses.tableSource table name).Brings A := by
  unfold Clauses.tableSource
  repeat' split
  all_goals simp

@[simp] theorem brings_querySource {name : Option String} :
    (Clauses.querySource f name).Brings A ↔ f.Brings A := by
  cases name <;> simp [Clauses.querySource]

@[simp] theorem brings_clause {keywords : List Token} {fs : List Fragment} :
    (Clauses.clause keywords fs).Brings A ↔ ∀ f ∈ fs, f.Brings A := by
  cases fs <;> simp [Clauses.clause]

@[simp] theorem brings_orderingTerm {direction : Option Direction} :
    (Clauses.orderingTerm f direction).Brings A ↔ f.Brings A := by
  unfold Clauses.orderingTerm
  split <;> simp

theorem brings_reverseRowIds {scope : Scope} {source : Option Source} :
    AllBring A (Clauses.reverseRowIds scope source) := by
  unfold Clauses.reverseRowIds
  split
  · exact List.forall_mem_singleton.mpr (by simp)
  · exact nofun

theorem brings_orderClause (scope : Scope) (source : Option Source) (reversed : Bool)
    {fs : List Fragment} (h : AllBring A fs) :
    (Clauses.orderClause scope source reversed fs).Brings A := by
  rw [Clauses.orderClause, brings_clause]
  split
  · exact brings_reverseRowIds
  · exact h

@[simp] theorem brings_limitClause (limit : Option Limit) :
    (Clauses.limitClause limit).Brings A := by
  unfold Clauses.limitClause
  split <;> simp

end Fragment

/-! ## Constructs whose parts may fail -/

namespace Clauses

variable {A} {scope : Scope}

theorem columnOf_brings (source : SourceId) (column : String) :
    Gives (Brings A) (columnOf scope source column) :=
  gives_any.bind fun _ _ => .ok (by simp)

theorem starOf_brings (source : SourceId) : Gives (Brings A) (starOf scope source) :=
  gives_any.bind fun _ _ => .ok (by simp)

/-- A comparison brings what its operands bring. -/
theorem comparison_brings {mark : Fragment} (hmark : mark.Brings A) {negated : Bool}
    {lhs rhs : Expr} {left right : Rendering} (hleft : Gives (Brings A) left)
    (hright : Gives (Brings A) right) :
    Gives (Brings A) (comparison mark negated lhs rhs left right) := by
  unfold comparison
  split
  · exact hleft.map fun _ h => by simpa using h
  · split
    · exact hright.map fun _ h => by simpa using h
    · exact hleft.bind fun a ha => hright.bind fun b hb => .ok (by simp [ha, hmark, hb])

theorem equality_brings {negated : Bool} {lhs rhs : Expr} {left right : Rendering}
    (hleft : Gives (Brings A) left) (hright : Gives (Brings A) right) :
    Gives (Brings A) (equality negated lhs rhs left right) :=
  comparison_brings (brings_token _) hleft hright

theorem identity_brings {negated : Bool} {lhs rhs : Expr} {left right : Rendering}
    (hleft : Gives (Brings A) left) (hright : Gives (Brings A) right) :
    Gives (Brings A) (identity negated lhs rhs left right) :=
  comparison_brings (by simp) hleft hright

theorem mappingTerms_brings (left right : SourceId) : (mapping : List (String × String)) →
    Gives (AllBring A) (mappingTerms scope left right mapping)
  | [] => .ok nofun
  | (leftColumn, rightColumn) :: rest => by
      refine (columnOf_brings (A := A) right rightColumn).bind fun target htarget => ?_
      refine (columnOf_brings (A := A) left leftColumn).bind fun source hsource => ?_
      refine (mappingTerms_brings left right rest).bind fun others hothers => ?_
      exact .ok (List.forall_mem_cons.mpr ⟨by simp [htarget, hsource], hothers⟩)

/-- The condition of a join brings what its own terms bring. -/
theorem onClause_brings {kind : JoinKind} {mapped own : Except QueryError (List Fragment)}
    (hmapped : Gives (AllBring A) mapped)
    (hown : Gives (AllBring A) own) :
    Gives (Brings A) (onClause kind mapped own) := by
  unfold onClause
  split
  · exact .ok brings_empty
  · refine hmapped.bind fun equalities hequalities => hown.bind fun terms hterms => .ok ?_
    have hall : AllBring A (equalities ++ terms) := List.forall_mem_append.mpr ⟨hequalities, hterms⟩
    split
    · exact brings_empty
    · rw [brings_append, brings_joinWith]
      exact ⟨brings_token .on, hall⟩

/-- A select list brings what its items bring. -/
theorem selectList_brings {whole : Bool} {own added : Except QueryError (List Fragment)}
    (hown : Gives (AllBring A) own)
    (hadded : Gives (AllBring A) added) :
    Gives (Brings A) (selectList whole own added) := by
  unfold selectList
  split
  · exact .ok (brings_token .star)
  · exact hown.bind fun columns hcolumns => hadded.bind fun others hothers =>
      .ok (brings_joinWith.mpr (List.forall_mem_append.mpr ⟨hcolumns, hothers⟩))

theorem behind_brings (keyword : Token) {operand : Rendering} (h : Gives (Brings A) operand) :
    Gives (Brings A) (behind keyword operand) :=
  h.map fun _ hf => by simpa using hf

theorem listMembership_brings {negated isEmpty : Bool} {operand : Rendering}
    {items : Except QueryError (List Fragment)} (hoperand : Gives (Brings A) operand)
    (hitems : Gives (AllBring A) items) :
    Gives (Brings A) (listMembership negated operand items isEmpty) := by
  unfold listMembership
  split
  · exact .ok (brings_raw _)
  · refine hoperand.bind fun a ha => hitems.bind fun fs hfs => .ok ?_
    simpa [membership, ha] using hfs

end Clauses

/-! ## The walk over a query -/

variable {A}

mutual

/-- **A rendered expression brings only arguments of the kind that its literals have**: by induction
over it, together with all that can stand inside it. -/
theorem Expr.render_brings (scope : Scope) (negated : Bool) : (e : Expr) → e.Brings A →
    Gives (Fragment.Brings A) (e.render scope negated)
  | .literal sql (some own), hA => by
      refine .ok (brings_negatedIf.mpr fun _ _ hmem => ?_)
      -- A literal brings its own arguments and no others.
      cases List.mem_singleton.mp hmem
      exact hA
  | .literal sql none, _ => .ok (brings_negatedIf.mpr (brings_single nofun))
  | .value v, _ => .ok (brings_negatedIf.mpr (brings_param v))
  | .column none name, _ => .ok (brings_negatedIf.mpr (brings_ident name))
  | .column (some source) name, _ =>
      (Clauses.columnOf_brings source name).bind fun _ hf => .ok (brings_negatedIf.mpr hf)
  | .collate e collation, hA =>
      (e.render_brings scope false hA).bind fun _ hf =>
        .ok (brings_negatedIf.mpr (brings_collated.mpr hf))
  | .not e, hA => e.render_brings scope (!negated) hA
  | .equal lhs rhs, hA | .notEqual lhs rhs, hA =>
      Clauses.equality_brings (lhs.render_brings scope false hA.1)
        (rhs.render_brings scope false hA.2)
  | .is lhs rhs, hA | .isNot lhs rhs, hA =>
      Clauses.identity_brings (lhs.render_brings scope false hA.1)
        (rhs.render_brings scope false hA.2)
  | .prefixOp op e, hA =>
      (e.render_brings scope false hA).bind fun _ hf => .ok (by simp [hf])
  | .infixOp op lhs rhs, hA => by
      refine (lhs.render_brings scope false hA.1).bind fun left hleft => ?_
      refine (rhs.render_brings scope false hA.2).bind fun right hright => ?_
      exact .ok (by simp [Clauses.infixed, hleft, hright])
  | .and terms, hA | .or terms, hA =>
      (Expr.renderAll_brings scope terms hA).bind fun _ hfs =>
        .ok (brings_negatedIf.mpr (brings_connective.mpr hfs))
  | .inList e items, hA =>
      Clauses.listMembership_brings (e.render_brings scope false hA.1)
        (Expr.renderAll_brings scope items hA.2)
  | .inQuery e query, hA => by
      refine (e.render_brings scope false hA.1).bind fun operand hoperand => ?_
      refine gives_any.bind fun inner _ => ?_
      refine (query.render_brings inner hA.2).bind fun statement hstatement => ?_
      exact .ok (by simp [Clauses.membership, hoperand, hstatement])
  | .exists query, hA => by
      refine gives_any.bind fun inner _ => ?_
      refine (query.render_brings inner hA).bind fun statement hstatement => ?_
      exact .ok (by simp [Clauses.existence, hstatement])
  | .between e low high, hA => by
      refine (e.render_brings scope false hA.1).bind fun operand hoperand => ?_
      refine (low.render_brings scope false hA.2.1).bind fun lower hlower => ?_
      refine (high.render_brings scope false hA.2.2).bind fun upper hupper => ?_
      exact .ok (by simp [Clauses.range, hoperand, hlower, hupper])
  | .call function terms, hA =>
      (Expr.renderAll_brings scope terms hA).bind fun _ hfs =>
        .ok (brings_negatedIf.mpr (brings_call.mpr (brings_joinWith.mpr hfs)))
  | .count counted, hA =>
      (counted.renderCounted_brings scope hA).bind fun _ hf =>
        .ok (brings_negatedIf.mpr (brings_call.mpr hf))
  | .countDistinct e, hA =>
      (e.render_brings scope false hA).bind fun _ hf => .ok (by simp [hf])

theorem Expr.renderAll_brings (scope : Scope) : (es : List Expr) → Expr.BringsAll A es →
    Gives (AllBring A) (Expr.renderAll scope es)
  | [], _ => .ok nofun
  | e :: rest, hA => by
      refine (e.render_brings scope false hA.1).bind fun first hfirst => ?_
      refine (Expr.renderAll_brings scope rest hA.2).bind fun others hothers => ?_
      exact .ok (List.forall_mem_cons.mpr ⟨hfirst, hothers⟩)

theorem Expr.renderClause_brings (scope : Scope) (keyword : Token) : (e : Option Expr) →
    Expr.BringsClause A e → Gives (Fragment.Brings A) (Expr.renderClause scope keyword e)
  | some condition, hA => Clauses.behind_brings keyword (condition.render_brings scope false hA)
  | none, _ => .ok brings_empty

theorem ResultColumn.renderCounted_brings (scope : Scope) : (column : ResultColumn) →
    column.Brings A → Gives (Fragment.Brings A) (column.renderCounted scope)
  | .star _, _ => gives_any.bind fun _ _ => .ok (brings_token .star)
  | .expr e, hA | .aliased e _, hA => e.render_brings scope false hA

theorem ResultColumn.render_brings (scope : Scope) : (column : ResultColumn) →
    column.Brings A → Gives (Fragment.Brings A) (column.render scope)
  | .star source, _ => Clauses.starOf_brings source
  | .expr e, hA => e.render_brings scope false hA
  | .aliased e _, hA =>
      (e.render_brings scope false hA).bind fun _ hf => .ok (brings_aliased.mpr hf)

theorem ResultColumn.renderAll_brings (scope : Scope) : (columns : List ResultColumn) →
    ResultColumn.BringsAll A columns →
      Gives (AllBring A) (ResultColumn.renderAll scope columns)
  | [], _ => .ok nofun
  | column :: rest, hA => by
      refine (column.render_brings scope hA.1).bind fun first hfirst => ?_
      refine (ResultColumn.renderAll_brings scope rest hA.2).bind fun others hothers => ?_
      exact .ok (List.forall_mem_cons.mpr ⟨hfirst, hothers⟩)

theorem OrderingTerm.renderAll_brings (scope : Scope) (reversed : Bool) :
    (terms : List OrderingTerm) → OrderingTerm.BringsAll A terms →
      Gives (AllBring A) (OrderingTerm.renderAll scope reversed terms)
  | [], _ => .ok nofun
  | ⟨e, direction⟩ :: rest, hA => by
      refine (e.render_brings scope false hA.1).bind fun first hfirst => ?_
      refine (OrderingTerm.renderAll_brings scope reversed rest hA.2).bind fun others hothers => ?_
      exact .ok (List.forall_mem_cons.mpr ⟨brings_orderingTerm.mpr hfirst, hothers⟩)

/-- **A query is rendered with the literals that it has.** -/
theorem Query.render_brings (scope : Scope) : (q : Query) → q.Brings A →
    Gives (Fragment.Brings A) (q.render scope)
  | ⟨selection, distinct, source, filter, groupBy, having, orderings, reversed, limit⟩, hA => by
      obtain ⟨hselection, hsource, hfilter, hgroupBy, hhaving, horderings⟩ := hA
      refine (Clauses.selectList_brings (ResultColumn.renderAll_brings scope selection hselection)
        (Source.renderColumns_brings scope source hsource)).bind fun columns hcolumns => ?_
      refine (Source.renderClause_brings scope source hsource).bind fun sources hsources => ?_
      refine (Expr.renderClause_brings scope .where filter hfilter).bind fun rows hrows => ?_
      refine (Expr.renderAll_brings scope groupBy hgroupBy).bind fun groups hgroups => ?_
      refine (Expr.renderClause_brings scope .having having hhaving).bind fun kept hkept => ?_
      refine (OrderingTerm.renderAll_brings scope reversed orderings horderings).bind
        fun terms hterms => ?_
      have hdistinct : (if distinct then token .distinct else empty).Brings A := by
        cases distinct <;> simp
      have horder := brings_orderClause scope source reversed hterms
      exact .ok (by simp [hdistinct, hcolumns, hsources, hrows, brings_clause.mpr hgroups, hkept,
        horder])

theorem Source.renderColumns_brings (scope : Scope) : (source : Option Source) →
    Source.BringsClause A source →
      Gives (AllBring A) (Source.renderColumns scope source)
  | some (.joinTree _ left joins), hA =>
      Join.renderColumns_brings scope (Clauses.anchor left) joins hA.2
  | some (.table ..), _ | some (.subquery ..), _ | none, _ => .ok nofun

theorem Source.renderClause_brings (scope : Scope) : (source : Option Source) →
    Source.BringsClause A source → Gives (Fragment.Brings A) (Source.renderClause scope source)
  | some source, hA => Clauses.behind_brings .from (source.render_brings scope hA)
  | none, _ => .ok brings_empty

theorem Join.renderColumns_brings (scope : Scope) (left : Clauses.Anchor) :
    (joins : List Join) → Join.BringsAll A left joins →
      Gives (AllBring A) (Join.renderColumns scope joins)
  | [], _ => .ok nofun
  | ⟨included, _, ⟨_, target, _, _, selection, joins⟩⟩ :: rest, hA => by
      obtain ⟨_, _, hselection, hjoins, hrest⟩ := hA
      -- Whatever the relation itself adds, what follows it is the same.
      have hadded : ∀ own : List Fragment, AllBring A own →
          Gives (AllBring A) (do
            let nested ← Join.renderColumns scope joins
            let rest ← Join.renderColumns scope rest
            return own ++ nested ++ rest) := by
        intro own hown
        refine (Join.renderColumns_brings scope _ joins hjoins).bind fun nested hnested => ?_
        refine (Join.renderColumns_brings scope left rest hrest).bind fun others hothers => ?_
        exact .ok (List.forall_mem_append.mpr
          ⟨List.forall_mem_append.mpr ⟨hown, hnested⟩, hothers⟩)
      cases included with
      | false => exact hadded [] nofun
      | true => exact (ResultColumn.renderAll_brings scope _ hselection).bind hadded

theorem Source.render_brings (scope : Scope) : (s : Source) → s.Brings A →
    Gives (Fragment.Brings A) (s.render scope)
  | .table id table _, _ => .ok (brings_tableSource table _)
  | .subquery id query _, hA =>
      (query.render_brings scope hA).bind fun _ hf => .ok (brings_querySource.mpr hf)
  | .joinTree _ left joins, hA => by
      refine (left.render_brings scope hA.1).bind fun source hsource => ?_
      refine (Join.renderAll_brings scope _ false joins hA.2).bind fun joined hjoined => ?_
      exact .ok (brings_append.mpr ⟨hsource, hjoined⟩)

theorem Join.renderAll_brings (scope : Scope) (left : Clauses.Anchor) (afterOptional : Bool) :
    (joins : List Join) → Join.BringsAll A left joins →
      Gives (Fragment.Brings A) (Join.renderAll scope left afterOptional joins)
  | [], _ => .ok brings_empty
  | ⟨_, kind, ⟨name, target, mapping, condition, _, joins⟩⟩ :: rest, hA => by
      obtain ⟨htarget, hcondition, _, hjoins, hrest⟩ := hA
      refine gives_any.bind fun _ _ => gives_any.bind fun _ _ => ?_
      refine (target.render_brings scope htarget).bind fun source hsource => ?_
      refine (Clauses.onClause_brings (Clauses.mappingTerms_brings left.id target.id mapping)
        (Expr.renderAll_brings scope _ hcondition)).bind fun joined hjoined => ?_
      refine (Join.renderAll_brings scope _ _ joins hjoins).bind fun nested hnested => ?_
      refine (Join.renderAll_brings scope left afterOptional rest hrest).bind
        fun others hothers => ?_
      exact .ok (by simp [hsource, hjoined, hnested, hothers])

end

end RelationalQuery
