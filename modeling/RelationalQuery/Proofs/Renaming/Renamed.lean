/-
  RelationalQuery.Proofs.Renaming.Renamed — the same query under other ids.

  An id tells one occurrence of a source from the others, and nothing else about it matters. So two
  queries are the same up to ids if one can be turned into the other by renaming ids throughout. The
  conditions and selections that a caller wrote as functions of sources count as the same if they
  give the same for sources that are the same: they use what they are given, and no id that they
  know by other means.

  Main definitions:
    * `Renaming`: which id is renamed to which.
    * `Expr.Renamed`, `Query.Renamed` and their companions: the same under other ids.
-/

import Mathlib.Data.List.Forall2
import RelationalQuery.Select.Basic

namespace RelationalQuery

/-- A renaming of ids, of all or of some: none is renamed to two, and no two are renamed to one. -/
structure Renaming where
  renames : SourceId → SourceId → Prop
  biUnique : Relator.BiUnique renames

namespace Renaming

variable (ρ : Renaming)

/-- The renaming of every id by a function. -/
def ofInjective (f : SourceId → SourceId) (hf : Function.Injective f) : Renaming where
  renames a b := f a = b
  biUnique := ⟨fun _ _ _ ha hb => hf (ha.trans hb.symm), fun _ _ _ ha hb => ha.symm.trans hb⟩

variable {ρ} {a b a' b' : SourceId}

/-- Ids are different just if they are when they are renamed. -/
theorem eq_iff (h : ρ.renames a a') (h' : ρ.renames b b') : a = b ↔ a' = b' :=
  Relator.rel_eq ρ.biUnique h h'

end Renaming

variable (ρ : Renaming)

mutual

/-- The same expression under other ids. -/
inductive Expr.Renamed : Expr → Expr → Prop
  | literal (sql : String) (arguments : Option Arguments) :
      Expr.Renamed (.literal sql arguments) (.literal sql arguments)
  | value (v : Value) : Expr.Renamed (.value v) (.value v)
  | bareColumn (name : String) : Expr.Renamed (.column none name) (.column none name)
  | column {s s' : SourceId} (h : ρ.renames s s') (name : String) :
      Expr.Renamed (.column (some s) name) (.column (some s') name)
  | collate {e e' : Expr} (h : Expr.Renamed e e') (collation : String) :
      Expr.Renamed (.collate e collation) (.collate e' collation)
  | not {e e' : Expr} (h : Expr.Renamed e e') : Expr.Renamed (.not e) (.not e')
  | equal {a a' b b' : Expr} (ha : Expr.Renamed a a') (hb : Expr.Renamed b b') :
      Expr.Renamed (.equal a b) (.equal a' b')
  | notEqual {a a' b b' : Expr} (ha : Expr.Renamed a a') (hb : Expr.Renamed b b') :
      Expr.Renamed (.notEqual a b) (.notEqual a' b')
  | is {a a' b b' : Expr} (ha : Expr.Renamed a a') (hb : Expr.Renamed b b') :
      Expr.Renamed (.is a b) (.is a' b')
  | isNot {a a' b b' : Expr} (ha : Expr.Renamed a a') (hb : Expr.Renamed b b') :
      Expr.Renamed (.isNot a b) (.isNot a' b')
  | prefixOp (op : String) {e e' : Expr} (h : Expr.Renamed e e') :
      Expr.Renamed (.prefixOp op e) (.prefixOp op e')
  | infixOp (op : String) {a a' b b' : Expr} (ha : Expr.Renamed a a') (hb : Expr.Renamed b b') :
      Expr.Renamed (.infixOp op a b) (.infixOp op a' b')
  | and {es es' : List Expr} (h : List.Forall₂ Expr.Renamed es es') :
      Expr.Renamed (.and es) (.and es')
  | or {es es' : List Expr} (h : List.Forall₂ Expr.Renamed es es') :
      Expr.Renamed (.or es) (.or es')
  | inList {e e' : Expr} (h : Expr.Renamed e e') {es es' : List Expr}
      (hes : List.Forall₂ Expr.Renamed es es') : Expr.Renamed (.inList e es) (.inList e' es')
  | inQuery {e e' : Expr} (h : Expr.Renamed e e') {q q' : Query} (hq : Query.Renamed q q') :
      Expr.Renamed (.inQuery e q) (.inQuery e' q')
  | exists {q q' : Query} (hq : Query.Renamed q q') : Expr.Renamed (.exists q) (.exists q')
  | between {a a' b b' c c' : Expr} (ha : Expr.Renamed a a') (hb : Expr.Renamed b b')
      (hc : Expr.Renamed c c') : Expr.Renamed (.between a b c) (.between a' b' c')
  | call (function : String) {es es' : List Expr} (h : List.Forall₂ Expr.Renamed es es') :
      Expr.Renamed (.call function es) (.call function es')
  | count {c c' : ResultColumn} (h : ResultColumn.Renamed c c') :
      Expr.Renamed (.count c) (.count c')
  | countDistinct {e e' : Expr} (h : Expr.Renamed e e') :
      Expr.Renamed (.countDistinct e) (.countDistinct e')

/-- The same entry of a select list under other ids. -/
inductive ResultColumn.Renamed : ResultColumn → ResultColumn → Prop
  | star {s s' : SourceId} (h : ρ.renames s s') : ResultColumn.Renamed (.star s) (.star s')
  | expr {e e' : Expr} (h : Expr.Renamed e e') : ResultColumn.Renamed (.expr e) (.expr e')
  | aliased {e e' : Expr} (h : Expr.Renamed e e') (label : String) :
      ResultColumn.Renamed (.aliased e label) (.aliased e' label)

/-- The same entry of an ORDER BY list under other ids. -/
inductive OrderingTerm.Renamed : OrderingTerm → OrderingTerm → Prop
  | mk {e e' : Expr} (h : Expr.Renamed e e') (direction : Option Direction) :
      OrderingTerm.Renamed ⟨e, direction⟩ ⟨e', direction⟩

/-- The same query under other ids. -/
inductive Query.Renamed : Query → Query → Prop
  | mk {selection selection' : List ResultColumn}
      (hselection : List.Forall₂ ResultColumn.Renamed selection selection') (distinct : Bool)
      {source source' : Option Source} (hsource : Option.Rel Source.Renamed source source')
      {filter filter' : Option Expr} (hfilter : Option.Rel Expr.Renamed filter filter')
      {groupBy groupBy' : List Expr} (hgroupBy : List.Forall₂ Expr.Renamed groupBy groupBy')
      {having having' : Option Expr} (hhaving : Option.Rel Expr.Renamed having having')
      {orderings orderings' : List OrderingTerm}
      (horderings : List.Forall₂ OrderingTerm.Renamed orderings orderings') (reversed : Bool)
      (limit : Option Limit) :
      Query.Renamed
        ⟨selection, distinct, source, filter, groupBy, having, orderings, reversed, limit⟩
        ⟨selection', distinct, source', filter', groupBy', having', orderings', reversed, limit⟩

/-- The same source under other ids. -/
inductive Source.Renamed : Source → Source → Prop
  | table {id id' : SourceId} (h : ρ.renames id id') (name : String) (label : Option Alias) :
      Source.Renamed (.table id name label) (.table id' name label)
  | subquery {id id' : SourceId} (h : ρ.renames id id') {q q' : Query} (hq : Query.Renamed q q')
      (label : Option Alias) : Source.Renamed (.subquery id q label) (.subquery id' q' label)
  | joinTree {id id' : SourceId} (h : ρ.renames id id') {left left' : Source}
      (hleft : Source.Renamed left left') {joins joins' : List Join}
      (hjoins : List.Forall₂ Join.Renamed joins joins') :
      Source.Renamed (.joinTree id left joins) (.joinTree id' left' joins')

/-- The same relation under other ids. Whatever sources its condition and its selection are given,
they are the same for the same sources. -/
inductive Relation.Renamed : Relation → Relation → Prop
  | mk (name : String) {target target' : Source} (htarget : Source.Renamed target target')
      (mapping : List (String × String)) {condition condition' : SourceId → SourceId → List Expr}
      (hcondition : ∀ left left' right right', ρ.renames left left' → ρ.renames right right' →
        List.Forall₂ Expr.Renamed (condition left right) (condition' left' right'))
      {selection selection' : SourceId → List ResultColumn}
      (hselection : ∀ right right', ρ.renames right right' →
        List.Forall₂ ResultColumn.Renamed (selection right) (selection' right'))
      {joins joins' : List Join} (hjoins : List.Forall₂ Join.Renamed joins joins') :
      Relation.Renamed ⟨name, target, mapping, condition, selection, joins⟩
        ⟨name, target', mapping, condition', selection', joins'⟩

/-- The same relation in its place under other ids. -/
inductive Join.Renamed : Join → Join → Prop
  | mk (included : Bool) (kind : JoinKind) {r r' : Relation} (h : Relation.Renamed r r') :
      Join.Renamed ⟨included, kind, r⟩ ⟨included, kind, r'⟩

end

end RelationalQuery
