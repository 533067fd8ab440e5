/-
  RelationalQuery.Select.Clauses — the written form of each construct, given its parts.

  Nothing here looks inside an operand: operands come as fragments, or as attempts at one when
  the construct decides which of them it needs. Every compound expression stands between
  parentheses of its own, so operands never interact.

  Main definitions:
    * `comparison`, `membership`, `connective` and the other expressions.
    * `onClause`, `orderClause` and the other clauses.
-/

import RelationalQuery.Fragment.Basic
import RelationalQuery.Scope.Basic

namespace RelationalQuery

open Fragment

/-- An attempt at a fragment. -/
abbrev Rendering : Type := Except QueryError Fragment

namespace Clauses

/-! ## References -/

/-- A column, or the like, behind the name of its source. -/
def qualified (source : Option String) (column : Fragment) : Fragment :=
  match source with
  | some name => ident name ++ token .dot ++ column
  | none => column

/-- A column of an occurrence, by its name in the scope. -/
def columnOf (scope : Scope) (source : SourceId) (column : String) : Rendering := do
  return qualified (← scope.name source column) (ident column)

/-- All columns of an occurrence. -/
def starOf (scope : Scope) (source : SourceId) : Rendering := do
  return qualified (← scope.name source "*") (token .star)

/-! ## Expressions -/

/-- NOT, when there is no shorter form of the negation. -/
def negatedIf (negated : Bool) (positive : Fragment) : Fragment :=
  if negated then (token .not ++ positive).parens else positive

/-- NOT in front of what follows, or nothing. -/
def notIf (negated : Bool) : Fragment := if negated then token .not else empty

/-- The operand is, or is not, NULL. -/
def nullTest (negated : Bool) (operand : Fragment) : Fragment :=
  (operand ++ token .is ++ notIf negated ++ token .null).parens

/-- Two operands with a mark between them. With a NULL constant on either side it is a test of the
other side for NULL. -/
def comparison (mark : Fragment) (negated : Bool) (lhs rhs : Expr) (left right : Rendering) :
    Rendering :=
  if rhs.isNullValue then nullTest negated <$> left
  else if lhs.isNullValue then nullTest negated <$> right
  else do return ((← left) ++ mark ++ (← right)).parens

def equality (negated : Bool) : Expr → Expr → Rendering → Rendering → Rendering :=
  comparison (token (if negated then .notEqual else .equal)) negated

def identity (negated : Bool) : Expr → Expr → Rendering → Rendering → Rendering :=
  comparison (token .is ++ notIf negated) negated

/-- Terms between AND or between OR. One term stands for itself, and no term is the constant that
the connective begins with. -/
def connective (mark : Token) (neutral : String) : List Fragment → Fragment
  | [] => raw neutral
  | [term] => term
  | terms => (joinWith mark terms).parens

/-- Membership in a group of rows or items. -/
def membership (negated : Bool) (operand group : Fragment) : Fragment :=
  (operand ++ notIf negated ++ token .in ++ group.parens).parens

/-- Membership in a list; nothing is a member of the empty list. -/
def listMembership (negated : Bool) (operand : Rendering) (items : Except QueryError (List Fragment))
    (isEmpty : Bool) : Rendering :=
  if isEmpty then .ok (raw (if negated then "1" else "0"))
  else do return membership negated (← operand) (joinWith .comma (← items))

/-- The query has, or has not, a row. -/
def existence (negated : Bool) (query : Fragment) : Fragment :=
  (notIf negated ++ token .exists ++ query.parens).parens

def range (operand low high : Fragment) : Fragment :=
  (operand ++ token .between ++ low ++ token .and ++ high).parens

def infixed (op : String) (left right : Fragment) : Fragment := (left ++ raw op ++ right).parens

/-- The operand under a collation, inside its parentheses if it has any. -/
def collated (operand : Fragment) (collation : String) : Fragment :=
  operand.insertBeforeClose (token .collate ++ raw collation)

/-! ## Joins -/

/-- The leaf that a join's condition refers to on its left: its id, and its table if it has one. -/
structure Anchor where
  id : SourceId
  table : Option String

/-- The root of a source as an anchor. -/
def anchor (s : Source) : Anchor :=
  ⟨s.root.id, match s.root with
    | .table _ table _ => some table
    | _ => none⟩

/-- A join that drops rows cannot follow one that keeps them. -/
def checkRequired (afterOptional : Bool) (kind : JoinKind) (relation : String) :
    Except QueryError Unit :=
  if afterOptional ∧ kind ≠ .left then .error (.requiredAfterOptional relation) else .ok ()

/-- Every column is one of the table's. Subqueries are not checked. -/
def checkColumns (schema : Schema) (table : Option String) (columns : List String) :
    Except QueryError Unit :=
  match table with
  | none => .ok ()
  | some table => do
    let known ← schema.columns table
    match columns.find? (!Schema.listsColumn known ·) with
    | some column => .error (.missingColumn (some table) column known)
    | none => .ok ()

/-- The columns of a mapping exist on both sides. -/
def checkMapping (schema : Schema) (left right : Anchor) (mapping : List (String × String)) :
    Except QueryError Unit := do
  checkColumns schema left.table (mapping.map (·.1))
  checkColumns schema right.table (mapping.map (·.2))

/-- One equality for each pair of a mapping. -/
def mappingTerms (scope : Scope) (left right : SourceId) :
    List (String × String) → Except QueryError (List Fragment)
  | [] => .ok []
  | (leftColumn, rightColumn) :: rest => do
    let target ← columnOf scope right rightColumn
    let source ← columnOf scope left leftColumn
    let rest ← mappingTerms scope left right rest
    return (target ++ token .equal ++ source) :: rest

def joinKeyword : JoinKind → Fragment
  | .inner => token .join
  | .left => token .left ++ token .join
  | .cross => token .cross ++ token .join

/-- The condition of a join. A cross join has none, and neither has a join without terms. -/
def onClause (kind : JoinKind) (mapped own : Except QueryError (List Fragment)) : Rendering :=
  match kind with
  | .cross => .ok empty
  | _ => do
    let terms := (← mapped) ++ (← own)
    return if terms.isEmpty then empty else token .on ++ joinWith .and terms

/-! ## Sources -/

/-- A table, with its name when that is another one. -/
def tableSource (table : String) (name : Option String) : Fragment :=
  match name with
  | some name => if name = table then ident table else ident table ++ ident name
  | none => ident table

/-- A query in parentheses, with its name if it has one. -/
def querySource (query : Fragment) (name : Option String) : Fragment :=
  match name with
  | some name => query.parens.aliased name
  | none => query.parens

/-! ## Statements -/

/-- The select list is the one star of the whole source, to which no relation adds columns. -/
def readsWhole (selection : List ResultColumn) (source : Option Source) : Bool :=
  match selection, source with
  | [.star id], some source => source.relationColumns.isEmpty && decide (id = source.id)
  | _, _ => false

/-- The select list: a bare star, or the columns in order. -/
def selectList (whole : Bool) (own added : Except QueryError (List Fragment)) : Rendering :=
  if whole then .ok (token .star) else do return joinWith .comma ((← own) ++ (← added))

/-- A clause with one operand, behind its keyword. -/
def behind (keyword : Token) (operand : Rendering) : Rendering := (token keyword ++ ·) <$> operand

/-- A clause behind its keywords, if there is anything in it. -/
def clause (keywords : List Token) (terms : List Fragment) : Fragment :=
  if terms.isEmpty then empty else ⟨keywords.map .token⟩ ++ joinWith .comma terms

/-- A term behind the direction that it states. -/
def orderingTerm (e : Fragment) (direction : Option Direction) : Fragment :=
  match direction with
  | none => e
  | some .ascending => e ++ token .asc
  | some .descending => e ++ token .desc

/-- The row ids of a table at the root, descending: the reverse of the order in which rows come
when none is stated. -/
def reverseRowIds (scope : Scope) (source : Option Source) : List Fragment :=
  match source.map Source.root with
  | some (.table id _ _) => [qualified (scope.name? id) (raw "_rowid_") ++ token .desc]
  | _ => []

/-- The ORDER BY clause: the stated terms, or for a reversed query without any, the row ids. -/
def orderClause (scope : Scope) (source : Option Source) (reversed : Bool)
    (terms : List Fragment) : Fragment :=
  clause [.order, .by] (if terms.isEmpty && reversed then reverseRowIds scope source else terms)

/-- The LIMIT clause. -/
def limitClause (limit : Option Limit) : Fragment :=
  match limit with
  | none => empty
  | some ⟨count, none⟩ => token .limit ++ number count
  | some ⟨count, some offset⟩ =>
    token .limit ++ number count ++ token .offset ++ number offset

end Clauses

end RelationalQuery
