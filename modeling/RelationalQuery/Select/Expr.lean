/-
  RelationalQuery.Select.Expr — building expressions.

  Conjunctions and disjunctions flatten as they are built: a conjunction among the terms of a
  conjunction is replaced by its own terms, and a single term stands for itself. So every
  bracketing of the same terms gives the same expression.

  Main definitions:
    * `Expr.all`, `Expr.any`: conjunction and disjunction.
    * Comparison, arithmetic and membership, each under its usual name.
-/

import RelationalQuery.Select.Basic

namespace RelationalQuery

/-! ## References -/

/-- A column of one occurrence of a source. -/
def SourceId.column (source : SourceId) (name : String) : Expr := .column (some source) name

/-- All columns of one occurrence of a source. -/
def SourceId.star (source : SourceId) : ResultColumn := .star source

namespace Expr

/-! ## Logic -/

/-- The terms of a conjunction, or the expression itself. -/
def conjuncts : Expr → List Expr
  | .and terms => terms
  | e => [e]

/-- The terms of a disjunction, or the expression itself. -/
def disjuncts : Expr → List Expr
  | .or terms => terms
  | e => [e]

/-- Conjunction of all terms; of none, it is true. -/
def all (terms : List Expr) : Expr :=
  match terms.flatMap conjuncts with
  | [e] => e
  | es => .and es

/-- Disjunction of all terms; of none, it is false. -/
def any (terms : List Expr) : Expr :=
  match terms.flatMap disjuncts with
  | [e] => e
  | es => .or es

/-- The constant NULL, as opposed to an expression that may turn out to be NULL. -/
def isNullValue : Expr → Bool
  | .value v => v.isNull
  | _ => false

/-! ## Operators -/

def lt (lhs rhs : Expr) : Expr := .infixOp "<" lhs rhs

def le (lhs rhs : Expr) : Expr := .infixOp "<=" lhs rhs

def gt (lhs rhs : Expr) : Expr := .infixOp ">" lhs rhs

def ge (lhs rhs : Expr) : Expr := .infixOp ">=" lhs rhs

def add (lhs rhs : Expr) : Expr := .infixOp "+" lhs rhs

def sub (lhs rhs : Expr) : Expr := .infixOp "-" lhs rhs

def mul (lhs rhs : Expr) : Expr := .infixOp "*" lhs rhs

def div (lhs rhs : Expr) : Expr := .infixOp "/" lhs rhs

def concat (lhs rhs : Expr) : Expr := .infixOp "||" lhs rhs

def like (lhs pattern : Expr) : Expr := .infixOp "LIKE" lhs pattern

def glob (lhs pattern : Expr) : Expr := .infixOp "GLOB" lhs pattern

def neg (e : Expr) : Expr := .prefixOp "-" e

/-- None of the items is equal to the expression. -/
def notInList (e : Expr) (items : List Expr) : Expr := .not (.inList e items)

/-! ## Functions -/

def abs (e : Expr) : Expr := .call "ABS" [e]

def avg (e : Expr) : Expr := .call "AVG" [e]

def length (e : Expr) : Expr := .call "LENGTH" [e]

def lower (e : Expr) : Expr := .call "LOWER" [e]

def upper (e : Expr) : Expr := .call "UPPER" [e]

def max (e : Expr) : Expr := .call "MAX" [e]

def min (e : Expr) : Expr := .call "MIN" [e]

def sum (e : Expr) : Expr := .call "SUM" [e]

end Expr

/-! ## List entries -/

/-- The selected expression, unless the entry is a star. -/
def ResultColumn.expr? : ResultColumn → Option Expr
  | .star _ => none
  | .expr e | .aliased e _ => some e

/-- The opposite direction; silence counts as ascending. -/
def OrderingTerm.flip (term : OrderingTerm) : OrderingTerm :=
  { term with direction := match term.direction with
      | some .descending => some .ascending
      | _ => some .descending }

end RelationalQuery
