/-
  RelationalQuery.Proofs.Reading.Interpretation — what a phrase is worth.

  A phrase is evaluated with any values in the columns and any rows in the subqueries, in the logic
  of three truth values. Every form has its own table: the forms that say a negation, such as the
  inequality sign or NOT IN, are not defined as negations.

  Main definitions:
    * `Interpretation`: the values that a phrase is evaluated with.
    * `Phrase.eval`, `Fragment.truth?`: the value of a phrase, and the truth of a condition.

  Main statements:
    * `Interpretation.notEqual_eq`, `Interpretation.notMember_eq`: these forms do say negations.
-/

import RelationalQuery.Proofs.Reading.Truth
import RelationalQuery.Proofs.Reading.Written

namespace RelationalQuery

open Sql

/-! ## Interpretations -/

/-- The values that a phrase is evaluated with: what stands in the columns and what subqueries give,
and what is up to the engine. -/
structure Interpretation (Cell : Type) where
  null : Cell
  isNull : Cell → Bool
  value : Value → Cell
  constant : String → Cell
  column : Option String → String → Cell
  /-- The rows of a subquery, each by its first cell. -/
  rows : List Chunk → List Cell
  /-- A cell as a condition. -/
  truth : Cell → Truth
  /-- The result of a condition. -/
  ofTruth : Truth → Cell
  /-- Whether two cells are equal that are not NULL. -/
  agree : Cell → Cell → Bool
  collate : String → Cell → Cell
  prefixed : String → Cell → Cell
  infixed : String → Cell → Cell → Cell
  function : String → List Cell → Cell
  /-- A function of all rows. -/
  ofRows : String → Cell
  /-- A function of distinct values. -/
  ofDistinct : String → Cell → Cell
  truth_ofTruth : ∀ t, truth (ofTruth t) = t
  truth_zero : truth (constant "0") = some false
  truth_one : truth (constant "1") = some true

namespace Interpretation

variable {Cell : Type} (M : Interpretation Cell)

/-- The comparison by an equality sign, unknown beside NULL. -/
def equal (a b : Cell) : Truth :=
  if M.isNull a || M.isNull b then none else some (M.agree a b)

/-- The comparison by an inequality sign, unknown beside NULL. -/
def notEqual (a b : Cell) : Truth :=
  if M.isNull a || M.isNull b then none else some (!M.agree a b)

/-- The comparison by IS, by which NULL is the same as NULL only. -/
def same (a b : Cell) : Bool :=
  if M.isNull a || M.isNull b then M.isNull a && M.isNull b else M.agree a b

/-- IN: equal to one of the cells. -/
def member (a : Cell) (cells : List Cell) : Truth := .any (cells.map (M.equal a))

/-- NOT IN: different from all of the cells. -/
def notMember (a : Cell) (cells : List Cell) : Truth := .all (cells.map (M.notEqual a))

/-- Being unequal is the negation of being equal, in three values. -/
theorem notEqual_eq (a b : Cell) : M.notEqual a b = .negatedIf true (M.equal a b) := by
  unfold notEqual equal
  split <;> rfl

/-- Being no member is the negation of being one, in three values. -/
theorem notMember_eq (a : Cell) (cells : List Cell) :
    M.notMember a cells = .negatedIf true (M.member a cells) := by
  have hcells : cells.map (M.notEqual a) = (cells.map (M.equal a)).map (Truth.negatedIf true) := by
    rw [List.map_map]
    exact List.map_congr_left fun b _ => M.notEqual_eq a b
  rw [notMember, hcells, Truth.all_map_negatedIf, member]

end Interpretation

/-! ## Evaluation -/

section Evaluation

variable {Cell : Type} (M : Interpretation Cell)

mutual

/-- The value of a phrase. -/
def Phrase.eval : Phrase → Cell
  | .null => M.null
  | .value v => M.value v
  | .constant text => M.constant text
  | .column qualifier name => M.column qualifier name
  | .collated p collation => M.collate collation p.eval
  | .not p => M.ofTruth (.negatedIf true (M.truth p.eval))
  | .and ps => M.ofTruth (.all ((Phrase.evalAll ps).map M.truth))
  | .or ps => M.ofTruth (.any ((Phrase.evalAll ps).map M.truth))
  | .equal a b => M.ofTruth (M.equal a.eval b.eval)
  | .notEqual a b => M.ofTruth (M.notEqual a.eval b.eval)
  | .is a b => M.ofTruth (some (M.same a.eval b.eval))
  | .isNot a b => M.ofTruth (some (!M.same a.eval b.eval))
  | .between p low high => M.ofTruth (.all [M.truth (M.infixed ">=" p.eval low.eval),
      M.truth (M.infixed "<=" p.eval high.eval)])
  | .prefixOp op p => M.prefixed op p.eval
  | .infixOp op a b => M.infixed op a.eval b.eval
  | .inList negated p items =>
    M.ofTruth ((if negated then M.notMember else M.member) p.eval (Phrase.evalAll items))
  | .inQuery negated p query =>
    M.ofTruth ((if negated then M.notMember else M.member) p.eval (M.rows query))
  | .exists query => M.ofTruth (some !(M.rows query).isEmpty)
  | .call function arguments => M.function function (Phrase.evalAll arguments)
  | .callStar function => M.ofRows function
  | .callDistinct function p => M.ofDistinct function p.eval

def Phrase.evalAll : List Phrase → List Cell
  | [] => []
  | p :: rest => p.eval :: Phrase.evalAll rest

end

/-- The phrase as a condition. -/
def Phrase.truth (p : Phrase) : Truth := M.truth (p.eval M)

/-- The fragment as a condition, if it is an expression. -/
def Fragment.truth? (f : Fragment) : Option Truth := f.phrase?.map (·.truth M)

/-- The term as a condition, if it can be read. -/
def Sql.Term.truth? (t : Term) : Option Truth := (t.operand []).map fun o => (o.phrase []).truth M

/-- The truth of a written term is that of the term, since it is read as the term. -/
theorem Sql.Term.truth?_write (t : Term) : t.write.truth? M = t.truth? M := by
  rw [Fragment.truth?, t.phrase?_write, Option.map_map]
  rfl

end Evaluation

end RelationalQuery
