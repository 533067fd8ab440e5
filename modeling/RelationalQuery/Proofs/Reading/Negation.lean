/-
  RelationalQuery.Proofs.Reading.Negation — NOT is three-valued negation.

  A negation is not always written as NOT around its operand: some operands have a form of their own
  for it, a NULL constant changes the form once more, and an empty list leaves a constant. Whichever
  form is written, it says the opposite of what the operand says.

  Main definitions:
    * `Sql.Term.Opposed`: two terms have opposite truth values.
    * `Interpretation.plain`: an interpretation for any columns and any rows of subqueries.

  Main statements:
    * `Expr.resolve_opposed`: the two forms of an expression have opposite truth values.
    * `Expr.render_not`: so does the written negation, as SQL is read.
-/

import RelationalQuery.Proofs.Reading.Interpretation
import RelationalQuery.Proofs.Reading.Legible
import RelationalQuery.Proofs.Statement.Writing

namespace RelationalQuery

open Sql

/-! ## Opposite terms -/

namespace Sql.Term

/-- The second term is true where the first is false, false where it is true, and unknown where it
is unknown. -/
def Opposed (t u : Term) : Prop :=
  ∀ {Cell : Type} (M : Interpretation Cell), u.truth? M = (t.truth? M).map (Truth.negatedIf true)

variable {t u : Term}

/-- The opposite of the opposite is the term's own truth. -/
theorem Opposed.symm (h : Opposed t u) : Opposed u t := by
  intro Cell M
  rw [h M, Option.map_map]
  cases t.truth? M with
  | none => rfl
  | some b => exact congrArg some (Truth.negatedIf_negatedIf b).symm

/-- A term and NOT around it are opposed. -/
theorem opposed_negation (t : Term) : Opposed t (.negation t) := by
  intro Cell M
  rw [truth?, truth?, operand, Option.map_map, Option.map_map]
  refine congrArg (Option.map · _) (funext fun o => ?_)
  exact M.truth_ofTruth _

/-- Two forms of the same operands, closed by parentheses or constant. -/
theorem opposed_of_operands {α : Type} (operands : Option α) (p q : α → Phrase)
    (ht : t.operand [] = operands.map fun a => .closed (p a))
    (hu : u.operand [] = operands.map fun a => .closed (q a))
    (h : ∀ a {Cell : Type} (M : Interpretation Cell),
      (q a).truth M = .negatedIf true ((p a).truth M)) : Opposed t u := by
  intro Cell M
  rw [truth?, truth?, ht, hu]
  cases operands with
  | none => rfl
  | some a => exact congrArg some (h a M)

/-- The constants that stand for false and true are opposed. -/
theorem opposed_constants : Opposed (.constant "0") (.constant "1") := by
  refine opposed_of_operands (some ()) (fun _ => .constant "0") (fun _ => .constant "1") rfl rfl
    fun _ Cell M => ?_
  show M.truth (M.constant "1") = .negatedIf true (M.truth (M.constant "0"))
  rw [M.truth_zero, M.truth_one]
  rfl

/-- The phrases of two operands, if both can be read. -/
def pair (lhs rhs : Term) : Option (Phrase × Phrase) := do
  let a ← lhs.operand []
  let b ← rhs.operand []
  return (a.phrase [], b.phrase [])

/-- A comparison says the phrase of its sign, about the phrases of its operands. -/
theorem operand_comparison (how : Comparison) (lhs rhs : Term) :
    (Term.comparison how lhs rhs).operand [] =
      (pair lhs rhs).map fun p => .closed (how.phrase p.1 p.2) := by
  rw [operand, pair]
  cases lhs.operand [] with
  | none => rfl
  | some a => cases rhs.operand [] <;> rfl

/-- Equality and inequality are opposed. -/
theorem opposed_equal (lhs rhs : Term) :
    Opposed (.comparison .equal lhs rhs) (.comparison .notEqual lhs rhs) := by
  refine opposed_of_operands (pair lhs rhs) (fun p => .equal p.1 p.2) (fun p => .notEqual p.1 p.2)
    (operand_comparison ..) (operand_comparison ..) fun p Cell M => ?_
  simp only [Phrase.truth, Phrase.eval, M.truth_ofTruth]
  exact M.notEqual_eq _ _

/-- Identity and its negation are opposed. -/
theorem opposed_is (lhs rhs : Term) :
    Opposed (.comparison .is lhs rhs) (.comparison .isNot lhs rhs) := by
  refine opposed_of_operands (pair lhs rhs) (fun p => .is p.1 p.2) (fun p => .isNot p.1 p.2)
    (operand_comparison ..) (operand_comparison ..) fun p Cell M => ?_
  simp only [Phrase.truth, Phrase.eval, M.truth_ofTruth]
  rfl

/-- A test for NULL says IS or IS NOT of the operand's phrase and NULL. -/
theorem operand_nullTest (negated : Bool) (t : Term) :
    (Term.nullTest negated t).operand [] = ((t.operand []).map (·.phrase [])).map fun p =>
      .closed ((if negated then Phrase.isNot else .is) p .null) := by
  rw [operand]
  cases t.operand [] <;> rfl

/-- The two tests for NULL are opposed. -/
theorem opposed_nullTest (t : Term) : Opposed (.nullTest false t) (.nullTest true t) := by
  refine opposed_of_operands ((t.operand []).map (·.phrase [])) (.is · .null) (.isNot · .null)
    (operand_nullTest false t) (operand_nullTest true t) fun p Cell M => ?_
  simp only [Phrase.truth, Phrase.eval, M.truth_ofTruth]
  rfl

/-- The phrases of a member and of a list, if all can be read. -/
def listed (t : Term) (items : List Term) : Option (Phrase × List Phrase) := do
  let o ← t.operand []
  let ps ← Term.phrases [] items
  return (o.phrase [], ps)

/-- A membership in a list says so of the phrases of the member and the items. -/
theorem operand_inList (negated : Bool) (t : Term) (items : List Term) :
    (Term.inList negated t items).operand [] =
      (listed t items).map fun p => .closed (.inList negated p.1 p.2) := by
  rw [operand, listed]
  cases t.operand [] with
  | none => rfl
  | some o => cases Term.phrases [] items <;> rfl

/-- Membership in a list and its negation are opposed. -/
theorem opposed_inList (t : Term) (items : List Term) :
    Opposed (.inList false t items) (.inList true t items) := by
  refine opposed_of_operands (listed t items) (fun p => .inList false p.1 p.2)
    (fun p => .inList true p.1 p.2) (operand_inList ..) (operand_inList ..) fun p Cell M => ?_
  simp only [Phrase.truth, Phrase.eval, M.truth_ofTruth]
  exact M.notMember_eq _ _

/-- A membership in a query says so of the member's phrase and the text of the query. -/
theorem operand_inQuery (negated : Bool) (t : Term) (query : Statement) :
    (Term.inQuery negated t query).operand [] = ((t.operand []).map (·.phrase [])).map fun p =>
      .closed (.inQuery negated p query.write.chunks) := by
  rw [operand]
  cases t.operand [] <;> rfl

/-- Membership in a query and its negation are opposed. -/
theorem opposed_inQuery (t : Term) (query : Statement) :
    Opposed (.inQuery false t query) (.inQuery true t query) := by
  refine opposed_of_operands ((t.operand []).map (·.phrase []))
    (.inQuery false · query.write.chunks) (.inQuery true · query.write.chunks)
    (operand_inQuery ..) (operand_inQuery ..) fun p Cell M => ?_
  simp only [Phrase.truth, Phrase.eval, M.truth_ofTruth]
  exact M.notMember_eq _ _

/-- EXISTS and its negation are opposed. -/
theorem opposed_exists (query : Statement) :
    Opposed (.exists false query) (.exists true query) := by
  refine opposed_of_operands (some ()) (fun _ => .exists query.write.chunks)
    (fun _ => .not (.exists query.write.chunks)) rfl rfl fun _ Cell M => ?_
  exact M.truth_ofTruth _

end Sql.Term

/-! ## The two forms of an expression -/

/-- Two signs that are opposed on all operands are so where an operand is a NULL constant too. -/
theorem Sql.Term.compared_opposed {how how' : Comparison}
    (h : ∀ lhs rhs, Term.Opposed (.comparison how lhs rhs) (.comparison how' lhs rhs))
    (lhs rhs : Expr) (left right : Except QueryError Term) :
    Together Term.Opposed (Term.compared how false lhs rhs left right)
      (Term.compared how' true lhs rhs left right) := by
  unfold Term.compared
  split
  · exact .bind_same left fun t => .ok (Term.opposed_nullTest t)
  · split
    · exact .bind_same right fun t => .ok (Term.opposed_nullTest t)
    · exact .bind_same left fun lhs => .bind_same right fun rhs => .ok (h lhs rhs)

/-- **The two forms of an expression have opposite truth values.** -/
theorem Expr.resolve_opposed (scope : Scope) : (e : Expr) →
    Together Term.Opposed (e.resolve scope false) (e.resolve scope true)
  | .literal _ _ | .value _ => .ok (Term.opposed_negation _)
  | .column source name => by
      cases source with
      | none => exact .ok (Term.opposed_negation _)
      | some source =>
          exact .bind_same (Reference.resolve scope source name)
            fun r => .ok (Term.opposed_negation _)
  | .collate e _ | .prefixOp _ e | .countDistinct e => .bind_same (e.resolve scope false) fun t =>
      .ok (Term.opposed_negation _)
  -- Of a negation the two forms are those of its operand, the other way around.
  | .not e => (e.resolve_opposed scope).symm fun h => h.symm
  | .equal lhs rhs => Term.compared_opposed Term.opposed_equal lhs rhs _ _
  | .notEqual lhs rhs => (Term.compared_opposed Term.opposed_equal lhs rhs _ _).symm fun h => h.symm
  | .is lhs rhs => Term.compared_opposed Term.opposed_is lhs rhs _ _
  | .isNot lhs rhs => (Term.compared_opposed Term.opposed_is lhs rhs _ _).symm fun h => h.symm
  | .infixOp _ lhs rhs => .bind_same (lhs.resolve scope false) fun _ =>
      .bind_same (rhs.resolve scope false) fun _ => .ok (Term.opposed_negation _)
  | .and terms | .or terms | .call _ terms => .bind_same (Expr.resolveAll scope terms) fun _ =>
      .ok (Term.opposed_negation _)
  | .inList e items => by
      unfold Expr.resolve
      split
      · exact .ok Term.opposed_constants
      · exact .bind_same (e.resolve scope false) fun t =>
          .bind_same (Expr.resolveAll scope items) fun items => .ok (Term.opposed_inList t items)
  | .inQuery e query => .bind_same (e.resolve scope false) fun t =>
      .bind_same (scope.enter query.occurrences) fun inner =>
        .bind_same (query.resolve inner) fun query => .ok (Term.opposed_inQuery t query)
  | .exists query => .bind_same (scope.enter query.occurrences) fun inner =>
      .bind_same (query.resolve inner) fun query => .ok (Term.opposed_exists query)
  | .between e low high => .bind_same (e.resolve scope false) fun _ =>
      .bind_same (low.resolve scope false) fun _ => .bind_same (high.resolve scope false) fun _ =>
        .ok (Term.opposed_negation _)
  | .count counted => .bind_same (counted.resolveCounted scope) fun _ =>
      .ok (Term.opposed_negation _)

/-! ## Written negations -/

/-- **NOT is three-valued negation.** An expression and its negation fail alike, or both are
written. Then both can be read if the expression is legible, and whatever the columns hold and the
subqueries give, the negation is true where the expression is false, false where it is true, and
unknown where it is unknown. -/
theorem Expr.render_not (scope : Scope) (e : Expr) :
    (∃ err, e.render scope false = .error err ∧ (Expr.not e).render scope false = .error err) ∨
      ∃ f g, e.render scope false = .ok f ∧ (Expr.not e).render scope false = .ok g ∧
        f.phrase?.isSome = e.legible ∧ g.phrase?.isSome = e.legible ∧
        ∀ {Cell : Type} (M : Interpretation Cell),
          g.truth? M = (f.truth? M).map (Truth.negatedIf true) := by
  have hopposed := e.resolve_opposed scope
  have hreadable : ∀ {t}, e.resolve scope false = .ok t → _ := e.readable scope
  have hreadableNot : ∀ {t}, e.resolve scope true = .ok t → _ := e.readable scope
  have hnot : (Expr.not e).render scope false = e.render scope true := rfl
  rw [hnot, e.render_eq_write scope false, e.render_eq_write scope true]
  -- From here on the two outcomes count, and not how they came about.
  generalize e.resolve scope false = x, e.resolve scope true = y
    at hopposed hreadable hreadableNot
  cases hopposed with
  | error err => exact .inl ⟨err, rfl, rfl⟩
  | @ok t u h =>
      refine .inr ⟨t.write, u.write, rfl, rfl, ?_, ?_, fun M => ?_⟩
      · rw [t.phrase?_write, Option.isSome_map, (hreadable rfl).alone]
      · rw [u.phrase?_write, Option.isSome_map, (hreadableNot rfl).alone]
      · rw [u.truth?_write, t.truth?_write, h M]

/-- Values that stand for themselves, with any values in the columns and any rows in the subqueries.
Functions and operators other than comparisons give NULL. -/
def Interpretation.plain (column : Option String → String → Value)
    (rows : List Chunk → List Value) : Interpretation Value where
  null := .null
  isNull := Value.isNull
  value v := v
  constant text := .integer (if text = "0" then 0 else 1)
  column := column
  rows := rows
  truth
    | .null => none
    | v => some (!v.agrees (.integer 0))
  ofTruth
    | none => .null
    | some holds => .integer (if holds then 1 else 0)
  agree := Value.agrees
  collate _ cell := cell
  prefixed op
    | .integer n => .integer (if op = "-" then -n else if op = "~" then ~~~n else n)
    | v => v
  infixed op a b :=
    if a.isNull || b.isNull then .null
    else if op = ">=" then .integer (if a.compare? b == some .lt then 0 else 1)
    else if op = "<=" then .integer (if a.compare? b == some .gt then 0 else 1)
    else .null
  function _ _ := .null
  ofRows _ := .null
  ofDistinct _ _ := .null
  truth_ofTruth t := by
    rcases t with _ | _ | _ <;> rfl
  truth_zero := rfl
  truth_one := rfl

/-- Led, but by none of those that the query gives. -/
def ledFromOutside : Expr :=
  .not (.or [.equal (.column none "leader_id") (.value .null),
    .inQuery (.column none "leader_id")
      { Query.empty with selection := [.expr (.column none "id")] }])

/-- Someone is led by 3, and the query gives the ids. -/
def ledByThree (ids : List Value) : Interpretation Value :=
  .plain (fun _ _ => .integer 3) fun _ => ids

/-- Someone who is led by 3 is led from outside 1 and 2 but not from outside 1 and 3, and with 1 and
NULL it is unknown. The negation, of what is a negation itself, says the opposite each time. -/
theorem ledFromOutside_negated : ∃ f g, ledFromOutside.render (.outermost .empty) false = .ok f ∧
    (Expr.not ledFromOutside).render (.outermost .empty) false = .ok g ∧
    ∀ p ∈ [([.integer 1, .integer 2], some true), ([.integer 1, .integer 3], some false),
        ([.integer 1, .null], none)],
      f.truth? (ledByThree p.1) = some p.2 ∧
      g.truth? (ledByThree p.1) = some (.negatedIf true p.2) := by
  obtain ⟨f, hf⟩ : ∃ f, ledFromOutside.render (.outermost .empty) false = .ok f :=
    exists_ok (by decide +kernel)
  have hread : ∀ p ∈ [([.integer 1, .integer 2], some true), ([.integer 1, .integer 3], some false),
      ([.integer 1, .null], none)],
      ((ledFromOutside.render (.outermost .empty) false).toOption.bind
        (Fragment.truth? (ledByThree p.1))) = some p.2 := by
    decide +kernel
  -- What is known of the expression is that it is read; what its negation says is left to the
  -- theorem.
  rw [hf] at hread
  obtain ⟨err, herr, _⟩ | ⟨written, g, hwritten, hg, _, _, hopposite⟩ :=
    Expr.render_not (.outermost .empty) ledFromOutside
  · rw [hf] at herr
    cases herr
  · obtain rfl : f = written := Except.ok.inj (hf.symm.trans hwritten)
    refine ⟨f, g, hf, hg, fun p hp => ?_⟩
    have htruth : f.truth? (ledByThree p.1) = some p.2 := hread p hp
    rw [hopposite, htruth]
    exact ⟨rfl, rfl⟩

/-- What is read of a negated disjunction, of a comparison with NULL and of a negated membership in
an empty list. -/
example : ((Expr.not (.or [.equal (.column none "a") (.value .null),
      .not (.inList (.column none "b") [])])).render (.outermost .empty) false).toOption.bind
        Fragment.phrase? = some (.not (.or [.is (.column none "a") .null, .constant "1"])) := rfl

end RelationalQuery
