/-
  RelationalQuery.Proofs.Reading.Legible — the expressions that can be read once they are written.

  Nothing is known of what a caller wrote, nor of how much an operator binds that is none of SQL's.
  A collation is written inside the parentheses that its operand ends with; if these are empty or
  have a star in them, the text is no expression any more. Everything else can be read.

  Main definitions:
    * `Expr.legible`: whether the written expression can be read.
    * `Sql.Term.Readable`: the same of a term, with collations around it.

  Main statements:
    * `Expr.readable`: just the legible expressions can be read.
-/

import RelationalQuery.Proofs.Reading.Written
import RelationalQuery.Proofs.Statement.Scoping

namespace RelationalQuery

open Sql

/-! ## Legible expressions -/

/-- Written, the expression ends with empty parentheses or with a star in them, where no collation
can stand. -/
def Expr.endsBare (negated : Bool) : Expr → Bool
  | .call _ [] | .count (.star _) => !negated
  | .prefixOp _ e | .and [e] | .or [e] => !negated && e.endsBare false
  | .not e => e.endsBare !negated
  | _ => false

mutual

/-- Nothing in the expression was written by the caller, operators in front of an operand are those
that bind most, and collations have a place to stand. Subqueries are taken as they are. -/
def Expr.legible : Expr → Bool
  | .literal _ _ => false
  | .value _ | .column _ _ | .exists _ => true
  | .collate e _ => e.legible && !e.endsBare false
  | .not e | .inQuery e _ | .countDistinct e => e.legible
  | .equal lhs rhs | .notEqual lhs rhs | .is lhs rhs | .isNot lhs rhs | .infixOp _ lhs rhs =>
    lhs.legible && rhs.legible
  | .prefixOp op e => decide (op ∈ prefixOperators) && e.legible
  | .and terms | .or terms | .call _ terms => Expr.allLegible terms
  | .inList e items => items.isEmpty || (e.legible && Expr.allLegible items)
  | .between e low high => e.legible && low.legible && high.legible
  | .count counted => counted.legible

/-- A star is legible, and any other entry is so as its expression is. -/
def ResultColumn.legible : ResultColumn → Bool
  | .star _ => true
  | .expr e | .aliased e _ => e.legible

/-- All of the expressions are legible. -/
def Expr.allLegible : List Expr → Bool
  | [] => true
  | e :: rest => e.legible && Expr.allLegible rest

end

/-- A term can be read if it is legible, and with collations around it unless it is bare. -/
def Sql.Term.Readable (legible bare : Bool) (t : Term) : Prop :=
  ∀ around, (t.operand around).isSome = (legible && (around.isEmpty || !bare))

namespace Sql.Term.Readable

variable {t u v : Term} {a b c d e f : Bool}

/-- A group can be read with collations if it can be read without. -/
theorem closed (h : ∀ around, (t.operand around).isSome = a) : t.Readable a false := by
  intro around
  rw [h around, Bool.not_false, Bool.or_true, Bool.and_true]

/-- A term by itself can be read just when it is legible. -/
theorem alone (h : t.Readable a b) : (t.operand []).isSome = a := by
  rw [h [], List.isEmpty_nil, Bool.true_or, Bool.and_true]

/-- A NOT puts parentheses around a term, so it leaves nothing bare. -/
theorem negatedIf (h : t.Readable a b) (negated : Bool) :
    (Term.negatedIf negated t).Readable a (!negated && b) := by
  cases negated with
  | false => exact h
  | true =>
      refine closed fun around => ?_
      rw [Term.negatedIf, if_pos rfl, operand, Option.isSome_map, h.alone]

/-- What is not bare is not so behind a NOT. -/
theorem negatedIf_closed (h : t.Readable a false) (negated : Bool) :
    (Term.negatedIf negated t).Readable a false := by
  have hnegated := h.negatedIf negated
  rwa [Bool.and_false] at hnegated

/-- A collation can be read around what is legible and not bare, and what it gives is not bare. -/
theorem collate (h : t.Readable a b) (collation : String) :
    (Term.collate t collation).Readable (a && !b) false :=
  closed fun around => h (collation :: around)

/-- A test for NULL can be read if its operand can. -/
theorem nullTest (h : t.Readable a b) (negated : Bool) :
    (Term.nullTest negated t).Readable a false := by
  refine closed fun around => ?_
  rw [operand, Option.isSome_map, ← h.alone]
  cases t.operand [] <;> rfl

/-- An operator in front can be read if it is one of those that bind most, and it ends as its
operand does. -/
theorem prefixOp (h : t.Readable a b) (op : String) :
    (Term.prefixOp op t).Readable (decide (op ∈ prefixOperators) && a) b := by
  intro around
  rw [operand]
  split
  · rename_i hop
    rw [Option.isSome_map, h around, decide_eq_true hop, Bool.true_and]
  · rename_i hop
    rw [decide_eq_false hop]
    rfl

/-- A comparison can be read if both operands can. -/
theorem comparison (ht : t.Readable a b) (hu : u.Readable c d) (how : Comparison) :
    (Term.comparison how t u).Readable (a && c) false := by
  refine closed fun around => ?_
  rw [operand, Option.isSome_map, ← ht.alone, ← hu.alone]
  cases t.operand [] with
  | none => rfl
  | some o => cases u.operand [] <;> rfl

/-- Two operands with an operator between them can be read if both can. -/
theorem infixOp (ht : t.Readable a b) (hu : u.Readable c d) (op : String) :
    (Term.infixOp op t u).Readable (a && c) false := by
  refine closed fun around => ?_
  rw [operand, Option.isSome_map, ← ht.alone, ← hu.alone]
  cases t.operand [] with
  | none => rfl
  | some o => cases u.operand [] <;> rfl

/-- A BETWEEN can be read if its three operands can. -/
theorem between (ht : t.Readable a b) (hu : u.Readable c d) (hv : v.Readable e f) :
    (Term.between t u v).Readable (a && c && e) false := by
  refine closed fun around => ?_
  rw [operand, Option.isSome_map, ← ht.alone, ← hu.alone, ← hv.alone]
  cases t.operand [] with
  | none => rfl
  | some o =>
      cases u.operand [] with
      | none => rfl
      | some o => cases v.operand [] <;> rfl

/-- A membership in a query can be read if the member can. -/
theorem inQuery (h : t.Readable a b) (negated : Bool) (query : Statement) :
    (Term.inQuery negated t query).Readable a false := by
  refine closed fun around => ?_
  rw [operand, Option.isSome_map, ← h.alone]
  cases t.operand [] <;> rfl

/-- A membership in a list can be read if the member and the items can. -/
theorem inList {items : List Term} (h : t.Readable a b)
    (hitems : (Term.phrases [] items).isSome = c) (negated : Bool) :
    (Term.inList negated t items).Readable (a && c) false := by
  refine closed fun around => ?_
  rw [operand, Option.isSome_map, ← h.alone, ← hitems]
  cases t.operand [] with
  | none => rfl
  | some o => cases Term.phrases [] items <;> rfl

/-- A call with nothing between its parentheses that could take a collation. -/
theorem bare {p : Phrase} (h : ∀ around, t.operand around =
    if around = [] then some (.closed p) else none) : t.Readable true true := by
  intro around
  rw [h around]
  cases around <;> rfl

end Sql.Term.Readable

/-- A NULL constant is legible. -/
theorem Expr.legible_of_isNullValue {e : Expr} (h : e.isNullValue = true) : e.legible = true := by
  cases e with
  | value v => rfl
  | _ => cases h

/-- A list resolves to the terms of its head and of its rest. -/
theorem Expr.resolveAll_eq_ok {scope : Scope} {e : Expr} {rest : List Expr} {ts : List Term} :
    Expr.resolveAll scope (e :: rest) = .ok ts ↔ ∃ t us, e.resolve scope false = .ok t ∧
      Expr.resolveAll scope rest = .ok us ∧ ts = t :: us := by
  rw [Expr.resolveAll, bind_eq_ok]
  refine exists_congr fun t => ?_
  rw [bind_eq_ok]
  constructor
  · intro h
    obtain ⟨ht, us, hus, h⟩ := h
    exact ⟨us, ht, hus, (pure_eq_ok.mp h).symm⟩
  · intro h
    obtain ⟨us, ht, hus, rfl⟩ := h
    exact ⟨ht, us, hus, rfl⟩

/-- Two compared operands can be read if both can; of a NULL constant it is known. -/
theorem Expr.readable_compared {how : Comparison} {negated : Bool} {lhs rhs : Expr}
    {left right : Except QueryError Term} {bareLeft bareRight : Bool}
    (hleft : ∀ {t}, left = .ok t → t.Readable lhs.legible bareLeft)
    (hright : ∀ {t}, right = .ok t → t.Readable rhs.legible bareRight) {t : Term}
    (h : Term.compared how negated lhs rhs left right = .ok t) :
    t.Readable (lhs.legible && rhs.legible) false := by
  unfold Term.compared at h
  split at h
  · rename_i hnull
    -- A comparison with NULL is a test of the other operand.
    obtain ⟨u, hu, rfl⟩ := map_eq_ok.mp h
    rw [rhs.legible_of_isNullValue hnull, Bool.and_true]
    exact (hleft hu).nullTest negated
  · split at h
    · rename_i hnull
      obtain ⟨u, hu, rfl⟩ := map_eq_ok.mp h
      rw [lhs.legible_of_isNullValue hnull, Bool.true_and]
      exact (hright hu).nullTest negated
    · -- Neither is NULL, so both are written.
      obtain ⟨u, hu, h⟩ := bind_eq_ok.mp h
      obtain ⟨v, hv, h⟩ := bind_eq_ok.mp h
      cases h
      exact (hleft hu).comparison (hright hv) how

mutual

/-- **Just the legible expressions can be read** once they are written. -/
theorem Expr.readable (scope : Scope) : (e : Expr) → ∀ {negated : Bool} {t : Term},
    e.resolve scope negated = .ok t → t.Readable e.legible (e.endsBare negated)
  | .literal sql own, negated, t, h => by
      cases h
      exact Term.Readable.negatedIf_closed (fun around => rfl) negated
  | .value v, negated, t, h => by
      cases h
      exact Term.Readable.negatedIf_closed (.closed fun around => rfl) negated
  | .column none name, negated, t, h => by
      cases h
      exact Term.Readable.negatedIf_closed (.closed fun around => rfl) negated
  | .column (some source) name, negated, t, h => by
      obtain ⟨r, _, h⟩ := bind_eq_ok.mp h
      cases h
      exact Term.Readable.negatedIf_closed (.closed fun around => rfl) negated
  | .collate e collation, negated, t, h => by
      obtain ⟨u, hu, h⟩ := bind_eq_ok.mp h
      cases h
      exact ((e.readable scope hu).collate collation).negatedIf_closed negated
  | .not e, negated, t, h => e.readable scope h
  | .equal lhs rhs, negated, t, h | .notEqual lhs rhs, negated, t, h
  | .is lhs rhs, negated, t, h | .isNot lhs rhs, negated, t, h =>
      Expr.readable_compared (fun h => lhs.readable scope h) (fun h => rhs.readable scope h) h
  | .prefixOp op e, negated, t, h => by
      obtain ⟨u, hu, h⟩ := bind_eq_ok.mp h
      cases h
      exact ((e.readable scope hu).prefixOp op).negatedIf negated
  | .infixOp op lhs rhs, negated, t, h => by
      obtain ⟨u, hu, h⟩ := bind_eq_ok.mp h
      obtain ⟨v, hv, h⟩ := bind_eq_ok.mp h
      cases h
      exact ((lhs.readable scope hu).infixOp (rhs.readable scope hv) op).negatedIf_closed negated
  | .and [], negated, t, h | .or [], negated, t, h => by
      cases h
      exact Term.Readable.negatedIf_closed (.closed fun around => rfl) negated
  | .and [e], negated, t, h | .or [e], negated, t, h => by
      obtain ⟨ts, hts, h⟩ := bind_eq_ok.mp h
      obtain ⟨u, us, hu, hus, rfl⟩ := Expr.resolveAll_eq_ok.mp hts
      cases hus
      cases h
      have hlegible : (e.legible && true) = e.legible := Bool.and_true _
      rw [Expr.legible, Expr.allLegible, Expr.allLegible, hlegible]
      -- A single term stands for itself.
      have hone := e.readable scope hu
      refine Term.Readable.negatedIf (b := e.endsBare false) (fun around => ?_) negated
      exact hone around
  | .and (e :: f :: rest), negated, t, h | .or (e :: f :: rest), negated, t, h => by
      obtain ⟨ts, hts, h⟩ := bind_eq_ok.mp h
      have hall := Expr.readable_all scope (e :: f :: rest) hts
      obtain ⟨u, us, _, hus, rfl⟩ := Expr.resolveAll_eq_ok.mp hts
      obtain ⟨v, vs, _, _, rfl⟩ := Expr.resolveAll_eq_ok.mp hus
      cases h
      refine Term.Readable.negatedIf_closed (.closed fun around => ?_) negated
      exact Option.isSome_map.trans (hall around)
  | .inList e items, negated, t, h => by
      unfold Expr.resolve at h
      split at h
      · rename_i hempty
        cases h
        rw [Expr.legible, hempty]
        exact .closed fun around => rfl
      · rename_i hitems
        obtain ⟨u, hu, h⟩ := bind_eq_ok.mp h
        obtain ⟨us, hus, h⟩ := bind_eq_ok.mp h
        cases h
        have hall := Expr.readable_all scope items hus []
        rw [Bool.eq_false_iff.mpr hitems, Bool.not_false, Bool.true_and] at hall
        rw [Expr.legible, Bool.eq_false_iff.mpr hitems, Bool.false_or]
        exact (e.readable scope hu).inList hall negated
  | .inQuery e query, negated, t, h => by
      obtain ⟨u, hu, h⟩ := bind_eq_ok.mp h
      obtain ⟨inner, _, h⟩ := bind_eq_ok.mp h
      obtain ⟨statement, _, h⟩ := bind_eq_ok.mp h
      cases h
      exact (e.readable scope hu).inQuery negated statement
  | .exists query, negated, t, h => by
      obtain ⟨inner, _, h⟩ := bind_eq_ok.mp h
      obtain ⟨statement, _, h⟩ := bind_eq_ok.mp h
      cases h
      exact .closed fun around => rfl
  | .between e low high, negated, t, h => by
      obtain ⟨u, hu, h⟩ := bind_eq_ok.mp h
      obtain ⟨v, hv, h⟩ := bind_eq_ok.mp h
      obtain ⟨w, hw, h⟩ := bind_eq_ok.mp h
      cases h
      exact ((e.readable scope hu).between (low.readable scope hv)
        (high.readable scope hw)).negatedIf_closed negated
  | .call name [], negated, t, h => by
      cases h
      have hbare : (Term.call name []).Readable true true := .bare fun around => rfl
      have hreadable := hbare.negatedIf negated
      rwa [Bool.and_true] at hreadable
  | .call name (e :: rest), negated, t, h => by
      obtain ⟨ts, hts, h⟩ := bind_eq_ok.mp h
      have hall := Expr.readable_all scope (e :: rest) hts
      obtain ⟨u, us, _, _, rfl⟩ := Expr.resolveAll_eq_ok.mp hts
      cases h
      refine Term.Readable.negatedIf_closed (.closed fun around => ?_) negated
      exact Option.isSome_map.trans (hall around)
  | .count (.star source), negated, t, h => by
      obtain ⟨u, hu, h⟩ := bind_eq_ok.mp h
      obtain ⟨_, _, hu⟩ := bind_eq_ok.mp hu
      cases hu
      cases h
      have hbare : (Term.countRows source).Readable true true := .bare fun around => rfl
      have hreadable := hbare.negatedIf negated
      rwa [Bool.and_true] at hreadable
  | .count (.expr e), negated, t, h | .count (.aliased e _), negated, t, h => by
      obtain ⟨u, hu, h⟩ := bind_eq_ok.mp h
      obtain ⟨v, hv, hu⟩ := bind_eq_ok.mp hu
      cases hu
      cases h
      refine Term.Readable.negatedIf_closed (.closed fun around => ?_) negated
      exact Option.isSome_map.trans (e.readable scope hv).alone
  | .countDistinct e, negated, t, h => by
      obtain ⟨u, hu, h⟩ := bind_eq_ok.mp h
      cases h
      refine Term.Readable.negatedIf_closed (.closed fun around => ?_) negated
      exact Option.isSome_map.trans (e.readable scope hu).alone

/-- The terms of a list can be read just when there is one and all are legible. -/
theorem Expr.readable_all (scope : Scope) : (es : List Expr) → ∀ {ts : List Term},
    Expr.resolveAll scope es = .ok ts → ∀ around,
      (Term.phrases around ts).isSome = (!es.isEmpty && Expr.allLegible es)
  | [], ts, h, around => by
      cases h
      rfl
  | [e], ts, h, around => by
      obtain ⟨u, us, hu, hus, rfl⟩ := Expr.resolveAll_eq_ok.mp h
      cases hus
      rw [Term.phrases, Option.isSome_map, (e.readable scope hu).alone]
      exact (Bool.and_true _).symm
  | e :: f :: rest, ts, h, around => by
      obtain ⟨u, us, hu, hus, rfl⟩ := Expr.resolveAll_eq_ok.mp h
      have hrest : _ = Expr.allLegible (f :: rest) := Expr.readable_all scope (f :: rest) hus around
      obtain ⟨v, vs, _, _, rfl⟩ := Expr.resolveAll_eq_ok.mp hus
      have hfirst := (e.readable scope hu).alone
      rw [Term.phrases, List.isEmpty_cons, Expr.allLegible, ← hfirst, ← hrest]
      -- The row is readable if its first term is and the others are.
      cases u.operand [] with
      | none => rfl
      | some o => cases Term.phrases around (v :: vs) <;> rfl

end

end RelationalQuery
