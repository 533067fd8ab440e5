/-
  RelationalQuery.Proofs.Reading.Opposites — negations, as their text is read.

  A negation is NOT around the text of its operand, or it is the operand with another mark. NOT
  negates all of its operand's text if there is no connective in it outside the groups. Another mark
  makes another predicate, and that it is the opposite one is known where both operands of the mark
  bind more than the mark does: then it is the mark that the text is read by.

  Main definitions:
    * `Fragment.Opposed`: two texts are read, and have opposite truths.
    * `Expr.Negatable`: what is asked of the text of an expression, and of its operands.

  Main statements:
    * `Expr.render_opposed`: an expression and its negation are opposed.
-/

import RelationalQuery.Proofs.Reading.Conjunctions
import RelationalQuery.Proofs.Reading.Tightness

namespace RelationalQuery

open Sql Conditions Fragment

/-! ## Fragments -/

/-- Both texts are read as conditions, and one is true where the other is false, false where it is
true, and unknown where it is unknown. -/
def Fragment.Opposed (f g : Fragment) : Prop :=
  ∃ c d, f.condition? = some c ∧ g.condition? = some d ∧
    ∀ v : Valuation, d.truth v.truth = .negatedIf true (c.truth v.truth)

namespace Fragment

variable {f g a b : Fragment}

/-- Opposed texts are so in both directions. -/
theorem Opposed.symm (h : Opposed f g) : Opposed g f := by
  obtain ⟨c, d, hc, hd, htruth⟩ := h
  exact ⟨d, c, hd, hc, fun v => by rw [htruth v, Truth.negatedIf_negatedIf]⟩

/-- **NOT around a text without a connective outside its groups.** -/
theorem opposed_not {c : Condition} (h : f.condition? = some (.any [.all [c]])) :
    Opposed f (token .not ++ f).parens := by
  obtain ⟨items, hitems, hread⟩ := condition?_eq_some.mp h
  have hnot : (token .not ++ f).condition? = some (.any [.all [.not c]]) :=
    condition?_eq_some.mpr ⟨_,
      items?_append (ends_token _) (items?_keyword (by decide)) hitems, read_not hread⟩
  refine ⟨_, _, h, condition?_parens hnot, fun v => ?_⟩
  rw [Condition.truth_single, Condition.truth_single, Condition.truth_single, Condition.truth]

/-- What is read of a predicate in parentheses. -/
theorem condition?_predicate {xs : List ReadItem} (hitems : f.items? = some xs)
    (hread : read xs = some (.any [.all [.predicate xs]])) :
    f.parens.condition? = some (.any [.all [.any [.all [.predicate xs]]]]) :=
  condition?_parens (condition?_eq_some.mpr ⟨xs, hitems, hread⟩)

/-- Two predicates in parentheses that say opposites. -/
theorem opposed_of_predicates {xs ys : List ReadItem} (hf : f.items? = some xs)
    (hg : g.items? = some ys) (hxs : read xs = some (.any [.all [.predicate xs]]))
    (hys : read ys = some (.any [.all [.predicate ys]]))
    (h : ∀ v : Valuation, v.truth ys = .negatedIf true (v.truth xs)) :
    Opposed f.parens g.parens := by
  refine ⟨_, _, condition?_predicate hf hxs, condition?_predicate hg hys, fun v => ?_⟩
  rw [Condition.truth_single, Condition.truth_single, Condition.truth_single,
    Condition.truth_single, Condition.truth, Condition.truth]
  exact h v

/-- **Two marks between tight operands** that say opposites. -/
theorem opposed_marks {m n : Fragment} {ms ns : List ReadItem} (ha : a.Tight) (hb : b.Tight)
    (hends : a.Ends) (hm : m.Ends) (hn : n.Ends) (hms : m.items? = some ms)
    (hns : n.items? = some ns) (hjoins : ∀ i ∈ ms ++ ns, joins i = true)
    (h : ∀ {xs ys}, Conditions.Tight xs → Conditions.Tight ys → ∀ v : Valuation,
      v.truth (xs ++ (ns ++ ys)) = .negatedIf true (v.truth (xs ++ (ms ++ ys)))) :
    Opposed (a ++ m ++ b).parens (a ++ n ++ b).parens := by
  obtain ⟨xs, hxs, htight⟩ := ha
  obtain ⟨ys, hys, htight'⟩ := hb
  obtain ⟨hmjoins, hnjoins⟩ := List.forall_mem_append.mp hjoins
  have hread : ∀ {zs}, (∀ i ∈ zs, joins i = true) → read (xs ++ (zs ++ ys)) =
      some (.any [.all [.predicate (xs ++ (zs ++ ys))]]) := fun hzs =>
    read_tight htight (List.append_ne_nil_of_right_ne_nil _ htight'.1)
      (List.forall_mem_append.mpr ⟨hzs, fun i hi => (joins_of_tight (htight'.2 i hi)).1⟩)
  refine opposed_of_predicates ?_ ?_ (hread hmjoins) (hread hnjoins) (h htight htight')
  · rw [append_assoc]
    exact items?_append hends hxs (items?_append hm hms hys)
  · rw [append_assoc]
    exact items?_append hends hxs (items?_append hn hns hys)

/-! ## Marks -/

/-- The sign of equality is one item. -/
theorem items?_equal : (token .equal).items? = some [.symbol (.sign '=')] :=
  items?_eq_some.mpr ⟨[.sign '='], by decide +kernel, Symbol.nests_of_plain (by decide +kernel)⟩

/-- The sign of inequality is two items. -/
theorem items?_notEqual :
    (token .notEqual).items? = some [.symbol (.sign '<'), .symbol (.sign '>')] := by
  have hleft : Symbol.Nests [.sign '<'] [.symbol (.sign '<')] :=
    Symbol.nests_of_plain (by decide +kernel)
  have hright : Symbol.Nests [.sign '>'] [.symbol (.sign '>')] :=
    Symbol.nests_of_plain (by decide +kernel)
  exact items?_eq_some.mpr ⟨[.sign '<', .sign '>'], by decide +kernel, hleft.append hright⟩

/-- IS is one word. -/
theorem items?_is : (token .is ++ Clauses.notIf false).items? = some [.symbol (.word "IS")] :=
  (append_empty (token .is)).symm ▸ items?_keyword (by decide)

/-- IS NOT is two words. -/
theorem items?_isNot : (token .is ++ Clauses.notIf true).items? =
    some [.symbol (.word "IS"), .symbol (.word "NOT")] :=
  items?_append (ends_token _) (items?_keyword (by decide)) (items?_keyword (by decide))

/-- The equality and the inequality sign. -/
theorem opposed_equal (ha : a.Tight) (hb : b.Tight) (hends : a.Ends) :
    Opposed (a ++ token .equal ++ b).parens (a ++ token .notEqual ++ b).parens :=
  opposed_marks ha hb hends (ends_token _) (ends_token _) items?_equal items?_notEqual (by decide)
    fun hxs hys v => v.notEqual hxs hys

/-- IS and IS NOT. -/
theorem opposed_is (ha : a.Tight) (hb : b.Tight) (hends : a.Ends) :
    Opposed (a ++ (token .is ++ Clauses.notIf false) ++ b).parens
      (a ++ (token .is ++ Clauses.notIf true) ++ b).parens :=
  opposed_marks ha hb hends ((ends_token _).append nofun) ((ends_token _).append (ends_token _))
    items?_is items?_isNot (by decide) fun hxs hys v => v.isNot hxs hys

/-- IS NULL and IS NOT NULL. -/
theorem opposed_nullTest (ha : a.Tight) (hends : a.Ends) :
    Opposed (Clauses.nullTest false a) (Clauses.nullTest true a) := by
  have h := opposed_is ha (tight_param .null) hends
  have hnull : ∀ negated, a ++ (token .is ++ Clauses.notIf negated) ++ param .null =
      a ++ token .is ++ Clauses.notIf negated ++ token .null := fun negated => by
    rw [append_assoc a (token .is)]
    rfl
  rwa [hnull, hnull] at h

/-- IN and NOT IN. -/
theorem opposed_membership {ys : List ReadItem} (ha : a.Tight) (hends : a.Ends)
    (hb : b.items? = some ys) :
    Opposed (Clauses.membership false a b) (Clauses.membership true a b) := by
  obtain ⟨xs, hxs, htight⟩ := ha
  have hin : (token .in ++ b.parens).items? = some [.symbol (.word "IN"), .group .paren ys] :=
    items?_append (ends_token _) (items?_keyword (by decide)) (items?_parens hb)
  have hjoins : ∀ i ∈ [.symbol (.word "IN"), .group .paren ys], joins i = true :=
    List.forall_mem_cons.mpr ⟨by decide, List.forall_mem_singleton.mpr rfl⟩
  -- Both texts are one predicate, which begins with a tight operand.
  refine opposed_of_predicates ?_ ?_ (read_tight htight (List.cons_ne_nil _ _) hjoins)
    (read_tight htight (List.cons_ne_nil (.symbol (.word "NOT")) _)
      (List.forall_mem_cons.mpr ⟨by decide, hjoins⟩)) fun v => v.notIn htight
  · show ((a ++ empty) ++ token .in ++ b.parens).items? = _
    rw [append_empty, append_assoc]
    exact items?_append hends hxs hin
  · show ((a ++ token .not) ++ token .in ++ b.parens).items? = _
    rw [append_assoc, append_assoc]
    exact items?_append hends hxs (items?_append (ends_token _) (items?_keyword (by decide)) hin)

/-- EXISTS and NOT EXISTS. -/
theorem opposed_existence {ys : List ReadItem} (hb : b.items? = some ys) :
    Opposed (Clauses.existence false b) (Clauses.existence true b) := by
  have hexists : (token .exists ++ b.parens).items? =
      some [.symbol (.word "EXISTS"), .group .paren ys] :=
    items?_append (ends_token _) (items?_keyword (by decide)) (items?_parens hb)
  have hread : read [.symbol (.word "EXISTS"), .group .paren ys] =
      some (.any [.all [.predicate [.symbol (.word "EXISTS"), .group .paren ys]]]) :=
    read_predicate (List.forall_mem_cons.mpr ⟨by decide, List.forall_mem_singleton.mpr rfl⟩) rfl
  have hpositive : (Clauses.existence false b).condition? = _ :=
    condition?_predicate hexists hread
  have hnegative : (token .not ++ (token .exists ++ b.parens)).condition? = _ :=
    condition?_eq_some.mpr ⟨_, items?_append (ends_token _) (items?_keyword (by decide)) hexists,
      read_not hread⟩
  refine ⟨_, _, hpositive, condition?_parens hnegative, fun v => ?_⟩
  rw [Condition.truth_single, Condition.truth_single, Condition.truth_single,
    Condition.truth_single, Condition.truth, Condition.truth, Condition.truth]

/-- The constants. -/
theorem opposed_constants : Opposed (raw "0") (raw "1") := by
  have hzero : (raw "0").condition? =
      some (.any [.all [.predicate [.symbol (.word "0")]]]) := rfl
  have hone : (raw "1").condition? =
      some (.any [.all [.predicate [.symbol (.word "1")]]]) := rfl
  refine ⟨_, _, hzero, hone, fun v => ?_⟩
  rw [Condition.truth_single, Condition.truth_single, Condition.truth, Condition.truth, v.zero,
    v.one]
  rfl

/-- An operand wherever it stands is one condition, and NOT around it is its negation. -/
theorem opposed_of_tight (h : f.Tight) : Opposed f (token .not ++ f).parens := by
  obtain ⟨items, hitems, htight⟩ := h
  obtain ⟨c, hread⟩ := exists_read_of_tight htight
  exact opposed_not (condition?_eq_some.mpr ⟨items, hitems, hread⟩)

end Fragment

/-! ## Terms -/

namespace Sql.Term

/-- Both texts leave nothing open or both do. If they do not, they are opposed. -/
structure Contrary (t u : Term) : Prop where
  closed : t.write.closed = u.write.closed
  opposed : t.write.closed = true → Fragment.Opposed t.write u.write

variable {t u lhs rhs : Term}

/-- Contrary terms are so in both directions. -/
theorem Contrary.symm (h : Contrary t u) : Contrary u t :=
  ⟨h.closed.symm, fun hu => (h.opposed (h.closed.trans hu)).symm⟩

/-- A covered term and NOT around it are contrary. -/
theorem contrary_negation (h : t.Covered) : Contrary t (.negation t) :=
  ⟨by simp [Term.write], fun hclosed => Fragment.opposed_of_tight (t.tight h hclosed)⟩

/-- A text that is one condition and NOT around it are contrary. -/
theorem contrary_literal {sql : String} (arguments : Option Arguments) {c : Condition}
    (h : (raw sql).condition? = some (.any [.all [c]])) :
    Contrary (.literal sql arguments) (.negation (.literal sql arguments)) where
  closed := by simp [Term.write]
  opposed _ := by
    have hliteral : (Fragment.literal sql arguments).condition? = some (.any [.all [c]]) := by
      rwa [condition?_literal]
    exact Fragment.opposed_not hliteral

/-- The constants that stand for false and true are contrary. -/
theorem contrary_constants : Contrary (.constant "0") (.constant "1") :=
  ⟨by decide +kernel, fun _ => Fragment.opposed_constants⟩

/-- Two marks between the same operands. -/
theorem contrary_comparison {how how' : Comparison}
    (h : ∀ {a b : Fragment}, a.Tight → b.Tight → a.Ends →
      Fragment.Opposed (a ++ how.mark ++ b).parens (a ++ how'.mark ++ b).parens)
    (hlhs : lhs.Covered) (hrhs : rhs.Covered) :
    Contrary (.comparison how lhs rhs) (.comparison how' lhs rhs) where
  closed := by
    have hmark : ∀ how : Comparison, how.mark.closed = true := by
      intro how
      cases how <;> rfl
    simp [Term.write, hmark]
  opposed hclosed := by
    simp only [Term.write, closed_parens, closed_append, Bool.and_eq_true] at hclosed
    exact h (lhs.tight hlhs hclosed.1.1) (rhs.tight hrhs hclosed.2) lhs.ends

/-- Equality and inequality of covered operands are contrary. -/
theorem contrary_equal (hlhs : lhs.Covered) (hrhs : rhs.Covered) :
    Contrary (.comparison .equal lhs rhs) (.comparison .notEqual lhs rhs) :=
  contrary_comparison (fun ha hb hends => Fragment.opposed_equal ha hb hends) hlhs hrhs

/-- Identity of covered operands and its negation are contrary. -/
theorem contrary_is (hlhs : lhs.Covered) (hrhs : rhs.Covered) :
    Contrary (.comparison .is lhs rhs) (.comparison .isNot lhs rhs) :=
  contrary_comparison (fun ha hb hends => Fragment.opposed_is ha hb hends) hlhs hrhs

/-- The two tests for NULL of a covered operand are contrary. -/
theorem contrary_nullTest (h : t.Covered) : Contrary (.nullTest false t) (.nullTest true t) where
  closed := by simp [Term.write, Clauses.nullTest]
  opposed hclosed := by
    simp only [Term.write, Clauses.nullTest, closed_parens, closed_append, Bool.and_eq_true]
      at hclosed
    exact Fragment.opposed_nullTest (t.tight h hclosed.1.1.1) t.ends

/-- Membership in whatever group of rows or items. -/
theorem contrary_membership {group : Fragment} (h : t.Covered) (hbalanced : group.Balanced) :
    (Clauses.membership false t.write group).closed =
        (Clauses.membership true t.write group).closed ∧
      ((Clauses.membership false t.write group).closed = true →
        Fragment.Opposed (Clauses.membership false t.write group)
          (Clauses.membership true t.write group)) := by
  refine ⟨by simp [Clauses.membership], fun hclosed => ?_⟩
  simp only [Clauses.membership, closed_parens, closed_append, Bool.and_eq_true] at hclosed
  obtain ⟨items, hitems⟩ := exists_items hclosed.2 hbalanced
  exact Fragment.opposed_membership (t.tight h hclosed.1.1.1) t.ends hitems

/-- Membership of a covered operand in a list and its negation are contrary. -/
theorem contrary_inList (h : t.Covered) (items : List Term) :
    Contrary (.inList false t items) (.inList true t items) :=
  have ⟨hclosed, hopposed⟩ := contrary_membership h
    (Balanced.joinWith .comma (by decide) (Term.writeAll_balanced items))
  ⟨hclosed, hopposed⟩

/-- Membership of a covered operand in a query and its negation are contrary. -/
theorem contrary_inQuery (h : t.Covered) (query : Statement) :
    Contrary (.inQuery false t query) (.inQuery true t query) :=
  have ⟨hclosed, hopposed⟩ := contrary_membership h query.write_balanced
  ⟨hclosed, hopposed⟩

/-- EXISTS and its negation are contrary. -/
theorem contrary_exists (query : Statement) :
    Contrary (.exists false query) (.exists true query) where
  closed := by simp [Term.write, Clauses.existence]
  opposed hclosed := by
    simp only [Term.write, Clauses.existence, closed_parens, closed_append, Bool.and_eq_true]
      at hclosed
    obtain ⟨items, hitems⟩ := exists_items hclosed.2 query.write_balanced
    exact Fragment.opposed_existence hitems

/-- The two forms of a comparison, of operands that are covered if they are written. -/
theorem compared_contrary {how how' : Comparison}
    (h : ∀ {lhs rhs : Term}, lhs.Covered → rhs.Covered →
      Contrary (.comparison how lhs rhs) (.comparison how' lhs rhs)) (lhs rhs : Expr)
    {left right : Except QueryError Term} (hleft : ∀ t, left = .ok t → t.Covered)
    (hright : ∀ t, right = .ok t → t.Covered) :
    Together Contrary (Term.compared how false lhs rhs left right)
      (Term.compared how' true lhs rhs left right) := by
  unfold Term.compared
  split
  · exact .bind_of left fun t ht => .ok (contrary_nullTest (hleft t ht))
  · -- Without a NULL constant the operands are compared, and the sign decides.
    split
    · exact .bind_of right fun t ht => .ok (contrary_nullTest (hright t ht))
    · exact .bind_of left fun lhs hlhs => .bind_of right fun rhs hrhs =>
        .ok (h (hleft lhs hlhs) (hright rhs hrhs))

end Sql.Term

/-! ## Expressions -/

/-- What the negation of the expression is moved past is covered, and what it is not moved past is
one condition by itself. -/
def Expr.Negatable : Expr → Prop
  | .literal sql _ => ∃ c, (raw sql).condition? = some (.any [.all [c]])
  | .not e => e.Negatable
  | .equal lhs rhs | .notEqual lhs rhs | .is lhs rhs | .isNot lhs rhs =>
    lhs.Covered false ∧ rhs.Covered false
  | .inList e _ | .inQuery e _ => e.Covered false
  | .exists _ => True
  | e => e.Covered false

/-- Expressions without a form of their own for the negation. -/
theorem Expr.contrary_of_negation {scope : Scope} {e : Expr} (hcovered : e.Covered false)
    (h : e.resolve scope true = Term.negation <$> e.resolve scope false) :
    Together Term.Contrary (e.resolve scope false) (e.resolve scope true) := by
  rw [h]
  cases hterm : e.resolve scope false with
  | error err => exact .error err
  | ok t => exact .ok (Term.contrary_negation (e.covered_of_resolve hcovered hterm))

/-- **The two forms of an expression are contrary.** -/
theorem Expr.resolve_contrary (scope : Scope) : (e : Expr) → e.Negatable →
    Together Term.Contrary (e.resolve scope false) (e.resolve scope true)
  | .literal _ arguments, ⟨_, hc⟩ => .ok (Term.contrary_literal arguments hc)
  | .not e, h => (e.resolve_contrary scope h).symm fun h => h.symm
  | .equal lhs rhs, h => Term.compared_contrary Term.contrary_equal lhs rhs
      (fun _ => lhs.covered_of_resolve h.1) fun _ => rhs.covered_of_resolve h.2
  | .notEqual lhs rhs, h => (Term.compared_contrary Term.contrary_equal lhs rhs
      (fun _ => lhs.covered_of_resolve h.1) fun _ => rhs.covered_of_resolve h.2).symm
        fun h => h.symm
  | .is lhs rhs, h => Term.compared_contrary Term.contrary_is lhs rhs
      (fun _ => lhs.covered_of_resolve h.1) fun _ => rhs.covered_of_resolve h.2
  | .isNot lhs rhs, h => (Term.compared_contrary Term.contrary_is lhs rhs
      (fun _ => lhs.covered_of_resolve h.1) fun _ => rhs.covered_of_resolve h.2).symm
        fun h => h.symm
  | .inList e items, h => by
      -- No item is the constant 0, or 1 for the negation.
      unfold Expr.resolve
      split
      · exact .ok Term.contrary_constants
      · exact .bind_of (e.resolve scope false) fun t ht =>
          .bind_same (Expr.resolveAll scope items) fun items =>
            .ok (Term.contrary_inList (e.covered_of_resolve h ht) items)
  | .inQuery e query, h => .bind_of (e.resolve scope false) fun t ht =>
      .bind_same (scope.enter query.occurrences) fun inner =>
        .bind_same (query.resolve inner) fun query =>
          .ok (Term.contrary_inQuery (e.covered_of_resolve h ht) query)
  | .exists query, _ => .bind_same (scope.enter query.occurrences) fun inner =>
      .bind_same (query.resolve inner) fun query => .ok (Term.contrary_exists query)
  | .value _, h | .column none _, h => Expr.contrary_of_negation h rfl
  | .column (some _) _, h | .collate _ _, h | .prefixOp _ _, h | .infixOp _ _ _, h | .and _, h
  | .or _, h | .between _ _ _, h | .call _ _, h | .count _, h | .countDistinct _, h =>
      Expr.contrary_of_negation h (by simp [Expr.resolve, Term.negatedIf])

/-- **An expression and its negation are opposed**, as far as their texts leave nothing open. -/
theorem Expr.render_opposed {scope : Scope} {e : Expr} (h : e.Negatable) {f : Fragment}
    (hf : e.render scope false = .ok f) (hclosed : f.closed = true) :
    ∃ g, (Expr.not e).render scope false = .ok g ∧ Opposed f g := by
  have hnot : (Expr.not e).render scope false = Term.write <$> e.resolve scope true :=
    e.render_eq_write scope true
  rw [e.render_eq_write] at hf
  have hcontrary := e.resolve_contrary scope h
  rw [hnot]
  generalize e.resolve scope false = x, e.resolve scope true = y at hf hcontrary
  cases hcontrary with
  | error err => cases hf
  | @ok t u h =>
      obtain rfl : t.write = f := Except.ok.inj hf
      exact ⟨u.write, rfl, h.opposed hclosed⟩

end RelationalQuery
