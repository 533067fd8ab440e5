/-
  RelationalQuery.Proofs.Building.Bracketing — conjunctions and disjunctions without brackets.

  A conjunction takes in the terms of the conjunctions among its own, and a single term stands for
  itself. Where no conjunction is directly under another and none has exactly one term, the terms of
  an expression say all about it: the terms of a conjunction are the terms of what it was built
  from, one after the other. So a conjunction depends on its terms in order and not on how they are
  bracketed, and a condition added in two steps is the condition added in one. Disjunctions are the
  same with the other connective.

  Main definitions:
    * `Connective`: conjunction and disjunction, with what flattens them.
    * `Expr.Settled`, `Expr.Flat`: the shape at the top, and everywhere.
    * `Bracketing`: a way to bracket terms.

  Main statements:
    * `Connective.terms_join`: the terms of what is joined.
    * `Bracketing.value_eq`: the brackets do not matter.
    * `Query.LeadsTo.settled`: the conditions of a query keep the shape.
    * `Connective.composes`: the laws, for expressions, queries and relations.
-/

import RelationalQuery.Proofs.Building.Steps
import RelationalQuery.Select.Rendering

namespace RelationalQuery

/-! ## Connectives -/

/-- What joins conditions. -/
inductive Connective where
  | and
  | or
deriving DecidableEq

namespace Connective

/-- The bare node, which flattens nothing. -/
def node : Connective → List Expr → Expr
  | .and => .and
  | .or => .or

/-- The terms of an expression under the connective. -/
def terms : Connective → Expr → List Expr
  | .and => Expr.conjuncts
  | .or => Expr.disjuncts

/-- Conjunction or disjunction, flattened. -/
def join : Connective → List Expr → Expr
  | .and => Expr.all
  | .or => Expr.any

/-- What is joined, case by case: a lone term stands for itself. -/
theorem join_eq (c : Connective) (es : List Expr) : c.join es =
    match es.flatMap c.terms with
    | [e] => e
    | ts => c.node ts := by
  cases c <;> rfl

@[simp] theorem terms_node (c : Connective) (ts : List Expr) : c.terms (c.node ts) = ts := by
  cases c <;> rfl

/-- An expression is a node of the connective, or its own single term. -/
theorem node_or_single (c : Connective) (e : Expr) :
    (∃ ts, e = c.node ts) ∨ ((∀ ts, e ≠ c.node ts) ∧ c.terms e = [e]) := by
  cases c with
  | and =>
      cases e with
      | and ts => exact Or.inl ⟨ts, rfl⟩
      | _ => exact Or.inr ⟨(fun ts h => nomatch h), rfl⟩
  | or =>
      cases e with
      | or ts => exact Or.inl ⟨ts, rfl⟩
      | _ => exact Or.inr ⟨(fun ts h => nomatch h), rfl⟩

/-- A node has one connective and one list of terms. -/
theorem node_inj {c d : Connective} {ts us : List Expr} (h : c.node ts = d.node us) :
    c = d ∧ ts = us := by
  cases c <;> cases d <;> cases h <;> exact ⟨rfl, rfl⟩

end Connective

/-! ## The shape -/

/-- At the top of the expression no node is directly under one of its own connective, and none has
exactly one term. -/
def Expr.Settled (e : Expr) : Prop :=
  ∀ (c : Connective) ts, e = c.node ts → ts.length ≠ 1 ∧ ∀ t ∈ ts, ∀ us, t ≠ c.node us

mutual

/-- The shape everywhere in the expression, down to its subqueries. -/
def Expr.Flat : Expr → Prop
  | .literal _ _ | .value _ | .column _ _ | .exists _ => True
  | .collate e _ | .not e | .prefixOp _ e | .countDistinct e | .inQuery e _ => e.Flat
  | .equal lhs rhs | .notEqual lhs rhs | .is lhs rhs | .isNot lhs rhs | .infixOp _ lhs rhs =>
    lhs.Flat ∧ rhs.Flat
  | .and es => (Expr.and es).Settled ∧ Expr.FlatAll es
  | .or es => (Expr.or es).Settled ∧ Expr.FlatAll es
  | .call _ es => Expr.FlatAll es
  | .inList e items => e.Flat ∧ Expr.FlatAll items
  | .between e low high => e.Flat ∧ low.Flat ∧ high.Flat
  | .count counted => counted.Flat

def Expr.FlatAll : List Expr → Prop
  | [] => True
  | e :: rest => e.Flat ∧ Expr.FlatAll rest

def ResultColumn.Flat : ResultColumn → Prop
  | .star _ => True
  | .expr e | .aliased e _ => e.Flat

end

namespace Connective

variable {c : Connective} {e : Expr} {es : List Expr}

/-- What is a node of neither connective is settled. -/
theorem settled_of_single (h : ∀ (c : Connective) ts, e ≠ c.node ts) : e.Settled :=
  fun c ts heq => absurd heq (h c ts)

/-- The members of a list are flat just when each of them is. -/
theorem flatAll_iff : {es : List Expr} → (Expr.FlatAll es ↔ ∀ e ∈ es, e.Flat)
  | [] => by
      rw [Expr.FlatAll]
      exact iff_of_true trivial fun _ h => by cases h
  | e :: rest => by rw [Expr.FlatAll, flatAll_iff, List.forall_mem_cons]

/-- A node is flat just when it is settled and its terms are flat. -/
theorem flat_node (c : Connective) (ts : List Expr) :
    (c.node ts).Flat ↔ (c.node ts).Settled ∧ ∀ t ∈ ts, t.Flat := by
  rw [← flatAll_iff]
  cases c <;> rw [node, Expr.Flat]

/-- What is flat everywhere is settled at the top. -/
theorem settled_of_flat (h : e.Flat) : e.Settled := by
  intro c ts heq
  subst heq
  exact ((flat_node c ts).mp h).1 c ts rfl

/-! ## Terms of what is joined -/

/-- No term of a settled expression is a node of the connective. -/
theorem ne_node_of_mem_terms (h : e.Settled) {t : Expr} (ht : t ∈ c.terms e) :
    ∀ us, t ≠ c.node us := by
  rcases c.node_or_single e with ⟨ts, rfl⟩ | ⟨hne, hsingle⟩
  · rw [terms_node] at ht
    exact (h c ts rfl).2 t ht
  · rw [hsingle, List.mem_singleton] at ht
    exact ht ▸ hne

/-- **The terms of what is joined are the terms of the parts**, one after the other. -/
theorem terms_join (h : ∀ e ∈ es, e.Settled) : c.terms (c.join es) = es.flatMap c.terms := by
  rw [join_eq]
  split
  · rename_i t heq
    -- The only term is left alone, and it is no node that would give terms of its own.
    obtain ⟨e, he, ht⟩ := List.mem_flatMap.mp (heq ▸ List.mem_singleton_self t :
      t ∈ es.flatMap c.terms)
    rcases c.node_or_single t with ⟨ts, hts⟩ | ⟨_, hsingle⟩
    · exact absurd hts (ne_node_of_mem_terms (h e he) ht ts)
    · rw [hsingle, heq]
  · exact terms_node c _

/-- What is joined depends on the terms alone. -/
theorem join_congr {ds : List Expr} (h : ds.flatMap c.terms = es.flatMap c.terms) :
    c.join ds = c.join es := by
  rw [join_eq, join_eq, h]

/-- A single part stands for itself. -/
theorem join_single (h : e.Settled) : c.join [e] = e := by
  rw [join_eq, List.flatMap_singleton]
  rcases c.node_or_single e with ⟨ts, rfl⟩ | ⟨_, hsingle⟩
  · rw [terms_node]
    split
    · exact absurd rfl (h c _ rfl).1
    · rfl
  · rw [hsingle]

/-- What is joined is one of the parts, or a node of all their terms. -/
theorem join_induction {motive : Expr → Prop} (h : ∀ e ∈ es, e.Settled)
    (hpart : ∀ e ∈ es, motive e)
    (hnode : (es.flatMap c.terms).length ≠ 1 → motive (c.node (es.flatMap c.terms))) :
    motive (c.join es) := by
  rw [join_eq]
  split
  · rename_i t heq
    obtain ⟨e, he, ht⟩ := List.mem_flatMap.mp (heq ▸ List.mem_singleton_self t :
      t ∈ es.flatMap c.terms)
    rcases c.node_or_single e with ⟨ts, rfl⟩ | ⟨_, hsingle⟩
    · -- A node has no term or several, but there is just one.
      exfalso
      rw [terms_node] at ht
      obtain ⟨before, after, rfl⟩ := List.append_of_mem he
      have hlength := congrArg List.length heq
      simp only [List.flatMap_append, List.flatMap_cons, List.length_append, terms_node,
        List.length_singleton] at hlength
      have hpos := List.length_pos_of_mem ht
      exact (h _ he c ts rfl).1 (by omega)
    · rw [hsingle, List.mem_singleton] at ht
      exact ht ▸ hpart e he
  · rename_i hne
    refine hnode fun hlength => ?_
    obtain ⟨t, ht⟩ := List.length_eq_one_iff.mp hlength
    exact hne t ht

/-- A node of several terms, or of none, that are no nodes themselves. -/
theorem settled_node (h : ∀ e ∈ es, e.Settled) (hlength : (es.flatMap c.terms).length ≠ 1) :
    (c.node (es.flatMap c.terms)).Settled := by
  intro d ts heq
  obtain ⟨rfl, rfl⟩ := node_inj heq
  refine ⟨hlength, fun t ht => ?_⟩
  obtain ⟨e, he, ht⟩ := List.mem_flatMap.mp ht
  exact ne_node_of_mem_terms (h e he) ht

/-- What is joined of settled expressions is settled. -/
theorem settled_join (h : ∀ e ∈ es, e.Settled) : (c.join es).Settled :=
  join_induction h h (settled_node h)

/-- What is joined of flat expressions is flat. -/
theorem flat_join (h : ∀ e ∈ es, e.Flat) : (c.join es).Flat := by
  have hsettled : ∀ e ∈ es, e.Settled := fun e he => settled_of_flat (h e he)
  refine join_induction hsettled h fun hlength => (flat_node _ _).mpr ⟨?_, fun t ht => ?_⟩
  · exact settled_node hsettled hlength
  · obtain ⟨e, he, ht⟩ := List.mem_flatMap.mp ht
    rcases c.node_or_single e with ⟨ts, rfl⟩ | ⟨_, hsingle⟩
    · rw [terms_node] at ht
      exact ((flat_node c ts).mp (h _ he)).2 t ht
    · rw [hsingle, List.mem_singleton] at ht
      exact ht ▸ h e he

/-- Two settled expressions are joined to a settled one. -/
theorem settled_pair {a b : Expr} (ha : a.Settled) (hb : b.Settled) : (c.join [a, b]).Settled :=
  settled_join (List.forall_mem_cons.mpr ⟨ha, List.forall_mem_singleton.mpr hb⟩)

/-- The terms of two settled expressions that are joined, one after the other. -/
theorem terms_pair {a b : Expr} (ha : a.Settled) (hb : b.Settled) :
    c.terms (c.join [a, b]) = c.terms a ++ c.terms b := by
  rw [terms_join (List.forall_mem_cons.mpr ⟨ha, List.forall_mem_singleton.mpr hb⟩),
    List.flatMap_cons, List.flatMap_singleton]

/-- Joining is associative. -/
theorem join_assoc {a b d : Expr} (ha : a.Settled) (hb : b.Settled) (hd : d.Settled) :
    c.join [c.join [a, b], d] = c.join [a, c.join [b, d]] := by
  apply join_congr
  simp only [List.flatMap_cons, List.flatMap_nil, terms_pair ha hb, terms_pair hb hd,
    List.append_nil, List.append_assoc]

/-- Of nothing, the connective is a unit. -/
theorem join_unit {a : Expr} (ha : a.Settled) :
    c.join [a, c.join []] = a ∧ c.join [c.join [], a] = a := by
  have hempty : c.terms (c.join []) = [] := terms_join (List.forall_mem_nil _)
  refine ⟨Eq.trans (join_congr ?_) (join_single ha), Eq.trans (join_congr ?_) (join_single ha)⟩ <;>
    simp only [List.flatMap_cons, List.flatMap_nil, hempty, List.append_nil, List.nil_append]

end Connective

/-! ## Brackets -/

/-- A way to bracket terms: in groups of any number, in groups. -/
inductive Bracketing where
  | term (e : Expr)
  | group (parts : List Bracketing)

mutual

/-- The terms in order. -/
def Bracketing.leaves : Bracketing → List Expr
  | .term e => [e]
  | .group parts => Bracketing.leavesAll parts

def Bracketing.leavesAll : List Bracketing → List Expr
  | [] => []
  | b :: rest => b.leaves ++ Bracketing.leavesAll rest

end

mutual

/-- The expression that is built in this way. -/
def Bracketing.value (c : Connective) : Bracketing → Expr
  | .term e => e
  | .group parts => c.join (Bracketing.valueAll c parts)

def Bracketing.valueAll (c : Connective) : List Bracketing → List Expr
  | [] => []
  | b :: rest => b.value c :: Bracketing.valueAll c rest

end

namespace Bracketing

mutual

-- The shape goes along with the terms: a group has the terms of its parts only where these have it.

/-- What is built has the terms of the leaves, and their shape. -/
theorem terms_value (c : Connective) : (b : Bracketing) → (∀ e ∈ b.leaves, e.Settled) →
    (b.value c).Settled ∧ c.terms (b.value c) = b.leaves.flatMap c.terms
  | .term e, h => by
      rw [leaves] at h ⊢
      rw [value, List.flatMap_singleton]
      exact ⟨h e (List.mem_singleton_self e), rfl⟩
  | .group parts, h => by
      rw [leaves] at h ⊢
      obtain ⟨hsettled, hterms⟩ := terms_valueAll c parts h
      rw [value, Connective.terms_join hsettled]
      exact ⟨Connective.settled_join hsettled, hterms⟩

/-- The terms of a group are those of its leaves, in order. -/
theorem terms_valueAll (c : Connective) : (parts : List Bracketing) →
    (∀ e ∈ leavesAll parts, e.Settled) → (∀ e ∈ valueAll c parts, e.Settled) ∧
      (valueAll c parts).flatMap c.terms = (leavesAll parts).flatMap c.terms
  | [], _ => by
      rw [valueAll, leavesAll]
      exact ⟨List.forall_mem_nil _, rfl⟩
  | b :: rest, h => by
      rw [leavesAll, List.forall_mem_append] at h
      obtain ⟨hvalue, hterms⟩ := terms_value c b h.1
      obtain ⟨hrest, hothers⟩ := terms_valueAll c rest h.2
      rw [valueAll, leavesAll, List.flatMap_cons, List.flatMap_append, hterms, hothers]
      exact ⟨List.forall_mem_cons.mpr ⟨hvalue, hrest⟩, rfl⟩

end

/-- **The brackets do not matter**: every bracketing builds what its terms build in a row. -/
theorem value_eq (c : Connective) (b : Bracketing) (h : ∀ e ∈ b.leaves, e.Settled) :
    b.value c = c.join b.leaves := by
  obtain ⟨hvalue, hterms⟩ := b.terms_value c h
  -- What is built is joined once more, so that its terms are compared and not the expressions.
  rw [← Connective.join_single hvalue]
  refine Connective.join_congr ?_
  rw [List.flatMap_singleton, hterms]

end Bracketing

/-! ## Queries and relations -/

/-- The conditions of the query have the shape. -/
structure Query.Settled (q : Query) : Prop where
  filter : ∀ e, q.filter = some e → e.Settled
  having : ∀ e, q.having = some e → e.Settled

theorem Query.settled_empty : Query.empty.Settled :=
  ⟨(fun _ h => nomatch h), (fun _ h => nomatch h)⟩

/-- A query that was just made from a source has no conditions. -/
theorem Query.settled_ofSource (s : Source) : (Query.ofSource s).Settled :=
  ⟨(fun _ h => nomatch h), (fun _ h => nomatch h)⟩

/-- A condition is added to earlier ones. -/
theorem Query.settled_conjoin {earlier : Option Expr} {condition : Expr}
    (h : ∀ e, earlier = some e → e.Settled) (hcondition : condition.Settled) :
    ∀ e, Query.conjoin earlier condition = some e → e.Settled := by
  intro e he
  cases earlier with
  | none =>
      cases he
      exact hcondition
  | some first =>
      cases he
      exact Connective.settled_pair (c := .and) (h first rfl) hcondition

/-- Two conditions in a row are one. -/
theorem Query.conjoin_conjoin {earlier : Option Expr} {a b : Expr}
    (h : ∀ e, earlier = some e → e.Settled) (ha : a.Settled) (hb : b.Settled) :
    Query.conjoin (Query.conjoin earlier a) b = Query.conjoin earlier (.all [a, b]) := by
  cases earlier with
  | none => rfl
  | some e => exact congrArg some (Connective.join_assoc (c := .and) (h e rfl) ha hb)

/-- An operation that adds settled conditions only keeps a query settled. -/
theorem Query.Becomes.settled {q q' : Query} (h : q.Becomes Expr.Settled q') (hq : q.Settled) :
    q'.Settled := by
  cases h with
  | restrict he => exact ⟨Query.settled_conjoin hq.filter he, hq.having⟩
  | restrictGroups he => exact ⟨hq.filter, Query.settled_conjoin hq.having he⟩
  | attach kind included relations next =>
      cases hs : q.source with
      | none =>
          rw [Query.attach, hs]
          exact hq
      | some s =>
          obtain ⟨_, _, hattached⟩ := q.source_attach hs kind included relations next
          rw [hattached]
          exact ⟨hq.filter, hq.having⟩
  -- The other operations leave both clauses as they are.
  | aliased | select | dedup | group | order | reverse | take => exact ⟨hq.filter, hq.having⟩

/-- **The conditions of a query keep the shape** through any operations that add such conditions. -/
theorem Query.LeadsTo.settled {q q' : Query} (h : q.LeadsTo Expr.Settled q') (hq : q.Settled) :
    q'.Settled := by
  induction h with
  | refl => exact hq
  | tail _ hstep ih => exact hstep.settled ih

/-- Two conditions of a relation in a row are one. -/
theorem Relation.restrict_restrict (r : Relation) {p k : SourceId → SourceId → Expr}
    (hp : ∀ left right, (p left right).Settled) (hk : ∀ left right, (k left right).Settled) :
    (r.restrict p).restrict k = r.restrict fun left right => .all [p left right, k left right] := by
  unfold Relation.restrict
  refine congrArg (fun condition => { r with condition := condition }) ?_
  funext left right
  have hterms := Connective.terms_pair (c := .and) (hp left right) (hk left right)
  rw [show (Expr.all [p left right, k left right]).conjuncts = _ from hterms, List.append_assoc]
  rfl

/-- **Conditions compose.** Where no conjunction is directly under another and none has exactly one
term, and likewise for disjunctions, joining terms keeps to this, at the top and everywhere; it is
associative, with the empty one as its unit; and it does not depend on the brackets. So conditions
added one by one are those added at once, to a query that was built from a source, or from none,
with such conditions, and to a relation, which compiles to the same wherever it is attached. -/
theorem Connective.composes :
    (∀ (c : Connective) es, ((∀ e ∈ es, e.Settled) → (c.join es).Settled) ∧
      ((∀ e ∈ es, e.Flat) → (c.join es).Flat)) ∧
    (∀ (c : Connective) (a b d : Expr), a.Settled → b.Settled → d.Settled →
      c.join [c.join [a, b], d] = c.join [a, c.join [b, d]] ∧
      c.join [a, c.join []] = a ∧ c.join [c.join [], a] = a) ∧
    (∀ (c : Connective) (x y : Bracketing), x.leaves = y.leaves →
      (∀ e ∈ x.leaves, e.Settled) → x.value c = y.value c) ∧
    (Query.empty.Settled ∧ (∀ s, (Query.ofSource s).Settled) ∧
      ∀ (start q : Query) (a b : Expr), start.Settled → start.LeadsTo Expr.Settled q →
        a.Settled → b.Settled →
        (q.restrict a).restrict b = q.restrict (.all [a, b]) ∧
        (q.restrictGroups a).restrictGroups b = q.restrictGroups (.all [a, b])) ∧
    (∀ (r : Relation) (p k : SourceId → SourceId → Expr),
      (∀ left right, (p left right).Settled ∧ (k left right).Settled) →
      (r.restrict p).restrict k =
        r.restrict (fun left right => .all [p left right, k left right]) ∧
      ∀ (attached : Relation → Supply Query) (next : Nat) (schema : Schema),
        ((attached ((r.restrict p).restrict k)).run next).1.compile schema =
          ((attached (r.restrict fun left right =>
            .all [p left right, k left right])).run next).1.compile schema) := by
  refine ⟨fun c es => ⟨settled_join, flat_join⟩, fun c a b d ha hb hd => ?_,
    fun c x y hleaves h => ?_, ⟨Query.settled_empty, Query.settled_ofSource,
      fun start q a b hstart hq ha hb => ?_⟩, fun r p k h => ?_⟩
  · exact ⟨join_assoc ha hb hd, join_unit ha⟩
  · rw [x.value_eq c h, y.value_eq c (hleaves ▸ h), hleaves]
  · -- Every step keeps the conditions settled, so those that are there compose with the new ones.
    have hsettled := hq.settled hstart
    unfold Query.restrict Query.restrictGroups
    rw [Query.conjoin_conjoin hsettled.filter ha hb, Query.conjoin_conjoin hsettled.having ha hb]
    exact ⟨rfl, rfl⟩
  · have hsame := r.restrict_restrict (fun left right => (h left right).1)
      fun left right => (h left right).2
    exact ⟨hsame, fun attached next schema => by rw [hsame]⟩

/-- The column of the name, as a condition. -/
def holds (name : String) : Expr := .column none name

theorem holds_settled (name : String) : (holds name).Settled :=
  Connective.settled_of_single fun c ts h => by cases c <;> cases h

/-- People. -/
def everyone : Query := .ofSource (.table ⟨0⟩ "persons" none)

/-- People, beside others. -/
def someone : Relation := .unconditional "someone" (.table ⟨1⟩ "persons" none)

/-- Three conditions in two bracketings, one of them with an empty group, are one conjunction; added
one by one to people they are added at once; and so they are to a relation. -/
theorem holds_composes :
    (Bracketing.group [.group [.term (holds "a"), .group [], .term (holds "b")],
      .term (holds "c")]).value .and = .and [holds "a", holds "b", holds "c"] ∧
    (Bracketing.group [.term (holds "a"),
      .group [.term (holds "b"), .group [.term (holds "c")]]]).value .and =
        .and [holds "a", holds "b", holds "c"] ∧
    (((everyone.restrict (holds "a")).restrict (holds "b")).restrict (holds "c") =
      (everyone.restrict (holds "a")).restrict (.all [holds "b", holds "c"])) ∧
    ((someone.restrict fun _ _ => holds "a").restrict (fun _ _ => holds "b") =
      someone.restrict fun _ _ => .all [holds "a", holds "b"]) := by
  have hall : ∀ e ∈ ["a", "b", "c"].map holds, e.Settled :=
    List.forall_mem_map.mpr fun name _ => holds_settled name
  -- The query that the last two conditions are added to already has one.
  have hadded : everyone.LeadsTo Expr.Settled (everyone.restrict (holds "a")) :=
    .single (.restrict _ (holds_settled "a"))
  obtain ⟨_, _, hbrackets, ⟨_, _, hqueries⟩, hrelations⟩ := Connective.composes
  refine ⟨rfl, ?_, ?_, ?_⟩
  · exact hbrackets .and (.group [.term (holds "a"),
      .group [.term (holds "b"), .group [.term (holds "c")]]])
      (.group [.term (holds "a"), .term (holds "b"), .term (holds "c")]) rfl hall
  · exact (hqueries _ _ _ _ (Query.settled_ofSource _) hadded (holds_settled "b")
      (holds_settled "c")).1
  · exact (hrelations _ _ _ fun _ _ => ⟨holds_settled "a", holds_settled "b"⟩).1

end RelationalQuery
