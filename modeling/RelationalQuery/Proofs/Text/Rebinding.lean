/-
  RelationalQuery.Proofs.Text.Rebinding — binding again what is bound.

  Arguments that others were grown from can be appended to these again: their names are bound there
  to the very same values. What decides is whether a value agrees with itself, and all values do
  but one kind: a real that is no number. So a literal can be used in a statement any number of
  times, as long as it binds no name to such a real.

  Main definitions:
    * `Value.isNaN`: the kind of value that does not agree with itself.
    * `Arguments.Grows`: something was appended, without a clash.

  Main statements:
    * `Arguments.append_grown`: appending once more what has been appended.
    * `Query.clash_of_compile`: a statement clashes as two of its literals do.
    * `bound_again`: both for values that agree with themselves.
-/

import Mathlib.Logic.Relation
import RelationalQuery.Proofs.Failure.Causes
import RelationalQuery.Proofs.Text.Literals
import RelationalQuery.Proofs.Text.Merging

namespace RelationalQuery

/-! ## Values that agree with themselves -/

/-- A real that is no number. -/
def Value.isNaN : Value → Bool
  | .real x => x.isNaN
  | _ => false

/-- **Every value agrees with itself but a NaN.** -/
theorem Value.agrees_self (v : Value) : v.agrees v = !v.isNaN := by
  cases v with
  | integer n => exact beq_self_eq_true n
  | real x =>
      have hequal : x.equal x = true ↔ x.isNaN = false := by
        rw [Binary64.equal_iff]
        simp
      show x.equal x = !x.isNaN
      rw [Bool.eq_iff_iff, hequal, Bool.not_eq_true']
  | text s => exact beq_self_eq_true s
  | blob bytes => exact beq_self_eq_true bytes
  | null => rfl

namespace Arguments

/-! ## Growing -/

/-- Something was appended to the first, without a clash. -/
def Grows (a b : Arguments) : Prop := ∃ more, a.append more = .ok b

/-- Merging keeps the names that are there, in front. -/
theorem mergeNamed_keeps : (pairs : List (String × Value)) → (a : Arguments) →
    ∃ more, (a.mergeNamed pairs).1.named = a.named ++ more
  | [], a => ⟨[], (List.append_nil _).symm⟩
  | (name, v) :: rest, a => by
      cases hw : a.named.lookup name with
      | none =>
          obtain ⟨more, hmore⟩ :=
            mergeNamed_keeps rest { a with named := a.named ++ [(name, v)] }
          rw [mergeNamed_new hw, hmore, List.append_assoc]
          exact ⟨_, rfl⟩
      | some w =>
          cases h : w.agrees v with
          | true =>
              rw [mergeNamed_agreeing hw h]
              exact mergeNamed_keeps rest a
          | false =>
              rw [mergeNamed_clashing hw h]
              exact ⟨[], (List.append_nil _).symm⟩

/-- One step keeps the names that are there. -/
theorem Grows.named {a b : Arguments} (h : a.Grows b) : ∃ more, b.named = a.named ++ more := by
  obtain ⟨added, h⟩ := h
  obtain ⟨more, hmore⟩ := mergeNamed_keeps added.named a
  rw [append_eq] at h
  cases hclash : (a.mergeNamed added.named).2 with
  | some name =>
      rw [hclash] at h
      cases h
  | none =>
      rw [hclash] at h
      cases h
      exact ⟨more, hmore⟩

/-- Any number of steps keeps the names that are there. -/
theorem named_of_grown {a b : Arguments} (h : Relation.ReflTransGen Grows a b) :
    ∃ more, b.named = a.named ++ more := by
  induction h with
  | refl => exact ⟨[], (List.append_nil _).symm⟩
  | tail _ hstep ih =>
      obtain ⟨more, hmore⟩ := ih
      obtain ⟨others, hothers⟩ := hstep.named
      rw [hothers, hmore, List.append_assoc]
      exact ⟨_, rfl⟩

/-! ## Appending once more -/

/-- Where a name is bound once, that binding is found. -/
theorem lookup_of_mem {pair : String × Value} : {named : List (String × Value)} →
    (named.map (·.1)).Nodup → pair ∈ named → named.lookup pair.1 = some pair.2
  | [], _, hmem => absurd hmem List.not_mem_nil
  | (name, v) :: rest, hnodup, hmem => by
      obtain ⟨hfirst, hrest⟩ := List.nodup_cons.mp hnodup
      obtain rfl | hmem := List.mem_cons.mp hmem
      · exact List.lookup_cons_self
      · have hname : pair.1 ∈ rest.map (·.1) := List.mem_map_of_mem hmem
        have hne : pair.1 ≠ name := fun h => hfirst (h ▸ hname)
        rw [List.lookup_cons, beq_false_of_ne hne]
        exact lookup_of_mem hrest hmem

/-- A name of the first has its value in what was grown from it. -/
theorem lookup_of_grown {a b : Arguments} (ha : a.Reachable)
    (hab : Relation.ReflTransGen Grows a b) :
    ∀ pair ∈ a.named, b.named.lookup pair.1 = some pair.2 := by
  intro pair hmem
  obtain ⟨more, hmore⟩ := named_of_grown hab
  rw [hmore, lookup_append, lookup_of_mem ha.nodup hmem, Option.some_or]

/-- Bindings that are there already change nothing, and the first NaN among them clashes. -/
theorem mergeNamed_again (b : Arguments) : (pairs : List (String × Value)) →
    (∀ pair ∈ pairs, b.named.lookup pair.1 = some pair.2) →
      b.mergeNamed pairs = (b, (pairs.find? (·.2.isNaN)).map (·.1))
  | [], _ => rfl
  | (name, v) :: rest, h => by
      obtain ⟨hv, hrest⟩ := List.forall_mem_cons.mp h
      rw [List.find?_cons]
      cases hnan : v.isNaN with
      | true => exact mergeNamed_clashing hv (by rw [v.agrees_self, hnan]; rfl)
      | false =>
          rw [mergeNamed_agreeing hv (by rw [v.agrees_self, hnan]; rfl)]
          exact mergeNamed_again b rest hrest

/-- **Appending once more what has been appended** adds the positional values and nothing else. It
fails only on a NaN, at the first name that is bound to one. -/
theorem append_grown {a b : Arguments} (ha : a.Reachable)
    (hab : Relation.ReflTransGen Grows a b) : b.append a =
      match a.named.find? (·.2.isNaN) with
      | none => .ok ⟨b.positional ++ a.positional, b.named⟩
      | some pair => .error (.argumentReused pair.1) := by
  rw [append_eq, mergeNamed_again b a.named (lookup_of_grown ha hab)]
  cases a.named.find? (·.2.isNaN) <;> rfl

end Arguments

/-! ## Statements -/

/-- No demand is about arguments. -/
theorem Demand.check_ne_argumentReused {schema : Schema} {d : Demand} {name : String} :
    d.check schema ≠ .error (.argumentReused name) := by
  intro h
  cases Demand.unmet_of_check h

/-- A clash of arguments comes up when a fragment is built, not before. -/
theorem Query.build_of_compile {schema : Schema} {q : Query} {name : String}
    (h : q.compile schema = .error (.argumentReused name)) :
    ∃ f, q.fragment schema = .ok f ∧ f.build = .error (.argumentReused name) := by
  obtain hfragment | hbuild := bind_eq_error.mp h
  · have hdemands := q.fragment_follows schema
    rw [Follows, hfragment] at hdemands
    obtain ⟨_, _, _, _, _, hd⟩ := forM_eq_error.mp hdemands.symm
    exact absurd hd Demand.check_ne_argumentReused
  · exact hbuild

/-- The first clash is the error. -/
theorem Fragment.firstClash_of_build {f : Fragment} {name : String}
    (h : f.build = .error (.argumentReused name)) : Arguments.FirstClash [] f.bindings name := by
  obtain ⟨hclash, _⟩ := Arguments.mergeNamed_spec f.bindings (a := .empty) Arguments.firsts_nil
  rw [← hclash]
  rw [build_eq, arguments_eq_append, Arguments.append_eq] at h
  cases hmerged : (Arguments.empty.mergeNamed f.bindings).2 with
  | none =>
      rw [hmerged] at h
      cases h
  | some other =>
      rw [hmerged] at h
      cases h
      rfl

/-- **A statement clashes as two of its literals do**, or as one does that is used twice. -/
theorem Query.clash_of_compile {A : Arguments → Prop} (hA : ∀ own, A own → own.Reachable)
    {schema : Schema} {q : Query} (hq : q.Brings A) {name : String}
    (h : q.compile schema = .error (.argumentReused name)) :
    ∃ own own' w v, A own ∧ A own' ∧ own.value? name = some w ∧ own'.value? name = some v ∧
      w.agrees v = false := by
  obtain ⟨f, hf, hbuild⟩ := Query.build_of_compile h
  have hbrings : f.Brings A :=
    gives_any.bind (fun scope _ => q.render_brings scope hq) f hf
  have hattainable : f.Attainable := fun sql own hmem => hA own (hbrings sql own hmem)
  obtain ⟨before, sql, own, between, sql', own', after, w, v, hchunks, _, hw, hv, hclash⟩ :=
    hattainable.contradicts (Fragment.firstClash_of_build hbuild)
  refine ⟨own, own', w, v, hbrings sql own ?_, hbrings sql' own' ?_, hw, hv, hclash⟩ <;>
    simp [hchunks]

/-- **Binding again what is bound is allowed, but for NaN.** Arguments can be appended to all that
were grown from them, which adds their positional values and leaves the names as they are, exactly
if none of their names is bound to a NaN; the first such name is the error. A statement can use a
literal any number of times: no name clashes to which no literal binds a NaN, and on which literals
that have different arguments agree. -/
theorem bound_again {a b : Arguments} (ha : a.Reachable)
    (hab : Relation.ReflTransGen Arguments.Grows a b) :
    (b.append a = match a.named.find? (·.2.isNaN) with
      | none => .ok ⟨b.positional ++ a.positional, b.named⟩
      | some pair => .error (.argumentReused pair.1)) ∧
    ∀ (schema : Schema) (q : Query) (A : Arguments → Prop), (∀ own, A own → own.Reachable) →
      q.Brings A → ∀ name,
        (∀ own v, A own → own.value? name = some v → v.isNaN = false) →
        (∀ own own' w v, A own → A own' → own ≠ own' → own.value? name = some w →
          own'.value? name = some v → w.agrees v = true) →
        q.compile schema ≠ .error (.argumentReused name) := by
  refine ⟨Arguments.append_grown ha hab, ?_⟩
  intro schema q A hA hq name hnumbers hagree hclash
  obtain ⟨own, own', w, v, hown, hown', hw, hv, hne⟩ := Query.clash_of_compile hA hq hclash
  by_cases hsame : own = own'
  · -- A literal that is used twice agrees with itself, unless a NaN is bound.
    subst hsame
    obtain rfl : w = v := Option.some.inj (hw.symm.trans hv)
    rw [w.agrees_self, hnumbers own w hown hw] at hne
    cases hne
  · rw [hagree own own' w v hown hown' hsame hw hv] at hne
    cases hne

/-- A positional value and a named one. -/
def lateBound : Arguments := (Arguments.empty.push (.text "Ada")).set "most" (.integer 5)

/-- The same name with the same value, alone. -/
def mostBound : Arguments := .ofNamed [("most", .integer 5)]

/-- What can be grown from the first. -/
def lateGrown : Arguments := ⟨[.text "Ada", .null], [("most", .integer 5), ("least", .integer 1)]⟩

/-- A literal that is used twice beside another one that binds its name. -/
def lateRows : Query :=
  let rows := ((Query.table "persons").run 0).1
  let late := Expr.literal "name > ? AND id < :most" (some lateBound)
  (rows.restrict (.or [late, .not late])).restrictSql "leader_id < :most" mostBound

theorem lateRows_bound : lateBound.Reachable ∧ mostBound.Reachable ∧
    Relation.ReflTransGen Arguments.Grows lateBound lateGrown ∧
    lateGrown.append lateBound =
      .ok ⟨[.text "Ada", .null, .text "Ada"], [("most", .integer 5), ("least", .integer 1)]⟩ ∧
    lateRows.Brings (fun own => own = lateBound ∨ own = mostBound) ∧
    ∀ name, lateRows.compile people ≠ .error (.argumentReused name) := by
  have hlate : lateBound.Reachable := .set _ _ (.push _ .empty)
  have hmost : mostBound.Reachable := .set _ _ .empty
  have hgrown : Relation.ReflTransGen Arguments.Grows lateBound lateGrown :=
    .single ⟨(Arguments.empty.push .null).set "least" (.integer 1), by decide +kernel⟩
  have hbrings : lateRows.Brings (fun own => own = lateBound ∨ own = mostBound) :=
    ⟨⟨trivial, trivial⟩, trivial, ⟨⟨Or.inl rfl, Or.inl rfl, trivial⟩, Or.inr rfl, trivial⟩,
      trivial, trivial, trivial⟩
  -- Both literals bind one name, to the same value.
  have hvalue : ∀ own, own = lateBound ∨ own = mostBound → ∀ {name v},
      own.value? name = some v → v = .integer 5 := by
    intro own hown name v hv
    have hnamed : own.named = [("most", .integer 5)] := by
      rcases hown with rfl | rfl <;> rfl
    obtain ⟨before, after, hpair, _⟩ := List.lookup_eq_some_iff.mp hv
    have hmem : (name, v) ∈ own.named := by simp [hpair]
    rw [hnamed] at hmem
    exact congrArg Prod.snd (List.mem_singleton.mp hmem)
  obtain ⟨happend, hcompile⟩ := bound_again hlate hgrown
  refine ⟨hlate, hmost, hgrown, happend, hbrings, fun name => ?_⟩
  refine hcompile people lateRows _ ?_ hbrings name ?_ ?_
  · rintro own (rfl | rfl)
    · exact hlate
    · exact hmost
  · intro own v hown hv
    rw [hvalue own hown hv]
    rfl
  · intro own own' w v hown hown' _ hw hv
    rw [hvalue own hown hw, hvalue own' hown' hv]
    rfl

/-- A name that is bound to a NaN. -/
def nanBound : Arguments := Arguments.empty.set "x" (.real .nan)

/-- One literal, used twice. -/
def nanTwice : Query :=
  let rows := ((Query.table "persons").run 0).1
  (rows.restrictSql "id > :x" nanBound).restrictSql "id > :x" nanBound

/-- **A NaN cannot be bound again**, not even by the literal that bound it. -/
theorem nanBound_clashes : nanBound.Reachable ∧
    Relation.ReflTransGen Arguments.Grows nanBound nanBound ∧
    nanBound.append nanBound = .error (.argumentReused "x") ∧
    nanTwice.Brings (· = nanBound) ∧
    nanTwice.compile people = .error (.argumentReused "x") := by
  refine ⟨.set _ _ .empty, .refl, by decide +kernel, ?_, by decide +kernel⟩
  exact ⟨⟨trivial, trivial⟩, trivial, ⟨rfl, rfl, trivial⟩, trivial, trivial, trivial⟩

end RelationalQuery
