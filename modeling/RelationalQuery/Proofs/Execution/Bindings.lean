/-
  RelationalQuery.Proofs.Execution.Bindings — leaving out parts of a statement keeps it buildable.

  Building a fragment fails on one thing only: a name that is bound to two values that do not
  agree. Agreement with a common value is passed on, so a fragment that brings some of the bindings
  of another, in their order, is built when the other is.

  Main statements:
    * `Value.agrees_of_common`: values that agree with one value agree.
    * `Fragment.build_of_sublist`: fewer bindings can be built as well.
-/

import RelationalQuery.Proofs.Statement.Scoping
import RelationalQuery.Select.Width

namespace RelationalQuery

/-! ## Agreement -/

/-- Two doubles are equal when neither is a NaN and their ordering keys are the same, so the zeros
are equal. -/
theorem Binary64.equal_iff {x y : Binary64} :
    x.equal y = true ↔ (x.isNaN = false ∧ y.isNaN = false) ∧ x.orderKey = y.orderKey := by
  unfold Binary64.equal Binary64.compare?
  cases x.isNaN <;> cases y.isNaN <;> simp

/-- Values that agree with one value agree with each other. -/
theorem Value.agrees_of_common {w a b : Value} (ha : w.agrees a = true) (hb : w.agrees b = true) :
    a.agrees b = true := by
  match w, a, b, ha, hb with
  | .integer l, .integer m, .integer n, ha, hb =>
      exact beq_iff_eq.mpr ((eq_of_beq ha).symm.trans (eq_of_beq hb))
  | .real x, .real y, .real z, ha, hb =>
      obtain ⟨⟨_, hx⟩, hxkey⟩ := Binary64.equal_iff.mp ha
      obtain ⟨⟨_, hy⟩, hykey⟩ := Binary64.equal_iff.mp hb
      exact Binary64.equal_iff.mpr ⟨⟨hx, hy⟩, hxkey.symm.trans hykey⟩
  | .text l, .text m, .text n, ha, hb =>
      exact beq_iff_eq.mpr ((eq_of_beq ha).symm.trans (eq_of_beq hb))
  | .blob l, .blob m, .blob n, ha, hb =>
      exact beq_iff_eq.mpr ((eq_of_beq ha).symm.trans (eq_of_beq hb))
  | .null, .null, .null, _, _ => rfl

/-! ## Bindings -/

/-- The named values that a chunk brings. -/
def Chunk.bindings : Chunk → List (String × Value)
  | .literal _ (some own) => own.named
  | _ => []

/-- The named values that a fragment brings, in order. -/
def Fragment.bindings (a : Fragment) : List (String × Value) := a.chunks.flatMap Chunk.bindings

namespace Arguments

/-- The named values with more bindings, each of a new name or to a value that agrees. -/
def bindAll (named : List (String × Value)) :
    List (String × Value) → Option (List (String × Value))
  | [] => some named
  | (name, v) :: rest =>
    match named.lookup name with
    | some w => if w.agrees v then bindAll named rest else none
    | none => bindAll (named ++ [(name, v)]) rest

section Steps

variable {named : List (String × Value)} {name : String} {v w : Value}
  {rest : List (String × Value)}

/-- Binding a name again to a value that agrees changes nothing. -/
theorem bindAll_agreeing (hw : named.lookup name = some w) (h : w.agrees v = true) :
    bindAll named ((name, v) :: rest) = bindAll named rest := by
  rw [bindAll, hw]
  exact if_pos h

/-- Binding a name again to a value that does not agree fails. -/
theorem bindAll_clashing (hw : named.lookup name = some w) (h : w.agrees v = false) :
    bindAll named ((name, v) :: rest) = none := by
  rw [bindAll, hw]
  exact if_neg (by rw [h]; exact Bool.false_ne_true)

/-- A name that is new takes its place behind those that are bound. -/
theorem bindAll_new (hw : named.lookup name = none) :
    bindAll named ((name, v) :: rest) = bindAll (named ++ [(name, v)]) rest := by
  rw [bindAll, hw]

end Steps

/-- Bindings can be added in two steps. -/
theorem bindAll_append (named : List (String × Value)) : (a b : List (String × Value)) →
    bindAll named (a ++ b) = (bindAll named a).bind fun merged => bindAll merged b
  | [], b => rfl
  | (name, v) :: rest, b => by
      rw [List.cons_append]
      cases hw : named.lookup name with
      | some w =>
          cases h : w.agrees v with
          | true =>
              rw [bindAll_agreeing hw h, bindAll_agreeing hw h]
              exact bindAll_append named rest b
          | false =>
              rw [bindAll_clashing hw h, bindAll_clashing hw h]
              rfl
      | none =>
          rw [bindAll_new hw, bindAll_new hw]
          exact bindAll_append _ rest b

/-- Merging named values is binding them all, if none of them clashes. -/
theorem mergeNamed_eq (a : Arguments) : (pairs : List (String × Value)) →
    bindAll a.named pairs =
      if (a.mergeNamed pairs).2.isNone then some (a.mergeNamed pairs).1.named else none
  | [] => rfl
  | (name, v) :: rest => by
      rw [mergeNamed, value?]
      cases hw : a.named.lookup name with
      | some w =>
          cases h : w.agrees v with
          | true =>
              -- The same value twice is one binding.
              rw [bindAll_agreeing hw h]
              simp only [h, if_true]
              exact mergeNamed_eq a rest
          | false =>
              -- Two values under one name: the rest is not looked at.
              rw [bindAll_clashing hw h]
              simp only [h, Bool.false_eq_true, if_false, Option.isNone_some]
      | none =>
          rw [bindAll_new hw]
          exact mergeNamed_eq { a with named := a.named ++ [(name, v)] } rest

/-- Every name has a value in the other, the same or one that agrees. -/
def Covered (few many : List (String × Value)) : Prop :=
  ∀ name v, few.lookup name = some v →
    ∃ w, many.lookup name = some w ∧ (w = v ∨ w.agrees v = true)

/-- A name that is bound stays bound as it is when a pair is added behind. -/
theorem lookup_append_of_some {named : List (String × Value)} {name : String} {w : Value}
    (h : named.lookup name = some w) (pair : String × Value) :
    (named ++ [pair]).lookup name = some w := by
  rw [lookup_append, h, Option.some_or]

/-- A pair more takes no name away. -/
theorem Covered.more {few many : List (String × Value)} (h : Covered few many)
    (pair : String × Value) : Covered few (many ++ [pair]) := by
  intro name v hv
  obtain ⟨w, hw, hagrees⟩ := h name v hv
  exact ⟨w, lookup_append_of_some hw pair, hagrees⟩

/-- A new pair is found under its own name only. -/
theorem lookup_append_new {named : List (String × Value)} {name other : String} {v : Value}
    (h : named.lookup name = none) : (named ++ [(name, v)]).lookup other =
      if other = name then some v else named.lookup other := by
  rw [lookup_append, List.lookup_cons]
  by_cases heq : other = name
  · subst heq
    rw [h, if_pos rfl, beq_self_eq_true]
    rfl
  · rw [if_neg heq, beq_false_of_ne heq]
    exact Option.or_none

/-- A name that the larger list lacks is not in the smaller one either. -/
theorem Covered.lookup_eq_none {few many : List (String × Value)} (h : Covered few many)
    {name : String} (hw : many.lookup name = none) : few.lookup name = none := by
  cases hx : few.lookup name with
  | none => rfl
  | some x =>
      obtain ⟨w, hw', _⟩ := h name x hx
      rw [hw] at hw'
      cases hw'

/-- One more name on the left, which the right has. -/
theorem Covered.new {few many : List (String × Value)} (h : Covered few many) {name : String}
    {v w : Value} (hx : few.lookup name = none) (hw : many.lookup name = some w)
    (hagrees : w = v ∨ w.agrees v = true) : Covered (few ++ [(name, v)]) many := by
  intro other y hy
  rw [lookup_append_new hx] at hy
  by_cases heq : other = name
  · subst heq
    rw [if_pos rfl] at hy
    cases hy
    exact ⟨w, hw, hagrees⟩
  · rw [if_neg heq] at hy
    exact h other y hy

/-- Fewer bindings go together when more do. -/
theorem bindAll_of_sublist {fewer more : List (String × Value)} (h : fewer.Sublist more) :
    ∀ few many : List (String × Value), Covered few many → (bindAll many more).isSome →
      (bindAll few fewer).isSome := by
  induction h with
  | slnil => intro few many _ _; rfl
  | @cons fewer more pair _ ih =>
      -- The binding is left out.
      intro few many hcovered hmany
      obtain ⟨name, v⟩ := pair
      cases hw : many.lookup name with
      | some w =>
          cases hagrees : w.agrees v with
          | true =>
              rw [bindAll_agreeing hw hagrees] at hmany
              exact ih few many hcovered hmany
          | false =>
              rw [bindAll_clashing hw hagrees] at hmany
              cases hmany
      | none =>
          rw [bindAll_new hw] at hmany
          exact ih few _ (hcovered.more _) hmany
  | @cons_cons fewer more pair _ ih =>
      intro few many hcovered hmany
      obtain ⟨name, v⟩ := pair
      cases hw : many.lookup name with
      | some w =>
          cases hagrees : w.agrees v with
          | false =>
              rw [bindAll_clashing hw hagrees] at hmany
              cases hmany
          | true =>
              rw [bindAll_agreeing hw hagrees] at hmany
              cases hx : few.lookup name with
              | none =>
                  rw [bindAll_new hx]
                  exact ih _ many (hcovered.new hx hw (Or.inr hagrees)) hmany
              | some x =>
                  -- Both values agree with the one that was there first.
                  obtain ⟨w', hw', hcommon⟩ := hcovered name x hx
                  rw [hw] at hw'
                  cases hw'
                  have hvalue : x.agrees v = true := by
                    rcases hcommon with rfl | hcommon
                    · exact hagrees
                    · exact Value.agrees_of_common hcommon hagrees
                  rw [bindAll_agreeing hx hvalue]
                  exact ih few many hcovered hmany
      | none =>
          have hx := hcovered.lookup_eq_none hw
          rw [bindAll_new hw] at hmany
          rw [bindAll_new hx]
          refine ih _ _ ((hcovered.more _).new hx ?_ (Or.inl rfl)) hmany
          rw [lookup_append_new hw, if_pos rfl]

end Arguments

namespace Fragment

/-- The values of two fragments in a row are those of the first, then those of the second. -/
@[simp] theorem bindings_append (a b : Fragment) : (a ++ b).bindings = a.bindings ++ b.bindings :=
  List.flatMap_append

@[simp] theorem bindings_empty : empty.bindings = [] := rfl

@[simp] theorem bindings_token (t : Token) : (token t).bindings = [] := rfl

@[simp] theorem bindings_ident (name : String) : (ident name).bindings = [] := rfl

@[simp] theorem bindings_number (n : Nat) : (number n).bindings = [] := rfl

@[simp] theorem bindings_function (name : String) : (single (.function name)).bindings = [] := rfl

/-- Parentheses bring no values. -/
@[simp] theorem bindings_parens (a : Fragment) : a.parens.bindings = a.bindings := by
  simp [parens]

/-- A call brings the values of its arguments. -/
@[simp] theorem bindings_call (name : String) (a : Fragment) :
    (call name a).bindings = a.bindings := by
  simp [call]

/-- An alias brings no values. -/
@[simp] theorem bindings_aliased (a : Fragment) (name : String) :
    (a.aliased name).bindings = a.bindings := by
  simp [aliased]

/-- Collecting the arguments of a chunk binds its names. -/
theorem collect_named (start : Arguments) (c : Chunk) :
    Arguments.bindAll start.named c.bindings = (collect start c).toOption.map (·.named) := by
  have hnone : Arguments.bindAll start.named [] = some start.named := rfl
  cases c with
  | literal sql own =>
      cases own with
      -- A piece of SQL that stands for itself brings no arguments.
      | none => exact hnone
      | some own =>
          rw [collect, Arguments.append, Arguments.merge]
          have h := Arguments.mergeNamed_eq
            { start with positional := start.positional ++ own.positional } own.named
          refine h.trans ?_
          generalize Arguments.mergeNamed _ own.named = merged
          obtain ⟨merged, clash⟩ := merged
          cases clash <;> rfl
  | token _ => exact hnone
  | ident _ => exact hnone
  | raw _ => exact hnone
  | number _ => exact hnone
  | function _ => exact hnone
  | prefixOp _ => exact hnone
  | param _ => exact hnone

/-- Collecting the arguments of chunks is binding the named values that they bring, if no name
clashes. -/
theorem foldlM_collect_named : (chunks : List Chunk) → (start : Arguments) →
    Arguments.bindAll start.named (chunks.flatMap Chunk.bindings) =
      (chunks.foldlM collect start).toOption.map (·.named)
  | [], start => rfl
  | c :: rest, start => by
      rw [List.flatMap_cons, Arguments.bindAll_append, collect_named, List.foldlM_cons]
      cases collect start c with
      | error e => rfl
      | ok next => exact foldlM_collect_named rest next

/-- A fragment is built when its bindings go together. -/
theorem build_isOk {a : Fragment} :
    (∃ sql, a.build = .ok sql) ↔ (Arguments.bindAll [] a.bindings).isSome := by
  have h := foldlM_collect_named a.chunks .empty
  rw [show Arguments.empty.named = [] from rfl] at h
  rw [Fragment.bindings, h, Option.isSome_map]
  -- The text never fails, so all depends on the arguments.
  rw [build_eq, arguments]
  cases a.chunks.foldlM collect .empty with
  | error e =>
      constructor
      · rintro ⟨sql, hsql⟩
        cases hsql
      · intro hsome
        cases hsome
  | ok arguments => exact iff_of_true ⟨_, rfl⟩ rfl

/-- **A fragment that brings some of the bindings of another is built when the other is.** -/
theorem build_of_sublist {a b : Fragment} (h : b.bindings.Sublist a.bindings) {sql : BoundSql}
    (ha : a.build = .ok sql) : ∃ other, b.build = .ok other :=
  build_isOk.mpr (Arguments.bindAll_of_sublist h [] [] (fun _ _ hv => by cases hv)
    (build_isOk.mp ⟨sql, ha⟩))

end Fragment

end RelationalQuery
