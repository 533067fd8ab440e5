/-
  RelationalQuery.Proofs.Text.Merging — what building a fragment gives.

  A fragment is built in one pass over its chunks, and the arguments of its literals are merged one
  literal at a time. What comes of it does not depend on how the bindings are spread over the
  literals: they are merged as if all of them stood in a row. A binding clashes when its name
  was bound before, first to a value that it does not agree with; the first clash is the error, and
  without one every name is kept in the place of its first binding and with the value it has there.

  Main definitions:
    * `Arguments.Clashes`, `Arguments.FirstClash`: a binding against those before it.
    * `Arguments.Firsts`: each name once, as it was bound first.
    * `Arguments.Reachable`: the arguments that a caller can make.
    * `Fragment.Contradicts`: two literals bind one name to values that do not agree.

  Main statements:
    * `Fragment.arguments_eq_append`: a fragment's arguments, merged at once.
    * `Fragment.Attainable.contradicts`: a clash is one of two literals.
    * `Fragment.build_spec`: when a fragment can be built, and what it is built to.
-/

import Mathlib.Data.List.Nodup
import RelationalQuery.Proofs.Row.Slices
import RelationalQuery.Proofs.Text.Composition

namespace RelationalQuery

namespace Arguments

/-! ## Bindings in a row -/

/-- The name was bound before, and first to a value that does not agree. -/
def Clashes (before : List (String × Value)) (pair : String × Value) : Prop :=
  ∃ w, before.lookup pair.1 = some w ∧ w.agrees pair.2 = false

/-- None of the bindings clashes, behind those that are there. -/
def Clear (there pairs : List (String × Value)) : Prop :=
  ∀ before pair after, pairs = before ++ pair :: after → ¬Clashes (there ++ before) pair

/-- The first of the bindings that clashes is one of the name. -/
def FirstClash (there pairs : List (String × Value)) (name : String) : Prop :=
  ∃ before v after, pairs = before ++ (name, v) :: after ∧ Clear there before ∧
    Clashes (there ++ before) (name, v)

/-- Each name once, in the place of its first binding and with the value it has there. -/
structure Firsts (named all : List (String × Value)) : Prop where
  names : named.map (·.1) = (all.map (·.1)).eraseDups
  values : ∀ name, named.lookup name = all.lookup name

section Rows

variable {named all there rest : List (String × Value)} {pair : String × Value} {name : String}
  {v w : Value}

theorem clear_nil : Clear there [] := fun _ _ _ h => by simp at h

/-- Pairs are clear if the first does not clash, and the others do not with that one there. -/
theorem clear_cons : Clear there (pair :: rest) ↔
    ¬Clashes there pair ∧ Clear (there ++ [pair]) rest := by
  constructor
  · intro h
    refine ⟨?_, ?_⟩
    · have hfirst := h [] pair rest rfl
      rwa [List.append_nil] at hfirst
    · intro before other after hrest
      have hlater := h (pair :: before) other after (by rw [hrest, List.cons_append])
      rwa [List.append_cons] at hlater
  · rintro ⟨hfirst, hrest⟩ before other after h
    obtain ⟨rfl, heq⟩ | ⟨before, rfl, hafter⟩ := List.cons_eq_append_iff.mp h
    · cases heq
      rwa [List.append_nil]
    · rw [List.append_cons]
      exact hrest before other after hafter

theorem not_firstClash_nil : ¬FirstClash there [] name := by
  rintro ⟨before, v, after, h, _⟩
  simp at h

/-- The first clash is that of the first pair, or comes behind it. -/
theorem firstClash_cons : FirstClash there ((name, v) :: rest) other ↔
    (name = other ∧ Clashes there (name, v)) ∨
      (¬Clashes there (name, v) ∧ FirstClash (there ++ [(name, v)]) rest other) := by
  constructor
  · rintro ⟨before, w, after, h, hclear, hclash⟩
    obtain ⟨rfl, heq⟩ | ⟨before, rfl, rfl⟩ := List.cons_eq_append_iff.mp h
    · cases heq
      rw [List.append_nil] at hclash
      exact Or.inl ⟨rfl, hclash⟩
    · obtain ⟨hfirst, hclear⟩ := clear_cons.mp hclear
      rw [List.append_cons] at hclash
      exact Or.inr ⟨hfirst, before, w, after, rfl, hclear, hclash⟩
  · rintro (⟨rfl, hclash⟩ | ⟨hfirst, before, w, after, rfl, hclear, hclash⟩)
    · exact ⟨[], v, rest, rfl, clear_nil, by rwa [List.append_nil]⟩
    · refine ⟨(name, v) :: before, w, after, rfl, clear_cons.mpr ⟨hfirst, hclear⟩, ?_⟩
      rwa [List.append_cons]

/-- Bindings of which one clashes have a first one that does. -/
theorem exists_firstClash : {pairs there : List (String × Value)} → ¬Clear there pairs →
    ∃ name, FirstClash there pairs name
  | [], there, h => absurd clear_nil h
  | (name, v) :: rest, there, h => by
      by_cases hfirst : Clashes there (name, v)
      · exact ⟨name, firstClash_cons.mpr (Or.inl ⟨rfl, hfirst⟩)⟩
      · have hrest : ¬Clear (there ++ [(name, v)]) rest := fun hrest =>
          h (clear_cons.mpr ⟨hfirst, hrest⟩)
        obtain ⟨other, hother⟩ := exists_firstClash hrest
        exact ⟨other, firstClash_cons.mpr (Or.inr ⟨hfirst, hother⟩)⟩

/-! ## Each name once -/

theorem firsts_nil : Firsts [] [] := ⟨rfl, fun _ => rfl⟩

theorem mem_names_of_lookup (h : all.lookup name = some w) : name ∈ all.map (·.1) := by
  rw [List.lookup_eq_some_iff] at h
  obtain ⟨before, after, rfl, _⟩ := h
  exact List.mem_map.mpr ⟨(name, w), by simp, rfl⟩

theorem not_mem_names_of_lookup (h : all.lookup name = none) : name ∉ all.map (·.1) := by
  intro hmem
  obtain ⟨⟨other, v⟩, hpair, rfl⟩ := List.mem_map.mp hmem
  have := List.lookup_eq_none_iff.mp h _ hpair
  simp at this

/-- A binding of a name that is bound already is dropped. -/
theorem Firsts.again (h : Firsts named all) (hw : named.lookup name = some w) (v : Value) :
    Firsts named (all ++ [(name, v)]) := by
  have hall : all.lookup name = some w := (h.values name).symm.trans hw
  refine ⟨?_, fun other => ?_⟩
  · have hmem := mem_names_of_lookup hall
    rw [h.names, List.map_append, List.eraseDups_append]
    simp [List.removeAll, hmem]
  · rw [h.values, lookup_append]
    by_cases heq : other = name
    · rw [heq, hall, Option.some_or]
    · simp [List.lookup_cons, beq_false_of_ne heq]

/-- A binding of a new name is put behind the others. -/
theorem Firsts.new (h : Firsts named all) (hname : named.lookup name = none) (v : Value) :
    Firsts (named ++ [(name, v)]) (all ++ [(name, v)]) := by
  have hall : all.lookup name = none := (h.values name).symm.trans hname
  refine ⟨?_, fun other => ?_⟩
  · have hnot := not_mem_names_of_lookup hall
    have hsingle : [name].eraseDups = [name] := by rw [List.eraseDups_cons]; rfl
    rw [List.map_append, List.map_append, List.eraseDups_append, h.names]
    simp [List.removeAll, hnot, hsingle]
  · rw [lookup_append, lookup_append, h.values]

/-- No name is among the firsts twice. -/
theorem Firsts.nodup (h : Firsts named all) : (named.map (·.1)).Nodup := by
  rw [h.names]
  exact nodup_eraseDups _

/-- A binding clashes with all before it as it clashes with what is kept of them. -/
theorem Firsts.clashes_iff (h : Firsts named all) : Clashes all pair ↔ Clashes named pair := by
  unfold Clashes
  rw [h.values]

end Rows

/-! ## Merging -/

section Steps

variable {a : Arguments} {name : String} {v w : Value} {rest : List (String × Value)}

/-- A new name is merged behind the others. -/
theorem mergeNamed_new (hw : a.named.lookup name = none) :
    a.mergeNamed ((name, v) :: rest) =
      ({ a with named := a.named ++ [(name, v)] } : Arguments).mergeNamed rest := by
  rw [mergeNamed, value?, hw]

/-- A name with a value that agrees is merged by leaving it out. -/
theorem mergeNamed_agreeing (hw : a.named.lookup name = some w) (h : w.agrees v = true) :
    a.mergeNamed ((name, v) :: rest) = a.mergeNamed rest := by
  rw [mergeNamed, value?, hw]
  exact if_pos h

/-- A name with a value that does not agree ends the merge. -/
theorem mergeNamed_clashing (hw : a.named.lookup name = some w) (h : w.agrees v = false) :
    a.mergeNamed ((name, v) :: rest) = (a, some name) := by
  rw [mergeNamed, value?, hw]
  exact if_neg (by rw [h]; exact Bool.false_ne_true)

end Steps

-- By induction on the bindings to come; what carries it is that the names bound so far are those of
-- the bindings gone by, each once. A clash with all of these is then one with what was kept.

/-- **Bindings are merged up to the first that clashes**, and without one all of them are. -/
theorem mergeNamed_spec : (pairs : List (String × Value)) → {a : Arguments} →
    {all : List (String × Value)} → Firsts a.named all →
      (∀ name, (a.mergeNamed pairs).2 = some name ↔ FirstClash all pairs name) ∧
      ((a.mergeNamed pairs).2 = none → Firsts (a.mergeNamed pairs).1.named (all ++ pairs))
  | [], a, all, h => by
      refine ⟨fun name => iff_of_false (fun hname => by cases hname) not_firstClash_nil, fun _ => ?_⟩
      rwa [List.append_nil]
  | (name, v) :: rest, a, all, h => by
      rw [List.append_cons]
      cases hw : a.named.lookup name with
      | none =>
          -- A new name clashes with nothing.
          have hfirst : ¬Clashes all (name, v) := by
            rw [h.clashes_iff]
            rintro ⟨w, hlookup, _⟩
            rw [hw] at hlookup
            cases hlookup
          obtain ⟨hclash, hfirsts⟩ := mergeNamed_spec rest
            (a := { a with named := a.named ++ [(name, v)] }) (h.new hw v)
          rw [mergeNamed_new hw]
          refine ⟨fun other => (hclash other).trans ?_, hfirsts⟩
          simp [firstClash_cons, hfirst]
      | some w =>
          -- A known name clashes with its first value or not at all.
          have hfirst : Clashes all (name, v) ↔ w.agrees v = false := by
            rw [h.clashes_iff, Clashes, hw]
            simp
          cases hagrees : w.agrees v with
          | false =>
              rw [mergeNamed_clashing hw hagrees]
              refine ⟨fun other => ?_, fun hnone => by cases hnone⟩
              simp [firstClash_cons, hfirst, hagrees]
          | true =>
              obtain ⟨hclash, hfirsts⟩ := mergeNamed_spec rest (a := a) (h.again hw v)
              rw [mergeNamed_agreeing hw hagrees]
              refine ⟨fun other => (hclash other).trans ?_, hfirsts⟩
              simp [firstClash_cons, hfirst, hagrees]

/-- Names are merged past the positional values. -/
theorem mergeNamed_beside (positional : List Value) : (pairs : List (String × Value)) →
    (a : Arguments) → ({ a with positional := positional } : Arguments).mergeNamed pairs =
      ({ (a.mergeNamed pairs).1 with positional := positional }, (a.mergeNamed pairs).2)
  | [], a => rfl
  | (name, v) :: rest, a => by
      -- A merge looks at the named values only.
      have hsame : ({ a with positional := positional } : Arguments).named = a.named := rfl
      cases hw : a.named.lookup name with
      | none =>
          rw [mergeNamed_new (hsame ▸ hw), mergeNamed_new hw]
          exact mergeNamed_beside positional rest { a with named := a.named ++ [(name, v)] }
      | some w =>
          cases h : w.agrees v with
          | true =>
              rw [mergeNamed_agreeing (hsame ▸ hw) h, mergeNamed_agreeing hw h]
              exact mergeNamed_beside positional rest a
          | false => rw [mergeNamed_clashing (hsame ▸ hw) h, mergeNamed_clashing hw h]

/-- Bindings in two rows are merged as in one. -/
theorem mergeNamed_append : (first second : List (String × Value)) → (a : Arguments) →
    a.mergeNamed (first ++ second) =
      if (a.mergeNamed first).2 = none then (a.mergeNamed first).1.mergeNamed second
      else a.mergeNamed first
  | [], second, a => rfl
  | (name, v) :: rest, second, a => by
      rw [List.cons_append]
      cases hw : a.named.lookup name with
      | none =>
          rw [mergeNamed_new hw, mergeNamed_new hw]
          exact mergeNamed_append rest second _
      | some w =>
          cases h : w.agrees v with
          | true =>
              rw [mergeNamed_agreeing hw h, mergeNamed_agreeing hw h]
              exact mergeNamed_append rest second a
          | false => rw [mergeNamed_clashing hw h, mergeNamed_clashing hw h]; rfl

/-- Appending arguments fails at the first name that clashes, and otherwise appends the positional
values and merges the named ones. -/
theorem append_eq (a b : Arguments) : a.append b =
    match (a.mergeNamed b.named).2 with
    | none => .ok ⟨a.positional ++ b.positional, (a.mergeNamed b.named).1.named⟩
    | some name => .error (.argumentReused name) := by
  rw [append, merge, mergeNamed_beside]
  cases (a.mergeNamed b.named).2 <;> rfl

/-- Arguments after two others are arguments after both in a row. -/
theorem append_append (a b c : Arguments) : (a.append b >>= fun both => both.append c) =
    a.append ⟨b.positional ++ c.positional, b.named ++ c.named⟩ := by
  rw [append_eq a b, append_eq a ⟨_, _⟩, mergeNamed_append]
  cases hclash : (a.mergeNamed b.named).2 with
  | some name =>
      rw [if_neg (by simp), hclash]
      rfl
  | none =>
      rw [if_pos rfl, ok_bind, append_eq, List.append_assoc]
      have hbeside := mergeNamed_beside (a.positional ++ b.positional) c.named
        (a.mergeNamed b.named).1
      rw [hbeside]

theorem append_nothing (a : Arguments) : a.append ⟨[], []⟩ = .ok a := by
  rw [append, merge, List.append_nil]
  rfl

/-! ## Arguments that can be made -/

/-- The arguments that a caller can make: values are pushed, names are set, and arguments are
appended to others, also as far as a clash lets them. -/
inductive Reachable : Arguments → Prop
  | empty : Reachable .empty
  | push {a : Arguments} (v : Value) : Reachable a → Reachable (a.push v)
  | set {a : Arguments} (name : String) (v : Value) : Reachable a → Reachable (a.set name v)
  | merge {a b : Arguments} : Reachable a → Reachable b → Reachable (a.merge b).1

/-- Binding a name keeps its place, or puts it behind the others. -/
theorem names_bind (name : String) (v : Value) : (named : List (String × Value)) →
    (bind name v named).map (·.1) =
      if name ∈ named.map (·.1) then named.map (·.1) else named.map (·.1) ++ [name]
  | [] => rfl
  | (other, w) :: rest => by
      rw [bind]
      by_cases heq : other = name
      · simp [heq]
      · -- The name may still be among the others, and then it keeps its place there.
        rw [if_neg heq, List.map_cons, names_bind name v rest, List.map_cons]
        have hne : ¬name = other := fun h => heq h.symm
        by_cases hmem : name ∈ rest.map (·.1)
        · rw [if_pos hmem, if_pos (List.mem_cons_of_mem other hmem)]
        · rw [if_neg hmem, if_neg (List.not_mem_cons_of_ne_of_not_mem hne hmem)]
          rfl

theorem nodup_concat {names : List String} {name : String} (h : names.Nodup)
    (hname : name ∉ names) : (names ++ [name]).Nodup := by
  rw [← List.concat_eq_append]
  exact List.Nodup.concat hname h

/-- Merging never lists a name twice. -/
theorem nodup_mergeNamed : (pairs : List (String × Value)) → {a : Arguments} →
    (a.named.map (·.1)).Nodup → ((a.mergeNamed pairs).1.named.map (·.1)).Nodup
  | [], a, h => h
  | (name, v) :: rest, a, h => by
      cases hw : a.named.lookup name with
      | none =>
          rw [mergeNamed_new hw]
          refine nodup_mergeNamed rest ?_
          rw [List.map_append]
          exact nodup_concat h (not_mem_names_of_lookup hw)
      | some w =>
          cases hagrees : w.agrees v with
          | true =>
              rw [mergeNamed_agreeing hw hagrees]
              exact nodup_mergeNamed rest h
          | false => rwa [mergeNamed_clashing hw hagrees]

/-- **A name is bound once**, however the arguments were made. -/
theorem Reachable.nodup {a : Arguments} (h : a.Reachable) : (a.named.map (·.1)).Nodup := by
  induction h with
  | empty => exact List.nodup_nil
  | push v _ ih => exact ih
  | @set a name v _ ih =>
      show ((bind name v a.named).map (·.1)).Nodup
      rw [names_bind]
      split
      · exact ih
      · exact nodup_concat ih ‹_›
  -- A merge binds the names of the second behind those of the first.
  | @merge a b _ _ ih _ =>
      rw [Arguments.merge, mergeNamed_beside]
      exact nodup_mergeNamed b.named ih

end Arguments

namespace Fragment

/-! ## The arguments of a fragment at once -/

/-- Collecting a chunk is appending the arguments that it brings. -/
theorem collect_eq_append (start : Arguments) (c : Chunk) :
    collect start c = start.append ⟨c.positional, c.bindings⟩ := by
  cases c with
  | param v => rfl
  | literal sql own =>
      cases own with
      | none => exact (start.append_nothing).symm
      | some own => rfl
  | token _ | ident _ | raw _ | number _ | function _ | prefixOp _ =>
      exact (start.append_nothing).symm

/-- Collecting chunks is appending all that they bring at once. -/
theorem foldlM_collect_eq_append : (chunks : List Chunk) → (start : Arguments) →
    chunks.foldlM collect start =
      start.append ⟨chunks.flatMap Chunk.positional, chunks.flatMap Chunk.bindings⟩
  | [], start => (start.append_nothing).symm
  | c :: rest, start => by
      rw [List.foldlM_cons, collect_eq_append, funext (foldlM_collect_eq_append rest),
        Arguments.append_append, List.flatMap_cons, List.flatMap_cons]

/-- **The arguments of a fragment are merged as if all of them stood in one literal.** -/
theorem arguments_eq_append (a : Fragment) :
    a.arguments = Arguments.empty.append ⟨a.positional, a.bindings⟩ :=
  foldlM_collect_eq_append a.chunks .empty

/-! ## Two literals -/

section Rows

variable {chunks : List Chunk} {name : String} {v w : Value}

/-- A value by name in a chunk is a value of its literal. -/
theorem lookup_bindings {c : Chunk} : c.bindings.lookup name = some v ↔
    ∃ sql own, c = .literal sql (some own) ∧ own.value? name = some v := by
  cases c with
  | literal sql own =>
      cases own with
      | none => simp [Chunk.bindings]
      | some own => simp [Chunk.bindings, Arguments.value?]
  | _ => simp [Chunk.bindings]

/-- A name is bound first by the first chunk that binds it. -/
theorem lookup_flatMap_bindings : {chunks : List Chunk} →
    ((chunks.flatMap Chunk.bindings).lookup name = some w ↔ ∃ before c after,
      chunks = before ++ c :: after ∧ (∀ other ∈ before, other.bindings.lookup name = none) ∧
      c.bindings.lookup name = some w)
  | [] => by simp
  | c :: rest => by
      rw [List.flatMap_cons, List.lookup_append, Option.or_eq_some_iff, lookup_flatMap_bindings]
      constructor
      · rintro (hc | ⟨hc, before, d, after, rfl, hbefore, hd⟩)
        · exact ⟨[], c, rest, rfl, List.forall_mem_nil _, hc⟩
        · exact ⟨c :: before, d, after, rfl, List.forall_mem_cons.mpr ⟨hc, hbefore⟩, hd⟩
      · rintro ⟨before, d, after, h, hbefore, hd⟩
        obtain ⟨rfl, heq⟩ | ⟨before, rfl, rfl⟩ := List.cons_eq_append_iff.mp h
        · cases heq
          exact Or.inl hd
        · obtain ⟨hc, hbefore⟩ := List.forall_mem_cons.mp hbefore
          exact Or.inr ⟨hc, before, d, after, rfl, hbefore, hd⟩

/-- A binding in the row is one of a chunk. -/
theorem exists_chunk_of_binding {pair : String × Value} : (chunks : List Chunk) →
    {before after : List (String × Value)} →
      chunks.flatMap Chunk.bindings = before ++ pair :: after → ∃ earlier c later inside rest,
        chunks = earlier ++ c :: later ∧ before = earlier.flatMap Chunk.bindings ++ inside ∧
        c.bindings = inside ++ pair :: rest
  | [], before, after, h => by simp at h
  | c :: others, before, after, h => by
      rw [List.flatMap_cons] at h
      obtain ⟨behind, rfl, hbehind⟩ | ⟨inside, hc, hinside⟩ := List.append_eq_append_iff.mp h
      · obtain ⟨earlier, d, later, inside, rest, rfl, rfl, hd⟩ :=
          exists_chunk_of_binding others hbehind
        exact ⟨c :: earlier, d, later, inside, rest, rfl,
          by rw [List.flatMap_cons, List.append_assoc], hd⟩
      · cases inside with
        | nil =>
            -- The binding is the first one after those of this chunk, so it is another chunk's.
            have hothers : others.flatMap Chunk.bindings = [] ++ pair :: after := hinside.symm
            obtain ⟨earlier, d, later, inside, rest, rfl, hearlier, hd⟩ :=
              exists_chunk_of_binding others hothers
            refine ⟨c :: earlier, d, later, inside, rest, rfl, ?_, hd⟩
            rw [List.flatMap_cons, List.append_assoc, ← hearlier, hc, List.append_nil,
              List.append_nil]
        | cons first rest =>
            cases hinside
            exact ⟨[], c, others, before, rest, rfl, rfl, hc⟩

end Rows

/-- Two literals bind the name to values that do not agree: the first that binds it, and one
after it. -/
def Contradicts (a : Fragment) (name : String) : Prop :=
  ∃ before sql own between sql' own' after w v,
    a.chunks = before ++ .literal sql (some own) :: between ++
      .literal sql' (some own') :: after ∧
    (∀ c ∈ before, c.bindings.lookup name = none) ∧
    own.value? name = some w ∧ own'.value? name = some v ∧ w.agrees v = false

/-- The arguments of the literals are such as a caller can make. -/
def Attainable (a : Fragment) : Prop :=
  ∀ sql own, Chunk.literal sql (some own) ∈ a.chunks → own.Reachable

/-- Two literals that contradict each other clash. -/
theorem Contradicts.not_clear {a : Fragment} {name : String} (h : a.Contradicts name) :
    ¬Arguments.Clear [] a.bindings := by
  obtain ⟨before, sql, own, between, sql', own', after, w, v, hchunks, hbefore, hw, hv, hagrees⟩ := h
  intro hclear
  -- The later literal's binding stands behind all bindings of the earlier one.
  obtain ⟨inside, rest, hnamed, _⟩ := List.lookup_eq_some_iff.mp hv
  have hrow : a.bindings =
      (before ++ .literal sql (some own) :: between).flatMap Chunk.bindings ++ inside ++
        (name, v) :: (rest ++ after.flatMap Chunk.bindings) := by
    rw [bindings, hchunks, List.flatMap_append, List.flatMap_cons]
    simp [Chunk.bindings, hnamed]
  refine hclear _ _ _ hrow ⟨w, ?_, hagrees⟩
  have hfirst : ((before ++ .literal sql (some own) :: between).flatMap
      Chunk.bindings).lookup name = some w :=
    lookup_flatMap_bindings.mpr ⟨before, _, between, rfl, hbefore, hw⟩
  rw [List.nil_append, List.lookup_append, hfirst, Option.some_or]

/-- **A clash is one of two literals**, when no literal binds a name twice. -/
theorem Attainable.contradicts {a : Fragment} (h : a.Attainable) {name : String}
    (hclash : Arguments.FirstClash [] a.bindings name) : a.Contradicts name := by
  obtain ⟨before, v, after, hrow, _, w, hw, hagrees⟩ := hclash
  obtain ⟨earlier, c, later, inside, rest, hchunks, rfl, hc⟩ :=
    exists_chunk_of_binding a.chunks hrow
  have hmem : (name, v) ∈ c.bindings := by simp [hc]
  cases c with
  | literal sql' own' =>
      cases own' with
      | none => simp [Chunk.bindings] at hmem
      | some own' =>
          have hnamed : own'.named = inside ++ (name, v) :: rest := hc
          -- The name is not bound twice by the later literal, so the first binding is another's.
          have hnodup := (h sql' own' (by simp [hchunks])).nodup
          rw [hnamed, List.map_append, List.map_cons, List.nodup_append] at hnodup
          have hinside : inside.lookup name = none := by
            rw [List.lookup_eq_none_iff]
            intro pair hpair
            have hne := hnodup.2.2 _ (List.mem_map_of_mem hpair) name (List.mem_cons_self ..)
            simpa using hne.symm
          rw [List.nil_append, List.lookup_append, hinside, Option.or_none,
            lookup_flatMap_bindings] at hw
          obtain ⟨before, first, between, rfl, hbefore, hfirst⟩ := hw
          obtain ⟨sql, own, rfl, hown⟩ := lookup_bindings.mp hfirst
          refine ⟨before, sql, own, between, sql', own', later, w, v, hchunks, hbefore, hown, ?_,
            hagrees⟩
          rw [Arguments.value?, hnamed, List.lookup_append, hinside, Option.none_or,
            List.lookup_cons_self]
  | token _ | ident _ | raw _ | number _ | function _ | prefixOp _ | param _ =>
      simp [Chunk.bindings] at hmem

/-! ## Copies -/

/-- An owned copy is equal to the fragment. -/
theorem owned_eq (a : Fragment) : a.owned = a := by
  have hchunk : ∀ c : Chunk, c.owned = c := by
    intro c
    cases c with
    | literal sql own => rw [Chunk.owned, Option.map_id]; rfl
    | _ => rfl
  rw [owned, funext hchunk]
  exact congrArg Fragment.mk (List.map_id a.chunks)

/-! ## Building -/

/-- **When a fragment can be built, and what it is built to.** The first binding, in the order of
the chunks, that does not agree with the first value of its name is the error. It is always one
of two literals that contradict each other, and such literals always are one. Otherwise the text is
the fragment's, the positional values are those of placeholders and literals in place, and each
name is bound once, in the order of the first bindings and to the value it was bound to first. A
copy is built as the fragment is. -/
theorem build_spec (a : Fragment) :
    (∀ e, a.build = .error e ↔
      ∃ name, Arguments.FirstClash [] a.bindings name ∧ e = .argumentReused name) ∧
    (a.Attainable →
      ((∃ e, a.build = .error e) ↔ ∃ name, a.Contradicts name) ∧
      ∀ name, a.build = .error (.argumentReused name) → a.Contradicts name) ∧
    (∀ built, a.build = .ok built → built.sql = a.text ∧
      built.arguments.positional = a.chunks.flatMap Chunk.positional ∧
      built.arguments.named.map (·.1) = (a.bindings.map (·.1)).eraseDups ∧
      (built.arguments.named.map (·.1)).Nodup ∧
      ∀ name, built.arguments.value? name = a.bindings.lookup name) ∧
    a.owned.text = a.text ∧ a.owned.build = a.build := by
  obtain ⟨hclash, hfirsts⟩ := Arguments.mergeNamed_spec a.bindings (a := .empty)
    Arguments.firsts_nil
  -- Building is one merge of all bindings, in the order of the chunks.
  have hbuild : a.build = match (Arguments.empty.mergeNamed a.bindings).2 with
      | none => .ok ⟨a.text, ⟨a.positional, (Arguments.empty.mergeNamed a.bindings).1.named⟩⟩
      | some name => .error (.argumentReused name) := by
    rw [build_eq, arguments_eq_append, Arguments.append_eq]
    cases (Arguments.empty.mergeNamed a.bindings).2 <;> rfl
  -- So what fails is the first clash.
  have herror : ∀ e, a.build = .error e ↔
      ∃ name, Arguments.FirstClash [] a.bindings name ∧ e = .argumentReused name := by
    intro e
    simp only [← hclash, hbuild]
    cases (Arguments.empty.mergeNamed a.bindings).2 with
    | none => simp
    | some name => simp [eq_comm]
  refine ⟨herror, fun hattainable => ⟨⟨?_, ?_⟩, ?_⟩, ?_, by rw [owned_eq], by rw [owned_eq]⟩
  · rintro ⟨e, he⟩
    obtain ⟨name, hname, _⟩ := (herror e).mp he
    exact ⟨name, hattainable.contradicts hname⟩
  · -- Another name may clash before this one does.
    rintro ⟨name, hname⟩
    obtain ⟨other, hother⟩ := Arguments.exists_firstClash hname.not_clear
    exact ⟨_, (herror _).mpr ⟨other, hother, rfl⟩⟩
  · intro name hname
    obtain ⟨other, hother, heq⟩ := (herror _).mp hname
    cases heq
    exact hattainable.contradicts hother
  · intro built hbuilt
    rw [hbuild] at hbuilt
    cases hmerged : (Arguments.empty.mergeNamed a.bindings).2 with
    | some name =>
        rw [hmerged] at hbuilt
        cases hbuilt
    | none =>
        rw [hmerged] at hbuilt
        cases hbuilt
        have h := hfirsts hmerged
        exact ⟨rfl, rfl, h.names, h.nodup, h.values⟩

/-- Two literals around a placeholder, each of which binds `n`. -/
def bindTwice (v w : Value) : Fragment :=
  literal "a = :n" (some (Arguments.empty.set "n" v)) ++ token .and ++ param (.text "x") ++
    literal "b = :n" (some (Arguments.empty.set "n" w))

theorem bindTwice_attainable (v w : Value) : (bindTwice v w).Attainable := by
  intro sql own hmem
  simp [bindTwice, literal, token, single, param, Value.isNull] at hmem
  rcases hmem with ⟨_, rfl⟩ | ⟨_, rfl⟩
  · exact .set "n" v .empty
  · exact .set "n" w .empty

/-- Two values for a name cannot be built, and one value is bound once. -/
theorem build_bindTwice :
    (bindTwice (.integer 1) (.integer 2)).build = .error (.argumentReused "n") ∧
    (bindTwice (.integer 1) (.integer 2)).Contradicts "n" ∧
    ∃ built, (bindTwice (.integer 1) (.integer 1)).build = .ok built ∧
      built.sql = "a = :n AND ? b = :n" ∧
      built.arguments.value? "n" = some (.integer 1) := by
  have herror : (bindTwice (.integer 1) (.integer 2)).build = .error (.argumentReused "n") := by
    decide +kernel
  obtain ⟨_, hcontradicts, _⟩ := build_spec (bindTwice (.integer 1) (.integer 2))
  obtain ⟨_, _, hok, _⟩ := build_spec (bindTwice (.integer 1) (.integer 1))
  have hbuilt : ∃ built, (bindTwice (.integer 1) (.integer 1)).build = .ok built :=
    exists_ok (by decide +kernel)
  obtain ⟨built, hbuilt⟩ := hbuilt
  obtain ⟨hsql, _, _, _, hvalue⟩ := hok built hbuilt
  refine ⟨herror, (hcontradicts (bindTwice_attainable _ _)).2 "n" herror, built, hbuilt, ?_, ?_⟩
  · rw [hsql]
    decide +kernel
  · rw [hvalue]
    decide +kernel

end Fragment

end RelationalQuery
