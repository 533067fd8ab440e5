/-
  RelationalQuery.Proofs.Reading.Conditions — text as a condition, by the precedence of SQL.

  OR binds less than AND, AND less than NOT, and NOT less than everything else. So the items of a
  condition are parted at every OR, then at every AND, and what is left is a predicate behind any
  number of NOTs. An AND that belongs to a BETWEEN parts nothing, and neither does what stands up to
  it. A predicate that is one group is the condition in the group, if it is one. What a predicate
  says is not looked at.

  Nothing is read of items that have a place for an operand without one, a BETWEEN without its AND,
  or the beginning of a query or a comma outside every group.

  Main definitions:
    * `Condition`: a condition over predicates.
    * `Conditions.read`: the condition of a row of items.
    * `Condition.truth`: its truth, given that of the predicates.

  Main statements:
    * `Conditions.read_and`: conditions between ANDs.
    * `Conditions.read_group`, `Conditions.read_not`, `Conditions.read_predicate`.
-/

import RelationalQuery.Proofs.Outcome
import RelationalQuery.Proofs.Reading.Nesting
import RelationalQuery.Proofs.Reading.Truth

namespace RelationalQuery

/-! ## Conditions -/

/-- A condition over predicates, each of which is a row of items. -/
inductive Condition where
  | predicate (items : List ReadItem)
  | not (c : Condition)
  | all (cs : List Condition)
  | any (cs : List Condition)

/-- An item, and the condition in it if it is a group around one. -/
structure Part where
  item : ReadItem
  inside : Option Condition

namespace Conditions

/-- The item is the keyword. -/
def isKeyword (keyword : String) : ReadItem → Bool
  | .symbol s => s.isKeyword keyword
  | .group _ _ => false

/-- The item has no place in an expression outside every group: it begins a query, or parts
expressions or statements. -/
def foreign : ReadItem → Bool
  | .symbol s =>
    s = .sign ',' || s = .sign ';' || s.isKeyword "select" || s.isKeyword "values" ||
      s.isKeyword "with"
  | .group _ _ => false

/-! ## Reading -/

/-- A part of a predicate, or a connective between conditions. -/
inductive Mark where
  | part (p : Part)
  | and
  | or

/-- The mark is OR. -/
def Mark.isOr : Mark → Bool
  | .or => true
  | _ => false

/-- The mark is AND. -/
def Mark.isAnd : Mark → Bool
  | .and => true
  | _ => false

/-- The mark of a part, where the ANDs of that many BETWEENs are to come, and how many are to come
behind it. Up to the last of them there are no connectives. -/
def mark (pending : Nat) (p : Part) : Option (Mark × Nat) :=
  if foreign p.item then none
  else if isKeyword "between" p.item then some (.part p, pending + 1)
  else if isKeyword "and" p.item then
    some (if pending = 0 then (.and, 0) else (.part p, pending - 1))
  else if isKeyword "or" p.item && pending == 0 then some (.or, 0)
  else some (.part p, pending)

/-- The marks of parts in a row. -/
def marks (pending : Nat) : List Part → Option (List Mark)
  | [] => if pending = 0 then some [] else none
  | p :: rest => do
    let (m, pending) ← mark pending p
    return m :: (← marks pending rest)

/-- The item of a mark that is none of the connectives. -/
def Mark.item? : Mark → Option ReadItem
  | .part p => some p.item
  | _ => none

/-- A part and the marks behind it as a predicate. -/
def predicateOf (p : Part) (rest : List Mark) : Condition :=
  match rest, p.inside with
  | [], some c => c
  | _, _ => .predicate (p.item :: rest.filterMap Mark.item?)

/-- A predicate behind NOTs. -/
def negand : List Mark → Option Condition
  | .part p :: rest =>
    if isKeyword "not" p.item then .not <$> negand rest else some (predicateOf p rest)
  | _ => none

/-- Predicates between ANDs. -/
def conjunction (ms : List Mark) : Option Condition :=
  .all <$> (ms.splitOnP Mark.isAnd).mapM negand

/-- The condition of marks: conjunctions between ORs. -/
def disjunction (ms : List Mark) : Option Condition :=
  .any <$> (ms.splitOnP Mark.isOr).mapM conjunction

/-- The condition of parts. -/
def readParts (parts : List Part) : Option Condition := do disjunction (← marks 0 parts)

mutual

/-- The condition between parentheses. -/
def inside : ReadItem → Option Condition
  | .symbol _ => none
  | .group .case _ => none
  | .group .paren items => readParts (partsOf items)

/-- The items, each with the condition in it. -/
def partsOf : List ReadItem → List Part
  | [] => []
  | item :: rest => ⟨item, inside item⟩ :: partsOf rest

end

/-- **The condition of a row of items.** -/
def read (items : List ReadItem) : Option Condition := readParts (partsOf items)

/-! ## Connectives -/

/-- The parts of two rows of items are those of the first, then those of the second. -/
theorem partsOf_append (xs ys : List ReadItem) : partsOf (xs ++ ys) = partsOf xs ++ partsOf ys := by
  induction xs with
  | nil => rfl
  | cons item rest ih => rw [List.cons_append, partsOf, partsOf, ih, List.cons_append]

/-- The marks of parts are found one by one, with what each leaves pending. -/
theorem marks_cons_eq_some {pending : Nat} {p : Part} {rest : List Part} {ms : List Mark} :
    marks pending (p :: rest) = some ms ↔ ∃ m next others, mark pending p = some (m, next) ∧
      marks next rest = some others ∧ ms = m :: others := by
  rw [marks, Option.bind_eq_bind, Option.bind_eq_some_iff]
  constructor
  · rintro ⟨⟨m, next⟩, hm, h⟩
    obtain ⟨others, hothers, h⟩ := Option.bind_eq_some_iff.mp h
    exact ⟨m, next, others, hm, hothers, (Option.some.inj h).symm⟩
  · rintro ⟨m, next, others, hm, hothers, rfl⟩
    exact ⟨(m, next), hm, Option.bind_eq_some_iff.mpr ⟨others, hothers, rfl⟩⟩

/-- **Behind complete parts, other parts are marked as by themselves.** -/
theorem marks_append {pending : Nat} {ps qs : List Part} {ms ns : List Mark}
    (hps : marks pending ps = some ms) (hqs : marks 0 qs = some ns) :
    marks pending (ps ++ qs) = some (ms ++ ns) := by
  -- Each part changes how many BETWEENs are pending; complete parts leave none.
  induction ps generalizing pending ms with
  | nil =>
      unfold marks at hps
      split at hps
      · rename_i hpending
        cases hps
        rw [hpending]
        exact hqs
      · cases hps
  | cons p rest ih =>
      obtain ⟨m, next, others, hm, hothers, rfl⟩ := marks_cons_eq_some.mp hps
      exact marks_cons_eq_some.mpr ⟨m, next, others ++ ns, hm, ih hothers, rfl⟩

/-- Where a split gives one result, there is nothing to split at. -/
theorem forall_of_splitOnP_single {α β : Type} {separates : α → Bool} {f : List α → Option β}
    {xs : List α} {y : β} (h : (xs.splitOnP separates).mapM f = some [y]) :
    (∀ x ∈ xs, separates x = false) ∧ f xs = some y := by
  have hnone : ∀ x ∈ xs, separates x = false := by
    intro x hx
    rw [← Bool.not_eq_true]
    intro hseparates
    obtain ⟨before, after, rfl⟩ := List.append_of_mem hx
    have hlength := length_of_mapM h
    rw [List.splitOnP_append_cons before after hseparates, List.length_append,
      List.length_singleton] at hlength
    have hbefore := List.length_pos_iff.mpr (List.splitOnP_ne_nil separates before)
    have hafter := List.length_pos_iff.mpr (List.splitOnP_ne_nil separates after)
    omega
  rw [List.splitOnP_eq_singleton hnone] at h
  obtain ⟨own, hown, h⟩ := Option.bind_eq_some_iff.mp h
  cases h
  exact ⟨hnone, hown⟩

/-- A list that nothing separates is one piece. -/
theorem mapM_splitOnP_single {α β : Type} {separates : α → Bool} (f : List α → Option β)
    {xs : List α} (h : ∀ x ∈ xs, separates x = false) :
    (xs.splitOnP separates).mapM f = (f xs).map ([·]) := by
  rw [List.splitOnP_eq_singleton h, List.mapM_cons, List.mapM_nil]
  cases f xs <;> rfl

/-- A disjunction of one conjunction has no OR outside its groups. -/
theorem disjunction_eq_single {ms : List Mark} {cs : List Condition} :
    disjunction ms = some (.any [.all cs]) ↔
      (∀ m ∈ ms, m.isOr = false) ∧ (ms.splitOnP Mark.isAnd).mapM negand = some cs := by
  unfold disjunction
  constructor
  · intro h
    obtain ⟨conjunctions, hmap, hany⟩ := Option.map_eq_some_iff.mp h
    obtain rfl := Condition.any.inj hany
    obtain ⟨hor, hms⟩ := forall_of_splitOnP_single hmap
    obtain ⟨own, hown, hall⟩ := Option.map_eq_some_iff.mp hms
    cases hall
    exact ⟨hor, hown⟩
  · rintro ⟨hor, hcs⟩
    rw [mapM_splitOnP_single conjunction hor, conjunction, hcs]
    rfl

/-- Items are one conjunction just when no OR is among their marks and each piece between the ANDs
is a condition. -/
theorem read_eq_single {items : List ReadItem} {cs : List Condition} :
    read items = some (.any [.all cs]) ↔ ∃ ms, marks 0 (partsOf items) = some ms ∧
      (∀ m ∈ ms, m.isOr = false) ∧ (ms.splitOnP Mark.isAnd).mapM negand = some cs := by
  rw [read, readParts, Option.bind_eq_bind, Option.bind_eq_some_iff]
  exact exists_congr fun ms => and_congr_right fun _ => disjunction_eq_single

/-- **Conditions between ANDs are read one by one**, unless one of them is a bare disjunction. -/
theorem read_and {xs ys : List ReadItem} {cs ds : List Condition}
    (hxs : read xs = some (.any [.all cs])) (hys : read ys = some (.any [.all ds])) :
    read (xs ++ .symbol (.word "AND") :: ys) = some (.any [.all (cs ++ ds)]) := by
  obtain ⟨ms, hms, hor, hcs⟩ := read_eq_single.mp hxs
  obtain ⟨ns, hns, hor', hds⟩ := read_eq_single.mp hys
  refine read_eq_single.mpr ⟨ms ++ .and :: ns, ?_, ?_, ?_⟩
  · rw [partsOf_append]
    exact marks_append hms (marks_cons_eq_some.mpr ⟨.and, 0, ns, rfl, hns, rfl⟩)
  · exact List.forall_mem_append.mpr ⟨hor, List.forall_mem_cons.mpr ⟨rfl, hor'⟩⟩
  · rw [List.splitOnP_append_cons ms ns rfl, List.mapM_append, hcs, hds]
    rfl

/-- **NOT negates the predicate behind it**, which is not a bare connective. -/
theorem read_not {items : List ReadItem} {c : Condition} (h : read items = some (.any [.all [c]])) :
    read (.symbol (.word "NOT") :: items) = some (.any [.all [.not c]]) := by
  obtain ⟨ms, hms, hor, hc⟩ := read_eq_single.mp h
  obtain ⟨hand, hnegand⟩ := forall_of_splitOnP_single hc
  refine read_eq_single.mpr ⟨.part ⟨.symbol (.word "NOT"), none⟩ :: ms,
    marks_cons_eq_some.mpr ⟨_, 0, ms, rfl, hms, rfl⟩, List.forall_mem_cons.mpr ⟨rfl, hor⟩, ?_⟩
  rw [mapM_splitOnP_single negand (List.forall_mem_cons.mpr ⟨rfl, hand⟩)]
  show (Condition.not <$> negand ms).map _ = _
  rw [hnegand]
  rfl

/-- **A group is the condition in it.** -/
theorem read_group {items : List ReadItem} {c : Condition} (h : read items = some c) :
    read [.group .paren items] = some (.any [.all [c]]) := by
  have hparts : partsOf [.group .paren items] = [⟨.group .paren items, some c⟩] := by
    rw [partsOf, inside, ← read, h, partsOf]
  rw [read, hparts]
  rfl

/-! ## Predicates -/

/-- The item is neither a connective nor the beginning of a BETWEEN, and has its place in an
expression. -/
def joins (item : ReadItem) : Bool :=
  !foreign item && !isKeyword "between" item && !isKeyword "and" item && !isKeyword "or" item

/-- An item that only joins is marked as a part, and leaves nothing pending. -/
theorem mark_of_joins {p : Part} (h : joins p.item = true) : mark 0 p = some (.part p, 0) := by
  simp only [joins, Bool.and_eq_true, Bool.not_eq_true'] at h
  obtain ⟨⟨⟨hforeign, hbetween⟩, hand⟩, hor⟩ := h
  simp [mark, hforeign, hbetween, hand, hor]

/-- So is each of a row of such items. -/
theorem marks_of_joins {items : List ReadItem} (h : ∀ i ∈ items, joins i = true) :
    marks 0 (partsOf items) = some ((partsOf items).map Mark.part) := by
  induction items with
  | nil => rfl
  | cons item rest ih =>
      obtain ⟨hitem, hrest⟩ := List.forall_mem_cons.mp h
      exact marks_cons_eq_some.mpr ⟨_, 0, _, mark_of_joins hitem, ih hrest, rfl⟩

/-- The items behind the marks of parts are the items. -/
theorem items_of_parts (items : List ReadItem) :
    ((partsOf items).map Mark.part).filterMap Mark.item? = items := by
  induction items with
  | nil => rfl
  | cons item rest ih => exact congrArg (item :: ·) ih

/-- Items without a connective are one predicate. -/
theorem read_of_joins {first : ReadItem} {rest : List ReadItem}
    (h : ∀ i ∈ first :: rest, joins i = true) (hnot : isKeyword "not" first = false) :
    read (first :: rest) =
      some (.any [.all [predicateOf ⟨first, inside first⟩ ((partsOf rest).map Mark.part)]]) := by
  -- There is no connective among the marks, so all of them are one predicate.
  have hpart : ∀ m ∈ (partsOf (first :: rest)).map Mark.part,
      m.isOr = false ∧ m.isAnd = false := by
    intro m hm
    obtain ⟨p, _, rfl⟩ := List.mem_map.mp hm
    exact ⟨rfl, rfl⟩
  refine read_eq_single.mpr ⟨_, marks_of_joins h, fun m hm => (hpart m hm).1, ?_⟩
  rw [mapM_splitOnP_single negand fun m hm => (hpart m hm).2, partsOf, List.map_cons, negand, hnot,
    if_neg Bool.false_ne_true]
  rfl

/-- Two items or more are a predicate by themselves. -/
theorem read_predicate {first second : ReadItem} {rest : List ReadItem}
    (h : ∀ i ∈ first :: second :: rest, joins i = true) (hnot : isKeyword "not" first = false) :
    read (first :: second :: rest) =
      some (.any [.all [.predicate (first :: second :: rest)]]) := by
  rw [read_of_joins h hnot]
  unfold predicateOf
  rw [partsOf, List.map_cons]
  show some (Condition.any [.all [.predicate (first :: second ::
    ((partsOf rest).map Mark.part).filterMap Mark.item?)]]) = _
  rw [items_of_parts]

/-! ## Operands -/

/-- The keywords, besides the connectives and BETWEEN, that bind less than an operand does. -/
def loose : List String :=
  ["not", "is", "in", "like", "glob", "match", "regexp", "escape", "isnull", "notnull"]

/-- The item binds its neighbours more than comparisons do: it is none of these, nor a connective,
and has its place in an expression. -/
def tight (item : ReadItem) : Bool :=
  joins item && !loose.any (isKeyword · item) &&
    match item with
    | .symbol (.sign c) => decide (c ∉ ['=', '<', '>', '!'])
    | _ => true

/-- Items that are one operand wherever they stand. -/
def Tight (items : List ReadItem) : Prop := items ≠ [] ∧ ∀ i ∈ items, tight i = true

instance (items : List ReadItem) : Decidable (Tight items) :=
  decidable_of_iff (items.isEmpty = false ∧ items.all tight = true)
    (and_congr List.isEmpty_eq_false_iff List.all_eq_true)

/-- A group is tight. -/
theorem tight_group (bracket : Bracket) (items : List ReadItem) :
    tight (.group bracket items) = true :=
  rfl

/-- A tight item joins, and is no NOT. -/
theorem joins_of_tight {item : ReadItem} (h : tight item = true) :
    joins item = true ∧ isKeyword "not" item = false := by
  simp only [tight, loose, Bool.and_eq_true, List.any_cons, Bool.not_eq_true',
    Bool.or_eq_false_iff] at h
  exact ⟨h.1.1, h.1.2.1⟩

/-- An operand is one condition by itself. -/
theorem exists_read_of_tight {items : List ReadItem} (h : Tight items) :
    ∃ c, read items = some (.any [.all [c]]) := by
  obtain ⟨hne, htight⟩ := h
  cases items with
  | nil => exact absurd rfl hne
  | cons first rest =>
      exact ⟨_, read_of_joins (fun i hi => (joins_of_tight (htight i hi)).1)
        (joins_of_tight (htight first (List.mem_cons_self ..))).2⟩

/-- An operand and items behind it are one predicate. -/
theorem read_tight {xs ys : List ReadItem} (hxs : Tight xs) (hne : ys ≠ [])
    (hys : ∀ i ∈ ys, joins i = true) : read (xs ++ ys) =
      some (.any [.all [.predicate (xs ++ ys)]]) := by
  have hjoins : ∀ i ∈ xs, joins i = true ∧ isKeyword "not" i = false :=
    fun i hi => joins_of_tight (hxs.2 i hi)
  have hall : ∀ i ∈ xs ++ ys, joins i = true :=
    List.forall_mem_append.mpr ⟨fun i hi => (hjoins i hi).1, hys⟩
  -- There are two items at least, so none of them is read as a group.
  match xs, ys, hxs, hne with
  | x :: y :: rest, ys, _, _ => exact read_predicate hall (hjoins x (List.mem_cons_self ..)).2
  | [x], y :: rest, _, _ => exact read_predicate hall (hjoins x (List.mem_cons_self ..)).2
  | [], _, hxs, _ => exact absurd rfl hxs.1

end Conditions

/-! ## Truth -/

section Truth

open Sql

mutual

/-- The truth of a condition, given that of its predicates. -/
def Condition.truth (v : List ReadItem → Truth) : Condition → Truth
  | .predicate items => v items
  | .not c => .negatedIf true (c.truth v)
  | .all cs => .all (Condition.truths v cs)
  | .any cs => .any (Condition.truths v cs)

/-- The truth of each condition of a list. -/
def Condition.truths (v : List ReadItem → Truth) : List Condition → List Truth
  | [] => []
  | c :: rest => c.truth v :: Condition.truths v rest

end

variable (v : List ReadItem → Truth)

/-- The truths of conditions in a list are the truth of each. -/
theorem Condition.truths_eq (cs : List Condition) : truths v cs = cs.map (truth v) := by
  induction cs with
  | nil => rfl
  | cons c rest ih => rw [truths, ih, List.map_cons]

/-- One conjunction is as true as all of its terms. -/
@[simp] theorem Condition.truth_conjunction (cs : List Condition) :
    (Condition.any [.all cs]).truth v = .all (cs.map (truth v)) := by
  rw [truth, truths, truths, Truth.any_singleton, truth, truths_eq]

/-- A conjunction of one term is as true as the term. -/
@[simp] theorem Condition.truth_single (c : Condition) :
    (Condition.any [.all [c]]).truth v = c.truth v := by
  rw [truth_conjunction, List.map_singleton, Truth.all_singleton]

end Truth

end RelationalQuery
