/-
  RelationalQuery.Select.Width — how many columns a query returns.

  A star returns the columns of its occurrence, which has to be in the FROM clause of the query
  itself; every other entry of a select list returns one. A table has the columns of the
  schema, a subquery those it returns, and a join tree those of its left source and of every
  relation below it.

  Main definitions:
    * `Extent`: the width of a source and of each source in its FROM tree.
    * `Source.width`, `Query.width`: the number of columns.
    * `ResultColumn.width`: the number of columns of one entry.

  Main statement:
    * `Source.lookup_members`: the width listed for an id is that of the source that has it.
-/

import RelationalQuery.Schema
import RelationalQuery.Select.Query

namespace RelationalQuery

/-- A number of columns, or why it is not known. -/
abbrev Width : Type := Except QueryError Nat

/-- The columns of adjacent sources, and the width of each source among them by its id. -/
structure Extent where
  width : Width
  members : List (SourceId × Width)

namespace Extent

/-- No source. -/
def none : Extent := ⟨.ok 0, []⟩

/-- A single leaf. -/
def leaf (id : SourceId) (width : Width) : Extent := ⟨width, [(id, width)]⟩

/-- Adjacent sources. -/
def beside (a b : Extent) : Extent :=
  ⟨do return (← a.width) + (← b.width), a.members ++ b.members⟩

/-- The same sources under an id for all of them. -/
def under (id : SourceId) (e : Extent) : Extent := ⟨e.width, (id, e.width) :: e.members⟩

end Extent

/-- The number of columns of one entry of a select list, given the sources it may refer to. -/
def ResultColumn.widthAmong (members : List (SourceId × Width)) : ResultColumn → Width
  | .star source => (members.lookup source).getD (.error (.detachedSource "*"))
  | .expr _ | .aliased _ _ => .ok 1

/-- The number of columns of a select list. -/
def ResultColumn.totalWidth (members : List (SourceId × Width)) : List ResultColumn → Nat → Width
  | [], total => .ok total
  | column :: rest, total => do
    totalWidth members rest (total + (← column.widthAmong members))

mutual

/-- The extent of a source. -/
def Source.extent (schema : Schema) : Source → Extent
  | .table id table _ => .leaf id (schema.columnCount table)
  | .subquery id query _ => .leaf id (query.width schema)
  | .joinTree id left joins => ((left.extent schema).beside (Join.extents schema joins)).under id

/-- The extent of the targets of joins, depth first. -/
def Join.extents (schema : Schema) : List Join → Extent
  | [] => .none
  | ⟨_, _, ⟨_, target, _, _, _, joins⟩⟩ :: rest =>
    ((target.extent schema).beside (Join.extents schema joins)).beside (Join.extents schema rest)

/-- The number of columns that a query returns. -/
def Query.width (schema : Schema) : Query → Width
  | ⟨selection, _, source, _, _, _, _, _, _⟩ =>
    match source with
    | none => ResultColumn.totalWidth [] selection 0
    | some source =>
      ResultColumn.totalWidth (source.extent schema).members
        (selection ++ source.relationColumns) 0

end

/-- The number of columns that a star returns for a source. -/
def Source.width (schema : Schema) (s : Source) : Width := (s.extent schema).width

/-- The widths of the sources in the FROM tree of a query. -/
def Query.members (schema : Schema) (q : Query) : List (SourceId × Width) :=
  (q.source.map fun source => (source.extent schema).members).getD []

/-- The number of columns of one entry of a query's select list. -/
def ResultColumn.width (schema : Schema) (q : Query) (column : ResultColumn) : Width :=
  column.widthAmong (q.members schema)

/-- A query is as wide as its whole select list. -/
theorem Query.width_eq (schema : Schema) (q : Query) :
    q.width schema = ResultColumn.totalWidth (q.members schema) q.emitted 0 := by
  obtain ⟨selection, _, _ | source, _, _, _, _, _, _⟩ := q
  · rw [Query.width, Query.emitted]
    exact congrArg (ResultColumn.totalWidth [] · 0) (List.append_nil selection).symm
  · rw [Query.width]
    rfl

/-! ## Widths by id -/

/-- What is found in two lists one behind the other is found in the first one, or else in the
second. -/
theorem lookup_append {α β : Type} [BEq α] (key : α) (a b : List (α × β)) :
    (a ++ b).lookup key = (a.lookup key).or (b.lookup key) := by
  induction a with
  | nil => rfl
  | cons entry rest ih =>
    obtain ⟨k, v⟩ := entry
    cases h : key == k
    · simp only [List.cons_append, List.lookup_cons, h, ih]
    · simp only [List.cons_append, List.lookup_cons, h, Option.some_or]

/-- An entry of another id is skipped. -/
theorem lookup_cons_of_ne {β : Type} {id other : SourceId} (h : ¬other = id) (b : β)
    (rest : List (SourceId × β)) : ((other, b) :: rest).lookup id = rest.lookup id := by
  have hne : (id == other) = false := by simpa using fun h' => h h'.symm
  simp only [List.lookup_cons, hne]

mutual

/-- The width listed for an id is that of the source that has it. -/
theorem Source.lookup_members (schema : Schema) (id : SourceId) : (s : Source) →
    (s.extent schema).members.lookup id = (s.find? id).map (·.width schema)
  | .table other name label => by
    by_cases h : other = id
    · simp [Source.extent, Source.find?, Extent.leaf, Source.width, h]
    · simp [Source.extent, Source.find?, Extent.leaf, h, lookup_cons_of_ne h]
  | .subquery other query label => by
    by_cases h : other = id
    · simp [Source.extent, Source.find?, Extent.leaf, Source.width, h]
    · simp [Source.extent, Source.find?, Extent.leaf, h, lookup_cons_of_ne h]
  | .joinTree other left joins => by
    by_cases h : other = id
    · simp [Source.extent, Source.find?, Extent.under, Extent.beside, Source.width, h]
    · simp [Source.extent, Source.find?, Extent.under, Extent.beside, h, lookup_cons_of_ne h,
        lookup_append, Source.lookup_members schema id left, Join.lookup_members schema id joins,
        Option.map_or]

/-- The width listed for an id is that of the target that has it. -/
theorem Join.lookup_members (schema : Schema) (id : SourceId) : (joins : List Join) →
    (Join.extents schema joins).members.lookup id =
      (Join.findSource? id joins).map (·.width schema)
  | [] => rfl
  | ⟨_, _, ⟨_, target, _, _, _, joins⟩⟩ :: rest => by
    simp [Join.extents, Join.findSource?, Extent.beside, lookup_append,
      Source.lookup_members schema id target, Join.lookup_members schema id joins,
      Join.lookup_members schema id rest, Option.map_or, Option.or_assoc]

end

end RelationalQuery
