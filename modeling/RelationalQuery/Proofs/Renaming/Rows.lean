/-
  RelationalQuery.Proofs.Renaming.Rows — rows do not depend on ids.

  The number of columns of a star is looked up by an id among the sources of the query, and ids are
  used for nothing else when columns are counted. So a query under other ids has as many columns,
  and its rows have the same shape.

  Main definitions:
    * `Query.Agree`: two queries have the same statement, number of columns and rows.

  Main statements:
    * `Query.width_renamed`, `Query.rowShape_renamed`: the number of columns and the shape of rows.
    * `Query.Renamed.agree`: queries that are the same under other ids agree.
-/

import RelationalQuery.Proofs.Renaming.Compiled
import RelationalQuery.Row.Projection

namespace RelationalQuery

variable {ρ : Renaming}

/-! ## Widths -/

/-- The same widths under other ids. -/
structure Extent.Renamed (ρ : Renaming) (e e' : Extent) : Prop where
  width : e.width = e'.width
  members : ρ.Entries e.members e'.members

namespace Extent.Renamed

variable {a a' b b' : Extent}

theorem leaf {id id' : SourceId} (h : ρ.renames id id') (width : Width) :
    (Extent.leaf id width).Renamed ρ (Extent.leaf id' width) := ⟨rfl, .cons ⟨h, rfl⟩ .nil⟩

theorem beside (ha : a.Renamed ρ a') (hb : b.Renamed ρ b') :
    (a.beside b).Renamed ρ (a'.beside b') where
  width := by rw [Extent.beside, Extent.beside, ha.width, hb.width]
  members := List.rel_append ha.members hb.members

theorem under {id id' : SourceId} (h : ρ.renames id id') (ha : a.Renamed ρ a') :
    (a.under id).Renamed ρ (a'.under id') := ⟨ha.width, .cons ⟨h, ha.width⟩ ha.members⟩

end Extent.Renamed

namespace ResultColumn

variable {members members' : List (SourceId × Width)} (hmembers : ρ.Entries members members')
include hmembers

/-- A result column has the same width. -/
theorem widthAmong_renamed {c c' : ResultColumn} (h : c.Renamed ρ c') :
    c.widthAmong members = c'.widthAmong members' := by
  cases h with
  | star h => rw [widthAmong, widthAmong, hmembers.lookup h]
  | expr => rfl
  | aliased => rfl

/-- A select list has the same total width. -/
theorem totalWidth_renamed {cs cs' : List ResultColumn}
    (h : List.Forall₂ (ResultColumn.Renamed ρ) cs cs') (total : Nat) :
    totalWidth members cs total = totalWidth members' cs' total := by
  induction h generalizing total with
  | nil => rfl
  | cons hc _ ih =>
      rw [totalWidth, totalWidth, widthAmong_renamed hmembers hc]
      exact congrArg (_ >>= ·) (funext fun width => ih _)

/-- The columns begin at the same places. -/
theorem offsetsFrom_renamed {cs cs' : List ResultColumn}
    (h : List.Forall₂ (ResultColumn.Renamed ρ) cs cs') (start : Nat) :
    offsetsFrom members start cs = offsetsFrom members' start cs' := by
  induction h generalizing start with
  | nil => rfl
  | cons hc _ ih =>
      rw [offsetsFrom, offsetsFrom, widthAmong_renamed hmembers hc]
      simp only [ih]

end ResultColumn

mutual

/-- The extents of the sources of a FROM tree are the same, by induction over it. -/
theorem Source.extent_renamed (schema : Schema) : (s : Source) → ∀ {s' : Source}, s.Renamed ρ s' →
    (s.extent schema).Renamed ρ (s'.extent schema)
  | .table _ name _, _, .table h _ _ => .leaf h (schema.columnCount name)
  | .subquery _ q _, .subquery id' _ _, .subquery h hq _ => by
      rw [Source.extent, Source.extent, q.width_renamed schema hq]
      exact .leaf h _
  | .joinTree _ left joins, _, .joinTree h hleft hjoins =>
      .under h
        ((left.extent_renamed schema hleft).beside (Join.extents_renamed schema joins hjoins))
termination_by structural s => s

/-- So are those of joins. -/
theorem Join.extents_renamed (schema : Schema) : (joins : List Join) → ∀ {joins' : List Join},
    List.Forall₂ (Join.Renamed ρ) joins joins' →
      (Join.extents schema joins).Renamed ρ (Join.extents schema joins')
  | [], _, .nil => ⟨rfl, .nil⟩
  | ⟨_, _, ⟨_, target, _, _, _, joins⟩⟩ :: rest, _,
    .cons (.mk _ _ (.mk _ htarget _ _ _ hjoins)) hrest =>
      ((target.extent_renamed schema htarget).beside
        (Join.extents_renamed schema joins hjoins)).beside (Join.extents_renamed schema rest hrest)
termination_by structural joins => joins

/-- **A query under other ids has as many columns.** -/
theorem Query.width_renamed (schema : Schema) : (q : Query) → ∀ {q' : Query}, q.Renamed ρ q' →
    q.width schema = q'.width schema
  | ⟨_, _, none, _, _, _, _, _, _⟩, _, .mk hselection _ .none _ _ _ _ _ _ =>
      ResultColumn.totalWidth_renamed .nil hselection 0
  | ⟨_, _, some source, _, _, _, _, _, _⟩, _, .mk hselection _ (.some hsource) _ _ _ _ _ _ =>
      ResultColumn.totalWidth_renamed (source.extent_renamed schema hsource).members
        (List.rel_append hselection (Source.relationColumns_renamed hsource)) 0
termination_by structural q => q

end

/-! ## Shapes -/

theorem Relation.Renamed.name {r r' : Relation} (h : r.Renamed ρ r') : r.name = r'.name := by
  cases h
  rfl

mutual

/-- A relation has the same shape, by induction over the relations below it. -/
theorem Relation.shape_renamed (offsets : List Nat) (included : Bool) (slot : Nat) :
    (r : Relation) → ∀ {r' : Relation}, r.Renamed ρ r' →
      r.shape offsets included slot = r'.shape offsets included slot
  | ⟨_, target, _, _, selection, joins⟩, _, .mk _ htarget _ _ hselection hjoins => by
      rw [Relation.shape, Relation.shape, (hselection _ _ htarget.id).length_eq]
      simp only [Join.shapes_renamed offsets joins hjoins]
termination_by structural r => r

/-- So have joins in a row. -/
theorem Join.shapes_renamed (offsets : List Nat) : (joins : List Join) → ∀ {joins' : List Join},
    List.Forall₂ (Join.Renamed ρ) joins joins' → ∀ slot,
      Join.shapes offsets slot joins = Join.shapes offsets slot joins'
  | [], _, .nil, _ => rfl
  | ⟨included, _, relation⟩ :: rest, _, .cons (.mk _ _ hrelation) hrest, slot => by
      have hname := hrelation.name
      rw [Join.shapes, Join.shapes, relation.shape_renamed offsets included slot hrelation]
      simp only [Join.shapes_renamed offsets rest hrest, hname]
termination_by structural joins => joins

end

namespace Query.Renamed

variable {q q' : Query} (h : q.Renamed ρ q')
include h

theorem selection : List.Forall₂ (ResultColumn.Renamed ρ) q.selection q'.selection := by
  cases h
  assumption

theorem joins : List.Forall₂ (Join.Renamed ρ) ((q.source.map Source.joins).getD [])
    ((q'.source.map Source.joins).getD []) := by
  obtain ⟨_, _, hsource, _, _, _, _, _, _⟩ := h
  cases hsource with
  | none => exact .nil
  | some hsource => exact hsource.joins

/-- The members of a query have the same extents. -/
theorem members (schema : Schema) : ρ.Entries (q.members schema) (q'.members schema) := by
  obtain ⟨_, _, hsource, _, _, _, _, _, _⟩ := h
  cases hsource with
  | none => exact .nil
  | some hsource => exact (Source.extent_renamed schema _ hsource).members

/-- The columns of the statement are the same. -/
theorem emitted : List.Forall₂ (ResultColumn.Renamed ρ) q.emitted q'.emitted := by
  refine List.rel_append h.selection ?_
  obtain ⟨_, _, hsource, _, _, _, _, _, _⟩ := h
  cases hsource with
  | none => exact .nil
  | some hsource => exact Source.relationColumns_renamed hsource

end Query.Renamed

/-- **The rows of a query under other ids have the same shape.** -/
theorem Query.rowShape_renamed {q q' : Query} (h : q.Renamed ρ q') (schema : Schema) :
    q.rowShape schema = q'.rowShape schema := by
  rw [rowShape, rowShape, ResultColumn.offsetsFrom_renamed (h.members schema) h.emitted,
    h.selection.length_eq]
  simp only [Join.shapes_renamed _ _ h.joins]

/-! ## Queries that agree -/

/-- The queries have the same statement with the same arguments, the same number of columns and the
same rows, or fail alike. -/
structure Query.Agree (schema : Schema) (q q' : Query) : Prop where
  compile : q.compile schema = q'.compile schema
  width : q.width schema = q'.width schema
  rowShape : q.rowShape schema = q'.rowShape schema

/-- Queries that are the same under other ids agree. -/
theorem Query.Renamed.agree {q q' : Query} (h : q.Renamed ρ q') (schema : Schema) :
    Query.Agree schema q q' where
  compile := Query.compile_renamed h schema
  width := Query.width_renamed schema q h
  rowShape := Query.rowShape_renamed h schema

end RelationalQuery
