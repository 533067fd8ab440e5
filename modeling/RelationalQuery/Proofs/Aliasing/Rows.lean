/-
  RelationalQuery.Proofs.Aliasing.Rows — names have no part in the rows of a query.

  The width of a star is looked up by its id among the sources of the query. In queries that are
  alike the ids correspond, and so do the sources that have them, so every entry is as wide in
  both: the same number of columns, the same offsets, and the same variants, which go by logical
  names. Where a width is not known, both fail for the same reason.

  Main definitions:
    * `ResultColumn.form`: an entry of a select list without what it selects.
    * `Query.position?`: where in the FROM tree a logical name leads.
    * `Query.SameRows`: two queries agree in all of this.

  Main statements:
    * `Query.width_alike`, `Query.rowShape_alike`, `Query.emitted_alike`, `Query.relation?_alike`.
    * `Query.Alike.sameRows`: queries that are alike have the same rows.
-/

import RelationalQuery.Proofs.Aliasing.Alike
import RelationalQuery.Proofs.Renaming.Building

namespace RelationalQuery

variable {ρ : Renaming}

/-! ## Parts of what is alike -/

/-- Sources that are alike have ids that correspond. -/
theorem Source.Alike.id {s s' : Source} (h : s.Alike ρ s') : ρ.renames s.id s'.id := by
  cases h <;> assumption

/-- Sources that are alike have roots that are alike. -/
theorem Source.Alike.root {s s' : Source} (h : s.Alike ρ s') : s.root.Alike ρ s'.root := by
  cases h with
  | table h name label label' => exact .table h name label label'
  | subquery h hq label label' => exact .subquery h hq label label'
  | joinTree _ hleft _ => exact hleft.root

/-- Sources that are alike have joins that are alike, one by one. -/
theorem Source.Alike.joins {s s' : Source} (h : s.Alike ρ s') :
    List.Forall₂ (Join.Alike ρ) s.joins s'.joins := by
  cases h with
  | table => exact .nil
  | subquery => exact .nil
  | joinTree _ _ hjoins => exact hjoins

/-- Relations that are alike have one logical name. -/
theorem Relation.Alike.name {r r' : Relation} (h : r.Alike ρ r') : r.name = r'.name := by
  cases h
  rfl

/-- Relations that are alike have targets that are alike. -/
theorem Relation.Alike.target {r r' : Relation} (h : r.Alike ρ r') :
    r.target.Alike ρ r'.target := by
  cases h
  assumption

namespace Query.Alike

variable {q q' : Query} (h : q.Alike ρ q')
include h

/-- Queries that are alike select columns that are alike. -/
theorem selection : Columns.Alike ρ q.selection q'.selection := by
  cases h
  assumption

/-- Queries that are alike have sources that are alike, or none. -/
theorem source : Option.Rel (Source.Alike ρ) q.source q'.source := by
  cases h
  assumption

/-- The references to the roots correspond. -/
theorem root? : Option.Rel ρ.renames q.root? q'.root? :=
  rel_map h.source fun hs => hs.root.id

/-- Queries that are alike have joins that are alike, one by one. -/
theorem joins : List.Forall₂ (Join.Alike ρ) ((q.source.map Source.joins).getD [])
    ((q'.source.map Source.joins).getD []) :=
  rel_getD (rel_map h.source Source.Alike.joins) .nil

end Query.Alike

/-! ## Select lists -/

/-- What an entry of a select list looks like: a star, or an expression with or without a label. -/
inductive ColumnForm where
  | star
  | expr
  | aliased (label : String)
deriving DecidableEq, Repr

def ResultColumn.form : ResultColumn → ColumnForm
  | .star _ => .star
  | .expr _ => .expr
  | .aliased _ label => .aliased label

/-- Columns that are alike are written in one form. -/
theorem ResultColumn.Alike.form_eq {c c' : ResultColumn} (h : c.Alike ρ c') : c.form = c'.form := by
  cases h <;> rfl

/-- Columns that are alike, one by one, are written in the same forms. -/
theorem Columns.Alike.forms_eq {cs cs' : List ResultColumn} (h : Columns.Alike ρ cs cs') :
    cs.map ResultColumn.form = cs'.map ResultColumn.form := by
  induction h with
  | nil => rfl
  | cons hc _ ih => rw [List.map_cons, List.map_cons, hc.form_eq, ih]

mutual

/-- Relations that are alike emit columns that are alike. -/
theorem Relation.emitted_alike (included : Bool) : (r : Relation) → ∀ {r' : Relation},
    r.Alike ρ r' → Columns.Alike ρ (r.emitted included) (r'.emitted included)
  | ⟨_, _, _, _, _, joins⟩, _, .mk _ htarget _ _ _ hselection hjoins => by
      refine List.rel_append ?_ (Join.emittedAll_alike joins hjoins)
      split
      · exact hselection ρ (.refl ρ) _ _ htarget.id
      · exact .nil
termination_by structural r => r

/-- Joins that are alike, one by one, emit columns that are alike. -/
theorem Join.emittedAll_alike : (joins : List Join) → ∀ {joins' : List Join},
    List.Forall₂ (Join.Alike ρ) joins joins' →
      Columns.Alike ρ (Join.emittedAll joins) (Join.emittedAll joins')
  | [], _, .nil => .nil
  | ⟨included, _, relation⟩ :: rest, _, .cons (.mk _ _ h) hrest =>
      List.rel_append (relation.emitted_alike included h) (Join.emittedAll_alike rest hrest)
termination_by structural joins => joins

end

/-- **The whole select lists of queries that are alike are so.** -/
theorem Query.emitted_alike {q q' : Query} (h : q.Alike ρ q') :
    Columns.Alike ρ q.emitted q'.emitted :=
  List.rel_append h.selection <| rel_getD
    (rel_map h.source fun hs => Join.emittedAll_alike _ hs.joins) .nil

/-! ## Widths -/

namespace ResultColumn

variable {members members' : List (SourceId × Width)} (hmembers : ρ.Entries members members')
include hmembers

/-- Columns that are alike have one width. -/
theorem widthAmong_alike {c c' : ResultColumn} (h : c.Alike ρ c') :
    c.widthAmong members = c'.widthAmong members' := by
  cases h with
  | star h => rw [widthAmong, widthAmong, hmembers.lookup h]
  | expr => rfl
  | aliased => rfl

/-- Columns that are alike, one by one, are of the same width together. -/
theorem totalWidth_alike {cs cs' : List ResultColumn} (h : Columns.Alike ρ cs cs') (total : Nat) :
    totalWidth members cs total = totalWidth members' cs' total := by
  induction h generalizing total with
  | nil => rfl
  | cons hc _ ih =>
      rw [totalWidth, totalWidth, widthAmong_alike hmembers hc]
      exact congrArg (_ >>= ·) (funext fun width => ih _)

/-- Columns that are alike, one by one, start at the same places. -/
theorem offsetsFrom_alike {cs cs' : List ResultColumn} (h : Columns.Alike ρ cs cs')
    (start : Nat) : offsetsFrom members start cs = offsetsFrom members' start cs' := by
  induction h generalizing start with
  | nil => rfl
  | cons hc _ ih =>
      rw [offsetsFrom, offsetsFrom, widthAmong_alike hmembers hc]
      simp only [ih]

end ResultColumn

mutual

/-- The sources below are as wide, each under the id that corresponds. -/
theorem Source.extent_alike (schema : Schema) : (s : Source) → ∀ {s' : Source}, s.Alike ρ s' →
    (s.extent schema).Renamed ρ (s'.extent schema)
  | .table _ name _, _, .table h _ _ _ => .leaf h (schema.columnCount name)
  | .subquery _ q _, .subquery id' _ _, .subquery h hq _ _ => by
      rw [Source.extent, Source.extent, q.width_alike schema hq]
      exact .leaf h _
  | .joinTree _ left joins, _, .joinTree h hleft hjoins =>
      .under h ((left.extent_alike schema hleft).beside (Join.extents_alike schema joins hjoins))
termination_by structural s => s

/-- Joins that are alike have members of the same widths. -/
theorem Join.extents_alike (schema : Schema) : (joins : List Join) → ∀ {joins' : List Join},
    List.Forall₂ (Join.Alike ρ) joins joins' →
      (Join.extents schema joins).Renamed ρ (Join.extents schema joins')
  | [], _, .nil => ⟨rfl, .nil⟩
  | ⟨_, _, ⟨_, target, _, _, _, joins⟩⟩ :: rest, _,
    .cons (.mk _ _ (.mk _ htarget _ _ _ _ hjoins)) hrest =>
      ((target.extent_alike schema htarget).beside
        (Join.extents_alike schema joins hjoins)).beside (Join.extents_alike schema rest hrest)
termination_by structural joins => joins

/-- **Queries that are alike have as many columns.** -/
theorem Query.width_alike (schema : Schema) : (q : Query) → ∀ {q' : Query}, q.Alike ρ q' →
    q.width schema = q'.width schema
  | ⟨_, _, none, _, _, _, _, _, _⟩, _, .mk hselection _ .none _ _ _ _ _ _ _ _ _ =>
      ResultColumn.totalWidth_alike .nil hselection 0
  | ⟨_, _, some source, _, _, _, _, _, _⟩, _,
    .mk hselection _ (.some hsource) _ _ _ _ _ _ _ _ _ =>
      ResultColumn.totalWidth_alike (source.extent_alike schema hsource).members
        (List.rel_append hselection (Join.emittedAll_alike _ hsource.joins)) 0
termination_by structural q => q

end

/-- Queries that are alike have members of the same widths, under ids that correspond. -/
theorem Query.Alike.members {q q' : Query} (h : q.Alike ρ q') (schema : Schema) :
    ρ.Entries (q.members schema) (q'.members schema) :=
  rel_getD (rel_map h.source fun hs => (Source.extent_alike schema _ hs).members) .nil

/-! ## Shapes -/

mutual

/-- Relations that are alike have one shape. -/
theorem Relation.shape_alike (offsets : List Nat) (included : Bool) (slot : Nat) :
    (r : Relation) → ∀ {r' : Relation}, r.Alike ρ r' →
      r.shape offsets included slot = r'.shape offsets included slot
  | ⟨_, target, _, _, selection, joins⟩, _, .mk _ htarget _ _ _ hselection hjoins => by
      have hselected := hselection ρ (.refl ρ) _ _ htarget.id
      rw [Relation.shape, Relation.shape, hselected.length_eq]
      simp only [Join.shapes_alike offsets joins hjoins]
termination_by structural r => r

/-- Joins that are alike, one by one, have the same shapes. -/
theorem Join.shapes_alike (offsets : List Nat) : (joins : List Join) → ∀ {joins' : List Join},
    List.Forall₂ (Join.Alike ρ) joins joins' → ∀ slot,
      Join.shapes offsets slot joins = Join.shapes offsets slot joins'
  | [], _, .nil, _ => rfl
  | ⟨included, _, relation⟩ :: rest, _, .cons (.mk _ _ hrelation) hrest, slot => by
      have hname := hrelation.name
      rw [Join.shapes, Join.shapes, relation.shape_alike offsets included slot hrelation]
      simp only [Join.shapes_alike offsets rest hrest, hname]
termination_by structural joins => joins

end

/-- **The rows of queries that are alike have the same shape.** -/
theorem Query.rowShape_alike {q q' : Query} (h : q.Alike ρ q') (schema : Schema) :
    q.rowShape schema = q'.rowShape schema := by
  have hselection : q.selection.length = q'.selection.length := h.selection.length_eq
  rw [rowShape, rowShape, ResultColumn.offsetsFrom_alike (h.members schema) (emitted_alike h),
    hselection]
  simp only [Join.shapes_alike _ _ h.joins]

/-! ## Logical names -/

/-- The first relations of a logical name are alike, or there is none on either side. -/
theorem Join.findRelation?_alike (name : String) : (joins : List Join) → ∀ {joins' : List Join},
    List.Forall₂ (Join.Alike ρ) joins joins' →
      Option.Rel (Relation.Alike ρ) (Join.findRelation? name joins)
        (Join.findRelation? name joins')
  | [], _, .nil => by
      rw [Join.findRelation?]
      exact .none
  | ⟨_, _, ⟨own, _, mapping, condition, _, joins⟩⟩ :: rest, _, .cons hfirst hrest => by
      obtain ⟨_, _, ⟨_, htarget, _, _, condition', hselection, hjoins⟩⟩ := hfirst
      have hnested := Join.findRelation?_alike name joins hjoins
      have hothers := Join.findRelation?_alike name rest hrest
      rw [Join.findRelation?, Join.findRelation?]
      split
      · exact .some (.mk own htarget mapping condition condition' hselection hjoins)
      · exact rel_or hnested hothers

/-- The relation of a logical name leads to the target that corresponds. -/
theorem Query.relation?_alike {q q' : Query} (h : q.Alike ρ q') (name : String) :
    Option.Rel ρ.renames (q.relation? name) (q'.relation? name) :=
  rel_bind h.source fun hs => rel_bind (Join.findRelation?_alike name _ hs.joins) fun hr =>
    .some hr.target.id

mutual

/-- The ids inside sources that are alike correspond, one by one. -/
theorem Source.Alike.ids : {s s' : Source} → s.Alike ρ s' →
    List.Forall₂ ρ.renames s.inside.ids s'.inside.ids
  | .table .., _, .table h _ _ _ => .cons h .nil
  | .subquery .., _, .subquery h _ _ _ => .cons h .nil
  | .joinTree .., _, .joinTree h hleft hjoins =>
      .cons h (List.rel_append (Source.Alike.ids hleft) (Join.alikeAll_ids hjoins))
termination_by structural s => s

/-- The ids inside relations that are alike correspond, one by one. -/
theorem Relation.Alike.ids : {r r' : Relation} → r.Alike ρ r' →
    List.Forall₂ ρ.renames r.inside.ids r'.inside.ids
  | ⟨_, _, _, _, _, _⟩, _, .mk _ htarget _ _ _ _ hjoins =>
      List.rel_append (Source.Alike.ids htarget) (Join.alikeAll_ids hjoins)
termination_by structural r => r

/-- The ids inside joins that are alike correspond, one by one. -/
theorem Join.alikeAll_ids : {joins joins' : List Join} → List.Forall₂ (Join.Alike ρ) joins joins' →
    List.Forall₂ ρ.renames (Join.inside joins).ids (Join.inside joins').ids
  | [], _, .nil => .nil
  | ⟨_, _, _⟩ :: _, _, .cons (.mk _ _ h) hrest =>
      List.rel_append (Relation.Alike.ids h) (Join.alikeAll_ids hrest)
termination_by structural joins => joins

end

/-- Ids that correspond stand at the same place. -/
theorem Renaming.idxOf_eq {ids ids' : List SourceId} (h : List.Forall₂ ρ.renames ids ids')
    {id id' : SourceId} (hid : ρ.renames id id') : ids.idxOf id = ids'.idxOf id' := by
  induction h with
  | nil => rfl
  | cons hfirst _ ih =>
      rw [List.idxOf_cons, List.idxOf_cons, ih]
      have hbeq := Bool.eq_iff_iff.mpr
        (beq_iff_eq.trans ((Renaming.eq_iff hfirst hid).trans beq_iff_eq.symm))
      rw [hbeq]

namespace Query

/-- The ids in the FROM tree. -/
def nodes (q : Query) : List SourceId := (q.source.map fun s => s.inside.ids).getD []

/-- The place in the FROM tree of what an attached relation leads to, by its logical name. -/
def position? (q : Query) (name : String) : Option Nat :=
  (q.relation? name).map fun id => q.nodes.idxOf id

/-- Queries that are alike have the source of a name at the same place. -/
theorem position?_alike {q q' : Query} (h : q.Alike ρ q') (name : String) :
    q.position? name = q'.position? name := by
  have hnodes : List.Forall₂ ρ.renames q.nodes q'.nodes :=
    rel_getD (rel_map h.source Source.Alike.ids) .nil
  have hrelation := relation?_alike h name
  unfold position?
  generalize q.relation? name = id, q'.relation? name = id' at hrelation
  cases hrelation with
  | none => rfl
  | some hid => exact congrArg some (Renaming.idxOf_eq hnodes hid)

/-! ## Queries with the same rows -/

/-- The queries have the same number of columns and the same rows, or fail alike; their select lists
have the same form; and logical names lead to the same places. -/
structure SameRows (schema : Schema) (q q' : Query) : Prop where
  width : q.width schema = q'.width schema
  rowShape : q.rowShape schema = q'.rowShape schema
  emitted : q.emitted.map ResultColumn.form = q'.emitted.map ResultColumn.form
  position : ∀ name, q.position? name = q'.position? name

/-- **Queries that are alike have the same rows.** -/
theorem Alike.sameRows {q q' : Query} (h : q.Alike ρ q') (schema : Schema) :
    SameRows schema q q' where
  width := q.width_alike schema h
  rowShape := rowShape_alike h schema
  emitted := (emitted_alike h).forms_eq
  position := position?_alike h

end Query

end RelationalQuery
