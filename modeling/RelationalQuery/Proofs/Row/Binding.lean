/-
  RelationalQuery.Proofs.Row.Binding — when a shape fits the columns of a statement.

  A shape is a tree of layouts, and binding it is one walk over the tree: the layout of a row comes
  before those of its variants, and variants come in order. Each layout asks for something of the
  columns, by position or by name. What the walk finds is the first layout that asks for something
  that is not there; if there is none, every row of the tree has just the columns that its own
  layout speaks of, whatever the other layouts are.

  Main definitions:
    * `RowShape.layouts`: the layouts of a tree, in the order of the walk.
    * `Layout.Fits`, `Layout.Refuses`: what a layout asks for, and how it fails.
    * `Layout.Exposes`, `RowShape.Yields`: the columns of one layout, and of a tree.

  Main statements:
    * `RowShape.check_eq`: binding a tree checks its layouts one after the other.
    * `RowShape.bind_spec`: when a shape can be bound, how it fails, and what comes of it.
-/

import Mathlib.Data.List.Forall2
import RelationalQuery.Proofs.Outcome
import RelationalQuery.Row.Shape

namespace RelationalQuery

/-! ## Columns by name -/

/-- Some column has the name, ASCII case aside. -/
def Listed (names : List String) (column : String) : Prop :=
  ∃ name ∈ names, Identifier.Same name column

/-- The column at the position has the name, ASCII case aside, and none before it has. -/
def Leftmost (names : List String) (column : String) (index : Nat) : Prop :=
  (∃ name, names[index]? = some name ∧ Identifier.Same name column) ∧
    ∀ earlier < index, ∀ name, names[earlier]? = some name → ¬Identifier.Same name column

/-- The exposed column is the leftmost one of the pair's first name, under the second name. -/
def Resolves (names : List String) (pair : String × String) (exposed : Nat × String) : Prop :=
  Leftmost names pair.1 exposed.1 ∧ exposed.2 = pair.2

section Positions

variable {names : List String} {column : String} {index : Nat}

/-- The position that is found is that of the leftmost column of the name. -/
theorem position?_eq_some : position? column names = some index ↔ Leftmost names column index := by
  unfold position?
  rw [List.findIdx?_eq_some_iff_getElem]
  constructor
  · -- Both sides look at the earlier positions only, which are all inside the list.
    intro h
    obtain ⟨hlt, hsame, hbefore⟩ := h
    refine ⟨⟨names[index], List.getElem?_eq_getElem hlt, of_decide_eq_true hsame⟩, ?_⟩
    intro earlier hearlier name hname
    have hin : earlier < names.length := by omega
    have hat : names[earlier] = name :=
      Option.some.inj ((List.getElem?_eq_getElem hin).symm.trans hname)
    have hnot := hbefore earlier hearlier
    rw [hat, decide_eq_true_iff] at hnot
    exact hnot
  · intro h
    obtain ⟨⟨name, hname, hsame⟩, hbefore⟩ := h
    obtain ⟨hlt, rfl⟩ := List.getElem?_eq_some_iff.mp hname
    refine ⟨hlt, decide_eq_true hsame, ?_⟩
    intro earlier hearlier
    have hin : earlier < names.length := by omega
    rw [decide_eq_true_iff]
    exact hbefore earlier hearlier _ (List.getElem?_eq_getElem hin)

/-- No position is found just when no column has the name. -/
theorem position?_eq_none : position? column names = none ↔ ¬Listed names column := by
  unfold position? Listed
  rw [List.findIdx?_eq_none_iff]
  simp

theorem Leftmost.listed (h : Leftmost names column index) : Listed names column := by
  obtain ⟨⟨name, hname, hsame⟩, _⟩ := h
  exact ⟨name, List.mem_of_getElem? hname, hsame⟩

theorem Leftmost.lt (h : Leftmost names column index) : index < names.length := by
  obtain ⟨⟨name, hname, _⟩, _⟩ := h
  obtain ⟨hlt, _⟩ := List.getElem?_eq_some_iff.mp hname
  exact hlt

end Positions

/-! ## What a layout asks for -/

namespace Layout

/-- What the layout asks for is there: a start that is not behind the last column, an interval that
is in order and ends within the columns, or a column of every name. -/
def Fits (names : List String) : Layout → Prop
  | .all | .empty => True
  | .suffix start => start ≤ names.length
  | .range start stop => start ≤ stop ∧ stop ≤ names.length
  | .mapping pairs => ∀ pair ∈ pairs, Listed names pair.1

/-- The error of a layout that asks for something else: for positions both numbers of columns, and
for names the first one that no column has. -/
def Refuses (names : List String) (e : QueryError) : Layout → Prop
  | .all | .empty => False
  | .suffix start => names.length < start ∧ e = .columnCountMismatch start names.length
  | .range start stop =>
    (stop < start ∨ names.length < stop) ∧ e = .columnCountMismatch stop names.length
  | .mapping pairs => ∃ before pair after, pairs = before ++ pair :: after ∧
      (∀ earlier ∈ before, Listed names earlier.1) ∧ ¬Listed names pair.1 ∧
      e = .missingColumn none pair.1 names

/-- The columns are those at the positions from `start` up to, not including, `stop`, in order and
under their own names. -/
structure Interval (names : List String) (start stop : Nat) (columns : List (Nat × String)) :
    Prop where
  length_eq : columns.length = stop - start
  getElem? : ∀ i column, columns[i]? = some column →
    column.1 = start + i ∧ names[start + i]? = some column.2

/-- The columns are those that the layout speaks of: an interval of positions, or one column for
each pair of names, in order. -/
def Exposes (names : List String) (columns : List (Nat × String)) : Layout → Prop
  | .all => Interval names 0 names.length columns
  | .suffix start => Interval names start names.length columns
  | .range start stop => Interval names start stop columns
  | .mapping pairs => List.Forall₂ (Resolves names) pairs columns
  | .empty => columns = []

section Positions

variable {names : List String} {start stop : Nat} {columns : List (Nat × String)}

theorem numbered_getElem? (i : Nat) :
    (numbered names)[i]? = names[i]?.map fun name => (i, name) := by
  simp [numbered, List.getElem?_zipIdx, Function.comp_def]

/-- Dropping what is before the start, and taking what is before the stop, leaves the interval. -/
theorem interval_numbered (h : stop ≤ names.length) :
    Interval names start stop (((numbered names).take stop).drop start) where
  length_eq := by simp [numbered, Nat.min_eq_left h]
  getElem? := by
    intro i column hcolumn
    rw [List.getElem?_drop, List.getElem?_take] at hcolumn
    split at hcolumn
    · rw [numbered_getElem?] at hcolumn
      obtain ⟨name, hname, rfl⟩ := Option.map_eq_some_iff.mp hcolumn
      exact ⟨rfl, hname⟩
    · cases hcolumn

theorem Interval.lt (h : Interval names start stop columns) :
    ∀ column ∈ columns, column.1 < names.length := by
  intro column hcolumn
  obtain ⟨i, hi⟩ := List.mem_iff_getElem?.mp hcolumn
  obtain ⟨hposition, hname⟩ := h.getElem? i column hi
  obtain ⟨hlt, _⟩ := List.getElem?_eq_some_iff.mp hname
  omega

end Positions

end Layout

/-! ## Binding one layout -/

section Pairs

variable {names : List String}

/-- The pairs of a mapping are resolved one by one. -/
theorem bindMapping_eq_ok : {pairs : List (String × String)} → {columns : List (Nat × String)} →
    (bindMapping names pairs = .ok columns ↔ List.Forall₂ (Resolves names) pairs columns)
  | [], columns => by
      rw [bindMapping, List.forall₂_nil_left_iff]
      exact ⟨fun h => (Except.ok.inj h).symm, fun h => h ▸ rfl⟩
  | (consumed, produced) :: rest, columns => by
      rw [bindMapping, List.forall₂_cons_left_iff]
      cases hposition : position? consumed names with
      | none =>
          refine iff_of_false nofun ?_
          intro h
          obtain ⟨column, _, ⟨hleftmost, _⟩, _⟩ := h
          exact position?_eq_none.mp hposition hleftmost.listed
      -- The leftmost column is unique, so a pair that resolves gives the column that was found.
      | some index =>
          show (bindMapping names rest >>= _) = _ ↔ _
          rw [bind_eq_ok]
          constructor
          · intro h
            obtain ⟨others, hothers, h⟩ := h
            have hleftmost := position?_eq_some.mp hposition
            exact ⟨(index, produced), others, ⟨hleftmost, rfl⟩, bindMapping_eq_ok.mp hothers,
              (pure_eq_ok.mp h).symm⟩
          · intro h
            obtain ⟨⟨found, name⟩, others, ⟨hleftmost, hname⟩, hothers, rfl⟩ := h
            have hfound := position?_eq_some.mpr hleftmost
            obtain rfl : index = found := Option.some.inj (hposition.symm.trans hfound)
            obtain rfl : name = produced := hname
            exact ⟨others, bindMapping_eq_ok.mpr hothers, rfl⟩

/-- A mapping fails at the first name that no column has. -/
theorem bindMapping_eq_error {e : QueryError} : {pairs : List (String × String)} →
    (bindMapping names pairs = .error e ↔ (Layout.mapping pairs).Refuses names e)
  | [] => by
      refine iff_of_false nofun ?_
      intro h
      obtain ⟨before, pair, after, h, _⟩ := h
      simp at h
  | (consumed, produced) :: rest => by
      rw [bindMapping]
      cases hposition : position? consumed names with
      -- The first pair is the one that fails, so nothing can stand before it.
      | none =>
          have hmissing := position?_eq_none.mp hposition
          constructor
          · intro h
            exact ⟨[], (consumed, produced), rest, rfl, List.forall_mem_nil _, hmissing,
              (Except.error.inj h).symm⟩
          · intro h
            obtain ⟨before, pair, after, hpairs, hbefore, _, rfl⟩ := h
            cases before with
            | nil =>
                obtain ⟨rfl, _⟩ := List.cons.inj hpairs
                rfl
            | cons first before =>
                obtain ⟨rfl, _⟩ := List.cons.inj hpairs
                exact absurd (hbefore _ (List.mem_cons_self ..)) hmissing
      -- The first pair is listed, so the one that fails is among the rest.
      | some index =>
          have hlisted := (position?_eq_some.mp hposition).listed
          show (bindMapping names rest >>= _) = _ ↔ _
          rw [bind_eq_error, bindMapping_eq_error]
          constructor
          · intro h
            obtain h | ⟨_, _, h⟩ := h
            · obtain ⟨before, pair, after, rfl, hbefore, hpair⟩ := h
              exact ⟨(consumed, produced) :: before, pair, after, rfl,
                List.forall_mem_cons.mpr ⟨hlisted, hbefore⟩, hpair⟩
            · cases h
          · intro h
            obtain ⟨before, pair, after, hpairs, hbefore, hpair⟩ := h
            cases before with
            | nil =>
                obtain ⟨rfl, _⟩ := List.cons.inj hpairs
                exact absurd hlisted hpair.1
            | cons first before =>
                obtain ⟨_, hrest⟩ := List.cons.inj hpairs
                exact Or.inl ⟨before, pair, after, hrest, (List.forall_mem_cons.mp hbefore).2,
                  hpair⟩

end Pairs

namespace Layout

variable {names : List String} {layout : Layout} {columns : List (Nat × String)}

/-- What a layout is bound to, is what it speaks of. -/
theorem exposes_of_bind (h : layout.bind names = .ok columns) : layout.Exposes names columns := by
  -- Every layout but a mapping is an interval of the columns as they are numbered.
  cases layout with
  | all =>
      obtain rfl := Except.ok.inj h
      have hwhole : Interval names 0 names.length _ := interval_numbered (Nat.le_refl _)
      rwa [List.take_of_length_le (by simp [numbered]), List.drop_zero] at hwhole
  | suffix start =>
      rw [bind] at h
      split at h
      · cases h
      · obtain rfl := Except.ok.inj h
        have hrest : Interval names start names.length _ := interval_numbered (Nat.le_refl _)
        rwa [List.take_of_length_le (by simp [numbered])] at hrest
  | range start stop =>
      rw [bind] at h
      split at h
      · cases h
      · obtain rfl := Except.ok.inj h
        exact interval_numbered (by omega)
  | mapping pairs => exact bindMapping_eq_ok.mp h
  | empty => exact (Except.ok.inj h).symm

/-- A layout fails just as it refuses the columns. -/
theorem bind_eq_error {e : QueryError} : layout.bind names = .error e ↔ layout.Refuses names e := by
  cases layout with
  | all => exact iff_of_false nofun id
  | suffix start =>
      rw [bind, Refuses]
      split
      · next hbeyond => simp [hbeyond, eq_comm]
      · next hwithin => simp [hwithin]
  | range start stop =>
      rw [bind, Refuses]
      split
      · next hbeyond => simp [hbeyond, eq_comm]
      · next hwithin => simp [hwithin]
  | mapping pairs => exact bindMapping_eq_error
  | empty => exact iff_of_false nofun id

/-- A layout fits the columns unless it refuses them. -/
theorem fits_iff : layout.Fits names ↔ ∀ e, ¬layout.Refuses names e := by
  cases layout with
  | all => exact iff_of_true trivial fun _ => id
  | suffix start =>
      simp only [Fits, Refuses]
      constructor
      · intro h e hrefuses
        omega
      · intro h
        have hfits := h (.columnCountMismatch start names.length)
        simpa using hfits
  | range start stop =>
      simp only [Fits, Refuses]
      constructor
      · intro h e hrefuses
        omega
      · intro h
        have hfits := h (.columnCountMismatch stop names.length)
        simp at hfits
        omega
  | mapping pairs =>
      -- Either every name is found in turn, or there is a first that is not.
      simp only [← bindMapping_eq_error]
      cases hbind : bindMapping names pairs with
      | ok columns =>
          have hfound := (bindMapping_eq_ok.mp hbind).imp fun _ _ h => And.intro h.1.listed h
          exact iff_of_true ((List.forall₂_and_left ..).mp hfound).1 nofun
      | error e =>
          refine iff_of_false ?_ fun h => h e rfl
          intro h
          obtain ⟨before, pair, after, rfl, _, hmissing, _⟩ := bindMapping_eq_error.mp hbind
          exact hmissing (h pair (by simp))
  | empty => exact iff_of_true trivial fun _ => id

/-- The outcome of one layout, without its columns. -/
def check (names : List String) (layout : Layout) : Except QueryError Unit := do
  let _ ← layout.bind names

/-- A layout fails just as it refuses the columns. -/
theorem check_eq_error {e : QueryError} :
    layout.check names = .error e ↔ layout.Refuses names e := by
  rw [check, RelationalQuery.bind_eq_error, bind_eq_error]
  simp [pure, Except.pure]

/-- A layout passes just when it fits. -/
theorem check_eq_ok : layout.check names = .ok () ↔ layout.Fits names := by
  rw [fits_iff]
  simp only [← check_eq_error]
  cases layout.check names <;> simp

end Layout

/-! ## Trees -/

mutual

/-- The layouts of a shape in the order in which they are bound: its own, then those of its
variants. -/
def RowShape.layouts : RowShape → List Layout
  | ⟨layout, variants⟩ => layout :: RowShape.layoutsAll variants

/-- The layouts of variants in order. -/
def RowShape.layoutsAll : List (String × RowShape) → List Layout
  | [] => []
  | (_, shape) :: rest => shape.layouts ++ RowShape.layoutsAll rest

end

mutual

/-- At every row of the tree are the columns that the layout speaks of, and below it the variants
of the shape, in order and under their names. -/
def RowShape.Yields (names : List String) : RowShape → RowBinding → Prop
  | ⟨layout, variants⟩, binding =>
    layout.Exposes names binding.columns ∧ RowShape.AllYield names variants binding.variants

/-- Each binding of a variant is what the variant of its name yields. -/
def RowShape.AllYield (names : List String) :
    List (String × RowShape) → List (String × RowBinding) → Prop
  | [], bindings => bindings = []
  | (name, shape) :: rest, bindings => ∃ binding others, bindings = (name, binding) :: others ∧
      shape.Yields names binding ∧ RowShape.AllYield names rest others

end

mutual

/-- Every column, at any depth, is one of the first `total` columns of the statement. -/
def RowBinding.Within (total : Nat) : RowBinding → Prop
  | ⟨columns, variants⟩ => (∀ column ∈ columns, column.1 < total) ∧
      RowBinding.AllWithin total variants

/-- The bindings of all variants are within the columns. -/
def RowBinding.AllWithin (total : Nat) : List (String × RowBinding) → Prop
  | [] => True
  | (_, binding) :: rest => binding.Within total ∧ RowBinding.AllWithin total rest

end

section Trees

variable {names : List String}

mutual

/-- **Binding a shape checks its layouts one after the other.** -/
theorem RowShape.check_eq : (shape : RowShape) → (names : List String) →
    (do let _ ← shape.bind names) = forM shape.layouts (Layout.check names)
  | ⟨layout, variants⟩, names => by
      rw [RowShape.layouts, List.forM_cons, ← RowShape.checkAll_eq variants names, RowShape.bind,
        Layout.check]
      cases layout.bind names with
      | error e => rfl
      | ok columns =>
          show (do let _ ← (RowShape.bindVariants names variants >>= _)) = _
          cases RowShape.bindVariants names variants <;> rfl

/-- Binding variants checks their layouts one after the other. -/
theorem RowShape.checkAll_eq : (variants : List (String × RowShape)) → (names : List String) →
    (do let _ ← RowShape.bindVariants names variants) =
      forM (RowShape.layoutsAll variants) (Layout.check names)
  | [], _ => rfl
  | (name, shape) :: rest, names => by
      rw [RowShape.layoutsAll, List.forM_append, ← RowShape.check_eq shape names,
        ← RowShape.checkAll_eq rest names, RowShape.bindVariants]
      cases shape.bind names with
      | error e => rfl
      | ok binding =>
          show (do let _ ← (RowShape.bindVariants names rest >>= _)) = _
          cases RowShape.bindVariants names rest <;> rfl

end

mutual

/-- What a shape is bound to, is what its layouts speak of. -/
theorem RowShape.yields_of_bind : (shape : RowShape) → ∀ binding,
    shape.bind names = .ok binding → shape.Yields names binding
  | ⟨layout, variants⟩, binding, h => by
      obtain ⟨columns, hcolumns, h⟩ := bind_eq_ok.mp h
      obtain ⟨bindings, hbindings, h⟩ := bind_eq_ok.mp h
      obtain rfl := pure_eq_ok.mp h
      exact ⟨Layout.exposes_of_bind hcolumns,
        RowShape.allYield_of_bindVariants variants bindings hbindings⟩

/-- What variants are bound to has the columns that their layouts speak of. -/
theorem RowShape.allYield_of_bindVariants : (variants : List (String × RowShape)) →
    ∀ bindings, RowShape.bindVariants names variants = .ok bindings →
      RowShape.AllYield names variants bindings
  | [], bindings, h => (Except.ok.inj h).symm
  | (name, shape) :: rest, bindings, h => by
      obtain ⟨binding, hbinding, h⟩ := bind_eq_ok.mp h
      obtain ⟨others, hothers, h⟩ := bind_eq_ok.mp h
      obtain rfl := pure_eq_ok.mp h
      exact ⟨binding, others, rfl, RowShape.yields_of_bind shape binding hbinding,
        RowShape.allYield_of_bindVariants rest others hothers⟩

end

/-- What a layout speaks of is there. -/
theorem Layout.Exposes.lt {layout : Layout} {columns : List (Nat × String)}
    (h : layout.Exposes names columns) : ∀ column ∈ columns, column.1 < names.length := by
  cases layout with
  | all => exact Layout.Interval.lt h
  | suffix start => exact Layout.Interval.lt h
  | range start stop => exact Layout.Interval.lt h
  | mapping pairs =>
      -- Each exposed column is the leftmost of some name, and that is one of the columns.
      have hflip := List.Forall₂.flip h
      have hfound := hflip.imp fun _ _ h => And.intro h.1.lt h
      exact ((List.forall₂_and_left ..).mp hfound).1
  | empty =>
      obtain rfl : columns = [] := h
      exact List.forall_mem_nil _

mutual

/-- What a shape yields is within the columns of the statement. -/
theorem RowShape.Yields.within : (shape : RowShape) → (binding : RowBinding) →
    shape.Yields names binding → binding.Within names.length
  | ⟨_, variants⟩, ⟨_, bindings⟩, h =>
      ⟨Layout.Exposes.lt h.1, RowShape.AllYield.within variants bindings h.2⟩

theorem RowShape.AllYield.within : (variants : List (String × RowShape)) →
    (bindings : List (String × RowBinding)) → RowShape.AllYield names variants bindings →
      RowBinding.AllWithin names.length bindings
  | [], bindings, h => by
      obtain rfl : bindings = [] := h
      trivial
  | (name, shape) :: rest, bindings, h => by
      obtain ⟨binding, others, rfl, hbinding, hothers⟩ := h
      exact ⟨RowShape.Yields.within shape binding hbinding,
        RowShape.AllYield.within rest others hothers⟩

end

end Trees

/-- **When a shape can be bound, how it fails, and what comes of it.** It can be bound to the
columns of a statement just when each of its layouts, at any depth, fits them. Otherwise the error
is that of the first one that does not, a row before its variants and these in order. What comes of
it has the variants of the shape, under their names and in their order; at every row are the
columns that its own layout speaks of, and all of them are columns of the statement. -/
theorem RowShape.bind_spec (names : List String) (shape : RowShape) :
    ((∃ binding, shape.bind names = .ok binding) ↔
      ∀ layout ∈ shape.layouts, layout.Fits names) ∧
    (∀ e, shape.bind names = .error e ↔ ∃ before layout after,
      shape.layouts = before ++ layout :: after ∧ (∀ earlier ∈ before, earlier.Fits names) ∧
        layout.Refuses names e) ∧
    ∀ binding, shape.bind names = .ok binding →
      shape.Yields names binding ∧ binding.Within names.length := by
  -- Binding fails as a row of checks does, one for each layout in preorder.
  have hcheck := shape.check_eq names
  refine ⟨?_, ?_, ?_⟩
  · simp only [← Layout.check_eq_ok]
    rw [← forM_eq_ok, ← hcheck]
    cases shape.bind names with
    | error e => exact iff_of_false nofun nofun
    | ok binding => exact iff_of_true ⟨binding, rfl⟩ rfl
  · intro e
    simp only [← Layout.check_eq_ok, ← Layout.check_eq_error]
    rw [← forM_eq_error, ← hcheck, bind_eq_error]
    simp [pure, Except.pure]
  · intro binding h
    have hyields := shape.yields_of_bind binding h
    exact ⟨hyields, hyields.within⟩

end RelationalQuery
