/-
  RelationalQuery.Proofs.Renaming.Names — names do not depend on ids.

  Sources are told apart by their ids when names are chosen and when they are looked up, and that is
  all that ids are used for. So the same sources under other ids get the same names.

  Main definitions:
    * `Renaming.Entries`, `Occurrence.Renamed`, `Scope.Renamed`: the same under other ids.

  Main statements:
    * `Naming.resolve_renamed`: the same names are chosen.
    * `Scope.Renamed.enter_renamed`, `Scope.Renamed.name_renamed`: and found.
-/

import RelationalQuery.Proofs.Renaming.Renamed
import RelationalQuery.Proofs.Statement.Writing
import RelationalQuery.Scope.Basic

namespace RelationalQuery

/-! ## Lists that correspond -/

section Lists

variable {α β γ : Type} {R : α → β → Prop} {l : List α} {l' : List β}

/-- What is kept of lists that agree is the same, if both sides give the same. -/
theorem filterMap_eq_of_forall₂ {f : α → Option γ} {g : β → Option γ} (h : List.Forall₂ R l l')
    (hfg : ∀ a b, R a b → f a = g b) : l.filterMap f = l'.filterMap g := by
  induction h with
  | nil => rfl
  | cons hab _ ih => rw [List.filterMap_cons, List.filterMap_cons, hfg _ _ hab, ih]

/-- What passes of lists that agree agrees, if both sides pass alike. -/
theorem forall₂_filter {p : α → Bool} {q : β → Bool} (h : List.Forall₂ R l l')
    (hpq : ∀ a b, R a b → p a = q b) : List.Forall₂ R (l.filter p) (l'.filter q) :=
  List.rel_filter (fun a b hab => Bool.eq_iff_iff.mp (hpq a b hab)) h

theorem isEmpty_eq_of_forall₂ (h : List.Forall₂ R l l') : l.isEmpty = l'.isEmpty := by
  cases h <;> rfl

end Lists

variable {ρ : Renaming}

/-! ## Entries by id -/

/-- The same entries under other ids. -/
def Renaming.Entries (ρ : Renaming) {β : Type} : List (SourceId × β) → List (SourceId × β) → Prop :=
  List.Forall₂ fun a b => ρ.renames a.1 b.1 ∧ a.2 = b.2

/-- Under its other id, an entry is the same. -/
theorem Renaming.Entries.lookup {β : Type} {xs ys : List (SourceId × β)} (h : ρ.Entries xs ys)
    {id id' : SourceId} (hid : ρ.renames id id') : xs.lookup id = ys.lookup id' := by
  induction h with
  | nil => rfl
  | @cons a b _ _ hab _ ih =>
      obtain ⟨key, value⟩ := a
      obtain ⟨key', value'⟩ := b
      obtain ⟨hkey, rfl⟩ := hab
      have hbeq : (id == key) = (id' == key') := by
        rw [Bool.eq_iff_iff, beq_iff_eq, beq_iff_eq]
        exact Renaming.eq_iff hid hkey
      rw [List.lookup_cons, List.lookup_cons, hbeq, ih]

/-! ## Occurrences -/

/-- The same leaf under another id. -/
structure Occurrence.Renamed (ρ : Renaming) (o o' : Occurrence) : Prop where
  id : ρ.renames o.id o'.id
  name : o.name = o'.name
  explicit : o.explicit = o'.explicit

namespace Naming

variable {os os' : List Occurrence}

/-- Under its other id, a leaf asks for the same key. -/
theorem key?_renamed {o o' : Occurrence} (h : o.Renamed ρ o') : o.key? = o'.key? := by
  rw [Occurrence.key?, Occurrence.key?, h.name]

/-- The first leaves of the ids are the same. -/
theorem distinct_renamed (h : List.Forall₂ (Occurrence.Renamed ρ) os os') :
    List.Forall₂ (Occurrence.Renamed ρ) (distinct os) (distinct os') := by
  induction h with
  | nil => exact .nil
  | cons ho _ ih =>
      refine .cons ho (forall₂_filter ih fun p p' hp => ?_)
      rw [decide_eq_decide]
      exact not_congr (Renaming.eq_iff hp.id ho.id)

section Groups

variable (h : List.Forall₂ (Occurrence.Renamed ρ) os os')
include h

/-- The groups have the same keys. -/
theorem groupKeys_renamed : groupKeys os = groupKeys os' := by
  rw [groupKeys, groupKeys, filterMap_eq_of_forall₂ h fun _ _ => key?_renamed]

/-- The members of each group are the same. -/
theorem group_renamed (key : String) :
    List.Forall₂ (Occurrence.Renamed ρ) (group os key) (group os' key) :=
  forall₂_filter h fun o o' ho => by rw [key?_renamed ho]

/-- So are the explicit members of each. -/
theorem explicitMembers_renamed (key : String) : List.Forall₂ (Occurrence.Renamed ρ)
    (explicitMembers os key) (explicitMembers os' key) :=
  forall₂_filter (group_renamed h key) fun o o' ho => by rw [ho.explicit]

/-- So are those that are not explicit. -/
theorem derivedMembers_renamed (key : String) : List.Forall₂ (Occurrence.Renamed ρ)
    (derivedMembers os key) (derivedMembers os' key) :=
  forall₂_filter (group_renamed h key) fun o o' ho => by rw [ho.explicit]

/-- The same groups keep their name. -/
theorem keepsName_renamed (outer : List String) (key : String) :
    keepsName outer os key = keepsName outer os' key := by
  rw [keepsName, keepsName, (group_renamed h key).length_eq,
    isEmpty_eq_of_forall₂ (derivedMembers_renamed h key)]

/-- The same groups have their name taken. -/
theorem staysTaken_renamed (outer : List String) (key : String) :
    staysTaken outer os key = staysTaken outer os' key := by
  rw [staysTaken, staysTaken, keepsName_renamed h,
    isEmpty_eq_of_forall₂ (explicitMembers_renamed h key)]

/-- The same groups pass, and the others fail with the same alias. -/
theorem checkExplicit_renamed (key : String) : checkExplicit os key = checkExplicit os' key := by
  have hmembers := explicitMembers_renamed h key
  unfold checkExplicit
  generalize explicitMembers os key = members, explicitMembers os' key = members' at hmembers
  cases hmembers with
  | nil => rfl
  | cons hfirst hrest =>
      cases hrest with
      | nil => rfl
      | cons _ _ =>
          exact congrArg (fun name => Except.error (QueryError.duplicateAlias (name.getD "")))
            hfirst.name

/-! ## Numbering -/

/-- The members of a group get the same numbers, and the same keys are taken behind them. -/
theorem numberGroup_renamed (taken : List String) (start : Nat) :
    ρ.Entries (numberGroup taken start os).1 (numberGroup taken start os').1 ∧
      (numberGroup taken start os).2 = (numberGroup taken start os').2 := by
  induction h generalizing taken start with
  | nil => exact ⟨.nil, rfl⟩
  | cons ho _ ih =>
      rw [numberGroup, numberGroup, ho.name]
      obtain ⟨hnames, htaken⟩ := ih (Identifier.fold (numberedName _ _) :: taken) (_ + 1)
      exact ⟨.cons ⟨ho.id, rfl⟩ hnames, htaken⟩

end Groups

/-- So do the members of all groups. -/
theorem numberGroups_renamed {groups groups' : List (List Occurrence)}
    (h : List.Forall₂ (List.Forall₂ (Occurrence.Renamed ρ)) groups groups')
    (taken : List String) :
    ρ.Entries (numberGroups taken groups) (numberGroups taken groups') := by
  induction h generalizing taken with
  | nil => exact .nil
  | cons hmembers _ ih =>
      obtain ⟨hnames, htaken⟩ := numberGroup_renamed hmembers taken 0
      unfold numberGroups
      refine List.rel_append hnames ?_
      rw [htaken]
      exact ih _

/-- The same new names are given. -/
theorem renamed_renamed (h : List.Forall₂ (Occurrence.Renamed ρ) os os') (outer : List String) :
    ρ.Entries (renamed outer os) (renamed outer os') := by
  have hkept : staysTaken outer os = staysTaken outer os' := funext (staysTaken_renamed h outer)
  have hkeeps : (fun key => !keepsName outer os key) = fun key => !keepsName outer os' key :=
    funext fun key => congrArg _ (keepsName_renamed h outer key)
  rw [renamed, renamed, groupKeys_renamed h, hkept, hkeeps]
  refine numberGroups_renamed ?_ _
  rw [List.forall₂_map_left_iff, List.forall₂_map_right_iff, List.forall₂_same]
  exact fun key _ => derivedMembers_renamed h key

/-- The same names are assigned. -/
theorem assign_renamed {names names' : List (SourceId × String)} (hnames : ρ.Entries names names')
    (h : List.Forall₂ (Occurrence.Renamed ρ) os os') :
    ρ.Entries (assign names os) (assign names' os') :=
  List.rel_map (fun o o' ho => ⟨ho.id, by rw [hnames.lookup ho.id, ho.name]⟩) h

/-- The names alone do not depend on ids. -/
theorem names_renamed {naming naming' : Naming} (h : ρ.Entries naming naming') :
    naming.names = naming'.names :=
  filterMap_eq_of_forall₂ h fun _ _ => And.right

/-- **The same names are chosen**, or none for the same reason. -/
theorem resolve_renamed (h : List.Forall₂ (Occurrence.Renamed ρ) os os') (outer : List String) :
    Together ρ.Entries (resolve outer os) (resolve outer os') := by
  have hos := distinct_renamed h
  have hnaming := assign_renamed (renamed_renamed hos outer) hos
  have hnames := names_renamed hnaming
  have hcheck : checkExplicit (distinct os) = checkExplicit (distinct os') :=
    funext (checkExplicit_renamed hos)
  unfold resolve
  simp only [groupKeys_renamed hos, hcheck, hnames]
  -- The checks are the same for both, and so are the names that they are about.
  refine .bind_same _ fun _ => ?_
  split
  · exact .error _
  · exact .ok hnaming

end Naming

/-! ## Scopes -/

/-- The same names are visible under other ids. -/
structure Scope.Renamed (ρ : Renaming) (s s' : Scope) : Prop where
  schema : s.schema = s'.schema
  namings : List.Forall₂ ρ.Entries s.namings s'.namings

namespace Scope

variable {s s' : Scope}

/-- Outside every statement no id has a name. -/
theorem outermost_renamed (schema : Schema) :
    (Scope.outermost schema).Renamed ρ (Scope.outermost schema) := ⟨rfl, .nil⟩

/-- The same names are visible. -/
theorem Renamed.visible_eq (h : s.Renamed ρ s') : s.visible = s'.visible := by
  have hnames : ∀ {n n' : List Naming}, List.Forall₂ ρ.Entries n n' →
      n.flatMap Naming.names = n'.flatMap Naming.names := by
    intro n n' hn
    induction hn with
    | nil => rfl
    | cons hnaming _ ih =>
        rw [List.flatMap_cons, List.flatMap_cons, ih, Naming.names_renamed hnaming]
  rw [visible, visible, hnames h.namings]

/-- Inside a statement the same names are chosen, or neither gets any. -/
theorem Renamed.enter_renamed (h : s.Renamed ρ s') {os os' : List Occurrence}
    (hos : List.Forall₂ (Occurrence.Renamed ρ) os os') :
    Together (Scope.Renamed ρ) (s.enter os) (s'.enter os') := by
  unfold enter
  rw [h.visible_eq]
  exact (Naming.resolve_renamed hos _).bind fun _ _ hnaming =>
    .ok ⟨h.schema, .cons hnaming h.namings⟩

section Lookup

variable {id id' : SourceId} (h : s.Renamed ρ s') (hid : ρ.renames id id')
include h hid

/-- A source is found under the same name, or not at all. -/
theorem Renamed.find?_renamed : s.find? id = s'.find? id' := by
  have hnamings := h.namings
  unfold find?
  generalize s.namings = namings, s'.namings = namings' at hnamings
  induction hnamings with
  | nil => rfl
  | cons hnaming _ ih => rw [List.findSome?_cons, List.findSome?_cons, hnaming.lookup hid, ih]

/-- A column is named after its source alike, or fails alike. -/
theorem Renamed.name_renamed (column : String) : s.name id column = s'.name id' column := by
  rw [name, name, h.find?_renamed hid]

/-- So is a source that may have no name. -/
theorem Renamed.name?_renamed : s.name? id = s'.name? id' := by
  rw [name?, name?, h.find?_renamed hid]

end Lookup

end Scope

end RelationalQuery
