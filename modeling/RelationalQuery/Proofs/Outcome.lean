/-
  RelationalQuery.Proofs.Outcome — what comes of steps that can fail.

  Rendering, naming and reading are chains of steps each of which gives a result or an error. A
  chain succeeds when every step does, and fails as its first step that fails.

  Main statements:
    * `bind_eq_ok`, `bind_eq_error`: the outcome of two steps.
    * `Gives.bind`: what holds of a result, step by step.
    * `forM_eq_ok`, `forM_eq_error`: the outcome of checks in a row.
-/

namespace RelationalQuery

/-! ## Steps that succeed -/

theorem map_ok {ε α β : Type} (f : α → β) (a : α) :
    f <$> (Except.ok a : Except ε α) = .ok (f a) := rfl

theorem ok_bind {ε α β : Type} (a : α) (k : α → Except ε β) : (Except.ok a >>= k) = k a := rfl

/-- Two steps give a result just when the first gives something of which the second gives the
result. -/
theorem bind_eq_ok {ε α β : Type} {x : Except ε α} {k : α → Except ε β} {b : β} :
    x >>= k = .ok b ↔ ∃ a, x = .ok a ∧ k a = .ok b := by
  cases x with
  | error e =>
      constructor
      · intro h
        cases h
      · intro h
        obtain ⟨_, h, _⟩ := h
        cases h
  | ok a =>
      constructor
      · intro h
        exact ⟨a, rfl, h⟩
      · intro h
        obtain ⟨a', ha, h⟩ := h
        cases ha
        exact h

/-- An outcome that is no error is a result. -/
theorem exists_ok {ε α : Type} {x : Except ε α} (h : x.isOk = true) : ∃ a, x = .ok a := by
  cases x with
  | error e => cases h
  | ok a => exact ⟨a, rfl⟩

theorem pure_eq_ok {ε α : Type} {a b : α} : (pure a : Except ε α) = .ok b ↔ a = b := by
  constructor
  · intro h
    cases h
    rfl
  · intro h
    subst h
    rfl

/-- A mapped outcome is a result just when it is the image of one. -/
theorem map_eq_ok {ε α β : Type} {f : α → β} {x : Except ε α} {b : β} :
    f <$> x = .ok b ↔ ∃ a, x = .ok a ∧ f a = b := by
  cases x with
  | error e =>
      constructor
      · intro h
        cases h
      · intro h
        obtain ⟨_, h, _⟩ := h
        cases h
  | ok a =>
      constructor
      · intro h
        cases h
        exact ⟨a, rfl, rfl⟩
      · intro h
        obtain ⟨a', ha, rfl⟩ := h
        cases ha
        rfl

/-- A wording of errors keeps the results. -/
theorem mapError_eq_ok {ε ε' α : Type} {f : ε → ε'} {x : Except ε α} {a : α} :
    x.mapError f = .ok a ↔ x = .ok a := by
  cases x with
  | error e => exact ⟨nofun, nofun⟩
  | ok b =>
      constructor
      · intro h
        cases h
        rfl
      · intro h
        cases h
        rfl

/-- What comes of it, if anything, is such. -/
def Gives {ε α : Type} (P : α → Prop) (x : Except ε α) : Prop := ∀ a, x = .ok a → P a

section Gives

variable {ε α β : Type} {P : α → Prop} {Q : β → Prop} {x : Except ε α}

/-- A result that has the property gives only such. -/
theorem Gives.ok {a : α} (h : P a) : Gives P (Except.ok a : Except ε α) :=
  fun _ heq => Except.ok.inj heq ▸ h

/-- Steps of which each gives only what the next one is good for give only what the last one does.
-/
theorem Gives.bind {k : α → Except ε β} (hx : Gives P x) (hk : ∀ a, P a → Gives Q (k a)) :
    Gives Q (x >>= k) := by
  intro b h
  obtain ⟨a, ha, h⟩ := bind_eq_ok.mp h
  exact hk a (hx a ha) b h

/-- A map that takes the one property to the other does so for what is given. -/
theorem Gives.map {g : α → β} (hx : Gives P x) (hg : ∀ a, P a → Q (g a)) : Gives Q (g <$> x) := by
  intro b h
  obtain ⟨a, ha, rfl⟩ := map_eq_ok.mp h
  exact hg a (hx a ha)

/-- Of a step that only has to succeed, nothing is asked. -/
theorem gives_any : Gives (fun _ : α => True) x := fun _ _ => trivial

end Gives

/-! ## Steps that fail -/

/-- Two steps fail just when the first one does, or the second one does on what the first gives. -/
theorem bind_eq_error {ε α β : Type} {x : Except ε α} {k : α → Except ε β} {e : ε} :
    x >>= k = .error e ↔ x = .error e ∨ ∃ a, x = .ok a ∧ k a = .error e := by
  cases x with
  | error other =>
      constructor
      · intro h
        cases h
        exact Or.inl rfl
      · rintro (h | ⟨_, h, _⟩)
        · cases h
          rfl
        · cases h
  | ok a =>
      constructor
      · intro h
        exact Or.inr ⟨a, rfl, h⟩
      · rintro (h | ⟨_, h, hk⟩)
        · cases h
        · cases h
          exact hk

/-- The error of an attempt that fails. -/
def error? {ε α : Type} : Except ε α → Option ε
  | .error e => some e
  | .ok _ => none

/-- An outcome has an error just when it is that error. -/
theorem error?_eq_some {ε α : Type} {x : Except ε α} {e : ε} :
    error? x = some e ↔ x = .error e := by
  cases x with
  | error other =>
      constructor
      · intro h
        cases h
        rfl
      · intro h
        cases h
        rfl
  | ok a =>
      constructor
      · intro h
        cases h
      · intro h
        cases h

/-- Checks in a row pass just when each of them does. -/
theorem forM_eq_ok {ε α : Type} {check : α → Except ε Unit} : {ds : List α} →
    (forM ds check = .ok () ↔ ∀ d ∈ ds, check d = .ok ())
  | [] => by
      rw [List.forM_nil]
      exact iff_of_true rfl fun _ hd => by cases hd
  | d :: rest => by
      rw [List.forM_cons, bind_eq_ok, List.forall_mem_cons]
      constructor
      · rintro ⟨_, hd, hrest⟩
        exact ⟨hd, forM_eq_ok.mp hrest⟩
      · rintro ⟨hd, hrest⟩
        exact ⟨(), hd, forM_eq_ok.mpr hrest⟩

/-- Checks in a row fail as the first that fails. -/
theorem forM_eq_error {ε α : Type} {check : α → Except ε Unit} {e : ε} : {ds : List α} →
    (forM ds check = .error e ↔ ∃ before d after, ds = before ++ d :: after ∧
      (∀ b ∈ before, check b = .ok ()) ∧ check d = .error e)
  | [] => by
      rw [List.forM_nil]
      constructor
      · intro h
        cases h
      · rintro ⟨before, d, after, h, _⟩
        cases before <;> cases h
  | first :: rest => by
      rw [List.forM_cons, bind_eq_error]
      constructor
      · -- The first check fails, or it passes and the failing one is among the rest.
        rintro (hfirst | ⟨_, hfirst, hrest⟩)
        · exact ⟨[], first, rest, rfl, List.forall_mem_nil _, hfirst⟩
        · obtain ⟨before, d, after, rfl, hbefore, hd⟩ := forM_eq_error.mp hrest
          exact ⟨first :: before, d, after, rfl, List.forall_mem_cons.mpr ⟨hfirst, hbefore⟩, hd⟩
      · rintro ⟨before, d, after, h, hbefore, hd⟩
        cases before with
        | nil =>
            cases h
            exact Or.inl hd
        | cons b before =>
            cases h
            obtain ⟨hb, hbefore⟩ := List.forall_mem_cons.mp hbefore
            exact Or.inr ⟨(), hb, forM_eq_error.mpr ⟨before, d, after, rfl, hbefore, hd⟩⟩

/-! ## Steps over lists -/

/-- Steps that may give nothing, done for each of a list, give the list of what each gives. -/
theorem mapM_eq_some {α β : Type} {f : α → Option β} :
    {xs : List α} → {ys : List β} → xs.mapM f = some ys ↔ xs.map f = ys.map some
  | [], ys => by
      rw [List.mapM_nil, List.map_nil, eq_comm, eq_comm (a := [])]
      exact ⟨fun h => by cases h; rfl, fun h => by rw [List.map_eq_nil_iff.mp h]; rfl⟩
  | x :: rest, ys => by
      rw [List.mapM_cons, List.map_cons]
      constructor
      · intro h
        obtain ⟨y, hy, h⟩ := Option.bind_eq_some_iff.mp h
        obtain ⟨others, hothers, h⟩ := Option.bind_eq_some_iff.mp h
        cases h
        rw [hy, mapM_eq_some.mp hothers, List.map_cons]
      · intro h
        cases ys with
        | nil => cases h
        | cons y others =>
            obtain ⟨hy, hothers⟩ := List.cons.inj h
            rw [hy, mapM_eq_some.mpr hothers]
            rfl

/-- They give as many as there are in the list. -/
theorem length_of_mapM {α β : Type} {f : α → Option β} {xs : List α} {ys : List β}
    (h : xs.mapM f = some ys) : ys.length = xs.length := by
  have := congrArg List.length (mapM_eq_some.mp h)
  rwa [List.length_map, List.length_map, eq_comm] at this

end RelationalQuery
