/-
  RelationalQuery.Proofs.Reading.Nesting — what stands between parentheses, or CASE and END.

  The symbols of a text are nested by one walk over them, with the groups that are open on a stack.
  What nests by itself nests alike wherever it stands, and adds its items to the group that is open
  there: so items are composed as texts are.

  Main definitions:
    * `ReadItem`: a symbol, or a group of items.
    * `Nesting.step`: one symbol more.
    * `Symbol.items?`: the items of a row of symbols.
    * `Symbol.Nests`: the row adds its items wherever it stands.

  Main statements:
    * `Symbol.nests_of_items?`: what nests by itself nests everywhere.
    * `Symbol.Nests.append`, `Symbol.Nests.group`: composition.
-/

import RelationalQuery.Proofs.Text.Symbols

namespace RelationalQuery

/-- The keyword, in any case. -/
def Symbol.isKeyword (keyword : String) : Symbol → Bool
  | .word text => Identifier.fold text == keyword
  | _ => false

/-- What stands between parentheses, or between CASE and END. -/
inductive Bracket where
  | paren | case
deriving DecidableEq

/-- A symbol, or a group of items. -/
inductive ReadItem where
  | symbol (s : Symbol)
  | group (bracket : Bracket) (items : List ReadItem)

namespace Nesting

/-- The groups that are open, the innermost first, each with the items in front of it; and the items
of the innermost one so far. -/
structure State where
  outer : List (Bracket × List ReadItem)
  items : List ReadItem

/-- The state with one item more. -/
def State.add (s : State) (item : ReadItem) : State := { s with items := s.items ++ [item] }

/-- The state with one group more. -/
def State.opened (s : State) (bracket : Bracket) : State := ⟨(bracket, s.items) :: s.outer, []⟩

/-- The state without the innermost group, if it is of the kind. -/
def State.close? (s : State) (bracket : Bracket) : Option State :=
  match s.outer with
  | (own, before) :: outer =>
    if own = bracket then some ⟨outer, before ++ [.group bracket s.items]⟩ else none
  | [] => none

/-- One symbol more. END without a CASE is a name. -/
def step (s : State) (symbol : Symbol) : Option State :=
  if symbol = .sign '(' then some (s.opened .paren)
  else if symbol = .sign ')' then s.close? .paren
  else if symbol.isKeyword "case" then some (s.opened .case)
  else if symbol.isKeyword "end" then some ((s.close? .case).getD (s.add (.symbol symbol)))
  else some (s.add (.symbol symbol))

/-! ## Inside other groups -/

/-- The open groups inside those of another state, whose items stand in front. -/
def beneath (frame : State) : List (Bracket × List ReadItem) → List (Bracket × List ReadItem)
  | [] => frame.outer
  | [(bracket, before)] => (bracket, frame.items ++ before) :: frame.outer
  | level :: next :: rest => level :: beneath frame (next :: rest)

/-- The state inside another one. -/
def State.inside (s frame : State) : State :=
  ⟨beneath frame s.outer, if s.outer.isEmpty then frame.items ++ s.items else s.items⟩

/-- No CASE is open. -/
def State.free (s : State) : Bool := !s.outer.head?.any fun level => level.1 == .case

variable {s next frame : State}

/-- An item more inside another state is one more there. -/
theorem inside_add (item : ReadItem) : (s.add item).inside frame = (s.inside frame).add item := by
  obtain ⟨outer, items⟩ := s
  cases outer with
  | nil => simp [State.add, State.inside]
  | cons level rest => rfl

/-- A group opened inside another state is opened there. -/
theorem inside_opened (bracket : Bracket) :
    (s.opened bracket).inside frame = (s.inside frame).opened bracket := by
  obtain ⟨outer, items⟩ := s
  cases outer <;> rfl

/-- A group that is closed inside is closed around. -/
theorem inside_close? {bracket : Bracket} (h : s.close? bracket = some next) :
    (s.inside frame).close? bracket = some (next.inside frame) := by
  obtain ⟨_ | ⟨⟨own, before⟩, rest⟩, items⟩ := s
  · cases h
  · unfold State.close? at h
    split at h
    · rename_i hlevel
      obtain ⟨hhead, rfl⟩ := List.cons.inj hlevel
      obtain ⟨rfl, rfl⟩ := Prod.mk.inj hhead
      split at h
      · rename_i hown
        subst hown
        cases h
        cases rest <;> simp [State.inside, State.close?, beneath]
      · cases h
    · cases h

/-- What is not closed inside is not closed around, unless a CASE is open there. -/
theorem inside_close?_case (hfree : frame.free = true) (h : s.close? .case = none) :
    (s.inside frame).close? .case = none := by
  obtain ⟨_ | ⟨⟨own, before⟩, rest⟩, items⟩ := s
  · obtain ⟨_ | ⟨⟨own, before⟩, rest⟩, others⟩ := frame
    · rfl
    · have hown : own ≠ .case := by simpa [State.free] using hfree
      exact if_neg hown
  · have hown : own ≠ .case := by
      rintro rfl
      cases h
    cases rest <;> exact if_neg hown

/-- **A symbol goes the same way inside other groups.** -/
theorem step_inside (hfree : frame.free = true) {symbol : Symbol}
    (h : step s symbol = some next) : step (s.inside frame) symbol = some (next.inside frame) := by
  -- END is a name where no CASE is open, and none is open around.
  unfold step at h ⊢
  split at h
  · rename_i hopen
    cases h
    rw [if_pos hopen, inside_opened]
  · rename_i hopen
    rw [if_neg hopen]
    split at h
    · rename_i hclose
      rw [if_pos hclose, inside_close? h]
    · rename_i hclose
      rw [if_neg hclose]
      split at h
      · rename_i hcase
        cases h
        rw [if_pos hcase, inside_opened]
      · rename_i hcase
        rw [if_neg hcase]
        split at h
        · rename_i hend
          cases h
          rw [if_pos hend]
          cases hclosed : s.close? .case with
          | some closed => rw [inside_close? hclosed]; rfl
          | none =>
              rw [inside_close?_case hfree hclosed, Option.getD_none, Option.getD_none,
                inside_add]
        · rename_i hend
          cases h
          rw [if_neg hend, inside_add]

/-- **The walk goes on inside other groups as it does by itself**, unless the group around it is a
CASE. -/
theorem steps_inside (hfree : frame.free = true) : (symbols : List Symbol) → ∀ {s last : State},
    symbols.foldlM step s = some last →
      symbols.foldlM step (s.inside frame) = some (last.inside frame)
  | [], s, last, h => by
      cases h
      rfl
  | symbol :: rest, s, last, h => by
      rw [List.foldlM_cons] at h ⊢
      obtain ⟨next, hnext, hrest⟩ := Option.bind_eq_some_iff.mp h
      rw [step_inside hfree hnext]
      exact steps_inside hfree rest hrest

end Nesting

namespace Symbol

open Nesting

/-- **The items of a row of symbols**, if whatever is opened in it is closed and the other way
around. -/
def items? (symbols : List Symbol) : Option (List ReadItem) := do
  let last ← symbols.foldlM step ⟨[], []⟩
  if last.outer.isEmpty then some last.items else none

/-- The symbols add the items to whatever group is open, unless that is a CASE. -/
def Nests (symbols : List Symbol) (items : List ReadItem) : Prop :=
  ∀ s : State, s.free = true → symbols.foldlM step s = some { s with items := s.items ++ items }

variable {a b : List Symbol} {xs ys : List ReadItem}

/-- **What nests by itself nests everywhere.** -/
theorem nests_of_items? (h : items? a = some xs) : Nests a xs := by
  intro frame hfree
  obtain ⟨⟨outer, items⟩, hlast, h⟩ := Option.bind_eq_some_iff.mp h
  split at h
  · rename_i hempty
    cases h
    obtain rfl := List.isEmpty_iff.mp hempty
    -- The walk from the beginning is repeated inside the frame.
    have hinside := steps_inside hfree a hlast
    have hstart : State.inside ⟨[], []⟩ frame = frame := by
      unfold State.inside
      rw [List.isEmpty_nil, if_pos rfl, List.append_nil]
      rfl
    rw [hstart] at hinside
    exact hinside
  · cases h

/-- What nests has the items that it adds. -/
theorem Nests.items?_eq (h : Nests a xs) : items? a = some xs := by
  rw [items?, h ⟨[], []⟩ rfl]
  rfl

/-- No symbols add no items. -/
theorem nests_nil : Nests [] [] := by
  intro s _
  rw [List.append_nil]
  rfl

/-- **Symbols in a row have their items in a row.** -/
theorem Nests.append (ha : Nests a xs) (hb : Nests b ys) : Nests (a ++ b) (xs ++ ys) := by
  intro s hs
  rw [List.foldlM_append, ha s hs]
  refine (hb { s with items := s.items ++ xs } hs).trans ?_
  rw [List.append_assoc]

/-- **Symbols between parentheses are one item.** -/
theorem Nests.group (h : Nests a xs) :
    Nests (.sign '(' :: (a ++ [.sign ')'])) [.group .paren xs] := by
  intro s _
  show (a ++ [Symbol.sign ')']).foldlM step (s.opened .paren) = _
  rw [List.foldlM_append, h (s.opened .paren) rfl]
  rfl

/-- **Symbols in front of the last parenthesis** are added to the last group. -/
theorem items?_insert {tail : List Symbol} {more : List ReadItem}
    (h : items? (a ++ [.sign ')']) = some xs) (htail : Nests tail more) :
    ∃ before inside, xs = before ++ [.group .paren inside] ∧
      items? (a ++ tail ++ [.sign ')']) = some (before ++ [.group .paren (inside ++ more)]) := by
  obtain ⟨last, hlast, h⟩ := Option.bind_eq_some_iff.mp h
  rw [List.foldlM_append] at hlast
  obtain ⟨⟨outer, inside⟩, hinside, hclose⟩ := Option.bind_eq_some_iff.mp hlast
  obtain ⟨closed, hclosed, hlast⟩ := Option.bind_eq_some_iff.mp hclose
  obtain rfl : closed = last := Option.some.inj hlast
  -- The parenthesis closes a group that is open, and that is the only one.
  match outer, hclosed with
  | [], hclosed => cases hclosed
  | (.case, before) :: outer, hclosed => cases hclosed
  | (.paren, before) :: outer, hclosed =>
      have hclosed : some (⟨outer, before ++ [.group .paren inside]⟩ : State) = some closed :=
        hclosed
      obtain rfl := Option.some.inj hclosed
      cases outer with
      | cons level rest => cases h
      | nil =>
          refine ⟨before, inside, (Option.some.inj h).symm, ?_⟩
          rw [items?, List.foldlM_append, List.foldlM_append, hinside]
          show (tail.foldlM step ⟨[(.paren, before)], inside⟩ >>= _) >>= _ = _
          rw [htail ⟨[(.paren, before)], inside⟩ rfl]
          rfl

/-- A symbol that neither opens nor closes anything. -/
def plain (s : Symbol) : Bool :=
  s ≠ .sign '(' && s ≠ .sign ')' && !s.isKeyword "case" && !s.isKeyword "end"

/-- A plain symbol adds itself. -/
theorem nests_of_plain {symbol : Symbol} (h : symbol.plain = true) :
    Nests [symbol] [.symbol symbol] := by
  intro s _
  simp only [plain, Bool.and_eq_true, decide_eq_true_eq, Bool.not_eq_true'] at h
  obtain ⟨⟨⟨hopen, hclose⟩, hcase⟩, hend⟩ := h
  show (step s symbol).bind _ = _
  rw [step, if_neg hopen, if_neg hclose, hcase, hend, if_neg Bool.false_ne_true,
    if_neg Bool.false_ne_true]
  rfl

/-- Plain symbols add themselves, one by one. -/
theorem nests_of_all_plain {symbols : List Symbol} (h : ∀ s ∈ symbols, s.plain = true) :
    Nests symbols (symbols.map .symbol) := by
  induction symbols with
  | nil => exact nests_nil
  | cons s rest ih =>
      obtain ⟨hs, hrest⟩ := List.forall_mem_cons.mp h
      exact (nests_of_plain hs).append (ih hrest)

end Symbol

end RelationalQuery
