/-
  RelationalQuery.Proofs.Value.Reals — reals that are integers.

  The bits of a number stand for a rational number, unless they are those of an infinity or of a
  NaN. A real is an integer of some type if this rational number is; nothing else converts to the
  type, and no conversion gives another number. But a real from 2 ^ 63 on converts to no type, not
  even to the unsigned types that have it.

  Main definitions:
    * `Binary64.value?`: the rational number that the bits stand for.

  Main statements:
    * `Binary64.toInt?_eq_some_iff`: the integer that a real is, is its value.
    * `Value.convert_real_eq_ok_iff`: which reals convert to an integer type, and to what.
    * `twoPow63_refused`: a real in the range of a type that does not convert to it.
-/

import Mathlib.Algebra.Order.Field.Power
import Mathlib.Algebra.Order.Ring.Rat
import Mathlib.Tactic.FieldSimp
import Mathlib.Tactic.NormNum
import Mathlib.Tactic.Positivity
import Mathlib.Tactic.Ring
import RelationalQuery.Proofs.Outcome
import RelationalQuery.Value.Conversion

namespace RelationalQuery

namespace Binary64

/-! ## The value of the bits -/

/-- The size that the exponent bits and the fraction bits stand for: a fraction of 52 bits behind a
leading one, scaled by the exponent less its bias, or for the least exponent the fraction without
the one. -/
def size (x : Binary64) : ℚ :=
  if x.exponentField = 0 then (x.fraction : ℚ) / 2 ^ 52 * 2 ^ (-1022 : ℤ)
  else (1 + (x.fraction : ℚ) / 2 ^ 52) * 2 ^ ((x.exponentField : ℤ) - 1023)

/-- The rational number that the bits stand for. The greatest exponent stands for none. -/
def value? (x : Binary64) : Option ℚ :=
  if x.exponentField = 2047 then none else some (if x.negative then -x.size else x.size)

variable {x : Binary64}

/-- The exponent bits of a number that is not finite are all set. -/
theorem isFinite_iff : x.isFinite = true ↔ x.exponentField ≠ 2047 := by
  have hmagnitude : x.magnitude < 9223372036854775808 := Nat.mod_lt _ (by decide)
  have hfield : x.exponentField = x.magnitude / 4503599627370496 := rfl
  have hinfinite : infiniteMagnitude = 9218868437227405312 := rfl
  rw [isFinite, decide_eq_true_iff, hfield, hinfinite]
  omega

/-- **The size is the significand, scaled by the exponent.** -/
theorem size_eq : x.size = x.significand * 2 ^ x.exponent := by
  have hscale : ∀ e : ℤ, (2 : ℚ) ^ (e - 1075) = 2 ^ (e - 1023) / 2 ^ 52 := by
    intro e
    rw [show e - 1075 = e - 1023 - (52 : ℕ) by push_cast; ring, zpow_sub₀ two_ne_zero,
      zpow_natCast]
  unfold size significand exponent
  split
  · next hzero =>
    rw [hzero, hscale, show ((max 0 1 : ℕ) : ℤ) - 1023 = -1022 by norm_num]
    ring
  · next hzero =>
    rw [Nat.max_eq_left (Nat.one_le_iff_ne_zero.mpr hzero), hscale]
    show _ = ((2 ^ 52 + x.fraction : ℕ) : ℚ) * _
    push_cast
    field_simp
    norm_num

theorem size_nonneg : 0 ≤ x.size := by
  rw [size_eq]
  positivity

/-! ## Integers among the reals -/

/-- **A size is a natural number just when it has an integral magnitude.** -/
theorem integralMagnitude?_eq_some_iff {k : Nat} :
    x.integralMagnitude? = some k ↔ x.size = k := by
  rw [size_eq]
  unfold integralMagnitude?
  split
  · next hexponent =>
    -- The exponent adds factors only.
    obtain ⟨e, he⟩ := Int.eq_ofNat_of_zero_le hexponent
    rw [he, zpow_natCast, Option.some_inj]
    show x.significand * 2 ^ e = k ↔ _
    exact_mod_cast Iff.rfl
  · next hexponent =>
    -- The exponent divides, with or without a remainder.
    obtain ⟨e, he⟩ := Int.eq_ofNat_of_zero_le (by omega : 0 ≤ -x.exponent)
    have hunit : (2 : ℚ) ^ e ≠ 0 := by positivity
    have hwhole : (x.significand : ℚ) * 2 ^ x.exponent = k ↔ x.significand = k * 2 ^ e := by
      rw [show x.exponent = -(e : ℤ) by omega, zpow_neg, zpow_natCast, ← div_eq_mul_inv,
        div_eq_iff hunit]
      exact_mod_cast Iff.rfl
    rw [hwhole, he]
    show (if x.significand % 2 ^ e = 0 then some (x.significand / 2 ^ e) else none) = some k ↔ _
    split
    · next hdvd =>
      rw [Option.some_inj,
        Nat.div_eq_iff_eq_mul_left (by positivity) (Nat.dvd_of_mod_eq_zero hdvd)]
    · next hdvd =>
      refine ⟨nofun, fun h => absurd ?_ hdvd⟩
      rw [h, Nat.mul_mod_left]

/-- A size is an integer just when it is a natural number. -/
theorem size_eq_intCast {n : ℤ} : x.size = n ↔ ∃ k : Nat, x.size = k ∧ (k : ℤ) = n := by
  constructor
  · intro h
    have hnonneg : 0 ≤ n := by exact_mod_cast h ▸ x.size_nonneg
    obtain ⟨k, rfl⟩ := Int.eq_ofNat_of_zero_le hnonneg
    exact ⟨k, h, rfl⟩
  · rintro ⟨k, hk, rfl⟩
    exact_mod_cast hk

/-- The integer that a finite number is, is its integral magnitude with the sign. -/
theorem toInt?_eq_some_of_finite (hfinite : x.isFinite = true) {n : ℤ} : x.toInt? = some n ↔
    ∃ k : Nat, x.size = k ∧ (if x.negative then -(k : ℤ) else k) = n := by
  simp only [← integralMagnitude?_eq_some_iff]
  rw [toInt?, if_pos hfinite]
  cases x.integralMagnitude? with
  | none => exact ⟨nofun, fun ⟨_, h, _⟩ => nomatch h⟩
  | some k =>
      constructor
      · intro h
        exact ⟨k, rfl, Option.some.inj h⟩
      · rintro ⟨k', hk, h⟩
        cases hk
        exact congrArg some h

/-- **The integer that a real is, is its value.** -/
theorem toInt?_eq_some_iff {n : ℤ} : x.toInt? = some n ↔ x.value? = some (n : ℚ) := by
  rw [value?]
  by_cases hfield : x.exponentField = 2047
  · rw [toInt?, if_neg fun h => isFinite_iff.mp h hfield, if_pos hfield]
    exact ⟨nofun, nofun⟩
  · rw [toInt?_eq_some_of_finite (isFinite_iff.mpr hfield), if_neg hfield, Option.some_inj]
    cases x.negative with
    | false => exact size_eq_intCast.symm
    | true =>
        have hnegated : -x.size = (n : ℚ) ↔ x.size = ((-n : ℤ) : ℚ) := by
          rw [neg_eq_iff_eq_neg, Int.cast_neg]
        refine Iff.trans ?_ (hnegated.trans size_eq_intCast).symm
        exact exists_congr fun k => and_congr_right fun _ => neg_eq_iff_eq_neg

end Binary64

/-! ## Conversions -/

namespace IntegerType

variable {t : IntegerType}

/-- Narrowing succeeds in the range, and keeps the number. -/
theorem narrow_eq_ok_iff {n : ℤ} {m : t.Number} : t.narrow n = .ok m ↔ m.val = n := by
  unfold narrow
  constructor
  · intro h
    split at h
    · split at h
      · cases h
        rfl
      · cases h
    · cases h
  · rintro rfl
    rw [dif_pos m.property.1, dif_pos m.property.2]

/-- No type has numbers below the 64-bit integers. -/
theorem le_min : -(2 ^ 63 : ℤ) ≤ t.min := by
  cases t <;> decide

end IntegerType

namespace Value

/-- **A real converts to an integer type just when its value is a number of the type below 2 ^ 63,
and then to this number.** An infinity, a NaN and a fraction convert to none. -/
theorem convert_real_eq_ok_iff (t : IntegerType) (x : Binary64) (m : t.Number) :
    convert t.Number (.real x) = .ok m ↔ x.value? = some (m.val : ℚ) ∧ m.val < 2 ^ 63 := by
  have hconvert : convert t.Number (.real x) = .ok m ↔ integerOfReal t x = .ok m := mapError_eq_ok
  rw [hconvert, integerOfReal, ← Binary64.toInt?_eq_some_iff]
  cases x.toInt? with
  | none => exact ⟨nofun, fun h => nomatch h.1⟩
  | some n =>
      -- A real that is an integer is narrowed as that integer is.
      have hnarrow : (t.narrow n).mapError (fun _ => ConversionError.realOutOfRange x t) = .ok m ↔
          m.val = n :=
        mapError_eq_ok.trans IntegerType.narrow_eq_ok_iff
      -- No type goes below the bound, so only the upper one excludes anything.
      have hlow : -(2 ^ 63 : ℤ) ≤ m.val := t.le_min.trans m.property.1
      rw [Option.some_inj]
      show (if -(2 ^ 63 : ℤ) ≤ n ∧ n < 2 ^ 63 then _ else _) = _ ↔ _
      split
      · next hrange =>
        rw [hnarrow]
        constructor
        · rintro rfl
          exact ⟨rfl, hrange.2⟩
        · exact fun h => h.1.symm
      · next hrange =>
        refine ⟨nofun, fun h => absurd ?_ hrange⟩
        rw [h.1]
        exact ⟨hlow, h.2⟩

end Value

/-- The real 2 ^ 63. -/
def twoPow63 : Binary64 := ⟨0x43e0000000000000⟩

/-- The unsigned 64-bit integers have 2 ^ 63, and the text of it converts to them, but the real
does not. -/
theorem twoPow63_refused :
    twoPow63.value? = some (2 ^ 63) ∧
      (∃ m : IntegerType.u64.Number, m.val = 2 ^ 63 ∧
        Value.convert IntegerType.u64.Number (.text "9223372036854775808") = .ok m) ∧
      Value.convert IntegerType.u64.Number (.real twoPow63) =
        .error (.mapping (.realOutOfRange twoPow63 .u64)) := by
  refine ⟨?_, ⟨⟨2 ^ 63, by decide⟩, rfl, by decide +kernel⟩, by decide +kernel⟩
  exact (Binary64.toInt?_eq_some_iff (n := 2 ^ 63)).mp (by decide +kernel)

end RelationalQuery
