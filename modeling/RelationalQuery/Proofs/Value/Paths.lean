/-
  RelationalQuery.Proofs.Value.Paths — two ways to the same native data.

  An integer converts to a native type directly, by a range check, or through its decimal text,
  which is read digit by digit and checked at each. Both ways give the same number or none. A digit
  takes the number read so far away from zero, so where the whole text fits, every part of it does.

  Main statements:
    * `IntegerType.readDigits_eq_ok_iff`: what digits are read as.
    * `IntegerType.parse_toString`: what decimal text is read as.
    * `Value.convert_paths`: the two ways agree, and what is stored is read back.
-/

import RelationalQuery.Proofs.Text.Lexer
import RelationalQuery.Proofs.Value.Reals

namespace RelationalQuery

/-! ## Digits -/

/-- Reading digits only adds to what was read before them. -/
theorem le_ofDigitChars : (ds : List Char) → (k : ℕ) → k ≤ Nat.ofDigitChars 10 ds k
  | [], k => Nat.le_refl k
  | c :: rest, k => by
      have hrest := le_ofDigitChars rest (10 * k + (c.toNat - '0'.toNat))
      rw [Nat.ofDigitChars_cons]
      omega

namespace IntegerType

variable {t : IntegerType} {sign : ℤ}

/-- What lies between zero and a number of the type is a number of the type. -/
theorem exists_number (hsign : sign = 1 ∨ sign = -1) {m : t.Number} {n : ℕ}
    (hm : m.val = sign * n) {k : ℕ} (hk : k ≤ n) : ∃ read : t.Number, read.val = sign * k := by
  have hzero : t.min ≤ 0 ∧ 0 ≤ t.max := t.zero.property
  have hrange := m.property
  refine ⟨⟨sign * k, ?_⟩, rfl⟩
  rcases hsign with rfl | rfl <;> omega

-- By induction on the digits to come; the number read so far is carried by its distance from zero,
-- which each digit makes no smaller.

/-- **Digits are read as the number that they spell**, if the type has it, in the direction of the
sign. -/
theorem readDigits_eq_ok_iff (hsign : sign = 1 ∨ sign = -1) : (ds : List Char) →
    (∀ c ∈ ds, c.isDigit) → (read : t.Number) → (k : ℕ) → read.val = sign * k → {m : t.Number} →
      (t.readDigits sign read ds = .ok m ↔ m.val = sign * (Nat.ofDigitChars 10 ds k : ℕ))
  | [], _, read, k, hread, m => by
      rw [readDigits, Nat.ofDigitChars_nil, ← hread, Except.ok.injEq, Subtype.ext_iff, eq_comm]
  | c :: rest, hdigits, read, k, hread, m => by
      obtain ⟨hc, hrest⟩ := List.forall_mem_cons.mp hdigits
      have hdigit : digit? c = some (c.toNat - '0'.toNat) := if_pos hc
      rw [readDigits, hdigit, Nat.ofDigitChars_cons]
      generalize c.toNat - '0'.toNat = d
      constructor
      · intro h
        obtain ⟨shifted, hshifted, h⟩ := bind_eq_ok.mp h
        obtain ⟨next, hnext, h⟩ := bind_eq_ok.mp h
        -- Ten times what was read, and the digit on top.
        have hval : next.val = sign * (10 * k + d : ℕ) := by
          rw [narrow_eq_ok_iff.mp hnext, narrow_eq_ok_iff.mp hshifted, hread]
          push_cast
          ring
        exact (readDigits_eq_ok_iff hsign rest hrest next _ hval).mp h
      · intro hm
        -- What is read on the way is no further from zero than the result, so the type has it.
        have hle : 10 * k + d ≤ Nat.ofDigitChars 10 rest (10 * k + d) := le_ofDigitChars rest _
        obtain ⟨shifted, hshifted⟩ := exists_number hsign hm (k := 10 * k) (by omega)
        obtain ⟨next, hnext⟩ := exists_number hsign hm hle
        have hrec := (readDigits_eq_ok_iff hsign rest hrest next _ hnext).mpr hm
        refine bind_eq_ok.mpr ⟨shifted, narrow_eq_ok_iff.mpr ?_, bind_eq_ok.mpr
          ⟨next, narrow_eq_ok_iff.mpr ?_, hrec⟩⟩
        · rw [hshifted, hread]
          push_cast
          ring
        · rw [hnext, hshifted]
          push_cast
          ring

/-! ## Decimal text -/

/-- Text that begins with a digit has no sign. -/
theorem parse_digits {s : String} {c : Char} {rest : List Char} (h : s.toList = c :: rest)
    (hc : c.isDigit) : t.parse s = t.readDigits 1 t.zero (c :: rest) := by
  have hplus : c ≠ '+' := by
    rintro rfl
    exact absurd hc (by decide)
  have hminus : c ≠ '-' := by
    rintro rfl
    exact absurd hc (by decide)
  rw [parse, h]
  split <;> simp_all

/-- A minus sign in front of something is for signed types. -/
theorem parse_minus {s : String} {c : Char} {rest : List Char} (h : s.toList = '-' :: c :: rest) :
    t.parse s =
      if t.signed then t.readDigits (-1) t.zero (c :: rest) else .error .invalidDigit := by
  rw [parse, h]
  rfl

/-- The text of a natural number begins with a digit. -/
theorem exists_toDigits (k : ℕ) : ∃ c rest, Nat.toDigits 10 k = c :: rest ∧
    ∀ d ∈ c :: rest, d.isDigit := by
  obtain ⟨c, rest, h⟩ := List.exists_cons_of_ne_nil (Nat.toDigits_ne_nil (n := k) (b := 10))
  exact ⟨c, rest, h, fun d hd => Nat.isDigit_of_mem_toDigits (by decide) (by decide) (h ▸ hd)⟩

/-- **The decimal text of an integer is read as that integer**, if the type has it. -/
theorem parse_toString (n : ℤ) {m : t.Number} : t.parse (toString n) = .ok m ↔ m.val = n := by
  have hzero : ∀ sign : ℤ, t.zero.val = sign * (0 : ℕ) := fun sign => (mul_zero sign).symm
  cases n with
  | ofNat k =>
      obtain ⟨c, rest, hk, hdigits⟩ := exists_toDigits k
      have htext : (toString (Int.ofNat k)).toList = c :: rest :=
        (Lexer.toList_toString k).trans hk
      -- Without a sign, the digits count up from zero.
      rw [parse_digits htext (hdigits c (List.mem_cons_self ..)),
        readDigits_eq_ok_iff (Or.inl rfl) _ hdigits t.zero 0 (hzero 1), ← hk,
        Nat.ofDigitChars_ten_toDigits, one_mul]
      rfl
  | negSucc k =>
      obtain ⟨c, rest, hk, hdigits⟩ := exists_toDigits (k + 1)
      have htext : (toString (Int.negSucc k)).toList = '-' :: c :: rest := by
        show ("-" ++ toString (k + 1)).toList = _
        rw [String.toList_append, Lexer.toList_toString, hk]
        rfl
      rw [parse_minus htext]
      cases hsigned : t.signed with
      | true =>
          rw [if_pos rfl, readDigits_eq_ok_iff (Or.inr rfl) _ hdigits t.zero 0 (hzero (-1)), ← hk,
            Nat.ofDigitChars_ten_toDigits, Int.negSucc_eq, neg_one_mul]
          push_cast
          rfl
      | false =>
          -- No number of an unsigned type is below zero.
          have hmin : t.min = 0 := by rw [IntegerType.min, hsigned]; rfl
          have hlow := m.property.1
          rw [if_neg Bool.false_ne_true]
          refine iff_of_false nofun fun hm => ?_
          have := Int.negSucc_lt_zero k
          omega

/-- The numbers of a storable type are 64-bit integers. -/
theorem toInt_ofInt_of_storable (h : t.storable = true) (x : t.Number) :
    (Int64.ofInt x.val).toInt = x.val := by
  have hrange : -(2 ^ 63 : ℤ) ≤ t.min ∧ t.max < 2 ^ 63 := by
    revert h
    cases t <;> decide
  have hx := x.property
  exact Int64.toInt_ofInt_of_le (by omega) (by omega)

end IntegerType

/-! ## Bytes -/

/-- The bytes of a text are decoded to the text. -/
theorem Utf8.decode_encode (s : String) : decode (encode s) = .ok s := by
  have hbytes : (⟨(encode s).toArray⟩ : ByteArray) = s.toUTF8 := by
    rw [encode, Array.toArray_toList]
  have hdecoded : String.fromUTF8? s.toUTF8 = some s := dif_pos s.isValidUTF8
  rw [decode, hbytes, hdecoded]

/-! ## Conversions -/

namespace Value

/-- A value that is not NULL converts to an optional type as it does to the type. -/
theorem convert_option {α : Type} [FromStorage α] {v : Value} (hv : v ≠ .null) :
    convert (Option α) v = some <$> convert α v := by
  have hmap : ∀ x : Except ConversionError α,
      (some <$> x).mapError QueryError.mapping = some <$> x.mapError .mapping := by
    intro x
    cases x <;> rfl
  cases v with
  | integer n => exact hmap _
  | real x => exact hmap _
  | text s => exact hmap _
  | blob bytes => exact hmap _
  | null => exact absurd rfl hv

variable {t : IntegerType}

/-- An integer converts to a type that has it. -/
theorem convert_integer_eq_ok_iff {n : Int64} {m : t.Number} :
    convert t.Number (.integer n) = .ok m ↔ m.val = n.toInt :=
  (mapError_eq_ok.trans mapError_eq_ok).trans IntegerType.narrow_eq_ok_iff

/-- Its decimal text converts to the same types. -/
theorem convert_decimal_eq_ok_iff {n : Int64} {m : t.Number} :
    convert t.Number (.text (toString n.toInt)) = .ok m ↔ m.val = n.toInt :=
  (mapError_eq_ok.trans mapError_eq_ok).trans (IntegerType.parse_toString n.toInt)

/-- **Two ways to the same data.** An integer and the text that it converts to convert alike to
every integer type, optional or not: to the same number, or neither converts. What native data is
stored as converts back to it. A text converts to bytes which, as a value of their own, convert to
the text. -/
theorem convert_paths :
    (∀ (t : IntegerType) (n : Int64), ∃ s, convert String (.integer n) = .ok s ∧
      (∀ m, convert t.Number (.text s) = .ok m ↔ convert t.Number (.integer n) = .ok m) ∧
      ∀ m, convert (Option t.Number) (.text s) = .ok m ↔
        convert (Option t.Number) (.integer n) = .ok m) ∧
    (∀ (t : IntegerType) (h : t.storable = true) (x : t.Number),
      convert t.Number (ofNumber x h) = .ok x) ∧
    (∀ b : Bool, convert Bool (toValue b) = .ok b) ∧
    (∀ s : String, convert String (toValue s) = .ok s) ∧
    (∀ bytes : List UInt8, convert (List UInt8) (toValue bytes) = .ok bytes) ∧
    ∀ s : String, ∃ bytes, convert (List UInt8) (.text s) = .ok bytes ∧
      convert String (.blob bytes) = .ok s := by
  refine ⟨?_, ?_, ?_, fun _ => rfl, fun _ => rfl, ?_⟩
  · intro t n
    -- Both convert to a number of the type just when it is this integer.
    have hsame : ∀ m : t.Number, convert t.Number (.text (toString n.toInt)) = .ok m ↔
        convert t.Number (.integer n) = .ok m := fun m =>
      convert_decimal_eq_ok_iff.trans convert_integer_eq_ok_iff.symm
    refine ⟨toString n.toInt, rfl, hsame, fun m => ?_⟩
    rw [convert_option (v := .text _) nofun, convert_option (v := .integer n) nofun, map_eq_ok,
      map_eq_ok]
    exact exists_congr fun x => and_congr_left' (hsame x)
  · intro t h x
    exact convert_integer_eq_ok_iff.mpr (IntegerType.toInt_ofInt_of_storable h x).symm
  · intro b
    cases b <;> rfl
  · intro s
    have hdecoded : convert String (.blob (Utf8.encode s)) = .ok s :=
      mapError_eq_ok.mpr (mapError_eq_ok.mpr (Utf8.decode_encode s))
    exact ⟨Utf8.encode s, rfl, hdecoded⟩

/-- The greatest number of 32 bits. -/
def twoPow32Pred : IntegerType.u32.Number := ⟨2 ^ 32 - 1, by decide⟩

/-- The least 64-bit integer converts to `i64` and not to `i32`, directly and through its text, and
the greatest number of `u32` is read back. -/
theorem convert_paths_extremes :
    (∃ s, convert String (.integer Int64.minValue) = .ok s ∧
      convert IntegerType.i64.Number (.text s) = .ok ⟨-(2 ^ 63), by decide⟩ ∧
      ∀ m, convert IntegerType.i32.Number (.text s) ≠ .ok m) ∧
    convert IntegerType.u32.Number (ofNumber twoPow32Pred (by decide)) = .ok twoPow32Pred := by
  obtain ⟨hpaths, hstored, _⟩ := convert_paths
  obtain ⟨s, hs, hwide, _⟩ := hpaths .i64 Int64.minValue
  obtain ⟨s', hs', hnarrow, _⟩ := hpaths .i32 Int64.minValue
  obtain rfl : s = s' := Except.ok.inj (hs.symm.trans hs')
  have hread := hstored .u32 (by decide) twoPow32Pred
  refine ⟨⟨s, hs, (hwide _).mpr (by decide +kernel), fun m hm => ?_⟩, hread⟩
  have hvalue := convert_integer_eq_ok_iff.mp ((hnarrow m).mp hm)
  have hlow := m.property.1
  rw [hvalue] at hlow
  exact absurd hlow (by decide +kernel)

end Value

end RelationalQuery
