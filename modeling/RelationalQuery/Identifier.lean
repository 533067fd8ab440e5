/-
  RelationalQuery.Identifier — SQL identifiers: table names, column names and aliases.

  Identifiers are compared without regard to ASCII case, and are written between double
  quotes, an embedded quote doubled.

  Main definitions:
    * `fold`, `Same`: the comparison.
    * `quoted`: the written form.
-/

namespace RelationalQuery.Identifier

/-! ## Comparison -/

/-- The identifier with its ASCII letters in lower case; every other character is kept. -/
def fold (name : String) : String :=
  String.ofList (name.toList.map Char.toLower)

/-- Two identifiers name the same thing: they differ in ASCII case at most. -/
def Same (a b : String) : Prop := fold a = fold b

instance (a b : String) : Decidable (Same a b) := inferInstanceAs (Decidable (fold a = fold b))

theorem Same.refl (a : String) : Same a a := rfl

theorem Same.symm {a b : String} (h : Same a b) : Same b a := Eq.symm h

/-- Spellings that differ in case at most are one class. -/
theorem Same.trans {a b c : String} (h : Same a b) (k : Same b c) : Same a c := Eq.trans h k

/-! ## Written form -/

/-- The characters of a quoted identifier between its outer quotes. -/
def escape : List Char → List Char
  | [] => []
  | c :: rest => if c = '"' then '"' :: '"' :: escape rest else c :: escape rest

/-- The identifier between double quotes, with each quote inside it written twice. -/
def quoted (name : String) : String :=
  "\"" ++ String.ofList (escape name.toList) ++ "\""

end RelationalQuery.Identifier
