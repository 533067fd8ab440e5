/-
  RelationalQuery.Proofs.Text.Lexer — how SQL text falls into lexemes.

  The lexer reads a text character by character. It holds the lexeme at hand, which takes in the
  next character as long as it can; when it cannot, the lexeme is complete and the character
  begins the next one. So every lexeme is as long as possible, and two lexemes that nothing keeps
  apart may fuse into one, or into the beginning of a comment.

  Main definitions:
    * `Lexeme`: the lexemes; quoted identifiers are decoded.
    * `Lexer.Held`: the lexeme at hand, with the step `Lexer.Held.absorb`.
    * `Lexer.lex`: the lexemes of a text.
    * `Lexeme.Spells`: the text is just one lexeme.

  Main statements:
    * `Lexeme.Spells.lexFrom_blank`, `Lexeme.Spells.lexFrom_append`: a lexeme is complete when a
      blank follows it or what follows does not fuse with it.
-/

import RelationalQuery.Identifier

namespace RelationalQuery

/-! ## Lexemes -/

/-- A lexeme of SQL. -/
inductive Lexeme where
  /-- A quoted identifier, decoded: without its quotes, and with one quote for each doubled one. -/
  | quoted (name : String)
  /-- A keyword or a bare name. -/
  | word (text : String)
  | number (text : String)
  /-- A question mark, with the digits right behind it. -/
  | placeholder (digits : String)
  /-- An operator or a punctuation mark. -/
  | mark (text : String)
  | comment
deriving DecidableEq

namespace Lexer

/-! ## Characters -/

def isBlank (c : Char) : Bool := c == ' ' || c == '\t' || c == '\n' || c == '\r'

/-- Letters, the underscore and everything beyond ASCII. -/
def startsWord (c : Char) : Bool := c.isAlpha || c == '_' || decide (128 ≤ c.toNat)

def continuesWord (c : Char) : Bool := startsWord c || c.isDigit || c == '$'

/-- The operators and the punctuation marks. -/
def marks : List String :=
  ["(", ")", ",", ".", ";", "=", "==", "!=", "<", "<=", "<>", "<<", ">", ">=", ">>", "+", "-",
    "->", "->>", "*", "/", "%", "&", "|", "||", "~"]

/-- The characters begin a mark. -/
def beginsMark (text : List Char) : Bool := marks.any fun mark => text.isPrefixOf mark.toList

/-! ## The lexeme at hand -/

/-- What has been read of the lexeme at hand. -/
inductive Held where
  | nothing
  /-- Inside quotes. -/
  | quoted (name : List Char)
  /-- Behind a quote that either closes the identifier or is the first of a doubled one. -/
  | closed (name : List Char)
  | word (text : List Char)
  | number (text : List Char)
  | placeholder (digits : List Char)
  | mark (text : List Char)
  | lineComment
  /-- Inside a comment between slashes, behind a star or not. -/
  | blockComment (star : Bool)
  | comment
deriving DecidableEq

/-- The lexeme at hand with one more character, unless it ends in front of it. -/
def Held.absorb : Held → Char → Option Held
  | .nothing, _ => none
  | .quoted name, c => some (if c = '"' then .closed name else .quoted (name ++ [c]))
  | .closed name, c => if c = '"' then some (.quoted (name ++ [c])) else none
  | .word text, c => if continuesWord c then some (.word (text ++ [c])) else none
  | .number text, c =>
    if continuesWord c || c == '.' then some (.number (text ++ [c])) else none
  | .placeholder digits, c =>
    if c.isDigit then some (.placeholder (digits ++ [c])) else none
  | .mark text, c =>
    if text = ['-'] ∧ c = '-' then some .lineComment
    else if text = ['/'] ∧ c = '*' then some (.blockComment false)
    else if text = ['.'] ∧ c.isDigit then some (.number (text ++ [c]))
    else if beginsMark (text ++ [c]) then some (.mark (text ++ [c]))
    else none
  | .lineComment, c => if c = '\n' then none else some .lineComment
  | .blockComment star, c =>
    some (if star && c == '/' then .comment else .blockComment (c == '*'))
  | .comment, _ => none

/-- The lexeme at hand when it ends here, if it can. -/
def Held.complete : Held → Option (List Lexeme)
  | .nothing => some []
  | .closed name => some [.quoted (String.ofList name)]
  | .word text => some [.word (String.ofList text)]
  | .number text => some [.number (String.ofList text)]
  | .placeholder digits => some [.placeholder (String.ofList digits)]
  | .mark text =>
    if String.ofList text ∈ marks then some [.mark (String.ofList text)] else none
  | .lineComment | .comment => some [.comment]
  | .quoted _ | .blockComment _ => none

/-- What a character begins. -/
def begin? (c : Char) : Option Held :=
  if isBlank c then some .nothing
  else if c = '"' then some (.quoted [])
  else if startsWord c then some (.word [c])
  else if c.isDigit then some (.number [c])
  else if c = '?' then some (.placeholder [])
  else if beginsMark [c] then some (.mark [c])
  else none

/-! ## Texts -/

/-- The lexemes of a text behind the lexeme at hand. -/
def lexFrom (held : Held) : List Char → Option (List Lexeme)
  | [] => held.complete
  | c :: rest =>
    match held.absorb c with
    | some longer => lexFrom longer rest
    | none => do
      let done ← held.complete
      let others ← lexFrom (← begin? c) rest
      return done ++ others

/-- The lexemes of a text. There are none when a character begins no lexeme or when the text ends
inside quotes or inside a comment. -/
def lex (text : String) : Option (List Lexeme) := lexFrom .nothing text.toList

/-- The lexeme at hand with more characters, all of which it takes in. -/
def absorbAll (held : Held) (text : List Char) : Option Held := text.foldlM Held.absorb held

theorem absorbAll_cons (held : Held) (c : Char) (rest : List Char) :
    absorbAll held (c :: rest) = (held.absorb c).bind (absorbAll · rest) := rfl

/-- Characters are absorbed one after the other. -/
theorem absorbAll_append (held : Held) (a b : List Char) :
    absorbAll held (a ++ b) = (absorbAll held a).bind (absorbAll · b) := List.foldlM_append ..

/-- What is taken in is passed over. -/
theorem lexFrom_append {held longer : Held} {text : List Char}
    (h : absorbAll held text = some longer) (rest : List Char) :
    lexFrom held (text ++ rest) = lexFrom longer rest := by
  induction text generalizing held with
  | nil => rw [Option.some.inj h, List.nil_append]
  | cons c text ih =>
      obtain ⟨next, hnext, hrest⟩ := Option.bind_eq_some_iff.mp h
      rw [List.cons_append, lexFrom, hnext]
      exact ih hrest

/-- A character that is not taken in begins the next lexeme. -/
theorem lexFrom_break {held next : Held} {done : List Lexeme} {c : Char}
    (habsorb : held.absorb c = none) (hdone : held.complete = some done)
    (hnext : begin? c = some next) (rest : List Char) :
    lexFrom held (c :: rest) = (done ++ ·) <$> lexFrom next rest := by
  simp only [lexFrom, habsorb, hdone, hnext, Option.bind_eq_bind, Option.bind_some]
  cases lexFrom next rest <;> rfl

/-- What is held behind a text that begins a lexeme and is taken in as a whole. -/
def read? (text : String) : Option Held :=
  match text.toList with
  | [] => none
  | c :: rest => (begin? c).bind (absorbAll · rest)

end Lexer

/-! ## Texts of one lexeme -/

namespace Lexeme

open Lexer

/-- What is held when the lexeme has been read. -/
def held : Lexeme → Held
  | .quoted name => .closed name.toList
  | .word text => .word text.toList
  | .number text => .number text.toList
  | .placeholder digits => .placeholder digits.toList
  | .mark text => .mark text.toList
  | .comment => .comment

/-- The text is read as this lexeme from its first character to its last one, and a blank ends
it. -/
structure Spells (text : String) (l : Lexeme) : Prop where
  reads : read? text = some l.held
  complete : l.held.complete = some [l]
  ends : l.held.absorb ' ' = none

instance (text : String) (l : Lexeme) : Decidable (Spells text l) :=
  decidable_of_iff (read? text = some l.held ∧ l.held.complete = some [l] ∧
    l.held.absorb ' ' = none) ⟨fun h => ⟨h.1, h.2.1, h.2.2⟩, fun h => ⟨h.1, h.2, h.3⟩⟩

/-- The lexeme of a text begins where the one before is complete. -/
theorem Spells.lexFrom_append {text : String} {l : Lexeme} (h : Spells text l) {held : Held}
    {done : List Lexeme} (hdone : held.complete = some done)
    (hapart : ∀ c, text.toList.head? = some c → held.absorb c = none) (rest : List Char) :
    lexFrom held (text.toList ++ rest) = (done ++ ·) <$> lexFrom l.held rest := by
  have hreads := h.reads
  rw [read?] at hreads
  cases htext : text.toList with
  | nil =>
      rw [htext] at hreads
      cases hreads
  | cons c others =>
      rw [htext] at hreads hapart
      -- The first character begins a lexeme of its own, since what is held does not take it in.
      obtain ⟨first, hfirst, hothers⟩ := Option.bind_eq_some_iff.mp hreads
      rw [List.cons_append, lexFrom_break (hapart c rfl) hdone hfirst,
        Lexer.lexFrom_append hothers]

/-- A blank ends a lexeme. -/
theorem Spells.lexFrom_blank {text : String} {l : Lexeme} (h : Spells text l) (rest : List Char) :
    lexFrom l.held (' ' :: rest) = ([l] ++ ·) <$> lexFrom .nothing rest :=
  lexFrom_break h.ends h.complete rfl rest

/-- A word is a letter or the like, followed by letters, digits and the like. -/
def IsWord (text : String) : Prop :=
  ∃ c rest, text.toList = c :: rest ∧ startsWord c ∧ ∀ x ∈ rest, continuesWord x

/-- The lexeme of a text that is written as it stands. -/
def ofText (text : String) : Lexeme :=
  match text.toList with
  | [] => .mark text
  | c :: _ => if startsWord c then .word text else if c.isDigit then .number text else .mark text

end Lexeme

namespace Lexer

open Lexeme

/-- A character with a property that no blank has is no blank. -/
theorem isBlank_eq_false {c : Char} {property : Char → Bool} (h : property c)
    (hblanks : [' ', '\t', '\n', '\r'].any property = false) : isBlank c = false := by
  rw [← Bool.not_eq_true]
  intro hblank
  have hmem : c ∈ [' ', '\t', '\n', '\r'] := by simpa [isBlank, or_assoc] using hblank
  exact List.any_eq_false.mp hblanks c hmem h

theorem begin?_of_startsWord {c : Char} (h : startsWord c) : begin? c = some (.word [c]) := by
  have hquote : c ≠ '"' := by
    rintro rfl
    exact absurd h (by decide)
  rw [begin?, isBlank_eq_false h (by decide), if_neg Bool.false_ne_true, if_neg hquote, if_pos h]

/-- A digit is no letter. -/
theorem startsWord_of_isDigit {c : Char} (h : c.isDigit) : startsWord c = false := by
  -- The digits, the letters and the underscore are apart as code points.
  have hrange : 48 ≤ c.toNat ∧ c.toNat ≤ 57 := by
    simpa [Char.isDigit, UInt32.le_iff_toNat_le] using h
  have hunderscore : c ≠ '_' := by
    rintro rfl
    exact absurd h (by decide)
  have halpha : c.isAlpha = false := by
    have hupper : c.isUpper = false := by
      have h : 65 ≤ c.toNat → 90 < c.toNat := by omega
      show decide (c.val ≥ 65 ∧ c.val ≤ 90) = false
      simpa [UInt32.le_iff_toNat_le] using h
    have hlower : c.isLower = false := by
      have h : 97 ≤ c.toNat → 122 < c.toNat := by omega
      show (decide (c.val ≥ 97) && decide (c.val ≤ 122)) = false
      simpa [UInt32.le_iff_toNat_le] using h
    show (c.isUpper || c.isLower) = false
    rw [hupper, hlower, Bool.or_false]
  simp only [startsWord, halpha, beq_eq_false_iff_ne.mpr hunderscore, Bool.false_or,
    decide_eq_false_iff_not]
  omega

theorem toList_toString (n : Nat) : (toString n).toList = Nat.toDigits 10 n := by
  rw [Nat.toString_eq_ofList_toDigits, String.toList_ofList]

theorem isDigit_of_mem_toString {n : Nat} {c : Char} (h : c ∈ (toString n).toList) : c.isDigit :=
  Nat.isDigit_of_mem_toDigits (by decide) (by decide) (toList_toString n ▸ h)

theorem begin?_of_isDigit {c : Char} (h : c.isDigit) : begin? c = some (.number [c]) := by
  have hquote : c ≠ '"' := by
    rintro rfl
    exact absurd h (by decide)
  rw [begin?, isBlank_eq_false h (by decide), if_neg Bool.false_ne_true, if_neg hquote,
    startsWord_of_isDigit h, if_neg Bool.false_ne_true, if_pos h]

/-- A word goes on as long as its characters do. -/
theorem absorbAll_word {text rest : List Char} (h : ∀ x ∈ rest, continuesWord x) :
    absorbAll (.word text) rest = some (.word (text ++ rest)) := by
  induction rest generalizing text with
  | nil => rw [List.append_nil]; rfl
  | cons c rest ih =>
      rw [List.forall_mem_cons] at h
      rw [absorbAll_cons, Held.absorb, if_pos h.1]
      exact (ih h.2).trans (by rw [List.append_assoc]; rfl)

/-- A number goes on as long as there are digits. -/
theorem absorbAll_number {text rest : List Char} (h : ∀ x ∈ rest, x.isDigit) :
    absorbAll (.number text) rest = some (.number (text ++ rest)) := by
  induction rest generalizing text with
  | nil => rw [List.append_nil]; rfl
  | cons c rest ih =>
      rw [List.forall_mem_cons] at h
      have hc : (continuesWord c || c == '.') = true := by simp [continuesWord, h.1]
      rw [absorbAll_cons, Held.absorb, if_pos hc]
      exact (ih h.2).trans (by rw [List.append_assoc]; rfl)

/-- Inside quotes, what is written for a name is read as the name. -/
theorem absorbAll_escape (name : List Char) : ∀ text : List Char,
    absorbAll (.quoted text) (Identifier.escape name) = some (.quoted (text ++ name)) := by
  induction name with
  | nil =>
      intro text
      rw [List.append_nil]
      rfl
  | cons c rest ih =>
      intro text
      have happend : text ++ c :: rest = text ++ [c] ++ rest := by rw [List.append_assoc]; rfl
      rw [Identifier.escape, happend]
      by_cases hc : c = '"'
      · -- The first of the two quotes might have closed the identifier; the second one goes on.
        subst hc
        rw [if_pos rfl]
        exact ih (text ++ ['"'])
      · rw [if_neg hc, absorbAll_cons, Held.absorb, if_neg hc]
        exact ih (text ++ [c])

end Lexer

/-! ## Spellings -/

theorem Identifier.toList_quoted (name : String) : (Identifier.quoted name).toList =
    '"' :: (Identifier.escape name.toList ++ ['"']) := by
  simp [Identifier.quoted, String.toList_append]

namespace Lexeme

open Lexer

/-- **A quoted identifier is read as the name**, whatever characters the name has. -/
theorem spells_quoted (name : String) : Spells (Identifier.quoted name) (.quoted name) where
  reads := by
    rw [read?, Identifier.toList_quoted]
    show absorbAll (.quoted []) _ = _
    rw [absorbAll_append, absorbAll_escape]
    rfl
  complete := congrArg (some [Lexeme.quoted ·]) String.ofList_toList
  ends := rfl

/-- Text that is written as it stands is no identifier, no placeholder and no comment. -/
theorem ofText_cases (text : String) :
    ofText text = .word text ∨ ofText text = .number text ∨ ofText text = .mark text := by
  unfold ofText
  split
  · exact .inr (.inr rfl)
  · split
    · exact .inl rfl
    · split
      · exact .inr (.inl rfl)
      · exact .inr (.inr rfl)

/-- A text that is a word is lexed as the word. -/
theorem ofText_of_isWord {text : String} (h : IsWord text) : ofText text = .word text := by
  obtain ⟨c, rest, htext, hc, _⟩ := h
  rw [ofText, htext]
  exact if_pos hc

theorem spells_word {text : String} (h : IsWord text) : Spells text (.word text) where
  reads := by
    obtain ⟨c, rest, htext, hc, hrest⟩ := h
    rw [read?, htext]
    show (begin? c).bind _ = some (Held.word text.toList)
    rw [begin?_of_startsWord hc, htext]
    exact absorbAll_word hrest
  complete := congrArg (some [Lexeme.word ·]) String.ofList_toList
  ends := rfl

theorem spells_number (n : Nat) : Spells (toString n) (.number (toString n)) where
  reads := by
    have hdigits : ∀ c ∈ (toString n).toList, c.isDigit := fun c => isDigit_of_mem_toString
    rw [read?]
    cases h : (toString n).toList with
    | nil => exact absurd ((toList_toString n).symm.trans h) Nat.toDigits_ne_nil
    | cons c rest =>
        rw [h, List.forall_mem_cons] at hdigits
        show (begin? c).bind _ = some (Held.number (toString n).toList)
        rw [begin?_of_isDigit hdigits.1, h]
        exact absorbAll_number hdigits.2
  complete := congrArg (some [Lexeme.number ·]) String.ofList_toList
  ends := rfl

theorem spells_placeholder : Spells "?" (.placeholder "") := ⟨rfl, rfl, rfl⟩

end Lexeme

end RelationalQuery
