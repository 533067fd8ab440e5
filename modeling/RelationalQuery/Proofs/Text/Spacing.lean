/-
  RelationalQuery.Proofs.Text.Spacing — the blanks keep the chunks of a text apart.

  A blank is written between two chunks unless they are known not to need one. What is known is
  right but for three neighbourhoods that statements do not have: a number in front of a dot, a
  dot in front of a digit, and a minus sign in front of an operator that begins with `>`. In
  every other text each chunk is one lexeme.

  Main definitions:
    * `Chunk.lexeme`: the lexeme that a chunk stands for.
    * `Chunk.Plain`: chunks that are one lexeme by themselves.
    * `Chunk.Meets`: neighbours without such a neighbourhood.

  Main statements:
    * `Chunk.absorb_eq_none`: neighbours without a blank between them do not fuse.
    * `Fragment.lex_text`: the lexemes of a text are those of its chunks.
-/

import Mathlib.Data.List.Chain
import RelationalQuery.Fragment.Basic
import RelationalQuery.Proofs.Text.Lexer

namespace RelationalQuery

open Lexeme Lexer

/-! ## Chunks that are lexemes -/

/-- Operators in front of an operand that are one lexeme. -/
def prefixOperators : List String := ["-", "+", "~"]

/-- The operators between two operands that expressions are built with. -/
def infixOperators : List String :=
  ["<", "<=", ">", ">=", "+", "-", "*", "/", "||", "LIKE", "GLOB"]

/-- The lexeme at hand ends in front of a parenthesis and of a comma. -/
def Lexer.Held.Stops (held : Held) : Prop :=
  held.absorb '(' = none ∧ held.absorb ')' = none ∧ held.absorb ',' = none

instance (held : Held) : Decidable held.Stops := inferInstanceAs (Decidable (_ ∧ _ ∧ _))

namespace Chunk

/-- The lexeme that a chunk stands for. -/
def lexeme : Chunk → Lexeme
  | .ident name => .quoted name
  | .number n => .number (toString n)
  | .param _ => .placeholder ""
  | .token t => .ofText t.text
  | .raw s | .function s | .prefixOp s | .literal s _ => .ofText s

/-- A chunk stands for a comment never, and for a placeholder when it is one. -/
theorem lexeme_cases (c : Chunk) : c.lexeme ≠ .comment ∧
    (c.lexeme = .placeholder "" ↔ ∃ v, c = .param v) := by
  have hverbatim : ∀ {text : String}, ofText text ≠ .comment ∧ ofText text ≠ .placeholder "" := by
    intro text
    rcases ofText_cases text with h | h | h <;> rw [h] <;> exact ⟨nofun, nofun⟩
  cases c with
  | ident | number => exact ⟨nofun, nofun, nofun⟩
  | param v => exact ⟨nofun, fun _ => ⟨v, rfl⟩, fun _ => rfl⟩
  | token | raw | function | prefixOp | literal =>
      exact ⟨hverbatim.1, fun h => absurd h hverbatim.2, nofun⟩

/-- Chunks that are one lexeme by themselves. What a caller wrote need not be. -/
inductive Plain : Chunk → Prop
  | token (t : Token) : Plain (.token t)
  | ident (name : String) : Plain (.ident name)
  | number (n : Nat) : Plain (.number n)
  | param (v : Value) : Plain (.param v)
  | word {s : String} (h : IsWord s) : Plain (.raw s)
  | constant {s : String} (h : s ∈ ["0", "1"]) : Plain (.raw s)
  | infixOp {s : String} (h : s ∈ infixOperators) : Plain (.raw s)
  | function {s : String} (h : IsWord s) : Plain (.function s)
  | prefixOp {s : String} (h : s ∈ prefixOperators) : Plain (.prefixOp s)

variable {c d : Chunk}

/-- **A plain chunk is written as its lexeme.** -/
theorem Plain.spells (h : c.Plain) : Spells c.text c.lexeme := by
  cases h with
  | token t => cases t <;> exact ⟨by decide, by decide, by decide⟩
  | ident name => exact spells_quoted name
  | number n => exact spells_number n
  | param v => exact spells_placeholder
  | word h | function h =>
      rw [lexeme, ofText_of_isWord h]
      exact spells_word h
  | constant h =>
      have hall : ∀ s ∈ ["0", "1"], Spells s (.ofText s) := by decide
      exact hall _ h
  | infixOp h =>
      have hall : ∀ s ∈ infixOperators, Spells s (.ofText s) := by decide
      exact hall _ h
  | prefixOp h =>
      have hall : ∀ s ∈ prefixOperators, Spells s (.ofText s) := by decide
      exact hall _ h

/-! ## Neighbours -/

/-- The first character that is written. -/
def initial? (c : Chunk) : Option Char := c.text.toList.head?

/-- Neighbours that may stand without a blank, as far as it is up to what they are: a dot stands
behind an identifier and not in front of a digit, and a prefix operator not in front of `>`. -/
structure Meets (c d : Chunk) : Prop where
  dotted : d = .token .dot → ∃ name, c = .ident name
  dot : c = .token .dot → ∀ x ∈ d.initial?, x.isDigit = false
  prefixed : ∀ op, c = .prefixOp op → d.initial? ≠ some '>'

theorem not_blank_of_isWord {s : String} (h : IsWord s) : ' ' ∉ s.toList := by
  obtain ⟨c, rest, htext, hc, hrest⟩ := h
  rw [htext]
  intro hblank
  rcases List.mem_cons.mp hblank with rfl | hblank
  · exact absurd hc (by decide)
  · exact absurd (hrest ' ' hblank) (by decide)

/-- Text without a blank neither begins nor ends with one. -/
theorem raw_not_blank {s : String} (h : ' ' ∉ s.toList) :
    (Chunk.raw s).endsBlank = false ∧ (Chunk.raw s).startsBlank = false := by
  refine ⟨beq_eq_false_iff_ne.mpr fun hlast => ?_, beq_eq_false_iff_ne.mpr fun hfirst => ?_⟩
  · exact h (List.mem_of_getLast? hlast)
  · exact h (List.mem_of_head? hfirst)

/-- A plain chunk neither begins nor ends with a blank. -/
theorem Plain.not_blank (h : c.Plain) : c.endsBlank = false ∧ c.startsBlank = false := by
  cases h with
  | token | ident | number | param | function | prefixOp => exact ⟨rfl, rfl⟩
  | word h => exact raw_not_blank (not_blank_of_isWord h)
  | constant h =>
      have hall : ∀ s ∈ ["0", "1"], ' ' ∉ s.toList := by decide
      exact raw_not_blank (hall _ h)
  | infixOp h =>
      have hall : ∀ s ∈ infixOperators, ' ' ∉ s.toList := by decide
      exact raw_not_blank (hall _ h)

/-- Plain chunks bring no blanks of their own, so between them only their kinds decide. -/
theorem Plain.spaced_eq (hc : c.Plain) (hd : d.Plain) : c.spaced d = parted c d := by
  rw [spaced, hc.not_blank.1, hd.not_blank.2, Bool.not_false, Bool.true_and, Bool.true_and]

/-- The punctuation that nothing is parted from. -/
def brackets : List Token := [.closeParen, .comma, .dot, .openParen]

/-- A chunk is a word, a sign of comparison or a bracket. -/
theorem isWord_or_mark (d : Chunk) : d.isWord ∨ d = .token .equal ∨ d = .token .notEqual ∨
    ∃ t ∈ brackets, d = .token t := by
  cases d with
  | token t => cases t <;> simp [isWord, Token.isWord, brackets]
  | _ => exact .inl rfl

/-- Words and the equals sign are parted from all but punctuation. -/
theorem exists_bracket_of_parted (hword : c.isWord ∨ c = .token .equal)
    (hop : ∀ op, c ≠ .prefixOp op) (h : parted c d = false) : ∃ t ∈ brackets, d = .token t := by
  unfold parted at h
  split at h
  case h_15 hequal _ _ _ _ _ hequal' hdiffer _ =>
    rcases isWord_or_mark d with hd | hd | hd | hd
    · rcases hword with hword | hword
      · rw [hword, hd] at h
        cases h
      · exact absurd hword hequal
    · exact absurd hd hequal'
    · exact absurd hd hdiffer
    · exact hd
  all_goals simp_all [brackets, isWord, Token.isWord]

/-- A prefix operator is parted from minus signs if it ends in one itself. -/
theorem exists_bracket_of_prefix {op : String} (h : parted (.prefixOp op) d = false) :
    (∃ t ∈ brackets, d = .token t) ∨ (endsMinus op && d.startsMinus) = false := by
  unfold parted at h
  split at h <;> simp_all [brackets]

/-- Whatever plain chunk is at hand, it ends in front of a parenthesis and of a comma. -/
theorem Plain.stops (h : c.Plain) : c.lexeme.held.Stops := by
  cases h with
  | token t => cases t <;> decide
  | ident | number | param => exact ⟨rfl, rfl, rfl⟩
  | word h | function h =>
      rw [lexeme, ofText_of_isWord h]
      exact ⟨rfl, rfl, rfl⟩
  | constant h =>
      have hall : ∀ s ∈ ["0", "1"], (ofText s).held.Stops := by decide
      exact hall _ h
  | infixOp h =>
      have hall : ∀ s ∈ infixOperators, (ofText s).held.Stops := by decide
      exact hall _ h
  | prefixOp h =>
      have hall : ∀ s ∈ prefixOperators, (ofText s).held.Stops := by decide
      exact hall _ h

/-- A plain chunk that is written with a minus sign first is known to be. -/
theorem Plain.startsMinus (h : d.Plain) (hminus : '-' ∈ d.initial?) : d.startsMinus = true := by
  cases h with
  | token t => cases t <;> exact absurd hminus (by decide)
  | ident name =>
      rw [initial?, text, Identifier.toList_quoted] at hminus
      exact absurd (Option.some.inj hminus) (by decide)
  | param v => simp [initial?, text] at hminus
  | number n => exact absurd (isDigit_of_mem_toString (List.mem_of_head? hminus)) (by decide)
  | word | constant | infixOp | prefixOp => exact beq_iff_eq.mpr hminus
  | function h =>
      obtain ⟨c, rest, htext, hc, _⟩ := h
      obtain rfl : c = '-' := by simpa [initial?, text, htext] using hminus
      exact absurd hc (by decide)

/-- **Neighbours without a blank between them do not fuse.** -/
theorem absorb_eq_none (hc : c.Plain) (hd : d.Plain) (hmeets : c.Meets d)
    (h : c.spaced d = false) : ∀ x ∈ d.initial?, c.lexeme.held.absorb x = none := by
  rw [hc.spaced_eq hd] at h
  -- In front of punctuation nothing is in danger but a number in front of a dot.
  have hbracket : (∃ t ∈ brackets, d = .token t) →
      ∀ x ∈ d.initial?, c.lexeme.held.absorb x = none := by
    rintro ⟨t, ht, rfl⟩ x hx
    obtain ⟨hopen, hclose, hcomma⟩ := hc.stops
    have hall : ∀ t ∈ brackets, t = .openParen ∨ t = .closeParen ∨ t = .comma ∨ t = .dot := by
      decide
    rcases hall t ht with rfl | rfl | rfl | rfl
    · exact Option.some.inj hx ▸ hopen
    · exact Option.some.inj hx ▸ hclose
    · exact Option.some.inj hx ▸ hcomma
    · obtain ⟨name, rfl⟩ := hmeets.dotted rfl
      obtain rfl : '.' = x := Option.some.inj hx
      rfl
  have hword : (c.isWord ∨ c = .token .equal) → (∀ op, c ≠ .prefixOp op) →
      ∀ x ∈ d.initial?, c.lexeme.held.absorb x = none :=
    fun hword hop => hbracket (exists_bracket_of_parted hword hop h)
  cases hc with
  | token t =>
      cases t
      case openParen | closeParen | comma | notEqual => exact fun x _ => rfl
      case dot =>
        intro x hx
        have hdigit := hmeets.dot rfl x hx
        show Held.absorb (.mark ['.']) x = none
        simp [Held.absorb, hdigit, beginsMark, marks]
      case equal => exact hword (.inr rfl) (by simp)
      all_goals exact hword (.inl rfl) (by simp)
  | ident | number | param | word | constant | infixOp | function =>
      exact hword (.inl rfl) (by simp)
  | @prefixOp op hop =>
      rcases exists_bracket_of_prefix h with hd' | hapart
      · exact hbracket hd'
      intro x hx
      have hall : ∀ op ∈ prefixOperators, op = "-" ∨ op = "+" ∨ op = "~" := by decide
      rcases hall op hop with rfl | rfl | rfl
      · -- Two minus signs are parted, and no operand begins with `>`.
        have hminus : x ≠ '-' := by
          rintro rfl
          rw [hd.startsMinus hx] at hapart
          cases hapart
        have harrow : x ≠ '>' := by
          rintro rfl
          exact hmeets.prefixed _ rfl hx
        show Held.absorb (.mark ['-']) x = none
        simp [Held.absorb, beginsMark, marks, hminus, harrow]
      · rfl
      · rfl

end Chunk

/-! ## Texts -/

namespace Fragment

/-- Chunks that are written behind the lexeme at hand, when the first one does not fuse with it. -/
theorem lexFrom_pieces : (chunks : List Chunk) → (∀ c ∈ chunks, c.Plain) →
    chunks.IsChain Chunk.Meets → ∀ (held : Held) (done : List Lexeme), held.complete = some done →
      (∀ c ∈ chunks.head?, ∀ x ∈ c.initial?, held.absorb x = none) →
      lexFrom held (String.join (pieces chunks)).toList = some (done ++ chunks.map Chunk.lexeme)
  | [], _, _, held, done, hdone, _ => by
      rw [pieces, List.map_nil, List.append_nil]
      exact hdone
  | [c], hplain, _, held, done, hdone, hapart => by
      have hc := (hplain c (List.mem_cons_self ..)).spells
      have h := hc.lexFrom_append hdone (hapart c rfl) []
      rw [List.append_nil] at h
      rw [pieces, String.join_cons, String.join_nil, String.append_empty, h, lexFrom, hc.complete]
      rfl
  | c :: d :: rest, hplain, hchain, held, done, hdone, hapart => by
      obtain ⟨hmeets, hchain⟩ := List.isChain_cons_cons.mp hchain
      obtain ⟨hc, hrest⟩ := List.forall_mem_cons.mp hplain
      have hd : d.Plain := hrest d (List.mem_cons_self ..)
      have hread := hc.spells.lexFrom_append hdone (hapart c rfl)
      have ih := lexFrom_pieces (d :: rest) hrest hchain
      rw [pieces, String.join_cons, String.toList_append]
      cases hspaced : c.spaced d with
      | false =>
          -- The lexeme of the first chunk is complete where the second one begins.
          have hsecond := ih c.lexeme.held [c.lexeme] hc.spells.complete fun next hnext => by
            obtain rfl := Option.some.inj hnext
            exact Chunk.absorb_eq_none hc hd hmeets hspaced
          rw [if_neg Bool.false_ne_true, hread, hsecond]
          rfl
      | true =>
          have hsecond := ih .nothing [] rfl fun _ _ _ _ => rfl
          rw [if_pos rfl, String.toList_append, List.append_assoc, hread]
          show (done ++ ·) <$> lexFrom c.lexeme.held
            (' ' :: (String.join (pieces (d :: rest))).toList) = _
          rw [hc.spells.lexFrom_blank, hsecond]
          rfl

/-- **The lexemes of a text are those of its chunks**, if the chunks are plain and none of the
neighbours needs a blank that is not written. -/
theorem lex_text {f : Fragment} (hplain : ∀ c ∈ f.chunks, c.Plain)
    (hmeets : f.chunks.IsChain Chunk.Meets) : lex f.text = some (f.chunks.map Chunk.lexeme) :=
  lexFrom_pieces f.chunks hplain hmeets .nothing [] rfl fun _ _ _ _ => rfl

end Fragment

end RelationalQuery
