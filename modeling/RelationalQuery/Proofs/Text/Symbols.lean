/-
  RelationalQuery.Proofs.Text.Symbols — SQL that a caller wrote, as far as quotes and comments go.

  What a caller wrote is not known to be made of the compiler's lexemes: it has strings, quotes of
  every kind and comments. To see where it has a keyword or a parenthesis, one has to see what is
  quoted and what is a comment, and no more. So a text is cut into words, quoted pieces and single
  signs, character by character. The mode of the scan says what is at hand: it takes in a
  character, or ends in front of it.

  A text that ends inside quotes or inside a comment takes in what is written behind it. It has no
  symbols; every other text keeps its symbols wherever it stands, if its last symbol ends there.

  Main definitions:
    * `Symbol`: words, quoted pieces and signs.
    * `Scan.Mode`, `Scan.run`: the mode of the scan, and the scan.
    * `Scan.symbols?`: the symbols of a text.

  Main statements:
    * `Scan.symbols?_append`: texts in a row.
    * `Scan.absorb_parting`, `Scan.absorb_behind_parting`: characters that end every symbol.
-/

import Mathlib.Data.Bool.AllAny
import RelationalQuery.Proofs.Text.Lexer

namespace RelationalQuery

/-! ## Symbols -/

/-- What quotes stand for, by the character that opens them: strings, and identifiers. -/
inductive Quote where
  | single | double | back | bracket
deriving DecidableEq

namespace Quote

/-- The quotes that a character opens. -/
def opened? (c : Char) : Option Quote :=
  if c = '\'' then some single
  else if c = '"' then some double
  else if c = '\x60' then some back
  else if c = '[' then some bracket
  else none

/-- The character that closes the quotes. -/
def closing : Quote → Char
  | single => '\''
  | double => '"'
  | back => '\x60'
  | bracket => ']'

/-- The closing character stands for itself when it is doubled. -/
def doubles : Quote → Bool
  | bracket => false
  | _ => true

end Quote

/-- A symbol of SQL text. Marks of several characters are a sign for each. -/
inductive Symbol where
  /-- A keyword, a bare name or a number. -/
  | word (text : String)
  | quoted (quote : Quote) (text : String)
  | sign (c : Char)
deriving DecidableEq

namespace Scan

open Lexer

/-! ## The scan -/

/-- What is at hand. -/
inductive Mode where
  | nothing
  | word (text : List Char)
  | quoted (quote : Quote) (text : List Char)
  /-- Behind a quote that either closes or is the first of a doubled one. -/
  | closed (quote : Quote) (text : List Char)
  | sign (c : Char)
  | lineComment
  /-- Inside a comment between slashes, behind a star or not. -/
  | blockComment (star : Bool)
deriving DecidableEq

/-- The mode with one more character, unless what is at hand ends in front of it. -/
def Mode.absorb : Mode → Char → Option Mode
  | .nothing, _ => none
  | .word text, c => if continuesWord c then some (.word (text ++ [c])) else none
  | .quoted quote text, c =>
    some (if c = quote.closing then .closed quote text else .quoted quote (text ++ [c]))
  | .closed quote text, c =>
    if quote.doubles = true ∧ c = quote.closing then some (.quoted quote (text ++ [c])) else none
  | .sign s, c =>
    if s = '-' ∧ c = '-' then some .lineComment
    else if s = '/' ∧ c = '*' then some (.blockComment false)
    else none
  | .lineComment, c => some (if c = '\n' then .nothing else .lineComment)
  | .blockComment star, c =>
    some (if star = true ∧ c = '/' then .nothing else .blockComment (c == '*'))

/-- What a character begins. -/
def Mode.begin (c : Char) : Mode :=
  if isBlank c then .nothing
  else match Quote.opened? c with
    | some quote => .quoted quote []
    | none => if continuesWord c then .word [c] else .sign c

/-- The symbols at hand when they end here. -/
def Mode.flush : Mode → List Symbol
  | .word text => [.word (String.ofList text)]
  | .closed quote text => [.quoted quote (String.ofList text)]
  | .sign c => [.sign c]
  | .nothing | .quoted _ _ | .lineComment | .blockComment _ => []

/-- A text can end in this mode. -/
def Mode.settled : Mode → Bool
  | .quoted _ _ | .lineComment | .blockComment _ => false
  | _ => true

/-- The symbols of a text behind what is at hand, and what is at hand at its end. -/
def run (m : Mode) : List Char → List Symbol × Mode
  | [] => ([], m)
  | c :: rest =>
    match m.absorb c with
    | some longer => run longer rest
    | none =>
      let (others, last) := run (.begin c) rest
      (m.flush ++ others, last)

/-- What is at hand behind a text. -/
def behind (text : String) : Mode := (run .nothing text.toList).2

/-- **The symbols of a text.** There are none when the text ends inside quotes or a comment. -/
def symbols? (text : String) : Option (List Symbol) :=
  if (behind text).settled then some ((run .nothing text.toList).1 ++ (behind text).flush)
  else none

example : symbols? "a = 'it''s' -- OR\n/* OR */AND \"or\" IN (1)" =
    some [.word "a", .sign '=', .quoted .single "it's", .word "AND", .quoted .double "or",
      .word "IN", .sign '(', .word "1", .sign ')'] := by decide +kernel

/-! ## Texts in a row -/

/-- Scanning two pieces is scanning the second from the mode behind the first. -/
theorem run_append (m : Mode) (a b : List Char) : run m (a ++ b) =
    ((run m a).1 ++ (run (run m a).2 b).1, (run (run m a).2 b).2) := by
  induction a generalizing m with
  | nil => rfl
  | cons c rest ih =>
      rw [List.cons_append, run, run]
      cases m.absorb c with
      | some longer => exact ih longer
      | none => simp only [ih, List.append_assoc]

/-- Where a symbol ends, the scan begins anew. -/
theorem run_of_absorb {m : Mode} {text : List Char} (hm : m.settled = true)
    (h : ∀ c ∈ text.head?, m.absorb c = none) :
    (run m text).1 ++ (run m text).2.flush =
        m.flush ++ ((run .nothing text).1 ++ (run .nothing text).2.flush) ∧
      ((run m text).2.settled = (run .nothing text).2.settled) := by
  cases text with
  | nil => exact ⟨(List.append_nil _).symm, hm⟩
  | cons c rest =>
      have hc := h c rfl
      have hnothing : Mode.absorb .nothing c = none := rfl
      simp only [run, hc, hnothing, Mode.flush, List.nil_append, List.append_assoc, and_self]

/-- The symbols of a text are those that scanning it gives, if nothing is left open. -/
theorem symbols?_eq_some {text : String} {symbols : List Symbol} :
    symbols? text = some symbols ↔ (behind text).settled = true ∧
      (run .nothing text.toList).1 ++ (behind text).flush = symbols := by
  unfold symbols?
  split
  · rename_i hsettled
    exact ⟨fun h => ⟨hsettled, Option.some.inj h⟩, fun h => congrArg some h.2⟩
  · rename_i hsettled
    exact ⟨nofun, fun h => absurd h.1 hsettled⟩

/-- **The symbols of two texts in a row**, where the last symbol of the first one ends in front of
the second one. -/
theorem symbols?_append {a b : String} {xs ys : List Symbol} (ha : symbols? a = some xs)
    (hb : symbols? b = some ys) (h : ∀ c ∈ b.toList.head?, (behind a).absorb c = none) :
    symbols? (a ++ b) = some (xs ++ ys) := by
  obtain ⟨hsettled, rfl⟩ := symbols?_eq_some.mp ha
  obtain ⟨hlast, rfl⟩ := symbols?_eq_some.mp hb
  obtain ⟨hsymbols, hend⟩ := run_of_absorb hsettled h
  have hboth : run .nothing (a ++ b).toList = ((run .nothing a.toList).1 ++
      (run (behind a) b.toList).1, (run (behind a) b.toList).2) := by
    rw [String.toList_append, run_append]
    rfl
  refine symbols?_eq_some.mpr ⟨?_, ?_⟩
  · rw [behind, hboth]
    exact hend.trans hlast
  · rw [behind, hboth, List.append_assoc, hsymbols, List.append_assoc]
    rfl

/-! ## Characters that end every symbol -/

/-- A blank, and signs that never are part of a longer symbol. -/
def parting : List Char := [' ', '(', ')', ',', '.', '=', '<', '>']

/-- Every symbol ends in front of such a character. -/
theorem absorb_parting {m : Mode} (hm : m.settled = true) {c : Char} (hc : c ∈ parting) :
    m.absorb c = none := by
  have hword : ∀ c ∈ parting, continuesWord c = false := List.all_iff_forall_prop.mp (by decide)
  have hquote (quote : Quote) (hdoubles : quote.doubles = true) : c ≠ quote.closing := by
    rintro rfl
    cases quote <;> revert hc hdoubles <;> decide
  have hdash : ∀ c ∈ parting, c ≠ '-' ∧ c ≠ '*' := List.all_iff_forall_prop.mp (by decide)
  cases m with
  | nothing => rfl
  | word text => rw [Mode.absorb, hword c hc, if_neg Bool.false_ne_true]
  | closed quote text =>
      rw [Mode.absorb, if_neg fun h => hquote quote h.1 h.2]
  | sign s =>
      rw [Mode.absorb, if_neg fun h => (hdash c hc).1 h.2, if_neg fun h => (hdash c hc).2 h.2]
  | quoted | lineComment | blockComment => cases hm

/-- Only quotes and comments take such a character in, and they do not end with it. -/
theorem settled_of_absorb_parting {m longer : Mode} {c : Char} (hc : c ∈ parting)
    (h : m.absorb c = some longer) : longer.settled = false := by
  -- Neither a quote nor the end of a comment is among these characters.
  have hclosing (quote : Quote) : c ≠ quote.closing := by
    rintro rfl
    cases quote <;> revert hc <;> decide
  have hends : ∀ c ∈ parting, c ≠ '\n' ∧ c ≠ '/' := List.all_iff_forall_prop.mp (by decide)
  cases m with
  | quoted quote inside =>
      rw [Mode.absorb, if_neg (hclosing quote)] at h
      exact Option.some.inj h ▸ rfl
  | lineComment =>
      rw [Mode.absorb, if_neg (hends c hc).1] at h
      exact Option.some.inj h ▸ rfl
  | blockComment star =>
      rw [Mode.absorb, if_neg fun h => (hends c hc).2 h.2] at h
      exact Option.some.inj h ▸ rfl
  | nothing | word | closed | sign =>
      -- Everything else ends in front of such a character.
      rw [absorb_parting rfl hc] at h
      cases h

/-- Behind such a character nothing is taken in. -/
theorem absorb_behind_parting {text : String} (hsettled : (behind text).settled = true) {c : Char}
    (hlast : text.toList.getLast? = some c) (hc : c ∈ parting) (next : Char) :
    (behind text).absorb next = none := by
  obtain ⟨init, htext⟩ := List.getLast?_eq_some_iff.mp hlast
  have hsplit : behind text = (run (run .nothing init).2 [c]).2 := by
    rw [behind, htext, run_append]
  have hbegin : ∀ c ∈ parting, Mode.begin c = .nothing ∨ Mode.begin c = .sign c :=
    List.all_iff_forall_prop.mp (by decide)
  have hsign : ∀ c ∈ parting, c ≠ '-' ∧ c ≠ '/' := List.all_iff_forall_prop.mp (by decide)
  rw [hsplit] at hsettled ⊢
  generalize (run .nothing init).2 = m at hsettled ⊢
  rw [run] at hsettled ⊢
  cases habsorb : m.absorb c with
  | none =>
      -- The character begins a symbol of its own, or none.
      show (Mode.begin c).absorb next = none
      rcases hbegin c hc with h | h
      · rw [h]
        rfl
      · rw [h, Mode.absorb, if_neg fun h => (hsign c hc).1 h.1, if_neg fun h => (hsign c hc).2 h.1]
  | some longer =>
      rw [habsorb] at hsettled
      exact absurd hsettled (Bool.eq_false_iff.mp (settled_of_absorb_parting hc habsorb))

/-- A blank ends the last symbol, adds none, and takes in nothing. -/
theorem symbols?_blank {a : String} {xs : List Symbol} (h : symbols? a = some xs) :
    symbols? (a ++ " ") = some xs ∧ ∀ x, (behind (a ++ " ")).absorb x = none := by
  have hblank : symbols? (a ++ " ") = some (xs ++ []) := symbols?_append h rfl fun x hx =>
    absorb_parting (symbols?_eq_some.mp h).1 (Option.some.inj hx ▸ List.mem_cons_self ..)
  have hlast : (a ++ " ").toList.getLast? = some ' ' := by
    rw [String.toList_append]
    exact List.getLast?_concat
  exact ⟨List.append_nil xs ▸ hblank,
    absorb_behind_parting (symbols?_eq_some.mp hblank).1 hlast (List.mem_cons_self ..)⟩

/-! ## Words -/

theorem begin_of_continuesWord {c : Char} (h : continuesWord c = true) :
    Mode.begin c = .word [c] := by
  have hquote : Quote.opened? c = none := by
    have hquotes : ∀ q ∈ ['\'', '"', '\x60', '['], continuesWord q = false :=
      List.all_iff_forall_prop.mp (by decide)
    have hne : ∀ q ∈ ['\'', '"', '\x60', '['], c ≠ q := by
      rintro q hq rfl
      rw [hquotes c hq] at h
      cases h
    simp only [List.forall_mem_cons] at hne
    obtain ⟨hsingle, hdouble, hback, hbracket, _⟩ := hne
    rw [Quote.opened?, if_neg hsingle, if_neg hdouble, if_neg hback, if_neg hbracket]
  rw [Mode.begin, isBlank_eq_false h (by decide), if_neg Bool.false_ne_true, hquote]
  exact if_pos h

/-- A word goes on as long as its characters do. -/
theorem run_word {text rest : List Char} (h : ∀ c ∈ rest, continuesWord c = true) :
    run (.word text) rest = ([], .word (text ++ rest)) := by
  induction rest generalizing text with
  | nil => rw [List.append_nil]; rfl
  | cons c rest ih =>
      obtain ⟨hc, hrest⟩ := List.forall_mem_cons.mp h
      have habsorb : Mode.absorb (.word text) c = some (.word (text ++ [c])) := if_pos hc
      rw [run, habsorb]
      exact (ih hrest).trans (by rw [List.append_assoc]; rfl)

/-- Letters, digits and the like are one word. -/
theorem symbols?_word {text : String} (hne : text.toList ≠ [])
    (h : ∀ c ∈ text.toList, continuesWord c = true) : symbols? text = some [.word text] := by
  have hrun : run .nothing text.toList = ([], .word text.toList) := by
    cases htext : text.toList with
    | nil => exact absurd htext hne
    | cons c rest =>
        obtain ⟨hc, hrest⟩ := List.forall_mem_cons.mp (htext ▸ h)
        have habsorb : Mode.absorb .nothing c = none := rfl
        rw [run, habsorb, begin_of_continuesWord hc, run_word hrest]
        rfl
  refine symbols?_eq_some.mpr ⟨?_, ?_⟩
  · rw [behind, hrun]
    rfl
  · rw [behind, hrun]
    exact congrArg (fun text => [Symbol.word text]) String.ofList_toList

/-! ## Identifiers -/

/-- An escaped name is scanned up to its closing quote. -/
theorem run_escape (name : List Char) : ∀ text : List Char,
    run (.quoted .double text) (Identifier.escape name ++ ['"']) =
      ([], .closed .double (text ++ name)) := by
  induction name with
  | nil =>
      intro text
      rw [List.append_nil]
      rfl
  | cons c rest ih =>
      intro text
      have happend : text ++ c :: rest = text ++ [c] ++ rest := by rw [List.append_assoc]; rfl
      rw [Identifier.escape, happend]
      by_cases hc : c = '"'
      · -- The second of the two quotes takes back that the first one closes.
        subst hc
        rw [if_pos rfl]
        exact ih (text ++ ['"'])
      · have habsorb : Mode.absorb (.quoted .double text) c =
            some (.quoted .double (text ++ [c])) := congrArg some (if_neg hc)
        rw [if_neg hc, List.cons_append, run, habsorb]
        exact ih (text ++ [c])

/-- A written identifier is one symbol, whatever characters it has. -/
theorem symbols?_quoted (name : String) :
    symbols? (Identifier.quoted name) = some [.quoted .double name] := by
  have hrun : run .nothing (Identifier.quoted name).toList = ([], .closed .double name.toList) := by
    rw [Identifier.toList_quoted]
    exact run_escape name.toList []
  refine symbols?_eq_some.mpr ⟨?_, ?_⟩
  · rw [behind, hrun]
    rfl
  · rw [behind, hrun]
    exact congrArg (fun text => [Symbol.quoted .double text]) String.ofList_toList

end Scan

end RelationalQuery
