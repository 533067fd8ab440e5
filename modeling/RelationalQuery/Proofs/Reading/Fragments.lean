/-
  RelationalQuery.Proofs.Reading.Fragments — the items of fragments in a row.

  Fragments are written with blanks where chunks need them, so a symbol of one never takes in a
  character of the next: either a blank stands between them, or one of the two characters that meet
  is a blank or a sign of its own. Only an operator in front of an operand hugs it without such a
  character. So the items of a text are those of its fragments, as long as each of them has items
  by itself; and that is known of everything but what a caller wrote.

  Main definitions:
    * `Fragment.symbols?`, `Fragment.items?`: the symbols and the items of a fragment's text.
    * `Fragment.Ends`: the fragment does not end with an operator in front of an operand.

  Main statements:
    * `Fragment.symbols?_append`, `Fragment.items?_append`: fragments in a row.
    * `Fragment.items?_parens`: fragments between parentheses.
    * `Sql.Term.ends`: written terms do not end with an operator.
-/

import RelationalQuery.Proofs.Reading.Conditions
import RelationalQuery.Proofs.Reading.Operand
import RelationalQuery.Proofs.Statement.Writing
import RelationalQuery.Proofs.Text.Composition
import RelationalQuery.Proofs.Text.Spacing

namespace RelationalQuery

open Scan

/-! ## Chunks that meet -/

namespace Chunk

variable {c d : Chunk}

/-- Tokens that are one sign each, or two in the case of the inequality sign. -/
def signs : List Token := [.openParen, .closeParen, .comma, .dot, .equal, .notEqual]

/-- Brackets are signs. -/
theorem mem_signs_of_mem_brackets : ∀ t ∈ brackets, t ∈ signs := by decide

/-- Chunks that are not parted have a sign among them, unless an operator hugs its operand. -/
theorem exists_sign_of_parted (hop : ∀ op, c ≠ .prefixOp op) (h : parted c d = false) :
    ∃ t ∈ signs, c = .token t ∨ d = .token t := by
  have hword : c.isWord ∨ c = .token .equal → ∃ t ∈ signs, c = .token t ∨ d = .token t := by
    intro hword
    obtain ⟨t, ht, hd⟩ := exists_bracket_of_parted hword hop h
    exact ⟨t, mem_signs_of_mem_brackets t ht, .inr hd⟩
  rcases isWord_or_mark c with hc | hc | hc | ⟨t, ht, hc⟩
  · exact hword (.inl hc)
  · exact hword (.inr hc)
  · exact ⟨.notEqual, by decide, .inl hc⟩
  · exact ⟨t, mem_signs_of_mem_brackets t ht, .inl hc⟩

/-- A chunk that is written as it stands has that text. -/
theorem text_of_verbatim {s : String} (h : c.verbatim? = some s) : c.text = s := by
  cases c <;> cases h <;> rfl

/-- Where no blank is written, one of the two characters that meet ends every symbol. -/
theorem parting_of_spaced (hop : ∀ op, c ≠ .prefixOp op) (h : c.spaced d = false) :
    (∃ x ∈ parting, c.text.toList.getLast? = some x) ∨
      ∃ x ∈ parting, d.text.toList.head? = some x := by
  have hsign : ∀ t ∈ signs, (∃ x ∈ parting, t.text.toList.getLast? = some x) ∧
      ∃ x ∈ parting, t.text.toList.head? = some x := by
    simp only [← List.any_iff_exists_prop]
    decide
  unfold spaced at h
  rw [Bool.and_eq_false_iff, Bool.and_eq_false_iff, Bool.not_eq_false', Bool.not_eq_false'] at h
  -- A blank that the chunks bring themselves parts them; otherwise a sign does.
  rcases h with (hblank | hblank) | hparted
  · obtain ⟨s, hs, hlast⟩ := Option.bind_eq_some_iff.mp (beq_iff_eq.mp hblank)
    exact .inl ⟨' ', by decide, by rw [text_of_verbatim hs, hlast]⟩
  · obtain ⟨s, hs, hfirst⟩ := Option.bind_eq_some_iff.mp (beq_iff_eq.mp hblank)
    exact .inr ⟨' ', by decide, by rw [text_of_verbatim hs, hfirst]⟩
  · obtain ⟨t, ht, rfl | rfl⟩ := exists_sign_of_parted hop hparted
    · exact .inl (hsign t ht).1
    · exact .inr (hsign t ht).2

end Chunk

namespace Fragment

/-! ## Ends of texts -/

/-- The fragment does not end with an operator in front of an operand. -/
def Ends (f : Fragment) : Prop := ∀ op, f.chunks.getLast? ≠ some (.prefixOp op)

/-! ## Symbols -/

/-- The symbols of the text. -/
def symbols? (f : Fragment) : Option (List Symbol) := Scan.symbols? f.text

variable {a b f : Fragment}

/-- The symbols of two fragments in a row, where the last symbol of the first one ends. -/
theorem symbols?_append_of {xs ys : List Symbol} (ha : a.symbols? = some xs)
    (hb : b.symbols? = some ys)
    (h : ∀ c d, a.chunks.getLast? = some c → b.chunks.head? = some d → c.spaced d = false →
      ∀ x ∈ b.text.toList.head?, (behind a.text).absorb x = none) :
    (a ++ b).symbols? = some (xs ++ ys) := by
  unfold symbols?
  rw [text_append]
  unfold gap
  split
  · rename_i c d hlast hhead
    split
    · obtain ⟨hblank, hends⟩ := symbols?_blank ha
      exact Scan.symbols?_append hblank hb fun x _ => hends x
    · rename_i hspaced
      rw [Bool.not_eq_true] at hspaced
      rw [String.append_empty]
      exact Scan.symbols?_append ha hb (h c d hlast hhead hspaced)
  · rename_i hnone
    rw [String.append_empty]
    -- One of the two fragments is empty, and so is its text.
    refine Scan.symbols?_append ha hb fun x hx => ?_
    cases hlast : a.chunks.getLast? with
    | none =>
        have hempty : a.text = "" := by
          rw [text, List.getLast?_eq_none_iff.mp hlast]
          rfl
        rw [hempty]
        rfl
    | some c =>
        cases hhead : b.chunks.head? with
        | none =>
            rw [text, List.head?_eq_none_iff.mp hhead] at hx
            cases hx
        | some d => exact absurd hhead (hnone c d hlast)

/-- **The symbols of two fragments in a row.** -/
theorem symbols?_append {xs ys : List Symbol} (hends : a.Ends) (ha : a.symbols? = some xs)
    (hb : b.symbols? = some ys) : (a ++ b).symbols? = some (xs ++ ys) := by
  have hsettled := (symbols?_eq_some.mp ha).1
  refine symbols?_append_of ha hb fun c d hlast hhead hspaced x hx => ?_
  have hop : ∀ op, c ≠ .prefixOp op := fun op h => hends op (h ▸ hlast)
  rcases Chunk.parting_of_spaced hop hspaced with ⟨y, hy, htext⟩ | ⟨y, hy, htext⟩
  · exact absorb_behind_parting hsettled (getLast?_text hlast htext) hy x
  · rw [head?_text hhead htext] at hx
    exact absorb_parting hsettled (Option.some.inj hx ▸ hy)

/-- Fragments in a row do not end with an operator if neither of them does. -/
theorem Ends.append (ha : a.Ends) (hb : b.Ends) : (a ++ b).Ends := by
  intro op h
  rw [chunks_append, List.getLast?_append] at h
  rcases Option.or_eq_some_iff.mp h with h | ⟨_, h⟩
  · exact hb op h
  · exact ha op h

/-- What stands last decides that, unless it is empty. -/
theorem ends_append (h : b.Ends) (hne : b.chunks ≠ []) : (a ++ b).Ends := by
  intro op
  rw [chunks_append, List.getLast?_append_of_ne_nil _ hne]
  exact h op

/-- A token of the compiler is no operator that waits for its operand. -/
theorem ends_token (t : Token) : (token t).Ends := nofun

/-! ## Items -/

/-- **The items of the text.** -/
def items? (f : Fragment) : Option (List ReadItem) := f.symbols?.bind Symbol.items?

/-- A fragment has items just when its symbols nest into them. -/
theorem items?_eq_some {items : List ReadItem} : f.items? = some items ↔
    ∃ symbols, f.symbols? = some symbols ∧ Symbol.Nests symbols items := by
  refine Option.bind_eq_some_iff.trans (exists_congr fun symbols => and_congr_right fun _ => ?_)
  exact ⟨Symbol.nests_of_items?, Symbol.Nests.items?_eq⟩

/-- Chunks with one text have the same items. -/
theorem items?_of_text {c d : Chunk} (h : c.text = d.text) :
    (single c).items? = (single d).items? := by
  rw [items?, items?, symbols?, symbols?, text_single, text_single, h]

/-- **The items of two fragments in a row.** -/
theorem items?_append {xs ys : List ReadItem} (hends : a.Ends) (ha : a.items? = some xs)
    (hb : b.items? = some ys) : (a ++ b).items? = some (xs ++ ys) := by
  obtain ⟨as, has, hxs⟩ := items?_eq_some.mp ha
  obtain ⟨bs, hbs, hys⟩ := items?_eq_some.mp hb
  exact items?_eq_some.mpr ⟨as ++ bs, symbols?_append hends has hbs, hxs.append hys⟩

/-- A closing parenthesis ends every symbol. -/
theorem symbols?_close {xs : List Symbol} (h : a.symbols? = some xs) :
    (a ++ token .closeParen).symbols? = some (xs ++ [.sign ')']) := by
  have hclose : Scan.symbols? (token .closeParen).text = some [.sign ')'] := by decide +kernel
  have hgap : gap a (token .closeParen) = "" := gap_eq_empty_of_close a empty
  unfold symbols?
  rw [text_append, hgap, String.append_empty]
  refine Scan.symbols?_append h hclose fun x hx => ?_
  have hx : ')' = x := Option.some.inj hx
  exact hx ▸ absorb_parting (symbols?_eq_some.mp h).1 (by decide)

/-- **A fragment between parentheses is one item.** -/
theorem items?_parens {xs : List ReadItem} (h : a.items? = some xs) :
    a.parens.items? = some [.group .paren xs] := by
  obtain ⟨symbols, hsymbols, hxs⟩ := items?_eq_some.mp h
  refine items?_eq_some.mpr ⟨_, ?_, hxs.group⟩
  have hopen : (token .openParen).symbols? = some [.sign '('] := by decide +kernel
  have hparens : a.parens = token .openParen ++ (a ++ token .closeParen) := append_assoc ..
  rw [hparens]
  exact symbols?_append (ends_token _) hopen (symbols?_close hsymbols)

/-- A group ends with its parenthesis. -/
theorem ends_parens : a.parens.Ends := ends_append (ends_token _) (List.cons_ne_nil _ _)

/-- A name is one quoted symbol. -/
theorem items?_ident (name : String) :
    (ident name).items? = some [.symbol (.quoted .double name)] := by
  refine items?_eq_some.mpr ⟨_, ?_, Symbol.nests_of_plain rfl⟩
  have htext : (ident name).text = Identifier.quoted name := text_single _
  rw [symbols?, htext]
  exact symbols?_quoted name

/-- The items of a token that is a keyword. -/
theorem items?_keyword {t : Token} (h : t ∈ [.select, .distinct, .from, .where, .having, .on, .and,
    .or, .not, .in, .exists, .between, .is, .null, .collate]) :
    (token t).items? = some [.symbol (.word t.text)] := by
  have hall : ∀ t ∈ [Token.select, .distinct, .from, .where, .having, .on, .and, .or, .not, .in,
      .exists, .between, .is, .null, .collate],
      (token t).symbols? = some [.word t.text] ∧ (Symbol.word t.text).plain = true := by
    decide +kernel
  exact items?_eq_some.mpr ⟨_, (hall t h).1, Symbol.nests_of_plain (hall t h).2⟩

end Fragment

/-! ## Written terms -/

namespace Sql

open Fragment

/-- A written term is not empty. -/
theorem Term.write_ne_nil (t : Term) : t.write.chunks ≠ [] := by
  obtain ⟨c, rest, hchunks, _⟩ := t.head_write
  rw [hchunks]
  exact List.cons_ne_nil c rest

/-- **A written term does not end with an operator.** -/
theorem Term.ends : (t : Term) → t.write.Ends
  | .literal _ _ | .constant _ | .column none _ => by rintro _ ⟨⟩
  | .value v => by
      rw [Term.write, param]
      split <;> rintro _ ⟨⟩
  | .column (some ⟨_, none⟩) _ | .column (some ⟨_, some _⟩) _ => by rintro _ ⟨⟩
  | .collate t collation => by
      intro op
      rw [Term.write, Clauses.collated, insertBeforeClose]
      split
      · simp
      · have hmark : (token .collate ++ raw collation).Ends := by rintro _ ⟨⟩
        exact ends_append hmark (List.cons_ne_nil _ _) op
  | .prefixOp _ t => ends_append t.ends t.write_ne_nil
  -- These end with the parenthesis of their own group.
  | .negation _ | .comparison _ _ _ | .nullTest _ _ | .infixOp _ _ _ | .inList _ _ _
  | .inQuery _ _ _ | .exists _ _ | .between _ _ _ => ends_parens
  | .and [] | .or [] => by rintro _ ⟨⟩
  | .and [t] | .or [t] => t.ends
  | .and (_ :: _ :: _) | .or (_ :: _ :: _) => ends_parens
  | .call _ _ | .countRows _ | .count _ | .countDistinct _ =>
      ends_append (ends_token .closeParen) (List.cons_ne_nil _ _)

end Sql

end RelationalQuery
