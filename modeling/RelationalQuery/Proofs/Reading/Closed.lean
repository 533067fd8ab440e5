/-
  RelationalQuery.Proofs.Reading.Closed — fragments that leave nothing open.

  What the compiler writes is balanced, and no character of it is taken into a neighbour. So the
  items of a whole fragment are there as soon as each piece of text that is written as it stands
  leaves no quote, no comment and no group open. Nothing is asked of where such a piece stands.

  Main definitions:
    * `Chunk.closed`: the chunk leaves nothing open, if it is no parenthesis.
    * `Chunk.symbols`: the symbols of a chunk.

  Main statements:
    * `Fragment.symbols?_of_closed`: the symbols of closed chunks are those of each in a row.
    * `Fragment.exists_items`: closed and balanced fragments have items.
-/

import RelationalQuery.Proofs.Reading.Fragments

namespace RelationalQuery

open Scan Nesting Fragment

/-! ## Closed chunks -/

namespace Chunk

/-- The symbols of a chunk. -/
def symbols (c : Chunk) : List Symbol := (Scan.symbols? c.text).getD []

/-- The text is not empty, and has items by itself. -/
def nestsAlone (text : String) : Bool :=
  !text.toList.isEmpty && ((Scan.symbols? text).bind Symbol.items?).isSome

/-- The chunk leaves nothing open, if it is no parenthesis. Text that is written as it stands has
items by itself; a function name does not begin as an operator does. -/
def closed : Chunk → Bool
  | .token _ | .ident _ | .number _ | .param _ => true
  | .raw s | .literal s _ => nestsAlone s
  | .function s => nestsAlone s && s.toList.head? != some '-'
  | .prefixOp op => decide (op ∈ prefixOperators)

variable {c d : Chunk}

/-- The symbols of the chunk nest by themselves, if it is no parenthesis. -/
def Nests (c : Chunk) : Prop :=
  c ≠ .token .openParen → c ≠ .token .closeParen → ∃ items, Symbol.Nests c.symbols items

/-- The symbols of a chunk are those that its text is scanned into. -/
theorem symbols_eq {ys : List Symbol} (h : Scan.symbols? c.text = some ys) : c.symbols = ys := by
  rw [symbols, h, Option.getD_some]

theorem symbols_open : (Chunk.token .openParen).symbols = [.sign '('] :=
  symbols_eq (by decide +kernel)

theorem symbols_close : (Chunk.token .closeParen).symbols = [.sign ')'] :=
  symbols_eq (by decide +kernel)

/-- A chunk whose symbols are plain nests. -/
theorem nests_of_plain {ys : List Symbol} (h : Scan.symbols? c.text = some ys)
    (hplain : ∀ s ∈ ys, s.plain = true) : Scan.symbols? c.text = some c.symbols ∧ c.Nests := by
  obtain rfl := symbols_eq h
  exact ⟨h, fun _ _ => ⟨_, Symbol.nests_of_all_plain hplain⟩⟩

/-- A text that has items by itself begins with a character. -/
theorem head?_of_nestsAlone {s : String} (h : nestsAlone s = true) :
    ∃ x, s.toList.head? = some x := by
  obtain ⟨hne, _⟩ := Bool.and_eq_true_iff.mp h
  rw [Bool.not_eq_true'] at hne
  exact Option.isSome_iff_exists.mp (List.isSome_head?.mpr (List.isEmpty_eq_false_iff.mp hne))

/-- Text that is written as it stands, and the chunk that it is the text of. -/
theorem symbols_of_nestsAlone (h : nestsAlone c.text = true) :
    Scan.symbols? c.text = some c.symbols ∧ ∃ items, Symbol.Nests c.symbols items := by
  obtain ⟨_, hitems⟩ := Bool.and_eq_true_iff.mp h
  obtain ⟨items, hitems⟩ := Option.isSome_iff_exists.mp hitems
  obtain ⟨ys, hys, hitems⟩ := Option.bind_eq_some_iff.mp hitems
  rw [symbols_eq hys]
  exact ⟨hys, items, Symbol.nests_of_items? hitems⟩

/-- A token of the compiler scans by itself, into plain symbols unless it is a parenthesis. -/
theorem symbols?_token : ∀ t : Token, Scan.symbols? t.text = some (Chunk.token t).symbols ∧
    (t = .openParen ∨ t = .closeParen ∨ ∀ s ∈ (Chunk.token t).symbols, s.plain = true) := by
  intro t
  cases t <;> decide +kernel

/-- A digit has no other case. -/
theorem toLower_of_isDigit {c : Char} (h : c.isDigit = true) : c.toLower = c := by
  have hrange : 48 ≤ c.toNat ∧ c.toNat ≤ 57 := by
    simpa [Char.isDigit, UInt32.le_iff_toNat_le] using h
  have hupper : ¬(65 ≤ c.toNat ∧ c.toNat ≤ 90) := by omega
  exact dif_neg (by simpa [UInt32.le_iff_toNat_le] using hupper)

/-- A number has digits. -/
theorem toList_number_ne_nil (n : Nat) : (toString n).toList ≠ [] := fun h =>
  Nat.toDigits_ne_nil ((Lexer.toList_toString n).symm.trans h)

/-- A number is no keyword. -/
theorem isKeyword_number (keyword : String)
    (hkeyword : keyword.toList.head?.any Char.isDigit = false) (n : Nat) :
    (Symbol.word (toString n)).isKeyword keyword = false := by
  refine beq_eq_false_iff_ne.mpr fun h => ?_
  have hlist := congrArg String.toList h
  rw [Identifier.fold, String.toList_ofList] at hlist
  -- A number begins with a digit, which folding leaves alone, and no keyword does.
  cases hdigits : (toString n).toList with
  | nil => exact toList_number_ne_nil n hdigits
  | cons c rest =>
      have hc : c.isDigit = true := Lexer.isDigit_of_mem_toString (hdigits ▸ List.mem_cons_self ..)
      rw [hdigits, List.map_cons, toLower_of_isDigit hc] at hlist
      rw [← hlist, List.head?_cons, Option.any_some, hc] at hkeyword
      cases hkeyword

/-- A number is one word. -/
theorem symbols?_number (n : Nat) : Scan.symbols? (toString n) = some [.word (toString n)] := by
  refine symbols?_word (toList_number_ne_nil n) fun c hc => ?_
  rw [Lexer.continuesWord, Lexer.isDigit_of_mem_toString hc, Bool.or_true, Bool.true_or]

/-- A number is no bracket, so it is plain. -/
theorem plain_number (n : Nat) : (Symbol.word (toString n)).plain = true := by
  have hcase := isKeyword_number "case" (by decide) n
  have hend := isKeyword_number "end" (by decide) n
  rw [Symbol.plain, hcase, hend]
  rfl

/-- **A closed chunk has symbols by itself.** -/
theorem nests_of_closed (h : c.closed = true) :
    Scan.symbols? c.text = some c.symbols ∧ c.Nests := by
  cases c with
  | token t =>
      -- Only the two parentheses are not plain, and for those nothing is asked.
      obtain ⟨hsymbols, hplain⟩ := symbols?_token t
      rcases hplain with rfl | rfl | hplain
      · exact ⟨hsymbols, fun h _ => absurd rfl h⟩
      · exact ⟨hsymbols, fun _ h => absurd rfl h⟩
      · exact nests_of_plain hsymbols hplain
  | ident name =>
      exact nests_of_plain (c := .ident name) (symbols?_quoted name)
        (List.forall_mem_singleton.mpr rfl)
  | number n =>
      exact nests_of_plain (c := .number n) (symbols?_number n)
        (List.forall_mem_singleton.mpr (plain_number n))
  | param v =>
      have hsign : Scan.symbols? "?" = some [.sign '?'] := by decide +kernel
      exact nests_of_plain (c := .param v) hsign (by decide +kernel)
  | raw s =>
      -- Of a text that the caller gives, being closed says just this.
      obtain ⟨hsymbols, hnests⟩ := symbols_of_nestsAlone (c := .raw s) h
      exact ⟨hsymbols, fun _ _ => hnests⟩
  | literal s arguments =>
      obtain ⟨hsymbols, hnests⟩ := symbols_of_nestsAlone (c := .literal s arguments) h
      exact ⟨hsymbols, fun _ _ => hnests⟩
  | function s =>
      obtain ⟨hsymbols, hnests⟩ :=
        symbols_of_nestsAlone (c := .function s) (Bool.and_eq_true_iff.mp h).1
      exact ⟨hsymbols, fun _ _ => hnests⟩
  | prefixOp op =>
      -- There are three operators, so this is checked one by one.
      have hall : ∀ op ∈ prefixOperators, Scan.symbols? op = some (Chunk.prefixOp op).symbols ∧
          ∀ s ∈ (Chunk.prefixOp op).symbols, s.plain = true := by decide +kernel
      obtain ⟨hsymbols, hplain⟩ := hall op (of_decide_eq_true h)
      exact nests_of_plain hsymbols hplain

/-- A closed chunk is written, and if with a minus sign first, it is known to be. -/
theorem initial_of_closed (h : c.closed = true) :
    ∃ x, c.text.toList.head? = some x ∧ (x = '-' → c.startsMinus = true) := by
  cases c with
  | token t =>
      have hall : ∀ t : Token, ∃ x, t.text.toList.head? = some x ∧ x ≠ '-' := by
        intro t
        cases t <;> exact ⟨_, rfl, by decide⟩
      obtain ⟨x, hx, hminus⟩ := hall t
      exact ⟨x, hx, fun h => absurd h hminus⟩
  | ident name =>
      -- A quoted name begins with its quote.
      refine ⟨'"', ?_, fun h => absurd h (by decide)⟩
      rw [text, Identifier.toList_quoted]
      rfl
  | number n =>
      cases hdigits : (toString n).toList with
      | nil => exact absurd hdigits (toList_number_ne_nil n)
      | cons x rest =>
          refine ⟨x, by rw [text, hdigits]; rfl, ?_⟩
          rintro rfl
          -- A number is unsigned here: its first character is a digit.
          have hdigit := Lexer.isDigit_of_mem_toString (hdigits ▸ List.mem_cons_self ..)
          exact absurd hdigit (by decide)
  | param v => exact ⟨'?', (by decide : "?".toList.head? = some '?'), fun h => absurd h (by decide)⟩
  | raw s =>
      obtain ⟨x, hx⟩ := head?_of_nestsAlone (s := s) h
      exact ⟨x, hx, fun hminus => by rw [startsMinus, hx, hminus]; rfl⟩
  | literal s _ =>
      obtain ⟨x, hx⟩ := head?_of_nestsAlone (s := s) h
      exact ⟨x, hx, fun hminus => by rw [startsMinus, hx, hminus]; rfl⟩
  | function s =>
      obtain ⟨halone, hfirst⟩ := Bool.and_eq_true_iff.mp h
      obtain ⟨x, hx⟩ := head?_of_nestsAlone halone
      refine ⟨x, hx, ?_⟩
      rintro rfl
      -- A function name with a minus sign first is not closed.
      exact absurd hx (bne_iff_ne.mp hfirst)
  | prefixOp op =>
      have hall : ∀ op ∈ prefixOperators, op.toList ≠ [] := by decide
      cases htext : op.toList with
      | nil => exact absurd htext (hall op (of_decide_eq_true h))
      | cons x rest =>
          refine ⟨x, by rw [text, htext]; rfl, ?_⟩
          rintro rfl
          rw [startsMinus, htext]
          rfl

/-- Behind an operator, it is only up to the parting whether a minus sign is set apart. -/
theorem parted_of_minus {op : String} (h : (prefixOp op).spaced d = false)
    (hd : d.text.toList.head? = some '-') : parted (.prefixOp op) d = false := by
  have hfirst : d.startsBlank = false := by
    refine beq_eq_false_iff_ne.mpr fun hblank => ?_
    obtain ⟨s, hs, hfirst⟩ := Option.bind_eq_some_iff.mp hblank
    rw [text_of_verbatim hs, hfirst] at hd
    cases hd
  have hlast : (prefixOp op).endsBlank = false := rfl
  rwa [spaced, hlast, hfirst, Bool.not_false, Bool.true_and, Bool.true_and] at h

/-- **An operator does not take in what it stands in front of.** -/
theorem absorb_of_prefix {op : String} (hop : op ∈ prefixOperators) (hd : d.closed = true)
    (h : (prefixOp op).spaced d = false) {x : Char} (hx : d.text.toList.head? = some x) :
    (behind op).absorb x = none := by
  have hall : ∀ op ∈ prefixOperators, op = "-" ∨ op = "+" ∨ op = "~" := by decide
  rcases hall op hop with rfl | rfl | rfl
  · -- Two minus signs would begin a comment, and they are set apart.
    obtain ⟨y, hy, hminus⟩ := initial_of_closed hd
    obtain rfl : y = x := Option.some.inj (hy.symm.trans hx)
    have hne : y ≠ '-' := by
      rintro rfl
      have hparted := parted_of_minus h hx
      rcases exists_bracket_of_prefix hparted with ⟨t, ht, rfl⟩ | hapart
      · have hall : ∀ t ∈ brackets, t.text.toList.head? ≠ some '-' := by decide
        exact hall t ht hx
      · rw [hminus rfl] at hapart
        exact absurd hapart (by decide)
    have hbehind : behind "-" = .sign '-' := by decide +kernel
    rw [hbehind, Mode.absorb, if_neg fun h => hne h.2, if_neg fun h => absurd h.1 (by decide)]
  · have hbehind : behind "+" = .sign '+' := by decide +kernel
    rw [hbehind, Mode.absorb, if_neg fun h => absurd h.1 (by decide),
      if_neg fun h => absurd h.1 (by decide)]
  · have hbehind : behind "~" = .sign '~' := by decide +kernel
    rw [hbehind, Mode.absorb, if_neg fun h => absurd h.1 (by decide),
      if_neg fun h => absurd h.1 (by decide)]

end Chunk

/-! ## Closed fragments -/

namespace Fragment

/-- All chunks are closed. -/
def closed (f : Fragment) : Bool := f.chunks.all Chunk.closed

variable {a b f : Fragment}

/-- Two fragments in a row are closed if both are. -/
@[simp] theorem closed_append (a b : Fragment) : (a ++ b).closed = (a.closed && b.closed) :=
  List.all_append

@[simp] theorem closed_token (t : Token) : (token t).closed = true := rfl

@[simp] theorem closed_parens (a : Fragment) : a.parens.closed = a.closed := by
  rw [parens, closed_append, closed_append]
  exact Bool.and_true _

@[simp] theorem closed_notIf (negated : Bool) : (Clauses.notIf negated).closed = true := by
  cases negated <;> rfl

/-- Separators leave nothing open, so fragments between them are closed if each of them is. -/
theorem closed_joinWith (separator : Token) : (fs : List Fragment) →
    (joinWith separator fs).closed = fs.all closed
  | [] => rfl
  | [f] => (Bool.and_true _).symm
  | f :: g :: rest => by
      rw [joinWith, closed_append, closed_append, closed_token, Bool.and_true,
        closed_joinWith separator (g :: rest)]
      rfl

/-- What is inserted before a closing parenthesis is closed as it is by itself. -/
theorem closed_insertBeforeClose (a tail : Fragment) :
    (a.insertBeforeClose tail).closed = (a.closed && tail.closed) := by
  unfold insertBeforeClose
  split
  · rename_i hlast
    obtain ⟨init, hinit⟩ := List.getLast?_eq_some_iff.mp hlast
    rw [closed, closed, hinit, List.dropLast_concat, List.all_append, List.all_append,
      List.all_append]
    exact Bool.and_right_comm ..
  · exact closed_append a tail

/-- The symbols of a closed chunk are all of its symbols. -/
theorem symbols?_single {c : Chunk} (h : c.closed = true) :
    (single c).symbols? = some c.symbols := by
  rw [Fragment.symbols?, text_single]
  exact (Chunk.nests_of_closed h).1

/-- A closed chunk in front of closed chunks. -/
theorem symbols?_cons {c : Chunk} {rest : List Chunk} {ys : List Symbol} (hc : c.closed = true)
    (hrest : ∀ d ∈ rest, d.closed = true) (hys : (Fragment.mk rest).symbols? = some ys) :
    (Fragment.mk (c :: rest)).symbols? = some (c.symbols ++ ys) := by
  refine symbols?_append_of (a := single c) (symbols?_single hc) hys ?_
  intro last d hlast hhead hspaced x hx
  obtain rfl : c = last := Option.some.inj hlast
  obtain ⟨y, hy, _⟩ := Chunk.initial_of_closed (hrest d (List.mem_of_head? hhead))
  obtain rfl : y = x := Option.some.inj ((head?_text hhead hy).symm.trans hx)
  have hsettled := (symbols?_eq_some.mp (symbols?_single hc)).1
  rw [text_single] at hsettled ⊢
  -- Only an operator hugs what stands behind it without a blank or a sign in between.
  by_cases hop : ∃ op, c = .prefixOp op
  · obtain ⟨op, rfl⟩ := hop
    exact Chunk.absorb_of_prefix (of_decide_eq_true hc) (hrest d (List.mem_of_head? hhead))
      hspaced hy
  · rcases Chunk.parting_of_spaced (fun op h => hop ⟨op, h⟩) hspaced with
      ⟨z, hz, hclast⟩ | ⟨z, hz, htext⟩
    · exact absorb_behind_parting hsettled hclast hz y
    · obtain rfl : z = y := Option.some.inj (htext.symm.trans hy)
      exact absorb_parting hsettled hz

/-- **The symbols of closed chunks are those of each in a row.** -/
theorem symbols?_of_closed : {chunks : List Chunk} → (∀ c ∈ chunks, c.closed = true) →
    (Fragment.mk chunks).symbols? = some (chunks.flatMap Chunk.symbols)
  | [], _ => rfl
  | c :: rest, h => by
      obtain ⟨hc, hrest⟩ := List.forall_mem_cons.mp h
      exact symbols?_cons hc hrest (symbols?_of_closed hrest)

end Fragment

/-! ## The walk over a fragment -/

namespace Nesting

/-- As many parentheses are open, and nothing else. -/
structure State.Deep (s : State) (depth : Nat) : Prop where
  length : s.outer.length = depth
  parens : ∀ level ∈ s.outer, level.1 = .paren

variable {s : State} {depth : Nat}

/-- Between parentheses only, the next symbol is read as one. -/
theorem State.Deep.free (h : s.Deep depth) : s.free = true := by
  obtain ⟨_ | ⟨level, rest⟩, items⟩ := s
  · rfl
  · have hlevel := h.parens level (List.mem_cons_self ..)
    simp [State.free, hlevel]

/-- The walk over one chunk follows the count of open groups. -/
theorem exists_step {c : Chunk} (hc : c.closed = true) (hs : s.Deep depth) {behind : Nat}
    (hscan : Reader.scan depth [c] = some behind) :
    ∃ next, c.symbols.foldlM step s = some next ∧ next.Deep behind := by
  -- The parentheses are what changes the count; every other chunk nests by itself.
  by_cases hopen : c = .token .openParen
  · subst hopen
    obtain rfl : depth + 1 = behind := Option.some.inj hscan
    refine ⟨s.opened .paren, ?_, ?_⟩
    · rw [Chunk.symbols_open]
      rfl
    · exact ⟨congrArg (· + 1) hs.length, List.forall_mem_cons.mpr ⟨rfl, hs.parens⟩⟩
  by_cases hclose : c = .token .closeParen
  · subst hclose
    cases depth with
    | zero => cases hscan
    | succ depth =>
        obtain rfl : depth = behind := Option.some.inj hscan
        obtain ⟨_ | ⟨⟨bracket, before⟩, rest⟩, items⟩ := s
        · cases hs.length
        · obtain ⟨hbracket, hrest⟩ := List.forall_mem_cons.mp hs.parens
          obtain rfl : bracket = .paren := hbracket
          refine ⟨⟨rest, before ++ [.group .paren items]⟩, ?_, ?_⟩
          · rw [Chunk.symbols_close]
            rfl
          · exact ⟨Nat.succ.inj hs.length, hrest⟩
  obtain ⟨items, hitems⟩ := (Chunk.nests_of_closed hc).2 hopen hclose
  obtain rfl : depth = behind :=
    Option.some.inj ((balanced_single c hopen hclose depth).symm.trans hscan)
  exact ⟨_, hitems s hs.free, ⟨hs.length, hs.parens⟩⟩

/-- **The walk over closed chunks** follows the count of open groups. -/
theorem exists_walk : {chunks : List Chunk} → (∀ c ∈ chunks, c.closed = true) →
    ∀ {s : State} {depth behind : Nat}, s.Deep depth → Reader.scan depth chunks = some behind →
      ∃ next, (chunks.flatMap Chunk.symbols).foldlM step s = some next ∧ next.Deep behind
  | [], _, s, depth, behind, hs, hscan => ⟨s, rfl, Option.some.inj hscan ▸ hs⟩
  | c :: rest, h, s, depth, behind, hs, hscan => by
      obtain ⟨hc, hrest⟩ := List.forall_mem_cons.mp h
      have hsplit : Reader.scan depth (c :: rest) =
          (Reader.scan depth [c]).bind (Reader.scan · rest) := Reader.scan_append [c] rest depth
      obtain ⟨middle, hmiddle, hbehind⟩ := Option.bind_eq_some_iff.mp (hsplit.symm.trans hscan)
      obtain ⟨between, hbetween, hdeep⟩ := exists_step hc hs hmiddle
      obtain ⟨next, hnext, hlast⟩ := exists_walk hrest hdeep hbehind
      refine ⟨next, ?_, hlast⟩
      rw [List.flatMap_cons, List.foldlM_append, hbetween]
      exact hnext

/-- At the beginning no parenthesis is open. -/
theorem deep_nothing : State.Deep ⟨[], []⟩ 0 := ⟨rfl, nofun⟩

end Nesting

namespace Fragment

variable {a f : Fragment}

/-- **Closed and balanced fragments have items.** -/
theorem exists_items (hclosed : f.closed = true) (hbalanced : f.Balanced) :
    ∃ items, f.items? = some items := by
  have hall : ∀ c ∈ f.chunks, c.closed = true := List.all_eq_true.mp hclosed
  obtain ⟨last, hlast, hdeep⟩ := exists_walk hall deep_nothing (hbalanced 0)
  have hempty : last.outer = [] := List.length_eq_zero_iff.mp hdeep.length
  refine ⟨last.items, ?_⟩
  rw [items?, symbols?_of_closed hall, Option.bind_some, Symbol.items?, hlast]
  exact if_pos (List.isEmpty_iff.mpr hempty)

/-- **What is inserted in front of the last parenthesis** is added to the last group. -/
theorem items?_insertBeforeClose {tail : Fragment} {xs more : List ReadItem}
    (ha : a.closed = true) (htail : tail.closed = true)
    (hlast : a.chunks.getLast? = some (.token .closeParen)) (hxs : a.items? = some xs)
    (hmore : tail.items? = some more) : ∃ before inside, xs = before ++ [.group .paren inside] ∧
      (a.insertBeforeClose tail).items? = some (before ++ [.group .paren (inside ++ more)]) := by
  obtain ⟨init, hinit⟩ := List.getLast?_eq_some_iff.mp hlast
  -- Closed fragments are read chunk by chunk, so their items are those of the symbols.
  have hsymbols : ∀ {f : Fragment} {items}, f.closed = true → f.items? = some items →
      Symbol.items? (f.chunks.flatMap Chunk.symbols) = some items := by
    intro f items hf hitems
    rwa [items?, symbols?_of_closed (List.all_eq_true.mp hf)] at hitems
  have hxs := hsymbols ha hxs
  rw [hinit, List.flatMap_append, List.flatMap_singleton, Chunk.symbols_close] at hxs
  obtain ⟨before, inside, rfl, hinsert⟩ :=
    Symbol.items?_insert hxs (Symbol.nests_of_items? (hsymbols htail hmore))
  refine ⟨before, inside, rfl, ?_⟩
  -- What is inserted is closed, so the whole is.
  have hclosed : (a.insertBeforeClose tail).closed = true := by
    rw [closed_insertBeforeClose, ha, htail]
    rfl
  rw [items?, symbols?_of_closed (List.all_eq_true.mp hclosed), insertBeforeClose, if_pos hlast,
    hinit, List.dropLast_concat, List.flatMap_append, List.flatMap_append, List.flatMap_singleton,
    Chunk.symbols_close]
  exact hinsert

end Fragment

end RelationalQuery
