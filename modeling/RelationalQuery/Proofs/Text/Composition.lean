/-
  RelationalQuery.Proofs.Text.Composition — the text and the arguments of fragments in a row.

  A fragment is built from its chunks in order, so what two fragments make in a row is what each of
  them makes: their texts with at most one blank between them, their positional values one after
  the other, and their named values bound in order.

  Main definitions:
    * `Fragment.gap`: the blank between two fragments.
    * `Fragment.positional`: the positional values that a fragment brings.

  Main statements:
    * `Fragment.text_append`, `Fragment.text_parens`: texts.
    * `Fragment.arguments_eq_ok`: the arguments of a fragment are what it brings, in order.
    * `Fragment.arguments_enclosed`: chunks that bring nothing change no arguments.
-/

import RelationalQuery.Proofs.Execution.Bindings

namespace RelationalQuery

namespace Fragment

/-! ## Texts -/

/-- The blank between two fragments, if there is one. -/
def gap (a b : Fragment) : String :=
  match a.chunks.getLast?, b.chunks.head? with
  | some c, some d => if c.spaced d then " " else ""
  | _, _ => ""

/-- The text of two pieces has only a gap between their texts. -/
theorem join_pieces_append : (cs ds : List Chunk) →
    String.join (pieces (cs ++ ds)) =
      String.join (pieces cs) ++ gap ⟨cs⟩ ⟨ds⟩ ++ String.join (pieces ds)
  | [], ds => by
      show _ = "" ++ "" ++ _
      rw [String.empty_append, String.empty_append]
      rfl
  | [c], [] => by
      show _ = _ ++ "" ++ ""
      rw [String.append_empty, String.append_empty]
      rfl
  | [c], d :: rest => by
      -- Between the last chunk and the first one there may be a blank.
      have hgap : gap ⟨[c]⟩ ⟨d :: rest⟩ = if c.spaced d then " " else "" := rfl
      rw [hgap, List.singleton_append, pieces, pieces, String.join_cons, String.join_cons,
        String.join_nil, String.append_empty]
      split
      · rfl
      · rw [String.append_empty]
  | c :: d :: rest, ds => by
      -- The gap depends on the last chunk in front of it only.
      have hgap : gap ⟨c :: d :: rest⟩ ⟨ds⟩ = gap ⟨d :: rest⟩ ⟨ds⟩ := by
        unfold gap
        rw [List.getLast?_cons_cons]
      show String.join (_ :: pieces ((d :: rest) ++ ds)) =
        String.join (_ :: pieces (d :: rest)) ++ _ ++ _
      rw [String.join_cons, String.join_cons, join_pieces_append (d :: rest) ds, hgap]
      simp only [String.append_assoc]

/-- **The text of two fragments in a row** is their texts with the blank between them. -/
theorem text_append (a b : Fragment) : (a ++ b).text = a.text ++ gap a b ++ b.text :=
  join_pieces_append a.chunks b.chunks

theorem text_single (c : Chunk) : (single c).text = c.text := by
  show String.join [c.text] = c.text
  rw [String.join_cons, String.join_nil, String.append_empty]

/-- A fragment begins with the first character of its first chunk. -/
theorem head?_text {f : Fragment} {d : Chunk} {x : Char} (hd : f.chunks.head? = some d)
    (hx : d.text.toList.head? = some x) : f.text.toList.head? = some x := by
  obtain ⟨chunks⟩ := f
  cases chunks with
  | nil => cases hd
  | cons first rest =>
      obtain rfl : first = d := Option.some.inj hd
      have hsplit : (⟨first :: rest⟩ : Fragment) = single first ++ ⟨rest⟩ := rfl
      rw [hsplit, text_append, text_single, String.toList_append, String.toList_append,
        List.append_assoc, List.head?_append, hx]
      rfl

/-- A fragment ends with the last character of its last chunk. -/
theorem getLast?_text {f : Fragment} {c : Chunk} {x : Char} (hc : f.chunks.getLast? = some c)
    (hx : c.text.toList.getLast? = some x) : f.text.toList.getLast? = some x := by
  obtain ⟨init, hinit⟩ := List.getLast?_eq_some_iff.mp hc
  have hsplit : f = ⟨init⟩ ++ single c := congrArg Fragment.mk hinit
  rw [hsplit, text_append, text_single, String.toList_append, List.getLast?_append, hx]
  rfl

/-- A fragment keeps its text between others. -/
theorem text_within (a b c : Fragment) :
    ∃ before after, (a ++ b ++ c).text = before ++ b.text ++ after := by
  refine ⟨a.text ++ gap a b, gap (a ++ b) c ++ c.text, ?_⟩
  rw [text_append, text_append, ← String.append_assoc]

/-- Nothing stands behind an opening parenthesis. -/
theorem gap_eq_empty_of_open (a b : Fragment) : gap (a ++ token .openParen) b = "" := by
  have hlast : (a ++ token .openParen).chunks.getLast? = some (.token .openParen) :=
    List.getLast?_concat
  unfold gap
  rw [hlast]
  cases hhead : b.chunks.head? with
  | none => rfl
  | some d =>
      have hspaced : (Chunk.token .openParen).spaced d = false := by
        unfold Chunk.spaced Chunk.parted
        split <;> simp_all
      simp only [hspaced]
      rfl

/-- Nothing stands in front of a closing parenthesis. -/
theorem gap_eq_empty_of_close (a b : Fragment) : gap a (token .closeParen ++ b) = "" := by
  unfold gap
  cases hlast : a.chunks.getLast? with
  | none => rfl
  | some c =>
      show (if c.spaced (.token .closeParen) then " " else "") = ""
      have hspaced : c.spaced (.token .closeParen) = false := by
        simp [Chunk.spaced, Chunk.parted]
      rw [hspaced]
      rfl

/-- A closing parenthesis is set apart from a keyword. -/
theorem gap_close_word (a b : Fragment) {t : Token} (h : t.isWord = true) :
    gap (a ++ token .closeParen) (token t ++ b) = " " := by
  have hlast : (a ++ token .closeParen).chunks.getLast? = some (.token .closeParen) :=
    List.getLast?_concat
  have hspaced : (Chunk.token .closeParen).spaced (.token t) = true := by
    cases t <;> first | rfl | cases h
  unfold gap
  rw [hlast]
  show (if (Chunk.token .closeParen).spaced (.token t) then " " else "") = " "
  rw [hspaced]
  rfl

/-- Parentheses hug what stands between them. -/
theorem text_parens (a : Fragment) : a.parens.text = "(" ++ a.text ++ ")" := by
  have hopen : gap (token .openParen) a = "" := gap_eq_empty_of_open empty a
  have hclose : gap (token .openParen ++ a) (token .closeParen) = "" :=
    gap_eq_empty_of_close _ empty
  rw [parens, text_append, text_append, hopen, hclose, String.append_empty, String.append_empty]
  rfl

end Fragment

/-! ## Arguments -/

/-- The positional values that a chunk brings. -/
def Chunk.positional : Chunk → List Value
  | .param v => [v]
  | .literal _ (some own) => own.positional
  | _ => []

/-- The chunk brings no arguments. -/
def Chunk.silent : Chunk → Bool
  | .param _ | .literal _ (some _) => false
  | _ => true

/-- Merging named values leaves the positional ones alone. -/
theorem Arguments.mergeNamed_positional (a : Arguments) : (pairs : List (String × Value)) →
    (a.mergeNamed pairs).1.positional = a.positional
  | [] => rfl
  | (name, v) :: rest => by
      rw [mergeNamed]
      split
      · split
        · exact mergeNamed_positional a rest
        · rfl
      · exact mergeNamed_positional { a with named := a.named ++ [(name, v)] } rest

namespace Fragment

/-- The positional values that a fragment brings, in order. -/
def positional (a : Fragment) : List Value := a.chunks.flatMap Chunk.positional

@[simp] theorem positional_append (a b : Fragment) :
    (a ++ b).positional = a.positional ++ b.positional := List.flatMap_append

/-- Collecting a chunk puts its positional values behind the others. -/
theorem collect_positional {start next : Arguments} {c : Chunk}
    (h : collect start c = .ok next) : next.positional = start.positional ++ c.positional := by
  cases c with
  | param v =>
      cases h
      rfl
  | literal sql own =>
      cases own with
      | none =>
          cases h
          exact (List.append_nil _).symm
      | some own =>
          rw [collect, Arguments.append, Arguments.merge] at h
          -- Named values are merged behind the positional ones, which stay.
          have hmerged := Arguments.mergeNamed_positional
            { start with positional := start.positional ++ own.positional } own.named
          generalize Arguments.mergeNamed _ own.named = merged at h hmerged
          obtain ⟨merged, clash⟩ := merged
          cases clash with
          | none =>
              cases h
              exact hmerged
          | some name => cases h
  | token _ | ident _ | raw _ | number _ | function _ | prefixOp _ =>
      cases h
      exact (List.append_nil _).symm

/-- The positional values of chunks are collected in order. -/
theorem foldlM_collect_positional : (chunks : List Chunk) → ∀ {start last : Arguments},
    chunks.foldlM collect start = .ok last →
      last.positional = start.positional ++ chunks.flatMap Chunk.positional
  | [], start, last, h => by
      cases h
      exact (List.append_nil _).symm
  | c :: rest, start, last, h => by
      rw [List.foldlM_cons] at h
      obtain ⟨next, hnext, hrest⟩ := bind_eq_ok.mp h
      rw [foldlM_collect_positional rest hrest, collect_positional hnext, List.flatMap_cons,
        List.append_assoc]

/-- **The arguments of a fragment are what it brings, in order**: its positional values one after
the other, and its named values, of which none is bound to two values that do not agree. -/
theorem arguments_eq_ok {a : Fragment} {arguments : Arguments} (h : a.arguments = .ok arguments) :
    arguments.positional = a.positional ∧
      Arguments.bindAll [] a.bindings = some arguments.named := by
  have hnamed := foldlM_collect_named a.chunks .empty
  unfold Fragment.arguments at h
  rw [h] at hnamed
  exact ⟨foldlM_collect_positional a.chunks h, hnamed⟩

/-- A silent chunk has no arguments to collect. -/
theorem collect_of_silent {c : Chunk} (h : c.silent = true) (start : Arguments) :
    collect start c = .ok start := by
  cases c with
  | param v => cases h
  | literal sql own =>
      cases own with
      | none => rfl
      | some own => cases h
  | token _ | ident _ | raw _ | number _ | function _ | prefixOp _ => rfl

/-- Chunks that bring nothing change no arguments. -/
theorem foldlM_collect_of_silent : (chunks : List Chunk) → (∀ c ∈ chunks, c.silent = true) →
    ∀ start : Arguments, chunks.foldlM collect start = .ok start
  | [], _, _ => rfl
  | c :: rest, h, start => by
      obtain ⟨hc, hrest⟩ := List.forall_mem_cons.mp h
      rw [List.foldlM_cons, collect_of_silent hc]
      exact foldlM_collect_of_silent rest hrest start

/-- A fragment between chunks that bring nothing has the arguments that it has alone. -/
theorem arguments_enclosed (before a after : Fragment)
    (hbefore : ∀ c ∈ before.chunks, c.silent = true)
    (hafter : ∀ c ∈ after.chunks, c.silent = true) :
    (before ++ a ++ after).arguments = a.arguments := by
  unfold arguments
  rw [chunks_append, chunks_append, List.foldlM_append, List.foldlM_append,
    foldlM_collect_of_silent _ hbefore, ok_bind]
  cases a.chunks.foldlM collect .empty with
  | error e => rfl
  | ok arguments => exact foldlM_collect_of_silent _ hafter arguments

end Fragment

end RelationalQuery
