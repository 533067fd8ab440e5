/-
  RelationalQuery.Proofs.Text.Prefixes — operators in front of an operand.

  A prefix operator is written flush against its operand, but for a blank between two minus signs.
  That keeps signs apart. The operator NOT is a word, though, and a word that hugs another word, or
  a number, is read as one with it: NOT in front of ABS(..) or of a second NOT is lost. Everything
  else that an operand can begin with ends the operator, whatever chain of operators it stands in.

  Main definitions:
    * `Expr.prefixed`: an expression behind a chain of operators.
    * `Fragment.RunsInto`: the operator is read as one with what follows it.

  Main statements:
    * `Fragment.lex_prefixed_iff`: a chain is read operator by operator if none runs into the next.
    * `Expr.lex_prefixed`: chains in front of expressions.
    * `notAbs_fused`: a chain that is not read as it was meant.
-/

import RelationalQuery.Proofs.Text.Composition
import RelationalQuery.Proofs.Text.Fidelity

namespace RelationalQuery

open Lexeme Lexer

/-- SQL's operators in front of one operand. -/
def unaryTexts : List String := ["-", "+", "~", "NOT"]

/-- A goal about each of the operators is one about the three signs and the word. -/
theorem forall_unaryTexts {p : String → Prop} (hminus : p "-") (hplus : p "+") (htilde : p "~")
    (hnot : p "NOT") : ∀ op ∈ unaryTexts, p op := by
  intro op hop
  simp only [unaryTexts, List.mem_cons, List.not_mem_nil, or_false] at hop
  rcases hop with rfl | rfl | rfl | rfl
  · exact hminus
  · exact hplus
  · exact htilde
  · exact hnot

/-! ## Lexemes that are longer than operators -/

/-- A word of more than three letters, a mark of more than one character, or a comment. -/
def Lexeme.isLong : Lexeme → Bool
  | .word text => 3 < text.length
  | .mark text => 1 < text.length
  | .comment => true
  | _ => false

theorem isLong_unary : ∀ op ∈ unaryTexts, (ofText op).isLong = false :=
  forall_unaryTexts (by decide) (by decide) (by decide) (by decide)

namespace Lexer

/-- The lexeme at hand is longer than an operator already. -/
def Held.isLong : Held → Bool
  | .word text => 3 < text.length
  | .mark text => 1 < text.length
  | .lineComment => true
  | _ => false

/-- A lexeme that is long stays so with more characters. -/
theorem Held.isLong_absorb {held longer : Held} {c : Char} (h : held.isLong = true)
    (habsorb : held.absorb c = some longer) : longer.isLong = true := by
  cases held with
  | word text =>
      have hlong : 3 < text.length := of_decide_eq_true h
      rw [Held.absorb] at habsorb
      split at habsorb
      · obtain rfl := Option.some.inj habsorb
        simp only [Held.isLong, List.length_append, decide_eq_true_iff]
        omega
      · cases habsorb
  | mark text =>
      -- A mark of two characters begins neither a comment nor a number.
      have hlong : 1 < text.length := of_decide_eq_true h
      have hone : ∀ x : Char, text ≠ [x] := by
        rintro x rfl
        simp at hlong
      simp only [Held.absorb, hone, false_and, if_false] at habsorb
      split at habsorb
      · obtain rfl := Option.some.inj habsorb
        simp only [Held.isLong, List.length_append, decide_eq_true_iff]
        omega
      · cases habsorb
  | lineComment =>
      rw [Held.absorb] at habsorb
      split at habsorb
      · cases habsorb
      · obtain rfl := Option.some.inj habsorb
        rfl
  | nothing | quoted | closed | number | placeholder | blockComment | comment => cases h

/-- A long lexeme is completed as one that is long. -/
theorem Held.isLong_complete {held : Held} {done : List Lexeme} (h : held.isLong = true)
    (hdone : held.complete = some done) : ∃ l, done = [l] ∧ l.isLong = true := by
  cases held with
  | word text =>
      refine ⟨_, (Option.some.inj hdone).symm, ?_⟩
      rwa [Lexeme.isLong, String.length_ofList]
  -- A mark is completed only if it is one of the known ones.
  | mark text =>
      rw [Held.complete] at hdone
      split at hdone
      · refine ⟨_, (Option.some.inj hdone).symm, ?_⟩
        rwa [Lexeme.isLong, String.length_ofList]
      · cases hdone
  | lineComment => exact ⟨_, (Option.some.inj hdone).symm, rfl⟩
  | nothing | quoted | closed | number | placeholder | blockComment | comment => cases h

-- By induction on the text to come: what is at hand only gets longer, until it is complete.

/-- **A lexeme that is longer than an operator does not end as one.** -/
theorem isLong_of_lexFrom {held : Held} {text : List Char} {ls : List Lexeme}
    (h : held.isLong = true) (hls : lexFrom held text = some ls) :
    ∃ l ∈ ls.head?, l.isLong = true := by
  -- A lexeme only gets longer while it takes in characters, and it comes first when it is done.
  induction text generalizing held with
  | nil =>
      obtain ⟨l, rfl, hl⟩ := Held.isLong_complete h hls
      exact ⟨l, rfl, hl⟩
  | cons c rest ih =>
      rw [lexFrom] at hls
      cases habsorb : held.absorb c with
      | some longer =>
          rw [habsorb] at hls
          exact ih (Held.isLong_absorb h habsorb) hls
      | none =>
          rw [habsorb] at hls
          obtain ⟨done, hdone, hls⟩ := Option.bind_eq_some_iff.mp hls
          obtain ⟨next, _, hls⟩ := Option.bind_eq_some_iff.mp hls
          obtain ⟨others, _, hls⟩ := Option.bind_eq_some_iff.mp hls
          obtain rfl := Option.some.inj hls
          obtain ⟨l, rfl, hl⟩ := Held.isLong_complete h hdone
          exact ⟨l, rfl, hl⟩

/-- A lexeme is complete in front of a text whose first character it does not take in. -/
theorem lexFrom_apart {held : Held} {done : List Lexeme} (hdone : held.complete = some done) :
    (text : List Char) → (∀ c ∈ text.head?, held.absorb c = none) →
      lexFrom held text = (done ++ ·) <$> lexFrom .nothing text
  | [], _ => by
      show held.complete = some (done ++ [])
      rw [hdone, List.append_nil]
  | c :: rest, h => by
      cases hnext : begin? c with
      | some next =>
          have hbegin : lexFrom .nothing (c :: rest) = ([] ++ ·) <$> lexFrom next rest :=
            lexFrom_break rfl rfl hnext rest
          rw [lexFrom_break (h c rfl) hdone hnext, hbegin]
          cases lexFrom next rest <;> rfl
      -- No lexeme begins with the character, so neither text can be read.
      | none =>
          have hstuck : ∀ {other : Held}, other.absorb c = none →
              lexFrom other (c :: rest) = none := by
            intro other hother
            simp [lexFrom, hother, hnext]
          rw [hstuck (h c rfl), hstuck rfl]
          rfl

end Lexer

/-! ## One operator -/

/-- The operator goes on with the character: a word with a letter, a digit or the like, and a minus
sign with another one or with the point of an arrow. -/
def clings (op : String) (c : Char) : Bool :=
  if op = "NOT" then continuesWord c else op == "-" && (c == '-' || c == '>')

theorem spells_unary : ∀ op ∈ unaryTexts, Spells op (ofText op) :=
  forall_unaryTexts (by decide) (by decide) (by decide) (by decide)

/-- An operator in front of a text is read first. -/
theorem lexFrom_unary {op : String} (hop : op ∈ unaryTexts) (rest : List Char) :
    lexFrom .nothing (op.toList ++ rest) = ([] ++ ·) <$> lexFrom (ofText op).held rest :=
  (spells_unary op hop).lexFrom_append rfl (fun _ _ => rfl) rest

/-- What an operator does not go on with, ends it. -/
theorem absorb_unary (c : Char) : ∀ op ∈ unaryTexts,
    clings op c = false → (ofText op).held.absorb c = none := by
  refine forall_unaryTexts ?_ (fun _ => rfl) (fun _ => rfl) ?_
  · intro h
    have hapart : ¬c = '-' ∧ ¬c = '>' := by simpa [clings] using h
    show Held.absorb (.mark ['-']) c = none
    simp [Held.absorb, beginsMark, marks, hapart]
  · intro h
    have hapart : continuesWord c = false := h
    show Held.absorb (.word ['N', 'O', 'T']) c = none
    simp [Held.absorb, hapart]

/-- What an operator goes on with, makes another lexeme of it. -/
theorem isLong_of_clings (c : Char) : ∀ op ∈ unaryTexts,
    clings op c = true →
      ∃ longer, (ofText op).held.absorb c = some longer ∧ longer.isLong = true := by
  refine forall_unaryTexts ?_ (fun h => absurd h (by simp [clings]))
    (fun h => absurd h (by simp [clings])) ?_
  · -- After a minus sign another one begins a comment, and a greater-than sign an arrow.
    intro h
    have hclings : c = '-' ∨ c = '>' := by simpa [clings] using h
    rcases hclings with rfl | rfl
    · exact ⟨.lineComment, rfl, rfl⟩
    · exact ⟨.mark ['-', '>'], rfl, rfl⟩
  · intro h
    have hclings : continuesWord c = true := h
    refine ⟨.word ['N', 'O', 'T', c], ?_, rfl⟩
    show Held.absorb (.word ['N', 'O', 'T']) c = _
    simp [Held.absorb, hclings]

namespace Fragment

/-- The operator is read as one with what follows it: no blank is written between them, and it goes
on with the first character. -/
def RunsInto (op : String) (f : Fragment) : Prop :=
  gap (single (.prefixOp op)) f = "" ∧ f.text.toList.head?.any (clings op) = true

/-- Between two fragments stands nothing or a blank. -/
theorem gap_cases (a b : Fragment) : gap a b = "" ∨ gap a b = " " := by
  unfold gap
  split
  · split
    · exact .inr rfl
    · exact .inl rfl
  · exact .inl rfl

variable {op : String} {f : Fragment}

/-- **An operator that does not run into what follows it is a lexeme of its own.** -/
theorem lex_prefixOp (hop : op ∈ unaryTexts) (h : ¬RunsInto op f) :
    lex (single (.prefixOp op) ++ f).text = (ofText op :: ·) <$> lex f.text := by
  have hspells := spells_unary op hop
  have htext : (single (.prefixOp op)).text = op := text_single _
  rw [text_append, htext, lex, String.toList_append, String.toList_append, List.append_assoc,
    lexFrom_unary hop]
  rcases gap_cases (single (.prefixOp op)) f with hgap | hgap
  · -- The operator ends in front of the first character, or the text is empty.
    have happart : ∀ c ∈ f.text.toList.head?, (ofText op).held.absorb c = none := by
      intro c hc
      refine absorb_unary c op hop ?_
      rw [← Bool.not_eq_true]
      intro hclings
      refine h ⟨hgap, ?_⟩
      rw [Option.mem_def.mp hc]
      exact hclings
    rw [hgap, String.toList_empty, List.nil_append, lexFrom_apart hspells.complete _ happart, lex]
    cases lexFrom .nothing f.text.toList <;> rfl
  · rw [hgap]
    show _ <$> lexFrom _ (' ' :: f.text.toList) = _
    rw [hspells.lexFrom_blank, lex]
    cases lexFrom .nothing f.text.toList <;> rfl

/-- **An operator that runs into what follows it is lost.** -/
theorem lex_of_runsInto (hop : op ∈ unaryTexts) (h : RunsInto op f) {ls : List Lexeme} :
    lex (single (.prefixOp op) ++ f).text ≠ some (ofText op :: ls) := by
  obtain ⟨hgap, hclings⟩ := h
  obtain ⟨c, hc, hclings⟩ := (Option.any_eq_true _ _).mp hclings
  have hspells := spells_unary op hop
  have htext : (single (.prefixOp op)).text = op := text_single _
  obtain ⟨longer, hlonger, hlonger'⟩ := isLong_of_clings c op hop hclings
  -- The operator takes in the first character, so the first lexeme is longer than it.
  intro hlex
  rw [text_append, htext, lex, hgap, String.append_empty, String.toList_append,
    lexFrom_unary hop] at hlex
  cases hrest : f.text.toList with
  | nil =>
      rw [hrest] at hc
      cases hc
  | cons first rest =>
      rw [hrest] at hc hlex
      obtain rfl : first = c := Option.some.inj hc
      rw [lexFrom, hlonger] at hlex
      obtain ⟨ls', hls', heq⟩ := Option.map_eq_some_iff.mp hlex
      obtain rfl : ls' = ofText op :: ls := heq
      obtain ⟨l, hl, hlong⟩ := isLong_of_lexFrom hlonger' hls'
      obtain rfl : ofText op = l := Option.some.inj hl
      exact Bool.false_ne_true ((isLong_unary op hop).symm.trans hlong)

/-! ## Chains of operators -/

/-- The fragment behind a chain of operators. -/
def prefixed (ops : List String) (f : Fragment) : Fragment :=
  ops.foldr (fun op operand => single (.prefixOp op) ++ operand) f

/-- Some operator of the chain runs into what follows it. -/
def Fuses (f : Fragment) : List String → Prop
  | [] => False
  | op :: rest => RunsInto op (prefixed rest f) ∨ Fuses f rest

/-- Of two operators only a word runs into the other one, and only into a word. -/
theorem runsInto_prefixOp {next : String} (hop : op ∈ unaryTexts) (hnext : next ∈ unaryTexts) :
    RunsInto op (single (.prefixOp next) ++ f) ↔ op = "NOT" ∧ next = "NOT" := by
  have hall : ∀ next ∈ unaryTexts, next.toList.head?.isSome = true ∧ ∀ op ∈ unaryTexts,
      ((if (Chunk.prefixOp op).spaced (.prefixOp next) then " " else "") = "" ∧
        next.toList.head?.any (clings op) = true ↔ op = "NOT" ∧ next = "NOT") := by decide
  obtain ⟨hsome, hall⟩ := hall next hnext
  obtain ⟨x, hx⟩ := Option.isSome_iff_exists.mp hsome
  have hhead : (single (.prefixOp next) ++ f).text.toList.head? = next.toList.head? := by
    rw [head?_text (d := .prefixOp next) rfl hx, hx]
  rw [← hall op hop, RunsInto, hhead]
  rfl

/-- A chain fuses where a word stands in front of a word, or where its last operator runs into the
operand. -/
theorem fuses_iff : (ops : List String) → (∀ op ∈ ops, op ∈ unaryTexts) →
    (Fuses f ops ↔ ["NOT", "NOT"] <:+: ops ∨ ∃ op ∈ ops.getLast?, RunsInto op f)
  | [], _ => by simp [Fuses]
  | [op], _ => by simp [Fuses, prefixed, List.infix_cons_iff]
  | op :: next :: rest, h => by
      obtain ⟨hop, hrest⟩ := List.forall_mem_cons.mp h
      have hnext := hrest next (List.mem_cons_self ..)
      -- Of two operators next to each other only NOT and NOT run together.
      have hrun : RunsInto op (prefixed (next :: rest) f) ↔ op = "NOT" ∧ next = "NOT" :=
        runsInto_prefixOp hop hnext
      have hinfix : ["NOT", "NOT"] <:+: op :: next :: rest ↔
          (op = "NOT" ∧ next = "NOT") ∨ ["NOT", "NOT"] <:+: next :: rest := by
        rw [List.infix_cons_iff, List.cons_prefix_cons, List.cons_prefix_cons]
        simp only [List.nil_prefix, and_true, eq_comm (a := "NOT")]
      rw [Fuses, hrun, fuses_iff (next :: rest) hrest, hinfix, List.getLast?_cons_cons, or_assoc]

/-- **A chain of operators is read one by one just if none runs into what follows it.** -/
theorem lex_prefixed_iff {ls : List Lexeme} (hls : lex f.text = some ls) : (ops : List String) →
    (∀ op ∈ ops, op ∈ unaryTexts) →
      (lex (prefixed ops f).text = some (ops.map ofText ++ ls) ↔ ¬Fuses f ops)
  | [], _ => iff_of_true hls id
  | op :: rest, h => by
      obtain ⟨hop, hrest⟩ := List.forall_mem_cons.mp h
      have ih := lex_prefixed_iff hls rest hrest
      rw [Fuses, not_or]
      -- An operator that runs into the rest spoils the text, whatever comes of the rest.
      by_cases hrun : RunsInto op (prefixed rest f)
      · exact iff_of_false (lex_of_runsInto hop hrun) fun hapart => hapart.1 hrun
      · have hread := lex_prefixOp hop hrun
        show lex (single (.prefixOp op) ++ prefixed rest f).text = _ ↔ _
        rw [hread, ← ih]
        simp [hrun]

end Fragment

/-! ## Chains in front of expressions -/

/-- The expression behind a chain of operators. -/
def Expr.prefixed (ops : List String) (e : Expr) : Expr := ops.foldr .prefixOp e

/-- A chain of operators is rendered in front of what its operand is rendered as. -/
theorem Expr.render_prefixed {scope : Scope} {e : Expr} {f : Fragment}
    (h : e.render scope false = .ok f) : (ops : List String) →
      (e.prefixed ops).render scope false = .ok (f.prefixed ops)
  | [] => h
  | op :: rest => by
      show (Expr.prefixOp op (e.prefixed rest)).render scope false = _
      rw [Expr.render, Expr.render_prefixed h rest]
      rfl

namespace Chunk

variable {c d : Chunk}

theorem Plain.exists_initial (h : c.Plain) : ∃ x, c.initial? = some x := by
  have hreads := h.spells.reads
  rw [read?] at hreads
  unfold initial?
  cases htext : c.text.toList with
  | nil =>
      rw [htext] at hreads
      cases hreads
  | cons x rest => exact ⟨x, rfl⟩

/-- Only a minus sign is ever parted from its operand. -/
theorem spaced_prefixOp {op : String} (h : endsMinus op = false) :
    (Chunk.prefixOp op).spaced d = false := by
  unfold spaced parted
  split <;> simp_all

/-- A minus sign is parted from another one. -/
theorem Plain.spaced_minus (h : d.Plain) (hminus : d.startsMinus = true) :
    (Chunk.prefixOp "-").spaced d = true := by
  have hop : (Chunk.prefixOp "-").Plain := .prefixOp (by decide)
  have hends : endsMinus "-" = true := by decide
  have hmark : ∀ t, d ≠ .token t := by
    rintro t rfl
    cases hminus
  rw [hop.spaced_eq h]
  unfold parted
  split <;> simp_all

end Chunk

/-- **No sign runs into an operand that is made of plain chunks**, and the word NOT does just if the
operand begins with a word or a number. -/
theorem Fragment.Operand.runsInto_iff {f : Fragment} (h : f.Operand) : ∀ op ∈ unaryTexts,
    (RunsInto op f ↔ op = "NOT" ∧ f.text.toList.head?.any continuesWord = true) := by
  obtain ⟨c, rest, hchunks, hfirst⟩ := h.first
  have hplain : c.Plain := h.plain c (hchunks ▸ List.mem_cons_self ..)
  obtain ⟨x, hx⟩ := hplain.exists_initial
  have hhead : f.text.toList.head? = some x := head?_text (by rw [hchunks]; rfl) hx
  have hgap : ∀ op, gap (single (.prefixOp op)) f =
      if (Chunk.prefixOp op).spaced c then " " else "" := by
    intro op
    unfold gap
    rw [hchunks]
    rfl
  simp only [RunsInto, hgap, hhead, Option.any_some]
  refine forall_unaryTexts ?_ ?_ ?_ ?_
  · -- A minus sign would take in another, from which it is parted, or >, with which no operand
    -- begins.
    refine iff_of_false ?_ (by simp)
    intro hrun
    obtain ⟨hspaced, hclings⟩ := hrun
    have hsign : x = '-' ∨ x = '>' := by simpa [clings] using hclings
    rcases hsign with rfl | rfl
    · rw [hplain.spaced_minus (hplain.startsMinus hx)] at hspaced
      exact absurd hspaced (by decide)
    · exact hfirst hx
  · simp [clings]
  · simp [clings]
  · -- NOT is not parted from anything, and takes in what continues a word.
    have hspaced : (Chunk.prefixOp "NOT").spaced c = false := Chunk.spaced_prefixOp (by decide)
    simp [hspaced, clings]

/-- **Chains of operators are read as they were meant, unless a word runs into a word.** An
expression can be written behind any chain of SQL's operators. The chain is read as one lexeme for
each operator, followed by those of the expression, just if no NOT stands in front of another one
and the last operator does not run into the expression; the signs among them never fuse with each
other. Into an expression with operators and functions of its own that are one lexeme each, nothing
but NOT can run, and it does if the expression begins with a word or a number. -/
theorem Expr.lex_prefixed {scope : Scope} {ops : List String} (hops : ∀ op ∈ ops, op ∈ unaryTexts)
    {e : Expr} {f : Fragment} (h : e.render scope false = .ok f) :
    ∃ g, (e.prefixed ops).render scope false = .ok g ∧
      (∀ ls, lex f.text = some ls →
        (lex g.text = some (ops.map ofText ++ ls) ↔
          ¬["NOT", "NOT"] <:+: ops ∧ ∀ op ∈ ops.getLast?, ¬Fragment.RunsInto op f)) ∧
      (e.Plain → ∀ op ∈ unaryTexts,
        (Fragment.RunsInto op f ↔ op = "NOT" ∧ f.text.toList.head?.any continuesWord = true)) := by
  refine ⟨f.prefixed ops, Expr.render_prefixed h ops, ?_, ?_⟩
  · intro ls hls
    rw [Fragment.lex_prefixed_iff hls ops hops, Fragment.fuses_iff ops hops, not_or]
    simp
  · intro hplain
    exact (e.render_operand scope false hplain f h).runsInto_iff

/-- A chain with both kinds of operators in front of a column is read operator by operator. -/
theorem chainBeforeColumn_read :
    (∀ op ∈ ["NOT", "-", "-", "~"], op ∈ unaryTexts) ∧
    ∃ g, ((Expr.column none "a").prefixed ["NOT", "-", "-", "~"]).render (.outermost .empty) false =
        .ok g ∧
      lex g.text = some [.word "NOT", .mark "-", .mark "-", .mark "~", .quoted "a"] := by
  have hops : ∀ op ∈ ["NOT", "-", "-", "~"], op ∈ unaryTexts := by decide
  have hcolumn : (Expr.column none "a").render (.outermost .empty) false = .ok (.ident "a") := rfl
  obtain ⟨g, hg, hlex, hruns⟩ := Expr.lex_prefixed hops hcolumn
  refine ⟨hops, g, hg, (hlex [.quoted "a"] (by decide +kernel)).mpr ⟨by decide, ?_⟩⟩
  intro op hop hrun
  obtain rfl : "~" = op := Option.some.inj hop
  exact absurd ((hruns trivial "~" (by decide)).mp hrun).1 (by decide)

/-- The word NOT in front of a function is read as one word with its name. -/
theorem notAbs_fused :
    ∃ f g, (Expr.abs (.column none "a")).render (.outermost .empty) false = .ok f ∧
      (Expr.prefixOp "NOT" (.abs (.column none "a"))).render (.outermost .empty) false = .ok g ∧
      lex f.text = some [.word "ABS", .mark "(", .quoted "a", .mark ")"] ∧
      lex g.text = some [.word "NOTABS", .mark "(", .quoted "a", .mark ")"] :=
  ⟨_, _, rfl, rfl, by decide +kernel, by decide +kernel⟩

end RelationalQuery
