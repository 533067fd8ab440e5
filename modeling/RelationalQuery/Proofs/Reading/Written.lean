/-
  RelationalQuery.Proofs.Reading.Written — a written term is read as the term.

  Every group is read by what stands first in it and behind its first operand, and no term begins
  with a keyword that could be taken for a part of the construct around it. So each construct is
  read from its parts, and a term from its subterms.

  Main statements:
    * `Reader.reads_group`, `Reader.reads_call`: groups and calls, from what stands in them.
    * `Sql.Term.reads`: the walk over a term.
    * `Sql.Term.phrase?_write`: the phrase of a written term.
-/

import RelationalQuery.Proofs.Reading.Operand

namespace RelationalQuery

namespace Reader

open Sql Fragment

variable {part : Read Phrase}

/-! ## Groups -/

/-- A part that begins with no operand is not read. -/
def Refuses (part : Read Phrase) : Prop :=
  ∀ t rest, t ≠ .openParen ∧ t ≠ .null → part (.token t :: rest) = none

/-- No construct is read from a token that begins no operand, however deep the reading may go. -/
theorem refuses_primary : (depth : Nat) → Refuses (primary depth)
  | 0 => fun _ _ _ => rfl
  | depth + 1 => by
      intro t rest h
      cases t
      case openParen => exact absurd rfl h.1
      case null => exact absurd rfl h.2
      all_goals rfl

/-- A group is read from what stands in it, with the collations around it at its end. -/
theorem reads_group (f : Fragment) (around : List String) (p : Option Phrase)
    {o : Option Operand} (ho : p.map .closed = o)
    (h : ∀ rest, inner part (f.chunks ++ (trailing around ++ .token .closeParen :: rest)) =
      p.map (·, .token .closeParen :: rest)) :
    Reads (step part) (f.parens.under around) o := by
  subst ho
  intro rest _
  have hinner := h rest
  rw [chunks_parens_under, List.cons_append, List.append_assoc, List.append_assoc,
    List.singleton_append]
  simp only [step, hinner]
  cases p with
  | none => rfl
  | some p => simp [expect_token, Operand.closed, trailing]

/-- So is a call, from its arguments. -/
theorem reads_call (name : String) (f : Fragment) (around : List String) (p : Option Phrase)
    {o : Option Operand} (ho : p.map .closed = o)
    (h : ∀ rest, arguments part name
      (f.chunks ++ (trailing around ++ .token .closeParen :: rest)) = p.map (·, rest)) :
    Reads (step part) ((call name f).under around) o := by
  subst ho
  intro rest _
  have harguments := h rest
  rw [chunks_call_under, List.cons_append, List.cons_append, List.append_assoc, List.append_assoc,
    List.singleton_append]
  simp only [step, expect_token, Option.bind_eq_bind, Option.bind_some, harguments]
  cases p with
  | none => rfl
  | some p => simp [Operand.closed, trailing]

/-- No existence test begins with a term. -/
theorem tested_reads {t : Term} (h : Reads part t.write (t.operand [])) (around : List String)
    {rest : List Chunk} (hstop : Stop rest) :
    tested part (t.write.chunks ++ (trailing around ++ rest)) =
      (t.operand []).map fun o => (o.phrase around, rest) := by
  rw [tested, t.expect_write _ (by decide)]
  exact operand_reads h around hstop

/-- What stands in a group begins with its first operand. -/
theorem inner_reads {t : Term} (h : Reads part t.write (t.operand [])) {rest : List Chunk}
    (hstop : Stop rest) : inner part (t.write.chunks ++ rest) =
      (t.operand []).bind fun o => continued part (o.phrase []) rest := by
  have hfirst : tested part (t.write.chunks ++ rest) = _ := tested_reads h [] hstop
  rw [inner, t.expect_write rest (by decide)]
  simp only [hfirst]
  cases t.operand [] <;> rfl

/-! ## Constructs -/

section Constructs

variable {t lhs rhs low high : Term}

/-- A closing parenthesis belongs to no operand in front of it. -/
theorem stop_close (rest : List Chunk) : Stop (.token .closeParen :: rest) :=
  stop_token (by decide) rest

/-- A negation is read from its operand. -/
theorem reads_negation (around : List String) (h : Reads part t.write (t.operand [])) :
    Reads (step part) ((Term.negation t).write.under around)
      ((Term.negation t).operand around) := by
  refine reads_group _ around ((t.operand []).map fun o => .not (o.phrase around))
    (Option.map_map ..) fun rest => ?_
  show (tested part (t.write.chunks ++ _)).map _ = _
  rw [tested_reads h around (stop_close rest)]
  cases t.operand [] <;> rfl

/-- Two operands with a mark between them. -/
theorem reads_between_marks {mark g : Fragment} {o : Option Operand}
    {phrase : Phrase → Phrase → Phrase} (around : List String)
    (hl : Reads part lhs.write (lhs.operand [])) (hr : Reads part g o)
    (hmark : ∀ rest, Stop (mark.chunks ++ rest))
    (hcontinued : ∀ p rest, continued part p (mark.chunks ++ (g.chunks ++ rest)) =
      second part (phrase p) (g.chunks ++ rest)) :
    Reads (step part) ((lhs.write ++ mark ++ g).parens.under around)
      (Option.map .closed do
        let a ← lhs.operand []
        let b ← o
        return phrase (a.phrase []) (b.phrase around)) := by
  -- Inside the group, the first operand ends at the mark, and the second at the parenthesis.
  refine reads_group _ around _ rfl fun rest => ?_
  rw [chunks_append, chunks_append, List.append_assoc, List.append_assoc,
    inner_reads hl (hmark _)]
  cases lhs.operand [] with
  | none => rfl
  | some a =>
      show continued part (a.phrase []) _ = _
      rw [hcontinued, second_reads _ hr around (stop_close rest)]
      cases o <;> rfl

/-- A comparison is read from its operands. -/
theorem reads_comparison (how : Comparison) (around : List String)
    (hl : Reads part lhs.write (lhs.operand [])) (hr : Reads part rhs.write (rhs.operand [])) :
    Reads (step part) ((Term.comparison how lhs rhs).write.under around)
      ((Term.comparison how lhs rhs).operand around) := by
  cases how with
  | equal | notEqual | isNot =>
      exact reads_between_marks around hl hr (fun rest => stop_token (by decide) rest)
        fun p rest => rfl
  | is =>
      -- The right operand begins with no NOT that would belong to the mark.
      refine reads_between_marks around hl hr (fun rest => stop_token (by decide) rest)
        fun p rest => ?_
      show continued part p (.token .is :: (rhs.write.chunks ++ rest)) = _
      rw [continued, rhs.expect_write rest (by decide)]
      rfl

/-- A test for NULL is read from its operand. -/
theorem reads_nullTest (negated : Bool) (around : List String)
    (h : Reads part t.write (t.operand []))
    (hnull : Reads part (token .null) (some ⟨.null, []⟩)) :
    Reads (step part) ((Term.nullTest negated t).write.under around)
      ((Term.nullTest negated t).operand around) := by
  have hwrite : (Term.nullTest negated t).write =
      (t.write ++ (token .is ++ Clauses.notIf negated) ++ token .null).parens := by
    rw [Term.write, Clauses.nullTest]
    exact congrArg Fragment.parens (congrArg (· ++ token .null)
      (congrArg Fragment.mk (List.append_assoc ..)))
  rw [hwrite]
  cases negated with
  | false =>
      exact reads_between_marks around h hnull (fun rest => stop_token (by decide) rest)
        fun p rest => rfl
  | true =>
      exact reads_between_marks around h hnull (fun rest => stop_token (by decide) rest)
        fun p rest => rfl

/-- Two operands with an operator between them are read one after the other. -/
theorem reads_infixOp (op : String) (around : List String)
    (hl : Reads part lhs.write (lhs.operand [])) (hr : Reads part rhs.write (rhs.operand [])) :
    Reads (step part) ((Term.infixOp op lhs rhs).write.under around)
      ((Term.infixOp op lhs rhs).operand around) :=
  reads_between_marks around hl hr (fun _ => ⟨nofun, nofun⟩) fun _ _ => rfl

/-- A BETWEEN is read from its three operands. -/
theorem reads_between (around : List String) (h : Reads part t.write (t.operand []))
    (hlow : Reads part low.write (low.operand []))
    (hhigh : Reads part high.write (high.operand [])) :
    Reads (step part) ((Term.between t low high).write.under around)
      ((Term.between t low high).operand around) := by
  refine reads_group _ around _ rfl fun rest => ?_
  -- Each operand is read up to the token behind it: BETWEEN, AND, and the parenthesis.
  have hfirst := inner_reads h (stop_token (t := .between) (by decide) (low.write.chunks ++
    (trailing [] ++ .token .and :: (high.write.chunks ++
      (trailing around ++ .token .closeParen :: rest)))))
  have hsecond := operand_reads hlow [] (stop_token (t := .and) (by decide)
    (high.write.chunks ++ (trailing around ++ .token .closeParen :: rest)))
  have hchunks : (t.write ++ token .between ++ low.write ++ token .and ++ high.write).chunks ++
      (trailing around ++ .token .closeParen :: rest) =
      t.write.chunks ++ .token .between :: (low.write.chunks ++
        (trailing [] ++ .token .and :: (high.write.chunks ++
          (trailing around ++ .token .closeParen :: rest)))) := by
    simp [token, single, trailing]
  rw [hchunks, hfirst]
  cases t.operand [] with
  | none => rfl
  | some o =>
      simp only [Option.bind_some, continued, hsecond]
      cases low.operand [] with
      | none => rfl
      | some low =>
          simp only [Option.map_some, Option.bind_eq_bind, Option.bind_some, expect_token,
            second_reads _ hhigh around (stop_close rest)]
          cases high.operand [] <;> rfl

/-- A group of at least two terms between a connective. -/
theorem reads_connective {mark : Token} (hmark : mark ≠ .dot ∧ mark ≠ .collate)
    (hclose : mark ≠ .closeParen) {ofTerms : List Phrase → Phrase}
    (hcontinued : ∀ p rest, continued part p (.token mark :: rest) =
      (operands part mark rest.length rest).map fun ps => (ofTerms (p :: ps.1), ps.2))
    {u : Term} {others : List Term} (around : List String)
    (h : ∀ v ∈ t :: u :: others, Reads part v.write (v.operand [])) :
    Reads (step part) ((joinWith mark (Term.writeAll (t :: u :: others))).parens.under around)
      ((Term.phrases around (t :: u :: others)).map fun ps => .closed (ofTerms ps)) := by
  obtain ⟨ht, hothers⟩ := List.forall_mem_cons.mp h
  refine reads_group _ around ((Term.phrases around (t :: u :: others)).map ofTerms)
    (Option.map_map ..) fun rest => ?_
  -- The first operand is read by the group, and the others by the list that its connective begins.
  have hlist := operands_reads mark hmark around (stop_close rest)
    (fun h => hclose (Chunk.token.inj (Option.some.inj h)).symm) (u :: others)
    (List.cons_ne_nil _ _) hothers
  have hchunks : (joinWith mark (Term.writeAll (t :: u :: others))).chunks ++
      (trailing around ++ .token .closeParen :: rest) = t.write.chunks ++ .token mark ::
        ((joinWith mark (Term.writeAll (u :: others))).chunks ++
          (trailing around ++ .token .closeParen :: rest)) := by
    show (t.write.chunks ++ [Chunk.token mark] ++ _) ++ _ = _
    rw [List.append_assoc, List.append_assoc]
    rfl
  rw [hchunks, inner_reads ht (stop_token hmark _), Term.phrases]
  cases t.operand [] with
  | none => rfl
  | some o =>
      rw [Option.bind_some, hcontinued, hlist]
      · cases Term.phrases around (u :: others) <;> rfl
      · rw [List.length_append]
        exact Nat.le_add_right_of_le (length_joinWith mark (u :: others))

/-! ### Subqueries and lists -/

/-- A subquery is taken up to the parenthesis that closes it. -/
theorem subquery_reads (phrase : List Chunk → Phrase) (query : Statement) (around : List String)
    {rest : List Chunk} (hstop : Stop rest) :
    subquery phrase (query.write.chunks ++ .token .closeParen :: (trailing around ++ rest)) =
      some ((phrase query.write.chunks).under around, rest) := by
  rw [subquery, group_balanced query.write_balanced, Option.map_some,
    collated_trailing (phrase query.write.chunks) hstop]

/-- Behind IN, a query is taken to the parenthesis that closes it. -/
theorem membership_reads_query (ofList : List Phrase → Phrase) (ofQuery : List Chunk → Phrase)
    (query : Statement) (around : List String) {rest : List Chunk} (hstop : Stop rest) :
    membership part ofList ofQuery
      (query.write.chunks ++ .token .closeParen :: (trailing around ++ rest)) =
        some ((ofQuery query.write.chunks).under around, rest) := by
  -- A statement is told from a list by the keyword that it begins with.
  have hselect : ∃ others, query.write.chunks = .token .select :: others := by
    obtain ⟨_, _, _, _, _, _, _, _, _⟩ := query
    exact ⟨_, rfl⟩
  obtain ⟨others, hothers⟩ := hselect
  rw [membership, hothers, List.cons_append, expect_token]
  show subquery ofQuery (.token .select :: others ++ _) = _
  rw [← hothers]
  exact subquery_reads ofQuery query around hstop

/-- A list in a group is read up to the end of the group. Nothing is read of an empty one. -/
theorem list_reads (hrefuses : Refuses part) (around : List String) (items : List Term)
    (h : ∀ v ∈ items, Reads part v.write (v.operand [])) (rest : List Chunk) :
    operands part .comma ((joinWith .comma (Term.writeAll items)).chunks ++
        (trailing around ++ .token .closeParen :: rest)).length
      ((joinWith .comma (Term.writeAll items)).chunks ++
        (trailing around ++ .token .closeParen :: rest)) =
      (Term.phrases around items).map (·, .token .closeParen :: rest) := by
  cases items with
  | nil =>
      -- In an empty group an operand would have to begin with what closes it, or with COLLATE.
      have hnone : operand part (trailing around ++ .token .closeParen :: rest) = none := by
        cases around with
        | nil => exact congrArg (Option.map _) (hrefuses .closeParen _ (by decide))
        | cons _ _ => exact congrArg (Option.map _) (hrefuses .collate _ (by decide))
      show operands part .comma (trailing around ++ .token .closeParen :: rest).length _ = none
      rw [List.length_append, List.length_cons, Nat.add_succ, operands]
      exact congrArg (Option.bind · _) hnone
  | cons first others =>
      refine operands_reads .comma (by decide) around (stop_close rest) (by simp) _
        (List.cons_ne_nil _ _) h _ ?_
      rw [List.length_append]
      exact Nat.le_add_right_of_le (length_joinWith .comma _)

/-- Behind IN, the items of a list are read up to the parenthesis. -/
theorem membership_reads_list (hrefuses : Refuses part) (ofList : List Phrase → Phrase)
    (ofQuery : List Chunk → Phrase) (items : List Term) (around : List String)
    (h : ∀ v ∈ items, Reads part v.write (v.operand [])) {rest : List Chunk} (hstop : Stop rest) :
    membership part ofList ofQuery ((joinWith .comma (Term.writeAll items)).chunks ++
      .token .closeParen :: (trailing around ++ rest)) =
        (Term.phrases [] items).map fun ps => ((ofList ps).under around, rest) := by
  -- A list does not begin with SELECT, which is how a statement is told from it.
  have hselect : expect .select ((joinWith .comma (Term.writeAll items)).chunks ++
      .token .closeParen :: (trailing around ++ rest)) = none := by
    cases items with
    | nil => rfl
    | cons first others => exact expect_joinWith (by decide) _
  have hlist := list_reads hrefuses [] items h (trailing around ++ rest)
  rw [trailing_nil, List.nil_append] at hlist
  simp only [membership, hselect, hlist]
  cases Term.phrases [] items with
  | none => rfl
  | some ps =>
      simp only [Option.map_some, Option.bind_eq_bind, Option.bind_some, expect_token,
        collated_trailing (ofList ps) hstop]

/-- Membership in a group, which is read by what stands in it. -/
theorem reads_membership (negated : Bool) (g : Fragment) (around : List String)
    (member : Phrase → Option Phrase) {o : Option Operand} (h : Reads part t.write (t.operand []))
    (ho : ((t.operand []).bind fun o => member (o.phrase [])).map .closed = o)
    (hmember : ∀ p rest,
      membership part (.inList negated p) (.inQuery negated p)
        (g.chunks ++ .token .closeParen :: (trailing around ++ .token .closeParen :: rest)) =
          (member p).map (·, .token .closeParen :: rest)) :
    Reads (step part) ((Clauses.membership negated t.write g).under around) o := by
  refine reads_group _ around _ ho fun rest => ?_
  have hchunks : (t.write ++ Clauses.notIf negated ++ token .in ++ g.parens).chunks ++
      (trailing around ++ .token .closeParen :: rest) =
      t.write.chunks ++ ((Clauses.notIf negated).chunks ++ .token .in :: .token .openParen ::
        (g.chunks ++ .token .closeParen :: (trailing around ++ .token .closeParen :: rest))) := by
    simp [token, single, Fragment.parens]
  -- Behind the operand stands IN, or the NOT in front of it, and both end an operand.
  have hstop : ∀ rest, Stop ((Clauses.notIf negated).chunks ++ .token .in :: rest) := by
    cases negated with
    | false => exact stop_token (by decide)
    | true => exact fun rest => stop_token (t := .not) (by decide) _
  rw [hchunks, inner_reads h (hstop _)]
  cases t.operand [] with
  | none => rfl
  | some o =>
      have hread := hmember (o.phrase []) rest
      cases negated with
      | false => exact hread
      | true => exact hread

/-- A membership in a list is read from the member and the items. -/
theorem reads_inList (hrefuses : Refuses part) (negated : Bool) (items : List Term)
    (around : List String) (h : Reads part t.write (t.operand []))
    (hitems : ∀ v ∈ items, Reads part v.write (v.operand [])) :
    Reads (step part) ((Term.inList negated t items).write.under around)
      ((Term.inList negated t items).operand around) := by
  refine reads_membership negated _ around (fun p => (Term.phrases [] items).map fun ps =>
    (Phrase.inList negated p ps).under around) h ?_ fun p rest => ?_
  · rw [Term.operand]
    cases t.operand [] with
    | none => rfl
    | some o => cases Term.phrases [] items <;> rfl
  · rw [membership_reads_list hrefuses _ _ items around hitems (stop_close rest), Option.map_map]
    rfl

/-- A membership in a query is read from the member, and the query is taken as it is. -/
theorem reads_inQuery (negated : Bool) (query : Statement) (around : List String)
    (h : Reads part t.write (t.operand [])) :
    Reads (step part) ((Term.inQuery negated t query).write.under around)
      ((Term.inQuery negated t query).operand around) := by
  refine reads_membership negated _ around (fun p =>
    some ((Phrase.inQuery negated p query.write.chunks).under around)) h ?_ fun p rest =>
      membership_reads_query _ _ query around (stop_close rest)
  rw [Term.operand]
  cases t.operand [] <;> rfl

/-- An EXISTS is read without a look into its query. -/
theorem reads_exists (negated : Bool) (query : Statement) (around : List String) :
    Reads (step part) ((Term.exists negated query).write.under around)
      ((Term.exists negated query).operand around) := by
  refine reads_group _ around (some (if negated then
    .not ((Phrase.exists query.write.chunks).under around)
      else (Phrase.exists query.write.chunks).under around)) ?_ fun rest => ?_
  · cases negated <;> rfl
  · have hquery := subquery_reads .exists query around (stop_close rest)
    have hchunks : (Clauses.notIf negated ++ token .exists ++ query.write.parens).chunks ++
        (trailing around ++ .token .closeParen :: rest) =
        (Clauses.notIf negated).chunks ++ .token .exists :: .token .openParen ::
          (query.write.chunks ++ .token .closeParen ::
            (trailing around ++ .token .closeParen :: rest)) := by
      simp [token, single, Fragment.parens]
    rw [hchunks]
    -- A negated EXISTS is read as NOT of one, which takes in the collations around as well.
    cases negated with
    | false =>
        show (subquery .exists _).bind (fun p => continued part p.1 p.2) = _
        rw [hquery]
        rfl
    | true =>
        show (subquery .exists _).map _ = _
        rw [hquery]
        rfl

/-! ### Calls -/

/-- No call has a collation in place of arguments. -/
theorem arguments_collate (hrefuses : Refuses part) (name : String) (rest : List Chunk) :
    arguments part name (.token .collate :: rest) = none := by
  have hnone : operand part (.token .collate :: rest) = none :=
    congrArg (Option.map _) (hrefuses .collate rest (by decide))
  show (operands part .comma (rest.length + 1) (.token .collate :: rest)).bind _ = none
  rw [operands]
  exact congrArg (Option.bind · _) (congrArg (Option.bind · _) hnone)

/-- A list of at least one argument. -/
theorem arguments_list (hrefuses : Refuses part) (name : String) (around : List String)
    (first : Term) (others : List Term)
    (h : ∀ v ∈ first :: others, Reads part v.write (v.operand [])) (rest : List Chunk) :
    arguments part name ((joinWith .comma (Term.writeAll (first :: others))).chunks ++
        (trailing around ++ .token .closeParen :: rest)) =
      ((Term.phrases around (first :: others)).map (.call name)).map (·, rest) := by
  rw [arguments, expect_joinWith (by decide), expect_joinWith (by decide),
    expect_joinWith (by decide)]
  simp only [list_reads hrefuses around (first :: others) h rest]
  cases Term.phrases around (first :: others) with
  | none => rfl
  | some ps => simp [expect_token]

/-- A call is read from its arguments, of which there may be none. -/
theorem reads_callAll (hrefuses : Refuses part) (name : String) (terms : List Term)
    (around : List String) (h : ∀ v ∈ terms, Reads part v.write (v.operand [])) :
    Reads (step part) ((Term.call name terms).write.under around)
      ((Term.call name terms).operand around) := by
  cases terms with
  | nil =>
      -- Among no arguments there is no place for a collation, and with one nothing is read.
      cases around with
      | nil => exact reads_call name empty [] (some (.call name [])) rfl fun rest => rfl
      | cons collation others =>
          exact reads_call name empty (collation :: others) none rfl fun rest =>
            arguments_collate hrefuses name _
  | cons first others =>
      refine reads_call name _ around ((Term.phrases around (first :: others)).map (.call name))
        (Option.map_map ..) fun rest => ?_
      exact arguments_list hrefuses name around first others h rest

/-- A count of all rows is read. -/
theorem reads_countRows (source : SourceId) (around : List String) :
    Reads (step part) ((Term.countRows source).write.under around)
      ((Term.countRows source).operand around) := by
  cases around with
  | nil => exact reads_call "COUNT" (token .star) [] (some (.callStar "COUNT")) rfl fun rest => rfl
  | cons collation others =>
      exact reads_call "COUNT" (token .star) (collation :: others) none rfl fun rest => rfl

/-- A count of values is read from its argument. -/
theorem reads_count (hrefuses : Refuses part) (around : List String)
    (h : Reads part t.write (t.operand [])) :
    Reads (step part) ((Term.count t).write.under around) ((Term.count t).operand around) := by
  refine reads_call "COUNT" t.write around
    ((t.operand []).map fun o => .call "COUNT" [o.phrase around]) (Option.map_map ..)
      fun rest => ?_
  have hlist := arguments_list hrefuses "COUNT" around t [] (List.forall_mem_singleton.mpr h) rest
  refine hlist.trans ?_
  rw [Term.phrases]
  cases t.operand [] <;> rfl

/-- A count of distinct values is read from its argument. -/
theorem reads_countDistinct (around : List String) (h : Reads part t.write (t.operand [])) :
    Reads (step part) ((Term.countDistinct t).write.under around)
      ((Term.countDistinct t).operand around) := by
  refine reads_call "COUNT" (token .distinct ++ t.write) around
    ((t.operand []).map fun o => .callDistinct "COUNT" (o.phrase around)) (Option.map_map ..)
      fun rest => ?_
  have hread := operand_reads h around (stop_close rest)
  show (operand part (t.write.chunks ++ (trailing around ++ .token .closeParen :: rest))).bind _ = _
  rw [hread]
  cases t.operand [] <;> rfl

end Constructs

/-! ### Single chunks -/

/-- One chunk that is an operand by itself. -/
theorem reads_single (c : Chunk) (hclose : c ≠ .token .closeParen) (around : List String)
    (p : Option Phrase) (h : ∀ rest, rest.head? ≠ some (.token .dot) →
      step part (c :: rest) = p.map (·, rest)) :
    Reads (step part) ((single c).under around) (p.map (⟨·, around⟩)) := by
  intro rest hrest
  rw [chunks_single_under hclose, List.cons_append, h _ (head?_trailing hrest), Option.map_map]
  cases p <;> rfl

/-- Text of the caller's own is not read. -/
theorem reads_literal (sql : String) (arguments : Option Arguments) (around : List String) :
    Reads (step part) ((literal sql arguments).under around) none :=
  reads_single (.literal sql arguments) (by simp) around none fun _ _ => rfl

/-- NULL is read, with the collations behind it. -/
theorem reads_null (around : List String) :
    Reads (step part) ((token .null).under around) (some ⟨.null, around⟩) :=
  reads_single (.token .null) (by decide) around (some .null) fun _ _ => rfl

/-- A value is read, with the collations behind it. -/
theorem reads_value (v : Value) (around : List String) :
    Reads (step part) ((Term.value v).write.under around) ((Term.value v).operand around) := by
  rw [Term.write, Term.operand, param]
  split
  · exact reads_null around
  · exact reads_single (.param v) (by simp) around (some (.value v)) fun _ _ => rfl

/-- A constant is read, with the collations behind it. -/
theorem reads_constant (text : String) (around : List String) :
    Reads (step part) ((raw text).under around) (some ⟨.constant text, around⟩) :=
  reads_single (.raw text) (by simp) around (some (.constant text)) fun _ _ => rfl

/-- A column by itself is read, with the collations behind it. -/
theorem reads_bareColumn (name : String) (around : List String) :
    Reads (step part) ((ident name).under around) (some ⟨.column none name, around⟩) := by
  refine reads_single (.ident name) (by simp) around (some (.column none name))
    fun rest hrest => ?_
  rw [step, expect_eq_none hrest]
  rfl

/-- An operator in front is read with its operand, and the collations are those of the operand. -/
theorem reads_prefixOp (op : String) {f : Fragment} {o : Option Operand} (h : Reads part f o) :
    Reads (step part) (single (.prefixOp op) ++ f) (if op ∈ prefixOperators then
      o.map fun o => ⟨.prefixOp op o.core, o.collations⟩ else none) := by
  intro rest hrest
  have hread := h rest hrest
  show (if op ∈ prefixOperators then (part (f.chunks ++ rest)).map _ else none) = _
  rw [hread]
  split
  · cases o <;> rfl
  · rfl

/-- A column is read with its source's name, if it is written. -/
theorem reads_column (r : Reference) (name : String) (around : List String) :
    Reads (step part) ((r.write (ident name)).under around)
      (some ⟨.column r.qualifier name, around⟩) := by
  obtain ⟨source, _ | qualifier⟩ := r
  · exact reads_bareColumn name around
  · intro rest _
    -- A name is no group, so collations stand behind it.
    have hlast : (ident qualifier ++ token .dot ++ ident name).chunks.getLast? ≠
        some (.token .closeParen) := by
      show some (Chunk.ident name) ≠ _
      exact nofun
    show step part (((ident qualifier ++ token .dot ++ ident name).under around).chunks ++ rest) = _
    rw [chunks_under_of_open around _ hlast]
    rfl

end Reader

/-! ## The walk over a term -/

namespace Sql

open Reader Fragment

/-- A written term has a first chunk, so it is read by a step. -/
theorem Term.reads_of_step {t : Term} {around : List String} {depth : Nat}
    (hdepth : (t.write.under around).chunks.length ≤ depth) {o : Option Operand}
    (h : ∀ k, (t.write.under around).chunks.length ≤ k + 1 →
      Reads (step (primary k)) (t.write.under around) o) :
    Reads (primary depth) (t.write.under around) o := by
  obtain ⟨c, rest, hchunks, _⟩ := t.head_write
  have hpositive : 0 < t.write.chunks.length := by
    rw [hchunks]
    exact Nat.succ_pos _
  obtain ⟨k, rfl⟩ : ∃ k, depth = k + 1 :=
    Nat.exists_eq_succ_of_ne_zero (by have := length_under around t.write; omega)
  exact h k hdepth

/-- What stands in parentheses fits into one level of reading less. -/
theorem length_in_parens {f : Fragment} {around : List String} {k : Nat}
    (h : (f.parens.under around).chunks.length ≤ k + 1) : f.chunks.length ≤ k :=
  Nat.le_of_lt_succ (Nat.lt_of_lt_of_le (length_parens_under f around) h)

/-- So do the arguments of a call. -/
theorem length_in_call {name : String} {f : Fragment} {around : List String} {k : Nat}
    (h : ((call name f).under around).chunks.length ≤ k + 1) : f.chunks.length ≤ k :=
  Nat.le_of_lt_succ (Nat.lt_of_lt_of_le (length_call_under name f around) h)

mutual

/-- **A written term is read as the term**, with any collations around it, if the depth allows. -/
theorem Term.reads : (t : Term) → ∀ (around : List String) (depth : Nat),
    (t.write.under around).chunks.length ≤ depth →
      Reads (primary depth) (t.write.under around) (t.operand around)
  | .literal sql own => fun around _ h => Term.reads_of_step h fun _ _ =>
      reads_literal sql own around
  | .value v => fun around _ h => Term.reads_of_step h fun _ _ => reads_value v around
  | .constant text => fun around _ h => Term.reads_of_step h fun _ _ => reads_constant text around
  | .column none name => fun around _ h => Term.reads_of_step h fun _ _ =>
      reads_bareColumn name around
  | .column (some r) name => fun around _ h => Term.reads_of_step h fun _ _ =>
      reads_column r name around
  | .collate t collation => fun around depth h => t.reads (collation :: around) depth h
  -- The depth that is left after the parentheses still covers the parts of the term.
  | .negation t => fun around _ h => Term.reads_of_step h fun k hk => by
      have hlength := length_in_parens hk
      rw [length_append] at hlength
      exact reads_negation around (t.reads [] k (Nat.le_of_add_left_le hlength))
  | .comparison how lhs rhs => fun around _ h => Term.reads_of_step h fun k hk => by
      have hlength := length_in_parens hk
      rw [length_append, length_append] at hlength
      exact reads_comparison how around (lhs.reads [] k (by rw [under_nil]; omega))
        (rhs.reads [] k (by rw [under_nil]; omega))
  | .nullTest negated t => fun around _ h => Term.reads_of_step h fun k hk => by
      have hlength := length_in_parens hk
      rw [length_append, length_append, length_append] at hlength
      have hnull : Reads (primary k) (token .null) (some ⟨.null, []⟩) := by
        cases k with
        | zero => exact absurd (Nat.le_of_add_left_le hlength) (by decide)
        | succ k => exact reads_null []
      exact reads_nullTest negated around (t.reads [] k (by rw [under_nil]; omega)) hnull
  | .prefixOp op t => fun around _ h => Term.reads_of_step h fun k hk => by
      obtain ⟨c, rest, hchunks, _⟩ := t.head_write
      have hunder := prefixed_under op around t.write (hchunks ▸ List.cons_ne_nil c rest)
      have hwrite : (Term.prefixOp op t).write = single (.prefixOp op) ++ t.write := rfl
      rw [hwrite, hunder] at hk ⊢
      exact reads_prefixOp op (t.reads around k (Nat.le_of_succ_le_succ hk))
  | .infixOp op lhs rhs => fun around _ h => Term.reads_of_step h fun k hk => by
      have hlength := length_in_parens hk
      rw [length_append, length_append] at hlength
      exact reads_infixOp op around (lhs.reads [] k (by rw [under_nil]; omega))
        (rhs.reads [] k (by rw [under_nil]; omega))
  | .and [] => fun around _ h => Term.reads_of_step h fun _ _ => reads_constant "1" around
  | .and [t] => fun around depth h => t.reads around depth h
  | .and (t :: u :: others) => fun around _ h => Term.reads_of_step h fun k hk =>
      reads_connective (by decide) (by decide) (fun _ _ => rfl) around
        (Term.readsAll (t :: u :: others) k .and (length_in_parens hk))
  | .or [] => fun around _ h => Term.reads_of_step h fun _ _ => reads_constant "0" around
  | .or [t] => fun around depth h => t.reads around depth h
  | .or (t :: u :: others) => fun around _ h => Term.reads_of_step h fun k hk =>
      reads_connective (by decide) (by decide) (fun _ _ => rfl) around
        (Term.readsAll (t :: u :: others) k .or (length_in_parens hk))
  | .inList negated t items => fun around _ h => Term.reads_of_step h fun k hk => by
      have hlength := length_in_parens hk
      rw [length_append, length_append, length_append] at hlength
      have hitems := length_parens_under (joinWith .comma (Term.writeAll items)) []
      rw [under_nil] at hitems
      exact reads_inList (refuses_primary k) negated items around
        (t.reads [] k (by rw [under_nil]; omega)) (Term.readsAll items k .comma (by omega))
  | .inQuery negated t query => fun around _ h => Term.reads_of_step h fun k hk => by
      have hlength := length_in_parens hk
      rw [length_append, length_append, length_append] at hlength
      exact reads_inQuery negated query around (t.reads [] k (by rw [under_nil]; omega))
  | .exists negated query => fun around _ h => Term.reads_of_step h fun _ _ =>
      reads_exists negated query around
  | .between t low high => fun around _ h => Term.reads_of_step h fun k hk => by
      have hlength := length_in_parens hk
      rw [length_append, length_append, length_append, length_append] at hlength
      exact reads_between around (t.reads [] k (by rw [under_nil]; omega))
        (low.reads [] k (by rw [under_nil]; omega)) (high.reads [] k (by rw [under_nil]; omega))
  | .call name terms => fun around _ h => Term.reads_of_step h fun k hk =>
      reads_callAll (refuses_primary k) name terms around
        (Term.readsAll terms k .comma (length_in_call hk))
  | .countRows source => fun around _ h => Term.reads_of_step h fun _ _ =>
      reads_countRows source around
  | .count t => fun around _ h => Term.reads_of_step h fun k hk =>
      reads_count (refuses_primary k) around (t.reads [] k (length_in_call hk))
  | .countDistinct t => fun around _ h => Term.reads_of_step h fun k hk => by
      have hlength := length_in_call hk
      rw [length_append] at hlength
      exact reads_countDistinct around (t.reads [] k (Nat.le_of_add_left_le hlength))

/-- Each term of a written row is read. -/
theorem Term.readsAll : (terms : List Term) → ∀ (depth : Nat) (separator : Token),
    (joinWith separator (Term.writeAll terms)).chunks.length ≤ depth →
      ∀ t ∈ terms, Reads (primary depth) t.write (t.operand [])
  | [] => nofun
  | [t] => fun depth _ h => List.forall_mem_singleton.mpr (t.reads [] depth h)
  | t :: u :: rest => fun depth separator h => by
      have hlength : t.write.chunks.length + 1 +
          (joinWith separator (Term.writeAll (u :: rest))).chunks.length ≤ depth :=
        length_joinWith_cons separator t.write u.write (Term.writeAll rest) ▸ h
      exact List.forall_mem_cons.mpr ⟨t.reads [] depth (by rw [under_nil]; omega),
        Term.readsAll (u :: rest) depth separator (by omega)⟩

end

/-- **What a written term says.** -/
theorem Term.phrase?_write (t : Term) : t.write.phrase? = (t.operand []).map (·.phrase []) := by
  have hreads := t.reads [] t.write.chunks.length (Nat.le_refl _)
  have hstop : Stop [] := ⟨nofun, nofun⟩
  have hread := operand_reads hreads [] hstop
  rw [trailing_nil, List.append_nil, under_nil, List.append_nil] at hread
  rw [Fragment.phrase?, hread]
  cases t.operand [] <;> rfl

end Sql

end RelationalQuery
