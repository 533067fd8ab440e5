/-
  RelationalQuery.Proofs.Reading.Grouping — conditions in the clauses of a statement.

  A WHERE, HAVING or ON clause is the conjunction of the conditions that were added to it, and each
  of them is grouped there as it is by itself. What the compiler builds sees to that with its own
  parentheses, whatever text a caller put inside them. Text that a caller gave as a condition has
  none, so it has to bring its own if it has an OR.

  Main definitions:
    * `Expr.Stands`: what is asked of a condition, through conjunctions inside conjunctions.
    * `Expr.Conjoined`: a clause is the conjunction of conditions each read by itself.

  Main statements:
    * `Expr.whole_of_stands`: what stands by itself keeps together in a conjunction.
    * `Query.conditions_kept`: conditions in clauses, and negations.
    * `bareOr_regrouped`: a text with a bare OR does not keep together.
-/

import RelationalQuery.Proofs.Building.Reachable
import RelationalQuery.Proofs.Reading.Opposites

namespace RelationalQuery

open Sql Conditions Fragment

/-! ## Conditions that stand by themselves -/

mutual

/-- The condition is covered, or it is a text without a bare OR. Of a conjunction this is asked of
each term. -/
def Expr.Stands : Expr → Prop
  | .literal sql _ => ∃ cs, (raw sql).condition? = some (.any [.all cs])
  | .and terms => Expr.StandAll terms
  | e => e.Covered false

/-- All of the terms stand by themselves. -/
def Expr.StandAll : List Expr → Prop
  | [] => True
  | e :: rest => e.Stands ∧ Expr.StandAll rest

end

variable {scope : Scope}

/-- An operand wherever it stands is a single condition. -/
theorem Expr.single_of_tight {e : Expr} {f : Fragment} (hf : e.render scope false = .ok f)
    (h : f.Tight) : ∃ cs, e.Single scope cs := by
  obtain ⟨items, hitems, htight⟩ := h
  obtain ⟨c, hread⟩ := exists_read_of_tight htight
  exact ⟨[c], f, hf, condition?_eq_some.mpr ⟨items, hitems, hread⟩⟩

/-- The terms of a closed connective are closed. -/
theorem Clauses.closed_connective {mark : Token} {neutral : String} : {terms : List Fragment} →
    (Clauses.connective mark neutral terms).closed = true → ∀ f ∈ terms, f.closed = true
  | [], _ => nofun
  | [_], h => List.forall_mem_singleton.mpr h
  | f :: g :: rest, h => by
      have hjoined : (joinWith mark (f :: g :: rest)).parens.closed = true := h
      rw [closed_parens, closed_joinWith] at hjoined
      exact List.all_eq_true.mp hjoined

mutual

/-- **What stands by itself keeps together in a conjunction**, if its text leaves nothing open. -/
theorem Expr.whole_of_stands : (e : Expr) → e.Stands → ∀ {f : Fragment},
    e.render scope false = .ok f → f.closed = true → e.Whole scope
  | .and terms, h, f, hf, hclosed => by
      obtain ⟨fs, hfs, hf⟩ := bind_eq_ok.mp hf
      obtain rfl := pure_eq_ok.mp hf
      exact Expr.wholeAll_of_standAll terms h hfs (Clauses.closed_connective hclosed)
  -- Text is read as it stands, so it is asked for itself, and not for being one operand.
  | .literal sql arguments, ⟨cs, hcs⟩, f, hf, _ => by
      have hliteral : (Fragment.literal sql arguments).condition? = some (.any [.all cs]) := by
        rwa [condition?_literal]
      exact ⟨cs, _, rfl, hliteral⟩
  | .value _, h, f, hf, hclosed | .column _ _, h, f, hf, hclosed | .collate _ _, h, f, hf, hclosed
  | .not _, h, f, hf, hclosed | .equal _ _, h, f, hf, hclosed | .notEqual _ _, h, f, hf, hclosed
  | .is _ _, h, f, hf, hclosed | .isNot _ _, h, f, hf, hclosed | .prefixOp _ _, h, f, hf, hclosed
  | .infixOp _ _ _, h, f, hf, hclosed | .or _, h, f, hf, hclosed | .inList _ _, h, f, hf, hclosed
  | .inQuery _ _, h, f, hf, hclosed | .exists _, h, f, hf, hclosed
  | .between _ _ _, h, f, hf, hclosed | .call _ _, h, f, hf, hclosed | .count _, h, f, hf, hclosed
  | .countDistinct _, h, f, hf, hclosed =>
      Expr.single_of_tight hf (Expr.render_tight h hf hclosed)

/-- Conditions that stand by themselves are whole, each of a list whose rendering is closed. -/
theorem Expr.wholeAll_of_standAll : (es : List Expr) → Expr.StandAll es → ∀ {fs : List Fragment},
    Expr.renderAll scope es = .ok fs → (∀ f ∈ fs, f.closed = true) → Expr.WholeAll scope es
  | [], _, _, _, _ => trivial
  | e :: rest, h, fs, hfs, hclosed => by
      obtain ⟨f, hf, hfs⟩ := bind_eq_ok.mp hfs
      obtain ⟨others, hothers, hfs⟩ := bind_eq_ok.mp hfs
      obtain rfl := pure_eq_ok.mp hfs
      obtain ⟨hfirst, hrest⟩ := List.forall_mem_cons.mp hclosed
      exact ⟨e.whole_of_stands h.1 hf hfirst, Expr.wholeAll_of_standAll rest h.2 hothers hrest⟩

end

/-! ## Clauses -/

/-- The fragment is read as a condition, and that has the truth. -/
def Fragment.Means (v : Valuation) (f : Fragment) (t : Truth) : Prop :=
  ∃ c, f.condition? = some c ∧ c.truth v.truth = t

/-- The clause is written, and read behind its keyword it is the conjunction of the fragments and
of the conditions, each of which is read by itself. -/
def Expr.Conjoined (scope : Scope) (v : Valuation) (keyword : Token) (clause : Rendering)
    (mapped : List Fragment) (es : List Expr) : Prop :=
  ∃ g c ms ts, clause = .ok g ∧ g.behind? keyword = some c ∧
    List.Forall₂ (Fragment.Means v) mapped ms ∧ List.Forall₂ (Expr.Means scope v) es ts ∧
    c.truth v.truth = .all (ms ++ ts)

/-- A condition alone in its clause. -/
theorem Expr.conjoined_single {e : Expr} {v : Valuation} {t : Truth} (h : e.Means scope v t)
    {keyword : Token} (hkeyword : keyword ∈ [.where, .having, .on]) :
    Expr.Conjoined scope v keyword (Expr.renderClause scope keyword (some e)) [] [e] := by
  obtain ⟨g, c, hg, hc, ht⟩ := h.clause hkeyword
  exact ⟨g, c, [], [t], hg, hc, .nil, .cons h .nil, ht.trans (Truth.all_singleton t).symm⟩

/-- Conditions that were added one by one are a conjunction of all, in the clause that holds them.
-/
theorem Expr.conjoined_conjoin {earlier : Option Expr} {es : List Expr}
    (h : ∀ e ∈ earlier.toList ++ es, e.Whole scope) (hne : earlier.toList ++ es ≠ [])
    (v : Valuation) {keyword : Token} (hkeyword : keyword ∈ [.where, .having, .on]) :
    Expr.Conjoined scope v keyword
      (Expr.renderClause scope keyword (es.foldl Query.conjoin earlier)) []
      (earlier.toList ++ es) := by
  -- The first condition is there as it was given; the others are conjoined with what is there.
  obtain ⟨first, rest, hlist, hfold⟩ : ∃ first rest, earlier.toList ++ es = first :: rest ∧
      es.foldl Query.conjoin earlier = rest.foldl Query.conjoin (some first) := by
    cases earlier with
    | some e => exact ⟨e, es, rfl, rfl⟩
    | none =>
        cases es with
        | nil => exact absurd rfl hne
        | cons e rest => exact ⟨e, rest, rfl, rfl⟩
  rw [hlist] at h ⊢
  obtain ⟨hfirst, hrest⟩ := List.forall_mem_cons.mp h
  obtain ⟨css, _, hmeans⟩ := hfirst.terms
  have hown : first.Means scope v (.all [.all (css.map v.all)]) :=
    (Truth.all_singleton _).symm ▸ hmeans v
  obtain ⟨all, ts, hall, hts, htruth⟩ := Expr.means_conjoin hrest v hfirst hown
  obtain ⟨g, c, hg, hc, ht⟩ := htruth.clause hkeyword
  rw [hfold, hall]
  exact ⟨g, c, [], _ :: ts, hg, hc, .nil, .cons (hmeans v) hts, ht⟩

/-- Restricting a query by one condition after the other adds each to WHERE. -/
theorem Query.filter_restrict (q : Query) (es : List Expr) :
    (es.foldl restrict q).filter = es.foldl conjoin q.filter := by
  induction es generalizing q with
  | nil => rfl
  | cons e rest ih => exact ih (q.restrict e)

/-- Restricting its groups adds each to HAVING. -/
theorem Query.having_restrictGroups (q : Query) (es : List Expr) :
    (es.foldl restrictGroups q).having = es.foldl conjoin q.having := by
  induction es generalizing q with
  | nil => rfl
  | cons e rest ih => exact ih (q.restrictGroups e)

/-! ## Join conditions -/

/-- Restricting a relation adds the conjuncts of each condition, at the references that it is given.
-/
theorem Relation.condition_restrict (r : Relation) (ks : List (SourceId → SourceId → Expr))
    (left target : SourceId) : (ks.foldl restrict r).condition left target =
      r.condition left target ++ ks.flatMap fun k => (k left target).conjuncts := by
  induction ks generalizing r with
  | nil => exact (List.append_nil _).symm
  | cons k rest ih =>
      rw [List.foldl_cons, ih (r.restrict k), List.flatMap_cons, ← List.append_assoc]
      rfl

/-- A qualified name ends with the name. -/
theorem Clauses.ends_qualified (source : Option String) (name : String) :
    (Clauses.qualified source (ident name)).Ends := by
  cases source with
  | none => exact nofun
  | some qualifier => exact ends_append nofun (List.cons_ne_nil _ _)

/-- An equality of a mapping is a condition by itself. -/
theorem Sql.Equality.condition_write (e : Equality) :
    e.write.Ends ∧ ∃ c, e.write.condition? = some (.any [.all [c]]) := by
  obtain ⟨xs, hxs, htight⟩ := tight_qualified e.target.qualifier e.targetColumn
  obtain ⟨ys, hys, htight'⟩ := tight_qualified e.left.qualifier e.leftColumn
  have hends : ∀ (r : Reference) (name : String), (r.write (ident name)).Ends :=
    fun r name => Clauses.ends_qualified r.qualifier name
  have hjoins : ∀ i ∈ .symbol (.sign '=') :: ys, joins i = true :=
    List.forall_mem_cons.mpr ⟨by decide, fun i hi => (joins_of_tight (htight'.2 i hi)).1⟩
  -- Between the two names stands one sign, which is no connective.
  have hitems : e.write.items? = some (xs ++ .symbol (.sign '=') :: ys) := by
    rw [Equality.write, append_assoc]
    exact items?_append (hends _ _) hxs (items?_append (ends_token _) items?_equal hys)
  refine ⟨(((hends _ _).append (ends_token _)).append (hends _ _)), _,
    condition?_eq_some.mpr ⟨_, hitems, read_tight htight (List.cons_ne_nil _ _) hjoins⟩⟩

/-- The equalities of a mapping are conjunctions by themselves. -/
theorem Sql.Equality.conditions_write : (equalities : List Equality) → ∃ css,
    List.Forall₂ (fun f cs => f.condition? = some (.any [.all cs]))
      (equalities.map Equality.write) css
  | [] => ⟨[], .nil⟩
  | e :: rest => by
      obtain ⟨c, hc⟩ := e.condition_write.2
      obtain ⟨css, hcss⟩ := Sql.Equality.conditions_write rest
      exact ⟨[c] :: css, .cons hc hcss⟩

/-- An ON clause is the equalities of the mapping and the terms of the condition, with ANDs between
them. -/
theorem Clauses.onClause_of_terms {kind : JoinKind} (hkind : kind ≠ .cross)
    {mapped own : List Fragment} (h : mapped ++ own ≠ []) :
    Clauses.onClause kind (.ok mapped) (.ok own) =
      .ok (token .on ++ joinWith .and (mapped ++ own)) := by
  have hterms : ¬(mapped ++ own).isEmpty = true := fun hnil => h (List.isEmpty_iff.mp hnil)
  cases kind with
  | cross => exact absurd rfl hkind
  | inner => exact congrArg Except.ok (if_neg hterms)
  | left => exact congrArg Except.ok (if_neg hterms)

/-- **The condition of a join** is the conjunction of its mapping and of the conditions that were
added to it. -/
theorem Expr.conjoined_on {kind : JoinKind} (hkind : kind ≠ .cross)
    {mapped : Except QueryError (List Fragment)} {equalities : List Equality}
    (hmapped : mapped = .ok (equalities.map Equality.write)) {es : List Expr}
    (h : ∀ e ∈ es, e.Whole scope) (hne : equalities ≠ [] ∨ es.flatMap Expr.conjuncts ≠ [])
    (v : Valuation) : Expr.Conjoined scope v .on
      (Clauses.onClause kind mapped (Expr.renderAll scope (es.flatMap Expr.conjuncts)))
      (equalities.map Equality.write) es := by
  obtain ⟨css, hcss, htruth⟩ := Expr.terms_of_whole h
  obtain ⟨ts, hts, hall⟩ := htruth v
  obtain ⟨fs, hfs, hconditions⟩ := Expr.renderAll_of_single hcss
  obtain ⟨dss, hdss⟩ := Sql.Equality.conditions_write equalities
  -- There is a condition to write, from the mapping or from those that were added.
  have hterms : equalities.map Equality.write ++ fs ≠ [] := by
    have hlength := hcss.length_eq.trans hconditions.length_eq.symm
    intro hnil
    obtain ⟨hmap, hfs⟩ := List.append_eq_nil_iff.mp hnil
    rcases hne with hne | hne
    · exact hne (List.map_eq_nil_iff.mp hmap)
    · exact hne (List.length_eq_zero_iff.mp (hlength.trans (congrArg List.length hfs)))
  have hends : ∀ f ∈ equalities.map Equality.write ++ fs, f.Ends := by
    refine List.forall_mem_append.mpr ⟨fun f hf => ?_, Expr.ends_of_renderAll hfs⟩
    obtain ⟨e, _, rfl⟩ := List.mem_map.mp hf
    exact e.condition_write.1
  -- The terms are read one by one, since each of them ends where it is joined.
  have hjoined := condition?_joinWith hterms hends (List.rel_append hdss hconditions)
  refine ⟨token .on ++ joinWith .and (equalities.map Equality.write ++ fs), _, dss.map v.all, ts,
    ?_, behind?_token (by decide) hjoined, ?_, hts, ?_⟩
  · rw [hmapped, hfs, Clauses.onClause_of_terms hkind hterms]
  · exact List.forall₂_map_right_iff.mpr (hdss.imp fun f cs hf =>
      ⟨_, hf, Condition.truth_conjunction ..⟩)
  · rw [Condition.truth_conjunction, List.map_flatten, Truth.all_flatten, List.map_map,
      List.map_append, Truth.all_append, Truth.all_append, ← hall]
    rfl

/-! ## Where the clauses are -/

/-- The text of a fragment has that of another one in it. -/
def Fragment.Holds (f g : Fragment) : Prop := ∃ before after, f.text = before ++ g.text ++ after

namespace Fragment

variable {a b g : Fragment}

/-- A fragment is held by any that it ends. -/
theorem holds_append (a g : Fragment) : (a ++ g).Holds g :=
  ⟨a.text ++ gap a g, "", by rw [text_append, String.append_empty]⟩

/-- What a fragment holds it still holds with more behind it. -/
theorem Holds.append (h : a.Holds g) (b : Fragment) : (a ++ b).Holds g := by
  obtain ⟨before, after, htext⟩ := h
  exact ⟨before, after ++ gap a b ++ b.text, by rw [text_append, htext]; simp [String.append_assoc]⟩

end Fragment

/-- The clauses of a statement are in its text. -/
theorem Query.clauses_written {q : Query} {f : Fragment} (h : q.render scope = .ok f) :
    (∃ g, Expr.renderClause scope .where q.filter = .ok g ∧ f.Holds g) ∧
      ∃ g, Expr.renderClause scope .having q.having = .ok g ∧ f.Holds g := by
  obtain ⟨_, _, rows, _, groupRows, _, _, _, hrows, _, hgroupRows, _, rfl⟩ := Query.of_render h
  exact ⟨⟨rows, hrows, (((holds_append _ rows).append _).append _).append _ |>.append _⟩,
    ⟨groupRows, hgroupRows, ((holds_append _ groupRows).append _).append _⟩⟩

/-- The condition of a join is in the text of the joins. -/
theorem Join.condition_written {left : Clauses.Anchor} {afterOptional : Bool} {j : Join}
    {rest : List Join} {f : Fragment}
    (h : Join.renderAll scope left afterOptional (j :: rest) = .ok f) :
    ∃ g, Clauses.onClause j.kind
        (Clauses.mappingTerms scope left.id j.relation.target.id j.relation.mapping)
        (Expr.renderAll scope (j.relation.condition left.id j.relation.target.id)) = .ok g ∧
      f.Holds g := by
  obtain ⟨included, kind, ⟨name, target, mapping, condition, selection, joins⟩⟩ := j
  obtain ⟨_, on, _, _, _, hon, _, _, rfl⟩ := Join.of_renderAll_cons h
  exact ⟨on, hon, ((holds_append _ on).append _).append _⟩

/-! ## Conditions in clauses -/

/-- **Conditions are kept whole.** What stands by itself, and leaves nothing open, keeps together in
every conjunction. Where all conditions of a clause do, reading its text by the precedence of SQL
gives the conjunction of the conditions, each read by itself: for WHERE, for HAVING, and for ON, in
which the equalities of the mapping are conditions too. A condition that is alone need only be read
at all. And the negation of an expression is read as the negation of what the expression is read
as. The clauses are in the texts of statements and joins, and all this holds whatever the predicates
are worth. -/
theorem Query.conditions_kept (scope : Scope) (v : Valuation) :
    (∀ (e : Expr) (f : Fragment), e.Stands → e.render scope false = .ok f → f.closed = true →
      e.Whole scope) ∧
    (∀ (q : Query) (es : List Expr), (∀ e ∈ q.filter.toList ++ es, e.Whole scope) →
      q.filter.toList ++ es ≠ [] → Expr.Conjoined scope v .where
        (Expr.renderClause scope .where (es.foldl Query.restrict q).filter) []
        (q.filter.toList ++ es)) ∧
    (∀ (q : Query) (es : List Expr), (∀ e ∈ q.having.toList ++ es, e.Whole scope) →
      q.having.toList ++ es ≠ [] → Expr.Conjoined scope v .having
        (Expr.renderClause scope .having (es.foldl Query.restrictGroups q).having) []
        (q.having.toList ++ es)) ∧
    (∀ (r : Relation) (ks : List (SourceId → SourceId → Expr)) (earlier : List Expr)
      (left target : SourceId) (kind : JoinKind) (mapped : List Fragment), kind ≠ .cross →
      r.condition left target = earlier.flatMap Expr.conjuncts →
      Clauses.mappingTerms scope left target r.mapping = .ok mapped →
      (∀ e ∈ earlier ++ ks.map (fun k => k left target), e.Whole scope) →
      mapped ≠ [] ∨ (ks.foldl Relation.restrict r).condition left target ≠ [] →
      Expr.Conjoined scope v .on
        (Clauses.onClause kind (Clauses.mappingTerms scope left target r.mapping)
          (Expr.renderAll scope ((ks.foldl Relation.restrict r).condition left target)))
        mapped (earlier ++ ks.map fun k => k left target)) ∧
    (∀ (q : Query) (e : Expr) (t : Truth), e.Means scope v t →
      (q.filter = none → Expr.Conjoined scope v .where
        (Expr.renderClause scope .where (q.restrict e).filter) [] [e]) ∧
      (q.having = none → Expr.Conjoined scope v .having
        (Expr.renderClause scope .having (q.restrictGroups e).having) [] [e])) ∧
    (∀ es : List Expr, (∀ e ∈ es, e.Whole scope) →
      ∃ ts, List.Forall₂ (Expr.Means scope v) es ts ∧ (Expr.all es).Means scope v (.all ts)) ∧
    (∀ (e : Expr) (f : Fragment), e.Negatable → e.render scope false = .ok f → f.closed = true →
      ∃ t, e.Means scope v t ∧ (Expr.not e).Means scope v (.negatedIf true t)) ∧
    (∀ (q : Query) (f : Fragment), q.render scope = .ok f →
      (∃ g, Expr.renderClause scope .where q.filter = .ok g ∧ f.Holds g) ∧
        ∃ g, Expr.renderClause scope .having q.having = .ok g ∧ f.Holds g) ∧
    (∀ (left : Clauses.Anchor) (afterOptional : Bool) (j : Join) (rest : List Join) (f : Fragment),
      Join.renderAll scope left afterOptional (j :: rest) = .ok f →
      ∃ g, Clauses.onClause j.kind
          (Clauses.mappingTerms scope left.id j.relation.target.id j.relation.mapping)
          (Expr.renderAll scope (j.relation.condition left.id j.relation.target.id)) = .ok g ∧
        f.Holds g) := by
  refine ⟨fun e f h hf hclosed => e.whole_of_stands h hf hclosed, fun q es h hne => ?_,
    fun q es h hne => ?_, ?_, fun q e t h => ⟨fun hnone => ?_, fun hnone => ?_⟩,
    fun es h => (Expr.means_all h).2 v, fun e f h hf hclosed => ?_,
    fun q f h => Query.clauses_written h, fun left afterOptional j rest f h =>
      Join.condition_written h⟩
  · rw [Query.filter_restrict]
    exact Expr.conjoined_conjoin h hne v (by decide)
  · rw [Query.having_restrictGroups]
    exact Expr.conjoined_conjoin h hne v (by decide)
  · intro r ks earlier left target kind mapped hkind hearlier hmapped h hne
    -- The equalities of the mapping come first, and are conjunctions themselves.
    obtain ⟨equalities, hequalities, rfl⟩ :=
      map_eq_ok.mp ((Equality.mappingTerms_eq scope left target r.mapping).symm.trans hmapped)
    have hcondition : (ks.foldl Relation.restrict r).condition left target =
        (earlier ++ ks.map fun k => k left target).flatMap Expr.conjuncts := by
      rw [Relation.condition_restrict, hearlier, List.flatMap_append, List.flatMap_map]
    rw [hcondition] at hne ⊢
    exact Expr.conjoined_on hkind hmapped h (hne.imp_left fun hne hnil => hne (hnil ▸ rfl)) v
  · have hfilter : (q.restrict e).filter = Query.conjoin q.filter e := rfl
    rw [hfilter, hnone]
    exact Expr.conjoined_single h (by decide)
  · have hhaving : (q.restrictGroups e).having = Query.conjoin q.having e := rfl
    rw [hhaving, hnone]
    exact Expr.conjoined_single h (by decide)
  · obtain ⟨g, hg, c, d, hc, hd, htruth⟩ := Expr.render_opposed h hf hclosed
    exact ⟨c.truth v.truth, ⟨f, c, hf, hc, rfl⟩, ⟨g, d, hg, hd, htruth v⟩⟩

/-! ## A valuation -/

/-- The item says the opposite of what would be said without it. -/
def Conditions.contradicts : ReadItem → Bool
  | .symbol s => s.isKeyword "not" || s = .sign '<'
  | .group _ _ => false

/-- The text of a word or a name. -/
def Conditions.nameOf : ReadItem → Option String
  | .symbol (.word text) | .symbol (.quoted _ text) => some text
  | _ => none

/-- A tight item is no negation and no inequality. -/
theorem Conditions.contradicts_of_tight {item : ReadItem} (h : tight item = true) :
    contradicts item = false := by
  cases item with
  | group bracket items => rfl
  | symbol s =>
      have hsign : s ≠ .sign '<' := by
        rintro rfl
        exact absurd h (by decide)
      have hnot : s.isKeyword "not" = false := (joins_of_tight h).2
      rw [contradicts, hnot, decide_eq_false hsign]
      rfl

/-- Neither is any of a row of tight items. -/
theorem Conditions.any_contradicts {xs : List ReadItem} (h : Tight xs) :
    xs.any contradicts = false :=
  List.any_eq_false.mpr fun i hi => by
    rw [contradicts_of_tight (h.2 i hi)]
    exact Bool.false_ne_true

/-- What is known of the word that the items begin with, or the opposite behind a NOT or an
inequality sign. -/
def Conditions.worth (known : Option String → Truth) (items : List ReadItem) : Truth :=
  .negatedIf (items.any contradicts) (known (items.head?.bind nameOf))

/-- An operand is asked for its first item only. -/
theorem Conditions.worth_append (known : Option String → Truth) {xs : List ReadItem} (h : Tight xs)
    (ys : List ReadItem) : worth known (xs ++ ys) =
      .negatedIf (ys.any contradicts) (known (xs.head?.bind nameOf)) := by
  rw [worth, List.head?_append_of_ne_nil _ h.1, List.any_append, any_contradicts h,
    Bool.false_or]

/-- Predicates are worth what is known of the word that they begin with. -/
def Valuation.byFirst (known : Option String → Truth) (hzero : known (some "0") = some false)
    (hone : known (some "1") = some true) : Valuation where
  truth := worth known
  zero := hzero
  one := hone
  notEqual hxs hys := by
    rw [worth_append known hxs, worth_append known hxs, List.any_cons, List.any_cons,
      List.any_cons, any_contradicts hys]
    rfl
  isNot hxs hys := by
    rw [worth_append known hxs, worth_append known hxs, List.any_cons, List.any_cons,
      List.any_cons, any_contradicts hys]
    rfl
  notIn hxs := by
    rw [worth_append known hxs, worth_append known hxs]
    rfl

/-- What begins with 1 or with A is true, and what begins with no word is unknown. -/
def someTrue : Valuation :=
  .byFirst (fun first => first.map fun text => text = "1" || text = "a") rfl rfl

/-- What a rendered expression is read as and worth is what it means. -/
theorem Expr.means_of_eq {scope : Scope} {v : Valuation} {e : Expr} {t : Truth}
    (h : ((e.render scope false).toOption.bind condition?).map (·.truth v.truth) = some t) :
    e.Means scope v t := by
  obtain ⟨c, hc, ht⟩ := Option.map_eq_some_iff.mp h
  obtain ⟨f, hf, hc⟩ := Option.bind_eq_some_iff.mp hc
  cases hrender : e.render scope false with
  | error err =>
      rw [hrender] at hf
      cases hf
  | ok g =>
      rw [hrender] at hf
      exact ⟨f, c, Option.some.inj hf ▸ hrender, hc, ht⟩

/-- A scope with people and their leaders. -/
def pairs : Scope := ⟨people, [[(⟨0⟩, some "persons"), (⟨1⟩, some "leader")]]⟩

/-- A condition in SQL, a disjunction, and a negation. -/
def pairConditions : List Expr :=
  [.literal "id BETWEEN 1 AND 9 AND name LIKE 'A%'" none,
    .or [.is (.column (some ⟨1⟩) "name") (.value .null), .literal "leader.id > 0" none],
    .not (.inList (.column (some ⟨0⟩) "name") [.value (.text "Ada"), .literal "id OR 1" none])]

/-- Leaders with a name. -/
def namedLeader : Relation :=
  let leader := ((Relation.foreignKey "leader" "persons" [("leader_id", "id")]).run 1).1
  leader.restrict fun _ target => .not (.is (target.column "name") (.value .null))

/-- The ids of people whose leader is the next one. -/
def followed : Expr := .equal (.column (some ⟨0⟩) "leader_id") (.literal "persons.id + 1" none)

/-- The assumptions are met by people and their leaders: conditions of three kinds in WHERE, HAVING
and ON, and under a NOT. -/
theorem pairs_kept :
    (∀ e ∈ pairConditions, e.Whole pairs) ∧
    Expr.Conjoined pairs someTrue .where
      (Expr.renderClause pairs .where (pairConditions.foldl Query.restrict .empty).filter) []
      pairConditions ∧
    Expr.Conjoined pairs someTrue .having
      (Expr.renderClause pairs .having (pairConditions.foldl Query.restrictGroups .empty).having) []
      pairConditions ∧
    (∃ mapped, Clauses.mappingTerms pairs ⟨0⟩ ⟨1⟩ namedLeader.mapping = .ok mapped ∧
      Expr.Conjoined pairs someTrue .on
        (Clauses.onClause .left (Clauses.mappingTerms pairs ⟨0⟩ ⟨1⟩ namedLeader.mapping)
          (Expr.renderAll pairs (([fun _ _ => followed].foldl Relation.restrict
            namedLeader).condition ⟨0⟩ ⟨1⟩)))
        mapped [.not (.is (.column (some ⟨1⟩) "name") (.value .null)), followed]) ∧
    Expr.Conjoined pairs someTrue .where (Expr.renderClause pairs .where
      (Query.empty.restrict (.literal "a = 1 OR b = 2" none)).filter) []
      [.literal "a = 1 OR b = 2" none] ∧
    (∃ ts, List.Forall₂ (Expr.Means pairs someTrue) pairConditions ts ∧
      (Expr.all pairConditions).Means pairs someTrue (.all ts)) ∧
    (∃ t, followed.Means pairs someTrue t ∧
      (Expr.not followed).Means pairs someTrue (.negatedIf true t)) ∧
    (∃ f g, (Query.empty.restrict followed).render pairs = .ok f ∧
      Expr.renderClause pairs .where (some followed) = .ok g ∧ f.Holds g) ∧
    ∃ f g, Join.renderAll pairs ⟨⟨0⟩, some "persons"⟩ false [⟨true, .left, namedLeader⟩] = .ok f ∧
      Clauses.onClause .left (Clauses.mappingTerms pairs ⟨0⟩ ⟨1⟩ namedLeader.mapping)
        (Expr.renderAll pairs (namedLeader.condition ⟨0⟩ ⟨1⟩)) = .ok g ∧ f.Holds g := by
  obtain ⟨hwhole, hwhere, hhaving, hon, hsingle, hall, hnot, hclauses, hjoin⟩ :=
    Query.conditions_kept pairs someTrue
  -- Being closed is decided on the text, and it makes a standing expression whole.
  have hchecked : ∀ {e : Expr}, e.Stands →
      (e.render pairs false).toOption.any Fragment.closed = true → e.Whole pairs := by
    intro e hstands hclosed
    cases hrender : e.render pairs false with
    | error err =>
        rw [hrender] at hclosed
        cases hclosed
    | ok f =>
        rw [hrender] at hclosed
        exact hwhole e f hstands hrender hclosed
  have hconditions : ∀ e ∈ pairConditions, e.Whole pairs :=
    List.forall_mem_cons.mpr ⟨hchecked ⟨_, rfl⟩ (by decide +kernel),
      List.forall_mem_cons.mpr ⟨hchecked trivial (by decide +kernel),
        List.forall_mem_singleton.mpr (hchecked trivial (by decide +kernel))⟩⟩
  have hnamed : ∀ e ∈ [Expr.not (.is (.column (some ⟨1⟩) "name") (.value .null)), followed],
      e.Whole pairs :=
    List.forall_mem_cons.mpr ⟨hchecked trivial (by decide +kernel),
      List.forall_mem_singleton.mpr (hchecked trivial (by decide +kernel))⟩
  obtain ⟨mapped, hmapped⟩ :
      ∃ mapped, Clauses.mappingTerms pairs ⟨0⟩ ⟨1⟩ namedLeader.mapping = .ok mapped :=
    exists_ok (by decide +kernel)
  obtain ⟨f, hf⟩ : ∃ f, followed.render pairs false = .ok f := exists_ok (by decide +kernel)
  obtain ⟨statement, hstatement⟩ : ∃ s, (Query.empty.restrict followed).render pairs = .ok s :=
    exists_ok (by decide +kernel)
  obtain ⟨joins, hjoins⟩ : ∃ s, Join.renderAll pairs ⟨⟨0⟩, some "persons"⟩ false
      [⟨true, .left, namedLeader⟩] = .ok s := exists_ok (by decide +kernel)
  obtain ⟨clause, hclause, hheld⟩ := (hclauses _ statement hstatement).1
  obtain ⟨condition, hcondition, hjoined⟩ := hjoin _ _ _ _ joins hjoins
  have hclosed : f.closed = true := by
    have hchecked : (followed.render pairs false).toOption.any Fragment.closed = true := by
      decide +kernel
    rwa [hf] at hchecked
  exact ⟨hconditions, hwhere .empty pairConditions hconditions (List.cons_ne_nil _ _),
    hhaving .empty pairConditions hconditions (List.cons_ne_nil _ _),
    ⟨mapped, hmapped, hon namedLeader [fun _ _ => followed]
      [.not (.is (.column (some ⟨1⟩) "name") (.value .null))] ⟨0⟩ ⟨1⟩ .left mapped nofun rfl
      hmapped hnamed (.inr (List.cons_ne_nil _ _))⟩,
    (hsingle .empty _ (some true) (Expr.means_of_eq (by decide +kernel))).1 rfl,
    hall pairConditions hconditions,
    hnot followed f ⟨trivial, .inr ⟨_, rfl, by decide⟩⟩ hf hclosed,
    ⟨statement, clause, hstatement, hclause, hheld⟩,
    ⟨joins, condition, hjoins, hcondition, hjoined⟩⟩

/-! ## Texts with a bare OR -/

/-- Rows for which one of two equalities holds, in SQL, and moreover a third one. -/
def bareOr : Query :=
  let rows := ((Query.table "t").run 0).1
  (rows.restrictSql "a = 1 OR b = 2" .empty).restrict
    (.equal (.column none "c") (.value (.integer 1)))

/-- The third equality is asked of the rows that fulfil the second one only. -/
theorem bareOr_regrouped :
    (bareOr.compile (Schema.empty.declare "t" ["a", "b", "c"])).toOption.map (·.sql) =
      some "SELECT * FROM \"t\" WHERE (a = 1 OR b = 2 AND (\"c\" = ?))" ∧
    (Expr.literal "a = 1 OR b = 2" (some .empty)).Means (.outermost .empty) someTrue (some true) ∧
    (Expr.equal (.column none "c") (.value (.integer 1))).Means (.outermost .empty) someTrue
      (some false) ∧
    ¬Expr.Conjoined (.outermost .empty) someTrue .where
      (Expr.renderClause (.outermost .empty) .where bareOr.filter) []
      [.literal "a = 1 OR b = 2" (some .empty),
        .equal (.column none "c") (.value (.integer 1))] := by
  have hfirst : (Expr.literal "a = 1 OR b = 2" (some .empty)).Means (.outermost .empty) someTrue
      (some true) := Expr.means_of_eq (by decide +kernel)
  have hsecond : (Expr.equal (.column none "c") (.value (.integer 1))).Means (.outermost .empty)
      someTrue (some false) := Expr.means_of_eq (by decide +kernel)
  -- Read together, AND binds tighter than the bare OR, and the whole is true.
  have hclause : ((Expr.renderClause (.outermost .empty) .where bareOr.filter).toOption.bind
      (behind? .where)).map (·.truth someTrue.truth) = some (some true) := by decide +kernel
  refine ⟨by decide +kernel, hfirst, hsecond, ?_⟩
  rintro ⟨g, c, ms, ts, hg, hc, hms, hts, htruth⟩
  obtain ⟨t, _, ht, htail, rfl⟩ := List.forall₂_cons_left_iff.mp hts
  obtain ⟨u, _, hu, hnil, rfl⟩ := List.forall₂_cons_left_iff.mp htail
  cases hnil
  cases hms
  -- But the conjunction of the two meanings is false.
  obtain rfl := ht.unique hfirst
  obtain rfl := hu.unique hsecond
  rw [hg] at hclause
  have hread : (behind? .where g).map (·.truth someTrue.truth) = some (some true) := hclause
  rw [hc, Option.map_some, htruth] at hread
  exact absurd hread (by decide)

end RelationalQuery
