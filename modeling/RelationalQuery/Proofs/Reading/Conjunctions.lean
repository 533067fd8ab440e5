/-
  RelationalQuery.Proofs.Reading.Conjunctions — conditions that are written one after the other.

  A condition that is added to others is written behind an AND, without parentheses of its own. So
  it is read as it is by itself if it has no OR outside its groups, and it is a condition by itself.
  Conditions that were added as one conjunction are flattened into their terms before that, however
  deep the conjunctions are nested, so the terms are what must be read by itself.

  Main definitions:
    * `Fragment.condition?`, `Fragment.behind?`: the condition of a text, and of a clause.
    * `Expr.Means`: the truth of an expression that is read by itself.
    * `Expr.Whole`: the terms of an expression are conditions by themselves, without a bare OR.

  Main statements:
    * `Fragment.condition?_joinWith`: fragments between ANDs.
    * `Expr.means_all`: expressions in one conjunction.
    * `Expr.Means.clause`: a condition behind its keyword.
-/

import RelationalQuery.Proofs.Reading.Fragments

namespace RelationalQuery

open Sql Conditions

/-! ## Fragments -/

namespace Fragment

/-- The condition that the text is. -/
def condition? (f : Fragment) : Option Condition := f.items?.bind read

/-- The condition that the text is behind a keyword. -/
def behind? (keyword : Token) (f : Fragment) : Option Condition :=
  match f.items? with
  | some (.symbol (.word text) :: items) => if text = keyword.text then read items else none
  | _ => none

variable {a b f : Fragment}

/-- A fragment has a condition just when it has items that are read as one. -/
theorem condition?_eq_some {c : Condition} :
    f.condition? = some c ↔ ∃ items, f.items? = some items ∧ read items = some c :=
  Option.bind_eq_some_iff

/-- Arguments make no difference to how a text is read. -/
theorem condition?_literal (sql : String) (arguments : Option Arguments) :
    (literal sql arguments).condition? = (raw sql).condition? :=
  congrArg (Option.bind · read)
    (items?_of_text (show (Chunk.literal sql arguments).text = (Chunk.raw sql).text from rfl))

/-- **Two conditions with an AND between them**, neither of which has a bare OR. -/
theorem condition?_and {cs ds : List Condition} (hends : a.Ends)
    (ha : a.condition? = some (.any [.all cs])) (hb : b.condition? = some (.any [.all ds])) :
    (a ++ token .and ++ b).condition? = some (.any [.all (cs ++ ds)]) := by
  obtain ⟨xs, hxs, hcs⟩ := condition?_eq_some.mp ha
  obtain ⟨ys, hys, hds⟩ := condition?_eq_some.mp hb
  refine condition?_eq_some.mpr ⟨xs ++ .symbol (.word "AND") :: ys, ?_, read_and hcs hds⟩
  have hand : (token .and).items? = some [.symbol (.word "AND")] := items?_keyword (by decide)
  rw [append_assoc]
  exact items?_append hends hxs (items?_append (ends_token _) hand hys)

/-- **Conditions between ANDs are read one by one.** -/
theorem condition?_joinWith {fs : List Fragment} {css : List (List Condition)} (hne : fs ≠ [])
    (hends : ∀ f ∈ fs, f.Ends)
    (h : List.Forall₂ (fun f cs => f.condition? = some (.any [.all cs])) fs css) :
    (joinWith .and fs).condition? = some (.any [.all css.flatten]) := by
  induction h with
  | nil => exact absurd rfl hne
  | cons hf hrest ih =>
      cases hrest with
      | nil => rw [joinWith, hf, List.flatten_singleton]
      | cons hg hrest =>
          obtain ⟨hfirst, hothers⟩ := List.forall_mem_cons.mp hends
          exact condition?_and hfirst hf (ih (List.cons_ne_nil _ _) hothers)

/-- A condition in parentheses is one condition. -/
theorem condition?_parens {c : Condition} (h : a.condition? = some c) :
    a.parens.condition? = some (.any [.all [c]]) := by
  obtain ⟨items, hitems, hread⟩ := condition?_eq_some.mp h
  exact condition?_eq_some.mpr ⟨_, items?_parens hitems, read_group hread⟩

/-- A condition behind a keyword. -/
theorem behind?_token {t : Token} (ht : t ∈ [.where, .having, .on]) {c : Condition}
    (h : f.condition? = some c) : (token t ++ f).behind? t = some c := by
  obtain ⟨items, hitems, hread⟩ := condition?_eq_some.mp h
  have hall : ∀ t ∈ [Token.where, .having, .on], t ∈ [Token.select, .distinct, .from, .where,
      .having, .on, .and, .or, .not, .in, .exists, .between, .is, .null, .collate] := by decide
  have hclause : (token t ++ f).items? = some (.symbol (.word t.text) :: items) :=
    items?_append (ends_token t) (items?_keyword (hall t ht)) hitems
  rw [behind?, hclause]
  exact (if_pos rfl).trans hread

end Fragment

/-! ## Valuations -/

/-- What predicates are worth. The constants are known; and of the comparisons it is known which of
them say the negation of which, as SQL has it, between operands that bind more. -/
structure Valuation where
  truth : List ReadItem → Truth
  zero : truth [.symbol (.word "0")] = some false
  one : truth [.symbol (.word "1")] = some true
  notEqual : ∀ {xs ys}, Tight xs → Tight ys →
    truth (xs ++ .symbol (.sign '<') :: .symbol (.sign '>') :: ys) =
      .negatedIf true (truth (xs ++ .symbol (.sign '=') :: ys))
  isNot : ∀ {xs ys}, Tight xs → Tight ys →
    truth (xs ++ .symbol (.word "IS") :: .symbol (.word "NOT") :: ys) =
      .negatedIf true (truth (xs ++ .symbol (.word "IS") :: ys))
  notIn : ∀ {xs ys}, Tight xs →
    truth (xs ++ [.symbol (.word "NOT"), .symbol (.word "IN"), .group .paren ys]) =
      .negatedIf true (truth (xs ++ [.symbol (.word "IN"), .group .paren ys]))

/-- All of the conditions. -/
def Valuation.all (v : Valuation) (cs : List Condition) : Truth := .all (cs.map (·.truth v.truth))

/-! ## Expressions -/

/-- The expression is written, it is read as a condition by itself, and that has the truth. -/
def Expr.Means (scope : Scope) (v : Valuation) (e : Expr) (t : Truth) : Prop :=
  ∃ f c, e.render scope false = .ok f ∧ f.condition? = some c ∧ c.truth v.truth = t

/-- The truth is determined. -/
theorem Expr.Means.unique {scope : Scope} {v : Valuation} {e : Expr} {t u : Truth}
    (ht : e.Means scope v t) (hu : e.Means scope v u) : t = u := by
  obtain ⟨f, c, hf, hc, rfl⟩ := ht
  obtain ⟨g, d, hg, hd, rfl⟩ := hu
  cases hf.symm.trans hg
  cases hc.symm.trans hd
  rfl

/-- The expression is written, and it is read as a condition without a bare OR. -/
def Expr.Single (scope : Scope) (e : Expr) (cs : List Condition) : Prop :=
  ∃ f, e.render scope false = .ok f ∧ f.condition? = some (.any [.all cs])

mutual

/-- Each term of the expression, through conjunctions inside conjunctions, is read as a condition
without a bare OR. -/
def Expr.Whole (scope : Scope) : Expr → Prop
  | .and terms => Expr.WholeAll scope terms
  | e => ∃ cs, e.Single scope cs

/-- All of the expressions are whole. -/
def Expr.WholeAll (scope : Scope) : List Expr → Prop
  | [] => True
  | e :: rest => e.Whole scope ∧ Expr.WholeAll scope rest

end

variable {scope : Scope}

/-- Expressions in a list are whole just when each of them is. -/
theorem Expr.wholeAll_iff {es : List Expr} :
    Expr.WholeAll scope es ↔ ∀ e ∈ es, e.Whole scope := by
  induction es with
  | nil => exact iff_of_true trivial nofun
  | cons e rest ih => rw [Expr.WholeAll, ih, List.forall_mem_cons]

/-- The terms of a conjunction that is added are whole. -/
theorem Expr.Whole.conjuncts {e : Expr} (h : e.Whole scope) : ∀ t ∈ e.conjuncts, t.Whole scope := by
  unfold Expr.conjuncts
  split
  · exact Expr.wholeAll_iff.mp h
  · exact fun t ht => List.mem_singleton.mp ht ▸ h

/-- A rendered expression does not end with an operator that waits for its operand. -/
theorem Expr.ends_of_render {e : Expr} {negated : Bool} {f : Fragment}
    (h : e.render scope negated = .ok f) : f.Ends := by
  rw [e.render_eq_write] at h
  obtain ⟨t, _, rfl⟩ := map_eq_ok.mp h
  exact t.ends

/-- Neither does any expression of a rendered list. -/
theorem Expr.ends_of_renderAll : {es : List Expr} → {fs : List Fragment} →
    Expr.renderAll scope es = .ok fs → ∀ f ∈ fs, f.Ends
  | [], _, h => by
      cases h
      exact nofun
  | e :: rest, _, h => by
      obtain ⟨f, hf, h⟩ := bind_eq_ok.mp h
      obtain ⟨others, hothers, h⟩ := bind_eq_ok.mp h
      cases h
      exact List.forall_mem_cons.mpr ⟨Expr.ends_of_render hf, Expr.ends_of_renderAll hothers⟩

/-- Terms that are single conditions are written, and read one by one. -/
theorem Expr.renderAll_of_single : {es : List Expr} → {css : List (List Condition)} →
    List.Forall₂ (Expr.Single scope) es css → ∃ fs, Expr.renderAll scope es = .ok fs ∧
      List.Forall₂ (fun f cs => f.condition? = some (.any [.all cs])) fs css
  | [], _, .nil => ⟨[], rfl, .nil⟩
  | e :: rest, _, .cons ⟨f, hf, hcs⟩ hrest => by
      obtain ⟨fs, hfs, hall⟩ := Expr.renderAll_of_single hrest
      exact ⟨f :: fs, by rw [Expr.renderAll, hf, ok_bind, hfs]; rfl, .cons hcs hall⟩

/-- **A conjunction of single conditions is written**, and it is read as one condition that has
their truth. -/
theorem Expr.single_and {terms : List Expr} {css : List (List Condition)}
    (h : List.Forall₂ (Expr.Single scope) terms css) : ∃ cs, (Expr.and terms).Single scope cs ∧
      ∀ v : Valuation, v.all cs = Truth.all (css.map v.all) := by
  obtain ⟨fs, hfs, hall⟩ := Expr.renderAll_of_single h
  have hrender : (Expr.and terms).render scope false = .ok (Clauses.connective .and "1" fs) := by
    rw [Expr.render, hfs]
    rfl
  have hends := Expr.ends_of_renderAll hfs
  -- No term is the constant 1, a single one stands for itself, and more are in parentheses.
  match fs, css, hall, hends, hrender with
  | [], _, .nil, _, hrender =>
      refine ⟨[.predicate [.symbol (.word "1")]], ⟨_, hrender, ?_⟩, fun v => ?_⟩
      · have hitems : (Fragment.raw "1").items? = some [.symbol (.word "1")] := rfl
        exact Fragment.condition?_eq_some.mpr ⟨_, hitems, rfl⟩
      · rw [Valuation.all, List.map_singleton, Truth.all_singleton]
        exact v.one
  | [f], [cs], .cons hf .nil, _, hrender =>
      refine ⟨cs, ⟨f, hrender, hf⟩, fun v => ?_⟩
      rw [List.map_singleton, Truth.all_singleton]
  | f :: g :: rest, css, hall, hends, hrender =>
      have hjoined := Fragment.condition?_joinWith (List.cons_ne_nil f _) hends hall
      refine ⟨_, ⟨_, hrender, Fragment.condition?_parens hjoined⟩, fun v => ?_⟩
      rw [Valuation.all, List.map_singleton, Truth.all_singleton, Condition.truth_conjunction,
        List.map_flatten, Truth.all_flatten, List.map_map]
      rfl

mutual

/-- What is whole is a single condition. -/
theorem Expr.Whole.single : (e : Expr) → e.Whole scope → ∃ cs, e.Single scope cs
  | .and terms, h => by
      obtain ⟨css, hcss⟩ := Expr.WholeAll.single terms h
      obtain ⟨cs, hcs, _⟩ := Expr.single_and hcss
      exact ⟨cs, hcs⟩
  | .literal _ _, h | .value _, h | .column _ _, h | .collate _ _, h | .not _, h | .equal _ _, h
  | .notEqual _ _, h | .is _ _, h | .isNot _ _, h | .prefixOp _ _, h | .infixOp _ _ _, h
  | .or _, h | .inList _ _, h | .inQuery _ _, h | .exists _, h | .between _ _ _, h
  | .call _ _, h | .count _, h | .countDistinct _, h => h

/-- Whole expressions in a list are conjunctions of conditions, one for each. -/
theorem Expr.WholeAll.single : (es : List Expr) → Expr.WholeAll scope es →
    ∃ css, List.Forall₂ (Expr.Single scope) es css
  | [], _ => ⟨[], .nil⟩
  | e :: rest, ⟨he, hrest⟩ => by
      obtain ⟨cs, hcs⟩ := Expr.Whole.single e he
      obtain ⟨css, hcss⟩ := Expr.WholeAll.single rest hrest
      exact ⟨cs :: css, .cons hcs hcss⟩

end

/-! ## Conjunctions -/

/-- An expression that is a conjunction means what all its terms mean together. -/
theorem Expr.Single.means {e : Expr} {cs : List Condition} (h : e.Single scope cs)
    (v : Valuation) : e.Means scope v (v.all cs) := by
  obtain ⟨f, hf, hcs⟩ := h
  exact ⟨f, _, hf, hcs, Condition.truth_conjunction ..⟩

/-- Terms in one conjunction, a single one of which can stand for itself. -/
theorem Expr.means_terms {terms : List Expr} {css : List (List Condition)}
    (h : List.Forall₂ (Expr.Single scope) terms css) (v : Valuation) :
    (Expr.and terms).Means scope v (.all (css.map v.all)) ∧
      ∀ e, terms = [e] → e.Means scope v (.all (css.map v.all)) := by
  constructor
  · obtain ⟨cs, hcs, htruth⟩ := Expr.single_and h
    exact htruth v ▸ hcs.means v
  · -- A conjunction of one term is written as the term.
    rintro e rfl
    cases h with
    | cons he hrest =>
        cases hrest
        rw [List.map_singleton, Truth.all_singleton]
        exact he.means v

/-- A whole expression means that its terms all hold. -/
theorem Expr.Whole.terms : {e : Expr} → e.Whole scope →
    ∃ css, List.Forall₂ (Expr.Single scope) e.conjuncts css ∧
      ∀ v, e.Means scope v (.all (css.map v.all)) := by
  intro e h
  obtain ⟨cs, hcs⟩ := Expr.Whole.single e h
  unfold Expr.conjuncts
  split
  · obtain ⟨css, hcss⟩ := Expr.WholeAll.single _ h
    exact ⟨css, hcss, fun v => (Expr.means_terms hcss v).1⟩
  · refine ⟨[cs], .cons hcs .nil, fun v => ?_⟩
    rw [List.map_singleton, Truth.all_singleton]
    exact hcs.means v

/-- The terms of whole expressions, one expression after the other. -/
theorem Expr.terms_of_whole : {es : List Expr} → (∀ e ∈ es, e.Whole scope) →
    ∃ css, List.Forall₂ (Expr.Single scope) (es.flatMap Expr.conjuncts) css ∧
      ∀ v : Valuation, ∃ ts, List.Forall₂ (Expr.Means scope v) es ts ∧
        .all (css.map v.all) = Truth.all ts
  | [], _ => ⟨[], .nil, fun _ => ⟨[], .nil, rfl⟩⟩
  | e :: rest, h => by
      obtain ⟨he, hrest⟩ := List.forall_mem_cons.mp h
      obtain ⟨css, hcss, hmeans⟩ := he.terms
      obtain ⟨others, hothers, htruth⟩ := Expr.terms_of_whole hrest
      refine ⟨css ++ others, List.rel_append hcss hothers, fun v => ?_⟩
      obtain ⟨ts, hts, hall⟩ := htruth v
      refine ⟨_, .cons (hmeans v) hts, ?_⟩
      rw [List.map_append, Truth.all_append, hall]
      exact (Truth.all_cons _ ts).symm

/-- **Whole expressions in one conjunction** are whole again, and mean that all of them hold. -/
theorem Expr.means_all {es : List Expr} (h : ∀ e ∈ es, e.Whole scope) :
    (Expr.all es).Whole scope ∧ ∀ v, ∃ ts, List.Forall₂ (Expr.Means scope v) es ts ∧
      (Expr.all es).Means scope v (.all ts) := by
  have hterms : ∀ t ∈ es.flatMap Expr.conjuncts, t.Whole scope := by
    intro t ht
    obtain ⟨e, he, ht⟩ := List.mem_flatMap.mp ht
    exact (h e he).conjuncts t ht
  constructor
  · unfold Expr.all
    split
    · -- A single term stands by itself, without a conjunction around it.
      rename_i e heq
      exact hterms e (heq ▸ List.mem_singleton_self e)
    · exact Expr.wholeAll_iff.mpr hterms
  · intro v
    obtain ⟨css, hcss, htruth⟩ := Expr.terms_of_whole h
    obtain ⟨ts, hts, hall⟩ := htruth v
    obtain ⟨hand, hone⟩ := Expr.means_terms hcss v
    rw [hall] at hand hone
    refine ⟨ts, hts, ?_⟩
    unfold Expr.all
    split
    · rename_i e heq
      exact hone e heq
    · exact hand

/-- What is conjoined one after the other is whole, and means that all of it holds. -/
theorem Expr.means_conjoin : {es : List Expr} → (∀ e ∈ es, e.Whole scope) → ∀ (v : Valuation)
    {earlier : Expr} {before : List Truth}, earlier.Whole scope →
      earlier.Means scope v (.all before) → ∃ all ts,
        es.foldl Query.conjoin (some earlier) = some all ∧
          List.Forall₂ (Expr.Means scope v) es ts ∧ all.Means scope v (.all (before ++ ts))
  | [], _, _, earlier, before, _, hmeans =>
      ⟨earlier, [], rfl, .nil, (List.append_nil before).symm ▸ hmeans⟩
  | e :: rest, h, v, earlier, before, hearlier, hmeans => by
      obtain ⟨he, hrest⟩ := List.forall_mem_cons.mp h
      have hboth : ∀ d ∈ [earlier, e], d.Whole scope :=
        List.forall_mem_cons.mpr ⟨hearlier, List.forall_mem_singleton.mpr he⟩
      -- One step: the earlier condition and the new one are conjoined, and are whole again.
      obtain ⟨hwhole, hall⟩ := Expr.means_all hboth
      obtain ⟨ts, hts, htwo⟩ := hall v
      obtain ⟨own, _, hown, htail, rfl⟩ := List.forall₂_cons_left_iff.mp hts
      obtain ⟨last, _, hlast, hnil, rfl⟩ := List.forall₂_cons_left_iff.mp htail
      cases hnil
      -- An expression means one truth value only.
      obtain rfl := hown.unique hmeans
      obtain ⟨all, others, hfold, hothers, hmeansAll⟩ :=
        Expr.means_conjoin hrest v hwhole ((Truth.all_concat before last).symm ▸ htwo)
      refine ⟨all, last :: others, hfold, .cons hlast hothers, ?_⟩
      rwa [List.append_assoc] at hmeansAll

/-! ## Clauses -/

/-- **A condition behind its keyword** means what it means by itself. -/
theorem Expr.Means.clause {e : Expr} {v : Valuation} {t : Truth} (h : e.Means scope v t)
    {keyword : Token} (hkeyword : keyword ∈ [.where, .having, .on]) :
    ∃ g c, Expr.renderClause scope keyword (some e) = .ok g ∧ g.behind? keyword = some c ∧
      c.truth v.truth = t := by
  obtain ⟨f, c, hf, hc, ht⟩ := h
  have hrender : Expr.renderClause scope keyword (some e) = .ok (Fragment.token keyword ++ f) := by
    rw [Expr.renderClause, hf]
    rfl
  exact ⟨_, c, hrender, Fragment.behind?_token hkeyword hc, ht⟩

end RelationalQuery
