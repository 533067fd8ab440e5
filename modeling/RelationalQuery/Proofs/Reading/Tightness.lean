/-
  RelationalQuery.Proofs.Reading.Tightness — what is one operand wherever it stands.

  Every compound expression is written between parentheses of its own, and what has none is one
  name, one constant or one call. Two things can stand outside parentheses that do not bind their
  neighbours: text of the caller's own, and names of functions and collations that are keywords.

  Main definitions:
    * `Fragment.Tight`: the items of the text are one operand wherever they stand.
    * `Sql.Term.Covered`, `Expr.Covered`: what is asked of what stands outside parentheses.

  Main statements:
    * `Sql.Term.tight`: covered terms that leave nothing open are tight.
    * `Expr.covered_of_resolve`: covered expressions have covered terms.
-/

import RelationalQuery.Proofs.Reading.Closed

namespace RelationalQuery

open Sql Conditions Fragment

namespace Fragment

/-- The items of the text are one operand wherever they stand. -/
def Tight (f : Fragment) : Prop := ∃ items, f.items? = some items ∧ Conditions.Tight items

variable {a b f : Fragment}

/-- Two tight fragments in a row are one operand, unless an operator that waits stands between them.
-/
theorem tight_append (ha : a.Tight) (hends : a.Ends) (hb : b.Tight) : (a ++ b).Tight := by
  obtain ⟨xs, hxs, htight⟩ := ha
  obtain ⟨ys, hys, htight'⟩ := hb
  exact ⟨xs ++ ys, items?_append hends hxs hys, List.append_ne_nil_of_left_ne_nil htight.1 _,
    List.forall_mem_append.mpr ⟨htight.2, htight'.2⟩⟩

/-- A text of one symbol. -/
theorem tight_of_symbol {s : Symbol} (h : f.symbols? = some [s]) (hplain : s.plain = true)
    (htight : tight (.symbol s) = true) : f.Tight :=
  ⟨_, items?_eq_some.mpr ⟨_, h, Symbol.nests_of_plain hplain⟩, List.cons_ne_nil _ _,
    List.forall_mem_singleton.mpr htight⟩

/-- Whether a chunk is tight depends on its text only. -/
theorem tight_of_text {c d : Chunk} (h : c.text = d.text) (hd : (single d).Tight) :
    (single c).Tight := by
  unfold Tight
  rw [items?_of_text h]
  exact hd

theorem tight_ident (name : String) : (ident name).Tight :=
  ⟨_, items?_ident name, List.cons_ne_nil _ _, List.forall_mem_singleton.mpr rfl⟩

theorem tight_null : (token .null).Tight :=
  tight_of_symbol (s := .word "NULL") (by decide +kernel) (by decide +kernel) (by decide)

theorem tight_param (v : Value) : (param v).Tight := by
  unfold param
  split
  · exact tight_null
  · have hsign : Scan.symbols? "?" = some [.sign '?'] := by decide +kernel
    have hsymbols : (single (.param v)).symbols? = some [.sign '?'] := by
      rwa [Fragment.symbols?, text_single]
    exact tight_of_symbol hsymbols rfl (by decide)

theorem tight_constant {text : String} (h : text ∈ ["0", "1"]) : (raw text).Tight := by
  have hall : ∀ s ∈ ["0", "1"], (raw s).symbols? = some [.word s] ∧
      (Symbol.word s).plain = true ∧ tight (.symbol (.word s)) = true := by decide +kernel
  obtain ⟨hsymbols, hplain, htight⟩ := hall text h
  exact tight_of_symbol hsymbols hplain htight

/-- A qualified name is tight. -/
theorem tight_qualified (source : Option String) (name : String) :
    (Clauses.qualified source (ident name)).Tight := by
  cases source with
  | none => exact tight_ident name
  | some qualifier =>
      have hdot : (token .dot).Tight :=
        tight_of_symbol (s := .sign '.') (by decide +kernel) rfl (by decide)
      exact tight_append (tight_append (tight_ident qualifier) nofun hdot) nofun (tight_ident name)

/-- **What stands between parentheses is one operand.** -/
theorem tight_parens (hclosed : a.parens.closed = true) (hbalanced : a.Balanced) :
    a.parens.Tight := by
  obtain ⟨items, hitems⟩ := exists_items (closed_parens a ▸ hclosed) hbalanced
  exact ⟨_, items?_parens hitems, List.cons_ne_nil _ _,
    List.forall_mem_singleton.mpr (tight_group _ _)⟩

/-- A call of a tight name on arguments that leave nothing open is tight. -/
theorem tight_call {name : String} (hname : (raw name).Tight)
    (hclosed : (call name a).closed = true) (hbalanced : a.Balanced) : (call name a).Tight := by
  have hsplit : call name a = single (.function name) ++ a.parens := rfl
  rw [hsplit, closed_append] at hclosed
  rw [hsplit]
  have hfunction : (single (.function name)).Tight := tight_of_text (d := .raw name) rfl hname
  exact tight_append hfunction nofun
    (tight_parens (Bool.and_eq_true_iff.mp hclosed).2 hbalanced)

/-- An operator in front of an operand. -/
theorem tight_prefixed {op : String} (hclosed : (single (.prefixOp op) ++ f).closed = true)
    (hf : f.Tight) : (single (.prefixOp op) ++ f).Tight := by
  obtain ⟨hop, hrest⟩ := List.forall_mem_cons.mp (List.all_eq_true.mp hclosed)
  obtain ⟨items, hitems, htight⟩ := hf
  obtain ⟨ys, hys, hnests⟩ := items?_eq_some.mp hitems
  -- The operators are three, so what their symbols are is computed.
  have hall : ∀ op ∈ prefixOperators, ∀ s ∈ (Chunk.prefixOp op).symbols,
      s.plain = true ∧ tight (.symbol s) = true := by decide +kernel
  have hsigns := hall op (of_decide_eq_true hop)
  refine ⟨_, items?_eq_some.mpr ⟨_, symbols?_cons hop hrest hys,
    (Symbol.nests_of_all_plain fun s hs => (hsigns s hs).1).append hnests⟩,
    List.append_ne_nil_of_right_ne_nil _ htight.1, List.forall_mem_append.mpr ⟨?_, htight.2⟩⟩
  intro i hi
  obtain ⟨s, hs, rfl⟩ := List.mem_map.mp hi
  exact (hsigns s hs).2

/-- A collation of a tight name is tight. -/
theorem tight_collate {collation : String} (h : (raw collation).Tight) :
    (token .collate ++ raw collation).Tight :=
  have hmark : (token .collate).Tight :=
    tight_of_symbol (s := .word "COLLATE") (by decide +kernel) (by decide +kernel) (by decide)
  tight_append hmark (ends_token _) h

/-- A collation leaves nothing open if its operand and its name do not. -/
theorem closed_collated (f : Fragment) (collation : String) :
    (Clauses.collated f collation).closed = (f.closed && (raw collation).closed) :=
  closed_insertBeforeClose f (token .collate ++ raw collation)

/-- **A collation inside the last group, or behind an operand that ends with none.** -/
theorem tight_collated {collation : String} (hcollation : (raw collation).Tight)
    (hclosed : (Clauses.collated f collation).closed = true) (hends : f.Ends) (hf : f.Tight) :
    (Clauses.collated f collation).Tight := by
  have htail := tight_collate hcollation
  -- The collation goes inside a closing parenthesis, even that of a call.
  by_cases hlast : f.chunks.getLast? = some (.token .closeParen)
  · obtain ⟨hfirst, hraw⟩ := Bool.and_eq_true_iff.mp (closed_collated f collation ▸ hclosed)
    obtain ⟨items, hitems, htight⟩ := hf
    obtain ⟨more, hmore, _⟩ := htail
    obtain ⟨before, inside, rfl, hinsert⟩ :=
      items?_insertBeforeClose hfirst (closed_append _ _ ▸ hraw) hlast hitems hmore
    refine ⟨_, hinsert, List.append_ne_nil_of_right_ne_nil _ (List.cons_ne_nil _ _), ?_⟩
    exact List.forall_mem_append.mpr ⟨(List.forall_mem_append.mp htight.2).1,
      List.forall_mem_singleton.mpr (tight_group _ _)⟩
  · rw [Clauses.collated, insertBeforeClose, if_neg hlast]
    exact tight_append hf hends htail

end Fragment

/-! ## Terms -/

namespace Sql

/-- What stands outside the parentheses of the written term binds its neighbours. -/
def Term.Covered : Term → Prop
  | .literal sql _ => (raw sql).Tight
  | .constant text => text ∈ ["0", "1"]
  | .collate t collation => t.Covered ∧ (raw collation).Tight
  | .prefixOp _ t => t.Covered
  | .and [t] | .or [t] => t.Covered
  | .call function _ => (raw function).Tight
  | _ => True

/-- COUNT is no keyword. -/
theorem tight_count : (raw "COUNT").Tight :=
  tight_of_symbol (s := .word "COUNT") (by decide +kernel) (by decide +kernel) (by decide)

/-- **Covered terms that leave nothing open are one operand wherever they stand.** -/
theorem Term.tight : (t : Term) → t.Covered → t.write.closed = true → t.write.Tight
  | .literal sql arguments, hcovered, _ =>
      tight_of_text (c := .literal sql arguments) (d := .raw sql) rfl hcovered
  | .value v, _, _ => tight_param v
  | .constant text, hcovered, _ => tight_constant hcovered
  | .column none name, _, _ => tight_ident name
  | .column (some r) name, _, _ => tight_qualified r.qualifier name
  | .collate t collation, hcovered, hclosed =>
      tight_collated hcovered.2 hclosed t.ends
        (t.tight hcovered.1
          (Bool.and_eq_true_iff.mp (closed_collated t.write collation ▸ hclosed)).1)
  | .negation t, _, hclosed =>
      tight_parens hclosed ((balanced_token .not (by decide)).append t.write_balanced)
  | .comparison how lhs rhs, _, hclosed =>
      tight_parens hclosed ((lhs.write_balanced.append how.mark_balanced).append rhs.write_balanced)
  | .nullTest negated t, _, hclosed =>
      tight_parens hclosed (((t.write_balanced.append (balanced_token .is (by decide))).append
        (balanced_notIf negated)).append (balanced_token .null (by decide)))
  | .prefixOp op t, hcovered, hclosed =>
      tight_prefixed hclosed (t.tight hcovered (Bool.and_eq_true_iff.mp hclosed).2)
  | .infixOp op lhs rhs, _, hclosed =>
      tight_parens hclosed
        ((lhs.write_balanced.append (balanced_raw op)).append rhs.write_balanced)
  -- A connective without parentheses has no operand, or a single one.
  | .and [], _, _ => tight_constant (by decide)
  | .or [], _, _ => tight_constant (by decide)
  | .and [t], hcovered, hclosed => t.tight hcovered hclosed
  | .or [t], hcovered, hclosed => t.tight hcovered hclosed
  | .and (t :: u :: rest), _, hclosed => tight_parens hclosed
      (Balanced.joinWith .and (by decide) (Term.writeAll_balanced (t :: u :: rest)))
  | .or (t :: u :: rest), _, hclosed => tight_parens hclosed
      (Balanced.joinWith .or (by decide) (Term.writeAll_balanced (t :: u :: rest)))
  | .inList negated t items, _, hclosed => tight_parens hclosed (t.write_balanced.members
      (Balanced.joinWith .comma (by decide) (Term.writeAll_balanced items)) negated)
  | .inQuery negated t query, _, hclosed =>
      tight_parens hclosed (t.write_balanced.members query.write_balanced negated)
  | .exists negated query, _, hclosed => tight_parens hclosed
      (((balanced_notIf negated).append (balanced_token .exists (by decide))).append
        query.write_balanced.parens)
  | .between t low high, _, hclosed => tight_parens hclosed
      ((((t.write_balanced.append (balanced_token .between (by decide))).append
        low.write_balanced).append (balanced_token .and (by decide))).append high.write_balanced)
  | .call function arguments, hcovered, hclosed => tight_call hcovered hclosed
      (Balanced.joinWith .comma (by decide) (Term.writeAll_balanced arguments))
  | .countRows _, _, hclosed => tight_call tight_count hclosed (balanced_token .star (by decide))
  | .count t, _, hclosed => tight_call tight_count hclosed t.write_balanced
  | .countDistinct t, _, hclosed =>
      tight_call tight_count hclosed
        ((balanced_token .distinct (by decide)).append t.write_balanced)

/-- A NOT puts parentheses around its operand, so nothing is asked of that. -/
theorem Term.covered_negatedIf {negated : Bool} {t : Term} (h : negated = true ∨ t.Covered) :
    (Term.negatedIf negated t).Covered := by
  cases negated with
  | true => exact trivial
  | false => exact h.resolve_left Bool.false_ne_true

/-- A comparison stands in parentheses of its own, with a NULL constant too. -/
theorem Term.covered_compared {how : Comparison} {negated : Bool} {lhs rhs : Expr}
    {left right : Except QueryError Term} {t : Term}
    (h : Term.compared how negated lhs rhs left right = .ok t) : t.Covered := by
  unfold Term.compared at h
  split at h
  · obtain ⟨_, _, rfl⟩ := map_eq_ok.mp h
    exact trivial
  · split at h
    · obtain ⟨_, _, rfl⟩ := map_eq_ok.mp h
      exact trivial
    · obtain ⟨_, _, h⟩ := bind_eq_ok.mp h
      obtain ⟨_, _, h⟩ := bind_eq_ok.mp h
      rw [← pure_eq_ok.mp h]
      exact trivial

end Sql

/-! ## Expressions -/

/-- What stands outside the parentheses of the expression, or of its negation, binds its
neighbours. -/
def Expr.Covered (negated : Bool) : Expr → Prop
  | .literal sql _ => negated = true ∨ (raw sql).Tight
  | .collate e collation => negated = true ∨ e.Covered false ∧ (raw collation).Tight
  | .not e => e.Covered !negated
  | .prefixOp _ e => negated = true ∨ e.Covered false
  | .and [e] | .or [e] => negated = true ∨ e.Covered false
  | .call function _ => negated = true ∨ (raw function).Tight
  | _ => True

/-- What is counted stands in the parentheses of the call. -/
theorem ResultColumn.covered_of_resolveCounted {scope : Scope} {column : ResultColumn} {t : Term}
    (h : column.resolveCounted scope = .ok t) : t.Covered := by
  cases column with
  | star source | expr e | aliased e label =>
      obtain ⟨_, _, h⟩ := bind_eq_ok.mp h
      exact pure_eq_ok.mp h ▸ trivial

/-- **Covered expressions have covered terms.** -/
theorem Expr.covered_of_resolve {scope : Scope} : (e : Expr) → ∀ {negated : Bool} {t : Term},
    e.Covered negated → e.resolve scope negated = .ok t → t.Covered
  | .literal _ _, _, _, hcovered, h => Except.ok.inj h ▸ Term.covered_negatedIf hcovered
  | .value _, _, _, _, h | .column none _, _, _, _, h =>
      Except.ok.inj h ▸ Term.covered_negatedIf (.inr trivial)
  | .column (some _) _, _, _, _, h => by
      obtain ⟨_, _, h⟩ := bind_eq_ok.mp h
      exact pure_eq_ok.mp h ▸ Term.covered_negatedIf (.inr trivial)
  | .collate e _, _, _, hcovered, h => by
      obtain ⟨t, ht, h⟩ := bind_eq_ok.mp h
      rw [← pure_eq_ok.mp h]
      exact Term.covered_negatedIf (hcovered.imp_right fun hcovered =>
        ⟨e.covered_of_resolve hcovered.1 ht, hcovered.2⟩)
  | .not e, _, _, hcovered, h => e.covered_of_resolve hcovered h
  | .equal _ _, _, _, _, h | .notEqual _ _, _, _, _, h | .is _ _, _, _, _, h
  | .isNot _ _, _, _, _, h => Term.covered_compared h
  | .prefixOp _ e, _, _, hcovered, h => by
      obtain ⟨t, ht, h⟩ := bind_eq_ok.mp h
      have hterm : e.Covered false → t.Covered := fun hcovered => e.covered_of_resolve hcovered ht
      rw [← pure_eq_ok.mp h]
      exact Term.covered_negatedIf (hcovered.imp_right hterm)
  -- From here on the parentheses of the construct itself are what keeps its operands together.
  | .infixOp _ _ _, _, _, _, h => by
      obtain ⟨_, _, h⟩ := bind_eq_ok.mp h
      obtain ⟨_, _, h⟩ := bind_eq_ok.mp h
      exact pure_eq_ok.mp h ▸ Term.covered_negatedIf (.inr trivial)
  | .and [], _, _, _, h | .or [], _, _, _, h => by
      obtain ⟨_, hts, h⟩ := bind_eq_ok.mp h
      cases hts
      exact pure_eq_ok.mp h ▸ Term.covered_negatedIf (.inr trivial)
  -- A connective of one term is written as the term, so the term has to be covered itself.
  | .and [e], _, _, hcovered, h | .or [e], _, _, hcovered, h => by
      obtain ⟨_, hts, h⟩ := bind_eq_ok.mp h
      obtain ⟨t, ht, hts⟩ := bind_eq_ok.mp hts
      have hterm : e.Covered false → t.Covered := fun hcovered => e.covered_of_resolve hcovered ht
      cases hts
      rw [← pure_eq_ok.mp h]
      exact Term.covered_negatedIf (hcovered.imp_right hterm)
  | .and (_ :: _ :: _), _, _, _, h | .or (_ :: _ :: _), _, _, _, h => by
      obtain ⟨_, hts, h⟩ := bind_eq_ok.mp h
      obtain ⟨_, _, hts⟩ := bind_eq_ok.mp hts
      obtain ⟨_, hothers, hts⟩ := bind_eq_ok.mp hts
      obtain ⟨_, _, hothers⟩ := bind_eq_ok.mp hothers
      obtain ⟨_, _, hothers⟩ := bind_eq_ok.mp hothers
      cases hothers
      cases hts
      exact pure_eq_ok.mp h ▸ Term.covered_negatedIf (.inr trivial)
  | .inList _ items, _, _, _, h => by
      unfold Expr.resolve at h
      split at h
      · -- An empty list leaves a constant, and its member is not written at all.
        have hconstant : ∀ negated : Bool, (if negated then "1" else "0") ∈ ["0", "1"] := by decide
        exact Except.ok.inj h ▸ hconstant _
      · obtain ⟨_, _, h⟩ := bind_eq_ok.mp h
        obtain ⟨_, _, h⟩ := bind_eq_ok.mp h
        exact pure_eq_ok.mp h ▸ trivial
  | .inQuery _ _, _, _, _, h => by
      obtain ⟨_, _, h⟩ := bind_eq_ok.mp h
      obtain ⟨_, _, h⟩ := bind_eq_ok.mp h
      obtain ⟨_, _, h⟩ := bind_eq_ok.mp h
      exact pure_eq_ok.mp h ▸ trivial
  | .exists _, _, _, _, h => by
      obtain ⟨_, _, h⟩ := bind_eq_ok.mp h
      obtain ⟨_, _, h⟩ := bind_eq_ok.mp h
      exact pure_eq_ok.mp h ▸ trivial
  | .between _ _ _, _, _, _, h => by
      obtain ⟨_, _, h⟩ := bind_eq_ok.mp h
      obtain ⟨_, _, h⟩ := bind_eq_ok.mp h
      obtain ⟨_, _, h⟩ := bind_eq_ok.mp h
      exact pure_eq_ok.mp h ▸ Term.covered_negatedIf (.inr trivial)
  | .call _ _, _, _, hcovered, h => by
      obtain ⟨_, _, h⟩ := bind_eq_ok.mp h
      exact pure_eq_ok.mp h ▸ Term.covered_negatedIf hcovered
  | .count _, _, _, _, h => by
      obtain ⟨_, hcounted, h⟩ := bind_eq_ok.mp h
      exact pure_eq_ok.mp h ▸
        Term.covered_negatedIf (.inr (ResultColumn.covered_of_resolveCounted hcounted))
  | .countDistinct _, _, _, _, h => by
      obtain ⟨_, _, h⟩ := bind_eq_ok.mp h
      exact pure_eq_ok.mp h ▸ Term.covered_negatedIf (.inr trivial)

/-- A covered expression whose text leaves nothing open is one operand wherever it stands. -/
theorem Expr.render_tight {scope : Scope} {e : Expr} {negated : Bool} {f : Fragment}
    (hcovered : e.Covered negated) (h : e.render scope negated = .ok f)
    (hclosed : f.closed = true) : f.Tight := by
  rw [e.render_eq_write] at h
  obtain ⟨t, ht, rfl⟩ := map_eq_ok.mp h
  exact t.tight (e.covered_of_resolve hcovered ht) hclosed

end RelationalQuery
