/-
  RelationalQuery.Proofs.Reading.Balance — written statements have balanced parentheses.

  A reader that looks for the parenthesis that closes a subquery finds the right one, since
  whatever is opened inside a statement is closed there.

  Main definitions:
    * `Reader.scan`: the number of open groups behind some chunks.
    * `Fragment.Balanced`: as many as in front of them.

  Main statements:
    * `Sql.Statement.write_balanced`: every written statement is balanced.
    * `Reader.group_balanced`: the parenthesis that closes a group around balanced chunks is found.
-/

import RelationalQuery.Proofs.Reading.Reader
import RelationalQuery.Proofs.Statement.Tree

namespace RelationalQuery

namespace Reader

/-- The number of open groups behind the chunks, where there are `depth` in front of them. -/
def scan (depth : Nat) : List Chunk → Option Nat
  | [] => some depth
  | .token .openParen :: rest => scan (depth + 1) rest
  | .token .closeParen :: rest =>
    match depth with
    | 0 => none
    | depth + 1 => scan depth rest
  | _ :: rest => scan depth rest

/-- Scanning two pieces is scanning the second from the depth behind the first. -/
theorem scan_append (a b : List Chunk) (depth : Nat) :
    scan depth (a ++ b) = (scan depth a).bind (scan · b) := by
  fun_induction scan depth a with
  | case1 => rfl
  | case2 _ _ ih => exact ih
  | case3 => rfl
  | case4 _ depth ih => exact ih
  | case5 depth c rest hopen hclose ih =>
      rw [List.cons_append, scan, ih]
      · exact hopen
      · exact hclose

/-- What is passed over is taken into the group. -/
theorem group_append {chunks : List Chunk} {depth behind : Nat}
    (h : scan depth chunks = some behind) (rest : List Chunk) :
    group depth (chunks ++ rest) = (group behind rest).map fun p => (chunks ++ p.1, p.2) := by
  fun_induction scan depth chunks with
  | case1 depth =>
      rw [Option.some.inj h]
      simp
  | case2 depth chunks ih => simp [group, ih h, Function.comp_def]
  | case3 => cases h
  | case4 chunks depth ih => simp [group, ih h, Function.comp_def]
  | case5 depth c chunks hopen hclose ih =>
      rw [List.cons_append, group, ih h]
      · simp [Function.comp_def]
      · exact hclose
      · exact hopen

end Reader

namespace Fragment

open Reader

/-- Whatever is opened is closed. -/
def Balanced (f : Fragment) : Prop := ∀ depth, scan depth f.chunks = some depth

variable {a b f : Fragment}

/-- Balanced fragments in a row are balanced. -/
theorem Balanced.append (ha : a.Balanced) (hb : b.Balanced) : (a ++ b).Balanced := by
  intro depth
  rw [chunks_append, scan_append, ha, Option.bind_some, hb]

/-- Parentheses around a balanced fragment are balanced. -/
theorem Balanced.parens (h : f.Balanced) : f.parens.Balanced := by
  intro depth
  show scan (depth + 1) (f.chunks ++ [.token .closeParen]) = some depth
  rw [scan_append, h, Option.bind_some]
  rfl

/-- A chunk that is no parenthesis. -/
theorem balanced_single (c : Chunk) (hopen : c ≠ .token .openParen)
    (hclose : c ≠ .token .closeParen) : (single c).Balanced := by
  intro depth
  rw [single, scan, scan]
  · exact fun h => hopen h
  · exact fun h => hclose h

/-- A token that is no parenthesis is balanced. -/
theorem balanced_token (t : Token) (h : t ≠ .openParen ∧ t ≠ .closeParen) :
    (token t).Balanced :=
  balanced_single (.token t) (fun h' => h.1 (Chunk.token.inj h')) fun h' => h.2 (Chunk.token.inj h')

theorem balanced_empty : empty.Balanced := fun _ => rfl

theorem balanced_ident (name : String) : (ident name).Balanced :=
  balanced_single (.ident name) nofun nofun

theorem balanced_raw (text : String) : (raw text).Balanced :=
  balanced_single (.raw text) nofun nofun

theorem balanced_param (v : Value) : (param v).Balanced := by
  unfold param
  split
  · exact balanced_token .null (by decide)
  · exact balanced_single (.param v) nofun nofun

/-- Balanced fragments with a separator between them are balanced. -/
theorem Balanced.joinWith (separator : Token)
    (h : separator ≠ .openParen ∧ separator ≠ .closeParen) :
    {fs : List Fragment} → (∀ f ∈ fs, f.Balanced) → (joinWith separator fs).Balanced
  | [], _ => balanced_empty
  | [a], hfs => hfs a (List.mem_cons_self ..)
  | a :: b :: rest, hfs => by
      obtain ⟨ha, hrest⟩ := List.forall_mem_cons.mp hfs
      exact (ha.append (balanced_token separator h)).append (Balanced.joinWith separator h hrest)

/-- A call with balanced arguments is balanced. -/
theorem Balanced.call (h : f.Balanced) (name : String) : (call name f).Balanced := by
  have hsplit : Fragment.call name f = single (.function name) ++ f.parens := rfl
  rw [hsplit]
  exact (balanced_single (.function name) nofun nofun).append h.parens

/-- A balanced fragment is balanced under an alias too. -/
theorem Balanced.aliased (h : f.Balanced) (name : String) : (f.aliased name).Balanced :=
  (h.append (balanced_token .as (by decide))).append (balanced_ident name)

theorem balanced_notIf (negated : Bool) : (Clauses.notIf negated).Balanced := by
  cases negated with
  | false => exact balanced_empty
  | true => exact balanced_token .not (by decide)

/-- A balanced fragment is balanced behind a source's name too. -/
theorem Balanced.qualified (h : f.Balanced) (source : Option String) :
    (Clauses.qualified source f).Balanced := by
  cases source with
  | none => exact h
  | some name => exact ((balanced_ident name).append (balanced_token .dot (by decide))).append h

/-- A collation inside the last group leaves it closed. -/
theorem Balanced.collated (h : f.Balanced) (collation : String) :
    (Clauses.collated f collation).Balanced := by
  have htail : (token .collate ++ raw collation).Balanced :=
    (balanced_token .collate (by decide)).append (balanced_raw collation)
  unfold Clauses.collated insertBeforeClose
  split
  · -- What is inserted is balanced itself, so the depth at the last parenthesis is as it was.
    rename_i hlast
    obtain ⟨init, hinit⟩ := List.getLast?_eq_some_iff.mp hlast
    intro depth
    have hf := h depth
    rw [hinit, scan_append] at hf
    obtain ⟨inside, hinside, hclose⟩ := Option.bind_eq_some_iff.mp hf
    rw [hinit, List.dropLast_concat, scan_append, scan_append, hinside, Option.bind_some, htail,
      Option.bind_some, hclose]
  · exact h.append htail

/-- A connective of balanced terms is balanced, also when there are none. -/
theorem Balanced.connective (mark : Token) (h : mark ≠ .openParen ∧ mark ≠ .closeParen)
    (neutral : String) : (terms : List Fragment) → (∀ f ∈ terms, f.Balanced) →
      (Clauses.connective mark neutral terms).Balanced
  | [], _ => balanced_raw neutral
  | [term], hterms => hterms term (List.mem_cons_self ..)
  | _ :: _ :: _, hterms => (Balanced.joinWith mark h hterms).parens

/-- A member and what it is a member of are balanced. -/
theorem Balanced.members (ha : a.Balanced) (hb : b.Balanced) (negated : Bool) :
    (a ++ Clauses.notIf negated ++ token .in ++ b.parens).Balanced :=
  ((ha.append (balanced_notIf negated)).append (balanced_token .in (by decide))).append hb.parens

/-- A membership is balanced, in whichever of its forms it is written. -/
theorem Balanced.membership (ha : a.Balanced) (hb : b.Balanced) (negated : Bool) :
    (Clauses.membership negated a b).Balanced := (ha.members hb negated).parens

/-- A clause of balanced terms is balanced. -/
theorem balanced_clause (keywords : List Token)
    (hkeywords : ∀ t ∈ keywords, t ≠ .openParen ∧ t ≠ .closeParen) {terms : List Fragment}
    (hterms : ∀ f ∈ terms, f.Balanced) : (Clauses.clause keywords terms).Balanced := by
  have hwords : ∀ keywords : List Token,
      (∀ t ∈ keywords, t ≠ .openParen ∧ t ≠ .closeParen) →
        Balanced ⟨keywords.map .token⟩ := by
    intro keywords
    induction keywords with
    | nil => exact fun _ => balanced_empty
    | cons t rest ih =>
        intro h
        exact (balanced_token t (h t (List.mem_cons_self ..))).append
          (ih fun t ht => h t (List.mem_cons_of_mem _ ht))
  unfold Clauses.clause
  split
  · exact balanced_empty
  · exact (hwords keywords hkeywords).append (Balanced.joinWith .comma (by decide) hterms)

/-- A LIMIT clause is balanced. -/
theorem balanced_limitClause (limit : Option Limit) : (Clauses.limitClause limit).Balanced := by
  have hnumber : ∀ n, (number n).Balanced := fun n => balanced_single (.number n) nofun nofun
  rcases limit with _ | ⟨count, _ | offset⟩
  · exact balanced_empty
  · exact (balanced_token .limit (by decide)).append (hnumber count)
  · exact (((balanced_token .limit (by decide)).append (hnumber count)).append
      (balanced_token .offset (by decide))).append (hnumber offset)

end Fragment

/-! ## The walk over a statement -/

namespace Sql

open Fragment

/-- A reference to a balanced column is balanced. -/
theorem Reference.write_balanced (r : Reference) {column : Fragment} (h : column.Balanced) :
    (r.write column).Balanced := h.qualified r.qualifier

/-- An equality of a mapping is balanced. -/
theorem Equality.write_balanced (e : Equality) : e.write.Balanced :=
  ((e.target.write_balanced (balanced_ident _)).append (balanced_token .equal (by decide))).append
    (e.left.write_balanced (balanced_ident _))

/-- The sign of a comparison is balanced. -/
theorem Comparison.mark_balanced (how : Comparison) : how.mark.Balanced := by
  cases how with
  | equal => exact balanced_token .equal (by decide)
  | notEqual => exact balanced_token .notEqual (by decide)
  | is | isNot => exact (balanced_token .is (by decide)).append (balanced_notIf _)

/-- An ON clause of balanced terms is balanced. -/
theorem onClause_balanced (kind : JoinKind) {terms : List Fragment}
    (h : ∀ f ∈ terms, f.Balanced) : (onClause kind terms).Balanced := by
  have hon : (if terms.isEmpty then empty else token .on ++ joinWith .and terms).Balanced := by
    split
    · exact balanced_empty
    · exact (balanced_token .on (by decide)).append (Balanced.joinWith .and (by decide) h)
  cases kind with
  | cross => exact balanced_empty
  | inner => exact hon
  | left => exact hon

mutual

/-- **A written term is balanced**: by induction over it, together with the statements inside it. -/
theorem Term.write_balanced : (t : Term) → t.write.Balanced
  | .literal sql arguments => balanced_single (.literal sql arguments) nofun nofun
  | .value v => balanced_param v
  | .constant text => balanced_raw text
  | .column none name => balanced_ident name
  | .column (some r) name => r.write_balanced (balanced_ident name)
  -- A collation is put in front of the last parenthesis, if there is one there.
  | .collate t collation => t.write_balanced.collated collation
  | .negation t => ((balanced_token .not (by decide)).append t.write_balanced).parens
  | .comparison how lhs rhs =>
      ((lhs.write_balanced.append how.mark_balanced).append rhs.write_balanced).parens
  | .nullTest negated t =>
      (((t.write_balanced.append (balanced_token .is (by decide))).append
        (balanced_notIf negated)).append (balanced_token .null (by decide))).parens
  | .prefixOp op t => (balanced_single (.prefixOp op) nofun nofun).append t.write_balanced
  | .infixOp op lhs rhs =>
      ((lhs.write_balanced.append (balanced_raw op)).append rhs.write_balanced).parens
  | .and terms => Balanced.connective .and (by decide) _ _ (Term.writeAll_balanced terms)
  | .or terms => Balanced.connective .or (by decide) _ _ (Term.writeAll_balanced terms)
  | .inList negated t items => t.write_balanced.membership
      (Balanced.joinWith .comma (by decide) (Term.writeAll_balanced items)) negated
  | .inQuery negated t query => t.write_balanced.membership query.write_balanced negated
  | .exists negated query =>
      (((balanced_notIf negated).append (balanced_token .exists (by decide))).append
        query.write_balanced.parens).parens
  | .between t low high =>
      ((((t.write_balanced.append (balanced_token .between (by decide))).append
        low.write_balanced).append (balanced_token .and (by decide))).append
        high.write_balanced).parens
  | .call function arguments =>
      (Balanced.joinWith .comma (by decide) (Term.writeAll_balanced arguments)).call function
  | .countRows _ => (balanced_token .star (by decide)).call "COUNT"
  | .count t => t.write_balanced.call "COUNT"
  | .countDistinct t =>
      ((balanced_token .distinct (by decide)).append t.write_balanced).call "COUNT"

/-- So is each term of a list. -/
theorem Term.writeAll_balanced : (terms : List Term) → ∀ f ∈ Term.writeAll terms, f.Balanced
  | [] => nofun
  | t :: rest => List.forall_mem_cons.mpr ⟨t.write_balanced, Term.writeAll_balanced rest⟩

/-- So is the condition of a clause. -/
theorem Term.writeClause_balanced (keyword : Token)
    (h : keyword ≠ .openParen ∧ keyword ≠ .closeParen) :
    (t : Option Term) → (Term.writeClause keyword t).Balanced
  | some t => (balanced_token keyword h).append t.write_balanced
  | none => balanced_empty

/-- So is an item of a select list. -/
theorem Item.write_balanced : (item : Item) → item.write.Balanced
  | .everything => balanced_token .star (by decide)
  | .star r => r.write_balanced (balanced_token .star (by decide))
  | .term t => t.write_balanced
  | .aliased t label => t.write_balanced.aliased label

/-- So is each item of a list. -/
theorem Item.writeAll_balanced : (items : List Item) → ∀ f ∈ Item.writeAll items, f.Balanced
  | [] => nofun
  | item :: rest => List.forall_mem_cons.mpr ⟨item.write_balanced, Item.writeAll_balanced rest⟩

/-- So is each term of an ordering. -/
theorem SortTerm.writeAll_balanced :
    (terms : List SortTerm) → ∀ f ∈ SortTerm.writeAll terms, f.Balanced
  | [] => nofun
  | .term t direction :: rest => by
      refine List.forall_mem_cons.mpr ⟨?_, SortTerm.writeAll_balanced rest⟩
      rcases direction with _ | _ | _
      · exact t.write_balanced
      · exact t.write_balanced.append (balanced_token .asc (by decide))
      · exact t.write_balanced.append (balanced_token .desc (by decide))
  | .rowIds r :: rest => List.forall_mem_cons.mpr
      ⟨(r.write_balanced (balanced_raw _)).append (balanced_token .desc (by decide)),
        SortTerm.writeAll_balanced rest⟩

/-- **Every written statement is balanced.** -/
theorem Statement.write_balanced : (s : Statement) → s.write.Balanced
  | ⟨distinct, items, added, source, filter, groupBy, having, orderings, limit⟩ => by
      have hdistinct : (if distinct then token .distinct else empty).Balanced := by
        cases distinct with
        | false => exact balanced_empty
        | true => exact balanced_token .distinct (by decide)
      have hitems : ∀ f ∈ Item.writeAll items ++ Item.writeAll added, f.Balanced := fun f hf =>
        (List.mem_append.mp hf).elim (Item.writeAll_balanced items f)
          (Item.writeAll_balanced added f)
      -- Each clause by itself, in the order in which they are written.
      exact ((((((((balanced_token .select (by decide)).append hdistinct).append
        (Balanced.joinWith .comma (by decide) hitems)).append
        (From.writeClause_balanced source)).append
        (Term.writeClause_balanced .where (by decide) filter)).append
        (balanced_clause [.group, .by] (by decide) (Term.writeAll_balanced groupBy))).append
        (Term.writeClause_balanced .having (by decide) having)).append
        (balanced_clause [.order, .by] (by decide) (SortTerm.writeAll_balanced orderings))).append
        (balanced_limitClause limit)

/-- So is a source, with the joins on it and the statements inside it. -/
theorem From.write_balanced : (source : From) → source.write.Balanced
  | .table _ table name => by
      cases name with
      | none => exact balanced_ident table
      | some name =>
          show Balanced (if name = table then _ else _)
          split
          · exact balanced_ident table
          · exact (balanced_ident table).append (balanced_ident name)
  | .query _ statement none => statement.write_balanced.parens
  | .query _ statement (some name) => statement.write_balanced.parens.aliased name
  | .joined left joins => left.write_balanced.append (JoinClause.writeAll_balanced joins)

/-- So is a FROM clause. -/
theorem From.writeClause_balanced : (source : Option From) → (From.writeClause source).Balanced
  | some source => (balanced_token .from (by decide)).append source.write_balanced
  | none => balanced_empty

/-- So are joins in a row. -/
theorem JoinClause.writeAll_balanced :
    (joins : List JoinClause) → (JoinClause.writeAll joins).Balanced
  | [] => balanced_empty
  | ⟨kind, target, mapped, own⟩ :: rest => by
      have hkeyword : (Clauses.joinKeyword kind).Balanced := by
        cases kind with
        | inner => exact balanced_token .join (by decide)
        | left =>
            exact (balanced_token .left (by decide)).append (balanced_token .join (by decide))
        | cross =>
            exact (balanced_token .cross (by decide)).append (balanced_token .join (by decide))
      -- A condition is an equality of the mapping or one that was added.
      have hterms : ∀ f ∈ mapped.map Equality.write ++ Term.writeAll own, f.Balanced := by
        intro f hf
        rcases List.mem_append.mp hf with hf | hf
        · obtain ⟨e, _, rfl⟩ := List.mem_map.mp hf
          exact e.write_balanced
        · exact Term.writeAll_balanced own f hf
      exact ((hkeyword.append target.write_balanced).append
        (onClause_balanced kind hterms)).append (JoinClause.writeAll_balanced rest)

end

end Sql

/-- The parenthesis that closes a group around balanced chunks is found. -/
theorem Reader.group_balanced {f : Fragment} (h : f.Balanced) (rest : List Chunk) :
    Reader.group 0 (f.chunks ++ .token .closeParen :: rest) = some (f.chunks, rest) := by
  rw [group_append (h 0)]
  simp [group]

end RelationalQuery
