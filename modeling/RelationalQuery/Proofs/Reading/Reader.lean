/-
  RelationalQuery.Proofs.Reading.Reader — what a written expression says.

  An expression is written as a flat row of chunks, so what it says is found by reading. An operator
  in front of an operand binds most, then a collation behind it, then everything else: comparisons,
  operators between two operands, NOT, AND and OR. Of these a group has one kind at most, so that
  it does not matter which of them would bind more; a text in which it mattered is not read. What
  stands between the parentheses of a subquery is taken as it is.

  The reader of an operand is given the reader of what stands inside it, so each construct is read
  by a step of its own, and the recursion is in one place.

  Main definitions:
    * `Phrase`: what an expression says.
    * `Reader.step`: the reading of an operand, given a reader of its parts.
    * `Fragment.phrase?`: what a fragment says, if it is an expression.
-/

import RelationalQuery.Proofs.Text.Spacing

namespace RelationalQuery

/-! ## Phrases -/

/-- What an expression says. -/
inductive Phrase where
  | null
  | value (v : Value)
  | constant (text : String)
  | column (qualifier : Option String) (name : String)
  | collated (p : Phrase) (collation : String)
  | not (p : Phrase)
  | and (ps : List Phrase)
  | or (ps : List Phrase)
  | equal (a b : Phrase)
  | notEqual (a b : Phrase)
  | is (a b : Phrase)
  | isNot (a b : Phrase)
  | between (p low high : Phrase)
  | prefixOp (op : String) (p : Phrase)
  | infixOp (op : String) (a b : Phrase)
  | inList (negated : Bool) (p : Phrase) (items : List Phrase)
  | inQuery (negated : Bool) (p : Phrase) (query : List Chunk)
  | exists (query : List Chunk)
  | call (function : String) (arguments : List Phrase)
  /-- A function of all rows, with a star in place of arguments. -/
  | callStar (function : String)
  | callDistinct (function : String) (p : Phrase)

/-- The phrase under collations, the first one innermost. -/
def Phrase.under (p : Phrase) (collations : List String) : Phrase :=
  collations.foldl .collated p

namespace Reader

/-- Reads something from the first chunks and leaves the others. -/
abbrev Read (α : Type) : Type := List Chunk → Option (α × List Chunk)

/-! ## Parts of expressions -/

/-- The chunks behind a token, if it stands first. -/
def expect (t : Token) : List Chunk → Option (List Chunk)
  | .token other :: rest => if other = t then some rest else none
  | _ => none

/-- The collations that stand first. -/
def collations : List Chunk → List String × List Chunk
  | .token .collate :: .raw name :: rest =>
    let others := collations rest
    (name :: others.1, others.2)
  | rest => ([], rest)

/-- What stands in front of the parenthesis that closes the group, where `depth` groups inside it
are open. -/
def group (depth : Nat) : Read (List Chunk)
  | [] => none
  | .token .closeParen :: rest =>
    match depth with
    | 0 => some ([], rest)
    | depth + 1 => (group depth rest).map fun p => (.token .closeParen :: p.1, p.2)
  | .token .openParen :: rest =>
    (group (depth + 1) rest).map fun p => (.token .openParen :: p.1, p.2)
  | c :: rest => (group depth rest).map fun p => (c :: p.1, p.2)

/-- A phrase with the collations behind it. -/
def collated (p : Phrase) (rest : List Chunk) : Phrase × List Chunk :=
  (p.under (collations rest).1, (collations rest).2)

section Step

variable (part : Read Phrase)

/-- An operand with the collations behind it. -/
def operand : Read Phrase := fun chunks => (part chunks).map fun p => collated p.1 p.2

/-- Operands with a token between neighbours, at most so many. -/
def operands (separator : Token) : Nat → Read (List Phrase)
  | 0, _ => none
  | most + 1, chunks => do
    let (first, rest) ← operand part chunks
    match expect separator rest with
    | none => some ([first], rest)
    | some rest => do
      let (others, rest) ← operands separator most rest
      some (first :: others, rest)

/-- A subquery, behind its opening parenthesis. -/
def subquery (phrase : List Chunk → Phrase) : Read Phrase := fun chunks =>
  (group 0 chunks).map fun p => collated (phrase p.1) p.2

/-- What stands behind IN and its opening parenthesis. -/
def membership (ofList : List Phrase → Phrase) (ofQuery : List Chunk → Phrase) : Read Phrase :=
  fun chunks =>
    match expect .select chunks with
    | some _ => subquery ofQuery chunks
    | none => do
      let (items, rest) ← operands part .comma chunks.length chunks
      let rest ← expect .closeParen rest
      some (collated (ofList items) rest)

/-- Two operands of which the first has been read. -/
def second (phrase : Phrase → Phrase) : Read Phrase := fun chunks =>
  (operand part chunks).map fun p => (phrase p.1, p.2)

/-- What stands in a group behind its first operand. -/
def continued (p : Phrase) : Read Phrase
  | .token .equal :: rest => second part (.equal p) rest
  | .token .notEqual :: rest => second part (.notEqual p) rest
  | .token .is :: rest =>
    match expect .not rest with
    | some rest => second part (.isNot p) rest
    | none => second part (.is p) rest
  | .token .in :: .token .openParen :: rest =>
    membership part (.inList false p) (.inQuery false p) rest
  | .token .not :: .token .in :: .token .openParen :: rest =>
    membership part (.inList true p) (.inQuery true p) rest
  | .token .between :: rest => do
    let (low, rest) ← operand part rest
    second part (.between p low) (← expect .and rest)
  | .token .and :: rest =>
    (operands part .and rest.length rest).map fun ps => (.and (p :: ps.1), ps.2)
  | .token .or :: rest =>
    (operands part .or rest.length rest).map fun ps => (.or (p :: ps.1), ps.2)
  | .raw op :: rest => second part (.infixOp op p) rest
  | rest => some (p, rest)

/-- An operand or an existence test. -/
def tested : Read Phrase := fun chunks =>
  match expect .exists chunks with
  | some rest => do subquery .exists (← expect .openParen rest)
  | none => operand part chunks

/-- What stands in a group. -/
def inner : Read Phrase := fun chunks =>
  match expect .not chunks with
  | some rest => (tested part rest).map fun p => (.not p.1, p.2)
  | none => do
    let (first, rest) ← tested part chunks
    continued part first rest

/-- The arguments of a function, behind the opening parenthesis. -/
def arguments (function : String) : Read Phrase := fun chunks =>
  match expect .closeParen chunks with
  | some rest => some (.call function [], rest)
  | none =>
    match expect .star chunks with
    | some rest => do
      let rest ← expect .closeParen rest
      some (.callStar function, rest)
    | none =>
      match expect .distinct chunks with
      | some rest => do
        let (p, rest) ← operand part rest
        let rest ← expect .closeParen rest
        some (.callDistinct function p, rest)
      | none => do
        let (ps, rest) ← operands part .comma chunks.length chunks
        let rest ← expect .closeParen rest
        some (.call function ps, rest)

/-- An operand without the collations behind it. -/
def step : Read Phrase
  | .param v :: rest => some (.value v, rest)
  | .token .null :: rest => some (.null, rest)
  | .raw text :: rest => some (.constant text, rest)
  | .ident name :: rest =>
    match expect .dot rest with
    | none => some (.column none name, rest)
    | some (.ident column :: rest) => some (.column (some name) column, rest)
    | some _ => none
  | .prefixOp op :: rest =>
    if op ∈ prefixOperators then (part rest).map fun p => (.prefixOp op p.1, p.2) else none
  | .function function :: rest => do arguments part function (← expect .openParen rest)
  | .token .openParen :: rest => do
    let (p, rest) ← inner part rest
    let rest ← expect .closeParen rest
    some (p, rest)
  | _ => none

end Step

/-! ## Expressions -/

/-- An operand in which groups are nested at most so deep. -/
def primary : Nat → Read Phrase
  | 0 => fun _ => none
  | depth + 1 => step (primary depth)

end Reader

/-- What the fragment says, if it is an expression. -/
def Fragment.phrase? (f : Fragment) : Option Phrase :=
  match Reader.operand (Reader.primary f.chunks.length) f.chunks with
  | some (p, []) => some p
  | _ => none

end RelationalQuery
