/-
  RelationalQuery.Fragment.Basic — SQL fragments: flat sequences of chunks.

  Fragments are composed by writing one after the other; grouping is by parentheses among the
  chunks, not by nesting. A fragment is turned into text and arguments in one way: the text of
  its chunks with the blanks between them, the values of its placeholders in order, and the
  arguments of its literals spliced in place.

  Main definitions:
    * `Fragment` and its constructors.
    * `Fragment.text`, `Fragment.arguments`: the two halves.
    * `Fragment.build`: both in one pass, as `BoundSql`.

  Main statement:
    * `Fragment.build_eq`: the one pass gives the two halves.
-/

import RelationalQuery.Fragment.Chunk

namespace RelationalQuery

/-- A piece of a statement. -/
structure Fragment where
  chunks : List Chunk
deriving DecidableEq

/-- SQL text with the arguments of its placeholders. -/
structure BoundSql where
  sql : String
  arguments : Arguments
deriving DecidableEq

namespace Fragment

/-! ## Single chunks -/

def empty : Fragment := ⟨[]⟩

def single (c : Chunk) : Fragment := ⟨[c]⟩

def token (t : Token) : Fragment := single (.token t)

def ident (name : String) : Fragment := single (.ident name)

def raw (text : String) : Fragment := single (.raw text)

def number (n : Nat) : Fragment := single (.number n)

/-- A placeholder for the value. NULL is written out instead of being bound. -/
def param (v : Value) : Fragment :=
  if v.isNull then token .null else single (.param v)

def literal (sql : String) (arguments : Option Arguments) : Fragment :=
  single (.literal sql arguments)

/-! ## Composition -/

instance : Append Fragment := ⟨fun a b => ⟨a.chunks ++ b.chunks⟩⟩

@[simp] theorem chunks_append (a b : Fragment) : (a ++ b).chunks = a.chunks ++ b.chunks := rfl

/-- Writes a chunk after the fragment. -/
def push (a : Fragment) (c : Chunk) : Fragment := a ++ single c

/-- The fragment between parentheses. -/
def parens (a : Fragment) : Fragment := token .openParen ++ a ++ token .closeParen

/-- The fragments in order with a token between neighbours. -/
def joinWith (separator : Token) : List Fragment → Fragment
  | [] => empty
  | [a] => a
  | a :: b :: rest => a ++ token separator ++ joinWith separator (b :: rest)

/-- A function call. -/
def call (name : String) (arguments : Fragment) : Fragment :=
  single (.function name) ++ token .openParen ++ arguments ++ token .closeParen

/-- The fragment under a name of its own. -/
def aliased (a : Fragment) (name : String) : Fragment := a ++ token .as ++ ident name

/-- Writes `tail` inside the group that the fragment ends with, or after the fragment if it ends
with no group. -/
def insertBeforeClose (a tail : Fragment) : Fragment :=
  if a.chunks.getLast? = some (.token .closeParen) then
    ⟨a.chunks.dropLast ++ tail.chunks ++ [.token .closeParen]⟩
  else a ++ tail

/-! ## Text and arguments -/

/-- The written chunks, each with the blank that follows it. -/
def pieces : List Chunk → List String
  | [] => []
  | [c] => [c.text]
  | c :: d :: rest =>
    (if c.spaced d then c.text ++ " " else c.text) :: pieces (d :: rest)

/-- The SQL text, with a question mark for every placeholder. -/
def text (a : Fragment) : String := String.join (pieces a.chunks)

/-- The values of the placeholders, those inside literals aside. -/
def params (a : Fragment) : List Value :=
  a.chunks.filterMap fun
    | .param v => some v
    | _ => none

/-- Adds the arguments of one chunk. -/
def collect (arguments : Arguments) : Chunk → Except QueryError Arguments
  | .param v => .ok (arguments.push v)
  | .literal _ (some own) => arguments.append own
  | _ => .ok arguments

/-- The arguments of the text, in the order of the chunks. -/
def arguments (a : Fragment) : Except QueryError Arguments :=
  a.chunks.foldlM collect .empty

/-- Whether a blank follows a chunk in front of others. -/
def partedFrom (c : Chunk) : List Chunk → Bool
  | [] => false
  | d :: _ => c.spaced d

/-- Builds chunks behind what is built already, in one pass: the arguments of each, its text, and
the blank that follows it. -/
def buildFrom (built : BoundSql) : List Chunk → Except QueryError BoundSql
  | [] => .ok built
  | c :: rest => do
    let arguments ← collect built.arguments c
    let written := built.sql ++ c.text
    buildFrom ⟨if partedFrom c rest then written ++ " " else written, arguments⟩ rest

/-- The text with its arguments. A name bound to two different values is an error. -/
def build (a : Fragment) : Except QueryError BoundSql := buildFrom ⟨"", .empty⟩ a.chunks

/-- A copy that shares nothing with the expressions that the fragment was written from. -/
def owned (a : Fragment) : Fragment := ⟨a.chunks.map Chunk.owned⟩

/-! ## One pass and two -/

/-- Joined pieces, with the first one and the blank behind it in front. -/
theorem join_pieces_cons (c : Chunk) (rest : List Chunk) :
    String.join (pieces (c :: rest)) =
      (if partedFrom c rest then c.text ++ " " else c.text) ++ String.join (pieces rest) := by
  cases rest with
  | nil => exact String.join_cons
  | cons d rest => exact String.join_cons

/-- From where it stands, building adds the text of the chunks and collects their arguments. -/
theorem buildFrom_eq (cs : List Chunk) (built : BoundSql) : buildFrom built cs =
    (cs.foldlM collect built.arguments).map (⟨built.sql ++ String.join (pieces cs), ·⟩) := by
  induction cs generalizing built with
  | nil =>
      show Except.ok built = .ok ⟨built.sql ++ "", built.arguments⟩
      rw [String.append_empty]
  | cons c rest ih =>
      rw [buildFrom, List.foldlM_cons, join_pieces_cons]
      cases collect built.arguments c with
      | error e => rfl
      | ok arguments =>
          refine (ih _).trans ?_
          split <;> simp only [String.append_assoc] <;> rfl

/-- **Building in one pass gives the text and the arguments** that each give alone. -/
theorem build_eq (a : Fragment) : a.build = return ⟨a.text, ← a.arguments⟩ := by
  rw [build, buildFrom_eq, String.empty_append]
  rw [arguments]
  cases a.chunks.foldlM collect .empty <;> rfl

end Fragment

end RelationalQuery
