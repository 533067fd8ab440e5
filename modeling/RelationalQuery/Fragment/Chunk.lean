/-
  RelationalQuery.Fragment.Chunk — the pieces that SQL text is made of, and the blanks
  between them.

  A chunk is written by itself; whether a blank follows depends on the chunk and on the next
  one only. Parentheses, commas and dots hug their neighbours, a function name hugs its
  argument list, a prefix operator hugs its operand unless two minus signs would meet, and
  words are kept apart.

  Main definitions:
    * `Chunk`: the pieces.
    * `Chunk.text`: the written form of one.
    * `Chunk.spaced`: whether a blank stands between two.
-/

import RelationalQuery.Arguments
import RelationalQuery.Fragment.Token
import RelationalQuery.Identifier

namespace RelationalQuery

/-- A piece of SQL text. -/
inductive Chunk where
  | token (t : Token)
  /-- An identifier, written between quotes. -/
  | ident (name : String)
  /-- Text written as it stands: an operator, a collation, a constant. -/
  | raw (text : String)
  /-- An unsigned integer constant. -/
  | number (n : Nat)
  /-- A function name in front of its argument list. -/
  | function (name : String)
  /-- A unary operator in front of its operand. -/
  | prefixOp (op : String)
  /-- A placeholder, with the value bound to it. -/
  | param (v : Value)
  /-- SQL that the caller wrote, with its own arguments. -/
  | literal (sql : String) (arguments : Option Arguments)
deriving DecidableEq

namespace Chunk

/-- The written form. -/
def text : Chunk → String
  | .token t => t.text
  | .ident name => Identifier.quoted name
  | .raw s | .function s | .prefixOp s | .literal s _ => s
  | .number n => toString n
  | .param _ => "?"

/-- A copy that shares nothing with the expression that the chunk was written from. -/
def owned : Chunk → Chunk
  | .token t => .token t
  | .ident name => .ident name
  | .raw text => .raw text
  | .number n => .number n
  | .function name => .function name
  | .prefixOp op => .prefixOp op
  | .param v => .param v
  | .literal sql arguments => .literal sql (arguments.map id)

/-! ## Blanks between chunks -/

/-- Text that may bring its own blanks at its ends. -/
def verbatim? : Chunk → Option String
  | .raw s | .literal s _ => some s
  | _ => none

def endsBlank (c : Chunk) : Bool := (c.verbatim?.bind (·.toList.getLast?)) == some ' '

def startsBlank (c : Chunk) : Bool := (c.verbatim?.bind (·.toList.head?)) == some ' '

/-- The written form begins with a minus sign. -/
def startsMinus : Chunk → Bool
  | .raw s | .prefixOp s | .literal s _ => s.toList.head? == some '-'
  | _ => false

/-- The operator ends in a minus sign. -/
def endsMinus (op : String) : Bool := op.toList.getLast? == some '-'

/-- Everything but punctuation is set apart from words beside it. -/
def isWord : Chunk → Bool
  | .token t => t.isWord
  | _ => true

/-- Whether a blank stands between two neighbours that bring none themselves. -/
def parted : Chunk → Chunk → Bool
  | _, .token .closeParen | _, .token .comma | _, .token .dot => false
  | .token .openParen, _ | .token .dot, _ => false
  | .prefixOp op, next => endsMinus op && next.startsMinus
  | .function _, .token .openParen => false
  | .token .comma, _ => true
  | .token .closeParen, next => next.isWord
  | current, .token .openParen => current.isWord
  | .token .equal, _ | .token .notEqual, _ => true
  | _, .token .equal | _, .token .notEqual => true
  | current, next => current.isWord && next.isWord

/-- Whether a blank is written between two neighbours. -/
def spaced (current next : Chunk) : Bool :=
  !current.endsBlank && !next.startsBlank && parted current next

end Chunk

end RelationalQuery
