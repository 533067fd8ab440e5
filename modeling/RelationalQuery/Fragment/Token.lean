/-
  RelationalQuery.Fragment.Token — the keywords and the punctuation of a SELECT statement.

  Main definitions:
    * `Token`: the fixed words and marks that the compiler writes.
    * `Token.text`: how each is written.
    * `Token.isWord`: whether a blank has to part it from a word beside it.
-/

namespace RelationalQuery

/-- A keyword, or a punctuation mark, of a SELECT statement. -/
inductive Token where
  | select | distinct | «from» | «where» | group | «by» | having | order | limit | offset | as
  | join | left | cross | on
  | and | or | not | «in» | exists | between | is | null | collate
  | asc | desc
  | star | openParen | closeParen | comma | dot
  | equal | notEqual
deriving DecidableEq, Repr

namespace Token

/-- The written form. -/
def text : Token → String
  | .select => "SELECT" | .distinct => "DISTINCT" | .from => "FROM" | .where => "WHERE"
  | .group => "GROUP" | .by => "BY" | .having => "HAVING" | .order => "ORDER"
  | .limit => "LIMIT" | .offset => "OFFSET" | .as => "AS"
  | .join => "JOIN" | .left => "LEFT" | .cross => "CROSS" | .on => "ON"
  | .and => "AND" | .or => "OR" | .not => "NOT" | .in => "IN" | .exists => "EXISTS"
  | .between => "BETWEEN" | .is => "IS" | .null => "NULL" | .collate => "COLLATE"
  | .asc => "ASC" | .desc => "DESC"
  | .star => "*" | .openParen => "(" | .closeParen => ")" | .comma => "," | .dot => "."
  | .equal => "=" | .notEqual => "<>"

/-- Comparison marks stand between two operands and have a blank on either side. -/
def isComparison : Token → Bool
  | .equal | .notEqual => true
  | _ => false

/-- Keywords and the star are set apart from words beside them; other marks need no blank. -/
def isWord : Token → Bool
  | .openParen | .closeParen | .comma | .dot | .equal | .notEqual => false
  | _ => true

end Token

end RelationalQuery
