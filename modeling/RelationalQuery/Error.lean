/-
  RelationalQuery.Error — what can go wrong when a query is compiled or a row is read.

  Errors are causes; the wording is `message` alone.

  Main definitions:
    * `ConversionError`: why a value has no form in the type it is read as.
    * `QueryError`: every failure of the library.
-/

import RelationalQuery.Binary64.Text
import RelationalQuery.IntegerType
import RelationalQuery.Utf8

namespace RelationalQuery

/-! ## Values -/

/-- The storage classes that some types have no reading for. -/
inductive StorageClass where
  | integer
  | real
  | blob
deriving DecidableEq, Repr

/-- The name of the class. -/
def StorageClass.name : StorageClass → String
  | .integer => "INTEGER"
  | .real => "REAL"
  | .blob => "BLOB"

/-- Why a value has no form in the type it is read as. -/
inductive ConversionError where
  | unexpectedNull
  /-- No value of the class converts to the type. -/
  | classMismatch (source : StorageClass) (target : String)
  | integerOutOfRange (n : Int) (target : IntegerType) (fault : IntegerType.Fault)
  | unreadableInteger (text : String) (target : IntegerType) (fault : IntegerType.Fault)
  /-- The real is no integer. -/
  | lossyReal (x : Binary64) (target : IntegerType)
  | realOutOfRange (x : Binary64) (target : IntegerType)
  | unreadableReal (text : String) (fault : Binary64.Fault)
  | unreadableBoolean (text : String)
  | invalidText (fault : Utf8.Fault)
  /-- A cause that the caller describes. -/
  | described (text : String)
deriving DecidableEq

/-- The cause in words. -/
def ConversionError.message : ConversionError → String
  | .unexpectedNull => "unexpected NULL value"
  | .classMismatch source target => "cannot convert " ++ source.name ++ " to " ++ target
  | .integerOutOfRange n target fault =>
    "i64 " ++ toString n ++ " out of range for " ++ target.name ++ ": " ++ fault.message
  | .unreadableInteger text target fault =>
    "cannot parse '" ++ text ++ "' as " ++ target.name ++ ": " ++ fault.message
  | .lossyReal x target =>
    "cannot convert REAL " ++ x.text ++ " to " ++ target.name ++ " without loss"
  | .realOutOfRange x target => "REAL " ++ x.text ++ " out of range for " ++ target.name
  | .unreadableReal text fault => "cannot parse '" ++ text ++ "' as f64: " ++ fault.message
  | .unreadableBoolean text => "cannot parse '" ++ text ++ "' as bool"
  | .invalidText fault => "invalid UTF-8 in BLOB: " ++ fault.message
  | .described text => text

/-! ## Queries -/

/-- Every failure of the library. -/
inductive QueryError where
  /-- A mapping names a column that its table, or the row, does not have. -/
  | missingColumn (table : Option String) (column : String) (candidates : List String)
  | noSuchTable (table : String)
  /-- A join that drops rows is reached only through one that keeps them. -/
  | requiredAfterOptional (relation : String)
  /-- Two sources of a statement were given one alias. -/
  | duplicateAlias (name : String)
  /-- Two sources of a statement were left with one name. -/
  | ambiguousSource (name : String)
  /-- A column or a star belongs to a source outside the statement. -/
  | detachedSource (column : String)
  | missingArgument (placeholder : String)
  /-- One name is bound to two different values. -/
  | argumentReused (name : String)
  /-- The selection and the statement disagree on the number of columns. -/
  | columnCountMismatch (expected actual : Nat)
  | mapping (cause : ConversionError)
deriving DecidableEq

/-- A missing column, its table if there is one, and what could have been meant. -/
def missingColumnMessage (table : Option String) (column : String) (candidates : List String) :
    String :=
  (match table with
    | some table => "No such column \"" ++ column ++ "\" in table \"" ++ table ++ "\"."
    | none => "Mapping references missing column \"" ++ column ++ "\".") ++
  (if candidates.isEmpty then ""
    else " Valid column names are: " ++ String.intercalate ", " candidates ++ ".")

/-- The error in words. -/
def QueryError.message : QueryError → String
  | .missingColumn table column candidates => missingColumnMessage table column candidates
  | .noSuchTable table => "No such table: " ++ table
  | .requiredAfterOptional relation =>
    "Invalid required relation `" ++ relation ++ "` after a non-required relation"
  | .duplicateAlias name => "Duplicate alias: \"" ++ name ++ "\" is used by more than one source"
  | .ambiguousSource name => "Ambiguous source name: \"" ++ name ++ "\""
  | .detachedSource column =>
    "Column \"" ++ column ++ "\" references a source that is not part of this query"
  | .missingArgument placeholder => "No argument bound for placeholder " ++ placeholder
  | .argumentReused name => "Argument :" ++ name ++ " is bound more than once"
  | .columnCountMismatch expected actual =>
    "Column count mismatch: selection expands to " ++ toString expected ++
      " columns, statement has " ++ toString actual
  | .mapping cause => "Mapping error: " ++ cause.message

end RelationalQuery
