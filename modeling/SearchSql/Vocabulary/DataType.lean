import SearchSql.Text.Word

/-!
# Names of types

The types that `CAST` converts to.
-/

set_option autoImplicit false

namespace SearchSql

/-- The target type of a conversion. -/
inductive DataType where
  | date | time | timestamp | int | integer | double | long | float | string | boolean
  deriving DecidableEq, Repr

namespace DataType

/-- All types. -/
def all : List DataType :=
  [
    .date, .time, .timestamp, .int, .integer, .double, .long, .float, .string, .boolean
  ]

/-- The spelling of a type. -/
def text : DataType → String
  | .date => "DATE"
  | .time => "TIME"
  | .timestamp => "TIMESTAMP"
  | .int => "INT"
  | .integer => "INTEGER"
  | .double => "DOUBLE"
  | .long => "LONG"
  | .float => "FLOAT"
  | .string => "STRING"
  | .boolean => "BOOLEAN"

/-- The type spelled `word`, in any case of its letters. -/
def ofText? (word : String) : Option DataType := Text.findSpelling all text word

end DataType

end SearchSql
