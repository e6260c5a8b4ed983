import SearchSql.Text.CharClass
import SearchSql.Text.Quoted
import SearchSql.Text.Span
import SearchSql.Token.Keyword
import SearchSql.Vocabulary.Datetime

/-!
# Names

An identifier is written bare where that reads back as the same name, and between backticks
otherwise. `Ident.isBare` decides this: a bare name has the form of a name token, is not reserved,
and is none of the words that mean something else inside an expression.

A qualified name is a sequence of identifiers separated by dots.
-/

set_option autoImplicit false

namespace SearchSql

/-- An identifier without its quotes. A dot in front, as in `.kibana`, belongs to the value. -/
structure Ident where
  value : String
  quoted : Bool
  span : Span
  deriving DecidableEq, Inhabited, Repr

/-- The names that mean an operator or a constant inside an expression. -/
def contextualWords : List String :=
  "DIV" :: "MOD" :: DatetimeConstant.all.map DatetimeConstant.text

namespace Ident

/-- The identifier written as `value` itself, without a place in a text. -/
def ofValue (value : String) : Ident := ⟨value, false, default⟩

/-- Whether the characters have the form of a bare name. -/
def isBareForm : List Char → Bool
  | [] => false
  | c :: cs => Text.isNameStart c && cs.all Text.isNamePart

/-- The characters of an identifier without the dot in front. -/
def body : List Char → List Char
  | '.' :: cs => cs
  | cs => cs

/-- Whether the identifier may be written without backticks. -/
def isBare (name : Ident) : Bool :=
  let chars := body name.value.toList
  let word := String.ofList chars
  isBareForm chars && (Keyword.ofText? word).isNone &&
    !contextualWords.contains (Text.upper word)

/-- The identifier as written. -/
def render (name : Ident) : String :=
  if name.isBare then name.value else Text.backticked name.value

end Ident

/-- Identifiers separated by dots. -/
structure QualifiedName where
  parts : List Ident
  span : Span
  deriving DecidableEq, Inhabited, Repr

namespace QualifiedName

/-- The name with the given segments, without a place in a text. -/
def ofValues (values : List String) : QualifiedName := ⟨values.map Ident.ofValue, default⟩

/-- The segments joined by dots, without quotes. -/
def dotted (name : QualifiedName) : String := ".".intercalate (name.parts.map Ident.value)

/-- The name as written. -/
def render (name : QualifiedName) : String := ".".intercalate (name.parts.map Ident.render)

end QualifiedName

end SearchSql
