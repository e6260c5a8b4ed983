/-!
# JSON documents

A value as it is written in a JSON text. Members of a record keep their order, and numbers their
digits. `Document.text` writes a document over several lines, with two spaces for each level.
-/

set_option autoImplicit false

namespace SearchSql

mutual

/-- A JSON value. -/
inductive Document where
  | null
  | bool (value : Bool)
  /-- A number by its written form. -/
  | number (digits : String)
  | string (value : String)
  | list (items : List Document)
  | record (members : List Member)

/-- A member of a record. -/
structure Member where
  name : String
  value : Document

end

namespace Document

/-- A natural number. -/
def natural (n : Nat) : Document := .number (toString n)

/-- A whole number. -/
def whole (n : Int) : Document := .number (toString n)

/-- A record, from names and values. -/
def fields (members : List (String × Document)) : Document :=
  .record (members.map fun m => ⟨m.1, m.2⟩)

/-- A value with a tag that says what it is. -/
def tagged (tag : String) (value : Document) : Document := .record [⟨tag, value⟩]

/-- A value that may be absent. -/
def optional {α : Type} (encode : α → Document) : Option α → Document
  | none => .null
  | some a => encode a

/-- A list of values. -/
def all {α : Type} (encode : α → Document) (values : List α) : Document := .list (values.map encode)

/-- The letters of an upper-case word after its first one, in lower case. -/
def capitalized : List Char → List Char
  | [] => []
  | c :: cs => c :: cs.map Char.toLower

/-- The tag for a spelling in upper case: each word of it is capitalized, and the underscores are
left out. -/
def tagOf (spelling : String) : String :=
  String.ofList ((spelling.toList.splitOn '_').flatMap capitalized)

/-! ## Writing -/

/-- The digit of value `n`. -/
def hexDigit (n : Nat) : Char := (Nat.digitChar n)

/-- A character inside a string. -/
def escaped (c : Char) : List Char :=
  if c == '"' then ['\\', '"']
  else if c == '\\' then ['\\', '\\']
  else if c == '\n' then ['\\', 'n']
  else if c == '\r' then ['\\', 'r']
  else if c == '\t' then ['\\', 't']
  else if c.toNat == 8 then ['\\', 'b']
  else if c.toNat == 12 then ['\\', 'f']
  else if c.toNat < 32 then
    ['\\', 'u', '0', '0', hexDigit (c.toNat / 16), hexDigit (c.toNat % 16)]
  else [c]

/-- A string with its quotes. -/
def stringText (value : String) : String :=
  "\"" ++ String.ofList (value.toList.flatMap escaped) ++ "\""

/-- The start of a line at a level. -/
def newLine (level : Nat) : String := "\n" ++ String.ofList (List.replicate (2 * level) ' ')

/-- Items between two marks, one to a line. -/
def block (start stop : String) (level : Nat) : List String → String
  | [] => start ++ stop
  | items =>
      start ++ newLine (level + 1) ++ ("," ++ newLine (level + 1)).intercalate items ++
        newLine level ++ stop

end Document

mutual

/-- The text of a document at a level of indentation. -/
def Document.textAt (level : Nat) : Document → String
  | .null => "null"
  | .bool value => if value then "true" else "false"
  | .number digits => digits
  | .string value => Document.stringText value
  | .list items => Document.block "[" "]" level (itemTexts (level + 1) items)
  | .record members => Document.block "\x7b" "\x7d" level (memberTexts (level + 1) members)

/-- The text of a member. -/
def Member.textAt (level : Nat) : Member → String
  | ⟨name, value⟩ => Document.stringText name ++ ": " ++ value.textAt level

/-- The texts of items. -/
def itemTexts (level : Nat) : List Document → List String
  | [] => []
  | d :: ds => d.textAt level :: itemTexts level ds

/-- The texts of members. -/
def memberTexts (level : Nat) : List Member → List String
  | [] => []
  | m :: ms => m.textAt level :: memberTexts level ms

end

/-- The text of a document. -/
def Document.text (d : Document) : String := d.textAt 0

end SearchSql
