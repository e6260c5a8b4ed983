/-!
# Quoted text

A string is written between single quotes with each quote and each backslash doubled; a name that
cannot stand bare is written between backticks with each backtick doubled.
-/

set_option autoImplicit false

namespace SearchSql.Text

/-- The single quote that delimits strings. -/
def quoteMark : Char := '\''

/-- The double quote, the other delimiter of strings. -/
def doubleMark : Char := '"'

/-- The backtick that delimits quoted names. -/
def backtick : Char := Char.ofNat 0x60

/-- `cs` with each character that satisfies `special` written twice. -/
def doubling (special : Char → Bool) (cs : List Char) : List Char :=
  cs.flatMap fun c => if special c then [c, c] else [c]

/-- Whether a string shows the character as it is. -/
def isPlain (c : Char) : Bool := c != quoteMark && c != '\\'

/-- `value` as a quoted string. -/
def quoted (value : String) : String :=
  String.ofList
    (quoteMark :: (doubling (fun c => c == quoteMark || c == '\\') value.toList ++ [quoteMark]))

/-- `value` as a quoted name. -/
def backticked (value : String) : String :=
  String.ofList (backtick :: (doubling (· == backtick) value.toList ++ [backtick]))

@[simp] theorem doubling_nil (special : Char → Bool) : doubling special [] = [] := rfl

@[simp] theorem doubling_cons (special : Char → Bool) (c : Char) (cs : List Char) :
    doubling special (c :: cs) =
      (if special c then [c, c] else [c]) ++ doubling special cs := rfl

end SearchSql.Text
