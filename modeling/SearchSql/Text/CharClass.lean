import SearchSql.Text.Alphabetic
import SearchSql.Text.Numeric

/-!
# Character classes of query text

The three classes that decide where a token starts and ends: blank characters separate tokens,
name characters form bare names, and only the ten ASCII digits form numbers. Blank and alphabetic
are the Unicode properties White_Space and Alphabetic; a name part may also be any Unicode number.

`byteLength` measures characters in UTF-8, the unit of every offset.
-/

set_option autoImplicit false

namespace SearchSql.Text

-- Sums start from the zero of the core library, whatever else is in scope.
attribute [local instance (2000)] Zero.ofOfNat0

/-- Whether `n` lies in one of the closed intervals of `ranges`. -/
def inRanges (ranges : List (Nat × Nat)) (n : Nat) : Bool :=
  ranges.any fun range => range.1 ≤ n && n ≤ range.2

/-- The closed intervals of the code points with the property White_Space. -/
def blankRanges : List (Nat × Nat) :=
  [(0x09, 0x0D), (0x20, 0x20), (0x85, 0x85), (0xA0, 0xA0), (0x1680, 0x1680), (0x2000, 0x200A),
    (0x2028, 0x2029), (0x202F, 0x202F), (0x205F, 0x205F), (0x3000, 0x3000)]

/-- Whether `c` separates tokens. -/
def isBlank (c : Char) : Bool := inRanges blankRanges c.toNat

/-- Whether `c` has the property Alphabetic. -/
def isAlphabetic (c : Char) : Bool :=
  if c.toNat < 128 then c.isAlpha else inRanges alphabeticRanges c.toNat

/-- Whether `c` belongs to a number category. -/
def isNumeric (c : Char) : Bool :=
  if c.toNat < 128 then c.isDigit else inRanges numericRanges c.toNat

/-- Whether `c` may start a bare name. -/
def isNameStart (c : Char) : Bool := isAlphabetic c || c == '_' || c == '@'

/-- Whether `c` may continue a bare name. -/
def isNamePart (c : Char) : Bool := isAlphabetic c || isNumeric c || c == '_'

/-- The number of bytes that `cs` takes in UTF-8. -/
def byteLength (cs : List Char) : Nat := (cs.map Char.utf8Size).sum

@[simp] theorem byteLength_nil : byteLength [] = 0 := rfl

@[simp] theorem byteLength_cons (c : Char) (cs : List Char) :
    byteLength (c :: cs) = c.utf8Size + byteLength cs := by
  simp [byteLength]

@[simp] theorem byteLength_append (cs ds : List Char) :
    byteLength (cs ++ ds) = byteLength cs + byteLength ds := by
  simp [byteLength]

end SearchSql.Text
