import SearchSql.Number.Binary64
import SearchSql.Number.Integer
import SearchSql.Text.Word

/-!
# Reading real numbers

A real number is written as digits with an optional point among or beside them and an optional
exponent. The words for infinity and for an undefined number are read as well, but like a value too
large for binary64 they denote no finite number: `readReal` accepts finite numbers only.
-/

set_option autoImplicit false

namespace SearchSql.Number

/-- Why a text denotes no finite real number. -/
inductive RealFault where
  | empty
  | invalid
  | outOfRange
  deriving DecidableEq, Repr

/-- The fault in words. -/
def RealFault.message : RealFault → String
  | .empty => "cannot parse float from empty string"
  | .invalid => "invalid float literal"
  | .outOfRange => "value out of range"

/-- The words that are read as numbers but denote none that is finite. -/
def unboundedWords : List String := ["INF", "INFINITY", "NAN"]

/-- The sign in front of `cs` and what follows it. -/
def splitSign : List Char → Bool × List Char
  | '-' :: cs => (true, cs)
  | '+' :: cs => (false, cs)
  | cs => (false, cs)

/-- The exponent written by `cs`, which has to be used up. -/
def readExponent : List Char → Option Int
  | [] => some 0
  | e :: cs =>
      let signed := splitSign cs
      if (e = 'e' ∨ e = 'E') ∧ signed.2 ≠ [] ∧ signed.2.all Char.isDigit = true then
        let value := digitsValue 0 signed.2
        some (if signed.1 then -(value : Int) else value)
      else none

/-- The digits after a point, if one starts `cs`, and what follows them. -/
def splitFraction : List Char → List Char × List Char
  | '.' :: cs => (cs.takeWhile Char.isDigit, cs.dropWhile Char.isDigit)
  | cs => ([], cs)

/-- The mantissa and the decimal exponent of a number without sign. -/
def readDecimal (cs : List Char) : Option (Nat × Int) :=
  let whole := cs.takeWhile Char.isDigit
  let part := splitFraction (cs.dropWhile Char.isDigit)
  if whole.isEmpty && part.1.isEmpty then none
  else
    (readExponent part.2).map fun power =>
      (digitsValue 0 (whole ++ part.1), power - part.1.length)

/-- Reads a finite real number, with an optional sign in front. -/
def readReal (text : String) : Except RealFault Binary64 :=
  if text.isEmpty then .error .empty
  else
    let signed := splitSign text.toList
    match readDecimal signed.2 with
    | some (mantissa, exponent) =>
        let value := Binary64.ofDecimal signed.1 mantissa exponent
        if value.isFinite then .ok value else .error .outOfRange
    | none =>
        if unboundedWords.contains (Text.upper (String.ofList signed.2)) then .error .outOfRange
        else .error .invalid

end SearchSql.Number
