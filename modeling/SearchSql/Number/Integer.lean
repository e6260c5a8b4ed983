/-!
# Reading integers

An integer is read digit by digit from the left, and the first problem met is the one reported: a
character that is no digit, or a value beyond the range. `readSigned` reads the values of 64-bit
signed words and `readUnsigned` those of 64-bit unsigned words.
-/

set_option autoImplicit false

namespace SearchSql.Number

-- Powers are those of the core library, whatever else is in scope.
attribute [local instance (2000)] instPowNat

/-- Why a text is no integer of the wanted range. -/
inductive IntegerFault where
  | empty
  | invalidDigit
  | tooLarge
  | tooSmall
  deriving DecidableEq, Repr

/-- The fault in words. -/
def IntegerFault.message : IntegerFault → String
  | .empty => "cannot parse integer from empty string"
  | .invalidDigit => "invalid digit found in string"
  | .tooLarge => "number too large to fit in target type"
  | .tooSmall => "number too small to fit in target type"

/-- The value of a decimal digit. -/
def digitValue (c : Char) : Nat := c.toNat - '0'.toNat

/-- The number that a run of digits denotes, after the value of the digits before it. -/
def digitsValue (value : Nat) (digits : List Char) : Nat :=
  digits.foldl (fun n c => n * 10 + digitValue c) value

/-- Continues a number by the digits `cs`; a value above `limit` gives the fault `beyond`. -/
def readDigits (limit : Nat) (beyond : IntegerFault) (value : Nat) :
    List Char → Except IntegerFault Nat
  | [] => .ok value
  | c :: cs =>
      if c.isDigit then
        let next := value * 10 + digitValue c
        if limit < next then .error beyond else readDigits limit beyond next cs
      else .error .invalidDigit

/-- Reads at least one digit. -/
def readMagnitude (limit : Nat) (beyond : IntegerFault) :
    List Char → Except IntegerFault Nat
  | [] => .error .invalidDigit
  | cs => readDigits limit beyond 0 cs

/-- The least integer above every 64-bit signed word. -/
def signedBound : Nat := 2 ^ (63 : Nat)

/-- The least integer above every 64-bit unsigned word. -/
def unsignedBound : Nat := 2 ^ (64 : Nat)

/-- Reads a signed integer, with an optional sign in front. -/
def readSigned (text : String) : Except IntegerFault Int :=
  match text.toList with
  | [] => .error .empty
  | '-' :: cs => (readMagnitude signedBound .tooSmall cs).map fun n => -(n : Int)
  | '+' :: cs => (readMagnitude (signedBound - 1) .tooLarge cs).map Int.ofNat
  | cs => (readMagnitude (signedBound - 1) .tooLarge cs).map Int.ofNat

/-- Reads an unsigned integer, with an optional plus sign in front. -/
def readUnsigned (text : String) : Except IntegerFault Nat :=
  match text.toList with
  | [] => .error .empty
  | '+' :: cs => readMagnitude (unsignedBound - 1) .tooLarge cs
  | cs => readMagnitude (unsignedBound - 1) .tooLarge cs

end SearchSql.Number
