import SearchSql.Number.Integer
import SearchSql.Text.CharClass
import SearchSql.Time.Calendar

/-!
# Reading dates and times

A library for the Gregorian calendar (`Gregorian.library`). The text of a date or time literal is
read item by item from the left, and the first item that fails gives the fault. A numeric item may
have blank characters in front and takes at most a fixed number of digits, except that a year with a
sign takes all that follow; its range is checked at once. A separator has to follow directly.
Whether the day exists is decided last, when the whole text has been read.
-/

set_option autoImplicit false

namespace SearchSql.Time

namespace TimeFault

/-- The text ends too early. -/
def tooShort : TimeFault := ⟨"premature end of input"⟩

/-- A character is out of place. -/
def invalid : TimeFault := ⟨"input contains invalid characters"⟩

/-- A number is too small or too great, or the calendar does not have the day. -/
def outOfRange : TimeFault := ⟨"input is out of range"⟩

/-- Something is left behind the last item. -/
def tooLong : TimeFault := ⟨"trailing input"⟩

end TimeFault

namespace Gregorian

-- Powers are those of the core library, whatever else is in scope.
attribute [local instance (2000)] instPowNat

/-- A reader of one item: a value and the text after it, or a fault. -/
abbrev ItemReader (α : Type) := StateT (List Char) (Except TimeFault) α

/-- Passes over blank characters. -/
def skipBlanks : ItemReader Unit := modify (List.dropWhile Text.isBlank)

/-- The value of the digits at the start of the text, at least one and at most `width`, or without
limit. -/
def digits (width : Option Nat) : ItemReader Nat := do
  match ← get with
  | [] => throw .tooShort
  | c :: cs =>
      if c.isDigit then
        let run := (c :: cs).takeWhile Char.isDigit
        let taken := run.take (width.getD run.length)
        set ((c :: cs).drop taken.length)
        return Number.digitsValue 0 taken
      else throw .invalid

/-- A numeric item of at most `width` digits with a value from `least` to `greatest`. -/
def number (width least greatest : Nat) : ItemReader Nat := do
  skipBlanks
  let n ← digits (some width)
  if least ≤ n ∧ n ≤ greatest then return n else throw .outOfRange

/-- The item for a year: four digits, or a sign and any number of digits, within the range of 32-bit
signed words. -/
def yearItem : ItemReader Int := do
  skipBlanks
  let year ← do
    match ← get with
    | '-' :: cs =>
        set cs
        let n ← digits none
        pure (-(n : Int))
    | '+' :: cs =>
        set cs
        let n ← digits none
        pure (n : Int)
    | _ =>
        let n ← digits (some 4)
        pure (n : Int)
  if -(2 ^ (31 : Nat)) ≤ year ∧ year < 2 ^ (31 : Nat) then return year else throw .outOfRange

/-- The character `mark`. -/
def separator (mark : Char) : ItemReader Unit := do
  match ← get with
  | [] => throw .tooShort
  | c :: cs => if c = mark then set cs else throw .invalid

/-- The fraction of a second in nanoseconds, if a point starts one; digits after the ninth are
dropped. -/
def fractionItem : ItemReader Nat := do
  match ← get with
  | '.' :: cs =>
      set cs
      let shown := (cs.takeWhile Char.isDigit).length
      let n ← digits (some 9)
      modify (List.dropWhile Char.isDigit)
      return n * 10 ^ (9 - min 9 shown)
  | _ => return 0

/-- The items of a date. -/
def dateItems : ItemReader Date := do
  let year ← yearItem
  separator '-'
  let month ← number 2 1 12
  separator '-'
  let day ← number 2 1 31
  return ⟨year, month, day⟩

/-- The items of a time of day. -/
def clockItems : ItemReader Clock := do
  let hour ← number 2 0 23
  separator ':'
  let minute ← number 2 0 59
  separator ':'
  let second ← number 2 0 60
  let nanosecond ← fractionItem
  return ⟨hour, minute, second, nanosecond⟩

/-- The items of a timestamp. -/
def timestampItems : ItemReader Timestamp := do
  let date ← dateItems
  skipBlanks
  let clock ← clockItems
  return ⟨date, clock⟩

/-- Reads the whole of `text` with `items`. -/
def readAll {α : Type} (items : ItemReader α) (text : String) : Except TimeFault α := do
  let (value, rest) ← items.run text.toList
  if rest.isEmpty then return value else throw .tooLong

/-- Accepts a date that the calendar has. -/
def existing (d : Date) : Except TimeFault Date :=
  if d.exists then .ok d else .error .outOfRange

/-- Reads `year-month-day`. -/
def readDate (text : String) : Except TimeFault Date := do
  existing (← readAll dateItems text)

/-- Reads `hour:minute:second` with an optional fraction. -/
def readClock (text : String) : Except TimeFault Clock := readAll clockItems text

/-- Reads a date and a time of day, with or without blank characters between them. -/
def readTimestamp (text : String) : Except TimeFault Timestamp := do
  let t ← readAll timestampItems text
  return ⟨← existing t.date, t.clock⟩

/-- The library of the Gregorian calendar. -/
instance library : Library where
  readDate text := (readDate text).map Date.value
  readClock text := (readClock text).map Clock.value
  readTimestamp text := (readTimestamp text).map Timestamp.value

end Gregorian

end SearchSql.Time
