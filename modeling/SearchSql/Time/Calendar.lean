import SearchSql.Time.Library

/-!
# Dates and times of day

Dates of the Gregorian calendar, extended to all years including zero and negative ones, and times
of day to the nanosecond. Second 60 is allowed in every minute, for leap seconds.

A date is written `year-month-day` and a time `hour:minute:second` with a fraction of three, six or
nine digits, the fewest that are exact, or none.
-/

set_option autoImplicit false

namespace SearchSql.Time.Gregorian

/-- A day of the calendar. -/
structure Date where
  year : Int
  month : Nat
  day : Nat
  deriving DecidableEq, Inhabited, Repr

/-- A time of day. -/
structure Clock where
  hour : Nat
  minute : Nat
  second : Nat
  nanosecond : Nat
  deriving DecidableEq, Inhabited, Repr

/-- A time of day on a day of the calendar. -/
structure Timestamp where
  date : Date
  clock : Clock
  deriving DecidableEq, Inhabited, Repr

/-- Whether the year has a 29th of February. -/
def isLeapYear (year : Int) : Bool :=
  year % 4 == 0 && (year % 100 != 0 || year % 400 == 0)

/-- The number of days of a month from 1 to 12. -/
def daysInMonth (year : Int) (month : Nat) : Nat :=
  if month = 2 then if isLeapYear year then 29 else 28
  else if month = 4 ∨ month = 6 ∨ month = 9 ∨ month = 11 then 30
  else 31

/-- The first year of the calendar in use. -/
def firstYear : Int := -262143

/-- The last year of the calendar in use. -/
def lastYear : Int := 262142

/-- Whether the calendar has the day. -/
def Date.exists (d : Date) : Bool :=
  firstYear ≤ d.year && d.year ≤ lastYear && 1 ≤ d.month && d.month ≤ 12 &&
    1 ≤ d.day && d.day ≤ daysInMonth d.year d.month

/-! ## Written forms -/

/-- `n` in decimal, filled up with zeros to `width` digits. -/
def padded (width n : Nat) : List Char :=
  let digits := Nat.toDigits 10 n
  List.replicate (width - digits.length) '0' ++ digits

/-- A year: four digits from 0 to 9999, otherwise a sign and at least four digits. -/
def yearText (year : Int) : List Char :=
  if 0 ≤ year ∧ year ≤ 9999 then padded 4 year.toNat
  else (if year < 0 then '-' else '+') :: padded 4 year.natAbs

/-- The fraction of a second. -/
def fractionText (nanosecond : Nat) : List Char :=
  if nanosecond = 0 then []
  else if nanosecond % 1000000 = 0 then '.' :: padded 3 (nanosecond / 1000000)
  else if nanosecond % 1000 = 0 then '.' :: padded 6 (nanosecond / 1000)
  else '.' :: padded 9 nanosecond

/-- A date as characters. -/
def Date.chars (d : Date) : List Char :=
  yearText d.year ++ '-' :: (padded 2 d.month ++ '-' :: padded 2 d.day)

/-- A time of day as characters. -/
def Clock.chars (c : Clock) : List Char :=
  padded 2 c.hour ++ ':' :: (padded 2 c.minute ++ ':' :: (padded 2 c.second ++
    fractionText c.nanosecond))

/-! ## Values -/

theorem plain_padded (width n : Nat) : (padded width n).all Text.isPlain = true := by
  have hplain {c : Char} (hc : c.isDigit = true) : Text.isPlain c = true := by
    have hne {d : Char} (hd : d.isDigit = false) : c ≠ d := by
      rintro rfl
      rw [hc] at hd
      cases hd
    simp [Text.isPlain, Text.quoteMark, hne (d := '\'') (by decide), hne (d := '\\') (by decide)]
  unfold padded
  simp only [List.all_append, Bool.and_eq_true, List.all_eq_true]
  constructor
  · intro c hc
    rw [List.eq_of_mem_replicate hc]
    decide
  · intro c hc
    exact hplain (Nat.isDigit_of_mem_toDigits (by decide) (by decide) hc)

theorem plain_date (d : Date) : d.chars.all Text.isPlain = true := by
  have hyear : (yearText d.year).all Text.isPlain = true := by
    unfold yearText
    split
    · exact plain_padded 4 _
    · have hsign : Text.isPlain (if d.year < 0 then '-' else '+') = true := by
        split
        · decide
        · decide
      rw [List.all_cons, hsign, plain_padded, Bool.and_self]
  have hdash : Text.isPlain '-' = true := by decide
  simp only [Date.chars, List.all_append, List.all_cons, hyear, hdash, plain_padded, Bool.and_self]

theorem plain_clock (c : Clock) : c.chars.all Text.isPlain = true := by
  have hfraction : (fractionText c.nanosecond).all Text.isPlain = true := by
    have hpoint : Text.isPlain '.' = true := by decide
    unfold fractionText
    split
    · rfl
    · split
      · simp only [List.all_cons, hpoint, plain_padded, Bool.and_self]
      · split
        · simp only [List.all_cons, hpoint, plain_padded, Bool.and_self]
        · simp only [List.all_cons, hpoint, plain_padded, Bool.and_self]
  have hcolon : Text.isPlain ':' = true := by decide
  simp only [Clock.chars, List.all_append, List.all_cons, hfraction, hcolon, plain_padded,
    Bool.and_self]

/-- A date as the program knows it. -/
def Date.value (d : Date) : Time.Date where
  text := String.ofList d.chars
  plain := by
    rw [String.toList_ofList]
    exact plain_date d

/-- A time of day as the program knows it. -/
def Clock.value (c : Clock) : Time.Clock where
  text := String.ofList c.chars
  plain := by
    rw [String.toList_ofList]
    exact plain_clock c

/-- A timestamp as the program knows it. -/
def Timestamp.value (t : Timestamp) : Time.Timestamp := ⟨t.date.value, t.clock.value⟩

end SearchSql.Time.Gregorian
