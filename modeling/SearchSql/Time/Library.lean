import SearchSql.Text.Quoted

/-!
# The calendar library

What a date or a time is, and which texts denote one, is the business of a library. A parse asks the
library for the value that a text denotes, and wants nothing of the value but the text by which it
is written and whether it is the same as another. So a value is known by its text here, and a
library by how it reads (`Library`). Whatever the library, its texts stand between single quotes as
they are.

Where a statement is written and read again, the library is relied on for one thing: it reads the
text of a value that it has read as the same value (`Library.ReadsBack`).
-/

set_option autoImplicit false

namespace SearchSql.Time

/-- Why a text is no date or time, in the words of the library. -/
structure TimeFault where
  message : String
  deriving DecidableEq, Repr

/-- A day of the calendar, known by its text. -/
structure Date where
  text : String
  plain : text.toList.all Text.isPlain = true
  deriving DecidableEq, Repr

/-- A time of day, known by its text. -/
structure Clock where
  text : String
  plain : text.toList.all Text.isPlain = true
  deriving DecidableEq, Repr

/-- A time of day on a day of the calendar. -/
structure Timestamp where
  date : Date
  clock : Clock
  deriving DecidableEq, Repr

/-- A timestamp as text, with `separator` between date and time. -/
def Timestamp.text (t : Timestamp) (separator : Char) : String :=
  t.date.text ++ String.singleton separator ++ t.clock.text

/-- A calendar library: how it reads the texts of dates, times of day and timestamps. -/
class Library where
  readDate : String → Except TimeFault Date
  readClock : String → Except TimeFault Clock
  readTimestamp : String → Except TimeFault Timestamp

/-- A library reads the text of a value that it has read as the same value. -/
structure Library.ReadsBack (library : Library) : Prop where
  date {text : String} {d : Date} : library.readDate text = .ok d → library.readDate d.text = .ok d
  clock {text : String} {c : Clock} :
    library.readClock text = .ok c → library.readClock c.text = .ok c
  timestamp {text : String} {t : Timestamp} :
    library.readTimestamp text = .ok t → library.readTimestamp (t.text ' ') = .ok t

/-- The text of a timestamp is plain as well. -/
theorem Timestamp.plain (t : Timestamp) : (t.text ' ').toList.all Text.isPlain = true := by
  have hspace : Text.isPlain ' ' = true := by decide
  unfold Timestamp.text
  simp [t.date.plain, t.clock.plain, hspace]

end SearchSql.Time
