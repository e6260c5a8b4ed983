import SearchSql.Text.Word

/-!
# Words for dates and times

The units in which intervals are counted, the words that denote the current date or time, and the
kinds of value that a format can be asked for. None of them is reserved.
-/

set_option autoImplicit false

namespace SearchSql

/-- A unit of time. The compound units count two units at once, as `DAY_HOUR` does. -/
inductive DatetimeUnit where
  | microsecond | second | minute | hour | day | week | month | quarter | year | secondMicrosecond
  | minuteMicrosecond | minuteSecond | hourMicrosecond | hourSecond | hourMinute | dayMicrosecond
  | daySecond | dayMinute | dayHour | yearMonth
  deriving DecidableEq, Repr

namespace DatetimeUnit

/-- All units, the single ones first. -/
def all : List DatetimeUnit :=
  [
    .microsecond, .second, .minute, .hour, .day, .week, .month, .quarter, .year,
    .secondMicrosecond, .minuteMicrosecond, .minuteSecond, .hourMicrosecond, .hourSecond,
    .hourMinute, .dayMicrosecond, .daySecond, .dayMinute, .dayHour, .yearMonth
  ]

/-- The spelling of a unit. -/
def text : DatetimeUnit → String
  | .microsecond => "MICROSECOND"
  | .second => "SECOND"
  | .minute => "MINUTE"
  | .hour => "HOUR"
  | .day => "DAY"
  | .week => "WEEK"
  | .month => "MONTH"
  | .quarter => "QUARTER"
  | .year => "YEAR"
  | .secondMicrosecond => "SECOND_MICROSECOND"
  | .minuteMicrosecond => "MINUTE_MICROSECOND"
  | .minuteSecond => "MINUTE_SECOND"
  | .hourMicrosecond => "HOUR_MICROSECOND"
  | .hourSecond => "HOUR_SECOND"
  | .hourMinute => "HOUR_MINUTE"
  | .dayMicrosecond => "DAY_MICROSECOND"
  | .daySecond => "DAY_SECOND"
  | .dayMinute => "DAY_MINUTE"
  | .dayHour => "DAY_HOUR"
  | .yearMonth => "YEAR_MONTH"

/-- The unit spelled `word`, in any case of its letters. -/
def ofText? (word : String) : Option DatetimeUnit := Text.findSpelling all text word

theorem ofText?_upper (word : String) : ofText? (Text.upper word) = ofText? word :=
  Text.findSpelling_upper all text word

theorem ofText?_text (unit : DatetimeUnit) : ofText? unit.text = some unit := by
  cases unit <;> decide

/-- Whether the unit counts a single unit. -/
def isSingle : DatetimeUnit → Bool
  | .microsecond | .second | .minute | .hour | .day | .week | .month | .quarter | .year => true
  | _ => false

end DatetimeUnit

/-- A word that denotes the current date or time. -/
inductive DatetimeConstant where
  | currentDate | currentTime | currentTimestamp | localtime | localtimestamp | utcTimestamp
  | utcDate | utcTime
  deriving DecidableEq, Repr

namespace DatetimeConstant

/-- All such words. -/
def all : List DatetimeConstant :=
  [
    .currentDate, .currentTime, .currentTimestamp, .localtime, .localtimestamp, .utcTimestamp,
    .utcDate, .utcTime
  ]

/-- The spelling of the word. -/
def text : DatetimeConstant → String
  | .currentDate => "CURRENT_DATE"
  | .currentTime => "CURRENT_TIME"
  | .currentTimestamp => "CURRENT_TIMESTAMP"
  | .localtime => "LOCALTIME"
  | .localtimestamp => "LOCALTIMESTAMP"
  | .utcTimestamp => "UTC_TIMESTAMP"
  | .utcDate => "UTC_DATE"
  | .utcTime => "UTC_TIME"

/-- The constant spelled `word`, in any case of its letters. -/
def ofText? (word : String) : Option DatetimeConstant := Text.findSpelling all text word

theorem ofText?_upper (word : String) : ofText? (Text.upper word) = ofText? word :=
  Text.findSpelling_upper all text word

theorem ofText?_text (name : DatetimeConstant) : ofText? name.text = some name := by
  cases name <;> decide

end DatetimeConstant

/-- What `GET_FORMAT` gives a format for. -/
inductive FormatTarget where
  | date | datetime | time | timestamp
  deriving DecidableEq, Repr

/-- The spelling of a format target. -/
def FormatTarget.text : FormatTarget → String
  | .date => "DATE"
  | .datetime => "DATETIME"
  | .time => "TIME"
  | .timestamp => "TIMESTAMP"

end SearchSql
