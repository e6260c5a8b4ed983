import SearchSql.Text.Word

/-!
# Names of functions and options

Function names are not reserved. A name in front of a parenthesis is classified by its spelling into
one `FunctionFamily`, which decides what its arguments look like. The families are searched in a
fixed order, so a name listed twice belongs to the first family that lists it.

Some relevance functions may also be written behind the field they search, as in
`title = MATCH_QUERY('text')`; `fieldEqualsKind?` lists these.
-/

set_option autoImplicit false

namespace SearchSql

/-- A function that numbers the rows of a window. -/
inductive RankingFunction where
  | rowNumber | rank | denseRank
  deriving DecidableEq, Repr

namespace RankingFunction

/-- All ranking functions. -/
def all : List RankingFunction :=
  [
    .rowNumber, .rank, .denseRank
  ]

/-- The name of the function. -/
def text : RankingFunction → String
  | .rowNumber => "ROW_NUMBER"
  | .rank => "RANK"
  | .denseRank => "DENSE_RANK"

/-- The function named `word`, in any case of its letters. -/
def ofText? (word : String) : Option RankingFunction := Text.findSpelling all text word

end RankingFunction

/-- An aggregate function of one argument. -/
inductive AggregateFunction where
  | avg | count | sum | min | max | varPop | varSamp | variance | std | stddev | stddevPop
  | stddevSamp
  deriving DecidableEq, Repr

namespace AggregateFunction

/-- All aggregate functions of one argument. -/
def all : List AggregateFunction :=
  [
    .avg, .count, .sum, .min, .max, .varPop, .varSamp, .variance, .std, .stddev, .stddevPop,
    .stddevSamp
  ]

/-- The name of the function. -/
def text : AggregateFunction → String
  | .avg => "AVG"
  | .count => "COUNT"
  | .sum => "SUM"
  | .min => "MIN"
  | .max => "MAX"
  | .varPop => "VAR_POP"
  | .varSamp => "VAR_SAMP"
  | .variance => "VARIANCE"
  | .std => "STD"
  | .stddev => "STDDEV"
  | .stddevPop => "STDDEV_POP"
  | .stddevSamp => "STDDEV_SAMP"

/-- The function named `word`, in any case of its letters. -/
def ofText? (word : String) : Option AggregateFunction := Text.findSpelling all text word

end AggregateFunction

/-- A percentile of the values of a field. -/
inductive PercentileFunction where
  | percentile | percentileApprox
  deriving DecidableEq, Repr

namespace PercentileFunction

/-- Both percentile functions. -/
def all : List PercentileFunction :=
  [
    .percentile, .percentileApprox
  ]

/-- The name of the function. -/
def text : PercentileFunction → String
  | .percentile => "PERCENTILE"
  | .percentileApprox => "PERCENTILE_APPROX"

/-- The function named `word`, in any case of its letters. -/
def ofText? (word : String) : Option PercentileFunction := Text.findSpelling all text word

end PercentileFunction

/-- A function that adds to a timestamp or subtracts two of them. -/
inductive TimestampFunction where
  | add | diff
  deriving DecidableEq, Repr

namespace TimestampFunction

/-- Both timestamp functions. -/
def all : List TimestampFunction :=
  [
    .add, .diff
  ]

/-- The name of the function. -/
def text : TimestampFunction → String
  | .add => "TIMESTAMPADD"
  | .diff => "TIMESTAMPDIFF"

/-- The function named `word`, in any case of its letters. -/
def ofText? (word : String) : Option TimestampFunction := Text.findSpelling all text word

end TimestampFunction

/-- What a scalar function is about. -/
inductive ScalarCategory where
  | mathematical | trigonometric | arithmetic | dateTime | text | flowControl | system | nested
  deriving DecidableEq, Repr

namespace ScalarCategory

/-- The categories in the order in which they are searched. -/
def all : List ScalarCategory :=
  [.mathematical, .trigonometric, .arithmetic, .dateTime, .text, .flowControl, .system]

/-- The names of the functions of a category. -/
def names : ScalarCategory → List String
  | .mathematical =>
      [
        "ABS", "CBRT", "CEIL", "CEILING", "CONV", "CRC32", "E", "EXP", "EXPM1", "FLOOR", "LN",
        "LOG", "LOG10", "LOG2", "MOD", "PI", "POW", "POWER", "RAND", "RINT", "ROUND", "SIGN",
        "SIGNUM", "SQRT", "TRUNCATE"
      ]
  | .trigonometric =>
      [
        "ACOS", "ASIN", "ATAN", "ATAN2", "COS", "COSH", "COT", "DEGREES", "RADIANS", "SIN",
        "SINH", "TAN"
      ]
  | .arithmetic => ["ADD", "SUBTRACT", "MULTIPLY", "DIVIDE", "MOD", "MODULUS"]
  | .dateTime =>
      [
        "ADDDATE", "ADDTIME", "CONVERT_TZ", "CURDATE", "CURTIME", "CURRENT_DATE", "CURRENT_TIME",
        "CURRENT_TIMESTAMP", "DATE", "DATE_ADD", "DATE_FORMAT", "DATE_SUB", "DATEDIFF",
        "DATETIME", "DAY", "DAYNAME", "DAYOFMONTH", "DAY_OF_MONTH", "DAYOFWEEK", "DAY_OF_WEEK",
        "DAYOFYEAR", "DAY_OF_YEAR", "FROM_DAYS", "FROM_UNIXTIME", "HOUR", "HOUR_OF_DAY",
        "LAST_DAY", "LOCALTIME", "LOCALTIMESTAMP", "MAKEDATE", "MAKETIME", "MICROSECOND",
        "MINUTE", "MINUTE_OF_DAY", "MINUTE_OF_HOUR", "MONTH", "MONTHNAME", "MONTH_OF_YEAR", "NOW",
        "PERIOD_ADD", "PERIOD_DIFF", "QUARTER", "SEC_TO_TIME", "SECOND", "SECOND_OF_MINUTE",
        "STR_TO_DATE", "SUBDATE", "SUBTIME", "SYSDATE", "TIME", "TIME_FORMAT", "TIME_TO_SEC",
        "TIMEDIFF", "TIMESTAMP", "TO_DAYS", "TO_SECONDS", "UNIX_TIMESTAMP", "UTC_DATE",
        "UTC_TIME", "UTC_TIMESTAMP", "WEEK", "WEEKDAY", "WEEK_OF_YEAR", "WEEKOFYEAR", "YEAR",
        "YEARWEEK"
      ]
  | .text =>
      [
        "SUBSTRING", "SUBSTR", "TRIM", "LTRIM", "RTRIM", "LOWER", "UPPER", "CONCAT", "CONCAT_WS",
        "LENGTH", "STRCMP", "RIGHT", "LEFT", "ASCII", "LOCATE", "REPLACE", "REVERSE"
      ]
  | .flowControl => ["IF", "IFNULL", "NULLIF", "ISNULL"]
  | .system => ["TYPEOF"]
  | .nested => ["NESTED"]

/-- The first category that lists the upper-case name `word`. -/
def ofUpper? (word : String) : Option ScalarCategory :=
  all.find? fun category => category.names.contains word

end ScalarCategory

/-- How many fields a relevance function searches. -/
inductive RelevanceKind where
  | noField | singleField | multiField
  deriving DecidableEq, Repr

namespace RelevanceKind

/-- All kinds in the order in which they are searched. -/
def all : List RelevanceKind := [.noField, .singleField, .multiField]

/-- The names of the relevance functions of a kind. -/
def names : RelevanceKind → List String
  | .noField => ["QUERY"]
  | .singleField =>
      [
        "MATCH", "MATCHQUERY", "MATCH_QUERY", "MATCH_PHRASE", "MATCHPHRASE", "MATCHPHRASEQUERY",
        "MATCH_BOOL_PREFIX", "MATCH_PHRASE_PREFIX", "WILDCARD_QUERY", "WILDCARDQUERY"
      ]
  | .multiField =>
      [
        "MULTI_MATCH", "MULTIMATCH", "MULTIMATCHQUERY", "SIMPLE_QUERY_STRING", "QUERY_STRING"
      ]

/-- The kind of the relevance function with the upper-case name `word`. -/
def ofUpper? (word : String) : Option RelevanceKind :=
  all.find? fun kind => kind.names.contains word

end RelevanceKind

/-- The names of the functions that turn relevance into a score. -/
def scoreNames : List String := ["SCORE", "SCOREQUERY", "SCORE_QUERY"]

/-- The kind of the relevance function with the upper-case name `word`, if it may be written behind
the field it searches. -/
def fieldEqualsKind? (word : String) : Option RelevanceKind :=
  if ["MATCH_QUERY", "MATCHQUERY", "MATCH_PHRASE", "MATCHPHRASE"].contains word then
    some .singleField
  else if ["MULTI_MATCH", "MULTIMATCH"].contains word then some .multiField
  else none

/-- What shape a function call has. -/
inductive FunctionFamily where
  | nested
  | scalar (category : ScalarCategory)
  | ranking (function : RankingFunction)
  | aggregate (function : AggregateFunction)
  | percentile (function : PercentileFunction)
  | score
  | relevance (kind : RelevanceKind)
  | highlight
  | position
  | extract
  | getFormat
  | timestamp (function : TimestampFunction)
  deriving DecidableEq, Repr

/-- The family of the function with the upper-case name `word`. -/
def FunctionFamily.ofUpper? (word : String) : Option FunctionFamily :=
  if word = "NESTED" then some .nested
  else (ScalarCategory.ofUpper? word).map .scalar
    <|> (RankingFunction.ofText? word).map .ranking
    <|> (AggregateFunction.ofText? word).map .aggregate
    <|> (PercentileFunction.ofText? word).map .percentile
    <|> (if scoreNames.contains word then some .score else none)
    <|> (RelevanceKind.ofUpper? word).map .relevance
    <|> (if word = "HIGHLIGHT" then some .highlight else none)
    <|> (if word = "POSITION" then some .position else none)
    <|> (if word = "EXTRACT" then some .extract else none)
    <|> (if word = "GET_FORMAT" then some .getFormat else none)
    <|> (TimestampFunction.ofText? word).map .timestamp

/-- The upper-case names of the options of relevance functions. -/
def relevanceOptionNames : List String :=
  [
    "ALLOW_LEADING_WILDCARD", "ANALYZER", "ANALYZE_WILDCARD",
    "AUTO_GENERATE_SYNONYMS_PHRASE_QUERY", "BOOST", "CASE_INSENSITIVE", "CUTOFF_FREQUENCY",
    "DEFAULT_FIELD", "DEFAULT_OPERATOR", "ENABLE_POSITION_INCREMENTS", "ESCAPE", "FIELDS",
    "FLAGS", "FUZZINESS", "FUZZY_MAX_EXPANSIONS", "FUZZY_PREFIX_LENGTH", "FUZZY_REWRITE",
    "FUZZY_TRANSPOSITIONS", "LENIENT", "LOW_FREQ_OPERATOR", "MAX_DETERMINIZED_STATES",
    "MAX_EXPANSIONS", "MINIMUM_SHOULD_MATCH", "OPERATOR", "PHRASE_SLOP", "PREFIX_LENGTH",
    "QUOTE_ANALYZER", "QUOTE_FIELD_SUFFIX", "REWRITE", "SLOP", "TIE_BREAKER", "TIME_ZONE", "TYPE",
    "ZERO_TERMS_QUERY"
  ]

/-- The upper-case names of the options of `HIGHLIGHT`. -/
def highlightOptionNames : List String :=
  ["HIGHLIGHT_PRE_TAGS", "HIGHLIGHT_POST_TAGS", "PRE_TAGS", "POST_TAGS"]

end SearchSql
