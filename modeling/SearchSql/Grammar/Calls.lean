import SearchSql.Grammar.Names
import SearchSql.Grammar.Nonterminal

/-!
# Function calls

A call is classified once, by its name and a few tokens ahead, into one shape. A call counts as one
level of nesting beyond those of its arguments.

In `POSITION(substring IN string)` the first `IN` outside parentheses separates the two operands;
`atSeparator` marks the depth at which this holds.
-/

set_option autoImplicit false

namespace SearchSql.Grammar

namespace Parser

/-- The name of a call and the parenthesis behind it. -/
def callName : Parser String := do
  let name := (← current).text
  skip 1
  let _ ← symbol .leftParen
  return name

/-- Runs the expression `p`, in which `IN` separates operands instead of testing for membership. -/
def atSeparator {α : Type} (p : Parser α) : Parser α := do
  let outer := (← get).separatorDepth
  between (fun s => { s with separatorDepth := some (s.depth + 1) })
    (fun s => { s with separatorDepth := outer }) p

/-- `NESTED(path.*)` -/
def nestedAll : Parser CallShape := do
  let name ← callName
  let path ← qualifiedName
  let _ ← symbol .dot
  let _ ← symbol .star
  let _ ← symbol .rightParen
  return .nestedAll name path

/-- A name among `names` for an option, where `expected` is required otherwise. -/
def optionName (names : List String) (expected : String) : Parser String := do
  match (← current).kind with
  | .name name =>
      if names.contains (Text.upper name) then
        skip 1
        return name
      rejectCurrent expected
  | _ => rejectCurrent expected

/-- `, option = 'value', ...` behind the field of `HIGHLIGHT` -/
def highlightOptions : Parser (List HighlightOption) := do
  let options ← loop [] fun options => do
    if ← takeSymbol .comma then
      let name ← optionName highlightOptionNames "highlight option name"
      let _ ← symbol .eq
      return .yield (⟨name, ← string⟩ :: options)
    return .done options
  return options.reverse

/-- `HIGHLIGHT(field, option = 'value', ...)` -/
def highlight : Parser CallShape := do
  let _ ← callName
  let field ← field
  let options ← highlightOptions
  let _ ← symbol .rightParen
  return .highlight field options

/-- The type to cast to. -/
def dataType : Parser DataType := do
  let token ← current
  let target :=
    match token.kind with
    | .name _ | .keyword _ => DataType.ofText? token.text
    | _ => none
  match target with
  | some target =>
      skip 1
      return target
  | none => rejectCurrent "type name"

/-- What a format is asked for. -/
def formatTarget : Parser FormatTarget := do
  match (← current).kind with
  | .keyword .DATE => taken .date
  | .keyword .DATETIME => taken .datetime
  | .keyword .TIME => taken .time
  | .keyword .TIMESTAMP => taken .timestamp
  | _ => rejectCurrent "DATE, DATETIME, TIME or TIMESTAMP"
where
  taken (target : FormatTarget) : Parser FormatTarget := do
    skip 1
    return target

/-- A unit of time that counts a single unit. -/
def singleUnit : Parser DatetimeUnit := do
  let token ← current
  let unit ← datetimeUnit
  if !unit.isSingle then reject (.unexpected "single date/time unit" token)
  return unit

end Parser

open SearchSql.Grammar.Parser

/-- The arguments of a call up to the closing parenthesis. -/
def argumentsRule (call : Callee) : Parser (List Expr) := do
  if ← takeSymbol .rightParen then return []
  let args ← commaSeparated "function argument" (call .wholeExpr)
  let _ ← symbol .rightParen
  return args

/-- A call of a scalar function. -/
def scalarRule (call : Callee) (category : ScalarCategory) : Parser CallShape := do
  let name ← callName
  return .scalar name category (← call .arguments)

/-- `WHEN condition THEN result`, any number of times -/
def caseBranches (call : Callee) : Parser (List CaseBranch) := do
  let branches ← loop [] fun branches => do
    if ← takeKeyword .WHEN then
      let condition ← call .wholeExpr
      let _ ← keyword .THEN
      let result ← call .wholeExpr
      return .yield (⟨condition, result⟩ :: branches)
    return .done branches
  return branches.reverse

/-- `CASE operand WHEN ... ELSE otherwise END` -/
def caseRule (call : Callee) : Parser CallShape := do
  let _ ← keyword .CASE
  let operand ← if ← atKeyword .WHEN then pure none else some <$> call .wholeExpr
  let branches ← caseBranches call
  if branches.isEmpty then rejectCurrent "WHEN"
  let otherwise ← if ← takeKeyword .ELSE then some <$> call .wholeExpr else pure none
  let _ ← keyword .END
  return .case operand branches otherwise

/-- `CAST(expr AS type)` -/
def castRule (call : Callee) : Parser CallShape := do
  let _ ← keyword .CAST
  let _ ← symbol .leftParen
  let expr ← call .wholeExpr
  let _ ← keyword .AS
  let target ← dataType
  let _ ← symbol .rightParen
  return .cast expr target

/-- `POSITION(substring IN string)` -/
def positionRule (call : Callee) : Parser CallShape := do
  let _ ← callName
  let substring ← atSeparator (call .wholeExpr)
  let _ ← keyword .IN
  let string ← call .wholeExpr
  let _ ← symbol .rightParen
  return .position substring string

/-- `EXTRACT(unit FROM arg)` -/
def extractRule (call : Callee) : Parser CallShape := do
  let _ ← callName
  let unit ← datetimeUnit
  let _ ← keyword .FROM
  let arg ← call .wholeExpr
  let _ ← symbol .rightParen
  return .extract unit arg

/-- `GET_FORMAT(target, format)` -/
def getFormatRule (call : Callee) : Parser CallShape := do
  let _ ← callName
  let target ← formatTarget
  let _ ← symbol .comma
  let format ← call .wholeExpr
  let _ ← symbol .rightParen
  return .getFormat target format

/-- `TIMESTAMPADD(unit, first, second)` and `TIMESTAMPDIFF(unit, first, second)` -/
def timestampRule (call : Callee) (function : TimestampFunction) : Parser CallShape := do
  let _ ← callName
  let unit ← singleUnit
  let _ ← symbol .comma
  let first ← call .wholeExpr
  let _ ← symbol .comma
  let second ← call .wholeExpr
  let _ ← symbol .rightParen
  return .timestamp function unit first second

/-- A call of a function of the given family. -/
def shapeRule (call : Callee) : FunctionFamily → Parser CallShape
  | .nested => do
      if startsNestedAll (← get).cursor.ahead then nestedAll else call (.scalar .nested)
  | .scalar category => call (.scalar category)
  | .ranking function => call (.ranking function)
  | .aggregate function => do call (.aggregateTail (← call (.aggregate function)))
  | .percentile function => do call (.aggregateTail (← call (.percentile function)))
  | .score => call .score
  | .relevance kind => return .relevance (← call (.relevance kind))
  | .highlight => highlight
  | .position => call .position
  | .extract => call .extract
  | .getFormat => call .getFormat
  | .timestamp function => call (.timestamp function)

/-- The shape of the call under the cursor. -/
def callShape (call : Callee) : Parser CallShape := do
  let token ← current
  match token.kind with
  | .keyword .CASE => call .case
  | .keyword .CAST => call .cast
  | .keyword .DATE | .keyword .TIME | .keyword .TIMESTAMP | .keyword .DATETIME =>
      call (.scalar .dateTime)
  | .name name =>
      match FunctionFamily.ofUpper? (Text.upper name) with
      | some family => call (.shape family)
      | none => reject (.unknownFunction name token)
  | _ => reject (.noAlternative "function call" ["function name", "CASE", "CAST"] token)

/-- A call. -/
def callRule (call : Callee) : Parser Call :=
  nest 1 do
    let start := (← current).span
    let shape ← callShape call
    return ⟨shape, ← spanFrom start⟩

end SearchSql.Grammar
