import SearchSql.Grammar.Names
import SearchSql.Grammar.Nonterminal
import SearchSql.Grammar.Recovery

/-!
# Constants

A literal whose text denotes no value is kept in the tree as it was written, with a diagnostic,
unless nothing is recovered from. The sign in front of a number belongs to the number.
-/

set_option autoImplicit false

namespace SearchSql.Grammar

/-- The kinds of literal that are written as a word and a string. -/
inductive TemporalKind where
  | date | time | timestamp
  deriving DecidableEq, Repr

namespace TemporalKind

/-- The kind of literal. -/
def literalKind : TemporalKind → LiteralKind
  | .date => .date
  | .time => .time
  | .timestamp => .timestamp

/-- The kind that a reserved word stands for. -/
def ofKeyword? : Keyword → Option TemporalKind
  | .DATE => some .date
  | .TIME => some .time
  | .TIMESTAMP => some .timestamp
  | _ => none

/-- The kind that a token of this kind stands for between braces, where short forms are allowed. -/
def ofKind? : TokenKind → Option TemporalKind
  | .keyword word => ofKeyword? word
  | .name word =>
      if Text.sameWord word "d" then some .date
      else if Text.sameWord word "t" then some .time
      else if Text.sameWord word "ts" then some .timestamp
      else none
  | _ => none

/-- The literal of a kind that `text` denotes. -/
def read (library : Time.Library) (kind : TemporalKind) (text : String) :
    Except Time.TimeFault Literal :=
  match kind with
  | .date => (library.readDate text).map .date
  | .time => (library.readClock text).map .time
  | .timestamp => (library.readTimestamp text).map .timestamp

/-- What is read as a date or time is a date, a time or a timestamp. -/
theorem cases_of_read {library : Time.Library} {kind : TemporalKind} {text : String}
    {value : Literal} (h : kind.read library text = .ok value) :
    (∃ d, value = .date d) ∨ (∃ c, value = .time c) ∨ ∃ t, value = .timestamp t := by
  have hmap {α : Type} {f : α → Literal} {r : Except Time.TimeFault α} (hr : r.map f = .ok value) :
      ∃ a, value = f a := by
    cases r with
    | error fault => cases hr
    | ok a => exact ⟨a, (Except.ok.inj hr).symm⟩
  cases kind with
  | date => exact .inl (hmap h)
  | time => exact .inr (.inl (hmap h))
  | timestamp => exact .inr (.inr (hmap h))

end TemporalKind

namespace Parser

/-- The literal without a value that `text` stands for at `span`. -/
def malformedLiteral (kind : LiteralKind) (text : String) (fault : LiteralFault) (span : Span) :
    Parser Literal := do
  reportLiteral (.malformed kind.text fault.message span)
  return .malformed kind text fault

/-- The literal that the text of a number denotes. -/
def numberLiteral (kind : TokenKind) (text : String) (span : Span) : Parser Literal :=
  match kind with
  | .integer =>
      match Number.readSigned text with
      | .ok n => return .integer n
      | .error fault => malformedLiteral .integer text (.integer fault) span
  | _ =>
      match Number.readReal text with
      | .ok x => return .real x
      | .error fault => malformedLiteral .real text (.real fault) span

/-- A number with an optional sign. -/
def number : Parser Constant := do
  let start := (← current).span
  let negative ← takeSymbol .minus
  if !negative then
    let _ ← takeSymbol .plus
  let token ← current
  if !token.kind.isNumber then rejectCurrent "number"
  skip 1
  let span ← spanFrom start
  let text := if negative then "-" ++ token.text else token.text
  return ⟨← numberLiteral token.kind text span, span⟩

/-- The literal that `text` denotes as a date or time. -/
def temporalLiteral (kind : TemporalKind) (text : String) (span : Span) : Parser Literal := do
  match kind.read (← get).library text with
  | .ok value => return value
  | .error fault => malformedLiteral kind.literalKind text (.time fault) span

/-- `DATE '...'` and the like -/
def wordLiteral (kind : TemporalKind) : Parser Literal := do
  let start ← take
  let text ← string
  temporalLiteral kind text (← spanFrom start)

/-- `{d '...'}` and the like -/
def bracedLiteral : Parser Literal := do
  let start ← symbol .leftBrace
  match TemporalKind.ofKind? (← current).kind with
  | some kind =>
      skip 1
      let text ← string
      let _ ← symbol .rightBrace
      temporalLiteral kind text (← spanFrom start)
  | none => rejectCurrent "d, t or ts"

/-- A word for the current date or time, behind which parentheses may stand. -/
def datetimeConstant (name : DatetimeConstant) : Parser Literal := do
  skip 1
  let parens ← takeSymbol .leftParen
  if parens then
    let _ ← symbol .rightParen
  return .datetime name parens

/-- Takes the token under the cursor for the literal `value`. -/
def simpleLiteral (value : Literal) : Parser Literal := do
  skip 1
  return value

end Parser

open SearchSql.Grammar.Parser

/-- `INTERVAL expr unit` -/
def intervalRule (call : Callee) : Parser Literal := do
  let _ ← keyword .INTERVAL
  let amount ← call .wholeExpr
  return .interval amount (← datetimeUnit)

/-- A literal other than a number. -/
def literalRule (call : Callee) : Parser Literal := do
  match (← current).kind with
  | .string value => simpleLiteral (.string value)
  | .symbol .leftBrace => bracedLiteral
  | .keyword .TRUE => simpleLiteral (.boolean true)
  | .keyword .FALSE => simpleLiteral (.boolean false)
  | .keyword .NULL => simpleLiteral .null
  | .keyword .INTERVAL => call .interval
  | .keyword word =>
      match TemporalKind.ofKeyword? word with
      | some kind => wordLiteral kind
      | none => rejectCurrent "constant"
  | .name word =>
      match DatetimeConstant.ofText? word with
      | some name => datetimeConstant name
      | none => rejectCurrent "constant"
  | _ => rejectCurrent "constant"

/-- A constant. -/
def constantRule (call : Callee) : Parser Constant := do
  match (← current).kind with
  | .symbol .plus | .symbol .minus | .integer | .real => number
  | _ =>
      let start := (← current).span
      let value ← literalRule call
      return ⟨value, ← spanFrom start⟩

end SearchSql.Grammar
