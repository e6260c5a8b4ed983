import SearchSql.Grammar.Lookahead
import SearchSql.Grammar.Parser
import SearchSql.Tree.Query

/-!
# Names, numbers and patterns

The rules that read no expression: identifiers and qualified names, aliases, row counts, boosts,
units of time, and the patterns of the catalogue statements.
-/

set_option autoImplicit false

namespace SearchSql.Grammar.Parser

/-- An identifier: bare, between backticks, a word that may stand for a name, or a bare name with a
dot in front. -/
def ident : Parser Ident := do
  let token ← current
  match token.kind with
  | .name value => return ⟨value, false, ← take⟩
  | .quotedName value => return ⟨value, true, ← take⟩
  | .keyword word =>
      if word.isNameLike then return ⟨token.text, false, ← take⟩
      rejectCurrent "identifier"
  | .symbol .dot =>
      match (← peek 1).kind with
      | .name value =>
          let start ← take
          let stop ← take
          return ⟨"." ++ value, false, start.merge stop⟩
      | _ => rejectCurrent "identifier"
  | _ => rejectCurrent "identifier"

/-- Identifiers separated by dots. A dot that no identifier follows is not taken. -/
def qualifiedName : Parser QualifiedName := do
  let first ← ident
  let (parts, span) ← loop ([first], first.span) fun (parts, span) => do
    if (← atSymbol .dot) && (← peek 1).kind.isNameLike then
      skip 1
      let part ← ident
      return .yield (part :: parts, span.merge part.span)
    return .done (parts, span)
  return ⟨parts.reverse, span⟩

/-- An alias: a name behind `AS`, or a name alone. -/
def optionalAlias : Parser (Option Ident) := do
  if ← takeKeyword .AS then return some (← ident)
  if (← current).kind.isNameLike then return some (← ident)
  return none

/-- A number of rows. -/
def count : Parser Nat := do
  let token ← current
  if token.kind != .integer then rejectCurrent "integer"
  skip 1
  match Number.readUnsigned token.text with
  | .ok n => return n
  | .error fault => reject (.malformed "integer" fault.message token.span)

/-- A finite boost. -/
def weight : Parser Number.Binary64 := do
  let token ← current
  if !token.kind.isNumber then rejectCurrent "number"
  skip 1
  match Number.readReal token.text with
  | .ok x => return x
  | .error _ => reject (.malformed "real" Number.RealFault.outOfRange.message token.span)

/-- A unit of time. -/
def datetimeUnit : Parser DatetimeUnit := do
  match (← current).kind.bareWord?.bind DatetimeUnit.ofText? with
  | some unit =>
      skip 1
      return unit
  | none => rejectCurrent "date/time unit"

/-- A field of a relevance function. -/
def field : Parser Field := do
  match (← current).kind with
  | .string value => return .quoted value (← take)
  | _ => return .name (← qualifiedName)

/-- A field with an optional boost, in front of which a caret may stand. -/
def weightedField : Parser WeightedField := do
  let field ← field
  if ← takeSymbol .caret then return ⟨field, some (← weight)⟩
  if (← current).kind.isNumber then return ⟨field, some (← weight)⟩
  return ⟨field, none⟩

/-- `[field ^ weight, ...]` -/
def fieldList : Parser (List WeightedField) := do
  let _ ← symbol .leftBracket
  let fields ← commaSeparated "relevance field" weightedField
  let _ ← symbol .rightBracket
  return fields

/-- A pattern: a string, or names, numbers and wildcards with nothing between them. -/
def pattern : Parser Pattern := do
  match (← current).kind with
  | .string value =>
      skip 1
      return .quoted value
  | _ =>
      let pieces := plainPattern none (← get).cursor.ahead
      skip pieces.length
      let text := String.join (pieces.map Token.text)
      if text.isEmpty then rejectCurrent "pattern"
      return .plain text

/-- A pattern behind `LIKE`. -/
def likePattern : Parser Pattern := do
  let _ ← keyword .LIKE
  pattern

/-- The names that a pattern behind `LIKE` selects. -/
def nameFilter : Parser NameFilter := do
  let start := (← current).span
  let pattern ← likePattern
  return ⟨pattern, ← spanFrom start⟩

/-- `SHOW TABLES LIKE pattern` -/
def showTables : Parser Statement := do
  let start ← keyword .SHOW
  let _ ← keyword .TABLES
  let tables ← nameFilter
  return .showTables tables (← spanFrom start)

/-- The columns that `COLUMNS LIKE pattern` selects, if it stands here. -/
def columnFilter : Parser (Option NameFilter) := do
  if ← atKeyword .COLUMNS then
    let start ← take
    let pattern ← likePattern
    return some ⟨pattern, ← spanFrom start⟩
  return none

/-- `DESCRIBE TABLES LIKE pattern`, behind which a part about columns may stand. -/
def describe : Parser Statement := do
  let start ← keyword .DESCRIBE
  let _ ← keyword .TABLES
  let tables ← nameFilter
  let columns ← columnFilter
  return .describe tables columns (← spanFrom start)

end SearchSql.Grammar.Parser
