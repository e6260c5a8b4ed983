import SearchSql.Document.Basic
import SearchSql.Diagnostic
import SearchSql.Settings.Basic

/-!
# Documents of tokens and diagnostics
-/

set_option autoImplicit false

namespace SearchSql

open Document (tagged fields tagOf)

/-- The document of a span. -/
def Span.document (s : Span) : Document :=
  fields [("start", .natural s.start), ("end", .natural s.stop)]

/-- The tag of a symbol. -/
def Symbol.tag : Symbol → String
  | .plus => "Plus"
  | .minus => "Minus"
  | .star => "Star"
  | .slash => "Slash"
  | .percent => "Percent"
  | .eq => "Eq"
  | .notEq => "NotEq"
  | .lt => "Lt"
  | .ltEq => "LtEq"
  | .gt => "Gt"
  | .gtEq => "GtEq"
  | .caret => "Caret"
  | .leftParen => "LeftParen"
  | .rightParen => "RightParen"
  | .leftBracket => "LeftBracket"
  | .rightBracket => "RightBracket"
  | .leftBrace => "LeftBrace"
  | .rightBrace => "RightBrace"
  | .comma => "Comma"
  | .semicolon => "Semicolon"
  | .dot => "Dot"

/-- All symbols. -/
def Symbol.all : List Symbol :=
  [
    .plus, .minus, .star, .slash, .percent, .eq, .notEq, .lt, .ltEq, .gt, .gtEq, .caret, .leftParen,
    .rightParen, .leftBracket, .rightBracket, .leftBrace, .rightBrace, .comma, .semicolon, .dot
  ]

/-- The document of a kind of token. -/
def TokenKind.document : TokenKind → Document
  | .integer => .string "Decimal"
  | .real => .string "Real"
  | .string value => tagged "String" (.string value)
  | .name value => tagged "Identifier" (.string value)
  | .quotedName value => tagged "QuotedIdentifier" (.string value)
  | .keyword word => tagged "Keyword" (.string (tagOf word.text))
  | .symbol sign => .string sign.tag
  | .endOfInput => .string "Eof"
  | .invalid fault => tagged "Error" (.string fault)

/-- The kind of token that a tag alone denotes. -/
def TokenKind.ofTag? (tag : String) : Option TokenKind :=
  if tag = "Decimal" then some .integer
  else if tag = "Real" then some .real
  else if tag = "Eof" then some .endOfInput
  else (Symbol.all.find? fun sign => sign.tag == tag).map .symbol

/-- The kind of token that a tag and its value denote. -/
def TokenKind.ofTagged? (tag value : String) : Option TokenKind :=
  if tag = "String" then some (.string value)
  else if tag = "Identifier" then some (.name value)
  else if tag = "QuotedIdentifier" then some (.quotedName value)
  else if tag = "Error" then some (.invalid value)
  else if tag = "Keyword" then (Keyword.all.find? fun k => tagOf k.text == value).map .keyword
  else none

/-- The tag of a kind of diagnostic. -/
def DiagnosticKind.tag : DiagnosticKind → String
  | .unexpectedToken => "UnexpectedToken"
  | .noViableAlternative => "NoViableAlternative"
  | .malformedLiteral => "MalformedLiteral"
  | .internalAmbiguity => "InternalAmbiguity"
  | .recursionLimitExceeded => "RecursionLimitExceeded"
  | .tooManyErrors => "TooManyErrors"

/-- The document of a diagnostic. -/
def Diagnostic.document (d : Diagnostic) : Document :=
  fields
    [
      ("kind", .string d.kind.tag),
      ("message", .string d.message),
      ("span", d.span.document),
      ("expected", .all .string d.expected),
      ("found", .optional TokenKind.document d.found)
    ]

end SearchSql
