import SearchSql.Text.Span
import SearchSql.Token.Keyword

/-!
# Tokens

A token is a kind, the text it was written as, and the span of that text. Numbers keep only their
text: what value they stand for, if any, is decided where they are used. A token list may come from
any producer, so nothing here relates the three fields to each other.
-/

set_option autoImplicit false

namespace SearchSql

/-- Operators and delimiters. -/
inductive Symbol where
  | plus | minus | star | slash | percent
  | eq | notEq | lt | ltEq | gt | gtEq
  | caret
  | leftParen | rightParen | leftBracket | rightBracket | leftBrace | rightBrace
  | comma | semicolon | dot
  deriving DecidableEq, Repr

/-- The canonical spelling of a symbol. -/
def Symbol.text : Symbol → String
  | .plus => "+"
  | .minus => "-"
  | .star => "*"
  | .slash => "/"
  | .percent => "%"
  | .eq => "="
  | .notEq => "!="
  | .lt => "<"
  | .ltEq => "<="
  | .gt => ">"
  | .gtEq => ">="
  | .caret => "^"
  | .leftParen => "("
  | .rightParen => ")"
  | .leftBracket => "["
  | .rightBracket => "]"
  | .leftBrace => "\x7b"
  | .rightBrace => "\x7d"
  | .comma => ","
  | .semicolon => ";"
  | .dot => "."

/-- What a token is. Strings and quoted names carry their value without quotes and escapes. -/
inductive TokenKind where
  | integer
  | real
  | string (value : String)
  | name (value : String)
  | quotedName (value : String)
  | keyword (word : Keyword)
  | symbol (sign : Symbol)
  | endOfInput
  | invalid (fault : String)
  deriving DecidableEq, Repr

namespace TokenKind

/-- The kind as it is called in messages. -/
def description : TokenKind → String
  | .integer => "integer literal"
  | .real => "real literal"
  | .string value => "string '" ++ value ++ "'"
  | .name value => "identifier " ++ value
  | .quotedName value => "identifier `" ++ value ++ "`"
  | .keyword word => "keyword " ++ word.text
  | .symbol sign => "'" ++ sign.text ++ "'"
  | .endOfInput => "end of input"
  | .invalid fault => "invalid input (" ++ fault ++ ")"

/-- Whether the kind may stand where a name is asked for. -/
def isNameLike : TokenKind → Bool
  | .name _ | .quotedName _ => true
  | .keyword word => word.isNameLike
  | _ => false

/-- Whether the kind is a bare name. -/
def isBareName : TokenKind → Bool
  | .name _ => true
  | _ => false

/-- Whether the kind is a string. -/
def isString : TokenKind → Bool
  | .string _ => true
  | _ => false

/-- Whether the kind is a number. -/
def isNumber : TokenKind → Bool
  | .integer | .real => true
  | _ => false

/-- The reserved word, if the kind is one. -/
def keyword? : TokenKind → Option Keyword
  | .keyword word => some word
  | _ => none

/-- The upper-case spelling of a bare name. -/
def bareWord? : TokenKind → Option String
  | .name value => some (Text.upper value)
  | _ => none

/-- Whether the kind is a bare name spelled `word`, in any case of its letters. -/
def isWord (kind : TokenKind) (word : String) : Bool :=
  match kind with
  | .name value => Text.sameWord value word
  | _ => false

end TokenKind

/-- A classified piece of text. -/
structure Token where
  kind : TokenKind
  text : String
  span : Span
  deriving DecidableEq, Repr

namespace Token

/-- The token that ends a token list, at `offset`. -/
def endOfInput (offset : Nat) : Token := ⟨.endOfInput, "", Span.point offset⟩

/-- Whether the token ends the input. -/
def isEnd (t : Token) : Bool := t.kind == .endOfInput

end Token

end SearchSql
