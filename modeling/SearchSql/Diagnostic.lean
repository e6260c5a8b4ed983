import SearchSql.Token.Basic

/-!
# Diagnostics

A diagnostic is the cause of a failure and the span it is about. The cause decides everything else:
the kind of the diagnostic, its wording, what was expected and what was found. Three kinds are fatal
and end the parse; the others can be recovered from.
-/

set_option autoImplicit false

namespace SearchSql

/-- The classes of diagnostics. -/
inductive DiagnosticKind where
  /-- A certain token was required and another was found. -/
  | unexpectedToken
  /-- No form of a construct starts here. -/
  | noViableAlternative
  /-- The text of a literal denotes no value. -/
  | malformedLiteral
  /-- A rule succeeded without taking a token where it had to. -/
  | internalAmbiguity
  /-- The nesting limit was exceeded. -/
  | recursionLimitExceeded
  /-- The limit of diagnostics was reached. -/
  | tooManyErrors
  deriving DecidableEq, Repr

namespace DiagnosticKind

/-- Whether a diagnostic of this kind ends the parse. -/
def isFatal : DiagnosticKind → Bool
  | .internalAmbiguity | .recursionLimitExceeded | .tooManyErrors => true
  | _ => false

/-- The kind in words. -/
def text : DiagnosticKind → String
  | .unexpectedToken => "unexpected token"
  | .noViableAlternative => "no viable alternative"
  | .malformedLiteral => "malformed literal"
  | .internalAmbiguity => "internal ambiguity"
  | .recursionLimitExceeded => "recursion limit exceeded"
  | .tooManyErrors => "too many errors"

end DiagnosticKind

/-- What went wrong. -/
inductive Cause where
  | unexpected (expected : String) (found : TokenKind)
  | noAlternative (construct : String) (expected : List String) (found : TokenKind)
  | unknownFunction (name : String) (found : TokenKind)
  | malformed (literal reason : String)
  | noProgress (rule : String)
  | tooDeep (limit : Nat)
  | tooMany (limit : Nat)
  /-- A cause in the words of whoever reports it. -/
  | stated (kind : DiagnosticKind) (message : String)
  deriving DecidableEq, Repr

/-- A cause and the span it is about. -/
structure Diagnostic where
  cause : Cause
  span : Span
  deriving DecidableEq, Repr

namespace Diagnostic

/-- `expected` was required where `found` stands. -/
def unexpected (expected : String) (found : Token) : Diagnostic :=
  ⟨.unexpected expected found.kind, found.span⟩

/-- No form of `construct` starts with `found`; those that exist start as `expected` says. -/
def noAlternative (construct : String) (expected : List String) (found : Token) : Diagnostic :=
  ⟨.noAlternative construct expected found.kind, found.span⟩

/-- There is no function of the name that `found` is. -/
def unknownFunction (name : String) (found : Token) : Diagnostic :=
  ⟨.unknownFunction name found.kind, found.span⟩

/-- The literal at `span` denotes no value. -/
def malformed (literal reason : String) (span : Span) : Diagnostic :=
  ⟨.malformed literal reason, span⟩

/-- The kind of a diagnostic. -/
def kind (d : Diagnostic) : DiagnosticKind :=
  match d.cause with
  | .unexpected .. => .unexpectedToken
  | .noAlternative .. => .noViableAlternative
  | .unknownFunction .. => .noViableAlternative
  | .malformed .. => .malformedLiteral
  | .noProgress _ => .internalAmbiguity
  | .tooDeep _ => .recursionLimitExceeded
  | .tooMany _ => .tooManyErrors
  | .stated kind _ => kind

/-- Whether the diagnostic ends the parse. -/
def isFatal (d : Diagnostic) : Bool := d.kind.isFatal

/-- The wording of a diagnostic. -/
def message (d : Diagnostic) : String :=
  match d.cause with
  | .unexpected expected found => "expected " ++ expected ++ ", found " ++ found.description
  | .noAlternative construct _ found =>
      "no viable alternative for " ++ construct ++ " at " ++ found.description
  | .unknownFunction name _ => "unknown function " ++ name
  | .malformed literal reason => "malformed " ++ literal ++ " literal: " ++ reason
  | .noProgress rule => rule ++ " matched without consuming input"
  | .tooDeep limit => "expression nesting exceeds the limit of " ++ toString limit
  | .tooMany limit => "too many errors (limit " ++ toString limit ++ "), giving up"
  | .stated _ message => message

/-- What was expected instead, as far as it can be listed. -/
def expected (d : Diagnostic) : List String :=
  match d.cause with
  | .unexpected expected _ => [expected]
  | .noAlternative _ expected _ => expected
  | _ => []

/-- What was found, if a token is to blame. -/
def found (d : Diagnostic) : Option TokenKind :=
  match d.cause with
  | .unexpected _ found => some found
  | .noAlternative _ _ found => some found
  | .unknownFunction _ found => some found
  | _ => none

/-- The diagnostic with its place. -/
def text (d : Diagnostic) : String := d.message ++ " at position " ++ d.span.text

end Diagnostic

end SearchSql
