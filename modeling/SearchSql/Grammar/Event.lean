import SearchSql.Diagnostic

/-!
# Events of a parse

A parse tells what it does besides building a tree: where it resumed after an error, which attempts
it gave up, why it ended early. Each event has a level, a message and named fields.
-/

set_option autoImplicit false

namespace SearchSql

/-- How much an event matters. -/
inductive EventLevel where
  | trace | debug | warning
  deriving DecidableEq, Repr

/-- The value of a field of an event. -/
inductive EventValue where
  | number (value : Nat)
  | text (value : String)
  deriving DecidableEq, Repr

/-- Something that happened during a parse, or is made known after it. -/
inductive Event where
  /-- A second diagnostic at one offset was dropped. -/
  | duplicateSuppressed (offset : Nat)
  /-- Tokens were skipped up to the end of a clause. -/
  | resynchronized (skipped : Nat) (resumedAt : TokenKind)
  /-- The tokens behind a statement were skipped. -/
  | trailingSkipped
  /-- An attempt failed and was undone. -/
  | attemptUndone (rule : String) (reason : Diagnostic)
  /-- The parse ended without a statement. -/
  | aborted (reason : Diagnostic)
  /-- A diagnostic of a finished parse is made known. -/
  | reported (diagnostic : Diagnostic)
  deriving DecidableEq, Repr

namespace Event

/-- The level of an event. -/
def level : Event → EventLevel
  | .attemptUndone .. => .trace
  | .duplicateSuppressed _ | .resynchronized .. | .trailingSkipped => .debug
  | .aborted _ | .reported _ => .warning

/-- The wording of an event. -/
def message : Event → String
  | .duplicateSuppressed _ => "suppressing duplicate diagnostic"
  | .resynchronized .. => "resynchronized"
  | .trailingSkipped => "skipped trailing input"
  | .attemptUndone .. => "speculation failed, resetting"
  | .aborted reason => "parse aborted: " ++ reason.message
  | .reported d => d.message

/-- The fields of an event by name. -/
def fields : Event → List (String × EventValue)
  | .duplicateSuppressed offset => [("offset", .number offset)]
  | .resynchronized skipped resumedAt =>
      [("skipped", .number skipped), ("at", .text resumedAt.description)]
  | .trailingSkipped => []
  | .attemptUndone rule reason => [("rule", .text rule), ("reason", .text reason.text)]
  | .aborted reason => [("kind", .text reason.kind.text), ("span", .text reason.span.text)]
  | .reported d =>
      [
        ("kind", .text d.kind.text), ("start", .number d.span.start), ("end", .number d.span.stop)
      ]

end Event

end SearchSql
