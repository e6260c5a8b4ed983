import SearchSql.Grammar.Derivation
import SearchSql.Token.Scan

/-!
# Parsing a statement

A text or a token list holds at most one statement, with an optional semicolon behind it. `parse`
recovers from errors as its settings allow and gives what it could build together with the
diagnostics; `parseStrict` stops at the first error.
-/

set_option autoImplicit false

namespace SearchSql

namespace Grammar

open SearchSql.Grammar.Parser

/-- A statement. -/
def statementRule (call : Callee) : Parser Statement := do
  let token ← current
  match token.kind with
  | .keyword .SELECT => return .select (← call .query)
  | .keyword .SHOW => showTables
  | .keyword .DESCRIBE => describe
  | _ => reject (.noAlternative "statement" ["SELECT", "SHOW", "DESCRIBE"] token)

/-- Moves the cursor to the end of the input, which is required here. -/
def Parser.inputEnd : Parser Unit := do
  let token ← current
  if !token.isEnd then
    let d := Diagnostic.unexpected "end of input" token
    if (← get).isRecovering then
      report d
      skip (← get).cursor.ahead.length
      note .trailingSkipped
    else reject d

/-- The statement, if there is one. -/
def optionalStatement (call : Callee) : Parser (Option Statement) := do
  match (← current).kind with
  | .endOfInput | .symbol .semicolon => return none
  | _ => recover (statementRule call)

/-- The whole input. -/
def rootRule (call : Callee) : Parser (Option Statement) := do
  let statement ← optionalStatement call
  let _ ← takeSymbol .semicolon
  inputEnd
  return statement

/-- Runs the rule of the whole input on a token list. -/
def runRoot [Time.Library] (tokens : List Token) (settings : Settings) :
    EStateM.Result Failure State (Option Statement) :=
  rootRule (derive (fuelFor settings)) (State.ofTokens tokens settings)

end Grammar

/-- What a parse gives. -/
structure Outcome where
  /-- The statement, from which clauses may be missing. There is none if the input is empty, or if
  the parse ended early. -/
  statement : Option Statement
  /-- The diagnostics in the order in which they were reported. -/
  diagnostics : List Diagnostic
  /-- Whether the parse ended early. -/
  aborted : Bool
  /-- What happened during the parse, in order. -/
  events : List Event

namespace Outcome

/-- Whether there is no diagnostic. -/
def isClean (o : Outcome) : Bool := o.diagnostics.isEmpty && !o.aborted

/-- The diagnostics as events. -/
def notices (o : Outcome) : List Event := o.diagnostics.map .reported

end Outcome

/-- The outcome of a run. A failure that ends it is its last diagnostic. -/
def Grammar.outcome : EStateM.Result Failure State (Option Statement) → Outcome
  | .ok statement s => ⟨statement, s.diagnostics.reverse, false, s.events.reverse⟩
  | .error (.rejected d) s =>
      ⟨none, (d :: s.diagnostics).reverse, true, (.aborted d :: s.events).reverse⟩
  | .error .outOfFuel s => ⟨none, s.diagnostics.reverse, true, s.events.reverse⟩

/-- Parses a token list, recovering from errors if the settings say so. -/
def parseTokens [Time.Library] (tokens : List Token) (settings : Settings) : Outcome :=
  Grammar.outcome (Grammar.runRoot tokens settings)

/-- Parses a text, recovering from errors if the settings say so. -/
def parse [Time.Library] (text : String) (settings : Settings) : Outcome :=
  parseTokens (Token.tokenize text) settings

/-- Parses a token list up to the first error. An input without a statement is an error. -/
def parseTokensStrict [Time.Library] (tokens : List Token) (settings : Settings) :
    Except Grammar.Failure Statement :=
  match Grammar.runRoot tokens { settings with recover := false } with
  | .ok (some statement) _ => .ok statement
  | .ok none s => .error (.rejected (.unexpected "statement" s.cursor.current))
  | .error failure _ => .error failure

/-- Parses a text up to the first error. -/
def parseStrict [Time.Library] (text : String)
    (settings : Settings) : Except Grammar.Failure Statement :=
  parseTokensStrict (Token.tokenize text) settings

end SearchSql
