import SearchSql.Grammar.Event
import SearchSql.Settings.Basic
import SearchSql.Time.Library
import SearchSql.Token.Cursor

/-!
# Parsers

A parser takes a state to a result and a new state, or fails and leaves the state as it was when it
failed. The state is a cursor into the tokens, the diagnostics reported so far, and a few counters:
how deep expressions are nested, how many attempts are under way, how many queries in parentheses
are open.

The parsers here look at the tokens ahead, take them, or refuse them. Two of them bound what a parse
can do. `nest` counts levels of nesting and fails when the settings allow no more, giving back what
it took in any case. `loop` repeats a step which, as long as it goes on, must take a token in each
round.
-/

set_option autoImplicit false

namespace SearchSql.Grammar

/-- The state of a parse. Diagnostics and events are kept with the latest first. -/
structure State where
  cursor : Cursor
  settings : Settings
  /-- The library that dates and times are read with. -/
  library : Time.Library
  diagnostics : List Diagnostic
  events : List Event
  /-- The levels of nesting in use. -/
  depth : Nat
  /-- The attempts under way, which report no failure of their own. -/
  attempts : Nat
  /-- The queries in parentheses that are open. -/
  subqueries : Nat
  /-- The depth at which `IN` separates two operands instead of testing for membership. -/
  separatorDepth : Option Nat
  /-- The offset of the diagnostic reported last. -/
  lastReported : Option Nat

/-- The state in front of `tokens`. -/
def State.ofTokens [library : Time.Library] (tokens : List Token)
    (settings : Settings) : State where
  cursor := Cursor.ofTokens tokens
  settings := settings
  library := library
  diagnostics := []
  events := []
  depth := 0
  attempts := 0
  subqueries := 0
  separatorDepth := none
  lastReported := none

/-- Whether a failed rule is reported and passed over. -/
def State.isRecovering (s : State) : Bool := s.settings.recover && s.attempts == 0

/-- Why a parser fails: the input is refused, or the steps it may take ran out. -/
inductive Failure where
  | rejected (diagnostic : Diagnostic)
  | outOfFuel
  deriving DecidableEq, Repr

/-- A function from a state to a result and a new state, or to a failure. -/
abbrev Parser (α : Type) : Type := EStateM Failure State α

namespace Parser

variable {α β : Type}

/-- The parser that refuses its input for the reason `d`. -/
def reject (d : Diagnostic) : Parser α := throw (.rejected d)

/-- The token `k` places ahead. -/
def peek (k : Nat) : Parser Token := do return (← get).cursor.peek k

/-- The token under the cursor. -/
def current : Parser Token := do return (← get).cursor.current

/-- Adds an event. -/
def note (e : Event) : Parser Unit := modify fun s => { s with events := e :: s.events }

/-- Moves the cursor over `n` tokens. -/
def skip (n : Nat) : Parser Unit := modify fun s => { s with cursor := s.cursor.skip n }

/-- Takes the token under the cursor and gives its span. -/
def take : Parser Span := do
  let token ← current
  skip 1
  return token.span

/-- Refuses the token under the cursor where `expected` is required. -/
def rejectCurrent (expected : String) : Parser α := do
  reject (.unexpected expected (← current))

/-- Whether the cursor is at the symbol `sign`. -/
def atSymbol (sign : Symbol) : Parser Bool := do return (← current).kind == .symbol sign

/-- Whether the cursor is at the reserved word `word`. -/
def atKeyword (word : Keyword) : Parser Bool := do return (← current).kind == .keyword word

/-- Takes the token under the cursor if `here` holds. -/
def takeIf (here : Parser Bool) : Parser Bool := do
  if ← here then
    skip 1
    return true
  return false

/-- Takes the symbol `sign` if the cursor is at it. -/
def takeSymbol (sign : Symbol) : Parser Bool := takeIf (atSymbol sign)

/-- Takes the reserved word `word` if the cursor is at it. -/
def takeKeyword (word : Keyword) : Parser Bool := takeIf (atKeyword word)

/-- Takes the symbol `sign`, which is required here. -/
def symbol (sign : Symbol) : Parser Span := do
  if ← atSymbol sign then take else rejectCurrent (TokenKind.symbol sign).description

/-- Takes the reserved word `word`, which is required here. -/
def keyword (word : Keyword) : Parser Span := do
  if ← atKeyword word then take else rejectCurrent word.text

/-- Takes a string, which is required here, and gives its value. -/
def string : Parser String := do
  match (← current).kind with
  | .string value =>
      skip 1
      return value
  | _ => rejectCurrent "string literal"

/-- The span from `start` to the end of the token taken last. -/
def spanFrom (start : Span) : Parser Span := do return start.merge (← get).cursor.previousSpan

/-- Runs `p` between two changes of the state. The second is made whether or not `p` fails. -/
def between (enter leave : State → State) (p : Parser α) : Parser α := fun s =>
  match p (enter s) with
  | .ok a t => .ok a (leave t)
  | .error e t => .error e (leave t)

/-- Runs `p` with `cost` more levels of nesting in use. -/
def nest (cost : Nat) (p : Parser α) : Parser α := do
  let s ← get
  if s.settings.nestingLimit < s.depth + cost then
    reject ⟨.tooDeep s.settings.nestingLimit, s.cursor.current.span⟩
  between (fun s => { s with depth := s.depth + cost })
    (fun s => { s with depth := s.depth - cost }) p

/-- Repeats `step` from `a` until it is done. A round that goes on uses up one of `rounds`. -/
def loopOver (step : α → Parser (ForInStep α)) : List Token → α → Parser α
  | [], a => do
      match ← step a with
      | .done a => return a
      | .yield _ => throw .outOfFuel
  | _ :: rounds, a => do
      match ← step a with
      | .done a => return a
      | .yield a => loopOver step rounds a

/-- Repeats `step` from `a` until it is done. There are as many rounds as there are tokens ahead,
which is enough if each round takes one. -/
def loop (a : α) (step : α → Parser (ForInStep α)) : Parser α := do
  loopOver step (← get).cursor.ahead a

/-- Runs `p`, which must take a token. -/
def taking (rule : String) (p : Parser α) : Parser α := do
  let before := (← get).cursor.position
  let a ← p
  if (← get).cursor.position = before then reject ⟨.noProgress rule, (← current).span⟩
  return a

/-- A list with commas between its items. The first item may have a rule of its own. -/
def commaList (rule : String) (first next : Parser α) : Parser (List α) := do
  let head ← taking rule first
  let tail ← loop [] fun items => do
    if ← takeSymbol .comma then return .yield ((← taking rule next) :: items)
    return .done items
  return head :: tail.reverse

/-- Items with commas between them. -/
def commaSeparated (rule : String) (item : Parser α) : Parser (List α) := commaList rule item item

end Parser

end SearchSql.Grammar
