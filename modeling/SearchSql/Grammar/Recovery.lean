import SearchSql.Grammar.Parser

/-!
# Reporting errors and going on

A failed rule either ends the parse or becomes a diagnostic, depending on the settings and on
whether an attempt is under way. After a diagnostic the cursor moves to the next boundary: the end
of the input, a semicolon, a word that starts a clause, or the parenthesis that closes the innermost
open query. `boundaryDistance` finds it, passing over whole parentheses.

A second diagnostic at the offset of the one before is dropped.
-/

set_option autoImplicit false

namespace SearchSql.Grammar

/-- Whether a clause may end in front of a token of this kind. A closing parenthesis is a boundary
only inside a query in parentheses. -/
def isBoundary (insideParens : Bool) : TokenKind → Bool
  | .endOfInput => true
  | .symbol .semicolon => true
  | .symbol .rightParen => insideParens
  | .keyword word => word.startsClause
  | _ => false

/-- The parentheses open after a token of this kind, if `opened` are open in front of it. A
parenthesis that closes nothing does not count. -/
def openAfter (opened : Nat) : TokenKind → Nat
  | .symbol .leftParen => opened + 1
  | .symbol .rightParen => opened - 1
  | _ => opened

/-- The number of tokens in front of the next boundary that is in no parenthesis opened on the way,
or of the end of the input. -/
def boundaryDistance (insideParens : Bool) : Nat → List Token → Nat
  | _, [] => 0
  | opened, t :: ts =>
      if t.isEnd || (opened == 0 && isBoundary insideParens t.kind) then 0
      else boundaryDistance insideParens (openAfter opened t.kind) ts + 1

theorem boundaryDistance_le_length (insideParens : Bool) (opened : Nat) (tokens : List Token) :
    boundaryDistance insideParens opened tokens ≤ tokens.length := by
  induction tokens generalizing opened with
  | nil => exact Nat.le_refl 0
  | cons t ts ih =>
    unfold boundaryDistance
    split
    · exact Nat.zero_le _
    · exact Nat.succ_le_succ (ih _)

/-- Whether the cursor is at a boundary. -/
def State.atBoundary (s : State) : Bool := isBoundary (0 < s.subqueries) s.cursor.current.kind

namespace Parser

variable {α : Type}

/-- Moves the cursor to the next boundary. -/
def synchronize : Parser Unit := do
  let s ← get
  let distance := boundaryDistance (0 < s.subqueries) 0 s.cursor.ahead
  skip distance
  note (.resynchronized distance (← current).kind)

/-- Adds a diagnostic, unless the last one is at the same offset. Fails when the settings allow no
more of them. -/
def report (d : Diagnostic) : Parser Unit := do
  if (← get).lastReported = some d.span.start then note (.duplicateSuppressed d.span.start)
  else
    modify fun s =>
      { s with lastReported := some d.span.start, diagnostics := d :: s.diagnostics }
    let s ← get
    if s.settings.maxDiagnostics ≤ s.diagnostics.length then
      reject ⟨.tooMany s.settings.maxDiagnostics, s.cursor.current.span⟩

/-- Adds a diagnostic about a literal that is kept in the tree, or fails with it where nothing is
recovered from. -/
def reportLiteral (d : Diagnostic) : Parser Unit := do
  if (← get).settings.recover then report d else reject d

/-- Adds a diagnostic and moves on to the next boundary, or fails with it where nothing is recovered
from. -/
def passOver (d : Diagnostic) : Parser Unit := do
  if !d.isFatal && (← get).isRecovering then
    report d
    synchronize
  else reject d

/-- Runs `p` so that its failure is reported and passed over, if it can be. -/
def recover (p : Parser α) : Parser (Option α) := fun s =>
  match p s with
  | .ok a s => .ok (some a) s
  | .error (.rejected d) s => (do passOver d; return none : Parser (Option α)) s
  | .error .outOfFuel s => .error .outOfFuel s

/-- Requires a boundary. -/
def clauseEnd : Parser Unit := do
  if !(← get).atBoundary then
    passOver (.unexpected "clause keyword or end of statement" (← current))

/-- Runs `p` as an attempt: if it fails, the cursor, the diagnostics and the place of the last one
are as they were before. -/
def attempt (rule : String) (p : Parser α) : Parser (Option α) := fun s =>
  let enter (t : State) : State := { t with attempts := t.attempts + 1 }
  let leave (t : State) : State := { t with attempts := t.attempts - 1 }
  match between enter leave p s with
  | .ok a t => .ok (some a) t
  | .error (.rejected d) t =>
      .ok none
        { t with
          cursor := s.cursor
          diagnostics := s.diagnostics
          lastReported := s.lastReported
          events := .attemptUndone rule d :: t.events }
  | .error .outOfFuel t => .error .outOfFuel t

end Parser

end SearchSql.Grammar
