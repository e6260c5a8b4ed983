import SearchSql.Json.Reader
import SearchSql.Number.Integer
import SearchSql.Settings.Basic

/-!
# Settings as a document

Settings may be given as a JSON document: an object with any of the members `max_depth`, `recover`
and `max_diagnostics`, or a list of their values in this order. What is missing has its standard
value. Other members are passed over, but none of the three may be given twice.
-/

set_option autoImplicit false

namespace SearchSql.Settings

open Json (Reader)

/-- The values found so far, in the order of the list form. -/
structure Given where
  maxDepth : Option Nat
  recover : Option Bool
  maxDiagnostics : Option Nat

/-- The settings with standard values for what was not given. -/
def Given.settings (g : Given) : Settings where
  maxDepth := g.maxDepth.getD standard.maxDepth
  recover := g.recover.getD standard.recover
  maxDiagnostics := g.maxDiagnostics.getD standard.maxDiagnostics

/-- An unsigned 64-bit integer, written without fraction and exponent. -/
def natural : Reader Nat := do
  let _ ← Json.ahead
  let value := Number.digitsValue 0 (← Json.wholeNumber)
  if value < Number.unsignedBound then return value else failure

/-- Reads the member named `name` behind its colon; one given before is refused. -/
def member (g : Given) (name : String) : Reader Given := do
  match name with
  | "max_depth" =>
      if g.maxDepth.isSome then failure
      return { g with maxDepth := some (← natural) }
  | "recover" =>
      if g.recover.isSome then failure
      return { g with recover := some (← Json.bool) }
  | "max_diagnostics" =>
      if g.maxDiagnostics.isSome then failure
      return { g with maxDiagnostics := some (← natural) }
  | _ =>
      Json.skipValue
      return g

/-- Reads members and the closing brace, at most `fuel` of them. -/
def members : Nat → Given → Reader Given
  | 0, _ => failure
  | fuel + 1, g => do
      let name ← Json.string
      Json.expect ':'
      let g ← member g name
      if (← Json.ahead) = ',' then
        Json.expect ','
        members fuel g
      else
        Json.expect '\x7d'
        return g

/-- Reads the value of the list form at `index`. -/
def element (g : Given) (index : Nat) : Reader Given := do
  match index with
  | 0 => return { g with maxDepth := some (← natural) }
  | 1 => return { g with recover := some (← Json.bool) }
  | 2 => return { g with maxDiagnostics := some (← natural) }
  | _ => failure

/-- Reads elements from `index` on and the closing bracket. -/
def elements : Nat → Nat → Given → Reader Given
  | 0, _, _ => failure
  | fuel + 1, index, g => do
      let g ← element g index
      if (← Json.ahead) = ',' then
        Json.expect ','
        elements fuel (index + 1) g
      else
        Json.expect ']'
        return g

/-- Reads an object or a list. -/
def given : Reader Given := do
  let nothing : Given := ⟨none, none, none⟩
  match ← Json.next with
  | '\x7b' =>
      if (← Json.ahead) = '\x7d' then
        Json.expect '\x7d'
        return nothing
      else members ((← get).length + 1) nothing
  | '[' =>
      if (← Json.ahead) = ']' then
        Json.expect ']'
        return nothing
      else elements 3 0 nothing
  | _ => failure

/-- The settings that the document `text` gives, if it is one. -/
def ofDocument? (text : String) : Option Settings :=
  ((do
    let g ← given
    if ← Json.atEnd then return g.settings else failure : Reader Settings).run' text.toList)

end SearchSql.Settings
