/-!
# Settings of a parse

Three settings bound a parse: how deep expressions may nest, whether errors are recovered from, and
how many diagnostics are collected. `Settings.fault?` tells which settings are of no use; the parser
runs with any, and takes a depth above the ceiling for the ceiling.
-/

set_option autoImplicit false

namespace SearchSql

/-- The settings of a single parse. -/
structure Settings where
  /-- Units of nesting: one for each operand or parenthesised expression, one more for a call, two
  for a query in parentheses. -/
  maxDepth : Nat
  /-- Whether to recover from errors and go on. -/
  recover : Bool
  /-- The number of diagnostics at which the parse gives up. -/
  maxDiagnostics : Nat
  deriving DecidableEq, Repr

/-- Why settings are of no use. -/
inductive SettingsFault where
  | zeroMaxDepth
  | maxDepthTooLarge (maxDepth : Nat)
  | zeroMaxDiagnostics
  deriving DecidableEq, Repr

namespace Settings

/-- The greatest depth that takes effect. -/
def depthCeiling : Nat := 128

/-- The settings used unless others are given. -/
def standard : Settings := ⟨64, true, 100⟩

/-- The standard settings without recovery. -/
def strict : Settings := { standard with recover := false }

/-- The units of nesting that a parse may use. -/
def nestingLimit (s : Settings) : Nat := min s.maxDepth depthCeiling

/-- The first fault of the settings, if they have one. -/
def fault? (s : Settings) : Option SettingsFault :=
  if s.maxDepth = 0 then some .zeroMaxDepth
  else if depthCeiling < s.maxDepth then some (.maxDepthTooLarge s.maxDepth)
  else if s.maxDiagnostics = 0 then some .zeroMaxDiagnostics
  else none

theorem fault?_eq_none_iff (s : Settings) :
    s.fault? = none ↔ 0 < s.maxDepth ∧ s.maxDepth ≤ depthCeiling ∧ 0 < s.maxDiagnostics := by
  unfold fault?
  grind

end Settings

/-- The fault in words. -/
def SettingsFault.message : SettingsFault → String
  | .zeroMaxDepth => "max_depth must be at least 1"
  | .maxDepthTooLarge maxDepth =>
      "max_depth " ++ toString maxDepth ++ " exceeds the ceiling of " ++
        toString Settings.depthCeiling
  | .zeroMaxDiagnostics => "max_diagnostics must be at least 1"

end SearchSql
