import SearchSql.Number.Binary64

/-!
# Shortest decimal digits

Every decimal number close enough to a binary64 number is read back as that number. `shortest` picks
one with the fewest digits, and of those the nearest; an exact tie goes to the larger.

The numbers that read back form an interval around the value, whose ends belong to it exactly if the
significand is even. For each count of digits there are two candidates, the neighbours of the value
among the numbers with that many digits, and the first count with a candidate in the interval wins.
-/

set_option autoImplicit false

namespace SearchSql.Number

-- Powers are those of the core library, whatever else is in scope.
attribute [local instance (2000)] instPowNat

/-- The decimal number `digits * 10 ^ exponent`. -/
structure Decimal where
  digits : Nat
  exponent : Int
  deriving DecidableEq, Repr

/-- The number of decimal digits of `n`. -/
def digitCount (n : Nat) : Nat := (Nat.toDigits 10 n).length

/-- The number of decimal digits before the point of `num / den`; zero or negative for a number
below one tenth, by the zeros after its point. -/
def pointPosition (num den : Nat) : Int :=
  let estimate : Int := (digitCount num : Int) - digitCount den
  if den * 10 ^ estimate.toNat ≤ num * 10 ^ (-estimate).toNat then estimate + 1 else estimate

/-- The absolute values that read back as one number: from `low` to `high` around `value`, all three
over the denominator `den`, with the ends included or not. -/
structure ReadBack where
  low : Nat
  value : Nat
  high : Nat
  den : Nat
  closed : Bool

/-- The interval that reads back as `x`. Its lower half is narrower where `x` is the least number of
its exponent. -/
def Binary64.readBack (x : Binary64) : ReadBack :=
  let m := x.significand
  let below := if m = 2 ^ (52 : Nat) ∧ 1 < x.exponentField then 1 else 2
  let unit := 2 ^ (x.scale - 2).toNat
  ⟨(4 * m - below) * unit, 4 * m * unit, (4 * m + 2) * unit, 2 ^ (2 - x.scale).toNat, m % 2 = 0⟩

/-- The better of the two neighbours of the value among the multiples of `10 ^ exponent`, if one
reads back. -/
def ReadBack.neighbour? (r : ReadBack) (exponent : Int) : Option Decimal :=
  let fine := 10 ^ (-exponent).toNat
  let step := r.den * 10 ^ exponent.toNat
  let below := r.value * fine / step
  let reaches (a b : Nat) : Bool := if r.closed then a ≤ b else a < b
  let down := reaches (r.low * fine) (below * step)
  let up := reaches ((below + 1) * step) (r.high * fine)
  let upNearer : Bool := (below + 1) * step - r.value * fine ≤ r.value * fine - below * step
  if up && (!down || upNearer) then some ⟨below + 1, exponent⟩
  else if down then some ⟨below, exponent⟩
  else none

/-- Without the zero at the end that a single digit leaves when it rounds up to ten. -/
def Decimal.trim (d : Decimal) : Decimal :=
  if d.digits % 10 = 0 then ⟨d.digits / 10, d.exponent + 1⟩ else d

/-- The shortest decimal number that reads back as the absolute value of `x`, which is finite and
not zero. Seventeen digits always suffice. -/
def shortest (x : Binary64) : Decimal :=
  let r := x.readBack
  let point := pointPosition r.value r.den
  match (List.range 17).findSome? fun n => r.neighbour? (point - (n + 1 : Nat)) with
  | some d => d.trim
  | none => ⟨r.value * 10 ^ (17 - point).toNat / (r.den * 10 ^ (point - 17).toNat), point - 17⟩

end SearchSql.Number
