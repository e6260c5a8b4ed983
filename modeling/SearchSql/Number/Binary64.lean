/-!
# Binary64 numbers

A real literal denotes an IEEE 754 binary64 number, kept here as its sign and the lower 63 bits of
its word. Of these the upper 11 are the exponent field and the lower 52 the fraction, so that
comparing the 63-bit magnitudes compares absolute values, and a carry out of the fraction moves into
the exponent by itself.

`Binary64.ofDecimal` rounds a decimal number to the nearest binary64 number, an exact tie to the
even one; it works on exact integers throughout.
-/

set_option autoImplicit false

namespace SearchSql.Number

-- Powers are those of the core library, whatever else is in scope.
attribute [local instance (2000)] instPowNat

/-- A binary64 number: its sign and the lower 63 bits of its word. -/
structure Binary64 where
  negative : Bool
  magnitude : Nat
  deriving DecidableEq, Inhabited, Repr

/-- `num / den` rounded to the nearest integer, an exact half to the even neighbour. -/
def roundHalfEven (num den : Nat) : Nat :=
  let whole := num / den
  let twice := 2 * (num % den)
  if den < twice ∨ (twice = den ∧ whole % 2 = 1) then whole + 1 else whole

namespace Binary64

/-- The least magnitude that is no finite number. -/
def infinity : Nat := 2047 * 2 ^ (52 : Nat)

/-- Whether the number is neither infinite nor undefined. -/
def isFinite (x : Binary64) : Bool := x.magnitude < infinity

/-- Whether the number is a zero of either sign. -/
def isZero (x : Binary64) : Bool := x.magnitude == 0

/-- The exponent field. -/
def exponentField (x : Binary64) : Nat := x.magnitude / 2 ^ (52 : Nat)

/-- The integer that the absolute value is a multiple of a power of two by. -/
def significand (x : Binary64) : Nat :=
  if x.exponentField = 0 then x.magnitude else 2 ^ (52 : Nat) + x.magnitude % 2 ^ (52 : Nat)

/-- The exponent of that power of two. -/
def scale (x : Binary64) : Int :=
  if x.exponentField = 0 then -1074 else (x.exponentField : Int) - 1075

/-- The whole 64-bit word. -/
def word (x : Binary64) : Nat := if x.negative then 2 ^ (63 : Nat) + x.magnitude else x.magnitude

/-- The exponent of the highest power of two that `num / den` reaches, for positive `num` and
`den`. -/
def floorLog2 (num den : Nat) : Int :=
  let estimate : Int := (Nat.log2 num : Int) - Nat.log2 den
  if num * 2 ^ (-estimate).toNat < den * 2 ^ estimate.toNat then estimate - 1 else estimate

/-- The magnitude nearest to `num / den`; it may be beyond every finite one. -/
def magnitudeOfRatio (num den : Nat) : Nat :=
  let unit := max (floorLog2 num den - 52) (-1074)
  (unit + 1074).toNat * 2 ^ (52 : Nat) +
    roundHalfEven (num * 2 ^ (-unit).toNat) (den * 2 ^ unit.toNat)

/-- The magnitude nearest to `mantissa * 10 ^ exponent`. A value of `10 ^ 310` or more is beyond
every finite magnitude and one below `10 ^ -330` rounds to zero, so neither has to be computed. -/
def magnitudeOfDecimal (mantissa : Nat) (exponent : Int) : Nat :=
  if mantissa = 0 ∨ (Nat.log2 mantissa / 3 : Nat) + 2 + exponent < -330 then 0
  else if 310 < exponent then infinity
  else magnitudeOfRatio (mantissa * 10 ^ exponent.toNat) (10 ^ (-exponent).toNat)

/-- The number nearest to `± mantissa * 10 ^ exponent`. -/
def ofDecimal (negative : Bool) (mantissa : Nat) (exponent : Int) : Binary64 :=
  ⟨negative, magnitudeOfDecimal mantissa exponent⟩

end Binary64

end SearchSql.Number
