import SearchSql.Number.Shortest

/-!
# Layout of real numbers

`Layout` collects every decision about how the shortest digits of a number are written: for which
magnitudes the point is placed among the digits instead of giving an exponent, and whether a whole
number keeps a point. The three layouts in use differ only in these fields.
-/

set_option autoImplicit false

namespace SearchSql.Number

/-- How real numbers are written. The point is placed among the digits if its position, counted from
the first digit, lies between `leastPoint` and `greatestPoint`; a missing bound allows all. -/
structure Layout where
  leastPoint : Option Int
  greatestPoint : Option Int
  wholePoint : Bool

namespace Layout

/-- Literals are written with an exponent below `0.0001` and from `10 ^ 16` on, and always show that
they are real. -/
def literal : Layout := ⟨some (-3), some 16, true⟩

/-- Weights are written without an exponent, and whole ones like integers. -/
def weight : Layout := ⟨none, none, false⟩

/-- Numbers of a document are written with an exponent below `0.00001` and from `10 ^ 16` on. -/
def document : Layout := ⟨some (-4), some 16, true⟩

/-- Whether a point at `point` is placed among the digits. -/
def isPositional (layout : Layout) (point : Int) : Bool :=
  layout.leastPoint.all (· ≤ point) && layout.greatestPoint.all (point ≤ ·)

/-- The digits `ds` with the point after the first `point` of them, or before them at a distance. -/
def positional (layout : Layout) (ds : List Char) (point : Int) : List Char :=
  if point ≤ 0 then '0' :: '.' :: (List.replicate (-point).toNat '0' ++ ds)
  else if ds.length ≤ point.toNat then
    ds ++ List.replicate (point.toNat - ds.length) '0' ++
      (if layout.wholePoint then ['.', '0'] else [])
  else ds.take point.toNat ++ '.' :: ds.drop point.toNat

/-- The digits `ds` with the point after the first, followed by the exponent. -/
def scientific (ds : List Char) (point : Int) : List Char :=
  let mantissa :=
    match ds with
    | d :: e :: rest => d :: '.' :: e :: rest
    | single => single
  mantissa ++ 'e' :: (toString (point - 1)).toList

/-- The absolute value of a finite number. -/
def magnitude (layout : Layout) (x : Binary64) : List Char :=
  if x.isZero then '0' :: (if layout.wholePoint then ['.', '0'] else [])
  else
    let decimal := shortest x
    let ds := Nat.toDigits 10 decimal.digits
    let point : Int := ds.length + decimal.exponent
    if layout.isPositional point then layout.positional ds point else scientific ds point

/-- A finite number as text. -/
def text (layout : Layout) (x : Binary64) : String :=
  String.ofList ((if x.negative then ['-'] else []) ++ layout.magnitude x)

end Layout

end SearchSql.Number
