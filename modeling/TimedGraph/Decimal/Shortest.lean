import TimedGraph.Decimal.Binary64

/-!
# The shortest decimal that reads back

The decimals that read back as a floating-point number are those between the two
midpoints towards its neighbours; the midpoints themselves belong to it when its
mantissa is even.  Among these decimals the shortest lie on the coarsest grid
`10 ^ scale` that has a point there.  `shortest` tries the grids from the coarsest
down.  On each of them it is enough to try the two neighbours of the number,
because a grid point between the midpoints that is no neighbour has one between
itself and the number.  Of two that read back it takes the nearer, and the upper
one when both are equally near.
-/

namespace TimedGraph

/-- The decimal number `digits * 10 ^ scale`. -/
structure Decimal where
  digits : Nat
  scale : Int
  deriving DecidableEq

namespace Decimal

/-- Compares the decimal with `mantissa * 2 ^ exponent`, exactly. -/
def compareBinary (decimal : Decimal) (mantissa : Nat) (exponent : Int) : Ordering :=
  compare (decimal.digits * Nat.pow 10 decimal.scale.toNat * Nat.pow 2 (-exponent).toNat)
    (mantissa * Nat.pow 2 exponent.toNat * Nat.pow 10 (-decimal.scale).toNat)

end Decimal

namespace Magnitude

/-- Whether the number nearest to the decimal is this one. -/
def readsBack (number : Magnitude) (decimal : Decimal) : Bool :=
  let below := if number.narrowBelow then 4 * number.mantissa - 1 else 4 * number.mantissa - 2
  let above := 4 * number.mantissa + 2
  let fromBelow := decimal.compareBinary below (number.exponent - 2)
  let fromAbove := decimal.compareBinary above (number.exponent - 2)
  if number.mantissa % 2 = 0 then fromBelow != .lt && fromAbove != .gt
  else fromBelow == .gt && fromAbove == .lt

/-- The greatest multiple of `10 ^ scale` that is not above the number. -/
def floorAt (number : Magnitude) (scale : Int) : Decimal :=
  ⟨number.mantissa * Nat.pow 2 number.exponent.toNat * Nat.pow 10 (-scale).toNat /
    (Nat.pow 10 scale.toNat * Nat.pow 2 (-number.exponent).toNat), scale⟩

/-- The neighbour on the grid `10 ^ scale` that reads back, the nearer one if both do. -/
def neighbourAt? (number : Magnitude) (scale : Int) : Option Decimal :=
  let lower := number.floorAt scale
  let upper : Decimal := ⟨lower.digits + 1, scale⟩
  let middle : Decimal := ⟨10 * lower.digits + 5, scale - 1⟩
  match number.readsBack lower, number.readsBack upper with
  | true, true =>
    if middle.compareBinary number.mantissa number.exponent = .gt then some lower else some upper
  | true, false => some lower
  | false, true => some upper
  | false, false => none

/-- The coarsest grid that can have a point near a finite number. -/
def coarsestScale : Int := 309

/-- The number of grids from the coarsest down to the one finer than every gap between numbers. -/
def gridCount : Nat := 634

/-- The shortest decimal that reads back as the number, and the nearest of these. -/
def shortest (number : Magnitude) : Decimal :=
  if number.mantissa = 0 then
    ⟨0, 0⟩
  else
    ((List.range gridCount).findSome? fun (step : Nat) =>
      number.neighbourAt? (coarsestScale - step)).getD ⟨0, 0⟩

end Magnitude

/-!
## Floating-point numbers in words

A floating-point number is written with the shortest digits that read back, always
in positional notation and without a point when it is an integer.  Zero keeps its
sign; the infinities are `inf` and `-inf`; what is no number is `NaN`, without a
sign.
-/

/-- The decimal in positional notation: the digits with as many zeros after or before them as
the scale asks for. -/
def Decimal.positional (decimal : Decimal) : String :=
  let digits := toString decimal.digits
  if 0 ≤ decimal.scale then
    digits.pushn '0' decimal.scale.toNat
  else
    let places := (-decimal.scale).toNat
    let padded := ("".pushn '0' (places + 1 - digits.length) ++ digits).toList
    let whole := padded.length - places
    String.ofList (padded.take whole) ++ "." ++ String.ofList (padded.drop whole)

/-- The number in words. -/
def Binary64.text (number : Binary64) : String :=
  let sign := if number.isNegative then "-" else ""
  match number.magnitude? with
  | some magnitude => sign ++ magnitude.shortest.positional
  | none => if number.isNaN then "NaN" else sign ++ "inf"

end TimedGraph
