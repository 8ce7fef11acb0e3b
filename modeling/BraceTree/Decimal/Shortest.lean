/-!
# The shortest decimal that reads back

A double is a whole number `m` of units `2^q`, and a decimal reads back as that double when it lies
in the interval of numbers that round to it: half a unit to either side, the ends included when `m`
is even, and only a quarter of a unit downwards from a power of two, where the doubles below stand
closer.

Among the decimals that read back one wants the one with the fewest digits. All decimals with a
given last place form a grid, the coarser the fewer digits they have, so the search goes from
coarse grids to fine ones and stops at the first grid with a point in the interval. Only the two
grid points next to the double matter, since the interval holds the double itself. Everything is
decided in whole numbers.
-/

namespace BraceTree.Decimal

/-- A double, taken apart. -/
inductive Shape where
  /-- No number. -/
  | nan
  /-- One of the two infinities. -/
  | infinite (negative : Bool)
  /-- The number `m * 2^q` with a sign, which zero has as well. -/
  | finite (negative : Bool) (m : Nat) (q : Int)

/-- Takes a double apart along the fields of its bits. -/
def Shape.ofFloat (x : Float) : Shape :=
  let bits := x.toBits.toNat
  let negative := decide (bits / Nat.pow 2 63 = 1)
  let exponent : Nat := bits / Nat.pow 2 52 % Nat.pow 2 11
  let fraction : Nat := bits % Nat.pow 2 52
  if exponent = 0x7FF then (if fraction = 0 then .infinite negative else .nan)
  else if exponent = 0 then .finite negative fraction (-1074)
  else .finite negative (Nat.pow 2 52 + fraction) (exponent - 1075)

/-- The point with the last place `10^place` that reads back as `m * 2^q` and lies nearest to it, as
a number of such places. Of two points equally near the upper one is taken. -/
def gridPoint? (m : Nat) (q : Int) (place : Int) : Option Nat :=
  let quarter := q - 2
  -- in quarters of a unit; one quarter is `scale / unit` places
  let scale := Nat.pow 2 quarter.toNat * Nat.pow 10 (-place).toNat
  let unit := Nat.pow 2 (-quarter).toNat * Nat.pow 10 place.toNat
  let low := if m = Nat.pow 2 52 ∧ q ≠ -1074 then 4 * m - 1 else 4 * m - 2
  let high := 4 * m + 2
  let readsBack (k : Nat) : Bool :=
    if m % 2 = 0 then low * scale ≤ k * unit && k * unit ≤ high * scale
    else low * scale < k * unit && k * unit < high * scale
  let below := 4 * m * scale / unit
  let belowDistance := 4 * m * scale - below * unit
  let aboveDistance := (below + 1) * unit - 4 * m * scale
  match readsBack below, readsBack (below + 1) with
  | true, true => some (if belowDistance < aboveDistance then below else below + 1)
  | true, false => some below
  | false, true => some (below + 1)
  | false, false => none

/-- The shortest decimal that reads back as `m * 2^q`: its digits as a number and the power of ten
of the last of them. The coarsest place a double can need is `10^309`, the finest is `10^-324`. -/
def shortest (m : Nat) (q : Int) : Nat × Int :=
  ((List.range 640).findSome? fun (step : Nat) =>
    let place : Int := 309 - (step : Int)
    (gridPoint? m q place).map fun k => (k, place)).getD (0, 0)

/-- A decimal written out with all its places and no exponent. -/
def positional (digits : Nat) (place : Int) : String :=
  let text := (Nat.toDigits 10 digits)
  if 0 ≤ place then String.ofList (text ++ List.replicate place.toNat '0')
  else
    let places := (-place).toNat
    let padded := List.replicate (places + 1 - text.length) '0' ++ text
    String.ofList (padded.take (padded.length - places) ++ '.' ::
      padded.drop (padded.length - places))

/-- A decimal written as one digit, the further digits behind a point, and the power of ten. -/
def scientific (digits : Nat) (place : Int) : String :=
  let text := Nat.toDigits 10 digits
  let exponent : Int := place + (text.length - 1 : Nat)
  let mantissa := match text with
    | [] => []
    | [d] => [d]
    | d :: ds => d :: '.' :: ds
  String.ofList mantissa ++ "e" ++ toString exponent

end BraceTree.Decimal
