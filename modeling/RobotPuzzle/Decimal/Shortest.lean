import RobotPuzzle.Decimal.Binary

/-!
# Shortest decimals

The shortest decimal of a binary number is the decimal with the fewest digits among those that
round to it; of several with the same number of digits it is the nearest. On each grid of
decimals with a given last place only the two neighbours of the number need to be tried: if any
point of the grid rounds to the number, one of these does.

## Main definitions

* `Decimal` — digits and the place of the last one
* `Dyadic.shortest` — the shortest decimal of a number
* `Decimal.positional` — a decimal written without an exponent
* `BinaryNumber.text`, `BinaryNumber.pointedText` — the written form of any number
-/

namespace RobotPuzzle

/-- The number `digits * 10 ^ place`. -/
structure Decimal where
  digits : Nat
  place : Int
  deriving DecidableEq, Repr

/-- A number between two bounds, all over one denominator; `closed` says that the bounds
themselves round to the number. -/
structure RoundingInterval where
  lower : Nat
  value : Nat
  upper : Nat
  denominator : Nat
  closed : Bool
  deriving DecidableEq, Repr

namespace RoundingInterval

/-- Multiplies the interval by `10 ^ place`. -/
def scale (i : RoundingInterval) (place : Int) : RoundingInterval :=
  if place < 0 then
    { i with denominator := i.denominator * Nat.pow 10 place.natAbs }
  else
    let factor := Nat.pow 10 place.toNat
    { i with lower := i.lower * factor, value := i.value * factor, upper := i.upper * factor }

/-- Whether the integer `n` lies in the interval. -/
def holds (i : RoundingInterval) (n : Nat) : Bool :=
  let m := n * i.denominator
  if i.closed then i.lower ≤ m && m ≤ i.upper else i.lower < m && m < i.upper

/-- The integer next to the value that lies in the interval, the nearer one if both do and the
larger one if they are equally near. -/
def nearest? (i : RoundingInterval) : Option Nat :=
  let below := i.value / i.denominator
  let rest := i.value % i.denominator
  match i.holds below, i.holds (below + 1) with
  | true, true => some (if 2 * rest < i.denominator then below else below + 1)
  | true, false => some below
  | false, true => some (below + 1)
  | false, false => none

/-- The number of digits before the point, zero or less for values under one. -/
def integerDigits (i : RoundingInterval) : Int :=
  let guess : Int := (toString i.value).length - (toString i.denominator).length
  let scaled := i.scale (-guess)
  if scaled.denominator ≤ scaled.value then guess + 1 else guess

end RoundingInterval

namespace Dyadic

/-- The reals that round to a number, in quarters of the unit in the last place. -/
def interval (d : Dyadic) : RoundingInterval :=
  let m := 4 * d.significand
  let unit := Nat.pow 2 (d.exponent - 2).toNat
  { lower := (m - if d.tightBelow then 1 else 2) * unit
    value := m * unit
    upper := (m + 2) * unit
    denominator := Nat.pow 2 (2 - d.exponent).toNat
    closed := d.significand % 2 == 0 }

/-- Tries the grids with `n`, `n + 1`, … digits, `more` of them. -/
def shortestFrom (i : RoundingInterval) (width : Int) (n : Nat) : Nat → Decimal
  | 0 => ⟨0, 0⟩
  | more + 1 =>
    match (i.scale (n - width)).nearest? with
    | some digits => ⟨digits, width - n⟩
    | none => shortestFrom i width (n + 1) more

/-- The shortest decimal that rounds to a number. Seventeen digits tell all numbers of double
precision apart. -/
def shortest (d : Dyadic) : Decimal :=
  if d.significand = 0 then ⟨0, 0⟩
  else shortestFrom d.interval d.interval.integerDigits 1 17

end Dyadic

namespace Decimal

/-- A decimal without an exponent, filled up with zeros on the side of the point where digits
are wanting, and without zeros at the end of its fraction. -/
def positional (d : Decimal) : String :=
  let digits := (toString d.digits).toList
  let places := (-d.place).toNat
  let padded :=
    List.replicate (places + 1 - digits.length) '0' ++ digits ++ List.replicate d.place.toNat '0'
  let whole := padded.length - places
  let fraction := ((padded.drop whole).reverse.dropWhile (· == '0')).reverse
  String.ofList (padded.take whole ++ if fraction.isEmpty then [] else '.' :: fraction)

end Decimal

namespace BinaryNumber

/-- A number in full: a sign also before zero, the shortest decimal of a finite number, and the
words `inf` and `NaN`. -/
def text : BinaryNumber → String
  | nan => "NaN"
  | infinite negative => (if negative then "-" else "") ++ "inf"
  | finite negative d => (if negative then "-" else "") ++ d.shortest.positional

/-- Whether the number is neither infinite nor missing. -/
def isFinite : BinaryNumber → Bool
  | finite .. => true
  | _ => false

/-- A number written so that it cannot be taken for an integer: a finite one has a point. -/
def pointedText (n : BinaryNumber) : String :=
  if n.isFinite && !n.text.toList.contains '.' then n.text ++ ".0" else n.text

end BinaryNumber

end RobotPuzzle
