/-!
# Binary floating-point data

A datum of a binary interchange format is a sign, an exponent field and a fraction field. A
finite datum denotes `significand * 2 ^ exponent`, and the reals that round to it form an
interval reaching half a unit to either side, or a quarter below a power of two, where the
neighbours are closer together.

## Main definitions

* `BinaryFormat` — the field widths, with `BinaryFormat.single` and `BinaryFormat.double`
* `BinaryNumber` — a datum with its fields interpreted
* `BinaryFormat.decode` — reads a bit pattern
-/

namespace RobotPuzzle

/-- The widths of the fields of a binary interchange format. -/
structure BinaryFormat where
  exponentBits : Nat
  fractionBits : Nat
  deriving DecidableEq, Repr

/-- A non-negative finite number `significand * 2 ^ exponent`. `tightBelow` says that the next
smaller number is only half as far away as the next larger one. -/
structure Dyadic where
  significand : Nat
  exponent : Int
  tightBelow : Bool
  deriving DecidableEq, Repr

/-- The meaning of a bit pattern. -/
inductive BinaryNumber
  | nan
  | infinite (negative : Bool)
  | finite (negative : Bool) (magnitude : Dyadic)
  deriving DecidableEq, Repr

namespace BinaryFormat

/-- Single precision. -/
def single : BinaryFormat := ⟨8, 23⟩

/-- Double precision. -/
def double : BinaryFormat := ⟨11, 52⟩

/-- The exponent of the last fraction bit when the exponent field is 1. -/
def leastExponent (f : BinaryFormat) : Int :=
  2 - Nat.pow 2 (f.exponentBits - 1) - f.fractionBits

/-- Reads a bit pattern. An exponent field of ones stands for an infinity or no number at all,
and a field of zeros leaves out the implied leading bit. -/
def decode (f : BinaryFormat) (bits : Nat) : BinaryNumber :=
  let fractions := Nat.pow 2 f.fractionBits
  let fields := Nat.pow 2 f.exponentBits
  let fraction := bits % fractions
  let field := bits / fractions % fields
  let negative := bits / (fractions * fields) % 2 == 1
  if field = fields - 1 then
    if fraction = 0 then .infinite negative else .nan
  else if field = 0 then
    .finite negative ⟨fraction, f.leastExponent, false⟩
  else
    .finite negative
      ⟨fractions + fraction, f.leastExponent + (field - 1 : Nat),
        fraction == 0 && 1 < field⟩

end BinaryFormat

end RobotPuzzle
