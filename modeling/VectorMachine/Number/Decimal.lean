import VectorMachine.Number.Convert
import VectorMachine.Text.Basic

/-!
# The shortest decimal

A binary floating-point number is written with the fewest decimal digits that
still lie closer to it than to any other number of its format.  Of several such
decimals with that many digits the nearest is taken, and of two equally near
ones the one with the even last digit.
-/

namespace VectorMachine
namespace Number

open Float.Model (Format UnpackedFloat)
open Float.Model.UnpackedFloat (Sign)

structure Decimal where
  coefficient : Nat
  exponent : Int
deriving DecidableEq

namespace Decimal

/-!
## Rounding intervals
-/

/-- The reals that round to one positive number of a format.  The number and the
two ends of the interval are counted in units of `2 ^ unit`. -/
structure Interval where
  low : Nat
  value : Nat
  high : Nat
  unit : Int
  /-- Whether the ends round to the number too. -/
  closed : Bool

/-- The rounding interval of `mantissa · 2 ^ exponent`.  It reaches half way to
the next number on either side, and the number below a power of two is only half
as far away. -/
def Interval.of (format : Format) (mantissa : Nat) (exponent : Int) : Interval where
  low :=
    if mantissa = Nat.pow 2 format.mantissaBitsWithoutImplicit ∧
        format.minExponent < exponent then
      4 * mantissa - 1
    else
      4 * mantissa - 2
  value := 4 * mantissa
  high := 4 * mantissa + 2
  unit := exponent - 2
  closed := mantissa % 2 = 0

def Interval.scaled (i : Interval) (k : Int) (count : Nat) : Nat :=
  count * Nat.pow 2 i.unit.toNat * Nat.pow 10 (-k).toNat

def Interval.step (i : Interval) (k : Int) : Nat :=
  Nat.pow 10 k.toNat * Nat.pow 2 (-i.unit).toNat

def Interval.holds (i : Interval) (k : Int) (c : Nat) : Bool :=
  let here := c * i.step k
  if i.closed then
    i.scaled k i.low ≤ here && here ≤ i.scaled k i.high
  else
    i.scaled k i.low < here && here < i.scaled k i.high

/-- Of the two multiples of `10 ^ k` around the number, the one that lies in the
interval; of two, the nearer, and of two equally near, the even one. -/
def Interval.best? (i : Interval) (k : Int) : Option Nat :=
  let below := i.scaled k i.value / i.step k
  let gapBelow := i.scaled k i.value - below * i.step k
  let gapAbove := (below + 1) * i.step k - i.scaled k i.value
  match i.holds k below, i.holds k (below + 1) with
  | false, false => none
  | true, false => some below
  | false, true => some (below + 1)
  | true, true =>
      if gapBelow < gapAbove then some below
      else if gapAbove < gapBelow then some (below + 1)
      else if below % 2 = 0 then some below
      else some (below + 1)

def Interval.search (i : Interval) : Nat -> Int -> Decimal
  | 0, k => ⟨i.scaled k i.value / i.step k, k⟩
  | tries + 1, k =>
      match i.best? k with
      | some c => ⟨c, k⟩
      | none => i.search tries (k - 1)

/-!
## The shortest decimal of a number
-/

/-- An exponent at which `10 ^ k` exceeds `mantissa · 2 ^ exponent`, by at most a
few powers of ten: `1233 / 4096` is the decimal logarithm of two within five
millionths, and the two added make up for the error and the rounding. -/
def topExponent (mantissa : Nat) (exponent : Int) : Int :=
  ((mantissa.log2 : Int) + 1 + exponent) * 1233 / 4096 + 2

def shortest (format : Format) (mantissa : Nat) (exponent : Int) : Decimal :=
  (Interval.of format mantissa exponent).search 24 (topExponent mantissa exponent)

def digits (d : Decimal) : Text :=
  Text.ofNat d.coefficient

def leadingExponent (d : Decimal) : Int :=
  d.exponent + (d.digits.length : Int) - 1

/-!
## Texts
-/

/-- The digits with a point after the first one, and the exponent with its sign
and at least two digits. -/
def scientific (d : Decimal) : Text :=
  let lead := d.digits.take 1
  let rest := d.digits.drop 1
  let power := d.leadingExponent
  let size := Text.ofNat power.natAbs
  lead ++ (if rest.isEmpty then [] else 0x2e :: rest)
    ++ [0x65, if power < 0 then 0x2d else 0x2b]
    ++ List.replicate (2 - size.length) 0x30 ++ size

/-- The digits with the point in its place and no exponent. -/
def positional (d : Decimal) : Text :=
  let before := d.leadingExponent + 1
  if 0 ≤ d.exponent then
    d.digits ++ List.replicate d.exponent.toNat 0x30
  else if 0 < before then
    d.digits.take before.toNat ++ 0x2e :: d.digits.drop before.toNat
  else
    0x30 :: 0x2e :: List.replicate (-before).toNat 0x30 ++ d.digits

/-- Positional from four zeros after the point up to numbers of six digits, and
scientific outside. -/
def text (d : Decimal) : Text :=
  if d.leadingExponent < -4 ∨ 6 ≤ d.leadingExponent then d.scientific else d.positional

end Decimal

def textOf (format : Format) : UnpackedFloat -> Text
  | .notANumber => utf8 "NaN"
  | .infinity .positive => utf8 "+Inf"
  | .infinity .negative => utf8 "-Inf"
  | .zero .positive => utf8 "0"
  | .zero .negative => utf8 "-0"
  | .finite .positive mantissa exponent _ => (Decimal.shortest format mantissa exponent).text
  | .finite .negative mantissa exponent _ =>
      0x2d :: (Decimal.shortest format mantissa exponent).text

def text32 (x : Float32) : Text :=
  textOf .binary32 x.toModel.unpack

def text64 (x : Float) : Text :=
  textOf .binary64 x.toModel.unpack

end Number
end VectorMachine
