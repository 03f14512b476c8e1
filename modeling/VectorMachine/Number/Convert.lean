/-!
# Single and double precision

Lanes hold single-precision numbers, and most kernels work in double precision
and round once at the end.  This module holds the exact passages between the two
formats and the operations whose result is exact: rounding to an integer, the
remainder, and splitting a number into a fraction and a power of two.

Every function unpacks a number into sign, mantissa and exponent, computes with
integers, and packs the result, so that each rounding is in plain sight.
-/

namespace VectorMachine
namespace Number

open Float.Model (Format UnpackedFloat)
open Float.Model.UnpackedFloat (Sign)

/-!
## Between the formats
-/

/-- Round a number to the given format, to nearest with ties to even. -/
def refit (format : Format) : UnpackedFloat -> UnpackedFloat
  | .finite sign mantissa exponent _ => .round format sign mantissa exponent
  | special => special

def widen (x : Float32) : Float :=
  .ofModel (.pack (refit .binary64 x.toModel.unpack))

/-- The nearest single-precision number, ties to even; beyond the range of the
format, an infinity. -/
def narrow (x : Float) : Float32 :=
  .ofModel (.pack (refit .binary32 x.toModel.unpack))

def nan : Float := Float.ofBits 0x7ff8000000000000

def infinity : Float := Float.ofBits 0x7ff0000000000000

/-- Whether the sign bit is set, which tells the two zeros apart. -/
def isNegative (x : Float) : Bool :=
  x.toBits >>> 63 != 0

/-- The magnitude of the first number with the sign of the second. -/
def withSignOf (magnitude sign : Float) : Float :=
  if isNegative sign then -magnitude.abs else magnitude.abs

/-!
## The nearest number to a quotient
-/

/-- The number of the format nearest to `num / den`, ties to even.  The quotient
is taken to two bits more than the format holds, and one further bit records
whether anything was left over, which decides every tie. -/
def ofRatio (format : Format) (sign : Sign) (num den : Nat) : UnpackedFloat :=
  if num = 0 then .zero sign
  else
    let shift : Int := format.mantissaBits + 2 + den.log2 - num.log2
    let top := num <<< shift.toNat
    let bottom := den <<< (-shift).toNat
    let rest := if top % bottom = 0 then 0 else 1
    .round format sign (2 * (top / bottom) + rest) (-shift - 1)

/-- The number of the format nearest to `mantissa · base ^ exponent`. -/
def ofScaled (format : Format) (sign : Sign) (mantissa base : Nat) (exponent : Int) :
    UnpackedFloat :=
  ofRatio format sign (mantissa * Nat.pow base exponent.toNat) (Nat.pow base (-exponent).toNat)

/-!
## Rounding to an integer
-/

inductive Direction where
  | down
  | up
  | towardZero
deriving DecidableEq

def Direction.growsMagnitude : Direction -> Sign -> Bool
  | .down, .negative => true
  | .up, .positive => true
  | _, _ => false

/-- The neighbouring integer in the given direction, as a number of the format.
A result of zero keeps the sign of the argument. -/
def integral (format : Format) (direction : Direction) : UnpackedFloat -> UnpackedFloat
  | .finite sign mantissa exponent positive =>
      if 0 ≤ exponent then
        .finite sign mantissa exponent positive
      else
        let unit := Nat.pow 2 (-exponent).toNat
        let whole := mantissa / unit
        let grown :=
          if mantissa % unit ≠ 0 ∧ direction.growsMagnitude sign then whole + 1 else whole
        if grown = 0 then .zero sign else .round format sign grown 0
  | special => special

def floor (x : Float) : Float :=
  .ofModel (.pack (integral .binary64 .down x.toModel.unpack))

def ceil (x : Float) : Float :=
  .ofModel (.pack (integral .binary64 .up x.toModel.unpack))

def trunc (x : Float) : Float :=
  .ofModel (.pack (integral .binary64 .towardZero x.toModel.unpack))

def toInt? (x : Float) : Option Int :=
  match x.toModel.unpack with
  | .zero _ => some 0
  | .finite sign mantissa exponent _ =>
      if 0 ≤ exponent then
        some (sign.apply (mantissa <<< exponent.toNat))
      else if mantissa % Nat.pow 2 (-exponent).toNat = 0 then
        some (sign.apply (mantissa / Nat.pow 2 (-exponent).toNat))
      else
        none
  | _ => none

/-- The integer that a finite number is cut to, toward zero. -/
def truncToInt (x : Float) : Int :=
  (toInt? (trunc x)).getD 0

/-!
## Fused product and sum

A sum or a product is split without loss into the number that it rounds to and
the number that is missing.
-/

/-- The sum of two numbers: rounded, and what is missing. -/
def twoSum (x y : Float) : Float × Float :=
  let sum := x + y
  let added := sum - x
  (sum, (x - (sum - added)) + (y - added))

def halves (x : Float) : Float × Float :=
  let shifted := 134217729 * x
  let high := shifted - (shifted - x)
  (high, x - high)

/-- The product of two numbers: rounded, and what is missing. -/
def twoProduct (x y : Float) : Float × Float :=
  let product := x * y
  let (a, b) := halves x
  let (c, d) := halves y
  (product, ((a * c - product) + a * d + b * c) + b * d)

/-- The sum of two numbers, rounded to the neighbour with an odd last digit where
it is inexact.  A further rounding to fewer digits is then right. -/
def sumToOdd (x y : Float) : Float :=
  let (sum, missing) := twoSum x y
  if missing == 0 || sum.toBits % 2 == 1 then sum
  else if (0 < missing) == (0 < sum) then Float.ofBits (sum.toBits + 1)
  else Float.ofBits (sum.toBits - 1)

/-- The first number times the second, plus the third, rounded once; for numbers
whose product neither overflows nor loses digits at the bottom of the range. -/
def mulAdd (x y z : Float) : Float :=
  let (product, missing) := twoProduct x y
  let (low, lower) := twoSum z missing
  let (high, rest) := twoSum product low
  high + sumToOdd lower rest

/-!
## Remainder and scaling
-/

/-- The remainder of a division that rounds its quotient toward zero.  It has
the sign of the dividend and is always exact. -/
def remainder (x y : Float) : Float :=
  match x.toModel.unpack, y.toModel.unpack with
  | .notANumber, _ => nan
  | _, .notANumber => nan
  | .infinity _, _ => nan
  | _, .zero _ => nan
  | .zero _, _ => x
  | _, .infinity _ => x
  | .finite sign m e _, .finite _ n f _ =>
      let low := min e f
      let rest := (m <<< (e - low).toNat) % (n <<< (f - low).toNat)
      .ofModel (.pack
        (if rest = 0 then .zero sign else .round .binary64 sign rest low))

/-- Split a finite number into a fraction of magnitude in `[1/2, 1)` and the
exponent of the power of two it is multiplied by.  Other numbers are their own
fraction. -/
def split (x : Float) : Float × Int :=
  match x.toModel.unpack with
  | .finite sign mantissa exponent _ =>
      let width : Int := mantissa.log2 + 1
      (.ofModel (.pack (.round .binary64 sign mantissa (-width))), exponent + width)
  | _ => (x, 0)

def scale (x : Float) (power : Int) : Float :=
  match x.toModel.unpack with
  | .finite sign mantissa exponent _ =>
      .ofModel (.pack (.round .binary64 sign mantissa (exponent + power)))
  | _ => x

end Number
end VectorMachine
