import VectorMachine.Number.Convert
import VectorMachine.Text.Basic

/-!
# Reading numerals

Decimal and hexadecimal numerals of floating-point numbers, and integer numerals
of 64 bits.  A numeral is read to the nearest number; one that lies beyond the
range of its type is an error of its own, different from a malformed one.
-/

namespace VectorMachine
namespace Number

open Float.Model (Format UnpackedFloat)
open Float.Model.UnpackedFloat (Sign)

inductive ReadError where
  | malformed
  | outOfRange
deriving DecidableEq

def splitSign : Text -> Sign × Text
  | 0x2d :: rest => (.negative, rest)
  | 0x2b :: rest => (.positive, rest)
  | rest => (.positive, rest)

def underscore : UInt8 := 0x5f

/-- Every underscore stands between two digits.  The flag tells whether what
came before counts as one. -/
def separated (isDigit : UInt8 -> Bool) : Bool -> Text -> Bool
  | _, [] => true
  | before, b :: rest =>
      if b = underscore then
        before && rest.head?.any isDigit && separated isDigit false rest
      else
        separated isDigit (isDigit b) rest

def digitsOf (t : Text) : List Nat :=
  t.filterMap Text.digitOf?

/-!
## Floating-point numerals
-/

/-- The parts of a numeral: its digits, how many of them stand after the point,
and the exponent of the base's scale. -/
structure Numeral where
  digits : List Nat
  places : Nat
  exponent : Int

def cappedExponent (digits : List Nat) : Nat :=
  digits.foldl (fun e d => if e < 10000 then e * 10 + d else e) 0

/-- Read the exponent that may follow the digits.  `mark` is its lower-case
letter. -/
def readExponent (mark : UInt8) (needed : Bool) : Text -> Option Int
  | [] => if needed then none else some 0
  | b :: rest =>
      if Text.lowerByte b = mark then
        let (sign, rest) := splitSign rest
        let isPart := fun c => Text.isAsciiDigit c || c == underscore
        if rest.head?.any Text.isAsciiDigit && rest.all isPart then
          some (sign.apply (cappedExponent (digitsOf rest)))
        else none
      else none

def readNumeral (isDigit : UInt8 -> Bool) (mark : UInt8) (needed : Bool) (t : Text) :
    Option Numeral :=
  let isPart := fun c => isDigit c || c == underscore
  let whole := t.takeWhile isPart
  let (fraction, rest) :=
    match t.dropWhile isPart with
    | 0x2e :: rest => (rest.takeWhile isPart, rest.dropWhile isPart)
    | rest => ([], rest)
  let digits := digitsOf (whole ++ fraction)
  if digits.isEmpty then none
  else
    (readExponent mark needed rest).map fun exponent =>
      { digits, places := (digitsOf fraction).length, exponent }

def isHexDigit (b : UInt8) : Bool :=
  (Text.digitOf? b).isSome

def hexBody? : Text -> Option Text
  | 0x30 :: m :: b :: rest => if Text.lowerByte m = 0x78 then some (b :: rest) else none
  | _ => none

/-- The nearest number to an unsigned numeral, with the given sign. -/
def readUnsigned (sign : Sign) (t : Text) : Option UnpackedFloat :=
  match hexBody? t with
  | some body =>
      if separated isHexDigit true body then
        (readNumeral isHexDigit 0x70 true body).map fun n =>
          ofScaled .binary64 sign (Text.valueOf 16 n.digits) 2 (n.exponent - 4 * n.places)
      else none
  | none =>
      if separated Text.isAsciiDigit false t then
        (readNumeral Text.isAsciiDigit 0x65 false t).map fun n =>
          ofScaled .binary64 sign (Text.valueOf 10 n.digits) 10 (n.exponent - n.places)
      else none

/-- The names of the special numbers, in any letter case.  Only an infinity may
have a sign. -/
def readSpecial (t : Text) : Option Float :=
  let (sign, body) := splitSign t
  let name := Text.lowerAscii body
  if name = utf8 "inf" ∨ name = utf8 "infinity" then
    some (match sign with | .positive => infinity | .negative => -infinity)
  else if Text.lowerAscii t = utf8 "nan" then
    some nan
  else none

/-- Read a floating-point numeral to the nearest double-precision number. -/
def readFloat (t : Text) : Except ReadError Float :=
  match readSpecial t with
  | some x => .ok x
  | none =>
      let (sign, body) := splitSign t
      match readUnsigned sign body with
      | none => .error .malformed
      | some x =>
          let number := Float.ofModel (.pack x)
          if number.isInf then .error .outOfRange else .ok number

/-!
## Integer numerals
-/

def minInt : Int := -9223372036854775808

def maxInt : Int := 9223372036854775807

def fitsInt (n : Int) : Bool :=
  minInt ≤ n && n ≤ maxInt

def maxUnsigned : Nat := 18446744073709551615

/-- Read digits of the given base onto the number read so far.  The first byte
that is no digit, or the first digit that leads beyond 64 bits, decides the
error. -/
def readDigits (base : Nat) (skipUnderscores : Bool) (n : Nat) : Text -> Except ReadError Nat
  | [] => .ok n
  | b :: rest =>
      if skipUnderscores && b == underscore then
        readDigits base skipUnderscores n rest
      else
        match Text.digitOf? b with
        | none => .error .malformed
        | some d =>
            if base ≤ d then .error .malformed
            else if maxUnsigned < n * base + d then .error .outOfRange
            else readDigits base skipUnderscores (n * base + d) rest

def readInt (t : Text) : Except ReadError Int := do
  let (sign, body) := splitSign t
  if body.isEmpty then .error .malformed
  else
    let n := sign.apply (← readDigits 10 false 0 body)
    if fitsInt n then .ok n else .error .outOfRange

/-- Read digits among which underscores may stand.  The flag tells whether a
base mark came before. -/
def readSeparated (base : Nat) (afterMark : Bool) (t : Text) : Except ReadError Nat := do
  let n ← readDigits base true 0 t
  if separated isHexDigit afterMark t then .ok n else .error .malformed

/-- Read an unsigned numeral of 64 bits whose mark names its base: `0x`, `0b`,
`0o` or a leading zero; without a mark it is decimal. -/
def readUnsignedMarked : Text -> Except ReadError Nat
  | [] => .error .malformed
  | 0x30 :: m :: b :: rest =>
      match Text.lowerByte m with
      | 0x78 => readSeparated 16 true (b :: rest)
      | 0x62 => readSeparated 2 true (b :: rest)
      | 0x6f => readSeparated 8 true (b :: rest)
      | _ => readSeparated 8 true (m :: b :: rest)
  | 0x30 :: rest => readSeparated 8 true rest
  | t => readSeparated 10 false t

/-- Read a signed numeral of 64 bits with an optional base mark. -/
def readIntMarked (t : Text) : Except ReadError Int := do
  let (sign, body) := splitSign t
  let n := sign.apply (← readUnsignedMarked body)
  if fitsInt n then .ok n else .error .outOfRange

def readBool (t : Text) : Option Bool :=
  if ["1", "t", "T", "TRUE", "true", "True"].any (utf8 · = t) then some true
  else if ["0", "f", "F", "FALSE", "false", "False"].any (utf8 · = t) then some false
  else none

end Number
end VectorMachine
