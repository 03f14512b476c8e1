import VectorMachine.Frame.Calendar
import VectorMachine.Number.Read
import VectorMachine.Toml.Basic

/-!
# Numbers, moments and truth values
-/

namespace VectorMachine
namespace Toml

open Text (isAsciiDigit)

def isDigitOrUnderscore (b : UInt8) : Bool :=
  isAsciiDigit b || b == Number.underscore

/-!
## Numbers
-/

/-- Every underscore follows a digit, and a digit comes last.  The flag tells
whether the byte before was a digit. -/
def underscoresFitAfter (afterDigit : Bool) : Text -> Bool
  | [] => afterDigit
  | b :: rest =>
      (b != Number.underscore || afterDigit) && underscoresFitAfter (Number.isHexDigit b) rest

def underscoresFit (t : Text) : Bool :=
  underscoresFitAfter false t

def hasLeadingZero (t : Text) : Bool :=
  match t with
  | 0x30 :: m :: _ => !(m == 0x62 || m == 0x6f || m == 0x78)
  | 0x2b :: 0x30 :: _ :: _ | 0x2d :: 0x30 :: _ :: _ => true
  | _ => false

def pointsFit : Text -> Bool
  | [] => true
  | 0x2e :: rest => rest.head?.any isAsciiDigit && pointsFit rest
  | _ :: rest => pointsFit rest

def integer? (t : Text) : Option Literal :=
  if underscoresFit t && !hasLeadingZero t then
    (Number.readIntMarked t).toOption.map .integer
  else none

/-- The stretches between points and exponent marks, without the empty ones. -/
def floatParts (t : Text) : List Text :=
  (Text.splitOn 0x2e (t.map fun b => if b = 0x65 ∨ b = 0x45 then 0x2e else b)).filter
    (!·.isEmpty)

def float? (t : Text) : Option Literal :=
  let parts := floatParts t
  if parts.all underscoresFit && !(parts.head?.any hasLeadingZero) && pointsFit t then
    (Number.readFloat (t.filter (· != Number.underscore))).toOption.map .float
  else none

def takeSpecial? (sign : Text) (t : Text) : Option (Literal × Text) :=
  if (utf8 "inf").isPrefixOf t then
    some (.float (if sign = [0x2d] then -Number.infinity else Number.infinity), t.drop 3)
  else if (utf8 "nan").isPrefixOf t then some (.float Number.nan, t.drop 3)
  else none

def takeDecimal? (sign : Text) (t : Text) : Option (Literal × Text) :=
  let whole := t.takeWhile isDigitOrUnderscore
  let rest := t.drop whole.length
  if rest.head?.any fun b => b == 0x2e || b == 0x65 || b == 0x45 then
    let isPart := fun b =>
      isDigitOrUnderscore b || b == 0x2e || b == 0x2d || b == 0x2b || b == 0x65 || b == 0x45
    let fraction := rest.takeWhile isPart
    (float? (sign ++ whole ++ fraction)).map fun v => (v, rest.drop fraction.length)
  else (integer? (sign ++ whole)).map fun v => (v, rest)

def takeMarked? (base : Nat) (mark : UInt8) (t : Text) : Option (Literal × Text) :=
  let isDigit := fun b => (Text.digitOf? b).any (· < base)
  let body := t.takeWhile fun b => isDigit b || b == Number.underscore
  if body.head?.any isDigit then
    (integer? (0x30 :: mark :: body)).map fun v => (v, t.drop body.length)
  else none

/-!
## Moments
-/

/-- Read two digits of a number that is at most the given one. -/
def takePair? (most : Nat) : Text -> Option Text
  | a :: b :: rest =>
      if isAsciiDigit a && isAsciiDigit b
          && (a.toNat - 0x30) * 10 + (b.toNat - 0x30) ≤ most then some rest
      else none
  | _ => none

def takeSeconds? : Text -> Option Text
  | 0x3a :: rest => do
      match ← takePair? 59 rest with
      | 0x2e :: fraction =>
          if fraction.head?.any isAsciiDigit then return fraction.dropWhile isAsciiDigit
          else none
      | rest => return rest
  | t => some t

def takeTime? (t : Text) : Option Text := do
  match ← takePair? 23 t with
  | 0x3a :: rest => takeSeconds? (← takePair? 59 rest)
  | _ => none

/-- The distance from universal time, or nothing at all. -/
def isOffset : Text -> Bool
  | [] => true
  | [0x5a] => true
  | sign :: rest =>
      (sign == 0x2b || sign == 0x2d) &&
        match takePair? 24 rest with
        | some (0x3a :: minutes) => takePair? 60 minutes == some []
        | _ => false

def isMoment (t : Text) : Bool :=
  if (Calendar.readDate? (t.take 10)).isSome then
    match t.drop 10 with
    | [] => true
    | 0x54 :: time => (takeTime? time).any isOffset
    | _ => false
  else takeTime? t == some []

def momentByte (b : UInt8) : UInt8 :=
  if b = 0x74 ∨ b = 0x20 then 0x54 else if b = 0x7a then 0x5a else b

def takeMoment? (t : Text) : Option (Literal × Text) :=
  let isPart := fun b =>
    isAsciiDigit b || (utf8 "-:Tt .Zz+").contains b
  let body := t.takeWhile isPart
  let moment := (Text.trim (· == 0x20) body).map momentByte
  if isMoment moment then some (.moment moment, t.drop body.length) else none

/-!
## Scalars
-/

def takeNumberOrMoment? (t : Text) : Option (Literal × Text) :=
  match t with
  | 0x30 :: 0x78 :: rest => takeMarked? 16 0x78 rest
  | 0x30 :: 0x6f :: rest => takeMarked? 8 0x6f rest
  | 0x30 :: 0x62 :: rest => takeMarked? 2 0x62 rest
  | _ =>
      match t.dropWhile isAsciiDigit with
      | 0x2d :: _ | 0x3a :: _ => takeMoment? t
      | _ => takeDecimal? [] t

def takeSigned? (sign : UInt8) (t : Text) : Option (Literal × Text) :=
  if t.head?.any isAsciiDigit then takeDecimal? [sign] t else takeSpecial? [sign] t

def takeBoolean? (t : Text) : Option (Literal × Text) :=
  if (utf8 "true").isPrefixOf t then some (.boolean true, t.drop 4)
  else if (utf8 "false").isPrefixOf t then some (.boolean false, t.drop 5)
  else none

def takeScalar? (t : Text) : Option (Literal × Text) :=
  match t with
  | [] => none
  | b :: rest =>
      if isAsciiDigit b then takeNumberOrMoment? t
      else if b = 0x2b ∨ b = 0x2d then takeSigned? b rest
      else takeSpecial? [] t <|> takeBoolean? t

end Toml
end VectorMachine
