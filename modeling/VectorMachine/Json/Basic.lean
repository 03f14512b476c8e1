import VectorMachine.Text.Utf8

/-!
# JSON
-/

namespace VectorMachine
namespace Json

inductive Value where
  | null
  | bool (b : Bool)
  | number (x : Float)
  | string (t : Text)
  | array (elements : List Value)
  | object (members : List (Text × Value))

inductive Fault where
  | ended
  | malformed
  /-- A place was asked for that lies outside the part of the text at hand. -/
  | outside
deriving DecidableEq

/-!
## Characters
-/

def isBlank (b : UInt8) : Bool :=
  b == 0x20 || b == 0x09 || b == 0x0a || b == 0x0d

def isSeparator (b : UInt8) : Bool :=
  b == 0x2c || b == 0x3a

def startsNumber (b : UInt8) : Bool :=
  Text.isAsciiDigit b || b == 0x2d

def isNumeric (b : UInt8) : Bool :=
  Text.isAsciiDigit b || b == 0x2e || b == 0x2b || b == 0x2d || b == 0x65 || b == 0x45

def replacement : Char := Char.ofNat 0xfffd

/-!
## Escapes
-/

def escaped? (b : UInt8) : Option UInt8 :=
  [(0x22, 0x22), (0x5c, 0x5c), (0x2f, 0x2f), (0x62, 0x08), (0x66, 0x0c), (0x6e, 0x0a),
    (0x72, 0x0d), (0x74, 0x09)].lookup b

/-- A code unit in hexadecimal digits; any other byte counts as zero. -/
def codeUnit (digits : Text) : Nat :=
  Text.valueOf 16 (digits.map fun b => (Text.digitOf? b).getD 0)

def isHighSurrogate (n : Nat) : Bool := 0xd800 ≤ n && n < 0xdc00

def isLowSurrogate (n : Nat) : Bool := 0xdc00 ≤ n && n < 0xe000

def charOfUnit (n : Nat) : Char :=
  if isHighSurrogate n || isLowSurrogate n then replacement else Char.ofNat n

def charOfPair? (high low : Nat) : Option Char :=
  if isHighSurrogate high && isLowSurrogate low then
    some (Char.ofNat (0x10000 + (high - 0xd800) * 0x400 + (low - 0xdc00)))
  else none

/-!
## Members
-/

/-- Of several members with one name only the last one counts. -/
def lastMembers {α : Type} : List (Text × α) -> List (Text × α)
  | [] => []
  | (name, v) :: rest =>
      if rest.any fun (other, _) => other = name then lastMembers rest
      else (name, v) :: lastMembers rest

end Json
end VectorMachine
