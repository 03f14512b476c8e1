/-!
# Texts

A text is a string of bytes.  It is UTF-8 wherever the machine writes it, but a
text that came from outside may hold any bytes, so nothing here assumes more.
-/

namespace VectorMachine

abbrev Bytes := List UInt8

abbrev Text := List UInt8

def utf8 (s : String) : Text :=
  s.toList.flatMap String.utf8EncodeChar

namespace Text

/-!
## Numerals
-/

def ofNat (n : Nat) : Text :=
  (Nat.toDigits 10 n).map fun c => c.toNat.toUInt8

def ofInt : Int -> Text
  | .ofNat n => ofNat n
  | .negSucc n => 0x2d :: ofNat (n + 1)

/-- The lower-case hexadecimal numeral of a natural number, filled with zeros
on the left up to the given width. -/
def hex (width n : Nat) : Text :=
  let digits := (Nat.toDigits 16 n).map fun c => c.toNat.toUInt8
  List.replicate (width - digits.length) 0x30 ++ digits

/-!
## Layout
-/

def padRight (width : Nat) (t : Text) : Text :=
  t ++ List.replicate (width - t.length) 0x20

def join (separator : Text) (parts : List Text) : Text :=
  separator.intercalate parts

/-- Cut a text at every occurrence of one byte.  There is always one more piece
than there are cuts. -/
def splitOn (separator : UInt8) : Text -> List Text
  | [] => [[]]
  | b :: rest =>
      if b = separator then
        [] :: splitOn separator rest
      else
        match splitOn separator rest with
        | [] => [[b]]
        | piece :: pieces => (b :: piece) :: pieces

/-!
## Order and letters
-/

def le : Text -> Text -> Bool
  | [], _ => true
  | _ :: _, [] => false
  | a :: as, b :: bs => a < b || (a == b && le as bs)

/-- The lower-case form of an ASCII capital; any other byte is kept. -/
def lowerByte (b : UInt8) : UInt8 :=
  if 0x41 ≤ b ∧ b ≤ 0x5a then b + 0x20 else b

def lowerAscii (t : Text) : Text :=
  t.map lowerByte

def isAsciiDigit (b : UInt8) : Bool :=
  0x30 ≤ b && b ≤ 0x39

def isAsciiLetter (b : UInt8) : Bool :=
  (0x41 ≤ b && b ≤ 0x5a) || (0x61 ≤ b && b ≤ 0x7a)

def digitOf? (b : UInt8) : Option Nat :=
  if isAsciiDigit b then some (b.toNat - 0x30)
  else if 0x61 ≤ b ∧ b ≤ 0x66 then some (b.toNat - 0x61 + 10)
  else if 0x41 ≤ b ∧ b ≤ 0x46 then some (b.toNat - 0x41 + 10)
  else none

def valueOf (base : Nat) (digits : List Nat) : Nat :=
  digits.foldl (fun n d => n * base + d) 0

def trim (blank : UInt8 -> Bool) (t : Text) : Text :=
  ((t.dropWhile blank).reverse.dropWhile blank).reverse

end Text
end VectorMachine
