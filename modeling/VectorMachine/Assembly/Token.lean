import VectorMachine.Text.LetterCase

/-!
# Tokens

Assembly source is read byte by byte.  A byte outside ASCII counts as the
character of the same number, so the letters of the upper half of Latin-1 may
stand in words.  Blanks separate tokens, and a comment runs from `;` or `#` to the
end of its line.
-/

namespace VectorMachine
namespace Assembly

/-!
## Byte classes
-/

def isNewline (b : UInt8) : Bool := b == 0x0a

def isBlank (b : UInt8) : Bool := b == 0x20 || b == 0x09 || b == 0x0d

def isCommentMark (b : UInt8) : Bool := b == 0x3b || b == 0x23

def isComma (b : UInt8) : Bool := b == 0x2c

def isPoint (b : UInt8) : Bool := b == 0x2e

def isSign (b : UInt8) : Bool := b == 0x2d || b == 0x2b

def isExponentMark (b : UInt8) : Bool := b == 0x65 || b == 0x45

def isDigit (b : UInt8) : Bool := Text.isAsciiDigit b

def isLetter (b : UInt8) : Bool :=
  Text.isAsciiLetter b || b == 0xaa || b == 0xb5 || b == 0xba
    || (0xc0 ≤ b && b != 0xd7 && b != 0xf7)

def isWordByte (b : UInt8) : Bool :=
  isLetter b || isDigit b || b == 0x5f

/-!
## Extents

An extent says how many of the coming bytes belong together.
-/

abbrev Extent := Text -> Nat

namespace Extent

def none : Extent := fun _ => 0

def many (p : UInt8 -> Bool) : Extent := fun t => (t.takeWhile p).length

def optional (p : UInt8 -> Bool) : Extent := fun t => if t.head?.any p then 1 else 0

def andThen (first second : Extent) : Extent := fun t => first t + second (t.drop (first t))

def ifNext (p : UInt8 -> Bool) (yes no : Extent) : Extent := fun t =>
  if t.head?.any p then yes t else no t

def exponent : Extent :=
  ifNext isExponentMark
    (andThen (optional isExponentMark) (andThen (optional isSign) (many isDigit))) none

def fraction : Extent :=
  andThen (many isDigit) exponent

/-- Digits, a point with more digits, and an exponent, none of them required. -/
def unsigned : Extent :=
  andThen (many isDigit)
    (ifNext isPoint (andThen (optional isPoint) fraction) exponent)

end Extent

/-!
## Tokens
-/

inductive TokenKind where
  | endOfInput
  | newline
  | word
  | number
  | comma
  | directive
  | temp
  | input
  | output
  | constant
  | illegal
deriving DecidableEq

namespace TokenKind

def label : TokenKind -> String
  | endOfInput => "EOF"
  | newline => "NEWLINE"
  | word => "IDENT"
  | number => "NUMBER"
  | comma => "COMMA"
  | directive => "DIRECTIVE"
  | temp => "REG_R"
  | input => "REG_I"
  | output => "REG_O"
  | constant => "CONST"
  | illegal => "ILLEGAL"

def all : List TokenKind :=
  [endOfInput, newline, word, number, comma, directive, temp, input, output, constant, illegal]

def labelAt (n : Nat) : String :=
  match all[n]? with
  | some kind => kind.label
  | none => "UNKNOWN"

/-- What a word stands for: a register or a constant when it is one letter and a
number, a number when it is the name of one, and otherwise just a word. -/
def ofWord (value : Text) : TokenKind :=
  let name := LetterCase.lower value
  if name = utf8 "inf" ∨ name = utf8 "infinity" ∨ name = utf8 "nan" then number
  else
    match value with
    | letter :: d :: digits =>
        if (d :: digits).all isDigit then
          match Text.lowerByte letter with
          | 0x72 => temp
          | 0x69 => input
          | 0x6f => output
          | 0x63 => constant
          | _ => word
        else word
    | _ => word

end TokenKind

structure Token where
  kind : TokenKind
  value : Text
  line : Nat
deriving DecidableEq

namespace Token

def extent (b : UInt8) : Extent :=
  if isPoint b then
    Extent.ifNext isLetter (Extent.many isLetter) Extent.fraction
  else if isSign b then
    Extent.ifNext isLetter (Extent.many isLetter) Extent.unsigned
  else if isDigit b then
    Extent.unsigned
  else if isLetter b || b == 0x5f then
    Extent.many isWordByte
  else
    Extent.none

/-- The kind and value of a token with the given first byte and the given bytes
after it.  Directives are lower-cased, and an illegal byte becomes the character
of its number. -/
def classify (b : UInt8) (tail : Text) : TokenKind × Text :=
  if isComma b then (.comma, [b])
  else if isPoint b && tail.head?.any isLetter then (.directive, LetterCase.lower (b :: tail))
  else if isPoint b || isSign b || isDigit b then (.number, b :: tail)
  else if isLetter b || b == 0x5f then (TokenKind.ofWord (b :: tail), b :: tail)
  else (.illegal, Utf8.encode (Char.ofNat b.toNat))

def scanFrom (line : Nat) : Text -> List Token
  | [] => [⟨.endOfInput, [], line⟩]
  | b :: rest =>
      if isBlank b then
        scanFrom line rest
      else if isNewline b then
        ⟨.newline, [b], line⟩ :: scanFrom (line + 1) rest
      else if isCommentMark b then
        scanFrom line (rest.drop (Extent.many (fun c => !isNewline c) rest))
      else
        let size := extent b rest
        let (kind, value) := classify b (rest.take size)
        ⟨kind, value, line⟩ :: scanFrom line (rest.drop size)
termination_by source => source.length
decreasing_by all_goals (simp only [List.length_cons, List.length_drop]; omega)

def scan (source : Text) : List Token :=
  scanFrom 1 source

end Token
end Assembly
end VectorMachine
