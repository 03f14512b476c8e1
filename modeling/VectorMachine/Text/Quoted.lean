import VectorMachine.Text.Printable
import VectorMachine.Text.Utf8

/-!
# Quoted texts

A text between double quotes, with everything that cannot be printed escaped, for
use in messages.
-/

namespace VectorMachine
namespace Quoted

def numbered (letter : Char) (width code : Nat) : Text :=
  Utf8.encode '\\' ++ Utf8.encode letter ++ Text.hex width code

def short? (c : Char) : Option Char :=
  match c.toNat with
  | 0x07 => some 'a'
  | 0x08 => some 'b'
  | 0x0c => some 'f'
  | 0x0a => some 'n'
  | 0x0d => some 'r'
  | 0x09 => some 't'
  | 0x0b => some 'v'
  | _ => none

def char (c : Char) : Text :=
  if c = '"' || c = '\\' then
    Utf8.encode '\\' ++ Utf8.encode c
  else if Printable.isPrintable c then
    Utf8.encode c
  else
    match short? c with
    | some letter => Utf8.encode '\\' ++ Utf8.encode letter
    | none =>
        if c.toNat < 0x20 || c.toNat = 0x7f then numbered 'x' 2 c.toNat
        else if c.toNat < 0x10000 then numbered 'u' 4 c.toNat
        else numbered 'U' 8 c.toNat

def rune : Rune -> Text
  | .char c => char c
  | .stray b => numbered 'x' 2 b.toNat

def quote (t : Text) : Text :=
  utf8 "\"" ++ (Utf8.runes t).flatMap rune ++ utf8 "\""

end Quoted
end VectorMachine
