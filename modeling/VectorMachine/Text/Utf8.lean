import VectorMachine.Text.Basic

/-!
# Characters of a text

A text is read as UTF-8 one character at a time.  A byte that starts no valid
sequence stands for itself, so every text can be read.
-/

namespace VectorMachine

/-- A character of a text, or a byte that belongs to none. -/
inductive Rune where
  | char (c : Char)
  | stray (b : UInt8)
deriving DecidableEq

namespace Utf8

/-- How many bytes follow a first byte, and the bits that it contributes. -/
def leading (b : UInt8) : Option (Nat × Nat) :=
  if b < 0x80 then some (0, b.toNat)
  else if 0xc2 ≤ b ∧ b ≤ 0xdf then some (1, b.toNat - 0xc0)
  else if 0xe0 ≤ b ∧ b ≤ 0xef then some (2, b.toNat - 0xe0)
  else if 0xf0 ≤ b ∧ b ≤ 0xf4 then some (3, b.toNat - 0xf0)
  else none

def isContinuation (b : UInt8) : Bool :=
  0x80 ≤ b && b ≤ 0xbf

def leastFor : Nat -> Nat
  | 0 => 0
  | 1 => 0x80
  | 2 => 0x800
  | _ => 0x10000

/-- The character that starts with the given byte, and how many bytes after the
first one it takes. -/
def next? (b : UInt8) (rest : Text) : Option (Char × Nat) :=
  match leading b with
  | none => none
  | some (count, bits) =>
      let tail := rest.take count
      if tail.length = count && tail.all isContinuation then
        let code := tail.foldl (fun n c => n * 64 + (c.toNat - 0x80)) bits
        if h : code.isValidChar then
          if leastFor count ≤ code then some (Char.ofNatAux code h, count) else none
        else none
      else none

def runes : Text -> List Rune
  | [] => []
  | b :: rest =>
      match next? b rest with
      | some (c, count) => .char c :: runes (rest.drop count)
      | none => .stray b :: runes rest
termination_by t => t.length
decreasing_by all_goals (simp only [List.length_cons, List.length_drop]; omega)

def valid (t : Text) : Bool :=
  (runes t).all fun
    | .char _ => true
    | .stray _ => false

def encode (c : Char) : Text :=
  String.utf8EncodeChar c

end Utf8
end VectorMachine
