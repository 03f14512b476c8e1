import VectorMachine.Number.Convert
import VectorMachine.Text.Basic

/-!
# Items of the concise binary format

The values that the body of a container is made of.
-/

namespace VectorMachine
namespace Cbor

inductive Item where
  | unsigned (n : Nat)
  | negative (n : Nat)
  | bytes (b : Bytes)
  | text (chunks : List Bytes)
  | array (items : List Item)
  | map (entries : List (Item × Item))
  | tag (number : Nat) (content : Item)
  /-- A value without a number or text of its own. -/
  | simple (value : Nat)
  | float (x : Float)

namespace Item

def null : Item := .simple 22

def undefined : Item := .simple 23

def isAbsent : Item -> Bool
  | .simple value => value == 22 || value == 23
  | _ => false

end Item

/-!
## Numbers as bytes
-/

def bigEndian : Nat -> Nat -> Bytes
  | 0, _ => []
  | size + 1, n => bigEndian size (n / 256) ++ [n.toUInt8]

/-- The number of a list of bytes, the highest first. -/
def ofBigEndian (bytes : Bytes) : Nat :=
  bytes.foldl (fun n b => n * 256 + b.toNat) 0

/-!
## Floating-point formats
-/

open Float.Model (Format UnpackedFloat)

def half : Format where
  mantissaBitsWithoutImplicit := 10
  exponentBits := 5

def floatOfBits (format : Format) (bits : Nat) : Float :=
  .ofModel (.pack (Number.refit .binary64 (.unpack format (BitVec.ofNat _ bits))))

/-- The bit pattern of the nearest number in the given format. -/
def bitsOfFloat (format : Format) (x : Float) : Nat :=
  (UnpackedFloat.pack format (Number.refit format x.toModel.unpack)).toNat

def fitsFormat (format : Format) (x : Float) : Bool :=
  (floatOfBits format (bitsOfFloat format x)).toBits == x.toBits

end Cbor
end VectorMachine
