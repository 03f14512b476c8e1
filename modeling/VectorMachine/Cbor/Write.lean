import VectorMachine.Cbor.Item

/-!
# Writing items

The canonical encoding: every length and number in the fewest bytes, every
floating-point number in the narrowest format that keeps its value.
-/

namespace VectorMachine
namespace Cbor

def head (major n : Nat) : Bytes :=
  let first (info : Nat) : UInt8 := (major * 32 + info).toUInt8
  if n < 24 then [first n]
  else if n < Nat.pow 2 8 then first 24 :: bigEndian 1 n
  else if n < Nat.pow 2 16 then first 25 :: bigEndian 2 n
  else if n < Nat.pow 2 32 then first 26 :: bigEndian 4 n
  else first 27 :: bigEndian 8 n

def writeFloat (x : Float) : Bytes :=
  if fitsFormat half x then 0xf9 :: bigEndian 2 (bitsOfFloat half x)
  else if fitsFormat .binary32 x then 0xfa :: bigEndian 4 (bitsOfFloat .binary32 x)
  else 0xfb :: bigEndian 8 (bitsOfFloat .binary64 x)

mutual

def write : Item -> Bytes
  | .unsigned n => head 0 n
  | .negative n => head 1 n
  | .bytes b => head 2 b.length ++ b
  | .text chunks => head 3 chunks.flatten.length ++ chunks.flatten
  | .array items => head 4 items.length ++ writeAll items
  | .map entries => head 5 entries.length ++ writeEntries entries
  | .tag number content => head 6 number ++ write content
  | .simple value => head 7 value
  | .float x => writeFloat x

def writeAll : List Item -> Bytes
  | [] => []
  | item :: rest => write item ++ writeAll rest

def writeEntries : List (Item × Item) -> Bytes
  | [] => []
  | (key, value) :: rest => write key ++ write value ++ writeEntries rest

end

def Item.ofInt : Int -> Item
  | .ofNat n => .unsigned n
  | .negSucc n => .negative n

end Cbor
end VectorMachine
