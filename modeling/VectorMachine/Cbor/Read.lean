import VectorMachine.Cbor.Item

/-!
# Reading items

Any well-formed encoding is read, canonical or not.  Arrays, maps and tags may
nest only so deep, and arrays and maps may hold only so many elements.
-/

namespace VectorMachine
namespace Cbor

def maxDepth : Nat := 32

/-- How many elements an array, or entries a map, may have. -/
def maxElements : Nat := 131072

/-!
## Heads
-/

def breakByte : UInt8 := 0xff

def majorOf (b : UInt8) : Nat := b.toNat / 32

def infoOf (b : UInt8) : Nat := b.toNat % 32

def takeExactly (n : Nat) (bs : Bytes) : Option Bytes :=
  let taken := bs.take n
  if taken.length = n then some taken else none

def argumentSize : Nat -> Option Nat
  | 24 => some 1
  | 25 => some 2
  | 26 => some 4
  | 27 => some 8
  | info => if info < 24 then some 0 else none

def argument (info : Nat) (rest : Bytes) : Option (Nat × Nat) := do
  let size ← argumentSize info
  let bytes ← takeExactly size rest
  some (if size = 0 then info else ofBigEndian bytes, size)

def splitTags : Bytes -> Option (List Nat × Bytes)
  | [] => some ([], [])
  | b :: rest =>
      if majorOf b = 6 then
        match argument (infoOf b) rest with
        | some (number, size) =>
            (splitTags (rest.drop size)).map fun (numbers, content) =>
              (number :: numbers, content)
        | none => none
      else some ([], b :: rest)
termination_by bs => bs.length
decreasing_by simp only [List.length_cons, List.length_drop]; omega

/-!
## Strings
-/

def readString (info : Nat) (rest : Bytes) : Option (Bytes × Bytes) := do
  let (length, size) ← argument info rest
  let bytes ← takeExactly length (rest.drop size)
  some (bytes, rest.drop (size + length))

/-- The chunks of a string up to its end mark.  They are strings of the same
major type and of definite length.  The first argument bounds their number. -/
def readChunks (major : Nat) : Nat -> List Bytes -> Bytes -> Option (List Bytes × Bytes)
  | 0, _, _ => none
  | _ + 1, _, [] => none
  | more + 1, chunks, b :: rest =>
      if b = breakByte then some (chunks.reverse, rest)
      else if majorOf b = major then
        match readString (infoOf b) rest with
        | some (chunk, rest) => readChunks major more (chunk :: chunks) rest
        | none => none
      else none

def readStrings (major info : Nat) (rest : Bytes) : Option (List Bytes × Bytes) :=
  if info = 31 then
    readChunks major (rest.length + 1) [] rest
  else
    (readString info rest).map fun (bytes, rest) => ([bytes], rest)

/-!
## Simple values and numbers
-/

/-- An item of major type seven.  A simple value below thirty-two has no form
with a separate byte. -/
def readSimple (info : Nat) (rest : Bytes) : Option (Item × Bytes) := do
  let (n, size) ← argument info rest
  let rest := rest.drop size
  match info with
  | 24 => if n < 32 then none else some (.simple n, rest)
  | 25 => some (.float (floatOfBits half n), rest)
  | 26 => some (.float (floatOfBits .binary32 n), rest)
  | 27 => some (.float (floatOfBits .binary64 n), rest)
  | _ => some (.simple n, rest)

def readLeaf (b : UInt8) (rest : Bytes) : Option (Item × Bytes) :=
  match majorOf b with
  | 0 => (argument (infoOf b) rest).map fun (n, size) => (.unsigned n, rest.drop size)
  | 1 => (argument (infoOf b) rest).map fun (n, size) => (.negative n, rest.drop size)
  | 2 => (readStrings 2 (infoOf b) rest).map fun (chunks, rest) => (.bytes chunks.flatten, rest)
  | 3 => (readStrings 3 (infoOf b) rest).map fun (chunks, rest) => (.text chunks, rest)
  | 7 => readSimple (infoOf b) rest
  | _ => none

/-!
## Arrays and maps
-/

abbrev Reader (α : Type) := Bytes -> Option (α × Bytes)

def readEntry (read : Reader Item) : Reader (Item × Item) := fun bs => do
  let (key, bs) ← read bs
  let (value, bs) ← read bs
  some ((key, value), bs)

def readCount {α : Type} (read : Reader α) : Nat -> List α -> Bytes -> Option (List α × Bytes)
  | 0, done, bs => some (done.reverse, bs)
  | more + 1, done, bs =>
      match read bs with
      | some (x, rest) => readCount read more (x :: done) rest
      | none => none

/-- Elements up to the end mark, of which at most so many may come. -/
def readToBreak {α : Type} (read : Reader α) : Nat -> List α -> Bytes -> Option (List α × Bytes)
  | _, _, [] => none
  | room, done, b :: rest =>
      if b = breakByte then some (done.reverse, rest)
      else
        match room with
        | 0 => none
        | room + 1 =>
            match read (b :: rest) with
            | some (x, rest) => readToBreak read room (x :: done) rest
            | none => none

def readElements {α : Type} (read : Reader α) (info : Nat) (rest : Bytes) :
    Option (List α × Bytes) :=
  if info = 31 then
    readToBreak read maxElements [] rest
  else
    match argument info rest with
    | some (count, size) =>
        if maxElements < count then none else readCount read count [] (rest.drop size)
    | none => none

/-!
## Items
-/

/-- An item within so many levels of nesting.  Every level of arrays and maps
counts, and so does every tag after the first in a row. -/
def readItem (levels : Nat) (bs : Bytes) : Option (Item × Bytes) :=
  match splitTags bs with
  | none => none
  | some (tags, content) =>
      if levels < tags.length - 1 then none
      else
        let wrap (item : Item) : Item := tags.foldr Item.tag item
        match content with
        | [] => none
        | b :: rest =>
            if majorOf b = 4 ∨ majorOf b = 5 then
              match h : levels - (tags.length - 1) with
              | 0 => none
              | inner + 1 =>
                  have : inner < levels := by omega
                  if majorOf b = 4 then
                    (readElements (fun bs => readItem inner bs) (infoOf b) rest).map
                      fun (items, rest) => (wrap (.array items), rest)
                  else
                    (readElements (readEntry fun bs => readItem inner bs) (infoOf b) rest).map
                      fun (entries, rest) => (wrap (.map entries), rest)
            else (readLeaf b rest).map fun (item, rest) => (wrap item, rest)
termination_by levels

/-- The item that a byte string encodes, with nothing after it. -/
def read (bs : Bytes) : Option Item :=
  match readItem maxDepth bs with
  | some (item, []) => some item
  | _ => none

end Cbor
end VectorMachine
