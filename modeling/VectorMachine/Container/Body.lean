import VectorMachine.Cbor.Read
import VectorMachine.Cbor.Write
import VectorMachine.Number.Read
import VectorMachine.Program
import VectorMachine.Text.Utf8

/-!
# The body of a container

A program as a map from the numbers one to four to its code, constants, input
count and output count.  Reading is liberal: entries may come in any order or be
missing, the first of several entries for one field counts, and unknown entries
are skipped.
-/

namespace VectorMachine
namespace Container

open Cbor (Item)

/-!
## Writing
-/

def codeItem : Option Bytes -> Item
  | some code => .bytes code
  | none => Item.null

def vectorItem (v : Vec4) : Item :=
  .array (v.toList.map fun x => .float (Number.widen x))

def constantsItem : Option (List Vec4) -> Item
  | some constants => .array (constants.map vectorItem)
  | none => Item.null

def programItem (p : Program) : Item :=
  .map [(.unsigned 1, codeItem p.code), (.unsigned 2, constantsItem p.constants),
    (.unsigned 3, Item.ofInt p.inputs), (.unsigned 4, Item.ofInt p.outputs)]

/-!
## Tags

Most tags say nothing that matters here.  Times and large integers have to hold
the right kind of item, and a large integer is its bytes.
-/

/-- An item without its tags, or the magnitude of a tagged large integer. -/
inductive Untagged where
  | plain (item : Item)
  | large (negative : Bool) (magnitude : Bytes)

def selfDescribed : Nat := 55799

def tagFits : Nat -> Item -> Bool
  | 0, .text _ => true
  | 0, _ => false
  | 1, .unsigned _ => true
  | 1, .negative _ => true
  | 1, .float _ => true
  | 1, _ => false
  | 2, .bytes _ => true
  | 2, _ => false
  | 3, .bytes _ => true
  | 3, _ => false
  | _, _ => true

def untag : Item -> Option Untagged
  | .tag number content =>
      if number = selfDescribed then untag content
      else if tagFits number content then
        match number, content with
        | 2, .bytes magnitude => some (.large false magnitude)
        | 3, .bytes magnitude => some (.large true magnitude)
        | _, content => untag content
      else none
  | item => some (.plain item)

/-!
## Numbers
-/

/-- The integer of an item, if it is one of 64 bits.  Simple values without a
meaning count as their number. -/
def integer? : Untagged -> Option Int
  | .plain (.unsigned n) => some n
  | .plain (.negative n) => if n ≤ Number.maxInt then some (-1 - n) else none
  | .plain (.simple value) => if value < 20 ∨ 24 ≤ value then some value else none
  | .large false magnitude =>
      let n := Cbor.ofBigEndian magnitude
      if n ≤ Number.maxUnsigned then some n else none
  | .large true magnitude =>
      let n := Cbor.ofBigEndian magnitude
      if n ≤ Number.maxInt then some (-1 - n) else none
  | _ => none

def isAbsent : Untagged -> Bool
  | .plain item => item.isAbsent
  | .large _ _ => false

def readCount (item : Item) : Option Int := do
  let item ← untag item
  if isAbsent item then some 0
  else
    let n ← integer? item
    if Number.fitsInt n then some n else none

def readByte (item : Item) : Option UInt8 := do
  let item ← untag item
  if isAbsent item then some 0
  else
    let n ← integer? item
    if 0 ≤ n ∧ n < 256 then some (UInt8.ofInt n) else none

def maxSingle : Float := Number.widen (Float32.ofBits 0x7f7fffff)

/-- Narrow a number that is not finite or lies within the range of single
precision. -/
def narrowInRange (x : Float) : Option Float32 :=
  if maxSingle < x.abs ∧ x.isFinite then none else some (Number.narrow x)

/-- A component of a vector, for which absence is zero. -/
def readComponent (item : Item) : Option Float32 := do
  let item ← untag item
  if isAbsent item then some 0
  else
    match item with
    | .plain (.float x) => narrowInRange x
    | item => (integer? item).map fun n => Number.narrow (Float.ofInt n)

/-!
## Fields
-/

/-- A vector of up to four components; further ones are skipped. -/
def readVector (item : Item) : Option Vec4 := do
  match ← untag item with
  | .plain (.array items) => (items.take 4 |>.mapM readComponent).map Vec4.ofList
  | item => if isAbsent item then some Vec4.zero else none

def readConstants (item : Item) : Option (Option (List Vec4)) := do
  match ← untag item with
  | .plain (.array items) => (items.mapM readVector).map some
  | item => if isAbsent item then some none else none

def readCode (item : Item) : Option (Option Bytes) := do
  match ← untag item with
  | .plain (.bytes code) => some (some code)
  | .large _ code => some (some code)
  | .plain (.array items) => (items.mapM readByte).map some
  | item => if isAbsent item then some none else none

/-- The number of the field that a key names.  Keys are integers or texts. -/
def fieldOf : Item -> Option Int
  | .unsigned n => some n
  | .negative n => if n ≤ Number.maxInt then some (-1 - n) else none
  | .text chunks =>
      if chunks.all Utf8.valid then
        match chunks.flatten with
        | [b] => some (if 0x31 ≤ b ∧ b ≤ 0x34 then b.toNat - 0x30 else 0)
        | _ => some 0
      else none
  | _ => none

structure Fields where
  code : Option Item := none
  constants : Option Item := none
  inputs : Option Item := none
  outputs : Option Item := none

/-- Keep the value of an entry unless its field already has one. -/
def Fields.add (f : Fields) (entry : Item × Item) : Option Fields := do
  let value := some entry.2
  match ← fieldOf entry.1 with
  | 1 => some { f with code := f.code <|> value }
  | 2 => some { f with constants := f.constants <|> value }
  | 3 => some { f with inputs := f.inputs <|> value }
  | 4 => some { f with outputs := f.outputs <|> value }
  | _ => some f

/-- The program of a map of fields.  A field without an entry is absent. -/
def readFields (f : Fields) : Option Program := do
  let code ← readCode (f.code.getD Item.null)
  let constants ← readConstants (f.constants.getD Item.null)
  let inputs ← readCount (f.inputs.getD Item.null)
  let outputs ← readCount (f.outputs.getD Item.null)
  some { code, constants, inputs, outputs }

def readProgram (item : Item) : Option Program := do
  match ← untag item with
  | .plain (.map entries) => readFields (← entries.foldlM Fields.add {})
  | item => if isAbsent item then some {} else none

end Container
end VectorMachine
