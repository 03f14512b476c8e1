import VectorMachine.Container.Body

/-!
# Containers

A program in a file: four bytes that mark the format, a version, the length of
the body, and the body.  Whatever follows the body is ignored.
-/

namespace VectorMachine
namespace Container

def magic : Bytes := [0x56, 0x56, 0x42, 0x43]

def version : Nat := 1

def littleEndian : Nat -> Nat -> Bytes
  | 0, _ => []
  | size + 1, n => n.toUInt8 :: littleEndian size (n / 256)

def ofLittleEndian : Bytes -> Nat
  | [] => 0
  | b :: rest => b.toNat + 256 * ofLittleEndian rest

def serialize (p : Program) : Bytes :=
  let body := Cbor.write (programItem p)
  magic ++ littleEndian 2 version ++ littleEndian 4 body.length ++ body

/-!
## Reading
-/

inductive Part where
  | magic
  | version
  | bodyLength
deriving DecidableEq

def Part.text : Part -> String
  | magic => "magic"
  | version => "version"
  | bodyLength => "body length"

inductive Error where
  | ended (part : Part) (inside : Bool)
  | invalidMagic
  | invalidVersion
  | truncatedBody (claimed remaining : Nat)
  | undecodable
deriving DecidableEq

def Error.message : Error -> Text
  | ended part inside =>
      utf8 "reading " ++ utf8 part.text
        ++ utf8 (if inside then ": unexpected EOF" else ": EOF")
  | invalidMagic => utf8 "invalid bytecode magic"
  | invalidVersion => utf8 "unsupported bytecode version"
  | truncatedBody claimed remaining =>
      utf8 "bytecode body shorter than header length: header claims " ++ Text.ofNat claimed
        ++ utf8 " bytes, " ++ Text.ofNat remaining ++ utf8 " remain"
  | undecodable => utf8 "decoding program"

def takePart (part : Part) (size : Nat) (data : Bytes) : Except Error (Bytes × Bytes) :=
  if data.length < size then .error (.ended part (!data.isEmpty))
  else .ok (data.take size, data.drop size)

def deserialize (data : Bytes) : Except Error Program := do
  let (mark, data) ← takePart .magic 4 data
  if mark ≠ magic then .error .invalidMagic
  else
    let (number, data) ← takePart .version 2 data
    if ofLittleEndian number ≠ version then .error .invalidVersion
    else
      let (length, data) ← takePart .bodyLength 4 data
      let claimed := ofLittleEndian length
      if data.length < claimed then .error (.truncatedBody claimed data.length)
      else
        match Cbor.read (data.take claimed) >>= readProgram with
        | some p => .ok p
        | none => .error .undecodable

end Container
end VectorMachine
