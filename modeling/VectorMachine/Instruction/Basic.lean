import VectorMachine.Opcode.Basic

/-!
# Registers, operands and instructions

An instruction names an opcode, the register slot it writes, and its source
operands.  It is encoded as the opcode byte, the destination slot, a descriptor
byte whose bit `i` says that source `i` is a constant, and one byte per source.
The terminator is a single byte.
-/

namespace VectorMachine

/-!
## Register slots

The first slots are temporaries, the next ones inputs and the last ones outputs.
-/

abbrev Slot := UInt8

namespace Slot

def tempCount : Nat := 8

def inputLimit : Nat := 32

def outputLimit : Nat := 32

def firstInput : Nat := tempCount

def firstOutput : Nat := firstInput + inputLimit

def count : Nat := firstOutput + outputLimit

/-- The slot of a temporary; numbers that do not fit a byte wrap around. -/
def temp (n : Int) : Slot := UInt8.ofInt n

/-- The slot of an input; numbers that do not fit a byte wrap around. -/
def input (n : Int) : Slot := UInt8.ofInt (firstInput + n)

/-- The slot of an output; numbers that do not fit a byte wrap around. -/
def output (n : Int) : Slot := UInt8.ofInt (firstOutput + n)

/-- A letter for the group of the slot and the number within it.  A byte beyond
the last slot is written like a temporary. -/
def name (s : Slot) : Text :=
  let n := s.toNat
  if n < firstInput then 0x72 :: Text.ofNat n
  else if n < firstOutput then 0x69 :: Text.ofNat (n - firstInput)
  else if n < count then 0x6f :: Text.ofNat (n - firstOutput)
  else 0x72 :: Text.ofNat n

end Slot

/-!
## Operands
-/

inductive Operand where
  | register (slot : Slot)
  | constant (index : UInt8)
deriving DecidableEq

namespace Operand

def index : Operand -> UInt8
  | .register slot => slot
  | .constant index => index

def isConstant : Operand -> Bool
  | .register _ => false
  | .constant _ => true

def text : Operand -> Text
  | .register slot => Slot.name slot
  | .constant index => 0x63 :: Text.ofNat index.toNat

def ofByte (constant : Bool) (b : UInt8) : Operand :=
  if constant then .constant b else .register b

/-- The operands of a descriptor: bit `i` says that the `i`-th is a constant. -/
def ofBytes (descriptor : UInt8) : Bytes -> List Operand
  | [] => []
  | b :: rest => ofByte (descriptor &&& 1 != 0) b :: ofBytes (descriptor >>> 1) rest

/-- The descriptor of a list of operands.  Operands past the eighth have no bit. -/
def descriptor : List Operand -> UInt8
  | [] => 0
  | o :: rest => (descriptor rest <<< 1) ||| (if o.isConstant then 1 else 0)

/-- Whether so many operands may have the descriptor.  With three operands, a
constant in the last place alone is left out. -/
def wired (arity : Nat) (descriptor : UInt8) : Bool :=
  match arity with
  | 1 => descriptor ≤ 1
  | 2 => descriptor ≤ 3
  | 3 => descriptor ≤ 7 && descriptor != 4
  | _ => false

end Operand

/-!
## Instructions
-/

structure Instruction where
  op : Opcode
  dst : Slot
  sources : List Operand
deriving DecidableEq

namespace Instruction

def terminator : Instruction where
  op := .done
  dst := 0
  sources := []

def descriptor (i : Instruction) : UInt8 :=
  Operand.descriptor i.sources

def size (i : Instruction) : Nat :=
  if i.op = .done then 1 else 3 + i.sources.length

def fields (i : Instruction) : Bytes :=
  i.op.toByte :: i.dst :: i.descriptor :: i.sources.map Operand.index

/-- The encoding of an instruction, of which the terminator has one byte only. -/
def encode (i : Instruction) : Bytes :=
  if i.op = .done then [i.op.toByte] else i.fields

def text (i : Instruction) : Text :=
  if i.op = .done then i.op.name
  else
    Text.padRight 10 i.op.name ++ utf8 " "
      ++ Text.join (utf8 ", ") (Slot.name i.dst :: i.sources.map Operand.text)

end Instruction

/-!
## Building code
-/

structure CodeBuilder where
  code : Bytes := []

namespace CodeBuilder

def emit (b : CodeBuilder) (i : Instruction) : CodeBuilder :=
  ⟨b.code ++ i.fields⟩

def raw (b : CodeBuilder) (bytes : Bytes) : CodeBuilder :=
  ⟨b.code ++ bytes⟩

def size (b : CodeBuilder) : Nat :=
  b.code.length

def bytes (b : CodeBuilder) : Bytes :=
  b.code ++ [Opcode.done.toByte]

end CodeBuilder
end VectorMachine
