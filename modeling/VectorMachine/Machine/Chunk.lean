import VectorMachine.Instruction.Basic
import VectorMachine.Machine.Generator
import VectorMachine.Machine.Store

/-!
# Chunks

A program runs over one chunk of lanes at a time: every instruction is fetched,
checked, and carried out on all lanes of the chunk before the next one.  Whether
it can be carried out depends on the code, the policy and the numbers of
registers and constants alone, never on what the lanes hold.
-/

namespace VectorMachine

/-- What happens at a descriptor without a kernel call. -/
inductive Policy where
  /-- The instruction is passed over, and its operand bytes are not consumed. -/
  | legacy
  | strict
deriving DecidableEq

def Policy.text : Policy -> String
  | legacy => "legacy"
  | strict => "strict"

def Policy.ofByte (b : UInt8) : Policy :=
  if b = 1 then strict else legacy

/-- Why an instruction could not be carried out, and the offset of it. -/
inductive Fault where
  /-- Something with `length` elements was asked for element `index`. -/
  | outOfRange (index length offset : Nat)
  | unknownOpcode (code : UInt8) (offset : Nat)
  | unwired (op : Opcode) (descriptor : UInt8) (offset : Nat)
deriving DecidableEq

namespace Chunk

def size : Nat := 128

structure Frame where
  policy : Policy
  codeLength : Nat
  constants : List Vec4
  windows : Slot -> Option Window
  lanes : Nat

/-!
## Calls by descriptor

A kernel is called by the template for its number of operands.  The template has a
case for each descriptor that it knows, which says where the operands come from.
-/

inductive Origin where
  | register
  | constant
deriving DecidableEq

def unaryCase? : UInt8 -> Option (List Origin)
  | 0x00 => some [.register]
  | 0x01 => some [.constant]
  | _ => none

def binaryCase? : UInt8 -> Option (List Origin)
  | 0x00 => some [.register, .register]
  | 0x01 => some [.constant, .register]
  | 0x02 => some [.register, .constant]
  | 0x03 => some [.constant, .constant]
  | _ => none

def trinaryCase? : UInt8 -> Option (List Origin)
  | 0x00 => some [.register, .register, .register]
  | 0x01 => some [.constant, .register, .register]
  | 0x02 => some [.register, .constant, .register]
  | 0x03 => some [.constant, .constant, .register]
  | 0x05 => some [.constant, .register, .constant]
  | 0x06 => some [.register, .constant, .constant]
  | 0x07 => some [.constant, .constant, .constant]
  | _ => none

def case? : Kernel -> UInt8 -> Option (List Origin)
  | .unary _ => unaryCase?
  | .binary _ => binaryCase?
  | .trinary _ => trinaryCase?
  | .drawing _ => unaryCase?

/-!
## Fetching
-/

structure Call where
  op : Opcode
  kernel : Kernel
  dst : Slot
  sources : List Operand

inductive Fetched where
  | halt
  | skip (op : Opcode)
  | call (c : Call)

def byte (f : Frame) (offset : Nat) : Option UInt8 -> Except Fault UInt8
  | some b => .ok b
  | none => .error (.outOfRange f.codeLength f.codeLength offset)

/-- A register slot; a number beyond the last slot is a fault. -/
def slot (offset : Nat) (b : UInt8) : Except Fault Slot :=
  if b.toNat < Slot.count then .ok b
  else .error (.outOfRange b.toNat Slot.count offset)

/-- A source operand; an index beyond the constant table is a fault too. -/
def source (f : Frame) (offset : Nat) (b : UInt8) : Origin -> Except Fault Operand
  | .register => (slot offset b).map Operand.register
  | .constant =>
      if b.toNat < f.constants.length then .ok (.constant b)
      else .error (.outOfRange b.toNat f.constants.length offset)

def sources (f : Frame) (offset : Nat) : List Origin -> Bytes -> Except Fault (List Operand)
  | [], _ => .ok []
  | origin :: more, bytes => do
      let b ← byte f offset bytes.head?
      let first ← source f offset b origin
      let others ← sources f offset more bytes.tail
      .ok (first :: others)

def fetch (f : Frame) (offset : Nat) (code : UInt8) (rest : Bytes) : Except Fault Fetched :=
  let op := Opcode.ofByte code
  if op = .done then .ok .halt
  else
    match op.kernel? with
    | none => .error (.unknownOpcode code offset)
    | some kernel => do
        let dst ← byte f offset rest[0]? >>= slot offset
        let descriptor ← byte f offset rest[1]?
        match case? kernel descriptor with
        | some origins =>
            let sources ← sources f offset origins (rest.drop 2)
            .ok (.call { op, kernel, dst, sources })
        | none =>
            match f.policy with
            | .legacy => .ok (.skip op)
            | .strict => .error (.unwired op descriptor offset)

/-!
## Carrying out
-/

structure State where
  store : Store
  generator : Generator
  /-- The opcodes carried out or passed over so far, the latest first. -/
  dispatched : List Opcode := []

def bound (f : Frame) : Operand -> Bool
  | .register s => (f.windows s).isSome
  | .constant _ => true

def value (f : Frame) (store : Store) (lane : Nat) : Operand -> Vec4
  | .register s =>
      match f.windows s with
      | some w => store.get (w.cell lane)
      | none => Vec4.zero
  | .constant index => f.constants[index.toNat]?.getD Vec4.zero

def runLane (f : Frame) (c : Call) (w : Window) (s : State) (lane : Nat) : State :=
  let operands := c.sources.map (value f s.store lane)
  let (drawn, generator) :=
    if c.kernel.draws then s.generator.nextVector else (Vec4.zero, s.generator)
  { s with
    store := s.store.set (w.cell lane) (c.kernel.eval drawn operands)
    generator }

/-- Carry out an instruction on all lanes, one after another.  It fails before
the first lane when a register it names is not bound. -/
def runCall (f : Frame) (offset : Nat) (c : Call) (s : State) : Except Fault State :=
  match f.windows c.dst with
  | some w =>
      if c.sources.all (bound f) then
        .ok ((List.range f.lanes).foldl (runLane f c w) s)
      else .error (.outOfRange 0 0 offset)
  | none => .error (.outOfRange 0 0 offset)

def State.count (s : State) (op : Opcode) : State :=
  { s with dispatched := op :: s.dispatched }

/-- Run the code from the given offset up to its terminator.  The state is the
one at the end or at the fault. -/
def runFrom (f : Frame) (offset : Nat) (s : State) : Bytes -> State × Option Fault
  | [] => (s, some (.outOfRange f.codeLength f.codeLength offset))
  | code :: rest =>
      match fetch f offset code rest with
      | .error fault => (s, some fault)
      | .ok .halt => (s, none)
      | .ok (.skip op) => runFrom f (offset + 3) (s.count op) (rest.drop 2)
      | .ok (.call c) =>
          match runCall f offset c s with
          | .error fault => (s, some fault)
          | .ok s =>
              runFrom f (offset + 3 + c.sources.length) (s.count c.op)
                (rest.drop (2 + c.sources.length))
termination_by code => code.length
decreasing_by all_goals (simp only [List.length_cons, List.length_drop]; omega)

end Chunk
end VectorMachine
