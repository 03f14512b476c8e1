import VectorMachine.Assembly.Source
import VectorMachine.Instruction.Basic
import VectorMachine.Program

/-!
# Assembling

Constants are defined first, wherever their lines stand.  Then every instruction
is checked and encoded on its own, in the order of the source.  A terminator is
added unless the source ends with one.
-/

namespace VectorMachine
namespace Assembly

structure Assembler where
  builder : CodeBuilder := {}
  constants : Option (List Vec4) := none
  defined : List (Nat × Nat) := []
  inputs : Nat := 0
  outputs : Nat := 0
  /-- Whether the latest instruction was a terminator. -/
  lastDone : Bool := false

/-!
## Constants
-/

def vectorOf : List Float -> Vec4
  | [x] => Vec4.splat (Number.narrow x)
  | xs => Vec4.ofList (xs.map Number.narrow)

/-- Put a vector at an index of a table, which grows by zeros to reach there. -/
def place (table : List Vec4) (index : Nat) (v : Vec4) : List Vec4 :=
  (table ++ List.replicate (index + 1 - table.length) Vec4.zero).set index v

namespace Assembler

def defineConstant (a : Assembler) (c : ConstantLine) : Except Cause Assembler :=
  if 0 ≤ c.index ∧ c.index < Program.constantLimit then
    match a.defined.lookup c.index.toNat with
    | some line => .error (.redefined c.index line)
    | none =>
        .ok { a with
          defined := a.defined ++ [(c.index.toNat, c.line)]
          constants := some (place (a.constants.getD []) c.index.toNat (vectorOf c.values)) }
  else .error (.indexRange c.index)

/-!
## Instructions
-/

def operand (a : Assembler) : SourceOperand -> Except Cause (Operand × Assembler)
  | .reference .temp index text =>
      if index < Slot.tempCount then .ok (.register (Slot.temp index), a)
      else .error (.bankRange .temp text)
  | .reference .input index text =>
      if index < Slot.inputLimit then
        .ok (.register (Slot.input index), { a with inputs := max a.inputs (index + 1) })
      else .error (.bankRange .input text)
  | .reference .output index text =>
      if index < Slot.outputLimit then
        .ok (.register (Slot.output index), { a with outputs := max a.outputs (index + 1) })
      else .error (.bankRange .output text)
  | .reference .constant index text =>
      if (a.defined.lookup index).isSome then .ok (.constant (UInt8.ofNat index), a)
      else .error (.undefinedConstant text)
  | .number _ text => .error (.literal text)

def operands (a : Assembler) : List SourceOperand -> Except Cause (List Operand × Assembler)
  | [] => .ok ([], a)
  | o :: rest => do
      let (first, a) ← a.operand o
      let (others, a) ← a.operands rest
      .ok (first :: others, a)

def destination (a : Assembler) (o : SourceOperand) : Except Cause (Slot × Assembler) := do
  match ← a.operand o with
  | (.register slot, a) => .ok (slot, a)
  | (.constant _, _) => .error (.constantDestination o.text)

def assembleInstruction (a : Assembler) (i : SourceInstruction) : Except Cause Assembler := do
  match Opcode.ofName? (LetterCase.lower i.mnemonic) with
  | none => .error (.unknownMnemonic i.mnemonic)
  | some op =>
      match op.arity? with
      | none => .error (.notExecutable i.mnemonic)
      | some arity =>
          if op = .done then
            if i.operands.isEmpty then
              .ok { a with builder := a.builder.raw [Opcode.done.toByte], lastDone := true }
            else .error .terminatorOperands
          else if i.operands.length ≠ arity + 1 then
            .error (.operandCount op (arity + 1) i.operands.length)
          else
            match i.operands with
            | [] => .error (.operandCount op (arity + 1) 0)
            | first :: others =>
                let (dst, a) ← a.destination first
                let (sources, a) ← a.operands others
                let descriptor := Operand.descriptor sources
                if Operand.wired arity descriptor then
                  .ok { a with builder := a.builder.emit ⟨op, dst, sources⟩, lastDone := false }
                else .error (.unwired op descriptor)

/-!
## Programs
-/

/-- The program, without the terminator that the builder adds where the source has
ended with one. -/
def program (a : Assembler) : Program where
  code := some (if a.lastDone then a.builder.bytes.dropLast else a.builder.bytes)
  constants := a.constants
  inputs := a.inputs
  outputs := a.outputs

end Assembler

def onLine {α : Type} (line : Nat) (result : Except Cause α) : Except Error α :=
  result.mapError fun cause => ⟨line, cause⟩

def assembleSource (source : Source) : Except Error Program := do
  let a ← source.constants.foldlM
    (fun (a : Assembler) c => onLine c.line (a.defineConstant c)) {}
  let a ← source.instructions.foldlM
    (fun (a : Assembler) i => onLine i.line (a.assembleInstruction i)) a
  .ok a.program

def assemble (text : Text) : Except Error Program := do
  assembleSource (← Source.read text)

end Assembly
end VectorMachine
