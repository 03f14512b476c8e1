import VectorMachine.Instruction.Basic

/-!
# Decoding

Reading code without running it: the instructions up to and including the
terminator, or up to the first place where the code makes no sense.
-/

namespace VectorMachine

structure Placed where
  offset : Nat
  instruction : Instruction
deriving DecidableEq

inductive DecodeError where
  | missingTerminator (offset : Nat)
  | unknownOpcode (code : UInt8) (offset : Nat)
  | truncated (op : Opcode) (offset : Nat)
  | unwired (op : Opcode) (descriptor : UInt8) (offset : Nat)
  | truncatedOperands (op : Opcode) (offset : Nat)
deriving DecidableEq

namespace DecodeError

def offset : DecodeError -> Nat
  | missingTerminator o => o
  | unknownOpcode _ o => o
  | truncated _ o => o
  | unwired _ _ o => o
  | truncatedOperands _ o => o

def atOffset (o : Nat) : Text :=
  utf8 " at offset " ++ Text.ofNat o

def message : DecodeError -> Text
  | missingTerminator o =>
      utf8 "malformed program: missing terminator after offset " ++ Text.ofNat o
  | unknownOpcode code o =>
      utf8 "unknown opcode: 0x" ++ Text.hex 2 code.toNat ++ atOffset o
  | truncated op o =>
      utf8 "malformed program: truncated " ++ op.name ++ atOffset o
  | unwired op descriptor o =>
      utf8 "unwired operand descriptor: " ++ op.name ++ utf8 " descriptor 0x"
        ++ Text.hex 2 descriptor.toNat ++ atOffset o
  | truncatedOperands op o =>
      utf8 "malformed program: truncated " ++ op.name ++ utf8 " operands" ++ atOffset o

end DecodeError

namespace Instruction

def decodeFrom (offset : Nat) : Bytes -> List Placed × Option DecodeError
  | [] => ([], some (.missingTerminator offset))
  | code :: rest =>
      let op := Opcode.ofByte code
      if op = .done then
        ([⟨offset, terminator⟩], none)
      else
        match op.arity? with
        | none => ([], some (.unknownOpcode code offset))
        | some arity =>
            match rest with
            | dst :: descriptor :: operands =>
                if ¬Operand.wired arity descriptor then
                  ([], some (.unwired op descriptor offset))
                else if operands.length < arity then
                  ([], some (.truncatedOperands op offset))
                else
                  let sources := Operand.ofBytes descriptor (operands.take arity)
                  let (more, error) := decodeFrom (offset + 3 + arity) (operands.drop arity)
                  (⟨offset, ⟨op, dst, sources⟩⟩ :: more, error)
            | _ => ([], some (.truncated op offset))
termination_by bytes => bytes.length
decreasing_by simp only [List.length_cons, List.length_drop]; omega

/-- The instructions of the code up to and including the terminator, and what
stopped the decoding before one was found. -/
def decode (code : Bytes) : List Placed × Option DecodeError :=
  decodeFrom 0 code

end Instruction
end VectorMachine
