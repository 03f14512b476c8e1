import VectorMachine.Assembly.Token
import VectorMachine.Opcode.Basic
import VectorMachine.Text.Quoted

/-!
# Errors of the assembler

Every error names its line, the rule that was broken, and what broke it.
-/

namespace VectorMachine
namespace Assembly

inductive Bank where
  | temp
  | input
  | output
  | constant
deriving DecidableEq

inductive Rule where
  | knownMnemonic
  | operandCount
  | goodOperand
  | registerDestination
  | constantIndex
  | wiredDescriptor
deriving DecidableEq

def Rule.text : Rule -> String
  | knownMnemonic => "unknown mnemonic"
  | operandCount => "wrong operand count"
  | goodOperand => "bad operand"
  | registerDestination => "destination must be a register"
  | constantIndex => "bad constant index"
  | wiredDescriptor => "unwired operand descriptor"

inductive Cause where
  /-- A line starts with a token that starts nothing. -/
  | unexpectedStart (kind : TokenKind) (value : Text)
  | unknownDirective (name : Text)
  | directiveCount (got : Nat)
  | directiveOperand (text : Text)
  /-- The index of a constant is no integer. -/
  | fractionalIndex (text : Text)
  | invalidNumber (text : Text)
  | unexpectedToken (value : Text)
  /-- The number of a register or constant is too large to be one. -/
  | invalidIndex (text : Text)
  | indexRange (index : Int)
  | redefined (index : Int) (line : Nat)
  | unknownMnemonic (mnemonic : Text)
  | notExecutable (mnemonic : Text)
  | terminatorOperands
  | operandCount (op : Opcode) (expected got : Nat)
  | bankRange (bank : Bank) (text : Text)
  | undefinedConstant (text : Text)
  | literal (text : Text)
  | constantDestination (text : Text)
  | unwired (op : Opcode) (descriptor : UInt8)
deriving DecidableEq

namespace Cause

def rule : Cause -> Rule
  | unexpectedStart _ _ => .goodOperand
  | unknownDirective _ => .knownMnemonic
  | directiveCount _ => .operandCount
  | directiveOperand _ => .goodOperand
  | fractionalIndex _ => .constantIndex
  | invalidNumber _ => .goodOperand
  | unexpectedToken _ => .goodOperand
  | invalidIndex _ => .goodOperand
  | indexRange _ => .constantIndex
  | redefined _ _ => .constantIndex
  | unknownMnemonic _ => .knownMnemonic
  | notExecutable _ => .knownMnemonic
  | terminatorOperands => .operandCount
  | operandCount _ _ _ => .operandCount
  | bankRange _ _ => .goodOperand
  | undefinedConstant _ => .constantIndex
  | literal _ => .goodOperand
  | constantDestination _ => .registerDestination
  | unwired _ _ => .wiredDescriptor

def bankText : Bank -> String
  | .temp => "temps are r0-r7"
  | .input => "inputs are i0-i31"
  | .output => "outputs are o0-o31"
  | .constant => "constants are c0-c255"

def detail : Cause -> Text
  | unexpectedStart kind value =>
      utf8 "unexpected " ++ utf8 kind.label ++ utf8 " " ++ Quoted.quote value
        ++ utf8 " at start of line"
  | unknownDirective name => utf8 "unknown directive " ++ name
  | directiveCount got =>
      utf8 ".const takes an index and 1 or 4 values, got " ++ Text.ofNat got ++ utf8 " operands"
  | directiveOperand text => utf8 ".const expects numbers, got " ++ text
  | fractionalIndex text => text
  | invalidNumber text => utf8 "invalid number " ++ text
  | unexpectedToken value => utf8 "unexpected token " ++ Quoted.quote value
  | invalidIndex text => utf8 "invalid index " ++ text
  | indexRange index => utf8 "c" ++ Text.ofInt index ++ utf8 " (max 255)"
  | redefined index line =>
      utf8 "c" ++ Text.ofInt index ++ utf8 " already defined on line " ++ Text.ofNat line
  | unknownMnemonic mnemonic => mnemonic
  | notExecutable mnemonic => mnemonic ++ utf8 " is not executable"
  | terminatorOperands => utf8 "done takes no operands"
  | operandCount op expected got =>
      op.name ++ utf8 " expects " ++ Text.ofNat expected ++ utf8 " operands, got "
        ++ Text.ofNat got
  | bankRange bank text => text ++ utf8 " (" ++ utf8 (bankText bank) ++ utf8 ")"
  | undefinedConstant text => text ++ utf8 " is not defined"
  | literal text => utf8 "literal " ++ text ++ utf8 ", use a .const"
  | constantDestination text => text
  | unwired op descriptor =>
      op.name ++ utf8 " with descriptor 0x" ++ Text.hex 2 descriptor.toNat

end Cause

structure Error where
  line : Nat
  cause : Cause
deriving DecidableEq

def Error.message (e : Error) : Text :=
  utf8 "line " ++ Text.ofNat e.line ++ utf8 ": " ++ utf8 e.cause.rule.text ++ utf8 ": "
    ++ e.cause.detail

end Assembly
end VectorMachine
