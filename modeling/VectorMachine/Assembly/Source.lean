import VectorMachine.Assembly.Error
import VectorMachine.Number.Read

/-!
# Source lines

A line of source holds nothing, one instruction, or one definition of a constant.
The tokens of all lines are read in one go, from statement to statement.
-/

namespace VectorMachine
namespace Assembly

inductive SourceOperand where
  | reference (bank : Bank) (index : Nat) (text : Text)
  | number (value : Float) (text : Text)
deriving DecidableEq

namespace SourceOperand

def text : SourceOperand -> Text
  | reference _ _ text => text
  | number _ text => text

end SourceOperand

def Bank.label : Bank -> String
  | temp => "temp register"
  | input => "input register"
  | output => "output register"
  | constant => "constant"

def operandLabelAt (n : Nat) : String :=
  match [Bank.temp, Bank.input, Bank.output, Bank.constant][n]? with
  | some bank => bank.label
  | none => "number"

structure SourceInstruction where
  mnemonic : Text
  operands : List SourceOperand
  line : Nat
deriving DecidableEq

structure ConstantLine where
  index : Int
  values : List Float
  line : Nat
deriving DecidableEq

structure Source where
  instructions : List SourceInstruction := []
  constants : List ConstantLine := []
deriving DecidableEq

/-!
## Operands
-/

def bankOf? : TokenKind -> Option Bank
  | .temp => some .temp
  | .input => some .input
  | .output => some .output
  | .constant => some .constant
  | _ => none

def readOperand (t : Token) : Except Error SourceOperand :=
  match bankOf? t.kind with
  | some bank =>
      match Number.readInt (t.value.drop 1) with
      | .ok n => .ok (.reference bank n.toNat t.value)
      | .error _ => .error ⟨t.line, .invalidIndex t.value⟩
  | none =>
      if t.kind = .number then
        match Number.readFloat t.value with
        | .ok x => .ok (.number x t.value)
        | .error _ => .error ⟨t.line, .invalidNumber t.value⟩
      else .error ⟨t.line, .unexpectedToken t.value⟩

/-- Read operands up to the end of the line, which is left with what follows.  Commas between
operands are optional. -/
def readOperandList : List Token -> Except Error (List SourceOperand × List Token)
  | [] => .ok ([], [])
  | t :: rest =>
      if t.kind = .newline ∨ t.kind = .endOfInput then .ok ([], t :: rest)
      else if t.kind = .comma then readOperandList rest
      else do
        let operand ← readOperand t
        let (operands, left) ← readOperandList rest
        .ok (operand :: operands, left)

/-!
## Statements
-/

def readValues (line : Nat) (operands : List SourceOperand) : Except Error (List Float) :=
  operands.mapM fun
    | .number x _ => .ok x
    | .reference _ _ text => .error ⟨line, .directiveOperand text⟩

/-- Read the index of a constant, which must be an integer of 64 bits. -/
def readIndex (line : Nat) : SourceOperand -> Except Error Int
  | .number x text =>
      match Number.toInt? x with
      | some n => if Number.fitsInt n then .ok n else .error ⟨line, .fractionalIndex text⟩
      | none => .error ⟨line, .fractionalIndex text⟩
  | .reference _ _ text => .error ⟨line, .directiveOperand text⟩

def constantOf (line : Nat) (operands : List SourceOperand) : Except Error ConstantLine := do
  match operands with
  | index :: values =>
      if values.length = 1 ∨ values.length = 4 then
        let index ← readIndex line index
        let values ← readValues line values
        .ok { index, values, line }
      else .error ⟨line, .directiveCount operands.length⟩
  | [] => .error ⟨line, .directiveCount 0⟩

def readInstruction (t : Token) (rest : List Token) :
    Except Error (SourceInstruction × List Token) := do
  let (operands, left) ← readOperandList rest
  .ok ({ mnemonic := t.value, operands, line := t.line }, left)

def readDirective (t : Token) (rest : List Token) : Except Error (ConstantLine × List Token) :=
  if t.value = utf8 ".const" then do
    let (operands, left) ← readOperandList rest
    let constant ← constantOf t.line operands
    .ok (constant, left)
  else .error ⟨t.line, .unknownDirective t.value⟩

theorem length_readOperandList {tokens left : List Token} {operands : List SourceOperand}
    (h : readOperandList tokens = .ok (operands, left)) : left.length ≤ tokens.length := by
  induction tokens generalizing operands with
  | nil =>
      cases h
      exact Nat.le_refl 0
  | cons t rest ih =>
      rw [readOperandList] at h
      split at h
      · cases h
        exact Nat.le_refl _
      · split at h
        · exact Nat.le_succ_of_le (ih h)
        · cases hfirst : readOperand t with
          | error e =>
              rw [hfirst] at h
              cases h
          | ok operand =>
              rw [hfirst] at h
              cases hrest : readOperandList rest with
              | error e =>
                  rw [hrest] at h
                  cases h
              | ok others =>
                  rw [hrest] at h
                  cases h
                  exact Nat.le_succ_of_le (ih hrest)

theorem length_readInstruction {t : Token} {rest left : List Token} {i : SourceInstruction}
    (h : readInstruction t rest = .ok (i, left)) : left.length ≤ rest.length := by
  unfold readInstruction at h
  cases hlist : readOperandList rest with
  | error e =>
      rw [hlist] at h
      cases h
  | ok result =>
      rw [hlist] at h
      cases h
      exact length_readOperandList hlist

theorem length_readDirective {t : Token} {rest left : List Token} {c : ConstantLine}
    (h : readDirective t rest = .ok (c, left)) : left.length ≤ rest.length := by
  unfold readDirective at h
  split at h
  · cases hlist : readOperandList rest with
    | error e =>
        rw [hlist] at h
        cases h
    | ok result =>
        rw [hlist] at h
        cases hconstant : constantOf t.line result.1 with
        | error e =>
            simp only [hconstant, bind, Except.bind] at h
            cases h
        | ok constant =>
            simp only [hconstant, bind, Except.bind] at h
            cases h
            exact length_readOperandList hlist
  · cases h

/-!
## Sources
-/

namespace Source

def consInstruction (i : SourceInstruction) (s : Source) : Source :=
  { s with instructions := i :: s.instructions }

def consConstant (c : ConstantLine) (s : Source) : Source :=
  { s with constants := c :: s.constants }

/-- Read statements up to the end of the input.  The first one that breaks a rule
decides the error. -/
def readFrom : List Token -> Except Error Source
  | [] => .ok {}
  | t :: rest =>
      match t.kind with
      | .endOfInput => .ok {}
      | .newline => readFrom rest
      | .word =>
          match _h : readInstruction t rest with
          | .error e => .error e
          | .ok (i, left) => (readFrom left).map (consInstruction i)
      | .directive =>
          match _h : readDirective t rest with
          | .error e => .error e
          | .ok (c, left) => (readFrom left).map (consConstant c)
      | _ => .error ⟨t.line, .unexpectedStart t.kind t.value⟩
termination_by tokens => tokens.length
decreasing_by
  · exact Nat.lt_succ_self _
  · exact Nat.lt_succ_of_le (length_readInstruction _h)
  · exact Nat.lt_succ_of_le (length_readDirective _h)

def read (text : Text) : Except Error Source :=
  readFrom (Token.scan text)

end Source
end Assembly
end VectorMachine
