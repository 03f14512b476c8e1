import VectorMachine.Instruction.Decode
import VectorMachine.Opcode.Catalog
import VectorMachine.Program

/-!
# Listings

The text of a program as assembly source, with the offset and title of every
instruction in comments.
-/

namespace VectorMachine
namespace Listing

def constantText (v : Vec4) : Text :=
  if v.x == v.y && v.y == v.z && v.z == v.w then
    Number.text32 v.x
  else
    Text.join (utf8 ", ") (v.toList.map Number.text32)

def constantLine (index : Nat) (v : Vec4) : Text :=
  utf8 ".const " ++ Text.ofNat index ++ utf8 " " ++ constantText v ++ utf8 "\n"

def comment (p : Placed) : Text :=
  Text.hex 4 p.offset
    ++ (if p.instruction.op = .done then []
        else
          match Catalog.canonical? p.instruction.op with
          | some entry => utf8 " " ++ utf8 entry.title
          | none => [])

def instructionLine (p : Placed) : Text :=
  Text.padRight 32 p.instruction.text ++ utf8 " ; " ++ comment p ++ utf8 "\n"

def headLines (p : Program) : Text :=
  utf8 "; Disassembled from VVM bytecode\n; " ++ Text.ofNat p.codeBytes.length
    ++ utf8 " bytes, " ++ Text.ofNat p.constantTable.length ++ utf8 " constants, "
    ++ Text.ofInt p.inputs ++ utf8 " inputs, " ++ Text.ofInt p.outputs ++ utf8 " outputs\n\n"

def constantLines (constants : List Vec4) : Text :=
  (constants.zipIdx.flatMap fun (v, index) => constantLine index v)
    ++ (if constants.isEmpty then [] else utf8 "\n")

/-- The listing of a program.  It ends at the first place that cannot be decoded,
with the reason in a comment. -/
def disassemble (p : Program) : Text :=
  let (placed, error) := Instruction.decode p.codeBytes
  headLines p ++ constantLines p.constantTable ++ placed.flatMap instructionLine
    ++ (match error with
        | some e => utf8 "; error: " ++ e.message ++ utf8 "\n"
        | none => [])

end Listing
end VectorMachine
