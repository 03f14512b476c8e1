import VectorMachine.Opcode.Basic

/-!
# The opcode catalog

A table for tools: which operand patterns of which opcodes have a name, and what
is known about them.  One opcode may have several entries, of which the first is
the canonical one.  The last entry is a sentinel.  The machine itself never looks
at this table.
-/

namespace VectorMachine
namespace Catalog

inductive OperandKind where
  | register
  | constant
  | absent
deriving DecidableEq

def OperandKind.text : OperandKind -> String
  | .register => "reg"
  | .constant => "const"
  | .absent => "-"

def OperandKind.ofByte (b : UInt8) : OperandKind :=
  if b = 0 then .register else if b = 1 then .constant else .absent

structure Flags where
  implemented : Bool
  /-- The first two operands may be swapped. -/
  commutative : Bool
deriving DecidableEq

def Flags.ofByte (b : UInt8) : Flags where
  implemented := b &&& 1 != 0
  commutative := b &&& 2 != 0

def Flags.text (f : Flags) : String :=
  match f.implemented, f.commutative with
  | false, false => "none"
  | true, false => "implemented"
  | false, true => "commutative"
  | true, true => "implemented|commutative"

structure Entry where
  op : Opcode
  flags : Flags
  first : OperandKind
  second : OperandKind
  third : OperandKind
  title : String
deriving DecidableEq

def Entry.operands (e : Entry) : List OperandKind :=
  [e.first, e.second, e.third]

/-- An entry that is only a name for an operand pattern. -/
def pattern (op : Opcode) (first second third : OperandKind) (title : String) : Entry :=
  ⟨op, ⟨false, false⟩, first, second, third, title⟩

def carried (op : Opcode) (first second third : OperandKind) (title : String) : Entry :=
  ⟨op, ⟨true, false⟩, first, second, third, title⟩

/-- An entry that the machine carries out and whose first two operands may be
swapped. -/
def symmetric (op : Opcode) (first second third : OperandKind) (title : String) : Entry :=
  ⟨op, ⟨true, true⟩, first, second, third, title⟩

def sentinel : Entry :=
  pattern (.undefined 0xff (by decide)) .absent .absent .absent "invalid"

open OperandKind in
def entries : List Entry :=
  [pattern .done absent absent absent "done",
    symmetric .add register register absent "Add",
    pattern .add register constant absent "addi",
    carried .sub register register absent "Sub",
    pattern .sub register constant absent "subi",
    symmetric .mul register register absent "Multiply",
    pattern .mul register constant absent "muli",
    symmetric .mad register register register "Multiply-Add",
    pattern .mad register register constant "madrri",
    pattern .mad register constant register "madrir",
    pattern .mad register constant constant "madrii",
    pattern .mad constant constant register "madiir",
    pattern .mad constant constant constant "madiii",
    carried .lerp register register register "Lerp",
    pattern .lerp constant register register "lerpirr",
    pattern .lerp register constant register "lerprir",
    pattern .lerp register register constant "lerprri",
    pattern .lerp constant constant register "lerpiir",
    carried .rcp register absent absent "Reciprocal",
    carried .rsq register absent absent "Reciprocal Sqrt",
    carried .sqrt register absent absent "Sqrt",
    carried .neg register absent absent "Negate",
    carried .abs register absent absent "Absolute",
    carried .exp register absent absent "Exp",
    carried .exp2 register absent absent "Exp2",
    carried .log register absent absent "Log",
    carried .log2 register absent absent "Log base 2",
    carried .sin register absent absent "Sin",
    pattern .sin constant absent absent "sini",
    carried .cos register absent absent "Cos",
    carried .tan register absent absent "Tan",
    carried .asin register absent absent "Arcsin",
    carried .acos register absent absent "Arccos",
    carried .atan register absent absent "Arctan",
    carried .atan2 register register absent "Arctan2",
    carried .ceil register absent absent "Round up",
    carried .floor register absent absent "Round down",
    carried .fmod register register absent "Modulo",
    carried .frac register absent absent "Fractional",
    carried .trunc register absent absent "Trunc",
    carried .clamp register register register "Clamp",
    pattern .clamp register constant register "clampir",
    pattern .clamp register register constant "clampri",
    pattern .clamp register constant constant "clampii",
    carried .min register register absent "Min",
    pattern .min register constant absent "mini",
    carried .max register register absent "Max",
    pattern .max register constant absent "maxi",
    carried .pow register register absent "Pow",
    pattern .pow register constant absent "powi",
    carried .sign register absent absent "Sign",
    carried .step register register absent "Step",
    pattern .step register constant absent "stepi",
    pattern .texLookup absent absent absent "tex1d",
    carried .dot register register absent "Dot Product",
    symmetric .cross register register absent "Cross Product",
    pattern .cross register constant absent "Cross Product with const",
    carried .normalize register absent absent "Normalize",
    carried .random constant absent absent "Random",
    carried .length register absent absent "Vector Length",
    pattern .length constant absent absent "Vector Length (const)",
    sentinel]

/-!
## Look-up
-/

/-- The entry at an index.  An index outside the table is moved to its nearer
end. -/
def entryAt (index : Int) : Entry :=
  entries[index.toNat]?.getD sentinel

structure IndexError where
  index : Int

def IndexError.message (e : IndexError) : Text :=
  utf8 "opcode info index out of range: " ++ Text.ofInt e.index
    ++ utf8 " (table has " ++ Text.ofNat entries.length ++ utf8 " entries)"

def lookup (index : Int) : Except IndexError Entry :=
  if 0 ≤ index then
    match entries[index.toNat]? with
    | some entry => .ok entry
    | none => .error ⟨index⟩
  else .error ⟨index⟩

/-- The first entry of an opcode that has a mnemonic. -/
def canonical? (op : Opcode) : Option Entry :=
  match op with
  | .undefined _ _ => none
  | _ => entries.find? fun entry => entry.op = op

end Catalog
end VectorMachine
