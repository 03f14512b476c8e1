import VectorMachine.Kernel

/-!
# Opcodes

Every byte is an opcode.  The first thirty-nine have a mnemonic, and all of those
but the terminator and the reserved texture look-up have a kernel.
-/

namespace VectorMachine

inductive Opcode where
  | done
  | add
  | sub
  | mul
  | mad
  | lerp
  | rcp
  | rsq
  | sqrt
  | neg
  | abs
  | exp
  | exp2
  | log
  | log2
  | sin
  | cos
  | tan
  | asin
  | acos
  | atan
  | atan2
  | ceil
  | floor
  | fmod
  | frac
  | trunc
  | clamp
  | min
  | max
  | pow
  | sign
  | step
  | texLookup
  | dot
  | cross
  | normalize
  | random
  | length
  /-- A byte without a mnemonic of its own. -/
  | undefined (code : UInt8) (outside : 39 ≤ code)
deriving DecidableEq

namespace Opcode

def all : List Opcode :=
  [done, add, sub, mul, mad, lerp, rcp, rsq, sqrt, neg, abs, exp, exp2, log, log2, sin, cos,
    tan, asin, acos, atan, atan2, ceil, floor, fmod, frac, trunc, clamp, min, max, pow, sign,
    step, texLookup, dot, cross, normalize, random, length]

def ofByte (code : UInt8) : Opcode :=
  if h : code < 39 then
    all.get ⟨code.toNat, h⟩
  else
    undefined code (UInt8.not_lt.mp h)

def toByte : Opcode -> UInt8
  | done => 0x00
  | add => 0x01
  | sub => 0x02
  | mul => 0x03
  | mad => 0x04
  | lerp => 0x05
  | rcp => 0x06
  | rsq => 0x07
  | sqrt => 0x08
  | neg => 0x09
  | abs => 0x0a
  | exp => 0x0b
  | exp2 => 0x0c
  | log => 0x0d
  | log2 => 0x0e
  | sin => 0x0f
  | cos => 0x10
  | tan => 0x11
  | asin => 0x12
  | acos => 0x13
  | atan => 0x14
  | atan2 => 0x15
  | ceil => 0x16
  | floor => 0x17
  | fmod => 0x18
  | frac => 0x19
  | trunc => 0x1a
  | clamp => 0x1b
  | min => 0x1c
  | max => 0x1d
  | pow => 0x1e
  | sign => 0x1f
  | step => 0x20
  | texLookup => 0x21
  | dot => 0x22
  | cross => 0x23
  | normalize => 0x24
  | random => 0x25
  | length => 0x26
  | undefined code _ => code

theorem toByte_ofByte (code : UInt8) : (ofByte code).toByte = code := by
  unfold ofByte
  split
  next h =>
    have listed : forall n : Fin 39, (all.get n).toByte = UInt8.ofNat n.val := by decide
    exact (listed ⟨code.toNat, h⟩).trans UInt8.ofNat_toNat
  next => rfl

theorem ofByte_toByte (op : Opcode) : ofByte op.toByte = op := by
  cases op with
  | undefined code outside =>
      have large : ¬code < 39 := UInt8.not_lt.mpr outside
      simp [toByte, ofByte, large]
  | _ => rfl

/-!
## Mnemonics
-/

def mnemonic : Opcode -> String
  | done => "done"
  | add => "add"
  | sub => "sub"
  | mul => "mul"
  | mad => "mad"
  | lerp => "lerp"
  | rcp => "rcp"
  | rsq => "rsq"
  | sqrt => "sqrt"
  | neg => "neg"
  | abs => "abs"
  | exp => "exp"
  | exp2 => "exp2"
  | log => "log"
  | log2 => "log2"
  | sin => "sin"
  | cos => "cos"
  | tan => "tan"
  | asin => "asin"
  | acos => "acos"
  | atan => "atan"
  | atan2 => "atan2"
  | ceil => "ceil"
  | floor => "floor"
  | fmod => "fmod"
  | frac => "frac"
  | trunc => "trunc"
  | clamp => "clamp"
  | min => "min"
  | max => "max"
  | pow => "pow"
  | sign => "sign"
  | step => "step"
  | texLookup => "tex_lookup"
  | dot => "dot"
  | cross => "cross"
  | normalize => "normalize"
  | random => "random"
  | length => "length"
  | undefined code _ => if code = 0xff then "invalid" else "unknown"

def name (op : Opcode) : Text :=
  utf8 op.mnemonic

def ofName? (name : Text) : Option Opcode :=
  all.find? fun op => op.name = name

/-!
## Arities
-/

/-- How many source operands an opcode takes.  The terminator takes none, and the
reserved opcodes have no arity. -/
def arity? : Opcode -> Option Nat
  | done => some 0
  | rcp | rsq | sqrt | neg | abs | exp | exp2 | log | log2 | sin | cos | tan | asin | acos
  | atan | ceil | floor | frac | trunc | sign | normalize | random | length => some 1
  | add | sub | mul | atan2 | fmod | min | max | pow | step | dot | cross => some 2
  | mad | lerp | clamp => some 3
  | texLookup | undefined _ _ => none

/-!
## Kernels
-/

def kernel? : Opcode -> Option Kernel
  | add => some (.binary Kernel.add)
  | sub => some (.binary Kernel.sub)
  | mul => some (.binary Kernel.mul)
  | mad => some (.trinary Kernel.mad)
  | lerp => some (.trinary Kernel.lerp)
  | rcp => some (.unary Kernel.rcp)
  | rsq => some (.unary Kernel.rsq)
  | sqrt => some (.unary Kernel.sqrt)
  | neg => some (.unary Kernel.neg)
  | abs => some (.unary Kernel.abs)
  | exp => some (.unary Kernel.exp)
  | exp2 => some (.unary Kernel.exp2)
  | log => some (.unary Kernel.log)
  | log2 => some (.unary Kernel.log2)
  | sin => some (.unary Kernel.sin)
  | cos => some (.unary Kernel.cos)
  | tan => some (.unary Kernel.tan)
  | asin => some (.unary Kernel.asin)
  | acos => some (.unary Kernel.acos)
  | atan => some (.unary Kernel.atan)
  | atan2 => some (.binary Kernel.atan2)
  | ceil => some (.unary Kernel.ceil)
  | floor => some (.unary Kernel.floor)
  | fmod => some (.binary Kernel.fmod)
  | frac => some (.unary Kernel.frac)
  | trunc => some (.unary Kernel.trunc)
  | clamp => some (.trinary Kernel.clamp)
  | min => some (.binary Kernel.min)
  | max => some (.binary Kernel.max)
  | pow => some (.binary Kernel.pow)
  | sign => some (.unary Kernel.sign)
  | step => some (.binary Kernel.step)
  | dot => some (.binary Kernel.dot)
  | cross => some (.binary Kernel.cross)
  | normalize => some (.unary Kernel.normalize)
  | random => some (.drawing Kernel.random)
  | length => some (.unary Kernel.length)
  | done => none
  | texLookup => none
  | undefined _ _ => none

end Opcode
end VectorMachine
