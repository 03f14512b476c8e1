import VectorMachine.Number.Elementary
import VectorMachine.Vec4

/-!
# Kernels

The functions that instructions apply to their operands, lane by lane.  All
arithmetic is single precision and rounds after every operation; functions that
go through double precision round once at the end.
-/

namespace VectorMachine
namespace Kernel

open Number (widen narrow)

/-!
## Numbers
-/

def viaDouble (f : Float -> Float) (a : Float32) : Float32 :=
  narrow (f (widen a))

def viaDouble₂ (f : Float -> Float -> Float) (a b : Float32) : Float32 :=
  narrow (f (widen a) (widen b))

def sqrtOf : Float32 -> Float32 :=
  viaDouble Float.sqrt

def inverseSqrtOf : Float32 -> Float32 :=
  viaDouble fun d => 1 / d.sqrt

/-- The lesser of two numbers; the second when they are equal or unordered. -/
def lesser (a b : Float32) : Float32 :=
  if a < b then a else b

/-- The greater of two numbers; the second when they are equal or unordered. -/
def greater (a b : Float32) : Float32 :=
  if b < a then a else b

def signOf (a : Float32) : Float32 :=
  if 0 < a then 1 else if a < 0 then -1 else 0

def stepAt (edge a : Float32) : Float32 :=
  if edge ≤ a then 1 else 0

def dotOf (a b : Vec4) : Float32 :=
  a.x * b.x + a.y * b.y + a.z * b.z + a.w * b.w

/-!
## Arithmetic
-/

def add (a b : Vec4) : Vec4 := a.zip (· + ·) b

def sub (a b : Vec4) : Vec4 := a.zip (· - ·) b

def mul (a b : Vec4) : Vec4 := a.zip (· * ·) b

/-- The product of the first two operands plus the third. -/
def mad (a b c : Vec4) : Vec4 := add (mul a b) c

def lerp (a b t : Vec4) : Vec4 :=
  mad b t (mul a (sub (Vec4.splat 1) t))

def neg (a : Vec4) : Vec4 := a.map (- ·)

def abs (a : Vec4) : Vec4 := a.map Float32.abs

def rcp (a : Vec4) : Vec4 := a.map (1 / ·)

def rsq (a : Vec4) : Vec4 := a.map inverseSqrtOf

def sqrt (a : Vec4) : Vec4 := a.map sqrtOf

/-!
## Elementary functions
-/

def exp (a : Vec4) : Vec4 := a.map (viaDouble Number.exp)

def exp2 (a : Vec4) : Vec4 := a.map (viaDouble Number.exp2)

def log (a : Vec4) : Vec4 := a.map (viaDouble Number.log)

def log2 (a : Vec4) : Vec4 := a.map (viaDouble Number.log2)

/-- The sine of the first component, counted in half turns, in all components. -/
def sin (a : Vec4) : Vec4 :=
  Vec4.splat (viaDouble (fun d => Number.sin (d * Number.pi)) a.x)

def cos (a : Vec4) : Vec4 := a.map (viaDouble Number.cos)

def tan (a : Vec4) : Vec4 := a.map (viaDouble Number.tan)

def asin (a : Vec4) : Vec4 := a.map (viaDouble Number.asin)

def acos (a : Vec4) : Vec4 := a.map (viaDouble Number.acos)

def atan (a : Vec4) : Vec4 := a.map (viaDouble Number.atan)

def atan2 (a b : Vec4) : Vec4 := a.zip (viaDouble₂ Number.atan2) b

def pow (a b : Vec4) : Vec4 := a.zip (viaDouble₂ Number.pow) b

/-!
## Rounding and range
-/

def ceil (a : Vec4) : Vec4 := a.map (viaDouble Number.ceil)

def floor (a : Vec4) : Vec4 := a.map (viaDouble Number.floor)

def trunc (a : Vec4) : Vec4 := a.map (viaDouble Number.trunc)

def frac (a : Vec4) : Vec4 := sub a (floor a)

/-- The remainder of a division toward zero, with the sign of the dividend. -/
def fmod (a b : Vec4) : Vec4 := a.zip (viaDouble₂ Number.remainder) b

def min (a b : Vec4) : Vec4 := a.zip lesser b

def max (a b : Vec4) : Vec4 := a.zip greater b

/-- Bound a vector from below and then from above, so that the upper bound wins
where the two cross. -/
def clamp (a low high : Vec4) : Vec4 := min (max a low) high

def sign (a : Vec4) : Vec4 := a.map signOf

def step (edge a : Vec4) : Vec4 := edge.zip stepAt a

/-!
## Geometry
-/

def dot (a b : Vec4) : Vec4 := Vec4.splat (dotOf a b)

def length (a : Vec4) : Vec4 := Vec4.splat (sqrtOf (dotOf a a))

/-- The cross product of the first three components; the fourth is zero. -/
def cross (a b : Vec4) : Vec4 where
  x := a.y * b.z - a.z * b.y
  y := a.z * b.x - a.x * b.z
  z := a.x * b.y - a.y * b.x
  w := 0

/-- The squared length up to which a vector has no direction. -/
def directionless : Float32 := 1e-8

/-- The vector of length one in the same direction, or zero if there is none. -/
def normalize (a : Vec4) : Vec4 :=
  if dotOf a a ≤ directionless then Vec4.zero
  else mul a (Vec4.splat (inverseSqrtOf (dotOf a a)))

def random (draws a : Vec4) : Vec4 := mul draws a

end Kernel

/-!
## Kernels by the number of their operands
-/

inductive Kernel where
  | unary (f : Vec4 -> Vec4)
  | binary (f : Vec4 -> Vec4 -> Vec4)
  | trinary (f : Vec4 -> Vec4 -> Vec4 -> Vec4)
  /-- The one kernel that also takes four random draws. -/
  | drawing (f : Vec4 -> Vec4 -> Vec4)

namespace Kernel

def arity : Kernel -> Nat
  | .unary _ => 1
  | .binary _ => 2
  | .trinary _ => 3
  | .drawing _ => 1

def draws : Kernel -> Bool
  | .drawing _ => true
  | _ => false

def eval (kernel : Kernel) (drawn : Vec4) (operands : List Vec4) : Vec4 :=
  match kernel, operands with
  | .unary f, [a] => f a
  | .binary f, [a, b] => f a b
  | .trinary f, [a, b, c] => f a b c
  | .drawing f, [a] => f drawn a
  | _, _ => Vec4.zero

end Kernel
end VectorMachine
