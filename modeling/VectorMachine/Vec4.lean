import VectorMachine.Number.Decimal

/-!
# Vectors

The unit that the machine computes with: four single-precision numbers.
-/

namespace VectorMachine

structure Vec4 where
  x : Float32
  y : Float32
  z : Float32
  w : Float32
deriving DecidableEq

namespace Vec4

def splat (a : Float32) : Vec4 :=
  ⟨a, a, a, a⟩

def zero : Vec4 := splat 0

instance : Inhabited Vec4 := ⟨zero⟩

def map (f : Float32 -> Float32) (a : Vec4) : Vec4 :=
  ⟨f a.x, f a.y, f a.z, f a.w⟩

def zip (f : Float32 -> Float32 -> Float32) (a b : Vec4) : Vec4 :=
  ⟨f a.x b.x, f a.y b.y, f a.z b.z, f a.w b.w⟩

def component (v : Vec4) : Fin 4 -> Float32
  | 0 => v.x
  | 1 => v.y
  | 2 => v.z
  | 3 => v.w

def toList (a : Vec4) : List Float32 :=
  [a.x, a.y, a.z, a.w]

/-- The vector of the first four numbers of a list, the missing ones zero. -/
def ofList : List Float32 -> Vec4
  | [] => zero
  | [x] => ⟨x, 0, 0, 0⟩
  | [x, y] => ⟨x, y, 0, 0⟩
  | [x, y, z] => ⟨x, y, z, 0⟩
  | x :: y :: z :: w :: _ => ⟨x, y, z, w⟩

def text (a : Vec4) : Text :=
  utf8 "(" ++ Text.join (utf8 ", ") (a.toList.map Number.text32) ++ utf8 ")"

end Vec4
end VectorMachine
