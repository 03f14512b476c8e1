import VectorMachine.Vec4

/-!
# Programs
-/

namespace VectorMachine

/-- Code, a constant table, and how many inputs and outputs the code uses.  A
program may lack its code or its table altogether, which is not the same as
having an empty one. -/
structure Program where
  code : Option Bytes := none
  constants : Option (List Vec4) := none
  inputs : Int := 0
  outputs : Int := 0
deriving DecidableEq

namespace Program

def codeBytes (p : Program) : Bytes :=
  p.code.getD []

def constantTable (p : Program) : List Vec4 :=
  p.constants.getD []

def constantLimit : Nat := 256

end Program
end VectorMachine
