import VectorMachine.Number.Read

/-!
# Cells written as text
-/

namespace VectorMachine
namespace Table

def integerOfText? (t : Text) : Option Int :=
  match Number.readInt t with
  | .ok n => some n
  | .error _ =>
      if [utf8 "true", utf8 "TRUE", utf8 "True"].contains t then some 1
      else if [utf8 "false", utf8 "FALSE", utf8 "False"].contains t then some 0
      else none

def floatOfText? (t : Text) : Option Float :=
  (Number.readFloat t).toOption

end Table
end VectorMachine
