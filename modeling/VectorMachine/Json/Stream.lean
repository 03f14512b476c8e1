import VectorMachine.Json.Read

/-!
# Streams of JSON values

A table is read value by value, and what a value is used for may fail before the
next one is looked at.  A stream therefore holds the values that come before the
first fault, and that fault.
-/

namespace VectorMachine
namespace Json

structure Stream where
  values : List Value
  fault : Option Fault

def separator : Reader Unit := do
  let b ← Reader.skipBlanks
  if isSeparator b then Reader.advance 1
  else if b == 0 then throw .ended

/-- A value of a stream.  It may follow a separator, and behind it a new window is
small again. -/
def streamed (value : Reader Value) : Reader Value := do
  separator
  let v ← value
  Reader.change Window.cut?
  modify fun w => { w with room := Window.firstRoom }
  return v

/-- Values one after another, onto those in front of them, of which the last comes
first.  The number is more than the bytes that are left. -/
def streamFrom (next : Reader (Option Value)) : Nat -> List Value -> Window -> Stream
  | 0, front, _ => ⟨front.reverse, some .malformed⟩
  | count + 1, front, w =>
      match next w with
      | .ok (some v, w) => streamFrom next count (v :: front) w
      | .ok (none, _) => ⟨front.reverse, none⟩
      | .error fault => ⟨front.reverse, some fault⟩

def streamOf (next : Reader (Option Value)) (w : Window) : Stream :=
  streamFrom next w.steps [] w

def nextValue : Reader (Option Value) := fun w =>
  match streamed Reader.value w with
  | .ok (v, w) => .ok (some v, w)
  | .error .ended => .ok (none, w)
  | .error fault => .error fault

/-- The next element of a list of rows.  The list ends with a bracket, a brace or
the end of the text, and what follows is not looked at. -/
def nextElement : Reader (Option Value) := do
  let b ← Reader.skipBlanks
  if b == 0 || b == 0x5d || b == 0x7d then return none
  else return some (← streamed Reader.record)

def sequence (t : Text) : Stream :=
  streamOf nextValue (.ofText t)

def elements (t : Text) : Stream :=
  match Reader.token (.ofText t) with
  | .ok (_, w) => streamOf nextElement w
  | .error fault => ⟨[], some fault⟩

def listsRows (t : Text) : Except Fault Bool :=
  let reader : Reader Bool := do
    if (← Reader.token) = .delimiter 0x5b then return (← Reader.token) = .delimiter 0x7b
    else return false
  reader.run' (.ofText t)

end Json
end VectorMachine
