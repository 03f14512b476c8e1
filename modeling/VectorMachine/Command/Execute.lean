import VectorMachine.Batch.Basic

/-!
# Trying out a program

A program is run over a ramp: every component of lane `i` of every input is `i`.
-/

namespace VectorMachine
namespace Ramp

def registerLimit : Int := Int.pow 2 48 / 24

def laneLimit : Int := Int.pow 2 48 / 16

def lanes (count : Nat) : Array Vec4 :=
  Array.ofFn fun i : Fin count => Vec4.splat (Float32.ofNat i.val)

/-- The first number of which no list can be made, of the lanes and the inputs and
outputs of a program. -/
def oversize? (p : Program) (lanes : Int) : Option Int :=
  [(lanes, laneLimit), (p.inputs, registerLimit), (p.outputs, registerLimit)].findSome?
    fun (count, limit) => if 0 ≤ count ∧ count ≤ limit then none else some count

/-- The arrays of a run over a ramp of so many lanes.  All inputs are the same
array. -/
def store (p : Program) (count : Nat) : Store :=
  ⟨#[lanes count] ++ Array.replicate p.outputs.toNat (Array.replicate count Vec4.zero)⟩

def invocation (p : Program) (count : Nat) : Invocation where
  code := p.codeBytes
  constants := p.constantTable
  inputs := List.replicate p.inputs.toNat ⟨0, 0, count⟩
  outputs := Batch.windowsFrom 1 p.outputs.toNat count
  lanes := Int64.ofNat count

def run (m : Machine) (workers : Int) (p : Program) (count : Nat) : Machine.Outcome :=
  m.execParallel workers (invocation p count) .always (store p count) {}

def text (p : Program) (store : Store) : Text :=
  if p.outputs ≤ 0 then []
  else
    (store.buffers[1]?.getD #[]).toList.zipIdx.flatMap fun (v, i) =>
      Text.ofNat i ++ utf8 ": " ++ v.text ++ utf8 "\n"

def statisticsText (r : Report) (nanoseconds : Nat) : Text :=
  utf8 "chunks: " ++ Text.ofInt r.chunks.toInt ++ utf8 ", instructions: "
    ++ Text.ofInt r.instructions.toInt ++ utf8 ", lanes: " ++ Text.ofInt r.lanes.toInt
    ++ utf8 ", time: " ++ Text.ofNat nanoseconds ++ utf8 "ns\n"

end Ramp
end VectorMachine
