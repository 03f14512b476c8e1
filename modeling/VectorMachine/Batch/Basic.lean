import VectorMachine.Frame.Lanes
import VectorMachine.Machine.Basic

/-!
# Batch runs

A batch runs a program over the rows of a frame.  Each input register is gathered
from columns, and each output register comes back as columns of a new frame.
-/

namespace VectorMachine
namespace Batch

structure Output where
  name : Text
  components : Int
deriving DecidableEq

structure Options where
  inputs : List (List Text) := []
  /-- The outputs; without them, one column for every output of the program. -/
  outputs : Option (List Output) := none
  /-- Run over the first rows only, if positive. -/
  lanes : Int := 0
  workers : Int := 0
  strict : Bool := false
  seed : Option UInt64 := none
  /-- How many nanoseconds the run may take, if positive.  No time passes within a
  run, so that this alone stops none. -/
  timeout : Int := 0
  watch : Watch := .always
deriving DecidableEq

inductive Error where
  | missingProgram
  | inputCount (reads : Int) (bindings : Nat)
  | outputCount (writes : Int) (outputs : Nat)
  | laneCount (lanes : Int) (rows : Nat)
  | input (index : Nat) (e : LaneError)
  | output (name : Text) (e : LaneError)
  | timedOut
  | run (e : RunError)
  /-- No list can be made of so many outputs, or of so many lanes for an output. -/
  | outputListSize (count : Int)
  /-- Two output columns have one name: no frame can be made of them. -/
  | clashingColumns
deriving DecidableEq

namespace Error

def message : Error -> Text
  | missingProgram => utf8 "malformed program: nil program"
  | inputCount reads bindings =>
      utf8 "input bindings do not cover program inputs: program reads " ++ Text.ofInt reads
        ++ utf8 ", got " ++ Text.ofNat bindings ++ utf8 " bindings"
  | outputCount writes outputs =>
      utf8 "outputs do not cover program outputs: program writes " ++ Text.ofInt writes
        ++ utf8 ", got " ++ Text.ofNat outputs ++ utf8 " outputs"
  | laneCount lanes rows =>
      utf8 "lane count exceeds frame rows: " ++ Text.ofInt lanes ++ utf8 " > "
        ++ Text.ofNat rows
  | input index e => utf8 "input " ++ Text.ofNat index ++ utf8 ": " ++ e.message
  | output name e => utf8 "output " ++ name ++ utf8 ": " ++ e.message
  | timedOut => utf8 "execution timeout exceeded"
  | run e => e.message
  | outputListSize count =>
      utf8 "no list of " ++ Text.ofInt count ++ utf8 " entries can be made"
  | clashingColumns => utf8 "two columns have one name"

/-- Whether the caller gets no error to handle, because the whole process stops. -/
def aborts : Error -> Bool
  | outputListSize _ | clashingColumns => true
  | _ => false

end Error

/-!
## Preparing
-/

def outputListLimit : Int := Int.pow 2 48 / 24

def laneListLimit : Int := Int.pow 2 48 / 16

def defaultOutputs (count : Nat) : List Output :=
  (List.range count).map fun i => ⟨utf8 "out" ++ Text.ofNat i, 1⟩

def outputsOf (o : Options) (p : Program) : Except Error (List Output) :=
  match o.outputs with
  | some outputs => .ok outputs
  | none =>
      if 0 ≤ p.outputs ∧ p.outputs ≤ outputListLimit then .ok (defaultOutputs p.outputs.toNat)
      else .error (.outputListSize p.outputs)

def lanesOf (o : Options) (rows : Nat) : Except Error Nat :=
  if 0 < o.lanes then
    if (rows : Int) < o.lanes then .error (.laneCount o.lanes rows) else .ok o.lanes.toNat
  else .ok rows

def gatherFrom (frame : Option Frame) (index : Nat) :
    List (List Text) -> Except Error (List (List Vec4))
  | [] => .ok []
  | columns :: rest =>
      match gather frame columns with
      | .error e => .error (.input index e)
      | .ok lanes =>
          match gatherFrom frame (index + 1) rest with
          | .error e => .error e
          | .ok arrays => .ok (lanes :: arrays)

/-- The watch over a run.  A timeout comes with a watch of its own, which hears
only of a stop that has been announced. -/
def Options.runWatch (o : Options) : Watch :=
  if 0 < o.timeout ∧ o.watch.announced = false then .always else o.watch

def Options.machine (o : Options) : Machine :=
  let m : Machine := { policy := if o.strict then .strict else .legacy }
  match o.seed with
  | some seed => m.withSeed seed
  | none => m

/-- Windows over the first lanes of so many buffers, from the given one on. -/
def windowsFrom (first count lanes : Nat) : List Window :=
  (List.range count).map fun k => ⟨first + k, 0, lanes⟩

/-!
## Running
-/

/-- The arrays of the inputs are the first buffers of the store, and a blank array
for every output the next ones. -/
def storeOf (inputs : List (List Vec4)) (outputs lanes : Nat) : Store :=
  ⟨(inputs.map (·.toArray)).toArray
    ++ Array.replicate outputs (Array.replicate lanes Vec4.zero)⟩

def invocationOf (p : Program) (inputs outputs lanes : Nat) : Invocation where
  code := p.codeBytes
  constants := p.constantTable
  inputs := windowsFrom 0 inputs lanes
  outputs := windowsFrom inputs outputs lanes
  lanes := Int64.ofNat lanes

def outcomeOf (o : Options) (p : Program) (inputs : List (List Vec4)) (outputs lanes : Nat) :
    Machine.Outcome :=
  o.machine.execParallel o.workers (invocationOf p inputs.length outputs lanes) o.runWatch
    (storeOf inputs outputs lanes) {}

/-- Run over lane arrays of the given length.  The arrays of the outputs are what is
left of the store. -/
def runLanes (o : Options) (p : Program) (inputs : List (List Vec4)) (outputs lanes : Nat) :
    Except Error (List (List Vec4)) :=
  let outcome := outcomeOf o p inputs outputs lanes
  match outcome.result with
  | .ok _ => .ok ((outcome.store.buffers.toList.drop inputs.length).map (·.toList))
  | .error (.stopped .deadlineExceeded) => .error .timedOut
  | .error e => .error (.run e)

def scatterAll : List (Output × List Vec4) -> Except Error (List Column)
  | [] => .ok []
  | (out, lanes) :: rest =>
      match scatter out.name lanes out.components with
      | .error e => .error (.output out.name e)
      | .ok columns =>
          match scatterAll rest with
          | .error e => .error e
          | .ok more => .ok (columns ++ more)

/-- The frame of the output columns; there is none without columns. -/
def frameOf (columns : List Column) : Except Error (Option Frame) :=
  if columns.isEmpty then .ok none
  else
    match Frame.ofColumns? columns with
    | some f => .ok (some f)
    | none => .error .clashingColumns

def run (program : Option Program) (frame : Option Frame) (o : Options) :
    Except Error (Option Frame) :=
  match program with
  | none => .error .missingProgram
  | some p =>
      if (o.inputs.length : Int) < p.inputs then
        .error (.inputCount p.inputs o.inputs.length)
      else do
        let outputs ← outputsOf o p
        if (outputs.length : Int) < p.outputs then
          throw (.outputCount p.outputs outputs.length)
        let lanes ← lanesOf o (rowsOf frame)
        let inputs ← gatherFrom frame 0 o.inputs
        if outputs ≠ [] ∧ laneListLimit < (lanes : Int) then
          throw (.outputListSize lanes)
        let results ← runLanes o p (inputs.map (·.take lanes)) outputs.length lanes
        let columns ← scatterAll (outputs.zip results)
        frameOf columns

end Batch
end VectorMachine
