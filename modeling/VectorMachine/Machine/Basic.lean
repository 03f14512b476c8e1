import VectorMachine.Machine.Chunk
import VectorMachine.Machine.Statistics
import VectorMachine.Program

/-!
# The machine

A run checks the shape of its arguments, divides the lanes into chunks, and runs
the code over one chunk after another with fresh temporaries.  It may be stopped
between chunks.
-/

namespace VectorMachine

/-!
## Stopping a run
-/

inductive Stop where
  | canceled
  | deadlineExceeded
deriving DecidableEq

def Stop.text : Stop -> String
  | canceled => "context canceled"
  | deadlineExceeded => "context deadline exceeded"

/-- Whether a run may go on is asked before every chunk.  The first `passes`
questions are answered with yes, all of them if there is no number, and later
ones with the reason to stop. -/
structure Watch where
  passes : Option Nat
  reason : Stop
  /-- Whether the stop has been announced before the run, so that a watch set
  over this one knows of it too. -/
  announced : Bool := false
deriving DecidableEq

namespace Watch

def always : Watch := { passes := none, reason := .canceled }

def stopped (reason : Stop) : Watch := { passes := some 0, reason, announced := true }

def counting (passes : Nat) (reason : Stop) : Watch := { passes := some passes, reason }

def check (w : Watch) : Except Stop Watch :=
  match w.passes with
  | none => .ok w
  | some 0 => .error w.reason
  | some (n + 1) => .ok { w with passes := some n }

end Watch

/-!
## Errors
-/

inductive Side where
  | input
  | output
deriving DecidableEq

def Side.text : Side -> String
  | input => "input"
  | output => "output"

inductive RunError where
  | invalidLaneCount (lanes : Int)
  | tooManyRegisters (side : Side) (count : Nat)
  | tooManyConstants (count : Nat)
  | shortLaneArray (side : Side) (index size : Nat) (lanes : Int)
  | chunk (index : Nat) (fault : Fault)
  | stopped (reason : Stop)
deriving DecidableEq

namespace RunError

def faultMessage (chunk : Nat) : Fault -> Text
  | .outOfRange index length offset =>
      utf8 "malformed program: runtime error: index out of range [" ++ Text.ofNat index
        ++ utf8 "] with length " ++ Text.ofNat length ++ utf8 " (chunk " ++ Text.ofNat chunk
        ++ utf8 ", offset " ++ Text.ofNat offset ++ utf8 ")"
  | .unknownOpcode code offset =>
      utf8 "chunk " ++ Text.ofNat chunk ++ utf8 ": unknown opcode: 0x" ++ Text.hex 2 code.toNat
        ++ utf8 " at offset " ++ Text.ofNat offset
  | .unwired op descriptor offset =>
      utf8 "chunk " ++ Text.ofNat chunk ++ utf8 ": unwired operand descriptor: " ++ op.name
        ++ utf8 " descriptor 0x" ++ Text.hex 2 descriptor.toNat
        ++ utf8 " at offset " ++ Text.ofNat offset

def message : RunError -> Text
  | invalidLaneCount lanes => utf8 "invalid lane count: " ++ Text.ofInt lanes
  | tooManyRegisters side count =>
      utf8 "too many " ++ utf8 side.text ++ utf8 " registers: " ++ Text.ofNat count
        ++ utf8 " > 32"
  | tooManyConstants count => utf8 "too many constants: " ++ Text.ofNat count ++ utf8 " > 256"
  | shortLaneArray side index size lanes =>
      utf8 "lane array shorter than lane count: " ++ utf8 side.text ++ utf8 " "
        ++ Text.ofNat index ++ utf8 " has " ++ Text.ofNat size ++ utf8 " lanes, need "
        ++ Text.ofInt lanes
  | chunk index fault => faultMessage index fault
  | stopped reason => utf8 reason.text

end RunError

/-!
## Shape
-/

structure Invocation where
  code : Bytes
  constants : List Vec4
  inputs : List Window
  outputs : List Window
  lanes : Int64

/-- The first array of a list that has fewer lanes than asked for. -/
def shortArray? (side : Side) (arrays : List Window) (lanes : Int64) : Option RunError :=
  (arrays.zipIdx.find? fun (w, _) => (w.size : Int) < lanes.toInt).map fun (w, index) =>
    .shortLaneArray side index w.size lanes.toInt

def Invocation.shapeError? (i : Invocation) : Option RunError :=
  if i.lanes < 0 then some (.invalidLaneCount i.lanes.toInt)
  else if Slot.inputLimit < i.inputs.length then
    some (.tooManyRegisters .input i.inputs.length)
  else if Slot.outputLimit < i.outputs.length then
    some (.tooManyRegisters .output i.outputs.length)
  else if Program.constantLimit < i.constants.length then
    some (.tooManyConstants i.constants.length)
  else shortArray? .input i.inputs i.lanes <|> shortArray? .output i.outputs i.lanes

/-- How many chunks the lanes make, in 64-bit arithmetic. -/
def Invocation.chunkCount (i : Invocation) : Int64 :=
  (i.lanes + 127) / 128

/-!
## Running
-/

structure Machine where
  policy : Policy := .legacy
  generators : Nat -> Generator := fun _ => .cycle []

namespace Machine

def withSeed (m : Machine) (seed : UInt64) : Machine :=
  { m with generators := Generator.seeded seed }

def freshBank : Array (Array Vec4) :=
  Array.replicate Slot.tempCount (Array.replicate Chunk.size Vec4.zero)

/-- The lanes behind the register slots in a chunk that starts at lane `base`.
The temporaries are the buffers from `bank` on. -/
def windows (i : Invocation) (bank base : Nat) (s : Slot) : Option Window :=
  let n := s.toNat
  if n < Slot.firstInput then some ⟨bank + n, 0, Chunk.size⟩
  else if n < Slot.firstOutput then (i.inputs[n - Slot.firstInput]?).map (·.drop base)
  else (i.outputs[n - Slot.firstOutput]?).map (·.drop base)

def runChunk (m : Machine) (i : Invocation) (chunk lanes : Nat) (store : Store) :
    Store × Except Fault (List Opcode) :=
  let bank := store.buffers.size
  let frame : Chunk.Frame := {
    policy := m.policy
    codeLength := i.code.length
    constants := i.constants
    windows := windows i bank (chunk * Chunk.size)
    lanes }
  let start : Chunk.State := {
    store := ⟨store.buffers ++ freshBank⟩
    generator := m.generators chunk }
  let (final, fault?) := Chunk.runFrom frame 0 start i.code
  let store : Store := ⟨final.store.buffers.take bank⟩
  match fault? with
  | some fault => (store, .error fault)
  | none => (store, .ok final.dispatched)

structure Outcome where
  store : Store
  statistics : Statistics
  result : Except RunError Unit

def thenChunk (m : Machine) (i : Invocation) (chunk lanes : Nat) (watch : Watch)
    (store : Store) (statistics : Statistics) (next : Watch -> Store -> Statistics -> Outcome) :
    Outcome :=
  match watch.check with
  | .error reason => ⟨store, statistics, .error (.stopped reason)⟩
  | .ok watch =>
      match runChunk m i chunk lanes store with
      | (store, .error fault) => ⟨store, statistics, .error (.chunk chunk fault)⟩
      | (store, .ok dispatched) => next watch store (statistics.record dispatched lanes)

/-- Run so many chunks one after another, from the given one on.  `remaining`
lanes are left, in 64-bit arithmetic; it goes below zero after the last chunk if
that one is not full. -/
def runSerially (m : Machine) (i : Invocation) :
    Nat -> Nat -> Int64 -> Watch -> Store -> Statistics -> Outcome
  | 0, _, _, _, store, statistics => ⟨store, statistics, .ok ()⟩
  | left + 1, chunk, remaining, watch, store, statistics =>
      thenChunk m i chunk (min remaining 128).toInt.toNat watch store statistics
        (runSerially m i left (chunk + 1) (remaining - 128))

def exec (m : Machine) (i : Invocation) (watch : Watch) (store : Store)
    (statistics : Statistics) : Outcome :=
  match i.shapeError? with
  | some e => ⟨store, statistics, .error e⟩
  | none => runSerially m i i.chunkCount.toInt.toNat 0 i.lanes watch store statistics

/-- The lanes of a chunk that is run on its own: what the chunks before it
leave, but no more than a full chunk. -/
def chunkLanes (lanes : Int64) (chunk : Nat) : Nat :=
  (min (lanes - Int64.ofNat chunk * 128) 128).toInt.toNat

def runIndependently (m : Machine) (i : Invocation) :
    Nat -> Nat -> Watch -> Store -> Statistics -> Outcome
  | 0, _, _, store, statistics => ⟨store, statistics, .ok ()⟩
  | left + 1, chunk, watch, store, statistics =>
      thenChunk m i chunk (chunkLanes i.lanes chunk) watch store statistics
        (runIndependently m i left (chunk + 1))

/-- Run an invocation with the given number of workers.  With one worker or none
it runs chunk by chunk.  With more, the chunks are started in order; they share
nothing that one of them writes and another reads, so when they end does not
matter. -/
def execParallel (m : Machine) (workers : Int) (i : Invocation) (watch : Watch) (store : Store)
    (statistics : Statistics) : Outcome :=
  if workers ≤ 1 then exec m i watch store statistics
  else
    match i.shapeError? with
    | some e => ⟨store, statistics, .error e⟩
    | none => runIndependently m i i.chunkCount.toInt.toNat 0 watch store statistics

end Machine
end VectorMachine
