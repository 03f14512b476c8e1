import VectorMachine.Opcode.Basic

/-!
# Statistics

What a machine has done so far, counted over the chunks that ran to their end.  The
counts themselves have no bound; a caller is told what they are in 64 bits.
-/

namespace VectorMachine

/-- How often each opcode was dispatched, in the order of first dispatch. -/
abbrev Tally := List (Opcode × Nat)

namespace Tally

def count (t : Tally) (op : Opcode) : Nat :=
  (t.lookup op).getD 0

def add : Tally -> Opcode -> Tally
  | [], op => [(op, 1)]
  | (key, n) :: rest, op => if key = op then (key, n + 1) :: rest else (key, n) :: add rest op

end Tally

structure Report where
  chunks : Int64
  instructions : Int64
  lanes : Int64
  counts : List (String × Int64)
deriving DecidableEq

def Report.count (r : Report) (mnemonic : String) : Int64 :=
  (r.counts.lookup mnemonic).getD 0

structure Statistics where
  chunks : Nat := 0
  instructions : Nat := 0
  lanes : Nat := 0
  tally : Tally := []
deriving DecidableEq

namespace Statistics

def record (s : Statistics) (dispatched : List Opcode) (lanes : Nat) : Statistics where
  chunks := s.chunks + 1
  instructions := s.instructions + dispatched.length
  lanes := s.lanes + lanes
  tally := dispatched.foldl Tally.add s.tally

def report (s : Statistics) : Report where
  chunks := Int64.ofNat s.chunks
  instructions := Int64.ofNat s.instructions
  lanes := Int64.ofNat s.lanes
  counts := s.tally.map fun entry => (entry.1.mnemonic, Int64.ofNat entry.2)

end Statistics
end VectorMachine
