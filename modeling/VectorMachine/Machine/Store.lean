import VectorMachine.Vec4

/-!
# Lane storage

Lane arrays live in a store of numbered buffers.  A window is a stretch of one
buffer; two windows may share lanes, and then a write through one is seen through
the other.
-/

namespace VectorMachine

structure Cell where
  buffer : Nat
  lane : Nat
deriving DecidableEq

structure Store where
  buffers : Array (Array Vec4)
deriving DecidableEq

namespace Store

def get? (s : Store) (c : Cell) : Option Vec4 :=
  match s.buffers[c.buffer]? with
  | some buffer => buffer[c.lane]?
  | none => none

/-- The vector in a cell, or zero where there is no such cell. -/
def get (s : Store) (c : Cell) : Vec4 :=
  (s.get? c).getD Vec4.zero

/-- Replace the vector in a cell; a cell that does not exist is left alone. -/
def set (s : Store) (c : Cell) (v : Vec4) : Store :=
  ⟨s.buffers.modify c.buffer fun buffer => buffer.setIfInBounds c.lane v⟩

def sizeOf (s : Store) (buffer : Nat) : Nat :=
  match s.buffers[buffer]? with
  | some b => b.size
  | none => 0

end Store

structure Window where
  buffer : Nat
  start : Nat
  size : Nat
deriving DecidableEq

namespace Window

def cell (w : Window) (lane : Nat) : Cell :=
  ⟨w.buffer, w.start + lane⟩

def drop (w : Window) (count : Nat) : Window :=
  ⟨w.buffer, w.start + count, w.size - count⟩

end Window
end VectorMachine
