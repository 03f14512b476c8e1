import VectorMachine.Json.Basic

/-!
# Windows

A text is read through a window that holds a part of it.  A zero byte marks the
end of that part; where it is met, the window is filled again.  An escape is
replaced where it stands, which pulls the bytes behind it forward, and then the
window holds less than its mark says.  So an escape that is cut in two by the end
of the window can lead to a place outside it.
-/

namespace VectorMachine
namespace Json

structure Window where
  text : Array UInt8
  taken : Nat
  /-- The bytes of the window, with those in front that have been given up and
  those behind that have been left over. -/
  cells : Array UInt8
  start : Nat
  size : Nat
  cursor : Nat
  /-- Where the bytes of the text ended when the window was last filled or cut. -/
  mark : Nat
  room : Nat
  /-- Whether the last filling left no room. -/
  full : Bool
  ended : Bool

namespace Window

def firstRoom : Nat := 512

/-- The window in front of a text, into which nothing has been taken. -/
def ofText (t : Text) : Window where
  text := t.toArray
  taken := 0
  cells := Array.replicate firstRoom 0
  start := 0
  size := firstRoom
  cursor := 0
  mark := 0
  room := firstRoom
  full := false
  ended := false

def steps (w : Window) : Nat := w.text.size + 128

def byte? (w : Window) (i : Nat) : Option UInt8 :=
  if i < w.size then w.cells[w.start + i]? else none

/-- The byte at a place that may lie behind the window, among what was left over. -/
def staleByte (w : Window) (i : Nat) : UInt8 :=
  w.cells[w.start + i]?.getD 0

/-- The bytes between two places, of which the second may lie behind the window. -/
def slice? (w : Window) (first last : Nat) : Option Text :=
  if first ≤ last ∧ w.start + last ≤ w.cells.size then
    some (w.cells.extract (w.start + first) (w.start + last)).toList
  else none

def bytesFrom (w : Window) (i : Nat) : Array UInt8 :=
  w.cells.extract (w.start + i) (w.start + w.size)

def bytesAt (w : Window) (i count : Nat) : Text :=
  (w.cells.extract (w.start + i) (w.start + min w.size (i + count))).toList

def overwrite (cells : Array UInt8) (i : Nat) (bytes : Array UInt8) : Array UInt8 :=
  cells.extract 0 i ++ bytes ++ cells.extract (i + bytes.size) cells.size

/-!
## Filling
-/

/-- A window of twice the room with the same bytes, as far as they go into it. -/
def grow (w : Window) : Window :=
  let room := 2 * w.room
  let bytes := (w.bytesFrom 0).extract 0 room
  { w with
    cells := bytes ++ Array.replicate (room - bytes.size) 0
    start := 0
    size := room
    room := room }

/-- How many of the next bytes, at most so many, come before a zero byte. -/
def countKept (w : Window) : Nat -> Nat -> Option Nat
  | 0, _ => some 0
  | count + 1, i =>
      match w.byte? i with
      | none => none
      | some b => if b == 0 then some 0 else (countKept w count (i + 1)).map (· + 1)

def fill? (w : Window) : Option Window := do
  let kept ← countKept w (w.mark - w.cursor) w.cursor
  let front := w.cursor + kept
  if w.size ≤ front then none
  else
    let fits := w.size - front - 1
    let bytes := w.text.extract w.taken (w.taken + fits)
    let cells := w.cells.setIfInBounds (w.start + w.size - 1) 0
    return { w with
      cells := overwrite cells (w.start + front) bytes
      taken := w.taken + bytes.size
      mark := w.cursor + bytes.size
      full := bytes.size == fits
      ended := w.text.size ≤ w.taken }

def refill? (w : Window) : Option Window :=
  fill? (if w.full then w.grow else w)

/-!
## Changing
-/

def cut? (w : Window) : Option Window :=
  if w.cursor ≤ w.size then
    let size := w.size - w.cursor
    some { w with start := w.start + w.cursor, size := size, cursor := 0, mark := size }
  else none

def splice? (w : Window) (first : Nat) (bytes : Text) (last : Nat) : Option Window :=
  if last ≤ w.size then
    let moved := bytes.toArray ++ w.bytesFrom last
    some { w with
      cells := overwrite w.cells (w.start + first) moved
      size := first + moved.size }
  else none

/-- Put the replacement character in place of the byte at the cursor, and push
back what is behind it. -/
def replaceByte (w : Window) : Window :=
  let bytes := w.cells.extract w.start (w.start + w.cursor)
    ++ (Utf8.encode replacement).toArray ++ w.bytesFrom (w.cursor + 1)
  { w with cells := bytes, start := 0, size := bytes.size }

end Window
end Json
end VectorMachine
