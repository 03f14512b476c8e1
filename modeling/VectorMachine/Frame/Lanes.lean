import VectorMachine.Frame.Basic
import VectorMachine.Vec4

/-!
# Columns and lanes

Up to four columns are gathered into one lane array, column `k` feeding component
`k` of every lane, and the first components of a lane array are scattered back
into columns.
-/

namespace VectorMachine

inductive LaneError where
  | columnNotFound (name : Text)
  | textColumn (name : Text)
  /-- A cell holds a value of a type that is no number. -/
  | nonNumericCell (name : Text) (row : Nat) (type : String)
  | columnCount (count : Nat)
  | componentCount (count : Int)
deriving DecidableEq

namespace LaneError

def message : LaneError -> Text
  | columnNotFound name => utf8 "column not found: " ++ name
  | textColumn name => utf8 "column is not numeric: " ++ name
  | nonNumericCell name row type =>
      utf8 "column is not numeric: " ++ name ++ utf8 " row " ++ Text.ofNat row
        ++ utf8 " holds " ++ utf8 type
  | columnCount count =>
      utf8 "a lane vector takes 1 to 4 columns: got " ++ Text.ofNat count
  | componentCount count =>
      utf8 "a lane vector takes 1 to 4 columns: got " ++ Text.ofInt count ++ utf8 " components"

end LaneError

/-!
## Gathering
-/

/-- The single-precision number of a cell, in which nothing is zero; or the name
of a type that is no number. -/
def numberOfCell : Option Value -> Except String Float32
  | none => .ok 0
  | some (.float64 x) => .ok (Number.narrow x)
  | some (.float32 x) => .ok x
  | some (.int64 n) => .ok (Float32.ofInt n)
  | some (.int n) => .ok (Float32.ofInt n)
  | some (.bool b) => .ok (if b then 1 else 0)
  | some (.text _) => .error "string"
  | some (.time _) => .error "time.Time"

def numbersOfColumn (c : Column) : Except LaneError (List Float32) :=
  match c.cells with
  | .texts _ => .error (.textColumn c.name)
  | cells =>
      cells.values.zipIdx.mapM fun (cell, row) =>
        (numberOfCell cell).mapError fun type => .nonNumericCell c.name row type

def vectorsOf (rows : Nat) (columns : List (List Float32)) : List Vec4 :=
  (List.range rows).map fun row => Vec4.ofList (columns.map fun column => column[row]?.getD 0)

/-- Find a column of a frame; there is none in a missing frame. -/
def findColumn (frame : Option Frame) (name : Text) : Except LaneError Column :=
  match frame.bind (·.column? name) with
  | some c => .ok c
  | none => .error (.columnNotFound name)

def rowsOf (frame : Option Frame) : Nat :=
  match frame with
  | some f => f.rows
  | none => 0

def gather (frame : Option Frame) (columns : List Text) : Except LaneError (List Vec4) :=
  if columns.length = 0 ∨ 4 < columns.length then
    .error (.columnCount columns.length)
  else do
    let numbers ← columns.mapM fun name => do
      numbersOfColumn (← findColumn frame name)
    .ok (vectorsOf (rowsOf frame) numbers)

/-!
## Scattering
-/

/-- The names of the columns for the components of an output.  A single one
keeps the bare name. -/
def componentNames (name : Text) (components : Nat) : List Text :=
  if components = 1 then [name]
  else (["x", "y", "z", "w"].take components).map fun c => name ++ utf8 "." ++ utf8 c

/-- The columns of the first components of a lane array. -/
def scatter (name : Text) (lanes : List Vec4) (components : Int) :
    Except LaneError (List Column) :=
  if 1 ≤ components ∧ components ≤ 4 then
    .ok ((componentNames name components.toNat).zipIdx.map fun (name, k) => {
      name
      cells := .floats (lanes.map fun v => Number.widen (v.toList[k]?.getD 0)) })
  else .error (.componentCount components)

end VectorMachine
