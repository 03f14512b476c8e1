import VectorMachine.Number.Decimal

/-!
# Frames

A frame is a table of named columns of one length.  Most columns hold cells of
one type; a mixed column holds cells of any type.
-/

namespace VectorMachine

/-!
## Columns
-/

inductive Value where
  | float64 (x : Float)
  | float32 (x : Float32)
  | int64 (n : Int)
  | int (n : Int)
  | bool (b : Bool)
  | text (t : Text)
  | time (seconds : Int)
deriving DecidableEq

/-- The cells of a column.  Only a column of floating-point numbers has no cells
without a value: it keeps a NaN in such a place. -/
inductive Cells where
  | floats (xs : List Float)
  | integers (ns : List (Option Int))
  | texts (ts : List (Option Text))
  | times (ts : List (Option Int))
  | mixed (vs : List (Option Value))
deriving DecidableEq

namespace Cells

def size : Cells -> Nat
  | floats xs => xs.length
  | integers ns => ns.length
  | texts ts => ts.length
  | times ts => ts.length
  | mixed vs => vs.length

def kind : Cells -> String
  | floats _ => "float64"
  | integers _ => "int64"
  | texts _ => "string"
  | times _ => "time"
  | mixed _ => "mixed"

/-- A floating-point cell; a NaN is the absence of a value. -/
def floatCell (x : Float) : Option Value :=
  if x.isNaN then none else some (.float64 x)

def mixedCell : Option Value -> Option Value
  | some (.float64 x) => floatCell x
  | v => v

def values : Cells -> List (Option Value)
  | floats xs => xs.map floatCell
  | integers ns => ns.map (·.map .int64)
  | texts ts => ts.map (·.map .text)
  | times ts => ts.map (·.map .time)
  | mixed vs => vs.map mixedCell

end Cells

structure Column where
  name : Text
  cells : Cells
deriving DecidableEq

def Column.size (c : Column) : Nat := c.cells.size

/-!
## Frames
-/

def Frame.Valid (columns : List Column) : Prop :=
  (columns.map (·.name)).Nodup ∧
    ∀ c ∈ columns, ∀ d ∈ columns, c.size = d.size

instance (columns : List Column) : Decidable (Frame.Valid columns) := by
  unfold Frame.Valid
  infer_instance

structure Frame where
  columns : List Column
  valid : Frame.Valid columns
deriving DecidableEq

namespace Frame

def ofColumns? (columns : List Column) : Option Frame :=
  if h : Valid columns then some ⟨columns, h⟩ else none

def empty : Frame where
  columns := []
  valid := by simp [Valid]

def rows (f : Frame) : Nat :=
  match f.columns with
  | [] => 0
  | c :: _ => c.size

def names (f : Frame) : List Text :=
  f.columns.map (·.name)

def column? (f : Frame) (name : Text) : Option Column :=
  f.columns.find? fun c => c.name = name

end Frame
end VectorMachine
