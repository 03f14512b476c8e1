import VectorMachine.Frame.Basic
import VectorMachine.Json.Stream
import VectorMachine.Number.Decimal
import VectorMachine.Table.Cell
import VectorMachine.Table.Defect

/-!
# Tables of JSON values

A table is an array of objects, a sequence of objects, or a sequence of arrays of
which the first holds the names of the columns.  The first row fixes the columns
and their types; what later rows hold beyond these columns is dropped, and what
they lack stays without a value.

Rows are taken up one by one, so that of several faults the first one counts.
-/

namespace VectorMachine
namespace Json

open Table (Defect)

inductive Scalar where
  | null
  | bool (b : Bool)
  | number (x : Float)
  | string (t : Text)

abbrev Row := List (Text × Scalar)

/-!
## Rows
-/

/-- The name of a cell at the end of a path of names, the innermost one first.
Objects without a name add nothing in front. -/
def pathName (path : List Text) : Text :=
  Text.join (utf8 ".") (path.reverse.dropWhile List.isEmpty)

mutual

/-- The scalars of a value at the end of a path; an array holds no cell. -/
def flatten? (path : List Text) : Value -> Option Row
  | .null => some [(pathName path, .null)]
  | .bool b => some [(pathName path, .bool b)]
  | .number x => some [(pathName path, .number x)]
  | .string t => some [(pathName path, .string t)]
  | .array _ => none
  | .object members => flattenMembers? path members

def flattenMembers? (path : List Text) : List (Text × Value) -> Option Row
  | [] => some []
  | (name, v) :: rest =>
      match flatten? (name :: path) v, flattenMembers? path rest with
      | some row, some rows => some (row ++ rows)
      | _, _ => none

end

def objectRow? (members : List (Text × Value)) : Option Row :=
  flattenMembers? [] members

def scalar? : Value -> Option Scalar
  | .null => some .null
  | .bool b => some (.bool b)
  | .number x => some (.number x)
  | .string t => some (.string t)
  | .array _ | .object _ => none

def arrayRow? (names : List Text) (elements : List Value) : Option Row :=
  if elements.length = names.length then
    (elements.mapM scalar?).map fun cells => names.zip cells
  else none

def name? : Value -> Option Text
  | .string t => some t
  | _ => none

def cell (row : Row) (name : Text) : Scalar :=
  (row.lookup name).getD .null

/-!
## Cells
-/

/-- The types that the first row gives to the columns. -/
inductive CellType where
  | float
  | integer
  | text
deriving DecidableEq

def CellType.ofScalar : Scalar -> CellType
  | .number _ => .float
  | .bool _ => .integer
  | .string _ | .null => .text

def numberText (x : Float) : Text :=
  (Number.text64 x).map fun b => if b = 0x65 then 0x45 else b

def floatOf? : Scalar -> Option Float
  | .null => some Number.nan
  | .bool b => some (if b then 1 else 0)
  | .number x => some x
  | .string t => Table.floatOfText? t

/-- An integer cell.  A number counts if its text is that of an integer. -/
def integerOf? : Scalar -> Option (Option Int)
  | .null => some none
  | .bool b => some (some (if b then 1 else 0))
  | .number x => (Number.readInt (numberText x)).toOption.map some
  | .string t => (Table.integerOfText? t).map some

def textOf : Scalar -> Option Text
  | .null => none
  | .bool b => some (utf8 (if b then "true" else "false"))
  | .number x => some (numberText x)
  | .string t => some t

/-- Whether a cell may stand in a column of the given type. -/
def CellType.admits : CellType -> Scalar -> Bool
  | float, s => (floatOf? s).isSome
  | integer, s => (integerOf? s).isSome
  | text, _ => true

def CellType.cells : CellType -> List Scalar -> Cells
  | float, cells => .floats (cells.filterMap floatOf?)
  | integer, cells => .integers (cells.filterMap integerOf?)
  | text, cells => .texts (cells.map textOf)

/-!
## Layouts
-/

/-- The columns that the first row fixes, and how later rows are read. -/
structure Layout where
  columns : List (Text × CellType)
  /-- The names under which an array is read: none where the rows are objects. -/
  header : List Text

namespace Layout

def names (l : Layout) : List Text := l.columns.map (·.1)

def ofRow (names header : List Text) (first : Row) : Layout where
  columns := names.map fun name => (name, .ofScalar (cell first name))
  header := header

/-- Where the columns have been named beforehand, a cell without a column falls
into the first one. -/
def settle (header : List Text) (row : Row) : Row :=
  match header with
  | [] => row
  | first :: _ => row.map fun (name, s) => (if header.contains name then name else first, s)

def rowOf (header : List Text) : Value -> Except Defect Row
  | .array elements => (arrayRow? header elements).elim (.error .malformed) .ok
  | .object members =>
      (objectRow? members).elim (.error .malformed) fun row => .ok (settle header row)
  | _ => .error .cellless

def check (l : Layout) (row : Row) : Except Defect Row :=
  match l.columns.find? fun (name, type) => !type.admits (cell row name) with
  | some (name, _) => .error (.misfit name)
  | none => .ok row

/-- The rows of some values, up to the first that is none. -/
def rows (l : Layout) (read : Value -> Except Defect Row) :
    List Value -> Except Defect (List Row)
  | [] => .ok []
  | v :: rest => do
      let row ← read v
      let row ← l.check row
      let tail ← l.rows read rest
      return row :: tail

def columnsOf (l : Layout) (rows : List Row) : List Column :=
  l.columns.map fun (name, type) =>
    { name, cells := type.cells (rows.map fun row => cell row name) }

end Layout

def defectOf : Option Fault -> Defect
  | some .outside => .overrun
  | _ => .malformed

/-- The columns of a stream whose first row is known. -/
def columnsFrom (layout : Layout) (read : Value -> Except Defect Row) (first : Row)
    (rest : Stream) : Except Defect (List Column) := do
  if layout.names.eraseDups.length < layout.names.length then .error .clashingColumns
  else
    let rows ← layout.rows read rest.values
    if rest.fault.isNone then return layout.columnsOf (first :: rows)
    else .error (defectOf rest.fault)

/-!
## Tables
-/

def sortedNames (row : Row) : List Text :=
  ((row.map (·.1)).eraseDups).mergeSort Text.le

def columnsOfObjects (read : Value -> Except Defect Row) (s : Stream) :
    Except Defect (List Column) :=
  match s.values with
  | .object members :: rest =>
      match objectRow? members with
      | none | some [] => .error .malformed
      | some first =>
          columnsFrom (.ofRow (sortedNames first) [] first) read first { s with values := rest }
  | [] => .error (defectOf s.fault)
  | _ => .error .malformed

/-- The columns of a stream behind the names.  The first row is an array. -/
def columnsOfArrays (names : List Text) (s : Stream) : Except Defect (List Column) :=
  match s.values with
  | .array elements :: rest =>
      match arrayRow? names elements with
      | none => .error .malformed
      | some first =>
          columnsFrom (.ofRow names names first) (Layout.rowOf names) first
            { s with values := rest }
  | [] => .error (defectOf s.fault)
  | _ => .error .malformed

def names? (header : List Value) : Option (List Text) :=
  if header.isEmpty then none else header.mapM name?

/-- A row of an array of objects, in which nothing is a row without cells. -/
def recordRow : Value -> Except Defect Row
  | .null => .ok []
  | v => Layout.rowOf [] v

def columnsOfSequence (s : Stream) : Except Defect (List Column) :=
  match s.values with
  | .array header :: rest =>
      match names? header with
      | none => .error .malformed
      | some names => columnsOfArrays names { s with values := rest }
  | _ => columnsOfObjects (Layout.rowOf []) s

def columns (t : Text) : Except Defect (List Column) :=
  match listsRows t with
  | .error fault => .error (defectOf (some fault))
  | .ok true => columnsOfObjects recordRow (elements t)
  | .ok false => columnsOfSequence (sequence t)

end Json
end VectorMachine
