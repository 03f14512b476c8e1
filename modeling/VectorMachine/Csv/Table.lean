import VectorMachine.Csv.Read
import VectorMachine.Frame.Basic
import VectorMachine.Frame.Calendar
import VectorMachine.Table.Cell
import VectorMachine.Table.Defect

/-!
# Tables of comma-separated values

The first record names the columns.  The cells of a column decide its type: it is
the first of integers, floating-point numbers, dates and texts that fits them all.
-/

namespace VectorMachine
namespace Csv

def dateOfCell? (t : Text) : Option Int :=
  (Calendar.readDate? t).map fun d => d.toDays * 86400

def cellsOf (cells : List Text) : Cells :=
  match cells.mapM Table.integerOfText?, cells.mapM Table.floatOfText?,
    cells.mapM dateOfCell? with
  | some ns, _, _ => .integers (ns.map some)
  | none, some xs, _ => .floats xs
  | none, none, some days => .times (days.map some)
  | none, none, none => .texts (cells.map some)

/-- The columns of a text.  Names that clash are found before any row is read. -/
def columns (t : Text) : Except Table.Defect (List Column) :=
  match records t with
  | ⟨[], _⟩ => .error .malformed
  | ⟨names :: rows, complete⟩ =>
      if names.eraseDups.length < names.length then .error .clashingColumns
      else if complete then
        .ok (names.zipIdx.map fun (name, k) =>
          { name, cells := cellsOf (rows.map fun row => row[k]?.getD []) })
      else .error .malformed

end Csv
end VectorMachine
