import VectorMachine.Frame.Basic
import VectorMachine.Frame.Calendar
import VectorMachine.Text.Utf8

/-!
# Writing comma-separated values

A record is a line of fields.  A field is quoted when it could be misread: when
it holds a comma, a quote or a line break, when it starts with a space, or when it
is the two characters that some readers take for the end of the data.
-/

namespace VectorMachine
namespace Csv

def isSpace (c : Char) : Bool :=
  let n := c.toNat
  (0x09 ≤ n && n ≤ 0x0d) || n == 0x20 || n == 0x85 || n == 0xa0 || n == 0x1680
    || (0x2000 ≤ n && n ≤ 0x200a) || n == 0x2028 || n == 0x2029 || n == 0x202f
    || n == 0x205f || n == 0x3000

def startsWithSpace (t : Text) : Bool :=
  match Utf8.runes t with
  | .char c :: _ => isSpace c
  | _ => false

def needsQuotes (field : Text) : Bool :=
  field = utf8 "\\."
    || field.any (fun b => b == 0x0a || b == 0x0d || b == 0x22 || b == 0x2c)
    || startsWithSpace field

/-- A field as it is written; a quote inside quotes is written twice. -/
def writeField (field : Text) : Text :=
  if needsQuotes field then
    [0x22] ++ field.flatMap (fun b => if b = 0x22 then [b, b] else [b]) ++ [0x22]
  else field

def writeRecord (fields : List Text) : Text :=
  Text.join [0x2c] (fields.map writeField) ++ [0x0a]

/-!
## Frames
-/

def valueText : Value -> Text
  | .float64 x => Number.text64 x
  | .float32 x => Number.text32 x
  | .int64 n => Text.ofInt n
  | .int n => Text.ofInt n
  | .bool b => utf8 (if b then "true" else "false")
  | .text t => t
  | .time seconds => Calendar.momentText seconds

def cellText : Option Value -> Text
  | some v => valueText v
  | none => utf8 "NaN"

def writeFrame (f : Frame) : Text :=
  let columns := f.columns.map fun c => c.cells.values.toArray
  writeRecord f.names
    ++ (List.range f.rows).flatMap fun row =>
        writeRecord (columns.map fun cells => cellText (cells[row]?.getD none))

end Csv
end VectorMachine
