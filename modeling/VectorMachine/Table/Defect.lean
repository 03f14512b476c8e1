import VectorMachine.Text.Basic

/-!
# Defects of tables

The reasons for which a text makes no table, whatever format it is written in.
-/

namespace VectorMachine
namespace Table

inductive Defect where
  /-- The text is not in its format, or its rows do not make a table. -/
  | malformed
  | overrun
  /-- Two columns have one name: no frame can be made of them. -/
  | clashingColumns
  /-- Something without any cells stands where a row should. -/
  | cellless
  /-- A cell does not fit the type that its column has from the first row. -/
  | misfit (column : Text)
deriving DecidableEq

def Defect.aborts : Defect -> Bool
  | malformed => false
  | overrun | clashingColumns | cellless | misfit _ => true

def Defect.message : Defect -> Text
  | malformed => utf8 "malformed table"
  | overrun => utf8 "an escape that does not end"
  | clashingColumns => utf8 "two columns have one name"
  | cellless => utf8 "a row without cells"
  | misfit column => utf8 "a cell that does not fit column " ++ column

end Table
end VectorMachine
