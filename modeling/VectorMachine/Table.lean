import VectorMachine.Csv.Table
import VectorMachine.Files.Basic
import VectorMachine.Files.Path
import VectorMachine.Json.Table
import VectorMachine.Text.LetterCase
import VectorMachine.Text.Quoted

/-!
# Table files

The extension of a file tells how its table is written.
-/

namespace VectorMachine
namespace Table

inductive Format where
  | csv
  | json
  /-- Tables in this format are known by their name, but none can be read. -/
  | parquet
deriving DecidableEq

inductive Error where
  | unsupportedFormat (extension : Text)
  | file (e : FileError)
  | emptyFile (path : Text)
  | defect (path : Text) (d : Defect)
deriving DecidableEq

abbrev Error.malformed (path : Text) : Error := defect path .malformed

def Error.aborts : Error -> Bool
  | defect _ d => d.aborts
  | _ => false

def Error.message : Error -> Text
  | unsupportedFormat extension =>
      utf8 "unsupported input format: " ++ Quoted.quote extension
  | file e => e.message
  | emptyFile path => utf8 "empty input file: " ++ path
  | defect path d =>
      if d.aborts then d.message else utf8 "loading " ++ path

def formatOf (path : Text) : Except Error Format :=
  let extension := LetterCase.lower (Path.extension path)
  if extension = utf8 ".csv" then .ok .csv
  else if extension = utf8 ".json" then .ok .json
  else if extension = utf8 ".parquet" then .ok .parquet
  else .error (.unsupportedFormat extension)

def frameOf (path : Text) : Except Defect (List Column) -> Except Error Frame
  | .error d => .error (.defect path d)
  | .ok [] => .error (.emptyFile path)
  | .ok columns =>
      match Frame.ofColumns? columns with
      | some f => .ok f
      | none => .error (.defect path .clashingColumns)

def parse (format : Format) (path : Text) (content : Bytes) : Except Error Frame :=
  match format with
  | .csv => frameOf path (Csv.columns content)
  | .json =>
      if content = [] then .error (.emptyFile path) else frameOf path (Json.columns content)
  | .parquet => .error (.malformed path)

/-- The error of a file that cannot be read.  What opens but cannot be read is
malformed, except where the whole file is fetched first. -/
def fileError (format : Format) (path : Text) (e : FileError) : Error :=
  if e.opened && format ≠ .json then .malformed path else .file e

def load {m : Type -> Type} [Monad m] (files : Files m) (path : Text) :
    m (Except Error Frame) :=
  match formatOf path with
  | .error e => pure (.error e)
  | .ok format => do
      match ← files.read path with
      | .error e => return .error (fileError format path e)
      | .ok content => return parse format path content

end Table
end VectorMachine
