import VectorMachine.Batch.Basic
import VectorMachine.Files.Basic
import VectorMachine.Files.Path
import VectorMachine.Job.Duration
import VectorMachine.Text.LetterCase
import VectorMachine.Text.Quoted
import VectorMachine.Toml.Document

/-!
# Jobs

A job says which program to run over which table, how columns become input
registers, and how output registers become columns again.
-/

namespace VectorMachine

structure Job where
  program : Text := []
  input : Text := []
  /-- Where to write the result; it is printed if this is empty. -/
  output : Text := []
  /-- How many rows to run over; all of them if this is zero. -/
  lanes : Int := 0
  workers : Int := 0
  strict : Bool := false
  /-- The seed of the random stream; there is none if this is zero. -/
  seed : UInt64 := 0
  timeout : Text := []
  inputs : List (List Text) := []
  outputs : Option (List Batch.Output) := none
  directory : Text := []
deriving DecidableEq

namespace Job

inductive Error where
  | malformed
  | noProgram
  | noInput
  | lanes (n : Int)
  | workers (n : Int)
  | timeout (t : Text)
  | columnCount (input count : Nat)
  | componentCount (output : Nat) (name : Text) (count : Int)
deriving DecidableEq

def Error.message : Error -> Text
  | malformed => utf8 "parse error"
  | noProgram => utf8 "job has no program"
  | noInput => utf8 "job has no input"
  | lanes n => utf8 "invalid job value: lanes = " ++ Text.ofInt n
  | workers n => utf8 "invalid job value: workers = " ++ Text.ofInt n
  | timeout t => utf8 "invalid job value: timeout = " ++ Quoted.quote t
  | columnCount input count =>
      utf8 "component count must be 1 to 4: inputs[" ++ Text.ofNat input ++ utf8 "] has "
        ++ Text.ofNat count ++ utf8 " columns"
  | componentCount output name count =>
      utf8 "component count must be 1 to 4: outputs[" ++ Text.ofNat output ++ utf8 "] ("
        ++ name ++ utf8 ") has " ++ Text.ofInt count ++ utf8 " components"

/-!
## From a document
-/

def string? : Toml.Value -> Option Text
  | .string t => some t
  | _ => none

def integer? : Toml.Value -> Option Int
  | .integer n => some n
  | _ => none

def boolean? : Toml.Value -> Option Bool
  | .boolean b => some b
  | _ => none

def elements? : Toml.Value -> Option (List Toml.Value)
  | .array vs => some vs
  | .tables latest before => some ((latest :: before).reverse.map .table)
  | _ => none

def table? : Toml.Value -> Option Toml.Table
  | .table t => some t
  | _ => none

/-- The value of a setting, whose name may be written in any letter case; the
default if it is not set, and nothing if any of its values is of another type. -/
def setting? (t : Toml.Table) (name : String) (read : Toml.Value -> Option α) (default : α) :
    Option α :=
  let settings := t.filter fun (key, _) => LetterCase.sameLetters key (utf8 name)
  (settings.mapM fun setting => read setting.2).map fun values => values.getLastD default

def columnsOf? (v : Toml.Value) : Option (List Text) := do
  setting? (← table? v) "columns" (fun v => (elements? v).bind (·.mapM string?)) []

def outputOf? (v : Toml.Value) : Option Batch.Output := do
  let t ← table? v
  return {
    name := ← setting? t "name" string? []
    components := ← setting? t "components" integer? 0 }

def ofTable? (t : Toml.Table) : Option Job := do
  return {
    program := ← setting? t "program" string? []
    input := ← setting? t "input" string? []
    output := ← setting? t "output" string? []
    lanes := ← setting? t "lanes" integer? 0
    workers := ← setting? t "workers" integer? 0
    strict := ← setting? t "strict" boolean? false
    seed := UInt64.ofInt (← setting? t "seed" integer? 0)
    timeout := ← setting? t "timeout" string? []
    inputs := ← setting? t "inputs" (fun v => (elements? v).bind (·.mapM columnsOf?)) []
    outputs := ← setting? t "outputs"
      (fun v => ((elements? v).bind (·.mapM outputOf?)).map some) none }

/-!
## Checking
-/

/-- An output without a number of components has one, and without a name it is
named for its index. -/
def fillOutput (index : Nat) (o : Batch.Output) : Batch.Output where
  name := if o.name = [] then utf8 "out" ++ Text.ofNat index else o.name
  components := if o.components = 0 then 1 else o.components

def withDefaults (j : Job) : Job :=
  { j with
    workers := if j.workers = 0 then 1 else j.workers
    outputs := j.outputs.map fun outputs => outputs.zipIdx.map fun (o, k) => fillOutput k o }

/-- The nanoseconds of the timeout; zero if there is none. -/
def timeoutOf (j : Job) : Except Error Int :=
  if j.timeout = [] then .ok 0
  else
    match Duration.parse? j.timeout with
    | some n => if n < 0 then .error (.timeout j.timeout) else .ok n
    | none => .error (.timeout j.timeout)

/-- The first input register with too few or too many columns. -/
def badInput? (j : Job) : Option Error :=
  (j.inputs.zipIdx.find? fun (columns, _) => columns.length < 1 ∨ 4 < columns.length).map
    fun (columns, k) => .columnCount k columns.length

/-- The first output with too few or too many components. -/
def badOutput? (j : Job) : Option Error :=
  ((j.outputs.getD []).zipIdx.find? fun (o, _) => o.components < 1 ∨ 4 < o.components).map
    fun (o, k) => .componentCount k o.name o.components

def error? (j : Job) : Option Error :=
  if j.program = [] then some .noProgram
  else if j.input = [] then some .noInput
  else if j.lanes < 0 then some (.lanes j.lanes)
  else if j.workers < 0 then some (.workers j.workers)
  else
    match timeoutOf j with
    | .error e => some e
    | .ok _ => badInput? j <|> badOutput? j

def check (j : Job) : Except Error Job :=
  match error? (withDefaults j) with
  | some e => .error e
  | none => .ok (withDefaults j)

def parseWith (decode? : Bytes -> Option Job) (content : Bytes) : Except Error Job :=
  match decode? content with
  | none => .error .malformed
  | some j => check j

def parse : Bytes -> Except Error Job :=
  parseWith fun content => (Toml.parse? content).bind ofTable?

/-!
## Job files
-/

inductive LoadError where
  | file (path : Text) (e : FileError)
  | invalid (path : Text) (e : Error)
deriving DecidableEq

def LoadError.message : LoadError -> Text
  | file path e => utf8 "cannot read " ++ path ++ utf8 ": " ++ e.message
  | invalid path e => path ++ utf8 ": " ++ e.message

def resolve (directory path : Text) : Text :=
  if path = [] ∨ Path.isAbsolute path then path else Path.join directory path

def located (working path : Text) (j : Job) : Job :=
  let directory := Path.absolute working (Path.directory path)
  { j with
    directory
    program := resolve directory j.program
    input := resolve directory j.input
    output := resolve directory j.output }

def load {m : Type -> Type} [Monad m] (files : Files m) (working path : Text) :
    m (Except LoadError Job) := do
  match ← files.read path with
  | .error e => return .error (.file path e)
  | .ok content => return ((parse content).map (located working path)).mapError (.invalid path)

def options (j : Job) : Batch.Options where
  inputs := j.inputs
  outputs := j.outputs
  lanes := j.lanes
  workers := j.workers
  strict := j.strict
  seed := if j.seed = 0 then none else some j.seed
  timeout := (timeoutOf j).toOption.getD 0

end Job
end VectorMachine
