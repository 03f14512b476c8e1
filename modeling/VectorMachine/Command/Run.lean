import VectorMachine.Command.Basic
import VectorMachine.Command.Execute
import VectorMachine.Csv.Write
import VectorMachine.Listing
import VectorMachine.Opcode.Catalog

/-!
# Running commands
-/

namespace VectorMachine
namespace Command

variable {m : Type -> Type} [Monad m]

/-!
## Arguments
-/

def verbosity : String × FlagKind := ("v", .integer)

def flagsOf : Name -> FlagSet
  | .asm | .disasm => [verbosity, ("o", .text)]
  | .exec =>
      [verbosity, ("lanes", .integer), ("workers", .integer), ("strict", .switch),
        ("seed", .unsigned), ("stats", .switch)]
  | .run => [verbosity]

/-- The settings of a command and the file that it is about.  Further arguments are
ignored. -/
def parse (name : Name) (arguments : List Text) : Except Error (Settings × Text) :=
  match (flagsOf name).parse [] arguments with
  | .error e => .error (.flag e)
  | .ok (_, []) => .error (.usage name)
  | .ok (s, path :: _) => .ok (s, path)

/-!
## The commands
-/

def say (host : Host m) (t : Text) : Action m Unit :=
  ExceptT.lift (host.print t)

def assemble (host : Host m) (arguments : List Text) : Action m Unit := do
  let (s, path) ← attempt id (pure (parse .asm arguments))
  let output :=
    if s.text "o" = [] then Path.withoutExtension path ++ utf8 ".vvbc" else s.text "o"
  let source ← attempt (.file .readingSource) (host.read path)
  let program ← attempt .assembling (pure (Assembly.assemble source))
  attempt (.file .writingBytecode) (host.write output (Container.serialize program))
  say host (utf8 "Assembled: " ++ output ++ utf8 " (" ++ Text.ofNat program.codeBytes.length
    ++ utf8 " bytes of code, " ++ Text.ofNat program.constantTable.length
    ++ utf8 " constants)\n")

def disassemble (host : Host m) (arguments : List Text) : Action m Unit := do
  let (s, path) ← attempt id (pure (parse .disasm arguments))
  let bytecode ← attempt (.file .readingBytecode) (host.read path)
  let program ← attempt .deserializing (pure (Container.deserialize bytecode))
  let source := Listing.disassemble program
  if s.text "o" = [] then say host source
  else
    attempt (.file .writingOutput) (host.write (s.text "o") source)
    say host (utf8 "Disassembled to: " ++ s.text "o" ++ utf8 "\n")

/-- The given seed, or one from the host if there is none. -/
def seedOr (host : Host m) (seed : Option UInt64) : Action m UInt64 :=
  match seed with
  | some seed => return seed
  | none => ExceptT.lift host.entropy

/-- The seed that the settings ask for; zero asks for none. -/
def seedOf (s : Settings) : Option UInt64 :=
  let seed := s.unsigned "seed" 0
  if seed = 0 then none else some (UInt64.ofNat seed)

def machineOf (s : Settings) (seed : UInt64) : Machine :=
  let machine : Machine := { policy := if s.switch "strict" then .strict else .legacy }
  machine.withSeed seed

def execute (host : Host m) (arguments : List Text) : Action m Unit := do
  let (s, path) ← attempt id (pure (parse .exec arguments))
  let lanes := s.integer "lanes" 8
  if lanes < 0 then throw (.negativeLanes lanes)
  let program ← attempt .program (ProgramFile.load host.toFiles path)
  if let some count := Ramp.oversize? program lanes then throw (.listSize count)
  let machine := machineOf s (← seedOr host (seedOf s))
  let (outcome, nanoseconds) ← ExceptT.lift (host.timed fun _ =>
    Ramp.run machine (s.integer "workers" 1) program lanes.toNat)
  match outcome.result with
  | .error e => throw (.executing e)
  | .ok _ =>
      say host (Ramp.text program outcome.store)
      if s.switch "stats" then
        say host (Ramp.statisticsText outcome.statistics.report nanoseconds)

def runBatch (host : Host m) (program : Program) (frame : Frame) (o : Batch.Options) :
    Action m (Option Frame) := do
  let work := fun _ => Batch.run (some program) (some frame) o
  let result ←
    if 0 < o.timeout then ExceptT.lift (host.within o.timeout.toNat work)
    else pure (some (work ()))
  attempt .batch (pure (result.getD (.error .timedOut)))

def runJob (host : Host m) (arguments : List Text) : Action m Unit := do
  let (_, path) ← attempt id (pure (parse .run arguments))
  let working ← ExceptT.lift host.working
  let job ← attempt .job (Job.load host.toFiles working path)
  let program ← attempt .program (ProgramFile.load host.toFiles job.program)
  let frame ← attempt .table (Table.load host.toFiles job.input)
  let seed ← seedOr host job.options.seed
  match ← runBatch host program frame { job.options with seed := some seed } with
  | none => return
  | some result =>
      if job.output = [] then say host (Csv.writeFrame result)
      else
        attempt (.file .creatingOutput) (host.write job.output (Csv.writeFrame result))
        say host (utf8 "Wrote " ++ Text.ofNat result.rows ++ utf8 " rows to " ++ job.output
          ++ utf8 "\n")

/-!
## Fixed texts
-/

/-- Lines of cells in columns.  A cell is filled up to two blanks behind the longest
of its column; the last one of a line is not. -/
def columnsText (rows : List (List Text)) : Text :=
  let width := fun k => (rows.map fun row => (row[k]?.getD []).length).foldl max 0
  rows.flatMap fun row =>
    (row.zipIdx.flatMap fun (cell, k) =>
      if k + 1 = row.length then cell else Text.padRight (width k + 2) cell) ++ utf8 "\n"

def catalogText : Text :=
  columnsText (["INDEX", "OPCODE", "NAME", "OPERANDS", "FLAGS"].map utf8 ::
    Catalog.entries.zipIdx.map fun (e, i) =>
      [Text.ofNat i, e.op.name, utf8 e.title,
        Text.join (utf8 ",") (e.operands.map fun k => utf8 k.text), utf8 e.flags.text])

def versionText : Text := utf8 "vvm version dev\n"

def helpLines : List String :=
  ["vvm - vector virtual machine for batched per-lane arithmetic",
    "",
    "Usage:",
    "  vvm <command> [arguments]",
    "",
    "Commands:",
    "  asm <file.vasm>       Assemble source to bytecode (.vvbc)",
    "  disasm <file.vvbc>    Disassemble bytecode to source",
    "  exec <file.vvbc>      Run a program over a synthetic ramp input",
    "  run <job.toml>        Run a program over a CSV, JSON or Parquet table",
    "  ops                   Print the opcode metadata table",
    "  version               Print version information",
    "  help                  Show this help message",
    "",
    "Common Options:",
    "  -v <n>                Log verbosity (0 quiet, 1 info, 2 debug)",
    "",
    "Asm Options:",
    "  -o <file>             Output file (default: input with .vvbc extension)",
    "",
    "Disasm Options:",
    "  -o <file>             Output file (default: stdout)",
    "",
    "Exec Options:",
    "  -lanes <n>            Number of lanes (default 8)",
    "  -workers <n>          Chunks run concurrently (default 1)",
    "  -strict               Reject unwired operand descriptors",
    "  -seed <n>             Seed for the random opcode",
    "  -stats                Print execution statistics",
    "",
    "Examples:",
    "  vvm asm particles.vasm -o particles.vvbc",
    "  vvm exec particles.vvbc -lanes 300 -workers 4",
    "  vvm disasm particles.vvbc",
    "  vvm run job.toml"]

def helpText : Text :=
  helpLines.flatMap fun line => utf8 line ++ utf8 "\n"

/-!
## The command line
-/

def run (host : Host m) : List Text -> Action m Unit
  | [] => say host helpText
  | name :: arguments =>
      if name = utf8 "asm" then assemble host arguments
      else if name = utf8 "disasm" then disassemble host arguments
      else if name = utf8 "exec" then execute host arguments
      else if name = utf8 "run" then runJob host arguments
      else if name = utf8 "ops" then say host catalogText
      else if name = utf8 "version" then say host versionText
      else if name = utf8 "help" ∨ name = utf8 "-h" ∨ name = utf8 "--help" then
        say host helpText
      else throw (.unknownCommand name)

end Command
end VectorMachine
