import VectorMachine.Command.Flags
import VectorMachine.Files.Disk
import VectorMachine.Job.Basic
import VectorMachine.ProgramFile
import VectorMachine.Table

/-!
# Commands

What a command needs from its surroundings, and how it can fail.
-/

namespace VectorMachine
namespace Command

/-!
## Hosts
-/

structure Host (m : Type -> Type) extends Files m where
  print : Text -> m Unit
  working : m Text
  entropy : m UInt64
  /-- Do some work and tell how many nanoseconds it took. -/
  timed : {α : Type} -> (Unit -> α) -> m (α × Nat)
  /-- Do some work, unless it takes longer than so many nanoseconds. -/
  within : {α : Type} -> Nat -> (Unit -> α) -> m (Option α)

structure Session where
  disk : Disk
  printed : Text := []
deriving DecidableEq

/-- Commands over a disk in memory, where no time passes and nothing is random. -/
def Session.host : Host (StateM Session) where
  read path s := (s.disk.read path, s)
  write path content s :=
    match s.disk.write path content with
    | .ok disk => (.ok (), { s with disk })
    | .error e => (.error e, s)
  print t s := ((), { s with printed := s.printed ++ t })
  working s := (Path.slash :: Text.join [Path.slash] s.disk.working, s)
  entropy s := (0, s)
  timed work s := ((work (), 0), s)
  within _ work s := (some (work ()), s)

/-!
## Errors
-/

inductive Name where
  | asm
  | disasm
  | exec
  | run
deriving DecidableEq

def Name.usage : Name -> String
  | asm => "usage: vvm asm <file.vasm> [-o output.vvbc]"
  | disasm => "usage: vvm disasm <file.vvbc> [-o output.vasm]"
  | exec => "usage: vvm exec <file.vvbc> [-lanes N]"
  | run => "usage: vvm run <job.toml>"

inductive Activity where
  | readingSource
  | writingBytecode
  | readingBytecode
  | writingOutput
  | creatingOutput
deriving DecidableEq

def Activity.text : Activity -> String
  | readingSource => "reading source: "
  | writingBytecode => "writing bytecode: "
  | readingBytecode => "reading bytecode: "
  | writingOutput => "writing output: "
  | creatingOutput => "creating output: "

inductive Error where
  | unknownCommand (name : Text)
  | usage (name : Name)
  | flag (e : FlagError)
  | file (activity : Activity) (e : FileError)
  | assembling (e : Assembly.Error)
  | deserializing (e : Container.Error)
  | negativeLanes (n : Int)
  | program (e : ProgramFile.Error)
  | executing (e : RunError)
  | job (e : Job.LoadError)
  | table (e : Table.Error)
  | batch (e : Batch.Error)
  /-- There are no lists as long as a program or a flag asks for. -/
  | listSize (count : Int)
deriving DecidableEq

def Error.message : Error -> Text
  | unknownCommand name => utf8 "unknown command: " ++ name
  | usage name => utf8 name.usage
  | flag e => e.message
  | file activity e => utf8 activity.text ++ e.message
  | assembling e => utf8 "assembling: " ++ e.message
  | deserializing e => utf8 "deserializing: " ++ e.message
  | negativeLanes n => (RunError.invalidLaneCount n).message
  | program e => e.message
  | executing e => utf8 "executing: " ++ e.message
  | job e => e.message
  | table e => e.message
  | batch e => e.message
  | listSize count => utf8 "no list of length " ++ Text.ofInt count ++ utf8 " can be made"

abbrev Action (m : Type -> Type) := ExceptT Error m

variable {m : Type -> Type} [Monad m]

def attempt (wrap : ε -> Error) (action : m (Except ε α)) : Action m α := do
  match ← (action : m (Except ε α)) with
  | .ok a => return a
  | .error e => throw (wrap e)

end Command
end VectorMachine
