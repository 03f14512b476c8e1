import VectorMachine.Command.Run

/-!
# The command line program
-/

namespace VectorMachine

def faultOf : IO.Error -> FileFault
  | .noFileOrDirectory .. => .missing
  | .inappropriateType .. => .isDirectory
  | .permissionDenied .. => .other (utf8 "permission denied")
  | e => .other (utf8 (toString e))

def pathOf (path : Text) : String :=
  (String.fromUTF8? ⟨path.toArray⟩).getD ""

def readDisk (path : Text) : IO (Except FileError Bytes) := do
  try
    let content ← IO.FS.readBinFile (pathOf path)
    return .ok content.toList
  catch e =>
    let fault := faultOf e
    return .error ⟨fault = .isDirectory, path, fault⟩

def writeDisk (path : Text) (content : Bytes) : IO (Except FileError Unit) := do
  try
    IO.FS.writeBinFile (pathOf path) ⟨content.toArray⟩
    return .ok ()
  catch e => return .error ⟨false, path, faultOf e⟩

partial def awaitTask (task : Task α) (deadline : Nat) : IO (Option α) := do
  if ← IO.hasFinished task then return some task.get
  else if deadline < (← IO.monoNanosNow) then return none
  else
    IO.sleep 1
    awaitTask task deadline

def systemHost : Command.Host IO where
  read := readDisk
  write := writeDisk
  print t := do
    let output ← IO.getStdout
    output.write ⟨t.toArray⟩
    output.flush
  working := return utf8 (toString (← IO.currentDir))
  entropy := do
    let bytes ← IO.getRandomBytes 8
    return bytes.toList.foldl (fun seed b => seed * 256 + b.toUInt64) 0
  timed work := do
    let start ← IO.monoNanosNow
    let result ← IO.lazyPure work
    return (result, (← IO.monoNanosNow) - start)
  within limit work := do
    let start ← IO.monoNanosNow
    awaitTask (Task.spawn work) (start + limit)

end VectorMachine

def main (arguments : List String) : IO UInt32 := do
  let host := VectorMachine.systemHost
  match ← (VectorMachine.Command.run host (arguments.map VectorMachine.utf8)).run with
  | .ok _ => return 0
  | .error e =>
      (← IO.getStderr).putStrLn ("error: " ++ VectorMachine.pathOf e.message)
      return 1
