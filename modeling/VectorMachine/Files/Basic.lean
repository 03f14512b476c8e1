import VectorMachine.Text.Basic

/-!
# Files

What can go wrong with a file, and the two things that are done with files.
-/

namespace VectorMachine

inductive FileFault where
  | missing
  | notDirectory
  | isDirectory
  | invalidPath
  | nameTooLong
  | other (reason : Text)
deriving DecidableEq

def FileFault.text : FileFault -> Text
  | missing => utf8 "no such file or directory"
  | notDirectory => utf8 "not a directory"
  | isDirectory => utf8 "is a directory"
  | invalidPath => utf8 "invalid argument"
  | nameTooLong => utf8 "file name too long"
  | other reason => reason

/-- A failed operation: the file could not be opened, or not be read once it was
open. -/
structure FileError where
  opened : Bool
  path : Text
  fault : FileFault
deriving DecidableEq

def FileError.message (e : FileError) : Text :=
  utf8 (if e.opened then "read " else "open ") ++ e.path ++ utf8 ": " ++ e.fault.text

structure Files (m : Type -> Type) where
  read : Text -> m (Except FileError Bytes)
  write : Text -> Bytes -> m (Except FileError Unit)

end VectorMachine
