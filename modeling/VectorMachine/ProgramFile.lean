import VectorMachine.Assembly.Assemble
import VectorMachine.Container.Basic
import VectorMachine.Files.Basic
import VectorMachine.Files.Path
import VectorMachine.Text.LetterCase

/-!
# Program files

A file with the extension of assembly sources is assembled; any other file is a
container.
-/

namespace VectorMachine
namespace ProgramFile

inductive Error where
  | file (e : FileError)
  | assembly (path : Text) (e : Assembly.Error)
  | container (path : Text) (e : Container.Error)
deriving DecidableEq

def Error.message : Error -> Text
  | file e => e.message
  | assembly path e => path ++ utf8 ": " ++ e.message
  | container path e => path ++ utf8 ": " ++ e.message

def isSource (path : Text) : Bool :=
  LetterCase.sameLetters (Path.extension path) (utf8 ".vasm")

def parse (path : Text) (content : Bytes) : Except Error Program :=
  if isSource path then (Assembly.assemble content).mapError (.assembly path)
  else (Container.deserialize content).mapError (.container path)

def load {m : Type -> Type} [Monad m] (files : Files m) (path : Text) :
    m (Except Error Program) := do
  match ← files.read path with
  | .error e => return .error (.file e)
  | .ok content => return parse path content

end ProgramFile
end VectorMachine
