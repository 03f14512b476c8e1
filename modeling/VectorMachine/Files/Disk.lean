import VectorMachine.Files.Basic
import VectorMachine.Files.Path

/-!
# Files in memory

A tree of files and directories.  A place in the tree is the list of the names that
lead to it from the root.
-/

namespace VectorMachine

inductive Node where
  | file (content : Bytes)
  | directory
deriving DecidableEq

structure Disk where
  working : List Text
  nodes : List (List Text × Node)
deriving DecidableEq

namespace Disk

def placesTo (place : List Text) : List (List Text) :=
  (List.range (place.length + 1)).map place.take

def empty (working : List Text) : Disk where
  working
  nodes := (placesTo working).map fun place => (place, .directory)

def node? (d : Disk) (place : List Text) : Option Node :=
  if place = [] then some .directory else d.nodes.lookup place

def maxName : Nat := 255

def maxPath : Nat := 4095

/-- Follow the elements of a path.  All places on the way must be directories; the
last one need not exist. -/
def walk (d : Disk) (place : List Text) : List Text -> Except FileFault (List Text)
  | [] => .ok place
  | element :: rest =>
      match d.node? place with
      | none => .error .missing
      | some (.file _) => .error .notDirectory
      | some .directory =>
          if element = [] ∨ element = utf8 "." then d.walk place rest
          else if element = utf8 ".." then d.walk place.dropLast rest
          else if maxName < element.length then .error .nameTooLong
          else d.walk (place ++ [element]) rest

def pathFault? (path : Text) : Option FileFault :=
  if path.contains 0x00 then some .invalidPath
  else if path = [] then some .missing
  else if maxPath < path.length then some .nameTooLong
  else none

def start (d : Disk) (path : Text) : List Text :=
  if Path.isAbsolute path then [] else d.working

def find (d : Disk) (path : Text) : Except FileFault (List Text) :=
  match pathFault? path with
  | some fault => .error fault
  | none => d.walk (d.start path) (Text.splitOn Path.slash path)

def read (d : Disk) (path : Text) : Except FileError Bytes :=
  match d.find path with
  | .error fault => .error ⟨false, path, fault⟩
  | .ok place =>
      match d.node? place with
      | none => .error ⟨false, path, .missing⟩
      | some .directory => .error ⟨true, path, .isDirectory⟩
      | some (.file content) => .ok content

def put (d : Disk) (place : List Text) (node : Node) : Disk :=
  { d with nodes := (place, node) :: d.nodes.filter fun entry => entry.1 ≠ place }

def withoutSlashes (path : Text) : Text :=
  (path.reverse.dropWhile (· == Path.slash)).reverse

def findParent (d : Disk) (path : Text) : Except FileFault (List Text) :=
  d.walk (d.start path) ((Text.splitOn Path.slash path).dropLast ++ [utf8 "."])

/-- The place at which a file can be written.  A path with a slash at its end can
only mean a directory, and nobody looks for it there. -/
def findFile (d : Disk) (path : Text) : Except FileFault (List Text) :=
  match pathFault? path with
  | some fault => .error fault
  | none =>
      let bare := withoutSlashes path
      if bare = path then d.find path
      else if bare = [] then .error .isDirectory
      else (d.findParent bare).bind fun _ => .error .isDirectory

/-- Replace the content of a file, which is made if it is not there. -/
def write (d : Disk) (path : Text) (content : Bytes) : Except FileError Disk :=
  match d.findFile path with
  | .error fault => .error ⟨false, path, fault⟩
  | .ok place =>
      if d.node? place = some .directory then .error ⟨false, path, .isDirectory⟩
      else .ok (d.put place (.file content))

def make (d : Disk) (place : List Text) (node : Node) : Disk :=
  ((placesTo place).foldl
    (fun d part => if d.node? part = none then d.put part .directory else d) d).put place node

def files : Files (StateM Disk) where
  read path d := (d.read path, d)
  write path content d :=
    match d.write path content with
    | .ok d' => (.ok (), d')
    | .error e => (.error e, d)

end Disk
end VectorMachine
