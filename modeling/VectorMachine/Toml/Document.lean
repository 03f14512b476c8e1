import VectorMachine.Toml.Read

/-!
# Documents

The statements of a document build a tree of tables.  A name that has a value is
not given another one, unless its place is open: a table that was only passed on
the way to others may still be named once, and so may the place of a table that
is written as a value.

Which places are open, and which were last given an array, is remembered by the
key alone.  The tables of one array share their keys, so what is known of a place
in one of them holds for the same place in the next.
-/

namespace VectorMachine
namespace Toml

namespace Table

def put (name : Text) (v : Value) : Table -> Table
  | [] => [(name, v)]
  | (key, old) :: rest =>
      if key = name then (name, v) :: rest else (key, old) :: put name v rest

/-- The table that a key leads to; in an array of tables the latest one. -/
def descend? (t : Table) : Key -> Option Table
  | [] => some t
  | name :: rest =>
      match t.lookup name with
      | some (.table inner) => descend? inner rest
      | some (.tables latest _) => descend? latest rest
      | _ => none

def change? (change : Table -> Option Table) (t : Table) : Key -> Option Table
  | [] => change t
  | name :: rest =>
      match t.lookup name with
      | some (.table inner) =>
          (change? change inner rest).map fun inner => put name (.table inner) t
      | some (.tables latest before) =>
          (change? change latest rest).map fun latest => put name (.tables latest before) t
      | _ => none

end Table

structure Document where
  root : Table := []
  /-- The places that may be named once more. -/
  openPlaces : List Key := []
  arrays : List Key := []

namespace Document

def put? (d : Document) (context : Key) (name : Text) (v : Value) : Option Document :=
  (Table.change? (fun t => some (Table.put name v t)) d.root context).map fun root =>
    { d with root }

def lookup? (d : Document) (context : Key) (name : Text) : Option (Option Value) :=
  (Table.descend? d.root context).map fun t => t.lookup name

def unclose (d : Document) (key : Key) : Document :=
  { d with openPlaces := key :: d.openPlaces }

def close (d : Document) (key : Key) : Document :=
  { d with openPlaces := d.openPlaces.filter (· ≠ key) }

def noteArray (d : Document) (key : Key) (isArray : Bool) : Document :=
  let others := d.arrays.filter (· ≠ key)
  { d with arrays := if isArray then key :: others else others }

/-- The key under which a place is remembered.  An empty name stands for the table
it is in, except at the very top. -/
def memoryKey (context : Key) (name : Text) : Key :=
  if name = [] ∧ context ≠ [] then context else context ++ [name]

/-- Give a value to a name.  If the name has one already, its place must be open,
which it is no longer; only in the place of an array does the new value count. -/
def assign? (d : Document) (context : Key) (name : Text) (v : Value) : Option Document :=
  let key := context ++ [name]
  match d.lookup? context name with
  | none => none
  | some none => d.put? context name v
  | some (some _) =>
      if d.openPlaces.contains key then
        if d.arrays.contains key then (d.put? context name v).map (·.close key)
        else some (d.close key)
      else none

/-!
## Tables
-/

/-- Make a table that is only passed, if the name stands for nothing yet. -/
def pass? (context : Key) (name : Text) (d : Document) : Option Document :=
  match d.lookup? context name with
  | some none => (d.put? context name (.table [])).map (·.unclose (context ++ [name]))
  | some (some _) => some d
  | none => none

def passAll? (context : Key) : Key -> Document -> Option Document
  | [], d => some d
  | name :: rest, d => (pass? context name d).bind (passAll? (context ++ [name]) rest)

def enterTable? (d : Document) (key : Key) : Option Document :=
  match key.getLast? with
  | none => none
  | some name =>
      (passAll? [] key.dropLast d).bind fun d => d.assign? key.dropLast name (.table [])

def enterElement? (d : Document) (key : Key) : Option Document :=
  match key.getLast? with
  | none => none
  | some name => do
      let d ← passAll? [] key.dropLast d
      match ← d.lookup? key.dropLast name with
      | none => d.put? key.dropLast name (.tables [] [])
      | some (.tables latest before) =>
          d.put? key.dropLast name (.tables [] (latest :: before))
      | some _ => none

def visitAll? (context : Key) : Key -> Document -> Option Document
  | [], d => some d
  | name :: rest, d =>
      let key := context ++ [name]
      ((d.unclose key).enterTable? key).bind (visitAll? key rest)

end Document

/-!
## Values
-/

def Table.place? (v : Value) (name : Text) : Key -> Table -> Option Table
  | [], t => some (Table.put name v t)
  | next :: rest, t =>
      match t.lookup next with
      | none => (Table.place? v name rest []).map fun inner => Table.put next (.table inner) t
      | some (.table inner) =>
          (Table.place? v name rest inner).map fun inner => Table.put next (.table inner) t
      | some _ => none

def Literal.isArray : Literal -> Bool
  | .array _ => true
  | _ => false

mutual

/-- The value of a literal that is given to a name.  The tables in it are also
entered in the document, at the place of the name. -/
def valueOf? (d : Document) (context : Key) (name : Text) (inArray : Bool) :
    Literal -> Option (Document × Value)
  | .string t => some (d, .string t)
  | .integer n => some (d, .integer n)
  | .float x => some (d, .float x)
  | .boolean b => some (d, .boolean b)
  | .moment t => some (d, .moment t)
  | .array elements =>
      (valuesOf? (d.noteArray (Document.memoryKey context name) true) context name elements).map
        fun (d, vs) => (d, .array vs)
  | .table members =>
      let key := context ++ [name]
      let d := d.unclose key
      match if inArray then d.enterElement? key else d.enterTable? key with
      | none => none
      | some d => (membersOf? d key [] members).map fun (d, t) => (d, .table t)

def valuesOf? (d : Document) (context : Key) (name : Text) :
    List Literal -> Option (Document × List Value)
  | [] => some (d, [])
  | literal :: rest =>
      match valueOf? d context name true literal with
      | none => none
      | some (d, v) =>
          (valuesOf? d context name rest).map fun (d, vs) => (d, v :: vs)

/-- The members of a table that is written as a value follow the same rules as the
statements of a document.  The table itself is gathered on the side. -/
def membersOf? (d : Document) (context : Key) (t : Table) :
    List (Key × Literal) -> Option (Document × Table)
  | [] => some (d, t)
  | (key, literal) :: rest =>
      let front := key.dropLast
      let name := key.getLastD []
      match Document.visitAll? context front d with
      | none => none
      | some d =>
          match valueOf? d (context ++ front) name false literal with
          | none => none
          | some (d, v) =>
              match d.assign? (context ++ front) name v, Table.place? v name front t with
              | some d, some t =>
                  let d := d.noteArray (Document.memoryKey (context ++ front) name)
                    literal.isArray
                  membersOf? d context t rest
              | _, _ => none

end

/-- Carry out statements, the first of them in the given context. -/
def build? (d : Document) (context : Key) : List Statement -> Option Document
  | [] => some d
  | .assign key literal :: rest => do
      let (d, _) ← membersOf? d context [] [(key, literal)]
      build? d context rest
  | .table key :: rest => do
      let d ← d.enterTable? key
      build? (d.noteArray key false) key rest
  | .element key :: rest => do
      let d ← d.enterElement? key
      build? (d.noteArray key false) key rest

def parse? (t : Text) : Option Table := do
  let d ← build? {} [] (← statements? t)
  return d.root

end Toml
end VectorMachine
