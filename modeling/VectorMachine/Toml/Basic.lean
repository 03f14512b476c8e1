import VectorMachine.Text.Basic

/-!
# TOML

A document is a sequence of statements.  Most of them give a value to a key; the
others name the table, or start the next table of an array, to which the keys after
them belong.
-/

namespace VectorMachine
namespace Toml

abbrev Key := List Text

inductive Literal where
  | string (t : Text)
  | integer (n : Int)
  | float (x : Float)
  | boolean (b : Bool)
  | moment (t : Text)
  | array (elements : List Literal)
  | table (members : List (Key × Literal))

inductive Statement where
  | assign (key : Key) (value : Literal)
  | table (key : Key)
  | element (key : Key)

inductive Value where
  | string (t : Text)
  | integer (n : Int)
  | float (x : Float)
  | boolean (b : Bool)
  | moment (t : Text)
  | array (elements : List Value)
  | table (entries : List (Text × Value))
  /-- An array of tables that statements go on adding to, the latest one first. -/
  | tables (latest : List (Text × Value)) (before : List (List (Text × Value)))

abbrev Table := List (Text × Value)

/-!
## Bytes
-/

def isBlank (b : UInt8) : Bool :=
  b == 0x20 || b == 0x09

def isLineEnd (b : UInt8) : Bool :=
  b == 0x0a || b == 0x0d

def skipBlanks (t : Text) : Text := t.dropWhile isBlank

/-- Skip blanks, line ends and comments.  The flag tells whether the text starts
inside a comment. -/
def skipGap (inComment : Bool) : Text -> Text
  | [] => []
  | b :: rest =>
      if isLineEnd b then skipGap false rest
      else if inComment then skipGap true rest
      else if isBlank b then skipGap false rest
      else if b = 0x23 then skipGap true rest
      else b :: rest

end Toml
end VectorMachine
