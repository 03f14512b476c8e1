import VectorMachine.Json.Window
import VectorMachine.Number.Read

/-!
# Reading JSON

Values are read at the cursor of a window.  The reader is forgiving: a number may
be any run of its characters that reads as a number, a string may hold any byte
but zero, and the letter of a word behind which the window is filled again is not
looked at.
-/

namespace VectorMachine
namespace Json

abbrev Reader := StateT Window (Except Fault)

namespace Reader

def change (f : Window -> Option Window) : Reader Unit := fun w =>
  match f w with
  | some w => .ok ((), w)
  | none => .error .outside

def look {α : Type} (f : Window -> Option α) : Reader α := fun w =>
  match f w with
  | some a => .ok (a, w)
  | none => .error .outside

def peek : Reader UInt8 := look fun w => w.byte? w.cursor

def advance (count : Nat) : Reader Unit :=
  modify fun w => { w with cursor := w.cursor + count }

/-- Fill the window again, unless the end of the text has been met. -/
def refill : Reader Bool := do
  if (← get).ended then return false
  else
    change Window.refill?
    return true

def steps : Reader Nat := return (← get).steps

def cursor : Reader Nat := return (← get).cursor

def textFrom (first : Nat) : Reader Text := look fun w => w.slice? first w.cursor

/-!
## Blanks and words
-/

def skipBlanksIn : Nat -> Reader UInt8
  | 0 => throw .malformed
  | count + 1 => do
      let b ← peek
      if isBlank b then
        advance 1
        skipBlanksIn count
      else if b == 0 then
        if ← refill then skipBlanksIn count else return b
      else return b

/-- Pass over blanks, and give the byte behind them: zero where the text ends. -/
def skipBlanks : Reader UInt8 := do
  skipBlanksIn (← steps)

def expect (b : UInt8) : Reader Unit := do
  if (← skipBlanks) == b then advance 1 else throw .malformed

def letters : Text -> Reader Unit
  | [] => advance 1
  | b :: rest => do
      advance 1
      let found ← peek
      if found == b then letters rest
      else if found == 0 then
        if ← refill then letters rest else throw .malformed
      else throw .malformed

def word (w : String) : Reader Unit := letters ((utf8 w).drop 1)

/-!
## Numbers
-/

def skipNumericIn : Nat -> Reader Unit
  | 0 => throw .malformed
  | count + 1 => do
      let b ← peek
      if isNumeric b then
        advance 1
        skipNumericIn count
      else if b == 0 then
        if ← refill then skipNumericIn count

/-- A number whose first character stands at the cursor. -/
def number : Reader Float := do
  let first ← cursor
  advance 1
  skipNumericIn (← steps)
  match Number.readFloat (← textFrom first) with
  | .ok x => return x
  | .error _ => throw .malformed

/-!
## Strings
-/

/-- The character of the code unit behind the cursor, and how many bytes from the
cursor on it takes.  Of a cut code unit the rest is taken in, but a second
surrogate counts only if it is at hand. -/
def unit : Reader (Char × Nat) := do
  let w ← get
  if w.mark ≤ w.cursor + 5 then
    unless ← refill do throw .malformed
  let high ← look fun w => (w.slice? (w.cursor + 1) (w.cursor + 5)).map codeUnit
  let single := (charOfUnit high, 5)
  let w ← get
  if !(isHighSurrogate high || isLowSurrogate high) || w.mark ≤ w.cursor + 11 then return single
  else if (← look fun w => w.byte? (w.cursor + 5)) != 0x5c then return single
  else if (← look fun w => w.byte? (w.cursor + 6)) != 0x75 then return single
  else
    let low ← look fun w => (w.slice? (w.cursor + 7) (w.cursor + 11)).map codeUnit
    return (charOfPair? high low).elim single fun c => (c, 11)

/-- Put the character of an escape in its place.  The cursor stands on the letter
of the escape, and then on the last byte of the character. -/
def replaceEscape (c : Text) (taken : Nat) : Reader Unit := do
  change fun w => w.splice? (w.cursor - 1) c (w.cursor + taken)
  modify fun w => { w with cursor := w.cursor + c.length - 2 }

/-- The letter of an escape, in at most so many steps. -/
def escapeIn : Nat -> Reader Unit
  | 0 => throw .malformed
  | count + 1 => do
      let b ← peek
      if b == 0x75 then
        let (c, taken) ← unit
        replaceEscape (Utf8.encode c) taken
      else if b == 0 then
        if ← refill then escapeIn count else throw .malformed
      else
        match escaped? b with
        | some c => replaceEscape [c] 1
        | none => throw .malformed

def escape : Reader Unit := do
  advance 1
  escapeIn (← steps)

def stringFrom (first : Nat) : Nat -> Reader Text
  | 0 => throw .malformed
  | count + 1 => do
      let b ← peek
      if b == 0x22 then
        let t ← textFrom first
        advance 1
        return t
      else if b == 0 then
        if ← refill then stringFrom first count else throw .malformed
      else
        if b == 0x5c then escape
        advance 1
        stringFrom first count

def string : Reader Text := do
  advance 1
  stringFrom (← cursor) (← steps)

/-- Pass over some bytes of a window, with which its mark moves too. -/
def passIn (w : Window) (count : Nat) : Reader Unit :=
  set { w with cursor := w.cursor + count, mark := w.mark + count }

/-- Pass over a character of several bytes.  The replacement character stands for a
byte that starts none, and for the first byte of itself. -/
def wideCharacter : Reader Unit := do
  let w ← get
  match w.bytesAt w.cursor 4 with
  | [] => throw .outside
  | b :: rest =>
      match Utf8.next? b rest with
      | some (c, count) =>
          if c = replacement then passIn w.replaceByte 3 else passIn w (count + 1)
      | none => passIn w.replaceByte 3

def quotedNameFrom (first : Nat) : Nat -> Reader Text
  | 0 => throw .malformed
  | count + 1 => do
      let w ← get
      let b := w.staleByte w.cursor
      if b == 0x22 then
        let t ← textFrom first
        advance 1
        return t
      else if b == 0 then
        if ← refill then quotedNameFrom first count else throw .malformed
      else
        if 0x80 ≤ b then wideCharacter
        else
          if b == 0x5c then escape
          advance 1
        quotedNameFrom first count

/-- A name whose quote stands at the cursor.  It is UTF-8 throughout. -/
def quotedName : Reader Text := do
  advance 1
  quotedNameFrom (← cursor) (← steps)

/-- The name of a member: a string, or nothing for the empty name. -/
def name : Reader Text := do
  let b ← skipBlanks
  if b == 0x22 then
    let t ← quotedName
    change Window.cut?
    return t
  else if b == 0x6e then
    word "null"
    return []
  else throw .malformed

/-!
## Values
-/

def maxDepth : Nat := 10000

/-- Read items onto those in front of them, the last one first, up to the byte that
closes the list, in at most so many steps. -/
def listedFrom {α : Type} (close : UInt8) (item : Reader α) : Nat -> List α -> Reader (List α)
  | 0, _ => throw .malformed
  | count + 1, front => do
      let a ← item
      let b ← skipBlanks
      advance 1
      if b == close then return (a :: front).reverse
      else if b == 0x2c then listedFrom close item count (a :: front)
      else throw .malformed

def listed {α : Type} (close : UInt8) (item : Reader α) : Reader (List α) := do
  listedFrom close item (← steps) []

/-- An object whose brace stands at the cursor.  It has no members only if the
closing brace follows at once. -/
def object (value : Reader Value) : Reader Value := do
  if (← look fun w => w.byte? (w.cursor + 1)) == 0x7d then
    advance 2
    return .object []
  else
    advance 1
    let member := do
      let n ← name
      expect 0x3a
      return (n, ← value)
    return .object (lastMembers (← listed 0x7d member))

def array (value : Reader Value) : Reader Value := do
  advance 1
  if (← skipBlanks) == 0x5d then
    advance 1
    return .array []
  else return .array (← listed 0x5d value)

/-- A value behind blanks.  What is inside an array or an object is read by `inner`,
without which there may be none. -/
def valueAround (inner : Option (Reader Value)) : Reader Value := do
  let b ← skipBlanks
  if b == 0x7b then inner.elim (throw .malformed) object
  else if b == 0x5b then inner.elim (throw .malformed) array
  else if startsNumber b then return .number (← number)
  else if b == 0x22 then return .string (← string)
  else if b == 0x74 then
    word "true"
    return .bool true
  else if b == 0x66 then
    word "false"
    return .bool false
  else if b == 0x6e then
    word "null"
    return .null
  else throw .malformed

/-- A value in which arrays and objects are nested at most so deep. -/
def valueWithin : Nat -> Reader Value
  | 0, w => valueAround none w
  | depth + 1, w => valueAround (some (valueWithin depth)) w

def value : Reader Value := valueWithin maxDepth

def record : Reader Value := do
  let b ← skipBlanks
  if b == 0x7b then object (valueWithin (maxDepth - 1))
  else if b == 0x6e then
    word "null"
    return .null
  else throw .malformed

/-!
## Tokens
-/

/-- The parts of a text that can be told apart without regard to its structure. -/
inductive Token where
  | delimiter (b : UInt8)
  | scalar
deriving DecidableEq

/-- The next token behind any blanks and separators, in at most so many steps. -/
def tokenIn : Nat -> Reader Token
  | 0 => throw .malformed
  | count + 1 => do
      let b ← skipBlanks
      if isSeparator b then
        advance 1
        tokenIn count
      else if [0x7b, 0x5b, 0x5d, 0x7d].contains b then
        advance 1
        return .delimiter b
      else if b == 0 then throw .ended
      else if b == 0x22 then
        let _ ← quotedName
        return .scalar
      else
        if startsNumber b then let _ ← number
        else if b == 0x74 then word "true"
        else if b == 0x66 then word "false"
        else if b == 0x6e then word "null"
        else throw .malformed
        return .scalar

def token : Reader Token := do
  tokenIn (← steps)

end Reader
end Json
end VectorMachine
