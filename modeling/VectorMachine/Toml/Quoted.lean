import VectorMachine.Text.Utf8
import VectorMachine.Toml.Basic

/-!
# Strings

A string stands between quotes or apostrophes, one of them on a line or three of
them over several lines.  Only between quotes does a backslash start an escape.
-/

namespace VectorMachine
namespace Toml

def quoteMark : UInt8 := 0x22

def apostrophe : UInt8 := 0x27

def takeCode? (digits : Nat) (t : Text) : Option (Text × Text) :=
  match (t.take digits).mapM Text.digitOf? with
  | none => none
  | some ds =>
      let code := Text.valueOf 16 ds
      if ds.length = digits && code.isValidChar then
        some (Utf8.encode (Char.ofNat code), t.drop digits)
      else none

def takeEscape? : Text -> Option (Text × Text)
  | 0x62 :: rest => some ([0x08], rest)
  | 0x74 :: rest => some ([0x09], rest)
  | 0x6e :: rest => some ([0x0a], rest)
  | 0x66 :: rest => some ([0x0c], rest)
  | 0x72 :: rest => some ([0x0d], rest)
  | 0x65 :: rest => some ([0x1b], rest)
  | 0x22 :: rest => some ([0x22], rest)
  | 0x5c :: rest => some ([0x5c], rest)
  | 0x78 :: rest => takeCode? 2 rest
  | 0x75 :: rest => takeCode? 4 rest
  | 0x55 :: rest => takeCode? 8 rest
  | _ => none

/-!
## On one line
-/

/-- The rest of a string behind its opening mark.  Every step takes at least one
byte, so as many steps as there are bytes are enough. -/
def takeLine? (mark : UInt8) : Nat -> Text -> Option (Text × Text)
  | 0, _ => none
  | _, [] => none
  | steps + 1, b :: rest =>
      if b = mark then some ([], rest)
      else if isLineEnd b then none
      else if b = 0x5c ∧ mark = quoteMark then do
        let (c, rest) ← takeEscape? rest
        let (tail, rest) ← takeLine? mark steps rest
        return (c ++ tail, rest)
      else (takeLine? mark steps rest).map fun (tail, rest) => (b :: tail, rest)

/-!
## Over several lines
-/

/-- A line end right behind the opening marks does not belong to the string. -/
def dropFirstLineEnd : Text -> Text
  | 0x0a :: rest => rest
  | 0x0d :: 0x0a :: rest => rest
  | t => t

/-- What follows a backslash at the end of a line: everything up to the next byte
that is neither blank nor line end. -/
def afterLineEnd? (t : Text) : Option Text :=
  let gap := t.takeWhile fun b => isBlank b || isLineEnd b
  if gap.contains 0x0a then some (t.drop gap.length) else none

/-- The rest of a string behind its opening marks.  Three marks end it, and up to
two marks may stand right before them; behind an escaped backslash, up to three.
The flag tells whether such a backslash has just been read. -/
def takeLines? (mark : UInt8) (afterBackslash : Bool) : Nat -> Text -> Option (Text × Text)
  | 0, _ => none
  | _, [] => none
  | steps + 1, b :: rest =>
      if b = mark then
        let marks := 1 + (rest.takeWhile (· == mark)).length
        if (if afterBackslash then 6 else 5) < marks then none
        else if 3 ≤ marks then some (List.replicate (marks - 3) mark, rest.drop (marks - 1))
        else (takeLines? mark false steps rest).map fun (tail, rest) => (b :: tail, rest)
      else if b = 0x5c ∧ mark = quoteMark then
        match afterLineEnd? rest with
        | some rest => takeLines? mark false steps rest
        | none => do
            let (c, after) ← takeEscape? rest
            let (tail, after) ← takeLines? mark (rest.head? == some 0x5c) steps after
            return (c ++ tail, after)
      else (takeLines? mark false steps rest).map fun (tail, rest) => (b :: tail, rest)

/-- Read a string that starts with the given mark, of which the first has been
read. -/
def takeString? (mark : UInt8) (rest : Text) : Option (Text × Text) :=
  if rest.take 2 = [mark, mark] then
    let body := dropFirstLineEnd (rest.drop 2)
    takeLines? mark false (body.length + 1) body
  else takeLine? mark (rest.length + 1) rest

end Toml
end VectorMachine
