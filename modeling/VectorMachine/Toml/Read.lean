import VectorMachine.Toml.Quoted
import VectorMachine.Toml.Scalar

/-!
# Reading statements
-/

namespace VectorMachine
namespace Toml

/-!
## Keys
-/

def isBareByte (b : UInt8) : Bool :=
  Text.isAsciiLetter b || Text.isAsciiDigit b || b == 0x5f || b == 0x2d

def takeName? : Text -> Option (Text × Text)
  | [] => none
  | b :: rest =>
      if b = quoteMark ∨ b = apostrophe then takeLine? b (rest.length + 1) rest
      else
        let name := (b :: rest).takeWhile isBareByte
        if name.isEmpty then none else some (name, (b :: rest).drop name.length)

/-- Read a key of at most so many names and the blanks after it. -/
def takeKey? : Nat -> Text -> Option (Key × Text)
  | 0, _ => none
  | names + 1, t => do
      let (name, rest) ← takeName? (skipBlanks t)
      match skipBlanks rest with
      | 0x2e :: rest =>
          let (key, rest) ← takeKey? names rest
          return (name :: key, rest)
      | rest => return ([name], rest)

/-!
## Values
-/

mutual

/-- Read a value.  The number bounds the steps, of which every byte needs at most
two. -/
def takeValue? : Nat -> Text -> Option (Literal × Text)
  | 0, _ => none
  | steps + 1, t =>
      match skipBlanks t with
      | 0x5b :: rest => (takeElements? steps rest).map fun (vs, rest) => (.array vs, rest)
      | 0x7b :: rest => (takeMembers? steps rest).map fun (ms, rest) => (.table ms, rest)
      | 0x22 :: rest => (takeString? 0x22 rest).map fun (s, rest) => (.string s, rest)
      | 0x27 :: rest => (takeString? 0x27 rest).map fun (s, rest) => (.string s, rest)
      | t => takeScalar? t

def takeElements? : Nat -> Text -> Option (List Literal × Text)
  | 0, _ => none
  | steps + 1, t =>
      match skipGap false t with
      | 0x5d :: rest => some ([], rest)
      | t =>
          match takeValue? steps t with
          | none => none
          | some (v, rest) =>
              match skipGap false rest with
              | 0x5d :: rest => some ([v], rest)
              | 0x2c :: rest => (takeElements? steps rest).map fun (vs, rest) => (v :: vs, rest)
              | _ => none

def takeMembers? : Nat -> Text -> Option (List (Key × Literal) × Text)
  | 0, _ => none
  | steps + 1, t =>
      match skipGap false t with
      | 0x7d :: rest => some ([], rest)
      | t =>
          match takeKey? (t.length + 1) t with
          | some (key, 0x3d :: rest) =>
              match takeValue? steps rest with
              | none => none
              | some (v, rest) =>
                  match skipGap false rest with
                  | 0x7d :: rest => some ([(key, v)], rest)
                  | 0x2c :: rest =>
                      (takeMembers? steps rest).map fun (ms, rest) => ((key, v) :: ms, rest)
                  | _ => none
          | _ => none

end

/-!
## Statements
-/

def takeStatement? (t : Text) : Option (Statement × Text) :=
  match t with
  | 0x5b :: 0x5b :: rest =>
      match takeKey? (rest.length + 1) rest with
      | some (key, 0x5d :: 0x5d :: rest) => some (.element key, rest)
      | _ => none
  | 0x5b :: rest =>
      match takeKey? (rest.length + 1) rest with
      | some (key, 0x5d :: rest) => some (.table key, rest)
      | _ => none
  | t =>
      match takeKey? (t.length + 1) t with
      | some (key, 0x3d :: rest) =>
          (takeValue? (2 * rest.length + 2) rest).map fun (v, rest) => (.assign key v, rest)
      | _ => none

/-- Nothing but blanks and a comment may follow a statement on its line. -/
def endsLine (t : Text) : Bool :=
  match skipBlanks t with
  | [] => true
  | b :: _ => isLineEnd b || b == 0x23

def takeStatements? : Nat -> Text -> Option (List Statement)
  | 0, _ => none
  | count + 1, t =>
      match skipGap false t with
      | [] => some []
      | t =>
          match takeStatement? t with
          | none => none
          | some (s, rest) =>
              if endsLine rest then (takeStatements? count rest).map fun ss => s :: ss else none

/-!
## Documents
-/

def dropByteOrderMark : Text -> Text
  | 0xff :: 0xfe :: rest => rest
  | 0xfe :: 0xff :: rest => rest
  | 0xef :: 0xbb :: 0xbf :: rest => rest
  | t => t

/-- No control characters but tabs and line ends, and no return that is not part of
a line end. -/
def isClean : Text -> Bool
  | [] => true
  | 0x0d :: rest => rest.head? == some 0x0a && isClean rest
  | b :: rest => (0x20 ≤ b || b == 0x09 || b == 0x0a) && b != 0x7f && isClean rest

def statements? (t : Text) : Option (List Statement) :=
  let t := dropByteOrderMark t
  if Utf8.valid t && isClean t then takeStatements? (t.length + 1) t else none

end Toml
end VectorMachine
