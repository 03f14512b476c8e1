import VectorMachine.Text.Basic

/-!
# Paths

A path is a text with slashes between its elements.
-/

namespace VectorMachine
namespace Path

def slash : UInt8 := 0x2f

def dot : UInt8 := 0x2e

def isAbsolute (p : Text) : Bool :=
  p.head? == some slash

/-- The last element of a path, if no slash follows it. -/
def lastElement (p : Text) : Text :=
  (p.reverse.takeWhile (· != slash)).reverse

def beforeLast (p : Text) : Text :=
  (p.reverse.dropWhile (· != slash)).reverse

/-- The last dot of the last element and what follows it; empty without a dot. -/
def extension (p : Text) : Text :=
  let element := lastElement p
  if element.contains dot then dot :: (element.reverse.takeWhile (· != dot)).reverse
  else []

def withoutExtension (p : Text) : Text :=
  p.take (p.length - (extension p).length)

/-- Take an element onto the elements before it, latest first.  An element for the
directory above takes the last one away; at the root there is nothing above. -/
def reduce (rooted : Bool) (before : List Text) (element : Text) : List Text :=
  if element = [] ∨ element = utf8 "." then before
  else if element = utf8 ".." then
    match before with
    | [] => if rooted then [] else [element]
    | last :: rest => if last = utf8 ".." then element :: before else rest
  else element :: before

def clean (p : Text) : Text :=
  let rooted := isAbsolute p
  let elements := ((Text.splitOn slash p).foldl (reduce rooted) []).reverse
  let body := Text.join [slash] elements
  if rooted then slash :: body else if elements.isEmpty then [dot] else body

def directory (p : Text) : Text :=
  clean (beforeLast p)

def join (p q : Text) : Text :=
  match [p, q].filter (!·.isEmpty) with
  | [] => []
  | parts => clean (Text.join [slash] parts)

def absolute (working p : Text) : Text :=
  if isAbsolute p then clean p else join working p

end Path
end VectorMachine
