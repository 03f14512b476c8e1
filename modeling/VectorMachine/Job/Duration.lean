import VectorMachine.Number.Convert
import VectorMachine.Text.Basic

/-!
# Durations

A duration is a sequence of decimal numbers, each with a unit, as in one hour and
thirty minutes written `1h30m`.  It counts nanoseconds in 64 bits.
-/

namespace VectorMachine
namespace Duration

open Text (isAsciiDigit)

def unit? (name : Text) : Option Nat :=
  [("ns", 1), ("us", 1000), ("µs", 1000), ("μs", 1000), ("ms", 1000000),
    ("s", 1000000000), ("m", 60000000000), ("h", 3600000000000)].findSome? fun (unit, n) =>
      if utf8 unit = name then some n else none

def limit : Nat := Nat.pow 2 63

def digitsAt (t : Text) : List Nat :=
  (t.takeWhile isAsciiDigit).filterMap Text.digitOf?

def whole? (digits : List Nat) : Option Nat :=
  let n := Text.valueOf 10 digits
  if n ≤ limit then some n else none

/-- The digits after the point as a number and how many of them it holds.  Digits
beyond 63 bits are dropped. -/
def fraction (n places : Nat) : List Nat -> Nat × Nat
  | [] => (n, places)
  | d :: rest =>
      if (limit - 1) / 10 < n ∨ limit < n * 10 + d then (n, places)
      else fraction (n * 10 + d) (places + 1) rest

/-- What the number behind the point is divided by, multiplied up place by place in
double precision. -/
def scale : Nat -> Float
  | 0 => 1
  | places + 1 => scale places * 10

/-- The nanoseconds of a fraction, computed in double precision and cut to a whole
number. -/
def fractionOf (unit n places : Nat) : Nat :=
  (Number.truncToInt (Float.ofNat n * (Float.ofNat unit / scale places))).toNat

def takePart? (t : Text) : Option (Nat × Text) := do
  let before := digitsAt t
  let rest := t.drop before.length
  let n ← whole? before
  let (after, rest) :=
    match rest with
    | 0x2e :: tail => (digitsAt tail, tail.drop (digitsAt tail).length)
    | _ => ([], rest)
  if before.isEmpty && after.isEmpty then none
  else
    let name := rest.takeWhile fun b => !(isAsciiDigit b || b == 0x2e)
    let unit ← unit? name
    if limit / unit < n then none
    else
      let (f, places) := fraction 0 0 after
      let total := n * unit + if f = 0 then 0 else fractionOf unit f places
      if limit < total then none else some (total, rest.drop name.length)

/-- Read at most so many parts onto the nanoseconds read so far. -/
def takeParts? : Nat -> Nat -> Text -> Option Nat
  | 0, _, _ => none
  | _, sum, [] => some sum
  | count + 1, sum, t =>
      match takePart? t with
      | none => none
      | some (part, rest) =>
          let sum := (sum + part) % Nat.pow 2 64
          if limit < sum then none else takeParts? count sum rest

def splitSign : Text -> Bool × Text
  | 0x2d :: rest => (true, rest)
  | 0x2b :: rest => (false, rest)
  | t => (false, t)

/-- The nanoseconds of a duration.  A zero needs no unit. -/
def parse? (t : Text) : Option Int :=
  let (negative, body) := splitSign t
  if body = utf8 "0" then some 0
  else if body = [] then none
  else
    match takeParts? (body.length + 1) 0 body with
    | none => none
    | some n =>
        if negative then some (-(n : Int))
        else if n = limit then none
        else some n

end Duration
end VectorMachine
