import VectorMachine.Text.Basic

/-!
# Calendar dates

Days of the Gregorian calendar, counted from the beginning of 1970, and the text
of a moment in universal time.
-/

namespace VectorMachine
namespace Calendar

structure Date where
  year : Int
  month : Nat
  day : Nat
deriving DecidableEq

def isLeap (year : Int) : Bool :=
  year % 4 == 0 && (year % 100 != 0 || year % 400 == 0)

def daysIn (year : Int) (month : Nat) : Nat :=
  match month with
  | 2 => if isLeap year then 29 else 28
  | 4 => 30
  | 6 => 30
  | 9 => 30
  | 11 => 30
  | _ => 31

/-- The days from the beginning of 1970 to a date.  Years are counted from March,
so that the leap day comes last. -/
def Date.toDays (d : Date) : Int :=
  let shifted : Int := if d.month ≤ 2 then d.year - 1 else d.year
  let month : Int := if d.month ≤ 2 then d.month + 9 else d.month - 3
  let dayOfYear := (153 * month + 2) / 5 + d.day - 1
  365 * shifted + shifted / 4 - shifted / 100 + shifted / 400 + dayOfYear - 719468

def Date.ofDays (days : Int) : Date :=
  let z := days + 719468
  let era := z / 146097
  let dayOfEra := z % 146097
  let yearOfEra := (dayOfEra - dayOfEra / 1460 + dayOfEra / 36524 - dayOfEra / 146096) / 365
  let dayOfYear := dayOfEra - (365 * yearOfEra + yearOfEra / 4 - yearOfEra / 100)
  let month := (5 * dayOfYear + 2) / 153
  let day := dayOfYear - (153 * month + 2) / 5 + 1
  let month := if month < 10 then month + 3 else month - 9
  let year := yearOfEra + era * 400
  ⟨if month ≤ 2 then year + 1 else year, month.toNat, day.toNat⟩

def padded (width n : Nat) : Text :=
  let digits := Text.ofNat n
  List.replicate (width - digits.length) 0x30 ++ digits

/-- The seconds from the earliest moment, the first of March of the year
-292277022400, to the beginning of 1970. -/
def secondsBefore1970 : Int := 9223372028741760000

/-- Moments are counted from the earliest one in 64 bits; what lies before it
comes after all others. -/
def wrapped (seconds : Int) : Int :=
  (seconds + secondsBefore1970) % Int.pow 2 64 - secondsBefore1970

def momentText (seconds : Int) : Text :=
  let seconds := wrapped seconds
  let date := Date.ofDays (seconds / 86400)
  let second := (seconds % 86400).toNat
  (if date.year < 0 then utf8 "-" else []) ++ padded 4 date.year.natAbs
    ++ utf8 "-" ++ padded 2 date.month ++ utf8 "-" ++ padded 2 date.day
    ++ utf8 " " ++ padded 2 (second / 3600) ++ utf8 ":" ++ padded 2 (second / 60 % 60)
    ++ utf8 ":" ++ padded 2 (second % 60) ++ utf8 " +0000 UTC"

def readDate? (t : Text) : Option Date :=
  match t.map Text.digitOf?, t with
  | [some a, some b, some c, some d, _, some e, some f, _, some g, some h],
      [_, _, _, _, 0x2d, _, _, 0x2d, _, _] =>
      let date : Date := ⟨Text.valueOf 10 [a, b, c, d], e * 10 + f, g * 10 + h⟩
      if [a, b, c, d, e, f, g, h].all (· < 10) && 1 ≤ date.month && date.month ≤ 12
          && 1 ≤ date.day && date.day ≤ daysIn date.year date.month then
        some date
      else none
  | _, _ => none

end Calendar
end VectorMachine
