import VectorMachine.Text.Basic

/-!
# Reading comma-separated values

A text is read byte by byte.  Blank lines make no records.  A field that starts
with a quote goes on to the next single quote, over commas and line ends; no other
field may hold a quote.
-/

namespace VectorMachine
namespace Csv

def normalize : Text -> Text
  | [] => []
  | [0x0d] => []
  | 0x0d :: 0x0a :: rest => 0x0a :: normalize rest
  | b :: rest => b :: normalize rest

inductive Place where
  | lineStart
  | fieldStart
  | bare
  | quoted
  /-- Behind a quote inside a quoted field: the end of the field, or one half of a
  quote that belongs to it. -/
  | closing
deriving DecidableEq

/-- What has been read: the records before this one, its fields before this one,
and the bytes of this one, all of them latest first. -/
structure Progress where
  records : List (List Text) := []
  fields : List Text := []
  field : Text := []

namespace Progress

def push (p : Progress) (b : UInt8) : Progress :=
  { p with field := b :: p.field }

def endField (p : Progress) : Progress :=
  { p with fields := p.field.reverse :: p.fields, field := [] }

def endRecord (p : Progress) : Progress :=
  let p := p.endField
  { records := p.fields.reverse :: p.records }

end Progress

def step (place : Place) (p : Progress) (b : UInt8) : Option (Place × Progress) :=
  match place, b with
  | .lineStart, 0x0a => some (.lineStart, p)
  | .lineStart, 0x22 => some (.quoted, p)
  | .fieldStart, 0x22 => some (.quoted, p)
  | .bare, 0x22 => none
  | .quoted, 0x22 => some (.closing, p)
  | .quoted, b => some (.quoted, p.push b)
  | .closing, 0x22 => some (.quoted, p.push 0x22)
  | _, 0x2c => some (.fieldStart, p.endField)
  | _, 0x0a => some (.lineStart, p.endRecord)
  | .closing, _ => none
  | _, b => some (.bare, p.push b)

/-- The records up to the end of a text or to its first fault. -/
structure Records where
  records : List (List Text)
  complete : Bool

/-- Read the rest of a text.  Its end closes the last record, unless a quote is
still open. -/
def readFrom (place : Place) (p : Progress) : Text -> Records
  | [] =>
      match place with
      | .lineStart => ⟨p.records.reverse, true⟩
      | .quoted => ⟨p.records.reverse, false⟩
      | _ => ⟨p.endRecord.records.reverse, true⟩
  | b :: rest =>
      match step place p b with
      | some (place, p) => readFrom place p rest
      | none => ⟨p.records.reverse, false⟩

/-- The records of a text.  A record that has not as many fields as the first is
a fault. -/
def records (t : Text) : Records :=
  match readFrom .lineStart {} (normalize t) with
  | ⟨[], complete⟩ => ⟨[], complete⟩
  | ⟨first :: rest, complete⟩ =>
      let even := rest.takeWhile fun r => r.length = first.length
      ⟨first :: even, complete && even.length = rest.length⟩

end Csv
end VectorMachine
