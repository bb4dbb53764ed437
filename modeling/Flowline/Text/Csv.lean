/-! Tables as text: a line per record, commas between fields, quotes around fields with commas,
quotes or line ends in them. -/
namespace Flowline.Csv

/-- Where the next character stands. -/
inductive Place where
  | lineStart
  | fieldStart
  | bare
  | quoted
  /-- Behind a quote within a quoted field. -/
  | quoteSeen
deriving DecidableEq

/-- A record as far as it is read, the last field and its last character first. -/
structure Reading where
  place : Place := .lineStart
  fields : List String := []
  field : List Char := []

namespace Reading

def endField (r : Reading) : Reading :=
  ⟨.fieldStart, String.ofList r.field.reverse :: r.fields, []⟩

def add (r : Reading) (place : Place) (c : Char) : Reading :=
  { r with place, field := c :: r.field }

/-- One character that ends no line. -/
def step (r : Reading) (c : Char) : Reading :=
  match r.place with
  | .quoted => if c = '"' then { r with place := .quoteSeen } else r.add .quoted c
  | .quoteSeen =>
    if c = '"' then r.add .quoted c else if c = ',' then r.endField else r.add .bare c
  | .bare => if c = ',' then r.endField else r.add .bare c
  | .lineStart | .fieldStart =>
    if c = '"' then { r with place := .quoted } else if c = ',' then r.endField else r.add .bare c

/-- The record at the end of its line; an empty line has no fields. -/
def finish (r : Reading) : List String :=
  if r.place = .lineStart then [] else r.endField.fields.reverse

end Reading

/-- The records of a text. Within quotes a line end is a character like others. -/
def recordsFrom (r : Reading) : List Char → List (List String)
  | [] => if r.place = .lineStart then [] else [r.finish]
  | '\r' :: '\n' :: rest =>
    if r.place = .quoted then recordsFrom ((r.add .quoted '\r').add .quoted '\n') rest
    else r.finish :: recordsFrom {} rest
  | c :: rest =>
    if (c = '\r' || c = '\n') && r.place ≠ .quoted then r.finish :: recordsFrom {} rest
    else recordsFrom (r.step c) rest

def records (text : String) : List (List String) := recordsFrom {} text.toList

end Flowline.Csv
