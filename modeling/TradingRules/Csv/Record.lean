/-
# Comma-separated records

A text is a sequence of records, each a sequence of fields with commas between them. A record ends
at a line feed, at a carriage return or at the end of the text; blank lines are no records. A field
that begins with a quote runs to the next quote that is not doubled, and what stands behind that
belongs to the field as it is.

A record is located by the place from which on it was looked for: right behind the end of the record
before it. A line feed that follows a carriage return comes after that place.
-/

namespace TradingRules.Csv

/-- A place in a text: how many records and bytes precede it, and the number of its line. -/
structure Position where
  record : Nat := 0
  line : Nat := 1
  byte : Nat := 0
deriving DecidableEq, Repr

/-- The place behind a character. -/
def Position.behind (p : Position) (c : Char) : Position :=
  { p with line := if c = '\n' then p.line + 1 else p.line, byte := p.byte + c.utf8Size }

/-- A record, with the place from which on it was looked for. -/
structure Record where
  start : Position
  fields : List String
deriving DecidableEq, Repr

/-- Where in a record a reader is. -/
inductive Phase where
  /-- Between records. -/
  | outside
  /-- Between records, behind a carriage return. -/
  | afterReturn
  /-- At the beginning of a field. -/
  | fieldStart
  /-- In a field, or in that part of it that is not quoted. -/
  | plain
  /-- In the quoted part of a field. -/
  | quoted
  /-- Behind a quote in the quoted part of a field. -/
  | afterQuote
deriving DecidableEq, Repr

/-- What a reader has read of a text; all lists have the latest first. -/
structure Reader where
  phase : Phase := .outside
  here : Position := {}
  /-- Where the next record is looked for, or where the present one was. -/
  start : Position := {}
  field : List Char := []
  fields : List String := []
  records : List Record := []

namespace Reader

/-- Adds a character to the field. -/
def copy (r : Reader) (phase : Phase) (c : Char) : Reader :=
  { r with phase, field := c :: r.field }

/-- Ends the field. -/
def endField (r : Reader) : Reader :=
  { r with phase := .fieldStart, field := [], fields := String.ofList r.field.reverse :: r.fields }

/-- Ends the record; the next one is looked for from here. -/
def endRecord (r : Reader) (phase : Phase) : Reader :=
  let next := { r.here with record := r.here.record + 1 }
  let record : Record := ⟨r.start, r.endField.fields.reverse⟩
  { phase, here := next, start := next, records := record :: r.records }

/-- Reads a character where it is not quoted. -/
def readPlain (r : Reader) (c : Char) : Reader :=
  if c = ',' then r.endField
  else if c = '\n' then r.endRecord .outside
  else if c = '\r' then r.endRecord .afterReturn
  else r.copy .plain c

/-- Reads a character at the beginning of a field. -/
def readStart (r : Reader) (c : Char) : Reader :=
  if c = '"' then { r with phase := .quoted } else r.readPlain c

/-- Reads a character between records. -/
def readOutside (r : Reader) (c : Char) : Reader :=
  if c = '\n' ∨ c = '\r' then { r with phase := .outside } else r.readStart c

/-- Reads a character. -/
def step (r : Reader) (c : Char) : Reader :=
  let r := { r with here := r.here.behind c }
  match r.phase with
  | .outside => r.readOutside c
  | .afterReturn => if c = '\n' then { r with phase := .outside } else r.readOutside c
  | .fieldStart => r.readStart c
  | .plain => r.readPlain c
  | .quoted => if c = '"' then { r with phase := .afterQuote } else r.copy .quoted c
  | .afterQuote => if c = '"' then r.copy .quoted c else r.readPlain c

/-- Ends the text. -/
def finish (r : Reader) : List Record :=
  match r.phase with
  | .outside | .afterReturn => r.records.reverse
  | _ => (r.endRecord .outside).records.reverse

end Reader

/-- A byte order mark, which may precede a text. -/
def byteOrderMark : Char := '\uFEFF'

/-- The records of a text. -/
def records (text : List Char) : List Record :=
  match text with
  | [] => []
  | c :: rest =>
    if c = byteOrderMark then
      let here : Position := { byte := c.utf8Size }
      (rest.foldl Reader.step { here }).finish
    else ((c :: rest).foldl Reader.step {}).finish

/-! ## Widths -/

/-- A record that has not as many fields as the first one. -/
structure WidthError where
  start : Position
  width : Nat
  expected : Nat
deriving DecidableEq, Repr

/-- The wording of the complaint. -/
def WidthError.message (e : WidthError) : String :=
  "CSV error: record " ++ toString e.start.record ++ " (line: " ++ toString e.start.line ++
    ", byte: " ++ toString e.start.byte ++ "): found record with " ++ toString e.width ++
    " fields, but the previous record has " ++ toString e.expected ++ " fields"

/-- Refuses a record that has not the expected number of fields. -/
def Record.checkWidth (expected : Nat) (r : Record) : Except WidthError Unit :=
  if r.fields.length = expected then .ok () else .error ⟨r.start, r.fields.length, expected⟩

end TradingRules.Csv
