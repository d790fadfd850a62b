import RoadTrip.Error

/-!
# Splitting a tab separated file

A file is a sequence of records, which end with a carriage return, a line feed or the file; a
record is a sequence of fields between tabs. Empty lines between records are skipped, so the two
ends of a line may follow one another. A field that starts with a quote goes on to the next single
quote, whatever it holds; two quotes stand for one. What follows the closing quote belongs to the
field.
-/

namespace RoadTrip.Tsv

/-- The fields of one record, as bytes, and where the record before it ended. -/
structure Record where
  position : Position
  fields : List (List UInt8)
  deriving DecidableEq, Repr

/-- Where a byte stands in its record. -/
inductive Phase where
  | between
  | start
  /-- In a field, or in the part of it that follows a closing quote. -/
  | plain
  /-- In the quoted part of a field. -/
  | quoted
  /-- After a quote in the quoted part of a field. -/
  | afterQuote
  deriving DecidableEq, Repr

/-- What has been read of a file: the finished fields of the current record and the bytes of its
current field, the latest first. -/
structure Cursor where
  phase : Phase
  /-- Where the record before the current one ended. -/
  start : Position
  /-- Where the next byte stands. -/
  here : Position
  fields : List (List UInt8)
  field : List UInt8
  deriving DecidableEq, Repr

def tab : UInt8 := 0x09
def lineFeed : UInt8 := 0x0a
def carriageReturn : UInt8 := 0x0d
def quote : UInt8 := 0x22

def endsLine (b : UInt8) : Bool := b == lineFeed || b == carriageReturn

def advance (p : Position) (b : UInt8) : Position :=
  { p with byte := p.byte + 1, line := if b == lineFeed then p.line + 1 else p.line }

namespace Cursor

def endField (c : Cursor) : Cursor :=
  { c with phase := .start, fields := c.field.reverse :: c.fields, field := [] }

/-- One more byte of the current field. -/
def keep (c : Cursor) (phase : Phase) (b : UInt8) : Cursor :=
  { c with phase, field := b :: c.field }

/-- The current record, with its current field as the last. -/
def record (c : Cursor) : Record := ⟨c.start, c.endField.fields.reverse⟩

/-- Ready for the record after the current one. -/
def nextRecord (c : Cursor) : Cursor :=
  let here := { c.here with record := c.here.record + 1 }
  ⟨.between, here, here, [], []⟩

/-- Move past a byte in an unquoted part of a field: the record, if the byte ends it, and where to
go on. -/
def unquoted (c : Cursor) (b : UInt8) : Option Record × Cursor :=
  let c' := { c with here := advance c.here b }
  if b == tab then (none, c'.endField)
  else if endsLine b then (some c'.record, c'.nextRecord)
  else (none, c'.keep .plain b)

def step (c : Cursor) (b : UInt8) : Option Record × Cursor :=
  let c' := { c with here := advance c.here b }
  match c.phase with
  | .between =>
    if endsLine b then (none, c')
    else if b == quote then (none, { c' with phase := .quoted })
    else c.unquoted b
  | .start => if b == quote then (none, { c' with phase := .quoted }) else c.unquoted b
  | .plain => c.unquoted b
  | .quoted =>
    if b == quote then (none, { c' with phase := .afterQuote }) else (none, c'.keep .quoted b)
  | .afterQuote => if b == quote then (none, c'.keep .quoted b) else c.unquoted b

end Cursor

/-- The records in the rest of a file. The end of the file ends everything. -/
def scan (c : Cursor) : List UInt8 → List Record
  | [] => if c.phase = .between then [] else [c.record]
  | b :: rest =>
    match c.step b with
    | (some record, next) => record :: scan next rest
    | (none, next) => scan next rest

def origin : Position := ⟨0, 1, 0⟩

/-- The records of a file. A byte order mark at its start is no part of the first one. -/
def records : List UInt8 → List Record
  | 0xef :: 0xbb :: 0xbf :: rest => scan ⟨.between, origin, { origin with byte := 3 }, [], []⟩ rest
  | bytes => scan ⟨.between, origin, origin, [], []⟩ bytes

end RoadTrip.Tsv
