import RoadTrip.Text.Blank
import RoadTrip.Text.Utf8
import RoadTrip.Tsv.Scan

/-!
# The rows of a table

The first record of a file is its header, the others are its rows. A row has as many fields as the
header, and each of them is text without the blanks at its ends.
-/

namespace RoadTrip.Tsv

/-- The texts of one row, and where the row before it ended. -/
structure Row where
  position : Position
  cells : List String
  deriving DecidableEq, Repr

/-- The text of a field. Bytes are trimmed before they are read and characters after it. -/
def cell (position : Position) (index : Nat) (field : List UInt8) : Except RecordError String :=
  match Text.decode (Text.strip Text.isBlankByte field) with
  | .ok text => .ok (Text.trim text)
  | .error valid => .error (.invalidText position index valid)

/-- The texts of some fields, numbered from `index` on. The first that is no text decides. -/
def cells (position : Position) : Nat → List (List UInt8) → Except RecordError (List String)
  | _, [] => .ok []
  | index, field :: rest =>
    match cell position index field with
    | .error error => .error error
    | .ok text => (cells position (index + 1) rest).map (text :: ·)

/-- Read a record as a row of `width` cells. The number of fields is checked first. Texts that are
not valid are reported at `reported`. -/
def row (width : Nat) (reported : Position) (r : Record) : Except RecordError Row :=
  if r.fields.length = width then
    (cells reported 0 r.fields).map fun texts => ⟨r.position, texts⟩
  else
    .error (.unequalLengths r.position r.fields.length width)

/-- The rows of a file. The header is read together with the first row, so that texts of that row
that are not valid are reported at the start of the file. -/
def rows (bytes : List UInt8) : List (Except RecordError Row) :=
  match records bytes with
  | header :: first :: rest =>
    row header.fields.length header.position first ::
      rest.map fun r => row header.fields.length r.position r
  | _ => []

end RoadTrip.Tsv
