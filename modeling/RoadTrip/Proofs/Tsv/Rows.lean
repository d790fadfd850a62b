import Mathlib.Data.List.Forall2
import RoadTrip.Proofs.Text.Utf8
import RoadTrip.Proofs.Tsv.Scan
import RoadTrip.Tsv.Rows

/-!
# What makes a record a row

A field is read exactly if its bytes are text (`cell_eq_ok_iff`), and the first field of a record
that is none decides the error (`cells_eq_error_iff`). A record with the right number of fields, all
of them text, is a row (`Record.Regular`). Row `k` of a file is read from its record `k + 1` with the
number of fields of the header (`getElem?_rows`); only the place that is reported for bytes that are
no text depends on `k`.
-/

namespace RoadTrip

theorem exists_forall₂_iff {β γ : Type} {R : β → γ → Prop} {l : List β} :
    (∃ l', List.Forall₂ R l l') ↔ ∀ x ∈ l, ∃ y, R x y := by
  induction l with
  | nil => simp
  | cons x rest ih =>
    rw [List.forall_mem_cons, ← ih]
    constructor
    · rintro ⟨_, _ | ⟨hxy, hrest⟩⟩
      exact ⟨⟨_, hxy⟩, _, hrest⟩
    · rintro ⟨⟨y, hxy⟩, l', hrest⟩
      exact ⟨y :: l', .cons hxy hrest⟩

namespace Tsv

open Text (IsText)

variable {position : Position} {index : Nat} {field : List UInt8} {fields : List (List UInt8)}
  {text : String} {texts : List String} {error : RecordError}

/-! ## One field -/

/-- The bytes of a field encode a text, and it reads `text` without the blanks at its ends. -/
def Reads (field : List UInt8) (text : String) : Prop :=
  ∃ cs, field = Text.utf8 cs ∧ text = Text.trim (String.ofList cs)

theorem Reads.isText (h : Reads field text) : IsText field := by
  obtain ⟨cs, hfield, -⟩ := h
  exact ⟨cs, hfield⟩

theorem cell_utf8 (cs : List Char) :
    cell position index (Text.utf8 cs) = .ok (Text.trim (String.ofList cs)) := by
  have hdecode : Text.decode (Text.strip Text.isBlankByte (Text.utf8 cs)) =
      .ok (String.ofList (Text.strip Text.isBlankAscii cs)) := by
    rw [Text.decode_eq_ok_iff, Text.strip_utf8, String.toList_ofList]
  rw [cell, hdecode]
  simp only [Text.trim, String.toList_ofList, Text.strip_strip_isBlankAscii]

theorem cell_eq_ok_iff : cell position index field = .ok text ↔ Reads field text := by
  constructor
  · intro h
    have htext : IsText field := by
      unfold cell at h
      split at h
      · rename_i s hdecode
        exact Text.isText_strip.1 ⟨s.toList, Text.decode_eq_ok_iff.1 hdecode⟩
      · cases h
    obtain ⟨cs, rfl⟩ := htext
    rw [cell_utf8, Except.ok.injEq] at h
    exact ⟨cs, rfl, h.symm⟩
  · rintro ⟨cs, rfl, rfl⟩
    exact cell_utf8 cs

/-- A field reads one text. -/
theorem Reads.unique {text' : String} (h : Reads field text) (h' : Reads field text') :
    text = text' := by
  have hcell : cell origin 0 field = .ok text := cell_eq_ok_iff.2 h
  rw [cell_eq_ok_iff.2 h', Except.ok.injEq] at hcell
  exact hcell.symm

theorem exists_reads (h : IsText field) : ∃ text, Reads field text := by
  obtain ⟨cs, rfl⟩ := h
  exact ⟨_, cs, rfl, rfl⟩

/-- How many bytes of a field, once it is trimmed, can be read as text. -/
def readable (field : List UInt8) : Nat :=
  Text.validPrefix (Text.strip Text.isBlankByte field).toByteArray 0

theorem cell_eq_error_iff : cell position index field = .error error ↔
    ¬ IsText field ∧ error = .invalidText position index (readable field) := by
  unfold cell
  split
  · rename_i s hdecode
    have htext : IsText field :=
      Text.isText_strip.1 ⟨s.toList, Text.decode_eq_ok_iff.1 hdecode⟩
    simp [htext]
  · rename_i valid hdecode
    obtain ⟨htext, rfl⟩ := Text.decode_eq_error_iff.1 hdecode
    rw [Text.isText_strip] at htext
    simp [htext, readable, eq_comm]

/-! ## The fields of a record -/

theorem cells_eq_ok_iff : cells position index fields = .ok texts ↔
    List.Forall₂ Reads fields texts := by
  induction fields generalizing index texts with
  | nil => cases texts <;> simp [cells]
  | cons field rest ih =>
    rw [cells]
    cases hcell : cell position index field with
    | error e =>
      refine ⟨nofun, ?_⟩
      rintro (_ | ⟨hfield, -⟩)
      rw [cell_eq_ok_iff.2 hfield] at hcell
      cases hcell
    | ok text =>
      have hfield := cell_eq_ok_iff.1 hcell
      cases hrest : cells position (index + 1) rest with
      | error e =>
        refine ⟨nofun, ?_⟩
        rintro (_ | ⟨-, hmore⟩)
        rw [ih.2 hmore] at hrest
        cases hrest
      | ok more =>
        constructor
        · intro h
          cases h
          exact .cons hfield (ih.1 hrest)
        · rintro (_ | ⟨hfield', hmore⟩)
          rw [ih.2 hmore] at hrest
          cases hrest
          rw [hfield.unique hfield']
          rfl

/-- The first field that is no text, and how many of its bytes can be read. -/
structure FirstInvalid (fields : List (List UInt8)) (index valid : Nat) : Prop where
  invalid : ∃ field, fields[index]? = some field ∧ ¬ IsText field ∧ valid = readable field
  before : ∀ field ∈ fields.take index, IsText field

theorem firstInvalid_cons_of_not_isText {k valid : Nat} (h : ¬ IsText field) :
    FirstInvalid (field :: fields) k valid ↔ k = 0 ∧ valid = readable field := by
  constructor
  · rintro ⟨⟨field', hfield', -, rfl⟩, hbefore⟩
    cases k with
    | zero =>
      cases hfield'
      exact ⟨rfl, rfl⟩
    | succ k => exact absurd (hbefore field List.mem_cons_self) h
  · rintro ⟨rfl, rfl⟩
    exact ⟨⟨field, rfl, h, rfl⟩, nofun⟩

theorem firstInvalid_cons_of_isText {k valid : Nat} (h : IsText field) :
    FirstInvalid (field :: fields) k valid ↔ ∃ j, k = j + 1 ∧ FirstInvalid fields j valid := by
  constructor
  · rintro ⟨⟨field', hfield', hinvalid, rfl⟩, hbefore⟩
    cases k with
    | zero =>
      cases hfield'
      exact absurd h hinvalid
    | succ k =>
      exact ⟨k, rfl, ⟨field', hfield', hinvalid, rfl⟩, (List.forall_mem_cons.1 hbefore).2⟩
  · rintro ⟨j, rfl, hinvalid, hbefore⟩
    exact ⟨hinvalid, List.forall_mem_cons.2 ⟨h, hbefore⟩⟩

theorem cells_eq_error_iff : cells position index fields = .error error ↔
    ∃ k valid, FirstInvalid fields k valid ∧ error = .invalidText position (index + k) valid := by
  induction fields generalizing index with
  | nil =>
    refine ⟨nofun, ?_⟩
    rintro ⟨k, valid, ⟨⟨field, hfield, -⟩, -⟩, -⟩
    cases hfield
  | cons field rest ih =>
    rw [cells]
    cases hcell : cell position index field with
    | error e =>
      obtain ⟨hfield, rfl⟩ := cell_eq_error_iff.1 hcell
      simp [firstInvalid_cons_of_not_isText hfield, eq_comm]
    | ok text =>
      have hfield := (cell_eq_ok_iff.1 hcell).isText
      have hmap : ((cells position (index + 1) rest).map (text :: ·) = .error error) ↔
          cells position (index + 1) rest = .error error := by
        cases cells position (index + 1) rest with
        | error e => exact ⟨fun h => by cases h; rfl, fun h => by cases h; rfl⟩
        | ok more => exact ⟨nofun, nofun⟩
      simp only [hmap, ih, firstInvalid_cons_of_isText hfield]
      constructor
      · rintro ⟨k, valid, hfirst, rfl⟩
        exact ⟨k + 1, valid, ⟨k, rfl, hfirst⟩, by rw [Nat.add_assoc, Nat.add_comm 1]⟩
      · rintro ⟨_, valid, ⟨k, rfl, hfirst⟩, rfl⟩
        exact ⟨k, valid, hfirst, by rw [Nat.add_assoc, Nat.add_comm 1]⟩

theorem row_eq_ok_iff {width : Nat} {r : Record} {row' : Row} :
    row width position r = .ok row' ↔ r.fields.length = width ∧
      List.Forall₂ Reads r.fields row'.cells ∧ row'.position = r.position := by
  unfold row
  split
  · rename_i hlength
    have hcells : cells position 0 r.fields = .ok row'.cells ↔
        List.Forall₂ Reads r.fields row'.cells := cells_eq_ok_iff
    rw [← hcells]
    cases cells position 0 r.fields with
    | error e => simp [Except.map]
    | ok texts =>
      obtain ⟨position', texts'⟩ := row'
      simp [Except.map, hlength, and_comm, eq_comm]
  · simp [*]

theorem row_eq_error_iff {width : Nat} {r : Record} :
    row width position r = .error error ↔
      (r.fields.length ≠ width ∧ error = .unequalLengths r.position r.fields.length width) ∨
      (r.fields.length = width ∧ ∃ index valid, FirstInvalid r.fields index valid ∧
        error = .invalidText position index valid) := by
  unfold row
  split
  · rename_i hlength
    have hcells : cells position 0 r.fields = .error error ↔ ∃ k valid,
        FirstInvalid r.fields k valid ∧ error = .invalidText position (0 + k) valid :=
      cells_eq_error_iff
    simp only [Nat.zero_add] at hcells
    rw [← hcells]
    cases cells position 0 r.fields with
    | error e => simp [Except.map, hlength]
    | ok texts => simp [Except.map, hlength]
  · rename_i hlength
    simp only [Except.error.injEq, ne_eq, hlength, not_false_eq_true, true_and, false_and, or_false]
    exact eq_comm

/-! ## Regular records -/

namespace Record

/-- Cell `i` of a record reads `text`. -/
def Cell (r : Record) (i : Nat) (text : String) : Prop :=
  ∃ field, r.fields[i]? = some field ∧ Reads field text

theorem cell_iff {r : Record} {texts : List String} (h : List.Forall₂ Reads r.fields texts)
    {i : Nat} {text : String} : r.Cell i text ↔ texts[i]? = some text := by
  unfold Cell
  generalize r.fields = fields at h
  induction h generalizing i with
  | nil => simp
  | cons hfield _ ih =>
    cases i with
    | zero =>
      simp only [List.getElem?_cons_zero, Option.some.injEq, exists_eq_left']
      exact ⟨fun htext => hfield.unique htext, fun htext => htext ▸ hfield⟩
    | succ i => exact ih

theorem Cell.unique {r : Record} {i : Nat} {text text' : String} (h : r.Cell i text)
    (h' : r.Cell i text') : text = text' := by
  obtain ⟨field, hfield, hreads⟩ := h
  obtain ⟨field', hfield', hreads'⟩ := h'
  rw [hfield, Option.some.injEq] at hfield'
  exact hreads.unique (hfield' ▸ hreads')

/-- A record that the reader accepts: it has `width` fields, and all of them are text. -/
structure Regular (width : Nat) (r : Record) : Prop where
  length : r.fields.length = width
  texts : ∀ field ∈ r.fields, Text.IsText field

variable {r : Record} {width : Nat} {reported : Position}

/-- A regular record is a row. -/
theorem Regular.exists_row (h : r.Regular width) (reported : Position) :
    ∃ row, Tsv.row width reported r = .ok row ∧ row.position = r.position ∧
      List.Forall₂ Reads r.fields row.cells := by
  obtain ⟨texts, hreads⟩ := exists_forall₂_iff.2 fun field hfield =>
    exists_reads (h.texts field hfield)
  exact ⟨⟨r.position, texts⟩, row_eq_ok_iff.2 ⟨h.length, hreads, rfl⟩, rfl, hreads⟩

theorem regular_of_row {row : Row} (h : Tsv.row width reported r = .ok row) :
    r.Regular width where
  length := (row_eq_ok_iff.1 h).1
  texts := by
    intro field hfield
    obtain ⟨text, htext⟩ := exists_forall₂_iff.1 ⟨_, (row_eq_ok_iff.1 h).2.1⟩ field hfield
    exact htext.isText

end Record

/-! ## The rows of a file -/

/-- The records behind the header. -/
def dataRecords (bytes : List UInt8) : List Record := (records bytes).tail

/-- The number of fields of the header. -/
def width (bytes : List UInt8) : Nat := ((records bytes).head?.map (·.fields.length)).getD 0

/-- Where bytes of data record `k` that are no text are reported. -/
def reportedAt (k : Nat) (r : Record) : Position := if k = 0 then origin else r.position

theorem position_of_head?_scan {c : Cursor} {bytes : List UInt8} {r : Record}
    (h : (scan c bytes).head? = some r) : r.position = c.start := by
  induction bytes generalizing c with
  | nil =>
    rw [scan] at h
    split at h
    · cases h
    · cases h
      rfl
  | cons b rest ih =>
    rw [scan] at h
    rcases c.step_cases b with ⟨-, -, hstep⟩ | ⟨next, hstep, -, hstart, -⟩ | ⟨-, -, -, hstep⟩
    · rw [hstep] at h
      have hposition := ih h
      exact hposition
    · rw [hstep] at h
      rw [ih h, hstart]
    · rw [hstep] at h
      cases h
      rfl

/-- The header starts where the file does. -/
theorem position_of_head?_records {bytes : List UInt8} {r : Record}
    (h : (records bytes).head? = some r) : r.position = origin := by
  unfold records at h
  split at h
  · exact position_of_head?_scan h
  · exact position_of_head?_scan h

theorem getElem?_rows (bytes : List UInt8) (k : Nat) : (rows bytes)[k]? =
    (dataRecords bytes)[k]?.map fun r => row (width bytes) (reportedAt k r) r := by
  have hheader {r : Record} (h : (records bytes).head? = some r) : r.position = origin :=
    position_of_head?_records h
  unfold rows dataRecords width
  cases hrecords : records bytes with
  | nil => rfl
  | cons header rest =>
    rw [hrecords] at hheader
    cases rest with
    | nil => rfl
    | cons first rest =>
      cases k with
      | zero => simp [reportedAt, hheader rfl]
      | succ k => simp [reportedAt]

/-- What does not depend on the reported places may be said of the records. -/
theorem forall₂_rows_iff {β : Type} {R : Except RecordError Row → β → Prop} {S : Record → β → Prop}
    {bytes : List UInt8} {l : List β}
    (h : ∀ reported r y, R (row (width bytes) reported r) y ↔ S r y) :
    List.Forall₂ R (rows bytes) l ↔ List.Forall₂ S (dataRecords bytes) l := by
  unfold rows dataRecords
  unfold width at h
  cases hrecords : records bytes with
  | nil => simp
  | cons header rest =>
    rw [hrecords] at h
    cases rest with
    | nil => simp
    | cons first rest =>
      have hrow (reported : Position) (r : Record) (y : β) :
          R (row header.fields.length reported r) y ↔ S r y := h reported r y
      cases l with
      | nil => simp
      | cons y ys =>
        have hrest : List.Forall₂ (fun r y => R (row header.fields.length r.position r) y) rest ys ↔
            List.Forall₂ S rest ys := by
          constructor
          · intro hall
            exact hall.imp fun r y => (hrow r.position r y).1
          · intro hall
            exact hall.imp fun r y => (hrow r.position r y).2
        rw [List.tail_cons, List.forall₂_cons, List.forall₂_cons, List.forall₂_map_left_iff, hrest]
        exact and_congr_left' (hrow header.position first y)

end Tsv

end RoadTrip
