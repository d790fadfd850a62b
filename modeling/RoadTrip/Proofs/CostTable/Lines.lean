import RoadTrip.Proofs.CostTable.Load
import RoadTrip.Proofs.Tsv.Lines

/-!
# The lines that a message names

A message about a row of a cost table names the line on which the row before it ended. That is the
line of the row's first byte unless line feeds are skipped in between (`load_line`): it is too small
by the number of blank lines, and on a file whose lines end with a carriage return and a line feed
it is always the line before.
-/

namespace RoadTrip.CostTable

variable {α : Type} [CostText α]

/-- Row `k` of a table is the first that is no entry, and `p` is its first byte in the file. -/
structure Decides (metric : Metric) (file : String) (bytes : List UInt8) (e : Error α) (k p : Nat) :
    Prop where
  /-- The header is the record before the first row. -/
  row : ∃ width reported record row, (Tsv.records bytes)[k + 1]? = some record ∧
    Tsv.row width reported record = .ok row ∧ (Tsv.rows bytes)[k]? = some (.ok row) ∧
    (entry metric file row : Except (Error α) (CostEntry α)) = .error e
  earlier : ∀ i < k, ∀ r, (Tsv.rows bytes)[i]? = some r →
    ∃ entry : CostEntry α, entryOf metric file r = .ok entry
  first : ∀ q, Tsv.StartsAt bytes (k + 1) q ↔ q = p

/-- **The line of a table error.** The row that decides the error starts on the line that is
reported, unless line feeds stand between it and the line end that ended the row before it: then its
line is greater by their number. -/
theorem load_line {metric : Metric} {file name : String} {bytes : List UInt8} {line : Nat}
    {error : CostTableError}
    (h : (load metric file bytes : Except (Error α) (CostTable α)) =
      .error (.costTable name line error)) :
    name = file ∧ ∃ k p,
      Decides metric file bytes (.costTable name line error : Error α) k p ∧
      line + (Tsv.lineEndsBefore bytes p).tail.count Tsv.lineFeed = Tsv.lineAt bytes p ∧
      (line = Tsv.lineAt bytes p ↔ Tsv.lineFeed ∉ (Tsv.lineEndsBefore bytes p).tail) := by
  obtain ⟨k, r, hr, herror, hbefore⟩ := load_eq_error h
  cases r with
  | error e => cases herror
  | ok row =>
    obtain ⟨width, reported, record, hrecord, hrow⟩ := Tsv.exists_record hr
    have hposition := Tsv.position_of_row hrow.symm
    obtain ⟨rfl, rfl⟩ := entry_eq_error herror
    obtain ⟨p, hp, hline⟩ := Tsv.records_line hrecord
    rw [← hposition] at hline
    refine ⟨rfl, k, p, ⟨⟨width, reported, record, row, hrecord, hrow.symm, hr, herror⟩, hbefore,
      hp⟩, hline, ?_⟩
    rw [← hline, ← List.count_eq_zero]
    omega

/-- A table whose lines end with a carriage return and a line feed. -/
def crlfTable : List UInt8 := "a\tb\tc\td\r\nA\tB\tfar\t10\r\n".toUTF8.data.toList

/-- Its one row is the second line, and the message names the first. -/
theorem load_line_crlfTable :
    Tsv.StartsAt crlfTable 1 9 ∧ Tsv.lineAt crlfTable 9 = 2 ∧ ∃ k p,
      Decides .distance "cache.tsv" crlfTable
        (.costTable "cache.tsv" 1 (.invalidNumber "far") : Error Float) k p ∧
      1 + (Tsv.lineEndsBefore crlfTable p).tail.count Tsv.lineFeed =
        Tsv.lineAt crlfTable p ∧
      (1 = Tsv.lineAt crlfTable p ↔
        Tsv.lineFeed ∉ (Tsv.lineEndsBefore crlfTable p).tail) := by
  have hload : (load .distance "cache.tsv" crlfTable : Except (Error Float) (CostTable Float)) =
      .error (.costTable "cache.tsv" 1 (.invalidNumber "far")) := rfl
  exact ⟨⟨by decide +kernel, by decide +kernel, by decide +kernel⟩, by decide +kernel,
    (load_line hload).2⟩

end RoadTrip.CostTable
