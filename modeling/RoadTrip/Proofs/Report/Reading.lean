import RoadTrip.Proofs.CostTable.Load
import RoadTrip.Proofs.Decimal.Reading
import RoadTrip.Proofs.Report.Rows

/-!
# Reports as cost tables

A report has the form of a cost table, and loading it gives its rows back (`report_load`): from the
number of a stop to its name, at the cost of the leg or at the total. The names of a loaded table
have no blanks at their ends, so whatever else they hold they survive the trimming.
-/

namespace RoadTrip

open Text (Trimmed)

namespace ReportRow

variable {α : Type}

/-- The entry of a cost table that a row reads as. -/
def entry (metric : Metric) (row : ReportRow α) : CostEntry α :=
  ⟨toString row.stop, row.name, metric.pick row.leg row.total⟩

/-- The costs in a row read back from their texts. -/
structure Readable [CostText α] (row : ReportRow α) : Prop where
  leg : CostText.read? (CostText.exact row.leg) = some row.leg
  total : CostText.read? (CostText.exact row.total) = some row.total

instance [CostText α] [DecidableEq α] (row : ReportRow α) : Decidable row.Readable :=
  decidable_of_iff (CostText.read? (CostText.exact row.leg) = some row.leg ∧
      CostText.read? (CostText.exact row.total) = some row.total)
    ⟨fun h => ⟨h.1, h.2⟩, fun h => ⟨h.leg, h.total⟩⟩

theorem entryOf_cells [CostText α] {row : ReportRow α} (h : row.Readable) (metric : Metric)
    (file : String) (position : Position) :
    CostTable.entryOf metric file (.ok ⟨position, row.cells⟩) = .ok (row.entry metric) := by
  refine CostTable.entry_of_cells ⟨position, row.cells⟩ rfl ?_
  cases metric with
  | distance => exact h.leg
  | duration => exact h.total

end ReportRow

/-- A text that reads as a cost has no blanks at its ends. -/
theorem trimmed_of_read? {s : String} {x : Float} (h : CostText.read? s = some x) : Trimmed s := by
  obtain ⟨reading, hreading, -⟩ := Option.map_eq_some_iff.1 h
  exact Text.stripped_of_forall (Decimal.solid_of_read? hreading)

theorem trimmed_toString (n : Nat) : Trimmed (toString n) := by
  refine Text.stripped_of_forall fun c hc => ?_
  rw [Nat.toString_eq_ofList_toDigits, String.toList_ofList] at hc
  exact Decimal.isBlank_of_isDigit (Nat.isDigit_of_mem_toDigits (by decide) (by decide) hc)

theorem ReportRow.trimmed_cells {row : ReportRow Float} (hname : Trimmed row.name)
    (h : row.Readable) : ∀ s ∈ row.cells, Trimmed s := by
  simp only [cells, List.forall_mem_cons]
  exact ⟨trimmed_toString row.stop, hname, trimmed_of_read? h.leg, trimmed_of_read? h.total,
    List.forall_mem_nil _⟩

namespace Trip

theorem load_encode {rows : List (ReportRow Float)} (hnames : ∀ row ∈ rows, Trimmed row.name)
    (hread : ∀ row ∈ rows, row.Readable) (metric : Metric) (file : String) :
    CostTable.load metric file
      (Tsv.encode (reportHeader :: rows.map (·.cells))).toUTF8.toList =
      .ok ⟨rows.map (·.entry metric)⟩ := by
  have hrows := Tsv.forall₂_rows (records_encode_report rows)
    (List.forall_mem_map.2 fun _ _ => rfl)
    (List.forall_mem_map.2 fun row hrow => row.trimmed_cells (hnames row hrow) (hread row hrow))
  rw [CostTable.load_eq_ok_iff, List.forall₂_map_right_iff]
  refine forall₂_imp_of_mem (List.forall₂_map_right_iff.1 hrows) ?_
  rintro _ row hrow ⟨position, rfl⟩
  exact ReportRow.entryOf_cells (hread row hrow) metric file position

/-- **A report can be read back.** -/
theorem report_load {metric : Metric} {file : String} {bytes : List UInt8}
    {table : CostTable Float} {requested : List String} {m : CostMatrix Float}
    (hload : CostTable.load metric file bytes = .ok table)
    (hm : table.matrix requested = .ok m) (tour : Tour) {r : Route} (hr : r.Visits m.size)
    (hread : ∀ rows, (Trip.mk m tour).reportRows r = .ok rows → ∀ row ∈ rows, row.Readable) :
    ∃ rows text, (Trip.mk m tour).reportRows r = .ok rows ∧
      (Trip.mk m tour).report r = .ok text ∧ (Trip.mk m tour).Tells r rows ∧
      ∀ reread name, CostTable.load reread name text.toUTF8.toList =
        .ok ⟨rows.map (·.entry reread)⟩ := by
  obtain ⟨l, hl, rfl⟩ := hr.exists_list
  have hrows : (Trip.mk m tour).reportRows ⟨l.map Fin.val⟩ = .ok ((Trip.mk m tour).told l) :=
    reportRows_map
  have htells : (Trip.mk m tour).Tells ⟨l.map Fin.val⟩ ((Trip.mk m tour).told l) := tells_told hl
  have hnames : ∀ row ∈ (Trip.mk m tour).told l, Trimmed row.name := fun row hrow =>
    CostTable.trimmed_of_load hload _
      (CostTable.mem_waypoints_of_matrix hm _ (htells.name_mem row hrow))
  refine ⟨_, _, hrows, ?_, htells, load_encode hnames (hread _ hrows)⟩
  rw [report, hrows]
  rfl

/-- A file of costs between waypoints with names that have to be quoted or are empty. -/
def quotedNames : List UInt8 :=
  ("a\tb\tm\ts\r\n\"A\t\nB\"\t\"\"\"C\"\"\"\t0.1\t1\n\"A\t\nB\"\t\t0.2\t2\n" ++
    "\"A\t\nB\"\t d e\t0.3\t3\n\"\"\"C\"\"\"\t\t0.7\t4\n" ++
    "\"\"\"C\"\"\"\td e\t0.5\t5\n\td e \t0.9\t6").toUTF8.data.toList

def quotedTable : CostTable Float where
  entries := [⟨"A\t\nB", "\"C\"", 0.1⟩, ⟨"A\t\nB", "", 0.2⟩, ⟨"A\t\nB", "d e", 0.3⟩,
    ⟨"\"C\"", "", 0.7⟩, ⟨"\"C\"", "d e", 0.5⟩, ⟨"", "d e", 0.9⟩]

def quotedRows : List (ReportRow Float) :=
  [⟨1, "", 0.0, 0.0⟩, ⟨2, "A\t\nB", 0.2, 0.2⟩, ⟨3, "\"C\"", 0.1, 0.30000000000000004⟩,
    ⟨4, "d e", 0.5, 0.8⟩, ⟨5, "", 0.9, 1.7000000000000002⟩]

/-- The report of a round trip between waypoints whose names have to be quoted. -/
theorem report_load_quotedNames :
    CostTable.load .distance "table.tsv" quotedNames = .ok quotedTable ∧
    quotedTable.matrix [] = .ok uneven ∧ (Route.mk [2, 0, 1, 3]).Visits uneven.size ∧
    (∀ rows, (Trip.mk uneven .roundTrip).reportRows ⟨[2, 0, 1, 3]⟩ = .ok rows →
      ∀ row ∈ rows, row.Readable) ∧
    ∃ rows text, (Trip.mk uneven .roundTrip).reportRows ⟨[2, 0, 1, 3]⟩ = .ok rows ∧
      (Trip.mk uneven .roundTrip).report ⟨[2, 0, 1, 3]⟩ = .ok text ∧
      (Trip.mk uneven .roundTrip).Tells ⟨[2, 0, 1, 3]⟩ rows ∧
      ∀ reread name, CostTable.load reread name text.toUTF8.toList =
        .ok ⟨rows.map (·.entry reread)⟩ := by
  have hload : CostTable.load .distance "table.tsv" quotedNames = .ok quotedTable := by
    with_unfolding_all rfl
  have hmatrix : quotedTable.matrix [] = .ok uneven := by with_unfolding_all rfl
  have hvisits : (Route.mk [2, 0, 1, 3]).Visits uneven.size :=
    Route.isPermutation_iff.1 (by decide)
  have hrows : (Trip.mk uneven .roundTrip).reportRows ⟨[2, 0, 1, 3]⟩ = .ok quotedRows := by
    with_unfolding_all rfl
  have hread : ∀ row ∈ quotedRows, row.Readable := by decide +kernel
  have hall : ∀ rows, (Trip.mk uneven .roundTrip).reportRows ⟨[2, 0, 1, 3]⟩ = .ok rows →
      ∀ row ∈ rows, row.Readable := by
    intro rows h
    rw [hrows] at h
    cases h
    exact hread
  exact ⟨hload, hmatrix, hvisits, hall, report_load hload hmatrix .roundTrip hvisits hall⟩

end Trip

end RoadTrip
