import RoadTrip.Proofs.CostTable.Load

/-!
# Which files are cost tables

A record behind the header is accepted by the reader and by the table (`Acceptable`), or something
about it is wrong, and the checks come in a fixed order (`Offends`). An accepted record is one entry
(`Says`). Loading accepts exactly the files all of whose records are accepted, and the first record
that is not decides the error (`load_outcome`). The waypoints of a table are the names of its
entries in the order in which they first appear, whichever measure is the cost.
-/

namespace RoadTrip

/-! ## First appearances -/

/-- Every name of a list is listed once, and names that appear earlier are listed earlier. -/
structure FirstAppearances (names listed : List String) : Prop where
  mem_iff : ∀ name, name ∈ listed ↔ name ∈ names
  nodup : listed.Nodup
  ordered : listed.Pairwise fun a b => names.idxOf a < names.idxOf b

/-- One more name is listed unless it is known. -/
theorem eraseDups_concat (names : List String) (name : String) : (names ++ [name]).eraseDups =
    if name ∈ names then names.eraseDups else names.eraseDups ++ [name] := by
  rw [List.eraseDups_append]
  split
  · rename_i hname
    have hnone : [name].removeAll names = [] := by simp [List.removeAll, hname]
    rw [hnone, List.eraseDups_nil, List.append_nil]
  · rename_i hname
    have hone : [name].removeAll names = [name] := by simp [List.removeAll, hname]
    rw [hone]
    rfl

theorem pairwise_eraseDups (names : List String) :
    names.eraseDups.Pairwise fun a b => names.idxOf a < names.idxOf b := by
  induction names using List.reverseRecOn with
  | nil => exact .nil
  | append_singleton names name ih =>
    have hold : names.eraseDups.Pairwise fun a b =>
        (names ++ [name]).idxOf a < (names ++ [name]).idxOf b := by
      refine ih.imp_of_mem fun {a b} ha hb hab => ?_
      rwa [List.idxOf_append_of_mem (List.mem_eraseDups.1 ha),
        List.idxOf_append_of_mem (List.mem_eraseDups.1 hb)]
    rw [eraseDups_concat]
    by_cases hname : name ∈ names
    · rw [if_pos hname]
      exact hold
    · rw [if_neg hname, List.pairwise_append]
      refine ⟨hold, List.pairwise_singleton _ _, fun a ha b hb => ?_⟩
      rw [List.mem_singleton.1 hb, List.idxOf_append_of_mem (List.mem_eraseDups.1 ha),
        List.idxOf_append_of_notMem hname]
      have hlt := List.idxOf_lt_length_of_mem (List.mem_eraseDups.1 ha)
      omega

theorem firstAppearances_eraseDups (names : List String) :
    FirstAppearances names names.eraseDups where
  mem_iff _ := List.mem_eraseDups
  nodup := (pairwise_eraseDups names).imp fun hlt heq => by
    rw [heq] at hlt
    exact Nat.lt_irrefl _ hlt
  ordered := pairwise_eraseDups names

/-! ## One record -/

/-- The names in an entry, in the order of their columns. -/
def CostEntry.ends {α : Type} (entry : CostEntry α) : List String :=
  [entry.origin, entry.destination]

/-- The column of a measure, counted from 0. -/
def Metric.column : Metric → Nat
  | .distance => 2
  | .duration => 3

namespace CostTable

open Tsv (dataRecords reportedAt)

variable {α : Type} [CostText α] {metric : Metric} {file : String} {width : Nat}
  {reported : Position} {r : Tsv.Record}

variable (α) in
/-- The reader accepts a record behind a header of `width` fields, and the table its row. -/
structure Acceptable (metric : Metric) (width : Nat) (r : Tsv.Record) : Prop where
  regular : r.Regular width
  columns : 4 ≤ r.fields.length
  number : ∃ text, r.Cell metric.column text ∧ ∃ cost : α, CostText.read? text = some cost

/-- An accepted record is this entry. -/
structure Says (metric : Metric) (width : Nat) (r : Tsv.Record) (entry : CostEntry α) : Prop where
  regular : r.Regular width
  columns : 4 ≤ r.fields.length
  origin : r.Cell 0 entry.origin
  destination : r.Cell 1 entry.destination
  cost : ∃ text, r.Cell metric.column text ∧ CostText.read? text = some entry.cost

/-- What is wrong with a record. The number of fields is checked first, then the bytes of each
field, then the columns and last the number. -/
inductive Offends (metric : Metric) (file : String) (width : Nat) (reported : Position)
    (r : Tsv.Record) : Error α → Prop where
  | unequalLengths (hlength : r.fields.length ≠ width) :
    Offends metric file width reported r
      (.record (.unequalLengths r.position r.fields.length width))
  | invalidText {index valid : Nat} (hlength : r.fields.length = width)
    (hfirst : Tsv.FirstInvalid r.fields index valid) :
    Offends metric file width reported r (.record (.invalidText reported index valid))
  | missingColumn (hregular : r.Regular width) (hcolumns : r.fields.length < 4) :
    Offends metric file width reported r (.costTable file r.position.line .missingColumn)
  | invalidNumber {text : String} (hregular : r.Regular width) (hcolumns : 4 ≤ r.fields.length)
    (hcell : r.Cell metric.column text) (hnumber : (CostText.read? text : Option α) = none) :
    Offends metric file width reported r (.costTable file r.position.line (.invalidNumber text))

/-! ## One row -/

/-- A row has too few cells, or it has a name for each end and a cell of its measure to read. -/
theorem entry_cases (metric : Metric) (file : String) (row : Tsv.Row) :
    (row.cells.length < 4 ∧ (entry metric file row : Except (Error α) (CostEntry α)) =
      .error (.costTable file row.position.line .missingColumn)) ∨
    (4 ≤ row.cells.length ∧ ∃ origin destination text, row.cells[0]? = some origin ∧
      row.cells[1]? = some destination ∧ row.cells[metric.column]? = some text ∧
      (entry metric file row : Except (Error α) (CostEntry α)) =
        (readCost file row.position.line text).map fun cost => ⟨origin, destination, cost⟩) := by
  unfold entry
  split
  · rename_i origin destination distance duration rest hcells
    rw [hcells]
    exact .inr ⟨by simp, origin, destination, metric.pick distance duration, rfl, rfl,
      by cases metric <;> rfl, rfl⟩
  · rename_i hcells
    refine .inl ⟨?_, rfl⟩
    by_contra hfour
    rcases hrow : row.cells with _ | ⟨a, _ | ⟨b, _ | ⟨c, _ | ⟨d, rest⟩⟩⟩⟩
    case cons.cons.cons.cons => exact hcells a b c d rest hrow
    all_goals
      rw [hrow] at hfour
      simp at hfour

theorem readCost_cases (file : String) (line : Nat) (text : String) :
    (∃ cost : α, CostText.read? text = some cost ∧ readCost file line text = .ok cost) ∨
    ((CostText.read? text : Option α) = none ∧
      (readCost file line text : Except (Error α) α) =
        .error (.costTable file line (.invalidNumber text))) := by
  unfold readCost
  cases CostText.read? (α := α) text with
  | none => exact .inr ⟨rfl, rfl⟩
  | some cost => exact .inl ⟨cost, rfl, rfl⟩

theorem entry_eq_ok_iff {row : Tsv.Row} {entry' : CostEntry α} :
    entry metric file row = .ok entry' ↔ 4 ≤ row.cells.length ∧
      row.cells[0]? = some entry'.origin ∧ row.cells[1]? = some entry'.destination ∧
      ∃ text, row.cells[metric.column]? = some text ∧
        CostText.read? text = some entry'.cost := by
  rcases entry_cases (α := α) metric file row with ⟨hcells, hentry⟩ |
    ⟨hcells, origin, destination, text, horigin, hdestination, htext, hentry⟩
  · rw [hentry]
    exact ⟨nofun, fun h => absurd h.1 (Nat.not_le.2 hcells)⟩
  · rw [hentry, horigin, hdestination, htext]
    rcases readCost_cases (α := α) file row.position.line text with ⟨cost, hcost, hread⟩ |
      ⟨hcost, hread⟩
    · obtain ⟨origin', destination', cost'⟩ := entry'
      rw [hread]
      simp [Except.map, hcells, hcost]
    · rw [hread]
      simp [Except.map, hcost]

theorem entry_eq_error_iff {row : Tsv.Row} {e : Error α} :
    (entry metric file row : Except (Error α) (CostEntry α)) = .error e ↔
      (row.cells.length < 4 ∧ e = .costTable file row.position.line .missingColumn) ∨
      (4 ≤ row.cells.length ∧ ∃ text, row.cells[metric.column]? = some text ∧
        (CostText.read? text : Option α) = none ∧
        e = .costTable file row.position.line (.invalidNumber text)) := by
  rcases entry_cases (α := α) metric file row with ⟨hcells, hentry⟩ |
    ⟨hcells, origin, destination, text, -, -, htext, hentry⟩
  · rw [hentry]
    simp [hcells, Nat.not_le.2 hcells, eq_comm]
  · rw [hentry, htext]
    rcases readCost_cases (α := α) file row.position.line text with ⟨cost, hcost, hread⟩ |
      ⟨hcost, hread⟩
    · rw [hread]
      simp [Except.map, hcost, Nat.not_lt.2 hcells]
    · rw [hread]
      simp [Except.map, hcost, hcells, Nat.not_lt.2 hcells, eq_comm]

/-! ## What a record comes to -/

theorem entryOf_row_eq_ok_iff {entry' : CostEntry α} :
    entryOf metric file (Tsv.row width reported r) = .ok entry' ↔ Says metric width r entry' := by
  constructor
  · intro h
    cases hrow : Tsv.row width reported r with
    | error e =>
      rw [hrow] at h
      cases h
    | ok row =>
      rw [hrow] at h
      obtain ⟨-, hreads, -⟩ := Tsv.row_eq_ok_iff.1 hrow
      obtain ⟨hcells, horigin, hdestination, text, htext, hcost⟩ := entry_eq_ok_iff.1 h
      have hcell {i : Nat} {text : String} (h : row.cells[i]? = some text) : r.Cell i text :=
        (Tsv.Record.cell_iff hreads).2 h
      exact ⟨Tsv.Record.regular_of_row hrow, hreads.length_eq ▸ hcells, hcell horigin,
        hcell hdestination, text, hcell htext, hcost⟩
  · rintro ⟨hregular, hcolumns, horigin, hdestination, text, htext, hcost⟩
    obtain ⟨row, hrow, -, hreads⟩ := hregular.exists_row reported
    have hcell {i : Nat} {text : String} (h : r.Cell i text) : row.cells[i]? = some text :=
      (Tsv.Record.cell_iff hreads).1 h
    rw [hrow]
    exact entry_eq_ok_iff.2 ⟨hreads.length_eq ▸ hcolumns, hcell horigin, hcell hdestination, text,
      hcell htext, hcost⟩

theorem entryOf_row_eq_error_iff {e : Error α} :
    (entryOf metric file (Tsv.row width reported r) : Except (Error α) (CostEntry α)) = .error e ↔
      Offends metric file width reported r e := by
  constructor
  · intro h
    cases hrow : Tsv.row width reported r with
    | error error =>
      rw [hrow] at h
      cases h
      rcases Tsv.row_eq_error_iff.1 hrow with ⟨hlength, rfl⟩ | ⟨hlength, index, valid, hfirst, rfl⟩
      · exact .unequalLengths hlength
      · exact .invalidText hlength hfirst
    | ok row =>
      rw [hrow] at h
      have hregular := Tsv.Record.regular_of_row hrow
      obtain ⟨-, hreads, hposition⟩ := Tsv.row_eq_ok_iff.1 hrow
      rcases entry_eq_error_iff.1 h with ⟨hcells, rfl⟩ | ⟨hcells, text, htext, hcost, rfl⟩
      · rw [hposition]
        exact .missingColumn hregular (hreads.length_eq ▸ hcells)
      · rw [hposition]
        exact .invalidNumber hregular (hreads.length_eq ▸ hcells)
          ((Tsv.Record.cell_iff hreads).2 htext) hcost
  · intro h
    cases h with
    | unequalLengths hlength =>
      rw [Tsv.row_eq_error_iff.2 (.inl ⟨hlength, rfl⟩)]
      rfl
    | invalidText hlength hfirst =>
      rw [Tsv.row_eq_error_iff.2 (.inr ⟨hlength, _, _, hfirst, rfl⟩)]
      rfl
    | missingColumn hregular hcolumns =>
      obtain ⟨row, hrow, hposition, hreads⟩ := hregular.exists_row reported
      rw [hrow, ← hposition]
      exact entry_eq_error_iff.2 (.inl ⟨hreads.length_eq ▸ hcolumns, rfl⟩)
    | invalidNumber hregular hcolumns hcell hnumber =>
      obtain ⟨row, hrow, hposition, hreads⟩ := hregular.exists_row reported
      rw [hrow, ← hposition]
      exact entry_eq_error_iff.2 (.inr ⟨hreads.length_eq ▸ hcolumns, _,
        (Tsv.Record.cell_iff hreads).1 hcell, hnumber, rfl⟩)

theorem acceptable_iff :
    Acceptable α metric width r ↔ ∃ entry : CostEntry α, Says metric width r entry := by
  constructor
  · rintro ⟨hregular, hcolumns, text, htext, cost, hcost⟩
    obtain ⟨row, hrow, -, hreads⟩ := hregular.exists_row Tsv.origin
    have hcells : 4 ≤ row.cells.length := hreads.length_eq ▸ hcolumns
    rcases entry_cases (α := α) metric "" row with ⟨hfew, -⟩ |
      ⟨-, origin, destination, text', horigin, hdestination, -⟩
    · exact absurd hcells (Nat.not_le.2 hfew)
    · have hcell {i : Nat} {text : String} (h : row.cells[i]? = some text) : r.Cell i text :=
        (Tsv.Record.cell_iff hreads).2 h
      exact ⟨⟨origin, destination, cost⟩, hregular, hcolumns, hcell horigin, hcell hdestination,
        text, htext, hcost⟩
  · rintro ⟨entry, h⟩
    obtain ⟨text, hcell, hcost⟩ := h.cost
    exact ⟨h.regular, h.columns, text, hcell, entry.cost, hcost⟩

/-! ## What a file comes to -/

variable {bytes : List UInt8}

/-- The first record that is not accepted, and the error that it comes to. -/
def Refuses (metric : Metric) (file : String) (bytes : List UInt8) (e : Error α) : Prop :=
  ∃ k r, (dataRecords bytes)[k]? = some r ∧
    Offends metric file (Tsv.width bytes) (reportedAt k r) r e ∧
    ∀ i < k, ∀ s, (dataRecords bytes)[i]? = some s → Acceptable α metric (Tsv.width bytes) s

/-- A table has one entry for each record behind the header. -/
theorem load_eq_ok_iff_forall₂ {t : CostTable α} : load metric file bytes = .ok t ↔
    List.Forall₂ (Says metric (Tsv.width bytes)) (dataRecords bytes) t.entries := by
  rw [load_eq_ok_iff]
  exact Tsv.forall₂_rows_iff fun _ _ _ => entryOf_row_eq_ok_iff

theorem load_eq_error_iff_refuses {e : Error α} :
    (load metric file bytes : Except (Error α) (CostTable α)) = .error e ↔
      Refuses metric file bytes e := by
  rw [load_eq_error_iff, mapM_eq_error_iff]
  simp only [Tsv.getElem?_rows]
  constructor
  · rintro ⟨k, row, hrow, herror, hbefore⟩
    obtain ⟨r, hr, rfl⟩ := Option.map_eq_some_iff.1 hrow
    refine ⟨k, r, hr, entryOf_row_eq_error_iff.1 herror, fun i hi s hs => ?_⟩
    obtain ⟨entry, hentry⟩ := hbefore i hi _ (Option.map_eq_some_iff.2 ⟨s, hs, rfl⟩)
    exact acceptable_iff.2 ⟨entry, entryOf_row_eq_ok_iff.1 hentry⟩
  · rintro ⟨k, r, hr, hoffends, hbefore⟩
    refine ⟨k, _, Option.map_eq_some_iff.2 ⟨r, hr, rfl⟩, entryOf_row_eq_error_iff.2 hoffends,
      fun i hi row hrow => ?_⟩
    obtain ⟨s, hs, rfl⟩ := Option.map_eq_some_iff.1 hrow
    obtain ⟨entry, hentry⟩ := acceptable_iff.1 (hbefore i hi s hs)
    exact ⟨entry, entryOf_row_eq_ok_iff.2 hentry⟩

theorem exists_load_iff : (∃ t : CostTable α, load metric file bytes = .ok t) ↔
    ∀ r ∈ dataRecords bytes, Acceptable α metric (Tsv.width bytes) r := by
  simp only [load_eq_ok_iff_forall₂, acceptable_iff, ← exists_forall₂_iff]
  constructor
  · rintro ⟨t, ht⟩
    exact ⟨t.entries, ht⟩
  · rintro ⟨entries, h⟩
    exact ⟨⟨entries⟩, h⟩

omit [CostText α] in
theorem waypoints_eq (t : CostTable α) :
    t.waypoints = (t.entries.map (·.ends)).flatten.eraseDups :=
  rfl

/-- The ends of an entry do not depend on the measure. -/
theorem Says.ends_eq {other : Metric} {entry entry' : CostEntry α}
    (h : Says metric width r entry) (h' : Says other width r entry') :
    entry.ends = entry'.ends := by
  unfold CostEntry.ends
  rw [h.origin.unique h'.origin, h.destination.unique h'.destination]

theorem map_ends_eq {other : Metric} {rs : List Tsv.Record}
    {entries entries' : List (CostEntry α)} (h : List.Forall₂ (Says metric width) rs entries)
    (h' : List.Forall₂ (Says other width) rs entries') :
    entries.map (·.ends) = entries'.map (·.ends) := by
  induction h generalizing entries' with
  | nil =>
    cases h'
    rfl
  | cons hfirst _ ih =>
    cases h' with
    | cons hfirst' hrest => rw [List.map_cons, List.map_cons, hfirst.ends_eq hfirst', ih hrest]

/-- **What loading accepts and produces.** -/
theorem load_outcome (metric : Metric) (file : String) (bytes : List UInt8) :
    ((∃ t : CostTable α, load metric file bytes = .ok t) ↔
      ∀ r ∈ dataRecords bytes, Acceptable α metric (Tsv.width bytes) r) ∧
    (∀ e : Error α, load metric file bytes = .error e ↔ Refuses metric file bytes e) ∧
    (∀ t : CostTable α, load metric file bytes = .ok t →
      List.Forall₂ (Says metric (Tsv.width bytes)) (dataRecords bytes) t.entries ∧
      FirstAppearances (t.entries.flatMap (·.ends)) t.waypoints) ∧
    ∀ (other : Metric) (name : String) (t u : CostTable α), load metric file bytes = .ok t →
      load other name bytes = .ok u →
      t.waypoints = u.waypoints ∧ t.entries.map (·.ends) = u.entries.map (·.ends) := by
  refine ⟨exists_load_iff, fun e => load_eq_error_iff_refuses, fun t ht => ?_,
    fun other name t u ht hu => ?_⟩
  · exact ⟨load_eq_ok_iff_forall₂.1 ht, firstAppearances_eraseDups _⟩
  · have hends := map_ends_eq (load_eq_ok_iff_forall₂.1 ht) (load_eq_ok_iff_forall₂.1 hu)
    exact ⟨by rw [waypoints_eq, waypoints_eq, hends], hends⟩

/-- Three rows. The third has no time, which matters only when the time is the cost, and there is
no name at its end. -/
def missingTime : List UInt8 :=
  "a\tb\tm\ts\nB\tA\t1\t2\nA\tC\t3\t4\nC\t\t5\t?\n".toUTF8.data.toList

/-- Read for distances it has four waypoints, and read for times the third row decides. -/
theorem load_outcome_missingTime :
    (∃ t : CostTable Float, load .distance "cache.tsv" missingTime = .ok t ∧
      t.waypoints = ["B", "A", "C", ""] ∧
      (∀ r ∈ dataRecords missingTime, Acceptable Float .distance (Tsv.width missingTime) r) ∧
      FirstAppearances (t.entries.flatMap (·.ends)) t.waypoints) ∧
    Refuses .duration "cache.tsv" missingTime
      (.costTable "cache.tsv" 4 (.invalidNumber "?") : Error Float) := by
  obtain ⟨hok, -, htable, -⟩ := load_outcome (α := Float) .distance "cache.tsv" missingTime
  obtain ⟨-, herror, -⟩ := load_outcome (α := Float) .duration "cache.tsv" missingTime
  have hload : ∃ t : CostTable Float, load .distance "cache.tsv" missingTime = .ok t ∧
      t.waypoints = ["B", "A", "C", ""] := ⟨_, rfl, rfl⟩
  obtain ⟨t, ht, hwaypoints⟩ := hload
  exact ⟨⟨t, ht, hwaypoints, hok.1 ⟨t, ht⟩, (htable t ht).2⟩, (herror _).1 rfl⟩

end CostTable

end RoadTrip
