import Mathlib.Data.List.Forall2
import RoadTrip.CostTable
import RoadTrip.Proofs.CostMatrix
import RoadTrip.Proofs.Tsv.Rows

/-!
# Reading a cost table

A table is read row by row, and the first row that says nothing decides the error
(`load_eq_error`); without one each row is an entry (`load_eq_ok_iff`). Each row is one of the
records of the file, the header left out (`exists_record`). The names of a table have been trimmed
(`trimmed_of_load`), and a matrix that is made of it has no others (`mem_waypoints_of_matrix`).
-/

namespace RoadTrip

open Text (Trimmed)

theorem mapM_eq_ok_iff {β γ ε : Type} {f : β → Except ε γ} {l : List β} {l' : List γ} :
    l.mapM f = .ok l' ↔ List.Forall₂ (fun x y => f x = .ok y) l l' := by
  induction l generalizing l' with
  | nil => cases l' <;> simp [pure, Except.pure]
  | cons x rest ih =>
    rw [List.mapM_cons]
    cases hx : f x with
    | error e => cases l' <;> simp [bind, Except.bind, hx]
    | ok y =>
      cases hrest : rest.mapM f with
      | error e => cases l' <;> simp [bind, Except.bind, hx, ← ih, hrest]
      | ok ys => cases l' <;> simp [bind, Except.bind, pure, Except.pure, hx, ← ih, hrest]

theorem exists_of_forall₂ {β γ : Type} {R : β → γ → Prop} {l : List β} {l' : List γ} {y : γ}
    (h : List.Forall₂ R l l') (hy : y ∈ l') : ∃ x ∈ l, R x y := by
  induction h with
  | nil => cases hy
  | cons hxy _ ih =>
    rcases List.mem_cons.1 hy with rfl | hy
    · exact ⟨_, List.mem_cons_self, hxy⟩
    · obtain ⟨x, hx, hxy⟩ := ih hy
      exact ⟨x, List.mem_cons_of_mem _ hx, hxy⟩

theorem mapM_eq_error_iff {β γ ε : Type} {f : β → Except ε γ} {l : List β} {e : ε} :
    l.mapM f = .error e ↔ ∃ (k : Nat) (x : β), l[k]? = some x ∧ f x = .error e ∧
      ∀ i < k, ∀ y, l[i]? = some y → ∃ z, f y = .ok z := by
  induction l with
  | nil => simp [pure, Except.pure]
  | cons x rest ih =>
    rw [List.mapM_cons]
    cases hx : f x with
    | error e' =>
      constructor
      · intro h
        cases h
        exact ⟨0, x, rfl, hx, fun i hi => absurd hi (Nat.not_lt_zero i)⟩
      · rintro ⟨k, y, hy, hfy, hbefore⟩
        cases k with
        | zero =>
          cases hy
          rw [hx] at hfy
          cases hfy
          rfl
        | succ k =>
          obtain ⟨z, hz⟩ := hbefore 0 (Nat.succ_pos k) x rfl
          rw [hx] at hz
          cases hz
    | ok z =>
      have hmap : (do let zs ← rest.mapM f; pure (z :: zs)) = Except.error e ↔
          rest.mapM f = .error e := by
        cases rest.mapM f with
        | error e' => exact Iff.rfl
        | ok zs => exact ⟨nofun, nofun⟩
      refine hmap.trans (ih.trans ⟨?_, ?_⟩)
      · rintro ⟨k, y, hy, hfy, hbefore⟩
        refine ⟨k + 1, y, hy, hfy, fun i hi w hw => ?_⟩
        cases i with
        | zero =>
          cases hw
          exact ⟨z, hx⟩
        | succ i => exact hbefore i (Nat.lt_of_succ_lt_succ hi) w hw
      · rintro ⟨k, y, hy, hfy, hbefore⟩
        cases k with
        | zero =>
          cases hy
          rw [hx] at hfy
          cases hfy
        | succ k =>
          exact ⟨k, y, hy, hfy, fun i hi w hw => hbefore (i + 1) (Nat.succ_lt_succ hi) w hw⟩

namespace Tsv

/-- A row and the record that it is read from. -/
theorem exists_record {bytes : List UInt8} {k : Nat} {r : Except RecordError Row}
    (h : (rows bytes)[k]? = some r) : ∃ width reported record,
      (records bytes)[k + 1]? = some record ∧ r = row width reported record := by
  rw [getElem?_rows] at h
  obtain ⟨record, hrecord, rfl⟩ := Option.map_eq_some_iff.1 h
  rw [dataRecords, List.getElem?_tail] at hrecord
  exact ⟨_, _, record, hrecord, rfl⟩

theorem position_of_row {width : Nat} {reported : Position} {record : Record} {r : Row}
    (h : row width reported record = .ok r) : r.position = record.position :=
  (row_eq_ok_iff.1 h).2.2

theorem trimmed_of_row {width : Nat} {reported : Position} {record : Record} {r : Row}
    (h : row width reported record = .ok r) : ∀ s ∈ r.cells, Trimmed s := by
  intro s hs
  obtain ⟨field, -, cs, -, rfl⟩ := exists_of_forall₂ (row_eq_ok_iff.1 h).2.1 hs
  exact Text.trimmed_trim _

end Tsv

/-- The measure that is the cost, of the two that a row has. -/
def Metric.pick {β : Type} (metric : Metric) (distance duration : β) : β :=
  match metric with
  | .distance => distance
  | .duration => duration

namespace CostTable

variable {α : Type} [CostText α] {metric : Metric} {file : String} {bytes : List UInt8}
  {e : Error α}

theorem load_eq_error_iff :
    (load metric file bytes : Except (Error α) (CostTable α)) = .error e ↔
      (Tsv.rows bytes).mapM (entryOf (α := α) metric file) = .error e := by
  unfold load
  cases (Tsv.rows bytes).mapM (entryOf (α := α) metric file) with
  | error e' => exact ⟨fun h => by cases h; rfl, fun h => by cases h; rfl⟩
  | ok entries => exact ⟨nofun, nofun⟩

theorem load_eq_error (h : (load metric file bytes : Except (Error α) (CostTable α)) = .error e) :
    ∃ (k : Nat) (r : Except RecordError Tsv.Row), (Tsv.rows bytes)[k]? = some r ∧
      (entryOf metric file r : Except (Error α) (CostEntry α)) = .error e ∧
      ∀ i < k, ∀ s, (Tsv.rows bytes)[i]? = some s →
        ∃ entry : CostEntry α, entryOf metric file s = .ok entry :=
  mapM_eq_error_iff.1 (load_eq_error_iff.1 h)

/-- A row that is no entry of a table says so with its own line. -/
theorem entry_eq_error {row : Tsv.Row} {name : String} {line : Nat} {error : CostTableError}
    (h : (entry metric file row : Except (Error α) (CostEntry α)) =
      .error (.costTable name line error)) : name = file ∧ line = row.position.line := by
  unfold entry at h
  split at h
  · dsimp only at h
    unfold readCost at h
    split at h
    · cases h
    · cases h
      exact ⟨rfl, rfl⟩
  · cases h
    exact ⟨rfl, rfl⟩

theorem load_eq_ok_iff {t : CostTable α} : load metric file bytes = .ok t ↔
    List.Forall₂ (fun r entry => entryOf metric file r = .ok entry) (Tsv.rows bytes)
      t.entries := by
  rw [← mapM_eq_ok_iff, load]
  cases (Tsv.rows bytes).mapM (entryOf (α := α) metric file) with
  | error e => exact ⟨nofun, nofun⟩
  | ok entries => exact ⟨fun h => by cases h; rfl, fun h => by cases h; rfl⟩

/-- A row with four cells is an entry if the third or the fourth is a cost. -/
theorem entry_of_cells (row : Tsv.Row) {origin destination distance duration : String}
    {rest : List String} {cost : α}
    (hcells : row.cells = origin :: destination :: distance :: duration :: rest)
    (hcost : CostText.read? (metric.pick distance duration) = some cost) :
    entry metric file row = .ok ⟨origin, destination, cost⟩ := by
  have hread : readCost file row.position.line (metric.pick distance duration) = .ok cost := by
    rw [readCost, hcost]
  rw [entry, hcells]
  cases metric <;> exact congrArg (Except.map _) hread

/-- An entry names the first two cells of its row. -/
theorem mem_cells_of_entry {row : Tsv.Row} {e : CostEntry α} (h : entry metric file row = .ok e) :
    e.origin ∈ row.cells ∧ e.destination ∈ row.cells := by
  unfold entry at h
  split at h
  · rename_i hcells
    dsimp only [readCost] at h
    split at h
    · cases h
      rw [hcells]
      exact ⟨List.mem_cons_self, List.mem_cons_of_mem _ List.mem_cons_self⟩
    · cases h
  · cases h

theorem trimmed_of_load {t : CostTable α} (h : load metric file bytes = .ok t) :
    ∀ name ∈ t.waypoints, Trimmed name := by
  intro name hname
  rw [waypoints, List.mem_eraseDups, List.mem_flatMap] at hname
  obtain ⟨entry, hentry, hname⟩ := hname
  obtain ⟨r, hr, hof⟩ := exists_of_forall₂ (load_eq_ok_iff.1 h) hentry
  cases r with
  | error e => cases hof
  | ok row =>
    obtain ⟨k, hk⟩ := List.mem_iff_getElem?.1 hr
    obtain ⟨width, reported, record, -, hrow⟩ := Tsv.exists_record hk
    obtain ⟨horigin, hdestination⟩ := mem_cells_of_entry hof
    have htrimmed := Tsv.trimmed_of_row hrow.symm
    simp only [List.mem_cons, List.not_mem_nil, or_false] at hname
    rcases hname with rfl | rfl
    · exact htrimmed _ horigin
    · exact htrimmed _ hdestination

omit [CostText α]

theorem mem_waypoints_of_select {t : CostTable α} {requested names : List String}
    (h : t.select requested = .ok names) : ∀ name ∈ names, name ∈ t.waypoints := by
  unfold select at h
  split at h
  · cases h
    exact fun name hname => hname
  · intro name hname
    obtain ⟨request, -, hrequest⟩ := exists_of_forall₂ (mapM_eq_ok_iff.1 h) hname
    split at hrequest
    · rename_i hknown
      cases hrequest
      exact List.contains_iff_mem.1 hknown
    · cases hrequest

/-- The waypoints of a matrix that is made of a table are waypoints of the table. -/
theorem mem_waypoints_of_matrix [Cost α] {t : CostTable α} {requested : List String}
    {m : CostMatrix α} (h : t.matrix requested = .ok m) :
    ∀ name ∈ m.names.toList, name ∈ t.waypoints := by
  unfold matrix at h
  split at h
  · cases h
  · rename_i names hselect
    cases hm : CostMatrix.ofEntries names t.entries with
    | error e => rw [hm] at h; cases h
    | ok m' =>
      rw [hm] at h
      cases h
      obtain ⟨known, htwo, -, -, -, rfl⟩ := CostMatrix.ofEntries_eq_ok hm
      exact mem_waypoints_of_select hselect

end CostTable

end RoadTrip
