import RoadTrip.Proofs.CostTable.Acceptance
import RoadTrip.Proofs.Tsv.Append

/-!
# Appending rows to a table

The entries of a table depend on the fields of its records only (`Says.of_fields`), and the records
that are appended to a file behind the end of a line are those that the same bytes have behind its
header. So a file that grows by appending rows keeps its entries and the numbers of its waypoints
(`load_append`), and new names get the numbers behind them.
-/

namespace RoadTrip.CostTable

open Tsv (IsHeader EndsLine)

variable {α : Type} {names more : List String} {s t u : CostTable α}

/-! ## Names -/

/-- Names that follow are listed behind the others, unless they are among them. -/
theorem eraseDups_append_eq_filter (names more : List String) : (names ++ more).eraseDups =
    names.eraseDups ++ more.eraseDups.filter fun name => name ∉ names.eraseDups := by
  induction more using List.reverseRecOn with
  | nil => simp
  | append_singleton more name ih =>
    rw [← List.append_assoc, eraseDups_concat, eraseDups_concat, ih]
    by_cases hmore : name ∈ more
    · rw [if_pos (List.mem_append_right names hmore), if_pos hmore]
    · rw [if_neg hmore, List.filter_append, ← List.append_assoc]
      by_cases hname : name ∈ names
      · rw [if_pos (List.mem_append_left more hname)]
        simp [hname]
      · rw [if_neg fun h => (List.mem_append.1 h).elim hname hmore]
        simp [hname]

/-- A table goes on where another ends: with the entries of a third one, and with the names in it
that are new. -/
structure Continues (u s t : CostTable α) : Prop where
  entries : u.entries = s.entries ++ t.entries
  waypoints : u.waypoints = s.waypoints ++ t.waypoints.filter fun name => name ∉ s.waypoints
  /-- Waypoints keep their numbers. -/
  numbers : ∀ (i : Nat) (name : String), s.waypoints[i]? = some name → u.waypoints[i]? = some name
  /-- The lines that are printed for them stay the same. -/
  listing : ∃ lines, u.listing = s.listing ++ lines

theorem continues_append (s t : CostTable α) : Continues ⟨s.entries ++ t.entries⟩ s t := by
  have hwaypoints : (CostTable.mk (s.entries ++ t.entries)).waypoints =
      s.waypoints ++ t.waypoints.filter fun name => name ∉ s.waypoints := by
    rw [waypoints, List.flatMap_append, eraseDups_append_eq_filter]
    rfl
  refine ⟨rfl, hwaypoints, fun i name hi => ?_, ?_⟩
  · obtain ⟨hlt, -⟩ := List.getElem?_eq_some_iff.1 hi
    rw [hwaypoints, List.getElem?_append_left hlt]
    exact hi
  · rw [listing, listing, hwaypoints, List.zipIdx_append, List.map_append, String.join_append]
    exact ⟨_, rfl⟩

/-! ## Rows -/

variable [CostText α] {metric : Metric} {file : String} {header body back : List UInt8}

theorem Says.of_fields {w : Nat} {r r' : Tsv.Record} {entry : CostEntry α}
    (h : Says metric w r entry) (hfields : r.fields = r'.fields) : Says metric w r' entry := by
  obtain ⟨position, fields⟩ := r
  obtain ⟨position', fields'⟩ := r'
  subst hfields
  exact ⟨⟨h.regular.length, h.regular.texts⟩, h.columns, h.origin, h.destination, h.cost⟩

theorem forall₂_fields_iff {w : Nat} {rs : List Tsv.Record} {entries : List (CostEntry α)} :
    List.Forall₂ (Says metric w) rs entries ↔
      List.Forall₂ (fun fields => Says metric w ⟨Tsv.origin, fields⟩) (rs.map (·.fields))
        entries := by
  rw [List.forall₂_map_left_iff]
  constructor
  · intro h
    exact h.imp fun r entry hentry => hentry.of_fields rfl
  · intro h
    exact h.imp fun r entry hentry => hentry.of_fields rfl

/-- **Appending rows only appends.** -/
theorem load_append (hheader : IsHeader header) (hbody : body = [] ∨ EndsLine (header ++ body))
    (hs : load metric file (header ++ body) = .ok s)
    (ht : load metric file (header ++ back) = .ok t) :
    ∃ u, load metric file (header ++ body ++ back) = .ok u ∧ Continues u s t := by
  obtain ⟨hfields, hwidth, hwidth'⟩ := Tsv.dataRecords_append hheader hbody back
  refine ⟨⟨s.entries ++ t.entries⟩, ?_, continues_append s t⟩
  rw [load_eq_ok_iff_forall₂, forall₂_fields_iff] at hs ht ⊢
  rw [hwidth'] at ht
  rw [hfields, hwidth]
  exact List.rel_append hs ht

/-! A header, a row about a name with a line feed in it, and a row with one new name. -/

def cacheHeader : List UInt8 := "a\tb\tm\ts\r\n".toUTF8.data.toList

def cacheRow : List UInt8 := "\"A\nB\"\tC\t1\t2\r\n".toUTF8.data.toList

def cacheMore : List UInt8 := "C\tD\t3\t4".toUTF8.data.toList

/-- The line feed in the name ends no line, and the other one does. -/
theorem load_append_cacheMore : ¬ EndsLine (cacheHeader ++ cacheRow.take 3) ∧
    ∃ s t u : CostTable Float, load .distance "cache.tsv" (cacheHeader ++ cacheRow) = .ok s ∧
      load .distance "cache.tsv" (cacheHeader ++ cacheMore) = .ok t ∧
      load .distance "cache.tsv" (cacheHeader ++ cacheRow ++ cacheMore) = .ok u ∧
      u.waypoints = ["A\nB", "C", "D"] ∧ Continues u s t := by
  have hquoted : ¬ EndsLine (cacheHeader ++ cacheRow.take 3) := by
    intro h
    have hphase := h.between
    revert hphase
    decide +kernel
  have hheader : IsHeader cacheHeader :=
    ⟨⟨cacheHeader.dropLast, by decide +kernel, by unfold Tsv.InQuotes; decide +kernel⟩,
      by decide +kernel⟩
  have hrow : EndsLine (cacheHeader ++ cacheRow) :=
    ⟨(cacheHeader ++ cacheRow).dropLast, by decide +kernel,
      by unfold Tsv.InQuotes; decide +kernel⟩
  have hs : ∃ s : CostTable Float, load .distance "cache.tsv" (cacheHeader ++ cacheRow) = .ok s ∧
      s.waypoints = ["A\nB", "C"] := ⟨_, rfl, rfl⟩
  have ht : ∃ t : CostTable Float, load .distance "cache.tsv" (cacheHeader ++ cacheMore) = .ok t ∧
      t.waypoints = ["C", "D"] := ⟨_, rfl, rfl⟩
  obtain ⟨s, hs, hnames⟩ := hs
  obtain ⟨t, ht, hnames'⟩ := ht
  obtain ⟨u, hu, hcontinues⟩ := load_append hheader (.inr hrow) hs ht
  refine ⟨hquoted, s, t, u, hs, ht, hu, ?_, hcontinues⟩
  rw [hcontinues.waypoints, hnames, hnames']
  decide

end RoadTrip.CostTable
