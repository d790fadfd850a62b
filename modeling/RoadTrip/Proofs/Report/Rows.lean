import RoadTrip.Proofs.Cost.Binary64
import RoadTrip.Proofs.Trip.Evaluation
import RoadTrip.Proofs.Tsv.Write
import RoadTrip.Report

/-!
# The rows of a report

A report has one row for each stop of the itinerary, so a round trip has one more than there are
waypoints. The rows count the stops, name them, and add up the legs from left to right
(`Trip.Tells`). What is written is a record for the header and one for each row, with these texts
for its fields (`fields_records_encode`). The report and the evaluation add up the same legs, if
from zeros of different signs, so the last total is numerically the cost of the route
(`report_tells`).
-/

namespace RoadTrip

variable {α : Type}

/-! ## Rows along a list of waypoints -/

namespace CostMatrix

variable [Cost α] (m : CostMatrix α)

/-- The rows for the legs between consecutive waypoints, after a row with a number and a total. -/
def legRows (stop : Nat) (total : α) : List (Fin m.size) → List (ReportRow α)
  | a :: b :: rest =>
    ⟨stop + 1, m.names.get b, m.cost a b, Cost.add total (m.cost a b)⟩ ::
      legRows (stop + 1) (Cost.add total (m.cost a b)) (b :: rest)
  | _ => []

variable {m} {stop k : Nat} {total : α} {a : Fin m.size} {l rest : List (Fin m.size)}
  {row : ReportRow α}

theorem length_legRows : (m.legRows stop total (a :: rest)).length = rest.length := by
  induction rest generalizing a stop total with
  | nil => rfl
  | cons b rest ih => rw [legRows, List.length_cons, ih, List.length_cons]

theorem map_name_legRows : (m.legRows stop total (a :: rest)).map (·.name) =
    rest.map fun b => m.names.get b := by
  induction rest generalizing a stop total with
  | nil => rfl
  | cons b rest ih => rw [legRows, List.map_cons, ih, List.map_cons]

theorem map_leg_legRows : (m.legRows stop total l).map (·.leg) = m.legCosts l := by
  induction l generalizing stop total with
  | nil => rfl
  | cons a rest ih =>
    cases rest with
    | nil => rfl
    | cons b rest => rw [legRows, List.map_cons, ih, legCosts]

theorem stop_legRows (h : (m.legRows stop total l)[k]? = some row) : row.stop = stop + k + 1 := by
  induction l generalizing stop total k with
  | nil => cases h
  | cons a rest ih =>
    cases rest with
    | nil => cases h
    | cons b rest =>
      rw [legRows] at h
      cases k with
      | zero => cases h; rfl
      | succ k => rw [ih h]; omega

/-- Each total is that of the legs so far. -/
theorem total_legRows (h : (m.legRows stop total l)[k]? = some row) :
    row.total = ((m.legCosts l).take (k + 1)).foldl Cost.add total := by
  induction l generalizing stop total k with
  | nil => cases h
  | cons a rest ih =>
    cases rest with
    | nil => cases h
    | cons b rest =>
      rw [legRows] at h
      rw [legCosts, List.take_succ_cons, List.foldl_cons]
      cases k with
      | zero => cases h; rfl
      | succ k => exact ih h

omit [Cost α] in
theorem getElem?_legCosts {c : α} (h : (m.legCosts l)[k]? = some c) :
    ∃ a b, l[k]? = some a ∧ l[k + 1]? = some b ∧ c = m.cost a b := by
  induction l generalizing k with
  | nil => cases h
  | cons a rest ih =>
    cases rest with
    | nil => cases h
    | cons b rest =>
      cases k with
      | zero => cases h; exact ⟨a, b, rfl, rfl, rfl⟩
      | succ k => exact ih h

omit [Cost α] in
theorem name?_val (a : Fin m.size) : m.name? a.val = some (m.names.get a) := by
  simp [name?, Vector.get]

omit [Cost α] in
theorem cost?_val (a b : Fin m.size) : m.cost? a.val b.val = some (m.cost a b) := by
  simp [cost?]

end CostMatrix

namespace Trip

variable [Cost α] {t : Trip α} {l : List (Fin t.matrix.size)} {r : Route}

theorem legRows_consecutive {stop : Nat} {total : α} :
    t.legRows stop total (Route.consecutive (l.map Fin.val)) =
      .ok (t.matrix.legRows stop total l) := by
  induction l generalizing stop total with
  | nil => rfl
  | cons a rest ih =>
    cases rest with
    | nil => rfl
    | cons b rest =>
      have hleg : t.legCost (a.val, b.val) = .ok (t.matrix.cost a b) := by
        simp only [legCost, CostMatrix.cost?_val]
      have hname : t.stopName b.val = .ok (t.matrix.names.get b) := by
        simp only [stopName, CostMatrix.name?_val]
      simp only [List.map_cons] at ih
      simp only [List.map_cons, Route.consecutive, legRows, hleg, hname, ih, CostMatrix.legRows]
      rfl

/-! ## The whole report -/

/-- The rows that tell the route through some waypoints. -/
def told (t : Trip α) : List (Fin t.matrix.size) → List (ReportRow α)
  | [] => []
  | a :: rest => ⟨1, t.matrix.names.get a, Cost.zero, Cost.zero⟩ ::
      t.matrix.legRows 1 Cost.zero (t.itinerary (a :: rest))

theorem reportRows_map : t.reportRows ⟨l.map Fin.val⟩ = .ok (t.told l) := by
  cases l with
  | nil => rfl
  | cons a rest =>
    have hname : t.stopName a.val = .ok (t.matrix.names.get a) := by
      simp only [stopName, CostMatrix.name?_val]
    have hrows : t.legRows 1 Cost.zero (t.legs ⟨(a :: rest).map Fin.val⟩) =
        .ok (t.matrix.legRows 1 Cost.zero (t.itinerary (a :: rest))) := by
      rw [legs_eq, itinerary_map, legRows_consecutive]
    simp only [reportRows, List.map_cons, List.head?_cons, hname] at hrows ⊢
    rw [hrows]
    rfl

/-- The rows tell a route: its stops by number and name, and its legs with the totals so far. -/
structure Tells (t : Trip α) (r : Route) (rows : List (ReportRow α)) : Prop where
  length : rows.length = match t.tour with
    | .oneWay => t.matrix.size
    | .roundTrip => t.matrix.size + 1
  stop : ∀ k row, rows[k]? = some row → row.stop = k + 1
  /-- The names of the stops in order, each waypoint once, and on a round trip the first again. -/
  names : ∃ names : List String, names.Perm t.matrix.names.toList ∧
    r.stops.map t.matrix.name? = names.map some ∧ rows.map (·.name) = t.itinerary names
  start : ∀ row, rows.head? = some row → row.leg = Cost.zero
  leg : ∀ k row, rows[k + 1]? = some row → ∃ a b, (t.itinerary r.stops)[k]? = some a ∧
    (t.itinerary r.stops)[k + 1]? = some b ∧ t.matrix.cost? a b = some row.leg
  total : ∀ k row, rows[k]? = some row →
    row.total = ((rows.tail.take k).map (·.leg)).foldl Cost.add Cost.zero

omit [Cost α] in
theorem itinerary_cons (a : Fin t.matrix.size) (rest : List (Fin t.matrix.size)) :
    ∃ more, t.itinerary (a :: rest) = a :: more := by
  unfold itinerary
  cases t.tour with
  | oneWay => exact ⟨rest, rfl⟩
  | roundTrip =>
    cases rest with
    | nil => exact ⟨[], rfl⟩
    | cons b rest => exact ⟨b :: rest ++ [a], rfl⟩

omit [Cost α] in
theorem length_itinerary (h : 2 ≤ l.length) : (t.itinerary l).length = match t.tour with
    | .oneWay => l.length
    | .roundTrip => l.length + 1 := by
  match l with
  | [] => simp at h
  | [_] => simp at h
  | a :: b :: rest =>
    unfold itinerary
    cases t.tour with
    | oneWay => rfl
    | roundTrip => simp

omit [Cost α] in
theorem itinerary_subset {β : Type} (stops : List β) : t.itinerary stops ⊆ stops := by
  unfold itinerary
  split
  · exact List.append_subset.2 ⟨List.Subset.refl _, List.cons_subset_cons _ (List.nil_subset _)⟩
  · exact List.Subset.refl _

theorem told_cons {a : Fin t.matrix.size} {rest more : List (Fin t.matrix.size)}
    (h : t.itinerary (a :: rest) = a :: more) :
    t.told (a :: rest) = ⟨1, t.matrix.names.get a, Cost.zero, Cost.zero⟩ ::
      t.matrix.legRows 1 Cost.zero (a :: more) := by
  rw [told, h]

omit [Cost α] in
theorem map_names_finRange (m : CostMatrix α) :
    (List.finRange m.size).map (fun a => m.names.get a) = m.names.toList := by
  apply List.ext_getElem <;> simp [Vector.get]

theorem tells_told (hl : l.Perm (List.finRange t.matrix.size)) :
    t.Tells ⟨l.map Fin.val⟩ (t.told l) := by
  have hlength : l.length = t.matrix.size := by rw [hl.length_eq, List.length_finRange]
  have htwo : 2 ≤ l.length := t.matrix.two_le_size.trans_eq hlength.symm
  have hlong := length_itinerary (t := t) htwo
  obtain ⟨a, rest, rfl⟩ := List.exists_cons_of_length_pos (Nat.lt_of_lt_of_le Nat.zero_lt_two htwo)
  obtain ⟨more, hmore⟩ := itinerary_cons a rest
  rw [told_cons hmore]
  exact {
    length := by
      rw [List.length_cons, CostMatrix.length_legRows, ← List.length_cons (a := a), ← hmore, hlong,
        hlength]
    stop := by
      intro k row h
      cases k with
      | zero => cases h; rfl
      | succ k => rw [CostMatrix.stop_legRows h, Nat.add_comm 1 k]
    names := by
      refine ⟨(a :: rest).map fun b => t.matrix.names.get b, ?_, ?_, ?_⟩
      · exact map_names_finRange t.matrix ▸ hl.map _
      · simp only [List.map_map, Function.comp_def, CostMatrix.name?_val]
      · rw [List.map_cons, CostMatrix.map_name_legRows, itinerary_map, hmore, List.map_cons]
    start := by
      intro row h
      cases h
      rfl
    leg := by
      intro k row h
      have hleg : (t.matrix.legCosts (a :: more))[k]? = some row.leg := by
        rw [List.getElem?_cons_succ] at h
        rw [← CostMatrix.map_leg_legRows, List.getElem?_map, h, Option.map_some]
      obtain ⟨b, c, hb, hc, hcost⟩ := CostMatrix.getElem?_legCosts hleg
      refine ⟨b.val, c.val, ?_, ?_, ?_⟩
      · rw [itinerary_map, hmore, List.getElem?_map, hb, Option.map_some]
      · rw [itinerary_map, hmore, List.getElem?_map, hc, Option.map_some]
      · rw [CostMatrix.cost?_val, hcost]
    total := by
      intro k row h
      cases k with
      | zero => cases h; rfl
      | succ k =>
        rw [CostMatrix.total_legRows h, List.tail_cons, List.map_take, CostMatrix.map_leg_legRows] }

theorem Tells.name_mem {rows : List (ReportRow α)} (h : t.Tells r rows) :
    ∀ row ∈ rows, row.name ∈ t.matrix.names.toList := by
  intro row hrow
  obtain ⟨names, hperm, -, hnames⟩ := h.names
  have hmem : row.name ∈ rows.map (·.name) := List.mem_map.2 ⟨row, hrow, rfl⟩
  rw [hnames] at hmem
  exact hperm.mem_iff.1 (itinerary_subset names hmem)

/-- The last row has the costs of all legs for its total. -/
theorem exists_last_told (hl : l.Perm (List.finRange t.matrix.size)) :
    ∃ row, (t.told l).getLast? = some row ∧
      row.total = (t.matrix.legCosts (t.itinerary l)).foldl Cost.add Cost.zero := by
  have hpos : 0 < l.length := by
    rw [hl.length_eq, List.length_finRange]
    exact Nat.lt_of_lt_of_le Nat.zero_lt_two t.matrix.two_le_size
  obtain ⟨a, rest, rfl⟩ := List.exists_cons_of_length_pos hpos
  obtain ⟨more, hmore⟩ := itinerary_cons a rest
  have hlast := List.getLast?_eq_some_getLast (l := t.told (a :: rest)) (List.cons_ne_nil _ _)
  refine ⟨_, hlast, ?_⟩
  rw [List.getLast?_eq_getElem?] at hlast
  rw [(tells_told hl).total _ _ hlast, List.take_of_length_le (by rw [List.length_tail]),
    told_cons hmore, List.tail_cons, CostMatrix.map_leg_legRows, hmore]

/-! ## The written report -/

/-- A written report starts with its header and so with no byte order mark. -/
theorem encode_reportHeader_ne (all : List (List String)) (rest : List UInt8) :
    (Tsv.encode (reportHeader :: all)).toUTF8.toList ≠ 0xef :: 0xbb :: 0xbf :: rest := by
  rw [Tsv.encode, Text.toUTF8_ofList, List.flatMap_cons, Text.utf8_append]
  intro h
  have hhead : some (0x73 : UInt8) = some 0xef := congrArg List.head? h
  cases hhead

omit [Cost α] in
/-- The records of a written report are those of its header and of its rows. -/
theorem records_encode_report [CostText α] (rows : List (ReportRow α)) :
    List.Forall₂ Tsv.Record.Holds
      (Tsv.records (Tsv.encode (reportHeader :: rows.map (·.cells))).toUTF8.toList)
      (reportHeader :: rows.map (·.cells)) := by
  refine Tsv.records_encode ?_ (encode_reportHeader_ne _)
  refine List.forall_mem_cons.2 ⟨⟨by decide, by decide⟩, List.forall_mem_map.2 fun row _ => ?_⟩
  exact ⟨List.cons_ne_nil _ _, fun h => by simp [ReportRow.cells] at h⟩

/-- The texts of a report: its header, and for each row the number of the stop, its name, and the
costs of the leg and of the trip so far with all their digits. -/
def written [CostText α] (rows : List (ReportRow α)) : List (List String) :=
  ["stop", "waypoint", "leg_cost", "total_cost"] :: rows.map fun row =>
    [toString row.stop, row.name, CostText.exact row.leg, CostText.exact row.total]

omit [Cost α] in
/-- The fields that are read from a written report are the bytes of its texts. -/
theorem fields_records_encode [CostText α] (rows : List (ReportRow α)) :
    (Tsv.records (Tsv.encode (reportHeader :: rows.map (·.cells))).toUTF8.toList).map (·.fields) =
      (written rows).map fun texts => texts.map fun s => s.toUTF8.toList := by
  have hbytes (s : String) : Text.utf8 s.toList = s.toUTF8.toList := by
    rw [← Text.toUTF8_ofList, String.ofList_toList]
  have hfields : List.Forall₂ (fun (r : Tsv.Record) (texts : List String) =>
      r.fields = texts.map fun s => s.toUTF8.toList) _ _ :=
    (records_encode_report rows).imp fun r texts h => by
      rw [h]
      simp only [hbytes]
  rw [← List.forall₂_eq_eq_eq, List.forall₂_map_left_iff, List.forall₂_map_right_iff]
  exact hfields

/-- **The report and the evaluation agree.** A report is a file with a record for its header and one
for each row, whose fields are the number of the stop, its name, the leg and the total in full. The
rows tell the route, and the last total is numerically the cost of the route. -/
theorem report_tells [CostText α] [OrderedCost α] {S : α → Prop} (hS : Cost.AddDomain S)
    (t : Trip α) (hcosts : ∀ a b, S (t.matrix.cost a b)) {r : Route}
    (hr : r.Visits t.matrix.size) :
    ∃ rows last f, t.reportRows r = .ok rows ∧
      t.report r = .ok (Tsv.encode (reportHeader :: rows.map (·.cells))) ∧
      (∀ text, t.report r = .ok text →
        (Tsv.records text.toUTF8.toList).map (·.fields) =
          (written rows).map fun texts => texts.map fun s => s.toUTF8.toList) ∧
      t.Tells r rows ∧
      t.evaluate r = .ok f ∧ rows.getLast? = some last ∧ Cost.same last.total f.cost = true := by
  obtain ⟨l, hl, rfl⟩ := hr.exists_list
  obtain ⟨last, hlast, htotal⟩ := exists_last_told hl
  obtain ⟨f, hf, hsame⟩ := exists_evaluate_same hS hcosts hl
  have hreport : t.report ⟨l.map Fin.val⟩ =
      .ok (Tsv.encode (reportHeader :: (t.told l).map (·.cells))) := by
    rw [report, reportRows_map]
    rfl
  refine ⟨t.told l, last, f, reportRows_map, hreport, fun text htext => ?_, tells_told hl, hf,
    hlast, ?_⟩
  · rw [hreport] at htext
    cases htext
    exact fields_records_encode _
  · rw [htotal]
    exact Cost.same_symm hsame

/-- Four waypoints with costs whose sum depends on where it starts, and names that have to be quoted
or are empty. -/
def uneven : CostMatrix Float where
  size := 4
  names := #v["A\t\nB", "\"C\"", "", "d e"]
  costs := #v[#v[0.0, 0.1, 0.2, 0.3], #v[0.1, 0.0, 0.7, 0.5], #v[0.2, 0.7, 0.0, 0.9],
    #v[0.3, 0.5, 0.9, 0.0]]
  two_le_size := by decide

/-- The report of a route through four waypoints, and what it looks like for the round trip. -/
theorem report_tells_uneven :
    (∀ a b, Cost.le Cost.zero (uneven.cost a b) = true) ∧
    (Route.mk [2, 0, 1, 3]).Visits uneven.size ∧
    (∀ tour, let t : Trip Float := ⟨uneven, tour⟩
      ∃ rows last f, t.reportRows ⟨[2, 0, 1, 3]⟩ = .ok rows ∧
        t.report ⟨[2, 0, 1, 3]⟩ = .ok (Tsv.encode (reportHeader :: rows.map (·.cells))) ∧
        (∀ text, t.report ⟨[2, 0, 1, 3]⟩ = .ok text →
          (Tsv.records text.toUTF8.toList).map (·.fields) =
            (written rows).map fun texts => texts.map fun s => s.toUTF8.toList) ∧
        t.Tells ⟨[2, 0, 1, 3]⟩ rows ∧ t.evaluate ⟨[2, 0, 1, 3]⟩ = .ok f ∧
        rows.getLast? = some last ∧ Cost.same last.total f.cost = true) ∧
    (Trip.mk uneven .roundTrip).report ⟨[2, 0, 1, 3]⟩ = .ok
      ("stop\twaypoint\tleg_cost\ttotal_cost\n1\t\t0\t0\n2\t\"A\t\nB\"\t0.2\t0.2\n" ++
        "3\t\"\"\"C\"\"\"\t0.1\t0.30000000000000004\n4\td e\t0.5\t0.8\n" ++
        "5\t\t0.9\t1.7000000000000002\n") := by
  have hcosts : ∀ a b, Cost.le Cost.zero (uneven.cost a b) = true := by decide +kernel
  have hvisits : (Route.mk [2, 0, 1, 3]).Visits uneven.size :=
    Route.isPermutation_iff.1 (by decide)
  exact ⟨hcosts, hvisits,
    fun tour => report_tells Binary64.addDomain ⟨uneven, tour⟩ hcosts hvisits, by decide +kernel⟩

end Trip

end RoadTrip
