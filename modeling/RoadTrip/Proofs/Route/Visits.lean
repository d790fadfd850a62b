import Mathlib.Data.List.Perm.Subperm
import Mathlib.Data.List.Range
import RoadTrip.Fault
import RoadTrip.Route

/-!
# Routes through all waypoints

`r.Visits n` says that a route visits each of `n` waypoints exactly once, and `isPermutation`
decides it (`isPermutation_decides`), whatever the stops of the route are. The walk along the stops
(`visitsOnce`) keeps the invariant that the marks are those of the stops passed (`Marked`), so it
fails at the first stop that is no waypoint or comes again; that no waypoint is left out then
follows by counting. The same walk over marks that are read and set by index
(`visitsOnceByIndex`), where a missing one is a fault, never meets that fault.
-/

namespace RoadTrip.Route

/-- The stops are the waypoints `0, …, count - 1` in some order. -/
def Visits (r : Route) (count : Nat) : Prop := r.stops.Perm (List.range count)

variable {r : Route} {count : Nat}

theorem Visits.length (h : r.Visits count) : r.length = count := by
  rw [Route.length, h.length_eq, List.length_range]

theorem Visits.lt (h : r.Visits count) {stop : Nat} (hs : stop ∈ r.stops) : stop < count :=
  List.mem_range.1 (h.mem_iff.1 hs)

theorem Visits.nodup (h : r.Visits count) : r.stops.Nodup := h.nodup_iff.2 List.nodup_range

theorem Visits.of_perm {s : Route} (h : r.Visits count) (hs : s.stops.Perm r.stops) :
    s.Visits count :=
  hs.trans h

/-- No waypoint is left out if as many stops as there are waypoints are waypoints and differ. -/
theorem visits_iff_nodup : r.Visits count ↔
    r.length = count ∧ r.stops.Nodup ∧ ∀ stop ∈ r.stops, stop < count := by
  constructor
  · exact fun h => ⟨h.length, h.nodup, fun _ => h.lt⟩
  · rintro ⟨hl, hn, hlt⟩
    have hsub : r.stops.Subperm (List.range count) :=
      hn.subperm fun stop hs => List.mem_range.2 (hlt stop hs)
    refine hsub.perm_of_length_le ?_
    rw [List.length_range]
    exact Nat.le_of_eq hl.symm

/-- Every waypoint comes exactly once, and nothing else comes. -/
theorem visits_iff_count : r.Visits count ↔
    ∀ stop, r.stops.count stop = if stop < count then 1 else 0 := by
  rw [Visits, List.perm_iff_count]
  simp only [List.nodup_range.count, List.mem_range]

/-! ## The marks of a walk -/

/-- There is a mark for each of `count` waypoints, and those of the stops passed are set. -/
structure Marked (count : Nat) (passed : List Nat) (seen : Array Bool) : Prop where
  size_eq : seen.size = count
  getElem_eq : ∀ stop (h : stop < seen.size), seen[stop] = decide (stop ∈ passed)

namespace Marked

variable {passed ahead : List Nat} {seen : Array Bool}

theorem initial (count : Nat) : Marked count [] (Array.replicate count false) where
  size_eq := Array.size_replicate
  getElem_eq stop h := by simp

theorem set (h : Marked count passed seen) {stop : Nat} (hs : stop < seen.size) :
    Marked count (stop :: passed) (seen.set stop true) where
  size_eq := by rw [Array.size_set, h.size_eq]
  getElem_eq other ho := by
    rw [Array.size_set] at ho
    by_cases he : stop = other
    · subst he
      simp
    · rw [Array.getElem_set_ne hs ho he, h.getElem_eq other ho]
      simp [Ne.symm he]

/-- A walk succeeds if the stops ahead differ, are waypoints and none of them was passed before. -/
theorem visitsOnce_iff (h : Marked count passed seen) : visitsOnce seen ahead = true ↔
    ahead.Nodup ∧ (∀ stop ∈ ahead, stop < count) ∧ passed.Disjoint ahead := by
  -- Along the stops ahead: each step moves one of them to those passed, as `set` does.
  induction ahead generalizing passed seen with
  | nil => simp [visitsOnce]
  | cons stop rest ih =>
    rw [visitsOnce, List.nodup_cons, List.forall_mem_cons, List.disjoint_cons_right, ← h.size_eq]
    by_cases hs : stop < seen.size
    · rw [dif_pos hs, h.getElem_eq stop hs]
      by_cases hp : stop ∈ passed
      · simp [hp]
      · rw [decide_eq_false hp, if_neg Bool.false_ne_true, ih (h.set hs), ← h.size_eq,
          List.disjoint_cons_left]
        tauto
    · rw [dif_neg hs]
      simp [hs]

end Marked

/-- The check accepts exactly the routes through all waypoints. -/
theorem isPermutation_iff : r.isPermutation count = true ↔ r.Visits count := by
  rw [isPermutation, Bool.and_eq_true, beq_iff_eq, (Marked.initial count).visitsOnce_iff,
    visits_iff_nodup]
  simp only [List.disjoint_nil_left, and_true]

/-! ## Marks by index -/

/-- The mark of a stop, which has to have one. -/
def markOf (seen : Array Bool) (stop : Nat) : Except Fault Bool :=
  match seen[stop]? with
  | some mark => .ok mark
  | none => .error .unknownStop

/-- Set the mark of a stop, which has to have one. -/
def setMark (seen : Array Bool) (stop : Nat) : Except Fault (Array Bool) :=
  if stop < seen.size then .ok (seen.setIfInBounds stop true) else .error .unknownStop

/-- Walk along the stops as `visitsOnce` does, with marks that are read and set by index. Only the
comparison before keeps a stop that is no waypoint from being a fault. -/
def visitsOnceByIndex (seen : Array Bool) : List Nat → Except Fault Bool
  | [] => .ok true
  | stop :: rest =>
    if stop < seen.size then do
      if ← markOf seen stop then return false
      let next ← setMark seen stop
      visitsOnceByIndex next rest
    else
      .ok false

/-- The check of a route with marks that are read and set by index. -/
def isPermutationByIndex (r : Route) (count : Nat) : Except Fault Bool :=
  if r.length = count then visitsOnceByIndex (Array.replicate count false) r.stops
  else .ok false

section

variable {seen : Array Bool} {stop : Nat}

theorem markOf_of_lt (h : stop < seen.size) : markOf seen stop = .ok seen[stop] := by
  rw [markOf, Array.getElem?_eq_getElem h]

theorem setMark_of_lt (h : stop < seen.size) : setMark seen stop = .ok (seen.set stop true) := by
  rw [setMark, if_pos h, Array.setIfInBounds, dif_pos h]

/-- A walk looks at no mark that is not there, whatever the stops are. -/
theorem visitsOnceByIndex_eq (seen : Array Bool) (stops : List Nat) :
    visitsOnceByIndex seen stops = .ok (visitsOnce seen stops) := by
  induction stops generalizing seen with
  | nil => rfl
  | cons stop rest ih =>
    rw [visitsOnceByIndex, visitsOnce]
    by_cases h : stop < seen.size
    · rw [if_pos h, dif_pos h, markOf_of_lt h, setMark_of_lt h]
      cases seen[stop] with
      | true => rfl
      | false => exact ih (seen.set stop true)
    · rw [if_neg h, dif_neg h]

end

theorem isPermutationByIndex_eq (r : Route) (count : Nat) :
    r.isPermutationByIndex count = .ok (r.isPermutation count) := by
  rw [isPermutationByIndex, isPermutation]
  by_cases h : r.length = count
  · rw [if_pos h, visitsOnceByIndex_eq, beq_iff_eq.2 h, Bool.true_and]
  · rw [if_neg h, beq_eq_false_iff_ne.2 h, Bool.false_and]

/-- **The check decides whether a route visits every waypoint exactly once and nothing else**, for
all stops and all numbers of waypoints, and looks at no mark that is not there. -/
theorem isPermutation_decides (r : Route) (count : Nat) :
    (r.isPermutation count = true ↔ r.stops.Perm (List.range count)) ∧
    (r.isPermutation count = true ↔
      ∀ stop, r.stops.count stop = if stop < count then 1 else 0) ∧
    r.isPermutationByIndex count = .ok (r.isPermutation count) :=
  ⟨isPermutation_iff, isPermutation_iff.trans visits_iff_count, isPermutationByIndex_eq r count⟩

end RoadTrip.Route
