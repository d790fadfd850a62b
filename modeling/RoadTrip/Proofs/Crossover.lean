import RoadTrip.Crossover
import RoadTrip.Proofs.Draw.Ensures
import RoadTrip.Proofs.Route.Visits

/-!
# Children of a crossover

Parents that visit the same waypoints have children that visit them, too: a kept segment and the
stops that the donor has outside it are together a rearrangement of the donor's stops. No
crossover of such parents meets a fault.
-/

namespace RoadTrip.Crossover

open Route Draw

/-- A segment and what a list has outside it are together a rearrangement of the list. -/
theorem filter_append_perm {l segment : List Nat} (hl : l.Nodup) (hs : segment.Nodup)
    (hsub : ∀ s ∈ segment, s ∈ l) :
    ((l.filter fun s => !segment.contains s) ++ segment).Perm l := by
  refine (List.perm_ext_iff_of_nodup ?_ hl).2 fun s => ?_
  · refine List.nodup_append.2 ⟨hl.filter _, hs, ?_⟩
    rintro s hout t hin rfl
    have := (List.mem_filter.1 hout).2
    simp [hin] at this
  · simp only [List.mem_append, List.mem_filter, Bool.not_eq_true']
    by_cases h : s ∈ segment
    · simp [h, hsub s h]
    · simp [h]

section

variable {n start stop : Nat} {kept donor first second : Route}

theorem mem_of_mem_segment {s : Nat} (h : s ∈ (kept.stops.take stop).drop start) :
    s ∈ kept.stops :=
  List.mem_of_mem_take (List.mem_of_mem_drop h)

variable (start stop) in
theorem others_append_segment_perm (hk : kept.Visits n) (hd : donor.Visits n) :
    ((donor.stops.filter fun s => !((kept.stops.take stop).drop start).contains s) ++
      (kept.stops.take stop).drop start).Perm donor.stops := by
  refine filter_append_perm hd.nodup ?_ fun s hs => ?_
  · exact hk.nodup.sublist ((List.drop_sublist _ _).trans (List.take_sublist _ _))
  · exact (hk.trans hd.symm).mem_iff.1 (mem_of_mem_segment hs)

/-- The donor's other stops fill exactly the places around the segment. -/
theorem length_others (hk : kept.Visits n) (hd : donor.Visits n) (hstart : start ≤ stop)
    (hstop : stop ≤ n) :
    (donor.stops.filter fun s => !((kept.stops.take stop).drop start).contains s).length =
      start + (n - stop) := by
  have hlength := (others_append_segment_perm start stop hk hd).length_eq
  have hkl : kept.stops.length = n := hk.length
  have hdl : donor.stops.length = n := hd.length
  rw [List.length_append, List.length_drop, List.length_take, hkl, hdl] at hlength
  omega

theorem keepSegment_eq (hk : kept.Visits n) (hd : donor.Visits n) (hstart : start ≤ stop)
    (hstop : stop ≤ n) :
    keepSegment kept donor start stop =
      let segment := (kept.stops.take stop).drop start
      let others := donor.stops.filter fun s => !segment.contains s
      .ok ⟨others.take start ++ segment ++ others.drop start⟩ := by
  have hlength := length_others hk hd hstart hstop
  have hkl : kept.stops.length = n := hk.length
  have hrest : ((donor.stops.filter fun s =>
      !((kept.stops.take stop).drop start).contains s).drop start).take (n - stop) =
      (donor.stops.filter fun s => !((kept.stops.take stop).drop start).contains s).drop start := by
    refine List.take_of_length_le ?_
    rw [List.length_drop, hlength]
    omega
  simp only [keepSegment, Route.length, hkl, hlength, hrest]
  rw [if_pos (by rw [List.length_drop, List.length_take, hkl]; omega)]

theorem keepSegment_visits (hk : kept.Visits n) (hd : donor.Visits n) (hstart : start ≤ stop)
    (hstop : stop ≤ n) : ∃ child, keepSegment kept donor start stop = .ok child ∧
      child.Visits n := by
  refine ⟨_, keepSegment_eq hk hd hstart hstop, hd.of_perm ?_⟩
  refine List.Perm.trans ?_ (others_append_segment_perm start stop hk hd)
  rw [List.append_assoc]
  refine (List.perm_append_comm.append_left _).trans ?_
  rw [← List.append_assoc, List.take_append_drop]

theorem orderAt_visits (hf : first.Visits n) (hs : second.Visits n) (hstart : start ≤ stop)
    (hstop : stop ≤ n) : ∃ a b, orderAt first second start stop = .ok (a, b) ∧
      a.Visits n ∧ b.Visits n := by
  obtain ⟨a, ha, hav⟩ := keepSegment_visits hf hs hstart hstop
  obtain ⟨b, hb, hbv⟩ := keepSegment_visits hs hf hstart hstop
  refine ⟨a, b, ?_, hav, hbv⟩
  have hfl := hf.length
  simp [orderAt, hfl, isPermutation_iff.2 hf, isPermutation_iff.2 hs, hstart, hstop, ha, hb]

theorem ensures_cuts (hn : 0 < n) : (cuts n).Ensures (fun c => c.1 < c.2 ∧ c.2 ≤ n) Never := by
  apply Ensures.bind' (ensures_position hn fun _ => trivial)
  intro a _
  apply Ensures.bind' (ensures_position (Nat.succ_pos n) fun _ => trivial)
  intro b _
  have ha := a.isLt
  have hb := b.isLt
  dsimp only
  split <;> rw [ensures_pure'] <;> split <;> dsimp only <;> omega

/-- **The children of two routes through all waypoints are such routes, too.** -/
theorem ensures_apply (c : Crossover) (hf : first.Visits n) (hs : second.Visits n) :
    (c.apply first second).Ensures (fun p => p.1.Visits n ∧ p.2.Visits n) Never := by
  cases c with
  | clone => exact ⟨hf, hs⟩
  | order =>
    have hfl := hf.length
    have hsl := hs.length
    show (randomOrder first second).Ensures _ _
    unfold randomOrder
    rw [if_neg (by omega)]
    split
    · exact ⟨hf, hs⟩
    · apply Ensures.bind' (ensures_cuts (by omega))
      intro cut hcut
      rw [hfl] at hcut
      obtain ⟨a, b, hab, ha, hb⟩ := orderAt_visits hf hs (Nat.le_of_lt hcut.1) hcut.2
      exact ensures_ofExcept (fun p hp => by rw [hab] at hp; cases hp; exact ⟨ha, hb⟩)
        fun fault hp => by rw [hab] at hp; cases hp

end

end RoadTrip.Crossover
