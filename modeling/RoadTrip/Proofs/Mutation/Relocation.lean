import RoadTrip.Proofs.Draw.Outcomes
import RoadTrip.Proofs.Mutation
import RoadTrip.Random.Script

/-!
# Runs of stops put elsewhere

What the shuffling of a route does to its stops (`Relocates`): a run of them is cut out and put back
between two others, or before or behind all of them. A run has at least two stops, unless the end of
the route cuts it short to the last stop alone. All of these results may come about, and no others
(`mayGive_moveStops_iff`).
-/

namespace RoadTrip.Mutation

open Draw

/-- A run of at most `limit` stops is put elsewhere, and the other stops keep their order. A run of
one stop is the last one of all. -/
inductive Relocates (limit : Nat) : (stops moved : List Nat) → Prop where
  | mk {before run behind front back : List Nat} (others : front ++ back = before ++ behind)
      (run_ne_nil : run ≠ []) (length_le : run.length ≤ min limit (before ++ run ++ behind).length)
      (single : run.length = 1 → behind = []) :
      Relocates limit (before ++ run ++ behind) (front ++ run ++ back)

variable {limit : Nat} {stops moved before behind front back : List Nat}

theorem Relocates.perm (h : Relocates limit stops moved) : moved.Perm stops := by
  cases h with
  | mk others _ _ _ => exact append_run_perm _ others

theorem Relocates.pair (hlimit : 2 ≤ limit) (a b : Nat) (others : front ++ back = before ++ behind) :
    Relocates limit (before ++ [a, b] ++ behind) (front ++ [a, b] ++ back) := by
  refine .mk others (List.cons_ne_nil _ _) ?_ nofun
  rw [List.length_append, List.length_append, List.length_cons, List.length_singleton]
  omega

/-- The last stop may go anywhere on its own. -/
theorem Relocates.last (hlimit : 2 ≤ limit) (a : Nat) (others : front ++ back = before) :
    Relocates limit (before ++ [a]) (front ++ [a] ++ back) := by
  rw [← List.append_nil (before ++ [a])]
  refine .mk (others.trans (List.append_nil before).symm) (List.cons_ne_nil _ _) ?_ fun _ => rfl
  rw [List.length_append, List.length_append, List.length_singleton]
  omega

/-! ## One move -/

/-- A run is told by where it starts and ends, and its new place by how many others come first. -/
theorem moveRun_append (run : List Nat) (others : front ++ back = before ++ behind) :
    moveRun (before ++ run ++ behind) before.length (before.length + run.length) front.length =
      front ++ run ++ back := by
  have hlength : (before ++ run).length = before.length + run.length := List.length_append
  have htake : (before ++ run ++ behind).take before.length = before := by
    rw [List.append_assoc, List.take_left]
  have hrun : (before ++ run ++ behind).take (before.length + run.length) = before ++ run := by
    rw [← hlength, List.take_left]
  have hdrop : (before ++ run ++ behind).drop (before.length + run.length) = behind := by
    rw [← hlength, List.drop_left]
  simp only [moveRun, htake, hrun, hdrop, ← others, List.take_left, List.drop_left]

theorem relocates_moveRun {start stop target : Nat} (hstart : start < stop)
    (hstop : stop ≤ stops.length) (hlimit : stop - start ≤ min limit stops.length)
    (hsingle : stop - start = 1 → stop = stops.length) :
    Relocates limit stops (moveRun stops start stop target) := by
  have hothers := List.take_append_drop target (stops.take start ++ stops.drop stop)
  have hlength : ((stops.take stop).drop start).length = stop - start := by
    rw [List.length_drop, List.length_take, Nat.min_eq_left hstop]
  have hne : (stops.take stop).drop start ≠ [] := by
    intro hnil
    rw [hnil, List.length_nil] at hlength
    omega
  have hbehind : ((stops.take stop).drop start).length = 1 → stops.drop stop = [] := by
    intro hone
    rw [hlength] at hone
    rw [hsingle hone, List.drop_length]
  have hmoved := @Relocates.mk limit _ _ _ _ _ hothers hne
  rw [take_append_run_append_drop (Nat.le_of_lt hstart), hlength] at hmoved
  exact hmoved hlimit (hlength ▸ hbehind)

/-! ## Random moves -/

theorem mayGive_of_relocates (hlimit : 2 ≤ limit) (hstops : 2 ≤ stops.length)
    (h : Relocates limit stops moved) : (moveStops limit stops).MayGive moved := by
  cases h with
  | @mk before run behind front back others run_ne_nil length_le single =>
    have hpos : 0 < run.length := List.length_pos_iff.2 run_ne_nil
    have hothers : front.length + back.length = before.length + behind.length := by
      rw [← List.length_append, others, List.length_append]
    have hbehind : run.length = 1 → behind.length = 0 := by
      intro hone
      rw [single hone, List.length_nil]
    have hmoved := moveRun_append run others
    have hlength : (before ++ run ++ behind).length =
        before.length + run.length + behind.length := by
      rw [List.length_append, List.length_append]
    generalize before ++ run ++ behind = stops at *
    -- a run of one stop is what the end of the route leaves of one of two
    have hstop : min (before.length + (run.length - 2 + 2)) stops.length =
        before.length + run.length := by
      by_cases hone : run.length = 1
      · have := hbehind hone
        omega
      · omega
    simp only [moveStops, mayGive_bind, mayGive_pure]
    refine ⟨⟨run.length - 2, by omega⟩, mayGive_index _, ⟨before.length, by omega⟩,
      mayGive_index _, ⟨front.length, ?_⟩, mayGive_index _, ?_⟩
    · simp only [hstop]
      omega
    · simp only [hstop, hmoved]

/-- **The results of a random move** are the routes with a run of stops put elsewhere. -/
theorem mayGive_moveStops_iff (hlimit : 2 ≤ limit) (hstops : 2 ≤ stops.length) :
    (moveStops limit stops).MayGive moved ↔ Relocates limit stops moved := by
  constructor
  · intro h
    simp only [moveStops, mayGive_bind, mayGive_pure] at h
    obtain ⟨more, -, start, -, target, -, rfl⟩ := h
    have hmore := more.isLt
    have hstart := start.isLt
    apply relocates_moveRun <;> omega
  · exact mayGive_of_relocates hlimit hstops

/-! ## Shuffled routes -/

theorem apply_of_short {m : Mutation} {r : Route} (h : r.length < 2) : m.apply r = .pure r := by
  unfold apply
  rw [if_pos h]

theorem mayGive_shuffle_iff (hlimit : 2 ≤ limit) {r s : Route} (h : 2 ≤ r.length) :
    ((Mutation.shuffle limit hlimit).apply r).MayGive s ↔ Relocates limit r.stops s.stops := by
  rw [← mayGive_moveStops_iff hlimit h]
  simp only [apply, if_neg (Nat.not_lt.2 h), mayGive_bind, mayGive_pure]
  constructor
  · rintro ⟨stops, hstops, rfl⟩
    exact hstops
  · intro hstops
    exact ⟨s.stops, hstops, rfl⟩

/-- **Shuffling puts one run of stops elsewhere.** It does so with whatever source, unless that runs
dry, and any run that is long enough may be put anywhere. A route with fewer than two stops is left
alone, without a draw. -/
theorem shuffle_relocates (hlimit : 2 ≤ limit) (r : Route) :
    (r.length < 2 → (Mutation.shuffle limit hlimit).apply r = .pure r) ∧
    (2 ≤ r.length →
      (∀ {σ : Type} [Source σ] (g : σ),
        (∃ s t, ((Mutation.shuffle limit hlimit).apply r).run g = (.ok s, t) ∧
          s.stops.Perm r.stops ∧ Relocates limit r.stops s.stops) ∨
        (((Mutation.shuffle limit hlimit).apply r).run g).1 = .error .exhausted) ∧
      ∀ s, ((Mutation.shuffle limit hlimit).apply r).MayGive s ↔
        Relocates limit r.stops s.stops) := by
  refine ⟨apply_of_short, fun htwo => ⟨fun g => ?_, fun s => mayGive_shuffle_iff hlimit htwo⟩⟩
  have hsafe := ((Mutation.shuffle limit hlimit).ensures_apply r).mono (fun _ h => h)
    fun _ hfault => hfault.2
  rcases hsafe.exists_run g with ⟨s, t, hrun, -⟩ | hdry
  · have hmoved := (mayGive_shuffle_iff hlimit htwo).1 (mayGive_of_run hrun)
    exact .inl ⟨s, t, hrun, hmoved.perm, hmoved⟩
  · exact .inr hdry

example : moveRun [0, 1, 2, 3, 4] 1 3 2 = [0, 3, 1, 2, 4] := rfl

/-- A route that goes through one of its stops twice, and one with a single stop. -/
theorem shuffle_relocates_detour :
    let m := Mutation.shuffle 3 (by decide)
    let r := Route.mk [4, 0, 4, 1]
    let g := Script.mk [0, 13835058055282163712, 0] 0
    2 ≤ 3 ∧ 1 < 2 ∧ m.apply ⟨[7]⟩ = .pure ⟨[7]⟩ ∧ 2 ≤ r.length ∧
    ((∃ s t, (m.apply r).run g = (.ok s, t) ∧ s.stops.Perm r.stops ∧
        Relocates 3 r.stops s.stops) ∨ ((m.apply r).run g).1 = .error .exhausted) ∧
    ((m.apply r).MayGive ⟨[1, 4, 0, 4]⟩ ↔ Relocates 3 r.stops [1, 4, 0, 4]) := by
  intro m r g
  have hlimit : 2 ≤ 3 := by decide
  have htwo : 2 ≤ r.length := by decide
  obtain ⟨hruns, hresults⟩ := (shuffle_relocates hlimit r).2 htwo
  exact ⟨hlimit, by decide, (shuffle_relocates hlimit ⟨[7]⟩).1 (by decide), htwo, hruns g,
    hresults ⟨[1, 4, 0, 4]⟩⟩

end RoadTrip.Mutation
