import RoadTrip.Proofs.Cost.Binary64
import RoadTrip.Proofs.Evolution.Breeding
import RoadTrip.Proofs.Evolution.Course
import RoadTrip.Proofs.Trip.Evaluation
import RoadTrip.Random.ChaCha

/-!
# Sound generations

What holds of every generation of an evolution (`Generation.Sound`): how many are in it, that each
has a route through all waypoints and the fitness of that route, that they are ranked, and which
generation produced them. The initial generation is sound and so is every one bred from a sound
one, hence all generations of a search are (`history_sound`).
-/

namespace RoadTrip

variable {α : Type} [Cost α]

/-- What the members of a generation have to be like. -/
structure Generation.Sound (e : Evolution α) (g : Generation α) : Prop where
  length : g.members.length = e.config.populationSize
  visits : ∀ i ∈ g.members, i.route.Visits e.trip.matrix.size
  evaluate : ∀ i ∈ g.members, e.trip.evaluate i.route = .ok i.fitness
  ranked : g.members.Ranked
  /-- Nobody comes from a later generation, hence all of the initial one from there. -/
  generation_le : ∀ i ∈ g.members, i.generation ≤ g.number
  /-- Later on only the elites come from an earlier generation. -/
  elites : 0 < g.number →
    g.members.countP (·.generation < g.number) = min Evolution.elites e.config.populationSize

namespace Evolution

open Draw

variable {e : Evolution α} {g h : Generation α}

theorem Initial.sound [OrderedCost α] (hg : e.Initial g) : g.Sound e := by
  obtain ⟨founders, hnumber, hmembers, hlength, hfounders⟩ := hg
  have hnewborn : ∀ i ∈ g.members, e.Newborn 0 i := by
    intro i hi
    rw [hmembers, founders.rank_perm.mem_iff] at hi
    exact hfounders i hi
  constructor
  case length => rw [hmembers, founders.rank_perm.length_eq, hlength]
  case visits =>
    intro i hi
    exact (hnewborn i hi).visits
  case evaluate =>
    intro i hi
    exact (hnewborn i hi).evaluate
  case ranked =>
    rw [hmembers]
    exact founders.pairwise_rank
  case generation_le =>
    intro i hi
    rw [(hnewborn i hi).generation]
    exact Nat.zero_le _
  case elites =>
    intro hpos
    omega

theorem length_take_elites (hg : g.Sound e) :
    (g.members.take elites).length = min elites e.config.populationSize := by
  rw [List.length_take, hg.length]

/-- The next generation consists of the elites and of newborn members. -/
theorem Bred.exists_perm (hb : e.Bred g h) : ∃ bred : Population α,
    h.members.Perm (g.members.take elites ++ bred) ∧
    bred.length = e.config.populationSize - (g.members.take elites).length ∧
    ∀ i ∈ bred, e.Newborn h.number i := by
  obtain ⟨bred, -, hmembers, hlength, hbred⟩ := hb
  rw [hmembers]
  exact ⟨bred, Population.rank_perm _, hlength, hbred⟩

theorem Bred.number (hb : e.Bred g h) : h.number = g.number + 1 := by
  obtain ⟨_, hnumber, -⟩ := hb
  exact hnumber

theorem Bred.ranked [OrderedCost α] (hb : e.Bred g h) : h.members.Ranked := by
  obtain ⟨_, -, hmembers, -⟩ := hb
  rw [hmembers]
  exact Population.pairwise_rank _

theorem Bred.mem_or_newborn (hb : e.Bred g h) {i : Individual α} (hi : i ∈ h.members) :
    i ∈ g.members ∨ e.Newborn h.number i := by
  obtain ⟨bred, hperm, -, hbred⟩ := hb.exists_perm
  rcases List.mem_append.1 (hperm.mem_iff.1 hi) with hi | hi
  · exact .inl (List.mem_of_mem_take hi)
  · exact .inr (hbred i hi)

/-- Exactly the elites come from an earlier generation. -/
theorem Bred.countP_generation_lt (hg : g.Sound e) (hb : e.Bred g h) :
    h.members.countP (·.generation < h.number) = min elites e.config.populationSize := by
  obtain ⟨bred, hperm, -, hbred⟩ := hb.exists_perm
  have hnumber := hb.number
  have hold : (g.members.take elites).countP (·.generation < h.number) =
      (g.members.take elites).length := by
    rw [List.countP_eq_length]
    intro i hi
    have hle := hg.generation_le i (List.mem_of_mem_take hi)
    exact decide_eq_true (by omega)
  have hnew : bred.countP (·.generation < h.number) = 0 := by
    rw [List.countP_eq_zero]
    intro i hi
    simp [(hbred i hi).generation]
  rw [hperm.countP_eq, List.countP_append, hold, hnew, Nat.add_zero, length_take_elites hg]

/-- **Breeding keeps a generation sound.** -/
theorem Bred.sound [OrderedCost α] (hg : g.Sound e) (hb : e.Bred g h) : h.Sound e := by
  constructor
  case length =>
    obtain ⟨bred, hperm, hlength, -⟩ := hb.exists_perm
    rw [hperm.length_eq, List.length_append, hlength, length_take_elites hg]
    omega
  case visits =>
    intro i hi
    rcases hb.mem_or_newborn hi with hold | hnew
    · exact hg.visits i hold
    · exact hnew.visits
  case evaluate =>
    intro i hi
    rcases hb.mem_or_newborn hi with hold | hnew
    · exact hg.evaluate i hold
    · exact hnew.evaluate
  case ranked => exact hb.ranked
  case generation_le =>
    intro i hi
    have hnumber := hb.number
    rcases hb.mem_or_newborn hi with hold | hnew
    · have hle := hg.generation_le i hold
      omega
    · exact hnew.generation.le
  case elites =>
    intro _
    exact hb.countP_generation_lt hg

section

variable {σ : Type} [Source σ]

/-- There is an initial generation only if somebody is to be in it. -/
theorem one_le_of_start {s t : σ} (hstart : e.start.run s = (.ok g, t)) :
    1 ≤ e.config.populationSize := by
  have hrandom : (Population.random e.trip e.config.populationSize).Ensures
      (fun l => l.length = e.config.populationSize) fun _ => True :=
    Ensures.bind' (ensures_any _) fun _ _ =>
      (ensures_times (ensures_any _) _).mono (fun _ h => h.1) fun _ => id
  have hsize : e.start.Ensures (fun _ => 1 ≤ e.config.populationSize) fun _ => True := by
    refine Ensures.bind' hrandom fun l hl => ensures_ofExcept (fun g hg => ?_) fun _ _ => trivial
    have hlength := l.rank_perm.length_eq
    rw [← Generation.members_of_ofMembers hg, hl] at hlength
    exact hlength ▸ Nat.succ_pos _
  exact hsize.of_ok hstart

theorem sound_of_start [OrderedCost α] (hsize : 1 ≤ e.config.populationSize) {s t : σ}
    (hstart : e.start.run s = (.ok g, t)) : g.Sound e :=
  ((ensures_start hsize (fun _ => trivial) faultsIn_any.evaluate).of_ok hstart).sound

theorem bred_of_breed (hg : g.Sound e) {s t : σ} (hbreed : (e.breed g).run s = (.ok h, t)) :
    e.Bred g h :=
  (ensures_breed faultsIn_any hg.visits fun _ => trivial).of_ok hbreed

theorem Course.sound [OrderedCost α] {clock : Nat → Nat} {s : σ} {l : List (Generation α)}
    {r : Except Fault (Outcome α)} (hcourse : Course e clock g s l r) (hg : g.Sound e) :
    ∀ h ∈ l, h.Sound e :=
  hcourse.forall_mem hg fun hg hbreed => (bred_of_breed hg hbreed).sound hg

/-- No part of an evolution gives a route that leaves waypoints out. -/
theorem faultsIn_ne_invalidOffspring : e.FaultsIn (· ≠ .invalidOffspring) where
  select hp := e.config.selection.ensures_selectPair_any hp (by decide) (by decide)
  mutate _ := by decide
  evaluate r fault hr hfault := by
    rw [Trip.evaluate_fault hr hfault]
    decide

/-- **Every generation of a search is sound**, and so is the one that it returns. No operator gives
a route that leaves waypoints out. -/
theorem history_sound [OrderedCost α] (hsize : 1 ≤ e.config.populationSize) (clock : Nat → Nat)
    (s : σ) :
    (∀ g ∈ (e.history clock s).generations, g.Sound e) ∧
    (∀ o, (e.history clock s).result = .ok o → o.last.Sound e) ∧
    (e.history clock s).result ≠ .error .invalidOffspring := by
  rcases e.history_cases clock s with ⟨fault, t, hstart, hhistory⟩ | ⟨g, t, hstart, hcourse⟩
  · rw [hhistory]
    refine ⟨fun g hg => absurd hg List.not_mem_nil, nofun, ?_⟩
    have hne := (ensures_start (Q := (· ≠ .invalidOffspring)) hsize (fun _ => nofun)
      faultsIn_ne_invalidOffspring.evaluate).of_error hstart
    rintro ⟨⟩
    simp at hne
  · have hsound := hcourse.sound (sound_of_start hsize hstart)
    refine ⟨hsound, fun o ho => hsound _ (hcourse.last_mem ho), fun hfault => ?_⟩
    obtain ⟨h, hh, -, u, v, hbreed⟩ := hcourse.exists_fault hfault
    have hne := (ensures_breed faultsIn_ne_invalidOffspring (hsound h hh).visits nofun).of_error
      hbreed
    simp at hne

end

/-- There and back between two waypoints, planned with the default parameters. -/
def thereAndBack : Evolution Float where
  config := .default
  trip := ⟨⟨2, #v["A", "B"], #v[#v[0.0, 1.0], #v[1.0, 0.0]], by decide⟩, .roundTrip⟩

/-- The search there and back with the random numbers of a seed. -/
theorem history_sound_thereAndBack :
    1 ≤ thereAndBack.config.populationSize ∧
    (∀ g ∈ (thereAndBack.history (fun _ => 0) (ChaCha.ofSeed 1)).generations,
      g.Sound thereAndBack) ∧
    (∀ o, (thereAndBack.history (fun _ => 0) (ChaCha.ofSeed 1)).result = .ok o →
      o.last.Sound thereAndBack) ∧
    (thereAndBack.history (fun _ => 0) (ChaCha.ofSeed 1)).result ≠ .error .invalidOffspring :=
  ⟨by decide, history_sound (by decide) (fun _ => 0) (ChaCha.ofSeed 1)⟩

end Evolution

end RoadTrip
