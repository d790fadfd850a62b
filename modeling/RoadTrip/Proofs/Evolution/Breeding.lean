import RoadTrip.Evolution
import RoadTrip.Proofs.Crossover
import RoadTrip.Proofs.Mutation
import RoadTrip.Proofs.Ranking
import RoadTrip.Proofs.Selection

/-!
# Breeding

What the steps of an evolution can do. The initial generation consists of newborn members
(`Initial`), and a later one of the best members of the one before and of newborn members
(`Bred`), in both cases ranked. The faults of a step are those of its parts (`FaultsIn`), so each
step is gone through once, whatever is to be known about its faults.
-/

namespace RoadTrip.Evolution

open Draw

variable {α : Type} [Cost α]

/-- A member that has joined generation `number` with a route through all waypoints. -/
structure Newborn (e : Evolution α) (number : Nat) (i : Individual α) : Prop where
  visits : i.route.Visits e.trip.matrix.size
  evaluate : e.trip.evaluate i.route = .ok i.fitness
  generation : i.generation = number

def Initial (e : Evolution α) (g : Generation α) : Prop :=
  ∃ founders : Population α, g.number = 0 ∧ g.members = founders.rank ∧
    founders.length = e.config.populationSize ∧ ∀ i ∈ founders, e.Newborn 0 i

/-- The generation `h` is one that can follow `g`. -/
def Bred (e : Evolution α) (g h : Generation α) : Prop :=
  ∃ bred : Population α, h.number = g.number + 1 ∧
    h.members = Population.rank (g.members.take elites ++ bred) ∧
    bred.length = e.config.populationSize - (g.members.take elites).length ∧
    ∀ i ∈ bred, e.Newborn h.number i

/-- Routes through all waypoints only meet faults that satisfy `Q` when they are evaluated. -/
def EvaluatesIn (e : Evolution α) (Q : Fault → Prop) : Prop :=
  ∀ ⦃r : Route⦄ ⦃fault : Fault⦄, r.Visits e.trip.matrix.size →
    e.trip.evaluate r = .error fault → Q fault

/-- The parts of an evolution only meet faults that satisfy `Q`. -/
structure FaultsIn (e : Evolution α) (Q : Fault → Prop) : Prop where
  select : ∀ {p : Population α}, p ≠ [] →
    (e.config.selection.selectPair p).Ensures (fun _ => True) Q
  mutate : e.config.mutation.Overflows → Q .overflow
  evaluate : e.EvaluatesIn Q

variable {e : Evolution α} {Q : Fault → Prop}

theorem faultsIn_any : e.FaultsIn fun _ => True where
  select _ := ensures_any _
  mutate _ := trivial
  evaluate _ _ _ _ := trivial

/-! ## Members -/

theorem ensures_individual (hevaluate : e.EvaluatesIn Q) {r : Route}
    (hr : r.Visits e.trip.matrix.size) (number : Nat) :
    (ofExcept (e.trip.individual number r)).Ensures (e.Newborn number) Q := by
  unfold Trip.individual
  cases heval : e.trip.evaluate r with
  | ok fitness => exact ⟨hr, heval, rfl⟩
  | error fault => exact hevaluate hr heval

section

variable (hQ : e.FaultsIn Q)

include hQ

theorem ensures_grow {child : Route} (hchild : child.Visits e.trip.matrix.size) (number : Nat) :
    (e.grow number child).Ensures (e.Newborn number) Q := by
  have hmutate := (e.config.mutation.ensures_apply child).mono (fun _ => id)
    fun _ hf => hf.1 ▸ hQ.mutate hf.2
  apply Ensures.bind' hmutate
  intro route hroute
  have hvisits : route.Visits e.trip.matrix.size := hchild.of_perm hroute
  rw [if_pos (Route.isPermutation_iff.2 hvisits)]
  exact ensures_individual hQ.evaluate hvisits number

theorem ensures_children {p : Population α} (hp : p ≠ [])
    (hvisits : ∀ i ∈ p, i.route.Visits e.trip.matrix.size) :
    (e.children p).Ensures
      (fun c => c.1.Visits e.trip.matrix.size ∧ c.2.Visits e.trip.matrix.size) Q := by
  apply Ensures.bind' (hQ.select hp)
  intro pair _
  exact (e.config.crossover.ensures_apply (hvisits _ (List.get_mem p pair.1))
    (hvisits _ (List.get_mem p pair.2))).anyFault

theorem ensures_fill {couple : Draw (Route × Route)} {number : Nat}
    (hcouple : couple.Ensures
      (fun c => c.1.Visits e.trip.matrix.size ∧ c.2.Visits e.trip.matrix.size) Q) :
    ∀ (free : Nat) (next : Population α), (e.fill couple number free next).Ensures
      (fun l => ∃ bred, l = next ++ bred ∧ bred.length = free ∧ ∀ i ∈ bred, e.Newborn number i) Q
  | 0, next => ⟨[], (List.append_nil next).symm, rfl, fun _ hi => absurd hi List.not_mem_nil⟩
  | 1, next => by
    apply Ensures.bind' hcouple
    intro pair hpair
    apply (ensures_grow hQ hpair.1 number).map
    intro member hmember
    exact ⟨[member], rfl, rfl, fun i hi => List.mem_singleton.1 hi ▸ hmember⟩
  | free + 2, next => by
    apply Ensures.bind' hcouple
    intro pair hpair
    apply Ensures.bind' (ensures_grow hQ hpair.1 number)
    intro member hmember
    apply Ensures.bind' (ensures_grow hQ hpair.2 number)
    intro sibling hsibling
    refine (ensures_fill hcouple free (next ++ [member, sibling])).mono ?_ fun _ => id
    rintro l ⟨bred, rfl, hlength, hbred⟩
    refine ⟨member :: sibling :: bred, List.append_assoc _ _ _, by rw [← hlength]; rfl, ?_⟩
    simp only [List.forall_mem_cons]
    exact ⟨hmember, hsibling, hbred⟩

/-! ## Generations -/

theorem ensures_offspring {g : Generation α}
    (hg : ∀ i ∈ g.members, i.route.Visits e.trip.matrix.size) :
    (e.offspring g).Ensures (fun l => ∃ bred, l = g.members.take elites ++ bred ∧
      bred.length = e.config.populationSize - (g.members.take elites).length ∧
      ∀ i ∈ bred, e.Newborn (g.number + 1) i) Q :=
  ensures_fill hQ (ensures_children hQ (List.cons_ne_nil _ _) hg) _ _

/-- **One step of an evolution**: what it can lead to and what can stop it. -/
theorem ensures_breed {g : Generation α}
    (hg : ∀ i ∈ g.members, i.route.Visits e.trip.matrix.size)
    (hnumber : Text.countBound ≤ g.number + 1 → Q .overflow) :
    (e.breed g).Ensures (e.Bred g) Q := by
  unfold breed
  split
  · refine Ensures.bind' (ensures_offspring hQ hg) ?_
    rintro l ⟨bred, rfl, hlength, hbred⟩
    refine ensures_ofExcept (fun h hh => ?_) fun fault hfault => ?_
    · have hh' := Generation.ofMembers_number hh
      exact ⟨bred, hh', Generation.members_of_ofMembers hh, hlength, hh' ▸ hbred⟩
    · exact absurd hfault (Generation.ofMembers_ne_error (List.cons_ne_nil _ _))
  · exact hnumber (by omega)

end

section

variable {σ : Type} [Source σ] {g : Generation α} {s t : σ}

/-- Breeding draws the members of the next generation and nothing else. -/
theorem run_breed {r : Except Fault (Population α)} (hnumber : g.number + 1 < Text.countBound)
    (h : (e.offspring g).run s = (r, t)) :
    (e.breed g).run s = (r >>= Generation.ofMembers (g.number + 1), t) := by
  unfold breed
  rw [if_pos hnumber]
  show ((e.offspring g).bind _).run s = _
  rw [run_bind, h]
  cases r with
  | ok members => exact run_ofExcept _ _
  | error fault => rfl

/-- Breeding returns a generation if drawing its members does and its number is a count. -/
theorem exists_breed {p : Population α} (hnumber : g.number + 1 < Text.countBound) (hp : p ≠ [])
    (h : (e.offspring g).run s = (.ok p, t)) :
    ∃ next, (e.breed g).run s = (.ok next, t) ∧ next.number = g.number + 1 ∧
      next.members = p.rank := by
  have hrun : (e.breed g).run s = (Generation.ofMembers (g.number + 1) p, t) := run_breed hnumber h
  cases hmembers : Generation.ofMembers (g.number + 1) p with
  | ok next =>
    rw [hmembers] at hrun
    exact ⟨next, hrun, Generation.ofMembers_number hmembers,
      Generation.members_of_ofMembers hmembers⟩
  | error fault => exact absurd hmembers (Generation.ofMembers_ne_error hp)

/-- Founders that are ranked already make the initial generation. -/
theorem start_of_ranked {i : Individual α} {rest : Population α}
    (hrun : (Population.random e.trip e.config.populationSize).run s = (.ok (i :: rest), t))
    (hranked : Population.Ranked (i :: rest)) : e.start.run s = (.ok ⟨0, i, rest⟩, t) := by
  show ((Population.random e.trip e.config.populationSize).bind _).run s = _
  rw [run_bind, hrun]
  dsimp only
  unfold Generation.ofMembers
  rw [hranked.rank_eq]
  rfl

end

/-- A random route leads through all waypoints, if there is room for it. -/
theorem ensures_random {count : Nat} (hroom : capacity stopWords < count → Q .noRoom) :
    (Route.random count).Ensures (·.Visits count) Q :=
  Ensures.bind' (ensures_reserve (P := fun _ => True) trivial hroom)
    fun _ _ => (ensures_shuffled _).map fun _ hstops => hstops

/-- The first step of an evolution, if somebody is to be in it. -/
theorem ensures_start (hsize : 1 ≤ e.config.populationSize)
    (hroom : capacity individualWords < e.config.populationSize ∨
      capacity stopWords < e.trip.matrix.size → Q .noRoom) (hevaluate : e.EvaluatesIn Q) :
    e.start.Ensures e.Initial Q := by
  have hfounder : (Route.random e.trip.matrix.size >>= fun route =>
      ofExcept (e.trip.individual 0 route)).Ensures (e.Newborn 0) Q :=
    Ensures.bind' (ensures_random fun h => hroom (.inr h)) fun _ hvisits =>
      ensures_individual hevaluate hvisits 0
  have hrandom : (Population.random e.trip e.config.populationSize).Ensures
      (fun l => l.length = e.config.populationSize ∧ ∀ i ∈ l, e.Newborn 0 i) Q :=
    Ensures.bind' (ensures_reserve (P := fun _ => True) trivial fun h => hroom (.inl h))
      fun _ _ => ensures_times hfounder _
  apply Ensures.bind' hrandom
  intro founders hfounders
  refine ensures_ofExcept (fun g hg => ?_) fun fault hfault => ?_
  · exact ⟨founders, Generation.ofMembers_number hg, Generation.members_of_ofMembers hg, hfounders⟩
  · have hne : founders ≠ [] := List.ne_nil_of_length_pos (by omega)
    exact absurd hfault (Generation.ofMembers_ne_error hne)

end RoadTrip.Evolution
