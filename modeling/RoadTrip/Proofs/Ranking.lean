import RoadTrip.Generation
import RoadTrip.Proofs.Cost.Order

/-!
# Ranked populations

Ranking rearranges a population into one whose members never get better (`pairwise_rank`), and it
is stable: members that are in order already stay in order (`sublist_rank`), and the first of the
best comes first (`head?_rank_cons`). `Population.Ranking` says so of two populations, whatever
procedure has ranked them. A generation is such a population with somebody in it.
-/

namespace RoadTrip

variable {α : Type} [Cost α]

namespace Individual

variable [OrderedCost α]

theorem le_trans (a b c : Individual α) (hab : a.fitness.le b.fitness = true)
    (hbc : b.fitness.le c.fitness = true) : a.fitness.le c.fitness = true :=
  Fitness.le_trans hab hbc

theorem le_total (a b : Individual α) :
    (a.fitness.le b.fitness || b.fitness.le a.fitness) = true :=
  Bool.or_eq_true _ _ ▸ Fitness.le_total a.fitness b.fitness

end Individual

/-- From best to worst. -/
def Population.Ranked (p : Population α) : Prop :=
  p.Pairwise fun a b => a.fitness.le b.fitness = true

namespace Population

theorem rank_perm (p : Population α) : p.rank.Perm p := List.mergeSort_perm p _

theorem Ranked.rank_eq {p : Population α} (hp : p.Ranked) : p.rank = p :=
  List.mergeSort_of_pairwise hp

section

variable [OrderedCost α]

theorem pairwise_rank (p : Population α) : p.rank.Ranked :=
  List.pairwise_mergeSort Individual.le_trans Individual.le_total p

/-- Members that are in order keep their order. -/
theorem sublist_rank {p q : Population α} (hq : q.Ranked) (h : q.Sublist p) : q.Sublist p.rank :=
  List.sublist_mergeSort Individual.le_trans Individual.le_total hq h

end

/-- The members of one population stand in the other from best to worst, and any of them that were
in order, such as members with the same fitness, stand in that order still. -/
structure Ranking (p q : Population α) : Prop where
  perm : q.Perm p
  ranked : q.Ranked
  stable : ∀ chosen : Population α, chosen.Ranked → chosen.Sublist p → chosen.Sublist q

section

variable [OrderedCost α]

theorem ranking_rank (p : Population α) : Ranking p p.rank :=
  ⟨p.rank_perm, pairwise_rank p, fun _ => sublist_rank⟩

/-- A member that nobody is better than comes before all that follow it. -/
theorem head?_rank_cons {i : Individual α} {p : Population α}
    (h : ∀ j ∈ p, i.fitness.le j.fitness = true) : (rank (i :: p)).head? = some i := by
  obtain ⟨before, after, hrank, hp, hbefore⟩ :=
    List.mergeSort_cons Individual.le_trans Individual.le_total i p
  rw [rank, hrank]
  cases before with
  | nil => rfl
  | cons j rest =>
    have hj : j ∈ p := by
      rw [← List.mem_mergeSort, hp]
      exact List.mem_cons_self
    have hji := hbefore j List.mem_cons_self
    rw [h j hj] at hji
    cases hji

end

/-- The members of a ranked population up to a rank are no worse than the one of that rank, or of
a later one, among some of its members. -/
theorem Ranked.le_of_sublist {p q : Population α} (hp : p.Ranked) (h : q.Sublist p) {m k : Nat}
    (hmk : m ≤ k) {i : Individual α} (hi : q[k]? = some i) :
    ∃ j, p[m]? = some j ∧ j.fitness.le i.fitness = true := by
  induction h generalizing m k with
  | slnil => cases hi
  | @cons q p j hqp ih =>
    obtain ⟨hj, hp⟩ := List.pairwise_cons.1 hp
    cases m with
    | zero => exact ⟨j, rfl, hj i (hqp.subset (List.mem_of_getElem? hi))⟩
    | succ m => exact ih hp (by omega) hi
  | @cons_cons q p j hqp ih =>
    obtain ⟨hj, hp⟩ := List.pairwise_cons.1 hp
    cases k with
    | zero =>
      obtain rfl := Nat.le_zero.1 hmk
      obtain rfl := Option.some.inj hi
      exact ⟨j, rfl, Fitness.le_refl _⟩
    | succ k =>
      have hi : q[k]? = some i := hi
      cases m with
      | zero => exact ⟨j, rfl, hj i (hqp.subset (List.mem_of_getElem? hi))⟩
      | succ m => exact ih hp (by omega) hi

end Population

namespace Generation

variable {number : Nat} {p : Population α} {g : Generation α}

theorem members_of_ofMembers (h : ofMembers number p = .ok g) : g.members = p.rank := by
  unfold ofMembers at h
  split at h
  · rename_i hrank
    cases h
    exact hrank.symm
  · cases h

theorem best_le (hg : g.members.Ranked) {i : Individual α} (hi : i ∈ g.members) :
    g.best.fitness.le i.fitness = true := by
  rcases List.mem_cons.1 hi with rfl | hi
  · exact Fitness.le_refl _
  · exact (List.pairwise_cons.1 hg).1 i hi

theorem ofMembers_ne_error {fault : Fault} (hp : p ≠ []) : ofMembers number p ≠ .error fault := by
  intro h
  unfold ofMembers at h
  split at h
  · cases h
  · rename_i hrank
    have hperm := p.rank_perm
    rw [hrank] at hperm
    exact hp (List.nil_perm.1 hperm)

end Generation

end RoadTrip
