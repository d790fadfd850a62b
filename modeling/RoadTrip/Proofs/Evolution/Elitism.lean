import RoadTrip.Proofs.Evolution.Soundness

/-!
# Elitism

What a generation passes on to the next one (`Evolution.Passes`): its two best members stay, no
rank among the first two is taken by a worse member, and the best member keeps its place unless a
newborn one is strictly better. The last point needs a stable ranking in which the elites precede
the newborn members, so that on a tie the elder one stays in front.
-/

namespace RoadTrip

variable {α : Type} [Cost α]

/-- The best member of `h` is no worse than that of `g`. -/
def Generation.NoWorse (g h : Generation α) : Prop := h.best.fitness.le g.best.fitness = true

instance [OrderedCost α] :
    Trans (Generation.NoWorse (α := α)) (Generation.NoWorse (α := α)) Generation.NoWorse where
  trans hgh hhi := Fitness.le_trans hhi hgh

namespace Evolution

/-- What the generation `g` passes on to the next generation `h`. -/
structure Passes (e : Evolution α) (g h : Generation α) : Prop where
  number : h.number = g.number + 1
  /-- The elites stay, as different members that are unchanged and in the same order. -/
  kept : (g.members.take elites).Sublist h.members
  length_kept : (g.members.take elites).length = min elites e.config.populationSize
  rank_le : ∀ k < min elites e.config.populationSize, ∃ old new, g.members[k]? = some old ∧
    h.members[k]? = some new ∧ new.fitness.le old.fitness = true
  /-- The best member stays the same, or it is a newborn one that is strictly better. The first is
  the case exactly if no newborn member is strictly better. -/
  best : (h.best = g.best ∧ ∀ i ∈ h.members, i.generation = h.number →
      i.fitness.lt g.best.fitness = false) ∨
    h.best.generation = h.number ∧ h.best.fitness.lt g.best.fitness = true

variable [OrderedCost α] {e : Evolution α} {g h : Generation α}

theorem Bred.kept (hg : g.Sound e) (hb : e.Bred g h) :
    (g.members.take elites).Sublist h.members := by
  obtain ⟨bred, -, hmembers, -⟩ := hb
  rw [hmembers]
  exact Population.sublist_rank (hg.ranked.sublist (List.take_sublist _ _))
    (List.sublist_append_left _ _)

omit [OrderedCost α] in
theorem not_mem_of_generation (hg : g.Sound e) (hnumber : h.number = g.number + 1)
    {i : Individual α} (hi : i.generation = h.number) : i ∉ g.members := by
  intro hold
  have hle := hg.generation_le i hold
  omega

/-- If no newborn member is strictly better, the best member keeps its place. -/
theorem best_eq_of_not_lt {bred : Population α} (hg : g.members.Ranked)
    (hmembers : h.members = Population.rank (g.members.take elites ++ bred))
    (hbred : ∀ i ∈ bred, g.best.fitness.le i.fitness = true) : h.best = g.best := by
  have hrest : ∀ i ∈ g.others.take 1 ++ bred, g.best.fitness.le i.fitness = true := by
    intro i hi
    rcases List.mem_append.1 hi with hi | hi
    · exact g.best_le hg (List.mem_cons_of_mem _ (List.mem_of_mem_take hi))
    · exact hbred i hi
  have hhead : (Population.rank (g.members.take elites ++ bred)).head? = some g.best :=
    Population.head?_rank_cons hrest
  rw [← hmembers] at hhead
  exact Option.some.inj hhead

theorem Bred.best (hg : g.Sound e) (hb : e.Bred g h) :
    (h.best = g.best ∧ ∀ i ∈ h.members, i.generation = h.number →
      i.fitness.lt g.best.fitness = false) ∨
    h.best.generation = h.number ∧ h.best.fitness.lt g.best.fitness = true := by
  have hranked := hb.ranked
  have hnumber := hb.number
  obtain ⟨bred, -, hmembers, -, hbred⟩ := hb
  have hmem : ∀ i ∈ h.members, i ∈ g.members ∨ i ∈ bred := by
    intro i hi
    rw [hmembers, (Population.rank_perm _).mem_iff, List.mem_append] at hi
    exact hi.imp_left List.mem_of_mem_take
  by_cases hbetter : ∀ i ∈ bred, g.best.fitness.le i.fitness = true
  · refine .inl ⟨best_eq_of_not_lt hg.ranked hmembers hbetter, ?_⟩
    intro i hi hnew
    have hi : i ∈ bred := (hmem i hi).resolve_left (not_mem_of_generation hg hnumber hnew)
    cases hlt : i.fitness.lt g.best.fitness with
    | false => rfl
    | true =>
      rw [Fitness.lt_iff, hbetter i hi] at hlt
      cases hlt.2
  · obtain ⟨i, hi, hlt⟩ : ∃ i ∈ bred, g.best.fitness.le i.fitness = false := by
      simpa using hbetter
    have hih : i ∈ h.members := by
      rw [hmembers, (Population.rank_perm _).mem_iff]
      exact List.mem_append_right _ hi
    have hbest : h.best.fitness.lt g.best.fitness = true :=
      Cost.lt_of_le_of_lt (h.best_le hranked hih) (Fitness.lt_of_le_eq_false hlt)
    refine .inr ⟨?_, hbest⟩
    -- the best member is none of the elites, who are no better than the best of them
    rcases hmem h.best List.mem_cons_self with hold | hnew
    · have hle := g.best_le hg.ranked hold
      rw [Fitness.lt_iff, hle] at hbest
      cases hbest.2
    · exact (hbred _ hnew).generation

theorem Bred.passes (hg : g.Sound e) (hb : e.Bred g h) : e.Passes g h := by
  have hkept := hb.kept hg
  refine ⟨hb.number, hkept, length_take_elites hg, ?_, hb.best hg⟩
  intro k hk
  have hlength : k < (g.members.take elites).length := by
    rw [length_take_elites hg]
    exact hk
  have hold := List.getElem?_eq_getElem hlength
  obtain ⟨new, hnew, hle⟩ := hb.ranked.le_of_sublist hkept le_rfl hold
  rw [List.getElem?_take_of_lt (by omega)] at hold
  exact ⟨_, new, hold, hnew, hle⟩

omit [OrderedCost α] in
theorem Passes.noWorse (hp : e.Passes g h) : g.NoWorse h := by
  rcases hp.best with ⟨hbest, -⟩ | ⟨-, hlt⟩
  · rw [Generation.NoWorse, hbest]
    exact Fitness.le_refl _
  · exact (Fitness.lt_iff.1 hlt).1

section

variable {σ : Type} [Source σ] {clock : Nat → Nat} {s : σ} {l : List (Generation α)}
  {r : Except Fault (Outcome α)}

theorem Course.isChain_passes (hcourse : Course e clock g s l r) (hg : g.Sound e) :
    l.IsChain e.Passes := by
  apply hcourse.isChain hg
  intro g h s t hg hbreed
  have hb := bred_of_breed hg hbreed
  exact ⟨hb.sound hg, hb.passes hg⟩

/-- No best member is worse than one before it. -/
theorem Course.pairwise_noWorse (hcourse : Course e clock g s l r) (hg : g.Sound e) :
    l.Pairwise Generation.NoWorse :=
  ((hcourse.isChain_passes hg).imp fun _ _ hp => hp.noWorse).pairwise

end

/-- **Every generation of a search passes its best members on to the next one.** -/
theorem history_passes {σ : Type} [Source σ] (hsize : 1 ≤ e.config.populationSize)
    (clock : Nat → Nat) (s : σ) : (e.history clock s).generations.IsChain e.Passes := by
  rcases e.history_cases clock s with ⟨fault, t, -, hhistory⟩ | ⟨g, t, hstart, hcourse⟩
  · rw [hhistory]
    exact .nil
  · apply hcourse.isChain (sound_of_start hsize hstart)
    intro g h s t hg hbreed
    have hb := bred_of_breed hg hbreed
    exact ⟨hb.sound hg, hb.passes hg⟩

/-- The search there and back with the random numbers of a seed. -/
theorem history_passes_thereAndBack :
    1 ≤ thereAndBack.config.populationSize ∧
    (thereAndBack.history (fun _ => 0) (ChaCha.ofSeed 1)).generations.IsChain
      thereAndBack.Passes :=
  ⟨by decide, history_passes (by decide) (fun _ => 0) (ChaCha.ofSeed 1)⟩

end Evolution

end RoadTrip
