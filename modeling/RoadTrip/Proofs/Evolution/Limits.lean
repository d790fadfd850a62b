import RoadTrip.Proofs.Evolution.Elitism
import RoadTrip.Proofs.Evolution.Stopping

/-!
# Limits and the search

When a search stops does not influence what it does until then. Neither the initial generation nor
breeding reads a limit, so two searches that differ in their limits only go through the same
generations as long as both go on (`Course.prefix_of_length_le`). The one that goes on longer ends
with a route that is no worse, because no best member is worse than one before it, and with a higher
limit on the generations a search goes on at least as long (`Course.length_le_of_goesOn`).
-/

namespace RoadTrip

variable {α : Type} [Cost α]

/-- The record `h'` goes on where `h` ends, and its result is no worse. -/
structure History.ExtendsTo (h h' : History α) : Prop where
  generations : h.generations <+: h'.generations
  best_le : ∀ {o o' : Outcome α}, h.result = .ok o → h'.result = .ok o' →
    o'.best.fitness.le o.best.fitness = true

namespace Evolution

/-! ## The same search with other limits -/

def withLimits (e : Evolution α) (generationLimit : Nat) (fitnessLimit : Option α)
    (timeLimit : Option Nat) : Evolution α :=
  { e with config := { e.config with generationLimit, fitnessLimit, timeLimit } }

section

variable (e : Evolution α) (n : Nat) (c : Option α) (t : Option Nat)

theorem start_withLimits : (e.withLimits n c t).start = e.start := rfl

theorem fill_withLimits (couple : Draw (Route × Route)) (number : Nat) :
    ∀ (free : Nat) (next : Population α),
      (e.withLimits n c t).fill couple number free next = e.fill couple number free next
  | 0, _ => rfl
  | 1, _ => rfl
  | free + 2, next => by
    simp only [fill, fill_withLimits couple number free]
    rfl

theorem breed_withLimits (g : Generation α) : (e.withLimits n c t).breed g = e.breed g := by
  unfold breed offspring
  simp only [fill_withLimits]
  rfl

variable {e n}

/-- A search that has no reason to stop has none with a higher limit on the generations. -/
theorem termination?_withLimits {g : Generation α} {time : Nat}
    (hn : e.config.generationLimit ≤ n) (hstop : e.termination? g time = none) :
    (e.withLimits n e.config.fitnessLimit e.config.timeLimit).termination? g time = none := by
  obtain ⟨hreached, hnumber, htime⟩ := termination?_eq_none_iff.1 hstop
  exact termination?_eq_none_iff.2 ⟨hreached, Nat.lt_of_lt_of_le hnumber hn, htime⟩

end

/-! ## Two searches that breed alike -/

variable {σ : Type} [Source σ] {e e' : Evolution α} {clock clock' : Nat → Nat}
  {g : Generation α} {s : σ} {l l' : List (Generation α)} {r r' : Except Fault (Outcome α)}

/-- As long as both go on, they go through the same generations. -/
theorem Course.prefix_of_length_le (hbreed : ∀ g, e'.breed g = e.breed g)
    (h : Course e clock g s l r) (h' : Course e' clock' g s l' r') (hle : l.length ≤ l'.length) :
    l <+: l' := by
  induction h generalizing l' r' with
  | stopped _ | failed _ _ =>
    obtain ⟨rest, rfl⟩ := h'.exists_cons
    exact ⟨rest, rfl⟩
  | bred _ hnext hcourse ih =>
    obtain ⟨rest, rfl⟩ := hcourse.exists_cons
    cases h' with
    | stopped _ | failed _ _ => simp at hle
    | bred _ hnext' hcourse' =>
      rw [hbreed, hnext] at hnext'
      cases hnext'
      exact (List.prefix_cons_inj _).2 (ih hcourse' (Nat.le_of_succ_le_succ hle))

/-- The second goes on at least as long if it does wherever the first does. -/
theorem Course.length_le_of_goesOn (hbreed : ∀ g, e'.breed g = e.breed g)
    (hgoesOn : ∀ g : Generation α, e.termination? g (clock g.number) = none →
      e'.termination? g (clock' g.number) = none)
    (h : Course e clock g s l r) (h' : Course e' clock' g s l' r') : l.length ≤ l'.length := by
  induction h generalizing l' r' with
  | stopped _ | failed _ _ =>
    obtain ⟨rest, rfl⟩ := h'.exists_cons
    exact Nat.succ_le_succ (Nat.zero_le _)
  | bred hstop hnext _ ih =>
    cases h' with
    | stopped hstop' => rw [hgoesOn _ hstop] at hstop'; cases hstop'
    | failed _ hnext' => rw [hbreed, hnext] at hnext'; cases hnext'
    | bred _ hnext' hcourse' =>
      rw [hbreed, hnext] at hnext'
      cases hnext'
      exact Nat.succ_le_succ (ih hcourse')

variable [OrderedCost α]

theorem Course.best_le_of_prefix (h : Course e clock g s l r) (h' : Course e' clock' g s l' r')
    (hg : g.Sound e') (hinit : l <+: l') {o o' : Outcome α} (hr : r = .ok o)
    (hr' : r' = .ok o') : o'.best.fitness.le o.best.fitness = true := by
  obtain ⟨before, rfl, -⟩ := h'.exists_append hr'
  have hmem : o.last ∈ before ++ [o'.last] := hinit.subset (h.last_mem hr)
  rcases List.mem_append.1 hmem with hbefore | hlast
  · exact (List.pairwise_append.1 (h'.pairwise_noWorse hg)).2.2 _ hbefore _ List.mem_cons_self
  · unfold Outcome.best
    rw [List.mem_singleton.1 hlast]
    exact Fitness.le_refl _

/-- The search that stops first is extended by the other one. -/
theorem history_extendsTo (hstart : e'.start = e.start) (hbreed : ∀ g, e'.breed g = e.breed g)
    (hle : (e.history clock s).generations.length ≤ (e'.history clock' s).generations.length) :
    (e.history clock s).ExtendsTo (e'.history clock' s) := by
  rcases hg : e.start.run s with ⟨fault | g, t⟩
  · rw [history_of_error clock hg]
    exact ⟨List.nil_prefix, nofun⟩
  · have hcourse := course_history clock hg
    rw [← hstart] at hg
    have hcourse' := course_history clock' hg
    have hinit := hcourse.prefix_of_length_le hbreed hcourse' hle
    have hsound := sound_of_start (one_le_of_start hg) hg
    exact ⟨hinit, hcourse.best_le_of_prefix hcourse' hsound hinit⟩

omit [OrderedCost α] in
/-- A search with a higher limit on the generations goes on at least as long. -/
theorem length_history_withLimits {n : Nat} (hn : e.config.generationLimit ≤ n) :
    (e.history clock s).generations.length ≤
      ((e.withLimits n e.config.fitnessLimit e.config.timeLimit).history clock s).generations.length
    := by
  rcases hg : e.start.run s with ⟨fault | g, t⟩
  · rw [history_of_error clock hg]
    exact Nat.zero_le _
  · exact (course_history clock hg).length_le_of_goesOn (e.breed_withLimits _ _ _)
      (fun _ => termination?_withLimits hn) (course_history clock hg)

/-- **Limits do not influence a search.** Of two searches that differ in their limits the one that
stops first shows what the other one shows first, whatever the times at which they look at the
clock, and the other one ends no worse. With a higher limit on the generations it is the latter
that goes on. -/
theorem history_withLimits (e : Evolution α) (generationLimit : Nat) (fitnessLimit : Option α)
    (timeLimit : Option Nat) (clock clock' : Nat → Nat) (s : σ) :
    let h := e.history clock s
    let h' := (e.withLimits generationLimit fitnessLimit timeLimit).history clock' s
    (h.generations.length ≤ h'.generations.length → h.ExtendsTo h') ∧
    (h'.generations.length ≤ h.generations.length → h'.ExtendsTo h) ∧
    ∀ n, e.config.generationLimit ≤ n →
      h.ExtendsTo ((e.withLimits n e.config.fitnessLimit e.config.timeLimit).history clock s) := by
  intro h h'
  refine ⟨?_, ?_, fun n hn => ?_⟩
  · exact history_extendsTo (e.start_withLimits _ _ _) (e.breed_withLimits _ _ _)
  · exact history_extendsTo (e.start_withLimits _ _ _).symm
      fun g => (e.breed_withLimits _ _ _ g).symm
  · exact history_extendsTo (e.start_withLimits _ _ _) (e.breed_withLimits _ _ _)
      (length_history_withLimits hn)

/-- The search there and back, which may go on for twice as many generations. -/
theorem history_withLimits_thereAndBack :
    thereAndBack.config.generationLimit ≤ 2000 ∧
    (thereAndBack.history (fun _ => 0) (ChaCha.ofSeed 1)).ExtendsTo
      ((thereAndBack.withLimits 2000 none none).history (fun _ => 0) (ChaCha.ofSeed 1)) :=
  ⟨by decide, (history_withLimits thereAndBack 2000 none none (fun _ => 0) (fun _ => 0)
    (ChaCha.ofSeed 1)).2.2 2000 (by decide)⟩

end Evolution

end RoadTrip
