import RoadTrip.Proofs.Draw.Ensures

/-!
# Outcomes of draws

`d.Gives outcomes b` says that the draws of a tree of decisions may come out as listed, each one in
its range, and that `b` is the result then. While `Ensures` speaks of all branches of a tree, this
speaks of a single one. Whether there is such a branch for a result (`MayGive`) is found out along
the code, and what a source gets from a decision is among these results (`mayGive_of_run`).
-/

namespace RoadTrip.Draw

variable {β γ σ : Type}

/-- The draws of a decision come out as listed, numbers as they are and fractions by their numbers,
and give a result. -/
inductive Gives : Draw β → List Nat → β → Prop where
  | pure (b : β) : Gives (.pure b) [] b
  | number {width : Width} {n : Nat} {next : Fin n → Draw β} {outcomes : List Nat} {b : β}
      (i : Fin n) (h : Gives (next i) outcomes b) :
      Gives (.number width n next) (i.val :: outcomes) b
  | fraction {next : Fraction → Draw β} {outcomes : List Nat} {b : β} (x : Fraction)
      (h : Gives (next x) outcomes b) : Gives (.fraction next) (x.val :: outcomes) b

/-- Some outcomes of its draws let a decision give this result. -/
def MayGive (d : Draw β) (b : β) : Prop := ∃ outcomes, d.Gives outcomes b

theorem Gives.bind {d : Draw β} {f : β → Draw γ} {outcomes more : List Nat} {b : β} {c : γ}
    (h : d.Gives outcomes b) (hf : (f b).Gives more c) :
    (d >>= f).Gives (outcomes ++ more) c := by
  induction h with
  | pure b => exact hf
  | number i _ ih => exact .number i (ih hf)
  | fraction x _ ih => exact .fraction x (ih hf)

/-- The outcomes of a sequence are those of its parts. -/
theorem Gives.exists_of_bind {d : Draw β} {f : β → Draw γ} {outcomes : List Nat} {c : γ}
    (h : (d >>= f).Gives outcomes c) :
    ∃ b first more, d.Gives first b ∧ (f b).Gives more c ∧ outcomes = first ++ more := by
  induction d generalizing outcomes with
  | pure b => exact ⟨b, [], outcomes, .pure b, h, rfl⟩
  | fail fault => cases h
  | number width n next ih =>
    cases h with
    | number i h =>
      obtain ⟨b, first, more, hfirst, hmore, rfl⟩ := ih i h
      exact ⟨b, i.val :: first, more, .number i hfirst, hmore, rfl⟩
  | fraction next ih =>
    cases h with
    | fraction x h =>
      obtain ⟨b, first, more, hfirst, hmore, rfl⟩ := ih x h
      exact ⟨b, x.val :: first, more, .fraction x hfirst, hmore, rfl⟩

@[simp] theorem mayGive_pure {b c : β} : (Pure.pure b : Draw β).MayGive c ↔ c = b := by
  constructor
  · rintro ⟨_, h⟩
    cases h
    rfl
  · rintro rfl
    exact ⟨[], .pure c⟩

@[simp] theorem mayGive_bind {d : Draw β} {f : β → Draw γ} {c : γ} :
    (d >>= f).MayGive c ↔ ∃ b, d.MayGive b ∧ (f b).MayGive c := by
  constructor
  · rintro ⟨_, h⟩
    obtain ⟨b, first, more, hfirst, hmore, -⟩ := h.exists_of_bind
    exact ⟨b, ⟨first, hfirst⟩, more, hmore⟩
  · rintro ⟨b, ⟨first, hfirst⟩, more, hmore⟩
    exact ⟨first ++ more, hfirst.bind hmore⟩

/-- A number may come out as any one in its range. -/
@[simp] theorem mayGive_index {width : Width} {n : Nat} (i : Fin n) :
    (index width n).MayGive i := by
  unfold index
  rw [if_neg (Nat.ne_of_gt (Fin.pos i))]
  exact ⟨[i.val], .number i (.pure i)⟩

theorem mayGive_times {d : Draw β} {l : List β} (h : ∀ b ∈ l, d.MayGive b) :
    (times l.length d).MayGive l := by
  induction l with
  | nil => exact ⟨[], .pure []⟩
  | cons b rest ih =>
    obtain ⟨hb, hrest⟩ := List.forall_mem_cons.1 h
    rw [List.length_cons, times_add_one]
    simp only [mayGive_bind, mayGive_pure]
    exact ⟨b, hb, rest, ih hrest, rfl⟩

theorem Ensures.of_mayGive {P : β → Prop} {Q : Fault → Prop} {d : Draw β} {b : β}
    (h : d.Ensures P Q) (hb : d.MayGive b) : P b := by
  obtain ⟨outcomes, hb⟩ := hb
  induction hb with
  | pure b => exact h
  | number i _ ih => exact ih (h i)
  | fraction x _ ih => exact ih (h x)

/-- What a source gets from a decision is what some outcomes of the draws give. -/
theorem mayGive_of_run [Source σ] {d : Draw β} {s t : σ} {b : β} (h : d.run s = (.ok b, t)) :
    d.MayGive b := by
  induction d generalizing s with
  | pure b' =>
    cases h
    exact ⟨[], .pure b⟩
  | fail fault => cases h
  | number width n next ih =>
    simp only [Draw.run] at h
    rcases hdrawn : Source.below width n s with ⟨_ | i, u⟩
    · rw [hdrawn] at h
      cases h
    · rw [hdrawn] at h
      obtain ⟨outcomes, hgives⟩ := ih i h
      exact ⟨i.val :: outcomes, .number i hgives⟩
  | fraction next ih =>
    simp only [Draw.run] at h
    rcases hdrawn : Source.fraction s with ⟨_ | x, u⟩
    · rw [hdrawn] at h
      cases h
    · rw [hdrawn] at h
      obtain ⟨outcomes, hgives⟩ := ih x h
      exact ⟨x.val :: outcomes, .fraction x hgives⟩

end RoadTrip.Draw
