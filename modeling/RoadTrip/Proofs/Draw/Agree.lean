import Mathlib.Data.List.Forall2
import RoadTrip.Proofs.Draw.Ensures

/-!
# Decisions that draw alike

`d.Agree R d'` says of two trees of decisions that they are of one shape, with the same faults, and
that results in the same place are related by `R`. A source then answers both with the same words,
so it gets related results from them and is in the same state afterwards (`Agree.run`). Like
`Ensures` it is proved along the code, by one rule for each way to build a tree.
-/

namespace RoadTrip.Draw

variable {β γ β' γ' σ : Type}

/-! ## Rules -/

/-- Two decisions with the same draws, the same faults and related results. -/
inductive Agree (R : β → γ → Prop) : Draw β → Draw γ → Prop where
  | pure {b : β} {c : γ} (h : R b c) : Agree R (.pure b) (.pure c)
  | fail (fault : Fault) : Agree R (.fail fault) (.fail fault)
  | number {width : Width} {n : Nat} {next : Fin n → Draw β} {next' : Fin n → Draw γ}
      (h : ∀ i, Agree R (next i) (next' i)) : Agree R (.number width n next) (.number width n next')
  | fraction {next : Fraction → Draw β} {next' : Fraction → Draw γ}
      (h : ∀ x, Agree R (next x) (next' x)) : Agree R (.fraction next) (.fraction next')

section Rules

variable {R : β → γ → Prop} {S : β' → γ' → Prop} {d : Draw β} {d' : Draw γ}

theorem Agree.mono {R' : β → γ → Prop} (h : d.Agree R d') (hR : ∀ b c, R b c → R' b c) :
    d.Agree R' d' := by
  induction h with
  | pure h => exact .pure (hR _ _ h)
  | fail fault => exact .fail fault
  | number _ ih => exact .number ih
  | fraction _ ih => exact .fraction ih

theorem Agree.symm (h : d.Agree R d') : d'.Agree (fun c b => R b c) d := by
  induction h with
  | pure h => exact .pure h
  | fail fault => exact .fail fault
  | number _ ih => exact .number ih
  | fraction _ ih => exact .fraction ih

/-- A decision agrees with itself, on results of which all that it ensures holds. -/
theorem Ensures.agree {P : β → Prop} {Q : Fault → Prop} {d : Draw β} (h : d.Ensures P Q) :
    d.Agree (fun b c => b = c ∧ P b) d := by
  induction d with
  | pure b => exact .pure ⟨rfl, h⟩
  | fail fault => exact .fail fault
  | number width n next ih => exact .number fun i => ih i (h i)
  | fraction next ih => exact .fraction fun x => ih x (h x)

theorem Agree.bind {f : β → Draw β'} {f' : γ → Draw γ'} (h : d.Agree R d')
    (hf : ∀ b c, R b c → (f b).Agree S (f' c)) : (d >>= f).Agree S (d' >>= f') := by
  induction h with
  | pure h => exact hf _ _ h
  | fail fault => exact .fail fault
  | number _ ih => exact .number ih
  | fraction _ ih => exact .fraction ih

theorem Agree.map {f : β → β'} {f' : γ → γ'} (h : d.Agree R d')
    (hf : ∀ b c, R b c → S (f b) (f' c)) :
    (d >>= fun b => Pure.pure (f b)).Agree S (d' >>= fun c => Pure.pure (f' c)) :=
  h.bind fun _ _ hbc => .pure (hf _ _ hbc)

theorem agree_index {width : Width} {n n' : Nat} (h : n = n') :
    (index width n).Agree (fun i j => i.val = j.val) (index width n') := by
  subst h
  unfold index
  split
  · exact .fail _
  · exact .number fun _ => .pure rfl

theorem agree_times_go (h : d.Agree R d') (count : Nat) {drawn : List β} {drawn' : List γ}
    (hdrawn : List.Forall₂ R drawn drawn') :
    (times.go d count drawn).Agree (List.Forall₂ R) (times.go d' count drawn') := by
  induction count generalizing drawn drawn' with
  | zero => exact .pure (List.rel_reverse hdrawn)
  | succ count ih => exact h.bind fun _ _ hbc => ih (.cons hbc hdrawn)

/-- Decisions that agree do so when they are repeated, result by result. -/
theorem agree_times (h : d.Agree R d') (count : Nat) :
    (times count d).Agree (List.Forall₂ R) (times count d') :=
  agree_times_go h count .nil

theorem agree_mapM {f : β → Draw β'} {f' : β → Draw γ'} {l : List β}
    (h : ∀ b ∈ l, (f b).Agree S (f' b)) : (l.mapM f).Agree (List.Forall₂ S) (l.mapM f') := by
  induction l with
  | nil => exact .pure .nil
  | cons b rest ih =>
    obtain ⟨hb, hrest⟩ := List.forall_mem_cons.1 h
    rw [List.mapM_cons, List.mapM_cons]
    exact hb.bind fun _ _ hfirst => (ih hrest).map fun _ _ hothers => .cons hfirst hothers

end Rules

/-! ## Runs -/

section

variable [Source σ] {R : β → γ → Prop} {d : Draw β} {d' : Draw γ}

/-- A source stops at the same fault, or gets related results, and is in the same state then. -/
theorem Agree.run (h : d.Agree R d') (s : σ) :
    (∃ fault t, d.run s = (.error fault, t) ∧ d'.run s = (.error fault, t)) ∨
    ∃ b c t, d.run s = (.ok b, t) ∧ d'.run s = (.ok c, t) ∧ R b c := by
  induction h generalizing s with
  | pure h => exact .inr ⟨_, _, s, rfl, rfl, h⟩
  | fail fault => exact .inl ⟨fault, s, rfl, rfl⟩
  | @number width n next next' _ ih =>
    simp only [Draw.run]
    rcases Source.below width n s with ⟨_ | i, t⟩
    · exact .inl ⟨_, t, rfl, rfl⟩
    · exact ih i t
  | @fraction next next' _ ih =>
    simp only [Draw.run]
    rcases Source.fraction s with ⟨_ | x, t⟩
    · exact .inl ⟨_, t, rfl, rfl⟩
    · exact ih x t

theorem Agree.of_ok (h : d.Agree R d') {s t : σ} {b : β} (hrun : d.run s = (.ok b, t)) :
    ∃ c, d'.run s = (.ok c, t) ∧ R b c := by
  rcases h.run s with ⟨fault, u, hd, -⟩ | ⟨b', c, u, hd, hd', hbc⟩
  · rw [hrun] at hd
    cases hd
  · rw [hrun] at hd
    cases hd
    exact ⟨c, hd', hbc⟩

theorem Agree.of_error (h : d.Agree R d') {s t : σ} {fault : Fault}
    (hrun : d.run s = (.error fault, t)) : d'.run s = (.error fault, t) := by
  rcases h.run s with ⟨fault', u, hd, hd'⟩ | ⟨b, c, u, hd, -, -⟩
  · rw [hrun] at hd
    cases hd
    exact hd'
  · rw [hrun] at hd
    cases hd

end

end RoadTrip.Draw
