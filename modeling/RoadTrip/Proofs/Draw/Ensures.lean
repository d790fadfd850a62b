import RoadTrip.Random.Source

/-!
# What all branches of a decision have in common

`d.Ensures P Q` says of a tree of decisions that all its results satisfy `P` and all its faults
`Q`. It is proved along the code, by one rule for each way to build a tree, and carries over to
every source of random words (`Ensures.of_ok`, `Ensures.of_error`), which adds one fault of its
own: it may run dry.
-/

namespace RoadTrip.Draw

variable {β γ δ σ : Type}

/-! ## Laws of sequences -/

protected theorem bind_pure (d : Draw β) : d.bind .pure = d := by
  induction d with
  | pure b => rfl
  | fail fault => rfl
  | number width n next ih => exact congrArg _ (funext ih)
  | fraction next ih => exact congrArg _ (funext ih)

protected theorem bind_assoc (d : Draw β) (f : β → Draw γ) (g : γ → Draw δ) :
    (d.bind f).bind g = d.bind fun b => (f b).bind g := by
  induction d with
  | pure b => rfl
  | fail fault => rfl
  | number width n next ih => exact congrArg _ (funext ih)
  | fraction next ih => exact congrArg _ (funext ih)

instance : LawfulMonad Draw := .mk' Draw Draw.bind_pure (fun _ _ => rfl) Draw.bind_assoc

theorem times_go_eq (d : Draw β) (count : Nat) (drawn : List β) :
    times.go d count drawn = (times count d).bind fun l => .pure (drawn.reverse ++ l) := by
  induction count generalizing drawn with
  | zero => exact congrArg Draw.pure (List.append_nil drawn.reverse).symm
  | succ count ih =>
    have hfirst : times (count + 1) d = d.bind fun b => times.go d count [b] := rfl
    rw [hfirst, Draw.bind_assoc]
    refine congrArg d.bind (funext fun b => ?_)
    rw [ih, ih, Draw.bind_assoc]
    simp only [Draw.bind, List.reverse_cons, List.reverse_nil, List.nil_append, List.append_assoc]

/-- A decision is repeated by making it once and then the other times. -/
theorem times_add_one (d : Draw β) (count : Nat) :
    times (count + 1) d = d >>= fun b => times count d >>= fun l => Pure.pure (b :: l) :=
  congrArg d.bind (funext fun b => times_go_eq d count [b])

/-! ## Rules -/

/-- All results of a decision satisfy `P` and all its faults satisfy `Q`. -/
def Ensures (P : β → Prop) (Q : Fault → Prop) : Draw β → Prop
  | .pure b => P b
  | .fail fault => Q fault
  | .number _ _ next => ∀ i, (next i).Ensures P Q
  | .fraction next => ∀ x, (next x).Ensures P Q

def Never : Fault → Prop := fun _ => False

section Rules

variable {P P' : β → Prop} {Q Q' : Fault → Prop} {R : γ → Prop}

@[simp] theorem ensures_pure {b : β} : (Draw.pure b).Ensures P Q ↔ P b := .rfl

@[simp] theorem ensures_pure' {b : β} : (Pure.pure b : Draw β).Ensures P Q ↔ P b := .rfl

@[simp] theorem ensures_fail {fault : Fault} : (Draw.fail fault : Draw β).Ensures P Q ↔ Q fault :=
  .rfl

theorem Ensures.mono {d : Draw β} (h : d.Ensures P Q) (hP : ∀ b, P b → P' b)
    (hQ : ∀ fault, Q fault → Q' fault) : d.Ensures P' Q' := by
  induction d with
  | pure b => exact hP b h
  | fail fault => exact hQ fault h
  | number width n next ih => exact fun i => ih i (h i)
  | fraction next ih => exact fun x => ih x (h x)

theorem ensures_any (d : Draw β) : d.Ensures (fun _ => True) fun _ => True := by
  induction d with
  | pure b => trivial
  | fail fault => trivial
  | number width n next ih => exact ih
  | fraction next ih => exact ih

/-- A decision without faults ensures any condition on them. -/
theorem Ensures.anyFault {d : Draw β} (h : d.Ensures P Never) : d.Ensures P Q :=
  h.mono (fun _ hb => hb) fun _ hf => hf.elim

theorem Ensures.bind {d : Draw β} {f : β → Draw γ} (h : d.Ensures P Q)
    (hf : ∀ b, P b → (f b).Ensures R Q) : (d.bind f).Ensures R Q := by
  induction d with
  | pure b => exact hf b h
  | fail fault => exact h
  | number width n next ih => exact fun i => ih i (h i)
  | fraction next ih => exact fun x => ih x (h x)

/-- How a decision goes on after other results than its own does not matter. -/
theorem Ensures.bind_congr {d : Draw β} {f g : β → Draw γ} (h : d.Ensures P Q)
    (hfg : ∀ b, P b → f b = g b) : d.bind f = d.bind g := by
  induction d with
  | pure b => exact hfg b h
  | fail fault => rfl
  | number width n next ih => exact congrArg (Draw.number width n) (funext fun i => ih i (h i))
  | fraction next ih => exact congrArg Draw.fraction (funext fun x => ih x (h x))

theorem Ensures.bind' {d : Draw β} {f : β → Draw γ} (h : d.Ensures P Q)
    (hf : ∀ b, P b → (f b).Ensures R Q) : (d >>= f).Ensures R Q :=
  h.bind hf

theorem Ensures.map {d : Draw β} {f : β → γ} (h : d.Ensures P Q) (hf : ∀ b, P b → R (f b)) :
    (d >>= fun b => Pure.pure (f b)).Ensures R Q :=
  h.bind' hf

theorem ensures_ofExcept {r : Except Fault β} (hok : ∀ b, r = .ok b → P b)
    (herror : ∀ fault, r = .error fault → Q fault) : (ofExcept r).Ensures P Q := by
  cases r with
  | ok b => exact hok b rfl
  | error fault => exact herror fault rfl

theorem ensures_reserve {words count : Nat} {P : Unit → Prop} (hP : P ())
    (hQ : capacity words < count → Q .noRoom) : (reserve words count).Ensures P Q := by
  unfold reserve
  split
  · exact hP
  · exact hQ (by omega)

theorem ensures_index {width : Width} {n : Nat} {P : Fin n → Prop} (hn : 0 < n) (hP : ∀ i, P i) :
    (index width n).Ensures P Q := by
  unfold index
  rw [if_neg (by omega)]
  exact hP

theorem ensures_position {n : Nat} {P : Fin n → Prop} (hn : 0 < n) (hP : ∀ i, P i) :
    (position n).Ensures P Q :=
  ensures_index hn hP

theorem ensures_times_go {d : Draw β} (h : d.Ensures P Q) (count : Nat) {drawn : List β}
    (hdrawn : ∀ b ∈ drawn, P b) :
    (times.go d count drawn).Ensures
      (fun l => l.length = count + drawn.length ∧ ∀ b ∈ l, P b) Q := by
  induction count generalizing drawn with
  | zero =>
    refine ⟨?_, fun b hb => hdrawn b (List.mem_reverse.1 hb)⟩
    rw [List.length_reverse, Nat.zero_add]
  | succ count ih =>
    apply h.bind
    intro b hb
    have hmore : ∀ c ∈ b :: drawn, P c := by
      intro c hc
      rcases List.mem_cons.1 hc with rfl | hc
      · exact hb
      · exact hdrawn c hc
    refine (ih hmore).mono (fun l hl => ⟨?_, hl.2⟩) fun _ hf => hf
    rw [hl.1, List.length_cons]
    omega

/-- Repeating a decision gives as many results as asked for, and each is one of it. -/
theorem ensures_times {d : Draw β} (h : d.Ensures P Q) (count : Nat) :
    (times count d).Ensures (fun l => l.length = count ∧ ∀ b ∈ l, P b) Q :=
  ensures_times_go h count fun _ hb => absurd hb List.not_mem_nil

/-- One decision for each element of a list gives one result for each. -/
theorem ensures_mapM {f : β → Draw γ} {l : List β} (h : ∀ b ∈ l, (f b).Ensures R Q) :
    (l.mapM f).Ensures (fun r => r.length = l.length ∧ ∀ c ∈ r, R c) Q := by
  induction l with
  | nil => exact ⟨rfl, nofun⟩
  | cons b rest ih =>
    obtain ⟨hb, hrest⟩ := List.forall_mem_cons.1 h
    rw [List.mapM_cons]
    refine hb.bind' fun c hc => (ih hrest).map fun r hr => ?_
    exact ⟨congrArg (· + 1) hr.1, List.forall_mem_cons.2 ⟨hc, hr.2⟩⟩

end Rules

/-! ## Runs -/

section Runs

variable [Source σ] {P : β → Prop} {Q : Fault → Prop}

theorem run_ofExcept (r : Except Fault β) (s : σ) : (ofExcept r).run s = (r, s) := by
  cases r <;> rfl

theorem run_bind_eq_ok {d : Draw β} {f : β → Draw γ} {s u : σ} {c : γ} :
    (d >>= f).run s = (.ok c, u) ↔ ∃ b t, d.run s = (.ok b, t) ∧ (f b).run t = (.ok c, u) := by
  show (d.bind f).run s = _ ↔ _
  rw [run_bind]
  rcases hrun : d.run s with ⟨fault | b, t⟩
  · simp
  · constructor
    · exact fun h => ⟨b, t, rfl, h⟩
    · rintro ⟨_, _, ⟨⟩, h⟩
      exact h

theorem Ensures.of_run {d : Draw β} (h : d.Ensures P Q) (s : σ) :
    match (d.run s).1 with
    | .ok b => P b
    | .error fault => Q fault ∨ fault = .exhausted := by
  induction d generalizing s with
  | pure b => exact h
  | fail fault => exact .inl h
  | number width n next ih =>
    simp only [Draw.run]
    rcases Source.below width n s with ⟨_ | i, t⟩
    · exact .inr rfl
    · exact ih i (h i) t
  | fraction next ih =>
    simp only [Draw.run]
    rcases Source.fraction s with ⟨_ | x, t⟩
    · exact .inr rfl
    · exact ih x (h x) t

/-- What a source gets from a decision is one of its results. -/
theorem Ensures.of_ok {d : Draw β} (h : d.Ensures P Q) {s t : σ} {b : β}
    (hrun : d.run s = (.ok b, t)) : P b := by
  have := h.of_run s
  rwa [hrun] at this

/-- What stops a source is a fault of the decision, unless the source runs dry. -/
theorem Ensures.of_error {d : Draw β} (h : d.Ensures P Q) {s t : σ} {fault : Fault}
    (hrun : d.run s = (.error fault, t)) : Q fault ∨ fault = .exhausted := by
  have := h.of_run s
  rwa [hrun] at this

/-- A decision without faults has a result for every source that does not run dry. -/
theorem Ensures.exists_ok {d : Draw β} (h : d.Ensures P Never) (s : σ) :
    (∃ b, (d.run s).1 = .ok b ∧ P b) ∨ (d.run s).1 = .error .exhausted := by
  have hrun := h.of_run s
  cases hresult : (d.run s).1 with
  | ok b =>
    rw [hresult] at hrun
    exact .inl ⟨b, rfl, hrun⟩
  | error fault =>
    rw [hresult] at hrun
    exact .inr (congrArg _ (hrun.resolve_left id))

theorem Ensures.exists_run {d : Draw β} (h : d.Ensures P Never) (s : σ) :
    (∃ b t, d.run s = (.ok b, t) ∧ P b) ∨ (d.run s).1 = .error .exhausted := by
  rcases h.exists_ok s with ⟨b, hresult, hb⟩ | hdry
  · exact .inl ⟨b, (d.run s).2, Prod.ext hresult rfl, hb⟩
  · exact .inr hdry

end Runs

end RoadTrip.Draw
