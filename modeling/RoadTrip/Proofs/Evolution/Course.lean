import Mathlib.Data.List.Chain
import RoadTrip.Evolution
import RoadTrip.Proofs.Draw.Ensures

/-!
# The course of a run

`history` is a whole search as its observer sees it: the generations that are shown to it, in this
order, and the result. `Course` tells the same step by step, with the draws behind each generation
(`course_history`), so what holds of every generation follows by one induction
(`Course.forall_mem`), and so does what relates successive ones (`Course.isChain`). A search that is
watched in another way goes through the same history (`TurnsAs.run_history`). What it has drawn up
to a generation, and in which state that leaves its source, does not depend on when it stops
(`stage`, `run_stage_history`).
-/

namespace RoadTrip

variable {α : Type} [Cost α]

/-- What a search shows, and how it ends. -/
structure History (α : Type) [Cost α] where
  generations : List (Generation α)
  result : Except Fault (Outcome α)

namespace Evolution

open Draw

variable {σ : Type} [Source σ]

/-- Keep a generation in the record. -/
def record (g : Generation α) : StateM (List (Generation α)) Unit := modify (· ++ [g])

/-- Tell the time by the number of generations bred so far. -/
def tell (clock : Nat → Nat) : StateM (List (Generation α)) Nat :=
  return clock ((← get).length - 1)

/-- A search from the start. The clock tells the time at which each generation is there. -/
def history (e : Evolution α) (clock : Nat → Nat) (s : σ) : History α :=
  match e.start.run s with
  | (.error fault, _) => ⟨[], .error fault⟩
  | (.ok g, t) =>
    let ((result, _), generations) := (e.run record (tell clock) g t).run []
    ⟨generations, result⟩

/-- `Course e clock g s l r` says that a run from `g` on, with `s` to draw from, goes through the
generations `l` and ends with `r`. -/
inductive Course (e : Evolution α) (clock : Nat → Nat) :
    Generation α → σ → List (Generation α) → Except Fault (Outcome α) → Prop where
  | stopped {g : Generation α} {s : σ} {reason : Termination}
      (hstop : e.termination? g (clock g.number) = some reason) :
      Course e clock g s [g] (.ok ⟨g, reason⟩)
  | failed {g : Generation α} {s t : σ} {fault : Fault}
      (hstop : e.termination? g (clock g.number) = none)
      (hbreed : (e.breed g).run s = (.error fault, t)) :
      Course e clock g s [g] (.error fault)
  | bred {g next : Generation α} {s t : σ} {l : List (Generation α)}
      {r : Except Fault (Outcome α)}
      (hstop : e.termination? g (clock g.number) = none)
      (hbreed : (e.breed g).run s = (.ok next, t))
      (hcourse : Course e clock next t l r) :
      Course e clock g s (g :: l) r

variable {e : Evolution α} {clock : Nat → Nat}

theorem run_eq {m : Type → Type} [Monad m] (observe : Generation α → m Unit) (elapsed : m Nat)
    (g : Generation α) (s : σ) : e.run observe elapsed g s = (do
      observe g
      let time ← elapsed
      match e.termination? g time with
      | some reason => pure (.ok ⟨g, reason⟩, s)
      | none =>
        match (e.breed g).run s with
        | (.ok next, t) => e.run observe elapsed next t
        | (.error fault, t) => pure (.error fault, t)) := by
  rw [run]
  congr 1
  funext _
  congr 1
  funext time
  split
  · rename_i hstop; simp only [hstop]
  · rename_i hstop
    simp only [hstop]
    split
    · rename_i hbreed; simp only [hbreed]
    · rename_i hbreed; simp only [hbreed]

section

variable {m : Type → Type} [Monad m] {τ : Type} {observe : Generation α → m Unit}
  {elapsed : m Nat}
  {eval : m (Except Fault (Outcome α) × σ) → τ → (Except Fault (Outcome α) × σ) × τ}
  {turn : τ → Generation α → τ} {At : Nat → τ → Prop}

/-- A turn of a run, that is showing a generation and telling the time, is evaluated as a change of
state. `At n` are the states in which the clock is to tell the time of generation `n` next. -/
structure TurnsAs (observe : Generation α → m Unit)
    (elapsed : m Nat) (clock : Nat → Nat)
    (eval : m (Except Fault (Outcome α) × σ) → τ → (Except Fault (Outcome α) × σ) × τ)
    (turn : τ → Generation α → τ) (At : Nat → τ → Prop) : Prop where
  eval_pure : ∀ r x, eval (pure r) x = (r, x)
  eval_turn : ∀ {g : Generation α} {x : τ} (f : Nat → m (Except Fault (Outcome α) × σ)),
    At g.number x →
      eval (observe g >>= fun _ => elapsed >>= f) x = eval (f (clock g.number)) (turn x g)
  at_turn : ∀ {n : Nat} {x : τ} (g : Generation α), At n x → At (n + 1) (turn x g)

/-- A run follows its course in every monad in which its turns can be evaluated. -/
theorem TurnsAs.run_follows (hturns : TurnsAs observe elapsed clock eval turn At)
    (e : Evolution α) (g : Generation α) (s : σ) {x : τ} (hx : At g.number x) : ∃ l r t,
      eval (e.run observe elapsed g s) x = ((r, t), l.foldl turn x) ∧ Course e clock g s l r := by
  -- every generation that is bred is one nearer to the limit
  induction hleft : e.config.generationLimit - g.number using Nat.strongRecOn
    generalizing g s x with
  | _ left ih =>
  rw [run_eq, hturns.eval_turn _ hx]
  cases hstop : e.termination? g (clock g.number) with
  | some reason => exact ⟨[g], _, s, hturns.eval_pure _ _, .stopped hstop⟩
  | none =>
    rcases hbreed : (e.breed g).run s with ⟨fault | next, t⟩
    · exact ⟨[g], _, t, hturns.eval_pure _ _, .failed hstop hbreed⟩
    · have hnumber := e.breed_number hbreed
      have hlimit := e.number_lt_of_termination?_eq_none hstop
      have hat : At next.number (turn x g) := hnumber ▸ hturns.at_turn g hx
      obtain ⟨l, r, u, hrun, hcourse⟩ := ih _ (by omega) next t hat rfl
      exact ⟨g :: l, r, u, hrun, .bred hstop hbreed hcourse⟩

end

omit [Source σ] in
theorem turnsAs_record (clock : Nat → Nat) :
    TurnsAs (σ := σ) record (tell (α := α) clock) clock StateT.run (fun seen g => seen ++ [g])
      fun n seen => seen.length = n where
  eval_pure _ _ := rfl
  eval_turn {g seen} f hseen := by
    have hnumber : (seen ++ [g]).length - 1 = g.number := by
      rw [List.length_append, List.length_singleton, Nat.add_sub_cancel, hseen]
    rw [← hnumber]
    rfl
  at_turn g hseen := by rw [List.length_append, hseen, List.length_singleton]

/-- A run that is recorded follows its course. -/
theorem run_record (e : Evolution α) (clock : Nat → Nat) (g : Generation α) (s : σ)
    {seen : List (Generation α)} (hseen : seen.length = g.number) : ∃ l r t,
      (e.run record (tell clock) g s).run seen = ((r, t), seen ++ l) ∧ Course e clock g s l r := by
  obtain ⟨l, r, t, hrun, hcourse⟩ := (turnsAs_record clock).run_follows e g s hseen
  have hfold : l.foldl (fun seen g => seen ++ [g]) seen = seen ++ l := by
    rw [List.foldl_append_eq_append, ← List.flatMap_def, List.flatMap_singleton']
  exact ⟨l, r, t, hfold ▸ hrun, hcourse⟩

theorem start_number {g : Generation α} {s t : σ} (h : e.start.run s = (.ok g, t)) :
    g.number = 0 := by
  have hstart : e.start.Ensures (·.number = 0) fun _ => True :=
    Ensures.bind' (ensures_any _) fun _ _ =>
      ensures_ofExcept (fun _ => Generation.ofMembers_number) fun _ _ => trivial
  exact hstart.of_ok h

/-- **A search follows a course**, once it has an initial generation. -/
theorem course_history (clock : Nat → Nat) {g : Generation α} {s t : σ}
    (hstart : e.start.run s = (.ok g, t)) :
    Course e clock g t (e.history clock s).generations (e.history clock s).result := by
  have hseen : ([] : List (Generation α)).length = g.number := (start_number hstart).symm
  obtain ⟨l, r, u, hrun, hcourse⟩ := run_record e clock g t hseen
  unfold history
  rw [hstart]
  dsimp only
  rw [hrun]
  exact hcourse

theorem history_of_error (clock : Nat → Nat) {fault : Fault} {s t : σ}
    (hstart : e.start.run s = (.error fault, t)) : e.history clock s = ⟨[], .error fault⟩ := by
  unfold history
  rw [hstart]

theorem history_cases (e : Evolution α) (clock : Nat → Nat) (s : σ) :
    (∃ fault t, e.start.run s = (.error fault, t) ∧ e.history clock s = ⟨[], .error fault⟩) ∨
    ∃ g t, e.start.run s = (.ok g, t) ∧
      Course e clock g t (e.history clock s).generations (e.history clock s).result := by
  rcases hstart : e.start.run s with ⟨fault | g, t⟩
  · exact .inl ⟨fault, t, rfl, history_of_error clock hstart⟩
  · exact .inr ⟨g, t, rfl, course_history clock hstart⟩

namespace Course

variable {g : Generation α} {s : σ} {l : List (Generation α)} {r : Except Fault (Outcome α)}

/-- There is only one course of a run. -/
theorem unique {l' : List (Generation α)} {r' : Except Fault (Outcome α)}
    (h : Course e clock g s l r) (h' : Course e clock g s l' r') : l = l' ∧ r = r' := by
  induction h generalizing l' r' with
  | stopped hstop =>
    cases h' with
    | stopped hstop' =>
      rw [hstop] at hstop'
      cases hstop'
      exact ⟨rfl, rfl⟩
    | failed hstop' _ | bred hstop' _ _ => rw [hstop] at hstop'; cases hstop'
  | failed hstop hbreed =>
    cases h' with
    | stopped hstop' => rw [hstop] at hstop'; cases hstop'
    | failed _ hbreed' =>
      rw [hbreed] at hbreed'
      cases hbreed'
      exact ⟨rfl, rfl⟩
    | bred _ hbreed' _ => rw [hbreed] at hbreed'; cases hbreed'
  | bred hstop hbreed _ ih =>
    cases h' with
    | stopped hstop' => rw [hstop] at hstop'; cases hstop'
    | failed _ hbreed' => rw [hbreed] at hbreed'; cases hbreed'
    | bred _ hbreed' hcourse' =>
      rw [hbreed] at hbreed'
      cases hbreed'
      obtain ⟨rfl, rfl⟩ := ih hcourse'
      exact ⟨rfl, rfl⟩

theorem exists_cons (h : Course e clock g s l r) : ∃ rest, l = g :: rest := by
  cases h with
  | stopped _ => exact ⟨[], rfl⟩
  | failed _ _ => exact ⟨[], rfl⟩
  | bred _ _ _ => exact ⟨_, rfl⟩

/-- What breeding preserves holds of every generation. -/
theorem forall_mem {P : Generation α → Prop} (h : Course e clock g s l r) (hg : P g)
    (hbreed : ∀ {g next : Generation α} {s t : σ}, P g → (e.breed g).run s = (.ok next, t) →
      P next) : ∀ g ∈ l, P g := by
  induction h with
  | stopped _ => simpa using hg
  | failed _ _ => simpa using hg
  | bred _ hnext _ ih => exact List.forall_mem_cons.2 ⟨hg, ih (hbreed hg hnext)⟩

/-- The result is that of the last generation. -/
theorem last_mem {o : Outcome α} (h : Course e clock g s l r) (hr : r = .ok o) :
    o.last ∈ l := by
  induction h with
  | stopped _ => cases hr; exact List.mem_cons_self
  | failed _ _ => cases hr
  | bred _ _ _ ih => exact List.mem_cons_of_mem _ (ih hr)

/-- A run that ends well does so at the first generation with a reason to stop. -/
theorem exists_append {o : Outcome α} (h : Course e clock g s l r) (hr : r = .ok o) :
    ∃ before, l = before ++ [o.last] ∧
      e.termination? o.last (clock o.last.number) = some o.termination ∧
      ∀ h ∈ before, e.termination? h (clock h.number) = none := by
  induction h with
  | stopped hstop => cases hr; exact ⟨[], rfl, hstop, nofun⟩
  | failed _ _ => cases hr
  | bred hstop _ _ ih =>
    obtain ⟨before, rfl, hlast, hbefore⟩ := ih hr
    exact ⟨_ :: before, rfl, hlast, List.forall_mem_cons.2 ⟨hstop, hbefore⟩⟩

/-- The generations are numbered one after the other. -/
theorem map_number (h : Course e clock g s l r) :
    l.map (·.number) = List.range' g.number l.length := by
  induction h with
  | stopped _ => rfl
  | failed _ _ => rfl
  | bred _ hbreed _ ih => rw [List.map_cons, ih, e.breed_number hbreed]; rfl

/-- A run that fails does so while it breeds from one of its generations. -/
theorem exists_fault {fault : Fault} (h : Course e clock g s l r) (hr : r = .error fault) :
    ∃ g ∈ l, e.termination? g (clock g.number) = none ∧
      ∃ s t : σ, (e.breed g).run s = (.error fault, t) := by
  induction h with
  | stopped _ => cases hr
  | failed hstop hbreed => cases hr; exact ⟨_, List.mem_cons_self, hstop, _, _, hbreed⟩
  | bred _ _ _ ih =>
    obtain ⟨g, hg, hfault⟩ := ih hr
    exact ⟨g, List.mem_cons_of_mem _ hg, hfault⟩

theorem termination?_eq_none {fault : Fault} (h : Course e clock g s l (.error fault)) :
    e.termination? g (clock g.number) = none := by
  cases h with
  | failed hstop _ => exact hstop
  | bred hstop _ _ => exact hstop

/-- What relates a generation to the one that is bred from it relates all successive ones. -/
theorem isChain {P : Generation α → Prop} {R : Generation α → Generation α → Prop}
    (h : Course e clock g s l r) (hg : P g)
    (hbreed : ∀ {g next : Generation α} {s t : σ}, P g → (e.breed g).run s = (.ok next, t) →
      P next ∧ R g next) : l.IsChain R := by
  induction h with
  | stopped _ => exact .singleton _
  | failed _ _ => exact .singleton _
  | bred _ hnext hcourse ih =>
    obtain ⟨hP, hR⟩ := hbreed hg hnext
    obtain ⟨rest, rfl⟩ := hcourse.exists_cons
    exact .cons_cons hR (ih hP)

end Course

/-! ## Stage by stage -/

/-- The generation with a number, drawn from the start on and without a reason to stop. -/
def stage (e : Evolution α) : Nat → Draw (Generation α)
  | 0 => e.start
  | n + 1 => do
    let g ← e.stage n
    e.breed g

theorem run_stage_add_one {n : Nat} {s t : σ} {g : Generation α}
    (h : (e.stage n).run s = (.ok g, t)) : (e.stage (n + 1)).run s = (e.breed g).run t := by
  show ((e.stage n).bind e.breed).run s = _
  rw [run_bind, h]

/-- A run that starts from what a stage gives goes through the stages that follow, and it fails at
the first one that it does not show. -/
theorem Course.run_stage {g : Generation α} {s u : σ} {l : List (Generation α)}
    {r : Except Fault (Outcome α)} (h : Course e clock g u l r) {n : Nat}
    (hn : (e.stage n).run s = (.ok g, u)) :
    (∀ k h, l[k]? = some h → ∃ v, (e.stage (n + k)).run s = (.ok h, v)) ∧
    ∀ fault, r = .error fault → ∃ v, (e.stage (n + l.length)).run s = (.error fault, v) := by
  have hfirst {g : Generation α} {u : σ} {n : Nat} (hn : (e.stage n).run s = (.ok g, u)) :
      ∀ k h, [g][k]? = some h → ∃ v, (e.stage (n + k)).run s = (.ok h, v)
    | 0, _, hk => by
      cases hk
      exact ⟨u, hn⟩
  induction h generalizing n with
  | stopped _ => exact ⟨hfirst hn, nofun⟩
  | failed _ hbreed =>
    refine ⟨hfirst hn, ?_⟩
    rintro _ ⟨⟩
    exact ⟨_, (run_stage_add_one hn).trans hbreed⟩
  | @bred g next u v l r _ hbreed _ ih =>
    obtain ⟨hlater, hfault⟩ := ih ((run_stage_add_one hn).trans hbreed)
    refine ⟨fun k h hk => ?_, fun fault hr => ?_⟩
    · cases k with
      | zero => exact hfirst hn 0 h hk
      | succ k =>
        rw [Nat.add_comm k, ← Nat.add_assoc]
        exact hlater k h hk
    · rw [List.length_cons, Nat.add_comm l.length, ← Nat.add_assoc]
      exact hfault fault hr

/-- **A search goes through its stages**, and it fails at the first one that it does not show. -/
theorem run_stage_history (e : Evolution α) (clock : Nat → Nat) (s : σ) :
    (∀ n g, (e.history clock s).generations[n]? = some g →
      ∃ u, (e.stage n).run s = (.ok g, u)) ∧
    ∀ fault, (e.history clock s).result = .error fault →
      ∃ u, (e.stage (e.history clock s).generations.length).run s = (.error fault, u) := by
  rcases e.history_cases clock s with ⟨fault, t, hstart, hhistory⟩ | ⟨g, t, hstart, hcourse⟩
  · rw [hhistory]
    refine ⟨nofun, ?_⟩
    rintro _ ⟨⟩
    exact ⟨t, hstart⟩
  · have hstages := hcourse.run_stage (n := 0) hstart
    simpa only [Nat.zero_add] using hstages

/-! ## Other observers -/

/-- **However a search is watched, it shows and returns what its history tells.** -/
theorem TurnsAs.run_history {m : Type → Type} [Monad m] {τ : Type}
    {observe : Generation α → m Unit} {elapsed : m Nat}
    {eval : m (Except Fault (Outcome α) × σ) → τ → (Except Fault (Outcome α) × σ) × τ}
    {turn : τ → Generation α → τ} {At : Nat → τ → Prop}
    (hturns : TurnsAs observe elapsed clock eval turn At) {g : Generation α} {s t : σ}
    (hstart : e.start.run s = (.ok g, t)) {x : τ} (hx : At 0 x) : ∃ u,
      eval (e.run observe elapsed g t) x =
        (((e.history clock s).result, u), (e.history clock s).generations.foldl turn x) := by
  obtain ⟨l, r, u, hrun, hcourse⟩ := hturns.run_follows e g t (start_number hstart ▸ hx)
  obtain ⟨rfl, rfl⟩ := (course_history clock hstart).unique hcourse
  exact ⟨u, hrun⟩

end Evolution

end RoadTrip
