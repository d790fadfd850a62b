import RoadTrip.Proofs.Draw.Agree
import RoadTrip.Proofs.Evolution.Stopping

/-!
# The turns of breeding

The free places of a generation are filled in turns. In each of them two parents are selected from
the generation before and combined, and their children are mutated, the first one first (`turn`). A
turn for which a single place is left mutates the first child only, so that half as many turns as
places, rounded up, are enough (`turns`). Breeding draws what its turns draw, and the next
generation is the ranking of the elites followed by the children (`breed_turns`).
-/

namespace RoadTrip.Evolution

open Draw hiding pure

variable {α : Type} [Cost α]

/-- Two members are selected and combined. Of their children as many as there are places for are
mutated. -/
def turn (e : Evolution α) (p : Population α) (places : Nat) : Draw (Pair p × List Route) := do
  let parents ← e.config.selection.selectPair p
  let (first, second) ←
    e.config.crossover.apply (p.get parents.1).route (p.get parents.2).route
  let children ← ([first, second].take places).mapM e.config.mutation.apply
  pure (parents, children)

/-- The turns that fill some free places. -/
def turns (e : Evolution α) (p : Population α) (free : Nat) : Draw (List (Pair p × List Route)) :=
  (List.range ((free + 1) / 2)).mapM fun i => e.turn p (free - 2 * i)

/-- So many turns with places for both children. -/
def fullTurns (e : Evolution α) (p : Population α) (count : Nat) :
    Draw (List (Pair p × List Route)) :=
  (List.range count).mapM fun _ => e.turn p 2

/-- The generations that an evolution can come to, whatever it draws from. -/
inductive Occurs (e : Evolution α) : Generation α → Prop where
  | start {σ : Type} [Source σ] {s t : σ} {g : Generation α} (h : e.start.run s = (.ok g, t)) :
      Occurs e g
  | breed {σ : Type} [Source σ] {s t : σ} {g next : Generation α} (hg : Occurs e g)
      (h : (e.breed g).run s = (.ok next, t)) : Occurs e next

variable {e : Evolution α} {g : Generation α} {p : Population α}

theorem Occurs.sound [OrderedCost α] (hg : e.Occurs g) : g.Sound e := by
  induction hg with
  | start h => exact sound_of_start (one_le_of_start h) h
  | breed _ h ih => exact (bred_of_breed ih h).sound ih

/-! ## Turn by turn -/

theorem turn_add_two (free : Nat) : e.turn p (free + 2) = e.turn p 2 := by
  simp only [turn, List.take_succ_cons, List.take_nil]

theorem turns_one : e.turns p 1 = (do
    let t ← e.turn p 1
    pure [t]) := by
  show (List.range 1).mapM (fun i => e.turn p (1 - 2 * i)) = _
  rw [List.range_one, List.mapM_cons]
  rfl

theorem turns_add_two (free : Nat) : e.turns p (free + 2) = (do
    let t ← e.turn p 2
    let ts ← e.turns p free
    pure (t :: ts)) := by
  have hcount : (free + 2 + 1) / 2 = (free + 1) / 2 + 1 := by omega
  have hplaces (i : Nat) : free + 2 - 2 * i.succ = free - 2 * i := by omega
  unfold turns
  rw [hcount, List.range_succ_eq_map, List.mapM_cons, List.mapM_map]
  simp only [Function.comp_def, hplaces, Nat.mul_zero, Nat.sub_zero, turn_add_two]

theorem fullTurns_add_one (count : Nat) : e.fullTurns p (count + 1) = (do
    let t ← e.turn p 2
    let ts ← e.fullTurns p count
    pure (t :: ts)) := by
  unfold fullTurns
  rw [List.range_succ_eq_map, List.mapM_cons, List.mapM_map]
  rfl

/-- Members grown from as many of the children of a couple as there are places for. -/
def brood (e : Evolution α) (couple : Draw (Route × Route)) (number places : Nat) :
    Draw (Population α) := do
  let (first, second) ← couple
  ([first, second].take places).mapM (e.grow number)

theorem fill_one (couple : Draw (Route × Route)) (number : Nat) (next : Population α) :
    e.fill couple number 1 next = (do
      let members ← e.brood couple number 1
      pure (next ++ members)) := by
  simp [fill, brood]

theorem fill_add_two (couple : Draw (Route × Route)) (number free : Nat) (next : Population α) :
    e.fill couple number (free + 2) next = (do
      let members ← e.brood couple number 2
      e.fill couple number free (next ++ members)) := by
  simp [fill, brood]

/-! ## What breeding draws -/

/-- Members that have joined generation `number` with the given routes, in this order. -/
def JoinWith (e : Evolution α) (number : Nat) (members : Population α) (routes : List Route) :
    Prop :=
  members.map (·.route) = routes ∧ ∀ i ∈ members, e.Newborn number i

theorem JoinWith.append {number : Nat} {l l' : Population α} {rs rs' : List Route}
    (h : e.JoinWith number l rs) (h' : e.JoinWith number l' rs') :
    e.JoinWith number (l ++ l') (rs ++ rs') := by
  refine ⟨by rw [List.map_append, h.1, h'.1], fun i hi => ?_⟩
  rcases List.mem_append.1 hi with hi | hi
  · exact h.2 i hi
  · exact h'.2 i hi

theorem joinWith_of_forall₂ {number : Nat} {l : Population α} {rs : List Route}
    (h : List.Forall₂ (fun i r => i.route = r ∧ e.Newborn number i) l rs) :
    e.JoinWith number l rs := by
  induction h with
  | nil => exact ⟨rfl, nofun⟩
  | cons hi _ ih => exact ⟨by rw [List.map_cons, hi.1, ih.1], List.forall_mem_cons.2 ⟨hi.2, ih.2⟩⟩

section

variable [LawfulCost α] (hm : e.trip.matrix.Valid) {number : Nat}

include hm

/-- A mutated child always becomes a member. -/
theorem agree_grow {child : Route} (hchild : child.Visits e.trip.matrix.size) :
    (e.grow number child).Agree (fun i r => i.route = r ∧ e.Newborn number i)
      (e.config.mutation.apply child) := by
  rw [← bind_pure (e.config.mutation.apply child)]
  refine (e.config.mutation.ensures_apply child).agree.bind ?_
  rintro route _ ⟨rfl, hperm⟩
  have hvisits : route.Visits e.trip.matrix.size := hchild.of_perm hperm
  obtain ⟨f, hf, -⟩ := Trip.exists_evaluate hm hvisits
  rw [if_pos (Route.isPermutation_iff.2 hvisits), Trip.individual, hf]
  exact .pure ⟨rfl, hvisits, hf, rfl⟩

variable (hvisits : ∀ i ∈ p, i.route.Visits e.trip.matrix.size)

include hvisits

theorem agree_brood (places : Nat) : (e.brood (e.children p) number places).Agree
    (fun l t => e.JoinWith number l t.2) (e.turn p places) := by
  unfold brood turn children
  simp only [bind_assoc]
  refine (ensures_any _).agree.bind ?_
  rintro parents _ ⟨rfl, -⟩
  refine (e.config.crossover.ensures_apply (hvisits _ (List.get_mem p parents.1))
    (hvisits _ (List.get_mem p parents.2))).agree.bind ?_
  rintro ⟨first, second⟩ _ ⟨rfl, hfirst, hsecond⟩
  have hchildren : ∀ c ∈ [first, second].take places, c.Visits e.trip.matrix.size := by
    intro c hc
    have hc := List.mem_of_mem_take hc
    simp only [List.mem_cons, List.not_mem_nil, or_false] at hc
    rcases hc with rfl | rfl
    · exact hfirst
    · exact hsecond
  rw [← bind_pure (List.mapM _ _)]
  refine (agree_mapM fun c hc => agree_grow hm (hchildren c hc)).map ?_
  exact fun l routes h => joinWith_of_forall₂ h

/-- **Breeding fills the free places as its turns do**, with the same draws. -/
theorem agree_fill : ∀ (free : Nat) (next : Population α),
    (e.fill (e.children p) number free next).Agree
      (fun l ts => ∃ bred, l = next ++ bred ∧ e.JoinWith number bred (ts.flatMap (·.2)))
      (e.turns p free)
  | 0, next => .pure ⟨[], (List.append_nil next).symm, rfl, nofun⟩
  | 1, next => by
    rw [fill_one, turns_one]
    refine (agree_brood hm hvisits 1).map fun l t hl => ⟨l, rfl, ?_⟩
    rwa [List.flatMap_singleton]
  | free + 2, next => by
    rw [fill_add_two, turns_add_two]
    refine (agree_brood hm hvisits 2).bind fun l t hl => ?_
    rw [← bind_pure (e.fill _ _ _ _)]
    refine (agree_fill free (next ++ l)).map ?_
    rintro _ ts ⟨bred, rfl, hbred⟩
    refine ⟨l ++ bred, List.append_assoc _ _ _, ?_⟩
    rw [List.flatMap_cons]
    exact hl.append hbred

omit hvisits in
theorem agree_offspring (hg : g.Sound e) : (e.offspring g).Agree
    (fun l ts => ∃ bred, l = g.members.take elites ++ bred ∧
      e.JoinWith (g.number + 1) bred (ts.flatMap (·.2)))
    (e.turns g.members (e.config.populationSize - min elites e.config.populationSize)) := by
  unfold offspring
  dsimp only
  rw [length_take_elites hg]
  exact agree_fill hm hg.visits _ _

end

/-! ## How many turns there are, and what they leave out -/

theorem ensures_turns (free : Nat) :
    (e.turns p free).Ensures (·.length = (free + 1) / 2) fun _ => True :=
  (ensures_mapM fun _ _ => ensures_any _).mono
    (fun ts hts => by rw [hts.1, List.length_range]) fun _ hf => hf

section

variable {σ : Type} [Source σ]

/-- A turn with a single place does all that one with two places does but mutate the second
child. -/
theorem turn_one_of_two {s u v : σ} {t t' : Pair p × List Route}
    (hone : (e.turn p 1).run s = (.ok t, u)) (htwo : (e.turn p 2).run s = (.ok t', v)) :
    t.1 = t'.1 ∧ t.2 = t'.2.take 1 := by
  simp only [turn, List.take_succ_cons, List.take_nil, List.take_zero, List.mapM_cons,
    List.mapM_nil, bind_assoc, pure_bind, run_bind_eq_ok] at hone htwo
  obtain ⟨parents, a, hparents, pair, b, hpair, child, c, hchild, hone⟩ := hone
  obtain ⟨parents', a', hparents', pair', b', hpair', child', c', hchild', sibling, d, -, htwo⟩ :=
    htwo
  rw [hparents] at hparents'
  cases hparents'
  rw [hpair] at hpair'
  cases hpair'
  rw [hchild] at hchild'
  cases hchild'
  cases hone
  cases htwo
  exact ⟨rfl, rfl⟩

theorem length_of_turn_two {s t : σ} {c : Pair p × List Route}
    (h : (e.turn p 2).run s = (.ok c, t)) : c.2.length = 2 := by
  have hturn : (e.turn p 2).Ensures (·.2.length = 2) fun _ => True :=
    Ensures.bind' (ensures_any _) fun _ _ => Ensures.bind' (ensures_any _) fun _ _ =>
      (ensures_mapM fun _ _ => ensures_any _).map fun _ h => h.1
  exact hturn.of_ok h

/-- **The turns select and produce what the first ones of any number of full turns do.** -/
theorem turns_eq_take : ∀ (free : Nat) {count : Nat}, free ≤ 2 * count →
    ∀ {s t u : σ} {ts us : List (Pair p × List Route)},
      (e.turns p free).run s = (.ok ts, t) → (e.fullTurns p count).run s = (.ok us, u) →
      ts.map (·.1) = (us.map (·.1)).take ((free + 1) / 2) ∧
        ts.flatMap (·.2) = (us.flatMap (·.2)).take free
  | 0, _, _, _, _, _, _, _, hts, _ => by
    cases hts
    exact ⟨rfl, rfl⟩
  | 1, 0, hcount, _, _, _, _, _, _, _ => absurd hcount (by decide)
  | 1, count + 1, _, s, t, u, ts, us, hts, hus => by
    simp only [turns_one, run_bind_eq_ok] at hts
    simp only [fullTurns_add_one, run_bind_eq_ok] at hus
    obtain ⟨a, v, ha, hts⟩ := hts
    obtain ⟨b, w, hb, bs, x, -, hus⟩ := hus
    obtain ⟨hparents, hchildren⟩ := turn_one_of_two ha hb
    have hlength := length_of_turn_two hb
    cases hts
    cases hus
    refine ⟨by simp [hparents], ?_⟩
    rw [List.flatMap_singleton, List.flatMap_cons, hchildren,
      List.take_append_of_le_length (by omega)]
  | free + 2, 0, hcount, _, _, _, _, _, _, _ => absurd hcount (by omega)
  | free + 2, count + 1, hcount, s, t, u, ts, us, hts, hus => by
    simp only [turns_add_two, run_bind_eq_ok] at hts
    simp only [fullTurns_add_one, run_bind_eq_ok] at hus
    obtain ⟨a, v, ha, as, x, has, hts⟩ := hts
    obtain ⟨b, w, hb, bs, y, hbs, hus⟩ := hus
    rw [ha] at hb
    cases hb
    cases hts
    cases hus
    have hlength := length_of_turn_two ha
    obtain ⟨hparents, hchildren⟩ := turns_eq_take free (by omega) has hbs
    have hhalf : (free + 2 + 1) / 2 = (free + 1) / 2 + 1 := by omega
    refine ⟨by rw [hhalf, List.map_cons, List.map_cons, List.take_succ_cons, hparents], ?_⟩
    rw [List.flatMap_cons, List.flatMap_cons, hchildren, ← hlength, Nat.add_comm free,
      List.take_length_add_append]

/-! ## The next generation -/

/-- **What is in the next generation**: the elites, and behind them the mutated children of couples
that are selected in turn, all of it ranked, with ties in that order. There are half as many turns
as free places, rounded up, and they give the first members of what full turns would give. The draws
of breeding are those of its turns, so it returns if they do. -/
theorem breed_turns [LawfulCost α] {names : List String} {entries : List (CostEntry α)}
    (hm : CostMatrix.ofEntries names entries = .ok e.trip.matrix) (hg : e.Occurs g)
    (hnumber : g.number + 1 < Text.countBound) (s : σ) :
    let size := e.config.populationSize
    let free := size - min elites size
    (∀ ts t, (e.turns g.members free).run s = (.ok ts, t) →
      ts.length = (free + 1) / 2 ∧
      ∃ next bred, (e.breed g).run s = (.ok next, t) ∧ next.number = g.number + 1 ∧
        next.members = Population.rank (g.members.take (min elites size) ++ bred) ∧
        Population.Ranking (g.members.take (min elites size) ++ bred) next.members ∧
        bred.length = free ∧ bred.map (·.route) = ts.flatMap (·.2) ∧
        (∀ i ∈ bred, e.Newborn (g.number + 1) i) ∧
        ∀ count us u, free ≤ 2 * count → (e.fullTurns g.members count).run s = (.ok us, u) →
          ts.map (·.1) = (us.map (·.1)).take ((free + 1) / 2) ∧
          ts.flatMap (·.2) = (us.flatMap (·.2)).take free) ∧
    (∀ fault t, (e.turns g.members free).run s = (.error fault, t) →
      (e.breed g).run s = (.error fault, t)) ∧
    (size ≤ 2 → e.breed g = .pure { g with number := g.number + 1 }) := by
  intro size free
  have hsound := hg.sound
  have hkept : g.members.take (min elites size) = g.members.take elites := by
    rw [List.take_eq_take_iff, hsound.length]
    omega
  have hagree := agree_offspring (CostMatrix.valid_of_ofEntries hm) hsound
  refine ⟨fun ts t hts => ⟨(ensures_turns free).of_ok hts, ?_⟩,
    fun fault t hfault => run_breed hnumber (hagree.symm.of_error hfault),
    breed_of_le_elites hsound hnumber⟩
  obtain ⟨l, hl, bred, rfl, hroutes, hbred⟩ := hagree.symm.of_ok hts
  obtain ⟨next, hnext, hnextNumber, hmembers⟩ := exists_breed hnumber (List.cons_ne_nil _ _) hl
  have hlength : bred.length = free := by
    obtain ⟨bred', happend, hlength, -⟩ :=
      (ensures_offspring faultsIn_any hsound.visits).of_ok hl
    rw [List.append_cancel_left happend, hlength, length_take_elites hsound]
  have hmembers : next.members = Population.rank (g.members.take (min elites size) ++ bred) :=
    hkept ▸ hmembers
  have hranking : Population.Ranking (g.members.take (min elites size) ++ bred) next.members :=
    hmembers ▸ Population.ranking_rank _
  exact ⟨next, bred, hnext, hnextNumber, hmembers, hranking, hlength, hroutes, hbred,
    fun count us u hcount hus => turns_eq_take free hcount hts hus⟩

end

/-- Five routes, three of which are bred for each new generation. -/
def fiveRoutes : Config Float := { Config.default with populationSize := 5 }

def manyZeros : Script := ⟨List.replicate 64 0, 0⟩

/-- Enough words for five ranked founders of a trip there and back and for two turns. -/
theorem run_turns_manyZeros :
    (match CostMatrix.ofEntries ["A", "B"] [⟨"A", "B", (1.0 : Float)⟩] with
    | .ok m =>
      match (Population.random ⟨m, .roundTrip⟩ 5).run manyZeros with
      | (.ok (i :: rest), t) =>
        decide ((i :: rest).Pairwise fun a b => a.fitness.le b.fitness = true) &&
          (((Evolution.mk fiveRoutes ⟨m, .roundTrip⟩).turns (i :: rest) 3).run t).1.isOk
      | _ => false
    | .error _ => false) = true := by
  decide +kernel

/-- Two turns, the second of which has a single place, fill up five routes. -/
theorem breed_turns_fiveRoutes : ∃ m : CostMatrix Float,
    CostMatrix.ofEntries ["A", "B"] [⟨"A", "B", 1.0⟩] = .ok m ∧
    let e : Evolution Float := ⟨fiveRoutes, ⟨m, .roundTrip⟩⟩
    ∃ (g : Generation Float) (s : Script), e.Occurs g ∧ g.number + 1 < Text.countBound ∧
      ∃ ts t, (e.turns g.members 3).run s = (.ok ts, t) ∧ ts.length = 2 ∧
        ∃ next bred, (e.breed g).run s = (.ok next, t) ∧
          next.number = g.number + 1 ∧
          next.members = Population.rank (g.members.take 2 ++ bred) ∧
          Population.Ranking (g.members.take 2 ++ bred) next.members ∧
          bred.length = 3 ∧ bred.map (·.route) = ts.flatMap (·.2) ∧
          ∀ i ∈ bred, e.Newborn (g.number + 1) i := by
  have hturns := run_turns_manyZeros
  split at hturns
  · rename_i m hm
    split at hturns
    · rename_i i rest s hrun
      rw [Bool.and_eq_true, decide_eq_true_eq] at hturns
      obtain ⟨hranked, hok⟩ := hturns
      have hoccurs : (Evolution.mk fiveRoutes ⟨m, .roundTrip⟩).Occurs ⟨0, i, rest⟩ :=
        .start (start_of_ranked hrun hranked)
      have hnumber : 0 + 1 < Text.countBound := by decide
      have hfree : fiveRoutes.populationSize - min elites fiveRoutes.populationSize = 3 := by
        decide
      cases hts : ((Evolution.mk fiveRoutes ⟨m, .roundTrip⟩).turns (i :: rest) 3).run s with
      | mk result t =>
        cases result with
        | error fault => rw [hts] at hok; cases hok
        | ok ts =>
          obtain ⟨hlength, next, bred, hnext, hnextNumber, hmembers, hranking, hbred, hroutes,
            hnewborn, -⟩ := (breed_turns hm hoccurs hnumber s).1 ts t hts
          exact ⟨m, hm, _, s, hoccurs, hnumber, ts, t, hts,
            hlength.trans (congrArg (fun free => (free + 1) / 2) hfree), next, bred, hnext,
            hnextNumber, hmembers, hranking, hbred.trans hfree, hroutes, hnewborn⟩
    · cases hturns
  · cases hturns

end RoadTrip.Evolution
