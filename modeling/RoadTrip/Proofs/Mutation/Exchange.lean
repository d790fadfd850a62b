import Mathlib
import RoadTrip.Proofs.Draw.Outcomes
import RoadTrip.Proofs.Mutation
import RoadTrip.Random.Script

/-!
# Stops exchanged in pairs

What the swapping of stops does to a route: it is rearranged by a product of transpositions, one for
each exchange (`apply_swap_eq`). The two positions of an exchange are different ones, and each ordered
pair of them is drawn in exactly one way (`places_bijective`). The rest is the theory of permutations:
the number of exchanges decides the sign, and bounds how many positions change.
-/

namespace RoadTrip

/-- A route whose stops are read in another order. -/
def Route.rearranged (r : Route) (f : Equiv.Perm (Fin r.stops.length)) : Route :=
  ⟨List.ofFn (r.stops.get ∘ f)⟩

namespace Mutation

open Draw

variable {n : Nat}

/-! ## Two different positions -/

/-- Two different positions out of `n`, in order. -/
abbrev Places (n : Nat) : Type := { p : Fin n × Fin n // p.1 ≠ p.2 }

theorem skip_lt {i j : Nat} (h : j < n - 1) : skip i j < n := by
  unfold skip
  split <;> omega

theorem skip_ne (i j : Nat) : skip i j ≠ i := by
  unfold skip
  split <;> omega

/-- The positions that two numbers stand for: the second one counts those that the first has left. -/
def places (d : Fin n × Fin (n - 1)) : Places n :=
  ⟨(d.1, ⟨skip d.1 d.2, skip_lt d.2.isLt⟩), fun h => skip_ne _ _ (congrArg Fin.val h).symm⟩

/-- **Each ordered pair of different positions is drawn in exactly one way.** -/
theorem places_bijective : Function.Bijective (places (n := n)) := by
  constructor
  · rintro ⟨i, j⟩ ⟨i', j'⟩ h
    simp only [places, Subtype.mk.injEq, Prod.mk.injEq, Fin.mk.injEq] at h
    obtain ⟨rfl, h⟩ := h
    rw [Prod.mk.injEq, Fin.ext_iff]
    refine ⟨rfl, ?_⟩
    unfold skip at h
    split at h <;> split at h <;> omega
  · rintro ⟨⟨a, b⟩, hne⟩
    have hne : a.val ≠ b.val := fun h => hne (Fin.ext h)
    by_cases hlt : b.val < a.val
    · refine ⟨(a, ⟨b, by omega⟩), ?_⟩
      simp only [places, skip, if_neg (Nat.not_le.2 hlt)]
    · have hskip : skip a (b - 1) = b := by
        unfold skip
        split <;> omega
      refine ⟨(a, ⟨b - 1, by omega⟩), ?_⟩
      simp only [places, hskip]

/-- Draw two different positions. -/
def drawPlaces (n : Nat) : Draw (Places n) := do
  let i ← Draw.index .full n
  let j ← Draw.index .full (n - 1)
  return places (i, j)

theorem mayGive_drawPlaces (p : Places n) : (drawPlaces n).MayGive p := by
  obtain ⟨⟨i, j⟩, rfl⟩ := places_bijective.2 p
  simp only [drawPlaces, mayGive_bind, mayGive_pure]
  exact ⟨i, mayGive_index i, j, mayGive_index j, rfl⟩

/-! ## Products of transpositions -/

/-- The rearrangement by exchanges at some pairs of positions, one after the other. -/
def composite (ps : List (Places n)) : Equiv.Perm (Fin n) :=
  (ps.map fun p => Equiv.swap p.1.1 p.1.2).prod

theorem composite_cons (p : Places n) (ps : List (Places n)) :
    composite (p :: ps) = Equiv.swap p.1.1 p.1.2 * composite ps := by
  rw [composite, List.map_cons, List.prod_cons, composite]

theorem composite_singleton (p : Places n) : composite [p] = Equiv.swap p.1.1 p.1.2 := by
  rw [composite, List.map_singleton, List.prod_singleton]

theorem sign_composite (ps : List (Places n)) :
    Equiv.Perm.sign (composite ps) = (-1) ^ ps.length := by
  have hswap : ∀ f ∈ ps.map fun p => Equiv.swap p.1.1 p.1.2, f.IsSwap := by
    rw [List.forall_mem_map]
    exact fun p _ => ⟨p.1.1, p.1.2, p.2, rfl⟩
  rw [composite, Equiv.Perm.sign_prod_list_swap hswap, List.length_map]

theorem card_support_composite_le (ps : List (Places n)) :
    (composite ps).support.card ≤ 2 * ps.length := by
  induction ps with
  | nil => simp [composite]
  | cons p ps ih =>
    rw [composite_cons]
    calc (Equiv.swap p.1.1 p.1.2 * composite ps).support.card
      _ ≤ ((Equiv.swap p.1.1 p.1.2).support ∪ (composite ps).support).card :=
        Finset.card_le_card (Equiv.Perm.support_mul_le _ _)
      _ ≤ (Equiv.swap p.1.1 p.1.2).support.card + (composite ps).support.card :=
        Finset.card_union_le _ _
      _ ≤ 2 + 2 * ps.length := Nat.add_le_add (Equiv.Perm.card_support_swap p.2).le ih
      _ = 2 * (p :: ps).length := by rw [List.length_cons]; omega

theorem composite_ne_one {ps : List (Places n)} (h : Odd ps.length) : composite ps ≠ 1 := by
  intro hone
  have hsign := sign_composite ps
  rw [hone, map_one, h.neg_one_pow] at hsign
  exact absurd hsign (by decide)

/-! ## Exchanged stops -/

/-- Exchanging two elements is reading a list in another order. -/
theorem exchange_ofFn {β : Type} (f : Fin n → β) (i j : Fin n) :
    exchange (List.ofFn f) i j = List.ofFn (f ∘ Equiv.swap i j) := by
  have hi : (List.ofFn f)[i.val]? = some (f i) := by simp
  have hj : (List.ofFn f)[j.val]? = some (f j) := by simp
  rw [exchange, hi, hj]
  apply List.ext_getElem
  · simp
  · intro k hk _
    simp only [List.getElem_set, List.getElem_ofFn, Function.comp_apply, Equiv.swap_apply_def]
    grind

theorem swaps_add_one {stops : List Nat} (h : stops.length = n) (count : Nat) :
    swaps (count + 1) stops =
      drawPlaces n >>= fun p => swaps count (exchange stops p.1.1 p.1.2) := by
  subst h
  simp only [drawPlaces, bind_assoc, pure_bind]
  rfl

/-- All exchanges together are one rearrangement. -/
theorem swaps_ofFn (count : Nat) (f : Fin n → Nat) :
    swaps count (List.ofFn f) =
      times count (drawPlaces n) >>= fun ps => Pure.pure (List.ofFn (f ∘ composite ps)) := by
  induction count generalizing f with
  | zero => rfl
  | succ count ih =>
    rw [swaps_add_one List.length_ofFn, times_add_one]
    simp only [bind_assoc, pure_bind, exchange_ofFn, ih, composite_cons, Equiv.Perm.coe_mul,
      Function.comp_assoc]

/-- Draw a number of exchanges. -/
def drawCount (maxSwaps : Nat) : Draw Nat := do
  let more ← Draw.index .full maxSwaps
  return more.val + 1

theorem ensures_drawCount {maxSwaps : Nat} (h : 1 ≤ maxSwaps) :
    (drawCount maxSwaps).Ensures (fun k => 1 ≤ k ∧ k ≤ maxSwaps) Never :=
  (ensures_index h fun _ => trivial).map fun more _ => ⟨Nat.succ_pos _, more.isLt⟩

theorem mayGive_drawCount {maxSwaps k : Nat} (hone : 1 ≤ k) (hk : k ≤ maxSwaps) :
    (drawCount maxSwaps).MayGive k := by
  simp only [drawCount, mayGive_bind, mayGive_pure]
  exact ⟨⟨k - 1, by omega⟩, mayGive_index _, by dsimp only; omega⟩

/-- **Swapping draws a number and as many pairs of positions**, and rearranges the stops by the
product of their transpositions. -/
theorem apply_swap_eq {maxSwaps : Nat} (hone : 1 ≤ maxSwaps)
    (hcount : maxSwaps + 1 < Text.countBound) {r : Route} (hr : 2 ≤ r.length) :
    (Mutation.swap maxSwaps hone).apply r = do
      let k ← drawCount maxSwaps
      let ps ← times k (drawPlaces r.stops.length)
      return r.rearranged (composite ps) := by
  have hstops : r.stops = List.ofFn r.stops.get := (List.ofFn_get r.stops).symm
  have hswaps (k : Nat) : swaps k r.stops = times k (drawPlaces r.stops.length) >>= fun ps =>
      Pure.pure (List.ofFn (r.stops.get ∘ composite ps)) := by
    conv_lhs => rw [hstops]
    exact swaps_ofFn k r.stops.get
  simp only [apply, if_neg (Nat.not_lt.2 hr), swapStops, if_pos hcount, drawCount, bind_assoc,
    pure_bind, hswaps]
  rfl

/-! ## Swapped routes -/

theorem getElem?_rearranged (r : Route) (f : Equiv.Perm (Fin r.stops.length))
    (x : Fin r.stops.length) : (r.rearranged f).stops[x.val]? = some (r.stops.get (f x)) := by
  simp [Route.rearranged]

theorem rearranged_singleton (r : Route) (p : Places r.stops.length) :
    r.rearranged (composite [p]) = ⟨exchange r.stops p.1.1 p.1.2⟩ := by
  rw [Route.rearranged, composite_singleton, ← exchange_ofFn, List.ofFn_get]

/-- Positions that are mapped to themselves keep their stops. -/
theorem card_changed_le (r : Route) (f : Equiv.Perm (Fin r.stops.length)) :
    (Finset.univ.filter fun x : Fin r.stops.length =>
      (r.rearranged f).stops[x.val]? ≠ r.stops[x.val]?).card ≤ f.support.card := by
  apply Finset.card_le_card
  intro x hx
  rw [Finset.mem_filter, getElem?_rearranged] at hx
  rw [Equiv.Perm.mem_support]
  intro hfix
  rw [hfix] at hx
  simp at hx

/-- Different stops read in another order are another route. -/
theorem rearranged_ne {r : Route} {f : Equiv.Perm (Fin r.stops.length)} (hr : r.stops.Nodup)
    (hf : f ≠ 1) : r.rearranged f ≠ r := by
  intro h
  apply hf
  ext x
  have hx := getElem?_rearranged r f x
  rw [h, List.getElem?_eq_getElem x.isLt, Option.some.injEq] at hx
  exact ((hr.getElem_inj_iff).1 hx).symm

/-- The route `s` is what exchanges at some pairs of positions make of `r`. -/
structure Transposed (r : Route) (ps : List (Places r.stops.length)) (s : Route) : Prop where
  rearranged : s = r.rearranged (composite ps)
  sign : Equiv.Perm.sign (composite ps) = (-1) ^ ps.length
  changed : (Finset.univ.filter fun x : Fin r.stops.length =>
    s.stops[x.val]? ≠ r.stops[x.val]?).card ≤ 2 * ps.length
  ne : Odd ps.length → r.stops.Nodup → s ≠ r

theorem transposed (r : Route) (ps : List (Places r.stops.length)) :
    Transposed r ps (r.rearranged (composite ps)) where
  rearranged := rfl
  sign := sign_composite ps
  changed := (card_changed_le r _).trans (card_support_composite_le ps)
  ne hodd hr := rearranged_ne hr (composite_ne_one hodd)

section Swap

variable {maxSwaps : Nat} (hone : 1 ≤ maxSwaps) (hcount : maxSwaps + 1 < Text.countBound)
  {r : Route} (hr : 2 ≤ r.length)

include hcount hr

theorem mayGive_swap (ps : List (Places r.stops.length)) (hpos : 1 ≤ ps.length)
    (hmax : ps.length ≤ maxSwaps) :
    ((Mutation.swap maxSwaps hone).apply r).MayGive (r.rearranged (composite ps)) := by
  rw [apply_swap_eq hone hcount hr]
  simp only [mayGive_bind, mayGive_pure]
  exact ⟨ps.length, mayGive_drawCount hpos hmax, ps, mayGive_times fun p _ => mayGive_drawPlaces p,
    rfl⟩

/-- **Swapping exchanges as many pairs of stops as it has drawn.** It does so with whatever source,
unless that runs dry. Between one and `maxSwaps` ordered pairs of different positions are drawn, each
of them in exactly one way, and any such pairs may come up. -/
theorem swap_transposes :
    Function.Bijective (places (n := r.stops.length)) ∧
    (∀ {σ : Type} [Source σ] (g : σ),
      (∃ k t ps u s, (drawCount maxSwaps).run g = (.ok k, t) ∧ 1 ≤ k ∧ k ≤ maxSwaps ∧
        (times k (drawPlaces r.stops.length)).run t = (.ok ps, u) ∧ ps.length = k ∧
        ((Mutation.swap maxSwaps hone).apply r).run g = (.ok s, u) ∧ Transposed r ps s) ∨
      (((Mutation.swap maxSwaps hone).apply r).run g).1 = .error .exhausted) ∧
    ∀ ps : List (Places r.stops.length), 1 ≤ ps.length → ps.length ≤ maxSwaps →
      ((Mutation.swap maxSwaps hone).apply r).MayGive (r.rearranged (composite ps)) := by
  refine ⟨places_bijective, fun g => ?_, mayGive_swap hone hcount hr⟩
  have hsafe : ((Mutation.swap maxSwaps hone).apply r).Ensures (fun _ => True) Never :=
    ((Mutation.swap maxSwaps hone).ensures_apply r).mono (fun _ _ => trivial)
      fun _ hfault => absurd hfault.2 (Nat.not_le.2 hcount)
  rcases hsafe.exists_run g with ⟨s, u, hrun, -⟩ | hdry
  · have hparts := hrun
    rw [apply_swap_eq hone hcount hr, run_bind_eq_ok] at hparts
    obtain ⟨k, t, hk, hrest⟩ := hparts
    rw [run_bind_eq_ok] at hrest
    obtain ⟨ps, v, hps, hs⟩ := hrest
    cases hs
    have hbounds := (ensures_drawCount hone).of_ok hk
    have hlength := ((ensures_times (ensures_any _) k).of_ok hps).1
    exact .inl ⟨k, t, ps, u, _, hk, hbounds.1, hbounds.2, hps, hlength, hrun, transposed r ps⟩
  · exact .inr hdry

end Swap

/-- Up to two exchanges on a route of three stops, with words for both of them. -/
theorem swap_transposes_threeStops :
    let m := Mutation.swap 2 (by decide)
    let r := Route.mk [5, 6, 7]
    let g := Script.mk [9223372036854775808, 0, 0, 0, 0] 0
    let twice : List (Places 3) := [places (0, 0), places (2, 1)]
    1 ≤ 2 ∧ 2 + 1 < Text.countBound ∧ 2 ≤ r.length ∧
    Function.Bijective (places (n := r.stops.length)) ∧
    ((∃ k t ps u s, (drawCount 2).run g = (.ok k, t) ∧ 1 ≤ k ∧ k ≤ 2 ∧
      (times k (drawPlaces r.stops.length)).run t = (.ok ps, u) ∧ ps.length = k ∧
      (m.apply r).run g = (.ok s, u) ∧ Transposed r ps s) ∨
    ((m.apply r).run g).1 = .error .exhausted) ∧
    (m.apply r).MayGive (r.rearranged (composite twice)) := by
  intro m r g twice
  have hone : 1 ≤ 2 := by decide
  have hcount : 2 + 1 < Text.countBound := by decide
  have hr : 2 ≤ r.length := by decide
  obtain ⟨hplaces, hruns, hresults⟩ := swap_transposes hone hcount hr
  exact ⟨hone, hcount, hr, hplaces, hruns g, hresults twice (by decide) (by decide)⟩

end Mutation

end RoadTrip
