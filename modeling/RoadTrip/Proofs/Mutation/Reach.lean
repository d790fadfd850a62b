import Mathlib.Logic.Relation
import RoadTrip.Proofs.Mutation.Exchange
import RoadTrip.Proofs.Mutation.Relocation
import RoadTrip.Proofs.Route.Visits

/-!
# Routes that mutations lead to

Mutating a route over and over may turn it into any other one through the same waypoints
(`applyTimes_gives_iff`). Exchanges of neighbours are enough for that (`reflTransGen_of_perm`). To
swap stops is to make such an exchange. To shuffle them takes three moves: the two neighbours go to
the end of the route, where a single stop may be cut out, change places there and come back.
-/

namespace RoadTrip.Mutation

open Draw Relation

/-- Mutate a route so many times. -/
def applyTimes (m : Mutation) : Nat → Route → Draw Route
  | 0, r => return r
  | count + 1, r => do
    let s ← m.apply r
    m.applyTimes count s

/-- One mutation may turn a route with the stops `l` into one with the stops `l'`. -/
def Turns (m : Mutation) (l l' : List Nat) : Prop := (m.apply ⟨l⟩).MayGive ⟨l'⟩

variable {m : Mutation} {l l' front back : List Nat} {a b : Nat}

theorem exists_applyTimes (h : ReflTransGen m.Turns l l') :
    ∃ count, (m.applyTimes count ⟨l⟩).MayGive ⟨l'⟩ := by
  induction h using ReflTransGen.head_induction_on with
  | refl => exact ⟨0, mayGive_pure.2 rfl⟩
  | head hturn _ ih =>
    obtain ⟨count, hcount⟩ := ih
    exact ⟨count + 1, mayGive_bind.2 ⟨_, hturn, hcount⟩⟩

/-- However often a route is mutated, it keeps its stops. -/
theorem ensures_applyTimes (m : Mutation) (count : Nat) (r : Route) :
    (m.applyTimes count r).Ensures (fun s => s.stops.Perm r.stops) fun _ => True := by
  induction count generalizing r with
  | zero => exact .rfl
  | succ count ih =>
    have hfirst := (m.ensures_apply r).mono (fun _ h => h) fun _ _ => trivial
    refine hfirst.bind' fun s hs => ?_
    exact (ih s).mono (fun _ h => h.trans hs) fun _ _ => trivial

/-! ## Neighbours -/

/-- Exchanges of neighbours make up all rearrangements. -/
theorem reflTransGen_of_perm {β : Type} {step : List β → List β → Prop}
    (hstep : ∀ front a b back,
      ReflTransGen step (front ++ a :: b :: back) (front ++ b :: a :: back))
    {l l' : List β} (h : l.Perm l') (front : List β) :
    ReflTransGen step (front ++ l) (front ++ l') := by
  induction h generalizing front with
  | nil => exact .refl
  | cons a _ ih => simpa only [List.append_assoc, List.singleton_append] using ih (front ++ [a])
  | swap a b back => exact hstep front b a back
  | trans _ _ ih ih' => exact (ih front).trans (ih' front)

theorem exchange_neighbours :
    exchange (front ++ a :: b :: back) front.length (front.length + 1) =
      front ++ b :: a :: back := by
  simp [exchange]

/-- Two neighbours are among the pairs of places that a swap may draw. -/
theorem turns_swap {maxSwaps : Nat} (hone : 1 ≤ maxSwaps)
    (hcount : maxSwaps + 1 < Text.countBound) :
    (Mutation.swap maxSwaps hone).Turns (front ++ a :: b :: back) (front ++ b :: a :: back) := by
  let r := Route.mk (front ++ a :: b :: back)
  have hplace : front.length + 1 < r.stops.length := by simp [r]
  let p : Places r.stops.length :=
    ⟨(⟨front.length, Nat.lt_of_succ_lt hplace⟩, ⟨front.length + 1, hplace⟩), by simp⟩
  have htwo : 2 ≤ r.length := Nat.le_trans (Nat.le_add_left 2 _) hplace
  have hgive := mayGive_swap hone hcount htwo [p] le_rfl hone
  rwa [rearranged_singleton, exchange_neighbours] at hgive

/-- Two neighbours change places at the end of the route. -/
theorem reflTransGen_shuffle {limit : Nat} (hlimit : 2 ≤ limit) :
    ReflTransGen (Mutation.shuffle limit hlimit).Turns (front ++ a :: b :: back)
      (front ++ b :: a :: back) := by
  have hturns {stops moved : List Nat} (hstops : stops.length = front.length + back.length + 2)
      (h : Relocates limit stops moved) : (Mutation.shuffle limit hlimit).Turns stops moved :=
    (mayGive_shuffle_iff hlimit ((Nat.le_add_left 2 _).trans_eq hstops.symm)).2 h
  have haway : Relocates limit (front ++ [a, b] ++ back) (front ++ back ++ [a, b] ++ []) :=
    .pair hlimit a b (List.append_nil _)
  have hexchange : Relocates limit (front ++ back ++ [a] ++ [b]) (front ++ back ++ [b] ++ [a]) :=
    .last hlimit b rfl
  have hback : Relocates limit (front ++ back ++ [b, a] ++ []) (front ++ [b, a] ++ back) :=
    .pair hlimit b a (List.append_nil _).symm
  simp only [List.append_assoc, List.cons_append, List.nil_append, List.append_nil] at *
  refine .head (hturns ?_ haway) (.head (hturns ?_ hexchange) (.single (hturns ?_ hback)))
  all_goals
    simp only [List.length_append, List.length_cons, List.length_nil]
    omega

/-! ## All routes -/

theorem not_overflows_of_ofKind {kind : MutationKind} {limit : Nat}
    (hm : ofKind kind limit = .ok m)
    (hcount : kind = .swap → limit + 1 < Text.countBound) : ¬m.Overflows := by
  cases kind with
  | swap =>
    simp only [ofKind, ofSwaps] at hm
    split at hm
    · cases hm
      exact Nat.not_le.2 (hcount rfl)
    · cases hm
  | shuffle =>
    simp only [ofKind, ofSegment] at hm
    split at hm
    · cases hm
      exact id
    · cases hm

theorem reflTransGen_neighbours (hm : ¬m.Overflows) :
    ReflTransGen m.Turns (front ++ a :: b :: back) (front ++ b :: a :: back) := by
  cases m with
  | swap maxSwaps hone => exact .single (turns_swap hone (Nat.not_le.1 hm))
  | shuffle limit hlimit => exact reflTransGen_shuffle hlimit

/-- **Mutations alone lead to all routes through the same waypoints**, and to no others. There are
outcomes of the draws for it, whatever the limit of the mutation, unless its choices cannot be
counted. -/
theorem applyTimes_gives_iff {kind : MutationKind} {limit : Nat}
    (hm : ofKind kind limit = .ok m) (hcount : kind = .swap → limit + 1 < Text.countBound)
    {n : Nat} {r : Route} (hr : r.Visits n) (s : Route) :
    (∃ count outcomes, (m.applyTimes count r).Gives outcomes s) ↔ s.Visits n := by
  constructor
  · rintro ⟨count, hgives⟩
    exact hr.of_perm ((m.ensures_applyTimes count r).of_mayGive hgives)
  · intro hs
    have hneighbours (front : List Nat) (a b : Nat) (back : List Nat) :
        ReflTransGen m.Turns (front ++ a :: b :: back) (front ++ b :: a :: back) :=
      reflTransGen_neighbours (not_overflows_of_ofKind hm hcount)
    exact exists_applyTimes (reflTransGen_of_perm hneighbours (hr.trans hs.symm) [])

/-- Runs of two stops at most, which have to turn a route with three stops around. -/
theorem applyTimes_gives_iff_turnedAround :
    ∃ m, ofKind .shuffle 2 = .ok m ∧
      (MutationKind.shuffle = .swap → 2 + 1 < Text.countBound) ∧
      (Route.mk [0, 1, 2]).Visits 3 ∧ (Route.mk [2, 1, 0]).Visits 3 ∧
      ((∃ count outcomes, (m.applyTimes count ⟨[0, 1, 2]⟩).Gives outcomes ⟨[2, 1, 0]⟩) ↔
        (Route.mk [2, 1, 0]).Visits 3) := by
  have hm : ofKind .shuffle 2 = .ok (.shuffle 2 (by decide)) := rfl
  have hcount : MutationKind.shuffle = .swap → 2 + 1 < Text.countBound := nofun
  have hr : (Route.mk [0, 1, 2]).Visits 3 := Route.isPermutation_iff.1 (by decide)
  have hs : (Route.mk [2, 1, 0]).Visits 3 := Route.isPermutation_iff.1 (by decide)
  exact ⟨_, hm, hcount, hr, hs, applyTimes_gives_iff hm hcount hr _⟩

end RoadTrip.Mutation
