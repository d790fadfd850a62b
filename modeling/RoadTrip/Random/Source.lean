import RoadTrip.Draw

/-!
# Sources of random words

A source hands out words of 32 or 64 bits until it runs dry. A number below `n` is drawn from it
by multiplying: the word times `n` has the number as its upper half, and words whose lower half is
too large are rejected, so that all numbers are equally likely.
-/

namespace RoadTrip

/-- A source of random words. It holds finitely many, so rejecting them comes to an end. -/
class Source (σ : Type) where
  word : (width : Width) → σ → Option (Fin width.words × σ)
  /-- A bound on the number of words to come. -/
  remaining : σ → Nat
  remaining_lt : ∀ {width : Width} {s t : σ} {v : Fin width.words},
    word width s = some (v, t) → remaining t < remaining s

namespace Source

/-- The largest lower half that is accepted: `n` is shifted up to the full width, so that the
accepted ones are a multiple of it. -/
def zone (width : Width) (n : Nat) : Nat := n <<< (width.bits - 1 - n.log2) - 1

/-- The number that a word stands for, unless it is rejected. -/
def accept? (width : Width) (n : Nat) (v : Fin width.words) : Option (Fin n) :=
  if v.val * n % width.words ≤ zone width n then
    if h : v.val * n / width.words < n then some ⟨v.val * n / width.words, h⟩ else none
  else
    none

variable {σ : Type} [Source σ]

/-- Draw a number below `n`: the one that the first accepted word stands for. -/
def below (width : Width) (n : Nat) (s : σ) : Option (Fin n) × σ :=
  match _drawn : word width s with
  | some (v, t) =>
    match accept? width n v with
    | some i => (some i, t)
    | none => below width n t
  | none => (none, s)
termination_by remaining s
decreasing_by exact remaining_lt _drawn

/-- The upper bits of a full word. -/
def upper (v : Fin Width.full.words) : Fraction :=
  ⟨v.val / 4096, by
    have := v.isLt
    simp only [Width.words] at this
    omega⟩

/-- Draw a fraction: the upper bits of a full word. -/
def fraction (s : σ) : Option Fraction × σ :=
  match word .full s with
  | some (v, t) => (some (upper v), t)
  | none => (none, s)

end Source

/-- Make the decisions of a tree with the words of a source. What has been drawn before a fault
stays drawn. -/
def Draw.run {β σ : Type} [Source σ] : Draw β → σ → Except Fault β × σ
  | .pure b, s => (.ok b, s)
  | .fail fault, s => (.error fault, s)
  | .number width n next, s =>
    match Source.below width n s with
    | (some i, t) => (next i).run t
    | (none, t) => (.error .exhausted, t)
  | .fraction next, s =>
    match Source.fraction s with
    | (some x, t) => (next x).run t
    | (none, t) => (.error .exhausted, t)

/-- A source goes through a decision and what follows it one after the other. -/
theorem Draw.run_bind {β γ σ : Type} [Source σ] (d : Draw β) (f : β → Draw γ) (s : σ) :
    (d.bind f).run s =
      match d.run s with
      | (.ok b, t) => (f b).run t
      | (.error fault, t) => (.error fault, t) := by
  induction d generalizing s with
  | pure b => rfl
  | fail fault => rfl
  | number width n next ih =>
    simp only [Draw.bind, Draw.run]
    cases Source.below width n s with
    | mk i t => cases i with
      | none => rfl
      | some i => exact ih i t
  | fraction next ih =>
    simp only [Draw.bind, Draw.run]
    cases Source.fraction s with
    | mk x t => cases x with
      | none => rfl
      | some x => exact ih x t

end RoadTrip
