import RoadTrip.Capacity
import RoadTrip.Cost
import RoadTrip.Fault

/-!
# Random decisions

An operation that draws random numbers, as the tree of its decisions: at each draw it says how
many outcomes there are and how it goes on after each of them. Where the numbers come from is no
part of the tree, so a statement about all its branches is one about every source.
-/

namespace RoadTrip

/-- How many bits of the source a draw of a number uses at a time. -/
inductive Width where
  | half
  | full
  deriving DecidableEq, Repr

def Width.bits : Width → Nat
  | .half => 32
  | .full => 64

def Width.words : Width → Nat
  | .half => 4294967296
  | .full => 18446744073709551616

theorem Width.words_pos (width : Width) : 0 < width.words := by cases width <;> decide

/-- A random decision with a result in `β`, or a fault. -/
inductive Draw (β : Type) : Type where
  | pure (result : β)
  | fail (fault : Fault)
  /-- Draw one of `n` outcomes, all equally likely. -/
  | number (width : Width) (n : Nat) (next : Fin n → Draw β)
  | fraction (next : Fraction → Draw β)

namespace Draw

variable {β γ : Type}

/-- Go on with a second decision that depends on the result of the first. -/
@[specialize] protected def bind : Draw β → (β → Draw γ) → Draw γ
  | .pure b, f => f b
  | .fail fault, _ => .fail fault
  | .number width n next, f => .number width n fun i => (next i).bind f
  | .fraction next, f => .fraction fun x => (next x).bind f

instance : Monad Draw where
  pure := Draw.pure
  bind := Draw.bind

/-- A result that needs no draw. -/
def ofExcept : Except Fault β → Draw β
  | .ok b => .pure b
  | .error fault => .fail fault

/-- Make sure that there can be room for `count` things of so many words, before any is drawn. -/
def reserve (words count : Nat) : Draw Unit :=
  if count ≤ capacity words then .pure () else .fail .noRoom

/-- One of the numbers below `n`, which has to be positive. -/
def index (width : Width) (n : Nat) : Draw (Fin n) :=
  if n = 0 then .fail .emptyRange else .number width n .pure

/-- A position in a list of `n` elements. Half a word is enough to tell them apart, unless the
list is too long for that. -/
def position (n : Nat) : Draw (Fin n) :=
  index (if n < Width.half.words then .half else .full) n

/-- Repeat a decision, the results in the order in which they were drawn. -/
def times (count : Nat) (d : Draw β) : Draw (List β) := go count []
where
  /-- The results so far stand in `drawn`, the latest first. -/
  go : Nat → List β → Draw (List β)
    | 0, drawn => .pure drawn.reverse
    | count + 1, drawn => d.bind fun b => go count (b :: drawn)

end Draw

end RoadTrip
