import RoadTrip.CostText
import RoadTrip.Evolution

/-!
# Progress

The table that tells how an evolution goes: a row for each generation that improved on the best
route so far, and a line about the end.
-/

namespace RoadTrip

variable {α : Type} [Cost α]

structure ProgressRow (α : Type) where
  generation : Nat
  summary : Population.Summary α
  deriving DecidableEq, Repr

namespace Progress

/-- The row for a generation, unless its best route is no better than the best so far. -/
def row? (soFar : Option α) (g : Generation α) : Option (ProgressRow α) :=
  match Population.summarize? g.members with
  | some summary =>
    if soFar.any (Cost.le · summary.best) then none else some ⟨g.number, summary⟩
  | none => none

/-- Watch a generation: hand its row to `write`, if it has one, and keep its best cost. -/
def observe {m : Type → Type} [Monad m] (write : ProgressRow α → m Unit) (g : Generation α) :
    StateT (Option α) m Unit := do
  match row? (← get) g with
  | some row =>
    set (some row.summary.best)
    write row
  | none => pure ()

/-! ## Text -/

def alignRight (width : Nat) (s : String) : String :=
  String.ofList (List.replicate (width - s.length) ' ') ++ s

def header : String := "Generation | Average cost | Worst cost | Best cost | Unique routes\n"

variable [CostText α]

def line (r : ProgressRow α) : String :=
  String.intercalate " | "
    [alignRight 10 (toString r.generation),
      alignRight 12 (CostText.tenths r.summary.average),
      alignRight 10 (CostText.tenths r.summary.worst),
      alignRight 9 (CostText.tenths r.summary.best),
      alignRight 13 (toString r.summary.unique)] ++ "\n"

def lastLine (o : Outcome α) : String :=
  s!"Stopped after generation {o.last.number} ({o.termination.label}), best cost " ++
    CostText.tenths o.best.fitness.cost ++ s!" found in generation {o.best.generation}\n"

end Progress

end RoadTrip
