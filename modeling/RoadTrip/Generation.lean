import RoadTrip.Population

/-!
# Generations

A ranked population with its number. Somebody is in it, so there is a best member.
-/

namespace RoadTrip

variable {α : Type} [Cost α]

/-- The members of a generation, best first. The random initial generation has number 0. -/
structure Generation (α : Type) [Cost α] where
  number : Nat
  best : Individual α
  others : List (Individual α)

namespace Generation

def members (g : Generation α) : Population α := g.best :: g.others

/-- The generation of some members, who are ranked. -/
def ofMembers (number : Nat) (p : Population α) : Except Fault (Generation α) :=
  match p.rank with
  | best :: others => .ok ⟨number, best, others⟩
  | [] => .error .emptyGeneration

theorem ofMembers_number {number : Nat} {p : Population α} {g : Generation α}
    (h : ofMembers number p = .ok g) : g.number = number := by
  unfold ofMembers at h
  split at h
  · cases h; rfl
  · cases h

end Generation

end RoadTrip
