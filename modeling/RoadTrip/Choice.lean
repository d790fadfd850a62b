import RoadTrip.Text.Quoted

/-!
# Choices by name

Options of which there are two are chosen by name.
-/

namespace RoadTrip

/-- A name that chooses neither of the two things on offer. -/
structure UnknownChoice where
  subject : String
  given : String
  first : String
  second : String
  deriving DecidableEq, Repr

def UnknownChoice.message (e : UnknownChoice) : String :=
  "unknown " ++ e.subject ++ " " ++ Text.quoted e.given ++
    ", expected " ++ e.first ++ " or " ++ e.second

/-- Choose one of two things by their names. -/
def choose {β : Type} (subject : String) (first second : String × β) (given : String) :
    Except UnknownChoice β :=
  if given = first.1 then .ok first.2
  else if given = second.1 then .ok second.2
  else .error ⟨subject, given, first.1, second.1⟩

end RoadTrip
