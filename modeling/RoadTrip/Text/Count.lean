/-!
# Counts

Reading a count, a whole number below `2 ^ 64`.
-/

namespace RoadTrip.Text

/-- Every count is below this. -/
def countBound : Nat := 18446744073709551616

/-- Why a text is not a count. -/
inductive CountError where
  | empty
  | invalidDigit
  | tooLarge
  deriving DecidableEq, Repr

def CountError.message : CountError → String
  | .empty => "cannot parse integer from empty string"
  | .invalidDigit => "invalid digit found in string"
  | .tooLarge => "number too large to fit in target type"

/-- Continue a count with more digits. The first digit that is none or that carries the count
over its bound decides the error. -/
def readDigits (value : Nat) : List Char → Except CountError Nat
  | [] => .ok value
  | c :: rest =>
    if c.isDigit then
      let next := value * 10 + (c.toNat - '0'.toNat)
      if next < countBound then readDigits next rest else .error .tooLarge
    else
      .error .invalidDigit

/-- A count in decimal digits, with or without a plus sign. -/
def readCount (s : String) : Except CountError Nat :=
  match s.toList with
  | [] => .error .empty
  | ['+'] => .error .invalidDigit
  | '+' :: digits => readDigits 0 digits
  | digits => readDigits 0 digits

example : (readCount "+18446744073709551615").toOption = some 18446744073709551615 := by decide
example : (readCount "18446744073709551616").toOption = none := by decide

end RoadTrip.Text
