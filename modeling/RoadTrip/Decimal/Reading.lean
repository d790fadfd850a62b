/-!
# Reading decimals

The grammar of a number in a file or an option: a sign, then a word for infinity or NaN, or digits
with an optional point and an optional power of ten. All of the text has to be used.
-/

namespace RoadTrip.Decimal

/-- What a text says, before it is rounded to a number. -/
inductive Reading where
  | infinity (negative : Bool)
  | notANumber
  /-- The number `digits * 10 ^ scale`. -/
  | decimal (negative : Bool) (digits : Nat) (scale : Int)
  deriving DecidableEq, Repr

/-- The number that digits write, continuing `value`. -/
def ofDigits (value : Nat) (digits : List Char) : Nat :=
  digits.foldl (fun n c => n * 10 + (c.toNat - '0'.toNat)) value

/-- The power of ten after the digits: nothing, or `e`, an optional sign and digits. -/
def readExponent : List Char → Option Int
  | [] => some 0
  | c :: rest =>
    if c == 'e' || c == 'E' then
      let (negative, digits) : Bool × List Char :=
        match rest with
        | '+' :: digits => (false, digits)
        | '-' :: digits => (true, digits)
        | digits => (false, digits)
      if digits.isEmpty || !digits.all Char.isDigit then none
      else some (if negative then -(ofDigits 0 digits : Int) else ofDigits 0 digits)
    else
      none

/-- Digits with an optional point, at least one digit on either side of it, and an exponent. -/
def readUnsigned (negative : Bool) (cs : List Char) : Option Reading :=
  let whole := cs.takeWhile Char.isDigit
  let afterWhole := cs.dropWhile Char.isDigit
  let (fraction, rest) : List Char × List Char :=
    match afterWhole with
    | '.' :: more => (more.takeWhile Char.isDigit, more.dropWhile Char.isDigit)
    | _ => ([], afterWhole)
  if whole.isEmpty && fraction.isEmpty then none
  else (readExponent rest).map fun exponent =>
    .decimal negative (ofDigits (ofDigits 0 whole) fraction) (exponent - fraction.length)

/-- A number with an optional sign. -/
def read? (s : String) : Option Reading :=
  let (negative, cs) : Bool × List Char :=
    match s.toList with
    | '+' :: cs => (false, cs)
    | '-' :: cs => (true, cs)
    | cs => (false, cs)
  let word := String.ofList (cs.map Char.toLower)
  if word = "inf" || word = "infinity" then some (.infinity negative)
  else if word = "nan" then some .notANumber
  else readUnsigned negative cs

example : read? "-1.50e+2" = some (.decimal true 150 0) := by decide
example : read? ".5" = some (.decimal false 5 (-1)) := by decide
example : read? "1e" = none := by decide

end RoadTrip.Decimal
