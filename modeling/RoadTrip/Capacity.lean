/-!
# Capacity

How many things a list can be made room for at once. A list whose length is given in advance, such
as a population or the sample of a tournament, is bounded by it before anything is put into it.
-/

namespace RoadTrip

/-- The largest number of things of so many words for which there can be room: all together they
take less than `2 ^ 63` bytes, eight to a word. -/
def capacity (words : Nat) : Nat := 1152921504606846975 / words

/-- The number of words that a stop of a route or a position in a population takes. -/
def stopWords : Nat := 1

/-- The number of words that an individual takes: three for its route, one for its fitness and one
for its generation. -/
def individualWords : Nat := 5

end RoadTrip
