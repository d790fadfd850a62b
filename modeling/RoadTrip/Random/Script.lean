import RoadTrip.Random.Source

/-!
# Scripted words

A source that hands out the words of a list. A half word is the lower half of the next word.
-/

namespace RoadTrip

/-- The words to come, and how many have been handed out. -/
structure Script where
  words : List UInt64
  used : Nat := 0

namespace Script

/-- The next word and the script after it. -/
def next? (s : Script) : Option (UInt64 × Script) :=
  match s.words with
  | w :: rest => some (w, ⟨rest, s.used + 1⟩)
  | [] => none

/-- The next word, cut to a width. -/
def word (width : Width) (s : Script) : Option (Fin width.words × Script) :=
  match s.words with
  | w :: rest => some (⟨w.toNat % width.words, Nat.mod_lt _ width.words_pos⟩, ⟨rest, s.used + 1⟩)
  | [] => none

instance : Source Script where
  word := Script.word
  remaining s := s.words.length
  remaining_lt := by
    intro width s t v h
    unfold Script.word at h
    split at h
    · rename_i w rest hw
      obtain ⟨rfl, rfl⟩ := Prod.mk.inj (Option.some.inj h)
      simp [hw]
    · cases h

end Script

end RoadTrip
