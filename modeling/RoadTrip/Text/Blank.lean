/-!
# Blank characters

The two sets of characters that trimming removes from a field: the ASCII ones from its bytes and
those with the Unicode property `White_Space` from its text.
-/

namespace RoadTrip.Text

/-- Remove the elements with a property from both ends of a list. -/
def strip {β : Type} (p : β → Bool) (l : List β) : List β :=
  ((l.dropWhile p).reverse.dropWhile p).reverse

/-- A byte that is an ASCII space, tab, line feed, form feed or carriage return. -/
def isBlankByte (b : UInt8) : Bool :=
  b == 0x20 || b == 0x09 || b == 0x0a || b == 0x0c || b == 0x0d

/-- The code points with the Unicode property `White_Space`, as inclusive ranges. -/
def whiteSpace : List (Nat × Nat) :=
  [(0x09, 0x0d), (0x20, 0x20), (0x85, 0x85), (0xa0, 0xa0), (0x1680, 0x1680), (0x2000, 0x200a),
   (0x2028, 0x2029), (0x202f, 0x202f), (0x205f, 0x205f), (0x3000, 0x3000)]

/-- Whether a code point lies in one of some inclusive ranges. -/
def inRanges (ranges : List (Nat × Nat)) (code : Nat) : Bool :=
  ranges.any fun (lo, hi) => lo ≤ code && code ≤ hi

/-- A character with the Unicode property `White_Space`. -/
def isBlank (c : Char) : Bool := inRanges whiteSpace c.toNat

def trim (s : String) : String := String.ofList (strip isBlank s.toList)

example : trim "\u00a0 a b\t" = "a b" := by decide

end RoadTrip.Text
