/-!
# Bytes as text

Reading bytes as UTF-8, and how far they can be read when they are not.
-/

namespace RoadTrip.Text

/-- The number of bytes, from position `i` on, up to the first that begins no character. -/
def validPrefix (bytes : ByteArray) (i : Nat) : Nat :=
  if _inside : i < bytes.size then
    match bytes.utf8DecodeChar? i with
    | some c => validPrefix bytes (i + c.utf8Size)
    | none => i
  else
    i
termination_by bytes.size - i
decreasing_by
  have := c.utf8Size_pos
  omega

/-- The text that bytes encode, or the length of the part that can be read. -/
def decode (bytes : List UInt8) : Except Nat String :=
  match String.fromUTF8? bytes.toByteArray with
  | some text => .ok text
  | none => .error (validPrefix bytes.toByteArray 0)

end RoadTrip.Text
