import RoadTrip.Text.Blank
import RoadTrip.Text.Glyphs

/-!
# Quoted text

How a message shows a text that it complains about: between double quotes, with an escape for
each character that would end the text, break the line or not be seen.
-/

namespace RoadTrip.Text

/-- A code point in lower case hexadecimal, between braces. -/
def codeEscape (c : Char) : List Char :=
  "\\u\x7b".toList ++ Nat.toDigits 16 c.toNat ++ "\x7d".toList

/-- A character that would not be seen as one: it has no glyph, is blank without being a space, or
joins the character before it. -/
def isUnseen (c : Char) : Bool :=
  inRanges unprintable c.toNat || inRanges fillers c.toNat || inRanges extendingMarks c.toNat

/-- One character of a quoted text. -/
def quoteChar (c : Char) : List Char :=
  if c == '"' then ['\\', '"']
  else if c == '\\' then ['\\', '\\']
  else if c == '\n' then ['\\', 'n']
  else if c == '\r' then ['\\', 'r']
  else if c == '\t' then ['\\', 't']
  else if c == '\x00' then ['\\', '0']
  else if isUnseen c then codeEscape c
  else [c]

/-- A text between double quotes, all its characters visible. -/
def quoted (s : String) : String :=
  String.ofList ('"' :: (s.toList.flatMap quoteChar ++ ['"']))

example : quoted "a\t\"\u200b'" = "\"a\\t\\\"\\u\x7b200b\x7d'\"" := by decide +kernel

end RoadTrip.Text
