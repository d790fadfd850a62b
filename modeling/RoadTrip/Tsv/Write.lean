/-!
# Writing a tab separated file

Records with their fields between tabs, each on a line of its own. A field that would end early
stands between quotes, with the quotes inside it doubled.
-/

namespace RoadTrip.Tsv

/-- A character that an unquoted field cannot hold. -/
def needsQuotes (c : Char) : Bool := c == '\t' || c == '"' || c == '\r' || c == '\n'

/-- A field with quotes around it, if it needs them. -/
def encodeField (s : String) : List Char :=
  if s.toList.any needsQuotes then
    '"' :: (s.toList.flatMap (fun c => if c == '"' then ['"', '"'] else [c]) ++ ['"'])
  else
    s.toList

def encodeFields : List String → List Char
  | [] => []
  | [field] => encodeField field
  | field :: rest => encodeField field ++ '\t' :: encodeFields rest

/-- A record and the end of its line. -/
def encodeRecord (fields : List String) : List Char := encodeFields fields ++ ['\n']

def encode (records : List (List String)) : String := String.ofList (records.flatMap encodeRecord)

example : encode [["a\tb", "\"q"], ["", "c d"]] = "\"a\tb\"\t\"\"\"q\"\n\tc d\n" := by decide

end RoadTrip.Tsv
