import RoadTrip.Cli.Setting

/-!
# Words of the command line

How the words of a command line name options and give them values. An option is a name after two
dashes or a letter after one; letters without values may be joined. A value follows its option
after an equals sign or as the next word, behind a letter also at once. A word that starts with a
dash is never the value of the word before it.
-/

namespace RoadTrip.Cli

/-- Why a command line is not accepted, or does not ask for a plan. -/
inductive UsageError where
  | unknownArgument
  | emptyValue (setting : Setting)
  /-- A value is none for its setting, for the reason given. -/
  | invalidValue (setting : Setting) (reason : String)
  | repeated (flag : Flag)
  | helpRequested
  | versionRequested
  deriving DecidableEq, Repr

/-- One thing that a command line says. -/
inductive Item where
  | named (setting : Setting)
  | value (setting : Setting) (text : String)
  | switch (switch : Switch)
  deriving DecidableEq, Repr

/-- What a switch does as soon as it is read. -/
def Switch.item : Switch → Except UsageError Item
  | .help => .error .helpRequested
  | .version => .error .versionRequested
  | s => .ok (.switch s)

/-- The items of one word, and the setting that waits for the next word. -/
structure Reading where
  items : List Item
  pending : Option Setting := none

/-- A setting with the text that is attached to it, in which equals signs in front do not count. -/
def attached (s : Setting) (text : List Char) : Reading :=
  ⟨[.named s, .value s (String.ofList (text.dropWhile (· == '=')))], none⟩

/-- Read a word of two dashes and a name, with everything up to the name's first equals sign. -/
def readName (word : List Char) : Except UsageError Reading :=
  let text := word.dropWhile (· == '-')
  let name := text.takeWhile (· != '=')
  match Flag.ofName? (String.ofList name) with
  | some (.setting s) =>
    .ok (if name.length < text.length then attached s (text.drop (name.length + 1))
      else ⟨[.named s], some s⟩)
  | some (.switch s) => s.item.map fun item => ⟨[item], none⟩
  | none => .error .unknownArgument

/-- Read the letters after a dash. A setting takes all that follows it for its value. -/
def readLetters : List Char → Except UsageError Reading
  | [] => .ok ⟨[], none⟩
  | c :: rest =>
    match Flag.ofLetter? c with
    | some (.setting s) => .ok (if rest.isEmpty then ⟨[.named s], some s⟩ else attached s rest)
    | some (.switch s) => do
      let item ← s.item
      let reading ← readLetters rest
      pure { reading with items := item :: reading.items }
    | none => .error .unknownArgument

/-- Read the words of a command line. After two dashes alone no option follows, and words that are
neither an option nor a value are not known. -/
def readWords (pending : Option Setting) : List String → Except UsageError Reading
  | [] => .ok ⟨[], pending⟩
  | word :: rest => do
    match word.toList with
    | ['-', '-'] => if rest.isEmpty then pure ⟨[], pending⟩ else throw .unknownArgument
    | '-' :: '-' :: name =>
      let first ← readName name
      let others ← readWords first.pending rest
      pure { others with items := first.items ++ others.items }
    | '-' :: c :: letters =>
      let first ← readLetters (c :: letters)
      let others ← readWords first.pending rest
      pure { others with items := first.items ++ others.items }
    | _ =>
      match pending with
      | some s =>
        let others ← readWords none rest
        pure { others with items := .value s word :: others.items }
      | none => throw .unknownArgument

end RoadTrip.Cli
