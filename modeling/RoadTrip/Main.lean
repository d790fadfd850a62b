import RoadTrip.Cli.Session

/-!
# The program

Plans the cheapest trip through the waypoints of a cost table. Everything is decided in
`Cli.Options` and `Cli.Session`; here they meet the outside world.
-/

open RoadTrip RoadTrip.Cli

/-- The reason that an error of the operating system gives. -/
def ioReason : IO.Error → String
  | .noFileOrDirectory _ _ _ => "No such file or directory (os error 2)"
  | error => toString error

/-- A host that is the operating system. -/
def ioHost : Host IO where
  read
    | none => do
      let stdin ← IO.getStdin
      let bytes ← stdin.readBinToEnd
      return .ok bytes.toList
    | some file => do
      try
        let bytes ← IO.FS.readBinFile file
        return .ok bytes.toList
      catch error => return .error (ioReason error)
  write
    | none, text => do
      IO.print text
      return .ok ()
    | some file, text => do
      try
        IO.FS.writeFile file text
        return .ok ()
      catch error => return .error (ioReason error)
  log text := IO.eprint text
  now := IO.monoNanosNow
  entropy := do
    let bytes ← IO.getRandomBytes 32
    return .ofFn fun i => (List.range 4).foldl
      (fun word k => word * 256 + (bytes.toList.getD (4 * i.val + k) 0).toUInt32) 0

def usage : String :=
  "Usage: road-trip-planner [options]\n" ++
    String.join (Flag.all.map fun f =>
      "  " ++ (match f.letter? with
        | some c => String.ofList ['-', c, ',', ' ']
        | none => "    ") ++ "--" ++ f.name ++
        (match f with
        | .setting s => " <" ++ s.valueName ++ ">"
        | .switch _ => "") ++ "\n")

def complain : UsageError → IO UInt32
  | .helpRequested => do
    IO.print usage
    return 0
  | .versionRequested => do
    IO.println versionText
    return 0
  | .invalidValue s reason => do
    IO.eprintln (invalidValueMessage s reason)
    return 1
  | .emptyValue s => do
    IO.eprintln ("error: '--" ++ s.name ++ "' requires a value")
    return 1
  | .repeated f => do
    IO.eprintln ("error: '--" ++ f.name ++ "' cannot be used more than once")
    return 1
  | .unknownArgument => do
    IO.eprintln ("error: unexpected argument\n\n" ++ usage)
    return 1

def main (args : List String) : IO UInt32 := do
  match (Options.parse args : Except UsageError (Options Float)) with
  | .error error => complain error
  | .ok options =>
    match ← (plan ioHost options).run with
    | .ok () => return 0
    | .error (.error error) =>
      IO.eprintln error.message
      return 1
    | .error (.fault fault) =>
      IO.eprintln (fault.message?.getD "internal error")
      return 101
