import SolidityCalls.CommandLine.Run
import SolidityCalls.Snapshot

/-! The program. Standard input holds the machine it runs on: an object with the working
directory `cwd`, the home directory `home` and the list `files` of a snapshot. Files that the run
writes follow on standard output, one entry a line. -/
namespace SolidityCalls

/-- The machine that a value describes. -/
def machineOf (v : Value) : Except Failure Host := do
  let cwd := Path.parse (Snapshot.textField v "cwd")
  let empty : Host :=
    { files := FileSystem.empty
      workingDirectory := cwd.parts
      home := Path.parse (Snapshot.textField v "home")
      accounts := [] }
  let start := Value.object [("path", .string cwd.render), ("dir", .bool true)]
  match v.field? "files" with
  | some (.array entries) => Snapshot.placeAll (Path.absolute []) empty (start :: entries)
  | _ => Snapshot.placeAll (Path.absolute []) empty [start]

end SolidityCalls

open SolidityCalls in
def main (args : List String) : IO UInt32 := do
  let input ← (← IO.getStdin).readToEnd
  let stdout ← IO.getStdout
  let stderr ← IO.getStderr
  match Snapshot.read? input with
  | none =>
    stderr.putStrLn "error: standard input is no snapshot"
    return 2
  | some v =>
    match machineOf v with
    | .error e =>
      stderr.putStrLn ("error: " ++ e.message)
      return 2
    | .ok host =>
      let done := CommandLine.run host args
      for (loc, bytes) in Snapshot.changes host.files done.files do
        stdout.putStr (Snapshot.changeLine loc bytes)
      match done.result with
      | .ok ending =>
        stdout.putStr ending.stdout
        stderr.putStr ending.stderr
        return UInt32.ofNat ending.exit
      | .error e =>
        stderr.putStrLn e.message
        return 1
