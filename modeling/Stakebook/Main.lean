import Stakebook.CommandLine.Commands

/-!
# The program

Runs one command on the disk. The exit code is 0 if it succeeds, 1 if it fails and 2 if the usage is
wrong.
-/

open Stakebook

/-- The cause of a failure of the system. -/
def fileError (e : IO.Error) : FileError :=
  match e with
  | .noFileOrDirectory .. => .notFound
  | .alreadyExists .. => .alreadyThere
  | e => .other (toString e)

/-- Runs an operation on the disk. -/
def onDisk {α : Type} (action : IO α) : IO (Except FileError α) := do
  match ← action.toBaseIO with
  | .ok a => return .ok a
  | .error e => return .error (fileError e)

/-- The files of the disk. -/
def diskFiles : Files IO where
  read path := onDisk do return (← IO.FS.readBinFile path).toList
  write path bs := onDisk (IO.FS.writeBinFile path bs.toByteArray)
  isPresent path := do
    match ← onDisk (IO.FS.readBinFile path) with
    | .error .notFound => return false
    | _ => return true
  makeDirectories path := onDisk (IO.FS.createDirAll path)

/-- Runs the program. -/
def main (args : List String) : IO UInt32 := do
  match CommandLine.parse? args with
  | none =>
    IO.eprintln "usage: stakebook [-v] [--log-level LEVEL] <COMMAND> [OPTIONS]"
    IO.eprintln ""
    IO.eprintln "  replay --scenario FILE [--config FILE] [--genesis FILE] [--snapshot-out FILE]"
    IO.eprintln "         [--json] [--strict]"
    IO.eprintln "  commit-hash --weight N --salt HEX"
    IO.eprintln "  init-config [-o DIRECTORY] [--force]"
    IO.eprintln "  inspect --snapshot FILE"
    return 2
  | some command =>
    let outcome ← CommandLine.run diskFiles command
    for line in outcome.printed do
      IO.println line
    match outcome.failure with
    | none => return 0
    | some message =>
      IO.eprintln ("Error: " ++ message)
      return 1
