import Stakebook.Json.Number
import Stakebook.Quantity

/-!
# Arguments of the command line

The program has four commands, each with its own options, and two options that stand anywhere. An
option is written `--name value` or `--name=value`, and a short one `-n value`, `-nvalue` or
`-n=value`; short options without a value may be joined. No option is given twice, and no value
begins with a dash unless it is attached. Everything else is wrong usage.
-/

namespace Stakebook.CommandLine

/-- What the program is asked to do. -/
inductive Command
  | replay (scenario : String) (config genesis snapshotOut : Option String) (json strict : Bool)
  | commitHash (weight : Weight) (salt : String)
  | initConfig (output : String) (force : Bool)
  | inspect (snapshot : String)
deriving DecidableEq

/-- An option: its name, its letter if it has one, and whether it takes a value. -/
structure Switch where
  name : String
  letter : Option Char
  takesValue : Bool
deriving DecidableEq

/-- The options given so far, with their values. -/
abbrev Given := List (String × String)

namespace Given

/-- Adds an option, unless it is given already. -/
def add? (given : Given) (name value : String) : Option Given :=
  if given.any fun g => g.1 = name then none else some ((name, value) :: given)

/-- The value of an option. -/
def value? (given : Given) (name : String) : Option String := given.lookup name

/-- Whether an option is given. -/
def has (given : Given) (name : String) : Bool := (given.value? name).isSome

end Given

/-- Whether an argument looks like an option rather than a value. -/
def isOption (arg : String) : Bool :=
  match arg.toList with
  | '-' :: _ :: _ => true
  | _ => false

/-- A value that is still to come, or nothing. -/
abbrev Wanted := Option String

/-- Reads letters of short options that stand together. The first one that takes a value takes the
rest of them, or waits for the next argument. -/
def letters (switches : List Switch) : Given → List Char → Option (Given × Wanted)
  | given, [] => some (given, none)
  | given, c :: cs =>
    match switches.find? fun s => s.letter = some c with
    | none => none
    | some s =>
      if s.takesValue then
        match cs with
        | [] => some (given, some s.name)
        | '=' :: value => (given.add? s.name (String.ofList value)).map fun g => (g, none)
        | value => (given.add? s.name (String.ofList value)).map fun g => (g, none)
      else (given.add? s.name "").bind fun g => letters switches g cs

/-- Reads the name of a long option, with an attached value if there is one. -/
def long (switches : List Switch) (given : Given) (cs : List Char) : Option (Given × Wanted) :=
  let name := String.ofList (cs.takeWhile (· ≠ '='))
  match switches.find? (fun s => s.name = name), cs.dropWhile (· ≠ '=') with
  | none, _ => none
  | some s, [] =>
    if s.takesValue then some (given, some name) else (given.add? name "").map fun g => (g, none)
  | some s, _ :: value =>
    if s.takesValue then (given.add? name (String.ofList value)).map fun g => (g, none) else none

/-- Reads the options in front of the first argument that is none; that argument and all after it
are left over. -/
def options (switches : List Switch) :
    Given → Wanted → List String → Option (Given × List String)
  | given, none, [] => some (given, [])
  | _, some _, [] => none
  | given, some name, arg :: args =>
    if isOption arg then none
    else (given.add? name arg).bind fun g => options switches g none args
  | given, none, arg :: args =>
    match arg.toList with
    | ['-', '-'] => if args.isEmpty then some (given, []) else none
    | '-' :: '-' :: cs => (long switches given cs).bind fun (g, w) => options switches g w args
    | '-' :: c :: cs =>
      (letters switches given (c :: cs)).bind fun (g, w) => options switches g w args
    | _ => some (given, arg :: args)

/-- The options that stand anywhere. -/
def globals : List Switch := [⟨"verbose", some 'v', false⟩, ⟨"log-level", none, true⟩]

/-- The options of a command, if there is a command of that name. -/
def switches? : String → Option (List Switch)
  | "replay" => some [⟨"scenario", none, true⟩, ⟨"config", none, true⟩, ⟨"genesis", none, true⟩,
      ⟨"snapshot-out", none, true⟩, ⟨"json", none, false⟩, ⟨"strict", none, false⟩]
  | "commit-hash" => some [⟨"weight", none, true⟩, ⟨"salt", none, true⟩]
  | "init-config" => some [⟨"output", some 'o', true⟩, ⟨"force", none, false⟩]
  | "inspect" => some [⟨"snapshot", none, true⟩]
  | _ => none

/-- The value of an option that names a file, which cannot be empty, or none if it is not given. -/
def path? (given : Given) (name : String) : Option (Option String) :=
  match given.value? name with
  | none => some none
  | some "" => none
  | some path => some (some path)

/-- A number: digits, which may begin with zeros, and perhaps a plus before them. -/
def number? (w : Nat) (s : String) : Option (Word w) :=
  let digits := match s.toList with
    | '+' :: ds => ds
    | ds => ds
  if Json.isDigits digits then Word.ofNat? (Nat.ofDigitChars 10 digits 0) else none

/-- The command of that name with these options. -/
def build? (name : String) (given : Given) : Option Command :=
  match name with
  | "replay" => do
    let scenario ← (← path? given "scenario")
    return .replay scenario (← path? given "config") (← path? given "genesis")
      (← path? given "snapshot-out") (given.has "json") (given.has "strict")
  | "commit-hash" => do
    return .commitHash (← number? 128 (← given.value? "weight")) (← given.value? "salt")
  | "init-config" => do
    return .initConfig ((← path? given "output").getD ".") (given.has "force")
  | "inspect" => do return .inspect (← (← path? given "snapshot"))
  | _ => none

/-- The command that arguments ask for, if their usage is right. -/
def parse? (args : List String) : Option Command := do
  match ← options globals [] none args with
  | (_, []) => none
  | (_, name :: args) =>
    match ← options ((← switches? name) ++ globals) [] none args with
    | (given, []) => build? name given
    | (_, _ :: _) => none

end Stakebook.CommandLine
