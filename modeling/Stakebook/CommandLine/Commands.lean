import Stakebook.CommandLine.Arguments
import Stakebook.CommandLine.Files
import Stakebook.Genesis
import Stakebook.Ledger.Snapshot
import Stakebook.Scenario

/-!
# The commands

`run` carries out a command on files, in any monad. What a command prints and how it fails is its
`Outcome`; a command that fails may have printed something before.
-/

namespace Stakebook

/-- Why a configuration or a genesis could not be loaded. -/
inductive LoadError
  | file (error : FileError)
  | json
  | config (error : ConfigError)
deriving DecidableEq

namespace LoadError

/-- The message of an error. -/
def message : LoadError → String
  | .file e => "I/O error: " ++ e.message
  | .json => "JSON error"
  | .config e => e.message

end LoadError

/-- The configuration that a text holds, if it makes sense. -/
def LedgerConfig.load (text : String) : Except LoadError LedgerConfig :=
  match LedgerConfig.form.parse? text with
  | none => .error .json
  | some config =>
    match config.validate with
    | .error e => .error (.config e)
    | .ok () => .ok config

/-- The genesis that a text holds. -/
def Genesis.load (text : String) : Except LoadError Genesis :=
  match Genesis.form.parse? text with
  | none => .error .json
  | some genesis => .ok genesis

/-- The text of a configuration file. -/
def LedgerConfig.save (c : LedgerConfig) : String := (LedgerConfig.form.pretty? c).getD ""

/-- The text of a genesis file. -/
def Genesis.save (g : Genesis) : String := (Genesis.form.pretty? g).getD ""

namespace CommandLine

/-- What a command prints, and the message with which it fails, if it does. -/
structure Outcome where
  printed : List String
  failure : Option String
deriving DecidableEq

namespace Outcome

/-- Success, with the lines that are printed. -/
def lines (printed : List String) : Outcome := ⟨printed, none⟩

/-- Failure, with nothing printed. -/
def fail (message : String) : Outcome := ⟨[], some message⟩

end Outcome

variable {m : Type → Type} [Monad m]

/-- The text of a file. -/
def readText (files : Files m) (path : String) : m (Except FileError String) := do
  match ← files.read path with
  | .error e => return .error e
  | .ok bs =>
    match Bytes.ofUtf8? bs with
    | none => return .error (.other "stream did not contain valid UTF-8")
    | some text => return .ok text

/-- What a file holds, or a default value where no file is named. -/
def loadOr {α : Type} (files : Files m) (load : String → Except LoadError α) (default : α) :
    Option String → m (Except LoadError α)
  | none => return .ok default
  | some path => do
    match ← readText files path with
    | .error e => return .error (.file e)
    | .ok text => return load text

/-- The lines about a replay. -/
def summary (r : ReplayReport) : List String :=
  [ s!"steps:      {r.results.length}",
    s!"applied:    {r.applied}",
    s!"rejected:   {r.rejected}",
    s!"block:      {r.stateRoot.block}",
    s!"state root: {r.stateRoot.root.hex}" ] ++
  r.mismatches.map fun mismatch => s!"mismatch:   {mismatch}"

/-- Replays a scenario: prints the report, writes a snapshot if one is asked for, and fails in the
end if strictness is asked for and an expectation was not met. -/
def replay (files : Files m) (scenario : String) (config genesis snapshotOut : Option String)
    (json strict : Bool) : m Outcome := do
  match ← loadOr files LedgerConfig.load default config with
  | .error e => return .fail e.message
  | .ok config =>
    match ← loadOr files Genesis.load .dev genesis with
    | .error e => return .fail e.message
    | .ok genesis =>
      match ← readText files scenario with
      | .error e => return .fail ("I/O error: " ++ e.message)
      | .ok text =>
        match Scenario.form.parse? text, genesis.build config with
        | none, _ => return .fail "invalid scenario"
        | some _, .error e => return .fail e.message
        | some scenario, .ok ledger =>
          match scenario.replay ledger with
          | (.error e, _) => return .fail e.message
          | (.ok report, ledger) =>
            let printed :=
              if json then [(ReplayReport.form.pretty? report).getD ""] else summary report
            let failure :=
              if strict ∧ report.mismatches ≠ [] then
                some s!"{report.mismatches.length} expectation mismatches"
              else none
            match snapshotOut with
            | none => return ⟨printed, failure⟩
            | some path =>
              match ← files.write path (Snapshot.save ledger report.stateRoot.block) with
              | .error e => return ⟨printed, some ("I/O error: " ++ e.message)⟩
              | .ok () => return ⟨printed, failure⟩

/-- Prints the digest that commits to a weight. -/
def commitHash (weight : Weight) (salt : String) : Outcome :=
  match Hex.decode (Hex.strip (Bytes.utf8 salt)) with
  | .error e => .fail ("Invalid salt: " ++ e.message)
  | .ok salt => .lines [(commitDigest weight salt).hex]

/-- Writes a configuration and a genesis to start from. Files that are there already are kept unless
they may be replaced. -/
def initConfig (files : Files m) (output : String) (force : Bool) : m Outcome := do
  match ← files.makeDirectories output with
  | .error e => return .fail e.message
  | .ok () =>
    let config := joinPath output "ledger.json"
    let genesis := joinPath output "genesis.json"
    let inTheWay (path : String) : m Bool := do return !force && (← files.isPresent path)
    let refuse (path : String) : Outcome :=
      .fail (path ++ " already exists (use --force to overwrite)")
    if ← inTheWay config then return refuse config
    else if ← inTheWay genesis then return refuse genesis
    else
      match ← files.write config (Bytes.utf8 (LedgerConfig.save default)) with
      | .error e => return .fail ("I/O error: " ++ e.message)
      | .ok () =>
        match ← files.write genesis (Bytes.utf8 (Genesis.save .dev)) with
        | .error e => return .fail ("I/O error: " ++ e.message)
        | .ok () => return .lines []

/-- The lines about a ledger at a block. -/
def overview (l : Ledger) (block : Block) : List String :=
  [ s!"block:                {block}",
    s!"state root:           {(l.stateRoot block).root.hex}",
    s!"total stake:          {l.book.stakes.total}",
    s!"total delegate stake: {l.book.delegate.totalBalance}",
    s!"total node stake:     {l.book.nodeDelegate.totalBalance}",
    s!"queued swaps:         {l.book.swaps.entries.size}",
    s!"free balances:        {l.registry.totalIssuance}" ]

/-- Prints what a snapshot holds. -/
def inspect (files : Files m) (snapshot : String) : m Outcome := do
  match ← files.read snapshot with
  | .error e => return .fail ("I/O error: " ++ e.message)
  | .ok bs =>
    match Snapshot.load bs with
    | .error e => return .fail e.message
    | .ok (ledger, block) => return .lines (overview ledger block)

/-- Carries out a command. -/
def run (files : Files m) : Command → m Outcome
  | .replay scenario config genesis snapshotOut json strict =>
    replay files scenario config genesis snapshotOut json strict
  | .commitHash weight salt => return commitHash weight salt
  | .initConfig output force => initConfig files output force
  | .inspect snapshot => inspect files snapshot

end CommandLine

end Stakebook
