import Stakebook.Form.Execution
import Stakebook.Ledger.Records

/-!
# Replaying scenarios

A scenario is a list of transactions with the blocks at which they are made, which may not decrease.
A step may say what is expected of it: `ok`, or the kind of an error. `replay` carries the steps out
one after the other and reports what came of each, which expectations were not met, and the state
root in the end.
-/

namespace Stakebook

open Form

/-- A transaction at a block, with what is expected of it. -/
structure ScenarioStep where
  block : Block
  origin : Origin
  call : LedgerCall
  expect : Option String
deriving DecidableEq

/-- The transaction of a step. -/
def ScenarioStep.transaction (s : ScenarioStep) : Transaction := ⟨s.origin, s.call⟩

/-- The form of a step; without an expectation there is none in it. -/
def ScenarioStep.form : Form ScenarioStep :=
  record
    (.cons (.required "block" word64) <|
     .cons (.required "origin" Origin.form) <|
     .cons (.required "call" LedgerCall.form) <|
     .cons (.omitted "expect" text) .nil)
    (fun (block, origin, call, expect, _) => { block, origin, call, expect })
    (fun s => (s.block, s.origin, s.call, s.expect, ()))

/-- A list of steps. -/
structure Scenario where
  steps : List ScenarioStep
deriving DecidableEq

/-- The form of a scenario. -/
def Scenario.form : Form Scenario :=
  record (.cons (.required "steps" (list ScenarioStep.form)) .nil)
    (fun (steps, _) => { steps })
    (fun s => (s.steps, ()))

/-- What came of a scenario: the reports on its steps, the expectations that were not met, and the
state root at the last block. -/
structure ReplayReport where
  results : List ExecutionResult
  mismatches : List String
  stateRoot : StateRoot
deriving DecidableEq

namespace ReplayReport

/-- The form of a report. -/
def form : Form ReplayReport :=
  record
    (.cons (.required "results" (list ExecutionResult.form)) <|
     .cons (.required "mismatches" (list text)) <|
     .cons (.required "state_root" StateRoot.form) .nil)
    (fun (results, mismatches, stateRoot, _) => { results, mismatches, stateRoot })
    (fun r => (r.results, r.mismatches, r.stateRoot, ()))

/-- How many transactions were accepted. -/
def applied (r : ReplayReport) : Nat := r.results.countP ExecutionResult.success

/-- How many transactions were refused. -/
def rejected (r : ReplayReport) : Nat := r.results.length - r.applied

end ReplayReport

namespace Scenario

/-- A step whose block lies before that of the step before it. -/
structure OrderError where
  index : Nat
  block : Block
  previous : Block
deriving DecidableEq

/-- The message of an error. -/
def OrderError.message (e : OrderError) : String :=
  s!"step {e.index} at block {e.block} precedes block {e.previous}"

/-- What a report says in the words of an expectation. -/
def outcome (r : ExecutionResult) : String :=
  match r.error with
  | none => "ok"
  | some e => e.kind

/-- The line about a step whose expectation is not met. -/
def mismatch? (index : Nat) (step : ScenarioStep) (r : ExecutionResult) : Option String :=
  match step.expect with
  | none => none
  | some expected =>
    if expected = outcome r then none
    else some s!"step {index} ({r.call} at block {step.block}): expected {expected}, got {outcome r}"

/-- How far a replay has come. -/
structure Progress where
  ledger : Ledger
  index : Nat
  last : Block
  results : List ExecutionResult
  mismatches : List String

/-- The start of a replay. -/
def Progress.start (l : Ledger) : Progress := ⟨l, 0, 0, [], []⟩

/-- Carries out one step. The reports come last one first. -/
def Progress.step (p : Progress) (step : ScenarioStep) : Except OrderError Progress :=
  if step.block < p.last then .error ⟨p.index, step.block, p.last⟩
  else
    let (result, ledger) := step.transaction.apply step.block p.ledger
    .ok
      { ledger
        index := p.index + 1
        last := step.block
        results := result :: p.results
        mismatches := (mismatch? p.index step result).toList ++ p.mismatches }

/-- Carries out steps, as far as their blocks do not decrease. -/
def Progress.run (p : Progress) : List ScenarioStep → Option OrderError × Progress
  | [] => (none, p)
  | step :: steps =>
    match p.step step with
    | .error e => (some e, p)
    | .ok p => p.run steps

/-- The report on the steps carried out. -/
def Progress.report (p : Progress) : ReplayReport :=
  ⟨p.results.reverse, p.mismatches.reverse, p.ledger.stateRoot p.last⟩

/-- Replays a scenario on a ledger. A step whose block decreases ends the replay; the ledger is then
as the steps before it left it. -/
def replay (s : Scenario) (l : Ledger) : Except OrderError ReplayReport × Ledger :=
  match (Progress.start l).run s.steps with
  | (some e, p) => (.error e, p.ledger)
  | (none, p) => (.ok p.report, p.ledger)

end Scenario

end Stakebook
