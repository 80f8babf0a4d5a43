import Stakebook.Proofs.Ledger.Snapshots
import Stakebook.Scenario

/-!
# What a replay does

A replay carries its steps out one after the other, as far as their blocks do not decrease. What it
has come to is then a matter of the steps alone: `Progress.after` says so in closed form, and a replay
that stops early stops at the first block below the one before it. The block of the last step is kept
beside the ledger, but nothing that is carried out reads it. So a replay can be cut, and go on from a
snapshot.

Headlines:
* **`Progress.run_append`**, **`Progress.run_descent`**: where a replay goes on, and where it stops.
* **`replay_of_ordered`**, **`replay_of_namesFirst`**: the replay of a whole scenario, in either case.
* **`replay_resumes`**: replays that are cut, the report of a replay, and the error of one.
-/

namespace Stakebook

/-- A step as an event of the ledger. -/
def ScenarioStep.event (s : ScenarioStep) : Event := .transaction s.transaction s.block

/-- What is expected of a step is not what came of it. -/
def ScenarioStep.Unmet (s : ScenarioStep) (r : ExecutionResult) : Prop :=
  ∃ expected, s.expect = some expected ∧
    ((r.error = none ∧ expected ≠ "ok") ∨ ∃ e, r.error = some e ∧ expected ≠ e.kind)

namespace Scenario

open Ledger

variable {l : Ledger} {p : Progress} {s : ScenarioStep} {steps xs ys : List ScenarioStep}
  {b : Block} {e : OrderError}

/-! ## Expectations -/

theorem unmet_iff {r : ExecutionResult} :
    s.Unmet r ↔ ∃ expected, s.expect = some expected ∧ expected ≠ outcome r := by
  refine exists_congr fun expected => and_congr_right fun _ => ?_
  unfold outcome
  cases r.error with
  | none => simp
  | some e => simp

instance (s : ScenarioStep) (r : ExecutionResult) : Decidable (s.Unmet r) :=
  match h : s.expect with
  | none => isFalse fun ⟨_, h', _⟩ => by simp [h] at h'
  | some expected => decidable_of_iff (expected ≠ outcome r) (by simp [unmet_iff, h])

/-- The line about a step, and what was expected of it. -/
def line (index : Nat) (s : ScenarioStep) (r : ExecutionResult) : String :=
  s!"step {index} ({r.call} at block {s.block}): expected {s.expect.getD default}, got {outcome r}"

theorem mismatch?_eq (index : Nat) (s : ScenarioStep) (r : ExecutionResult) :
    mismatch? index s r = if s.Unmet r then some (line index s r) else none := by
  unfold mismatch? line
  cases h : s.expect with
  | none =>
    have hmet : ¬ s.Unmet r := by simp [unmet_iff, h]
    rw [if_neg hmet]
  | some expected =>
    by_cases he : expected = outcome r
    · have hmet : ¬ s.Unmet r := by simp [unmet_iff, h, he]
      rw [if_neg hmet]
      exact if_pos he
    · have hmet : s.Unmet r := by simp [unmet_iff, h, he]
      rw [if_pos hmet]
      exact if_neg he

/-- The lines about the steps whose expectations are not met, from an index on. -/
def lines (index : Nat) (carried : List (ScenarioStep × ExecutionResult)) : List String :=
  ((carried.zipIdx index).filter fun e => e.1.1.Unmet e.1.2).map fun e => line e.2 e.1.1 e.1.2

theorem lines_append (index : Nat) (carried carried' : List (ScenarioStep × ExecutionResult)) :
    lines index (carried ++ carried') =
      lines index carried ++ lines (index + carried.length) carried' := by
  rw [lines, List.zipIdx_append, List.filter_append, List.map_append]
  rfl

theorem lines_singleton (index : Nat) (s : ScenarioStep) (r : ExecutionResult) :
    lines index [(s, r)] = (mismatch? index s r).toList := by
  rw [mismatch?_eq, lines, List.zipIdx_singleton]
  by_cases h : s.Unmet r
  · rw [List.filter_cons_of_pos (by simpa using h), if_pos h]
    rfl
  · rw [List.filter_cons_of_neg (by simpa using h), if_neg h]
    rfl

/-! ## Carrying out steps -/

/-- The events that steps are. -/
def events (steps : List ScenarioStep) : List Event := steps.map ScenarioStep.event

theorem events_append (xs ys : List ScenarioStep) : events (xs ++ ys) = events xs ++ events ys :=
  List.map_append

/-- The reports on steps, each on what the steps before it left. -/
def reports (l : Ledger) : List ScenarioStep → List ExecutionResult
  | [] => []
  | s :: steps => (s.transaction.apply s.block l).1 :: reports (l.step s.event) steps

theorem reports_append (l : Ledger) (xs ys : List ScenarioStep) :
    reports l (xs ++ ys) = reports l xs ++ reports (l.run (events xs)) ys := by
  induction xs generalizing l with
  | nil => rfl
  | cons s xs ih => exact congrArg _ (ih (l.step s.event))

@[simp] theorem length_reports (l : Ledger) (steps : List ScenarioStep) :
    (reports l steps).length = steps.length := by
  induction steps generalizing l with
  | nil => rfl
  | cons s steps ih => exact congrArg (· + 1) (ih (l.step s.event))

theorem zip_reports_append (l : Ledger) (xs ys : List ScenarioStep) :
    (xs ++ ys).zip (reports l (xs ++ ys)) =
      xs.zip (reports l xs) ++ ys.zip (reports (l.run (events xs)) ys) := by
  rw [reports_append]
  exact List.zip_append (length_reports l xs).symm

/-- The report on a step is made on the ledger that the steps before it lead to. -/
theorem getElem?_reports (l : Ledger) (steps : List ScenarioStep) (i : Nat) :
    (reports l steps)[i]? = steps[i]?.map fun s =>
      (s.transaction.apply s.block (l.run (events (steps.take i)))).1 := by
  induction steps generalizing l i with
  | nil => rfl
  | cons s steps ih =>
    cases i with
    | zero => rfl
    | succ i => exact ih (l.step s.event) i

/-- The block of the last step, or one from before. -/
def lastBlock (b : Block) (steps : List ScenarioStep) : Block :=
  steps.foldl (fun _ s => s.block) b

theorem lastBlock_concat (b : Block) (xs : List ScenarioStep) (s : ScenarioStep) :
    lastBlock b (xs ++ [s]) = s.block := by
  rw [lastBlock, List.foldl_append]
  rfl

/-- After a step, the block from before does not matter. -/
theorem lastBlock_append (b c : Block) (xs : List ScenarioStep) (hys : ys ≠ []) :
    lastBlock b (xs ++ ys) = lastBlock c ys := by
  cases ys with
  | nil => exact absurd rfl hys
  | cons s ys =>
    rw [lastBlock, List.foldl_append]
    rfl

/-! ## The order of the blocks -/

/-- No block is below the one before it. -/
def Ordered (steps : List ScenarioStep) : Prop :=
  (steps.map ScenarioStep.block).IsChain (· ≤ ·)

/-- No block is below the one before it, and the first is not below another one. -/
def OrderedFrom (b : Block) (steps : List ScenarioStep) : Prop :=
  (b :: steps.map ScenarioStep.block).IsChain (· ≤ ·)

instance (steps : List ScenarioStep) : Decidable (Ordered steps) :=
  inferInstanceAs (Decidable (List.IsChain (· ≤ ·) (steps.map ScenarioStep.block)))

theorem orderedFrom_cons :
    OrderedFrom b (s :: steps) ↔ b ≤ s.block ∧ OrderedFrom s.block steps :=
  List.isChain_cons_cons

theorem ordered_iff : Ordered steps ↔ OrderedFrom 0 steps := by
  cases steps with
  | nil => exact iff_of_true .nil (.singleton _)
  | cons s steps =>
    rw [orderedFrom_cons]
    exact (and_iff_right (Nat.zero_le _)).symm

theorem OrderedFrom.ordered (h : OrderedFrom b steps) : Ordered steps := by
  cases steps with
  | nil => exact .nil
  | cons s steps => exact (orderedFrom_cons.mp h).2

theorem orderedFrom_append :
    OrderedFrom b (xs ++ ys) ↔ OrderedFrom b xs ∧ OrderedFrom (lastBlock b xs) ys := by
  induction xs generalizing b with
  | nil => exact (and_iff_right (.singleton _)).symm
  | cons s xs ih =>
    rw [List.cons_append, orderedFrom_cons, orderedFrom_cons, ih, and_assoc]
    rfl

/-- Steps are ordered up to their end, or up to the first block below the one before it. -/
theorem orderedFrom_or_descent (b : Block) (steps : List ScenarioStep) :
    OrderedFrom b steps ∨ ∃ xs s ys, steps = xs ++ s :: ys ∧ OrderedFrom b xs ∧
      s.block < lastBlock b xs := by
  induction steps generalizing b with
  | nil => exact .inl (.singleton _)
  | cons s steps ih =>
    rcases Nat.lt_or_ge s.block.toNat b.toNat with hlt | hle
    · exact .inr ⟨[], s, steps, rfl, .singleton _, hlt⟩
    · rcases ih s.block with h | ⟨xs, t, ys, rfl, hxs, hlt⟩
      · exact .inl (orderedFrom_cons.mpr ⟨hle, h⟩)
      · exact .inr ⟨s :: xs, t, ys, rfl, orderedFrom_cons.mpr ⟨hle, hxs⟩, hlt⟩

/-- An error names the first step whose block is below that of the step before it. -/
def OrderError.NamesFirst (e : OrderError) (steps : List ScenarioStep) : Prop :=
  ∃ xs t s ys, steps = xs ++ t :: s :: ys ∧ Ordered (xs ++ [t]) ∧ s.block < t.block ∧
    e = ⟨xs.length + 1, s.block, t.block⟩

theorem ordered_or_namesFirst (steps : List ScenarioStep) :
    Ordered steps ∨ ∃ e : OrderError, e.NamesFirst steps := by
  rcases orderedFrom_or_descent 0 steps with h | ⟨xs, s, ys, rfl, hxs, hlt⟩
  · exact .inl (ordered_iff.mpr h)
  · rcases List.eq_nil_or_concat xs with rfl | ⟨xs, t, rfl⟩
    · exact absurd hlt (Nat.not_lt_zero _)
    · rw [List.concat_eq_append] at hxs hlt ⊢
      rw [lastBlock_concat] at hlt
      exact .inr ⟨_, xs, t, s, ys, by simp, ordered_iff.mpr hxs, hlt, rfl⟩

/-! ## How far a replay comes -/

/-- A replay after steps whose blocks do not decrease. -/
def Progress.after (p : Progress) (steps : List ScenarioStep) : Progress where
  ledger := p.ledger.run (events steps)
  index := p.index + steps.length
  last := lastBlock p.last steps
  results := (reports p.ledger steps).reverse ++ p.results
  mismatches := (lines p.index (steps.zip (reports p.ledger steps))).reverse ++ p.mismatches

theorem Progress.after_append (p : Progress) (xs ys : List ScenarioStep) :
    (p.after xs).after ys = p.after (xs ++ ys) := by
  have hlines : lines p.index ((xs ++ ys).zip (reports p.ledger (xs ++ ys))) =
      lines p.index (xs.zip (reports p.ledger xs)) ++
        lines (p.index + xs.length) (ys.zip (reports (p.ledger.run (events xs)) ys)) := by
    rw [zip_reports_append, lines_append, List.length_zip, length_reports, Nat.min_self]
  unfold Progress.after
  rw [hlines]
  simp only [events_append, run_append, List.length_append, reports_append,
    List.reverse_append, List.append_assoc, Nat.add_assoc, lastBlock, List.foldl_append]

theorem Progress.step_of_lt (h : s.block < p.last) :
    p.step s = .error ⟨p.index, s.block, p.last⟩ := if_pos h

/-- **One step** is carried out if its block is not below the last one. -/
theorem Progress.step_of_le (h : p.last ≤ s.block) : p.step s = .ok (p.after [s]) := by
  have hlines (r : ExecutionResult) :
      (lines p.index [(s, r)]).reverse = (mismatch? p.index s r).toList := by
    rw [lines_singleton]
    cases mismatch? p.index s r <;> rfl
  have hnot : ¬ s.block < p.last := Nat.not_lt.mpr h
  simp only [Progress.step, if_neg hnot, Progress.after, reports, List.zip_cons_cons,
    List.zip_nil_right, hlines]
  rfl

theorem Progress.run_cons_of_lt (h : s.block < p.last) (steps : List ScenarioStep) :
    p.run (s :: steps) = (some ⟨p.index, s.block, p.last⟩, p) := by
  rw [Progress.run, Progress.step_of_lt h]

theorem Progress.run_cons_of_le (h : p.last ≤ s.block) (steps : List ScenarioStep) :
    p.run (s :: steps) = (p.after [s]).run steps := by
  rw [Progress.run, Progress.step_of_le h]

/-- **A replay goes on** through steps whose blocks do not decrease. -/
theorem Progress.run_append (h : OrderedFrom p.last xs) (ys : List ScenarioStep) :
    p.run (xs ++ ys) = (p.after xs).run ys := by
  induction xs generalizing p with
  | nil => rfl
  | cons s xs ih =>
    obtain ⟨hle, hxs⟩ := orderedFrom_cons.mp h
    calc p.run (s :: (xs ++ ys)) = (p.after [s]).run (xs ++ ys) := Progress.run_cons_of_le hle _
      _ = ((p.after [s]).after xs).run ys := ih hxs
      _ = (p.after (s :: xs)).run ys := by rw [Progress.after_append, List.singleton_append]

/-- **A replay stops** at a block below the last one. -/
theorem Progress.run_descent (hxs : OrderedFrom p.last xs) (hlt : s.block < lastBlock p.last xs)
    (ys : List ScenarioStep) :
    p.run (xs ++ s :: ys) =
      (some ⟨p.index + xs.length, s.block, lastBlock p.last xs⟩, p.after xs) := by
  rw [Progress.run_append hxs]
  exact Progress.run_cons_of_lt hlt ys

/-! ## Whole replays -/

/-- The report on steps whose blocks do not decrease. -/
def reportOf (l : Ledger) (steps : List ScenarioStep) : ReplayReport where
  results := reports l steps
  mismatches := lines 0 (steps.zip (reports l steps))
  stateRoot := (l.run (events steps)).stateRoot (lastBlock 0 steps)

/-- **Every step is carried out** if no block is below the one before it. -/
theorem replay_of_ordered (h : Ordered steps) (l : Ledger) :
    replay ⟨steps⟩ l = (.ok (reportOf l steps), l.run (events steps)) := by
  have hrun := Progress.run_append (p := .start l) (ordered_iff.mp h) []
  rw [List.append_nil] at hrun
  rw [replay, hrun]
  simp [Progress.run, Progress.report, Progress.after, Progress.start, reportOf]

/-- **The first descent ends a replay.** -/
theorem replay_of_namesFirst (h : e.NamesFirst steps) (l : Ledger) :
    (replay ⟨steps⟩ l).1 = .error e := by
  obtain ⟨xs, t, s, ys, rfl, hxs, hlt, rfl⟩ := h
  have hlast : lastBlock 0 (xs ++ [t]) = t.block := lastBlock_concat ..
  have hsteps : xs ++ t :: s :: ys = (xs ++ [t]) ++ s :: ys := List.append_cons ..
  have hrun := Progress.run_descent (p := .start l) (ordered_iff.mp hxs) (hlast ▸ hlt) ys
  rw [replay, hsteps, hrun]
  simp [Progress.start, hlast]

theorem replay_eq_ok_iff {report : ReplayReport} {last : Ledger} :
    replay ⟨steps⟩ l = (.ok report, last) ↔
      Ordered steps ∧ report = reportOf l steps ∧ last = l.run (events steps) := by
  constructor
  · intro h
    rcases ordered_or_namesFirst steps with hordered | ⟨e, he⟩
    · rw [replay_of_ordered hordered] at h
      cases h
      exact ⟨hordered, rfl, rfl⟩
    · have herror := replay_of_namesFirst he l
      rw [h] at herror
      cases herror
  · rintro ⟨hordered, rfl, rfl⟩
    exact replay_of_ordered hordered l

theorem replay_eq_error_iff : (replay ⟨steps⟩ l).1 = .error e ↔ e.NamesFirst steps := by
  refine ⟨fun h => ?_, fun h => replay_of_namesFirst h l⟩
  rcases ordered_or_namesFirst steps with hordered | ⟨e', he'⟩
  · rw [replay_of_ordered hordered] at h
    cases h
  · rw [replay_of_namesFirst he'] at h
    cases h
    exact he'

theorem Ordered.of_append (h : Ordered (xs ++ ys)) : Ordered xs ∧ Ordered ys := by
  obtain ⟨hxs, hys⟩ := orderedFrom_append.mp (ordered_iff.mp h)
  exact ⟨hxs.ordered, hys.ordered⟩

/-- The report on a replay that goes on: the state root is that of the last part. -/
theorem reportOf_append (l : Ledger) (xs : List ScenarioStep) (hys : ys ≠ []) :
    (reportOf l (xs ++ ys)).results =
        (reportOf l xs).results ++ (reportOf (l.run (events xs)) ys).results ∧
      (reportOf l (xs ++ ys)).stateRoot = (reportOf (l.run (events xs)) ys).stateRoot := by
  refine ⟨reports_append l xs ys, ?_⟩
  simp only [reportOf, events_append, run_append, lastBlock_append 0 0 xs hys]

/-- **Replays that are cut, their reports and their errors.** Steps whose blocks do not decrease can
be replayed in two parts, the second on the ledger of a snapshot that was saved after the first: the
ledger, the reports on all steps and the state root are the same. Whatever a replay reports is one
report on each step, made on the ledger that the steps before it lead to, and one line on each step
whose expectation is not met. A replay fails exactly if some block is below the one before it, and
its error names the first. -/
theorem replay_resumes :
    (∀ (l : Ledger) (xs ys : List ScenarioStep) (block : Block), ys ≠ [] → Ordered (xs ++ ys) →
      (replay ⟨xs⟩ l).2.Fits →
      ∃ first saved loaded second last whole,
        replay ⟨xs⟩ l = (.ok first, saved) ∧
        Snapshot.load (Snapshot.save saved block) = .ok (loaded, block) ∧
        replay ⟨ys⟩ loaded = (.ok second, last) ∧
        replay ⟨xs ++ ys⟩ l = (.ok whole, last) ∧
        whole.results = first.results ++ second.results ∧
        whole.stateRoot = second.stateRoot) ∧
    (∀ (l last : Ledger) (steps : List ScenarioStep) (report : ReplayReport),
      replay ⟨steps⟩ l = (.ok report, last) →
      last = l.run (events steps) ∧
        report.results.length = steps.length ∧
        (∀ i, report.results[i]? = steps[i]?.map fun s : ScenarioStep =>
          (s.transaction.apply s.block (l.run (events (steps.take i)))).1) ∧
        report.mismatches = lines 0 (steps.zip report.results)) ∧
    ∀ (l : Ledger) (steps : List ScenarioStep),
      ((∃ report, (replay ⟨steps⟩ l).1 = .ok report) ↔ Ordered steps) ∧
        ∀ e, (replay ⟨steps⟩ l).1 = .error e ↔ e.NamesFirst steps := by
  refine ⟨fun l xs ys block hys hordered hfits => ?_, fun l last steps report h => ?_,
    fun l steps => ⟨⟨fun ⟨report, h⟩ => ?_, fun h => ?_⟩, fun e => replay_eq_error_iff⟩⟩
  · obtain ⟨hxs, hys'⟩ := hordered.of_append
    rw [replay_of_ordered hxs] at hfits
    have hload := Snapshot.load_encode (s := ⟨Snapshot.currentVersion, block, l.run (events xs)⟩)
      hfits []
    rw [List.append_nil, if_pos rfl] at hload
    obtain ⟨hresults, hroot⟩ := reportOf_append l xs hys
    refine ⟨_, _, _, _, _, _, replay_of_ordered hxs l, hload,
      replay_of_ordered hys' _, ?_, hresults, hroot⟩
    rw [← run_append, ← events_append]
    exact replay_of_ordered hordered l
  · obtain ⟨-, rfl, rfl⟩ := replay_eq_ok_iff.mp h
    exact ⟨rfl, length_reports l steps, getElem?_reports l steps, rfl⟩
  · exact (replay_eq_ok_iff.mp (Prod.ext h rfl)).1
  · exact ⟨reportOf l steps, by rw [replay_of_ordered h]⟩

/-- A stake and a deposit. -/
def opening : List ScenarioStep :=
  [⟨1, .signed (.dev 1), .addStake 1 10, some "ok"⟩,
   ⟨1, .signed (.dev 1), .delegate (.subnet 1) 50, none⟩]

/-- A stake that the account cannot pay for, against what is expected, and a withdrawal. -/
def closing : List ScenarioStep :=
  [⟨2, .signed (.dev 1), .addStake 1 500, some "ok"⟩,
   ⟨4, .signed (.dev 1), .undelegate (.subnet 1) 20, some "ok"⟩]

theorem replay_resumes_opening :
    (∃ first saved loaded second last whole,
      replay ⟨opening⟩ (new funded) = (.ok first, saved) ∧
        Snapshot.load (Snapshot.save saved 1) = .ok (loaded, 1) ∧
        replay ⟨closing⟩ loaded = (.ok second, last) ∧
        replay ⟨opening ++ closing⟩ (new funded) = (.ok whole, last) ∧
        whole.results = first.results ++ second.results ∧
        whole.stateRoot = second.stateRoot) ∧
      (∃ report last, replay ⟨opening ++ closing⟩ (new funded) = (.ok report, last) ∧
        report.results.length = 4 ∧ report.mismatches.length = 1) ∧
      (replay ⟨closing ++ opening⟩ (new funded)).1 = .error ⟨2, 1, 4⟩ := by
  obtain ⟨hcut, hreport, horder⟩ := replay_resumes
  have hfits : (replay ⟨opening⟩ (new funded)).2.Fits :=
    ⟨by constructor <;> decide +kernel, by constructor <;> decide +kernel⟩
  have hordered : Ordered (opening ++ closing) := by decide
  refine ⟨hcut (new funded) opening closing 1 (by decide) hordered hfits, ?_,
    ((horder (new funded) (closing ++ opening)).2 _).mpr ⟨[closing[0]], closing[1], opening[0],
      [opening[1]], rfl, by decide, by decide, rfl⟩⟩
  have hreplay := replay_of_ordered hordered (new funded)
  obtain ⟨-, hlength, -, hlines⟩ := hreport _ _ _ _ hreplay
  exact ⟨_, _, hreplay, hlength, by rw [hlines]; decide +kernel⟩

end Scenario

end Stakebook
