import Stakebook.Form.Documents
import Stakebook.Genesis
import Stakebook.Scenario

/-!
# Documents are read back

Transactions, scenarios, geneses, configurations and the reports on replays are written as
documents. Each value of them has a document, whatever its amounts, accounts and texts, and is read
back from the compact and from the pretty text of it.

Headlines:
* **`LedgerError.roundTrips_form`**, **`LedgerCall.roundTrips_form`**,
  **`CallOutput.roundTrips_form`**: every refusal, every call and every output.
* **`documents_read_back`**: every document that the program reads or writes.
-/

namespace Stakebook

open Form

/-! ## Fields that many records share -/

section fields

variable {name name' name'' : String}

theorem roundTrips_field32 (a : Word 32) :
    (Fields.cons (.required name word32) .nil).RoundTrips (a, ()) :=
  .cons nofun List.not_mem_nil (roundTrips_word 4 a) (.nil ())

theorem roundTrips_field64 (a : Word 64) :
    (Fields.cons (.required name word64) .nil).RoundTrips (a, ()) :=
  .cons nofun List.not_mem_nil (roundTrips_word 8 a) (.nil ())

theorem roundTrips_field128 (a : Word 128) :
    (Fields.cons (.required name word128) .nil).RoundTrips (a, ()) :=
  .cons nofun List.not_mem_nil (roundTrips_word 16 a) (.nil ())

/-- Two amounts under different names, and two numbers of blocks or swaps. -/
theorem roundTrips_pair128 (hn : name ∉ [name']) (a b : Word 128) :
    (Fields.cons (.required name word128) <| .cons (.required name' word128) .nil).RoundTrips
      (a, b, ()) :=
  .cons nofun hn (roundTrips_word 16 a) (roundTrips_field128 b)
@[inherit_doc roundTrips_pair128]
theorem roundTrips_pair64 (hn : name ∉ [name']) (a b : Word 64) :
    (Fields.cons (.required name word64) <| .cons (.required name' word64) .nil).RoundTrips
      (a, b, ()) :=
  .cons nofun hn (roundTrips_word 8 a) (roundTrips_field64 b)

/-- The fields of a call on a subnet. -/
theorem roundTrips_onSubnet (hn : name ∉ [name']) (subnet : SubnetId) (amount : Amount) :
    (Fields.cons (.required name word32) <| .cons (.required name' word128) .nil).RoundTrips
      (subnet, amount, ()) :=
  .cons nofun hn (roundTrips_word 4 subnet) (roundTrips_field128 amount)

/-- The fields of a call on a node of a subnet. -/
theorem roundTrips_onNode (hn : name ∉ [name', name'']) (hn' : name' ∉ [name'']) (key : NodeKey)
    (amount : Amount) :
    (Fields.cons (.required name word32) <| .cons (.required name' word32) <|
      .cons (.required name'' word128) .nil).RoundTrips (key.subnet, key.node, amount, ()) :=
  .cons nofun hn (roundTrips_word 4 key.subnet) (roundTrips_onSubnet hn' key.node amount)

end fields

/-! ## Calls -/

theorem Commit.roundTrips_form (c : Commit) : Commit.form.RoundTrips c :=
  roundTrips_record
    (.cons nofun (by decide) (roundTrips_word 4 c.subnet) <|
     .cons nofun (by decide) (roundTrips_octets c.digest) <| .nil ()) rfl

theorem Reveal.roundTrips_form (r : Reveal) : Reveal.form.RoundTrips r :=
  roundTrips_record
    (.cons nofun (by decide) (roundTrips_word 4 r.subnet) <|
     .cons nofun (by decide) (roundTrips_word 16 r.weight) <|
     .cons nofun (by decide) (roundTrips_batch fun b _ => roundTrips_byte b) <| .nil ()) rfl

theorem Origin.roundTrips_form (o : Origin) : Origin.form.RoundTrips o := by
  refine roundTrips_sum ?_ (by decide)
  cases o with
  | signed who => exact .content 0 rfl rfl rfl rfl (roundTrips_account who)
  | system => exact .unit 1 rfl rfl

theorem PoolId.roundTrips_targetForm (p : PoolId) : PoolId.targetForm.RoundTrips p := by
  refine roundTrips_sum ?_ (by decide)
  cases p with
  | subnet id => exact .fields 0 rfl rfl rfl rfl (roundTrips_field32 id)
  | node key =>
    exact .fields 1 rfl rfl rfl rfl
      (.cons nofun (by decide) (roundTrips_word 4 key.subnet) (roundTrips_field32 key.node))

namespace LedgerCall

theorem roundTrips_delegate (pool : PoolId) (amount : Amount) :
    form.RoundTrips (.delegate pool amount) := by
  refine roundTrips_sum ?_ (by decide)
  cases pool with
  | subnet id => exact .fields 2 rfl rfl rfl rfl (roundTrips_onSubnet (by decide) id amount)
  | node key =>
    exact .fields 6 rfl rfl rfl rfl (roundTrips_onNode (by decide) (by decide) key amount)

theorem roundTrips_undelegate (pool : PoolId) (shares : Shares) :
    form.RoundTrips (.undelegate pool shares) := by
  refine roundTrips_sum ?_ (by decide)
  cases pool with
  | subnet id => exact .fields 3 rfl rfl rfl rfl (roundTrips_onSubnet (by decide) id shares)
  | node key =>
    exact .fields 7 rfl rfl rfl rfl (roundTrips_onNode (by decide) (by decide) key shares)

theorem roundTrips_swap (source target : PoolId) (shares : Shares) :
    form.RoundTrips (.swap source target shares) := by
  refine roundTrips_sum ?_ (by decide)
  cases source with
  | subnet source =>
    cases target with
    | subnet target =>
      exact .fields 4 rfl rfl rfl rfl
        (.cons nofun (by decide) (roundTrips_word 4 source) <|
         roundTrips_onSubnet (by decide) target shares)
    | node target =>
      exact .fields 11 rfl rfl rfl rfl
        (.cons nofun (by decide) (roundTrips_word 4 source) <|
         roundTrips_onNode (by decide) (by decide) target shares)
  | node source =>
    cases target with
    | subnet target =>
      exact .fields 10 rfl rfl rfl rfl
        (.cons nofun (by decide) (roundTrips_word 4 source.subnet) <|
         .cons nofun (by decide) (roundTrips_word 4 source.node) <|
         roundTrips_onSubnet (by decide) target shares)
    | node target =>
      exact .fields 8 rfl rfl rfl rfl
        (.cons nofun (by decide) (roundTrips_word 4 source.subnet) <|
         .cons nofun (by decide) (roundTrips_word 4 source.node) <|
         roundTrips_onNode (by decide) (by decide) target shares)

theorem roundTrips_transfer (pool : PoolId) (target : AccountId) (shares : Shares) :
    form.RoundTrips (.transfer pool target shares) := by
  refine roundTrips_sum ?_ (by decide)
  cases pool with
  | subnet id =>
    exact .fields 5 rfl rfl rfl rfl
      (.cons nofun (by decide) (roundTrips_word 4 id) <|
       .cons nofun (by decide) (roundTrips_account target) <| roundTrips_field128 shares)
  | node key =>
    exact .fields 9 rfl rfl rfl rfl
      (.cons nofun (by decide) (roundTrips_word 4 key.subnet) <|
       .cons nofun (by decide) (roundTrips_word 4 key.node) <|
       .cons nofun (by decide) (roundTrips_account target) <| roundTrips_field128 shares)

theorem roundTrips_distribute (pool : PoolId) (amount : Amount) :
    form.RoundTrips (.distribute pool amount) := by
  refine roundTrips_sum ?_ (by decide)
  cases pool with
  | subnet id => exact .fields 20 rfl rfl rfl rfl (roundTrips_onSubnet (by decide) id amount)
  | node key =>
    exact .fields 21 rfl rfl rfl rfl (roundTrips_onNode (by decide) (by decide) key amount)

/-- **Every call is read back from its document.** -/
theorem roundTrips_form (c : LedgerCall) : form.RoundTrips c := by
  -- that the names of the variants differ is checked once for all calls
  have first (c : LedgerCall) := fun h : FirstRoundTrips c _ =>
    (roundTrips_sum h (by decide) : form.RoundTrips c)
  cases c with
  | delegate pool amount => exact roundTrips_delegate pool amount
  | undelegate pool shares => exact roundTrips_undelegate pool shares
  | swap source target shares => exact roundTrips_swap source target shares
  | transfer pool target shares => exact roundTrips_transfer pool target shares
  | distribute pool amount => exact roundTrips_distribute pool amount
  | addStake subnet amount =>
    exact first _ (.fields 0 rfl rfl rfl rfl (roundTrips_onSubnet (by decide) subnet amount))
  | removeStake subnet amount =>
    exact first _ (.fields 1 rfl rfl rfl rfl (roundTrips_onSubnet (by decide) subnet amount))
  | updateSwap id target =>
    exact first _ (.fields 12 rfl rfl rfl rfl
      (.cons nofun (by decide) (roundTrips_word 8 id) <|
       .cons nofun (by decide) target.roundTrips_targetForm <| .nil ()))
  | updateSwapByTag id tag subnet node =>
    exact first _ (.fields 13 rfl rfl rfl rfl
      (.cons nofun (by decide) (roundTrips_word 8 id) <|
       .cons nofun (by decide) (roundTrips_word 1 tag) <|
       .cons nofun (by decide) (roundTrips_word 4 subnet) <| roundTrips_field32 node))
  | executeSwap id => exact first _ (.fields 14 rfl rfl rfl rfl (roundTrips_field64 id))
  | executeReadySwaps max => exact first _ (.fields 15 rfl rfl rfl rfl (roundTrips_field64 max))
  | claimUnbondings => exact first _ (.unit 16 rfl rfl)
  | commitWeights watcher commits =>
    exact first _ (.fields 17 rfl rfl rfl rfl
      (.cons nofun (by decide) (roundTrips_word 4 watcher) <|
       .cons nofun (by decide) (roundTrips_batch fun c _ => c.roundTrips_form) <| .nil ()))
  | revealWeights watcher reveals =>
    exact first _ (.fields 18 rfl rfl rfl rfl
      (.cons nofun (by decide) (roundTrips_word 4 watcher) <|
       .cons nofun (by decide) (roundTrips_batch fun r _ => r.roundTrips_form) <| .nil ()))
  | pruneOverwatch => exact first _ (.unit 19 rfl rfl)

end LedgerCall

theorem Transaction.roundTrips_form (t : Transaction) : Transaction.form.RoundTrips t :=
  roundTrips_record
    (.cons nofun (by decide) t.origin.roundTrips_form <|
     .cons nofun (by decide) t.call.roundTrips_form <| .nil ()) rfl

/-! ## Scenarios -/

/-- A step without an expectation leaves it out, and has none where it is left out. -/
theorem ScenarioStep.roundTrips_form (s : ScenarioStep) : ScenarioStep.form.RoundTrips s := by
  have homitted (h : s.expect.isNone = true) : some none = some s.expect := by
    rw [Option.isNone_iff_eq_none.mp h]
  have hexpect : (option text).RoundTrips s.expect :=
    roundTrips_option (fun s _ => roundTrips_text s) nofun
  exact roundTrips_record
    (.cons nofun (by decide) (roundTrips_word 8 s.block) <|
     .cons nofun (by decide) s.origin.roundTrips_form <|
     .cons nofun (by decide) s.call.roundTrips_form <|
     .cons homitted (by decide) hexpect <| .nil ()) rfl

theorem Scenario.roundTrips_form (s : Scenario) : Scenario.form.RoundTrips s :=
  roundTrips_record
    (.cons nofun (by decide) (roundTrips_list fun s _ => s.roundTrips_form) <| .nil ()) rfl

/-! ## Configurations and geneses -/

theorem SubnetParams.roundTrips_form (p : SubnetParams) : SubnetParams.form.RoundTrips p :=
  roundTrips_record
    (.cons nofun (by decide) (roundTrips_word 16 p.minStake) <|
     .cons nofun (by decide) (roundTrips_word 16 p.maxStake) <|
     roundTrips_field64 p.unbondingPeriod) rfl

theorem NetworkParams.roundTrips_form (p : NetworkParams) : NetworkParams.form.RoundTrips p := by
  unfold NetworkParams.form
  exact roundTrips_record
    (.cons nofun (by decide) (roundTrips_word 8 p.epochLength) <|
     .cons nofun (by decide) (roundTrips_word 8 p.overwatchMultiplier) <|
     .cons nofun (by decide) (roundTrips_word 16 p.overwatchCutoff) <|
     .cons nofun (by decide) (roundTrips_word 8 p.swapDelay) <|
     .cons nofun (by decide) (roundTrips_word 16 p.minDelegateDeposit) <|
     .cons nofun (by decide) (roundTrips_word 8 p.maxUnbondings) <|
     .cons nofun (by decide) (roundTrips_word 8 p.fallbackUnbondingPeriod) <|
     .cons nofun (by decide) (roundTrips_word 8 p.overwatchRetention) <| .nil ()) rfl

theorem LedgerConfig.roundTrips_form (c : LedgerConfig) : LedgerConfig.form.RoundTrips c :=
  roundTrips_record
    (.cons nofun (by decide) c.network.roundTrips_form <|
     .cons nofun (by decide) c.subnetDefaults.roundTrips_form <| .nil ()) rfl

theorem GenesisSubnet.roundTrips_form (s : GenesisSubnet) : GenesisSubnet.form.RoundTrips s := by
  have hparams : (option SubnetParams.form).RoundTrips s.params :=
    roundTrips_option (fun p _ => p.roundTrips_form) (record_ne_null _ _ _)
  exact roundTrips_record
    (.cons nofun (by decide) hparams <|
     .cons nofun (by decide) (roundTrips_list fun n _ => roundTrips_word 4 n) <| .nil ()) rfl

theorem Genesis.roundTrips_form (g : Genesis) : Genesis.form.RoundTrips g :=
  roundTrips_record
    (.cons nofun (by decide) (roundTrips_map KeyText.roundTrips_account (roundTrips_word 16)) <|
     .cons nofun (by decide)
       (roundTrips_map KeyText.roundTrips_word GenesisSubnet.roundTrips_form) <|
     .cons nofun (by decide) (roundTrips_map KeyText.roundTrips_word roundTrips_account) <|
     .nil ()) rfl

/-! ## Reports -/

/-- **Every refusal is read back from its document.** -/
theorem LedgerError.roundTrips_form (e : LedgerError) : LedgerError.form.RoundTrips e := by
  refine roundTrips_sum ?_ (by decide)
  cases e with
  | insufficientAmount => exact .unit 0 rfl rfl
  | insufficientShares => exact .unit 1 rfl rfl
  | belowMinStake balance min =>
    exact .fields 2 rfl rfl rfl rfl (roundTrips_pair128 (by decide) balance min)
  | aboveMaxStake balance max =>
    exact .fields 3 rfl rfl rfl rfl (roundTrips_pair128 (by decide) balance max)
  | subnetNotActive subnet => exact .content 4 rfl rfl rfl rfl (roundTrips_word 4 subnet)
  | subnetNodeNotActive subnet node =>
    exact .fields 5 rfl rfl rfl rfl
      (.cons nofun (by decide) (roundTrips_word 4 subnet) (roundTrips_field32 node))
  | ledgerFull capacity => exact .fields 6 rfl rfl rfl rfl (roundTrips_field64 capacity)
  | queueLocked id block => exact .fields 7 rfl rfl rfl rfl (roundTrips_pair64 (by decide) id block)
  | notMatured id block => exact .fields 8 rfl rfl rfl rfl (roundTrips_pair64 (by decide) id block)
  | swapNotFound id => exact .content 9 rfl rfl rfl rfl (roundTrips_word 8 id)
  | invalidCallType tag => exact .content 10 rfl rfl rfl rfl (roundTrips_word 1 tag)
  | noCommit epoch subnet =>
    exact .fields 11 rfl rfl rfl rfl
      (.cons nofun (by decide) (roundTrips_word 8 epoch) (roundTrips_field32 subnet))
  | hashMismatch => exact .unit 12 rfl rfl
  | outOfWindow => exact .unit 13 rfl rfl
  | invalidWeight weight => exact .content 14 rfl rfl rfl rfl (roundTrips_word 16 weight)
  | unauthorized => exact .unit 15 rfl rfl
  | insufficientBalance => exact .unit 16 rfl rfl
  | belowMinDelegateDeposit amount min =>
    exact .fields 17 rfl rfl rfl rfl (roundTrips_pair128 (by decide) amount min)
  | zeroShares => exact .unit 18 rfl rfl
  | overflow => exact .unit 19 rfl rfl
  | encoding => exact .unit 20 rfl rfl

theorem SwapOutcome.roundTrips_form (o : SwapOutcome) : SwapOutcome.form.RoundTrips o := by
  refine roundTrips_sum ?_ (by decide)
  cases o with
  | deposited shares => exact .fields 0 rfl rfl rfl rfl (roundTrips_field128 shares)
  | unbonded block => exact .fields 1 rfl rfl rfl rfl (roundTrips_field64 block)

/-- A cause that may be missing, in the field of that name. -/
theorem LedgerError.roundTrips_optional (e : Option LedgerError) :
    (option LedgerError.form).RoundTrips e :=
  roundTrips_option (fun e _ => e.roundTrips_form) (sum_ne_null _)

theorem SwapResult.roundTrips_form (r : SwapResult) : SwapResult.form.RoundTrips r := by
  have houtcome : (option SwapOutcome.form).RoundTrips r.outcome :=
    roundTrips_option (fun o _ => o.roundTrips_form) (sum_ne_null _)
  exact roundTrips_record
    (.cons nofun (by decide) (roundTrips_word 8 r.id) <|
     .cons nofun (by decide) houtcome <|
     .cons nofun (by decide) (LedgerError.roundTrips_optional r.error) <| .nil ()) rfl

/-- **Every output is read back from its document.** -/
theorem CallOutput.roundTrips_form (o : CallOutput) : CallOutput.form.RoundTrips o := by
  refine roundTrips_sum ?_ (by decide)
  cases o with
  | done => exact .unit 0 rfl rfl
  | stake balance => exact .fields 1 rfl rfl rfl rfl (roundTrips_field128 balance)
  | unbonding block => exact .fields 2 rfl rfl rfl rfl (roundTrips_field64 block)
  | shares shares => exact .fields 3 rfl rfl rfl rfl (roundTrips_field128 shares)
  | withdrawn amount => exact .fields 4 rfl rfl rfl rfl (roundTrips_field128 amount)
  | swapQueued id => exact .fields 5 rfl rfl rfl rfl (roundTrips_field64 id)
  | swap outcome =>
    exact .fields 6 rfl rfl rfl rfl (.cons nofun (by decide) outcome.roundTrips_form <| .nil ())
  | swaps results =>
    exact .fields 7 rfl rfl rfl rfl
      (.cons nofun (by decide) (roundTrips_list fun r _ => r.roundTrips_form) <| .nil ())
  | claimed amount => exact .fields 8 rfl rfl rfl rfl (roundTrips_field128 amount)
  | epoch epoch => exact .fields 9 rfl rfl rfl rfl (roundTrips_field64 epoch)
  | pruned removed => exact .fields 10 rfl rfl rfl rfl (roundTrips_field64 removed)

theorem ExecutionResult.roundTrips_form (r : ExecutionResult) :
    ExecutionResult.form.RoundTrips r := by
  have houtput : (option CallOutput.form).RoundTrips r.output :=
    roundTrips_option (fun o _ => o.roundTrips_form) (sum_ne_null _)
  exact roundTrips_record
    (.cons nofun (by decide) (roundTrips_octets r.digest) <|
     .cons nofun (by decide) (roundTrips_text r.call) <|
     .cons nofun (by decide) (roundTrips_word 8 r.block) <|
     .cons nofun (by decide) houtput <|
     .cons nofun (by decide) (LedgerError.roundTrips_optional r.error) <| .nil ()) rfl

theorem StateRoot.roundTrips_form (r : StateRoot) : StateRoot.form.RoundTrips r :=
  roundTrips_record
    (.cons nofun (by decide) (roundTrips_octets r.root) <| roundTrips_field64 r.block) rfl

theorem ReplayReport.roundTrips_form (r : ReplayReport) : ReplayReport.form.RoundTrips r :=
  roundTrips_record
    (.cons nofun (by decide) (roundTrips_list fun r _ => r.roundTrips_form) <|
     .cons nofun (by decide) (roundTrips_list fun s _ => roundTrips_text s) <|
     .cons nofun (by decide) r.stateRoot.roundTrips_form <| .nil ()) rfl

/-! ## All documents -/

/-- **Documents are read back.** Every transaction, scenario, genesis, configuration and report on a
replay has a document, and is read back both from the compact and from the pretty text of it. -/
theorem documents_read_back :
    (∀ t, Transaction.form.ReadsTexts t) ∧ (∀ s, Scenario.form.ReadsTexts s) ∧
      (∀ g, Genesis.form.ReadsTexts g) ∧ (∀ c, LedgerConfig.form.ReadsTexts c) ∧
      ∀ r, ReplayReport.form.ReadsTexts r :=
  ⟨fun t => t.roundTrips_form.readsTexts, fun s => s.roundTrips_form.readsTexts,
    fun g => g.roundTrips_form.readsTexts, fun c => c.roundTrips_form.readsTexts,
    fun r => r.roundTrips_form.readsTexts⟩

end Stakebook
