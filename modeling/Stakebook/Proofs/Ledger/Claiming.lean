import Stakebook.Proofs.Claiming
import Stakebook.Proofs.Ledger.Acceptance
import Stakebook.Proofs.Ledger.Conservation

/-!
# Claiming early

`settle` is the ledger after a claim. A claim at an earlier block adds nothing to one at a later
block, so it does not matter how often an account claims on the way. Nor does it matter if it claims
first at the block of a call: whatever the call does to the unbonding list, by a merge, a new entry
or a release, it does as well to the list that the claim leaves, and once the account has claimed
again no trace of the difference is left. `InRange` collects what a claim needs of the ledger for
that: no list past its capacity, and no addition cut short.

Headlines:
* **`settle_settle_of_le`**, **`settle_after_of_le`**: of two claims the later one counts.
* **`run_claims`**: so of any number of them the latest one counts.
* **`Effect.exists_settle`**: what a call does it does after a claim as well, up to a last claim.
* **`claims_harmless`**: both, on every reachable ledger.
-/

namespace Stakebook

/-- What a call has paid out as claimed. -/
def CallOutput.claimedAmount : CallOutput → Nat
  | .claimed amount => amount.toNat
  | _ => 0

/-- The claim of an account. -/
def Transaction.claimBy (who : AccountId) : Transaction := ⟨.signed who, .claimUnbondings⟩

namespace Ledger

open Book Transaction

variable {l l' m : Ledger} {who x : AccountId} {block block' : Block} {amount released : Amount}
  {unlock : Block} {unbonding : Unbonding} {call : LedgerCall} {signer : Option AccountId}
  {output : CallOutput}

/-! ## The ledger after a claim -/

/-- The ledger after a claim. -/
def settle (l : Ledger) (who : AccountId) (block : Block) : Ledger :=
  ⟨{ l.book with unbonding := (l.book.unbonding.claim who block).2 },
    l.registry.pay who (l.book.unbonding.claim who block).1⟩

theorem effect_settle (l : Ledger) (who : AccountId) (block : Block) :
    Effect block l .claimUnbondings (some who) (.claimed (l.book.unbonding.claim who block).1)
      (l.settle who block) :=
  .claimUnbondings rfl

/-- A claim is always accepted. -/
theorem apply_claimBy (who : AccountId) (block : Block) (l : Ledger) :
    (claimBy who).apply block l =
      (⟨(claimBy who).digest, (claimBy who).call.name, block,
        some (.claimed (l.book.unbonding.claim who block).1), none⟩, l.settle who block) :=
  apply_eq_of_effect rfl (l.effect_settle who block)

/-- A ledger where the claim finds the same lists. -/
theorem settle_mk {book : Book} (h : book.unbonding = l.book.unbonding) (registry : Registry)
    (who : AccountId) (block : Block) :
    (⟨book, registry⟩ : Ledger).settle who block =
      ⟨{ book with unbonding := (l.settle who block).book.unbonding },
        registry.pay who (l.book.unbonding.claim who block).1⟩ := by
  unfold settle
  rw [h]

/-- A valid book within its capacity, where all that accounts own is in range together. -/
structure InRange (l : Ledger) : Prop where
  valid : l.book.Valid
  within : l.book.unbonding.WithinCapacity
  fits : l.value < 2 ^ 128

namespace InRange

/-- An account has room for what waits, and so has its list. -/
theorem free_add_waiting (hl : l.InRange) (who : AccountId) :
    (l.registry.freeBalance who).toNat + l.book.unbonding.waiting < 2 ^ 128 := by
  have hfits := hl.fits
  have hfree := l.registry.freeBalance_le_totalFree who
  unfold value at hfits
  omega

theorem pending_lt (hl : l.InRange) (who : AccountId) :
    Pending.sum (l.book.unbonding.pending who) < 2 ^ 128 := by
  have hroom := hl.free_add_waiting who
  have hle := l.book.unbonding.sum_pending_le_waiting who
  omega

/-- An account has room for what it claims. -/
theorem free_add_claim (hl : l.InRange) (who : AccountId) (block : Block) :
    (l.registry.freeBalance who).toNat + (l.book.unbonding.claim who block).1.toNat < 2 ^ 128 := by
  have hroom := hl.free_add_waiting who
  have hle := l.book.unbonding.sum_pending_le_waiting who
  have hclaim := l.book.unbonding.toNat_claim_le who block
  omega

/-- A call that adds nothing from outside. -/
theorem effect (hl : l.InRange) (h : Effect block l call signer output l')
    (hreward : call.reward = 0) : l'.InRange := by
  have hfits := hl.fits
  have hvalue := h.value hl.valid (by omega)
  exact ⟨h.valid hl.valid, h.withinCapacity hl.within, by omega⟩

theorem settle (hl : l.InRange) (who : AccountId) (block : Block) : (l.settle who block).InRange :=
  hl.effect (l.effect_settle who block) rfl

/-- A swap that is executed or refused. -/
theorem executeSwap (hl : l.InRange) (id : SwapId) (block : Block) :
    ((executeSwap id block).perform l).2.InRange := by
  rcases swapEffect_or_refusal block id l with ⟨outcome, l', heffect⟩ | ⟨e, hrefusal⟩
  · rw [perform_executeSwap heffect]
    have hcall : Effect block l (.executeSwap id) none (.swap outcome) l' := .executeSwap heffect
    exact hl.effect hcall rfl
  · rw [perform_executeSwap_of_refusal hrefusal]
    exact hl

end InRange

/-! ## Two claims -/

/-- **A claim adds nothing to a later one.** -/
theorem settle_settle_of_le (hl : l.InRange) (hle : block ≤ block') (who : AccountId) :
    (l.settle who block).settle who block' = l.settle who block' := by
  obtain ⟨hleft, hpaid⟩ := Unbonding.claim_claim_of_le hle (hl.pending_lt who)
  have hpay := Registry.pay_pay (hl.free_add_claim who block') hpaid
  unfold settle
  simp only [hleft, hpay]

/-- **Nor does it behind the later one.** -/
theorem settle_after_of_le (hle : block ≤ block') (l : Ledger) (who : AccountId) :
    (l.settle who block').settle who block = l.settle who block' := by
  have hclaim := Unbonding.claim_after_of_le hle l.book.unbonding who
  unfold settle
  simp only [hclaim, Registry.pay_zero]

theorem settle_self (l : Ledger) (who : AccountId) (block : Block) :
    (l.settle who block).settle who block = l.settle who block :=
  settle_after_of_le (Nat.le_refl _) l who

/-! ## Any number of claims -/

/-- The claims of an account at some blocks. -/
def claims (who : AccountId) (blocks : List Block) : List Event :=
  blocks.map fun block => .transaction (claimBy who) block

/-- What was claimed in a run. -/
def claimedIn (history : List Answer) : Nat := (history.map fun a => a.2.claimedAmount).sum

theorem step_claimBy (l : Ledger) (who : AccountId) (block : Block) :
    l.step (.transaction (claimBy who) block) = l.settle who block :=
  congrArg Prod.snd (apply_claimBy who block l)

theorem answer_claimBy (l : Ledger) (who : AccountId) (block : Block) :
    l.answer (.transaction (claimBy who) block) =
      [(.claimUnbondings, .claimed (l.book.unbonding.claim who block).1)] := by
  unfold answer
  simp only
  rw [apply_claimBy]
  rfl

theorem run_claims_cons (l : Ledger) (who : AccountId) (block : Block) (blocks : List Block) :
    l.run (claims who (block :: blocks)) = (l.settle who block).run (claims who blocks) := by
  unfold claims
  rw [List.map_cons, run_cons, step_claimBy]

theorem claimedIn_claims_cons (l : Ledger) (who : AccountId) (block : Block) (blocks : List Block) :
    claimedIn (l.history (claims who (block :: blocks))) =
      (l.book.unbonding.claim who block).1.toNat +
        claimedIn ((l.settle who block).history (claims who blocks)) := by
  unfold claims
  rw [List.map_cons]
  show claimedIn (l.answer _ ++ (l.step _).history _) = _
  rw [step_claimBy, answer_claimBy]
  rfl

/-- Behind a claim earlier ones pay nothing. -/
theorem run_claims_after {blocks : List Block} (hle : ∀ b ∈ blocks, b ≤ block) (l : Ledger)
    (who : AccountId) :
    (l.settle who block).run (claims who blocks) = l.settle who block ∧
      claimedIn ((l.settle who block).history (claims who blocks)) = 0 := by
  induction blocks with
  | nil => exact ⟨rfl, rfl⟩
  | cons b blocks ih =>
    have hb := hle b List.mem_cons_self
    obtain ⟨hrun, hpaid⟩ := ih fun c hc => hle c (List.mem_cons_of_mem _ hc)
    have hclaim := Unbonding.claim_after_of_le hb l.book.unbonding who
    rw [run_claims_cons, claimedIn_claims_cons, settle_after_of_le hb, hpaid]
    refine ⟨hrun, ?_⟩
    show ((l.book.unbonding.claim who block).2.claim who b).1.toNat + 0 = 0
    rw [hclaim]
    rfl

/-- **Of any number of claims the latest one counts**: together they pay what it pays alone, and
leave what it leaves. -/
theorem run_claims (hl : l.InRange) {blocks : List Block} (hmem : block ∈ blocks)
    (hle : ∀ b ∈ blocks, b ≤ block) (who : AccountId) :
    l.run (claims who blocks) = l.settle who block ∧
      claimedIn (l.history (claims who blocks)) =
        (l.book.unbonding.claim who block).1.toNat := by
  induction blocks generalizing l with
  | nil => cases hmem
  | cons b blocks ih =>
    have hb := hle b List.mem_cons_self
    have hrest (c : Block) (hc : c ∈ blocks) : c ≤ block := hle c (List.mem_cons_of_mem _ hc)
    rw [run_claims_cons, claimedIn_claims_cons]
    by_cases hlater : block ∈ blocks
    · obtain ⟨hrun, hpaid⟩ := ih (hl.settle who b) hlater hrest
      obtain ⟨-, hboth⟩ := Unbonding.claim_claim_of_le hb (hl.pending_lt who)
      rw [hrun, hpaid]
      exact ⟨settle_settle_of_le hl hb who, hboth⟩
    · -- the first claim is the latest one
      obtain rfl : block = b := (List.mem_cons.mp hmem).resolve_right hlater
      obtain ⟨hrun, hpaid⟩ := run_claims_after hrest l who
      exact ⟨hrun, by rw [hpaid, Nat.add_zero]⟩

/-! ## A claim before an amount enters -/

/-- What enters a list before a claim enters it as well after it, and after a last claim the ledger
is the same, whatever else of the book has changed. -/
theorem exists_enqueue_settle (hl : l.InRange)
    (hfit : l.registry.totalFree + l.book.unbonding.waiting + amount.toNat < 2 ^ 128)
    (h : l.book.unbonding.enqueue x amount unlock block = .ok (released, unbonding))
    (who : AccountId) :
    ∃ released' unbonding',
      (l.settle who block).book.unbonding.enqueue x amount unlock block =
        .ok (released', unbonding') ∧
      ∀ book : Book,
        (⟨{ book with unbonding := unbonding' }, (l.settle who block).registry.pay x released'⟩ :
            Ledger).settle who block =
          (⟨{ book with unbonding }, l.registry.pay x released⟩ : Ledger).settle who block := by
  by_cases hx : x = who
  · subst hx
    have hwaiting := l.book.unbonding.sum_pending_le_waiting x
    have hfree := l.registry.freeBalance_le_totalFree x
    have hafter := Unbonding.waiting_enqueue h (by omega)
    have hclaim := unbonding.toNat_claim_le x block
    have hlater := unbonding.sum_pending_le_waiting x
    obtain ⟨v, hv, hleft, hpaid⟩ := Unbonding.enqueue_claim_self hl.within (by omega) h
    refine ⟨0, v, hv, fun book => ?_⟩
    -- both accounts come to the same payment
    have hsum := Word.toNat_add_of_lt (a := released) (b := (unbonding.claim x block).1) (by omega)
    have hroom : (l.registry.freeBalance x).toNat +
        (released + (unbonding.claim x block).1).toNat < 2 ^ 128 := by omega
    have hpay := Registry.pay_pay hroom hsum.symm
    have hpay' := Registry.pay_pay hroom (hpaid.trans hsum.symm)
    unfold settle
    simp only [hleft, hpay, Registry.pay_zero, hpay']
  · obtain ⟨v, hv, hclaim, hpaid⟩ := Unbonding.enqueue_claim_of_ne hx h
    refine ⟨released, v, hv, fun book => ?_⟩
    have hpay := Registry.pay_comm hx l.registry (l.book.unbonding.claim who block).1 released
    unfold settle
    simp only [hclaim, hpaid, hpay, Registry.pay_zero]

/-! ## A claim before a call -/

theorem network_settle (l : Ledger) (who : AccountId) (block : Block) :
    (l.settle who block).registry.network = l.registry.network := Registry.network_pay ..

theorem activePool_settle (l : Ledger) (who : AccountId) (block : Block) (pool : PoolId) :
    (l.settle who block).registry.activePool pool = l.registry.activePool pool :=
  congrFun (Registry.activePool_pay ..) pool

theorem activeSubnet_settle (l : Ledger) (who : AccountId) (block : Block) (subnet : SubnetId) :
    (l.settle who block).registry.activeSubnet subnet = l.registry.activeSubnet subnet :=
  congrFun (Registry.activeSubnet_pay ..) subnet

theorem leavingParams_settle (l : Ledger) (who : AccountId) (block : Block) (subnet : SubnetId) :
    (l.settle who block).registry.leavingParams subnet = l.registry.leavingParams subnet :=
  congrFun (Registry.leavingParams_pay ..) subnet

theorem checkOwner_settle (l : Ledger) (who : AccountId) (block : Block) (x : AccountId)
    (watcher : WatcherId) :
    (l.settle who block).registry.checkOwner x watcher = l.registry.checkOwner x watcher :=
  congrFun (congrFun (Registry.checkOwner_pay ..) x) watcher

/-- Whether the target of a swap takes it does not depend on a claim. -/
theorem quote_settle (l : Ledger) (who : AccountId) (block : Block) (swap : QueuedSwap) :
    (do
      let _ ← (l.settle who block).registry.activePool swap.target
      (l.settle who block).book.quoteDeposit swap.target swap.balance 0) =
    (do
      let _ ← l.registry.activePool swap.target
      l.book.quoteDeposit swap.target swap.balance 0) := by
  rw [activePool_settle]
  exact congrArg _ (funext fun _ => quoteDeposit_with_unbonding ..)

/-- **What a swap does it does after a claim as well**, and after a last claim the ledger is the
same. -/
theorem SwapEffect.exists_settle {id : SwapId} {outcome : SwapOutcome} (hl : l.InRange)
    (h : SwapEffect block id l outcome l') (who : AccountId) :
    ∃ m, SwapEffect block id (l.settle who block) outcome m ∧
      m.settle who block = l'.settle who block := by
  cases h with
  | deposited matured active deposit =>
    have hunbonding := (PoolMove.of_deposit deposit).unbonding_eq
    refine ⟨_, ?_, settle_self _ who block⟩
    rw [settle_mk hunbonding]
    rw [← activePool_settle l who block] at active
    exact .deposited (l := l.settle who block) matured active (deposit_with_unbonding deposit _)
  | @unbonded swap _ _ _ matured refused enter =>
    obtain ⟨hswap, -⟩ := SwapQueue.checkMatured_eq_ok_iff.mp matured
    have hqueued := SwapQueue.queued_remove hswap
    have hfits := hl.fits
    obtain ⟨released', unbonding', enter', hsettle⟩ := exists_enqueue_settle hl
      (by unfold Ledger.value at hfits; omega) enter who
    refine ⟨_, ?_, hsettle { l.book with swaps := l.book.swaps.remove id }⟩
    rw [← quote_settle l who block] at refused
    rw [← network_settle l who block] at enter' ⊢
    exact .unbonded (l := l.settle who block) matured refused enter'

/-- **What a swap is refused for it is refused for after a claim as well.** -/
theorem SwapRefusal.settle {id : SwapId} {e : LedgerError} (hl : l.InRange)
    (h : SwapRefusal block id l e) (who : AccountId) :
    SwapRefusal block id (l.settle who block) e := by
  cases h with
  | notMatured notMatured => exact .notMatured notMatured
  | @noRoom swap _ matured refused full =>
    obtain ⟨hswap, -⟩ := SwapQueue.checkMatured_eq_ok_iff.mp matured
    have hqueued := SwapQueue.queued_remove hswap
    have hfits := hl.fits
    have hwaiting := l.book.unbonding.sum_pending_le_waiting swap.account
    rw [← quote_settle l who block] at refused
    refine .noRoom (l := l.settle who block) matured refused ?_
    rw [network_settle, ← full]
    exact Unbonding.checkEnqueue_claim hl.within (by unfold Ledger.value at hfits; omega) ..

/-- **What becomes of a swap becomes of it after a claim as well.** -/
theorem perform_executeSwap_settle (hl : l.InRange) (id : SwapId) (who : AccountId)
    (block : Block) :
    ((executeSwap id block).perform (l.settle who block)).1 =
        ((executeSwap id block).perform l).1 ∧
      ((executeSwap id block).perform (l.settle who block)).2.settle who block =
        ((executeSwap id block).perform l).2.settle who block := by
  rcases swapEffect_or_refusal block id l with ⟨outcome, l', heffect⟩ | ⟨e, hrefusal⟩
  · obtain ⟨m, heffect', hm⟩ := heffect.exists_settle hl who
    rw [perform_executeSwap heffect, perform_executeSwap heffect']
    exact ⟨rfl, hm⟩
  · rw [perform_executeSwap_of_refusal hrefusal,
      perform_executeSwap_of_refusal (hrefusal.settle hl who)]
    exact ⟨rfl, settle_self l who block⟩

/-- **A batch does the same on two ledgers that a claim makes equal**, and the claim makes equal
what it leaves. -/
theorem executeAll_of_settle_eq (hl : l.InRange) (hm : m.InRange)
    (h : m.settle who block = l.settle who block) (ids : List SwapId) :
    outcomes block ids m = outcomes block ids l ∧
      (executeAll block ids m).settle who block = (executeAll block ids l).settle who block := by
  induction ids generalizing l m with
  | nil => exact ⟨rfl, h⟩
  | cons id ids ih =>
    obtain ⟨houtcome, hleft⟩ := perform_executeSwap_settle hl id who block
    obtain ⟨houtcome', hleft'⟩ := perform_executeSwap_settle hm id who block
    rw [h] at houtcome' hleft'
    obtain ⟨hrest, hafter⟩ := ih (hl.executeSwap id block) (hm.executeSwap id block)
      (hleft'.symm.trans hleft)
    refine ⟨?_, hafter⟩
    unfold outcomes
    rw [hrest, ← houtcome, ← houtcome']

/-- A call that leaves the unbonding lists as they are does not meet the claim. -/
theorem exists_settle_of_frame {book : Book} {registry : Registry}
    (hunbonding : book.unbonding = l.book.unbonding)
    (h : Effect block (l.settle who block) call signer output
      ⟨{ book with unbonding := (l.settle who block).book.unbonding },
        registry.pay who (l.book.unbonding.claim who block).1⟩) :
    ∃ m, Effect block (l.settle who block) call signer output m ∧
      m.settle who block = (⟨book, registry⟩ : Ledger).settle who block := by
  refine ⟨_, ?_, settle_self _ who block⟩
  rw [settle_mk hunbonding]
  exact h

/-- **What a call does it does after a claim as well**, with the same output, and after a last claim
the ledger is the same. -/
theorem Effect.exists_settle (hl : l.InRange) (h : Effect block l call signer output l')
    (hcall : call ≠ .claimUnbondings) (who : AccountId) :
    ∃ m, Effect block (l.settle who block) call signer output m ∧
      m.settle who block = l'.settle who block := by
  cases h with
  | addStake active debit add =>
    rw [← activeSubnet_settle l who block] at active
    exact exists_settle_of_frame rfl (.addStake (l := l.settle who block) active
      (Registry.debit_pay debit (hl.free_add_claim who block)) add)
  | removeStake remove unlocks enter =>
    have hstaked := Stakes.totalStaked_remove remove
    have hfits := hl.fits
    obtain ⟨released', unbonding', enter', hsettle⟩ := exists_enqueue_settle hl
      (by unfold Ledger.value at hfits; omega) enter who
    refine ⟨_, ?_, hsettle { l.book with stakes := _ }⟩
    rw [← leavingParams_settle l who block] at remove unlocks
    exact .removeStake (l := l.settle who block) remove unlocks enter'
  | delegate active debit deposit =>
    have hunbonding := (PoolMove.of_deposit deposit).unbonding_eq
    rw [← activePool_settle l who block] at active
    rw [← network_settle l who block] at deposit
    exact exists_settle_of_frame hunbonding (.delegate (l := l.settle who block) active
      (Registry.debit_pay debit (hl.free_add_claim who block)) (deposit_with_unbonding deposit _))
  | @undelegate _ _ _ _ _ _ book _ withdraw unlocks worth enter =>
    have hpooled := hl.valid.pooled_withdraw withdraw
    have hfits := hl.fits
    obtain ⟨released', unbonding', enter', hsettle⟩ := exists_enqueue_settle hl
      (by unfold Ledger.value at hfits; omega) enter who
    refine ⟨_, ?_, hsettle book⟩
    rw [← leavingParams_settle l who block] at unlocks
    have heffect := Effect.undelegate (l := l.settle who block)
      (withdraw_with_unbonding withdraw _) unlocks worth enter'
    exact heffect
  | burn withdraw =>
    have hunbonding := (PoolMove.of_withdraw withdraw).unbonding_eq
    exact exists_settle_of_frame hunbonding
      (.burn (l := l.settle who block) (withdraw_with_unbonding withdraw _))
  | @swap _ _ _ _ _ _ _ book swaps active withdraw queue =>
    have hunbonding : ({ book with swaps } : Book).unbonding = l.book.unbonding :=
      (PoolMove.of_withdraw withdraw).unbonding_eq
    rw [← activePool_settle l who block] at active
    rw [← network_settle l who block] at queue
    have heffect := Effect.swap (l := l.settle who block) active
      (withdraw_with_unbonding withdraw _) queue
    exact exists_settle_of_frame hunbonding heffect
  | transfer transfer =>
    have hunbonding := (PoolMove.of_transfer transfer).unbonding_eq
    rw [← network_settle l who block] at transfer
    exact exists_settle_of_frame hunbonding
      (.transfer (l := l.settle who block) (transfer_with_unbonding transfer _))
  | updateSwap active update =>
    rw [← activePool_settle l who block] at active
    exact exists_settle_of_frame rfl (.updateSwap (l := l.settle who block) active update)
  | updateSwapByTag parts active update =>
    rw [← activePool_settle l who block] at active
    exact exists_settle_of_frame rfl
      (.updateSwapByTag (l := l.settle who block) parts active update)
  | executeSwap effect =>
    obtain ⟨m, heffect, hm⟩ := effect.exists_settle hl who
    exact ⟨m, .executeSwap heffect, hm⟩
  | @executeReadySwaps _ max _ _ batch =>
    obtain ⟨houtcomes, hleft⟩ := executeAll_of_settle_eq hl (hl.settle who block)
      (settle_self l who block) (l.book.swaps.ready block max)
    rw [batch.outcomes_eq] at houtcomes
    rw [batch.executeAll_eq] at hleft
    have hbatch := effect_of_batch block (l.book.swaps.ready block max) (l.settle who block)
    rw [houtcomes] at hbatch
    exact ⟨_, .executeReadySwaps hbatch, hleft⟩
  | claimUnbondings => exact absurd rfl hcall
  | commitWeights owner active commit =>
    rw [← checkOwner_settle l who block] at owner
    rw [← network_settle l who block] at commit
    refine exists_settle_of_frame rfl
      (.commitWeights (l := l.settle who block) owner (fun c hc => ?_) commit)
    rw [activeSubnet_settle]
    exact active c hc
  | revealWeights owner reveal =>
    rw [← checkOwner_settle l who block] at owner
    rw [← network_settle l who block] at reveal
    exact exists_settle_of_frame rfl (.revealWeights (l := l.settle who block) owner reveal)
  | pruneOverwatch prune =>
    rw [← network_settle l who block] at prune
    exact exists_settle_of_frame rfl (.pruneOverwatch (l := l.settle who block) prune)
  | distribute active distribute =>
    have hunbonding := (PoolMove.of_distribute distribute).unbonding_eq
    rw [← activePool_settle l who block] at active
    exact exists_settle_of_frame hunbonding
      (.distribute (l := l.settle who block) active (distribute_with_unbonding distribute _))

/-- **Claiming early does no harm.** On every reachable ledger where all that accounts own is in
range together, claims of an account at some blocks pay in total what its claim at the latest of them
pays, and leave the ledger that it leaves. And any accepted call that is not itself a claim is
accepted right after a claim of the account at the block of the call, with the same report, and once
the account has claimed again the ledger is the one without the first claim. -/
theorem claims_harmless (hreachable : l.Reachable) (hfit : l.value < 2 ^ 128) (who : AccountId) :
    (∀ (blocks : List Block) (latest : Block), latest ∈ blocks → (∀ b ∈ blocks, b ≤ latest) →
      l.run (claims who blocks) = l.run (claims who [latest]) ∧
        claimedIn (l.history (claims who blocks)) = claimedIn (l.history (claims who [latest]))) ∧
    ∀ (t : Transaction) (block : Block), t.call ≠ .claimUnbondings →
      (t.apply block l).1.success = true →
      (t.apply block ((claimBy who).apply block l).2).1 = (t.apply block l).1 ∧
        ((claimBy who).apply block (t.apply block ((claimBy who).apply block l).2).2).2 =
          ((claimBy who).apply block (t.apply block l).2).2 := by
  have hl : l.InRange := ⟨hreachable.valid, hreachable.withinCapacity, hfit⟩
  refine ⟨fun blocks latest hmem hle => ?_, fun t block hcall haccepted => ?_⟩
  · obtain ⟨hrun, hpaid⟩ := run_claims hl hmem hle who
    obtain ⟨hlast, honce⟩ := run_claims hl (List.mem_singleton_self latest)
      (fun b hb => List.mem_singleton.mp hb ▸ Nat.le_refl _) who
    exact ⟨hrun.trans hlast.symm, hpaid.trans honce.symm⟩
  · rcases t.effect_of_apply block l with
      ⟨signer, output, hsigner, hreport, heffect⟩ | ⟨e, hrefused⟩
    · obtain ⟨m, heffect', hm⟩ := heffect.exists_settle hl hcall who
      rw [apply_claimBy, apply_eq_of_effect hsigner heffect', hreport, apply_claimBy, apply_claimBy]
      exact ⟨rfl, hm⟩
    · rw [hrefused] at haccepted
      cases haccepted

/-- The funded account, and a subnet that lets everything go at once. -/
def hasty : Registry := funded.registerSubnet 1 ⟨0, .max, 0⟩

/-- A deposit, and a withdrawal that has unlocked where it enters the list. -/
def withdrawn : List Event :=
  [.transaction ⟨.signed (.dev 1), .delegate (.subnet 1) 50⟩ 0,
   .transaction ⟨.signed (.dev 1), .undelegate (.subnet 1) 20⟩ 1]

/-- Another withdrawal. It merges with the first one, unless that was claimed. -/
def withdrawing : Transaction := ⟨.signed (.dev 1), .undelegate (.subnet 1) 10⟩

theorem claims_harmless_withdrawn :
    let l := (new hasty).run withdrawn
    let claimed := ((claimBy (.dev 1)).apply 1 l).2
    l.Reachable ∧ l.value < 2 ^ 128 ∧
      claimedIn (l.history (claims (.dev 1) [2, 5, 0])) = 20 ∧
      l.run (claims (.dev 1) [2, 5, 0]) = l.run (claims (.dev 1) [5]) ∧
      (withdrawing.apply 1 l).1.success = true ∧
      (withdrawing.apply 1 l).2.book.unbonding.pending (.dev 1) = [⟨30, 1⟩] ∧
      (withdrawing.apply 1 claimed).2.book.unbonding.pending (.dev 1) = [⟨10, 1⟩] ∧
      (withdrawing.apply 1 claimed).1 = (withdrawing.apply 1 l).1 ∧
      ((claimBy (.dev 1)).apply 1 (withdrawing.apply 1 claimed).2).2 =
        ((claimBy (.dev 1)).apply 1 (withdrawing.apply 1 l).2).2 := by
  intro l claimed
  have hreachable : l.Reachable := ⟨hasty, withdrawn, rfl⟩
  have hfit : l.value < 2 ^ 128 := by decide +kernel
  have haccepted : (withdrawing.apply 1 l).1.success = true := by decide +kernel
  obtain ⟨hclaims, hcalls⟩ := claims_harmless hreachable hfit (.dev 1)
  obtain ⟨hrun, hpaid⟩ := hclaims [2, 5, 0] 5 (by decide) (by decide)
  obtain ⟨hreport, hleft⟩ := hcalls withdrawing 1 (by decide) haccepted
  have honce : claimedIn (l.history (claims (.dev 1) [5])) = 20 := by decide +kernel
  exact ⟨hreachable, hfit, hpaid.trans honce, hrun, haccepted, by decide +kernel,
    by decide +kernel, hreport, hleft⟩

end Ledger

end Stakebook
