import Stakebook.Proofs.Ledger.Conservation
import Stakebook.Proofs.Ledger.Frames
import Stakebook.Proofs.Locality
import Stakebook.Proofs.Pool.Locality

/-!
# What a call reads and writes

The records of a ledger fall into parts: one for each account, one for each pool, and a part in
common that no call of an account on its stake, its delegations or its unbonding list changes. Such
a call is local: it reads the common part, the part of its signer and that of at most one pool, and
writes the last two.

Headlines:
* **`Effect.within`**: a local call leaves all other parts as they are.
* **`Effect.congr`**: on another ledger where the parts that it reads are the same, it has the same
  output and leaves the same parts.
-/

namespace Stakebook

/-- What is kept of one account beside its holdings in pools: its free balance, its unbonding list,
and its direct stakes. -/
@[ext] structure AccountPart where
  info : Option AccountInfo
  pending : Option (List Pending)
  stakes : SubnetId → Option Amount

/-- What is kept of no account and no pool: the registry without its balances, the capacity of the
unbonding lists, the queue of swaps, and the overwatch records. -/
@[ext] structure CommonPart where
  registry : Registry
  capacity : Count
  swaps : SwapQueue
  overwatch : Overwatch

theorem LedgerCall.reward_of_isLocal {call : LedgerCall} (h : call.isLocal = true) :
    call.reward = 0 := by
  cases call <;> first | rfl | cases h

namespace Ledger

open Book

/-- What is kept of an account. -/
def account (l : Ledger) (who : AccountId) : AccountPart :=
  ⟨l.registry.accounts.get? who, l.book.unbonding.entries.get? who, l.book.stakes.of who⟩

/-- What is kept of no account and no pool. -/
def common (l : Ledger) : CommonPart :=
  ⟨{ l.registry with accounts := ∅ }, l.book.unbonding.capacity, l.book.swaps, l.book.overwatch⟩

variable {l l' m : Ledger} {block : Block} {call : LedgerCall} {who other : AccountId}
  {output : CallOutput} {p : PoolId}

/-- A move of the pools leaves what is kept of the accounts. -/
theorem account_of_move {b b' : Book} (h : PoolMove b b') (registry : Registry) (who : AccountId) :
    (⟨b', registry⟩ : Ledger).account who = (⟨b, registry⟩ : Ledger).account who := by
  unfold account
  rw [h.unbonding_eq, h.stakes_eq]

/-! ## What a local call leaves as it is -/

theorem Effect.common_eq {signer : Option AccountId} (hcall : call.isLocal = true)
    (h : Effect block l call signer output l') : l'.common = l.common := by
  refine CommonPart.ext ?_ h.capacity_eq (h.swaps_eq (call.changesQueue_of_isLocal hcall))
    (h.overwatch_eq (call.changesOverwatch_of_isLocal hcall))
  show { l'.registry with accounts := ∅ } = { l.registry with accounts := ∅ }
  rw [h.registry_eq]

theorem Effect.account_eq_of_ne (hcall : call.isLocal = true)
    (h : Effect block l call (some who) output l') (hne : other ≠ who) :
    l'.account other = l.account other := by
  cases h with
  | addStake _ debit add =>
    exact AccountPart.ext (Registry.get?_debit_of_ne debit hne) rfl
      ((Stakes.of_add add other).trans (if_neg hne))
  | removeStake remove _ enter =>
    exact AccountPart.ext (Registry.get?_pay_of_ne _ _ hne) (Unbonding.get?_enqueue_of_ne enter hne)
      ((Stakes.of_remove remove other).trans (if_neg hne))
  | delegate _ debit deposit =>
    rw [account_of_move (.of_deposit deposit)]
    exact AccountPart.ext (Registry.get?_debit_of_ne debit hne) rfl rfl
  | undelegate withdraw _ _ enter =>
    exact AccountPart.ext (Registry.get?_pay_of_ne _ _ hne) (Unbonding.get?_enqueue_of_ne enter hne)
      (congrArg (Stakes.of · other) (PoolMove.of_withdraw withdraw).stakes_eq)
  | burn withdraw => exact account_of_move (.of_withdraw withdraw) ..
  | transfer transfer => exact account_of_move (.of_transfer transfer) ..
  | claimUnbondings claim =>
    exact AccountPart.ext (Registry.get?_pay_of_ne _ _ hne) (Unbonding.get?_claim_of_ne claim hne)
      rfl
  | swap | updateSwap | updateSwapByTag | executeSwap | executeReadySwaps | commitWeights
  | revealWeights | pruneOverwatch | distribute => cases hcall

theorem Effect.part_eq_of_ne (hcall : call.isLocal = true)
    (h : Effect block l call (some who) output l') (hne : call.pool? ≠ some p) :
    l'.book.part p = l.book.part p := by
  have hpool {pool : PoolId} (h : some pool ≠ some p) : p ≠ pool := fun he => h (he ▸ rfl)
  cases h with
  | delegate _ _ deposit => exact part_deposit_of_ne deposit (hpool hne)
  | undelegate withdraw =>
    have hbook := part_withdraw_of_ne withdraw (hpool hne)
    exact hbook
  | burn withdraw => exact part_withdraw_of_ne withdraw (hpool hne)
  | transfer transfer => exact part_transfer_of_ne transfer (hpool hne)
  | addStake | removeStake | claimUnbondings => rfl
  | swap | updateSwap | updateSwapByTag | executeSwap | executeReadySwaps | commitWeights
  | revealWeights | pruneOverwatch | distribute => cases hcall

/-- Two ledgers differ at most in the part of an account and in that of the pool of a call. -/
structure Within (call : LedgerCall) (who : AccountId) (l l' : Ledger) : Prop where
  common_eq : l'.common = l.common
  account_eq : ∀ other, other ≠ who → l'.account other = l.account other
  part_eq : ∀ p, call.pool? ≠ some p → l'.book.part p = l.book.part p

/-- **A local call leaves all other parts as they are.** -/
theorem Effect.within (hcall : call.isLocal = true)
    (h : Effect block l call (some who) output l') : Within call who l l' :=
  ⟨h.common_eq hcall, fun _ hne => h.account_eq_of_ne hcall hne,
    fun _ hne => h.part_eq_of_ne hcall hne⟩

/-! ## What a local call depends on -/

/-- Two ledgers look the same to a local call of an account. -/
structure Alike (call : LedgerCall) (who : AccountId) (l m : Ledger) : Prop where
  common_eq : m.common = l.common
  account_eq : m.account who = l.account who
  part_eq : ∀ p, call.pool? = some p → m.book.part p = l.book.part p

/-- Where one call leaves the parts that another reads, the ledger looks the same to that one. -/
theorem Within.alike {call' : LedgerCall} (h : Within call who l m) (hne : other ≠ who)
    (hpools : ∀ p, call'.pool? = some p → call.pool? ≠ some p) : Alike call' other l m :=
  ⟨h.common_eq, h.account_eq other hne, fun p hp => h.part_eq p (hpools p hp)⟩

namespace Alike

variable (h : Alike call who l m)
include h

theorem symm : Alike call who m l :=
  ⟨h.common_eq.symm, h.account_eq.symm, fun p hp => (h.part_eq p hp).symm⟩

theorem info_eq : m.registry.accounts.get? who = l.registry.accounts.get? who :=
  congrArg AccountPart.info h.account_eq

theorem pending_eq : m.book.unbonding.entries.get? who = l.book.unbonding.entries.get? who :=
  congrArg AccountPart.pending h.account_eq

theorem stakes_eq : m.book.stakes.of who = l.book.stakes.of who :=
  congrArg AccountPart.stakes h.account_eq

theorem capacity_eq : m.book.unbonding.capacity = l.book.unbonding.capacity :=
  congrArg CommonPart.capacity h.common_eq

theorem network_eq : m.registry.network = l.registry.network :=
  congrArg (fun c => c.registry.network) h.common_eq

theorem activeSubnet_eq (subnet : SubnetId) :
    m.registry.activeSubnet subnet = l.registry.activeSubnet subnet :=
  congrArg (fun c => c.registry.activeSubnet subnet) h.common_eq

theorem activePool_eq (pool : PoolId) : m.registry.activePool pool = l.registry.activePool pool :=
  congrArg (fun c => c.registry.activePool pool) h.common_eq

theorem leavingParams_eq (subnet : SubnetId) :
    m.registry.leavingParams subnet = l.registry.leavingParams subnet :=
  congrArg (fun c => c.registry.leavingParams subnet) h.common_eq

end Alike

/-- What is debited from a free balance has room beside all that is pooled. -/
theorem pooled_add_lt_of_debit {registry : Registry} {amount : Amount} (hfit : l.value < 2 ^ 128)
    (h : l.registry.debit who amount = .ok registry) :
    l.book.pooled + amount.toNat < 2 ^ 128 := by
  have hfree := Registry.totalFree_debit h
  unfold value at hfit
  omega

/-- A local call on a ledger that looks the same has the same output, and leaves the same of its
signer and its pool. -/
theorem Effect.exists_of_alike (hcall : call.isLocal = true)
    (h : Effect block l call (some who) output l') (hm : Alike call who l m) (hv : m.book.Valid)
    (hfit : m.value < 2 ^ 128) :
    ∃ m', Effect block m call (some who) output m' ∧ m'.account who = l'.account who ∧
      ∀ p, call.pool? = some p → m'.book.part p = l'.book.part p := by
  cases h with
  | addStake active debit add =>
    obtain ⟨registry, hdebit, hinfo⟩ := Registry.debit_congr debit hm.info_eq
    obtain ⟨stakes, hadd, hstakes⟩ := Stakes.add_congr add hm.stakes_eq
    exact ⟨_, .addStake ((hm.activeSubnet_eq _).trans active) hdebit hadd,
      AccountPart.ext hinfo hm.pending_eq hstakes, nofun⟩
  | removeStake remove unlocks enter =>
    rw [← hm.leavingParams_eq] at remove unlocks
    obtain ⟨stakes, hremove, hstakes⟩ := Stakes.remove_congr remove hm.stakes_eq
    obtain ⟨unbonding, henter, hpending⟩ :=
      Unbonding.enqueue_congr enter hm.pending_eq hm.capacity_eq
    exact ⟨_, .removeStake hremove unlocks henter,
      AccountPart.ext (Registry.pay_congr hm.info_eq _) hpending hstakes, nofun⟩
  | delegate active debit deposit =>
    rw [← hm.network_eq] at deposit
    obtain ⟨registry, hdebit, hinfo⟩ := Registry.debit_congr debit hm.info_eq
    obtain ⟨book, hdeposit, hpart⟩ :=
      deposit_congr hv (hm.part_eq _ rfl) (pooled_add_lt_of_debit hfit hdebit) deposit
    refine ⟨_, .delegate ((hm.activePool_eq _).trans active) hdebit hdeposit, ?_, ?_⟩
    · rw [account_of_move (.of_deposit hdeposit), account_of_move (.of_deposit deposit)]
      exact AccountPart.ext hinfo hm.pending_eq hm.stakes_eq
    · rintro p ⟨⟩
      exact hpart
  | undelegate withdraw unlocks worth enter =>
    rw [← hm.leavingParams_eq] at unlocks
    obtain ⟨book, hwithdraw, hpart⟩ := withdraw_congr (hm.part_eq _ rfl) withdraw
    obtain ⟨unbonding, henter, hpending⟩ :=
      Unbonding.enqueue_congr enter hm.pending_eq hm.capacity_eq
    refine ⟨_, .undelegate hwithdraw unlocks worth henter, ?_, ?_⟩
    · refine AccountPart.ext (Registry.pay_congr hm.info_eq _) hpending ?_
      show book.stakes.of who = _
      rw [(PoolMove.of_withdraw hwithdraw).stakes_eq, hm.stakes_eq,
        ← (PoolMove.of_withdraw withdraw).stakes_eq]
      rfl
    · rintro p ⟨⟩
      exact hpart
  | burn withdraw =>
    obtain ⟨book, hwithdraw, hpart⟩ := withdraw_congr (hm.part_eq _ rfl) withdraw
    refine ⟨_, .burn hwithdraw, ?_, ?_⟩
    · rw [account_of_move (.of_withdraw hwithdraw), account_of_move (.of_withdraw withdraw)]
      exact hm.account_eq
    · rintro p ⟨⟩
      exact hpart
  | transfer transfer =>
    rw [← hm.network_eq] at transfer
    obtain ⟨book, htransfer, hpart⟩ := transfer_congr (hm.part_eq _ rfl) transfer
    refine ⟨_, .transfer htransfer, ?_, ?_⟩
    · rw [account_of_move (.of_transfer htransfer), account_of_move (.of_transfer transfer)]
      exact hm.account_eq
    · rintro p ⟨⟩
      exact hpart
  | claimUnbondings claim =>
    obtain ⟨unbonding, hclaim, hpending⟩ := Unbonding.claim_congr claim hm.pending_eq
    exact ⟨_, .claimUnbondings hclaim,
      AccountPart.ext (Registry.pay_congr hm.info_eq _) hpending hm.stakes_eq, nofun⟩
  | swap | updateSwap | updateSwapByTag | executeSwap | executeReadySwaps | commitWeights
  | revealWeights | pruneOverwatch | distribute => cases hcall

/-- **A local call on a ledger that looks the same** has the same output, and what it leaves looks
the same again. -/
theorem Effect.congr (hcall : call.isLocal = true) (h : Effect block l call (some who) output l')
    (hm : Alike call who l m) (hv : m.book.Valid) (hfit : m.value < 2 ^ 128) :
    ∃ m', Effect block m call (some who) output m' ∧ Alike call who l' m' := by
  obtain ⟨m', hm', haccount, hpart⟩ := h.exists_of_alike hcall hm hv hfit
  have hcommon := (hm'.common_eq hcall).trans (hm.common_eq.trans (h.common_eq hcall).symm)
  exact ⟨m', hm', hcommon, haccount, hpart⟩

end Ledger

end Stakebook
