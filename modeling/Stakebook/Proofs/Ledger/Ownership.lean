import Stakebook.Proofs.Ledger.SwapExecution
import Stakebook.Proofs.Overwatch

/-!
# A signer spends its own position only

A transaction takes nothing from any account but the one that signed it, and a transaction of the
system takes nothing from anyone. What anyone may do for another account is to execute a swap that is
due.

Headlines:
* **`Effect.noLess`**: no account but the signer loses free balance, stake or shares.
* **`Effect.pending_eq`**: its unbonding list changes only where a swap of its own is executed.
* **`Effect.records_eq`**: overwatch records change by the owner of their node, apart from pruning.
* **`apply_spares`**: all of it, for a transaction on a reachable ledger.
-/

namespace Stakebook

namespace Ledger

open Book

variable {l m l' : Ledger} {block : Block} {id : SwapId} {outcome : SwapOutcome}
  {ids : List SwapId} {results : List (SwapId × Except LedgerError SwapOutcome)}
  {call : LedgerCall} {signer : Option AccountId} {output : CallOutput} {who : AccountId}

/-- Who did not sign is not the signer. -/
theorem ne_of_signer {other : AccountId} (h : some other ≠ some who) : who ≠ other :=
  fun he => h (congrArg some he.symm)

/-! ## Balances, stakes and shares -/

/-- An account keeps its direct stakes, and has no less free balance and no fewer shares. -/
structure NoLess (who : AccountId) (l l' : Ledger) : Prop where
  free : l.registry.freeBalance who ≤ l'.registry.freeBalance who
  stakes : ∀ subnet, l'.book.stakes.balanceOf who subnet = l.book.stakes.balanceOf who subnet
  shares : ∀ pool, l.book.sharesOf who pool ≤ l'.book.sharesOf who pool

namespace NoLess

theorem refl (who : AccountId) (l : Ledger) : NoLess who l l :=
  ⟨Nat.le_refl _, fun _ => rfl, fun _ => Nat.le_refl _⟩

theorem trans (h : NoLess who l m) (h' : NoLess who m l') : NoLess who l l' :=
  ⟨Nat.le_trans h.free h'.free, fun subnet => (h'.stakes subnet).trans (h.stakes subnet),
    fun pool => Nat.le_trans (h.shares pool) (h'.shares pool)⟩

end NoLess

/-- What leaves the pools as they are takes no shares. -/
theorem sharesOf_le_of_eq {b b' : Book} (hd : b'.delegate = b.delegate)
    (hn : b'.nodeDelegate = b.nodeDelegate) (who : AccountId) (pool : PoolId) :
    b.sharesOf who pool ≤ b'.sharesOf who pool := by
  cases pool with
  | subnet id =>
    show b.delegate.sharesOf who id ≤ b'.delegate.sharesOf who id
    rw [hd]
    exact Nat.le_refl _
  | node key =>
    show b.nodeDelegate.sharesOf who key ≤ b'.nodeDelegate.sharesOf who key
    rw [hn]
    exact Nat.le_refl _

/-- A withdrawal by another account takes no shares. -/
theorem sharesOf_le_withdraw {b b' : Book} {other : AccountId} {pool : PoolId} {shares : Shares}
    {amount : Amount} (h : b.withdraw other pool shares = .ok (amount, b')) (hne : who ≠ other)
    (p : PoolId) : b.sharesOf who p ≤ b'.sharesOf who p := by
  have heq := sharesOf_withdraw h who p
  rw [if_neg fun he => hne he.1] at heq
  exact Nat.le_of_eq heq.symm

/-- A deposit takes no shares. -/
theorem sharesOf_le_deposit {b b' : Book} {other : AccountId} {pool : PoolId} {shares : Shares}
    {amount minimum : Amount} (hv : b.Valid)
    (h : b.deposit other pool amount minimum = .ok (shares, b')) (who : AccountId) (p : PoolId) :
    b.sharesOf who p ≤ b'.sharesOf who p := by
  rw [Word.le_def, hv.sharesOf_deposit h who p]
  exact Nat.le_add_right ..

/-- A transfer by another account takes no shares. -/
theorem sharesOf_le_transfer {b b' : Book} {other target : AccountId} {pool : PoolId}
    {shares : Shares} {minimum : Amount} (hv : b.Valid)
    (h : b.transfer other pool target shares minimum = .ok b') (hne : who ≠ other) (p : PoolId) :
    b.sharesOf who p ≤ b'.sharesOf who p := by
  have heq := hv.sharesOf_transfer h who p
  rw [if_neg fun he => hne he.1, Nat.add_zero] at heq
  rw [Word.le_def, heq]
  exact Nat.le_add_right ..

/-- A reward takes no shares. -/
theorem sharesOf_le_distribute {b b' : Book} {pool : PoolId} {amount : Amount}
    (h : b.distribute pool amount = .ok b') (who : AccountId) (p : PoolId) :
    b.sharesOf who p ≤ b'.sharesOf who p := by
  rw [sharesOf_distribute h]
  exact Nat.le_refl _

/-- **An executed swap takes nothing from anyone.** -/
theorem SwapEffect.noLess (hv : l.book.Valid) (h : SwapEffect block id l outcome l')
    (who : AccountId) : NoLess who l l' := by
  cases h with
  | deposited _ _ deposit =>
    have hdropped : ({ l.book with swaps := l.book.swaps.remove id } : Book).Valid :=
      ⟨hv.delegate, hv.nodeDelegate, hv.swaps.remove id⟩
    refine ⟨Nat.le_refl _, fun subnet => ?_, fun pool => ?_⟩
    · rw [(PoolMove.of_deposit deposit).stakes_eq]
    · have hsame : l.book.sharesOf who pool ≤
          ({ l.book with swaps := l.book.swaps.remove id } : Book).sharesOf who pool :=
        sharesOf_le_of_eq rfl rfl who pool
      exact Nat.le_trans hsame (sharesOf_le_deposit hdropped deposit who pool)
  | unbonded =>
    exact ⟨Registry.freeBalance_le_pay .., fun _ => rfl, sharesOf_le_of_eq rfl rfl who⟩

theorem BatchEffect.noLess (hv : l.book.Valid) (h : BatchEffect block l ids results l')
    (who : AccountId) : NoLess who l l' := by
  induction h with
  | nil => exact .refl who _
  | ok _ effect _ ih => exact (effect.noLess hv who).trans (ih (effect.valid hv))
  | failed _ _ ih => exact ih hv

/-- A debit from another account takes nothing. -/
theorem freeBalance_le_debit {r r' : Registry} {other : AccountId} {amount : Amount}
    (h : r.debit other amount = .ok r') (hne : who ≠ other) :
    r.freeBalance who ≤ r'.freeBalance who := by
  rw [Registry.freeBalance_debit_of_ne h hne]
  exact Nat.le_refl _

/-- **A call takes nothing from any account but its signer.** -/
theorem Effect.noLess (hv : l.book.Valid) (h : Effect block l call signer output l')
    (hother : signer ≠ some who) : NoLess who l l' := by
  cases h with
  | addStake _ debit add =>
    have hne := ne_of_signer hother
    exact ⟨freeBalance_le_debit debit hne, Stakes.balanceOf_add_of_ne add hne,
      sharesOf_le_of_eq rfl rfl who⟩
  | removeStake remove =>
    have hne := ne_of_signer hother
    exact ⟨Registry.freeBalance_le_pay .., Stakes.balanceOf_remove_of_ne remove hne,
      sharesOf_le_of_eq rfl rfl who⟩
  | delegate _ debit deposit =>
    have hne := ne_of_signer hother
    have hmove := PoolMove.of_deposit deposit
    exact ⟨freeBalance_le_debit debit hne, fun _ => by rw [hmove.stakes_eq],
      sharesOf_le_deposit hv deposit who⟩
  | undelegate withdraw =>
    have hne := ne_of_signer hother
    have hmove := PoolMove.of_withdraw withdraw
    exact ⟨Registry.freeBalance_le_pay .., fun _ => by rw [hmove.stakes_eq],
      fun pool => Nat.le_trans (sharesOf_le_withdraw withdraw hne pool)
        (sharesOf_le_of_eq rfl rfl who pool)⟩
  | burn withdraw =>
    have hne := ne_of_signer hother
    have hmove := PoolMove.of_withdraw withdraw
    exact ⟨Nat.le_refl _, fun _ => by rw [hmove.stakes_eq],
      sharesOf_le_withdraw withdraw hne⟩
  | swap _ withdraw =>
    have hne := ne_of_signer hother
    have hmove := PoolMove.of_withdraw withdraw
    exact ⟨Nat.le_refl _, fun _ => by rw [hmove.stakes_eq],
      fun pool => Nat.le_trans (sharesOf_le_withdraw withdraw hne pool)
        (sharesOf_le_of_eq rfl rfl who pool)⟩
  | transfer transfer =>
    have hne := ne_of_signer hother
    have hmove := PoolMove.of_transfer transfer
    exact ⟨Nat.le_refl _, fun _ => by rw [hmove.stakes_eq],
      sharesOf_le_transfer hv transfer hne⟩
  | distribute _ distribute =>
    have hmove := PoolMove.of_distribute distribute
    exact ⟨Nat.le_refl _, fun _ => by rw [hmove.stakes_eq], sharesOf_le_distribute distribute who⟩
  | claimUnbondings =>
    exact ⟨Registry.freeBalance_le_pay .., fun _ => rfl, sharesOf_le_of_eq rfl rfl who⟩
  | executeSwap effect => exact effect.noLess hv who
  | executeReadySwaps batch => exact batch.noLess hv who
  | updateSwap | updateSwapByTag | commitWeights | revealWeights | pruneOverwatch =>
    exact ⟨Nat.le_refl _, fun _ => rfl, sharesOf_le_of_eq rfl rfl who⟩

/-! ## Unbonding lists -/

/-- The unbonding list of an account stays as it is, or takes the balance of an executed swap of the
account. -/
def KeepsPending (block : Block) (ids : List SwapId) (who : AccountId) (l l' : Ledger) : Prop :=
  l'.book.unbonding.entries.get? who = l.book.unbonding.entries.get? who ∨
    ∃ s unlock, l.book.swaps.get? s.id = some s ∧ s.account = who ∧
      Executes block ids l s (.unbonded unlock) l'

theorem SwapEffect.pending_eq (hv : l.book.Valid) (h : SwapEffect block id l outcome l')
    (who : AccountId) :
    l'.book.unbonding.entries.get? who = l.book.unbonding.entries.get? who ∨
      ∃ s unlock, l.book.swaps.get? s.id = some s ∧ s.id = id ∧ s.account = who ∧
        outcome = .unbonded unlock := by
  obtain ⟨s, hs⟩ := h.queued
  obtain rfl := (hv.swaps.waits id s hs).id_eq
  cases (h.placed hv hs).2 with
  | deposited _ _ _ unbonding => exact .inl (by rw [unbonding])
  | unbonded _ unbonding =>
    by_cases hwho : who = s.account
    · exact .inr ⟨s, _, hs, rfl, hwho.symm, rfl⟩
    · rw [unbonding, OrdMap.get?_insert, if_neg hwho]
      exact .inl rfl

/-- **A batch changes a list only where it executes a swap of the account.** -/
theorem BatchEffect.pending_eq (hv : l.book.Valid) (h : BatchEffect block l ids results l')
    (who : AccountId) : KeepsPending block ids who l l' := by
  induction h with
  | nil => exact .inl rfl
  | @ok l m _ id ids _ _ perform effect rest ih =>
    rcases effect.pending_eq hv who with hkept | ⟨s, unlock, hs, rfl, hwho, rfl⟩
    · rcases ih (effect.valid hv) with hrest | ⟨s, unlock, hs, hwho, hx⟩
      · exact .inl (hrest.trans hkept)
      · refine .inr ⟨s, unlock, ?_, hwho, hx.cons perform⟩
        rw [effect.swaps_eq, SwapQueue.get?_remove] at hs
        split at hs
        · cases hs
        · exact hs
    · exact .inr ⟨s, unlock, hs, hwho, [], ids, m, rfl, effect.executedAt hv hs,
        rest.executeAll_eq⟩
  | failed perform _ ih =>
    rcases ih hv with hkept | ⟨s, unlock, hs, hwho, hx⟩
    · exact .inl hkept
    · exact .inr ⟨s, unlock, hs, hwho, hx.cons perform⟩

/-- **A call changes the list of another account only where it executes a swap of it.** -/
theorem Effect.pending_eq (hv : l.book.Valid) (h : Effect block l call signer output l')
    (hother : signer ≠ some who) : KeepsPending block (call.swapsExecuted block l) who l l' := by
  cases h with
  | removeStake _ _ enter =>
    have hne := ne_of_signer hother
    exact .inl (Unbonding.get?_enqueue_of_ne enter hne)
  | undelegate _ _ _ enter =>
    have hne := ne_of_signer hother
    exact .inl (Unbonding.get?_enqueue_of_ne enter hne)
  | claimUnbondings claim =>
    have hne := ne_of_signer hother
    exact .inl (Unbonding.get?_claim_of_ne claim hne)
  | delegate _ _ deposit => exact .inl (by rw [(PoolMove.of_deposit deposit).unbonding_eq])
  | burn withdraw => exact .inl (by rw [(PoolMove.of_withdraw withdraw).unbonding_eq])
  | swap _ withdraw => exact .inl (by rw [(PoolMove.of_withdraw withdraw).unbonding_eq])
  | transfer transfer => exact .inl (by rw [(PoolMove.of_transfer transfer).unbonding_eq])
  | distribute _ distribute =>
    exact .inl (by rw [(PoolMove.of_distribute distribute).unbonding_eq])
  | @executeSwap _ _ _ _ effect =>
    rcases effect.pending_eq hv who with hkept | ⟨s, unlock, hs, rfl, hwho, rfl⟩
    · exact .inl hkept
    · exact .inr ⟨s, unlock, hs, hwho, [], [], l', rfl, effect.executedAt hv hs, rfl⟩
  | executeReadySwaps batch => exact batch.pending_eq hv who
  | addStake | updateSwap | updateSwapByTag | commitWeights | revealWeights | pruneOverwatch =>
    exact .inl rfl

/-! ## Overwatch records -/

/-- **Overwatch records change by the owner of their node**, apart from pruning. -/
theorem Effect.records_eq (h : Effect block l call signer output l')
    (hcall : call ≠ .pruneOverwatch) {watcher : WatcherId}
    (howner : ∀ who, signer = some who → l.registry.watchers.get? watcher ≠ some who)
    (epoch : Epoch) (subnet : SubnetId) :
    l'.book.overwatch.commitOf epoch watcher subnet =
        l.book.overwatch.commitOf epoch watcher subnet ∧
      l'.book.overwatch.revealOf epoch subnet watcher =
        l.book.overwatch.revealOf epoch subnet watcher := by
  have hkept := h.overwatch_eq
  cases h with
  | @commitWeights who w _ _ _ owner _ commit =>
    have hne : watcher ≠ w := fun he =>
      howner who rfl (he ▸ Registry.checkOwner_eq_ok_iff.mp owner)
    refine ⟨Overwatch.commitOf_commitMany_of_ne commit (.inr hne) subnet, ?_⟩
    unfold Overwatch.revealOf
    rw [Overwatch.reveals_commitMany commit]
  | @revealWeights who w _ _ _ owner reveal =>
    have hne : watcher ≠ w := fun he =>
      howner who rfl (he ▸ Registry.checkOwner_eq_ok_iff.mp owner)
    constructor
    · unfold Overwatch.commitOf
      rw [Overwatch.commits_revealMany reveal]
    · rcases Overwatch.revealOf_revealMany reveal epoch subnet watcher with hsame | ⟨-, hw, -⟩
      · exact hsame
      · exact absurd hw hne
  | pruneOverwatch => exact absurd rfl hcall
  | addStake | removeStake | delegate | undelegate | burn | swap | transfer | updateSwap
  | updateSwapByTag | executeSwap | executeReadySwaps | claimUnbondings | distribute =>
    rw [hkept rfl]
    exact ⟨rfl, rfl⟩

/-! ## Transactions -/

/-- What a call leaves to an account that did not sign it. -/
structure Spared (call : LedgerCall) (block : Block) (l l' : Ledger) (who : AccountId) : Prop
    extends NoLess who l l' where
  /-- A queued swap waits on, or is executed. -/
  swaps : ∀ id s, l.book.swaps.get? id = some s → s.account = who →
    l'.book.swaps.get? id = some s ∨
      l'.book.swaps.get? id = none ∧
        ∃ outcome, Executes block (call.swapsExecuted block l) l s outcome l'
  /-- What waits to unlock is touched only by an executed swap. -/
  pending : KeepsPending block (call.swapsExecuted block l) who l l'

theorem Spared.refl (call : LedgerCall) (block : Block) (l : Ledger) (who : AccountId) :
    Spared call block l l who :=
  ⟨.refl who l, fun _ _ hs _ => .inl hs, .inl rfl⟩

/-- **A call spares every account but its signer.** -/
theorem Effect.spares (hv : l.book.Valid) (h : Effect block l call signer output l')
    (hother : signer ≠ some who) : Spared call block l l' who := by
  refine ⟨h.noLess hv hother, fun id s hs hwho => ?_, h.pending_eq hv hother⟩
  obtain rfl := (hv.swaps.waits id s hs).id_eq
  cases h.fate hv hs with
  | waits kept => exact .inl kept
  | retargeted owner => exact absurd (hwho ▸ owner) hother
  | executed executes gone => exact .inr ⟨gone, _, executes⟩

end Ledger

namespace Transaction

open Ledger Operation

variable {t : Transaction}

/-- Anyone may prune the overwatch records. -/
theorem apply_pruneOverwatch (h : t.call = .pruneOverwatch) (block : Block) (l : Ledger) :
    (t.apply block l).2.book.overwatch =
      (l.book.overwatch.prune (l.registry.network.firstRetained block)).2 := by
  rcases t.effect_of_apply block l with ⟨signer, output, -, -, heffect⟩ | ⟨e, herror⟩
  · rw [h] at heffect
    generalize (t.apply block l).2 = l' at heffect
    cases heffect with
    | pruneOverwatch prune => exact (congrArg Prod.snd prune).symm
  · -- nothing stops a pruning
    obtain ⟨origin, call⟩ := t
    cases h
    cases origin <;> cases herror

end Transaction

namespace Ledger

variable {l : Ledger}

/-- **A signer spends its own position only.** On a reachable ledger, a transaction spares every
account that did not sign it. An overwatch record whose node does not belong to the signer is neither
added nor altered, and pruning removes those of the epochs that are no longer kept. -/
theorem apply_spares (hl : l.Reachable) (t : Transaction) (block : Block) :
    (∀ who, t.origin ≠ .signed who → Spared t.call block l (t.apply block l).2 who) ∧
    ∀ watcher,
      (∀ who, t.origin = .signed who → l.registry.watchers.get? watcher ≠ some who) →
      ∀ epoch subnet,
        (t.apply block l).2.book.overwatch.commitOf epoch watcher subnet =
            (if t.call = .pruneOverwatch ∧ epoch < l.registry.network.firstRetained block then none
              else l.book.overwatch.commitOf epoch watcher subnet) ∧
          (t.apply block l).2.book.overwatch.revealOf epoch subnet watcher =
            if t.call = .pruneOverwatch ∧ epoch < l.registry.network.firstRetained block then none
              else l.book.overwatch.revealOf epoch subnet watcher := by
  constructor
  · intro who hother
    rcases t.effect_of_apply block l with ⟨signer, output, horigin, -, h⟩ | ⟨e, h⟩
    · refine h.spares hl.valid fun hsigner => hother ?_
      exact Transaction.origin_of_checkOrigin (hsigner ▸ horigin)
    · rw [h]
      exact .refl ..
  · intro watcher howner epoch subnet
    by_cases hcall : t.call = .pruneOverwatch
    · simp only [hcall, true_and]
      rw [Transaction.apply_pruneOverwatch hcall, Overwatch.commitOf_prune, Overwatch.revealOf_prune]
      exact ⟨rfl, rfl⟩
    · simp only [hcall, false_and, if_false]
      rcases t.effect_of_apply block l with ⟨signer, output, horigin, -, h⟩ | ⟨e, h⟩
      · refine h.records_eq hcall (fun who hsigner => howner who ?_) epoch subnet
        exact Transaction.origin_of_checkOrigin (hsigner ▸ horigin)
      · rw [h]
        exact ⟨rfl, rfl⟩

/-- Two funded accounts, two subnets, and an overwatch node of the second account. An unbonding list
holds one entry. -/
def owned : Registry :=
  (((((Registry.empty ⟨10, 2, 500000000000000000, 3, 1, 1, 2, 4⟩).setBalance (.dev 1)
    100).setBalance (.dev 2) 100).registerSubnet 1 ⟨0, .max, 2⟩).registerSubnet 2
    ⟨0, .max, 2⟩).registerWatcher 7 (.dev 2)

/-- The second account commits a weight, withdraws, and swaps to a subnet that then is deactivated. -/
def waiting : List Event :=
  [.transaction ⟨.signed (.dev 2), .delegate (.subnet 1) 50⟩ 0,
   .transaction ⟨.signed (.dev 2), .commitWeights 7 ⟨[⟨1, .zero⟩], by decide⟩⟩ 1,
   .transaction ⟨.signed (.dev 2), .undelegate (.subnet 1) 10⟩ 1,
   .transaction ⟨.signed (.dev 2), .swap (.subnet 1) (.subnet 2) 20⟩ 2,
   .administration (.deactivateSubnet 2)]

/-- The first account executes the swap of the second, whose full list takes its balance. -/
def poll : Transaction := ⟨.signed (.dev 1), .executeReadySwaps 3⟩

theorem apply_spares_polled :
    Spared poll.call 6 ((new owned).run waiting) (poll.apply 6 ((new owned).run waiting)).2
        (.dev 2) ∧
      (poll.apply 6 ((new owned).run waiting)).2.book.overwatch.commitOf 0 7 1 =
        ((new owned).run waiting).book.overwatch.commitOf 0 7 1 ∧
      (poll.apply 6 ((new owned).run waiting)).2.book.swaps.get? 0 = none ∧
      (poll.apply 6 ((new owned).run waiting)).2.book.unbonding.pending (.dev 2) = [⟨20, 8⟩] := by
  have hspares := apply_spares ⟨owned, waiting, rfl⟩ poll 6
  have howner : ∀ who, poll.origin = .signed who →
      ((new owned).run waiting).registry.watchers.get? 7 ≠ some who := by
    rintro who ⟨⟩
    decide +kernel
  exact ⟨hspares.1 (.dev 2) (by decide), (hspares.2 7 howner 0 1).1, by decide +kernel,
    by decide +kernel⟩

end Ledger

end Stakebook
