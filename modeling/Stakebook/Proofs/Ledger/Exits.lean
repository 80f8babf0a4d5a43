import Stakebook.Proofs.Ledger.Conservation
import Stakebook.Proofs.Ledger.Frames

/-!
# Nobody is locked in

Leaving is refused for one reason only: the unbonding list of the account is full of entries that
are still locked. `Unlocked` says of an account and a block that this is not so, since lists hold an
entry at all and every entry of the account has unlocked. Then each way out is open, whatever is
active: what leaves is part of the value of the ledger, so that no merge leaves the range.

Headlines:
* **`Unlocked.room`**: whatever is part of the value finds room in the list.
* **`Unlocked.succeedsAt_removeStake`**, **`Unlocked.succeedsAt_undelegate`**,
  **`Unlocked.succeedsAt_executeSwap`**: the three ways out.
* **`exits_open`**: all of them, on every ledger that a run of an empty book leads to.
-/

namespace Stakebook.Ledger

open Book Operation

variable {l : Ledger} {who : AccountId} {block : Block} {amount : Amount}

/-- Unbonding lists hold an entry, and those of the account have all unlocked. -/
structure Unlocked (l : Ledger) (who : AccountId) (block : Block) : Prop where
  capacity_pos : 0 < l.book.unbonding.capacity.toNat
  matured : ∀ e ∈ l.book.unbonding.pending who, e.isMatured block = true

namespace Unlocked

/-- **What waits and what enters are in range together**, so an account whose entries have unlocked
has room for it. -/
theorem room (h : Unlocked l who block) (hne : amount ≠ 0)
    (hfit : l.book.unbonding.waiting + amount.toNat < 2 ^ 128) (unlock : Block) :
    l.book.unbonding.checkEnqueue who amount unlock block = .ok () := by
  have hle := l.book.unbonding.sum_pending_le_waiting who
  exact Unbonding.checkEnqueue_of_matured h.capacity_pos h.matured hne (by omega) unlock

/-- **Direct stake can be withdrawn whole.** Nothing is left of it that could be below the minimum. -/
theorem succeedsAt_removeStake (h : Unlocked l who block) (hfit : l.value < 2 ^ 128)
    {subnet : SubnetId} (hne : l.book.stakes.balanceOf who subnet ≠ 0) :
    (removeStake who subnet (l.book.stakes.balanceOf who subnet) block).SucceedsAt l := by
  have hcheck : l.book.stakes.checkRemove who subnet (l.book.stakes.balanceOf who subnet)
      (l.registry.leavingParams subnet) = .ok 0 :=
    Stakes.checkRemove_eq_ok_iff.mpr
      ⟨hne, Nat.le_refl _, (Word.sub_self _).symm, .inl rfl⟩
  have hstake := l.book.stakes.balanceOf_le_totalStaked who subnet
  have hroom := h.room hne (by unfold Ledger.value at hfit; omega)
  unfold removeStake
  refine .bind_look rfl (.bind_look hcheck (.bind_look (hroom _) ?_))
  refine SucceedsAt.bind (succeedsAt_changeBook ⟨0, _, bind_eq_ok_iff.mpr
    ⟨_, Stakes.remove_eq_ok_iff.mpr ⟨hcheck, rfl⟩, rfl⟩⟩) fun _ m hm => ?_
  obtain ⟨book, hbook, rfl⟩ := perform_changeBook_ok_iff.mp hm
  simp only [bind_eq_ok_iff, pure_eq_ok_iff, Prod.mk.injEq] at hbook
  obtain ⟨⟨_, stakes⟩, -, rfl, rfl⟩ := hbook
  exact SucceedsAt.bind (succeedsAt_enterUnbonding (hroom _)) fun _ n _ => succeedsAt_pure _ n

/-- **Shares can be redeemed**, some or all of them. If they redeem for nothing they are burned, and
need no room. -/
theorem succeedsAt_undelegate (h : Unlocked l who block) (hv : l.book.Valid)
    (hfit : l.value < 2 ^ 128) {pool : PoolId} {shares : Shares} (hne : shares ≠ 0)
    (hle : shares ≤ l.book.sharesOf who pool) :
    (undelegate who pool shares block).SucceedsAt l := by
  obtain ⟨paid, book, hwithdraw⟩ := hv.exists_withdraw hne hle
  have hpooled := hv.pooled_withdraw hwithdraw
  unfold undelegate
  refine .bind_look rfl (.bind_look (quote_of_withdraw hwithdraw) ?_)
  by_cases hpaid : paid = 0
  · simp only [if_neg (not_not_intro hpaid)]
    exact SucceedsAt.bind (succeedsAt_changeBook ⟨paid, book, hwithdraw⟩) fun _ m _ =>
      succeedsAt_pure _ m
  · simp only [if_pos hpaid]
    have hroom := h.room hpaid (by unfold Ledger.value at hfit; omega)
    refine .bind_look (hroom _) (SucceedsAt.bind (succeedsAt_changeBook ⟨paid, book, hwithdraw⟩)
      fun _ m hm => ?_)
    obtain ⟨book, hwithdraw, rfl⟩ := perform_changeBook_ok_iff.mp hm
    rw [← (PoolMove.of_withdraw hwithdraw).unbonding_eq] at hroom
    exact SucceedsAt.bind (succeedsAt_enterUnbonding (hroom _)) fun _ n _ => succeedsAt_pure _ n

/-- **A swap that is mature can be executed.** If its target does not take the balance, its owner has
room for it. -/
theorem succeedsAt_executeSwap {s : QueuedSwap} (h : Unlocked l s.account block) (hv : l.book.Valid)
    (hfit : l.value < 2 ^ 128) {id : SwapId} (hs : l.book.swaps.get? id = some s)
    (hmatured : s.isMatured block = true) : (executeSwap id block).SucceedsAt l := by
  have hqueued := SwapQueue.queued_remove hs
  have hroom := h.room (hv.swaps.waits id s hs).balance_ne_zero
    (by unfold Ledger.value at hfit; omega)
  unfold executeSwap
  refine .bind_look (SwapQueue.checkMatured_eq_ok_iff.mpr ⟨hs, hmatured⟩) (.bind_look rfl ?_)
  split
  · next shares haccepted =>
    obtain ⟨_, -, hquote⟩ := bind_eq_ok_iff.mp haccepted
    refine SucceedsAt.bind (succeedsAt_update _ l) fun _ m hm => ?_
    obtain rfl := perform_update_ok_iff.mp hm
    refine SucceedsAt.bind (succeedsAt_changeBook ?_) fun _ n _ => succeedsAt_pure _ n
    exact ⟨shares, deposit_of_quote ((quoteDeposit_with_swaps ..).trans hquote) s.account⟩
  · refine .bind_look rfl (.bind_look (hroom _) ?_)
    refine SucceedsAt.bind (succeedsAt_update _ l) fun _ m hm => ?_
    obtain rfl := perform_update_ok_iff.mp hm
    exact SucceedsAt.bind (succeedsAt_enterUnbonding (hroom _)) fun _ n _ => succeedsAt_pure _ n

end Unlocked

/-- **Nobody is locked in**: on every ledger that a run of an empty book leads to, where unbonding
lists hold an entry and the value is in range, an account whose entries have all unlocked can
withdraw each of its stakes whole, redeem any shares that it has, and have each of its matured swaps
executed. -/
theorem exits_open {registry : Registry} {events : List Event} (h : (new registry).run events = l)
    (hcapacity : 1 ≤ registry.network.maxUnbondings.toNat) (hfit : l.value < 2 ^ 128)
    (who : AccountId) (block : Block)
    (hunlocked : ∀ e ∈ l.book.unbonding.pending who, e.unlockBlock ≤ block) :
    (∀ subnet, l.book.stakes.balanceOf who subnet ≠ 0 →
      (removeStake who subnet (l.book.stakes.balanceOf who subnet) block).SucceedsAt l) ∧
    (∀ pool shares, shares ≠ 0 → shares ≤ l.book.sharesOf who pool →
      (undelegate who pool shares block).SucceedsAt l) ∧
    ∀ id s, l.book.swaps.get? id = some s → s.account = who → s.executeAfter ≤ block →
      (executeSwap id block).SucceedsAt l := by
  have hv : l.book.Valid := h ▸ valid_run (valid_empty _) events
  have hopen : Unlocked l who block := by
    refine ⟨?_, fun e he => decide_eq_true (hunlocked e he)⟩
    rw [← h, capacity_run]
    exact hcapacity
  refine ⟨fun subnet hne => hopen.succeedsAt_removeStake hfit hne,
    fun pool shares hne hle => hopen.succeedsAt_undelegate hv hfit hne hle,
    fun id s hs hwho hmatured => ?_⟩
  subst hwho
  exact hopen.succeedsAt_executeSwap hv hfit hs (decide_eq_true hmatured)

/-- The first of the eventful run: a stake, shares, a full unbonding list, a swap that waits for a
pool, and then the subnet of all of them is gone. -/
def stranded : List Event := eventful.take 6

theorem exits_open_stranded :
    ((new funded).run stranded).registry.subnets.get? 1 = none ∧
      (((new funded).run stranded).book.unbonding.pending (.dev 1)).length = 1 ∧
      ((new funded).run stranded).book.unbonding.capacity = 1 ∧
      (removeStake (.dev 1) 1 10 4).SucceedsAt ((new funded).run stranded) ∧
      (undelegate (.dev 1) (.subnet 1) 20 4).SucceedsAt ((new funded).run stranded) ∧
      (executeSwap 0 4).SucceedsAt ((new funded).run stranded) := by
  obtain ⟨hstake, hshares, hswap⟩ :=
    exits_open (rfl : (new funded).run stranded = (new funded).run stranded) (by decide)
      (by decide +kernel) (.dev 1) 4 (by decide +kernel)
  have hbalance : ((new funded).run stranded).book.stakes.balanceOf (.dev 1) 1 = 10 := by
    decide +kernel
  have hstake := hstake 1 (by decide +kernel)
  rw [hbalance] at hstake
  exact ⟨by decide +kernel, by decide +kernel, by decide +kernel, hstake,
    hshares (.subnet 1) 20 (by decide) (by decide +kernel),
    hswap 0 ⟨0, .dev 1, .subnet 1, 11, 1, 4⟩ (by decide +kernel) rfl (by decide)⟩

end Stakebook.Ledger
