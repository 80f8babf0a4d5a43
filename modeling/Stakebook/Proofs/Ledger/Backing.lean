import Stakebook.Proofs.Ledger.SharePrice
import Stakebook.Proofs.Pool.Backing

/-!
# No share of a reachable ledger is worthless

The pools of a reachable ledger have no more shares than units, so whatever shares are redeemed
redeem for no fewer units. Two provisions for worthless shares are then idle: an undelegation never
burns shares without an entry into an unbonding list, and a swap is never refused for a balance of
zero.

Headlines:
* **`Reachable.backed`**: neither kind of pool has more shares than units.
* **`Book.Backed.le_amount`**: what shares are quoted at.
* **`error_of_queueSwap`**: the three reasons for which a swap is refused.
* **`shares_keep_worth`**: all of it, with what it means for the pools after any run of calls.
-/

namespace Stakebook

/-! ## Books -/

namespace Book

variable {b : Book} {who : AccountId} {pool : PoolId} {shares : Shares} {amount : Amount}

/-- No pool of either kind has more shares than units. -/
structure Backed (b : Book) : Prop where
  delegate : b.delegate.Backed
  nodeDelegate : b.nodeDelegate.Backed

theorem backed_empty (capacity : Count) : Backed (empty capacity) :=
  ⟨SharePool.backed_empty, SharePool.backed_empty⟩

/-- Shares are quoted at no fewer units. -/
theorem Backed.le_amount (hb : b.Backed) (hv : b.Valid)
    (h : b.quoteWithdraw who pool shares = .ok amount) : shares ≤ amount := by
  cases pool with
  | subnet id => exact (SharePool.quoteWithdraw_eq_ok_iff.mp h).le_amount hv.delegate hb.delegate
  | node key =>
    exact (SharePool.quoteWithdraw_eq_ok_iff.mp h).le_amount hv.nodeDelegate hb.nodeDelegate

/-- Shares that are quoted are not none. -/
theorem shares_ne_zero_of_quote (h : b.quoteWithdraw who pool shares = .ok amount) :
    shares ≠ 0 := by
  cases pool with
  | subnet id => exact (SharePool.quoteWithdraw_eq_ok_iff.mp h).shares_ne_zero
  | node key => exact (SharePool.quoteWithdraw_eq_ok_iff.mp h).shares_ne_zero

/-- **No shares are quoted at nothing.** -/
theorem Backed.amount_ne_zero (hb : b.Backed) (hv : b.Valid)
    (h : b.quoteWithdraw who pool shares = .ok amount) : amount ≠ 0 := by
  have hle := hb.le_amount hv h
  have hpos := Word.ne_zero_iff.mp (shares_ne_zero_of_quote h)
  rw [Word.ne_zero_iff]
  rw [Word.le_def] at hle
  omega

/-- A quote is refused for shares that the account does not have, or for a balance out of range. -/
theorem error_of_quoteWithdraw {e : LedgerError}
    (h : b.quoteWithdraw who pool shares = .error e) : e = .insufficientShares ∨ e = .overflow := by
  cases pool <;>
  · unfold quoteWithdraw SharePool.quoteWithdraw balanceFor at h
    simp only at h
    split at h
    · exact .inl (Except.error.inj h).symm
    · split at h
      · cases h
      · split at h
        · cases h
        · exact .inr (Except.error.inj h).symm

end Book

namespace Ledger

open Book Operation

variable {l l' : Ledger} {who : AccountId} {block : Block} {shares : Shares} {amount : Amount}

/-! ## Reachable ledgers -/

/-- No accepted call leaves a pool with more shares than units. -/
theorem Effect.backed {call : LedgerCall} {signer : Option AccountId} {output : CallOutput}
    (hb : l.book.Backed) (hv : l.book.Valid) (h : Effect block l call signer output l') :
    l'.book.Backed :=
  ⟨hb.delegate.change hv.delegate h.change.1, hb.nodeDelegate.change hv.nodeDelegate h.change.2⟩

/-- **No pool of a reachable ledger has more shares than units.** -/
theorem Reachable.backed (h : l.Reachable) : l.book.Backed := by
  suffices l.book.Valid ∧ l.book.Backed from this.2
  refine h.induction (P := fun l => l.book.Valid ∧ l.book.Backed)
    (fun _ => ⟨valid_empty _, backed_empty _⟩) fun l ⟨hv, hb⟩ e => ⟨valid_step hv e, ?_⟩
  rcases l.step_cases e with ⟨_, _, _, _, -, -, -, heffect⟩ | ⟨hbook, -⟩
  · exact heffect.backed hb hv
  · rw [hbook]
    exact hb

/-! ## Swaps -/

/-- A pool is refused because its subnet or its node is not active. -/
theorem error_of_activePool {r : Registry} {pool : PoolId} {e : LedgerError}
    (h : r.activePool pool = .error e) :
    e = .subnetNotActive pool.subnetId ∨ ∃ node, e = .subnetNodeNotActive pool.subnetId node := by
  have hsubnet {subnet : SubnetId} (h : r.activeSubnet subnet = .error e) :
      e = .subnetNotActive subnet := by
    unfold Registry.activeSubnet at h
    split at h
    · cases h
    · exact (Except.error.inj h).symm
  cases pool with
  | subnet id => exact .inl (hsubnet h)
  | node key =>
    rcases bind_eq_error_iff.mp h with h | ⟨params, -, h⟩
    · exact .inl (hsubnet h)
    · split at h
      · cases h
      · exact .inr ⟨key.node, (Except.error.inj h).symm⟩

/-- A swap is refused because its target is not active, because its shares have no price, or because
the queue does not take their balance. -/
theorem error_of_queueSwap {source target : PoolId} {e : LedgerError}
    (h : (queueSwap who source target shares block).perform l = (.error e, l')) :
    l.registry.activePool target = .error e ∨ l.book.quoteWithdraw who source shares = .error e ∨
      ∃ balance, l.book.quoteWithdraw who source shares = .ok balance ∧
        l.book.swaps.checkEnqueue balance = .error e := by
  unfold queueSwap at h
  rcases perform_look_bind_error h with h | ⟨bounds, -, h⟩
  · exact .inl h
  rcases perform_look_bind_error h with h | ⟨balance, hquote, h⟩
  · exact .inr (.inl h)
  rcases perform_look_bind_error h with h | ⟨_, hqueue, h⟩
  · exact .inr (.inr ⟨balance, hquote, h⟩)
  -- what is left are the changes, and they were checked
  obtain ⟨book, hwithdraw⟩ := withdraw_of_quote hquote
  refine absurd h (SucceedsAt.perform_ne_error (.bind_look rfl ?_) e l')
  refine SucceedsAt.bind (succeedsAt_changeBook ⟨balance, book, hwithdraw⟩) fun _ m hm => ?_
  obtain ⟨book, hwithdraw, rfl⟩ := perform_changeBook_ok_iff.mp hm
  rw [← (PoolMove.of_withdraw hwithdraw).swaps_eq] at hqueue
  exact succeedsAt_changeBook ⟨_, _, bind_eq_ok_iff.mpr
    ⟨_, SwapQueue.enqueue_eq_ok_iff.mpr ⟨hqueue, rfl, rfl⟩, rfl⟩⟩

/-- **A swap is never refused for a balance of zero.** -/
theorem queueSwap_ne_insufficientAmount (hb : l.book.Backed) (hv : l.book.Valid) (who : AccountId)
    (source target : PoolId) (shares : Shares) (block : Block) (l' : Ledger) :
    (queueSwap who source target shares block).perform l ≠ (.error .insufficientAmount, l') := by
  intro h
  rcases error_of_queueSwap h with h | h | ⟨balance, hquote, h⟩
  · rcases error_of_activePool h with h | ⟨node, h⟩ <;> cases h
  · rcases error_of_quoteWithdraw h with h | h <;> cases h
  · unfold SwapQueue.checkEnqueue at h
    rw [if_neg (hb.amount_ne_zero hv hquote)] at h
    split at h <;> cases h

/-! ## Undelegations -/

/-- **What an undelegation pays is no less than the shares that it burns, and enters the unbonding
list of the account.** -/
theorem enters_of_undelegate (hb : l.book.Backed) (hv : l.book.Valid) {pool : PoolId}
    (h : (undelegate who pool shares block).perform l = (.ok amount, l')) :
    shares ≤ amount ∧ amount ≠ 0 ∧ ∃ unlock released,
      l.book.unbonding.enqueue who amount unlock block = .ok (released, l'.book.unbonding) := by
  cases effect_of_undelegate h with
  | undelegate withdraw _ worth enter =>
    exact ⟨hb.le_amount hv (quote_of_withdraw withdraw), worth, _, _, enter⟩
  | burn withdraw => exact absurd rfl (hb.amount_ne_zero hv (quote_of_withdraw withdraw))

/-- **A share is always worth at least one unit.** After any run of calls on pools, every pool that
is stored has shares and no fewer units; a deposit mints at least one share and no more than it has
units, a withdrawal pays no fewer units than it burns shares, every amount has a price in shares,
and no pool has shares but no balance. On a reachable ledger no shares are quoted at nothing, every
undelegation enters what it pays into the unbonding list, and no swap is refused for a balance of
zero. -/
theorem shares_keep_worth {κ : Type} [KeyOrder κ] [DecidableEq κ] {p : SharePool κ}
    {calls : List (SharePool.Call κ)} (hp : SharePool.run calls = p) (hl : l.Reachable) :
    (∀ key q, p.pools.get? key = some q →
      0 < q.totalShares.toNat ∧ q.totalShares ≤ q.totalBalance) ∧
    (∀ who key amount minimum shares p', p.deposit who key amount minimum = .ok (shares, p') →
      1 ≤ shares.toNat ∧ shares ≤ amount) ∧
    (∀ who key shares amount p', p.withdraw who key shares = .ok (amount, p') → shares ≤ amount) ∧
    (∀ key amount, ∃ shares,
      sharesFor amount (p.pool key).totalShares (p.pool key).totalBalance = .ok shares) ∧
    (∀ key, (p.pool key).totalShares ≠ 0 → (p.pool key).totalBalance ≠ 0) ∧
    (∀ who pool shares amount, l.book.quoteWithdraw who pool shares = .ok amount → amount ≠ 0) ∧
    (∀ who pool shares block amount l',
      (undelegate who pool shares block).perform l = (.ok amount, l') →
        shares ≤ amount ∧ amount ≠ 0 ∧ ∃ unlock released,
          l.book.unbonding.enqueue who amount unlock block = .ok (released, l'.book.unbonding)) ∧
    ∀ who source target shares block l',
      (queueSwap who source target shares block).perform l ≠ (.error .insufficientAmount, l') := by
  have hvp : p.Valid := hp ▸ SharePool.valid_run calls
  have hbp : p.Backed := hp ▸ SharePool.backed_run calls
  have hv := hl.valid
  have hb := hl.backed
  refine ⟨fun key q hq => ⟨Word.ne_zero_iff.mp (hvp.totalShares_ne_zero key q hq), ?_⟩,
    fun who key amount minimum shares p' h => ?_, fun who key shares amount p' h => ?_,
    hbp.exists_sharesFor, fun key h => hbp.balance_ne_zero h,
    fun who pool shares amount h => hb.amount_ne_zero hv h,
    fun who pool shares block amount l' h => enters_of_undelegate hb hv h,
    queueSwap_ne_insufficientAmount hb hv⟩
  · have hbacked := hbp key
    unfold SharePool.pool at hbacked
    rw [OrdMap.getD_of_some hq] at hbacked
    exact hbacked
  · have hquote := (SharePool.deposit_eq_ok_iff.mp h).1
    obtain ⟨-, ht⟩ := SharePool.quoteDeposit_eq_ok_iff.mp hquote
    exact ⟨Word.ne_zero_iff.mp ht.shares_ne_zero, ht.shares_le hbp⟩
  · have hquote := (SharePool.withdraw_eq_ok_iff.mp h).1
    exact (SharePool.quoteWithdraw_eq_ok_iff.mp hquote).le_amount hvp hbp

/-- A pool is left and entered again, at one share for one unit both times, and holds 7 units for 4
shares at the end. -/
def reentered : List (SharePool.Call SubnetId) :=
  [.deposit (.dev 1) 1 5 0, .distribute 1 2, .withdraw (.dev 1) 1 5, .deposit (.dev 2) 1 4 0,
   .distribute 1 3]

/-- One share of 4 is paid no less than one unit of 7. An undelegation of one share of 50 is
accepted, and enters no less than one unit of 57. -/
theorem shares_keep_worth_reentered :
    (SharePool.run reentered).pools.get? 1 = some ⟨4, 7⟩ ∧
      (∀ amount p', (SharePool.run reentered).withdraw (.dev 2) 1 1 = .ok (amount, p') →
        1 ≤ amount) ∧
      ((undelegate (.dev 1) (.subnet 1) 1 2).perform ((new shared).run holding)).1.toOption =
        some 1 ∧
      ∀ amount l', (undelegate (.dev 1) (.subnet 1) 1 2).perform ((new shared).run holding) =
        (.ok amount, l') → 1 ≤ amount ∧ ∃ unlock released,
          ((new shared).run holding).book.unbonding.enqueue (.dev 1) amount unlock 2 =
            .ok (released, l'.book.unbonding) := by
  obtain ⟨-, -, hpays, -, -, -, henters, -⟩ :=
    shares_keep_worth (rfl : SharePool.run reentered = _) ⟨shared, holding, rfl⟩
  refine ⟨by decide +kernel, hpays (.dev 2) 1 1, by decide +kernel, fun amount l' h => ?_⟩
  obtain ⟨hle, -, henter⟩ := henters _ _ _ _ _ _ h
  exact ⟨hle, henter⟩

end Ledger

end Stakebook
