import Stakebook.Proofs.Ledger.Runs

/-!
# Bystanders never lose

What one account does to a pool costs no other: no event lowers the price of a share, and so whoever
keeps the shares of a pool can redeem no less after it.

Headlines:
* **`price_step`**: no event lowers the price of a pool.
* **`balanceOf_step`**, **`balanceOf_run`**: over one event, and over a run at no step of which an
  account has fewer shares, its balance in the pool does not fall.
* **`price_never_falls`**: all of it, for every reachable ledger.
-/

namespace Stakebook.Ledger

variable {l l' : Ledger} {block : Block} {who : AccountId} {pool : PoolId}

/-- No accepted call lowers the price of a pool. -/
theorem Effect.price {call : LedgerCall} {signer : Option AccountId} {output : CallOutput}
    (hv : l.book.Valid) (h : Effect block l call signer output l') (pool : PoolId) :
    (l.book.pool pool).PriceLe (l'.book.pool pool) := by
  obtain ⟨hdelegate, hnode⟩ := h.change
  cases pool with
  | subnet id => exact hv.delegate.price_change hdelegate id
  | node key => exact hv.nodeDelegate.price_change hnode key

/-- **No event lowers the price of a pool.** -/
theorem price_step (hv : l.book.Valid) (e : Event) (pool : PoolId) :
    (l.book.pool pool).PriceLe ((l.step e).book.pool pool) := by
  cases e with
  | administration a => exact .refl _
  | transaction t block =>
    show (l.book.pool pool).PriceLe ((t.apply block l).2.book.pool pool)
    rcases t.effect_of_apply block l with ⟨_, _, -, -, heffect⟩ | ⟨e, hrefused⟩
    · exact heffect.price hv pool
    · rw [hrefused]
      exact .refl _

/-- Where the price has not fallen, an account with no fewer shares can redeem no less. -/
theorem balanceOf_le {b b' : Book} (hv : b.Valid) (hv' : b'.Valid)
    (hprice : (b.pool pool).PriceLe (b'.pool pool))
    (hs : b.sharesOf who pool ≤ b'.sharesOf who pool) :
    b.balanceOf who pool ≤ b'.balanceOf who pool := by
  cases pool with
  | subnet id => exact hv.delegate.balanceOf_le hv'.delegate hprice hs
  | node key => exact hv.nodeDelegate.balanceOf_le hv'.nodeDelegate hprice hs

/-- **Who has no fewer shares after an event can redeem no less.** -/
theorem balanceOf_step (hv : l.book.Valid) (e : Event)
    (hs : l.book.sharesOf who pool ≤ (l.step e).book.sharesOf who pool) :
    l.book.balanceOf who pool ≤ (l.step e).book.balanceOf who pool :=
  balanceOf_le hv (valid_step hv e) (price_step hv e pool) hs

/-- **Who has fewer shares at no step of a run can redeem no less at its end.** -/
theorem balanceOf_run (hv : l.book.Valid) {events : List Event}
    (hs : ∀ n, n < events.length → (l.run (events.take n)).book.sharesOf who pool ≤
      (l.run (events.take (n + 1))).book.sharesOf who pool) :
    l.book.balanceOf who pool ≤ (l.run events).book.balanceOf who pool := by
  induction events generalizing l with
  | nil => exact Nat.le_refl _
  | cons e events ih =>
    have hfirst := balanceOf_step hv e (hs 0 (Nat.zero_lt_succ _))
    have hrest := ih (valid_step hv e) fun n hn => hs (n + 1) (Nat.succ_lt_succ hn)
    exact Nat.le_trans hfirst hrest

/-- **The price of a share never falls and bystanders never lose.** On a reachable ledger, whatever
the transaction and the block, balance over shares of every pool does not fall, and an account whose
shares in it are not reduced can redeem no less; nor can it after a run of events of any length at no
step of which its shares are reduced. -/
theorem price_never_falls (hl : l.Reachable) (pool : PoolId) :
    (∀ t block,
      (l.book.pool pool).totalBalance.toNat *
          ((Transaction.apply t block l).2.book.pool pool).totalShares.toNat ≤
        ((t.apply block l).2.book.pool pool).totalBalance.toNat *
          (l.book.pool pool).totalShares.toNat ∧
      ∀ who, l.book.sharesOf who pool ≤ (t.apply block l).2.book.sharesOf who pool →
        l.book.balanceOf who pool ≤ (t.apply block l).2.book.balanceOf who pool) ∧
    ∀ who events,
      (∀ n, n < events.length → (l.run (events.take n)).book.sharesOf who pool ≤
        (l.run (events.take (n + 1))).book.sharesOf who pool) →
      l.book.balanceOf who pool ≤ (l.run events).book.balanceOf who pool := by
  have hv := hl.valid
  refine ⟨fun t block => ⟨?_, fun who hs => ?_⟩, fun who events hs => balanceOf_run hv hs⟩
  · exact price_step hv (.transaction t block) pool
  · exact balanceOf_step hv (.transaction t block) hs

/-- Two funded accounts and a subnet. -/
def shared : Registry :=
  (((Registry.empty ⟨100, 10, 1, 3, 1, 4, 2, 4⟩).setBalance (.dev 1) 100).setBalance (.dev 2)
    100).registerSubnet 1 ⟨0, .max, 2⟩

/-- The second account holds 20 of 50 shares of a pool that has 57 units. -/
def holding : List Event :=
  [.transaction ⟨.signed (.dev 1), .delegate (.subnet 1) 30⟩ 0,
   .transaction ⟨.signed (.dev 2), .delegate (.subnet 1) 20⟩ 0,
   .transaction ⟨.system, .distribute (.subnet 1) 7⟩ 1]

/-- The first account withdraws, deposits again, and swaps out. -/
def moves : List Event :=
  [.transaction ⟨.signed (.dev 1), .undelegate (.subnet 1) 11⟩ 2,
   .transaction ⟨.signed (.dev 1), .delegate (.subnet 1) 9⟩ 2,
   .transaction ⟨.signed (.dev 1), .swap (.subnet 1) (.subnet 1) 13⟩ 3]

theorem price_never_falls_holding :
    ((new shared).run holding).book.balanceOf (.dev 2) (.subnet 1) = 22 ∧
      ((new shared).run holding).book.balanceOf (.dev 2) (.subnet 1) ≤
        (((new shared).run holding).run moves).book.balanceOf (.dev 2) (.subnet 1) :=
  ⟨by decide +kernel,
    (price_never_falls ⟨shared, holding, rfl⟩ (.subnet 1)).2 (.dev 2) moves (by decide +kernel)⟩

end Stakebook.Ledger
