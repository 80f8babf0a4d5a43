import Stakebook.Ledger.Basic
import Stakebook.Proofs.Pool.Holdings
import Stakebook.Proofs.SwapQueue

/-!
# Either kind of pool

A call on a pool of the book is a call on the pools of its kind, and leaves the rest of the book as
it is. `PoolMove` says so once for all four calls.

Headlines:
* **`deposit_eq_ok_iff`**, **`withdraw_eq_ok_iff`**, **`transfer_eq_ok_iff`**,
  **`distribute_eq_ok_iff`**: an accepted call is accepted by the pools of one kind.
* **`BesidePools.deposit_eq`** and its companions: no call reads or changes the rest of the book.
* **`Valid.move`**: it keeps the book valid.
* **`Valid.exists_withdraw`**: whatever shares an account has can be withdrawn.
* **`Valid.pooled_deposit`**, **`Valid.pooled_withdraw`**, **`Valid.pooled_distribute`**: what it does
  to the balances of all pools.
* **`Valid.sharesOf_deposit`**, **`sharesOf_withdraw`**, **`Valid.sharesOf_transfer`**: what it does to
  the shares of every account in every pool.
-/

namespace Stakebook.Book

variable {b b' : Book} {who : AccountId} {pool : PoolId} {shares : Shares}
  {amount minimum : Amount}

/-! ## Accepted calls -/

theorem deposit_eq_ok_iff :
    b.deposit who pool amount minimum = .ok (shares, b') ↔
      match pool with
      | .subnet id => ∃ delegate, b.delegate.deposit who id amount minimum = .ok (shares, delegate) ∧
          b' = { b with delegate }
      | .node key => ∃ nodeDelegate,
          b.nodeDelegate.deposit who key amount minimum = .ok (shares, nodeDelegate) ∧
          b' = { b with nodeDelegate } := by
  unfold deposit
  cases pool <;>
  · simp only [bind_eq_ok_iff, pure_eq_ok_iff, Prod.mk.injEq]
    constructor
    · rintro ⟨⟨s, p⟩, h, rfl, rfl⟩
      exact ⟨p, h, rfl⟩
    · rintro ⟨p, h, rfl⟩
      exact ⟨(shares, p), h, rfl, rfl⟩

theorem withdraw_eq_ok_iff :
    b.withdraw who pool shares = .ok (amount, b') ↔
      match pool with
      | .subnet id => ∃ delegate, b.delegate.withdraw who id shares = .ok (amount, delegate) ∧
          b' = { b with delegate }
      | .node key => ∃ nodeDelegate,
          b.nodeDelegate.withdraw who key shares = .ok (amount, nodeDelegate) ∧
          b' = { b with nodeDelegate } := by
  unfold withdraw
  cases pool <;>
  · simp only [bind_eq_ok_iff, pure_eq_ok_iff, Prod.mk.injEq]
    constructor
    · rintro ⟨⟨a, p⟩, h, rfl, rfl⟩
      exact ⟨p, h, rfl⟩
    · rintro ⟨p, h, rfl⟩
      exact ⟨(amount, p), h, rfl, rfl⟩

theorem transfer_eq_ok_iff {target : AccountId} :
    b.transfer who pool target shares minimum = .ok b' ↔
      match pool with
      | .subnet id => ∃ delegate, b.delegate.transfer who id target shares minimum = .ok delegate ∧
          b' = { b with delegate }
      | .node key => ∃ nodeDelegate,
          b.nodeDelegate.transfer who key target shares minimum = .ok nodeDelegate ∧
          b' = { b with nodeDelegate } := by
  unfold transfer
  cases pool <;>
  · simp only [bind_eq_ok_iff, pure_eq_ok_iff]
    constructor
    · rintro ⟨p, h, rfl⟩
      exact ⟨p, h, rfl⟩
    · rintro ⟨p, h, rfl⟩
      exact ⟨p, h, rfl⟩

theorem distribute_eq_ok_iff :
    b.distribute pool amount = .ok b' ↔
      match pool with
      | .subnet id => ∃ delegate, b.delegate.distribute id amount = .ok delegate ∧
          b' = { b with delegate }
      | .node key => ∃ nodeDelegate, b.nodeDelegate.distribute key amount = .ok nodeDelegate ∧
          b' = { b with nodeDelegate } := by
  unfold distribute
  cases pool <;>
  · simp only [bind_eq_ok_iff, pure_eq_ok_iff]
    constructor
    · rintro ⟨p, h, rfl⟩
      exact ⟨p, h, rfl⟩
    · rintro ⟨p, h, rfl⟩
      exact ⟨p, h, rfl⟩

/-! ## Pools and the other records

No call on a pool reads or changes the records beside the pools, so it does not matter whether these
are edited before or after. -/

/-- An edit of the records beside the pools. -/
structure BesidePools (f : Book → Book) : Prop where
  delegate : ∀ b, (f b).delegate = b.delegate
  nodeDelegate : ∀ b, (f b).nodeDelegate = b.nodeDelegate
  with_delegate : ∀ (b : Book) (delegate : SharePool SubnetId),
    f { b with delegate } = { f b with delegate }
  with_nodeDelegate : ∀ (b : Book) (nodeDelegate : SharePool NodeKey),
    f { b with nodeDelegate } = { f b with nodeDelegate }

theorem besidePools_swaps (swaps : SwapQueue) : BesidePools fun b => { b with swaps } :=
  ⟨fun _ => rfl, fun _ => rfl, fun _ _ => rfl, fun _ _ => rfl⟩

theorem besidePools_unbonding (unbonding : Unbonding) : BesidePools fun b => { b with unbonding } :=
  ⟨fun _ => rfl, fun _ => rfl, fun _ _ => rfl, fun _ _ => rfl⟩

theorem besidePools_overwatch (overwatch : Overwatch) : BesidePools fun b => { b with overwatch } :=
  ⟨fun _ => rfl, fun _ => rfl, fun _ _ => rfl, fun _ _ => rfl⟩

namespace BesidePools

variable {f : Book → Book}

theorem quoteDeposit_eq (hf : BesidePools f) (b : Book) (pool : PoolId) (amount minimum : Amount) :
    (f b).quoteDeposit pool amount minimum = b.quoteDeposit pool amount minimum := by
  cases pool with
  | subnet id => simp only [quoteDeposit, hf.delegate]
  | node key => simp only [quoteDeposit, hf.nodeDelegate]

theorem quoteWithdraw_eq (hf : BesidePools f) (b : Book) (who : AccountId) (pool : PoolId)
    (shares : Shares) : (f b).quoteWithdraw who pool shares = b.quoteWithdraw who pool shares := by
  cases pool with
  | subnet id => simp only [quoteWithdraw, hf.delegate]
  | node key => simp only [quoteWithdraw, hf.nodeDelegate]

theorem deposit_eq (hf : BesidePools f) (b : Book) (who : AccountId) (pool : PoolId)
    (amount minimum : Amount) :
    (f b).deposit who pool amount minimum =
      (b.deposit who pool amount minimum).map fun r => (r.1, f r.2) := by
  cases pool with
  | subnet id =>
    simp only [deposit, hf.delegate]
    cases b.delegate.deposit who id amount minimum with
    | error e => rfl
    | ok r =>
      show Except.ok (r.1, { f b with delegate := r.2 }) = .ok (r.1, f { b with delegate := r.2 })
      rw [hf.with_delegate b r.2]
  | node key =>
    simp only [deposit, hf.nodeDelegate]
    cases b.nodeDelegate.deposit who key amount minimum with
    | error e => rfl
    | ok r =>
      show Except.ok (r.1, { f b with nodeDelegate := r.2 }) =
        .ok (r.1, f { b with nodeDelegate := r.2 })
      rw [hf.with_nodeDelegate b r.2]

theorem withdraw_eq (hf : BesidePools f) (b : Book) (who : AccountId) (pool : PoolId)
    (shares : Shares) :
    (f b).withdraw who pool shares =
      (b.withdraw who pool shares).map fun r => (r.1, f r.2) := by
  cases pool with
  | subnet id =>
    simp only [withdraw, hf.delegate]
    cases b.delegate.withdraw who id shares with
    | error e => rfl
    | ok r =>
      show Except.ok (r.1, { f b with delegate := r.2 }) = .ok (r.1, f { b with delegate := r.2 })
      rw [hf.with_delegate b r.2]
  | node key =>
    simp only [withdraw, hf.nodeDelegate]
    cases b.nodeDelegate.withdraw who key shares with
    | error e => rfl
    | ok r =>
      show Except.ok (r.1, { f b with nodeDelegate := r.2 }) =
        .ok (r.1, f { b with nodeDelegate := r.2 })
      rw [hf.with_nodeDelegate b r.2]

theorem transfer_eq (hf : BesidePools f) (b : Book) (source : AccountId) (pool : PoolId)
    (target : AccountId) (shares : Shares) (minimum : Amount) :
    (f b).transfer source pool target shares minimum =
      (b.transfer source pool target shares minimum).map f := by
  cases pool with
  | subnet id =>
    simp only [transfer, hf.delegate]
    cases b.delegate.transfer source id target shares minimum with
    | error e => rfl
    | ok p =>
      show Except.ok { f b with delegate := p } = .ok (f { b with delegate := p })
      rw [hf.with_delegate b p]
  | node key =>
    simp only [transfer, hf.nodeDelegate]
    cases b.nodeDelegate.transfer source key target shares minimum with
    | error e => rfl
    | ok p =>
      show Except.ok { f b with nodeDelegate := p } = .ok (f { b with nodeDelegate := p })
      rw [hf.with_nodeDelegate b p]

theorem distribute_eq (hf : BesidePools f) (b : Book) (pool : PoolId) (amount : Amount) :
    (f b).distribute pool amount = (b.distribute pool amount).map f := by
  cases pool with
  | subnet id =>
    simp only [distribute, hf.delegate]
    cases b.delegate.distribute id amount with
    | error e => rfl
    | ok p =>
      show Except.ok { f b with delegate := p } = .ok (f { b with delegate := p })
      rw [hf.with_delegate b p]
  | node key =>
    simp only [distribute, hf.nodeDelegate]
    cases b.nodeDelegate.distribute key amount with
    | error e => rfl
    | ok p =>
      show Except.ok { f b with nodeDelegate := p } = .ok (f { b with nodeDelegate := p })
      rw [hf.with_nodeDelegate b p]

end BesidePools

/-- What a deposit would receive does not depend on the queue. -/
theorem quoteDeposit_with_swaps (b : Book) (swaps : SwapQueue) (pool : PoolId)
    (amount minimum : Amount) :
    ({ b with swaps } : Book).quoteDeposit pool amount minimum =
      b.quoteDeposit pool amount minimum :=
  (besidePools_swaps swaps).quoteDeposit_eq ..

/-- Nor does it depend on the unbonding lists. -/
theorem quoteDeposit_with_unbonding (b : Book) (unbonding : Unbonding) (pool : PoolId)
    (amount minimum : Amount) :
    ({ b with unbonding } : Book).quoteDeposit pool amount minimum =
      b.quoteDeposit pool amount minimum :=
  (besidePools_unbonding unbonding).quoteDeposit_eq ..

theorem deposit_with_unbonding (h : b.deposit who pool amount minimum = .ok (shares, b'))
    (unbonding : Unbonding) :
    ({ b with unbonding } : Book).deposit who pool amount minimum =
      .ok (shares, { b' with unbonding }) := by
  have hedit := (besidePools_unbonding unbonding).deposit_eq b who pool amount minimum
  rw [h] at hedit
  exact hedit

theorem withdraw_with_unbonding (h : b.withdraw who pool shares = .ok (amount, b'))
    (unbonding : Unbonding) :
    ({ b with unbonding } : Book).withdraw who pool shares =
      .ok (amount, { b' with unbonding }) := by
  have hedit := (besidePools_unbonding unbonding).withdraw_eq b who pool shares
  rw [h] at hedit
  exact hedit

theorem transfer_with_unbonding {target : AccountId}
    (h : b.transfer who pool target shares minimum = .ok b') (unbonding : Unbonding) :
    ({ b with unbonding } : Book).transfer who pool target shares minimum =
      .ok { b' with unbonding } := by
  have hedit := (besidePools_unbonding unbonding).transfer_eq b who pool target shares minimum
  rw [h] at hedit
  exact hedit

theorem distribute_with_unbonding (h : b.distribute pool amount = .ok b')
    (unbonding : Unbonding) :
    ({ b with unbonding } : Book).distribute pool amount = .ok { b' with unbonding } := by
  have hedit := (besidePools_unbonding unbonding).distribute_eq b pool amount
  rw [h] at hedit
  exact hedit

/-! ## Quotes -/

/-- A deposit that was quoted is accepted. -/
theorem deposit_of_quote (h : b.quoteDeposit pool amount minimum = .ok shares) (who : AccountId) :
    ∃ b', b.deposit who pool amount minimum = .ok (shares, b') := by
  cases pool with
  | subnet id =>
    exact ⟨_, deposit_eq_ok_iff.mpr ⟨_, SharePool.deposit_eq_ok_iff.mpr ⟨h, rfl⟩, rfl⟩⟩
  | node key =>
    exact ⟨_, deposit_eq_ok_iff.mpr ⟨_, SharePool.deposit_eq_ok_iff.mpr ⟨h, rfl⟩, rfl⟩⟩

/-- What is received is what was quoted. -/
theorem quote_of_deposit (h : b.deposit who pool amount minimum = .ok (shares, b')) :
    b.quoteDeposit pool amount minimum = .ok shares := by
  rw [deposit_eq_ok_iff] at h
  cases pool with
  | subnet id =>
    obtain ⟨p, h, -⟩ := h
    exact (SharePool.deposit_eq_ok_iff.mp h).1
  | node key =>
    obtain ⟨p, h, -⟩ := h
    exact (SharePool.deposit_eq_ok_iff.mp h).1

/-- A withdrawal that was quoted is accepted. -/
theorem withdraw_of_quote (h : b.quoteWithdraw who pool shares = .ok amount) :
    ∃ b', b.withdraw who pool shares = .ok (amount, b') := by
  cases pool with
  | subnet id =>
    exact ⟨_, withdraw_eq_ok_iff.mpr ⟨_, SharePool.withdraw_eq_ok_iff.mpr ⟨h, rfl⟩, rfl⟩⟩
  | node key =>
    exact ⟨_, withdraw_eq_ok_iff.mpr ⟨_, SharePool.withdraw_eq_ok_iff.mpr ⟨h, rfl⟩, rfl⟩⟩

/-- What is paid is what was quoted. -/
theorem quote_of_withdraw (h : b.withdraw who pool shares = .ok (amount, b')) :
    b.quoteWithdraw who pool shares = .ok amount := by
  rw [withdraw_eq_ok_iff] at h
  cases pool with
  | subnet id =>
    obtain ⟨p, h, -⟩ := h
    exact (SharePool.withdraw_eq_ok_iff.mp h).1
  | node key =>
    obtain ⟨p, h, -⟩ := h
    exact (SharePool.withdraw_eq_ok_iff.mp h).1

/-! ## One move -/

/-- The pools of one kind make a move, and the rest of the book stays as it is. -/
inductive PoolMove (b : Book) : Book → Prop
  | delegate {delegate : SharePool SubnetId} (h : SharePool.Move b.delegate delegate) :
      PoolMove b { b with delegate }
  | nodeDelegate {nodeDelegate : SharePool NodeKey}
      (h : SharePool.Move b.nodeDelegate nodeDelegate) : PoolMove b { b with nodeDelegate }

namespace PoolMove

theorem of_deposit (h : b.deposit who pool amount minimum = .ok (shares, b')) : PoolMove b b' := by
  rw [deposit_eq_ok_iff] at h
  cases pool with
  | subnet id =>
    obtain ⟨p, h, rfl⟩ := h
    exact .delegate (.deposit h)
  | node key =>
    obtain ⟨p, h, rfl⟩ := h
    exact .nodeDelegate (.deposit h)

theorem of_withdraw (h : b.withdraw who pool shares = .ok (amount, b')) : PoolMove b b' := by
  rw [withdraw_eq_ok_iff] at h
  cases pool with
  | subnet id =>
    obtain ⟨p, h, rfl⟩ := h
    exact .delegate (.withdraw h)
  | node key =>
    obtain ⟨p, h, rfl⟩ := h
    exact .nodeDelegate (.withdraw h)

theorem of_transfer {target : AccountId}
    (h : b.transfer who pool target shares minimum = .ok b') : PoolMove b b' := by
  rw [transfer_eq_ok_iff] at h
  cases pool with
  | subnet id =>
    obtain ⟨p, h, rfl⟩ := h
    exact .delegate (.transfer h)
  | node key =>
    obtain ⟨p, h, rfl⟩ := h
    exact .nodeDelegate (.transfer h)

theorem of_distribute (h : b.distribute pool amount = .ok b') : PoolMove b b' := by
  rw [distribute_eq_ok_iff] at h
  cases pool with
  | subnet id =>
    obtain ⟨p, h, rfl⟩ := h
    exact .delegate (.distribute h)
  | node key =>
    obtain ⟨p, h, rfl⟩ := h
    exact .nodeDelegate (.distribute h)

theorem stakes_eq (h : PoolMove b b') : b'.stakes = b.stakes := by
  cases h <;> rfl

theorem unbonding_eq (h : PoolMove b b') : b'.unbonding = b.unbonding := by
  cases h <;> rfl

theorem swaps_eq (h : PoolMove b b') : b'.swaps = b.swaps := by
  cases h <;> rfl

theorem overwatch_eq (h : PoolMove b b') : b'.overwatch = b.overwatch := by
  cases h <;> rfl

end PoolMove

/-! ## Valid books -/

/-- The pools of both kinds and the queue are valid. -/
structure Valid (b : Book) : Prop where
  delegate : b.delegate.Valid
  nodeDelegate : b.nodeDelegate.Valid
  swaps : b.swaps.Valid

theorem valid_empty (capacity : Count) : Valid (empty capacity) :=
  ⟨SharePool.valid_empty, SharePool.valid_empty, SwapQueue.valid_empty⟩

/-- The balances of all pools together. -/
def pooled (b : Book) : Nat :=
  SharePool.worth b.delegate.pools + SharePool.worth b.nodeDelegate.pools

/-- A transfer leaves what is pooled as it is. -/
theorem pooled_transfer {target : AccountId}
    (h : b.transfer who pool target shares minimum = .ok b') : b'.pooled = b.pooled := by
  rw [transfer_eq_ok_iff] at h
  cases pool with
  | subnet id =>
    obtain ⟨p, h, rfl⟩ := h
    obtain ⟨-, rfl⟩ := SharePool.transfer_eq_ok_iff.mp h
    rfl
  | node key =>
    obtain ⟨p, h, rfl⟩ := h
    obtain ⟨-, rfl⟩ := SharePool.transfer_eq_ok_iff.mp h
    rfl

namespace Valid

/-- **A call on a pool keeps the book valid.** -/
theorem move (hv : b.Valid) (h : PoolMove b b') : b'.Valid := by
  cases h with
  | delegate h => exact ⟨hv.delegate.move h, hv.nodeDelegate, hv.swaps⟩
  | nodeDelegate h => exact ⟨hv.delegate, hv.nodeDelegate.move h, hv.swaps⟩

/-- **Whatever shares an account has can be withdrawn.** -/
theorem exists_withdraw (hv : b.Valid) (hne : shares ≠ 0) (hle : shares ≤ b.sharesOf who pool) :
    ∃ amount b', b.withdraw who pool shares = .ok (amount, b') := by
  have hquote : ∃ amount, b.quoteWithdraw who pool shares = .ok amount := by
    cases pool with
    | subnet id => exact hv.delegate.exists_quoteWithdraw hne hle
    | node key => exact hv.nodeDelegate.exists_quoteWithdraw hne hle
  obtain ⟨amount, hquote⟩ := hquote
  exact ⟨amount, withdraw_of_quote hquote⟩

/-- **A deposit adds its amount to what is pooled.** -/
theorem pooled_deposit (hv : b.Valid)
    (h : b.deposit who pool amount minimum = .ok (shares, b')) :
    b'.pooled = b.pooled + amount.toNat := by
  rw [deposit_eq_ok_iff] at h
  unfold pooled
  cases pool with
  | subnet id =>
    obtain ⟨p, h, rfl⟩ := h
    have := hv.delegate.worth_deposit h
    simp only
    omega
  | node key =>
    obtain ⟨p, h, rfl⟩ := h
    have := hv.nodeDelegate.worth_deposit h
    simp only
    omega

/-- **A withdrawal takes what it pays from what is pooled.** -/
theorem pooled_withdraw (hv : b.Valid) (h : b.withdraw who pool shares = .ok (amount, b')) :
    b'.pooled + amount.toNat = b.pooled := by
  rw [withdraw_eq_ok_iff] at h
  unfold pooled
  cases pool with
  | subnet id =>
    obtain ⟨p, h, rfl⟩ := h
    have := hv.delegate.worth_withdraw h
    simp only
    omega
  | node key =>
    obtain ⟨p, h, rfl⟩ := h
    have := hv.nodeDelegate.worth_withdraw h
    simp only
    omega

/-- **A reward adds its amount to what is pooled.** -/
theorem pooled_distribute (hv : b.Valid) (h : b.distribute pool amount = .ok b') :
    b'.pooled = b.pooled + amount.toNat := by
  rw [distribute_eq_ok_iff] at h
  unfold pooled
  cases pool with
  | subnet id =>
    obtain ⟨p, h, rfl⟩ := h
    have := hv.delegate.worth_distribute h
    simp only
    omega
  | node key =>
    obtain ⟨p, h, rfl⟩ := h
    have := hv.nodeDelegate.worth_distribute h
    simp only
    omega

end Valid

/-! ## One account, one pool -/

variable {x : AccountId} {p : PoolId}

/-- **The depositor gains the new shares, and nobody else gains or loses.** -/
theorem Valid.sharesOf_deposit (hv : b.Valid)
    (h : b.deposit who pool amount minimum = .ok (shares, b')) (x : AccountId) (p : PoolId) :
    (b'.sharesOf x p).toNat =
      (b.sharesOf x p).toNat + if x = who ∧ p = pool then shares.toNat else 0 := by
  rw [deposit_eq_ok_iff] at h
  cases pool with
  | subnet id =>
    obtain ⟨delegate, h, rfl⟩ := h
    cases p with
    | subnet k =>
      simp only [PoolId.subnet.injEq]
      exact hv.delegate.sharesOf_deposit h x k
    | node k => rw [if_neg fun he => PoolId.noConfusion he.2]; rfl
  | node key =>
    obtain ⟨nodeDelegate, h, rfl⟩ := h
    cases p with
    | subnet k => rw [if_neg fun he => PoolId.noConfusion he.2]; rfl
    | node k =>
      simp only [PoolId.node.injEq]
      exact hv.nodeDelegate.sharesOf_deposit h x k

/-- **The withdrawer loses the shares that are burned, and nobody else gains or loses.** -/
theorem sharesOf_withdraw (h : b.withdraw who pool shares = .ok (amount, b')) (x : AccountId)
    (p : PoolId) :
    (b'.sharesOf x p).toNat + (if x = who ∧ p = pool then shares.toNat else 0) =
      (b.sharesOf x p).toNat := by
  rw [withdraw_eq_ok_iff] at h
  cases pool with
  | subnet id =>
    obtain ⟨delegate, h, rfl⟩ := h
    cases p with
    | subnet k =>
      simp only [PoolId.subnet.injEq]
      exact SharePool.sharesOf_withdraw h x k
    | node k => rw [if_neg fun he => PoolId.noConfusion he.2]; rfl
  | node key =>
    obtain ⟨nodeDelegate, h, rfl⟩ := h
    cases p with
    | subnet k => rw [if_neg fun he => PoolId.noConfusion he.2]; rfl
    | node k =>
      simp only [PoolId.node.injEq]
      exact SharePool.sharesOf_withdraw h x k

/-- **The source loses what the target gains, and nobody else gains or loses.** -/
theorem Valid.sharesOf_transfer {target : AccountId} (hv : b.Valid)
    (h : b.transfer who pool target shares minimum = .ok b') (x : AccountId) (p : PoolId) :
    (b'.sharesOf x p).toNat + (if x = who ∧ p = pool then shares.toNat else 0) =
      (b.sharesOf x p).toNat + if x = target ∧ p = pool then shares.toNat else 0 := by
  rw [transfer_eq_ok_iff] at h
  cases pool with
  | subnet id =>
    obtain ⟨delegate, h, rfl⟩ := h
    cases p with
    | subnet k =>
      simp only [PoolId.subnet.injEq]
      exact hv.delegate.sharesOf_transfer h x k
    | node k =>
      rw [if_neg fun he => PoolId.noConfusion he.2, if_neg fun he => PoolId.noConfusion he.2]
      rfl
  | node key =>
    obtain ⟨nodeDelegate, h, rfl⟩ := h
    cases p with
    | subnet k =>
      rw [if_neg fun he => PoolId.noConfusion he.2, if_neg fun he => PoolId.noConfusion he.2]
      rfl
    | node k =>
      simp only [PoolId.node.injEq]
      exact hv.nodeDelegate.sharesOf_transfer h x k

/-- A reward leaves all shares as they are. -/
theorem sharesOf_distribute (h : b.distribute pool amount = .ok b') (x : AccountId) (p : PoolId) :
    b'.sharesOf x p = b.sharesOf x p := by
  rw [distribute_eq_ok_iff] at h
  cases pool with
  | subnet id =>
    obtain ⟨delegate, h, rfl⟩ := h
    cases p with
    | subnet k => exact SharePool.sharesOf_distribute h x k
    | node k => rfl
  | node key =>
    obtain ⟨nodeDelegate, h, rfl⟩ := h
    cases p with
    | subnet k => rfl
    | node k => exact SharePool.sharesOf_distribute h x k

/-- A deposit adds its amount to the balance of its pool. -/
theorem totalBalance_deposit (h : b.deposit who pool amount minimum = .ok (shares, b'))
    (p : PoolId) :
    (b'.pool p).totalBalance.toNat =
      (b.pool p).totalBalance.toNat + if p = pool then amount.toNat else 0 := by
  rw [deposit_eq_ok_iff] at h
  cases pool with
  | subnet id =>
    obtain ⟨delegate, h, rfl⟩ := h
    cases p with
    | subnet k =>
      simp only [PoolId.subnet.injEq]
      exact SharePool.totalBalance_deposit h k
    | node k => rw [if_neg PoolId.noConfusion]; rfl
  | node key =>
    obtain ⟨nodeDelegate, h, rfl⟩ := h
    cases p with
    | subnet k => rw [if_neg PoolId.noConfusion]; rfl
    | node k =>
      simp only [PoolId.node.injEq]
      exact SharePool.totalBalance_deposit h k

/-- A deposit mints at least one share. -/
theorem shares_ne_zero_of_deposit (h : b.deposit who pool amount minimum = .ok (shares, b')) :
    shares ≠ 0 := by
  rw [deposit_eq_ok_iff] at h
  cases pool with
  | subnet id =>
    obtain ⟨delegate, h, -⟩ := h
    exact (SharePool.quoteDeposit_eq_ok_iff.mp (SharePool.deposit_eq_ok_iff.mp h).1).2.shares_ne_zero
  | node key =>
    obtain ⟨nodeDelegate, h, -⟩ := h
    exact (SharePool.quoteDeposit_eq_ok_iff.mp (SharePool.deposit_eq_ok_iff.mp h).1).2.shares_ne_zero

/-- A withdrawal leaves all other pools as they are. -/
theorem pool_withdraw_of_ne (h : b.withdraw who pool shares = .ok (amount, b')) (hp : p ≠ pool) :
    b'.pool p = b.pool p := by
  rw [withdraw_eq_ok_iff] at h
  cases pool with
  | subnet id =>
    obtain ⟨delegate, h, rfl⟩ := h
    cases p with
    | subnet k => exact SharePool.pool_withdraw_of_ne h fun hk => hp (congrArg _ hk)
    | node k => rfl
  | node key =>
    obtain ⟨nodeDelegate, h, rfl⟩ := h
    cases p with
    | subnet k => rfl
    | node k => exact SharePool.pool_withdraw_of_ne h fun hk => hp (congrArg _ hk)

end Stakebook.Book
