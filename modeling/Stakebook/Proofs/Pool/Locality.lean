import Stakebook.Proofs.Ledger.Pools

/-!
# One pool at a time

`SharePool.part` is what is kept of one pool: its totals, and what each account holds in it. A
deposit, a withdrawal and a transfer read and write the part of one pool alone. So they leave all
other pools as they are, and wherever else that part is the same, the same call is accepted, answers
the same, and leaves the same part. A deposit needs one thing more, room in the balance of all pools
together.

Headlines:
* **`SharePool.deposit_congr`**, **`SharePool.withdraw_congr`**, **`SharePool.transfer_congr`**:
  pools of one kind.
* **`SharePool.Valid.ext_part`**: valid pools are known by their parts.
* **`Book.deposit_congr`**, **`Book.withdraw_congr`**, **`Book.transfer_congr`**: either kind of
  pool.
* **`Book.part_deposit_of_ne`** and its companions: all other pools of the book stay.
-/

namespace Stakebook

/-- What is kept of one pool: its totals, and the holdings in it. -/
@[ext] structure PoolPart where
  totals : Option Pool
  holdings : AccountId → Option Shares

/-! ## Pools of one kind -/

namespace SharePool

variable {κ : Type} [KeyOrder κ]

/-- What is kept of the pool of a key. -/
def part (p : SharePool κ) (key : κ) : PoolPart :=
  ⟨p.pools.get? key, fun who => p.shares.get? (who, key)⟩

variable {p p' q : SharePool κ} {who target : AccountId} {key other : κ} {shares : Shares}
  {amount minimum : Amount}

section agreement

variable (hq : q.part key = p.part key)
include hq

theorem get?_pools_congr : q.pools.get? key = p.pools.get? key := congrArg PoolPart.totals hq

theorem get?_shares_congr (who : AccountId) : q.shares.get? (who, key) = p.shares.get? (who, key) :=
  congrFun (congrArg PoolPart.holdings hq) who

theorem pool_congr : q.pool key = p.pool key := by
  unfold pool OrdMap.getD
  rw [get?_pools_congr hq]

theorem sharesOf_congr (who : AccountId) : q.sharesOf who key = p.sharesOf who key :=
  congrArg (Option.getD · 0) (get?_shares_congr hq who)

theorem quoteWithdraw_congr (who : AccountId) (shares : Shares) :
    q.quoteWithdraw who key shares = p.quoteWithdraw who key shares := by
  unfold quoteWithdraw
  rw [pool_congr hq, sharesOf_congr hq]

/-- What a deposit would receive depends on one pool, and on room in the balance of all. -/
theorem quoteDeposit_congr (hfit : q.totalBalance.toNat + amount.toNat < 2 ^ 128)
    (h : p.quoteDeposit key amount minimum = .ok shares) :
    q.quoteDeposit key amount minimum = .ok shares := by
  obtain ⟨hminimum, ht⟩ := quoteDeposit_eq_ok_iff.mp h
  have hpool := pool_congr hq
  exact quoteDeposit_eq_ok_iff.mpr ⟨hminimum,
    { amount_ne_zero := ht.amount_ne_zero
      priced := hpool ▸ ht.priced
      shares_ne_zero := ht.shares_ne_zero
      shares_fit := hpool ▸ ht.shares_fit
      balance_fits := hpool ▸ ht.balance_fits
      worth_fits := hfit }⟩

end agreement

variable [DecidableEq κ]

/-! ### Other pools -/

theorem part_deposit_of_ne (h : p.deposit who key amount minimum = .ok (shares, p'))
    (hne : other ≠ key) : p'.part other = p.part other := by
  obtain ⟨-, rfl⟩ := deposit_eq_ok_iff.mp h
  refine PoolPart.ext ?_ (funext fun x => ?_)
  · exact (OrdMap.get?_insert ..).trans (if_neg hne)
  · exact (OrdMap.get?_insert ..).trans (if_neg fun he => hne (Prod.mk.inj he).2)

theorem part_withdraw_of_ne (h : p.withdraw who key shares = .ok (amount, p'))
    (hne : other ≠ key) : p'.part other = p.part other := by
  obtain ⟨-, rfl⟩ := withdraw_eq_ok_iff.mp h
  refine PoolPart.ext ?_ (funext fun x => ?_)
  · exact (get?_shrink_eq ..).trans (if_neg hne)
  · exact (get?_burn ..).trans (if_neg fun he => hne (Prod.mk.inj he).2)

theorem part_transfer_of_ne (h : p.transfer who key target shares minimum = .ok p')
    (hne : other ≠ key) : p'.part other = p.part other := by
  obtain ⟨-, rfl⟩ := transfer_eq_ok_iff.mp h
  refine PoolPart.ext rfl (funext fun x => ?_)
  have hkey (y : AccountId) : ¬(x, other) = (y, key) := fun he => hne (Prod.mk.inj he).2
  show (OrdMap.insert ..).get? (x, other) = p.shares.get? (x, other)
  rw [OrdMap.get?_insert, if_neg (hkey target), get?_burn, if_neg (hkey who)]

/-! ### The pool itself -/

/-- **A deposit depends on one pool**, and on room in the balance of all. -/
theorem deposit_congr (hq : q.part key = p.part key)
    (hfit : q.totalBalance.toNat + amount.toNat < 2 ^ 128)
    (h : p.deposit who key amount minimum = .ok (shares, p')) :
    ∃ q', q.deposit who key amount minimum = .ok (shares, q') ∧ q'.part key = p'.part key := by
  obtain ⟨hquote, rfl⟩ := deposit_eq_ok_iff.mp h
  refine ⟨_, deposit_eq_ok_iff.mpr ⟨quoteDeposit_congr hq hfit hquote, rfl⟩, ?_⟩
  refine PoolPart.ext ?_ (funext fun x => ?_)
  · show (OrdMap.insert ..).get? key = (OrdMap.insert ..).get? key
    rw [OrdMap.get?_insert_self, OrdMap.get?_insert_self, pool_congr hq]
  · show (OrdMap.insert ..).get? (x, key) = (OrdMap.insert ..).get? (x, key)
    rw [OrdMap.get?_insert, OrdMap.get?_insert, sharesOf_congr hq, get?_shares_congr hq]

/-- Burning depends on the holdings of one pool. -/
theorem get?_burn_congr (hq : q.part key = p.part key) (who : AccountId) (shares : Shares)
    (x : AccountId) :
    (burn q.shares who key shares).get? (x, key) =
      (burn p.shares who key shares).get? (x, key) := by
  rw [get?_burn, get?_burn, get?_shares_congr hq, get?_shares_congr hq]

/-- **A withdrawal depends on one pool.** -/
theorem withdraw_congr (hq : q.part key = p.part key)
    (h : p.withdraw who key shares = .ok (amount, p')) :
    ∃ q', q.withdraw who key shares = .ok (amount, q') ∧ q'.part key = p'.part key := by
  obtain ⟨hquote, rfl⟩ := withdraw_eq_ok_iff.mp h
  rw [← quoteWithdraw_congr hq] at hquote
  refine ⟨_, withdraw_eq_ok_iff.mpr ⟨hquote, rfl⟩, PoolPart.ext ?_ (funext fun x => ?_)⟩
  · show (shrink ..).get? key = (shrink ..).get? key
    rw [get?_shrink_eq, get?_shrink_eq, get?_pools_congr hq]
  · exact get?_burn_congr hq who shares x

/-- **A transfer depends on one pool.** -/
theorem transfer_congr (hq : q.part key = p.part key)
    (h : p.transfer who key target shares minimum = .ok p') :
    ∃ q', q.transfer who key target shares minimum = .ok q' ∧ q'.part key = p'.part key := by
  obtain ⟨hvalue, rfl⟩ := transfer_eq_ok_iff.mp h
  rw [← quoteWithdraw_congr hq] at hvalue
  have hpools := get?_pools_congr hq
  refine ⟨_, transfer_eq_ok_iff.mpr ⟨hvalue, rfl⟩, PoolPart.ext hpools (funext fun x => ?_)⟩
  show (OrdMap.insert ..).get? (x, key) = (OrdMap.insert ..).get? (x, key)
  unfold OrdMap.getD
  rw [OrdMap.get?_insert, OrdMap.get?_insert, get?_burn_congr hq, get?_burn_congr hq]

/-- **Valid pools are known by their parts**: the balance of all together follows from them. -/
theorem Valid.ext_part (hp : p.Valid) (hq : q.Valid) (h : ∀ key, p.part key = q.part key) :
    p = q := by
  have hpools : p.pools = q.pools := OrdMap.ext_get? fun key => get?_pools_congr (h key)
  have hshares : p.shares = q.shares :=
    OrdMap.ext_get? fun (who, key) => get?_shares_congr (h key) who
  have htotal : p.totalBalance = q.totalBalance := by
    rw [Word.eq_iff, ← hp.worth_eq, ← hq.worth_eq, hpools]
  exact (SharePool.mk.injEq ..).mpr ⟨hpools, hshares, htotal⟩

end SharePool

/-! ## Either kind of pool -/

namespace Book

/-- What is kept of a pool. -/
def part (b : Book) : PoolId → PoolPart
  | .subnet id => b.delegate.part id
  | .node key => b.nodeDelegate.part key

variable {b b' c : Book} {who target : AccountId} {pool other : PoolId} {shares : Shares}
  {amount minimum : Amount}

/-! ### Other pools -/

/-- A change to the pool of one subnet leaves the other pools of the book as they are. -/
theorem part_delegate_of_ne {id : SubnetId} {delegate : SharePool SubnetId}
    (h : ∀ {k}, k ≠ id → delegate.part k = b.delegate.part k) (hne : other ≠ .subnet id) :
    ({ b with delegate } : Book).part other = b.part other := by
  cases other with
  | subnet k => exact h fun he => hne (congrArg PoolId.subnet he)
  | node k => rfl

/-- So does a change to the pool of one node. -/
theorem part_nodeDelegate_of_ne {key : NodeKey} {nodeDelegate : SharePool NodeKey}
    (h : ∀ {k}, k ≠ key → nodeDelegate.part k = b.nodeDelegate.part k) (hne : other ≠ .node key) :
    ({ b with nodeDelegate } : Book).part other = b.part other := by
  cases other with
  | subnet k => rfl
  | node k => exact h fun he => hne (congrArg PoolId.node he)

/-- **A deposit leaves all other pools as they are.** -/
theorem part_deposit_of_ne (h : b.deposit who pool amount minimum = .ok (shares, b'))
    (hne : other ≠ pool) : b'.part other = b.part other := by
  rw [deposit_eq_ok_iff] at h
  cases pool with
  | subnet id =>
    obtain ⟨p, h, rfl⟩ := h
    exact part_delegate_of_ne (SharePool.part_deposit_of_ne h) hne
  | node key =>
    obtain ⟨p, h, rfl⟩ := h
    exact part_nodeDelegate_of_ne (SharePool.part_deposit_of_ne h) hne

/-- **A withdrawal leaves all other pools as they are.** -/
theorem part_withdraw_of_ne (h : b.withdraw who pool shares = .ok (amount, b'))
    (hne : other ≠ pool) : b'.part other = b.part other := by
  rw [withdraw_eq_ok_iff] at h
  cases pool with
  | subnet id =>
    obtain ⟨p, h, rfl⟩ := h
    exact part_delegate_of_ne (SharePool.part_withdraw_of_ne h) hne
  | node key =>
    obtain ⟨p, h, rfl⟩ := h
    exact part_nodeDelegate_of_ne (SharePool.part_withdraw_of_ne h) hne

/-- **A transfer leaves all other pools as they are.** -/
theorem part_transfer_of_ne (h : b.transfer who pool target shares minimum = .ok b')
    (hne : other ≠ pool) : b'.part other = b.part other := by
  rw [transfer_eq_ok_iff] at h
  cases pool with
  | subnet id =>
    obtain ⟨p, h, rfl⟩ := h
    exact part_delegate_of_ne (SharePool.part_transfer_of_ne h) hne
  | node key =>
    obtain ⟨p, h, rfl⟩ := h
    exact part_nodeDelegate_of_ne (SharePool.part_transfer_of_ne h) hne

/-! ### The pool itself -/

/-- **A deposit depends on one pool**, and on room for its amount beside all that is pooled. -/
theorem deposit_congr (hv : c.Valid) (hc : c.part pool = b.part pool)
    (hfit : c.pooled + amount.toNat < 2 ^ 128)
    (h : b.deposit who pool amount minimum = .ok (shares, b')) :
    ∃ c', c.deposit who pool amount minimum = .ok (shares, c') ∧ c'.part pool = b'.part pool := by
  unfold pooled at hfit
  rw [hv.delegate.worth_eq, hv.nodeDelegate.worth_eq] at hfit
  rw [deposit_eq_ok_iff] at h
  cases pool with
  | subnet id =>
    obtain ⟨p, h, rfl⟩ := h
    obtain ⟨q, hq, hpart⟩ := SharePool.deposit_congr hc (by omega) h
    exact ⟨_, deposit_eq_ok_iff.mpr ⟨q, hq, rfl⟩, hpart⟩
  | node key =>
    obtain ⟨p, h, rfl⟩ := h
    obtain ⟨q, hq, hpart⟩ := SharePool.deposit_congr hc (by omega) h
    exact ⟨_, deposit_eq_ok_iff.mpr ⟨q, hq, rfl⟩, hpart⟩

/-- **A withdrawal depends on one pool.** -/
theorem withdraw_congr (hc : c.part pool = b.part pool)
    (h : b.withdraw who pool shares = .ok (amount, b')) :
    ∃ c', c.withdraw who pool shares = .ok (amount, c') ∧ c'.part pool = b'.part pool := by
  rw [withdraw_eq_ok_iff] at h
  cases pool with
  | subnet id =>
    obtain ⟨p, h, rfl⟩ := h
    obtain ⟨q, hq, hpart⟩ := SharePool.withdraw_congr hc h
    exact ⟨_, withdraw_eq_ok_iff.mpr ⟨q, hq, rfl⟩, hpart⟩
  | node key =>
    obtain ⟨p, h, rfl⟩ := h
    obtain ⟨q, hq, hpart⟩ := SharePool.withdraw_congr hc h
    exact ⟨_, withdraw_eq_ok_iff.mpr ⟨q, hq, rfl⟩, hpart⟩

/-- **A transfer depends on one pool.** -/
theorem transfer_congr (hc : c.part pool = b.part pool)
    (h : b.transfer who pool target shares minimum = .ok b') :
    ∃ c', c.transfer who pool target shares minimum = .ok c' ∧ c'.part pool = b'.part pool := by
  rw [transfer_eq_ok_iff] at h
  cases pool with
  | subnet id =>
    obtain ⟨p, h, rfl⟩ := h
    obtain ⟨q, hq, hpart⟩ := SharePool.transfer_congr hc h
    exact ⟨_, transfer_eq_ok_iff.mpr ⟨q, hq, rfl⟩, hpart⟩
  | node key =>
    obtain ⟨p, h, rfl⟩ := h
    obtain ⟨q, hq, hpart⟩ := SharePool.transfer_congr hc h
    exact ⟨_, transfer_eq_ok_iff.mpr ⟨q, hq, rfl⟩, hpart⟩

end Book

end Stakebook
