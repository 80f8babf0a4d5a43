import Stakebook.Proofs.Pool.Solvency

/-!
# Who holds what after a call

What an accepted call does to the shares of every account in every pool, and to the totals of every
pool, as equations on natural numbers. In a valid pool none of the sums leaves the range.

Headlines:
* **`Valid.sharesOf_deposit`**, **`sharesOf_withdraw`**, **`Valid.sharesOf_transfer`**: the depositor
  gains, the withdrawer loses, a transfer does both, and nobody else is touched.
* **`totalBalance_deposit`**, **`totalShares_deposit`**, **`pool_withdraw_of_ne`**: a deposit adds its
  amount and its shares to one pool, and a withdrawal leaves all other pools as they are.
-/

namespace Stakebook.SharePool

variable {κ : Type} [KeyOrder κ] [DecidableEq κ] {p p' : SharePool κ} {who : AccountId} {key : κ}
  {shares : Shares} {amount minimum : Amount}

/-! ## Shares -/

/-- The depositor gains the new shares. -/
theorem Valid.sharesOf_deposit (hv : p.Valid)
    (h : p.deposit who key amount minimum = .ok (shares, p')) (x : AccountId) (k : κ) :
    (p'.sharesOf x k).toNat =
      (p.sharesOf x k).toNat + if x = who ∧ k = key then shares.toNat else 0 := by
  obtain ⟨hq, rfl⟩ := deposit_eq_ok_iff.mp h
  obtain ⟨-, ht⟩ := quoteDeposit_eq_ok_iff.mp hq
  have hle := hv.sharesOf_le who key
  have hfit := ht.shares_fit
  show ((p.shares.insert (who, key) (p.sharesOf who key + shares)).getD (x, k) 0).toNat = _
  rw [OrdMap.getD_insert]
  by_cases hx : x = who ∧ k = key
  · obtain ⟨rfl, rfl⟩ := hx
    rw [if_pos rfl, if_pos ⟨rfl, rfl⟩]
    exact Word.toNat_add_of_lt (by omega)
  · rw [if_neg fun he => hx (Prod.mk.inj he), if_neg hx]
    rfl

/-- The withdrawer loses the shares that are burned. -/
theorem sharesOf_withdraw (h : p.withdraw who key shares = .ok (amount, p')) (x : AccountId)
    (k : κ) :
    (p'.sharesOf x k).toNat + (if x = who ∧ k = key then shares.toNat else 0) =
      (p.sharesOf x k).toNat := by
  obtain ⟨hq, rfl⟩ := withdraw_eq_ok_iff.mp h
  have ht := quoteWithdraw_eq_ok_iff.mp hq
  show ((burn p.shares who key shares).getD (x, k) 0).toNat + _ = _
  rw [getD_burn ht.shares_le]
  by_cases hx : x = who ∧ k = key
  · obtain ⟨rfl, rfl⟩ := hx
    have hsub := Word.toNat_sub_of_le ht.shares_le
    have hle := Word.le_def.mp ht.shares_le
    rw [if_pos rfl, if_pos ⟨rfl, rfl⟩]
    unfold sharesOf at hsub hle ⊢
    omega
  · rw [if_neg fun he => hx (Prod.mk.inj he), if_neg hx]
    rfl

/-- The source loses what the target gains. -/
theorem Valid.sharesOf_transfer {target : AccountId} (hv : p.Valid)
    (h : p.transfer who key target shares minimum = .ok p') (x : AccountId) (k : κ) :
    (p'.sharesOf x k).toNat + (if x = who ∧ k = key then shares.toNat else 0) =
      (p.sharesOf x k).toNat + if x = target ∧ k = key then shares.toNat else 0 := by
  obtain ⟨⟨value, hq, -⟩, rfl⟩ := transfer_eq_ok_iff.mp h
  have ht := quoteWithdraw_eq_ok_iff.mp hq
  -- the burn is that of a withdrawal of the same shares
  have hburned := sharesOf_withdraw (withdraw_eq_ok_iff.mpr ⟨hq, rfl⟩) x k
  have hfit : ((burn p.shares who key shares).getD (target, key) 0).toNat + shares.toNat <
      2 ^ 128 := by
    have hle := toNat_getD_le_held (burn p.shares who key shares) target key
    have hburn := held_burn ht.shares_le key
    have := hv.held_eq key
    have := (p.pool key).totalShares.toNat_lt
    rw [if_pos rfl] at hburn
    omega
  show (((burn p.shares who key shares).insert (target, key) _).getD (x, k) 0).toNat + _ = _
  rw [OrdMap.getD_insert, ← hburned]
  by_cases hx : x = target ∧ k = key
  · have hholder : (x, k) = (target, key) := Prod.ext hx.1 hx.2
    rw [if_pos hholder, if_pos hx, Word.toNat_add_of_lt hfit, ← hholder]
    exact Nat.add_right_comm ..
  · rw [if_neg fun he => hx (Prod.mk.inj he), if_neg hx]
    rfl

omit [DecidableEq κ] in
/-- A reward leaves all shares as they are. -/
theorem sharesOf_distribute (h : p.distribute key amount = .ok p') (x : AccountId) (k : κ) :
    p'.sharesOf x k = p.sharesOf x k := by
  obtain ⟨-, rfl⟩ := distribute_eq_ok_iff.mp h
  rfl

/-! ## Totals -/

/-- A deposit adds its amount to the balance of its pool. -/
theorem totalBalance_deposit (h : p.deposit who key amount minimum = .ok (shares, p')) (k : κ) :
    (p'.pool k).totalBalance.toNat =
      (p.pool k).totalBalance.toNat + if k = key then amount.toNat else 0 := by
  obtain ⟨hq, rfl⟩ := deposit_eq_ok_iff.mp h
  obtain ⟨-, ht⟩ := quoteDeposit_eq_ok_iff.mp hq
  show ((p.pools.insert key _).getD k .empty).totalBalance.toNat = _
  rw [OrdMap.getD_insert]
  by_cases hk : k = key
  · rw [if_pos hk, if_pos hk, hk]
    exact Word.toNat_add_of_lt ht.balance_fits
  · rw [if_neg hk, if_neg hk]
    rfl

/-- A deposit adds the new shares to those of its pool. -/
theorem totalShares_deposit (h : p.deposit who key amount minimum = .ok (shares, p')) (k : κ) :
    (p'.pool k).totalShares.toNat =
      (p.pool k).totalShares.toNat + if k = key then shares.toNat else 0 := by
  obtain ⟨hq, rfl⟩ := deposit_eq_ok_iff.mp h
  obtain ⟨-, ht⟩ := quoteDeposit_eq_ok_iff.mp hq
  show ((p.pools.insert key _).getD k .empty).totalShares.toNat = _
  rw [OrdMap.getD_insert]
  by_cases hk : k = key
  · rw [if_pos hk, if_pos hk, hk]
    exact Word.toNat_add_of_lt ht.shares_fit
  · rw [if_neg hk, if_neg hk]
    rfl

omit [DecidableEq κ] in
/-- A deposit adds its amount to the balance of all pools. -/
theorem toNat_totalBalance_deposit (h : p.deposit who key amount minimum = .ok (shares, p')) :
    p'.totalBalance.toNat = p.totalBalance.toNat + amount.toNat := by
  obtain ⟨hq, rfl⟩ := deposit_eq_ok_iff.mp h
  exact Word.toNat_add_of_lt (quoteDeposit_eq_ok_iff.mp hq).2.worth_fits

/-- A withdrawal leaves all other pools as they are. -/
theorem pool_withdraw_of_ne (h : p.withdraw who key shares = .ok (amount, p')) {k : κ}
    (hk : k ≠ key) : p'.pool k = p.pool k := by
  obtain ⟨-, rfl⟩ := withdraw_eq_ok_iff.mp h
  show (shrink p.pools key shares amount).getD k .empty = p.pools.getD k .empty
  unfold shrink
  split
  · rfl
  · simp only
    split
    · rw [OrdMap.getD_erase, if_neg hk]
    · rw [OrdMap.getD_insert, if_neg hk]

end Stakebook.SharePool
