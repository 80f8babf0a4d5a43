import Mathlib.Logic.Relation
import Stakebook.Proofs.Pool.Solvency

/-!
# The price of a share never falls

The price of a share is the balance of its pool over its shares. `PriceLe` compares two prices by
cross-multiplication. What a deposit receives is rounded down and what a withdrawal pays is rounded
down, so the dust of either stays with the holders.

Headlines:
* **`Valid.price_move`**: no accepted call lowers the price of any pool.
* **`Valid.price_change`**: neither does a chain of deposits, which is what a batch of swaps makes.
* **`Valid.balanceOf_le`**: where the price has not fallen, an account whose shares have not been
  reduced can redeem no less than before.
-/

namespace Stakebook

/-- The price of a share of the first pool is at most that of the second. -/
def Pool.PriceLe (q q' : Pool) : Prop :=
  q.totalBalance.toNat * q'.totalShares.toNat ≤ q'.totalBalance.toNat * q.totalShares.toNat

namespace Pool.PriceLe

theorem refl (q : Pool) : q.PriceLe q := Nat.le_refl _

/-- Prices compare through a pool that has shares. -/
theorem trans {q r s : Pool} (h₁ : q.PriceLe r) (h₂ : r.PriceLe s)
    (hr : 0 < r.totalShares.toNat) : q.PriceLe s := by
  refine Nat.le_of_mul_le_mul_right ?_ hr
  calc q.totalBalance.toNat * s.totalShares.toNat * r.totalShares.toNat
      = q.totalBalance.toNat * r.totalShares.toNat * s.totalShares.toNat := Nat.mul_right_comm ..
    _ ≤ r.totalBalance.toNat * q.totalShares.toNat * s.totalShares.toNat :=
        Nat.mul_le_mul_right _ h₁
    _ = r.totalBalance.toNat * s.totalShares.toNat * q.totalShares.toNat := Nat.mul_right_comm ..
    _ ≤ s.totalBalance.toNat * r.totalShares.toNat * q.totalShares.toNat :=
        Nat.mul_le_mul_right _ h₂
    _ = s.totalBalance.toNat * q.totalShares.toNat * r.totalShares.toNat := Nat.mul_right_comm ..

/-- A pool without balance has the lowest price. -/
theorem of_balance_eq_zero {q : Pool} (h : q.totalBalance = 0) (q' : Pool) : q.PriceLe q' := by
  unfold PriceLe
  rw [h, Word.toNat_zero, Nat.zero_mul]
  exact Nat.zero_le _

/-- At a price that has not fallen, no fewer shares redeem for no less. -/
theorem floor_le {q q' : Pool} (h : q.PriceLe q') {s s' : Nat} (hs : s ≤ s')
    (hq : 0 < q.totalShares.toNat) (hq' : 0 < q'.totalShares.toNat) :
    s * q.totalBalance.toNat / q.totalShares.toNat ≤
      s' * q'.totalBalance.toNat / q'.totalShares.toNat := by
  rw [Nat.le_div_iff_mul_le hq']
  refine Nat.le_of_mul_le_mul_right ?_ hq
  have hfloor := Nat.div_mul_le_self (s * q.totalBalance.toNat) q.totalShares.toNat
  calc s * q.totalBalance.toNat / q.totalShares.toNat * q'.totalShares.toNat * q.totalShares.toNat
      = s * q.totalBalance.toNat / q.totalShares.toNat * q.totalShares.toNat *
          q'.totalShares.toNat := Nat.mul_right_comm ..
    _ ≤ s * q.totalBalance.toNat * q'.totalShares.toNat := Nat.mul_le_mul_right _ hfloor
    _ = s * (q.totalBalance.toNat * q'.totalShares.toNat) := Nat.mul_assoc ..
    _ ≤ s' * (q'.totalBalance.toNat * q.totalShares.toNat) := Nat.mul_le_mul hs h
    _ = s' * q'.totalBalance.toNat * q.totalShares.toNat := (Nat.mul_assoc ..).symm

end Pool.PriceLe

namespace SharePool

variable {κ : Type} [KeyOrder κ] [DecidableEq κ] {p p' : SharePool κ} {who : AccountId} {key : κ}
  {shares : Shares} {amount minimum : Amount}

/-! ## One call -/

omit [DecidableEq κ] in
/-- The shares that a deposit receives are worth no more than the deposit. -/
theorem DepositTerms.shares_mul_le (h : DepositTerms p key amount shares)
    (hbalance : (p.pool key).totalShares = 0 → (p.pool key).totalBalance = 0) :
    shares.toNat * (p.pool key).totalBalance.toNat ≤
      amount.toNat * (p.pool key).totalShares.toNat := by
  have hpriced := sharesFor_eq_ok_iff.mp h.priced
  split at hpriced
  · next hz =>
    rw [hz.elim hbalance id, Word.toNat_zero, Nat.mul_zero]
    exact Nat.zero_le _
  · rw [hpriced]
    exact Nat.div_mul_le_self ..

omit [DecidableEq κ] in
/-- What a withdrawal pays is worth no more than the shares that it burns. -/
theorem WithdrawalTerms.amount_mul_le (h : WithdrawalTerms p who key shares amount) :
    amount.toNat * (p.pool key).totalShares.toNat ≤
      shares.toNat * (p.pool key).totalBalance.toNat := by
  rw [h.priced]
  exact Nat.div_mul_le_self ..

theorem price_distribute (h : p.distribute key amount = .ok p') (k : κ) :
    (p.pool k).PriceLe (p'.pool k) := by
  obtain ⟨⟨-, -, hpool, -⟩, rfl⟩ := distribute_eq_ok_iff.mp h
  show (p.pool k).PriceLe ((p.pools.insert key _).getD k .empty)
  rw [OrdMap.getD_insert]
  split
  · next hk =>
    unfold Pool.PriceLe
    rw [hk]
    simp only
    rw [Word.toNat_add_of_lt hpool]
    exact Nat.mul_le_mul_right _ (Nat.le_add_right _ _)
  · exact Pool.PriceLe.refl _

namespace Valid

theorem price_deposit (hv : p.Valid) (h : p.deposit who key amount minimum = .ok (shares, p'))
    (k : κ) : (p.pool k).PriceLe (p'.pool k) := by
  obtain ⟨hq, rfl⟩ := deposit_eq_ok_iff.mp h
  obtain ⟨-, ht⟩ := quoteDeposit_eq_ok_iff.mp hq
  show (p.pool k).PriceLe ((p.pools.insert key _).getD k .empty)
  rw [OrdMap.getD_insert]
  split
  · next hk =>
    have hworth := ht.shares_mul_le hv.balance_eq_zero
    unfold Pool.PriceLe
    rw [hk]
    simp only
    rw [Word.toNat_add_of_lt ht.shares_fit, Word.toNat_add_of_lt ht.balance_fits, Nat.mul_add,
      Nat.add_mul, Nat.mul_comm _ shares.toNat]
    exact Nat.add_le_add_left hworth _
  · exact Pool.PriceLe.refl _

theorem price_withdraw (hv : p.Valid) (h : p.withdraw who key shares = .ok (amount, p'))
    (k : κ) : (p.pool k).PriceLe (p'.pool k) := by
  obtain ⟨hq, rfl⟩ := withdraw_eq_ok_iff.mp h
  have ht := quoteWithdraw_eq_ok_iff.mp hq
  have hstored := get?_of_ne_zero (hv.totalShares_pos ht.shares_ne_zero ht.shares_le)
  have hshares := hv.le_totalShares ht.shares_le
  show (p.pool k).PriceLe ((shrink p.pools key shares amount).getD k .empty)
  rw [getD_shrink hstored]
  split
  · next hk =>
    have hworth := ht.amount_mul_le
    unfold Pool.PriceLe
    rw [hk]
    simp only
    rw [Word.toNat_sub_of_le hshares, Word.toNat_sub_of_le (hv.amount_le ht), Nat.mul_sub,
      Nat.sub_mul, Nat.mul_comm _ shares.toNat]
    exact Nat.sub_le_sub_left hworth _
  · exact Pool.PriceLe.refl _

/-- **No accepted call lowers a price.** -/
theorem price_move (hv : p.Valid) (h : Move p p') (k : κ) : (p.pool k).PriceLe (p'.pool k) := by
  cases h with
  | deposit h => exact hv.price_deposit h k
  | withdraw h => exact hv.price_withdraw h k
  | transfer h =>
    obtain ⟨-, rfl⟩ := transfer_eq_ok_iff.mp h
    exact Pool.PriceLe.refl _
  | distribute h => exact price_distribute h k

end Valid

/-! ## A chain of deposits -/

/-- One accepted deposit. -/
def Deposited (p p' : SharePool κ) : Prop :=
  ∃ who key amount minimum shares, p.deposit who key amount minimum = .ok (shares, p')

/-- What one call of the ledger does to pools: one move, or any number of deposits. -/
inductive Change (p : SharePool κ) : SharePool κ → Prop
  | move {p' : SharePool κ} (h : Move p p') : Change p p'
  | deposits {p' : SharePool κ} (h : Relation.ReflTransGen Deposited p p') : Change p p'

omit [DecidableEq κ] in
theorem Change.refl (p : SharePool κ) : Change p p := .deposits .refl

/-- A deposit takes no shares from a pool. -/
theorem totalShares_le_of_deposited (h : Deposited p p') (k : κ) :
    (p.pool k).totalShares.toNat ≤ (p'.pool k).totalShares.toNat := by
  obtain ⟨who, key, amount, minimum, shares, h⟩ := h
  obtain ⟨hq, rfl⟩ := deposit_eq_ok_iff.mp h
  obtain ⟨-, ht⟩ := quoteDeposit_eq_ok_iff.mp hq
  show _ ≤ ((p.pools.insert key _).getD k .empty).totalShares.toNat
  rw [OrdMap.getD_insert]
  split
  · next hk =>
    rw [hk, Word.toNat_add_of_lt ht.shares_fit]
    exact Nat.le_add_right _ _
  · exact Nat.le_refl _

namespace Valid

theorem deposits (hv : p.Valid) (h : Relation.ReflTransGen Deposited p p') : p'.Valid := by
  induction h with
  | refl => exact hv
  | tail _ hstep ih =>
    obtain ⟨who, key, amount, minimum, shares, h⟩ := hstep
    exact ih.deposit h

/-- Prices chain through deposits, since a pool keeps the shares that it has. -/
theorem price_deposits (hv : p.Valid) (h : Relation.ReflTransGen Deposited p p') (k : κ) :
    (p.pool k).PriceLe (p'.pool k) := by
  by_cases hz : (p.pool k).totalShares = 0
  · exact .of_balance_eq_zero (hv.balance_eq_zero hz) _
  suffices (p.pool k).PriceLe (p'.pool k) ∧ 0 < (p'.pool k).totalShares.toNat from this.1
  induction h with
  | refl => exact ⟨.refl _, Word.ne_zero_iff.mp hz⟩
  | tail hrun hstep ih =>
    obtain ⟨hprice, hpos⟩ := ih
    have hmore := totalShares_le_of_deposited hstep k
    obtain ⟨who, key, amount, minimum, shares, h⟩ := hstep
    exact ⟨hprice.trans ((hv.deposits hrun).price_deposit h k) hpos, by omega⟩

/-- **No call of the ledger lowers a price.** -/
theorem price_change (hv : p.Valid) (h : Change p p') (k : κ) :
    (p.pool k).PriceLe (p'.pool k) := by
  cases h with
  | move h => exact hv.price_move h k
  | deposits h => exact hv.price_deposits h k

/-! ## Bystanders -/

/-- **Who keeps the shares of a pool can redeem no less**, where the price has not fallen. -/
theorem balanceOf_le (hv : p.Valid) (hv' : p'.Valid) (hprice : (p.pool key).PriceLe (p'.pool key))
    (hs : p.sharesOf who key ≤ p'.sharesOf who key) :
    p.balanceOf who key ≤ p'.balanceOf who key := by
  rw [Word.le_def, hv.toNat_balanceOf, hv'.toNat_balanceOf]
  by_cases hz : (p.sharesOf who key).toNat = 0
  · rw [hz, Nat.zero_mul, Nat.zero_div]
    exact Nat.zero_le _
  · have hle := hv.sharesOf_le who key
    have hle' := hv'.sharesOf_le who key
    rw [Word.le_def] at hs
    exact hprice.floor_le hs (by omega) (by omega)

end Valid

end SharePool

end Stakebook
