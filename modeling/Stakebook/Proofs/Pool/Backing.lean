import Stakebook.Proofs.Pool.Holdings
import Stakebook.Proofs.Pool.Price

/-!
# A share is worth at least one unit

The first deposit into a pool buys one share for one unit, and from then on the price of a share
never falls. So a pool never has more shares than units, and neither the guard against a pool with
shares but no balance nor the one against a conversion out of range has anything to catch.

Headlines:
* **`Backed.move`**, **`Backed.change`**, **`backed_run`**: no accepted call leaves a pool with more
  shares than units.
* **`DepositTerms.shares_le`**, **`WithdrawalTerms.le_amount`**: a deposit receives no more shares
  than it has units, and a withdrawal no fewer units than it has shares.
* **`Backed.exists_sharesFor`**: every amount has a price in shares.
-/

namespace Stakebook

/-- A pool at a price that has not fallen has no more shares than units, if there were no more. -/
theorem Pool.PriceLe.backed {q q' : Pool} (h : q.PriceLe q') (hpos : 0 < q.totalShares.toNat)
    (hq : q.totalShares ≤ q.totalBalance) : q'.totalShares ≤ q'.totalBalance := by
  refine Nat.le_of_mul_le_mul_left ?_ hpos
  calc q.totalShares.toNat * q'.totalShares.toNat
      ≤ q.totalBalance.toNat * q'.totalShares.toNat := Nat.mul_le_mul_right _ hq
    _ ≤ q'.totalBalance.toNat * q.totalShares.toNat := h
    _ = q.totalShares.toNat * q'.totalBalance.toNat := Nat.mul_comm ..

namespace SharePool

variable {κ : Type} [KeyOrder κ] {p p' : SharePool κ} {who : AccountId} {key : κ}
  {shares : Shares} {amount minimum : Amount}

/-- No pool has more shares than units. -/
def Backed (p : SharePool κ) : Prop := ∀ key, (p.pool key).totalShares ≤ (p.pool key).totalBalance

theorem backed_empty : (empty : SharePool κ).Backed := fun _ => Nat.le_refl _

/-! ## Prices -/

/-- At one unit or more for a share, an amount buys no more shares than it has units. -/
theorem mul_div_le_of_le {a s b : Nat} (h : s ≤ b) : a * s / b ≤ a := by
  refine Nat.div_le_of_le_mul ?_
  rw [Nat.mul_comm]
  exact Nat.mul_le_mul_right _ h

/-- An amount is priced at no more shares than it has units. -/
theorem Backed.sharesFor_le (hb : p.Backed)
    (h : sharesFor amount (p.pool key).totalShares (p.pool key).totalBalance = .ok shares) :
    shares ≤ amount := by
  have hpriced := sharesFor_eq_ok_iff.mp h
  split at hpriced
  · rw [hpriced]
    exact Nat.le_refl _
  · rw [Word.le_def, hpriced]
    exact mul_div_le_of_le (hb key)

/-- A deposit receives no more shares than it has units. -/
theorem DepositTerms.shares_le (h : DepositTerms p key amount shares) (hb : p.Backed) :
    shares ≤ amount := hb.sharesFor_le h.priced

/-- Every amount has a price in shares, since it is no more than the amount. -/
theorem Backed.exists_sharesFor (hb : p.Backed) (key : κ) (amount : Amount) :
    ∃ shares, sharesFor amount (p.pool key).totalShares (p.pool key).totalBalance = .ok shares := by
  by_cases hz : (p.pool key).totalShares = 0 ∨ (p.pool key).totalBalance = 0
  · exact ⟨amount, sharesFor_eq_ok_iff.mpr (by rw [if_pos hz])⟩
  · have hlt : amount.toNat * (p.pool key).totalShares.toNat / (p.pool key).totalBalance.toNat <
        2 ^ 128 := Nat.lt_of_le_of_lt (mul_div_le_of_le (hb key)) amount.toNat_lt
    exact ⟨⟨_, hlt⟩, sharesFor_eq_ok_iff.mpr (by rw [if_neg hz])⟩

/-- A pool with shares has a balance. -/
theorem Backed.balance_ne_zero (hb : p.Backed) (h : (p.pool key).totalShares ≠ 0) :
    (p.pool key).totalBalance ≠ 0 :=
  Word.ne_zero_iff.mpr (Nat.lt_of_lt_of_le (Word.ne_zero_iff.mp h) (hb key))

variable [DecidableEq κ]

/-- A withdrawal receives no fewer units than it has shares. -/
theorem WithdrawalTerms.le_amount (h : WithdrawalTerms p who key shares amount) (hv : p.Valid)
    (hb : p.Backed) : shares ≤ amount := by
  have hpos := Word.ne_zero_iff.mp (hv.totalShares_pos h.shares_ne_zero h.shares_le)
  rw [Word.le_def, h.priced, Nat.le_div_iff_mul_le hpos]
  exact Nat.mul_le_mul_left _ (hb key)

/-! ## Every accepted call keeps pools backed -/

/-- A pool starts with one share for each unit. -/
theorem Valid.started (hv : p.Valid) (h : Move p p') (hz : (p.pool key).totalShares = 0) :
    (p'.pool key).totalShares = (p'.pool key).totalBalance := by
  have hbalance := hv.balance_eq_zero hz
  have hsame : (p.pool key).totalShares = (p.pool key).totalBalance := hz.trans hbalance.symm
  cases h with
  | @deposit who k amount minimum shares p' h =>
    obtain ⟨hq, rfl⟩ := deposit_eq_ok_iff.mp h
    obtain ⟨-, ht⟩ := quoteDeposit_eq_ok_iff.mp hq
    show ((p.pools.insert k _).getD key .empty).totalShares =
      ((p.pools.insert k _).getD key .empty).totalBalance
    rw [OrdMap.getD_insert]
    by_cases hk : key = k
    · subst hk
      have hpriced := sharesFor_eq_ok_iff.mp ht.priced
      rw [if_pos (.inl hz)] at hpriced
      rw [if_pos rfl, hpriced, hsame]
    · rw [if_neg hk]
      exact hsame
  | @withdraw who k shares amount p' h =>
    have ht := quoteWithdraw_eq_ok_iff.mp (withdraw_eq_ok_iff.mp h).1
    have hk : key ≠ k := fun hk => hv.totalShares_pos ht.shares_ne_zero ht.shares_le (hk ▸ hz)
    rw [pool_withdraw_of_ne h hk]
    exact hsame
  | transfer h =>
    obtain ⟨-, rfl⟩ := transfer_eq_ok_iff.mp h
    exact hsame
  | @distribute k amount p' h =>
    obtain ⟨⟨-, hne, -⟩, rfl⟩ := distribute_eq_ok_iff.mp h
    have hk : key ≠ k := fun hk => hne (hk ▸ hz)
    show ((p.pools.insert k _).getD key .empty).totalShares =
      ((p.pools.insert k _).getD key .empty).totalBalance
    rw [OrdMap.getD_insert, if_neg hk]
    exact hsame

/-- **No accepted call leaves a pool with more shares than units.** -/
theorem Backed.move (hb : p.Backed) (hv : p.Valid) (h : Move p p') : p'.Backed := by
  intro key
  by_cases hz : (p.pool key).totalShares = 0
  · rw [hv.started h hz]
    exact Nat.le_refl _
  · exact (hv.price_move h key).backed (Word.ne_zero_iff.mp hz) (hb key)

/-- **Nor does any call of the ledger.** -/
theorem Backed.change (hb : p.Backed) (hv : p.Valid) (h : Change p p') : p'.Backed := by
  cases h with
  | move h => exact hb.move hv h
  | deposits h =>
    induction h with
    | refl => exact hb
    | tail hrun hstep ih =>
      obtain ⟨who, key, amount, minimum, shares, h⟩ := hstep
      exact ih.move (hv.deposits hrun) (.deposit h)

/-- **Nor does any run.** -/
theorem backed_run (calls : List (Call κ)) : (run calls).Backed := by
  suffices ∀ p : SharePool κ, p.Valid → p.Backed → (calls.foldl Call.apply p).Backed from
    this _ valid_empty backed_empty
  induction calls with
  | nil => exact fun _ _ hb => hb
  | cons c calls ih =>
    intro p hv hb
    refine ih _ (hv.apply c) ?_
    rcases c.apply_eq_or_move p with h | h
    · rw [h]
      exact hb
    · exact hb.move hv h

end SharePool

end Stakebook
