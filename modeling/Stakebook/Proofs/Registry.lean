import Stakebook.Proofs.MapSum
import Stakebook.Registry

/-!
# Free balances

`Registry.totalFree` adds up the free balances of all accounts.

Headlines:
* **`totalFree_debit`**: a debit takes its amount from the sum.
* **`totalFree_pay`**: a payment adds its amount, where the sum stays in range; no saturation cuts
  it short.
* **`freeBalance_debit_of_ne`**, **`freeBalance_le_pay`**: a debit leaves all other accounts as they
  are, and a payment makes no account poorer.
* **`pay_pay`**, **`pay_comm`**, **`debit_pay`**: in range it does not matter when a payment is
  made.
-/

namespace Stakebook.Registry

/-- What an account counts for in the sum of the free balances. -/
def freeIn (_ : AccountId) (info : AccountInfo) : Nat := info.free.toNat

/-- The free balances of all accounts together. -/
def totalFree (r : Registry) : Nat := r.accounts.sum freeIn

/-- The registry after a payment into a free balance. A payment of nothing opens no account. -/
def pay (r : Registry) (who : AccountId) (amount : Amount) : Registry :=
  if amount = 0 then r else r.credit who amount

variable {r r' : Registry} {who : AccountId} {amount : Amount}

@[simp] theorem pay_zero (r : Registry) (who : AccountId) : r.pay who 0 = r := if_pos rfl

theorem pay_of_ne_zero (h : amount ≠ 0) (r : Registry) (who : AccountId) :
    r.pay who amount = r.credit who amount := if_neg h

theorem weight_freeIn (r : Registry) (who : AccountId) :
    r.accounts.weight freeIn who = (r.accounts.getD who ⟨0⟩).free.toNat :=
  OrdMap.weight_eq_getD Word.toNat_zero

theorem debit_eq_ok_iff :
    r.debit who amount = .ok r' ↔
      ∃ info, r.accounts.get? who = some info ∧ amount ≤ info.free ∧
        r' = { r with accounts := r.accounts.insert who ⟨info.free - amount⟩ } := by
  unfold debit AccountInfo.debit? AccountInfo.canDebit
  cases r.accounts.get? who with
  | none => simp
  | some info =>
    by_cases h : amount ≤ info.free
    · simp [h, eq_comm]
    · simp [h]

/-- **A debit takes its amount from the free balances.** -/
theorem totalFree_debit (h : r.debit who amount = .ok r') :
    r'.totalFree + amount.toNat = r.totalFree := by
  obtain ⟨info, hinfo, hle, rfl⟩ := debit_eq_ok_iff.mp h
  have hsub := Word.toNat_sub_of_le hle
  have hsum := OrdMap.sum_insert freeIn r.accounts who ⟨info.free - amount⟩
  rw [OrdMap.weight_of_some hinfo] at hsum
  unfold freeIn at hsum
  rw [Word.le_def] at hle
  unfold totalFree freeIn
  simp only at hsum ⊢
  omega

/-- A credit in range adds its amount to the free balances. -/
theorem totalFree_credit (h : r.totalFree + amount.toNat < 2 ^ 128) :
    (r.credit who amount).totalFree = r.totalFree + amount.toNat := by
  have hsum := OrdMap.sum_insert freeIn r.accounts who
    ((r.accounts.getD who ⟨0⟩).credit amount)
  have hle := OrdMap.weight_le_sum freeIn r.accounts who
  rw [weight_freeIn] at hsum hle
  have hnew : freeIn who ((r.accounts.getD who ⟨0⟩).credit amount) =
      (r.accounts.getD who ⟨0⟩).free.toNat + amount.toNat := by
    unfold totalFree at h
    unfold freeIn AccountInfo.credit
    rw [Word.toNat_satAdd]
    omega
  rw [hnew] at hsum
  unfold totalFree credit
  simp only at hsum ⊢
  omega

/-- **A payment in range adds its amount to the free balances.** -/
theorem totalFree_pay (h : r.totalFree + amount.toNat < 2 ^ 128) :
    (r.pay who amount).totalFree = r.totalFree + amount.toNat := by
  by_cases hz : amount = 0
  · rw [hz, pay_zero, Word.toNat_zero, Nat.add_zero]
  · rw [pay_of_ne_zero hz]
    exact totalFree_credit h

/-! ## One account -/

theorem freeBalance_eq_getD (r : Registry) (who : AccountId) :
    r.freeBalance who = (r.accounts.getD who ⟨0⟩).free := by
  unfold freeBalance OrdMap.getD
  cases r.accounts.get? who <;> rfl

/-- **A debit leaves all other accounts as they are.** -/
theorem freeBalance_debit_of_ne {other : AccountId} (h : r.debit who amount = .ok r')
    (hne : other ≠ who) : r'.freeBalance other = r.freeBalance other := by
  obtain ⟨info, -, -, rfl⟩ := debit_eq_ok_iff.mp h
  rw [freeBalance_eq_getD, freeBalance_eq_getD, OrdMap.getD_insert, if_neg hne]

/-- **A payment makes no account poorer.** -/
theorem freeBalance_le_pay (r : Registry) (who : AccountId) (amount : Amount) (other : AccountId) :
    r.freeBalance other ≤ (r.pay who amount).freeBalance other := by
  by_cases hz : amount = 0
  · rw [hz, pay_zero]
    exact Nat.le_refl _
  · rw [pay_of_ne_zero hz, freeBalance_eq_getD, freeBalance_eq_getD]
    unfold credit
    rw [OrdMap.getD_insert]
    split
    · next hother =>
      rw [hother]
      exact Word.le_satAdd _ _
    · exact Nat.le_refl _

theorem checkOwner_eq_ok_iff {watcher : WatcherId} :
    r.checkOwner who watcher = .ok () ↔ r.watchers.get? watcher = some who := by
  unfold checkOwner
  split <;> simp [*]

/-- A debit changes free balances and nothing else. -/
theorem debit_frame (h : r.debit who amount = .ok r') : r' = { r with accounts := r'.accounts } := by
  obtain ⟨info, -, -, rfl⟩ := debit_eq_ok_iff.mp h
  rfl

/-- A payment changes free balances and nothing else. -/
theorem pay_frame (r : Registry) (who : AccountId) (amount : Amount) :
    r.pay who amount = { r with accounts := (r.pay who amount).accounts } := by
  unfold pay
  split <;> rfl

@[simp] theorem network_pay (r : Registry) (who : AccountId) (amount : Amount) :
    (r.pay who amount).network = r.network := by rw [pay_frame]

@[simp] theorem activeSubnet_pay (r : Registry) (who : AccountId) (amount : Amount) :
    (r.pay who amount).activeSubnet = r.activeSubnet := by
  rw [pay_frame]
  rfl

@[simp] theorem activePool_pay (r : Registry) (who : AccountId) (amount : Amount) :
    (r.pay who amount).activePool = r.activePool := by
  rw [pay_frame]
  funext pool
  cases pool <;> rfl

@[simp] theorem leavingParams_pay (r : Registry) (who : AccountId) (amount : Amount) :
    (r.pay who amount).leavingParams = r.leavingParams := by
  rw [pay_frame]
  rfl

@[simp] theorem checkOwner_pay (r : Registry) (who : AccountId) (amount : Amount) :
    (r.pay who amount).checkOwner = r.checkOwner := by
  rw [pay_frame]
  rfl

/-! ## A payment and another change -/

variable {x : AccountId} {first second paid : Amount}

/-- One free balance is part of the sum. -/
theorem freeBalance_le_totalFree (r : Registry) (who : AccountId) :
    (r.freeBalance who).toNat ≤ r.totalFree := by
  have h := OrdMap.weight_le_sum freeIn r.accounts who
  rw [weight_freeIn] at h
  rw [freeBalance_eq_getD]
  exact h

theorem info_ext {a b : AccountInfo} (h : a.free.toNat = b.free.toNat) : a = b :=
  (AccountInfo.mk.injEq ..).mpr (Word.ext h)

/-- Registries with the same free balances, where nothing else differs. -/
theorem ext_accounts {s t : Registry} (hs : s = { r with accounts := s.accounts })
    (ht : t = { r with accounts := t.accounts })
    (h : ∀ x, s.accounts.get? x = t.accounts.get? x) : s = t := by
  rw [hs, ht, OrdMap.ext_get? h]

/-- **Two payments in range are one payment.** -/
theorem pay_pay (hfit : (r.freeBalance who).toNat + paid.toNat < 2 ^ 128)
    (hsum : first.toNat + second.toNat = paid.toNat) :
    (r.pay who first).pay who second = r.pay who paid := by
  by_cases hfirst : first = 0
  · rw [hfirst, Word.toNat_zero, Nat.zero_add] at hsum
    rw [hfirst, pay_zero, Word.ext hsum]
  by_cases hsecond : second = 0
  · rw [hsecond, Word.toNat_zero, Nat.add_zero] at hsum
    rw [hsecond, pay_zero, Word.ext hsum]
  have hpaid : paid ≠ 0 := by
    have := Word.ne_zero_iff.mp hfirst
    exact Word.ne_zero_iff.mpr (by omega)
  rw [pay_of_ne_zero hfirst, pay_of_ne_zero hsecond, pay_of_ne_zero hpaid]
  refine ext_accounts (r := r) rfl rfl fun x => ?_
  rw [freeBalance_eq_getD] at hfit
  unfold credit
  simp only [OrdMap.get?_insert, OrdMap.getD_insert]
  split
  · refine congrArg some (info_ext ?_)
    simp only [if_true, AccountInfo.credit, Word.toNat_satAdd]
    omega
  · rfl

/-- **Payments to two accounts are made in either order.** -/
theorem pay_comm (hne : x ≠ who) (r : Registry) (first second : Amount) :
    (r.pay who first).pay x second = (r.pay x second).pay who first := by
  by_cases hfirst : first = 0
  · rw [hfirst, pay_zero, pay_zero]
  by_cases hsecond : second = 0
  · rw [hsecond, pay_zero, pay_zero]
  simp only [pay_of_ne_zero hfirst, pay_of_ne_zero hsecond]
  refine ext_accounts (r := r) rfl rfl fun y => ?_
  unfold credit
  simp only [OrdMap.get?_insert, OrdMap.getD_insert, if_neg hne, if_neg hne.symm]
  split
  · next hx => rw [if_neg (hx ▸ hne)]
  · rfl

/-- **What can be taken can be taken after a payment**, and leaves the same. -/
theorem debit_pay (h : r.debit x amount = .ok r')
    (hfit : (r.freeBalance who).toNat + paid.toNat < 2 ^ 128) :
    (r.pay who paid).debit x amount = .ok (r'.pay who paid) := by
  by_cases hpaid : paid = 0
  · rw [hpaid, pay_zero, pay_zero]
    exact h
  obtain ⟨info, hinfo, hle, rfl⟩ := debit_eq_ok_iff.mp h
  rw [pay_of_ne_zero hpaid, pay_of_ne_zero hpaid, debit_eq_ok_iff]
  by_cases hx : x = who
  · subst hx
    rw [freeBalance_eq_getD, OrdMap.getD_of_some hinfo] at hfit
    have hcredit := Word.toNat_satAdd info.free paid
    refine ⟨info.credit paid, ?_, ?_, ?_⟩
    · unfold credit
      rw [OrdMap.get?_insert_self, OrdMap.getD_of_some hinfo]
    · exact Nat.le_trans hle (Word.le_satAdd ..)
    · refine ext_accounts (r := r) rfl rfl fun y => ?_
      unfold credit
      simp only [OrdMap.get?_insert, OrdMap.getD_insert, if_true]
      split
      · refine congrArg some (info_ext ?_)
        have hle' : amount ≤ (info.credit paid).free := Nat.le_trans hle (Word.le_satAdd ..)
        simp only [AccountInfo.credit] at hle' ⊢
        rw [Word.toNat_satAdd, Word.toNat_sub_of_le hle, Word.toNat_sub_of_le hle', hcredit]
        rw [Word.le_def] at hle
        omega
      · rfl
  · refine ⟨info, ?_, hle, ?_⟩
    · unfold credit
      rw [OrdMap.get?_insert, if_neg hx]
      exact hinfo
    · refine ext_accounts (r := r) rfl rfl fun y => ?_
      unfold credit
      simp only [OrdMap.get?_insert, OrdMap.getD_insert, if_neg (Ne.symm hx)]
      split
      · next hy => rw [if_neg (hy ▸ Ne.symm hx)]
      · rfl

end Stakebook.Registry
