import Mathlib.Logic.Function.Basic
import Stakebook.Proofs.Registry
import Stakebook.Proofs.Stakes
import Stakebook.Proofs.Unbonding

/-!
# One account at a time

Free balances, unbonding lists and direct stakes are each kept in one map for all accounts. A change
for one account reads and writes the entries of that account alone. So it leaves the entries of all
others as they are, and wherever else the entries of that account are the same, the same change is
accepted, answers the same, and leaves the same entries. The totals that stand beside the stakes are
shared; they follow from the stakes.

Headlines:
* **`debit_congr`**, **`pay_congr`**: free balances.
* **`enqueue_congr`**, **`claim_congr`**: unbonding lists, under the same capacity.
* **`add_congr`**, **`remove_congr`**, **`Counted.ext_of`**: direct stakes.
-/

namespace Stakebook

/-! ## Free balances -/

namespace Registry

variable {q r r' : Registry} {who other : AccountId} {amount : Amount}

theorem get?_debit_of_ne (h : r.debit who amount = .ok r') (hne : other ≠ who) :
    r'.accounts.get? other = r.accounts.get? other := by
  obtain ⟨info, -, -, rfl⟩ := debit_eq_ok_iff.mp h
  rw [OrdMap.get?_insert, if_neg hne]

theorem get?_pay_of_ne (r : Registry) (amount : Amount) (hne : other ≠ who) :
    (r.pay who amount).accounts.get? other = r.accounts.get? other := by
  by_cases hz : amount = 0
  · rw [hz, pay_zero]
  · rw [pay_of_ne_zero hz]
    unfold credit
    rw [OrdMap.get?_insert, if_neg hne]

/-- **A debit depends on one account.** -/
theorem debit_congr (h : r.debit who amount = .ok r')
    (hq : q.accounts.get? who = r.accounts.get? who) :
    ∃ q', q.debit who amount = .ok q' ∧ q'.accounts.get? who = r'.accounts.get? who := by
  obtain ⟨info, hinfo, hle, rfl⟩ := debit_eq_ok_iff.mp h
  refine ⟨_, debit_eq_ok_iff.mpr ⟨info, hq.trans hinfo, hle, rfl⟩, ?_⟩
  rw [OrdMap.get?_insert_self, OrdMap.get?_insert_self]

/-- **So does a payment.** -/
theorem pay_congr (hq : q.accounts.get? who = r.accounts.get? who) (amount : Amount) :
    (q.pay who amount).accounts.get? who = (r.pay who amount).accounts.get? who := by
  by_cases hz : amount = 0
  · rw [hz, pay_zero, pay_zero, hq]
  · rw [pay_of_ne_zero hz, pay_of_ne_zero hz]
    unfold credit OrdMap.getD
    rw [OrdMap.get?_insert_self, OrdMap.get?_insert_self, hq]

end Registry

/-! ## Unbonding lists -/

namespace Unbonding

variable {u u' v : Unbonding} {who : AccountId} {amount released claimed : Amount}
  {unlock block : Block}

/-- How an amount enters depends on one list and the capacity. -/
theorem Entered.congr {list : List Pending} (h : Entered u who amount unlock block released list)
    (hv : v.entries.get? who = u.entries.get? who) (hcapacity : v.capacity = u.capacity) :
    Entered v who amount unlock block released list := by
  have hpending := pending_congr hv
  cases h with
  | merged found fits =>
    rw [← hpending] at found ⊢
    exact .merged found fits
  | added new room =>
    rw [← hcapacity] at room
    rw [← hpending] at new room ⊢
    exact .added new room
  | replaced new full matured =>
    rw [← hcapacity] at full
    rw [← hpending] at new full matured ⊢
    exact .replaced new full matured

/-- **Entering depends on one list and the capacity.** -/
theorem enqueue_congr (h : u.enqueue who amount unlock block = .ok (released, u'))
    (hv : v.entries.get? who = u.entries.get? who) (hcapacity : v.capacity = u.capacity) :
    ∃ v', v.enqueue who amount unlock block = .ok (released, v') ∧
      v'.entries.get? who = u'.entries.get? who := by
  obtain ⟨hne, list, hentered, rfl⟩ := enqueue_eq_ok_iff.mp h
  refine ⟨_, enqueue_eq_ok_iff.mpr ⟨hne, list, hentered.congr hv hcapacity, rfl⟩, ?_⟩
  rw [OrdMap.get?_insert_self, OrdMap.get?_insert_self]

/-- **A claim depends on one list.** -/
theorem claim_congr (h : u.claim who block = (claimed, u'))
    (hv : v.entries.get? who = u.entries.get? who) :
    ∃ v', v.claim who block = (claimed, v') ∧ v'.entries.get? who = u'.entries.get? who := by
  unfold claim at h ⊢
  cases hget : u.entries.get? who with
  | none =>
    rw [hget] at h hv
    cases h
    rw [hv]
    exact ⟨v, rfl, hv.trans hget.symm⟩
  | some list =>
    rw [hget] at h hv
    obtain ⟨rfl, rfl⟩ := Prod.mk.inj h
    rw [hv]
    refine ⟨_, rfl, ?_⟩
    simp only
    split
    · rw [OrdMap.get?_erase, OrdMap.get?_erase, if_pos rfl, if_pos rfl]
    · rw [OrdMap.get?_insert_self, OrdMap.get?_insert_self]

end Unbonding

/-! ## Direct stakes -/

namespace Stakes

variable {s s' t : Stakes} {who : AccountId} {subnet : SubnetId} {amount balance : Amount}
  {bounds : SubnetParams}

/-- The stakes of an account, by subnet. -/
def of (s : Stakes) (who : AccountId) (subnet : SubnetId) : Option Amount :=
  s.balances.get? (who, subnet)

theorem balanceOf_congr (ht : t.of who = s.of who) (subnet : SubnetId) :
    t.balanceOf who subnet = s.balanceOf who subnet :=
  congrArg (Option.getD · 0) (congrFun ht subnet)

/-- **What an addition leaves of the stakes of each account.** -/
theorem of_add (h : s.add who subnet amount bounds = .ok (balance, s')) (other : AccountId) :
    s'.of other =
      if other = who then Function.update (s.of who) subnet (some balance) else s.of other := by
  obtain ⟨-, rfl⟩ := add_eq_ok_iff.mp h
  funext on
  unfold of
  rw [OrdMap.get?_insert]
  by_cases hwho : other = who
  · subst hwho
    rw [if_pos rfl, Function.update_apply]
    simp only [Prod.mk.injEq, true_and]
  · rw [if_neg hwho, if_neg fun he => hwho (Prod.mk.inj he).1]

/-- **What a removal leaves of the stakes of each account.** -/
theorem of_remove (h : s.remove who subnet amount bounds = .ok (balance, s')) (other : AccountId) :
    s'.of other =
      if other = who then
        Function.update (s.of who) subnet (if balance = 0 then none else some balance)
      else s.of other := by
  obtain ⟨-, rfl⟩ := remove_eq_ok_iff.mp h
  have hget (on : SubnetId) : (if balance = 0 then s.balances.erase (who, subnet)
      else s.balances.insert (who, subnet) balance).get? (other, on) =
        if (other, on) = (who, subnet) then if balance = 0 then none else some balance
        else s.balances.get? (other, on) := by
    by_cases hz : balance = 0
    · rw [if_pos hz, if_pos hz, OrdMap.get?_erase]
    · rw [if_neg hz, if_neg hz, OrdMap.get?_insert]
  funext on
  unfold of
  rw [hget]
  by_cases hwho : other = who
  · subst hwho
    rw [if_pos rfl, Function.update_apply]
    simp only [Prod.mk.injEq, true_and]
  · rw [if_neg hwho, if_neg fun he => hwho (Prod.mk.inj he).1]

/-- **An addition depends on the stakes of one account.** -/
theorem add_congr (h : s.add who subnet amount bounds = .ok (balance, s'))
    (ht : t.of who = s.of who) :
    ∃ t', t.add who subnet amount bounds = .ok (balance, t') ∧ t'.of who = s'.of who := by
  obtain ⟨hcheck, -⟩ := add_eq_ok_iff.mp h
  rw [checkAdd_eq_ok_iff, ← balanceOf_congr ht, ← checkAdd_eq_ok_iff] at hcheck
  have hadd := add_eq_ok_iff.mpr ⟨hcheck, rfl⟩
  exact ⟨_, hadd, by rw [of_add hadd, of_add h, ht]⟩

/-- **A removal depends on the stakes of one account.** -/
theorem remove_congr (h : s.remove who subnet amount bounds = .ok (balance, s'))
    (ht : t.of who = s.of who) :
    ∃ t', t.remove who subnet amount bounds = .ok (balance, t') ∧ t'.of who = s'.of who := by
  obtain ⟨hcheck, -⟩ := remove_eq_ok_iff.mp h
  rw [checkRemove_eq_ok_iff, ← balanceOf_congr ht, ← checkRemove_eq_ok_iff] at hcheck
  have hremove := remove_eq_ok_iff.mpr ⟨hcheck, rfl⟩
  exact ⟨_, hremove, by rw [of_remove hremove, of_remove h, ht]⟩

/-- **Stakes are known by those of each account**, where the totals beside them are their sums. -/
theorem Counted.ext_of (hs : s.Counted) (ht : t.Counted) (h : ∀ who, s.of who = t.of who) : s = t :=
  hs.ext ht (OrdMap.ext_get? fun (who, subnet) => congrFun (h who) subnet)

end Stakes

end Stakebook
