import Stakebook.Proofs.Checks
import Stakebook.Proofs.MapSum

/-!
# The accounts of direct stake

`add_eq_ok_iff` and `remove_eq_ok_iff` say when a stake is changed and what it becomes;
`Stakes.totalStaked` adds up the stakes of all accounts on all subnets, and `Stakes.stakedOn` those
on one subnet. The stakes are `Tallied` if the totals that stand beside them are these sums.

Headlines:
* **`totalStaked_add`**, **`totalStaked_remove`**: an addition adds its amount to the sum, and a
  removal takes it.
* **`Tallied.add`**, **`Tallied.remove`**: the totals of the subnets stay the sums of the stakes, an
  addition provided that its subnet then has a total in range.
* **`Counted.add`**, **`Counted.remove`**, **`Counted.ext`**: so do all totals, while all stakes are
  in range together, and then the stakes determine them.
* **`balanceOf_add_of_ne`**, **`balanceOf_remove_of_ne`**: the stakes of other accounts stay.
-/

namespace Stakebook.Stakes

/-- What a stake counts for in the sum of the stakes. -/
def stakeIn (_ : AccountId × SubnetId) (balance : Amount) : Nat := balance.toNat

/-- The stakes of all accounts together. -/
def totalStaked (s : Stakes) : Nat := s.balances.sum stakeIn

variable {s s' : Stakes} {who : AccountId} {subnet : SubnetId} {amount balance : Amount}
  {bounds : SubnetParams}

theorem weight_stakeIn (s : Stakes) (who : AccountId) (subnet : SubnetId) :
    s.balances.weight stakeIn (who, subnet) = (s.balanceOf who subnet).toNat :=
  OrdMap.weight_eq_getD Word.toNat_zero

/-- One stake is part of all stakes. -/
theorem balanceOf_le_totalStaked (s : Stakes) (who : AccountId) (subnet : SubnetId) :
    (s.balanceOf who subnet).toNat ≤ s.totalStaked :=
  weight_stakeIn s who subnet ▸ OrdMap.weight_le_sum stakeIn s.balances (who, subnet)

/-! ## When a stake is changed -/

theorem checkAdd_eq_ok_iff :
    s.checkAdd who subnet amount bounds = .ok balance ↔
      amount ≠ 0 ∧ balance.toNat = (s.balanceOf who subnet).toNat + amount.toNat ∧
        bounds.minStake ≤ balance ∧ balance ≤ bounds.maxStake := by
  unfold checkAdd
  rw [guard_eq_ok_iff]
  cases hsum : (s.balanceOf who subnet).add? amount with
  | none =>
    constructor
    · nofun
    · rintro ⟨-, hb, -⟩
      rw [Word.add?_eq_some_iff.mpr hb] at hsum
      cases hsum
  | some b =>
    simp only [guard_eq_ok_iff, Word.not_lt, Except.ok.injEq]
    constructor
    · rintro ⟨hamount, hmin, hmax, rfl⟩
      exact ⟨hamount, Word.add?_eq_some_iff.mp hsum, hmin, hmax⟩
    · rintro ⟨hamount, hb, hmin, hmax⟩
      rw [Word.add?_eq_some_iff.mpr hb] at hsum
      cases hsum
      exact ⟨hamount, hmin, hmax, rfl⟩

theorem add_eq_ok_iff :
    s.add who subnet amount bounds = .ok (balance, s') ↔
      s.checkAdd who subnet amount bounds = .ok balance ∧
        s' = { balances := s.balances.insert (who, subnet) balance
               subnetTotals := s.subnetTotals.insert subnet (s.subnetTotal subnet + amount)
               total := s.total.satAdd amount } := by
  unfold add
  exact bind_pair_eq_ok_iff

theorem checkRemove_eq_ok_iff :
    s.checkRemove who subnet amount bounds = .ok balance ↔
      amount ≠ 0 ∧ amount ≤ s.balanceOf who subnet ∧
        balance = s.balanceOf who subnet - amount ∧
        (balance = 0 ∨ bounds.minStake ≤ balance) := by
  unfold checkRemove
  simp only [guard_eq_ok_iff, not_or, not_and_or, Decidable.not_not, Word.not_lt, Except.ok.injEq]
  constructor
  · rintro ⟨⟨hamount, hle⟩, hrest, rfl⟩
    exact ⟨hamount, hle, rfl, hrest⟩
  · rintro ⟨hamount, hle, rfl, hrest⟩
    exact ⟨⟨hamount, hle⟩, hrest, rfl⟩

theorem remove_eq_ok_iff :
    s.remove who subnet amount bounds = .ok (balance, s') ↔
      s.checkRemove who subnet amount bounds = .ok balance ∧
        s' = { balances :=
                 if balance = 0 then s.balances.erase (who, subnet)
                 else s.balances.insert (who, subnet) balance
               subnetTotals := lowerTotal s.subnetTotals subnet amount
               total := s.total.satSub amount } := by
  unfold remove
  exact bind_pair_eq_ok_iff

/-! ## Stored stakes -/

/-- An addition stores the new stake. -/
theorem get?_balances_add (h : s.add who subnet amount bounds = .ok (balance, s'))
    (key : AccountId × SubnetId) :
    s'.balances.get? key = if key = (who, subnet) then some balance else s.balances.get? key := by
  obtain ⟨-, rfl⟩ := add_eq_ok_iff.mp h
  exact OrdMap.get?_insert ..

/-- A removal stores what is left, if anything is. -/
theorem get?_balances_remove (h : s.remove who subnet amount bounds = .ok (balance, s'))
    (key : AccountId × SubnetId) :
    s'.balances.get? key =
      if key = (who, subnet) then if balance = 0 then none else some balance
      else s.balances.get? key := by
  obtain ⟨-, rfl⟩ := remove_eq_ok_iff.mp h
  by_cases hz : balance = 0
  · simp only [if_pos hz]
    exact OrdMap.get?_erase ..
  · simp only [if_neg hz]
    exact OrdMap.get?_insert ..

/-! ## The sum of the stakes -/

/-- **An addition adds its amount to the stakes.** -/
theorem totalStaked_add (h : s.add who subnet amount bounds = .ok (balance, s')) :
    s'.totalStaked = s.totalStaked + amount.toNat := by
  obtain ⟨hcheck, rfl⟩ := add_eq_ok_iff.mp h
  obtain ⟨-, hbalance, -, -⟩ := checkAdd_eq_ok_iff.mp hcheck
  have hsum := OrdMap.sum_insert stakeIn s.balances (who, subnet) balance
  rw [weight_stakeIn] at hsum
  unfold totalStaked
  unfold stakeIn at hsum ⊢
  simp only at hsum ⊢
  omega

/-- **A removal takes its amount from the stakes.** -/
theorem totalStaked_remove (h : s.remove who subnet amount bounds = .ok (balance, s')) :
    s'.totalStaked + amount.toNat = s.totalStaked := by
  obtain ⟨hcheck, rfl⟩ := remove_eq_ok_iff.mp h
  obtain ⟨-, hle, hbalance, -⟩ := checkRemove_eq_ok_iff.mp hcheck
  have hsub := Word.toNat_sub_of_le hle
  rw [← hbalance] at hsub
  rw [Word.le_def] at hle
  unfold totalStaked
  simp only
  split
  · next hz =>
    have hsum := OrdMap.sum_erase stakeIn s.balances (who, subnet)
    rw [weight_stakeIn] at hsum
    rw [hz, Word.toNat_zero] at hsub
    omega
  · have hsum := OrdMap.sum_insert stakeIn s.balances (who, subnet) balance
    rw [weight_stakeIn] at hsum
    unfold stakeIn at hsum ⊢
    omega

/-! ## The totals of the subnets -/

/-- What a stake counts for on a subnet. -/
def stakeOn (subnet : SubnetId) (key : AccountId × SubnetId) (balance : Amount) : Nat :=
  if key.2 = subnet then balance.toNat else 0

/-- The stakes of all accounts on one subnet. -/
def stakedOn (s : Stakes) (subnet : SubnetId) : Nat := s.balances.sum (stakeOn subnet)

theorem weight_stakeOn (s : Stakes) (who : AccountId) (subnet on : SubnetId) :
    s.balances.weight (stakeOn on) (who, subnet) =
      if subnet = on then (s.balanceOf who subnet).toNat else 0 := by
  refine OrdMap.weight_eq_getD ?_
  unfold stakeOn
  rw [Word.toNat_zero, ite_self]

/-- The stakes on one subnet are part of all stakes. -/
theorem stakedOn_le_totalStaked (s : Stakes) (subnet : SubnetId) :
    s.stakedOn subnet ≤ s.totalStaked := by
  refine OrdMap.sum_mono (fun key balance => ?_) s.balances
  unfold stakeOn stakeIn
  split <;> omega

/-- A write moves the stakes on its subnet from the old balance to the new one. -/
theorem stakedOn_insert (s : Stakes) (who : AccountId) (subnet : SubnetId) (balance : Amount)
    (on : SubnetId) :
    (s.balances.insert (who, subnet) balance).sum (stakeOn on) +
        (if subnet = on then (s.balanceOf who subnet).toNat else 0) =
      s.stakedOn on + if subnet = on then balance.toNat else 0 := by
  have hsum := OrdMap.sum_insert (stakeOn on) s.balances (who, subnet) balance
  rw [weight_stakeOn] at hsum
  exact hsum

/-- An addition adds its amount to the stakes on its subnet. -/
theorem stakedOn_add (h : s.add who subnet amount bounds = .ok (balance, s')) (on : SubnetId) :
    s'.stakedOn on = s.stakedOn on + if subnet = on then amount.toNat else 0 := by
  obtain ⟨hcheck, rfl⟩ := add_eq_ok_iff.mp h
  obtain ⟨-, hbalance, -, -⟩ := checkAdd_eq_ok_iff.mp hcheck
  have hinsert := s.stakedOn_insert who subnet balance on
  show (s.balances.insert _ _).sum _ = _
  by_cases hon : subnet = on
  · rw [if_pos hon, if_pos hon] at hinsert
    rw [if_pos hon]
    omega
  · rw [if_neg hon, if_neg hon] at hinsert
    rw [if_neg hon]
    exact hinsert

/-- A removal takes its amount from the stakes on its subnet. -/
theorem stakedOn_remove (h : s.remove who subnet amount bounds = .ok (balance, s'))
    (on : SubnetId) :
    s'.stakedOn on + (if subnet = on then amount.toNat else 0) = s.stakedOn on := by
  obtain ⟨hcheck, rfl⟩ := remove_eq_ok_iff.mp h
  obtain ⟨-, hle, hbalance, -⟩ := checkRemove_eq_ok_iff.mp hcheck
  have hsub := Word.toNat_sub_of_le hle
  rw [← hbalance] at hsub
  rw [Word.le_def] at hle
  unfold stakedOn
  simp only
  split
  · next hz =>
    have herase := OrdMap.sum_erase (stakeOn on) s.balances (who, subnet)
    rw [weight_stakeOn] at herase
    rw [hz, Word.toNat_zero] at hsub
    by_cases hon : subnet = on
    · rw [if_pos hon] at herase ⊢
      omega
    · rw [if_neg hon] at herase ⊢
      exact herase
  · have hinsert := s.stakedOn_insert who subnet balance on
    unfold stakedOn at hinsert
    by_cases hon : subnet = on
    · rw [if_pos hon, if_pos hon] at hinsert
      rw [if_pos hon]
      omega
    · rw [if_neg hon, if_neg hon] at hinsert
      rw [if_neg hon]
      exact hinsert

/-- What is left of the totals after an amount is taken from one of them. -/
theorem toNat_getD_lowerTotal (totals : OrdMap SubnetId Amount) (subnet : SubnetId)
    (amount : Amount) (on : SubnetId) :
    ((lowerTotal totals subnet amount).getD on 0).toNat =
      (totals.getD on 0).toNat - if on = subnet then amount.toNat else 0 := by
  unfold lowerTotal
  cases h : totals.get? subnet with
  | none =>
    simp only
    split
    · next hon =>
      rw [hon, OrdMap.getD_of_none h, Word.toNat_zero, Nat.zero_sub]
    · rfl
  | some total =>
    simp only
    split
    · next hz =>
      rw [OrdMap.getD_erase]
      split
      · next hon => rw [hon, OrdMap.getD_of_some h, ← Word.toNat_satSub, hz]
      · rfl
    · rw [OrdMap.getD_insert]
      split
      · next hon => rw [hon, OrdMap.getD_of_some h, Word.toNat_satSub]
      · rfl

/-- The total that stands beside the stakes is, for every subnet, the sum of the stakes on it. -/
def Tallied (s : Stakes) : Prop := ∀ subnet, (s.subnetTotal subnet).toNat = s.stakedOn subnet

theorem tallied_empty : Tallied empty := fun _ => Word.toNat_zero

/-- **An addition keeps the totals the sums of the stakes**, if its subnet has a total in range. -/
theorem Tallied.add (ht : s.Tallied) (h : s.add who subnet amount bounds = .ok (balance, s'))
    (hfit : s'.stakedOn subnet < 2 ^ 128) : s'.Tallied := by
  intro on
  have hadd := stakedOn_add h
  have htotal : (s.subnetTotal subnet).toNat + amount.toNat < 2 ^ 128 := by
    have := hadd subnet
    rw [if_pos rfl] at this
    rw [ht subnet]
    omega
  rw [hadd on, ← ht on]
  obtain ⟨-, rfl⟩ := add_eq_ok_iff.mp h
  show ((s.subnetTotals.insert subnet _).getD on 0).toNat = _
  rw [OrdMap.getD_insert]
  by_cases hon : on = subnet
  · rw [if_pos hon, if_pos hon.symm, hon]
    exact Word.toNat_add_of_lt htotal
  · rw [if_neg hon, if_neg (Ne.symm hon)]
    rfl

/-- **A removal keeps the totals the sums of the stakes**: it takes no more than there is, so the
subtraction that would stop at zero does not. -/
theorem Tallied.remove (ht : s.Tallied)
    (h : s.remove who subnet amount bounds = .ok (balance, s')) : s'.Tallied := by
  intro on
  have hremove := stakedOn_remove h on
  obtain ⟨-, rfl⟩ := remove_eq_ok_iff.mp h
  have hon : (s.subnetTotal on).toNat = s.stakedOn on := ht on
  show ((lowerTotal s.subnetTotals subnet amount).getD on 0).toNat = _
  rw [toNat_getD_lowerTotal]
  show (s.subnetTotal on).toNat - _ = _
  rw [hon]
  by_cases heq : on = subnet
  · rw [if_pos heq.symm] at hremove
    rw [if_pos heq]
    omega
  · rw [if_neg (Ne.symm heq)] at hremove
    rw [if_neg heq]
    omega

/-! ## All totals -/

/-- Every total that stands beside the stakes is a sum of them, and a total of zero is not kept. So
the stakes determine their totals. -/
structure Counted (s : Stakes) : Prop where
  tallied : s.Tallied
  subnetTotal_ne_zero : ∀ subnet total, s.subnetTotals.get? subnet = some total → total ≠ 0
  total_eq : s.total.toNat = s.totalStaked

theorem counted_empty : Counted empty where
  tallied := tallied_empty
  subnetTotal_ne_zero _ _ h := by cases h
  total_eq := Word.toNat_zero

/-- Lowering a total keeps none of zero. -/
theorem ne_zero_of_get?_lowerTotal {totals : OrdMap SubnetId Amount} {on : SubnetId}
    {total : Amount} (hpos : ∀ subnet total, totals.get? subnet = some total → total ≠ 0)
    (h : (lowerTotal totals subnet amount).get? on = some total) : total ≠ 0 := by
  unfold lowerTotal at h
  split at h
  · exact hpos on total h
  · simp only at h
    split at h
    · rw [OrdMap.get?_erase] at h
      split at h
      · cases h
      · exact hpos on total h
    · next hrest =>
      rw [OrdMap.get?_insert] at h
      split at h
      · cases h
        exact hrest
      · exact hpos on total h

/-- An addition keeps no total of zero: the total that it raises is a sum with its amount in it. -/
theorem ne_zero_of_get?_add {on : SubnetId} {total : Amount}
    (hpos : ∀ subnet total, s.subnetTotals.get? subnet = some total → total ≠ 0)
    (h : s.add who subnet amount bounds = .ok (balance, s')) (ht : s'.Tallied)
    (htotal : s'.subnetTotals.get? on = some total) : total ≠ 0 := by
  by_cases hon : subnet = on
  · have hsum := (ht on).trans (stakedOn_add h on)
    unfold subnetTotal at hsum
    rw [OrdMap.getD_of_some htotal, if_pos hon] at hsum
    obtain ⟨hne, -⟩ := checkAdd_eq_ok_iff.mp (add_eq_ok_iff.mp h).1
    rw [Word.ne_zero_iff] at hne ⊢
    omega
  · obtain ⟨-, rfl⟩ := add_eq_ok_iff.mp h
    rw [OrdMap.get?_insert, if_neg (Ne.symm hon)] at htotal
    exact hpos on total htotal

namespace Counted

/-- **An addition keeps the totals the sums of the stakes**, if all stakes are in range after it. -/
theorem add (hc : s.Counted) (h : s.add who subnet amount bounds = .ok (balance, s'))
    (hfit : s'.totalStaked < 2 ^ 128) : s'.Counted := by
  have htallied := hc.tallied.add h (Nat.lt_of_le_of_lt (s'.stakedOn_le_totalStaked subnet) hfit)
  have hsum := totalStaked_add h
  refine ⟨htallied, fun _ _ => ne_zero_of_get?_add hc.subnetTotal_ne_zero h htallied, ?_⟩
  obtain ⟨-, rfl⟩ := add_eq_ok_iff.mp h
  have htotal := hc.total_eq
  rw [Word.toNat_satAdd]
  omega

/-- **A removal keeps the totals the sums of the stakes.** -/
theorem remove (hc : s.Counted) (h : s.remove who subnet amount bounds = .ok (balance, s')) :
    s'.Counted := by
  have htallied := hc.tallied.remove h
  have hsum := totalStaked_remove h
  obtain ⟨-, rfl⟩ := remove_eq_ok_iff.mp h
  refine ⟨htallied, fun on total => ne_zero_of_get?_lowerTotal hc.subnetTotal_ne_zero, ?_⟩
  have htotal := hc.total_eq
  rw [Word.toNat_satSub]
  omega

/-- The total of a subnet is kept exactly if it is not zero. -/
theorem get?_subnetTotals (hc : s.Counted) (subnet : SubnetId) :
    s.subnetTotals.get? subnet =
      if s.subnetTotal subnet = 0 then none else some (s.subnetTotal subnet) := by
  unfold subnetTotal
  cases h : s.subnetTotals.get? subnet with
  | none => rw [OrdMap.getD_of_none h, if_pos rfl]
  | some total => rw [OrdMap.getD_of_some h, if_neg (hc.subnetTotal_ne_zero subnet total h)]

/-- **The stakes determine their totals.** -/
theorem ext {t : Stakes} (hs : s.Counted) (ht : t.Counted) (h : s.balances = t.balances) :
    s = t := by
  have hsubnet (subnet : SubnetId) : s.subnetTotal subnet = t.subnetTotal subnet := by
    rw [Word.eq_iff, hs.tallied, ht.tallied]
    unfold stakedOn
    rw [h]
  have htotals : s.subnetTotals = t.subnetTotals := OrdMap.ext_get? fun subnet => by
    rw [hs.get?_subnetTotals, ht.get?_subnetTotals, hsubnet]
  have htotal : s.total = t.total := by
    rw [Word.eq_iff, hs.total_eq, ht.total_eq]
    unfold totalStaked
    rw [h]
  cases s
  cases t
  cases h
  cases htotals
  cases htotal
  rfl

end Counted

/-! ## Other accounts -/

variable {other : AccountId}

/-- **An addition leaves the stakes of other accounts as they are.** -/
theorem balanceOf_add_of_ne (h : s.add who subnet amount bounds = .ok (balance, s'))
    (hne : other ≠ who) (on : SubnetId) : s'.balanceOf other on = s.balanceOf other on := by
  have hkey : (other, on) ≠ (who, subnet) := fun he => hne (Prod.ext_iff.mp he).1
  unfold balanceOf OrdMap.getD
  rw [get?_balances_add h, if_neg hkey]

/-- **A removal leaves the stakes of other accounts as they are.** -/
theorem balanceOf_remove_of_ne (h : s.remove who subnet amount bounds = .ok (balance, s'))
    (hne : other ≠ who) (on : SubnetId) : s'.balanceOf other on = s.balanceOf other on := by
  have hkey : (other, on) ≠ (who, subnet) := fun he => hne (Prod.ext_iff.mp he).1
  unfold balanceOf OrdMap.getD
  rw [get?_balances_remove h, if_neg hkey]

end Stakebook.Stakes
