import Mathlib.Data.List.Induction
import Mathlib.Data.List.Infix
import Stakebook.Proofs.Stakes

/-!
# The totals of direct stake over whole runs

A run is a list of additions and removals, each under the bounds that its subnet has at that time.

The total of a subnet is exact as long as the subnet can have a total: `Kept` says that it is the sum
of the stakes on it, and that neither a stake nor a total of zero is kept. The total of all stops at
the largest amount, and a removal is taken from where it stopped. So what lies beyond the range once
is missing from the total from then on, until nothing is staked.

Headlines:
* **`Kept.move`**, **`Bounded.move`**: every accepted call keeps the totals of the subnets, and the
  stakes within the bounds.
* **`totals_run`**: the stakes and the totals of the subnets after every run.
* **`total_apply`**, **`recovered_concat_iff`**: one call, for the total of all.
* **`total_run`**: exactly when the total of all is the sum, and **`total_drifts`**: a run after which
  it is not.
-/

namespace Stakebook.Stakes

/-! ## Calls -/

/-- A call on the stakes. -/
inductive Call
  | add (who : AccountId) (subnet : SubnetId) (amount : Amount) (bounds : SubnetParams)
  | remove (who : AccountId) (subnet : SubnetId) (amount : Amount) (bounds : SubnetParams)

namespace Call

/-- The subnet that a call is about. -/
def subnet : Call → SubnetId
  | add _ subnet _ _ => subnet
  | remove _ subnet _ _ => subnet

/-- The bounds that it is made under. -/
def bounds : Call → SubnetParams
  | add _ _ _ bounds => bounds
  | remove _ _ _ bounds => bounds

/-- The stakes after a call; a refused call leaves them as they are. -/
def apply (s : Stakes) : Call → Stakes
  | add who subnet amount bounds =>
    match s.add who subnet amount bounds with
    | .ok (_, s') => s'
    | .error _ => s
  | remove who subnet amount bounds =>
    match s.remove who subnet amount bounds with
    | .ok (_, s') => s'
    | .error _ => s

end Call

/-- What an accepted call on a subnet does. -/
inductive Move (subnet : SubnetId) (bounds : SubnetParams) (s s' : Stakes) : Prop
  | add {who : AccountId} {amount balance : Amount}
      (add : s.add who subnet amount bounds = .ok (balance, s'))
  | remove {who : AccountId} {amount balance : Amount}
      (remove : s.remove who subnet amount bounds = .ok (balance, s'))

theorem Call.apply_eq_or_move (s : Stakes) (c : Call) :
    c.apply s = s ∨ Move c.subnet c.bounds s (c.apply s) := by
  unfold Call.apply
  cases c with
  | add who subnet amount bounds =>
    simp only
    split
    · next h => exact .inr (.add h)
    · exact .inl rfl
  | remove who subnet amount bounds =>
    simp only
    split
    · next h => exact .inr (.remove h)
    · exact .inl rfl

/-- The stakes after some calls on none. -/
def run (calls : List Call) : Stakes := calls.foldl Call.apply empty

theorem run_concat (calls : List Call) (c : Call) : run (calls ++ [c]) = c.apply (run calls) :=
  List.foldl_append

/-! ## The totals of the subnets -/

variable {s s' : Stakes} {subnet on : SubnetId} {bounds : SubnetParams}

/-- The totals of the subnets are the sums of the stakes, and what is zero is not kept. -/
structure Kept (s : Stakes) : Prop where
  tallied : s.Tallied
  balance_ne_zero : ∀ who subnet balance, s.balances.get? (who, subnet) = some balance → balance ≠ 0
  subnetTotal_ne_zero : ∀ subnet total, s.subnetTotals.get? subnet = some total → total ≠ 0

theorem kept_empty : Kept empty where
  tallied := tallied_empty
  balance_ne_zero _ _ _ h := by cases h
  subnetTotal_ne_zero _ _ h := by cases h

/-- **Every accepted call keeps the totals of the subnets**, if its subnet then has a total in
range. -/
theorem Kept.move (hk : s.Kept) (h : Move subnet bounds s s')
    (hfit : s'.stakedOn subnet < 2 ^ 128) : s'.Kept := by
  cases h with
  | add add =>
    have htallied := hk.tallied.add add hfit
    refine ⟨htallied, fun x on b hb => ?_,
      fun _ _ => ne_zero_of_get?_add hk.subnetTotal_ne_zero add htallied⟩
    rw [get?_balances_add add] at hb
    split at hb
    · cases hb
      obtain ⟨hne, hsum, -⟩ := checkAdd_eq_ok_iff.mp (add_eq_ok_iff.mp add).1
      rw [Word.ne_zero_iff] at hne ⊢
      omega
    · exact hk.balance_ne_zero x on b hb
  | remove remove =>
    refine ⟨hk.tallied.remove remove, fun x on b hb => ?_, fun on total htotal => ?_⟩
    · rw [get?_balances_remove remove] at hb
      split at hb
      · split at hb
        · cases hb
        · next hne =>
          cases hb
          exact hne
      · exact hk.balance_ne_zero x on b hb
    · obtain ⟨-, rfl⟩ := remove_eq_ok_iff.mp remove
      exact ne_zero_of_get?_lowerTotal hk.subnetTotal_ne_zero htotal

/-- Somebody has a stake on a subnet whose stakes are more than nothing. -/
theorem exists_of_stakedOn_pos (h : 0 < s.stakedOn subnet) :
    ∃ who balance, s.balances.get? (who, subnet) = some balance := by
  obtain ⟨⟨who, on⟩, balance, hget, hcounts⟩ := OrdMap.exists_of_sum_pos h
  unfold stakeOn at hcounts
  split at hcounts
  · next hon => exact ⟨who, balance, hon ▸ hget⟩
  · exact absurd hcounts (Nat.lt_irrefl 0)

/-- **A total is kept for the subnets that have a stake**, and for no others. -/
theorem Kept.exists_total_iff (hk : s.Kept) (subnet : SubnetId) :
    (∃ total, s.subnetTotals.get? subnet = some total) ↔
      ∃ who balance, s.balances.get? (who, subnet) = some balance := by
  constructor
  · rintro ⟨total, htotal⟩
    have hpos := Word.ne_zero_iff.mp (hk.subnetTotal_ne_zero subnet total htotal)
    have hsum := hk.tallied subnet
    unfold subnetTotal at hsum
    rw [OrdMap.getD_of_some htotal] at hsum
    exact exists_of_stakedOn_pos (hsum ▸ hpos)
  · rintro ⟨who, balance, hget⟩
    have hpos := Word.ne_zero_iff.mp (hk.balance_ne_zero who subnet balance hget)
    have hle := OrdMap.weight_le_sum (stakeOn subnet) s.balances (who, subnet)
    rw [OrdMap.weight_of_some hget, stakeOn, if_pos rfl] at hle
    have hsum : (s.subnetTotal subnet).toNat = s.balances.sum (stakeOn subnet) := hk.tallied subnet
    cases htotal : s.subnetTotals.get? subnet with
    | some total => exact ⟨total, rfl⟩
    | none =>
      unfold subnetTotal at hsum
      rw [OrdMap.getD_of_none htotal, Word.toNat_zero] at hsum
      omega

/-! ## The bounds of a subnet -/

/-- Every stake on a subnet lies within the bounds. -/
def Bounded (s : Stakes) (subnet : SubnetId) (bounds : SubnetParams) : Prop :=
  ∀ who balance, s.balances.get? (who, subnet) = some balance →
    bounds.minStake ≤ balance ∧ balance ≤ bounds.maxStake

/-- **Every accepted call keeps the stakes within the bounds** of a subnet, if they are its own: what
a removal leaves is no less than the minimum, and less than there was. -/
theorem Bounded.move {b : SubnetParams} (hb : s.Bounded on b) (h : Move subnet bounds s s')
    (hsame : subnet = on → bounds = b) : s'.Bounded on b := by
  intro x balance hget
  cases h with
  | add add =>
    rw [get?_balances_add add] at hget
    split at hget
    · next hkey =>
      cases hget
      obtain rfl := hsame (Prod.ext_iff.mp hkey).2.symm
      obtain ⟨-, -, hmin, hmax⟩ := checkAdd_eq_ok_iff.mp (add_eq_ok_iff.mp add).1
      exact ⟨hmin, hmax⟩
    · exact hb x balance hget
  | @remove who amount left remove =>
    rw [get?_balances_remove remove] at hget
    split at hget
    · next hkey =>
      obtain ⟨rfl, rfl⟩ := Prod.mk.inj hkey
      obtain rfl := hsame rfl
      split at hget
      · cases hget
      · next hne =>
        cases hget
        obtain ⟨hamount, hle, hleft, hmin⟩ :=
          checkRemove_eq_ok_iff.mp (remove_eq_ok_iff.mp remove).1
        refine ⟨hmin.resolve_left hne, ?_⟩
        cases hold : s.balances.get? (x, on) with
        | none =>
          unfold balanceOf at hle
          rw [OrdMap.getD_of_none hold, Word.le_def, Word.toNat_zero] at hle
          rw [Word.ne_zero_iff] at hamount
          omega
        | some old =>
          obtain ⟨-, hmax⟩ := hb x old hold
          have hsub := Word.toNat_sub_of_le hle
          unfold balanceOf at hsub hleft
          rw [OrdMap.getD_of_some hold] at hsub hleft
          rw [Word.le_def] at hmax ⊢
          rw [hleft]
          omega
    · exact hb x balance hget

theorem bounded_run (calls : List Call) (subnet : SubnetId) (bounds : SubnetParams)
    (hsame : ∀ c ∈ calls, c.subnet = subnet → c.bounds = bounds) :
    (run calls).Bounded subnet bounds := by
  induction calls using List.reverseRecOn with
  | nil => nofun
  | append_singleton calls c ih =>
    have hb := ih fun d hd => hsame d (List.mem_append_left _ hd)
    rw [run_concat]
    rcases c.apply_eq_or_move (run calls) with h | h
    · rw [h]
      exact hb
    · exact hb.move h (hsame c (List.mem_append_right _ List.mem_cons_self))

/-! ## Runs in range -/

/-- The stakes on no subnet are ever out of range together. -/
def SubnetsInRange (calls : List Call) : Prop :=
  ∀ before, before <+: calls → ∀ subnet, (run before).stakedOn subnet < 2 ^ 128

/-- Only subnets that have a stake have to be looked at. -/
instance (calls : List Call) : Decidable (SubnetsInRange calls) :=
  decidable_of_iff (∀ before ∈ calls.inits, ∀ e ∈ (run before).balances.toList,
    (run before).stakedOn e.1.2 < 2 ^ 128) <| by
  constructor
  · intro h before hbefore subnet
    rcases Nat.eq_zero_or_pos ((run before).stakedOn subnet) with hz | hpos
    · rw [hz]
      exact Nat.two_pow_pos 128
    · obtain ⟨who, balance, hget⟩ := exists_of_stakedOn_pos hpos
      exact h before ((List.mem_inits _ _).mpr hbefore) _ (OrdMap.mem_toList_iff.mpr hget)
  · intro h before hbefore e _
    exact h before ((List.mem_inits _ _).mp hbefore) e.1.2

theorem SubnetsInRange.of_concat {calls : List Call} {c : Call}
    (h : SubnetsInRange (calls ++ [c])) :
    SubnetsInRange calls ∧ ∀ subnet, (run (calls ++ [c])).stakedOn subnet < 2 ^ 128 :=
  ⟨fun before hbefore => h before (hbefore.trans (List.prefix_append _ _)),
    h _ (List.prefix_refl _)⟩

theorem kept_run {calls : List Call} (h : SubnetsInRange calls) : (run calls).Kept := by
  induction calls using List.reverseRecOn with
  | nil => exact kept_empty
  | append_singleton calls c ih =>
    obtain ⟨hcalls, hfit⟩ := h.of_concat
    rw [run_concat] at hfit ⊢
    rcases c.apply_eq_or_move (run calls) with hsame | hmove
    · rw [hsame]
      exact ih hcalls
    · exact (ih hcalls).move hmove (hfit c.subnet)

/-- **The stakes and the totals of the subnets after every run** in which no subnet is ever out of
range: the total of a subnet is the sum of the stakes on it, one is kept exactly for the subnets that
have a stake, no stake of zero is kept, and where a subnet has the same bounds all along its stakes
lie within them. -/
theorem totals_run {calls : List Call} (h : SubnetsInRange calls) :
    (∀ subnet, ((run calls).subnetTotal subnet).toNat = (run calls).stakedOn subnet) ∧
    (∀ subnet, (∃ total, (run calls).subnetTotals.get? subnet = some total) ↔
      ∃ who balance, (run calls).balances.get? (who, subnet) = some balance) ∧
    (∀ who subnet balance, (run calls).balances.get? (who, subnet) = some balance →
      balance ≠ 0) ∧
    ∀ subnet bounds, (∀ c ∈ calls, c.subnet = subnet → c.bounds = bounds) →
      ∀ who balance, (run calls).balances.get? (who, subnet) = some balance →
        bounds.minStake ≤ balance ∧ balance ≤ bounds.maxStake :=
  have hk := kept_run h
  ⟨hk.tallied, hk.exists_total_iff, hk.balance_ne_zero, bounded_run calls⟩

/-- Two accounts fill the range of a subnet, and one of them takes back a part of its stake, after a
part that would have left too little was refused. Another subnet is left by its only account, which
was refused a second stake there. -/
def comings : List Call :=
  [.add (.dev 1) 1 10 ⟨5, .max, 0⟩, .add (.dev 2) 1 (.max - 10) ⟨5, .max, 0⟩,
   .add (.dev 1) 2 7 ⟨0, 9, 0⟩, .add (.dev 1) 2 7 ⟨0, 9, 0⟩, .remove (.dev 1) 1 8 ⟨5, .max, 0⟩,
   .remove (.dev 1) 1 4 ⟨5, .max, 0⟩, .remove (.dev 1) 2 7 ⟨0, 9, 0⟩]

theorem totals_run_comings :
    SubnetsInRange comings ∧ ((run comings).subnetTotal 1).toNat = (run comings).stakedOn 1 ∧
      (run comings).stakedOn 1 = 2 ^ 128 - 5 ∧
      (∃ total, (run comings).subnetTotals.get? 1 = some total) ∧
      ¬(∃ total, (run comings).subnetTotals.get? 2 = some total) ∧
      ∀ balance, (run comings).balances.get? (.dev 1, 1) = some balance →
        balance ≠ 0 ∧ (5 : Amount) ≤ balance := by
  have h : SubnetsInRange comings := by decide +kernel
  obtain ⟨htotal, hstored, hne, hbounds⟩ := totals_run h
  have hsame : ∀ c ∈ comings, c.subnet = 1 → c.bounds = ⟨5, .max, 0⟩ := by decide
  refine ⟨h, htotal 1, by decide +kernel, (hstored 1).mpr ⟨.dev 1, 6, by decide +kernel⟩, ?_,
    fun balance hget => ⟨hne _ _ _ hget, (hbounds 1 _ hsame _ _ hget).1⟩⟩
  rintro ⟨total, hget⟩
  have hnone : (run comings).subnetTotals.get? 2 = none := by decide +kernel
  cases hnone.symm.trans hget

/-! ## The total of all -/

/-- **One call, for the total of all**: it never exceeds the sum of the stakes. After a call it is
the sum if nothing is staked, or if it was the sum before and the sum is in range. -/
theorem total_apply {s : Stakes} (hle : s.total.toNat ≤ s.totalStaked) (c : Call) :
    (c.apply s).total.toNat ≤ (c.apply s).totalStaked ∧
      ((c.apply s).total.toNat = (c.apply s).totalStaked ↔
        (c.apply s).totalStaked = 0 ∨
          s.total.toNat = s.totalStaked ∧ (c.apply s).totalStaked < 2 ^ 128) := by
  have hlt := s.total.toNat_lt
  generalize hs' : c.apply s = s'
  have hmove := c.apply_eq_or_move s
  rw [hs'] at hmove
  rcases hmove with rfl | @⟨who, amount, balance, add⟩ | @⟨who, amount, balance, remove⟩
  · omega
  · -- The total moves as far as the sum does, unless it stops, and then the sum is out of range.
    have hsum := totalStaked_add add
    have htotal := Word.toNat_satAdd s.total amount
    obtain ⟨hcheck, rfl⟩ := add_eq_ok_iff.mp add
    have hpos := Word.ne_zero_iff.mp (checkAdd_eq_ok_iff.mp hcheck).1
    simp only at hsum ⊢
    omega
  · -- A total that is too small stays as far behind, unless it stops at zero.
    have hsum := totalStaked_remove remove
    have htotal := Word.toNat_satSub s.total amount
    obtain ⟨hcheck, rfl⟩ := remove_eq_ok_iff.mp remove
    simp only at hsum ⊢
    omega

/-- Each time that the stakes of all subnets went beyond the range together, there was a time after
it at which nothing was staked. -/
def Recovered (calls : List Call) : Prop :=
  ∀ before after, calls = before ++ after → 2 ^ 128 ≤ (run before).totalStaked →
    ∃ between, between <+: after ∧ (run (before ++ between)).totalStaked = 0

theorem recovered_concat_iff {calls : List Call} {c : Call} :
    Recovered (calls ++ [c]) ↔
      (run (calls ++ [c])).totalStaked = 0 ∨
        Recovered calls ∧ (run (calls ++ [c])).totalStaked < 2 ^ 128 := by
  constructor
  · intro h
    rcases Nat.eq_zero_or_pos (run (calls ++ [c])).totalStaked with hzero | hpos
    · exact .inl hzero
    · -- Something is staked now, so what was made good was made good before the last call.
      refine .inr ⟨fun before after happend hbeyond => ?_, Nat.lt_of_not_le fun hbeyond => ?_⟩
      · subst happend
        obtain ⟨between, hbetween, hzero⟩ :=
          h before (after ++ [c]) (List.append_assoc ..) hbeyond
        rcases List.prefix_concat_iff.mp hbetween with rfl | hbetween
        · rw [List.append_assoc] at hpos
          omega
        · exact ⟨between, hbetween, hzero⟩
      · obtain ⟨between, hbetween, hzero⟩ := h _ [] (List.append_nil _).symm hbeyond
        rw [List.prefix_nil.mp hbetween, List.append_nil] at hzero
        omega
  · rintro (hzero | ⟨hrecovered, hlt⟩) before after happend hbeyond
    · exact ⟨after, List.prefix_refl _, happend ▸ hzero⟩
    · rcases List.eq_nil_or_concat after with rfl | ⟨after, last, rfl⟩
      · rw [List.append_nil] at happend
        subst happend
        omega
      · rw [List.concat_eq_append, ← List.append_assoc] at happend
        obtain ⟨between, hbetween, hzero⟩ :=
          hrecovered before after (List.append_inj_left' happend rfl) hbeyond
        exact ⟨between, hbetween.trans (List.concat_eq_append ▸ List.prefix_append _ _), hzero⟩

/-- **The total of all after every run**: it never exceeds the sum of the stakes, and it is the sum
exactly if nothing was staked at some time after each time that the sum was out of range. -/
theorem total_run (calls : List Call) :
    (run calls).total.toNat ≤ (run calls).totalStaked ∧
      ((run calls).total.toNat = (run calls).totalStaked ↔ Recovered calls) := by
  induction calls using List.reverseRecOn with
  | nil =>
    refine ⟨Nat.le_refl _, iff_of_true rfl fun before after happend _ => ?_⟩
    obtain ⟨rfl, rfl⟩ := List.append_eq_nil_iff.mp happend.symm
    exact ⟨[], List.prefix_refl _, rfl⟩
  | append_singleton calls c ih =>
    obtain ⟨hle, hiff⟩ := ih
    have happly := total_apply hle c
    rw [hiff, ← run_concat] at happly
    rw [recovered_concat_iff]
    exact happly

/-- One account fills the range on each of two subnets, and then leaves one of them. -/
def overrun : List Call :=
  [.add (.dev 1) 1 .max ⟨0, .max, 0⟩, .add (.dev 1) 2 .max ⟨0, .max, 0⟩,
   .remove (.dev 1) 2 .max ⟨0, .max, 0⟩]

theorem total_drifts :
    SubnetsInRange overrun ∧ (run overrun).totalStaked = 2 ^ 128 - 1 ∧ (run overrun).total = 0 := by
  decide +kernel

end Stakebook.Stakes
