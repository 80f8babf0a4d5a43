import Mathlib.Data.List.Forall2
import Stakebook.Proofs.Pool.Holdings
import Stakebook.Proofs.Pool.Price

/-!
# The way out of a pool

When all holders of a pool withdraw, one after the other, each floor leaves its dust to those who
remain, and the last of them holds all shares and takes all balance. So nothing is stuck, whatever
the order, and nobody receives less than he could have redeemed at first.

Headlines:
* **`holders_withdraw`**: who withdraws all of his shares is no longer a holder, and all others are.
* **`Valid.withdrawEach`**: the induction over the order of the withdrawals, from any valid pools.
* **`exit_drains`**: what the exit of all holders pays and leaves, after any run of calls.
-/

namespace Stakebook.SharePool

variable {κ : Type} [KeyOrder κ]

/-- Withdraws the listed shares of the listed accounts one after the other, and returns what each
receives. -/
def withdrawEach (p : SharePool κ) (key : κ) :
    List (AccountId × Shares) → Except LedgerError (List Amount × SharePool κ)
  | [] => .ok ([], p)
  | (who, shares) :: rest => do
    let (amount, left) ← p.withdraw who key shares
    let (amounts, left) ← left.withdrawEach key rest
    return (amount :: amounts, left)

variable [DecidableEq κ] {p p' : SharePool κ} {who : AccountId} {key : κ} {shares : Shares}
  {amount : Amount}

/-! ## One holder -/

/-- A withdrawal touches the holding of one account in one pool. -/
theorem get?_shares_withdraw_of_ne (h : p.withdraw who key shares = .ok (amount, p'))
    {x : AccountId × κ} (hx : x ≠ (who, key)) : p'.shares.get? x = p.shares.get? x := by
  obtain ⟨-, rfl⟩ := withdraw_eq_ok_iff.mp h
  exact (get?_burn ..).trans (if_neg hx)

/-- A withdrawal touches one pool. -/
theorem get?_pools_withdraw_of_ne (h : p.withdraw who key shares = .ok (amount, p')) {k : κ}
    (hk : k ≠ key) : p'.pools.get? k = p.pools.get? k := by
  obtain ⟨-, rfl⟩ := withdraw_eq_ok_iff.mp h
  exact (get?_shrink_eq ..).trans (if_neg hk)

/-- Who withdraws all of his shares has no entry left. -/
theorem get?_shares_withdraw_all (h : p.withdraw who key shares = .ok (amount, p'))
    (hall : p.shares.get? (who, key) = some shares) : p'.shares.get? (who, key) = none := by
  obtain ⟨-, rfl⟩ := withdraw_eq_ok_iff.mp h
  refine (get?_burn ..).trans ?_
  rw [if_pos rfl, hall, Option.bind_some, if_pos (Word.sub_self shares)]

/-- No account is listed twice. -/
theorem nodup_holders (p : SharePool κ) (key : κ) : (p.holders key).Nodup := by
  unfold holders List.Nodup
  rw [List.pairwise_map]
  refine (p.shares.ascending.filter _).imp_of_mem fun {a b} ha hb hbefore heq => ?_
  have hakey : a.1.2 = key := of_decide_eq_true (List.mem_filter.mp ha).2
  have hbkey : b.1.2 = key := of_decide_eq_true (List.mem_filter.mp hb).2
  exact KeyOrder.ne_of_before hbefore
    (Prod.ext (Prod.mk.inj heq).1 (hakey.trans hbkey.symm))

variable {rest : List (AccountId × Shares)}

/-- Where the holders are listed, those behind the first are other accounts. -/
theorem ne_of_mem_rest (hperm : ((who, shares) :: rest).Perm (p.holders key))
    {e : AccountId × Shares} (he : e ∈ rest) : e.1 ≠ who := by
  intro heq
  have hfirst := mem_holders.mp (hperm.mem_iff.mp List.mem_cons_self)
  have hentry := mem_holders.mp (hperm.mem_iff.mp (List.mem_cons_of_mem _ he))
  rw [heq, hfirst] at hentry
  have habsent := (List.nodup_cons.mp (hperm.nodup_iff.mpr (nodup_holders p key))).1
  exact habsent (Prod.ext heq (Option.some.inj hentry).symm ▸ he)

/-- **Who withdraws all of his shares is no longer a holder, and all others are.** -/
theorem holders_withdraw (h : p.withdraw who key shares = .ok (amount, p'))
    (hperm : ((who, shares) :: rest).Perm (p.holders key)) : rest.Perm (p'.holders key) := by
  have hall := mem_holders.mp (hperm.mem_iff.mp List.mem_cons_self)
  have hnodup := (List.nodup_cons.mp (hperm.nodup_iff.mpr (nodup_holders p key))).2
  refine (List.perm_ext_iff_of_nodup hnodup (nodup_holders p' key)).mpr fun e => ?_
  rw [mem_holders]
  by_cases he : e.1 = who
  · rw [he, get?_shares_withdraw_all h hall]
    exact ⟨fun hrest => absurd he (ne_of_mem_rest hperm hrest), nofun⟩
  · rw [get?_shares_withdraw_of_ne h fun hx => he (Prod.mk.inj hx).1, ← mem_holders,
      ← hperm.mem_iff, List.mem_cons]
    exact ⟨.inr, fun hmem => hmem.resolve_left fun heq => he (congrArg Prod.fst heq)⟩

namespace Valid

/-- A pool without shares is not stored. -/
theorem get?_eq_none (hv : p.Valid) (h : (p.pool key).totalShares = 0) :
    p.pools.get? key = none := by
  cases hq : p.pools.get? key with
  | none => rfl
  | some q =>
    unfold pool at h
    rw [OrdMap.getD_of_some hq] at h
    exact absurd h (hv.totalShares_ne_zero key q hq)

/-- A pool without holders has no shares. -/
theorem totalShares_eq_zero (hv : p.Valid) (h : p.holders key = []) :
    (p.pool key).totalShares = 0 := by
  rw [Word.eq_iff, ← hv.held_eq key, ← sum_holders, h]
  exact Word.toNat_zero.symm

/-- What is paid for all shares of an account is its balance. -/
theorem balanceOf_eq (hv : p.Valid) (h : p.withdraw who key shares = .ok (amount, p'))
    (hall : p.shares.get? (who, key) = some shares) : p.balanceOf who key = amount := by
  have ht := quoteWithdraw_eq_ok_iff.mp (withdraw_eq_ok_iff.mp h).1
  have hshares : p.sharesOf who key = shares := OrdMap.getD_of_some hall 0
  rw [Word.eq_iff, hv.toNat_balanceOf, hshares, ht.priced]

/-- Who does not withdraw can redeem no less after another has. -/
theorem balanceOf_withdraw_le (hv : p.Valid) (h : p.withdraw who key shares = .ok (amount, p'))
    {x : AccountId} (hx : x ≠ who) : p.balanceOf x key ≤ p'.balanceOf x key := by
  refine hv.balanceOf_le (hv.withdraw h) (hv.price_withdraw h key) ?_
  have hshares := sharesOf_withdraw h x key
  rw [if_neg fun he => hx he.1] at hshares
  exact Nat.le_of_eq hshares.symm

/-- A withdrawal takes what it pays from its pool. -/
theorem totalBalance_withdraw (hv : p.Valid) (h : p.withdraw who key shares = .ok (amount, p')) :
    (p'.pool key).totalBalance.toNat + amount.toNat = (p.pool key).totalBalance.toNat := by
  obtain ⟨hq, rfl⟩ := withdraw_eq_ok_iff.mp h
  have ht := quoteWithdraw_eq_ok_iff.mp hq
  have hstored := get?_of_ne_zero (hv.totalShares_pos ht.shares_ne_zero ht.shares_le)
  show ((shrink p.pools key shares amount).getD key .empty).totalBalance.toNat + _ = _
  rw [getD_shrink hstored, if_pos rfl]
  simp only
  rw [Word.toNat_sub_of_le (hv.amount_le ht)]
  exact Nat.sub_add_cancel (hv.amount_le ht)

/-- A withdrawal takes the shares that it burns from its pool. -/
theorem totalShares_withdraw (hv : p.Valid) (h : p.withdraw who key shares = .ok (amount, p')) :
    (p'.pool key).totalShares.toNat + shares.toNat = (p.pool key).totalShares.toNat := by
  obtain ⟨hq, rfl⟩ := withdraw_eq_ok_iff.mp h
  have ht := quoteWithdraw_eq_ok_iff.mp hq
  have hstored := get?_of_ne_zero (hv.totalShares_pos ht.shares_ne_zero ht.shares_le)
  show ((shrink p.pools key shares amount).getD key .empty).totalShares.toNat + _ = _
  rw [getD_shrink hstored, if_pos rfl]
  simp only
  rw [Word.toNat_sub_of_le (hv.le_totalShares ht.shares_le)]
  exact Nat.sub_add_cancel (hv.le_totalShares ht.shares_le)

/-! ## All holders -/

/-- **All holders of a pool can leave, in any order.** The induction is on the order; `floor` is
what each could redeem before the first withdrawal, which no withdrawal of another lowers. -/
theorem withdrawEach {order : List (AccountId × Shares)} (floor : AccountId → Amount) (hv : p.Valid)
    (hperm : order.Perm (p.holders key)) (hfloor : ∀ e ∈ order, floor e.1 ≤ p.balanceOf e.1 key) :
    ∃ paid p', p.withdrawEach key order = .ok (paid, p') ∧
      List.Forall₂ (fun e amount => floor e.1 ≤ amount) order paid ∧
      (paid.map Word.toNat).sum = (p.pool key).totalBalance.toNat ∧
      p'.pools.get? key = none ∧ (∀ who, p'.shares.get? (who, key) = none) ∧
      ∀ k, k ≠ key → p'.pools.get? k = p.pools.get? k ∧
        ∀ who, p'.shares.get? (who, k) = p.shares.get? (who, k) := by
  induction order generalizing p with
  | nil =>
    have hnone : p.holders key = [] := hperm.symm.eq_nil
    have hzero := hv.totalShares_eq_zero hnone
    refine ⟨[], p, rfl, .nil, ?_, hv.get?_eq_none hzero, fun who => ?_, fun k _ => ⟨rfl, fun _ => rfl⟩⟩
    · rw [hv.balance_eq_zero hzero]
      exact Word.toNat_zero.symm
    · refine Option.eq_none_iff_forall_ne_some.mpr fun s hs => ?_
      have hmem : (who, s) ∈ p.holders key := mem_holders.mpr hs
      rw [hnone] at hmem
      cases hmem
  | cons e rest ih =>
    obtain ⟨who, shares⟩ := e
    have hall : p.shares.get? (who, key) = some shares :=
      mem_holders.mp (hperm.mem_iff.mp List.mem_cons_self)
    have hle : shares ≤ p.sharesOf who key := by
      unfold sharesOf
      rw [OrdMap.getD_of_some hall]
      exact Nat.le_refl _
    obtain ⟨amount, hquote⟩ := hv.exists_quoteWithdraw (hv.holding_ne_zero _ _ hall) hle
    obtain ⟨left, h⟩ : ∃ left, p.withdraw who key shares = .ok (amount, left) :=
      ⟨_, withdraw_eq_ok_iff.mpr ⟨hquote, rfl⟩⟩
    have hfloor' : ∀ e ∈ rest, floor e.1 ≤ left.balanceOf e.1 key := fun e he =>
      Nat.le_trans (hfloor e (List.mem_cons_of_mem _ he))
        (hv.balanceOf_withdraw_le h (ne_of_mem_rest hperm he))
    obtain ⟨paid, p', hrest, hpaid, hsum, hpool, hshares, hframe⟩ :=
      ih (hv.withdraw h) (holders_withdraw h hperm) hfloor'
    refine ⟨amount :: paid, p', ?_, .cons ?_ hpaid, ?_, hpool, hshares, fun k hk => ⟨?_, fun x => ?_⟩⟩
    · unfold SharePool.withdrawEach
      rw [h]
      show (left.withdrawEach key rest >>= fun r => pure (amount :: r.1, r.2)) = _
      rw [hrest]
      rfl
    · exact hv.balanceOf_eq h hall ▸ hfloor _ List.mem_cons_self
    · have htotal := hv.totalBalance_withdraw h
      rw [List.map_cons, List.sum_cons, hsum]
      omega
    · exact (hframe k hk).1.trans (get?_pools_withdraw_of_ne h hk)
    · exact ((hframe k hk).2 x).trans
        (get?_shares_withdraw_of_ne h fun hx => hk (Prod.mk.inj hx).2)

end Valid

/-- **A complete exit drains a pool exactly, in any order.** After any run of calls, when the
holders of a pool withdraw all of their shares one after the other, every withdrawal is accepted,
each pays no less than its holder could redeem before the first, together they pay the balance of
the pool, and neither the pool nor a share of it is left. All other pools and their holders stay as
they are. -/
theorem exit_drains {calls : List (Call κ)} (hp : run calls = p) {key : κ}
    {order : List (AccountId × Shares)} (hperm : order.Perm (p.holders key)) :
    ∃ paid p', p.withdrawEach key order = .ok (paid, p') ∧
      List.Forall₂ (fun e amount => p.balanceOf e.1 key ≤ amount) order paid ∧
      (paid.map Word.toNat).sum = (p.pool key).totalBalance.toNat ∧
      p'.pools.get? key = none ∧ (∀ who, p'.shares.get? (who, key) = none) ∧
      ∀ k, k ≠ key → p'.pools.get? k = p.pools.get? k ∧
        ∀ who, p'.shares.get? (who, k) = p.shares.get? (who, k) :=
  (hp ▸ valid_run calls : p.Valid).withdrawEach (p.balanceOf · key) hperm fun _ _ => Nat.le_refl _

/-- The second of two holders leaves first, with 5 units for 4 of 7 shares; the first takes the 5
that are left, one more than the 4 of which 3 shares were worth. -/
theorem exit_drains_rewarded :
    (rewarded.withdrawEach 1 [(.dev 2, 4), (.dev 1, 3)]).toOption.map Prod.fst = some [5, 5] ∧
      ∃ paid p', rewarded.withdrawEach 1 [(.dev 2, 4), (.dev 1, 3)] = .ok (paid, p') ∧
        (paid.map Word.toNat).sum = 10 ∧ p'.pools.get? 1 = none := by
  have hperm : [(AccountId.dev 2, (4 : Shares)), (.dev 1, 3)].Perm (rewarded.holders 1) := by
    decide +kernel
  obtain ⟨paid, p', h, -, hsum, hpool, -⟩ :=
    exit_drains (rfl : run _ = rewarded) hperm
  have hbalance : (rewarded.pool 1).totalBalance.toNat = 10 := by decide +kernel
  exact ⟨by decide +kernel, paid, p', h, hsum.trans hbalance, hpool⟩

end Stakebook.SharePool
