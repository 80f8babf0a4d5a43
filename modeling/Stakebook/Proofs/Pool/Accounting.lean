import Stakebook.Proofs.Checks
import Stakebook.Proofs.MapSum

/-!
# The accounts of a pool of shares

A `SharePool` keeps one fact in three places: the totals of each pool, the holdings of the accounts
in it, and the balance of all pools together. `held` adds up the holdings in one pool, and `worth`
the balances of all pools.

Headlines:
* **`held_burn`**, **`worth_shrink`**: what burning takes from the holdings of a pool, and what
  shrinking takes from the balances.
* **`quoteDeposit_eq_ok_iff`**, **`quoteWithdraw_eq_ok_iff`**: what an accepted call rests on, by
  the names of `DepositTerms` and `WithdrawalTerms`.
* **`deposit_eq_ok_iff`**, **`withdraw_eq_ok_iff`**, **`transfer_eq_ok_iff`**,
  **`distribute_eq_ok_iff`**: when a call is accepted, and what it leaves.
-/

namespace Stakebook

namespace Pool

theorem isEmpty_iff {q : Pool} : q.isEmpty = true ↔ q.totalShares = 0 ∧ q.totalBalance = 0 := by
  unfold isEmpty
  rw [decide_eq_true_iff]

end Pool

namespace SharePool

variable {κ : Type} [KeyOrder κ]

/-! ## Totals -/

/-- What a pool counts for in the balance of all pools. -/
def balanceIn (_ : κ) (q : Pool) : Nat := q.totalBalance.toNat

/-- The balances of some pools together. -/
def worth (pools : OrdMap κ Pool) : Nat := pools.sum balanceIn

variable {pools : OrdMap κ Pool} {key : κ} {shares : Shares} {amount : Amount}

theorem weight_balanceIn (pools : OrdMap κ Pool) (key : κ) :
    pools.weight balanceIn key = (pools.getD key .empty).totalBalance.toNat :=
  OrdMap.weight_eq_getD Word.toNat_zero

theorem worth_insert (pools : OrdMap κ Pool) (key : κ) (q : Pool) :
    worth (pools.insert key q) + (pools.getD key .empty).totalBalance.toNat =
      worth pools + q.totalBalance.toNat := by
  have h := OrdMap.sum_insert balanceIn pools key q
  rw [weight_balanceIn] at h
  exact h

theorem worth_erase (pools : OrdMap κ Pool) (key : κ) :
    worth (pools.erase key) + (pools.getD key .empty).totalBalance.toNat = worth pools := by
  have h := OrdMap.sum_erase balanceIn pools key
  rw [weight_balanceIn] at h
  exact h

theorem toNat_getD_le_worth (pools : OrdMap κ Pool) (key : κ) :
    (pools.getD key .empty).totalBalance.toNat ≤ worth pools := by
  have := worth_erase pools key
  omega

theorem worth_shrink {q : Pool} (h : pools.get? key = some q) (hle : amount ≤ q.totalBalance) :
    worth (shrink pools key shares amount) + amount.toNat = worth pools := by
  have hsub := Word.toNat_sub_of_le hle
  rw [Word.le_def] at hle
  unfold shrink
  rw [h]
  simp only
  split
  · next hz =>
    have herase := worth_erase pools key
    have hb := (Pool.isEmpty_iff.mp hz).2
    simp only at hb
    rw [hb, Word.toNat_zero] at hsub
    rw [OrdMap.getD_of_some h] at herase
    omega
  · have hinsert := worth_insert pools key ⟨q.totalShares - shares, q.totalBalance - amount⟩
    rw [OrdMap.getD_of_some h] at hinsert
    simp only at hinsert
    omega

variable [DecidableEq κ]

/-- What is left of a stored pool after shares and balance are taken from it. -/
theorem getD_shrink {q : Pool} (h : pools.get? key = some q) (k : κ) :
    (shrink pools key shares amount).getD k .empty =
      if k = key then ⟨q.totalShares - shares, q.totalBalance - amount⟩
      else pools.getD k .empty := by
  unfold shrink
  rw [h]
  simp only
  split
  · next hz =>
    obtain ⟨hs, hb⟩ := Pool.isEmpty_iff.mp hz
    simp only at hs hb
    rw [OrdMap.getD_erase, hs, hb]
    rfl
  · rw [OrdMap.getD_insert]

/-- Each pool that shrinking keeps is one that was there, or the smaller one and not empty. -/
theorem get?_shrink {q r : Pool} {k : κ} (h : pools.get? key = some q)
    (hr : (shrink pools key shares amount).get? k = some r) :
    pools.get? k = some r ∨
      r = ⟨q.totalShares - shares, q.totalBalance - amount⟩ ∧ r.isEmpty = false := by
  unfold shrink at hr
  rw [h] at hr
  simp only at hr
  split at hr
  · rw [OrdMap.get?_erase] at hr
    split at hr
    · cases hr
    · exact .inl hr
  · next hne =>
    rw [OrdMap.get?_insert] at hr
    split at hr
    · cases hr
      exact .inr ⟨rfl, Bool.not_eq_true _ ▸ hne⟩
    · exact .inl hr

/-- **Looking up after shrinking**: one pool is smaller or gone, and all others are as they were. -/
theorem get?_shrink_eq (pools : OrdMap κ Pool) (key : κ) (shares : Shares) (amount : Amount) (k : κ) :
    (shrink pools key shares amount).get? k =
      if k = key then
        (pools.get? key).bind fun q =>
          if Pool.isEmpty ⟨q.totalShares - shares, q.totalBalance - amount⟩ then none
          else some ⟨q.totalShares - shares, q.totalBalance - amount⟩
      else pools.get? k := by
  unfold shrink
  by_cases hk : k = key
  · subst hk
    rw [if_pos rfl]
    cases h : pools.get? k with
    | none => exact h
    | some q =>
      simp only [Option.bind_some]
      split
      · rw [OrdMap.get?_erase, if_pos rfl]
      · rw [OrdMap.get?_insert_self]
  · rw [if_neg hk]
    split
    · rfl
    · simp only
      split
      · rw [OrdMap.get?_erase, if_neg hk]
      · rw [OrdMap.get?_insert, if_neg hk]

/-! ## Holdings -/

/-- What a holding counts for in the pool of `key`. -/
def shareIn (key : κ) (holder : AccountId × κ) (s : Shares) : Nat :=
  if holder.2 = key then s.toNat else 0

/-- The shares that all accounts hold in the pool of `key`. -/
def held (holdings : OrdMap (AccountId × κ) Shares) (key : κ) : Nat := holdings.sum (shareIn key)

variable {holdings : OrdMap (AccountId × κ) Shares} {who : AccountId}

theorem weight_shareIn (holdings : OrdMap (AccountId × κ) Shares) (who : AccountId) (key k : κ) :
    holdings.weight (shareIn k) (who, key) =
      if key = k then (holdings.getD (who, key) 0).toNat else 0 := by
  refine OrdMap.weight_eq_getD ?_
  unfold shareIn
  rw [Word.toNat_zero, ite_self]

/-- What one account holds in a pool is no more than what all hold. -/
theorem toNat_getD_le_held (holdings : OrdMap (AccountId × κ) Shares) (who : AccountId) (key : κ) :
    (holdings.getD (who, key) 0).toNat ≤ held holdings key := by
  have h := OrdMap.weight_le_sum (shareIn key) holdings (who, key)
  rw [weight_shareIn, if_pos rfl] at h
  exact h

theorem held_insert (holdings : OrdMap (AccountId × κ) Shares) (who : AccountId) (key : κ)
    (s : Shares) (k : κ) :
    held (holdings.insert (who, key) s) k +
        (if key = k then (holdings.getD (who, key) 0).toNat else 0) =
      held holdings k + if key = k then s.toNat else 0 := by
  have h := OrdMap.sum_insert (shareIn k) holdings (who, key) s
  rw [weight_shareIn] at h
  exact h

theorem held_erase (holdings : OrdMap (AccountId × κ) Shares) (who : AccountId) (key k : κ) :
    held (holdings.erase (who, key)) k +
        (if key = k then (holdings.getD (who, key) 0).toNat else 0) = held holdings k := by
  have h := OrdMap.sum_erase (shareIn k) holdings (who, key)
  rw [weight_shareIn] at h
  exact h

/-! ### Burning -/

/-- What is left of a holding after some of it is burned. -/
theorem getD_burn (hle : shares ≤ holdings.getD (who, key) 0) (x : AccountId × κ) :
    (burn holdings who key shares).getD x 0 =
      if x = (who, key) then holdings.getD (who, key) 0 - shares else holdings.getD x 0 := by
  unfold burn
  cases h : holdings.get? (who, key) with
  | none =>
    rw [OrdMap.getD_of_none h] at hle ⊢
    simp only
    split
    · next hx =>
      rw [hx, OrdMap.getD_of_none h, Word.eq_iff, Word.toNat_sub_of_le hle, Word.toNat_zero,
        Nat.zero_sub]
    · rfl
  | some s =>
    rw [OrdMap.getD_of_some h]
    simp only
    split
    · next hz =>
      rw [OrdMap.getD_erase, hz]
    · rw [OrdMap.getD_insert]

/-- **Looking up after burning**: one holding is smaller or gone, all others are as they were. -/
theorem get?_burn (holdings : OrdMap (AccountId × κ) Shares) (who : AccountId) (key : κ)
    (shares : Shares) (x : AccountId × κ) :
    (burn holdings who key shares).get? x =
      if x = (who, key) then
        (holdings.get? (who, key)).bind fun s => if s - shares = 0 then none else some (s - shares)
      else holdings.get? x := by
  unfold burn
  by_cases hx : x = (who, key)
  · subst hx
    rw [if_pos rfl]
    cases h : holdings.get? (who, key) with
    | none => exact h
    | some s =>
      simp only [Option.bind_some]
      split
      · rw [OrdMap.get?_erase, if_pos rfl]
      · rw [OrdMap.get?_insert_self]
  · rw [if_neg hx]
    split
    · rfl
    · simp only
      split
      · rw [OrdMap.get?_erase, if_neg hx]
      · rw [OrdMap.get?_insert, if_neg hx]

/-- Burning takes the shares from what is held in the pool, and from no other. -/
theorem held_burn (hle : shares ≤ holdings.getD (who, key) 0) (k : κ) :
    held (burn holdings who key shares) k + (if key = k then shares.toNat else 0) =
      held holdings k := by
  have hsub := Word.toNat_sub_of_le hle
  rw [Word.le_def] at hle
  unfold burn
  cases h : holdings.get? (who, key) with
  | none =>
    rw [OrdMap.getD_of_none h, Word.toNat_zero] at hle
    simp only
    split <;> omega
  | some s =>
    rw [OrdMap.getD_of_some h] at hle hsub
    simp only
    split
    · next hz =>
      have herase := held_erase holdings who key k
      rw [OrdMap.getD_of_some h] at herase
      rw [hz, Word.toNat_zero] at hsub
      by_cases hk : key = k
      · rw [if_pos hk] at herase ⊢
        omega
      · rw [if_neg hk] at herase ⊢
        exact herase
    · have hinsert := held_insert holdings who key (s - shares) k
      rw [OrdMap.getD_of_some h] at hinsert
      by_cases hk : key = k
      · rw [if_pos hk, if_pos hk] at hinsert
        rw [if_pos hk]
        omega
      · rw [if_neg hk, if_neg hk] at hinsert
        rw [if_neg hk]
        exact hinsert

/-- Burning keeps no holding of zero. -/
theorem ne_zero_of_get?_burn (hpos : ∀ x s, holdings.get? x = some s → s ≠ 0) {x : AccountId × κ}
    {s : Shares} (h : (burn holdings who key shares).get? x = some s) : s ≠ 0 := by
  unfold burn at h
  split at h
  · exact hpos x s h
  · next v hv =>
    simp only at h
    split at h
    · rw [OrdMap.get?_erase] at h
      split at h
      · cases h
      · exact hpos x s h
    · next hrest =>
      rw [OrdMap.get?_insert] at h
      split at h
      · cases h
        exact hrest
      · exact hpos x s h

/-! ## What an accepted call rests on, and what it leaves -/

section calls

omit [DecidableEq κ]

variable {p p' : SharePool κ} {minimum : Amount}

/-- A pool that is not stored has neither shares nor balance. -/
theorem pool_of_none (h : p.pools.get? key = none) : p.pool key = .empty :=
  OrdMap.getD_of_none h _

/-- A pool that has shares is stored. -/
theorem get?_of_ne_zero (h : (p.pool key).totalShares ≠ 0) :
    p.pools.get? key = some (p.pool key) := by
  cases hq : p.pools.get? key with
  | none =>
    rw [pool_of_none hq] at h
    exact absurd rfl h
  | some q =>
    unfold pool
    rw [OrdMap.getD_of_some hq]

/-- The terms of a deposit: a price, at least one share, and room in every total. -/
structure DepositTerms (p : SharePool κ) (key : κ) (amount : Amount) (shares : Shares) : Prop where
  amount_ne_zero : amount ≠ 0
  priced : sharesFor amount (p.pool key).totalShares (p.pool key).totalBalance = .ok shares
  shares_ne_zero : shares ≠ 0
  shares_fit : (p.pool key).totalShares.toNat + shares.toNat < 2 ^ 128
  balance_fits : (p.pool key).totalBalance.toNat + amount.toNat < 2 ^ 128
  worth_fits : p.totalBalance.toNat + amount.toNat < 2 ^ 128

/-- The terms of a withdrawal: some shares that the account has, at their floored price. -/
structure WithdrawalTerms (p : SharePool κ) (who : AccountId) (key : κ) (shares : Shares)
    (amount : Amount) : Prop where
  shares_ne_zero : shares ≠ 0
  shares_le : shares ≤ p.sharesOf who key
  priced : amount.toNat =
    shares.toNat * (p.pool key).totalBalance.toNat / (p.pool key).totalShares.toNat

theorem quoteDeposit_eq_ok_iff :
    p.quoteDeposit key amount minimum = .ok shares ↔
      minimum ≤ amount ∧ DepositTerms p key amount shares := by
  unfold quoteDeposit
  simp only [guard_eq_ok_iff, bind_eq_ok_iff, Word.isNone_add?_iff, not_or, Nat.not_le, Word.not_lt,
    Except.ok.injEq]
  constructor
  · rintro ⟨hamount, hminimum, _, hpriced, hs, ⟨h1, h2, h3⟩, rfl⟩
    exact ⟨hminimum, hamount, hpriced, hs, h1, h2, h3⟩
  · rintro ⟨hminimum, hamount, hpriced, hs, h1, h2, h3⟩
    exact ⟨hamount, hminimum, shares, hpriced, hs, ⟨h1, h2, h3⟩, rfl⟩

theorem quoteWithdraw_eq_ok_iff :
    p.quoteWithdraw who key shares = .ok amount ↔ WithdrawalTerms p who key shares amount := by
  unfold quoteWithdraw
  rw [guard_eq_ok_iff, not_or, Word.not_lt, balanceFor_eq_ok_iff]
  constructor
  · rintro ⟨⟨hs, hle⟩, hpriced⟩
    exact ⟨hs, hle, hpriced⟩
  · rintro ⟨hs, hle, hpriced⟩
    exact ⟨⟨hs, hle⟩, hpriced⟩

theorem deposit_eq_ok_iff :
    p.deposit who key amount minimum = .ok (shares, p') ↔
      p.quoteDeposit key amount minimum = .ok shares ∧
        p' = { pools := p.pools.insert key
                 ⟨(p.pool key).totalShares + shares, (p.pool key).totalBalance + amount⟩
               shares := p.shares.insert (who, key) (p.sharesOf who key + shares)
               totalBalance := p.totalBalance + amount } := by
  unfold deposit
  exact bind_pair_eq_ok_iff

theorem withdraw_eq_ok_iff :
    p.withdraw who key shares = .ok (amount, p') ↔
      p.quoteWithdraw who key shares = .ok amount ∧
        p' = { pools := shrink p.pools key shares amount
               shares := burn p.shares who key shares
               totalBalance := p.totalBalance - amount } := by
  unfold withdraw
  exact bind_pair_eq_ok_iff

theorem transfer_eq_ok_iff {target : AccountId} :
    p.transfer who key target shares minimum = .ok p' ↔
      (∃ value, p.quoteWithdraw who key shares = .ok value ∧ minimum ≤ value) ∧
        p' = { p with
          shares := (burn p.shares who key shares).insert (target, key)
            ((burn p.shares who key shares).getD (target, key) 0 + shares) } := by
  unfold transfer checkTransfer
  simp only [bind_eq_ok_iff, pure_eq_ok_iff, guard_eq_ok_iff, Word.not_lt, and_true]
  constructor
  · rintro ⟨_, hvalue, rfl⟩
    exact ⟨hvalue, rfl⟩
  · rintro ⟨hvalue, rfl⟩
    exact ⟨(), hvalue, rfl⟩

theorem distribute_eq_ok_iff :
    p.distribute key amount = .ok p' ↔
      (amount ≠ 0 ∧ (p.pool key).totalShares ≠ 0 ∧
        (p.pool key).totalBalance.toNat + amount.toNat < 2 ^ 128 ∧
        p.totalBalance.toNat + amount.toNat < 2 ^ 128) ∧
        p' = { p with
          pools := p.pools.insert key
            ⟨(p.pool key).totalShares, (p.pool key).totalBalance + amount⟩
          totalBalance := p.totalBalance + amount } := by
  unfold distribute
  simp only [guard_eq_ok_iff, Word.isNone_add?_iff, not_or, Nat.not_le, Except.ok.injEq]
  constructor
  · rintro ⟨hamount, hshares, ⟨h1, h2⟩, rfl⟩
    exact ⟨⟨hamount, hshares, h1, h2⟩, rfl⟩
  · rintro ⟨⟨hamount, hshares, h1, h2⟩, rfl⟩
    exact ⟨hamount, hshares, ⟨h1, h2⟩, rfl⟩

end calls

end SharePool

end Stakebook
