import Stakebook.Proofs.Pool.Accounting

/-!
# Pools can pay their holders

`Valid` says that the three places in which a `SharePool` keeps its accounts agree: the holdings of
the accounts, the totals of the pools, and the balance of all pools together. Every accepted call
keeps them in agreement, since no sum of it goes round and no difference of it goes below zero:
whoever has shares has no more than there are, and they redeem for no more than there is.

Headlines:
* **`Valid.move`**, **`valid_run`**: one accepted call, and every run of calls from no pools.
* **`Valid.exists_quoteWithdraw`**: whatever shares an account has have a price.
* **`Valid.redeemable_bounds`**: what all holders of a pool can redeem is at most its balance, and
  short of it by less than one unit for each holder.
* **`run_solvent`**: both, spelled out for the pools after any run.
-/

namespace Stakebook.SharePool

variable {κ : Type} [KeyOrder κ] [DecidableEq κ]

/-! ## The three places agree -/

/-- The holdings add up to the shares of their pool, the balances of the pools to the balance of
all, and neither an empty holding nor an empty pool is kept. -/
structure Valid (p : SharePool κ) : Prop where
  held_eq : ∀ key, held p.shares key = (p.pool key).totalShares.toNat
  holding_ne_zero : ∀ holder s, p.shares.get? holder = some s → s ≠ 0
  totalShares_ne_zero : ∀ key q, p.pools.get? key = some q → q.totalShares ≠ 0
  worth_eq : worth p.pools = p.totalBalance.toNat

theorem valid_empty : Valid (empty : SharePool κ) where
  held_eq _ := Word.toNat_zero.symm
  holding_ne_zero _ _ h := by cases h
  totalShares_ne_zero _ _ h := by cases h
  worth_eq := Word.toNat_zero.symm

namespace Valid

variable {p p' : SharePool κ} {who : AccountId} {key : κ} {shares : Shares}
  {amount minimum : Amount}

/-- An account has no more shares of a pool than there are. -/
theorem sharesOf_le (hv : p.Valid) (who : AccountId) (key : κ) :
    (p.sharesOf who key).toNat ≤ (p.pool key).totalShares.toNat :=
  hv.held_eq key ▸ toNat_getD_le_held p.shares who key

/-- So no part of what an account has is more than there are. -/
theorem le_totalShares (hv : p.Valid) (h : shares ≤ p.sharesOf who key) :
    shares ≤ (p.pool key).totalShares :=
  Nat.le_trans h (hv.sharesOf_le who key)

/-- A pool has no more balance than all pools. -/
theorem balance_le (hv : p.Valid) (key : κ) :
    (p.pool key).totalBalance.toNat ≤ p.totalBalance.toNat :=
  hv.worth_eq ▸ toNat_getD_le_worth p.pools key

/-- A pool without shares has no balance. -/
theorem balance_eq_zero (hv : p.Valid) (h : (p.pool key).totalShares = 0) :
    (p.pool key).totalBalance = 0 := by
  cases hq : p.pools.get? key with
  | none =>
    rw [pool_of_none hq]
    rfl
  | some q =>
    unfold pool at h
    rw [OrdMap.getD_of_some hq] at h
    exact absurd h (hv.totalShares_ne_zero key q hq)

/-- Shares that an account has belong to a pool that has shares. -/
theorem totalShares_pos (hv : p.Valid) (h : shares ≠ 0) (hle : shares ≤ p.sharesOf who key) :
    (p.pool key).totalShares ≠ 0 := by
  have htotal := hv.le_totalShares hle
  rw [Word.ne_zero_iff] at h ⊢
  rw [Word.le_def] at htotal
  omega

/-- No shares redeem for more than their pool has. -/
theorem amount_le (hv : p.Valid) (h : WithdrawalTerms p who key shares amount) :
    amount ≤ (p.pool key).totalBalance := by
  rw [Word.le_def, h.priced]
  exact Nat.div_le_of_le_mul (Nat.mul_le_mul_right _ (hv.le_totalShares h.shares_le))

/-- Who redeems all shares of a pool receives all its balance. -/
theorem amount_eq_of_all (hv : p.Valid) (h : WithdrawalTerms p who key shares amount)
    (hall : shares = (p.pool key).totalShares) : amount = (p.pool key).totalBalance := by
  have hpos := Word.ne_zero_iff.mp (hv.totalShares_pos h.shares_ne_zero h.shares_le)
  rw [Word.eq_iff, h.priced, hall, Nat.mul_div_cancel_left _ hpos]

/-! ### Every accepted call keeps them in agreement -/

omit [DecidableEq κ] in
/-- Where a pool and the balance of all pools rise by the same amount, they stay in agreement. -/
theorem worth_raised (heq : worth p.pools = p.totalBalance.toNat)
    (hpool : (p.pool key).totalBalance.toNat + amount.toNat < 2 ^ 128)
    (hall : p.totalBalance.toNat + amount.toNat < 2 ^ 128) :
    worth (p.pools.insert key ⟨shares, (p.pool key).totalBalance + amount⟩) =
      (p.totalBalance + amount).toNat := by
  have hinsert : worth (p.pools.insert key ⟨shares, (p.pool key).totalBalance + amount⟩) +
      (p.pool key).totalBalance.toNat =
    worth p.pools + ((p.pool key).totalBalance + amount).toNat := worth_insert ..
  rw [Word.toNat_add_of_lt hpool] at hinsert
  rw [Word.toNat_add_of_lt hall]
  omega

theorem deposit (hv : p.Valid) (h : p.deposit who key amount minimum = .ok (shares, p')) :
    p'.Valid := by
  obtain ⟨hq, rfl⟩ := deposit_eq_ok_iff.mp h
  obtain ⟨-, ht⟩ := quoteDeposit_eq_ok_iff.mp hq
  have hle := hv.sharesOf_le who key
  have hsum : (p.sharesOf who key + shares).toNat = (p.sharesOf who key).toNat + shares.toNat :=
    Word.toNat_add_of_lt (by have := ht.shares_fit; omega)
  have htotal : ((p.pool key).totalShares + shares).toNat =
      (p.pool key).totalShares.toNat + shares.toNat := Word.toNat_add_of_lt ht.shares_fit
  have hpos := Word.ne_zero_iff.mp ht.shares_ne_zero
  refine ⟨fun k => ?_, fun holder s hs => ?_, fun k q hq => ?_, ?_⟩
  · have hheld := hv.held_eq k
    have hinsert : held (p.shares.insert (who, key) (p.sharesOf who key + shares)) k +
        (if key = k then (p.sharesOf who key).toNat else 0) =
      held p.shares k + if key = k then (p.sharesOf who key + shares).toNat else 0 :=
      held_insert ..
    show held (p.shares.insert _ _) k = ((p.pools.insert key _).getD k .empty).totalShares.toNat
    rw [OrdMap.getD_insert]
    by_cases hk : key = k
    · subst hk
      rw [if_pos rfl, if_pos rfl] at hinsert
      rw [if_pos rfl]
      simp only
      omega
    · rw [if_neg hk, if_neg hk] at hinsert
      rw [if_neg (Ne.symm hk)]
      exact hinsert.trans hheld
  · simp only [OrdMap.get?_insert] at hs
    split at hs
    · cases hs
      rw [Word.ne_zero_iff]
      omega
    · exact hv.holding_ne_zero holder s hs
  · simp only [OrdMap.get?_insert] at hq
    split at hq
    · cases hq
      rw [Word.ne_zero_iff]
      show 0 < ((p.pool key).totalShares + shares).toNat
      omega
    · exact hv.totalShares_ne_zero k q hq
  · exact worth_raised hv.worth_eq ht.balance_fits ht.worth_fits

theorem withdraw (hv : p.Valid) (h : p.withdraw who key shares = .ok (amount, p')) :
    p'.Valid := by
  obtain ⟨hq, rfl⟩ := withdraw_eq_ok_iff.mp h
  have ht := quoteWithdraw_eq_ok_iff.mp hq
  have hstored := get?_of_ne_zero (hv.totalShares_pos ht.shares_ne_zero ht.shares_le)
  have hamount := hv.amount_le ht
  have hshares := hv.le_totalShares ht.shares_le
  refine ⟨fun k => ?_, fun holder s hs => ?_, fun k q hq => ?_, ?_⟩
  · have hheld := hv.held_eq k
    have hburn := held_burn ht.shares_le k
    have hsub := Word.toNat_sub_of_le hshares
    show held (burn p.shares who key shares) k =
      ((shrink p.pools key shares amount).getD k .empty).totalShares.toNat
    rw [getD_shrink hstored]
    by_cases hk : key = k
    · subst hk
      rw [if_pos rfl] at hburn ⊢
      simp only
      omega
    · rw [if_neg hk] at hburn
      rw [if_neg (Ne.symm hk)]
      exact hburn.trans hheld
  · exact ne_zero_of_get?_burn hv.holding_ne_zero hs
  · rcases get?_shrink hstored hq with hq | ⟨rfl, hne⟩
    · exact hv.totalShares_ne_zero k q hq
    · -- whoever burns all shares takes all balance, so what is kept has shares
      intro hz
      have hall := hv.amount_eq_of_all ht (Word.eq_of_sub_eq_zero hshares hz)
      have hempty : Pool.isEmpty ⟨(p.pool key).totalShares - shares,
          (p.pool key).totalBalance - amount⟩ = true :=
        Pool.isEmpty_iff.mpr ⟨hz, hall ▸ Word.sub_self _⟩
      rw [hempty] at hne
      cases hne
  · have hworth : worth (shrink p.pools key shares amount) + amount.toNat = worth p.pools :=
      worth_shrink hstored hamount
    have hsub := Word.toNat_sub_of_le (Nat.le_trans hamount (hv.balance_le key))
    have := hv.worth_eq
    simp only
    omega

/-- What a target has after a transfer are shares of the same pool, so the sum stays in range. -/
theorem transferred_fits (hv : p.Valid) (hle : shares ≤ p.sharesOf who key) (target : AccountId) :
    ((burn p.shares who key shares).getD (target, key) 0).toNat + shares.toNat < 2 ^ 128 := by
  have htarget := toNat_getD_le_held (burn p.shares who key shares) target key
  have hburn := held_burn hle key
  have := hv.held_eq key
  have := (p.pool key).totalShares.toNat_lt
  rw [if_pos rfl] at hburn
  omega

theorem transfer {target : AccountId} (hv : p.Valid)
    (h : p.transfer who key target shares minimum = .ok p') : p'.Valid := by
  obtain ⟨⟨value, hq, -⟩, rfl⟩ := transfer_eq_ok_iff.mp h
  have ht := quoteWithdraw_eq_ok_iff.mp hq
  have hpos := Word.ne_zero_iff.mp ht.shares_ne_zero
  have hburn := held_burn ht.shares_le
  have hsum : ((burn p.shares who key shares).getD (target, key) 0 + shares).toNat =
      ((burn p.shares who key shares).getD (target, key) 0).toNat + shares.toNat :=
    Word.toNat_add_of_lt (hv.transferred_fits ht.shares_le target)
  refine ⟨fun k => ?_, fun holder s hs => ?_, hv.totalShares_ne_zero, hv.worth_eq⟩
  · have hheld := hv.held_eq k
    have hkey := hburn k
    have hinsert := held_insert (burn p.shares who key shares) target key
      ((burn p.shares who key shares).getD (target, key) 0 + shares) k
    show held ((burn p.shares who key shares).insert _ _) k = (p.pool k).totalShares.toNat
    by_cases hk : key = k
    · rw [if_pos hk, if_pos hk, hk] at hinsert
      rw [if_pos hk] at hkey
      rw [hk] at hkey hsum ⊢
      omega
    · rw [if_neg hk, if_neg hk] at hinsert
      rw [if_neg hk] at hkey
      exact hinsert.trans (hkey.trans hheld)
  · simp only [OrdMap.get?_insert] at hs
    split at hs
    · cases hs
      rw [Word.ne_zero_iff]
      omega
    · exact ne_zero_of_get?_burn hv.holding_ne_zero hs

theorem distribute (hv : p.Valid) (h : p.distribute key amount = .ok p') : p'.Valid := by
  obtain ⟨⟨-, hshares, hpool, hall⟩, rfl⟩ := distribute_eq_ok_iff.mp h
  refine ⟨fun k => ?_, hv.holding_ne_zero, fun k q hq => ?_, ?_⟩
  · show held p.shares k = ((p.pools.insert key _).getD k .empty).totalShares.toNat
    rw [OrdMap.getD_insert, hv.held_eq k]
    split
    · next hk => rw [hk]
    · rfl
  · simp only [OrdMap.get?_insert] at hq
    split at hq
    · cases hq
      exact hshares
    · exact hv.totalShares_ne_zero k q hq
  · exact worth_raised hv.worth_eq hpool hall

/-! ### What they do to the balances together -/

/-- A deposit adds its amount to the balances of the pools. -/
theorem worth_deposit (hv : p.Valid) (h : p.deposit who key amount minimum = .ok (shares, p')) :
    worth p'.pools = worth p.pools + amount.toNat := by
  rw [(hv.deposit h).worth_eq, hv.worth_eq]
  obtain ⟨hq, rfl⟩ := deposit_eq_ok_iff.mp h
  exact Word.toNat_add_of_lt (quoteDeposit_eq_ok_iff.mp hq).2.worth_fits

/-- A withdrawal takes what it pays from the balances of the pools. -/
theorem worth_withdraw (hv : p.Valid) (h : p.withdraw who key shares = .ok (amount, p')) :
    worth p'.pools + amount.toNat = worth p.pools := by
  rw [(hv.withdraw h).worth_eq, hv.worth_eq]
  obtain ⟨hq, rfl⟩ := withdraw_eq_ok_iff.mp h
  have hle := Nat.le_trans (hv.amount_le (quoteWithdraw_eq_ok_iff.mp hq)) (hv.balance_le key)
  simp only
  rw [Word.toNat_sub_of_le hle, Nat.sub_add_cancel hle]

/-- A reward adds its amount to the balances of the pools. -/
theorem worth_distribute (hv : p.Valid) (h : p.distribute key amount = .ok p') :
    worth p'.pools = worth p.pools + amount.toNat := by
  rw [(hv.distribute h).worth_eq, hv.worth_eq]
  obtain ⟨⟨-, -, -, hall⟩, rfl⟩ := distribute_eq_ok_iff.mp h
  exact Word.toNat_add_of_lt hall

end Valid

/-! ## Runs -/

/-- What an accepted call makes of the pools. -/
inductive Move (p : SharePool κ) : SharePool κ → Prop
  | deposit {who : AccountId} {key : κ} {amount minimum : Amount} {shares : Shares}
      {p' : SharePool κ} (h : p.deposit who key amount minimum = .ok (shares, p')) : Move p p'
  | withdraw {who : AccountId} {key : κ} {shares : Shares} {amount : Amount} {p' : SharePool κ}
      (h : p.withdraw who key shares = .ok (amount, p')) : Move p p'
  | transfer {source target : AccountId} {key : κ} {shares : Shares} {minimum : Amount}
      {p' : SharePool κ} (h : p.transfer source key target shares minimum = .ok p') : Move p p'
  | distribute {key : κ} {amount : Amount} {p' : SharePool κ}
      (h : p.distribute key amount = .ok p') : Move p p'

/-- **Every accepted call keeps holdings, pools and the balance of all in agreement.** -/
theorem Valid.move {p p' : SharePool κ} (hv : p.Valid) (h : Move p p') : p'.Valid := by
  cases h with
  | deposit h => exact hv.deposit h
  | withdraw h => exact hv.withdraw h
  | transfer h => exact hv.transfer h
  | distribute h => exact hv.distribute h

/-- A call on the pools. -/
inductive Call (κ : Type)
  | deposit (who : AccountId) (key : κ) (amount minimum : Amount)
  | withdraw (who : AccountId) (key : κ) (shares : Shares)
  | transfer (source : AccountId) (key : κ) (target : AccountId) (shares : Shares)
      (minimum : Amount)
  | distribute (key : κ) (amount : Amount)

/-- The pools after a call; a refused call leaves them as they are. -/
def Call.apply (p : SharePool κ) : Call κ → SharePool κ
  | .deposit who key amount minimum =>
    match p.deposit who key amount minimum with
    | .ok (_, p') => p'
    | .error _ => p
  | .withdraw who key shares =>
    match p.withdraw who key shares with
    | .ok (_, p') => p'
    | .error _ => p
  | .transfer source key target shares minimum =>
    match p.transfer source key target shares minimum with
    | .ok p' => p'
    | .error _ => p
  | .distribute key amount =>
    match p.distribute key amount with
    | .ok p' => p'
    | .error _ => p

/-- The pools after some calls on no pools. -/
def run (calls : List (Call κ)) : SharePool κ := calls.foldl Call.apply empty

omit [DecidableEq κ] in
theorem Call.apply_eq_or_move (p : SharePool κ) (c : Call κ) :
    c.apply p = p ∨ Move p (c.apply p) := by
  unfold Call.apply
  cases c with
  | deposit who key amount minimum =>
    simp only
    split
    · next h => exact .inr (.deposit h)
    · exact .inl rfl
  | withdraw who key shares =>
    simp only
    split
    · next h => exact .inr (.withdraw h)
    · exact .inl rfl
  | transfer source key target shares minimum =>
    simp only
    split
    · next h => exact .inr (.transfer h)
    · exact .inl rfl
  | distribute key amount =>
    simp only
    split
    · next h => exact .inr (.distribute h)
    · exact .inl rfl

theorem Valid.apply {p : SharePool κ} (hv : p.Valid) (c : Call κ) : (c.apply p).Valid := by
  rcases c.apply_eq_or_move p with h | h
  · rw [h]
    exact hv
  · exact hv.move h

theorem valid_foldl {p : SharePool κ} (hv : p.Valid) (calls : List (Call κ)) :
    (calls.foldl Call.apply p).Valid := by
  induction calls generalizing p with
  | nil => exact hv
  | cons c calls ih => exact ih (hv.apply c)

/-- **The three places agree after every run.** -/
theorem valid_run (calls : List (Call κ)) : (run calls).Valid := valid_foldl valid_empty calls

/-! ## What the holders can redeem -/

theorem mem_holders {p : SharePool κ} {key : κ} {e : AccountId × Shares} :
    e ∈ p.holders key ↔ p.shares.get? (e.1, key) = some e.2 := by
  unfold holders
  rw [← OrdMap.mem_toList_iff, List.mem_map]
  constructor
  · rintro ⟨⟨⟨who, k⟩, s⟩, he, rfl⟩
    rw [List.mem_filter, decide_eq_true_iff] at he
    obtain ⟨hmem, rfl⟩ := he
    exact hmem
  · intro h
    exact ⟨((e.1, key), e.2), List.mem_filter.mpr ⟨h, decide_eq_true rfl⟩, rfl⟩

/-- The holders of a pool hold what is held in it. -/
theorem sum_holders (p : SharePool κ) (key : κ) :
    ((p.holders key).map fun e => e.2.toNat).sum = held p.shares key := by
  unfold holders held OrdMap.sum
  induction p.shares.toList with
  | nil => rfl
  | cons e l ih =>
    rw [List.map_cons, List.sum_cons, ← ih, List.filter_cons]
    unfold shareIn
    by_cases hk : e.1.2 = key
    · rw [if_pos hk, if_pos (decide_eq_true hk)]
      rfl
    · rw [if_neg hk, if_neg (by simpa using hk), Nat.zero_add]

/-- Where holdings agree with the totals, whatever an account has can be redeemed: what it is worth
is part of the pool, and so in range. -/
theorem Valid.exists_balanceFor {p : SharePool κ} (hv : p.Valid) {who : AccountId} {key : κ}
    {shares : Shares} (h : shares ≤ p.sharesOf who key) :
    ∃ balance, balanceFor shares (p.pool key).totalShares (p.pool key).totalBalance =
      .ok balance := by
  have hle := Nat.div_le_of_le_mul
    (Nat.mul_le_mul_right (p.pool key).totalBalance.toNat (hv.le_totalShares h))
  have hlt := Nat.lt_of_le_of_lt hle (p.pool key).totalBalance.toNat_lt
  exact ⟨⟨_, hlt⟩, balanceFor_eq_ok_iff.mpr rfl⟩

/-- **Whatever shares an account has have a price.** -/
theorem Valid.exists_quoteWithdraw {p : SharePool κ} (hv : p.Valid) {who : AccountId} {key : κ}
    {shares : Shares} (hne : shares ≠ 0) (hle : shares ≤ p.sharesOf who key) :
    ∃ amount, p.quoteWithdraw who key shares = .ok amount := by
  obtain ⟨amount, hamount⟩ := hv.exists_balanceFor hle
  exact ⟨amount, quoteWithdraw_eq_ok_iff.mpr ⟨hne, hle, balanceFor_eq_ok_iff.mp hamount⟩⟩

/-- Where holdings agree with the totals, a balance is the floored part of the pool. -/
theorem Valid.toNat_balanceOf {p : SharePool κ} (hv : p.Valid) (who : AccountId) (key : κ) :
    (p.balanceOf who key).toNat =
      (p.sharesOf who key).toNat * (p.pool key).totalBalance.toNat /
        (p.pool key).totalShares.toNat := by
  unfold balanceOf
  simp only
  split
  · next hz => rw [hz, Word.toNat_zero, Nat.zero_mul, Nat.zero_div]
  · obtain ⟨balance, hbalance⟩ := hv.exists_balanceFor (Nat.le_refl (p.sharesOf who key).toNat)
    rw [hbalance]
    exact balanceFor_eq_ok_iff.mp hbalance

/-- Floored parts add up to no more than the whole. -/
theorem sum_floor_mul_le (b s : Nat) (l : List Nat) :
    (l.map fun n => n * b / s).sum * s ≤ l.sum * b := by
  induction l with
  | nil => simp
  | cons n l ih =>
    have := Nat.div_mul_le_self (n * b) s
    rw [List.map_cons, List.sum_cons, List.sum_cons, Nat.add_mul, Nat.add_mul]
    omega

/-- Floored parts fall short of the whole by less than one unit each. -/
theorem le_sum_floor_mul (b : Nat) {s : Nat} (hs : 0 < s) (l : List Nat) :
    l.sum * b + l.length ≤ ((l.map fun n => n * b / s).sum + l.length) * s := by
  induction l with
  | nil => simp
  | cons n l ih =>
    have hn : n * b < (n * b / s + 1) * s := by
      rw [Nat.mul_comm _ s]
      exact Nat.lt_mul_div_succ _ hs
    have hsplit : n * b / s + (l.map fun n => n * b / s).sum + (l.length + 1) =
        n * b / s + 1 + ((l.map fun n => n * b / s).sum + l.length) := by omega
    rw [List.map_cons, List.sum_cons, List.sum_cons, List.length_cons, hsplit, Nat.add_mul,
      Nat.add_mul _ _ s]
    omega

/-- What the holders of a pool can redeem together. -/
def redeemable (p : SharePool κ) (key : κ) : Nat :=
  ((p.holders key).map fun e => (p.balanceOf e.1 key).toNat).sum

theorem Valid.redeemable_eq {p : SharePool κ} (hv : p.Valid) (key : κ) :
    p.redeemable key =
      (((p.holders key).map fun e => e.2.toNat).map fun n =>
        n * (p.pool key).totalBalance.toNat / (p.pool key).totalShares.toNat).sum := by
  unfold redeemable
  rw [List.map_map]
  congr 1
  refine List.map_congr_left fun e he => ?_
  have hs : p.sharesOf e.1 key = e.2 := OrdMap.getD_of_some (mem_holders.mp he) 0
  rw [hv.toNat_balanceOf, hs]
  rfl

/-- A pool with a holder has shares. -/
theorem Valid.totalShares_pos_of_holder {p : SharePool κ} (hv : p.Valid) {key : κ}
    (h : 0 < (p.holders key).length) : 0 < (p.pool key).totalShares.toNat := by
  obtain ⟨e, he⟩ := List.exists_mem_of_length_pos h
  have hstored := mem_holders.mp he
  have hpos := Word.ne_zero_iff.mp (hv.holding_ne_zero _ _ hstored)
  have hle := hv.sharesOf_le e.1 key
  unfold sharesOf at hle
  rw [OrdMap.getD_of_some hstored] at hle
  omega

/-- **A pool can pay its holders**, and what it keeps back is less than one unit for each. -/
theorem Valid.redeemable_bounds {p : SharePool κ} (hv : p.Valid) {key : κ}
    (h : 0 < (p.holders key).length) :
    p.redeemable key ≤ (p.pool key).totalBalance.toNat ∧
      (p.pool key).totalBalance.toNat < p.redeemable key + (p.holders key).length := by
  have hpos := hv.totalShares_pos_of_holder h
  have hsum : ((p.holders key).map fun e => e.2.toNat).sum = (p.pool key).totalShares.toNat :=
    (sum_holders p key).trans (hv.held_eq key)
  have hle := sum_floor_mul_le (p.pool key).totalBalance.toNat (p.pool key).totalShares.toNat
    ((p.holders key).map fun e => e.2.toNat)
  have hge := le_sum_floor_mul (p.pool key).totalBalance.toNat hpos
    ((p.holders key).map fun e => e.2.toNat)
  rw [← hv.redeemable_eq, hsum] at hle hge
  rw [List.length_map] at hge
  constructor
  · rw [Nat.mul_comm] at hle
    exact Nat.le_of_mul_le_mul_left hle hpos
  · rw [Nat.mul_comm _ (p.pool key).totalBalance.toNat] at hge
    exact Nat.lt_of_mul_lt_mul_right (Nat.lt_of_lt_of_le (Nat.lt_add_of_pos_right h) hge)

/-- **The accounts of the pools after every run**: the holdings in a pool add up to its shares, only
real holdings in stored pools and only pools with shares are kept, the balances add up, and each
pool can pay all its holders, keeping back less than one unit for each. -/
theorem run_solvent (calls : List (Call κ)) :
    (∀ key, (((run calls).holders key).map fun e => e.2.toNat).sum =
      ((run calls).pool key).totalShares.toNat) ∧
    (∀ who key s, (run calls).shares.get? (who, key) = some s →
      s ≠ 0 ∧ ∃ q, (run calls).pools.get? key = some q) ∧
    (∀ key q, (run calls).pools.get? key = some q → 0 < q.totalShares.toNat) ∧
    worth (run calls).pools = (run calls).totalBalance.toNat ∧
    ∀ key, 0 < ((run calls).holders key).length →
      (run calls).redeemable key ≤ ((run calls).pool key).totalBalance.toNat ∧
      ((run calls).pool key).totalBalance.toNat <
        (run calls).redeemable key + ((run calls).holders key).length := by
  have hv := valid_run calls
  refine ⟨fun key => (sum_holders _ key).trans (hv.held_eq key), fun who key s hs => ?_,
    fun key q hq => Word.ne_zero_iff.mp (hv.totalShares_ne_zero key q hq), hv.worth_eq,
    fun key h => hv.redeemable_bounds h⟩
  have hne := hv.holding_ne_zero _ s hs
  have hle : s ≤ (run calls).sharesOf who key := by
    unfold sharesOf
    rw [OrdMap.getD_of_some hs]
    exact Nat.le_refl _
  exact ⟨hne, _, get?_of_ne_zero (hv.totalShares_pos hne hle)⟩

/-- Two holders of a pool after a reward: 3 and 4 of 7 shares redeem for 4 and 5 of 10 units. -/
def rewarded : SharePool SubnetId :=
  run [.deposit (.dev 1) 1 3 0, .deposit (.dev 2) 1 4 0, .distribute 1 3]

theorem run_solvent_rewarded :
    0 < (rewarded.holders 1).length ∧ rewarded.redeemable 1 = 9 ∧
      rewarded.redeemable 1 ≤ (rewarded.pool 1).totalBalance.toNat ∧
      (rewarded.pool 1).totalBalance.toNat < rewarded.redeemable 1 + (rewarded.holders 1).length :=
  ⟨by decide, by decide,
    (run_solvent [.deposit (.dev 1) 1 3 0, .deposit (.dev 2) 1 4 0, .distribute 1 3]).2.2.2.2 1
      (by decide)⟩

end Stakebook.SharePool
