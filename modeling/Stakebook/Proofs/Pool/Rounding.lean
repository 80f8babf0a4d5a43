import Stakebook.Proofs.Pool.Backing
import Stakebook.Proofs.Pool.Exit

/-!
# Rounding never pays

Every conversion between shares and units rounds down, and the dust stays in the pool. It raises the
price for whoever comes next, so the later pieces of a withdrawal may be paid more than their part
of the first price. What all pieces are paid together is bounded by the price that they leave: since
it has not fallen, they have taken no more than their shares are worth.

Headlines:
* **`Redeemed.units_mul_le`**, **`Issued.shares_mul_le`**: what is exchanged without lowering the
  price is worth no more than what it is exchanged for.
* **`Valid.redeemed_withdrawEach`**, **`Valid.issued_depositEach`**: chains of withdrawals and of
  deposits are such exchanges.
* **`splitting_never_pays`**: cutting a withdrawal or a deposit into pieces gains nothing.
* **`round_trip_bounds`**: nor does a deposit that is withdrawn at once, and it loses less than the
  dust of two roundings.
-/

namespace Stakebook

/-! ## Exchanges at a price that does not fall -/

namespace Pool

/-- Shares of a pool are redeemed for units, and its price does not fall. -/
structure Redeemed (q q' : Pool) (shares units : Nat) : Prop where
  shares_eq : q'.totalShares.toNat + shares = q.totalShares.toNat
  units_eq : q'.totalBalance.toNat + units = q.totalBalance.toNat
  price : q.PriceLe q'

/-- Shares of a pool are issued for units, and its price does not fall. -/
structure Issued (q q' : Pool) (shares units : Nat) : Prop where
  shares_eq : q'.totalShares.toNat = q.totalShares.toNat + shares
  units_eq : q'.totalBalance.toNat = q.totalBalance.toNat + units
  price : q.PriceLe q'

variable {q r q' : Pool} {s u s' u' : Nat}

theorem Redeemed.refl (q : Pool) : Redeemed q q 0 0 := ⟨rfl, rfl, .refl q⟩

theorem Redeemed.trans (h : Redeemed q r s u) (h' : Redeemed r q' s' u')
    (hr : 0 < r.totalShares.toNat) : Redeemed q q' (s + s') (u + u') where
  shares_eq := by have := h.shares_eq; have := h'.shares_eq; omega
  units_eq := by have := h.units_eq; have := h'.units_eq; omega
  price := h.price.trans h'.price hr

/-- **What is paid is worth no more than the shares that are redeemed**, at the price before. -/
theorem Redeemed.units_mul_le (h : Redeemed q q' s u) :
    u * q.totalShares.toNat ≤ s * q.totalBalance.toNat := by
  have hprice := h.price
  unfold PriceLe at hprice
  rw [← h.shares_eq, ← h.units_eq] at hprice ⊢
  simp only [Nat.mul_add, Nat.add_mul] at hprice ⊢
  have := Nat.mul_comm s q'.totalBalance.toNat
  have := Nat.mul_comm s u
  omega

/-- **The shares that are issued are worth no more than what is paid for them**, at the price
before. -/
theorem Issued.shares_mul_le (h : Issued q q' s u) :
    s * q.totalBalance.toNat ≤ u * q.totalShares.toNat := by
  have hprice := h.price
  unfold PriceLe at hprice
  rw [h.shares_eq, h.units_eq] at hprice
  simp only [Nat.mul_add, Nat.add_mul] at hprice
  have := Nat.mul_comm s q.totalBalance.toNat
  omega

end Pool

namespace SharePool

variable {κ : Type} [KeyOrder κ]

/-- Makes the listed deposits of the listed accounts one after the other, and returns the shares
that each receives. -/
def depositEach (p : SharePool κ) (key : κ) (minimum : Amount) :
    List (AccountId × Amount) → Except LedgerError (List Shares × SharePool κ)
  | [] => .ok ([], p)
  | (who, amount) :: rest => do
    let (shares, left) ← p.deposit who key amount minimum
    let (minted, left) ← left.depositEach key minimum rest
    return (shares :: minted, left)

variable {p p' : SharePool κ} {who : AccountId} {key : κ} {shares : Shares}
  {amount minimum : Amount} {paid minted : List (Word 128)} {pieces : List (AccountId × Word 128)}

theorem withdrawEach_cons_eq_ok_iff :
    p.withdrawEach key ((who, shares) :: pieces) = .ok (paid, p') ↔
      ∃ amount left amounts, p.withdraw who key shares = .ok (amount, left) ∧
        left.withdrawEach key pieces = .ok (amounts, p') ∧ paid = amount :: amounts := by
  rw [withdrawEach]
  simp only [bind_eq_ok_iff, pure_eq_ok_iff, Prod.mk.injEq]
  constructor
  · rintro ⟨⟨amount, left⟩, h, ⟨amounts, _⟩, hrest, rfl, rfl⟩
    exact ⟨amount, left, amounts, h, hrest, rfl⟩
  · rintro ⟨amount, left, amounts, h, hrest, rfl⟩
    exact ⟨(amount, left), h, (amounts, p'), hrest, rfl, rfl⟩

theorem depositEach_cons_eq_ok_iff :
    p.depositEach key minimum ((who, amount) :: pieces) = .ok (minted, p') ↔
      ∃ shares left rest, p.deposit who key amount minimum = .ok (shares, left) ∧
        left.depositEach key minimum pieces = .ok (rest, p') ∧ minted = shares :: rest := by
  rw [depositEach]
  simp only [bind_eq_ok_iff, pure_eq_ok_iff, Prod.mk.injEq]
  constructor
  · rintro ⟨⟨shares, left⟩, h, ⟨rest, _⟩, hrest, rfl, rfl⟩
    exact ⟨shares, left, rest, h, hrest, rfl⟩
  · rintro ⟨shares, left, rest, h, hrest, rfl⟩
    exact ⟨(shares, left), h, (rest, p'), hrest, rfl, rfl⟩

/-- What the pieces add up to. -/
def pieceSum (pieces : List (AccountId × Word 128)) : Nat := (pieces.map fun e => e.2.toNat).sum

theorem pieceSum_cons (e : AccountId × Word 128) (pieces : List (AccountId × Word 128)) :
    pieceSum (e :: pieces) = e.2.toNat + pieceSum pieces := by
  unfold pieceSum
  rw [List.map_cons, List.sum_cons]

variable [DecidableEq κ]

/-! ## Chains of withdrawals -/

namespace Valid

/-- A withdrawal is an exchange at a price that does not fall. -/
theorem redeemed_withdraw (hv : p.Valid) (h : p.withdraw who key shares = .ok (amount, p')) :
    Pool.Redeemed (p.pool key) (p'.pool key) shares.toNat amount.toNat where
  shares_eq := hv.totalShares_withdraw h
  units_eq := hv.totalBalance_withdraw h
  price := hv.price_withdraw h key

/-- **So is a chain of withdrawals**, since a pool without shares lets nobody withdraw. -/
theorem redeemed_withdrawEach (hv : p.Valid) (h : p.withdrawEach key pieces = .ok (paid, p')) :
    Pool.Redeemed (p.pool key) (p'.pool key) (pieceSum pieces) (paid.map Word.toNat).sum := by
  induction pieces generalizing p paid with
  | nil =>
    cases h
    exact .refl _
  | cons e pieces ih =>
    obtain ⟨amount, left, amounts, hfirst, hrest, rfl⟩ := withdrawEach_cons_eq_ok_iff.mp h
    have hredeemed := hv.redeemed_withdraw hfirst
    rw [pieceSum_cons, List.map_cons, List.sum_cons]
    cases pieces with
    | nil =>
      cases hrest
      exact hredeemed
    | cons d pieces =>
      obtain ⟨_, _, _, hsecond, -⟩ := withdrawEach_cons_eq_ok_iff.mp hrest
      have ht := quoteWithdraw_eq_ok_iff.mp (withdraw_eq_ok_iff.mp hsecond).1
      have hpos := (hv.withdraw hfirst).totalShares_pos ht.shares_ne_zero ht.shares_le
      exact hredeemed.trans (ih (hv.withdraw hfirst) hrest) (Word.ne_zero_iff.mp hpos)

/-- An account can withdraw what it has in pieces. -/
theorem exists_withdrawEach {parts : List Shares} (hv : p.Valid) (hparts : ∀ s ∈ parts, s ≠ 0)
    (hle : (parts.map Word.toNat).sum ≤ (p.sharesOf who key).toNat) :
    ∃ paid p', p.withdrawEach key (parts.map (who, ·)) = .ok (paid, p') := by
  induction parts generalizing p with
  | nil => exact ⟨[], p, rfl⟩
  | cons s parts ih =>
    rw [List.map_cons, List.sum_cons] at hle
    obtain ⟨amount, hquote⟩ := hv.exists_quoteWithdraw (hparts s List.mem_cons_self)
      (Word.le_def.mpr (by omega) : s ≤ p.sharesOf who key)
    obtain ⟨left, h⟩ : ∃ left, p.withdraw who key s = .ok (amount, left) :=
      ⟨_, withdraw_eq_ok_iff.mpr ⟨hquote, rfl⟩⟩
    have hshares := sharesOf_withdraw h who key
    rw [if_pos ⟨rfl, rfl⟩] at hshares
    obtain ⟨paid, p', hrest⟩ := ih (hv.withdraw h)
      (fun s hs => hparts s (List.mem_cons_of_mem _ hs)) (by omega)
    exact ⟨amount :: paid, p', withdrawEach_cons_eq_ok_iff.mpr ⟨amount, left, paid, h, hrest, rfl⟩⟩

end Valid

/-! ## Chains of deposits -/

omit [DecidableEq κ] in
/-- A chain of deposits is one that the pools go through. -/
theorem deposited_of_depositEach (h : p.depositEach key minimum pieces = .ok (minted, p')) :
    Relation.ReflTransGen Deposited p p' := by
  induction pieces generalizing p minted with
  | nil =>
    cases h
    exact .refl
  | cons e pieces ih =>
    obtain ⟨shares, left, rest, hfirst, hrest, rfl⟩ := depositEach_cons_eq_ok_iff.mp h
    exact .head ⟨_, _, _, _, _, hfirst⟩ (ih hrest)

/-- What the pieces of a deposit add to their pool and to the balance of all pools. -/
theorem totals_depositEach (h : p.depositEach key minimum pieces = .ok (minted, p')) :
    (p'.pool key).totalShares.toNat =
        (p.pool key).totalShares.toNat + (minted.map Word.toNat).sum ∧
      (p'.pool key).totalBalance.toNat = (p.pool key).totalBalance.toNat + pieceSum pieces ∧
      p'.totalBalance.toNat = p.totalBalance.toNat + pieceSum pieces := by
  induction pieces generalizing p minted with
  | nil =>
    cases h
    exact ⟨rfl, rfl, rfl⟩
  | cons e pieces ih =>
    obtain ⟨shares, left, rest, hfirst, hrest, rfl⟩ := depositEach_cons_eq_ok_iff.mp h
    obtain ⟨hshares', hbalance', hworth'⟩ := ih hrest
    have hshares := totalShares_deposit hfirst key
    have hbalance := totalBalance_deposit hfirst key
    have hworth := toNat_totalBalance_deposit hfirst
    rw [if_pos rfl] at hshares hbalance
    rw [pieceSum_cons, List.map_cons, List.sum_cons]
    refine ⟨?_, ?_, ?_⟩ <;> omega

/-- **A chain of deposits is an exchange at a price that does not fall.** -/
theorem Valid.issued_depositEach (hv : p.Valid)
    (h : p.depositEach key minimum pieces = .ok (minted, p')) :
    Pool.Issued (p.pool key) (p'.pool key) (minted.map Word.toNat).sum (pieceSum pieces) where
  shares_eq := (totals_depositEach h).1
  units_eq := (totals_depositEach h).2.1
  price := hv.price_deposits (deposited_of_depositEach h) key

/-- The pieces of a deposit receive no more shares than their sum is priced at. A pool without
shares issues one for each unit, and keeps no fewer units than shares. -/
theorem Valid.sum_minted_le (hv : p.Valid) (hb : p.Backed)
    (h : p.depositEach key minimum pieces = .ok (minted, p'))
    (hsum : pieceSum pieces = amount.toNat)
    (hpriced : sharesFor amount (p.pool key).totalShares (p.pool key).totalBalance = .ok shares) :
    (minted.map Word.toNat).sum ≤ shares.toNat := by
  have hpriced := sharesFor_eq_ok_iff.mp hpriced
  split at hpriced
  · next hz =>
    have hbacked := hb key
    have hbacked' := hb.change hv (.deposits (deposited_of_depositEach h)) key
    obtain ⟨hshares, hbalance, -⟩ := totals_depositEach h
    have hzero : (p.pool key).totalBalance = 0 := hz.elim hv.balance_eq_zero id
    rw [hzero, Word.toNat_zero] at hbalance
    rw [Word.le_def] at hbacked'
    rw [hpriced]
    omega
  · next hz =>
    have hissued := (hv.issued_depositEach h).shares_mul_le
    rw [hsum] at hissued
    rw [hpriced, Nat.le_div_iff_mul_le (Word.ne_zero_iff.mp fun hb => hz (.inr hb))]
    exact hissued

/-- **What can be deposited in pieces can be deposited at once**, for no fewer shares. -/
theorem Valid.exists_deposit_of_depositEach (hv : p.Valid) (hb : p.Backed)
    (h : p.depositEach key minimum pieces = .ok (minted, p')) (hne : pieces ≠ [])
    (hsum : pieceSum pieces = amount.toNat) (who : AccountId) :
    ∃ shares p', p.deposit who key amount minimum = .ok (shares, p') ∧
      (minted.map Word.toNat).sum ≤ shares.toNat := by
  obtain ⟨shares, hpriced⟩ := hb.exists_sharesFor key amount
  have hle := hv.sum_minted_le hb h hsum hpriced
  have hshares_le := hb.sharesFor_le hpriced
  have hbacked := hb key
  obtain ⟨-, hbalance, hworth⟩ := totals_depositEach h
  have hbalance_lt := (p'.pool key).totalBalance.toNat_lt
  have hworth_lt := p'.totalBalance.toNat_lt
  -- the first piece is no less than the minimum, and receives a share
  cases pieces with
  | nil => exact absurd rfl hne
  | cons e pieces =>
    obtain ⟨first, left, rest, hfirst, -, rfl⟩ := depositEach_cons_eq_ok_iff.mp h
    obtain ⟨hminimum, ht⟩ := quoteDeposit_eq_ok_iff.mp (deposit_eq_ok_iff.mp hfirst).1
    have hamount_pos := Word.ne_zero_iff.mp ht.amount_ne_zero
    have hshares_pos := Word.ne_zero_iff.mp ht.shares_ne_zero
    rw [Word.le_def] at hminimum hshares_le hbacked
    rw [pieceSum_cons] at hsum hbalance hworth
    rw [List.map_cons, List.sum_cons] at hle
    have hterms : DepositTerms p key amount shares :=
      { amount_ne_zero := Word.ne_zero_iff.mpr (by omega)
        priced := hpriced
        shares_ne_zero := Word.ne_zero_iff.mpr (by omega)
        shares_fit := by omega
        balance_fits := by omega
        worth_fits := by omega }
    refine ⟨shares, _, deposit_eq_ok_iff.mpr ⟨quoteDeposit_eq_ok_iff.mpr ⟨?_, hterms⟩, rfl⟩, ?_⟩
    · rw [Word.le_def]
      omega
    · rw [List.map_cons, List.sum_cons]
      exact hle

/-- **Splitting never pays.** After any run of calls, a withdrawal that is accepted is accepted in
any pieces that are not zero, one after the other, and together they are paid no more than it pays.
A deposit whose pieces are accepted, whoever makes them, is accepted at once, and receives no fewer
shares than they do together. -/
theorem splitting_never_pays {calls : List (Call κ)} (hp : run calls = p) (key : κ) :
    (∀ who shares amount left, p.withdraw who key shares = .ok (amount, left) →
      ∀ parts : List Shares, (∀ s ∈ parts, s ≠ 0) → (parts.map Word.toNat).sum = shares.toNat →
        ∃ paid p', p.withdrawEach key (parts.map (who, ·)) = .ok (paid, p') ∧
          (paid.map Word.toNat).sum ≤ amount.toNat) ∧
    ∀ minimum pieces minted left, pieces ≠ [] →
      p.depositEach key minimum pieces = .ok (minted, left) →
        ∀ who (amount : Amount), pieceSum pieces = amount.toNat →
          ∃ shares p', p.deposit who key amount minimum = .ok (shares, p') ∧
            (minted.map Word.toNat).sum ≤ shares.toNat := by
  have hv : p.Valid := hp ▸ valid_run calls
  have hb : p.Backed := hp ▸ backed_run calls
  refine ⟨fun who shares amount left h parts hparts hsum => ?_,
    fun minimum pieces minted left hne h who amount hsum =>
      hv.exists_deposit_of_depositEach hb h hne hsum who⟩
  have ht := quoteWithdraw_eq_ok_iff.mp (withdraw_eq_ok_iff.mp h).1
  obtain ⟨paid, p', hpaid⟩ := hv.exists_withdrawEach hparts
    (hsum ▸ Word.le_def.mp ht.shares_le : _ ≤ (p.sharesOf who key).toNat)
  refine ⟨paid, p', hpaid, ?_⟩
  have hredeemed := (hv.redeemed_withdrawEach hpaid).units_mul_le
  have hpieces : pieceSum (parts.map (who, ·)) = shares.toNat := by
    rw [← hsum]
    unfold pieceSum
    rw [List.map_map]
    rfl
  have hpos := Word.ne_zero_iff.mp (hv.totalShares_pos ht.shares_ne_zero ht.shares_le)
  rw [hpieces] at hredeemed
  rw [ht.priced, Nat.le_div_iff_mul_le hpos]
  exact hredeemed

/-- The second holder withdraws its 4 shares for 5 units. In pieces the last two shares are paid 3,
of which they were worth 2 before, and the sum is the same. A deposit of 7 receives 4 shares, and one
in three pieces only 3. -/
theorem splitting_never_pays_rewarded :
    (rewarded.withdraw (.dev 2) 1 4).toOption.map Prod.fst = some 5 ∧
      (rewarded.withdrawEach 1 ([1, 1, 2].map (.dev 2, ·))).toOption.map Prod.fst =
        some [1, 1, 3] ∧
      (∃ paid p', rewarded.withdrawEach 1 ([1, 1, 2].map (.dev 2, ·)) = .ok (paid, p') ∧
        (paid.map Word.toNat).sum ≤ 5) ∧
      (rewarded.depositEach 1 0 [(.dev 1, 2), (.dev 1, 2), (.dev 2, 3)]).toOption.map Prod.fst =
        some [1, 1, 1] ∧
      ∃ shares p', rewarded.deposit (.dev 1) 1 7 0 = .ok (shares, p') ∧ 3 ≤ shares.toNat := by
  have hpaid : (rewarded.withdraw (.dev 2) 1 4).toOption.map Prod.fst = some 5 := by
    decide +kernel
  have hminted : (rewarded.depositEach 1 0
      [(.dev 1, 2), (.dev 1, 2), (.dev 2, 3)]).toOption.map Prod.fst = some [1, 1, 1] := by
    decide +kernel
  obtain ⟨left, hwithdrawn⟩ := exists_ok_of_fst hpaid
  obtain ⟨left', hdeposited⟩ := exists_ok_of_fst hminted
  obtain ⟨hwithdraw, hdeposit⟩ := splitting_never_pays (rfl : run _ = rewarded) 1
  exact ⟨hpaid, by decide +kernel,
    hwithdraw _ _ _ left hwithdrawn [1, 1, 2] (by decide) (by decide), hminted,
    hdeposit _ _ _ left' (List.cons_ne_nil _ _) hdeposited (.dev 1) 7 (by decide)⟩

/-! ## There and back -/

/-- The bounds of two roundings down, one after the other: `m` shares are issued for `a` units of a
pool with `s` shares and `b` units, and redeemed at once. -/
theorem round_trip_div {s b a m : Nat} (hle : m * b ≤ a * s) (hlt : a * s ≤ m * b + b)
    (hpos : 0 < s + m) :
    m * (b + a) / (s + m) ≤ a ∧ (a - m * (b + a) / (s + m)) * (s + m) < b + (s + m) := by
  have hpaid : m * (b + a) < (s + m) * (m * (b + a) / (s + m) + 1) := Nat.lt_mul_div_succ _ hpos
  constructor
  · refine Nat.div_le_of_le_mul ?_
    rw [Nat.mul_add, Nat.add_mul, Nat.mul_comm s a]
    exact Nat.add_le_add_right hle _
  · generalize m * (b + a) / (s + m) = r at hpaid ⊢
    have hloss : a * (s + m) < b + (s + m) + r * (s + m) := by
      simp only [Nat.mul_add, Nat.add_mul, Nat.mul_one] at hpaid ⊢
      rw [Nat.mul_comm r s, Nat.mul_comm r m, Nat.mul_comm a m]
      omega
    rw [Nat.sub_mul]
    omega

omit [DecidableEq κ] in
/-- What a deposit is worth beyond the shares that it receives is at most one of them. -/
theorem DepositTerms.amount_mul_le (h : DepositTerms p key amount shares) (hb : p.Backed) :
    amount.toNat * (p.pool key).totalShares.toNat ≤
      shares.toNat * (p.pool key).totalBalance.toNat + (p.pool key).totalBalance.toNat := by
  have hpriced := sharesFor_eq_ok_iff.mp h.priced
  split at hpriced
  · next hz =>
    have hzero : (p.pool key).totalShares = 0 :=
      hz.elim id fun hbalance => by_contra fun hne => hb.balance_ne_zero hne hbalance
    rw [hzero, Word.toNat_zero, Nat.mul_zero]
    exact Nat.zero_le _
  · next hz =>
    have hpos := Word.ne_zero_iff.mp fun hbalance => hz (.inr hbalance)
    have hfloor := Nat.lt_mul_div_succ (amount.toNat * (p.pool key).totalShares.toNat) hpos
    rw [← hpriced, Nat.mul_add, Nat.mul_one, Nat.mul_comm _ shares.toNat] at hfloor
    exact Nat.le_of_lt hfloor

/-- Who deposits into a pool without shares and withdraws the new ones is paid all of its
balance. -/
theorem Valid.back_eq (hv : p.Valid) {p'' : SharePool κ} {back : Amount}
    (hzero : (p.pool key).totalShares = 0) (h : p.deposit who key amount minimum = .ok (shares, p'))
    (hback : p'.withdraw who key shares = .ok (back, p'')) : back = amount := by
  have ht := quoteWithdraw_eq_ok_iff.mp (withdraw_eq_ok_iff.mp hback).1
  have hshares := totalShares_deposit h key
  have hbalance := totalBalance_deposit h key
  rw [if_pos rfl, hzero, Word.toNat_zero, Nat.zero_add] at hshares
  rw [if_pos rfl, hv.balance_eq_zero hzero, Word.toNat_zero, Nat.zero_add] at hbalance
  rw [(hv.deposit h).amount_eq_of_all ht (Word.eq_iff.mpr hshares.symm)]
  exact Word.eq_iff.mpr hbalance

/-- **The first deposit into a pool leaves nothing behind when it is withdrawn.** -/
theorem Valid.withdraw_deposit (hv : p.Valid) {p'' : SharePool κ}
    (hzero : (p.pool key).totalShares = 0) (h : p.deposit who key amount minimum = .ok (shares, p'))
    (hback : p'.withdraw who key shares = .ok (amount, p'')) : p'' = p := by
  have hpool : p.pools.get? key = none := hv.get?_eq_none hzero
  have hholding : p.shares.get? (who, key) = none := by
    cases hs : p.shares.get? (who, key) with
    | none => rfl
    | some s =>
      have hle := hv.sharesOf_le who key
      unfold sharesOf at hle
      rw [OrdMap.getD_of_some hs, hzero, Word.toNat_zero] at hle
      exact absurd (Word.eq_iff.mpr (Nat.le_zero.mp hle)) (hv.holding_ne_zero _ s hs)
  obtain ⟨-, rfl⟩ := deposit_eq_ok_iff.mp h
  obtain ⟨-, rfl⟩ := withdraw_eq_ok_iff.mp hback
  refine (SharePool.mk.injEq ..).mpr ⟨OrdMap.ext_get? fun k => ?_, OrdMap.ext_get? fun x => ?_, ?_⟩
  · rw [get?_shrink_eq, OrdMap.get?_insert_self]
    by_cases hk : k = key
    · rw [if_pos hk, hk, hpool, Option.bind_some, Word.add_sub_cancel_right,
        Word.add_sub_cancel_right, if_pos (Pool.isEmpty_iff.mpr ⟨hzero, hv.balance_eq_zero hzero⟩)]
    · rw [if_neg hk, OrdMap.get?_insert, if_neg hk]
  · have hnone : p.sharesOf who key = 0 := OrdMap.getD_of_none hholding 0
    rw [get?_burn, OrdMap.get?_insert_self]
    by_cases hx : x = (who, key)
    · rw [if_pos hx, hx, hholding, Option.bind_some, Word.add_sub_cancel_right, if_pos hnone]
    · rw [if_neg hx, OrdMap.get?_insert, if_neg hx]
  · exact Word.add_sub_cancel_right ..

/-- **A deposit that is withdrawn at once never profits, and loses less than the dust of two
roundings.** After any run of calls, the shares that a deposit receives can be withdrawn right after
it. What they are paid is no more than the deposit, and short of it by less than one unit and the old
balance over the new number of shares, which is less than a share was worth. Where the pool had no
shares the deposit is paid back whole, and nothing is left of it. -/
theorem round_trip_bounds {calls : List (Call κ)} (hp : run calls = p)
    (h : p.deposit who key amount minimum = .ok (shares, p')) :
    ∃ back p'', p'.withdraw who key shares = .ok (back, p'') ∧ back ≤ amount ∧
      (amount.toNat - back.toNat) * ((p.pool key).totalShares.toNat + shares.toNat) <
        (p.pool key).totalBalance.toNat + ((p.pool key).totalShares.toNat + shares.toNat) ∧
      ((p.pool key).totalShares = 0 → back = amount ∧ p'' = p) := by
  have hv : p.Valid := hp ▸ valid_run calls
  have hb : p.Backed := hp ▸ backed_run calls
  obtain ⟨-, ht⟩ := quoteDeposit_eq_ok_iff.mp (deposit_eq_ok_iff.mp h).1
  have hheld := hv.sharesOf_deposit h who key
  have hshares := totalShares_deposit h key
  have hbalance := totalBalance_deposit h key
  rw [if_pos ⟨rfl, rfl⟩] at hheld
  rw [if_pos rfl] at hshares hbalance
  obtain ⟨back, hquote⟩ := (hv.deposit h).exists_quoteWithdraw ht.shares_ne_zero
    (Word.le_def.mpr (by omega) : shares ≤ p'.sharesOf who key)
  obtain ⟨p'', hback⟩ : ∃ p'', p'.withdraw who key shares = .ok (back, p'') :=
    ⟨_, withdraw_eq_ok_iff.mpr ⟨hquote, rfl⟩⟩
  have hpaid := (quoteWithdraw_eq_ok_iff.mp hquote).priced
  rw [hshares, hbalance] at hpaid
  have hpos := Word.ne_zero_iff.mp ht.shares_ne_zero
  obtain ⟨hle, hloss⟩ := round_trip_div (ht.shares_mul_le hv.balance_eq_zero)
    (ht.amount_mul_le hb) (by omega)
  rw [← hpaid] at hle hloss
  refine ⟨back, p'', hback, hle, hloss, fun hzero => ?_⟩
  obtain rfl := hv.back_eq hzero h hback
  exact ⟨rfl, hv.withdraw_deposit hzero h hback⟩

/-- A deposit of 5 receives 3 shares, which are paid 4 after it. One into a pool without shares is
paid back whole. -/
theorem round_trip_bounds_rewarded :
    (∃ p' back p'', rewarded.deposit (.dev 1) 1 5 0 = .ok (3, p') ∧
      p'.withdraw (.dev 1) 1 3 = .ok (back, p'') ∧ back ≤ 5 ∧
        (5 - back.toNat) * (7 + 3) < 10 + (7 + 3)) ∧
      ∃ p', rewarded.deposit (.dev 1) 2 5 0 = .ok (5, p') ∧
        p'.withdraw (.dev 1) 2 5 = .ok (5, rewarded) := by
  constructor
  · obtain ⟨p', h⟩ := exists_ok_of_fst
      (by decide +kernel : (rewarded.deposit (.dev 1) 1 5 0).toOption.map Prod.fst = some 3)
    obtain ⟨back, p'', hback, hle, hloss, -⟩ := round_trip_bounds (rfl : run _ = rewarded) h
    exact ⟨p', back, p'', h, hback, hle, hloss⟩
  · obtain ⟨p', h⟩ := exists_ok_of_fst
      (by decide +kernel : (rewarded.deposit (.dev 1) 2 5 0).toOption.map Prod.fst = some 5)
    obtain ⟨back, p'', hback, -, -, hall⟩ := round_trip_bounds (rfl : run _ = rewarded) h
    obtain ⟨rfl, rfl⟩ := hall (by decide)
    exact ⟨p', h, hback⟩

end SharePool

end Stakebook
