import Stakebook.Error

/-!
# Proportions

Shares and balances are converted by one product and one quotient, computed exactly and rounded
down, so that what is lost by rounding stays in the pool.
-/

namespace Stakebook

/-- `x * y / z` rounded down; none if `z` is zero or the quotient is out of range. -/
def mulDivFloor (x y z : Word 128) : Option (Word 128) :=
  if z = 0 then none else Word.ofNat? (x.toNat * y.toNat / z.toNat)

/-- The shares that `amount` buys of a pool. An empty pool sells one share for one unit, and so does
a pool that has shares but no balance. -/
def sharesFor (amount : Amount) (totalShares : Shares) (totalBalance : Amount) :
    Except LedgerError Shares :=
  if totalShares = 0 ∨ totalBalance = 0 then .ok amount
  else match mulDivFloor amount totalShares totalBalance with
    | some shares => .ok shares
    | none => .error .overflow

/-- The balance that `shares` redeem for. -/
def balanceFor (shares totalShares : Shares) (totalBalance : Amount) :
    Except LedgerError Amount :=
  if totalShares = 0 then .ok 0
  else match mulDivFloor shares totalBalance totalShares with
    | some balance => .ok balance
    | none => .error .overflow

/-- The part of `x` that a percentage names, rounded down, or the largest word if it is out of
range. -/
def percentOf (x : Word 128) (percent : Weight) : Word 128 :=
  (mulDivFloor x percent unity).getD .max

theorem mulDivFloor_eq_some_iff {x y z q : Word 128} :
    mulDivFloor x y z = some q ↔ z ≠ 0 ∧ q.toNat = x.toNat * y.toNat / z.toNat := by
  unfold mulDivFloor
  split
  · simp [*]
  · simp [Word.ofNat?_eq_some_iff, *]

theorem sharesFor_eq_ok_iff {amount totalShares totalBalance shares : Word 128} :
    sharesFor amount totalShares totalBalance = .ok shares ↔
      if totalShares = 0 ∨ totalBalance = 0 then shares = amount
      else shares.toNat = amount.toNat * totalShares.toNat / totalBalance.toNat := by
  unfold sharesFor
  split
  · rw [Except.ok.injEq, eq_comm]
  · next h =>
    have hne : totalBalance ≠ 0 := fun hz => h (.inr hz)
    cases hq : mulDivFloor amount totalShares totalBalance with
    | some q =>
      have hn := (mulDivFloor_eq_some_iff.mp hq).2
      simp only [Except.ok.injEq, Word.eq_iff]
      omega
    | none =>
      simp only [reduceCtorEq, false_iff]
      intro hs
      rw [mulDivFloor_eq_some_iff.mpr ⟨hne, hs⟩] at hq
      cases hq

/-- The balance of shares is their floored part of the total; a pool without shares gives nothing,
as a quotient by zero does. -/
theorem balanceFor_eq_ok_iff {shares totalShares totalBalance balance : Word 128} :
    balanceFor shares totalShares totalBalance = .ok balance ↔
      balance.toNat = shares.toNat * totalBalance.toNat / totalShares.toNat := by
  unfold balanceFor
  split
  · next h =>
    rw [h, Except.ok.injEq, Word.toNat_zero, Nat.div_zero, Word.eq_iff, Word.toNat_zero, eq_comm]
  · next h =>
    cases hq : mulDivFloor shares totalBalance totalShares with
    | some q =>
      have hn := (mulDivFloor_eq_some_iff.mp hq).2
      simp only [Except.ok.injEq, Word.eq_iff]
      omega
    | none =>
      simp only [reduceCtorEq, false_iff]
      intro hs
      rw [mulDivFloor_eq_some_iff.mpr ⟨h, hs⟩] at hq
      cases hq

end Stakebook
