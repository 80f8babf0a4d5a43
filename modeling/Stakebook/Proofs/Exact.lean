import Stakebook.Proofs.Pool.Solvency
import Stakebook.Proofs.Registry
import Stakebook.Proofs.Stakes
import Stakebook.Proofs.SwapQueue
import Stakebook.Proofs.Unbonding

/-!
# Exact arithmetic in the components

A sum or a difference of words that nobody checks goes round at the bound, and its result does not
show that it did. So every change of a component that makes one is written a second time over
`Exact`, with `add?` and `sub?` in place of `+` and `-`: there a sum or a difference that is out of
range halts the change. Where the two forms agree, nothing went round.

Headlines:
* **`SharePool.exactDeposit_eq`**, **`SharePool.exactWithdraw_eq`**,
  **`SharePool.exactTransfer_eq`**, **`SharePool.exactDistribute_eq`**: they agree on valid pools.
* **`Unbonding.exactEnqueue_eq`**, **`SwapQueue.exactEnqueue_eq`**, **`Stakes.exactRemove_eq`**,
  **`Registry.exactDebit_eq`**: they agree always, since the check that comes first is enough.
* **`Stakes.exactAdd_eq`**: they agree where the total of the subnet is in range after the addition,
  which nothing checks.
-/

namespace Stakebook

namespace Word

variable {w : Nat} {a b : Word w}

/-- The difference, if it is in range. -/
def sub? (a b : Word w) : Option (Word w) := if b ≤ a then some (a.satSub b) else none

theorem add?_of_lt (h : a.toNat + b.toNat < 2 ^ w) : a.add? b = some (a + b) :=
  add?_eq_some_iff.mpr (toNat_add_of_lt h)

theorem sub?_of_le (h : b ≤ a) : a.sub? b = some (a - b) := by
  unfold sub?
  rw [if_pos h, Option.some.injEq, eq_iff, toNat_satSub, toNat_sub_of_le h]

end Word

/-- A change that may stop with an error, and halts where a sum or a difference is out of range. -/
abbrev Exact := ExceptT LedgerError Option

namespace Exact

variable {α β : Type}

/-- A change that did not halt. -/
def of (r : Except LedgerError α) : Exact α := some r

/-- A sum or a difference that is in range goes on with its result. -/
theorem bind_some (x : α) (f : α → Exact β) : (liftM (some x) >>= f : Exact β) = f x := rfl

/-- **Changes that agree step by step agree.** -/
theorem bind_of {a : Exact α} {r : Except LedgerError α} {f : α → Exact β}
    {g : α → Except LedgerError β} (ha : a = .of r) (hf : ∀ x, r = .ok x → f x = .of (g x)) :
    (a >>= f) = .of (r >>= g) := by
  subst ha
  cases r with
  | error e => rfl
  | ok x => exact hf x rfl

end Exact

/-! ## Pools -/

namespace SharePool

variable {κ : Type} [KeyOrder κ]

/-- `deposit`, with exact sums. -/
def exactDeposit (p : SharePool κ) (who : AccountId) (key : κ) (amount minimum : Amount) :
    Exact (Shares × SharePool κ) := do
  let shares ← p.quoteDeposit key amount minimum
  let totalShares ← (p.pool key).totalShares.add? shares
  let balance ← (p.pool key).totalBalance.add? amount
  let totalBalance ← p.totalBalance.add? amount
  let holding ← (p.sharesOf who key).add? shares
  return (shares,
    { pools := p.pools.insert key ⟨totalShares, balance⟩
      shares := p.shares.insert (who, key) holding
      totalBalance })

/-- `burn`, with an exact difference. -/
def exactBurn (holdings : OrdMap (AccountId × κ) Shares) (who : AccountId) (key : κ)
    (shares : Shares) : Option (OrdMap (AccountId × κ) Shares) :=
  match holdings.get? (who, key) with
  | none => some holdings
  | some held => do
    let rest ← held.sub? shares
    return if rest = 0 then holdings.erase (who, key) else holdings.insert (who, key) rest

/-- `shrink`, with exact differences. -/
def exactShrink (pools : OrdMap κ Pool) (key : κ) (shares : Shares) (amount : Amount) :
    Option (OrdMap κ Pool) :=
  match pools.get? key with
  | none => some pools
  | some pool => do
    let totalShares ← pool.totalShares.sub? shares
    let totalBalance ← pool.totalBalance.sub? amount
    let rest : Pool := ⟨totalShares, totalBalance⟩
    return if rest.isEmpty then pools.erase key else pools.insert key rest

/-- `withdraw`, with exact differences. -/
def exactWithdraw (p : SharePool κ) (who : AccountId) (key : κ) (shares : Shares) :
    Exact (Amount × SharePool κ) := do
  let amount ← p.quoteWithdraw who key shares
  let burned ← exactBurn p.shares who key shares
  let pools ← exactShrink p.pools key shares amount
  let totalBalance ← p.totalBalance.sub? amount
  return (amount, { pools, shares := burned, totalBalance })

/-- `transfer`, with an exact difference and an exact sum. -/
def exactTransfer (p : SharePool κ) (source : AccountId) (key : κ) (target : AccountId)
    (shares : Shares) (minimum : Amount) : Exact (SharePool κ) := do
  p.checkTransfer source key shares minimum
  let burned ← exactBurn p.shares source key shares
  let holding ← (burned.getD (target, key) 0).add? shares
  return { p with shares := burned.insert (target, key) holding }

/-- `distribute`, with exact sums. -/
def exactDistribute (p : SharePool κ) (key : κ) (amount : Amount) : Exact (SharePool κ) :=
  let pool := p.pool key
  if amount = 0 then throw .insufficientAmount
  else if pool.totalShares = 0 then throw .insufficientShares
  else if (pool.totalBalance.add? amount).isNone ∨ (p.totalBalance.add? amount).isNone then
    throw .overflow
  else do
    let balance ← pool.totalBalance.add? amount
    let totalBalance ← p.totalBalance.add? amount
    return { p with pools := p.pools.insert key ⟨pool.totalShares, balance⟩, totalBalance }

theorem exactBurn_eq {holdings : OrdMap (AccountId × κ) Shares} {who : AccountId} {key : κ}
    {shares : Shares} (h : shares ≤ holdings.getD (who, key) 0) :
    exactBurn holdings who key shares = some (burn holdings who key shares) := by
  unfold exactBurn burn
  cases hheld : holdings.get? (who, key) with
  | none => rfl
  | some held =>
    rw [OrdMap.getD_of_some hheld] at h
    simp only [Word.sub?_of_le h]
    rfl

theorem exactShrink_eq {pools : OrdMap κ Pool} {key : κ} {q : Pool} {shares : Shares}
    {amount : Amount} (h : pools.get? key = some q) (hshares : shares ≤ q.totalShares)
    (hamount : amount ≤ q.totalBalance) :
    exactShrink pools key shares amount = some (shrink pools key shares amount) := by
  unfold exactShrink shrink
  simp only [h, Word.sub?_of_le hshares, Word.sub?_of_le hamount]
  rfl

variable [DecidableEq κ] {p : SharePool κ}

/-- **No sum of a deposit goes round**: the pool and the balance of all pools were checked, and no
account has more shares than there are. -/
theorem exactDeposit_eq (hv : p.Valid) (who : AccountId) (key : κ) (amount minimum : Amount) :
    p.exactDeposit who key amount minimum = .of (p.deposit who key amount minimum) := by
  refine Exact.bind_of rfl fun shares hquote => ?_
  obtain ⟨-, ht⟩ := quoteDeposit_eq_ok_iff.mp hquote
  have hholding : (p.sharesOf who key).toNat + shares.toNat < 2 ^ 128 :=
    Nat.lt_of_le_of_lt (Nat.add_le_add_right (hv.sharesOf_le who key) _) ht.shares_fit
  simp only [Word.add?_of_lt ht.shares_fit, Word.add?_of_lt ht.balance_fits,
    Word.add?_of_lt ht.worth_fits, Word.add?_of_lt hholding, Exact.bind_some]
  rfl

/-- **No difference of a withdrawal goes round**: what an account has is part of the shares, and what
it redeems for is part of the balance. -/
theorem exactWithdraw_eq (hv : p.Valid) (who : AccountId) (key : κ) (shares : Shares) :
    p.exactWithdraw who key shares = .of (p.withdraw who key shares) := by
  refine Exact.bind_of rfl fun amount hquote => ?_
  have ht := quoteWithdraw_eq_ok_iff.mp hquote
  have hstored := get?_of_ne_zero (hv.totalShares_pos ht.shares_ne_zero ht.shares_le)
  have hamount := hv.amount_le ht
  simp only [exactBurn_eq ht.shares_le,
    exactShrink_eq hstored (hv.le_totalShares ht.shares_le) hamount,
    Word.sub?_of_le (Nat.le_trans hamount (hv.balance_le key)), Exact.bind_some]
  rfl

/-- **Neither the difference nor the sum of a transfer goes round.** -/
theorem exactTransfer_eq (hv : p.Valid) (source : AccountId) (key : κ) (target : AccountId)
    (shares : Shares) (minimum : Amount) :
    p.exactTransfer source key target shares minimum =
      .of (p.transfer source key target shares minimum) := by
  refine Exact.bind_of rfl fun _ hcheck => ?_
  obtain ⟨value, hquote, -⟩ := bind_eq_ok_iff.mp hcheck
  have ht := quoteWithdraw_eq_ok_iff.mp hquote
  simp only [exactBurn_eq ht.shares_le, Word.add?_of_lt (hv.transferred_fits ht.shares_le target),
    Exact.bind_some]
  rfl

omit [DecidableEq κ] in
/-- **No sum of a reward goes round**: both were checked. -/
theorem exactDistribute_eq (p : SharePool κ) (key : κ) (amount : Amount) :
    p.exactDistribute key amount = .of (p.distribute key amount) := by
  unfold exactDistribute distribute
  simp only
  split
  · rfl
  · split
    · rfl
    · split
      · rfl
      · next hfit =>
        rw [not_or, Word.isNone_add?_iff, Word.isNone_add?_iff, Nat.not_le, Nat.not_le] at hfit
        simp only [Word.add?_of_lt hfit.1, Word.add?_of_lt hfit.2, Exact.bind_some]
        rfl

end SharePool

/-! ## Unbonding lists -/

/-- `Pending.merge`, with an exact sum. -/
def Pending.exactMerge (amount : Amount) (unlock : Block) : List Pending → Option (List Pending)
  | [] => some []
  | e :: es =>
    if e.unlockBlock = unlock then do
      let merged ← e.amount.add? amount
      return ⟨merged, unlock⟩ :: es
    else do
      let rest ← exactMerge amount unlock es
      return e :: rest

theorem Pending.exactMerge_eq {amount : Amount} {unlock : Block} {es : List Pending} {e : Pending}
    (found : es.find? (fun e => e.unlockBlock = unlock) = some e)
    (fits : e.amount.toNat + amount.toNat < 2 ^ 128) :
    exactMerge amount unlock es = some (merge amount unlock es) := by
  induction es with
  | nil => rfl
  | cons d es ih =>
    unfold exactMerge merge
    rw [List.find?_cons] at found
    by_cases hd : d.unlockBlock = unlock
    · rw [decide_eq_true hd] at found
      cases found
      rw [if_pos hd, if_pos hd, Word.add?_of_lt fits]
      rfl
    · rw [decide_eq_false hd] at found
      rw [if_neg hd, if_neg hd, ih found]
      rfl

namespace Unbonding

/-- `enqueue`, with an exact sum. -/
def exactEnqueue (u : Unbonding) (who : AccountId) (amount : Amount) (unlock block : Block) :
    Exact (Amount × Unbonding) := do
  u.checkEnqueue who amount unlock block
  let list := u.pending who
  if list.any fun e => e.unlockBlock = unlock then
    let merged ← Pending.exactMerge amount unlock list
    return (0, { u with entries := u.entries.insert who merged })
  else if list.length < u.capacity.toNat then
    return (0, { u with entries := u.entries.insert who (list ++ [⟨amount, unlock⟩]) })
  else
    let kept := list.filter fun e => !e.isMatured block
    return (Pending.total (list.filter fun e => e.isMatured block),
      { u with entries := u.entries.insert who (kept ++ [⟨amount, unlock⟩]) })

/-- **The merging sum does not go round**: it was checked. -/
theorem exactEnqueue_eq (u : Unbonding) (who : AccountId) (amount : Amount)
    (unlock block : Block) :
    u.exactEnqueue who amount unlock block = .of (u.enqueue who amount unlock block) := by
  refine Exact.bind_of rfl fun _ hcheck => ?_
  obtain ⟨-, _, _, hentered⟩ := checkEnqueue_eq_ok_iff.mp hcheck
  simp only [any_eq_isSome_find?]
  cases hentered with
  | merged found fits =>
    simp only [found, Option.isSome_some, if_true, Pending.exactMerge_eq found fits,
      Exact.bind_some]
    rfl
  | added new room =>
    simp only [new, Option.isSome_none, Bool.false_eq_true, if_false, if_pos room]
    rfl
  | replaced new full =>
    simp only [new, Option.isSome_none, Bool.false_eq_true, if_false, if_neg (Nat.not_lt.mpr full)]
    rfl

end Unbonding

/-! ## The queue of swaps -/

namespace SwapQueue

/-- `enqueue`, with an exact next number. -/
def exactEnqueue (q : SwapQueue) (who : AccountId) (target : PoolId) (balance : Amount)
    (block delay : Block) : Exact (SwapId × SwapQueue) := do
  q.checkEnqueue balance
  let id := q.nextId
  let nextId ← id.add? 1
  return (id,
    { entries := q.entries.insert id
        { id, account := who, target, balance, queuedAt := block,
          executeAfter := block.satAdd delay }
      order := q.order ++ [id]
      nextId })

/-- **The next number does not go round**: it was checked. -/
theorem exactEnqueue_eq (q : SwapQueue) (who : AccountId) (target : PoolId) (balance : Amount)
    (block delay : Block) :
    q.exactEnqueue who target balance block delay =
      .of (q.enqueue who target balance block delay) := by
  refine Exact.bind_of rfl fun _ hcheck => ?_
  obtain ⟨-, hfit⟩ := checkEnqueue_eq_ok_iff.mp hcheck
  simp only [Word.add?_of_lt (show q.nextId.toNat + (1 : SwapId).toNat < 2 ^ 64 from
    toNat_one ▸ hfit), Exact.bind_some]
  rfl

end SwapQueue

/-! ## Direct stake -/

namespace Stakes

/-- `add`, with an exact total of the subnet. -/
def exactAdd (s : Stakes) (who : AccountId) (subnet : SubnetId) (amount : Amount)
    (bounds : SubnetParams) : Exact (Amount × Stakes) := do
  let balance ← s.checkAdd who subnet amount bounds
  let subnetTotal ← (s.subnetTotal subnet).add? amount
  return (balance,
    { balances := s.balances.insert (who, subnet) balance
      subnetTotals := s.subnetTotals.insert subnet subnetTotal
      total := s.total.satAdd amount })

/-- `checkRemove`, with an exact difference. -/
def exactCheckRemove (s : Stakes) (who : AccountId) (subnet : SubnetId) (amount : Amount)
    (bounds : SubnetParams) : Exact Amount :=
  let balance := s.balanceOf who subnet
  if amount = 0 ∨ balance < amount then throw .insufficientAmount
  else do
    let remaining ← balance.sub? amount
    if remaining ≠ 0 ∧ remaining < bounds.minStake then
      throw (.belowMinStake remaining bounds.minStake)
    else return remaining

/-- `remove`, with an exact difference. -/
def exactRemove (s : Stakes) (who : AccountId) (subnet : SubnetId) (amount : Amount)
    (bounds : SubnetParams) : Exact (Amount × Stakes) := do
  let remaining ← s.exactCheckRemove who subnet amount bounds
  return (remaining,
    { balances :=
        if remaining = 0 then s.balances.erase (who, subnet)
        else s.balances.insert (who, subnet) remaining
      subnetTotals := lowerTotal s.subnetTotals subnet amount
      total := s.total.satSub amount })

variable {s : Stakes} {who : AccountId} {subnet : SubnetId} {amount : Amount}
  {bounds : SubnetParams}

/-- **The total of a subnet does not go round where the stakes on it are in range together.** -/
theorem exactAdd_eq (ht : s.Tallied) (hfit : ∀ balance s',
      s.add who subnet amount bounds = .ok (balance, s') → s'.stakedOn subnet < 2 ^ 128) :
    s.exactAdd who subnet amount bounds = .of (s.add who subnet amount bounds) := by
  refine Exact.bind_of rfl fun balance hcheck => ?_
  have hadd := add_eq_ok_iff.mpr ⟨hcheck, rfl⟩
  have htotal : (s.subnetTotal subnet).toNat + amount.toNat < 2 ^ 128 := by
    have hsum := stakedOn_add hadd subnet
    have := hfit _ _ hadd
    rw [if_pos rfl] at hsum
    rw [ht subnet]
    omega
  simp only [Word.add?_of_lt htotal, Exact.bind_some]
  rfl

theorem exactCheckRemove_eq (s : Stakes) (who : AccountId) (subnet : SubnetId) (amount : Amount)
    (bounds : SubnetParams) :
    s.exactCheckRemove who subnet amount bounds = .of (s.checkRemove who subnet amount bounds) := by
  unfold exactCheckRemove checkRemove
  simp only
  split
  · rfl
  · next hguard =>
    rw [not_or, Word.not_lt] at hguard
    simp only [Word.sub?_of_le hguard.2, Exact.bind_some]
    split <;> rfl

/-- **What is left of a stake does not go round**: nobody removes more than there is. -/
theorem exactRemove_eq (s : Stakes) (who : AccountId) (subnet : SubnetId) (amount : Amount)
    (bounds : SubnetParams) :
    s.exactRemove who subnet amount bounds = .of (s.remove who subnet amount bounds) :=
  Exact.bind_of (exactCheckRemove_eq ..) fun _ _ => rfl

end Stakes

/-! ## Free balances -/

namespace Registry

/-- `debit`, with an exact difference. -/
def exactDebit (r : Registry) (who : AccountId) (amount : Amount) : Exact Registry :=
  match r.accounts.get? who with
  | none => throw .insufficientBalance
  | some info =>
    if info.canDebit amount then do
      let free ← info.free.sub? amount
      return { r with accounts := r.accounts.insert who ⟨free⟩ }
    else throw .insufficientBalance

/-- **A debit does not go round**: it was checked. -/
theorem exactDebit_eq (r : Registry) (who : AccountId) (amount : Amount) :
    r.exactDebit who amount = .of (r.debit who amount) := by
  unfold exactDebit debit AccountInfo.debit?
  cases r.accounts.get? who with
  | none => rfl
  | some info =>
    simp only [Option.bind_some]
    split
    · next hcan =>
      have hle : amount ≤ info.free := of_decide_eq_true hcan
      simp only [Word.sub?_of_le hle, Exact.bind_some]
      rfl
    · rfl

end Registry

end Stakebook
