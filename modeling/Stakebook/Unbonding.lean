import Stakebook.OrdMap.Basic
import Stakebook.Error

/-!
# Unbonding

What an account withdraws waits in a list until a block at which it unlocks. Amounts that unlock at
the same block are merged. A list holds at most `capacity` entries; when it is full, its matured
entries are released to make room, and only if there are none is the withdrawal refused.
-/

namespace Stakebook

/-- An amount that unlocks at a block. -/
structure Pending where
  amount : Amount
  unlockBlock : Block
deriving DecidableEq

namespace Pending

/-- Whether the amount is unlocked. -/
def isMatured (e : Pending) (block : Block) : Bool := e.unlockBlock ≤ block

/-- The sum of amounts, or the largest word if it is out of range. -/
def total (es : List Pending) : Amount := es.foldl (fun sum e => sum.satAdd e.amount) 0

/-- Adds to the first entry that unlocks at a block. -/
def merge (amount : Amount) (unlock : Block) : List Pending → List Pending
  | [] => []
  | e :: es =>
    if e.unlockBlock = unlock then ⟨e.amount + amount, unlock⟩ :: es else e :: merge amount unlock es

end Pending

/-- The lists of all accounts. -/
structure Unbonding where
  entries : OrdMap AccountId (List Pending)
  capacity : Count
deriving DecidableEq

namespace Unbonding

/-- No entries, under a capacity. -/
def empty (capacity : Count) : Unbonding := ⟨∅, capacity⟩

instance : Inhabited Unbonding := ⟨empty 32⟩

/-- The entries of an account, in the order in which they came. -/
def pending (u : Unbonding) (who : AccountId) : List Pending := u.entries.getD who []

/-- What an account can claim at a block. -/
def claimable (u : Unbonding) (who : AccountId) (block : Block) : Amount :=
  Pending.total ((u.pending who).filter fun e => e.isMatured block)

/-- All that an account waits for. -/
def totalPending (u : Unbonding) (who : AccountId) : Amount := Pending.total (u.pending who)

/-- Whether there is room for an amount. -/
def checkEnqueue (u : Unbonding) (who : AccountId) (amount : Amount) (unlock block : Block) :
    Except LedgerError Unit :=
  if amount = 0 then .error .insufficientAmount
  else match (u.pending who).find? fun e => e.unlockBlock = unlock with
    | some e => if (e.amount.add? amount).isNone then .error .overflow else .ok ()
    | none =>
      if (u.pending who).length < u.capacity.toNat then .ok ()
      else if (u.pending who).any fun e => e.isMatured block then .ok ()
      else .error (.ledgerFull u.capacity)

/-- Enters an amount, and returns what was released to make room for it. -/
def enqueue (u : Unbonding) (who : AccountId) (amount : Amount) (unlock block : Block) :
    Except LedgerError (Amount × Unbonding) := do
  u.checkEnqueue who amount unlock block
  let list := u.pending who
  if list.any fun e => e.unlockBlock = unlock then
    return (0, { u with entries := u.entries.insert who (Pending.merge amount unlock list) })
  else if list.length < u.capacity.toNat then
    return (0, { u with entries := u.entries.insert who (list ++ [⟨amount, unlock⟩]) })
  else
    let kept := list.filter fun e => !e.isMatured block
    return (Pending.total (list.filter fun e => e.isMatured block),
      { u with entries := u.entries.insert who (kept ++ [⟨amount, unlock⟩]) })

/-- Takes the matured entries of an account out, and returns their sum. An empty list is not
kept. -/
def claim (u : Unbonding) (who : AccountId) (block : Block) : Amount × Unbonding :=
  match u.entries.get? who with
  | none => (0, u)
  | some list =>
    let kept := list.filter fun e => !e.isMatured block
    (Pending.total (list.filter fun e => e.isMatured block),
      { u with entries := if kept.isEmpty then u.entries.erase who else u.entries.insert who kept })

end Unbonding

end Stakebook
