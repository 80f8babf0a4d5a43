import Stakebook.PoolId

/-!
# Queued swaps

A swap burns shares of one pool at once and credits another pool only after a delay, so that nobody
can move the price of two pools in one step. In between it waits in a queue. Its owner may choose
another target until it matures; from then on it is frozen and may be executed.
-/

namespace Stakebook

/-- A swap that waits. -/
structure QueuedSwap where
  id : SwapId
  account : AccountId
  target : PoolId
  balance : Amount
  queuedAt : Block
  executeAfter : Block
deriving DecidableEq

/-- Whether a swap may be executed at a block. -/
def QueuedSwap.isMatured (s : QueuedSwap) (block : Block) : Bool := s.executeAfter ≤ block

/-- The swaps by number, the order in which they came, and the next number. -/
structure SwapQueue where
  entries : OrdMap SwapId QueuedSwap
  order : List SwapId
  nextId : SwapId
deriving DecidableEq

namespace SwapQueue

/-- No swaps. -/
def empty : SwapQueue := ⟨∅, [], 0⟩

instance : Inhabited SwapQueue := ⟨empty⟩

/-- The swap of a number. -/
def get? (q : SwapQueue) (id : SwapId) : Option QueuedSwap := q.entries.get? id

/-- Whether a swap of a balance can be queued. -/
def checkEnqueue (q : SwapQueue) (balance : Amount) : Except LedgerError Unit :=
  if balance = 0 then .error .insufficientAmount
  else if (q.nextId.add? 1).isNone then .error .overflow
  else .ok ()

/-- Queues a swap that matures after a delay, and returns its number. -/
def enqueue (q : SwapQueue) (who : AccountId) (target : PoolId) (balance : Amount)
    (block delay : Block) : Except LedgerError (SwapId × SwapQueue) := do
  q.checkEnqueue balance
  let id := q.nextId
  return (id,
    { entries := q.entries.insert id
        { id, account := who, target, balance, queuedAt := block,
          executeAfter := block.satAdd delay }
      order := q.order ++ [id]
      nextId := id + 1 })

/-- The swap that an account may give another target: its own, before it matures. -/
def checkUpdate (q : SwapQueue) (id : SwapId) (who : AccountId) (block : Block) :
    Except LedgerError QueuedSwap :=
  match q.get? id with
  | none => .error (.swapNotFound id)
  | some s =>
    if s.account ≠ who then .error .unauthorized
    else if s.isMatured block then .error (.queueLocked id s.executeAfter)
    else .ok s

/-- Gives a swap another target. -/
def update (q : SwapQueue) (id : SwapId) (who : AccountId) (target : PoolId) (block : Block) :
    Except LedgerError SwapQueue := do
  let s ← q.checkUpdate id who block
  return { q with entries := q.entries.insert id { s with target } }

/-- The swap that may be executed. -/
def checkMatured (q : SwapQueue) (id : SwapId) (block : Block) : Except LedgerError QueuedSwap :=
  match q.get? id with
  | none => .error (.swapNotFound id)
  | some s => if s.isMatured block then .ok s else .error (.notMatured id s.executeAfter)

/-- Takes a swap out of the queue; without a swap of that number the queue stays as it is. -/
def remove (q : SwapQueue) (id : SwapId) : SwapQueue :=
  match q.get? id with
  | none => q
  | some _ =>
    { q with entries := q.entries.erase id, order := q.order.filter fun queued => queued ≠ id }

/-- The first numbers of matured swaps, in the order of the queue. -/
def ready (q : SwapQueue) (block : Block) (max : Count) : List SwapId :=
  (q.order.filter fun id => (q.get? id).any fun s => s.isMatured block).take max.toNat

/-- The swaps in the order of the queue. -/
def toList (q : SwapQueue) : List QueuedSwap := q.order.filterMap q.get?

/-- The swaps of an account, in the order of the queue. -/
def ofAccount (q : SwapQueue) (who : AccountId) : List QueuedSwap :=
  q.toList.filter fun s => s.account = who

end SwapQueue

end Stakebook
