import Stakebook.OrdMap.Basic
import Stakebook.PoolId
import Stakebook.Params

/-!
# The registry

What the ledger finds around it: the parameters of the network, the free balances of the accounts,
the active subnets and nodes, and the owners of the overwatch nodes.
-/

namespace Stakebook

/-- What is kept of an account: its free balance. -/
structure AccountInfo where
  free : Amount
deriving DecidableEq, Inhabited

namespace AccountInfo

/-- Whether an amount can be taken. -/
def canDebit (a : AccountInfo) (amount : Amount) : Bool := amount ≤ a.free

/-- Takes an amount, if there is enough. -/
def debit? (a : AccountInfo) (amount : Amount) : Option AccountInfo :=
  if a.canDebit amount then some ⟨a.free - amount⟩ else none

/-- Adds an amount, up to the largest word. -/
def credit (a : AccountInfo) (amount : Amount) : AccountInfo := ⟨a.free.satAdd amount⟩

/-- The message when there is not enough. -/
def insufficientMessage : String := "Balance insuffisante"

end AccountInfo

/-- Parameters, balances, and what is active. -/
structure Registry where
  network : NetworkParams
  accounts : OrdMap AccountId AccountInfo
  subnets : OrdMap SubnetId SubnetParams
  nodes : OrdSet (SubnetId × NodeId)
  watchers : OrdMap WatcherId AccountId
deriving DecidableEq

namespace Registry

/-- Nothing but the parameters. -/
def empty (network : NetworkParams) : Registry := ⟨network, ∅, ∅, ∅, ∅⟩

instance : Inhabited Registry := ⟨empty default⟩

/-! ## Administration -/

/-- Sets a free balance. -/
def setBalance (r : Registry) (who : AccountId) (free : Amount) : Registry :=
  { r with accounts := r.accounts.insert who ⟨free⟩ }

/-- Makes a subnet active, under its parameters. -/
def registerSubnet (r : Registry) (subnet : SubnetId) (params : SubnetParams) : Registry :=
  { r with subnets := r.subnets.insert subnet params }

/-- Makes a subnet inactive, and all its nodes. -/
def deactivateSubnet (r : Registry) (subnet : SubnetId) : Registry :=
  { r with
    subnets := r.subnets.erase subnet
    nodes := r.nodes.filter fun key _ => key.1 ≠ subnet }

/-- Makes a node active. -/
def registerNode (r : Registry) (subnet : SubnetId) (node : NodeId) : Registry :=
  { r with nodes := r.nodes.insert (subnet, node) () }

/-- Makes a node inactive. -/
def deactivateNode (r : Registry) (subnet : SubnetId) (node : NodeId) : Registry :=
  { r with nodes := r.nodes.erase (subnet, node) }

/-- Gives an overwatch node an owner. -/
def registerWatcher (r : Registry) (watcher : WatcherId) (owner : AccountId) : Registry :=
  { r with watchers := r.watchers.insert watcher owner }

/-! ## Free balances -/

/-- The free balance of an account. -/
def freeBalance (r : Registry) (who : AccountId) : Amount :=
  ((r.accounts.get? who).map AccountInfo.free).getD 0

/-- Takes from a free balance, if there is enough. -/
def debit (r : Registry) (who : AccountId) (amount : Amount) : Except LedgerError Registry :=
  match (r.accounts.get? who).bind fun info => info.debit? amount with
  | none => .error .insufficientBalance
  | some info => .ok { r with accounts := r.accounts.insert who info }

/-- Adds to a free balance. -/
def credit (r : Registry) (who : AccountId) (amount : Amount) : Registry :=
  { r with accounts := r.accounts.insert who ((r.accounts.getD who ⟨0⟩).credit amount) }

/-- The sum of the free balances, or the largest word if it is out of range. -/
def totalIssuance (r : Registry) : Amount :=
  r.accounts.values.foldl (fun sum info => sum.satAdd info.free) 0

/-! ## What is active -/

/-- The parameters of an active subnet. -/
def activeSubnet (r : Registry) (subnet : SubnetId) : Except LedgerError SubnetParams :=
  match r.subnets.get? subnet with
  | some params => .ok params
  | none => .error (.subnetNotActive subnet)

/-- The parameters of the subnet of an active node. A node is active only on an active subnet. -/
def activeNode (r : Registry) (subnet : SubnetId) (node : NodeId) :
    Except LedgerError SubnetParams := do
  let params ← r.activeSubnet subnet
  if r.nodes.contains (subnet, node) then return params
  else throw (.subnetNodeNotActive subnet node)

/-- The parameters of the subnet of an active pool. -/
def activePool (r : Registry) : PoolId → Except LedgerError SubnetParams
  | .subnet subnet => r.activeSubnet subnet
  | .node key => r.activeNode key.subnet key.node

/-- The parameters for leaving a subnet. An inactive subnet lets everything go, over the fallback
period of the network. -/
def leavingParams (r : Registry) (subnet : SubnetId) : SubnetParams :=
  (r.subnets.get? subnet).getD ⟨0, .max, r.network.fallbackUnbondingPeriod⟩

/-- Whether an account owns an overwatch node. -/
def checkOwner (r : Registry) (who : AccountId) (watcher : WatcherId) : Except LedgerError Unit :=
  if r.watchers.get? watcher = some who then .ok () else .error .unauthorized

end Registry

end Stakebook
