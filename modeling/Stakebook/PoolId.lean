import Stakebook.SharePool

/-!
# Names of pools

A subnet has one pool, and so has each of its nodes. The two kinds of pool are numbered for callers
that cannot pass a sum.
-/

namespace Stakebook

/-- A node of a subnet. -/
@[ext] structure NodeKey where
  subnet : SubnetId
  node : NodeId
deriving DecidableEq

namespace NodeKey

/-- By subnet, and then by node. -/
instance : KeyOrder NodeKey :=
  KeyOrder.comap (fun k => (k.subnet, k.node)) fun h =>
    NodeKey.ext (Prod.ext_iff.1 h).1 (Prod.ext_iff.1 h).2

/-- The name of a node. -/
def name (k : NodeKey) : String := k.subnet.text ++ "/" ++ k.node.text

end NodeKey

/-- A pool: of a subnet, or of one node of a subnet. -/
inductive PoolId
  | subnet (id : SubnetId)
  | node (key : NodeKey)
deriving DecidableEq

/-- The kinds of pool. -/
inductive PoolKind
  | subnet
  | node
deriving DecidableEq

namespace PoolKind

/-- The number of a kind. -/
def tag : PoolKind → Word 8
  | .subnet => 0
  | .node => 1

/-- The kind of a number. -/
def ofTag (tag : Word 8) : Except LedgerError PoolKind :=
  if tag = 0 then .ok .subnet else if tag = 1 then .ok .node else .error (.invalidCallType tag)

end PoolKind

namespace PoolId

/-- The subnet that a pool belongs to. -/
def subnetId : PoolId → SubnetId
  | .subnet id => id
  | .node key => key.subnet

/-- The node that a pool belongs to, if it belongs to one. -/
def nodeId? : PoolId → Option NodeId
  | .subnet _ => none
  | .node key => some key.node

/-- The kind of a pool. -/
def kind : PoolId → PoolKind
  | .subnet _ => .subnet
  | .node _ => .node

/-- The pool of a numbered kind; the node is ignored for the pool of a subnet. -/
def ofParts (tag : Word 8) (subnetId : SubnetId) (nodeId : NodeId) :
    Except LedgerError PoolId := do
  match ← PoolKind.ofTag tag with
  | .subnet => return .subnet subnetId
  | .node => return .node ⟨subnetId, nodeId⟩

/-- The name of a pool. -/
def name : PoolId → String
  | .subnet id => "subnet " ++ id.text
  | .node key => "node " ++ key.name

end PoolId

end Stakebook
