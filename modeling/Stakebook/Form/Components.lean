import Stakebook.Form.Params
import Stakebook.Ledger.Basic

/-!
# Forms of the book and the registry

Maps whose keys are pairs have no document unless they are empty, so the components with such maps
are for the binary form.
-/

namespace Stakebook

open Form

/-! ## Pools -/

/-- The form of a node of a subnet. -/
def NodeKey.form : Form NodeKey :=
  record
    (.cons (.required "subnet_id" word32) <| .cons (.required "subnet_node_id" word32) .nil)
    (fun (subnet, node, _) => { subnet, node })
    (fun k => (k.subnet, k.node, ()))

/-- The form of the name of a pool. -/
def PoolId.form : Form PoolId :=
  sum
    [ .content "subnet" word32 .subnet (fun | .subnet id => some id | _ => none),
      .content "node" NodeKey.form .node (fun | .node key => some key | _ => none) ]

/-- The form of the name of a pool, where it stands as the target of a swap. -/
def PoolId.targetForm : Form PoolId :=
  sum
    [ .fields "to_subnet_delegate_stake" (.cons (.required "subnet_id" word32) .nil)
        (fun (id, _) => .subnet id)
        (fun | .subnet id => some (id, ()) | _ => none),
      .fields "to_node_delegate_stake"
        (.cons (.required "subnet_id" word32) <| .cons (.required "subnet_node_id" word32) .nil)
        (fun (s, n, _) => .node ⟨s, n⟩)
        (fun | .node key => some (key.subnet, key.node, ()) | _ => none) ]

/-- The form of a kind of pool. -/
def PoolKind.form : Form PoolKind :=
  sum [.unit "ToSubnetDelegateStake" .subnet, .unit "ToNodeDelegateStake" .node]

/-- The form of the totals of a pool. -/
def Pool.form : Form Pool :=
  record
    (.cons (.required "total_shares" word128) <| .cons (.required "total_balance" word128) .nil)
    (fun (totalShares, totalBalance, _) => { totalShares, totalBalance })
    (fun p => (p.totalShares, p.totalBalance, ()))

/-- The form of pools under a form of their keys. -/
def SharePool.form {κ : Type} [KeyOrder κ] (key : Form κ) (names : KeyText κ) :
    Form (SharePool κ) :=
  record
    (.cons (.required "pools" (map key names Pool.form)) <|
     .cons (.required "shares" (map (entry account key) .none word128)) <|
     .cons (.required "total_balance" word128) .nil)
    (fun (pools, shares, totalBalance, _) => { pools, shares, totalBalance })
    (fun p => (p.pools, p.shares, p.totalBalance, ()))

/-- The form of the pools of subnets. -/
def SharePool.subnetForm : Form (SharePool SubnetId) := SharePool.form word32 .word

/-- The form of the pools of nodes. -/
def SharePool.nodeForm : Form (SharePool NodeKey) := SharePool.form NodeKey.form .none

/-! ## Stakes, unbonding and swaps -/

/-- The form of the direct stakes. -/
def Stakes.form : Form Stakes :=
  record
    (.cons (.required "stakes" (map (entry account word32) .none word128)) <|
     .cons (.required "subnet_totals" (map word32 .word word128)) <|
     .cons (.required "total_stake" word128) .nil)
    (fun (balances, subnetTotals, total, _) => { balances, subnetTotals, total })
    (fun s => (s.balances, s.subnetTotals, s.total, ()))

/-- The form of an amount that unlocks at a block. -/
def Pending.form : Form Pending :=
  record
    (.cons (.required "amount" word128) <| .cons (.required "unlock_block" word64) .nil)
    (fun (amount, unlockBlock, _) => { amount, unlockBlock })
    (fun e => (e.amount, e.unlockBlock, ()))

/-- The form of the unbonding lists. -/
def Unbonding.form : Form Unbonding :=
  record
    (.cons (.required "entries" (map account .account (list Pending.form))) <|
     .cons (.required "capacity" word64) .nil)
    (fun (entries, capacity, _) => { entries, capacity })
    (fun u => (u.entries, u.capacity, ()))

/-- The form of a queued swap. -/
def QueuedSwap.form : Form QueuedSwap :=
  record
    (.cons (.required "id" word64) <|
     .cons (.required "account" Form.account) <|
     .cons (.required "target" PoolId.targetForm) <|
     .cons (.required "balance" word128) <|
     .cons (.required "queued_at_block" word64) <|
     .cons (.required "execute_after_block" word64) .nil)
    (fun (id, account, target, balance, queuedAt, executeAfter, _) =>
      { id, account, target, balance, queuedAt, executeAfter })
    (fun s => (s.id, s.account, s.target, s.balance, s.queuedAt, s.executeAfter, ()))

/-- The form of the queue of swaps. -/
def SwapQueue.form : Form SwapQueue :=
  record
    (.cons (.required "entries" (map word64 .word QueuedSwap.form)) <|
     .cons (.required "order" (list word64)) <|
     .cons (.required "next_id" word64) .nil)
    (fun (entries, order, nextId, _) => { entries, order, nextId })
    (fun q => (q.entries, q.order, q.nextId, ()))

/-! ## Overwatch -/

/-- The form of a commit. -/
def Commit.form : Form Commit :=
  record
    (.cons (.required "subnet_id" word32) <| .cons (.required "hash" Form.digest) .nil)
    (fun (subnet, digest, _) => { subnet, digest })
    (fun c => (c.subnet, c.digest, ()))

/-- The form of a reveal. -/
def Reveal.form : Form Reveal :=
  record
    (.cons (.required "subnet_id" word32) <|
     .cons (.required "weight" word128) <|
     .cons (.required "salt" (batch byte)) .nil)
    (fun (subnet, weight, salt, _) => { subnet, weight, salt })
    (fun r => (r.subnet, r.weight, r.salt, ()))

/-- The form of the overwatch records. -/
def Overwatch.form : Form Overwatch :=
  record
    (.cons (.required "commits"
        (map (entry word64 (entry word32 word32)) .none Form.digest)) <|
     .cons (.required "reveals" (map (entry word64 (entry word32 word32)) .none word128)) .nil)
    (fun (commits, reveals, _) => { commits, reveals })
    (fun o => (o.commits, o.reveals, ()))

/-! ## The book and the registry -/

/-- The form of the book. -/
def Book.form : Form Book :=
  record
    (.cons (.required "stakes" Stakes.form) <|
     .cons (.required "delegate" SharePool.subnetForm) <|
     .cons (.required "node_delegate" SharePool.nodeForm) <|
     .cons (.required "unbonding" Unbonding.form) <|
     .cons (.required "swaps" SwapQueue.form) <|
     .cons (.required "overwatch" Overwatch.form) .nil)
    (fun (stakes, delegate, nodeDelegate, unbonding, swaps, overwatch, _) =>
      { stakes, delegate, nodeDelegate, unbonding, swaps, overwatch })
    (fun b => (b.stakes, b.delegate, b.nodeDelegate, b.unbonding, b.swaps, b.overwatch, ()))

/-- The form of what is kept of an account. -/
def AccountInfo.form : Form AccountInfo :=
  record (.cons (.required "free" word128) .nil) (fun (free, _) => { free })
    (fun a => (a.free, ()))

/-- The form of the registry. -/
def Registry.form : Form Registry :=
  record
    (.cons (.required "network" NetworkParams.form) <|
     .cons (.required "accounts" (map account .account AccountInfo.form)) <|
     .cons (.required "subnets" (map word32 .word SubnetParams.form)) <|
     .cons (.required "nodes" (set (entry word32 word32))) <|
     .cons (.required "overwatch_nodes" (map word32 .word account)) .nil)
    (fun (network, accounts, subnets, nodes, watchers, _) =>
      { network, accounts, subnets, nodes, watchers })
    (fun r => (r.network, r.accounts, r.subnets, r.nodes, r.watchers, ()))

end Stakebook
