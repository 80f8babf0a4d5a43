import Stakebook.Form.Components
import Stakebook.Transaction

/-!
# Forms of transactions

Calls on the pools of subnets and of nodes are variants of their own, so one call of the ledger has
up to four of them.
-/

namespace Stakebook

open Form

/-- The form of an origin. -/
def Origin.form : Form Origin :=
  sum
    [ .content "signed" account .signed (fun | .signed who => some who | _ => none),
      .unit "system" .system ]

/-- The form of a call. -/
def LedgerCall.form : Form LedgerCall :=
  sum
    [ .fields "add_stake"
        (.cons (.required "subnet_id" word32) <| .cons (.required "amount" word128) .nil)
        (fun (subnet, amount, _) => .addStake subnet amount)
        (fun | .addStake subnet amount => some (subnet, amount, ()) | _ => none),
      .fields "remove_stake"
        (.cons (.required "subnet_id" word32) <| .cons (.required "amount" word128) .nil)
        (fun (subnet, amount, _) => .removeStake subnet amount)
        (fun | .removeStake subnet amount => some (subnet, amount, ()) | _ => none),
      .fields "add_delegate_stake"
        (.cons (.required "subnet_id" word32) <| .cons (.required "amount" word128) .nil)
        (fun (subnet, amount, _) => .delegate (.subnet subnet) amount)
        (fun | .delegate (.subnet subnet) amount => some (subnet, amount, ()) | _ => none),
      .fields "remove_delegate_stake"
        (.cons (.required "subnet_id" word32) <| .cons (.required "shares" word128) .nil)
        (fun (subnet, shares, _) => .undelegate (.subnet subnet) shares)
        (fun | .undelegate (.subnet subnet) shares => some (subnet, shares, ()) | _ => none),
      .fields "swap_delegate_stake"
        (.cons (.required "from_subnet_id" word32) <|
         .cons (.required "to_subnet_id" word32) <|
         .cons (.required "shares" word128) .nil)
        (fun (source, target, shares, _) => .swap (.subnet source) (.subnet target) shares)
        (fun
          | .swap (.subnet source) (.subnet target) shares => some (source, target, shares, ())
          | _ => none),
      .fields "transfer_delegate_stake"
        (.cons (.required "subnet_id" word32) <|
         .cons (.required "to" account) <|
         .cons (.required "shares" word128) .nil)
        (fun (subnet, target, shares, _) => .transfer (.subnet subnet) target shares)
        (fun
          | .transfer (.subnet subnet) target shares => some (subnet, target, shares, ())
          | _ => none),
      .fields "add_node_delegate_stake"
        (.cons (.required "subnet_id" word32) <|
         .cons (.required "subnet_node_id" word32) <|
         .cons (.required "amount" word128) .nil)
        (fun (subnet, node, amount, _) => .delegate (.node ⟨subnet, node⟩) amount)
        (fun
          | .delegate (.node key) amount => some (key.subnet, key.node, amount, ())
          | _ => none),
      .fields "remove_node_delegate_stake"
        (.cons (.required "subnet_id" word32) <|
         .cons (.required "subnet_node_id" word32) <|
         .cons (.required "shares" word128) .nil)
        (fun (subnet, node, shares, _) => .undelegate (.node ⟨subnet, node⟩) shares)
        (fun
          | .undelegate (.node key) shares => some (key.subnet, key.node, shares, ())
          | _ => none),
      .fields "swap_node_delegate_stake"
        (.cons (.required "from_subnet_id" word32) <|
         .cons (.required "from_subnet_node_id" word32) <|
         .cons (.required "to_subnet_id" word32) <|
         .cons (.required "to_subnet_node_id" word32) <|
         .cons (.required "shares" word128) .nil)
        (fun (source, sourceNode, target, targetNode, shares, _) =>
          .swap (.node ⟨source, sourceNode⟩) (.node ⟨target, targetNode⟩) shares)
        (fun
          | .swap (.node source) (.node target) shares =>
            some (source.subnet, source.node, target.subnet, target.node, shares, ())
          | _ => none),
      .fields "transfer_node_delegate_stake"
        (.cons (.required "subnet_id" word32) <|
         .cons (.required "subnet_node_id" word32) <|
         .cons (.required "to" account) <|
         .cons (.required "shares" word128) .nil)
        (fun (subnet, node, target, shares, _) =>
          .transfer (.node ⟨subnet, node⟩) target shares)
        (fun
          | .transfer (.node key) target shares =>
            some (key.subnet, key.node, target, shares, ())
          | _ => none),
      .fields "swap_from_node_to_subnet"
        (.cons (.required "from_subnet_id" word32) <|
         .cons (.required "from_subnet_node_id" word32) <|
         .cons (.required "to_subnet_id" word32) <|
         .cons (.required "shares" word128) .nil)
        (fun (source, sourceNode, target, shares, _) =>
          .swap (.node ⟨source, sourceNode⟩) (.subnet target) shares)
        (fun
          | .swap (.node source) (.subnet target) shares =>
            some (source.subnet, source.node, target, shares, ())
          | _ => none),
      .fields "swap_from_subnet_to_node"
        (.cons (.required "from_subnet_id" word32) <|
         .cons (.required "to_subnet_id" word32) <|
         .cons (.required "to_subnet_node_id" word32) <|
         .cons (.required "shares" word128) .nil)
        (fun (source, target, targetNode, shares, _) =>
          .swap (.subnet source) (.node ⟨target, targetNode⟩) shares)
        (fun
          | .swap (.subnet source) (.node target) shares =>
            some (source, target.subnet, target.node, shares, ())
          | _ => none),
      .fields "update_swap_queue"
        (.cons (.required "id" word64) <| .cons (.required "target" PoolId.targetForm) .nil)
        (fun (id, target, _) => .updateSwap id target)
        (fun | .updateSwap id target => some (id, target, ()) | _ => none),
      .fields "update_swap_queue_by_call_type"
        (.cons (.required "id" word64) <|
         .cons (.required "call_type" word8) <|
         .cons (.required "to_subnet_id" word32) <|
         .cons (.required "to_subnet_node_id" word32) .nil)
        (fun (id, tag, subnet, node, _) => .updateSwapByTag id tag subnet node)
        (fun
          | .updateSwapByTag id tag subnet node => some (id, tag, subnet, node, ())
          | _ => none),
      .fields "execute_swap" (.cons (.required "id" word64) .nil)
        (fun (id, _) => .executeSwap id)
        (fun | .executeSwap id => some (id, ()) | _ => none),
      .fields "execute_ready_swaps" (.cons (.required "max" word64) .nil)
        (fun (max, _) => .executeReadySwaps max)
        (fun | .executeReadySwaps max => some (max, ()) | _ => none),
      .unit "claim_unbondings" .claimUnbondings,
      .fields "commit_overwatch_weights"
        (.cons (.required "overwatch_node_id" word32) <|
         .cons (.required "commits" (batch Commit.form)) .nil)
        (fun (watcher, commits, _) => .commitWeights watcher commits)
        (fun | .commitWeights watcher commits => some (watcher, commits, ()) | _ => none),
      .fields "reveal_overwatch_weights"
        (.cons (.required "overwatch_node_id" word32) <|
         .cons (.required "reveals" (batch Reveal.form)) .nil)
        (fun (watcher, reveals, _) => .revealWeights watcher reveals)
        (fun | .revealWeights watcher reveals => some (watcher, reveals, ()) | _ => none),
      .unit "prune_overwatch" .pruneOverwatch,
      .fields "distribute_delegate_rewards"
        (.cons (.required "subnet_id" word32) <| .cons (.required "amount" word128) .nil)
        (fun (subnet, amount, _) => .distribute (.subnet subnet) amount)
        (fun | .distribute (.subnet subnet) amount => some (subnet, amount, ()) | _ => none),
      .fields "distribute_node_delegate_rewards"
        (.cons (.required "subnet_id" word32) <|
         .cons (.required "subnet_node_id" word32) <|
         .cons (.required "amount" word128) .nil)
        (fun (subnet, node, amount, _) => .distribute (.node ⟨subnet, node⟩) amount)
        (fun
          | .distribute (.node key) amount => some (key.subnet, key.node, amount, ())
          | _ => none) ]

/-- The form of a transaction. -/
def Transaction.form : Form Transaction :=
  record
    (.cons (.required "origin" Origin.form) <| .cons (.required "call" LedgerCall.form) .nil)
    (fun (origin, call, _) => { origin, call })
    (fun t => (t.origin, t.call, ()))

/-- The digest that names a transaction: that of its binary form. -/
def Transaction.digest (t : Transaction) : Digest := Blake3.digest (Transaction.form.encode t)

end Stakebook
