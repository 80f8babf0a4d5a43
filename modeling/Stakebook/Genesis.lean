import Stakebook.Form.Components

/-!
# The first ledger

A genesis says which accounts have balances, which subnets and nodes are active, and who owns the
overwatch nodes. Together with a configuration it gives a ledger without records.
-/

namespace Stakebook

open Form

/-- A subnet of the genesis: its parameters, if it sets them, and its active nodes. -/
structure GenesisSubnet where
  params : Option SubnetParams
  nodes : List NodeId
deriving DecidableEq

/-- Balances, active subnets, and owners of overwatch nodes. -/
structure Genesis where
  balances : OrdMap AccountId Amount
  subnets : OrdMap SubnetId GenesisSubnet
  watchers : OrdMap WatcherId AccountId
deriving DecidableEq

/-- The form of a subnet of the genesis. -/
def GenesisSubnet.form : Form GenesisSubnet :=
  record
    (.cons (.withDefault "params" (option SubnetParams.form) none) <|
     .cons (.withDefault "nodes" (list word32) []) .nil)
    (fun (params, nodes, _) => { params, nodes })
    (fun s => (s.params, s.nodes, ()))

namespace Genesis

/-- The form of a genesis; a part that is missing is empty. -/
def form : Form Genesis :=
  record
    (.cons (.withDefault "balances" (map account .account word128) ∅) <|
     .cons (.withDefault "subnets" (map word32 .word GenesisSubnet.form) ∅) <|
     .cons (.withDefault "overwatch_nodes" (map word32 .word account) ∅) .nil)
    (fun (balances, subnets, watchers, _) => { balances, subnets, watchers })
    (fun g => (g.balances, g.subnets, g.watchers, ()))

/-- The genesis for development: three accounts with a million tokens each, two subnets with three
nodes each, and an overwatch node of the first account. -/
def dev : Genesis where
  balances := .ofList ([1, 2, 3].map fun b => (.dev b, 1000000000000000000000000))
  subnets := .ofList ([1, 2].map fun s => (s, ⟨none, [1, 2, 3]⟩))
  watchers := .ofList [(1, .dev 1)]

/-- Makes the nodes of a subnet active, each of which may be listed once. -/
def registerNodes (subnet : SubnetId) :
    List NodeId → OrdSet NodeId → Registry → Except ConfigError Registry
  | [], _, r => .ok r
  | node :: nodes, seen, r =>
    if seen.contains node then .error (.nodeListedTwice subnet node)
    else registerNodes subnet nodes (seen.insert node ()) (r.registerNode subnet node)

/-- Makes a subnet of the genesis active, with its nodes. -/
def registerSubnet (defaults : SubnetParams) (r : Registry) (entry : SubnetId × GenesisSubnet) :
    Except ConfigError Registry := do
  let params := entry.2.params.getD defaults
  params.validate
  registerNodes entry.1 entry.2.nodes ∅ (r.registerSubnet entry.1 params)

/-- The ledger of a genesis under a configuration. -/
def build (config : LedgerConfig) (g : Genesis) : Except ConfigError Ledger := do
  config.validate
  let r := g.balances.toList.foldl (fun r e => r.setBalance e.1 e.2)
    (Registry.empty config.network)
  let r ← g.subnets.toList.foldlM (registerSubnet config.subnetDefaults) r
  let r := g.watchers.toList.foldl (fun r e => r.registerWatcher e.1 e.2) r
  return .new r

end Genesis

end Stakebook
