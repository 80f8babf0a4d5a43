import Stakebook.Proofs.Ledger.Effects
import Stakebook.Proofs.Pool.Price

/-!
# Runs of the ledger

A run is a list of events: transactions, and changes to the registry from outside. A ledger is
`Reachable` if some run of an empty book leads to it.

Headlines:
* **`Effect.change`**: what an accepted call does to the pools of either kind is one move, or a chain
  of deposits.
* **`step_cases`**: an event is an accepted call, or it leaves the book as it is and no trace.
* **`Effect.valid`**, **`Reachable.valid`**: every effect keeps a book valid, and so the book of every
  reachable ledger is.
* **`Effect.withinCapacity`**, **`Reachable.withinCapacity`**: no unbonding list grows past its
  capacity.
-/

namespace Stakebook

/-! ## What an effect does to the pools -/

/-- A move of the pools of one kind is a change of either kind. -/
theorem Book.PoolMove.change {b b' : Book} (h : Book.PoolMove b b') :
    SharePool.Change b.delegate b'.delegate ∧ SharePool.Change b.nodeDelegate b'.nodeDelegate := by
  cases h with
  | delegate h => exact ⟨.move h, .refl _⟩
  | nodeDelegate h => exact ⟨.refl _, .move h⟩

namespace Ledger

open Book Relation

variable {l l' : Ledger} {block : Block}

/-- An executed swap makes at most one deposit. -/
theorem SwapEffect.deposits {id : SwapId} {outcome : SwapOutcome}
    (h : SwapEffect block id l outcome l') :
    ReflTransGen SharePool.Deposited l.book.delegate l'.book.delegate ∧
      ReflTransGen SharePool.Deposited l.book.nodeDelegate l'.book.nodeDelegate := by
  cases h with
  | @deposited swap _ _ _ _ _ deposit =>
    rw [deposit_eq_ok_iff] at deposit
    cases htarget : swap.target with
    | subnet id =>
      rw [htarget] at deposit
      obtain ⟨p, deposit, rfl⟩ := deposit
      exact ⟨.single ⟨_, _, _, _, _, deposit⟩, .refl⟩
    | node key =>
      rw [htarget] at deposit
      obtain ⟨p, deposit, rfl⟩ := deposit
      exact ⟨.refl, .single ⟨_, _, _, _, _, deposit⟩⟩
  | unbonded => exact ⟨.refl, .refl⟩

/-- A batch of swaps makes one deposit after the other. -/
theorem BatchEffect.deposits {ids : List SwapId}
    {results : List (SwapId × Except LedgerError SwapOutcome)}
    (h : BatchEffect block l ids results l') :
    ReflTransGen SharePool.Deposited l.book.delegate l'.book.delegate ∧
      ReflTransGen SharePool.Deposited l.book.nodeDelegate l'.book.nodeDelegate := by
  induction h with
  | nil => exact ⟨.refl, .refl⟩
  | ok _ effect _ ih =>
    obtain ⟨hdelegate, hnode⟩ := effect.deposits
    exact ⟨hdelegate.trans ih.1, hnode.trans ih.2⟩
  | failed _ _ ih => exact ih

/-- **What an accepted call does to the pools of either kind**: nothing, one move, or a chain of
deposits. -/
theorem Effect.change {call : LedgerCall} {signer : Option AccountId} {output : CallOutput}
    (h : Effect block l call signer output l') :
    SharePool.Change l.book.delegate l'.book.delegate ∧
      SharePool.Change l.book.nodeDelegate l'.book.nodeDelegate := by
  cases h with
  | delegate _ _ deposit => exact (PoolMove.of_deposit deposit).change
  | undelegate withdraw => exact (PoolMove.of_withdraw withdraw).change
  | burn withdraw => exact (PoolMove.of_withdraw withdraw).change
  | swap _ withdraw => exact (PoolMove.of_withdraw withdraw).change
  | transfer transfer => exact (PoolMove.of_transfer transfer).change
  | distribute _ distribute => exact (PoolMove.of_distribute distribute).change
  | executeSwap effect => exact ⟨.deposits effect.deposits.1, .deposits effect.deposits.2⟩
  | executeReadySwaps batch => exact ⟨.deposits batch.deposits.1, .deposits batch.deposits.2⟩
  | addStake | removeStake | updateSwap | updateSwapByTag | claimUnbondings | commitWeights
  | revealWeights | pruneOverwatch => exact ⟨.refl _, .refl _⟩

/-! ## Valid books stay valid -/

theorem SwapEffect.valid {id : SwapId} {outcome : SwapOutcome} (hv : l.book.Valid)
    (h : SwapEffect block id l outcome l') : l'.book.Valid := by
  have hdropped : ({ l.book with swaps := l.book.swaps.remove id } : Book).Valid :=
    ⟨hv.delegate, hv.nodeDelegate, hv.swaps.remove id⟩
  cases h with
  | deposited _ _ deposit => exact hdropped.move (.of_deposit deposit)
  | unbonded => exact ⟨hv.delegate, hv.nodeDelegate, hv.swaps.remove id⟩

theorem BatchEffect.valid {ids : List SwapId}
    {results : List (SwapId × Except LedgerError SwapOutcome)} (hv : l.book.Valid)
    (h : BatchEffect block l ids results l') : l'.book.Valid := by
  induction h with
  | nil => exact hv
  | ok _ effect _ ih => exact ih (effect.valid hv)
  | failed _ _ ih => exact ih hv

/-- **Every accepted call keeps a valid book valid.** -/
theorem Effect.valid {call : LedgerCall} {signer : Option AccountId} {output : CallOutput}
    (hv : l.book.Valid) (h : Effect block l call signer output l') : l'.book.Valid := by
  cases h with
  | delegate _ _ deposit => exact hv.move (.of_deposit deposit)
  | undelegate withdraw =>
    have hbook := hv.move (.of_withdraw withdraw)
    exact ⟨hbook.delegate, hbook.nodeDelegate, hbook.swaps⟩
  | burn withdraw => exact hv.move (.of_withdraw withdraw)
  | swap _ withdraw queue =>
    have hbook := hv.move (.of_withdraw withdraw)
    exact ⟨hbook.delegate, hbook.nodeDelegate, hv.swaps.enqueue queue⟩
  | transfer transfer => exact hv.move (.of_transfer transfer)
  | distribute _ distribute => exact hv.move (.of_distribute distribute)
  | updateSwap _ update => exact ⟨hv.delegate, hv.nodeDelegate, hv.swaps.update update⟩
  | updateSwapByTag _ _ update => exact ⟨hv.delegate, hv.nodeDelegate, hv.swaps.update update⟩
  | executeSwap effect => exact effect.valid hv
  | executeReadySwaps batch => exact batch.valid hv
  | addStake | removeStake | claimUnbondings | commitWeights | revealWeights | pruneOverwatch =>
    exact ⟨hv.delegate, hv.nodeDelegate, hv.swaps⟩

/-! ## Unbonding lists stay within their capacity -/

theorem SwapEffect.withinCapacity {id : SwapId} {outcome : SwapOutcome}
    (hu : l.book.unbonding.WithinCapacity) (h : SwapEffect block id l outcome l') :
    l'.book.unbonding.WithinCapacity := by
  cases h with
  | deposited _ _ deposit =>
    rw [(PoolMove.of_deposit deposit).unbonding_eq]
    exact hu
  | unbonded _ _ enter => exact hu.enqueue enter

theorem BatchEffect.withinCapacity {ids : List SwapId}
    {results : List (SwapId × Except LedgerError SwapOutcome)}
    (hu : l.book.unbonding.WithinCapacity) (h : BatchEffect block l ids results l') :
    l'.book.unbonding.WithinCapacity := by
  induction h with
  | nil => exact hu
  | ok _ effect _ ih => exact ih (effect.withinCapacity hu)
  | failed _ _ ih => exact ih hu

/-- **No accepted call lets an unbonding list grow past its capacity.** -/
theorem Effect.withinCapacity {call : LedgerCall} {signer : Option AccountId} {output : CallOutput}
    (hu : l.book.unbonding.WithinCapacity) (h : Effect block l call signer output l') :
    l'.book.unbonding.WithinCapacity := by
  have hmove {b : Book} (move : PoolMove l.book b) : b.unbonding.WithinCapacity :=
    move.unbonding_eq ▸ hu
  cases h with
  | delegate _ _ deposit => exact hmove (.of_deposit deposit)
  | burn withdraw => exact hmove (.of_withdraw withdraw)
  | swap _ withdraw =>
    have hbook := hmove (.of_withdraw withdraw)
    exact hbook
  | transfer transfer => exact hmove (.of_transfer transfer)
  | distribute _ distribute => exact hmove (.of_distribute distribute)
  | removeStake _ _ enter => exact hu.enqueue enter
  | undelegate _ _ _ enter => exact hu.enqueue enter
  | executeSwap effect => exact effect.withinCapacity hu
  | executeReadySwaps batch => exact batch.withinCapacity hu
  | claimUnbondings claim => exact hu.claim claim
  | addStake | updateSwap | updateSwapByTag | commitWeights | revealWeights | pruneOverwatch =>
    exact hu

end Ledger

/-! ## Events -/

/-- A change to the registry from outside. -/
inductive Administration
  | setBalance (who : AccountId) (free : Amount)
  | credit (who : AccountId) (amount : Amount)
  | debit (who : AccountId) (amount : Amount)
  | registerSubnet (subnet : SubnetId) (params : SubnetParams)
  | deactivateSubnet (subnet : SubnetId)
  | registerNode (subnet : SubnetId) (node : NodeId)
  | deactivateNode (subnet : SubnetId) (node : NodeId)
  | registerWatcher (watcher : WatcherId) (owner : AccountId)

namespace Administration

/-- The registry after a change; a refused debit leaves it as it is. -/
def apply (r : Registry) : Administration → Registry
  | setBalance who free => r.setBalance who free
  | credit who amount => r.credit who amount
  | debit who amount =>
    match r.debit who amount with
    | .ok r' => r'
    | .error _ => r
  | registerSubnet subnet params => r.registerSubnet subnet params
  | deactivateSubnet subnet => r.deactivateSubnet subnet
  | registerNode subnet node => r.registerNode subnet node
  | deactivateNode subnet node => r.deactivateNode subnet node
  | registerWatcher watcher owner => r.registerWatcher watcher owner

/-- Whether a change sets free balances; all others register or deactivate. -/
def setsBalances : Administration → Bool
  | setBalance .. | credit .. | debit .. => true
  | _ => false

theorem accounts_apply {a : Administration} (h : a.setsBalances = false) (r : Registry) :
    (a.apply r).accounts = r.accounts := by
  cases a with
  | setBalance | credit | debit => cases h
  | registerSubnet | deactivateSubnet | registerNode | deactivateNode | registerWatcher => rfl

end Administration

/-- What happens to a ledger. -/
inductive Event
  | transaction (t : Transaction) (block : Block)
  | administration (a : Administration)

/-- An accepted call and its output. -/
abbrev Answer := LedgerCall × CallOutput

namespace Ledger

/-- The ledger after an event. -/
def step (l : Ledger) : Event → Ledger
  | .transaction t block => (t.apply block l).2
  | .administration a => { l with registry := a.apply l.registry }

/-- The ledger after some events. -/
def run (l : Ledger) (events : List Event) : Ledger := events.foldl step l

/-- What an event answers, if it is an accepted transaction. -/
def answer (l : Ledger) : Event → List Answer
  | .transaction t block => ((t.apply block l).1.output.map fun output => (t.call, output)).toList
  | .administration _ => []

/-- What a run answers. -/
def history (l : Ledger) : List Event → List Answer
  | [] => []
  | e :: events => l.answer e ++ history (l.step e) events

/-- A run of an empty book leads to the ledger. -/
def Reachable (l : Ledger) : Prop := ∃ registry events, (new registry).run events = l

variable {l : Ledger}

theorem run_cons (l : Ledger) (e : Event) (events : List Event) :
    l.run (e :: events) = (l.step e).run events := rfl

theorem run_append (l : Ledger) (events events' : List Event) :
    l.run (events ++ events') = (l.run events).run events' := List.foldl_append

/-- **What an empty book has and every event keeps, every reachable ledger has.** -/
theorem Reachable.induction {P : Ledger → Prop} (h : l.Reachable) (hnew : ∀ r, P (new r))
    (hstep : ∀ l, P l → ∀ e, P (l.step e)) : P l := by
  obtain ⟨registry, events, rfl⟩ := h
  suffices ∀ l, P l → P (l.run events) from this _ (hnew registry)
  induction events with
  | nil => exact fun _ h => h
  | cons e events ih => exact fun l h => ih _ (hstep l h e)

/-- **An event is an accepted call, or it leaves the book as it is and no trace.** -/
theorem step_cases (l : Ledger) (e : Event) :
    (∃ t block signer output, e = .transaction t block ∧ t.checkOrigin = .ok signer ∧
      l.answer e = [(t.call, output)] ∧ Effect block l t.call signer output (l.step e)) ∨
    (l.step e).book = l.book ∧ l.answer e = [] := by
  cases e with
  | administration a => exact .inr ⟨rfl, rfl⟩
  | transaction t block =>
    unfold step answer
    simp only
    rcases t.effect_of_apply block l with ⟨signer, output, horigin, hreport, h⟩ | ⟨e, h⟩
    · rw [hreport]
      exact .inl ⟨t, block, signer, output, rfl, horigin, rfl, h⟩
    · rw [h]
      exact .inr ⟨rfl, rfl⟩

theorem valid_step (hv : l.book.Valid) (e : Event) : (l.step e).book.Valid := by
  rcases l.step_cases e with ⟨_, _, _, _, -, -, -, h⟩ | ⟨h, -⟩
  · exact h.valid hv
  · rw [h]
    exact hv

theorem valid_run (hv : l.book.Valid) (events : List Event) : (l.run events).book.Valid := by
  induction events generalizing l with
  | nil => exact hv
  | cons e events ih => exact ih (valid_step hv e)

/-- **The book of every reachable ledger is valid.** -/
theorem Reachable.valid (h : l.Reachable) : l.book.Valid :=
  h.induction (P := fun l => l.book.Valid) (fun _ => Book.valid_empty _) fun _ hv e => valid_step hv e

/-- **No unbonding list of a reachable ledger is past its capacity.** -/
theorem Reachable.withinCapacity (h : l.Reachable) : l.book.unbonding.WithinCapacity := by
  refine h.induction (P := fun l => l.book.unbonding.WithinCapacity)
    (fun _ => Unbonding.withinCapacity_empty _) fun l hu e => ?_
  rcases l.step_cases e with ⟨_, _, _, _, -, -, -, heffect⟩ | ⟨hbook, -⟩
  · exact heffect.withinCapacity hu
  · rw [hbook]
    exact hu

end Ledger

end Stakebook
