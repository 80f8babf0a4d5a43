import Stakebook.Proofs.Ledger.SwapExecution

/-!
# The life of a swap

A swap is queued under a number that was never given out before. It waits as it was queued, apart
from the target that its owner chooses, until it is executed; it is executed once, and after that
nothing finds it.

`executions`, `lastTarget` and `queuedIds` read off the answers of a run what happened to a swap.

Headlines:
* **`lt_nextId_of_history`**: every number that was given out is below the next.
* **`fate_run`**: after a run a swap waits for its last target, or was executed once and is gone.
* **`swap_life`**: the whole life of a swap, from the call that queues it.
-/

namespace Stakebook

/-- The number that a call returns for a new swap. -/
def CallOutput.queuedId? : CallOutput → Option SwapId
  | .swapQueued id => some id
  | _ => none

namespace History

/-- The numbers that were given to new swaps. -/
def queuedIds (history : List Answer) : List SwapId := history.filterMap fun a => a.2.queuedId?

/-- The executions of a swap. -/
def executions (id : SwapId) (history : List Answer) : List SwapOutcome :=
  history.flatMap fun a => a.1.executions id a.2

/-- The target of a swap after the updates that were accepted. -/
def lastTarget (id : SwapId) (start : PoolId) (history : List Answer) : PoolId :=
  history.foldl (fun target a => (a.1.retargets id).getD target) start

/-- A swap with its last target. -/
def retargeted (s : QueuedSwap) (history : List Answer) : QueuedSwap :=
  { s with target := lastTarget s.id s.target history }

@[simp] theorem id_retargeted (s : QueuedSwap) (history : List Answer) :
    (retargeted s history).id = s.id := rfl

end History

namespace Ledger

open Book Operation History

variable {l l' : Ledger} {block : Block} {id : SwapId} {s : QueuedSwap}

/-- A transaction with an output was accepted. -/
theorem effect_of_output {t : Transaction} {output : CallOutput}
    (h : (t.apply block l).1.output = some output) :
    ∃ signer, t.checkOrigin = .ok signer ∧
      Effect block l t.call signer output (t.apply block l).2 := by
  rcases t.effect_of_apply block l with ⟨signer, o, horigin, hreport, heffect⟩ | ⟨e, he⟩
  · rw [hreport] at h
    obtain rfl := Option.some.inj h
    exact ⟨signer, horigin, heffect⟩
  · rw [he] at h
    cases h

/-! ## Numbers -/

theorem nextId_le_step (l : Ledger) (e : Event) :
    l.book.swaps.nextId ≤ (l.step e).book.swaps.nextId := by
  rcases l.step_cases e with ⟨t, block, signer, output, -, -, -, h⟩ | ⟨h, -⟩
  · exact h.nextId_le
  · rw [h]
    exact Nat.le_refl _

theorem nextId_le_run (l : Ledger) (events : List Event) :
    l.book.swaps.nextId ≤ (l.run events).book.swaps.nextId := by
  induction events generalizing l with
  | nil => exact Nat.le_refl _
  | cons e events ih => exact Nat.le_trans (nextId_le_step l e) (ih (l.step e))

/-- What is queued under a number. -/
theorem Effect.queued {call : LedgerCall} {signer : Option AccountId}
    (h : Effect block l call signer (.swapQueued id) l') :
    ∃ who source target shares balance,
      signer = some who ∧ call = .swap source target shares ∧
        l.book.quoteWithdraw who source shares = .ok balance ∧
        id = l.book.swaps.nextId ∧ id < l'.book.swaps.nextId ∧
        l'.book.swaps.get? id = some
          ⟨id, who, target, balance, block, block.satAdd l.registry.network.swapDelay⟩ ∧
        ∀ p, p ≠ source →
          l'.book.pool p = l.book.pool p ∧ ∀ x, l'.book.sharesOf x p = l.book.sharesOf x p := by
  cases h with
  | @swap who source target shares balance bounds _ book swaps _ withdraw queue =>
    obtain ⟨hid, hlt⟩ := SwapQueue.nextId_enqueue queue
    refine ⟨who, source, target, shares, balance, rfl, rfl, quote_of_withdraw withdraw, hid,
      hid ▸ hlt, ?_, fun p hp => ⟨?_, fun x => ?_⟩⟩
    · rw [SwapQueue.get?_enqueue queue, if_pos rfl]
    · rw [← pool_withdraw_of_ne withdraw hp]
      cases p <;> rfl
    · have hshares := sharesOf_withdraw withdraw x p
      rw [if_neg fun he => hp he.2, Nat.add_zero] at hshares
      rw [Word.eq_iff, ← hshares]
      cases p <;> rfl

/-- **Every number that was given out is below the next.** -/
theorem lt_nextId_of_history (l : Ledger) (events : List Event) :
    ∀ id ∈ queuedIds (l.history events), id < (l.run events).book.swaps.nextId := by
  induction events generalizing l with
  | nil => nofun
  | cons e events ih =>
    intro id hid
    unfold history queuedIds at hid
    rw [List.filterMap_append, List.mem_append] at hid
    rcases hid with hid | hid
    · rcases l.step_cases e with ⟨t, block, signer, output, -, -, hanswer, h⟩ | ⟨-, hanswer⟩
      · rw [hanswer, List.mem_filterMap] at hid
        obtain ⟨a, ha, hqueued⟩ := hid
        obtain rfl := List.mem_singleton.mp ha
        have hout : output = .swapQueued id := by
          cases output <;> cases hqueued
          rfl
        subst hout
        obtain ⟨_, _, _, _, _, -, -, -, -, hlt, -⟩ := h.queued
        exact Nat.lt_of_lt_of_le hlt (nextId_le_run _ _)
      · rw [hanswer] at hid
        cases hid
    · exact ih (l.step e) id hid

/-! ## Runs -/

theorem executions_append (id : SwapId) (history history' : List Answer) :
    executions id (history ++ history') = executions id history ++ executions id history' :=
  List.flatMap_append

theorem lastTarget_append (id : SwapId) (start : PoolId) (history history' : List Answer) :
    lastTarget id start (history ++ history') =
      lastTarget id (lastTarget id start history) history' := List.foldl_append

/-- What is gone stays gone. -/
theorem gone_run (hid : l.book.swaps.get? id = none) (hlt : id < l.book.swaps.nextId)
    (events : List Event) :
    executions id (l.history events) = [] ∧ (l.run events).book.swaps.get? id = none := by
  induction events generalizing l with
  | nil => exact ⟨rfl, hid⟩
  | cons e events ih =>
    have hstep : executions id (l.answer e) = [] ∧ (l.step e).book.swaps.get? id = none := by
      rcases l.step_cases e with ⟨t, block, signer, output, -, -, hanswer, h⟩ | ⟨hbook, hanswer⟩
      · obtain ⟨hnone, hexec, -⟩ := h.get?_of_gone hid hlt
        rw [hanswer]
        exact ⟨by unfold executions; rw [List.flatMap_singleton, hexec], hnone⟩
      · rw [hanswer, hbook]
        exact ⟨rfl, hid⟩
    obtain ⟨hexec, hrest⟩ := ih hstep.2 (Nat.lt_of_lt_of_le hlt (nextId_le_step l e))
    unfold history
    rw [executions_append, hstep.1, hexec]
    exact ⟨rfl, hrest⟩

/-- **After a run a swap waits for its last target, or was executed once and is gone.** -/
theorem fate_run (hv : l.book.Valid) (hs : l.book.swaps.get? s.id = some s) (events : List Event) :
    (executions s.id (l.history events) = [] ∧ (l.run events).book.swaps.get? s.id =
      some (retargeted s (l.history events))) ∨
    ∃ outcome, executions s.id (l.history events) = [outcome] ∧
      (l.run events).book.swaps.get? s.id = none := by
  induction events generalizing l s with
  | nil => exact .inl ⟨rfl, hs⟩
  | cons e events ih =>
    have hv' := valid_step hv e
    unfold history retargeted
    rw [executions_append, lastTarget_append]
    rcases l.step_cases e with ⟨t, block, signer, output, -, -, hanswer, h⟩ | ⟨hbook, hanswer⟩
    · rw [hanswer]
      unfold executions lastTarget
      rw [List.flatMap_singleton, List.foldl_cons, List.foldl_nil]
      cases h.fate hv hs with
      | waits kept target executions =>
        rw [target, executions]
        exact ih hv' kept
      | @retargeted target _ _ _ _ kept htarget executions =>
        rw [htarget, executions]
        exact ih hv' (s := { s with target }) kept
      | @executed outcome _ gone _ executions =>
        have hlt := Nat.lt_of_lt_of_le (hv.swaps.lt_nextId _ s hs) h.nextId_le
        obtain ⟨hexec, hnone⟩ := gone_run gone hlt events
        unfold History.executions at hexec
        rw [executions, hexec]
        exact .inr ⟨outcome, rfl, hnone⟩
    · rw [hanswer]
      exact ih hv' (hbook ▸ hs)

/-! ## What is not found -/

theorem perform_executeSwap_of_none (h : l.book.swaps.get? id = none) (block : Block) :
    (executeSwap id block).perform l = (.error (.swapNotFound id), l) := by
  unfold executeSwap
  refine perform_bind_of_error ?_
  rw [perform_look]
  unfold SwapQueue.checkMatured
  rw [h]

theorem perform_updateSwap_of_none (h : l.book.swaps.get? id = none) (who : AccountId)
    (target : PoolId) (block : Block) :
    (updateSwap who id target block).perform l = (.error (.swapNotFound id), l) := by
  unfold updateSwap
  refine perform_bind_of_error ?_
  rw [perform_look]
  unfold SwapQueue.checkUpdate
  rw [h]

/-! ## The whole life -/

/-- The life of a swap over a run of events that follow the call that queued it. -/
structure Life (s : QueuedSwap) (l : Ledger) (events : List Event) : Prop where
  /-- Until it is executed the queue lists it once, as it was queued, with its last target. -/
  waits : executions s.id (l.history events) = [] →
    ((l.run events).book.swaps.toList.filter fun e => e.id = s.id) =
      [retargeted s (l.history events)]
  /-- Its owner alone gives it a target, before it matures, and an active one. -/
  updated : ∀ t block output target,
    (Transaction.apply t block (l.run events)).1.output = some output →
    t.call.retargets s.id = some target →
    executions s.id (l.history events) = [] ∧ t.origin = .signed s.account ∧
      block < s.executeAfter ∧ ∃ bounds, (l.run events).registry.activePool target = .ok bounds
  /-- It is executed when it has matured, and its balance is placed. -/
  executed : ∀ t block output outcome,
    (Transaction.apply t block (l.run events)).1.output = some output →
    outcome ∈ t.call.executions s.id output →
    executions s.id (l.history events) = [] ∧ s.executeAfter ≤ block ∧
      Executes block (t.call.swapsExecuted block (l.run events)) (l.run events)
        (retargeted s (l.history events)) outcome (t.apply block (l.run events)).2
  /-- It is executed once. -/
  once : (executions s.id (l.history events)).length ≤ 1
  /-- After that nothing finds it. -/
  gone : executions s.id (l.history events) ≠ [] →
    ((l.run events).book.swaps.toList.filter fun e => e.id = s.id) = [] ∧
      ∀ block, (executeSwap s.id block).perform (l.run events) =
          (.error (.swapNotFound s.id), l.run events) ∧
        ∀ who target, (updateSwap who s.id target block).perform (l.run events) =
          (.error (.swapNotFound s.id), l.run events)

/-- A swap that still waits. -/
theorem life_of_waiting {events : List Event} (hv : (l.run events).book.Valid)
    (hexec : executions s.id (l.history events) = [])
    (hget : (l.run events).book.swaps.get? s.id = some (retargeted s (l.history events))) :
    Life s l events := by
  refine ⟨fun _ => ?_, fun t block output target hout htarget => ?_,
    fun t block output outcome hout hmem => ?_, ?_, fun h => absurd hexec h⟩
  · rw [hv.swaps.filter_toList, hget]
    rfl
  · obtain ⟨signer, horigin, h⟩ := effect_of_output hout
    cases h.fate (s := retargeted s (l.history events)) hv hget with
    | waits _ none => cases none.symm.trans htarget
    | executed _ _ none => cases none.symm.trans htarget
    | @retargeted _ bounds owner early active _ some =>
      obtain rfl := Option.some.inj (some.symm.trans htarget)
      rw [owner] at horigin
      exact ⟨hexec, Transaction.origin_of_checkOrigin horigin,
        Nat.not_le.mp (of_decide_eq_false early), bounds, active⟩
  · obtain ⟨signer, -, h⟩ := effect_of_output hout
    cases h.fate (s := retargeted s (l.history events)) hv hget with
    | waits _ _ none | retargeted _ _ _ _ _ none =>
      rw [id_retargeted] at none
      rw [none] at hmem
      cases hmem
    | executed executes _ _ one =>
      rw [id_retargeted] at one
      rw [one] at hmem
      obtain rfl := List.mem_singleton.mp hmem
      obtain ⟨_, _, _, -, hat, -⟩ := id executes
      exact ⟨hexec, of_decide_eq_true hat.matured, executes⟩
  · rw [hexec]
    exact Nat.zero_le _

/-- A swap that was executed. -/
theorem life_of_gone {events : List Event} {outcome : SwapOutcome}
    (hv : (l.run events).book.Valid) (hlt : s.id < (l.run events).book.swaps.nextId)
    (hexec : executions s.id (l.history events) = [outcome])
    (hget : (l.run events).book.swaps.get? s.id = none) : Life s l events := by
  refine ⟨fun h => ?_, fun t block output target hout htarget => ?_,
    fun t block output outcome hout hmem => ?_, ?_, fun _ => ⟨?_, fun block => ⟨?_, ?_⟩⟩⟩
  · rw [hexec] at h
    cases h
  · obtain ⟨signer, -, h⟩ := effect_of_output hout
    obtain ⟨-, -, none⟩ := h.get?_of_gone hget hlt
    cases none.symm.trans htarget
  · obtain ⟨signer, -, h⟩ := effect_of_output hout
    obtain ⟨-, none, -⟩ := h.get?_of_gone hget hlt
    rw [none] at hmem
    cases hmem
  · rw [hexec]
    exact Nat.le_refl _
  · rw [hv.swaps.filter_toList, hget]
    rfl
  · exact perform_executeSwap_of_none hget block
  · intro who target
    exact perform_updateSwap_of_none hget who target block

/-- A queued swap has its life before it, whatever follows. -/
theorem life_of_queued (hv : l.book.Valid) (hs : l.book.swaps.get? s.id = some s)
    (events : List Event) : Life s l events := by
  rcases fate_run hv hs events with ⟨hexec, hget⟩ | ⟨outcome, hexec, hget⟩
  · exact life_of_waiting (valid_run hv events) hexec hget
  · have hlt := Nat.lt_of_lt_of_le (hv.swaps.lt_nextId _ s hs) (nextId_le_run l events)
    exact life_of_gone (valid_run hv events) hlt hexec hget

/-- **The life of a swap.** In every run of an empty book, a call that queues a swap gets a number
that was not given out before, burns shares of the source pool and touches no other pool. From then
on, whatever follows, the swap waits as it was queued but for the targets that its owner gives it in
time; it is executed once at most, when it has matured, and its balance is placed whole; and after
that nothing finds it. -/
theorem swap_life (registry : Registry) (before : List Event) (t : Transaction) (block : Block)
    (id : SwapId)
    (h : (t.apply block ((new registry).run before)).1.output = some (.swapQueued id)) :
    ∃ who source target shares balance,
      t = ⟨.signed who, .swap source target shares⟩ ∧
        ((new registry).run before).book.quoteWithdraw who source shares = .ok balance ∧
        id ∉ queuedIds ((new registry).history before) ∧
        (∀ pool, pool ≠ source →
          (t.apply block ((new registry).run before)).2.book.pool pool =
              ((new registry).run before).book.pool pool ∧
            ∀ x, (t.apply block ((new registry).run before)).2.book.sharesOf x pool =
              ((new registry).run before).book.sharesOf x pool) ∧
        ∀ after, Life ⟨id, who, target, balance, block, block.satAdd registry.network.swapDelay⟩
          (t.apply block ((new registry).run before)).2 after := by
  obtain ⟨signer, horigin, heffect⟩ := effect_of_output h
  obtain ⟨who, source, target, shares, balance, hsigner, hcall, hquote, hid, hlt, hget, hpools⟩ :=
    heffect.queued
  have hreachable : ((new registry).run before).Reachable := ⟨registry, before, rfl⟩
  have hfresh : id ∉ queuedIds ((new registry).history before) := fun hmem =>
    Nat.lt_irrefl _ (hid ▸ lt_nextId_of_history (new registry) before id hmem)
  have hnetwork : ((new registry).run before).registry.network = registry.network :=
    network_run (new registry) before
  rw [hnetwork] at hget
  refine ⟨who, source, target, shares, balance, ?_, hquote, hfresh, hpools, fun after =>
    life_of_queued (heffect.valid hreachable.valid) hget after⟩
  obtain ⟨origin, call⟩ := t
  rw [hsigner] at horigin
  exact congrArg₂ Transaction.mk (Transaction.origin_of_checkOrigin horigin) hcall

/-- A funded account and three subnets. Swaps wait for three blocks. -/
def threeSubnets : Registry :=
  ((((Registry.empty ⟨10, 2, 500000000000000000, 3, 1, 4, 2, 4⟩).setBalance (.dev 1)
    100).registerSubnet 1 ⟨0, .max, 2⟩).registerSubnet 2 ⟨0, .max, 2⟩).registerSubnet 3
    ⟨0, .max, 2⟩

/-- The account holds all shares of a pool. -/
def deposited : List Event := [.transaction ⟨.signed (.dev 1), .delegate (.subnet 1) 50⟩ 0]

/-- It swaps some of them. -/
def departure : Transaction := ⟨.signed (.dev 1), .swap (.subnet 1) (.subnet 2) 20⟩

/-- It chooses another target; a batch comes too early, and another executes the swap. -/
def detour : List Event :=
  [.transaction ⟨.signed (.dev 1), .updateSwap 0 (.subnet 3)⟩ 3,
   .transaction ⟨.system, .executeReadySwaps 5⟩ 4,
   .transaction ⟨.system, .executeReadySwaps 5⟩ 5]

theorem swap_life_retargeted :
    (departure.apply 2 ((new threeSubnets).run deposited)).1.output = some (.swapQueued 0) ∧
      Life ⟨0, .dev 1, .subnet 2, 20, 2, 5⟩
        (departure.apply 2 ((new threeSubnets).run deposited)).2 detour ∧
      executions 0 ((departure.apply 2 ((new threeSubnets).run deposited)).2.history detour) =
        [.deposited 20] ∧
      lastTarget 0 (.subnet 2)
        ((departure.apply 2 ((new threeSubnets).run deposited)).2.history detour) =
          .subnet 3 := by
  have hqueued : (departure.apply 2 ((new threeSubnets).run deposited)).1.output =
      some (.swapQueued 0) := by decide +kernel
  obtain ⟨_, _, _, _, balance, hcall, hquote, -, -, hlife⟩ :=
    swap_life threeSubnets deposited departure 2 0 hqueued
  cases hcall
  have hworth : (((new threeSubnets).run deposited).book.quoteWithdraw (.dev 1) (.subnet 1)
      20).toOption = some 20 := by decide +kernel
  rw [hquote] at hworth
  obtain rfl : balance = 20 := Option.some.inj hworth
  exact ⟨hqueued, hlife detour, by decide +kernel, by decide +kernel⟩

end Ledger

end Stakebook
