import Stakebook.Proofs.Ledger.Acceptance
import Stakebook.Proofs.Ledger.SwapExecution

/-!
# Batches of swaps

A batch tries the first matured swaps of the queue, as many as it is asked for, one after the other.
Each swap has its turn on the ledger that those before it leave: its target takes the balance, or its
owner has room to wait for it, or it stays in the queue (`Verdict`).

Nothing is passed over: a swap that stays in the queue has taken up one place of the batch. So a batch
achieves something exactly if one of the swaps that it tries could be executed to begin with.

Headlines:
* **`verdict_executeSwap`**: the three things that become of a swap whose turn comes.
* **`toList_executeAll`**: a batch takes out of the queue what succeeds, and nothing else.
* **`batch_exact`**: what a batch reports and leaves.
* **`exists_ok_outcomes_iff`**: some swap of a batch succeeds exactly if one could be executed at the
  start.
* **`batch_progress`**: when a batch executes a swap, and **`batch_starves`**: when it does not.
-/

namespace Stakebook.Ledger

open Book Operation

variable {l : Ledger} {block : Block} {id : SwapId} {s : QueuedSwap}

/-! ## One turn -/

/-- The target of a swap is not active, or refuses the deposit. -/
def Refuses (l : Ledger) (s : QueuedSwap) : Prop :=
  (∃ e, l.registry.activePool s.target = .error e) ∨
    ∃ e, l.book.quoteDeposit s.target s.balance 0 = .error e

/-- What becomes of a matured swap whose turn comes on a ledger. -/
inductive Verdict (block : Block) (l : Ledger) (s : QueuedSwap) :
    Except LedgerError SwapOutcome → Prop
  /-- The target is active and takes the deposit. -/
  | deposited {bounds : SubnetParams} {shares : Shares}
      (active : l.registry.activePool s.target = .ok bounds)
      (quote : l.book.quoteDeposit s.target s.balance 0 = .ok shares) :
      Verdict block l s (.ok (.deposited shares))
  /-- The target does not take it, and the owner has room to wait. -/
  | unbonded (refused : l.Refuses s)
      (room : l.book.unbonding.checkEnqueue s.account s.balance
        (block.satAdd l.registry.network.fallbackUnbondingPeriod) block = .ok ()) :
      Verdict block l s (.ok (.unbonded (block.satAdd l.registry.network.fallbackUnbondingPeriod)))
  /-- The owner has no room either. -/
  | stays {e : LedgerError} (refused : l.Refuses s)
      (full : l.book.unbonding.checkEnqueue s.account s.balance
        (block.satAdd l.registry.network.fallbackUnbondingPeriod) block = .error e)
      (cause : e = .ledgerFull l.book.unbonding.capacity ∨ e = .overflow) :
      Verdict block l s (.error e)

theorem refuses_of_error {reason : LedgerError}
    (h : (do
      let _ ← l.registry.activePool s.target
      l.book.quoteDeposit s.target s.balance 0) = .error reason) : l.Refuses s := by
  rcases bind_eq_error_iff.mp h with hactive | ⟨_, -, hquote⟩
  · exact .inl ⟨reason, hactive⟩
  · exact .inr ⟨reason, hquote⟩

/-- **What becomes of a swap whose turn comes.** -/
theorem verdict_executeSwap (hv : l.book.Valid) (hs : l.book.swaps.get? id = some s)
    (hmatured : s.isMatured block = true) :
    Verdict block l s ((executeSwap id block).perform l).1 := by
  have hcheck : l.book.swaps.checkMatured id block = .ok s :=
    SwapQueue.checkMatured_eq_ok_iff.mpr ⟨hs, hmatured⟩
  rcases swapEffect_or_refusal block id l with ⟨outcome, l', heffect⟩ | ⟨e, hrefusal⟩
  · rw [perform_executeSwap heffect]
    cases heffect with
    | deposited matured active deposit =>
      obtain rfl := Except.ok.inj (hcheck.symm.trans matured)
      exact .deposited active ((quoteDeposit_with_swaps ..).symm.trans (quote_of_deposit deposit))
    | unbonded matured refused enter =>
      obtain rfl := Except.ok.inj (hcheck.symm.trans matured)
      exact .unbonded (refuses_of_error refused) (Unbonding.check_of_enqueue enter)
  · rw [perform_executeSwap_of_refusal hrefusal]
    cases hrefusal with
    | notMatured notMatured => cases hcheck.symm.trans notMatured
    | noRoom matured refused full =>
      obtain rfl := Except.ok.inj (hcheck.symm.trans matured)
      rcases Unbonding.error_of_checkEnqueue full with hzero | hoverflow | hfull
      · exact absurd hzero (hv.swaps.waits id s hs).balance_ne_zero
      · exact .stays (refuses_of_error refused) full (.inr hoverflow)
      · exact .stays (refuses_of_error refused) full (.inl hfull)

/-- A swap that succeeds leaves the queue, and one that fails leaves everything as it is. -/
theorem swaps_executeSwap (id : SwapId) (block : Block) (l : Ledger) :
    ((executeSwap id block).perform l).2.book.swaps =
      if ((executeSwap id block).perform l).1.isOk then l.book.swaps.remove id
      else l.book.swaps := by
  rcases h : (executeSwap id block).perform l with ⟨e | outcome, l'⟩
  · obtain rfl := atomic_executeSwap id block l e l' h
    rfl
  · exact (effect_of_executeSwap h).swaps_eq

/-- A turn leaves all other swaps as they are. -/
theorem get?_executeSwap_of_ne {i : SwapId} (hne : i ≠ id) (block : Block) (l : Ledger) :
    ((executeSwap id block).perform l).2.book.swaps.get? i = l.book.swaps.get? i := by
  rw [swaps_executeSwap]
  split
  · rw [SwapQueue.get?_remove, if_neg hne]
  · rfl

theorem valid_executeSwap (hv : l.book.Valid) (id : SwapId) (block : Block) :
    ((executeSwap id block).perform l).2.book.Valid :=
  (effect_of_batch block [id] l).valid hv

/-! ## One turn after the other -/

theorem map_fst_outcomes (block : Block) (ids : List SwapId) (l : Ledger) :
    (outcomes block ids l).map Prod.fst = ids := by
  induction ids generalizing l with
  | nil => rfl
  | cons id ids ih => exact congrArg (id :: ·) (ih _)

/-- **Each swap of a batch has its turn on the ledger that those before it leave.** Its own turn is
the first that touches it, so it is still as it was queued. -/
theorem verdict_outcomes {ids : List SwapId} {r : Except LedgerError SwapOutcome}
    {before after : List (SwapId × Except LedgerError SwapOutcome)} (hv : l.book.Valid)
    (hnodup : ids.Nodup)
    (hready : ∀ i ∈ ids, ∃ s, l.book.swaps.get? i = some s ∧ s.isMatured block = true)
    (h : outcomes block ids l = before ++ (id, r) :: after) :
    ∃ s, l.book.swaps.get? id = some s ∧
      Verdict block (executeAll block (before.map Prod.fst) l) s r := by
  induction ids generalizing l before with
  | nil => cases before <;> cases h
  | cons i ids ih =>
    unfold outcomes at h
    cases before with
    | nil =>
      cases h
      obtain ⟨s, hs, hmatured⟩ := hready id List.mem_cons_self
      exact ⟨s, hs, verdict_executeSwap hv hs hmatured⟩
    | cons b before =>
      rw [List.cons_append] at h
      obtain ⟨rfl, hrest⟩ := List.cons.inj h
      obtain ⟨hi, hnodup⟩ := List.nodup_cons.mp hnodup
      have hkept {j : SwapId} (hj : j ∈ ids) :=
        get?_executeSwap_of_ne (fun he => hi (he ▸ hj) : j ≠ i) block l
      have hmem : id ∈ ids := by
        rw [← map_fst_outcomes block ids ((executeSwap i block).perform l).2, hrest, List.map_append]
        exact List.mem_append_right _ List.mem_cons_self
      obtain ⟨s, hs, hverdict⟩ := ih (valid_executeSwap hv i block) hnodup (fun j hj => by
        rw [hkept hj]
        exact hready j (List.mem_cons_of_mem _ hj)) hrest
      exact ⟨s, (hkept hmem).symm.trans hs, hverdict⟩

/-- **A batch takes out of the queue what succeeds**, and leaves the others in their order. -/
theorem toList_executeAll (hv : l.book.Valid) (block : Block) (ids : List SwapId) :
    (executeAll block ids l).book.swaps.toList =
      l.book.swaps.toList.filter fun s => s.id ∉ succeeded (reports block ids l) := by
  induction ids generalizing l with
  | nil => exact (List.filter_eq_self.mpr fun _ _ => rfl).symm
  | cons id ids ih =>
    show (executeAll block ids ((executeSwap id block).perform l).2).book.swaps.toList = _
    rw [ih (valid_executeSwap hv id block), reports_cons, succeeded_cons, swaps_executeSwap]
    cases ((executeSwap id block).perform l).1 with
    | error e => rfl
    | ok outcome =>
      show ((l.book.swaps.remove id).toList.filter _) = _
      rw [hv.swaps.toList_remove, List.filter_filter]
      refine List.filter_congr fun s _ => ?_
      have hcons : succeeded [SwapResult.of id (.ok outcome)] = [id] := rfl
      simp only [hcons, List.singleton_append, List.mem_cons, not_or, Bool.decide_and, Bool.and_comm]

/-! ## What a batch does -/

/-- What a batch of at most `max` swaps reports and leaves. -/
structure BatchReport (block : Block) (max : Count) (l : Ledger)
    (results : List (SwapId × Except LedgerError SwapOutcome)) (l' : Ledger) : Prop where
  /-- It reports on the first matured swaps of the queue, on each once. -/
  reported : results.map Prod.fst =
    ((l.book.swaps.matured block).take max.toNat).map QueuedSwap.id
  ascending : (results.map Prod.fst).Pairwise (· < ·)
  /-- Each has its turn on the ledger that those before it leave. -/
  verdict : ∀ before id r after, results = before ++ (id, r) :: after →
    ∃ s, l.book.swaps.get? id = some s ∧
      Verdict block (executeAll block (before.map Prod.fst) l) s r
  /-- What succeeds is gone. -/
  gone : ∀ id ∈ succeeded (reportsOf results), l'.book.swaps.get? id = none
  /-- The others wait as they did. -/
  waits : l'.book.swaps.toList =
    l.book.swaps.toList.filter fun s => s.id ∉ succeeded (reportsOf results)

/-- **What a batch reports and leaves.** On every ledger that a run of an empty book leads to, it
reports on the first matured swaps of the queue in the order of their numbers. Each is deposited, or
unbonded where its target does not take it, or stays in the queue where its owner has no room
either; what succeeds is gone, and all others wait as they did. -/
theorem batch_exact (hl : l.Reachable) (block : Block) (max : Count) :
    ∃ results l', (executeReadySwaps block max).perform l = (.ok results, l') ∧
      BatchReport block max l results l' := by
  have hv := hl.valid
  have hfst := map_fst_outcomes block (l.book.swaps.ready block max) l
  have hascending := hv.swaps.ready_ascending block max
  have hwaits := toList_executeAll hv block (l.book.swaps.ready block max)
  refine ⟨_, _, perform_executeReadySwaps block max l, hfst.trans (hv.swaps.ready_eq block max),
    hfst.symm ▸ hascending, fun before id r after h => ?_, fun id hid => ?_, hwaits⟩
  · exact verdict_outcomes hv (hascending.imp Word.ne_of_lt)
      (fun i hi => SwapQueue.exists_of_mem_ready hi) h
  · cases hs : (executeAll block (l.book.swaps.ready block max) l).book.swaps.get? id with
    | none => rfl
    | some s =>
      have hv' := (effect_of_batch block (l.book.swaps.ready block max) l).valid hv
      have hid' := (hv'.swaps.waits id s hs).id_eq
      have hmem := hv'.swaps.mem_toList_iff.mpr (hid'.symm ▸ hs)
      rw [hwaits, List.mem_filter, hid'] at hmem
      exact absurd hid (of_decide_eq_true hmem.2)

/-- Two funded accounts and three subnets, in a network whose unbonding lists hold one entry. -/
def crossroads : Registry :=
  (((((Registry.empty ⟨100, 10, 1, 10, 1, 1, 100, 4⟩).setBalance (.dev 1) 100).setBalance (.dev 2)
    100).registerSubnet 1 ⟨0, .max, 1000⟩).registerSubnet 2 ⟨0, .max, 1000⟩).registerSubnet 3
    ⟨0, .max, 1000⟩

/-- Three swaps are queued. The list of the first owner fills, and then the target of its swap is
gone; it is also the target of the last. -/
def jam : List Event :=
  [.transaction ⟨.signed (.dev 1), .delegate (.subnet 1) 100⟩ 0,
   .transaction ⟨.signed (.dev 2), .delegate (.subnet 1) 100⟩ 0,
   .transaction ⟨.signed (.dev 1), .swap (.subnet 1) (.subnet 2) 40⟩ 0,
   .transaction ⟨.signed (.dev 2), .swap (.subnet 1) (.subnet 3) 40⟩ 0,
   .transaction ⟨.signed (.dev 2), .swap (.subnet 1) (.subnet 2) 20⟩ 0,
   .transaction ⟨.signed (.dev 1), .undelegate (.subnet 1) 10⟩ 0,
   .administration (.deactivateSubnet 2)]

/-- A stuck swap at the head of the queue, and two that can be executed. -/
def jammed : Ledger := (new crossroads).run jam

theorem batch_exact_jammed :
    jammed.Reachable ∧ ∃ l', BatchReport 10 9 jammed
      [(0, .error (.ledgerFull 1)), (1, .ok (.deposited 40)), (2, .ok (.unbonded 110))] l' := by
  have hl : jammed.Reachable := ⟨crossroads, jam, rfl⟩
  obtain ⟨results, l', hperform, hreport⟩ := batch_exact hl 10 9
  have hresults : ((executeReadySwaps 10 9).perform jammed).1.toOption =
      some [(0, .error (.ledgerFull 1)), (1, .ok (.deposited 40)), (2, .ok (.unbonded 110))] := by
    decide +kernel
  rw [hperform] at hresults
  obtain rfl := Option.some.inj hresults
  exact ⟨hl, l', hreport⟩

/-! ## What a batch achieves -/

/-- Whether a swap can be executed on a ledger. -/
def executable (l : Ledger) (block : Block) (s : QueuedSwap) : Bool :=
  ((executeSwap s.id block).perform l).1.isOk

/-- The matured swaps that cannot be executed on a ledger. -/
def stuck (l : Ledger) (block : Block) : List QueuedSwap :=
  (l.book.swaps.matured block).filter fun s => !l.executable block s

/-- **Some swap of a batch succeeds exactly if one could be executed at the start**: those before the
first that succeeds leave the ledger as it is. -/
theorem exists_ok_outcomes_iff (block : Block) (ids : List SwapId) (l : Ledger) :
    (∃ id outcome, (id, .ok outcome) ∈ outcomes block ids l) ↔
      ∃ id ∈ ids, ((executeSwap id block).perform l).1.isOk = true := by
  induction ids with
  | nil =>
    constructor
    · rintro ⟨_, _, h⟩
      cases h
    · rintro ⟨_, h, -⟩
      cases h
  | cons id ids ih =>
    unfold outcomes
    rcases h : (executeSwap id block).perform l with ⟨e | outcome, l'⟩
    · rw [atomic_executeSwap id block l e l' h]
      constructor
      · rintro ⟨i, outcome, hmem⟩
        rcases List.mem_cons.mp hmem with heq | hmem
        · cases heq
        · obtain ⟨j, hj, hok⟩ := ih.mp ⟨i, outcome, hmem⟩
          exact ⟨j, List.mem_cons_of_mem _ hj, hok⟩
      · rintro ⟨j, hj, hok⟩
        rcases List.mem_cons.mp hj with rfl | hj
        · rw [h] at hok
          cases hok
        · obtain ⟨i, outcome, hmem⟩ := ih.mpr ⟨j, hj, hok⟩
          exact ⟨i, outcome, List.mem_cons_of_mem _ hmem⟩
    · refine ⟨fun _ => ⟨id, List.mem_cons_self, ?_⟩, fun _ => ⟨id, outcome, List.mem_cons_self⟩⟩
      rw [h]
      rfl

/-- Fewer members that fail a test than are taken leave one of those that pass it among them. -/
theorem exists_mem_take {α : Type} {p : α → Bool} {xs : List α} {n : Nat}
    (hn : (xs.filter fun x => !p x).length < n) (h : ∃ x ∈ xs, p x = true) :
    ∃ x ∈ xs.take n, p x = true := by
  by_contra hnone
  have hfail : ∀ x ∈ xs.take n, (!p x) = true := by
    intro x hx
    cases hp : p x with
    | true => exact absurd ⟨x, hx, hp⟩ hnone
    | false => rfl
  have hle := ((List.take_sublist n xs).filter fun x => !p x).length_le
  rw [List.filter_eq_self.mpr hfail, List.length_take] at hle
  rw [List.take_of_length_le (by omega)] at hnone
  exact hnone h

/-- **When a batch executes a swap**: on every ledger that a run of an empty book leads to, exactly if
one of the first matured swaps, as many as the batch tries, can be executed. So it does whenever it
tries more than are stuck and any matured swap can be executed. -/
theorem batch_progress (hl : l.Reachable) (block : Block) (max : Count) :
    ∃ results l', (executeReadySwaps block max).perform l = (.ok results, l') ∧
      ((∃ id outcome, (id, .ok outcome) ∈ results) ↔
        ∃ s ∈ (l.book.swaps.matured block).take max.toNat, l.executable block s = true) ∧
      ((l.stuck block).length < max.toNat →
        (∃ s ∈ l.book.swaps.matured block, l.executable block s = true) →
          ∃ id outcome, (id, .ok outcome) ∈ results) := by
  have hsome : (∃ id outcome,
        (id, .ok outcome) ∈ outcomes block (l.book.swaps.ready block max) l) ↔
      ∃ s ∈ (l.book.swaps.matured block).take max.toNat, l.executable block s = true := by
    rw [exists_ok_outcomes_iff, hl.valid.swaps.ready_eq]
    simp only [List.mem_map, exists_exists_and_eq_and, executable]
  exact ⟨_, _, perform_executeReadySwaps block max l, hsome,
    fun hmore hexecutable => hsome.mpr (exists_mem_take hmore hexecutable)⟩

theorem batch_progress_jammed :
    jammed.Reachable ∧ (jammed.stuck 10).length < (2 : Count).toNat ∧
      ∃ results l', (executeReadySwaps 10 2).perform jammed = (.ok results, l') ∧
        ∃ id outcome, (id, .ok outcome) ∈ results := by
  have hl : jammed.Reachable := ⟨crossroads, jam, rfl⟩
  have hmore : (jammed.stuck 10).length < (2 : Count).toNat := by decide +kernel
  obtain ⟨results, l', hperform, -, hprogress⟩ := batch_progress hl 10 2
  exact ⟨hl, hmore, results, l', hperform, hprogress hmore (by decide +kernel)⟩

/-- **A batch need not achieve anything**, also where a matured swap can be executed: a batch of one
tries the swap at the head of the queue, and no other. -/
theorem batch_starves :
    ¬ ∀ (l : Ledger) (block : Block) (max : Count), l.Reachable → 1 ≤ max →
      (∃ s ∈ l.book.swaps.matured block, l.executable block s = true) →
        ∃ results l', (executeReadySwaps block max).perform l = (.ok results, l') ∧
          ∃ id outcome, (id, .ok outcome) ∈ results := by
  intro h
  obtain ⟨results, l', hperform, id, outcome, hmem⟩ :=
    h jammed 10 1 ⟨crossroads, jam, rfl⟩ (by decide) (by decide +kernel)
  have hresults : ((executeReadySwaps 10 1).perform jammed).1.toOption =
      some [(0, .error (.ledgerFull 1))] := by
    decide +kernel
  rw [hperform] at hresults
  obtain rfl := Option.some.inj hresults
  cases List.mem_singleton.mp hmem

end Stakebook.Ledger
