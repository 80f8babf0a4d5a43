import Stakebook.Proofs.Collision
import Stakebook.Proofs.Ledger.Frames
import Stakebook.Proofs.Overwatch

/-!
# Revealed weights are bound to their commits

In a run whose blocks never decrease, an epoch that was open for reveals is closed for commits ever
after. So the commit that a recorded weight was checked against stays, and with it every other weight
that could be revealed later has to have the same digest.

Headlines:
* **`Effect.record`**: what a call does to the commit and the weight of one epoch, node and subnet.
* **`Sealed.run`**: every recorded weight is in range, fits its commit by a salt that was submitted,
  and its epoch is closed for commits.
* **`reveals_bound`**: and without collisions no weight ever changes; pruning drops it with its
  commit.
-/

namespace Stakebook

/-- What a call reveals. -/
def LedgerCall.reveals : LedgerCall → List Reveal
  | .revealWeights _ reveals => reveals.items
  | _ => []

namespace Event

/-- The block of a transaction. -/
def block? : Event → Option Block
  | .transaction _ block => some block
  | .administration _ => none

/-- What an event reveals, accepted or not. -/
def reveals : Event → List Reveal
  | .transaction t _ => t.call.reveals
  | .administration _ => []

end Event

/-- The blocks of a run, in order. -/
def blocks (events : List Event) : List Block := events.filterMap Event.block?

/-- All that was submitted to be revealed. -/
def submitted (events : List Event) : List Reveal := events.flatMap Event.reveals

theorem submitted_append (events events' : List Event) :
    submitted (events ++ events') = submitted events ++ submitted events' := List.flatMap_append

namespace Ledger

open Overwatch

variable {l l' : Ledger} {block later : Block} {call : LedgerCall} {signer : Option AccountId}
  {output : CallOutput} {epoch : Epoch} {watcher : WatcherId} {subnet : SubnetId} {w : Weight}

/-- The digest that is committed. -/
def commitOf (l : Ledger) (epoch : Epoch) (watcher : WatcherId) (subnet : SubnetId) :
    Option Digest := l.book.overwatch.commitOf epoch watcher subnet

/-- The weight that is revealed. -/
def revealOf (l : Ledger) (epoch : Epoch) (watcher : WatcherId) (subnet : SubnetId) :
    Option Weight := l.book.overwatch.revealOf epoch subnet watcher

/-! ## One record -/

/-- What is recorded for one epoch, node and subnet stays. -/
def Stays (epoch : Epoch) (watcher : WatcherId) (subnet : SubnetId) (w : Weight) (l l' : Ledger) :
    Prop :=
  l'.revealOf epoch watcher subnet = some w ∧
    l'.commitOf epoch watcher subnet = l.commitOf epoch watcher subnet

/-- Nothing is recorded for one epoch, node and subnet. -/
def Unrecorded (epoch : Epoch) (watcher : WatcherId) (subnet : SubnetId) (l : Ledger) : Prop :=
  l.revealOf epoch watcher subnet = none ∧ l.commitOf epoch watcher subnet = none

/-- What a call does to the commit and the weight of one epoch, node and subnet. -/
inductive RecordChange (network : NetworkParams) (block : Block) (call : LedgerCall) (epoch : Epoch)
    (watcher : WatcherId) (subnet : SubnetId) (l l' : Ledger) : Prop
  | kept (commit : l'.commitOf epoch watcher subnet = l.commitOf epoch watcher subnet)
      (reveal : l'.revealOf epoch watcher subnet = l.revealOf epoch watcher subnet)
  | committed (window : network.schedule.current block = (epoch, .commitOpen))
      (reveal : l'.revealOf epoch watcher subnet = l.revealOf epoch watcher subnet)
  | revealed {r : Reveal} (mem : r ∈ call.reveals) (about : r.subnet = subnet)
      (window : network.schedule.current block = (epoch, .revealOpen)) (range : r.weight ≤ unity)
      (fits : l.commitOf epoch watcher subnet = some (commitDigest r.weight r.salt.items))
      (commit : l'.commitOf epoch watcher subnet = l.commitOf epoch watcher subnet)
      (reveal : l'.revealOf epoch watcher subnet = some r.weight)
  | pruned (prune : call = .pruneOverwatch) (old : epoch < network.firstRetained block)
      (commit : l'.commitOf epoch watcher subnet = none)
      (reveal : l'.revealOf epoch watcher subnet = none)

/-- **What an accepted call does to one record.** -/
theorem Effect.record (h : Effect block l call signer output l') (epoch : Epoch)
    (watcher : WatcherId) (subnet : SubnetId) :
    RecordChange l.registry.network block call epoch watcher subnet l l' := by
  have hkept := h.overwatch_eq
  cases h with
  | @commitWeights who w commits now overwatch _ _ commit =>
    have hreveals : overwatch.revealOf epoch subnet watcher =
        l.book.overwatch.revealOf epoch subnet watcher := by
      unfold Overwatch.revealOf
      rw [reveals_commitMany commit]
    by_cases he : epoch = now
    · subst he
      exact .committed (checkCommits_eq_ok_iff.mp (commitMany_eq_ok_iff.mp commit).1).1 hreveals
    · exact .kept (commitOf_commitMany_of_ne commit (.inl he) subnet) hreveals
  | @revealWeights who w reveals now overwatch _ reveal =>
    obtain ⟨hwindow, -, hfits⟩ := checkReveals_eq_ok_iff.mp (revealMany_eq_ok_iff.mp reveal).1
    have hcommits : overwatch.commitOf epoch watcher subnet =
        l.book.overwatch.commitOf epoch watcher subnet := by
      unfold Overwatch.commitOf
      rw [commits_revealMany reveal]
    rcases revealOf_revealMany reveal epoch subnet watcher with
      hsame | ⟨rfl, rfl, r, hr, rfl, hweight⟩
    · exact .kept hcommits hsame
    · obtain ⟨hrange, hfit⟩ := checkReveal_eq_ok_iff.mp (hfits r hr)
      exact .revealed hr rfl hwindow hrange hfit hcommits hweight
  | @pruneOverwatch _ _ overwatch prune =>
    obtain rfl : (l.book.overwatch.prune (l.registry.network.firstRetained block)).2 = overwatch :=
      congrArg Prod.snd prune
    have hcommit := commitOf_prune l.book.overwatch (l.registry.network.firstRetained block) epoch
      watcher subnet
    have hreveal := revealOf_prune l.book.overwatch (l.registry.network.firstRetained block) epoch
      subnet watcher
    by_cases hold : epoch < l.registry.network.firstRetained block
    · rw [if_pos hold] at hcommit hreveal
      exact .pruned rfl hold hcommit hreveal
    · rw [if_neg hold] at hcommit hreveal
      exact .kept hcommit hreveal
  | addStake | removeStake | delegate | undelegate | burn | swap | transfer | updateSwap
  | updateSwapByTag | executeSwap | executeReadySwaps | claimUnbondings | distribute =>
    have hsame := hkept rfl
    exact .kept (by unfold commitOf; rw [hsame]) (by unfold revealOf; rw [hsame])

/-- What an event does to one record. -/
theorem record_step (l : Ledger) (e : Event) (epoch : Epoch) (watcher : WatcherId)
    (subnet : SubnetId) :
    ((l.step e).commitOf epoch watcher subnet = l.commitOf epoch watcher subnet ∧
      (l.step e).revealOf epoch watcher subnet = l.revealOf epoch watcher subnet) ∨
    ∃ t block, e = .transaction t block ∧
      RecordChange l.registry.network block t.call epoch watcher subnet l (l.step e) := by
  rcases l.step_cases e with ⟨t, block, _, _, rfl, -, -, h⟩ | ⟨h, -⟩
  · exact .inr ⟨t, block, rfl, h.record epoch watcher subnet⟩
  · refine .inl ?_
    unfold commitOf revealOf
    rw [h]
    exact ⟨rfl, rfl⟩

/-! ## Recorded weights are sealed -/

/-- Every recorded weight is in range and fits its commit by a salt that was submitted, and its epoch
is closed for commits from the block on. -/
structure Sealed (network : NetworkParams) (block : Block) (seen : List Reveal) (l : Ledger) :
    Prop where
  network_eq : l.registry.network = network
  recorded : ∀ epoch watcher subnet w, l.revealOf epoch watcher subnet = some w →
    w ≤ unity ∧ network.schedule.ClosedFrom block epoch ∧
      ∃ r ∈ seen, r.subnet = subnet ∧ r.weight = w ∧
        l.commitOf epoch watcher subnet = some (commitDigest w r.salt.items)

namespace Sealed

variable {network : NetworkParams} {seen : List Reveal}

theorem new (registry : Registry) : Sealed registry.network 0 [] (new registry) :=
  ⟨rfl, fun _ _ _ _ h => by cases h⟩

/-- At a later block, and with more reveals submitted, all stays sealed. -/
theorem mono (h : Sealed network block seen l) (hle : block ≤ later) (more : List Reveal) :
    Sealed network later (seen ++ more) l := by
  refine ⟨h.network_eq, fun epoch watcher subnet w hw => ?_⟩
  obtain ⟨hrange, hclosed, r, hr, hfit⟩ := h.recorded epoch watcher subnet w hw
  exact ⟨hrange, hclosed.mono hle, r, List.mem_append_left _ hr, hfit⟩

/-- **A transaction at a later block seals what it records, and breaks no seal.** -/
theorem transaction (h : Sealed network block seen l) (t : Transaction) (hle : block ≤ later) :
    Sealed network later (seen ++ t.call.reveals) (l.step (.transaction t later)) := by
  have hmono := h.mono hle t.call.reveals
  refine ⟨(network_step l _).trans h.network_eq, fun epoch watcher subnet w hw => ?_⟩
  rcases record_step l (.transaction t later) epoch watcher subnet with
    ⟨hcommit, hreveal⟩ | ⟨_, _, ⟨⟩, hrecord⟩
  · rw [hreveal] at hw
    rw [hcommit]
    exact hmono.recorded epoch watcher subnet w hw
  rw [h.network_eq] at hrecord
  cases hrecord with
  | kept commit reveal =>
    rw [reveal] at hw
    rw [commit]
    exact hmono.recorded epoch watcher subnet w hw
  | committed window reveal =>
    -- the epoch of a recorded weight is closed for commits
    rw [reveal] at hw
    exact absurd window ((hmono.recorded epoch watcher subnet w hw).2.1 later (Nat.le_refl _))
  | @revealed r mem about window range fits commit reveal =>
    obtain rfl := Option.some.inj (hw.symm.trans reveal)
    exact ⟨range, Schedule.closedFrom_of_revealOpen window, r, List.mem_append_right _ mem, about,
      rfl, commit.trans fits⟩
  | pruned _ _ _ reveal =>
    rw [reveal] at hw
    cases hw

theorem administration (h : Sealed network block seen l) (a : Administration) :
    Sealed network block seen (l.step (.administration a)) :=
  ⟨(network_step l _).trans h.network_eq, h.recorded⟩

/-- **After a run in order all recorded weights are sealed**, at a block that no later one is
before. -/
theorem run (h : Sealed network block seen l) (events after : List Event)
    (hordered : (block :: blocks (events ++ after)).Pairwise (· ≤ ·)) :
    ∃ later, Sealed network later (seen ++ submitted events) (l.run events) ∧
      (later :: blocks after).Pairwise (· ≤ ·) := by
  induction events generalizing block seen l with
  | nil => exact ⟨block, by rw [show submitted [] = [] from rfl, List.append_nil]; exact h, hordered⟩
  | cons e events ih =>
    cases e with
    | administration a => exact ih (h.administration a) hordered
    | transaction t next =>
      obtain ⟨hle, hrest⟩ := List.pairwise_cons.mp hordered
      have hnext := h.transaction t (hle next List.mem_cons_self)
      obtain ⟨later, hsealed, hlater⟩ := ih hnext hrest
      refine ⟨later, ?_, hlater⟩
      rw [List.append_assoc] at hsealed
      exact hsealed

/-! ## Recorded weights do not change -/

/-- **Without collisions a transaction leaves a recorded weight as it is, or prunes it.** -/
theorem stays_or_pruned (h : Sealed network block seen l) {t : Transaction} (hle : block ≤ later)
    (hfree : CollisionFree Blake3.digest ((seen ++ t.call.reveals).map Reveal.preimage))
    (hw : l.revealOf epoch watcher subnet = some w) :
    Stays epoch watcher subnet w l (l.step (.transaction t later)) ∨
      t.call = .pruneOverwatch ∧ epoch < network.firstRetained later ∧
        Unrecorded epoch watcher subnet (l.step (.transaction t later)) := by
  obtain ⟨-, hclosed, first, hfirst, -, rfl, hcommitted⟩ := h.recorded epoch watcher subnet w hw
  rcases record_step l (.transaction t later) epoch watcher subnet with
    ⟨hcommit, hreveal⟩ | ⟨_, _, ⟨⟩, hrecord⟩
  · exact .inl ⟨hreveal.trans hw, hcommit⟩
  rw [h.network_eq] at hrecord
  cases hrecord with
  | kept commit reveal => exact .inl ⟨reveal.trans hw, commit⟩
  | committed window => exact absurd window (hclosed later hle)
  | @revealed r mem _ _ _ fits commit reveal =>
    -- both reveals met the same commit
    have hdigest : Blake3.digest first.preimage = Blake3.digest r.preimage :=
      Option.some.inj (hcommitted.symm.trans fits)
    have hpreimage := hfree _ (List.mem_map_of_mem (List.mem_append_left _ hfirst)) _
      (List.mem_map_of_mem (List.mem_append_right _ mem)) hdigest
    refine .inl ⟨?_, commit⟩
    rw [reveal, (commitPreimage_inj hpreimage).1]
  | pruned prune old commit reveal => exact .inr ⟨prune, old, reveal, commit⟩

/-- What is not recorded for an epoch that is over stays so. -/
theorem unrecorded_run (hnetwork : l.registry.network = network)
    (hover : epoch < network.schedule.epochOf block) {events : List Event}
    (hordered : (block :: blocks events).Pairwise (· ≤ ·))
    (hnone : Unrecorded epoch watcher subnet l) :
    Unrecorded epoch watcher subnet (l.run events) := by
  induction events generalizing block l with
  | nil => exact hnone
  | cons e events ih =>
    have hnext := (network_step l e).trans hnetwork
    cases e with
    | administration a => exact ih hnext hover hordered hnone
    | transaction t later =>
      obtain ⟨hle, hrest⟩ := List.pairwise_cons.mp hordered
      have hlater := hle later List.mem_cons_self
      refine ih hnext (Nat.lt_of_lt_of_le hover (Schedule.epochOf_le _ hlater)) hrest ?_
      rcases record_step l (.transaction t later) epoch watcher subnet with
        ⟨hcommit, hreveal⟩ | ⟨_, _, ⟨⟩, hrecord⟩
      · exact ⟨hreveal.trans hnone.1, hcommit.trans hnone.2⟩
      rw [hnetwork] at hrecord
      cases hrecord with
      | kept commit reveal => exact ⟨reveal.trans hnone.1, commit.trans hnone.2⟩
      | committed window => exact absurd window (Schedule.current_ne_of_lt hover hlater _)
      | revealed _ _ window => exact absurd window (Schedule.current_ne_of_lt hover hlater _)
      | pruned _ _ commit reveal => exact ⟨reveal, commit⟩

/-- **Without collisions a run in order leaves a recorded weight as it is, or prunes it with its
commit.** -/
theorem stays_or_pruned_run (h : Sealed network block seen l) {events : List Event}
    (hordered : (block :: blocks events).Pairwise (· ≤ ·))
    (hfree : CollisionFree Blake3.digest ((seen ++ submitted events).map Reveal.preimage))
    (hw : l.revealOf epoch watcher subnet = some w) :
    Stays epoch watcher subnet w l (l.run events) ∨
      Unrecorded epoch watcher subnet (l.run events) ∧
        ∃ t later, .transaction t later ∈ events ∧ t.call = .pruneOverwatch ∧
          epoch < network.firstRetained later := by
  induction events generalizing block seen l with
  | nil => exact .inl ⟨hw, rfl⟩
  | cons e events ih =>
    cases e with
    | administration a =>
      rcases ih (h.administration a) hordered hfree hw with hstays | ⟨hnone, t, later, hmem, ht⟩
      · exact .inl hstays
      · exact .inr ⟨hnone, t, later, List.mem_cons_of_mem _ hmem, ht⟩
    | transaction t next =>
      obtain ⟨hle, hrest⟩ := List.pairwise_cons.mp hordered
      have hnext := hle next List.mem_cons_self
      have hsplit : seen ++ submitted (.transaction t next :: events) =
          (seen ++ t.call.reveals) ++ submitted events := (List.append_assoc ..).symm
      rw [hsplit] at hfree
      have hseen := hfree.mono (List.map_subset _ (List.subset_append_left _ _))
      rcases h.stays_or_pruned hnext hseen hw with hstays | ⟨hprune, hold, hnone⟩
      · rcases ih (h.transaction t hnext) hrest hfree hstays.1 with
          hrun | ⟨hnone, t', later, hmem, ht⟩
        · exact .inl ⟨hrun.1, hrun.2.trans hstays.2⟩
        · exact .inr ⟨hnone, t', later, List.mem_cons_of_mem _ hmem, ht⟩
      · refine .inr ⟨?_, t, next, List.mem_cons_self, hprune, hold⟩
        exact unrecorded_run ((network_step l _).trans h.network_eq)
          (NetworkParams.lt_epochOf_of_lt_firstRetained hold) hrest hnone

end Sealed

/-- **Revealed weights are bound to their commits.** In every run of an empty book whose blocks never
decrease, each recorded weight is at most the whole, and the digest that is committed for the same
epoch, node and subnet is that of the weight and a salt that was submitted with it. If there are no
collisions among what was submitted, a weight that is recorded after some events stands unchanged with
its commit after the rest, or a pruning among these has dropped both. -/
theorem reveals_bound (registry : Registry) (events : List Event)
    (hordered : (blocks events).Pairwise (· ≤ ·)) :
    (∀ epoch watcher subnet w,
      ((new registry).run events).revealOf epoch watcher subnet = some w →
      w ≤ unity ∧ ∃ r ∈ submitted events, r.subnet = subnet ∧ r.weight = w ∧
        ((new registry).run events).commitOf epoch watcher subnet =
          some (commitDigest w r.salt.items)) ∧
    (CollisionFree Blake3.digest ((submitted events).map Reveal.preimage) →
      ∀ before after, events = before ++ after → ∀ epoch watcher subnet w,
        ((new registry).run before).revealOf epoch watcher subnet = some w →
        Stays epoch watcher subnet w ((new registry).run before) ((new registry).run events) ∨
          Unrecorded epoch watcher subnet ((new registry).run events) ∧
            ∃ t block, .transaction t block ∈ after ∧ t.call = .pruneOverwatch ∧
              epoch < registry.network.firstRetained block) := by
  have hstart : (0 :: blocks events).Pairwise (· ≤ ·) :=
    List.pairwise_cons.mpr ⟨fun x _ => by rw [Word.le_def, Word.toNat_zero]; exact Nat.zero_le _,
      hordered⟩
  constructor
  · intro epoch watcher subnet w hw
    obtain ⟨_, hsealed, -⟩ := (Sealed.new registry).run events [] (by rwa [List.append_nil])
    obtain ⟨hrange, -, hfit⟩ := hsealed.recorded epoch watcher subnet w hw
    exact ⟨hrange, hfit⟩
  · rintro hfree before after rfl epoch watcher subnet w hw
    obtain ⟨_, hsealed, hlater⟩ := (Sealed.new registry).run before after hstart
    rw [run_append]
    refine hsealed.stays_or_pruned_run hlater ?_ hw
    rw [List.nil_append, ← submitted_append]
    exact hfree

/-- A subnet, and an overwatch node. An overwatch epoch has twenty blocks, and the last but one is
kept. -/
def watched : Registry :=
  ((Registry.empty ⟨10, 2, 500000000000000000, 3, 1, 4, 2, 1⟩).registerSubnet 1
    ⟨0, .max, 2⟩).registerWatcher 7 (.dev 1)

/-- The node commits a weight and reveals it. -/
def sealing : List Event :=
  [.transaction ⟨.signed (.dev 1), .commitWeights 7
     ⟨[⟨1, commitDigest 600000000000000000 [1, 2]⟩], by decide⟩⟩ 3,
   .transaction ⟨.signed (.dev 1), .revealWeights 7
     ⟨[⟨1, 600000000000000000, ⟨[1, 2], by decide⟩⟩], by decide⟩⟩ 12]

/-- It tries another weight, reveals the first one again, and the epoch is pruned. -/
def pruning : List Event :=
  [.transaction ⟨.signed (.dev 1), .revealWeights 7
     ⟨[⟨1, 500000000000000000, ⟨[3], by decide⟩⟩], by decide⟩⟩ 13,
   .transaction ⟨.signed (.dev 1), .revealWeights 7
     ⟨[⟨1, 600000000000000000, ⟨[1, 2], by decide⟩⟩], by decide⟩⟩ 14,
   .transaction ⟨.system, .pruneOverwatch⟩ 45]

theorem reveals_bound_pruned :
    (blocks (sealing ++ pruning)).Pairwise (· ≤ ·) ∧
      CollisionFree Blake3.digest ((submitted (sealing ++ pruning)).map Reveal.preimage) ∧
      ((new watched).run sealing).revealOf 0 7 1 = some 600000000000000000 ∧
      Unrecorded 0 7 1 ((new watched).run (sealing ++ pruning)) := by
  have hordered : (blocks (sealing ++ pruning)).Pairwise (· ≤ ·) := by decide +kernel
  have hfree : CollisionFree Blake3.digest
      ((submitted (sealing ++ pruning)).map Reveal.preimage) := by decide +kernel
  have hw : ((new watched).run sealing).revealOf 0 7 1 = some 600000000000000000 := by
    decide +kernel
  refine ⟨hordered, hfree, hw, ?_⟩
  rcases (reveals_bound watched _ hordered).2 hfree sealing pruning rfl 0 7 1 _ hw with
    hstays | ⟨hnone, -⟩
  · exact absurd hstays.1 (by decide +kernel)
  · exact hnone

end Ledger

end Stakebook
