import Stakebook.OrdMap.Lemmas
import Stakebook.Overwatch
import Stakebook.Params
import Stakebook.Proofs.Checks

/-!
# Commits, reveals and their windows

When commits and reveals are accepted, and what the records of an epoch, a node and a subnet are
afterwards.

Headlines:
* **`Schedule.not_commitOpen_of_le`**: once an epoch is open for reveals it is closed for commits.
* **`commitPreimage_inj`**: a preimage determines its weight and its salt.
* **`commitMany_eq_ok_iff`**, **`revealMany_eq_ok_iff`**: commits are accepted in the first window of
  their epoch, and reveals in the second if each fits its commit.
* **`commitOf_prune`**, **`revealOf_prune`**, **`prune_eq`**: pruning drops whole epochs, and counts
  what it drops.
* **`commitMany_since`**, **`revealMany_since`**: no call depends on the records of earlier epochs.
-/

namespace Stakebook

/-! ## Windows -/

namespace Schedule

variable {s : Schedule} {block block' : Block}

/-- A later block is in no earlier epoch. -/
theorem epochOf_le (s : Schedule) (h : block ≤ block') : s.epochOf block ≤ s.epochOf block' :=
  Nat.div_le_div_right h

/-- The end of the window for commits is the same for all blocks of an epoch. -/
theorem current_commitOpen (h : (s.current block).2 = .commitOpen) :
    block < (s.epochStart (s.epochOf block)).satAdd s.revealOffset := by
  unfold current phaseOf at h
  simp only at h
  split at h
  · cases h
  split at h
  · assumption
  · split at h <;> cases h

theorem current_revealOpen (h : (s.current block).2 = .revealOpen) :
    ¬block < (s.epochStart (s.epochOf block)).satAdd s.revealOffset := by
  unfold current phaseOf at h
  simp only at h
  split at h
  · cases h
  split at h
  · cases h
  · assumption

/-- **Once an epoch is open for reveals it is closed for commits.** -/
theorem not_commitOpen_of_le (h : (s.current block).2 = .revealOpen) (hle : block ≤ block')
    (hepoch : s.epochOf block' = s.epochOf block) : (s.current block').2 ≠ .commitOpen := by
  intro hopen
  have hbefore := current_commitOpen hopen
  rw [hepoch] at hbefore
  exact current_revealOpen h (Nat.lt_of_le_of_lt hle hbefore)

/-- From a block on no epoch is open for commits that is this one. -/
def ClosedFrom (s : Schedule) (block : Block) (epoch : Epoch) : Prop :=
  ∀ block', block ≤ block' → s.current block' ≠ (epoch, .commitOpen)

/-- An epoch that is open for reveals is closed for commits from there on. -/
theorem closedFrom_of_revealOpen {epoch : Epoch} (h : s.current block = (epoch, .revealOpen)) :
    s.ClosedFrom block epoch := by
  intro block' hle hopen
  have hepoch : s.epochOf block' = s.epochOf block :=
    (congrArg Prod.fst hopen).trans (congrArg Prod.fst h).symm
  exact not_commitOpen_of_le (congrArg Prod.snd h) hle hepoch (congrArg Prod.snd hopen)

theorem ClosedFrom.mono {epoch : Epoch} (h : s.ClosedFrom block epoch) (hle : block ≤ block') :
    s.ClosedFrom block' epoch :=
  fun later hlater => h later (Nat.le_trans hle hlater)

/-- A block falls into no epoch before its own. -/
theorem current_ne_of_lt {epoch : Epoch} (h : epoch < s.epochOf block) (hle : block ≤ block')
    (phase : Phase) : s.current block' ≠ (epoch, phase) := by
  intro hcurrent
  have hepoch : s.epochOf block' = epoch := congrArg Prod.fst hcurrent
  have := s.epochOf_le hle
  rw [hepoch] at this
  exact absurd h (Nat.not_lt.mpr this)

end Schedule

/-- The first epoch whose overwatch records are kept at a block. -/
def NetworkParams.firstRetained (network : NetworkParams) (block : Block) : Epoch :=
  (network.schedule.epochOf block).satSub network.overwatchRetention

/-- Only epochs that are over are not kept. -/
theorem NetworkParams.lt_epochOf_of_lt_firstRetained {network : NetworkParams} {block : Block}
    {epoch : Epoch} (h : epoch < network.firstRetained block) :
    epoch < network.schedule.epochOf block :=
  Nat.lt_of_lt_of_le h (Nat.sub_le _ _)

/-! ## Preimages -/

/-- The byte string whose digest a reveal has to meet. -/
def Reveal.preimage (r : Reveal) : Bytes := commitPreimage r.weight r.salt.items

/-- **A preimage determines its weight and its salt.** -/
theorem commitPreimage_inj {weight weight' : Weight} {salt salt' : Bytes}
    (h : commitPreimage weight salt = commitPreimage weight' salt') :
    weight = weight' ∧ salt = salt' := by
  unfold commitPreimage at h
  obtain ⟨hhead, hsalt⟩ := List.append_inj h (by simp)
  obtain ⟨hweight, -⟩ := List.append_inj hhead (by simp)
  have hvalue := congrArg Bytes.value hweight
  have hpow : 256 ^ 16 = 2 ^ 128 := by decide
  rw [Bytes.value_littleEndian, Bytes.value_littleEndian, hpow, Nat.mod_eq_of_lt weight.toNat_lt,
    Nat.mod_eq_of_lt weight'.toNat_lt] at hvalue
  exact ⟨Word.eq_iff.mpr hvalue, hsalt⟩

namespace Overwatch

variable {o o' : Overwatch} {schedule : Schedule} {block : Block} {watcher w : WatcherId}
  {epoch e before : Epoch} {commits : List Commit} {reveals : List Reveal} {subnet : SubnetId}

/-! ## When records are accepted -/

theorem checkCommits_eq_ok_iff :
    checkCommits schedule block commits = .ok epoch ↔
      schedule.current block = (epoch, .commitOpen) ∧ commits ≠ [] := by
  unfold checkCommits
  rcases schedule.current block with ⟨now, phase⟩
  simp only [guard_eq_ok_iff, Decidable.not_not, List.isEmpty_iff, Except.ok.injEq, Prod.mk.injEq]
  constructor
  · rintro ⟨hphase, hne, hnow⟩
    exact ⟨⟨hnow, hphase⟩, hne⟩
  · rintro ⟨⟨hnow, hphase⟩, hne⟩
    exact ⟨hphase, hne, hnow⟩

/-- **Commits are accepted in the first window of their epoch.** -/
theorem commitMany_eq_ok_iff :
    o.commitMany schedule block watcher commits = .ok (epoch, o') ↔
      checkCommits schedule block commits = .ok epoch ∧
        o' = { o with
          commits := commits.foldl
            (fun m c => m.insert (epoch, watcher, c.subnet) c.digest) o.commits } := by
  unfold commitMany
  exact bind_pair_eq_ok_iff

theorem checkReveal_eq_ok_iff {r : Reveal} :
    o.checkReveal epoch watcher r = .ok () ↔
      r.weight ≤ unity ∧
        o.commitOf epoch watcher r.subnet = some (commitDigest r.weight r.salt.items) := by
  unfold checkReveal
  rw [guard_eq_ok_iff, Word.not_lt]
  cases o.commitOf epoch watcher r.subnet with
  | none => exact ⟨nofun, nofun⟩
  | some digest =>
    simp only [guard_else_eq_ok_iff, and_true, Option.some.injEq]
    exact and_congr_right fun _ => eq_comm

theorem checkReveals_eq_ok_iff :
    o.checkReveals schedule block watcher reveals = .ok epoch ↔
      schedule.current block = (epoch, .revealOpen) ∧ reveals ≠ [] ∧
        ∀ r ∈ reveals, o.checkReveal epoch watcher r = .ok () := by
  unfold checkReveals
  rcases schedule.current block with ⟨now, phase⟩
  simp only [guard_eq_ok_iff, Decidable.not_not, List.isEmpty_iff, bind_eq_ok_iff, pure_eq_ok_iff,
    forM_eq_ok_iff, Prod.mk.injEq]
  constructor
  · rintro ⟨hphase, hne, -, hall, rfl⟩
    exact ⟨⟨rfl, hphase⟩, hne, hall⟩
  · rintro ⟨⟨rfl, hphase⟩, hne, hall⟩
    exact ⟨hphase, hne, (), hall, rfl⟩

/-- **Reveals are accepted in the second window of their epoch, if each fits its commit.** -/
theorem revealMany_eq_ok_iff :
    o.revealMany schedule block watcher reveals = .ok (epoch, o') ↔
      o.checkReveals schedule block watcher reveals = .ok epoch ∧
        o' = { o with
          reveals := reveals.foldl
            (fun m r => m.insert (epoch, r.subnet, watcher) r.weight) o.reveals } := by
  unfold revealMany
  exact bind_pair_eq_ok_iff

/-! ## What the records are afterwards -/

/-- Commits touch the commits of their epoch and their node. -/
theorem commitOf_commitMany_of_ne
    (h : o.commitMany schedule block watcher commits = .ok (epoch, o'))
    (hne : e ≠ epoch ∨ w ≠ watcher) (subnet : SubnetId) :
    o'.commitOf e w subnet = o.commitOf e w subnet := by
  obtain ⟨-, rfl⟩ := commitMany_eq_ok_iff.mp h
  rcases OrdMap.get?_foldl_insert (fun c : Commit => (epoch, watcher, c.subnet)) Commit.digest
    commits o.commits (e, w, subnet) with ⟨-, hget⟩ | ⟨c, -, hkey, -⟩
  · exact hget
  · simp only [Prod.mk.injEq] at hkey
    exact (hne.elim (fun he => he hkey.1.symm) fun hw => hw hkey.2.1.symm).elim

theorem reveals_commitMany (h : o.commitMany schedule block watcher commits = .ok (epoch, o')) :
    o'.reveals = o.reveals := by
  obtain ⟨-, rfl⟩ := commitMany_eq_ok_iff.mp h
  rfl

theorem commits_revealMany (h : o.revealMany schedule block watcher reveals = .ok (epoch, o')) :
    o'.commits = o.commits := by
  obtain ⟨-, rfl⟩ := revealMany_eq_ok_iff.mp h
  rfl

/-- A weight after reveals stood there before, or is one of those revealed. -/
theorem revealOf_revealMany (h : o.revealMany schedule block watcher reveals = .ok (epoch, o'))
    (e : Epoch) (subnet : SubnetId) (w : WatcherId) :
    o'.revealOf e subnet w = o.revealOf e subnet w ∨
      e = epoch ∧ w = watcher ∧
        ∃ r ∈ reveals, r.subnet = subnet ∧ o'.revealOf e subnet w = some r.weight := by
  obtain ⟨-, rfl⟩ := revealMany_eq_ok_iff.mp h
  rcases OrdMap.get?_foldl_insert (fun r : Reveal => (epoch, r.subnet, watcher)) Reveal.weight
    reveals o.reveals (e, subnet, w) with ⟨-, hget⟩ | ⟨r, hr, hkey, hget⟩
  · exact .inl hget
  · simp only [Prod.mk.injEq] at hkey
    exact .inr ⟨hkey.1.symm, hkey.2.2.symm, r, hr, hkey.2.1, hget⟩

/-- The keys in front of the least one of an epoch are those of earlier epochs. -/
theorem before_least {v w : Nat} (k : Epoch × Word v × Word w) (epoch : Epoch) :
    KeyOrder.before k (epoch, 0, 0) = decide (k.1 < epoch) := by
  have hzero : ∀ {u : Nat} (a : Word u), KeyOrder.before a 0 = false := fun a =>
    decide_eq_false (by rw [Word.toNat_zero]; exact Nat.not_lt_zero _)
  show (KeyOrder.before k.1 epoch || !KeyOrder.before epoch k.1 &&
    (KeyOrder.before k.2.1 0 || !KeyOrder.before 0 k.2.1 && KeyOrder.before k.2.2 0)) = _
  simp only [hzero, Bool.and_false, Bool.or_false]
  rfl

/-- **What is kept from an epoch on** is what is not of an earlier epoch. -/
theorem get?_dropBefore_least {v w : Nat} {ν : Type} (m : OrdMap (Epoch × Word v × Word w) ν)
    (epoch : Epoch) (k : Epoch × Word v × Word w) :
    (m.dropBefore (epoch, 0, 0)).get? k = if k.1 < epoch then none else m.get? k := by
  simp only [OrdMap.get?_dropBefore, before_least, decide_eq_true_iff]

/-- **Pruning drops the commits of whole epochs.** -/
theorem commitOf_prune (o : Overwatch) (before e : Epoch) (w : WatcherId) (subnet : SubnetId) :
    (o.prune before).2.commitOf e w subnet =
      if e < before then none else o.commitOf e w subnet :=
  get?_dropBefore_least o.commits before (e, w, subnet)

/-- **Pruning drops the weights of whole epochs.** -/
theorem revealOf_prune (o : Overwatch) (before e : Epoch) (subnet : SubnetId) (w : WatcherId) :
    (o.prune before).2.revealOf e subnet w =
      if e < before then none else o.revealOf e subnet w :=
  get?_dropBefore_least o.reveals before (e, subnet, w)

/-! ## Records of earlier epochs

What happens to the records of an epoch does not depend on those of earlier ones, so it does not
matter whether these are dropped before or after. -/

theorem commitOf_since (o : Overwatch) (epoch e : Epoch) (w : WatcherId) (subnet : SubnetId) :
    (o.since epoch).commitOf e w subnet = if e < epoch then none else o.commitOf e w subnet :=
  commitOf_prune o epoch e w subnet

theorem revealOf_since (o : Overwatch) (epoch e : Epoch) (subnet : SubnetId) (w : WatcherId) :
    (o.since epoch).revealOf e subnet w = if e < epoch then none else o.revealOf e subnet w :=
  revealOf_prune o epoch e subnet w

/-- What is kept agrees exactly if the records agree from the epoch on. -/
theorem since_eq_since_iff :
    o.since epoch = o'.since epoch ↔
      (∀ e w subnet, epoch ≤ e → o.commitOf e w subnet = o'.commitOf e w subnet) ∧
        ∀ e subnet w, epoch ≤ e → o.revealOf e subnet w = o'.revealOf e subnet w := by
  unfold since
  rw [Overwatch.mk.injEq, OrdMap.dropBefore_eq_iff, OrdMap.dropBefore_eq_iff]
  simp only [before_least, decide_eq_false_iff_not, Word.not_lt, Prod.forall]
  rfl

/-- **Two prunings leave what the later one leaves.** -/
theorem since_since (h : before ≤ epoch) (o : Overwatch) :
    (o.since before).since epoch = o.since epoch := by
  have hkept {e : Epoch} (he : epoch ≤ e) : ¬e < before :=
    Word.not_lt.mpr (Nat.le_trans h he)
  rw [since_eq_since_iff]
  constructor
  · intro e w subnet he
    rw [commitOf_since, if_neg (hkept he)]
  · intro e subnet w he
    rw [revealOf_since, if_neg (hkept he)]

/-- How many records there are of the epochs before one. -/
def countBefore (o : Overwatch) (epoch : Epoch) : Nat :=
  (o.commits.toList.countP fun e => e.1.1 < epoch) +
    o.reveals.toList.countP fun e => e.1.1 < epoch

/-- **Pruning returns the number of records that it drops.** -/
theorem prune_eq (o : Overwatch) (epoch : Epoch) :
    o.prune epoch = (o.countBefore epoch, o.since epoch) := by
  unfold prune countBefore since
  simp only [OrdMap.size_sub_size_dropBefore, before_least]

/-- **Commits of an epoch do not depend on the records of earlier ones.** -/
theorem commitMany_since (hepoch : epoch ≤ schedule.epochOf block) (o : Overwatch)
    (watcher : WatcherId) (commits : List Commit) :
    (o.since epoch).commitMany schedule block watcher commits =
      (o.commitMany schedule block watcher commits).map fun r => (r.1, r.2.since epoch) := by
  unfold commitMany
  cases hcheck : checkCommits schedule block commits with
  | error e => rfl
  | ok now =>
    obtain rfl : schedule.epochOf block = now :=
      congrArg Prod.fst (checkCommits_eq_ok_iff.mp hcheck).1
    have hkept (c : Commit) :
        KeyOrder.before (schedule.epochOf block, watcher, c.subnet) (epoch, 0, 0) = false := by
      rw [before_least]
      exact decide_eq_false (Word.not_lt.mpr hepoch)
    have hcommits := OrdMap.dropBefore_foldl_insert
      (fun c : Commit => (schedule.epochOf block, watcher, c.subnet)) Commit.digest hkept commits
      o.commits
    show Except.ok (_, Overwatch.mk _ _) = Except.ok (_, Overwatch.mk _ _)
    rw [hcommits]
    rfl

theorem checkReveals_since (hepoch : epoch ≤ schedule.epochOf block) (o : Overwatch)
    (watcher : WatcherId) (reveals : List Reveal) :
    (o.since epoch).checkReveals schedule block watcher reveals =
      o.checkReveals schedule block watcher reveals := by
  have hcheck : (o.since epoch).checkReveal (schedule.epochOf block) watcher =
      o.checkReveal (schedule.epochOf block) watcher := by
    funext r
    unfold checkReveal
    rw [commitOf_since, if_neg (Word.not_lt.mpr hepoch)]
  unfold checkReveals Schedule.current
  simp only [hcheck]

/-- **Nor do the reveals.** -/
theorem revealMany_since (hepoch : epoch ≤ schedule.epochOf block) (o : Overwatch)
    (watcher : WatcherId) (reveals : List Reveal) :
    (o.since epoch).revealMany schedule block watcher reveals =
      (o.revealMany schedule block watcher reveals).map fun r => (r.1, r.2.since epoch) := by
  unfold revealMany
  rw [checkReveals_since hepoch]
  cases hcheck : o.checkReveals schedule block watcher reveals with
  | error e => rfl
  | ok now =>
    obtain rfl : schedule.epochOf block = now :=
      congrArg Prod.fst (checkReveals_eq_ok_iff.mp hcheck).1
    have hkept (r : Reveal) :
        KeyOrder.before (schedule.epochOf block, r.subnet, watcher) (epoch, 0, 0) = false := by
      rw [before_least]
      exact decide_eq_false (Word.not_lt.mpr hepoch)
    have hreveals := OrdMap.dropBefore_foldl_insert
      (fun r : Reveal => (schedule.epochOf block, r.subnet, watcher)) Reveal.weight hkept reveals
      o.reveals
    show Except.ok (_, Overwatch.mk _ _) = Except.ok (_, Overwatch.mk _ _)
    rw [hreveals]
    rfl

end Overwatch

end Stakebook
