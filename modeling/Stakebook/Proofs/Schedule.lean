import Stakebook.Proofs.Overwatch

/-!
# Epochs by quotient and remainder

A block belongs to the epoch that is its quotient by the length of an epoch, and its remainder says
into which window of the epoch it falls. What a block is to an epoch is found by comparing it with
the ends of the windows, and those are sums and products that stop at the bound. For every block but
the last one that there is, both say the same; to the last block every epoch is closed.

The window for reveals is never empty under parameters that are valid. The window for commits is, if
the cutoff of an epoch is less than a block: the offset is rounded down, and the cutoff is judged
without the length.

Headlines:
* **`phaseOf_cases`**: what a block is to an epoch, by quotient and remainder.
* **`phases_partition`**: the four phases cut up the chain, and no epoch goes back to an earlier one.
* **`revealMany_of_commitMany`**: what is committed in the first window can be revealed in the second.
* **`windows_of_validate`**: when the epochs of a valid network have both windows.
* **`hasty_never_commits`**: a valid network without a window for commits.
-/

namespace Stakebook

/-- The place of a phase in the course of an epoch. -/
def Phase.rank : Phase → Nat
  | .notStarted => 0
  | .commitOpen => 1
  | .revealOpen => 2
  | .closed => 3

namespace Schedule

variable {s : Schedule} {epoch : Epoch} {block block' first second : Block}

/-! ## The length and the offset -/

theorem length_pos (s : Schedule) : 0 < s.length.toNat := by
  unfold length
  simp only
  split
  · decide
  · next h => exact Word.ne_zero_iff.mp h

theorem revealOffset_le (s : Schedule) : s.revealOffset ≤ s.length := Nat.min_le_right _ _

/-- The offset is the part of the length that the cutoff names, rounded down, and at most the length;
a part that is out of range is more than the length. -/
theorem toNat_revealOffset (s : Schedule) :
    s.revealOffset.toNat =
      min (s.length.toNat * s.cutoff.toNat / unity.toNat) s.length.toNat := by
  have hlength := s.length.toNat_lt
  show min (percentOf (s.length.widen (by decide)) s.cutoff).toNat s.length.toNat = _
  unfold percentOf
  cases hpart : mulDivFloor (s.length.widen (by decide)) s.cutoff unity with
  | some part => rw [Option.getD_some, (mulDivFloor_eq_some_iff.mp hpart).2]; rfl
  | none =>
    unfold mulDivFloor at hpart
    rw [if_neg (by decide), Word.ofNat?_eq_none_iff] at hpart
    have hwide : (s.length.widen (v := 128) (by decide)).toNat = s.length.toNat := rfl
    rw [hwide] at hpart
    rw [Option.getD_none, Word.toNat_max]
    omega

/-- **There is a window for reveals if the cutoff is less than the whole.** -/
theorem revealOffset_lt (h : s.cutoff < unity) : s.revealOffset < s.length := by
  have hlength := s.length_pos
  have hpart : s.length.toNat * s.cutoff.toNat / unity.toNat < s.length.toNat :=
    (Nat.div_lt_iff_lt_mul (by decide)).mpr (Nat.mul_lt_mul_of_pos_left h hlength)
  rw [Word.lt_def, toNat_revealOffset]
  omega

/-- **There is a window for commits if the cutoff of an epoch comes to a block.** -/
theorem revealOffset_pos_iff :
    0 < s.revealOffset.toNat ↔ unity.toNat ≤ s.length.toNat * s.cutoff.toNat := by
  have hlength := s.length_pos
  have hpart : 0 < s.length.toNat * s.cutoff.toNat / unity.toNat ↔
      unity.toNat ≤ s.length.toNat * s.cutoff.toNat := Nat.div_pos_iff.trans (and_iff_right (by decide))
  rw [toNat_revealOffset, ← hpart]
  omega

/-! ## The phases -/

/-- Short of the last block the bounds of an epoch are not cut off. -/
theorem lt_epochStart_iff (h : block < .max) :
    block < s.epochStart epoch ↔ block.toNat < epoch.toNat * s.length.toNat := by
  rw [Word.lt_def, Word.toNat_max] at h
  rw [Word.lt_def, epochStart, Word.toNat_satMul]
  omega

theorem lt_epochStart_satAdd_iff (h : block < .max) (n : Block) :
    block < (s.epochStart epoch).satAdd n ↔
      block.toNat < epoch.toNat * s.length.toNat + n.toNat := by
  rw [Word.lt_def, Word.toNat_max] at h
  rw [Word.lt_def, Word.toNat_satAdd, epochStart, Word.toNat_satMul]
  omega

/-- What a block is to an epoch, by the blocks of the epoch. -/
theorem phaseOf_eq (h : block < .max) :
    s.phaseOf epoch block =
      if block.toNat < epoch.toNat * s.length.toNat then .notStarted
      else if block.toNat < epoch.toNat * s.length.toNat + s.revealOffset.toNat then .commitOpen
      else if block.toNat < epoch.toNat * s.length.toNat + s.length.toNat then .revealOpen
      else .closed := by
  simp only [phaseOf, lt_epochStart_iff h, lt_epochStart_satAdd_iff h]

/-- **What a block is to an epoch, by quotient and remainder.** -/
theorem phaseOf_cases (epoch : Epoch) (h : block < .max) :
    block.toNat / s.length.toNat < epoch.toNat ∧ s.phaseOf epoch block = .notStarted ∨
    (epoch.toNat = block.toNat / s.length.toNat ∧
      block.toNat % s.length.toNat < s.revealOffset.toNat ∧
      s.phaseOf epoch block = .commitOpen) ∨
    (epoch.toNat = block.toNat / s.length.toNat ∧
      s.revealOffset.toNat ≤ block.toNat % s.length.toNat ∧
      s.phaseOf epoch block = .revealOpen) ∨
    epoch.toNat < block.toNat / s.length.toNat ∧ s.phaseOf epoch block = .closed := by
  have hblock := Nat.div_add_mod' block.toNat s.length.toNat
  have hrest := Nat.mod_lt block.toNat s.length_pos
  have hoffset : s.revealOffset.toNat ≤ s.length.toNat := s.revealOffset_le
  rw [phaseOf_eq h]
  rcases Nat.lt_trichotomy epoch.toNat (block.toNat / s.length.toNat) with hlt | heq | hgt
  · -- the whole epoch lies before the block
    have hend : epoch.toNat * s.length.toNat + s.length.toNat ≤ block.toNat := by
      have := Nat.mul_le_mul_right s.length.toNat hlt
      rw [Nat.succ_mul] at this
      omega
    rw [if_neg (by omega), if_neg (by omega), if_neg (by omega)]
    exact .inr (.inr (.inr ⟨hlt, rfl⟩))
  · rw [heq, if_neg (by omega)]
    by_cases hcommit : block.toNat % s.length.toNat < s.revealOffset.toNat
    · rw [if_pos (by omega)]
      exact .inr (.inl ⟨rfl, hcommit, rfl⟩)
    · rw [if_neg (by omega), if_pos (by omega)]
      exact .inr (.inr (.inl ⟨rfl, Nat.not_lt.mp hcommit, rfl⟩))
  · rw [if_pos ((Nat.div_lt_iff_lt_mul s.length_pos).mp hgt)]
    exact .inl ⟨hgt, rfl⟩

/-- Each phase, by quotient and remainder. -/
theorem phaseOf_iff (epoch : Epoch) (h : block < .max) :
    (s.phaseOf epoch block = .commitOpen ↔
      epoch.toNat = block.toNat / s.length.toNat ∧
        block.toNat % s.length.toNat < s.revealOffset.toNat) ∧
    (s.phaseOf epoch block = .revealOpen ↔
      epoch.toNat = block.toNat / s.length.toNat ∧
        s.revealOffset.toNat ≤ block.toNat % s.length.toNat) ∧
    (s.phaseOf epoch block = .notStarted ↔ block.toNat / s.length.toNat < epoch.toNat) ∧
    (s.phaseOf epoch block = .closed ↔ epoch.toNat < block.toNat / s.length.toNat) := by
  rcases s.phaseOf_cases epoch h with
    ⟨hepoch, hphase⟩ | ⟨hepoch, hrest, hphase⟩ | ⟨hepoch, hrest, hphase⟩ | ⟨hepoch, hphase⟩
  all_goals
    simp only [hphase, reduceCtorEq, false_iff, true_iff]
    omega

/-- To the last block that there is every epoch is closed. -/
theorem phaseOf_max (s : Schedule) (epoch : Epoch) : s.phaseOf epoch .max = .closed := by
  have hnot (b : Block) : ¬Word.max < b := Nat.not_lt.mpr (Nat.le_sub_one_of_lt b.toNat_lt)
  simp only [phaseOf, if_neg (hnot _)]

/-- **No epoch goes back to an earlier phase.** -/
theorem rank_phaseOf_le (s : Schedule) (epoch : Epoch) (h : block ≤ block') :
    (s.phaseOf epoch block).rank ≤ (s.phaseOf epoch block').rank := by
  rw [Word.le_def] at h
  unfold phaseOf
  simp only [Word.lt_def]
  -- a bound that the earlier block has passed the later one has passed as well
  repeat' split
  all_goals simp only [Phase.rank]
  all_goals omega

/-- **The schedule cuts up the chain.** Whatever its parameters are, an epoch has a block at least, and
its reveals begin within it. Let a block be short of the last one that there is. It is open for commits
in the epoch that is its quotient by the length if its remainder is less than the offset, and open for
reveals in that epoch if it is not; later epochs have not started, and earlier ones are closed. So the
epoch that holds the block is open for one or the other. As blocks grow, up to the last one, no epoch
goes back to an earlier phase. -/
theorem phases_partition (s : Schedule) :
    1 ≤ s.length.toNat ∧ s.revealOffset ≤ s.length ∧
    (∀ epoch block, block < .max →
      (s.phaseOf epoch block = .commitOpen ↔
        epoch.toNat = block.toNat / s.length.toNat ∧
          block.toNat % s.length.toNat < s.revealOffset.toNat) ∧
      (s.phaseOf epoch block = .revealOpen ↔
        epoch.toNat = block.toNat / s.length.toNat ∧
          s.revealOffset.toNat ≤ block.toNat % s.length.toNat) ∧
      (s.phaseOf epoch block = .notStarted ↔ block.toNat / s.length.toNat < epoch.toNat) ∧
      (s.phaseOf epoch block = .closed ↔ epoch.toNat < block.toNat / s.length.toNat)) ∧
    (∀ block, block < .max →
      (s.current block).1.toNat = block.toNat / s.length.toNat ∧
        ((s.current block).2 = .commitOpen ∨ (s.current block).2 = .revealOpen)) ∧
    ∀ epoch block block', block ≤ block' →
      (s.phaseOf epoch block).rank ≤ (s.phaseOf epoch block').rank := by
  refine ⟨s.length_pos, s.revealOffset_le, fun epoch block => s.phaseOf_iff epoch,
    fun block h => ⟨rfl, ?_⟩, fun epoch block block' => s.rank_phaseOf_le epoch⟩
  obtain ⟨hcommit, hreveal, -⟩ := s.phaseOf_iff (s.epochOf block) h
  rcases Nat.lt_or_ge (block.toNat % s.length.toNat) s.revealOffset.toNat with hlt | hge
  · exact .inl (hcommit.mpr ⟨rfl, hlt⟩)
  · exact .inr (hreveal.mpr ⟨rfl, hge⟩)

/-- Epochs of a hundred blocks, the first quarter for commits. -/
def quartered : Schedule := ⟨20, 5, 250000000000000000⟩

theorem phases_partition_quartered :
    (124 : Block) < .max ∧ quartered.phaseOf 1 124 = .commitOpen ∧
      quartered.phaseOf 1 125 = .revealOpen ∧ quartered.phaseOf 2 125 = .notStarted ∧
      quartered.phaseOf 0 125 = .closed ∧
      (quartered.phaseOf 1 124).rank ≤ (quartered.phaseOf 1 .max).rank := by
  obtain ⟨-, -, hphases, -, hrank⟩ := phases_partition quartered
  exact ⟨by decide, (hphases 1 124 (by decide)).1.mpr (by decide),
    (hphases 1 125 (by decide)).2.1.mpr (by decide),
    (hphases 2 125 (by decide)).2.2.1.mpr (by decide),
    (hphases 0 125 (by decide)).2.2.2.mpr (by decide), hrank 1 124 .max (by decide)⟩

/-! ## Both windows -/

theorem lt_max_of_ne_closed (h : s.phaseOf epoch block ≠ .closed) : block < .max := by
  refine Nat.lt_of_le_of_ne (Nat.le_sub_one_of_lt block.toNat_lt) fun hmax => h ?_
  obtain rfl : block = .max := Word.eq_iff.mpr hmax
  exact s.phaseOf_max epoch

/-- A block that is open for commits lies in the epoch, and in front of the offset. -/
theorem current_of_commitOpen (h : s.phaseOf epoch block = .commitOpen) :
    s.current block = (epoch, .commitOpen) ∧ 0 < s.revealOffset.toNat := by
  have hopen : s.phaseOf epoch block ≠ .closed := by rw [h]; nofun
  have hbelow := lt_max_of_ne_closed hopen
  obtain ⟨hepoch, hrest⟩ := (s.phaseOf_iff epoch hbelow).1.mp h
  obtain rfl : epoch = s.epochOf block := Word.eq_iff.mpr hepoch
  exact ⟨Prod.ext rfl h, Nat.zero_lt_of_lt hrest⟩

/-- A block that is open for reveals lies in the epoch. -/
theorem current_of_revealOpen (h : s.phaseOf epoch block = .revealOpen) :
    s.current block = (epoch, .revealOpen) := by
  have hopen : s.phaseOf epoch block ≠ .closed := by rw [h]; nofun
  have hbelow := lt_max_of_ne_closed hopen
  obtain ⟨hepoch, -⟩ := (s.phaseOf_iff epoch hbelow).2.1.mp h
  obtain rfl : epoch = s.epochOf block := Word.eq_iff.mpr hepoch
  exact Prod.ext rfl h

/-- The window for commits comes before the window for reveals. -/
theorem lt_of_open (hfirst : s.phaseOf epoch first = .commitOpen)
    (hsecond : s.phaseOf epoch second = .revealOpen) : first < second := by
  have hle : second ≤ first → _ := s.rank_phaseOf_le epoch
  rw [hfirst, hsecond] at hle
  exact Nat.not_le.mp fun h => absurd (hle h) (by decide)

/-- The last block of an epoch is short of the last one that there is. -/
def Ends (s : Schedule) (epoch : Epoch) : Prop :=
  epoch.toNat * s.length.toNat + (s.length.toNat - 1) < (Word.max : Block).toNat

instance (s : Schedule) (epoch : Epoch) : Decidable (s.Ends epoch) :=
  inferInstanceAs (Decidable (_ < _))

/-- The block of an epoch at a distance from its start. -/
theorem exists_block (hends : s.Ends epoch) {n : Nat} (hn : n < s.length.toNat) :
    ∃ block : Block, block < .max ∧ block.toNat = epoch.toNat * s.length.toNat + n := by
  unfold Ends at hends
  have hmax := (Word.max : Block).toNat_lt
  have hbelow : epoch.toNat * s.length.toNat + n < (Word.max : Block).toNat := by omega
  exact ⟨⟨_, Nat.lt_trans hbelow hmax⟩, hbelow, rfl⟩

/-- **An epoch that ends is open for reveals at its last block**, if the cutoff is less than the
whole. -/
theorem exists_revealOpen (hcutoff : s.cutoff < unity) (hends : s.Ends epoch) :
    ∃ block, s.phaseOf epoch block = .revealOpen := by
  have hoffset := revealOffset_lt hcutoff
  obtain ⟨block, hbelow, hblock⟩ := exists_block hends (Nat.sub_one_lt_of_lt hoffset)
  rw [Word.lt_def] at hoffset
  refine ⟨block, ?_⟩
  rw [phaseOf_eq hbelow, if_neg (by omega), if_neg (by omega), if_pos (by omega)]

/-- **It is open for commits at its first block**, if the cutoff of an epoch comes to a block, and
else at no block. -/
theorem exists_commitOpen_iff (hends : s.Ends epoch) :
    (∃ block, s.phaseOf epoch block = .commitOpen) ↔
      unity.toNat ≤ s.length.toNat * s.cutoff.toNat := by
  rw [← revealOffset_pos_iff]
  constructor
  · rintro ⟨block, h⟩
    exact (current_of_commitOpen h).2
  · intro hoffset
    obtain ⟨block, hbelow, hblock⟩ := exists_block hends s.length_pos
    refine ⟨block, ?_⟩
    rw [phaseOf_eq hbelow, if_neg (by omega), if_pos (by omega)]

end Schedule

/-- **What is committed in the first window can be revealed in the second**, whatever was recorded
before: any weights up to the whole, one for each subnet. -/
theorem Overwatch.revealMany_of_commitMany {schedule : Schedule} {epoch : Epoch}
    {first second : Block} (hfirst : schedule.current first = (epoch, .commitOpen))
    (hsecond : schedule.current second = (epoch, .revealOpen)) {reveals : List Reveal}
    (hne : reveals ≠ []) (hrange : ∀ r ∈ reveals, r.weight ≤ unity)
    (hone : ∀ r ∈ reveals, ∀ r' ∈ reveals, r.subnet = r'.subnet → r = r') (o : Overwatch)
    (watcher : WatcherId) :
    ∃ committed revealed,
      o.commitMany schedule first watcher (reveals.map Reveal.commit) = .ok (epoch, committed) ∧
        committed.revealMany schedule second watcher reveals = .ok (epoch, revealed) := by
  refine ⟨_, _, commitMany_eq_ok_iff.mpr ⟨checkCommits_eq_ok_iff.mpr ⟨hfirst, ?_⟩, rfl⟩,
    revealMany_eq_ok_iff.mpr ⟨checkReveals_eq_ok_iff.mpr ⟨hsecond, hne, fun r hr => ?_⟩, rfl⟩⟩
  · exact fun h => hne (List.map_eq_nil_iff.mp h)
  refine checkReveal_eq_ok_iff.mpr ⟨hrange r hr, ?_⟩
  -- the last commit for the subnet of a reveal is its own
  rcases OrdMap.get?_foldl_insert (fun c : Commit => (epoch, watcher, c.subnet)) Commit.digest
    (reveals.map Reveal.commit) o.commits (epoch, watcher, r.subnet) with
    ⟨hnone, -⟩ | ⟨c, hc, hkey, hget⟩
  · exact absurd rfl (hnone r.commit (List.mem_map_of_mem hr))
  · obtain ⟨r', hr', rfl⟩ := List.mem_map.mp hc
    obtain rfl : r' = r := hone r' hr' r hr (congrArg (fun key => key.2.2) hkey)
    exact hget

namespace NetworkParams

theorem validate_eq_ok_iff {p : NetworkParams} :
    p.validate = .ok () ↔
      p.epochLength ≠ 0 ∧ p.overwatchMultiplier ≠ 0 ∧
        (p.overwatchCutoff ≠ 0 ∧ p.overwatchCutoff < unity) ∧ p.maxUnbondings ≠ 0 := by
  unfold validate
  rw [guard_eq_ok_iff, guard_eq_ok_iff, guard_eq_ok_iff, guard_eq_ok_iff, not_or]
  have hcutoff : ¬unity ≤ p.overwatchCutoff ↔ p.overwatchCutoff < unity := Nat.not_le
  rw [hcutoff, and_iff_left rfl]

open Schedule

/-- **When the epochs of a valid network have both windows.** Every epoch that ends is open for
reveals. It is open for commits, and later for reveals, exactly if the length of an epoch times the
cutoff comes to a whole: the offset is that part of the length rounded down, so an epoch that is short
for its cutoff has no window for commits at all. Where an epoch has both, what is committed in the one
can be revealed in the other, whatever was recorded before. -/
theorem windows_of_validate {p : NetworkParams} (hvalid : p.validate = .ok ()) {epoch : Epoch}
    (hends : p.schedule.Ends epoch) :
    (∃ block, p.schedule.phaseOf epoch block = .revealOpen) ∧
    ((∃ first second, first < second ∧ p.schedule.phaseOf epoch first = .commitOpen ∧
        p.schedule.phaseOf epoch second = .revealOpen) ↔
      unity.toNat ≤ p.schedule.length.toNat * p.overwatchCutoff.toNat) ∧
    ∀ first second, p.schedule.phaseOf epoch first = .commitOpen →
      p.schedule.phaseOf epoch second = .revealOpen →
      ∀ (o : Overwatch) (watcher : WatcherId) (reveals : List Reveal), reveals ≠ [] →
        (∀ r ∈ reveals, r.weight ≤ unity) →
        (∀ r ∈ reveals, ∀ r' ∈ reveals, r.subnet = r'.subnet → r = r') →
        ∃ committed revealed,
          o.commitMany p.schedule first watcher (reveals.map Reveal.commit) =
            .ok (epoch, committed) ∧
          committed.revealMany p.schedule second watcher reveals = .ok (epoch, revealed) := by
  obtain ⟨-, -, ⟨-, hcutoff⟩, -⟩ := validate_eq_ok_iff.mp hvalid
  have hreveal := exists_revealOpen (s := p.schedule) hcutoff hends
  refine ⟨hreveal, ?_, fun first second hfirst hsecond o watcher reveals hne hrange hone => ?_⟩
  · refine Iff.trans ?_ (exists_commitOpen_iff hends)
    constructor
    · rintro ⟨first, -, -, hfirst, -⟩
      exact ⟨first, hfirst⟩
    · rintro ⟨first, hfirst⟩
      obtain ⟨second, hsecond⟩ := hreveal
      exact ⟨first, second, lt_of_open hfirst hsecond, hfirst, hsecond⟩
  · exact Overwatch.revealMany_of_commitMany (current_of_commitOpen hfirst).1
      (current_of_revealOpen hsecond) hne hrange hone o watcher

theorem windows_of_validate_default :
    (default : NetworkParams).validate = .ok () ∧ (default : NetworkParams).schedule.Ends 7 ∧
      ∃ first second, first < second ∧
        (default : NetworkParams).schedule.phaseOf 7 first = .commitOpen ∧
        (default : NetworkParams).schedule.phaseOf 7 second = .revealOpen := by
  have hvalid : (default : NetworkParams).validate = .ok () := rfl
  have hends : (default : NetworkParams).schedule.Ends 7 := by decide
  exact ⟨hvalid, hends, (windows_of_validate hvalid hends).2.1.mpr (by decide)⟩

/-- Epochs of two blocks, a quarter of them for commits. -/
def hasty : NetworkParams :=
  { (default : NetworkParams) with
    epochLength := 1, overwatchMultiplier := 2, overwatchCutoff := 250000000000000000 }

/-- **A valid network whose epochs are never open for commits.** -/
theorem hasty_never_commits :
    hasty.validate = .ok () ∧ hasty.schedule.Ends 0 ∧
      ∀ epoch block, hasty.schedule.phaseOf epoch block ≠ .commitOpen := by
  refine ⟨rfl, by decide, fun epoch block h => ?_⟩
  exact absurd (current_of_commitOpen h).2 (by decide)

end NetworkParams

end Stakebook
