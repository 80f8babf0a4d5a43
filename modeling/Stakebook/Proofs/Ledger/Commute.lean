import Stakebook.Proofs.Ledger.Acceptance
import Stakebook.Proofs.Ledger.Locality
import Stakebook.Proofs.Ledger.SharePrice

/-!
# Independent calls commute

Two local calls of different accounts on different pools write different parts of the ledger, and
neither reads what the other writes. What they share are the sums beside the parts: the totals of
the subnets, that of all stakes, and the balances of all pools together. A ledger is `Sound` if
these follow from the parts, which every run keeps while all that accounts own is in range together;
so the order of the two calls does not show in the sums either.

Headlines:
* **`Sound.ext`**: a sound ledger is known by its parts.
* **`sound_run`**: every run in range from an empty book leads to a sound ledger.
* **`Effect.commute`**: two independent effects on a sound ledger commute.
* **`independent_commute`**: so do two transactions after any run in range.
-/

namespace Stakebook.Ledger

variable {l l' m n : Ledger} {block block₁ block₂ : Block} {call call₁ call₂ : LedgerCall}
  {signer : Option AccountId} {who who₁ who₂ : AccountId} {output output₁ output₂ : CallOutput}

/-! ## Sound ledgers -/

/-- All sums that stand beside the parts of the ledger follow from them, and are in range. -/
structure Sound (l : Ledger) : Prop where
  valid : l.book.Valid
  counted : l.book.stakes.Counted
  fits : l.value < 2 ^ 128

/-- **A sound ledger is known by its parts.** -/
theorem Sound.ext (hl : l.Sound) (hm : m.Sound) (hcommon : l.common = m.common)
    (haccount : ∀ who, l.account who = m.account who)
    (hpart : ∀ p, l.book.part p = m.book.part p) : l = m := by
  have hstakes : l.book.stakes = m.book.stakes :=
    hl.counted.ext_of hm.counted fun who => congrArg AccountPart.stakes (haccount who)
  have hdelegate : l.book.delegate = m.book.delegate :=
    hl.valid.delegate.ext_part hm.valid.delegate fun id => hpart (.subnet id)
  have hnodeDelegate : l.book.nodeDelegate = m.book.nodeDelegate :=
    hl.valid.nodeDelegate.ext_part hm.valid.nodeDelegate fun key => hpart (.node key)
  have hentries : l.book.unbonding.entries = m.book.unbonding.entries :=
    OrdMap.ext_get? fun who => congrArg AccountPart.pending (haccount who)
  have hunbonding : l.book.unbonding = m.book.unbonding :=
    (Unbonding.mk.injEq ..).mpr ⟨hentries, congrArg CommonPart.capacity hcommon⟩
  have hbook : l.book = m.book :=
    (Book.mk.injEq ..).mpr ⟨hstakes, hdelegate, hnodeDelegate, hunbonding,
      congrArg CommonPart.swaps hcommon, congrArg CommonPart.overwatch hcommon⟩
  have haccounts : l.registry.accounts = m.registry.accounts :=
    OrdMap.ext_get? fun who => congrArg AccountPart.info (haccount who)
  have hregistry : l.registry = m.registry :=
    (Registry.mk.injEq ..).mpr
      ⟨congrArg (fun c => c.registry.network) hcommon, haccounts,
        congrArg (fun c => c.registry.subnets) hcommon,
        congrArg (fun c => c.registry.nodes) hcommon,
        congrArg (fun c => c.registry.watchers) hcommon⟩
  exact (Ledger.mk.injEq ..).mpr ⟨hbook, hregistry⟩

theorem totalStaked_le_value (l : Ledger) : l.book.stakes.totalStaked ≤ l.value := by
  unfold value
  omega

/-- **An accepted call leaves a sound ledger sound**, if what accounts own is in range after it. -/
theorem Effect.sound (hs : l.Sound) (h : Effect block l call signer output l')
    (hfit : l'.value < 2 ^ 128) : l'.Sound := by
  refine ⟨h.valid hs.valid, ?_, hfit⟩
  rcases h.stakes_cases with heq | ⟨_, _, _, _, _, add⟩ | ⟨_, _, _, _, _, remove⟩
  · rw [heq]
    exact hs.counted
  · exact hs.counted.add add (Nat.lt_of_le_of_lt (totalStaked_le_value _) hfit)
  · exact hs.counted.remove remove

/-- A local call does so without a condition: it adds nothing to what accounts own. -/
theorem Effect.sound_of_isLocal (hs : l.Sound) (hcall : call.isLocal = true)
    (h : Effect block l call signer output l') : l'.Sound := by
  have hreward := LedgerCall.reward_of_isLocal hcall
  have hfits := hs.fits
  have hvalue := h.value hs.valid (by omega)
  exact h.sound hs (by omega)

theorem sound_step (hs : l.Sound) {e : Event} (hfit : (l.step e).value < 2 ^ 128) :
    (l.step e).Sound := by
  rcases l.step_cases e with ⟨_, _, _, _, -, -, -, heffect⟩ | ⟨hbook, -⟩
  · exact heffect.sound hs hfit
  · refine ⟨?_, ?_, hfit⟩
    · rw [hbook]
      exact hs.valid
    · rw [hbook]
      exact hs.counted

/-- **A run in range leads from a sound ledger to sound ones.** -/
theorem sound_run (hs : l.Sound) {events : List Event}
    (hfit : ∀ n, (l.run (events.take n)).value < 2 ^ 128) : (l.run events).Sound := by
  induction events generalizing l with
  | nil => exact hs
  | cons e events ih =>
    have hstep : (l.step e).value < 2 ^ 128 := hfit 1
    exact ih (sound_step hs hstep) fun n => hfit (n + 1)

/-! ## Independent calls -/

/-- **Two independent calls commute**: in the other order each has the effect that it had. -/
theorem Effect.commute (hs : l.Sound) (hcall₁ : call₁.isLocal = true)
    (hcall₂ : call₂.isLocal = true) (hwho : who₁ ≠ who₂)
    (hpools : ∀ p, call₁.pool? = some p → call₂.pool? ≠ some p)
    (h₁ : Effect block₁ l call₁ (some who₁) output₁ m)
    (h₂ : Effect block₂ m call₂ (some who₂) output₂ n) :
    ∃ m', Effect block₂ l call₂ (some who₂) output₂ m' ∧
      Effect block₁ m' call₁ (some who₁) output₁ n := by
  have hm := h₁.within hcall₁
  have hn := h₂.within hcall₂
  -- the first call left what the second reads
  have hsecond : Alike call₂ who₂ m l :=
    (hm.alike hwho.symm fun p hp₂ hp₁ => hpools p hp₁ hp₂).symm
  obtain ⟨m', hm₂, like₂⟩ := h₂.congr hcall₂ hsecond hs.valid hs.fits
  have hm' := hm₂.within hcall₂
  have hs' := hm₂.sound_of_isLocal hs hcall₂
  -- and now the second leaves what the first reads
  have hfirst : Alike call₁ who₁ l m' := hm'.alike hwho hpools
  obtain ⟨n', hn₁, like₁⟩ := h₁.congr hcall₁ hfirst hs'.valid hs'.fits
  have hn' := hn₁.within hcall₁
  refine ⟨m', hm₂, ?_⟩
  -- what the two orders leave agrees part by part
  suffices heq : n' = n from heq ▸ hn₁
  have hsn : n.Sound := h₂.sound_of_isLocal (h₁.sound_of_isLocal hs hcall₁) hcall₂
  refine (hn₁.sound_of_isLocal hs' hcall₁).ext hsn ?_ (fun who => ?_) fun p => ?_
  · rw [hn'.common_eq, hm'.common_eq, hn.common_eq, hm.common_eq]
  · by_cases hw₁ : who = who₁
    · rw [hw₁, like₁.account_eq, hn.account_eq who₁ hwho]
    · rw [hn'.account_eq who hw₁]
      by_cases hw₂ : who = who₂
      · rw [hw₂, like₂.account_eq]
      · rw [hm'.account_eq who hw₂, hn.account_eq who hw₂, hm.account_eq who hw₁]
  · by_cases hp₁ : call₁.pool? = some p
    · rw [like₁.part_eq p hp₁, hn.part_eq p (hpools p hp₁)]
    · rw [hn'.part_eq p hp₁]
      by_cases hp₂ : call₂.pool? = some p
      · rw [like₂.part_eq p hp₂]
      · rw [hm'.part_eq p hp₂, hn.part_eq p hp₂, hm.part_eq p hp₁]

/-- **Independent transactions commute.** After any run of an empty book throughout which all that
accounts own is in range together, let two different accounts sign one call each on their direct
stake, their delegations or their unbonding list, not both on the same pool. If both are accepted
one after the other, then in the other order each has the same report, which says that it is
accepted and what its output is, and the ledger that they leave is the same. -/
theorem independent_commute {registry : Registry} {events : List Event}
    (hrun : (new registry).run events = l)
    (hfit : ∀ n, ((new registry).run (events.take n)).value < 2 ^ 128) {t₁ t₂ : Transaction}
    (hsigned₁ : t₁.origin = .signed who₁) (hsigned₂ : t₂.origin = .signed who₂)
    (hwho : who₁ ≠ who₂) (hcall₁ : t₁.call.isLocal = true) (hcall₂ : t₂.call.isLocal = true)
    (hpools : ∀ p, t₁.call.pool? = some p → t₂.call.pool? ≠ some p)
    (haccepted₁ : (t₁.apply block₁ l).1.success = true)
    (haccepted₂ : (t₂.apply block₂ (t₁.apply block₁ l).2).1.success = true) :
    (t₂.apply block₂ l).1 = (t₂.apply block₂ (t₁.apply block₁ l).2).1 ∧
      (t₁.apply block₁ (t₂.apply block₂ l).2).1 = (t₁.apply block₁ l).1 ∧
      (t₁.apply block₁ (t₂.apply block₂ l).2).2 = (t₂.apply block₂ (t₁.apply block₁ l).2).2 := by
  have hs : l.Sound := hrun ▸ sound_run ⟨Book.valid_empty _, Stakes.counted_empty, hfit 0⟩ hfit
  obtain ⟨output₁, hreport₁, heffect₁⟩ := Transaction.effect_of_success hcall₁ hsigned₁ haccepted₁
  obtain ⟨output₂, hreport₂, heffect₂⟩ := Transaction.effect_of_success hcall₂ hsigned₂ haccepted₂
  obtain ⟨m', hm₂, hn₁⟩ := heffect₁.commute hs hcall₁ hcall₂ hwho hpools heffect₂
  rw [Transaction.apply_of_effect hcall₂ hsigned₂ hm₂,
    Transaction.apply_of_effect hcall₁ hsigned₁ hn₁, hreport₁, hreport₂]
  exact ⟨rfl, rfl, rfl⟩

/-- The shared pool, and a second subnet that opens after it. -/
def opened : List Event := holding ++ [.administration (.registerSubnet 2 ⟨0, .max, 2⟩)]

/-- The first account redeems all its shares of the first pool. -/
def leaving : Transaction := ⟨.signed (.dev 1), .undelegate (.subnet 1) 30⟩

/-- The second account makes the first deposit into the second pool. -/
def entering : Transaction := ⟨.signed (.dev 2), .delegate (.subnet 2) 20⟩

theorem independent_commute_opened :
    let l := (new shared).run opened
    (∀ n, ((new shared).run (opened.take n)).value < 2 ^ 128) ∧
      (leaving.apply 2 l).1.success = true ∧
      (entering.apply 3 (leaving.apply 2 l).2).1.success = true ∧
      (entering.apply 3 l).1 = (entering.apply 3 (leaving.apply 2 l).2).1 ∧
      (leaving.apply 2 (entering.apply 3 l).2).1 = (leaving.apply 2 l).1 ∧
      (leaving.apply 2 (entering.apply 3 l).2).2 = (entering.apply 3 (leaving.apply 2 l).2).2 := by
  intro l
  have hprefix : ∀ n < 5, ((new shared).run (opened.take n)).value < 2 ^ 128 := by decide +kernel
  have hfit : ∀ n, ((new shared).run (opened.take n)).value < 2 ^ 128 := by
    intro n
    rw [List.take_eq_take_min]
    exact hprefix _ (Nat.lt_succ_of_le (Nat.min_le_right ..))
  have hleaving : (leaving.apply 2 l).1.success = true := by decide +kernel
  have hentering : (entering.apply 3 (leaving.apply 2 l).2).1.success = true := by decide +kernel
  have hpools : ∀ p, leaving.call.pool? = some p → entering.call.pool? ≠ some p := by
    rintro p ⟨⟩
    decide
  exact ⟨hfit, hleaving, hentering, independent_commute (l := l) rfl hfit rfl rfl (by decide) rfl
    rfl hpools hleaving hentering⟩

/-- On one pool the order shows: a deposit of 10 for 8 shares leaves the 20 of the other account
worth 23, and before it they redeem for 22. -/
example :
    let l := (new shared).run holding
    let deposit : Transaction := ⟨.signed (.dev 1), .delegate (.subnet 1) 10⟩
    let withdraw : Transaction := ⟨.signed (.dev 2), .undelegate (.subnet 1) 20⟩
    (withdraw.apply 2 l).1.output = some (.withdrawn 22) ∧
      (withdraw.apply 2 (deposit.apply 2 l).2).1.output = some (.withdrawn 23) := by
  decide +kernel

end Stakebook.Ledger
