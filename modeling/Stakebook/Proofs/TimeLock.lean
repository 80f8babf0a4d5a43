import Mathlib.Data.List.Induction
import Stakebook.Proofs.Claiming

/-!
# The time lock

An account sees two things of the calls on the lists: what it had accepted, and what it was paid, by
a claim or as a release. Its `statement` has them in order, as `Posting`s. What the account is still
`owed` is read off the statement alone: an amount that entered falls due at the first payment at its
unlock block or later, whatever was merged with it and whichever blocks the other calls were made
at.

The lists agree with the statement. `Pending.Alike` is what is kept: not the same entries, since
amounts are merged, but the same sum for every set of unlock blocks.

Headlines:
* **`PaidInFull.balance`**: if each payment is of what was owed and had unlocked, then what entered
  is what was paid and what is owed.
* **`Accounted.apply`**, **`Accounted.run`**: the lists agree with the statement, after one call and
  after all.
* **`lists_accounted`**: the lists, the balance of a statement, and what each payment is of.
-/

namespace Stakebook

namespace Pending

variable {amount : Amount} {unlock block : Block} {es fs : List Pending} {e : Pending}

/-! ## Lists in order -/

/-- A list in order has one entry for an unlock block, and no entry of nothing. -/
structure Orderly (es : List Pending) : Prop where
  distinct : (es.map Pending.unlockBlock).Nodup
  positive : ∀ e ∈ es, e.amount ≠ 0

theorem orderly_nil : Orderly [] := ⟨List.nodup_nil, fun _ h => nomatch h⟩

theorem map_unlockBlock_merge (amount : Amount) (unlock : Block) (es : List Pending) :
    (merge amount unlock es).map Pending.unlockBlock = es.map Pending.unlockBlock := by
  induction es with
  | nil => rfl
  | cons e es ih =>
    rw [merge_cons]
    by_cases he : e.unlockBlock = unlock
    · rw [if_pos he, List.map_cons, List.map_cons, he]
    · rw [if_neg he, List.map_cons, List.map_cons, ih]

/-- An entry of a merged list was there before, or is the one that took the amount. -/
theorem mem_merge {d : Pending} (hfound : (es.find? fun e => e.unlockBlock = unlock) = some e)
    (h : d ∈ merge amount unlock es) : d ∈ es ∨ d = ⟨e.amount + amount, unlock⟩ := by
  induction es with
  | nil => cases h
  | cons c es ih =>
    rw [merge_cons] at h
    rw [List.find?_cons] at hfound
    by_cases hc : c.unlockBlock = unlock
    · rw [if_pos hc] at h
      rw [decide_eq_true hc] at hfound
      cases hfound
      rcases List.mem_cons.mp h with rfl | h
      · exact .inr rfl
      · exact .inl (List.mem_cons_of_mem _ h)
    · rw [if_neg hc] at h
      rw [decide_eq_false hc] at hfound
      rcases List.mem_cons.mp h with rfl | h
      · exact .inl List.mem_cons_self
      · exact (ih hfound h).imp_left (List.mem_cons_of_mem _)

namespace Orderly

theorem filter (h : Orderly es) (p : Pending → Bool) : Orderly (es.filter p) where
  distinct := h.distinct.sublist (List.filter_sublist.map _)
  positive e he := h.positive e (List.mem_filter.mp he).1

/-- An entry for a new unlock block. -/
theorem append_new (h : Orderly es) (hnew : (es.find? fun e => e.unlockBlock = unlock) = none)
    (hne : amount ≠ 0) : Orderly (es ++ [⟨amount, unlock⟩]) where
  distinct := by
    rw [List.map_append, List.nodup_append]
    refine ⟨h.distinct, List.pairwise_singleton .., ?_⟩
    rintro _ hmem _ hone rfl
    obtain ⟨e, he, heq⟩ := List.mem_map.mp hmem
    exact List.find?_eq_none.mp hnew e he (decide_eq_true (heq.trans (List.mem_singleton.mp hone)))
  positive e he := by
    rcases List.mem_append.mp he with he | he
    · exact h.positive e he
    · cases List.mem_singleton.mp he
      exact hne

theorem merge (h : Orderly es) (hfound : (es.find? fun e => e.unlockBlock = unlock) = some e)
    (hfits : e.amount.toNat + amount.toNat < 2 ^ 128) (hne : amount ≠ 0) :
    Orderly (merge amount unlock es) where
  distinct := by
    rw [map_unlockBlock_merge]
    exact h.distinct
  positive d hd := by
    rcases mem_merge hfound hd with hd | rfl
    · exact h.positive d hd
    · have := Word.ne_zero_iff.mp hne
      refine Word.ne_zero_iff.mpr ?_
      rw [Word.toNat_add_of_lt hfits]
      omega

/-- Something is paid for entries that are there. -/
theorem total_ne_zero (h : Orderly es) (he : e ∈ es) : total es ≠ 0 := by
  have hpositive := Word.ne_zero_iff.mp (h.positive e he)
  have hle := amount_le_sum he
  refine Word.ne_zero_iff.mpr ?_
  unfold total
  rw [toNat_foldl_satAdd]
  omega

end Orderly

/-! ## Lists that count alike -/

/-- Two lists have the same sum for every set of unlock blocks. -/
def Alike (es fs : List Pending) : Prop :=
  ∀ q : Block → Bool,
    sum (es.filter fun e => q e.unlockBlock) = sum (fs.filter fun e => q e.unlockBlock)

namespace Alike

theorem refl (es : List Pending) : Alike es es := fun _ => rfl

theorem sum_eq (h : Alike es fs) : sum es = sum fs := by
  have hes : es.filter (fun _ => true) = es := List.filter_eq_self.mpr fun _ _ => rfl
  have hfs : fs.filter (fun _ => true) = fs := List.filter_eq_self.mpr fun _ _ => rfl
  calc sum es = sum (es.filter fun _ => true) := by rw [hes]
    _ = sum (fs.filter fun _ => true) := h fun _ => true
    _ = sum fs := by rw [hfs]

/-- What has unlocked is the same. -/
theorem sum_matured_eq (h : Alike es fs) (block : Block) :
    sum (es.filter fun e => e.isMatured block) = sum (fs.filter fun e => e.isMatured block) :=
  h fun unlock => unlock ≤ block

/-- What has not stays alike. -/
theorem locked (h : Alike es fs) (block : Block) :
    Alike (es.filter fun e => !e.isMatured block) (fs.filter fun e => !e.isMatured block) := by
  intro q
  rw [List.filter_filter, List.filter_filter]
  exact h fun unlock => q unlock && !decide (unlock ≤ block)

theorem append (h : Alike es fs) (ds : List Pending) : Alike (es ++ ds) (fs ++ ds) := by
  intro q
  rw [List.filter_append, List.filter_append, sum_append, sum_append, h q]

/-- An amount that is merged counts as one that is added. -/
theorem merge (h : Alike es fs) (hfound : (es.find? fun e => e.unlockBlock = unlock) = some e)
    (hfits : e.amount.toNat + amount.toNat < 2 ^ 128) :
    Alike (merge amount unlock es) (fs ++ [⟨amount, unlock⟩]) := by
  intro q
  rw [List.filter_append, sum_append, ← h q]
  cases hq : q unlock with
  | true =>
    have hin (e : Pending) (he : e.unlockBlock = unlock) : q e.unlockBlock = true := he ▸ hq
    have hone : [⟨amount, unlock⟩].filter (fun e : Pending => q e.unlockBlock) =
        [⟨amount, unlock⟩] := List.filter_cons_of_pos hq
    rw [filter_merge hin, sum_merge ((find?_filter hin es).trans hfound) hfits, hone]
    rfl
  | false =>
    have hout (e : Pending) (he : e.unlockBlock = unlock) : q e.unlockBlock = false := he ▸ hq
    have hnone : [⟨amount, unlock⟩].filter (fun e : Pending => q e.unlockBlock) = [] :=
      List.filter_cons_of_neg (hq ▸ Bool.false_ne_true)
    rw [filter_merge_of_not hout, hnone]
    rfl

end Alike

end Pending

/-! ## Statements -/

/-- What an account sees of a call: an amount that entered, or a payment to it at a block. -/
inductive Posting
  | entered (e : Pending)
  | paid (amount : Amount) (block : Block)
deriving DecidableEq

namespace Posting

variable {ps qs : List Posting} {e : Pending} {amount : Amount} {block : Block}

/-- Whether a posting is a payment at a block or later. -/
def settles (unlock : Block) : Posting → Bool
  | entered _ => false
  | paid _ block => unlock ≤ block

/-- What is owed: each amount that entered, until the first payment at its unlock block or later. -/
def owed : List Posting → List Pending
  | [] => []
  | entered e :: later => if later.any (settles e.unlockBlock) then owed later else e :: owed later
  | paid _ _ :: later => owed later

/-- What a posting counts for in what has entered. -/
def intake : Posting → Nat
  | entered e => e.amount.toNat
  | paid _ _ => 0

/-- What it counts for in what was paid. -/
def payout : Posting → Nat
  | entered _ => 0
  | paid amount _ => amount.toNat

/-- All that entered. -/
def totalEntered (ps : List Posting) : Nat := (ps.map intake).sum

/-- All that was paid. -/
def totalPaid (ps : List Posting) : Nat := (ps.map payout).sum

theorem totalEntered_append (ps qs : List Posting) :
    totalEntered (ps ++ qs) = totalEntered ps + totalEntered qs := by
  unfold totalEntered
  rw [List.map_append, List.sum_append]

theorem totalPaid_append (ps qs : List Posting) :
    totalPaid (ps ++ qs) = totalPaid ps + totalPaid qs := by
  unfold totalPaid
  rw [List.map_append, List.sum_append]

theorem owed_cons_entered (e : Pending) (later : List Posting) :
    owed (entered e :: later) =
      if later.any (settles e.unlockBlock) then owed later else e :: owed later := rfl

/-- An amount that enters is owed. -/
theorem owed_entered (ps : List Posting) (e : Pending) :
    owed (ps ++ [entered e]) = owed ps ++ [e] := by
  induction ps with
  | nil => rfl
  | cons p ps ih =>
    cases p with
    | paid => exact ih
    | entered d =>
      have hany : (ps ++ [entered e]).any (settles d.unlockBlock) =
          ps.any (settles d.unlockBlock) := by
        rw [List.any_append]
        exact Bool.or_false _
      rw [List.cons_append, owed_cons_entered, owed_cons_entered, hany, ih]
      split <;> rfl

/-- After a payment only what has not unlocked is owed. -/
theorem owed_paid (ps : List Posting) (amount : Amount) (block : Block) :
    owed (ps ++ [paid amount block]) = (owed ps).filter fun e => !e.isMatured block := by
  induction ps with
  | nil => rfl
  | cons p ps ih =>
    cases p with
    | paid => exact ih
    | entered d =>
      have hany : (ps ++ [paid amount block]).any (settles d.unlockBlock) =
          (ps.any (settles d.unlockBlock) || d.isMatured block) := by
        rw [List.any_append]
        exact congrArg _ (Bool.or_false _)
      rw [List.cons_append, owed_cons_entered, owed_cons_entered, hany, ih]
      cases hlater : ps.any (settles d.unlockBlock) with
      | true => rfl
      | false =>
        rw [if_neg Bool.false_ne_true, List.filter_cons]
        cases d.isMatured block <;> rfl

/-- Each payment is of what was owed and had unlocked. -/
def PaidInFull (ps : List Posting) : Prop :=
  ∀ earlier amount block later, ps = earlier ++ paid amount block :: later →
    amount.toNat = Pending.sum ((owed earlier).filter fun e => e.isMatured block)

namespace PaidInFull

theorem nil : PaidInFull [] := by
  intro earlier amount block later h
  cases earlier <;> cases h

/-- So it was at each earlier time. -/
theorem of_append (h : PaidInFull (ps ++ qs)) : PaidInFull ps := by
  rintro earlier amount block later rfl
  refine h earlier amount block (later ++ qs) ?_
  rw [List.append_assoc, List.cons_append]

/-- One more posting. -/
theorem snoc {p : Posting} (h : PaidInFull ps)
    (hp : ∀ amount block, p = paid amount block →
      amount.toNat = Pending.sum ((owed ps).filter fun e => e.isMatured block)) :
    PaidInFull (ps ++ [p]) := by
  intro earlier amount block later heq
  rcases List.eq_nil_or_concat later with rfl | ⟨later', q, rfl⟩
  · obtain ⟨rfl, hlast⟩ := List.append_inj' heq rfl
    exact hp amount block (List.cons.inj hlast).1
  · rw [List.concat_eq_append, ← List.cons_append, ← List.append_assoc] at heq
    exact h earlier amount block later' (List.append_inj' heq rfl).1

theorem snoc_entered (h : PaidInFull ps) (e : Pending) : PaidInFull (ps ++ [entered e]) :=
  h.snoc fun _ _ heq => nomatch heq

theorem snoc_paid (h : PaidInFull ps)
    (hpaid : amount.toNat = Pending.sum ((owed ps).filter fun e => e.isMatured block)) :
    PaidInFull (ps ++ [paid amount block]) := by
  refine h.snoc fun _ _ heq => ?_
  cases heq
  exact hpaid

/-- **What entered is what was paid and what is owed.** -/
theorem balance (h : PaidInFull ps) :
    totalEntered ps = totalPaid ps + Pending.sum (owed ps) := by
  induction ps using List.reverseRecOn with
  | nil => rfl
  | append_singleton ps p ih =>
    have hbefore := ih h.of_append
    rw [totalEntered_append, totalPaid_append]
    cases p with
    | entered e =>
      have hin : totalEntered [entered e] = e.amount.toNat := rfl
      have hout : totalPaid [entered e] = 0 := rfl
      have hone : Pending.sum [e] = e.amount.toNat := rfl
      rw [owed_entered, Pending.sum_append]
      omega
    | paid amount block =>
      have hin : totalEntered [paid amount block] = 0 := rfl
      have hout : totalPaid [paid amount block] = amount.toNat := rfl
      have hpaid := h ps amount block [] rfl
      have hparts := Pending.sum_filter_add_sum_filter_not (fun e => e.isMatured block) (owed ps)
      rw [owed_paid]
      omega

end PaidInFull

end Posting

namespace Unbonding

open Posting (owed totalEntered totalPaid PaidInFull)

variable {u u' : Unbonding} {who : AccountId} {amount released : Amount}
  {unlock block : Block} {es list : List Pending} {ps : List Posting}

/-! ## Lists that are kept -/

/-- No empty list is stored, and each list is in order. -/
def Tidy (u : Unbonding) : Prop :=
  ∀ who list, u.entries.get? who = some list → list ≠ [] ∧ Pending.Orderly list

theorem tidy_empty (capacity : Count) : (empty capacity).Tidy := by
  intro who list h
  cases h

/-- A list that is not empty is entered. -/
theorem put_of_ne_nil (h : es ≠ []) (u : Unbonding) (who : AccountId) :
    u.put who es = { u with entries := u.entries.insert who es } := by
  unfold put
  rw [if_neg fun hempty => h (List.isEmpty_iff.mp hempty)]

namespace Tidy

theorem pending (hu : u.Tidy) (who : AccountId) : Pending.Orderly (u.pending who) := by
  unfold Unbonding.pending
  cases h : u.entries.get? who with
  | none =>
    rw [OrdMap.getD_of_none h]
    exact Pending.orderly_nil
  | some list =>
    rw [OrdMap.getD_of_some h]
    exact (hu who list h).2

theorem put (hu : u.Tidy) (hes : Pending.Orderly es) (who : AccountId) : (u.put who es).Tidy := by
  intro x list hx
  rw [get?_put] at hx
  split at hx
  · split at hx
    · cases hx
    · next hne =>
      cases hx
      exact ⟨fun hnil => hne (List.isEmpty_iff.mpr hnil), hes⟩
  · exact hu x list hx

end Tidy

/-- A list takes an amount in order. -/
theorem Entered.orderly (h : Entered u who amount unlock block released list) (hu : u.Tidy)
    (hne : amount ≠ 0) : list ≠ [] ∧ Pending.Orderly list := by
  have hpending := hu.pending who
  cases h with
  | @merged e found fits =>
    refine ⟨fun hnil => ?_, hpending.merge found fits hne⟩
    have hlength := congrArg List.length hnil
    rw [length_merge] at hlength
    rw [List.length_eq_zero_iff.mp hlength] at found
    cases found
  | added new => exact ⟨List.concat_ne_nil _ _, hpending.append_new new hne⟩
  | replaced new =>
    refine ⟨List.concat_ne_nil _ _, (hpending.filter _).append_new ?_ hne⟩
    exact List.find?_eq_none.mpr fun e he => List.find?_eq_none.mp new e (List.mem_filter.mp he).1

/-! ## Calls -/

/-- A call on the lists. -/
inductive Call
  | enqueue (who : AccountId) (amount : Amount) (unlock block : Block)
  | claim (who : AccountId) (block : Block)

namespace Call

/-- The lists after a call. One that is refused leaves them as they are. -/
def apply (u : Unbonding) : Call → Unbonding
  | enqueue who amount unlock block =>
    match u.enqueue who amount unlock block with
    | .ok (_, u') => u'
    | .error _ => u
  | claim who block => (u.claim who block).2

/-- What an account sees of a call: the release that made room, if there was one, and the amount
that entered; or what it claimed. -/
def postings (u : Unbonding) (who : AccountId) : Call → List Posting
  | enqueue x amount unlock block =>
    match u.enqueue x amount unlock block with
    | .ok (released, _) =>
      if x = who then
        (if released = 0 then [] else [.paid released block]) ++ [.entered ⟨amount, unlock⟩]
      else []
    | .error _ => []
  | claim x block => if x = who then [.paid (u.claim x block).1 block] else []

end Call

/-- The lists after some calls. -/
def run (u : Unbonding) (calls : List Call) : Unbonding := calls.foldl Call.apply u

/-- What an account sees of them. -/
def statement (who : AccountId) (u : Unbonding) : List Call → List Posting
  | [] => []
  | c :: calls => c.postings u who ++ statement who (c.apply u) calls

namespace Tidy

theorem apply (hu : u.Tidy) (c : Call) : (c.apply u).Tidy := by
  cases c with
  | claim who block =>
    show (u.claim who block).2.Tidy
    rw [claim_eq]
    exact hu.put ((hu.pending who).filter _) who
  | enqueue who amount unlock block =>
    unfold Call.apply
    simp only
    split
    · next h =>
      obtain ⟨hne, list, hentered, rfl⟩ := enqueue_eq_ok_iff.mp h
      obtain ⟨hlist, horderly⟩ := hentered.orderly hu hne
      rw [← put_of_ne_nil hlist]
      exact hu.put horderly who
    · exact hu

theorem run (hu : u.Tidy) (calls : List Call) : (u.run calls).Tidy := by
  induction calls generalizing u with
  | nil => exact hu
  | cons c calls ih => exact ih (hu.apply c)

end Tidy

namespace WithinCapacity

theorem apply (hu : u.WithinCapacity) (c : Call) : (c.apply u).WithinCapacity := by
  cases c with
  | claim who block => exact hu.claim rfl
  | enqueue who amount unlock block =>
    unfold Call.apply
    simp only
    split
    · next h => exact hu.enqueue h
    · exact hu

theorem run (hu : u.WithinCapacity) (calls : List Call) : (u.run calls).WithinCapacity := by
  induction calls generalizing u with
  | nil => exact hu
  | cons c calls ih => exact ih (hu.apply c)

end WithinCapacity

theorem capacity_apply (u : Unbonding) (c : Call) : (c.apply u).capacity = u.capacity := by
  cases c with
  | claim who block => exact capacity_claim rfl
  | enqueue who amount unlock block =>
    unfold Call.apply
    simp only
    split
    · next h => exact capacity_enqueue h
    · rfl

theorem capacity_run (u : Unbonding) (calls : List Call) :
    (u.run calls).capacity = u.capacity := by
  induction calls generalizing u with
  | nil => rfl
  | cons c calls ih => exact (ih (c.apply u)).trans (capacity_apply u c)

/-! ## Lists and statements -/

/-- The list of an account agrees with its statement: what waits under any unlock blocks is what is
owed under them, and in range each payment was of what was owed and had unlocked. -/
structure Accounted (u : Unbonding) (who : AccountId) (ps : List Posting) : Prop where
  alike : Pending.Alike (u.pending who) (owed ps)
  paid : totalEntered ps < 2 ^ 128 → PaidInFull ps

theorem accounted_empty (capacity : Count) (who : AccountId) :
    Accounted (empty capacity) who [] :=
  ⟨.refl [], fun _ => .nil⟩

namespace Accounted

/-- The list of another account. -/
theorem of_pending_eq (h : Accounted u who ps) (heq : u'.pending who = u.pending who) :
    Accounted u' who ps :=
  ⟨heq ▸ h.alike, h.paid⟩

/-- What has unlocked in a list is what is owed and has unlocked. -/
theorem toNat_total (h : Accounted u who ps) (hfit : totalEntered ps < 2 ^ 128) (block : Block) :
    (Pending.total ((u.pending who).filter fun e => e.isMatured block)).toNat =
      Pending.sum ((owed ps).filter fun e => e.isMatured block) := by
  have hbalance := (h.paid hfit).balance
  have hpart := Pending.sum_filter_le (fun e => e.isMatured block) (u.pending who)
  have hsum := h.alike.sum_eq
  rw [Pending.toNat_total_of_lt (by omega), h.alike.sum_matured_eq]

/-- What has unlocked is paid. -/
theorem pay (h : Accounted u who ps) (block : Block)
    (heq : u'.pending who = u.locked who block) :
    Accounted u' who (ps ++
      [.paid (Pending.total ((u.pending who).filter fun e => e.isMatured block)) block]) where
  alike := by
    rw [heq, Posting.owed_paid]
    exact h.alike.locked block
  paid hfit := by
    have hsame : totalEntered ps < 2 ^ 128 := by
      rw [Posting.totalEntered_append] at hfit
      omega
    exact (h.paid hsame).snoc_paid (h.toNat_total hsame block)

/-- An amount is entered. -/
theorem enter (h : Accounted u who ps) {e : Pending}
    (halike : Pending.Alike (u'.pending who) (owed ps ++ [e])) :
    Accounted u' who (ps ++ [.entered e]) where
  alike := by
    rw [Posting.owed_entered]
    exact halike
  paid hfit := by
    rw [Posting.totalEntered_append] at hfit
    exact (h.paid (by omega)).snoc_entered e

/-- **An amount enters**, with the release that made room. -/
theorem entered (h : Accounted u who ps) (hu : u.Tidy)
    (hentered : Entered u who amount unlock block released list) :
    Accounted { u with entries := u.entries.insert who list } who
      (ps ++ ((if released = 0 then [] else [.paid released block]) ++
        [.entered ⟨amount, unlock⟩])) := by
  cases hentered with
  | merged found fits =>
    rw [if_pos rfl, List.nil_append]
    refine h.enter ?_
    rw [pending_insert]
    exact h.alike.merge found fits
  | added =>
    rw [if_pos rfl, List.nil_append]
    refine h.enter ?_
    rw [pending_insert]
    exact h.alike.append _
  | replaced _ _ matured =>
    -- the amounts in a list are positive, so the release shows in the statement
    obtain ⟨e, he, hmatured⟩ := List.any_eq_true.mp matured
    rw [if_neg (((hu.pending who).filter _).total_ne_zero (List.mem_filter.mpr ⟨he, hmatured⟩)),
      ← List.append_assoc]
    have hpaid := h.pay block (pending_put u who (u.locked who block))
    have halike := hpaid.alike
    rw [pending_put] at halike
    refine hpaid.enter ?_
    rw [pending_insert]
    exact halike.append _

/-- **A call leaves the list in agreement with the statement.** -/
theorem apply (h : Accounted u who ps) (hu : u.Tidy) (c : Call) :
    Accounted (c.apply u) who (ps ++ c.postings u who) := by
  cases c with
  | enqueue x amount unlock block =>
    unfold Call.apply Call.postings
    simp only
    cases hcall : u.enqueue x amount unlock block with
    | error => exact (List.append_nil ps).symm ▸ h
    | ok result =>
      obtain ⟨released, u'⟩ := result
      simp only
      split
      · next hx =>
        subst hx
        obtain ⟨-, list, hentered, rfl⟩ := enqueue_eq_ok_iff.mp hcall
        exact h.entered hu hentered
      · next hx =>
        rw [List.append_nil]
        exact h.of_pending_eq (pending_congr (get?_enqueue_of_ne hcall (Ne.symm hx)))
  | claim x block =>
    unfold Call.apply Call.postings
    simp only
    split
    · next hx =>
      subst hx
      rw [claim_eq]
      exact h.pay block (pending_put ..)
    · next hx =>
      rw [List.append_nil]
      exact h.of_pending_eq (pending_congr (get?_claim_of_ne rfl (Ne.symm hx)))

/-- **So do all calls.** -/
theorem run (h : Accounted u who ps) (hu : u.Tidy) (calls : List Call) :
    Accounted (u.run calls) who (ps ++ statement who u calls) := by
  induction calls generalizing u ps with
  | nil => exact (List.append_nil ps).symm ▸ h
  | cons c calls ih =>
    have hrest := ih (h.apply hu c) (hu.apply c)
    rw [List.append_assoc] at hrest
    exact hrest

end Accounted

/-- **The lists are in order and agree with the statements.** Whatever calls are made, accepted or
refused, at whatever blocks: each list that is stored holds at least one entry and at most the
capacity, for distinct unlock blocks and of positive amounts; and for each account, what waits under
an unlock block is what entered for it since the last payment at that block or later. Where all that
entered is in range, it is what was paid and what waits, and each payment at a block was of exactly
what was owed and had unlocked by then. -/
theorem lists_accounted (capacity : Count) (calls : List Call) :
    (∀ who list, ((empty capacity).run calls).entries.get? who = some list →
      list ≠ [] ∧ list.length ≤ capacity.toNat ∧ (list.map Pending.unlockBlock).Nodup ∧
        ∀ e ∈ list, e.amount ≠ 0) ∧
    ∀ who,
      (∀ unlock,
        Pending.sum ((((empty capacity).run calls).pending who).filter
            fun e => e.unlockBlock = unlock) =
          Pending.sum ((owed (statement who (empty capacity) calls)).filter
            fun e => e.unlockBlock = unlock)) ∧
      (totalEntered (statement who (empty capacity) calls) < 2 ^ 128 →
        totalEntered (statement who (empty capacity) calls) =
            totalPaid (statement who (empty capacity) calls) +
              Pending.sum (((empty capacity).run calls).pending who) ∧
          PaidInFull (statement who (empty capacity) calls)) := by
  have htidy := (tidy_empty capacity).run calls
  have hwithin := (withinCapacity_empty capacity).run calls
  have hcapacity := capacity_run (empty capacity) calls
  refine ⟨fun who list hlist => ?_, fun who => ?_⟩
  · obtain ⟨hne, horderly⟩ := htidy who list hlist
    have hle := hwithin who list hlist
    rw [hcapacity] at hle
    exact ⟨hne, hle, horderly.distinct, horderly.positive⟩
  · have haccounted := (accounted_empty capacity who).run (tidy_empty capacity) calls
    rw [List.nil_append] at haccounted
    refine ⟨fun unlock => haccounted.alike fun b => b = unlock, fun hfit => ?_⟩
    have hpaid := haccounted.paid hfit
    refine ⟨?_, hpaid⟩
    rw [haccounted.alike.sum_eq]
    exact hpaid.balance

/-- Calls on lists of two entries, at blocks that do not ascend: two amounts merge, one finds the
list full, and one enters where a release makes room, after a claim that came too early. -/
def disordered : List Call :=
  [.enqueue (.dev 1) 100 10 1, .enqueue (.dev 1) 7 30 9, .enqueue (.dev 2) 9 10 3,
    .enqueue (.dev 1) 50 10 2, .enqueue (.dev 1) 5 20 5, .claim (.dev 1) 4,
    .enqueue (.dev 1) 5 20 12, .claim (.dev 2) 40, .claim (.dev 1) 25, .claim (.dev 1) 6]

theorem lists_accounted_disordered :
    statement (.dev 1) (empty 2) disordered =
        [.entered ⟨100, 10⟩, .entered ⟨7, 30⟩, .entered ⟨50, 10⟩, .paid 0 4, .paid 150 12,
          .entered ⟨5, 20⟩, .paid 5 25, .paid 0 6] ∧
      ((empty 2).run disordered).entries.toList = [(.dev 1, [⟨7, 30⟩])] ∧
      totalEntered (statement (.dev 1) (empty 2) disordered) = 162 ∧
      totalPaid (statement (.dev 1) (empty 2) disordered) +
        Pending.sum (((empty 2).run disordered).pending (.dev 1)) = 162 ∧
      PaidInFull (statement (.dev 1) (empty 2) disordered) := by
  have hentered : totalEntered (statement (.dev 1) (empty 2) disordered) = 162 := by decide +kernel
  obtain ⟨hbalance, hpaid⟩ :=
    ((lists_accounted 2 disordered).2 (.dev 1)).2 (by rw [hentered]; decide)
  exact ⟨by decide +kernel, by decide +kernel, hentered, hbalance.symm.trans hentered, hpaid⟩

end Unbonding

end Stakebook
