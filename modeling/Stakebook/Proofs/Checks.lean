import Stakebook.Ledger.Basic

/-!
# Chains of checks

An operation that makes one check after the other succeeds exactly if each check does, and what it
leaves is what its steps leave one after the other: **`bind_eq_ok_iff`** and **`guard_eq_ok_iff`**
for checks, and **`perform_bind_ok_iff`** with its companions for operations on the ledger.

An operation is `Atomic` if it leaves the ledger as it is wherever it stops. A change is
(**`atomic_change`**), and a sequence is if what comes after its first change cannot stop
(**`AtomicAt.bind`**).
-/

namespace Stakebook

section checks

variable {ε α β : Type}

/-- **Two checks in sequence succeed exactly if both do.** -/
theorem bind_eq_ok_iff {a : Except ε α} {f : α → Except ε β} {b : β} :
    (a >>= f) = .ok b ↔ ∃ x, a = .ok x ∧ f x = .ok b := by
  cases a with
  | error e =>
    constructor
    · nofun
    · rintro ⟨x, hx, -⟩
      cases hx
  | ok x =>
    constructor
    · intro h
      exact ⟨x, rfl, h⟩
    · rintro ⟨y, hy, h⟩
      cases hy
      exact h

/-- They stop where the first of them does. -/
theorem bind_eq_error_iff {a : Except ε α} {f : α → Except ε β} {e : ε} :
    (a >>= f) = .error e ↔ a = .error e ∨ ∃ x, a = .ok x ∧ f x = .error e := by
  cases a with
  | error d =>
    constructor
    · intro h
      exact .inl (congrArg _ (Except.error.inj h))
    · rintro (h | ⟨x, hx, -⟩)
      · cases h
        rfl
      · cases hx
  | ok x =>
    constructor
    · intro h
      exact .inr ⟨x, rfl, h⟩
    · rintro (h | ⟨y, hy, h⟩)
      · cases h
      · cases hy
        exact h

theorem pure_eq_ok_iff {a b : α} : (pure a : Except ε α) = .ok b ↔ a = b :=
  ⟨fun h => Except.ok.inj h, fun h => h ▸ rfl⟩

/-- **What stands behind a guard succeeds exactly if the guard does not stop and it does.** -/
theorem guard_eq_ok_iff {c : Prop} [Decidable c] {e : ε} {a : Except ε α} {b : α} :
    (if c then .error e else a) = .ok b ↔ ¬c ∧ a = .ok b := by
  by_cases h : c
  · rw [if_pos h]
    exact ⟨nofun, fun hb => absurd h hb.1⟩
  · rw [if_neg h]
    exact ⟨fun hb => ⟨h, hb⟩, And.right⟩

/-- So does what stands before the error that a guard stops with. -/
theorem guard_else_eq_ok_iff {c : Prop} [Decidable c] {e : ε} {a : Except ε α} {b : α} :
    (if c then a else .error e) = .ok b ↔ c ∧ a = .ok b := by
  by_cases h : c
  · rw [if_pos h]
    exact ⟨fun hb => ⟨h, hb⟩, And.right⟩
  · rw [if_neg h]
    exact ⟨nofun, fun hb => absurd hb.1 h⟩

/-- **A result that is returned with what is left** is that of the check, and determines it. -/
theorem bind_pair_eq_ok_iff {a : Except ε α} {f : α → β} {x : α} {y : β} :
    (a >>= fun z => pure (z, f z)) = .ok (x, y) ↔ a = .ok x ∧ y = f x := by
  simp only [bind_eq_ok_iff, pure_eq_ok_iff, Prod.mk.injEq]
  constructor
  · rintro ⟨z, hz, rfl, rfl⟩
    exact ⟨hz, rfl⟩
  · rintro ⟨hx, rfl⟩
    exact ⟨x, hx, rfl, rfl⟩

/-- What succeeds with a result leaves something with it. -/
theorem exists_ok_of_fst {a : Except ε (α × β)} {x : α}
    (h : a.toOption.map Prod.fst = some x) : ∃ y, a = .ok (x, y) := by
  cases a with
  | error e => cases h
  | ok z =>
    cases h
    exact ⟨z.2, rfl⟩

/-- A check of each member of a list succeeds exactly if all do. -/
theorem forM_eq_ok_iff {f : α → Except ε PUnit} {xs : List α} {u : PUnit} :
    xs.forM f = .ok u ↔ ∀ x ∈ xs, f x = .ok () := by
  induction xs with
  | nil =>
    constructor
    · nofun
    · intro _
      rfl
  | cons x xs ih =>
    rw [List.forall_mem_cons, ← ih]
    show (f x >>= fun _ => xs.forM f) = .ok u ↔ _
    rw [bind_eq_ok_iff]
    constructor
    · rintro ⟨⟨⟩, hx, hxs⟩
      exact ⟨hx, hxs⟩
    · rintro ⟨hx, hxs⟩
      exact ⟨(), hx, hxs⟩

end checks

namespace Ledger.Operation

variable {α β : Type} {l l' : Ledger} {y : β}

/-! ## What an accepted operation leaves -/

/-- After a step that succeeds the rest runs on what the step leaves. -/
theorem perform_bind_of_ok {a : Operation α} {f : α → Operation β} {x : α} {m : Ledger}
    (h : a.perform l = (.ok x, m)) : (a >>= f).perform l = (f x).perform m := by
  rw [perform_bind, h]

/-- After a step that stops nothing runs. -/
theorem perform_bind_of_error {a : Operation α} {f : α → Operation β} {e : LedgerError}
    {m : Ledger} (h : a.perform l = (.error e, m)) :
    (a >>= f).perform l = (.error e, m) := by
  rw [perform_bind, h]

/-- **Two operations in sequence succeed exactly if both do.** -/
theorem perform_bind_ok_iff {a : Operation α} {f : α → Operation β} :
    (a >>= f).perform l = (.ok y, l') ↔
      ∃ x m, a.perform l = (.ok x, m) ∧ (f x).perform m = (.ok y, l') := by
  constructor
  · intro h
    rcases hx : a.perform l with ⟨e | x, m⟩
    · rw [perform_bind_of_error hx] at h
      cases h
    · rw [perform_bind_of_ok hx] at h
      exact ⟨x, m, rfl, h⟩
  · rintro ⟨x, m, hx, h⟩
    rw [perform_bind_of_ok hx, h]

theorem perform_pure_ok_iff {x : α} {z : α} :
    (pure x : Operation α).perform l = (.ok z, l') ↔ x = z ∧ l = l' := by
  rw [perform_pure, Prod.mk.injEq, Except.ok.injEq]

theorem perform_look_ok_iff {f : Ledger → Except LedgerError α} {x : α} :
    (look f).perform l = (.ok x, l') ↔ f l = .ok x ∧ l = l' := by
  rw [perform_look, Prod.mk.injEq]

theorem perform_read_ok_iff {f : Ledger → α} {x : α} :
    (Operation.read f).perform l = (.ok x, l') ↔ f l = x ∧ l = l' := by
  rw [perform_read, Prod.mk.injEq, Except.ok.injEq]

theorem perform_update_ok_iff {f : Ledger → Ledger} {u : Unit} :
    (update f).perform l = (.ok u, l') ↔ f l = l' := by
  rw [perform_update, Prod.mk.injEq]
  exact ⟨And.right, fun h => ⟨rfl, h⟩⟩

theorem perform_change_ok_iff {f : Ledger → Except LedgerError (α × Ledger)} {x : α} :
    (change f).perform l = (.ok x, l') ↔ f l = .ok (x, l') := by
  rw [perform_change]
  rcases f l with e | ⟨z, m⟩
  · simp
  · simp

theorem perform_changeBook_ok_iff {f : Book → Except LedgerError (α × Book)} {x : α} :
    (changeBook f).perform l = (.ok x, l') ↔
      ∃ book, f l.book = .ok (x, book) ∧ { l with book } = l' := by
  unfold changeBook
  rw [perform_change_ok_iff, bind_eq_ok_iff]
  constructor
  · rintro ⟨⟨z, book⟩, h, hpure⟩
    cases hpure
    exact ⟨book, h, rfl⟩
  · rintro ⟨book, h, rfl⟩
    exact ⟨(x, book), h, rfl⟩

/-! ## What a refused operation leaves -/

/-- An operation behind a check stops because the check does, or by itself. -/
theorem perform_look_bind_error {f : Ledger → Except LedgerError α} {g : α → Operation β}
    {e : LedgerError} (h : (look f >>= g).perform l = (.error e, l')) :
    f l = .error e ∨ ∃ x, f l = .ok x ∧ (g x).perform l = (.error e, l') := by
  cases hf : f l with
  | error d =>
    rw [perform_bind_of_error (e := d) (m := l) (by rw [perform_look, hf])] at h
    cases h
    exact .inl rfl
  | ok x =>
    rw [perform_bind_of_ok (x := x) (m := l) (by rw [perform_look, hf])] at h
    exact .inr ⟨x, rfl, h⟩

/-- Where the operation stops on this ledger, it leaves it as it is. -/
def AtomicAt (a : Operation α) (l : Ledger) : Prop :=
  ∀ e l', a.perform l = (.error e, l') → l' = l

/-- Wherever the operation stops, it leaves the ledger as it is. -/
def Atomic (a : Operation α) : Prop := ∀ l, a.AtomicAt l

/-- The operation does not stop on this ledger. -/
def SucceedsAt (a : Operation α) (l : Ledger) : Prop := ∃ x l', a.perform l = (.ok x, l')

/-- **A change that is refused leaves the ledger as it is.** -/
theorem atomic_change (f : Ledger → Except LedgerError (α × Ledger)) : (change f).Atomic := by
  intro l e l' h
  rw [perform_change] at h
  split at h
  · cases h
  · cases h
    rfl

theorem atomic_changeBook (f : Book → Except LedgerError (α × Book)) : (changeBook f).Atomic :=
  atomic_change _

theorem SucceedsAt.atomicAt {a : Operation α} (h : a.SucceedsAt l) : a.AtomicAt l := by
  obtain ⟨x, m, hx⟩ := h
  intro e l' he
  rw [hx] at he
  cases he

/-- A check in front of an operation changes nothing. -/
theorem AtomicAt.bind_look {f : Ledger → Except LedgerError α} {g : α → Operation β}
    (h : ∀ x, f l = .ok x → (g x).AtomicAt l) : (look f >>= g).AtomicAt l := by
  intro e l' he
  cases hx : f l with
  | error d =>
    rw [perform_bind_of_error (e := d) (m := l) (by rw [perform_look, hx])] at he
    cases he
    rfl
  | ok x =>
    rw [perform_bind_of_ok (x := x) (m := l) (by rw [perform_look, hx])] at he
    exact h x hx e l' he

/-- **An atomic operation stays atomic with steps behind it that cannot stop.** -/
theorem AtomicAt.bind {a : Operation α} {g : α → Operation β} (ha : a.AtomicAt l)
    (hg : ∀ x m, a.perform l = (.ok x, m) → (g x).SucceedsAt m) : (a >>= g).AtomicAt l := by
  intro e l' he
  rcases hx : a.perform l with ⟨d | x, m⟩
  · rw [perform_bind_of_error hx] at he
    cases he
    exact ha e l' hx
  · obtain ⟨y, n, hy⟩ := hg x m hx
    rw [perform_bind_of_ok hx, hy] at he
    cases he

theorem succeedsAt_pure (x : α) (l : Ledger) : (pure x : Operation α).SucceedsAt l := ⟨x, l, rfl⟩

/-- What is made of the result cannot stop either. -/
theorem AtomicAt.bind_pure {a : Operation α} (ha : a.AtomicAt l) (f : α → β) :
    (a >>= fun x => pure (f x)).AtomicAt l :=
  ha.bind fun x m _ => succeedsAt_pure (f x) m

theorem succeedsAt_update (f : Ledger → Ledger) (l : Ledger) : (update f).SucceedsAt l :=
  ⟨(), f l, rfl⟩

theorem succeedsAt_changeBook {f : Book → Except LedgerError (α × Book)}
    (h : ∃ x book, f l.book = .ok (x, book)) : (changeBook f).SucceedsAt l := by
  obtain ⟨x, book, h⟩ := h
  exact ⟨x, _, perform_changeBook_ok_iff.mpr ⟨book, h, rfl⟩⟩

theorem SucceedsAt.bind {a : Operation α} {g : α → Operation β} (ha : a.SucceedsAt l)
    (hg : ∀ x m, a.perform l = (.ok x, m) → (g x).SucceedsAt m) : (a >>= g).SucceedsAt l := by
  obtain ⟨x, m, hx⟩ := ha
  obtain ⟨y, n, hy⟩ := hg x m hx
  exact ⟨y, n, perform_bind_ok_iff.mpr ⟨x, m, hx, hy⟩⟩

/-- What succeeds does not stop. -/
theorem SucceedsAt.perform_ne_error {a : Operation α} (h : a.SucceedsAt l) (e : LedgerError)
    (l' : Ledger) : a.perform l ≠ (.error e, l') := by
  obtain ⟨x, m, hx⟩ := h
  rw [hx]
  nofun

/-- A check that passes lets through to what stands behind it. -/
theorem SucceedsAt.bind_look {f : Ledger → Except LedgerError α} {g : α → Operation β} {x : α}
    (hx : f l = .ok x) (hg : (g x).SucceedsAt l) : (look f >>= g).SucceedsAt l := by
  obtain ⟨y, m, hy⟩ := hg
  exact ⟨y, m, perform_bind_ok_iff.mpr ⟨x, l, perform_look_ok_iff.mpr ⟨hx, rfl⟩, hy⟩⟩

end Ledger.Operation

end Stakebook
