import Mathlib.Data.List.Perm.Subperm
import Stakebook.Form.Components
import Stakebook.Proofs.Ledger.Records

/-!
# The bytes of the components

The binary form of each component of the book and of the registry is read back. The form of a map or
of a list begins with its length in eight bytes, so that the lengths have to be below `2 ^ 64`:
`Book.Fits` and `Registry.Fits` say so of the maps whose keys do not bound their lengths.

Headlines:
* **`Form.readsBytes_numbered`**: a map whose keys are words of four bytes is short enough.
* **`Book.readsBytes_form`**, **`Registry.readsBytes_form`**: books and registries that fit are read
  back.
-/

namespace Stakebook

/-- A map has no more entries than there are words for keys. -/
theorem OrdMap.size_le {w : Nat} {ν : Type} (m : OrdMap (Word w) ν) : m.size ≤ 2 ^ w := by
  have hnodup : (m.toList.map fun e => e.1.toNat).Nodup := by
    refine List.pairwise_map.mpr (m.ascending.imp fun h => ?_)
    exact Nat.ne_of_lt (of_decide_eq_true h)
  have hsub : (m.toList.map fun e => e.1.toNat) ⊆ List.range (2 ^ w) := by
    intro n hn
    obtain ⟨e, -, rfl⟩ := List.mem_map.mp hn
    exact List.mem_range.mpr e.1.toNat_lt
  have hle := (hnodup.subperm hsub).length_le
  rwa [List.length_map, List.length_range] at hle

namespace Form

/-- **A map whose keys are words of four bytes is read back**, however many entries it has. -/
theorem readsBytes_numbered {ν : Type} {value : Form ν} {m : OrdMap (Word 32) ν}
    (h : ∀ e ∈ m.toList, value.ReadsBytes e.2) : (map word32 .word value).ReadsBytes m :=
  readsBytes_map (fun e he => ⟨readsBytes_word 4 e.1, h e he⟩)
    (Nat.lt_of_le_of_lt m.size_le (by decide))

theorem readsBytes_pair {κ ν : Type} {key : Form κ} {value : Form ν}
    (hk : ∀ k, key.ReadsBytes k) (hv : ∀ v, value.ReadsBytes v) (e : κ × ν) :
    (entry key value).ReadsBytes e := readsBytes_entry (hk e.1) (hv e.2)

end Form

open Form

/-! ## The components of the book -/

theorem SharePool.readsBytes_form {κ : Type} [KeyOrder κ] {key : Form κ} {names : KeyText κ}
    {p : SharePool κ} (hkey : ∀ k, key.ReadsBytes k)
    (hpools : (map key names Pool.form).ReadsBytes p.pools) (hshares : p.shares.size < 2 ^ 64) :
    (SharePool.form key names).ReadsBytes p :=
  readsBytes_record
    (.cons rfl hpools <|
     .cons rfl (readsBytes_map
        (fun e _ => ⟨readsBytes_pair readsBytes_account hkey e.1, readsBytes_word 16 e.2⟩) hshares) <|
     .cons rfl (readsBytes_word 16 p.totalBalance) <| .nil ()) rfl

theorem Stakes.readsBytes_form {s : Stakes} (h : s.balances.size < 2 ^ 64) :
    Stakes.form.ReadsBytes s :=
  readsBytes_record
    (.cons rfl (readsBytes_map
        (fun e _ => ⟨readsBytes_pair readsBytes_account (readsBytes_word 4) e.1,
          readsBytes_word 16 e.2⟩) h) <|
     .cons rfl (readsBytes_numbered fun e _ => readsBytes_word 16 e.2) <|
     .cons rfl (readsBytes_word 16 s.total) <| .nil ()) rfl

theorem Unbonding.readsBytes_form {u : Unbonding} (h : u.entries.size < 2 ^ 64)
    (hlists : ∀ e ∈ u.entries.toList, e.2.length < 2 ^ 64) : Unbonding.form.ReadsBytes u :=
  readsBytes_record
    (.cons rfl (readsBytes_map
        (fun e he => ⟨readsBytes_account e.1,
          readsBytes_list (fun p _ => p.takes_form.reads) (hlists e he)⟩) h) <|
     .cons rfl (readsBytes_word 8 u.capacity) <| .nil ()) rfl

theorem SwapQueue.readsBytes_form {q : SwapQueue} (h : q.entries.size < 2 ^ 64)
    (horder : q.order.length < 2 ^ 64) : SwapQueue.form.ReadsBytes q :=
  readsBytes_record
    (.cons rfl (readsBytes_map
        (fun e _ => ⟨readsBytes_word 8 e.1, e.2.takes_form.reads⟩) h) <|
     .cons rfl (readsBytes_list (fun id _ => readsBytes_word 8 id) horder) <|
     .cons rfl (readsBytes_word 8 q.nextId) <| .nil ()) rfl

/-- The key of an overwatch record: an epoch and two words of four bytes. -/
theorem Overwatch.readsBytes_key (k : Word 64 × Word 32 × Word 32) :
    (entry word64 (entry word32 word32)).ReadsBytes k :=
  readsBytes_pair (readsBytes_word 8)
    (readsBytes_pair (readsBytes_word 4) (readsBytes_word 4)) k

theorem Overwatch.readsBytes_form {o : Overwatch} (hcommits : o.commits.size < 2 ^ 64)
    (hreveals : o.reveals.size < 2 ^ 64) : Overwatch.form.ReadsBytes o :=
  readsBytes_record
    (.cons rfl (readsBytes_map (fun e _ => ⟨readsBytes_key e.1, readsBytes_octets e.2⟩) hcommits) <|
     .cons rfl (readsBytes_map (fun e _ => ⟨readsBytes_key e.1, readsBytes_word 16 e.2⟩) hreveals) <|
     .nil ()) rfl

/-! ## The book -/

/-- The lengths of the maps and lists of a book can be written. -/
structure Book.Fits (b : Book) : Prop where
  stakes : b.stakes.balances.size < 2 ^ 64
  delegateShares : b.delegate.shares.size < 2 ^ 64
  nodePools : b.nodeDelegate.pools.size < 2 ^ 64
  nodeShares : b.nodeDelegate.shares.size < 2 ^ 64
  unbonding : b.unbonding.entries.size < 2 ^ 64
  pending : ∀ e ∈ b.unbonding.entries.toList, e.2.length < 2 ^ 64
  swaps : b.swaps.entries.size < 2 ^ 64
  order : b.swaps.order.length < 2 ^ 64
  commits : b.overwatch.commits.size < 2 ^ 64
  reveals : b.overwatch.reveals.size < 2 ^ 64

/-- **A book that fits is read back.** -/
theorem Book.readsBytes_form {b : Book} (h : b.Fits) : Book.form.ReadsBytes b :=
  readsBytes_record
    (.cons rfl (Stakes.readsBytes_form h.stakes) <|
     .cons rfl (SharePool.readsBytes_form (readsBytes_word 4)
        (readsBytes_numbered fun e _ => e.2.takes_form.reads) h.delegateShares) <|
     .cons rfl (SharePool.readsBytes_form (fun k => k.takes_form.reads)
        (readsBytes_map (fun e _ => ⟨e.1.takes_form.reads, e.2.takes_form.reads⟩) h.nodePools)
        h.nodeShares) <|
     .cons rfl (Unbonding.readsBytes_form h.unbonding h.pending) <|
     .cons rfl (SwapQueue.readsBytes_form h.swaps h.order) <|
     .cons rfl (Overwatch.readsBytes_form h.commits h.reveals) <| .nil ()) rfl

/-! ## The registry -/

theorem SubnetParams.readsBytes_form (p : SubnetParams) : SubnetParams.form.ReadsBytes p :=
  readsBytes_record
    (.cons rfl (readsBytes_word 16 p.minStake) <| .cons rfl (readsBytes_word 16 p.maxStake) <|
     .cons rfl (readsBytes_word 8 p.unbondingPeriod) <| .nil ()) rfl

theorem NetworkParams.readsBytes_form (p : NetworkParams) : NetworkParams.form.ReadsBytes p := by
  unfold NetworkParams.form
  -- The values for missing fields do not matter: every field is written.
  generalize (default : NetworkParams) = d
  exact readsBytes_record
    (.cons rfl (readsBytes_word 8 p.epochLength) <|
     .cons rfl (readsBytes_word 8 p.overwatchMultiplier) <|
     .cons rfl (readsBytes_word 16 p.overwatchCutoff) <|
     .cons rfl (readsBytes_word 8 p.swapDelay) <|
     .cons rfl (readsBytes_word 16 p.minDelegateDeposit) <|
     .cons rfl (readsBytes_word 8 p.maxUnbondings) <|
     .cons rfl (readsBytes_word 8 p.fallbackUnbondingPeriod) <|
     .cons rfl (readsBytes_word 8 p.overwatchRetention) <| .nil ()) rfl

theorem AccountInfo.readsBytes_form (a : AccountInfo) : AccountInfo.form.ReadsBytes a :=
  readsBytes_record (.cons rfl (readsBytes_word 16 a.free) <| .nil ()) rfl

/-- The lengths of the maps and sets of a registry can be written. -/
structure Registry.Fits (r : Registry) : Prop where
  accounts : r.accounts.size < 2 ^ 64
  nodes : r.nodes.size < 2 ^ 64

/-- **A registry that fits is read back.** -/
theorem Registry.readsBytes_form {r : Registry} (h : r.Fits) : Registry.form.ReadsBytes r :=
  readsBytes_record
    (.cons rfl r.network.readsBytes_form <|
     .cons rfl (readsBytes_map
        (fun e _ => ⟨readsBytes_account e.1, e.2.readsBytes_form⟩) h.accounts) <|
     .cons rfl (readsBytes_numbered fun e _ => e.2.readsBytes_form) <|
     .cons rfl (readsBytes_set (readsBytes_pair (readsBytes_word 4) (readsBytes_word 4)) h.nodes) <|
     .cons rfl (readsBytes_numbered fun e _ => readsBytes_account e.2) <| .nil ()) rfl

end Stakebook
