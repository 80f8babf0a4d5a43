import Stakebook.Form.Transaction
import Stakebook.Proofs.Collision
import Stakebook.Proofs.Ledger.Records

/-!
# The bytes of a transaction determine it

The calls on the pools of subnets and of nodes are written as variants of their own, twenty-two in
all. Each call is of one of them and of none before it, and its content is read back, so that a
transaction is read back from any bytes that begin with its own. That leaves no room for two of them
with the same bytes, or with bytes of which one goes on from the other.

Headlines:
* **`LedgerCall.readsBytes_form`**, **`Transaction.readsBytes_form`**: every call and every
  transaction is read back.
* **`Transaction.eq_of_bytes`**: different transactions have different bytes, and different digests
  where digests do not collide.
-/

namespace Stakebook

open Form

theorem Commit.readsBytes_form (c : Commit) : Commit.form.ReadsBytes c :=
  readsBytes_record
    (.cons rfl (readsBytes_word 4 c.subnet) <| .cons rfl (readsBytes_octets c.digest) <| .nil ())
    rfl

theorem Reveal.readsBytes_form (r : Reveal) : Reveal.form.ReadsBytes r :=
  readsBytes_record
    (.cons rfl (readsBytes_word 4 r.subnet) <| .cons rfl (readsBytes_word 16 r.weight) <|
     .cons rfl (readsBytes_batch fun b _ => readsBytes_byte b) <| .nil ()) rfl

theorem Origin.readsBytes_form (o : Origin) : Origin.form.ReadsBytes o := by
  cases o with
  | signed who => exact readsBytes_content 0 rfl rfl rfl rfl (by decide) (readsBytes_account who)
  | system => exact readsBytes_unit 1 rfl rfl (by decide)

namespace LedgerCall

/-- The fields of a call on a subnet. -/
theorem readsBytes_onSubnet {name name' : String} (subnet : SubnetId) (amount : Amount) :
    (Fields.cons (.required name word32) <| .cons (.required name' word128) .nil).ReadsBytes
      (subnet, amount, ()) :=
  .cons rfl (readsBytes_word 4 subnet) <| .cons rfl (readsBytes_word 16 amount) <| .nil ()

/-- The fields of a call on a node of a subnet. -/
theorem readsBytes_onNode {name name' name'' : String} (key : NodeKey) (amount : Amount) :
    (Fields.cons (.required name word32) <| .cons (.required name' word32) <|
      .cons (.required name'' word128) .nil).ReadsBytes (key.subnet, key.node, amount, ()) :=
  .cons rfl (readsBytes_word 4 key.subnet) <| .cons rfl (readsBytes_word 4 key.node) <|
  .cons rfl (readsBytes_word 16 amount) <| .nil ()

/-! ## Calls on pools

Which variant such a call is of depends on the kinds of its pools. -/

theorem readsBytes_delegate (pool : PoolId) (amount : Amount) :
    form.ReadsBytes (.delegate pool amount) := by
  cases pool with
  | subnet id =>
    exact readsBytes_fields 2 rfl rfl rfl rfl (by decide) (readsBytes_onSubnet id amount)
  | node key =>
    exact readsBytes_fields 6 rfl rfl rfl rfl (by decide) (readsBytes_onNode key amount)

theorem readsBytes_undelegate (pool : PoolId) (shares : Shares) :
    form.ReadsBytes (.undelegate pool shares) := by
  cases pool with
  | subnet id =>
    exact readsBytes_fields 3 rfl rfl rfl rfl (by decide) (readsBytes_onSubnet id shares)
  | node key =>
    exact readsBytes_fields 7 rfl rfl rfl rfl (by decide) (readsBytes_onNode key shares)

theorem readsBytes_swap (source target : PoolId) (shares : Shares) :
    form.ReadsBytes (.swap source target shares) := by
  cases source with
  | subnet source =>
    cases target with
    | subnet target =>
      exact readsBytes_fields 4 rfl rfl rfl rfl (by decide)
        (.cons rfl (readsBytes_word 4 source) <| .cons rfl (readsBytes_word 4 target) <|
         .cons rfl (readsBytes_word 16 shares) <| .nil ())
    | node target =>
      exact readsBytes_fields 11 rfl rfl rfl rfl (by decide)
        (.cons rfl (readsBytes_word 4 source) <| .cons rfl (readsBytes_word 4 target.subnet) <|
         .cons rfl (readsBytes_word 4 target.node) <| .cons rfl (readsBytes_word 16 shares) <|
         .nil ())
  | node source =>
    cases target with
    | subnet target =>
      exact readsBytes_fields 10 rfl rfl rfl rfl (by decide)
        (.cons rfl (readsBytes_word 4 source.subnet) <|
         .cons rfl (readsBytes_word 4 source.node) <| .cons rfl (readsBytes_word 4 target) <|
         .cons rfl (readsBytes_word 16 shares) <| .nil ())
    | node target =>
      exact readsBytes_fields 8 rfl rfl rfl rfl (by decide)
        (.cons rfl (readsBytes_word 4 source.subnet) <|
         .cons rfl (readsBytes_word 4 source.node) <|
         .cons rfl (readsBytes_word 4 target.subnet) <|
         .cons rfl (readsBytes_word 4 target.node) <| .cons rfl (readsBytes_word 16 shares) <|
         .nil ())

theorem readsBytes_transfer (pool : PoolId) (target : AccountId) (shares : Shares) :
    form.ReadsBytes (.transfer pool target shares) := by
  cases pool with
  | subnet id =>
    exact readsBytes_fields 5 rfl rfl rfl rfl (by decide)
      (.cons rfl (readsBytes_word 4 id) <| .cons rfl (readsBytes_account target) <|
       .cons rfl (readsBytes_word 16 shares) <| .nil ())
  | node key =>
    exact readsBytes_fields 9 rfl rfl rfl rfl (by decide)
      (.cons rfl (readsBytes_word 4 key.subnet) <| .cons rfl (readsBytes_word 4 key.node) <|
       .cons rfl (readsBytes_account target) <| .cons rfl (readsBytes_word 16 shares) <| .nil ())

theorem readsBytes_distribute (pool : PoolId) (amount : Amount) :
    form.ReadsBytes (.distribute pool amount) := by
  cases pool with
  | subnet id =>
    exact readsBytes_fields 20 rfl rfl rfl rfl (by decide) (readsBytes_onSubnet id amount)
  | node key =>
    exact readsBytes_fields 21 rfl rfl rfl rfl (by decide) (readsBytes_onNode key amount)

/-! ## All calls -/

/-- **Every call is read back.** -/
theorem readsBytes_form (c : LedgerCall) : form.ReadsBytes c := by
  cases c with
  | addStake subnet amount =>
    exact readsBytes_fields 0 rfl rfl rfl rfl (by decide) (readsBytes_onSubnet subnet amount)
  | removeStake subnet amount =>
    exact readsBytes_fields 1 rfl rfl rfl rfl (by decide) (readsBytes_onSubnet subnet amount)
  | delegate pool amount => exact readsBytes_delegate pool amount
  | undelegate pool shares => exact readsBytes_undelegate pool shares
  | swap source target shares => exact readsBytes_swap source target shares
  | transfer pool target shares => exact readsBytes_transfer pool target shares
  | updateSwap id target =>
    exact readsBytes_fields 12 rfl rfl rfl rfl (by decide)
      (.cons rfl (readsBytes_word 8 id) <| .cons rfl target.takes_targetForm.reads <| .nil ())
  | updateSwapByTag id tag subnet node =>
    exact readsBytes_fields 13 rfl rfl rfl rfl (by decide)
      (.cons rfl (readsBytes_word 8 id) <| .cons rfl (readsBytes_word 1 tag) <|
       .cons rfl (readsBytes_word 4 subnet) <| .cons rfl (readsBytes_word 4 node) <| .nil ())
  | executeSwap id =>
    exact readsBytes_fields 14 rfl rfl rfl rfl (by decide)
      (.cons rfl (readsBytes_word 8 id) <| .nil ())
  | executeReadySwaps max =>
    exact readsBytes_fields 15 rfl rfl rfl rfl (by decide)
      (.cons rfl (readsBytes_word 8 max) <| .nil ())
  | claimUnbondings => exact readsBytes_unit 16 rfl rfl (by decide)
  | commitWeights watcher commits =>
    exact readsBytes_fields 17 rfl rfl rfl rfl (by decide)
      (.cons rfl (readsBytes_word 4 watcher) <|
       .cons rfl (readsBytes_batch fun c _ => c.readsBytes_form) <| .nil ())
  | revealWeights watcher reveals =>
    exact readsBytes_fields 18 rfl rfl rfl rfl (by decide)
      (.cons rfl (readsBytes_word 4 watcher) <|
       .cons rfl (readsBytes_batch fun r _ => r.readsBytes_form) <| .nil ())
  | pruneOverwatch => exact readsBytes_unit 19 rfl rfl (by decide)
  | distribute pool amount => exact readsBytes_distribute pool amount

end LedgerCall

namespace Transaction

/-- **Every transaction is read back.** -/
theorem readsBytes_form (t : Transaction) : form.ReadsBytes t :=
  readsBytes_record
    (.cons rfl t.origin.readsBytes_form <| .cons rfl t.call.readsBytes_form <| .nil ()) rfl

/-- **The bytes of a transaction determine it**, and are not the beginning of those of another. So
does its digest, if the digests of the two do not collide. -/
theorem eq_of_bytes (t t' : Transaction) :
    (form.encode t = form.encode t' ∨ form.encode t <+: form.encode t' ∨
      form.encode t' <+: form.encode t → t = t') ∧
    (CollisionFree Blake3.digest [form.encode t, form.encode t'] → t.digest = t'.digest →
      t = t') := by
  have hprefix : form.encode t <+: form.encode t' → t = t' :=
    t.readsBytes_form.eq_of_prefix t'.readsBytes_form
  refine ⟨?_, fun hfree h => ?_⟩
  · rintro (h | h | h)
    · exact hprefix (h ▸ List.prefix_refl _)
    · exact hprefix h
    · exact (t'.readsBytes_form.eq_of_prefix t.readsBytes_form h).symm
  · have hbytes : form.encode t = form.encode t' :=
      hfree _ List.mem_cons_self _ (List.mem_cons_of_mem _ List.mem_cons_self) h
    exact hprefix (hbytes ▸ List.prefix_refl _)

/-- Two reveals under two salts. -/
def revealing (salt salt' : Batch UInt8) : Transaction :=
  ⟨.signed (.dev 1),
    .revealWeights 7 ⟨[⟨1, 5, salt⟩, ⟨1, 5, salt'⟩], (by decide : 2 < 2 ^ 64)⟩⟩

/-- Salts that hold the bytes `7, 8, 9` together. -/
def splitLate : Transaction := revealing ⟨[7, 8], by decide⟩ ⟨[9], by decide⟩
@[inherit_doc splitLate]
def splitEarly : Transaction := revealing ⟨[7], by decide⟩ ⟨[8, 9], by decide⟩

theorem eq_of_bytes_splitLate :
    ¬ form.encode splitLate <+: form.encode splitEarly ∧
      CollisionFree Blake3.digest [form.encode splitLate, form.encode splitEarly] ∧
      splitLate.digest ≠ splitEarly.digest := by
  have hne : splitLate ≠ splitEarly := by decide
  have hfree : CollisionFree Blake3.digest [form.encode splitLate, form.encode splitEarly] := by
    decide +kernel
  obtain ⟨hbytes, hdigest⟩ := eq_of_bytes splitLate splitEarly
  exact ⟨fun h => hne (hbytes (.inr (.inl h))), hfree, fun h => hne (hdigest hfree h)⟩

end Transaction

end Stakebook
