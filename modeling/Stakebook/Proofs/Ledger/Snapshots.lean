import Stakebook.Ledger.Snapshot
import Stakebook.Proofs.ComponentBytes
import Stakebook.Proofs.Ledger.Conservation

/-!
# What is saved is loaded

The bytes of a snapshot hold the whole ledger: all components of the book, with the order of the
swaps, the numbers and the totals that are kept beside the maps, and the registry. The only condition
is `Ledger.Fits`: a length is counted by a word of eight bytes, and it is written as that word.

Headlines:
* **`Snapshot.readsBytes_form`**: a snapshot is read back, whatever its version.
* **`Snapshot.load_save`**: saving and loading gives back the ledger and the block, whatever follows
  the bytes.
* **`Snapshot.load_versioned`**: the version is judged last, after everything behind it has been read
  in the current layout.
-/

namespace Stakebook

/-- The lengths of the maps and lists of a ledger are words, as they are wherever a ledger is held. -/
structure Ledger.Fits (l : Ledger) : Prop where
  book : l.book.Fits
  registry : l.registry.Fits

namespace Snapshot

open Form Ledger

theorem readsBytes_form {s : Snapshot} (h : s.ledger.Fits) : form.ReadsBytes s :=
  readsBytes_record
    (.cons rfl (readsBytes_word 4 s.version) <|
     .cons rfl (readsBytes_word 8 s.block) <|
     .cons rfl (Book.readsBytes_form h.book) <|
     .cons rfl (Registry.readsBytes_form h.registry) <| .nil ()) rfl

/-- Loading looks at nothing but the snapshot at the front of the bytes. -/
theorem load_encode {s : Snapshot} (h : s.ledger.Fits) (rest : Bytes) :
    load (form.encode s ++ rest) =
      if s.version = currentVersion then .ok (s.ledger, s.block) else .error (.version s.version) := by
  have hread : form.decode? (form.encode s ++ rest) = some s := by
    rw [Form.decode?, readsBytes_form h rest, Option.map_some]
  simp only [load, hread]

/-- **What is saved is loaded**, whatever bytes follow: the whole ledger, and the block. -/
theorem load_save {l : Ledger} (h : l.Fits) (block : Block) (rest : Bytes) :
    load (save l block ++ rest) = .ok (l, block) := by
  rw [save, load_encode h, if_pos rfl]

/-- A ledger with records of most kinds, saved in front of other bytes. -/
theorem load_save_eventful :
    ((new funded).run (eventful.take 6)).book.swaps.order = [0] ∧
      load (save ((new funded).run (eventful.take 6)) 4 ++ [7, 7]) =
        .ok ((new funded).run (eventful.take 6), 4) := by
  have hfits : ((new funded).run (eventful.take 6)).Fits :=
    ⟨by constructor <;> decide +kernel, by constructor <;> decide +kernel⟩
  exact ⟨by decide +kernel, load_save hfits 4 [7, 7]⟩

/-! ## Versions -/

/-- The form of what follows the version. -/
def bodyForm : Form (Block × Ledger) :=
  record
    (.cons (.required "block_number" word64) <|
     .cons (.required "store" Book.form) <|
     .cons (.required "runtime" Registry.form) .nil)
    (fun (block, book, registry, _) => (block, { book, registry }))
    (fun s => (s.1, s.2.book, s.2.registry, ()))

/-- The version is read first, and what follows it does not depend on it. -/
theorem decode?_version (v : Word 32) (body : Bytes) :
    form.decode? (Bytes.littleEndian 4 v.toNat ++ body) =
      (bodyForm.decode? body).map fun s => ⟨v, s.1, s.2⟩ := by
  have hversion : word32.decode (Bytes.littleEndian 4 v.toNat ++ body) = some (v, body) :=
    readsBytes_word 4 v body
  simp only [Form.decode?, form, bodyForm, record, Fields.cons, Field.required, hversion,
    Option.bind_eq_bind, Option.bind_some]
  cases (word64.decode body).bind _ <;> rfl

/-- **The version is judged last.** What follows the version is read in the current layout, whatever
the version is. If that fails the bytes are not a snapshot; if it succeeds they are loaded under the
current version, and refused under any other one, which is named. So another version is always named,
and the current one never, exactly if it is the current one or what follows can be read. -/
theorem load_versioned (v : Word 32) (body : Bytes) :
    (load (Bytes.littleEndian 4 v.toNat ++ body) =
      match bodyForm.decode? body with
      | none => .error .codec
      | some (block, ledger) =>
        if v = currentVersion then .ok (ledger, block) else .error (.version v)) ∧
    ((∀ found, load (Bytes.littleEndian 4 v.toNat ++ body) = .error (.version found) ↔
        v ≠ currentVersion ∧ found = v) ↔
      v = currentVersion ∨ (bodyForm.decode? body).isSome) := by
  have hload : load (Bytes.littleEndian 4 v.toNat ++ body) =
      match bodyForm.decode? body with
      | none => .error .codec
      | some (block, ledger) =>
        if v = currentVersion then .ok (ledger, block) else .error (.version v) := by
    unfold load
    rw [decode?_version]
    cases bodyForm.decode? body <;> rfl
  refine ⟨hload, ?_⟩
  rw [hload]
  by_cases hv : v = currentVersion
  · -- the current version is never reported
    cases bodyForm.decode? body <;> simp [hv]
  · cases bodyForm.decode? body with
    | none =>
      simp only [hv, Option.isSome_none]
      refine ⟨fun h => ?_, nofun⟩
      cases (h v).mpr ⟨hv, rfl⟩
    | some s => simp [hv, eq_comm]

theorem load_versioned_other :
    load (Bytes.littleEndian 4 (2 : Word 32).toNat ++ (save (new funded) 4).drop 4) =
        .error (.version 2) ∧
      load (Bytes.littleEndian 4 (1 : Word 32).toNat ++ (save (new funded) 4).drop 4) =
        .ok (new funded, 4) := by
  have hbody : bodyForm.decode? ((save (new funded) 4).drop 4) = some (4, new funded) := by
    decide +kernel
  have hother := (load_versioned 2 ((save (new funded) 4).drop 4)).1
  have hcurrent := (load_versioned 1 ((save (new funded) 4).drop 4)).1
  rw [hbody] at hother hcurrent
  exact ⟨hother, hcurrent⟩

/-- **A version with nothing behind it is not reported.** -/
theorem load_bare_version :
    load (Bytes.littleEndian 4 (2 : Word 32).toNat) = .error .codec ∧
      load (Bytes.littleEndian 4 (2 : Word 32).toNat) ≠ .error (.version 2) := by
  decide +kernel

end Snapshot

end Stakebook
