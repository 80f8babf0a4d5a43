import Stakebook.Form.Components

/-!
# Snapshots

A snapshot is the binary form of a whole ledger at a block, with the version of the layout in front.
-/

namespace Stakebook

open Form

/-- A ledger at a block, under a version of the layout. -/
structure Snapshot where
  version : Word 32
  block : Block
  ledger : Ledger
deriving DecidableEq

namespace Snapshot

/-- The version that is written and read. -/
def currentVersion : Word 32 := 1

/-- Why bytes are not a snapshot. -/
inductive Error
  | codec
  | version (found : Word 32)
deriving DecidableEq

/-- The message of an error. -/
def Error.message : Error → String
  | .codec => "Échec de sérialisation"
  | .version found => s!"unsupported snapshot version {found} (expected {currentVersion})"

/-- The form of a snapshot. -/
def form : Form Snapshot :=
  record
    (.cons (.required "version" word32) <|
     .cons (.required "block_number" word64) <|
     .cons (.required "store" Book.form) <|
     .cons (.required "runtime" Registry.form) .nil)
    (fun (version, block, book, registry, _) => { version, block, ledger := { book, registry } })
    (fun s => (s.version, s.block, s.ledger.book, s.ledger.registry, ()))

/-- The bytes of a ledger at a block. -/
def save (l : Ledger) (block : Block) : Bytes := form.encode ⟨currentVersion, block, l⟩

/-- The ledger that bytes hold, with its block. The bytes have to decode as a whole before their
version is looked at. -/
def load (bs : Bytes) : Except Error (Ledger × Block) :=
  match form.decode? bs with
  | none => .error .codec
  | some s =>
    if s.version = currentVersion then .ok (s.ledger, s.block) else .error (.version s.version)

end Snapshot

end Stakebook
