import Stakebook.Word

/-!
# Batches

A batch is a list short enough for its length to be a 64-bit word, so that the length can always be
written in front of it.
-/

namespace Stakebook

/-- A list with fewer than `2 ^ 64` items. -/
@[ext] structure Batch (α : Type) where
  items : List α
  length_lt : items.length < 2 ^ 64
deriving DecidableEq

namespace Batch

variable {α : Type}

/-- A list as a batch, if it is short enough. -/
def ofList? (items : List α) : Option (Batch α) :=
  if h : items.length < 2 ^ 64 then some ⟨items, h⟩ else none

@[simp] theorem ofList?_items (b : Batch α) : ofList? b.items = some b := dif_pos b.length_lt

instance : EmptyCollection (Batch α) := ⟨[], Nat.two_pow_pos 64⟩
instance : Inhabited (Batch α) := ⟨∅⟩

end Batch

end Stakebook
