/-!
# Folding a list pairwise

A list is folded by joining its neighbours, first with second, third with fourth and so on, again
and again until one value is left. A last value without a neighbour goes up as it is. Both the
digest of a long byte string and the root over the records of a ledger are such folds.
-/

namespace Stakebook.PairTree

variable {α : Type}

/-- Joins neighbours; a last value without a neighbour stays. -/
def joinPairs (join : α → α → α) : List α → List α
  | a :: b :: rest => join a b :: joinPairs join rest
  | rest => rest

@[simp] theorem length_joinPairs (join : α → α → α) (l : List α) :
    (joinPairs join l).length = (l.length + 1) / 2 := by
  fun_induction joinPairs join l with
  | case1 a b rest ih => simp only [List.length_cons, ih]; omega
  | case2 rest h =>
    match rest with
    | [] => simp
    | [_] => simp
    | a :: b :: r => exact absurd rfl (h a b r)

/-- The list after joining neighbours `n` times. -/
def layer (join : α → α → α) : Nat → List α → List α
  | 0, l => l
  | n + 1, l => layer join n (joinPairs join l)

/-- The one value that a nonempty list folds to. As many rounds as the list is long are enough:
every round but the last shortens it. -/
def fold? (join : α → α → α) (l : List α) : Option α := (layer join l.length l).head?

end Stakebook.PairTree
