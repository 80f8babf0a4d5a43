import Stakebook.Octets

/-!
# Digests without collisions

No digest of a fixed length is free of collisions on all byte strings. What rests on collisions being
hard to find says so of the byte strings that it is about: `CollisionFree` is a condition on a list of
them, and can be computed.
-/

namespace Stakebook

/-- No two of these byte strings have the same digest. -/
def CollisionFree (hash : Bytes → Digest) (inputs : List Bytes) : Prop :=
  ∀ x ∈ inputs, ∀ y ∈ inputs, hash x = hash y → x = y

instance (hash : Bytes → Digest) (inputs : List Bytes) : Decidable (CollisionFree hash inputs) :=
  inferInstanceAs (Decidable (∀ x ∈ inputs, ∀ y ∈ inputs, _))

theorem CollisionFree.mono {hash : Bytes → Digest} {inputs inputs' : List Bytes}
    (h : CollisionFree hash inputs) (hsub : inputs' ⊆ inputs) : CollisionFree hash inputs' :=
  fun x hx y hy => h x (hsub hx) y (hsub hy)

theorem CollisionFree.mono_append {hash : Bytes → Digest} {xs xs' ys ys' : List Bytes}
    (h : CollisionFree hash (xs ++ ys)) (hxs : xs' ⊆ xs) (hys : ys' ⊆ ys) :
    CollisionFree hash (xs' ++ ys') :=
  h.mono <| List.append_subset.mpr
    ⟨fun _ hx => List.mem_append_left _ (hxs hx), fun _ hy => List.mem_append_right _ (hys hy)⟩

end Stakebook
