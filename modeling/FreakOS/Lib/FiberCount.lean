import Mathlib.Data.Finset.Card
import Mathlib.Tactic

/-!
# Counting references

A finite set of slots, each of which may point to something: `fiberCount` counts the slots that point to a
given target.  A reference count is right when it equals this number.

* `fiberCount_pos_iff` — the count is positive exactly when some slot points to the target.
* `fiberCount_update` — what redirecting one slot does to every count.
-/

namespace FreakOS
namespace Lib

section Fibers

variable {κ β : Type*} [DecidableEq κ] [DecidableEq β]

/-- The number of slots of `S` that point to `b`. -/
def fiberCount (S : Finset κ) (g : κ → Option β) (b : β) : Nat :=
  (S.filter fun k => g k = some b).card

variable {S : Finset κ} {g : κ → Option β} {b : β}

omit [DecidableEq κ] in
theorem fiberCount_le_card : fiberCount S g b ≤ S.card := Finset.card_filter_le _ _

omit [DecidableEq κ] in
theorem fiberCount_pos_iff : 0 < fiberCount S g b ↔ ∃ k ∈ S, g k = some b := by
  unfold fiberCount
  rw [Finset.card_pos, Finset.filter_nonempty_iff]

omit [DecidableEq κ] in
theorem fiberCount_eq_zero_iff : fiberCount S g b = 0 ↔ ∀ k ∈ S, g k ≠ some b := by
  unfold fiberCount
  rw [Finset.card_eq_zero, Finset.filter_eq_empty_iff]

omit [DecidableEq κ] in
theorem fiberCount_congr {g' : κ → Option β} (h : ∀ k ∈ S, g k = g' k) :
    fiberCount S g b = fiberCount S g' b := by
  unfold fiberCount
  congr 1
  refine Finset.filter_congr ?_
  intro k hk
  rw [h k hk]

/-- One slot contributes one or nothing; the rest of the slots is counted without it. -/
theorem fiberCount_eq_add_erase {k : κ} (hk : k ∈ S) :
    fiberCount S g b = (if g k = some b then 1 else 0) + fiberCount (S.erase k) g b := by
  unfold fiberCount
  rw [← Finset.insert_erase hk, Finset.filter_insert]
  split
  · rw [Finset.card_insert_of_notMem (by simp), Finset.erase_insert (by simp), Nat.add_comm]
  · rw [Finset.erase_insert (by simp), Nat.zero_add]

/-- Redirecting the slot `k` to `x` moves one reference from its old target to its new one. -/
theorem fiberCount_update {k : κ} (hk : k ∈ S) (x : Option β) :
    fiberCount S (Function.update g k x) b + (if g k = some b then 1 else 0) =
      fiberCount S g b + (if x = some b then 1 else 0) := by
  have hrest : fiberCount (S.erase k) (Function.update g k x) b = fiberCount (S.erase k) g b := by
    refine fiberCount_congr ?_
    intro k' hk'
    exact Function.update_of_ne (Finset.ne_of_mem_erase hk') _ _
  rw [fiberCount_eq_add_erase hk, hrest, Function.update_self, fiberCount_eq_add_erase (g := g) hk]
  omega

end Fibers

end Lib
end FreakOS
