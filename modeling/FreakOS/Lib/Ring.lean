import Mathlib.Data.List.Range
import Mathlib.Logic.Function.Basic
import Mathlib.Tactic

/-!
# Rings

A buffer of `n` cells that is used in a circle, with two positions that only grow: the cells of the positions from the
read position up to the write position hold what has not been read.

* `ringList` — what has not been read, oldest first.
* `ringList_push`, `ringList_pop` — the two operations of a queue.
* `ringList_overwrite` — writing into a full ring replaces what is oldest.
-/

namespace FreakOS
namespace Lib

section Ring

variable {α : Type*} {n : Nat} {buf : Nat → α} {r w : Nat}

/-- What is stored at the positions from `r` up to `w`. -/
def ringList (n : Nat) (buf : Nat → α) (r w : Nat) : List α :=
  (List.range' r (w - r)).map fun p => buf (p % n)

@[simp] theorem ringList_length : (ringList n buf r w).length = w - r := by
  simp [ringList]

@[simp] theorem ringList_self : ringList n buf r r = [] := by
  simp [ringList]

/-- The oldest element is read first. -/
theorem ringList_pop (buf : Nat → α) (h : r < w) : ringList n buf r w = buf (r % n) :: ringList n buf (r + 1) w := by
  have hsize : w - r = (w - (r + 1)) + 1 := by omega
  unfold ringList
  rw [hsize, List.range'_succ, List.map_cons]

/-- Two positions that are less than `n` apart have different cells. -/
theorem mod_ne_mod {p q : Nat} (hpq : p < q) (hq : q < p + n) : p % n ≠ q % n := by
  intro heq
  have hdvd : n ∣ q - p := (Nat.modEq_iff_dvd' hpq.le).mp heq
  have hle := Nat.le_of_dvd (by omega) hdvd
  omega

/-- A cell that is not in use is written. -/
theorem ringList_update (buf : Nat → α) (x : α) (hfits : w < r + n) :
    ringList n (Function.update buf (w % n) x) r w = ringList n buf r w := by
  unfold ringList
  refine List.map_congr_left fun p hp => ?_
  rw [List.mem_range'_1] at hp
  exact Function.update_of_ne (mod_ne_mod (by omega) (by omega)) _ _

/-- With room left, what is written becomes the newest element. -/
theorem ringList_push {x : α} (hle : r ≤ w) (hfits : w < r + n) :
    ringList n (Function.update buf (w % n) x) r (w + 1) = ringList n buf r w ++ [x] := by
  have hsize : w + 1 - r = w - r + 1 := by omega
  have hlast : r + (w - r) = w := by omega
  have hsame := ringList_update buf x hfits
  unfold ringList at hsame ⊢
  rw [hsize, List.range'_1_concat, List.map_append, hsame, hlast]
  simp

/-- In a full ring the cell of the write position is that of the oldest element. -/
theorem ringList_overwrite {x : α} (hpos : 0 < n) (hfull : w = r + n) :
    ringList n (Function.update buf (w % n) x) r w = x :: (ringList n buf r w).tail := by
  subst hfull
  have hcell : (r + n) % n = r % n := Nat.add_mod_right r n
  rw [ringList_pop _ (by omega), ringList_pop buf (by omega), hcell, Function.update_self, List.tail_cons]
  congr 1
  unfold ringList
  refine List.map_congr_left fun p hp => ?_
  rw [List.mem_range'_1] at hp
  exact Function.update_of_ne (mod_ne_mod (by omega) (by omega)).symm _ _

/-- Writing into a full ring changes nothing exactly where the oldest element is written again. -/
theorem ringList_overwrite_eq_iff {x : α} (hpos : 0 < n) (hfull : w = r + n) :
    ringList n (Function.update buf (w % n) x) r w = ringList n buf r w ↔ (ringList n buf r w).head? = some x := by
  rw [ringList_overwrite hpos hfull, ringList_pop buf (by omega), List.tail_cons, List.head?_cons]
  simp [eq_comm]

end Ring

end Lib
end FreakOS
