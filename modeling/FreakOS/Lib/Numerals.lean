import Mathlib.Data.Nat.Digits.Lemmas
import Mathlib.Tactic

/-!
# Numerals

Lists of digits, the most significant first, and memory in which a list is reversed by swaps.

* `Numeral.value`, `Numeral.Canonical` — what a numeral stands for, and when it has no superfluous digit.
* `Numeral.digits` — the numeral of a number.  `Canonical.eq_digits`: there is no other one.
* `Numeral.produced_cons` — the digits in the order in which division finds them.
* `Segment.reversed` — swapping the ends of a segment, then the next inner places, reverses it.
-/

namespace FreakOS
namespace Lib
namespace Numeral

/-- The number that a list of digits stands for. -/
def value (b : Nat) (ds : List Nat) : Nat := Nat.ofDigits b ds.reverse

/-- A numeral: at least one digit, and 0 as the first one only if it stands alone. -/
structure Canonical (b : Nat) (ds : List Nat) : Prop where
  nonempty : ds ≠ []
  lt : ∀ d ∈ ds, d < b
  leading : ds.head? = some 0 → ds = [0]

/-- The digits of a number as division finds them, at least one. -/
def produced (b n : Nat) : List Nat := if n = 0 then [0] else Nat.digits b n

/-- The numeral of a number. -/
def digits (b n : Nat) : List Nat := (produced b n).reverse

variable {b n : Nat}

theorem produced_ne_nil (b n : Nat) : produced b n ≠ [] := by
  unfold produced
  split
  · exact List.cons_ne_nil 0 []
  · rename_i hn
    exact Nat.digits_ne_nil_iff_ne_zero.mpr hn

/-- A round of division produces one digit, and another round follows if something is left. -/
theorem produced_cons (hb : 2 ≤ b) (n : Nat) :
    produced b n = n % b :: (if n / b = 0 then [] else produced b (n / b)) := by
  by_cases hn : n = 0
  · subst hn
    simp [produced]
  · have hstep : Nat.digits b n = n % b :: Nat.digits b (n / b) := Nat.digits_eq_cons_digits_div (by omega) hn
    unfold produced
    rw [if_neg hn, hstep]
    by_cases hrest : n / b = 0
    · rw [hrest, Nat.digits_zero, if_pos rfl]
    · rw [if_neg hrest, if_neg hrest]

theorem produced_lt (hb : 2 ≤ b) : ∀ d ∈ produced b n, d < b := by
  intro d hd
  unfold produced at hd
  split at hd
  · rw [List.mem_singleton.mp hd]
    omega
  · exact Nat.digits_lt_base (by omega) hd

theorem value_cons (b d : Nat) (ds : List Nat) : value b (d :: ds) = d * b ^ ds.length + value b ds := by
  unfold value
  rw [List.reverse_cons, Nat.ofDigits_append, Nat.ofDigits_singleton, List.length_reverse, Nat.mul_comm, Nat.add_comm]

theorem value_digits (b n : Nat) : value b (digits b n) = n := by
  unfold value digits produced
  rw [List.reverse_reverse]
  split
  · rename_i hn
    rw [hn, Nat.ofDigits_singleton]
  · exact Nat.ofDigits_digits b n

theorem canonical_digits (hb : 2 ≤ b) (n : Nat) : Canonical b (digits b n) where
  nonempty := fun h => produced_ne_nil b n (List.reverse_eq_nil_iff.mp h)
  lt := fun d hd => produced_lt hb d (List.mem_reverse.mp hd)
  leading := by
    intro hhead
    unfold digits produced at hhead ⊢
    by_cases hn : n = 0
    · rw [if_pos hn]
      rfl
    · rw [if_neg hn, List.head?_reverse] at hhead
      have hlast := List.getLast?_eq_some_getLast (Nat.digits_ne_nil_iff_ne_zero (b := b).mpr hn)
      rw [hlast] at hhead
      exact absurd (Option.some.inj hhead) (Nat.getLast_digit_ne_zero b hn)

/-- A number has one numeral. -/
theorem Canonical.eq_digits {ds : List Nat} (hb : 2 ≤ b) (h : Canonical b ds) : ds = digits b (value b ds) := by
  by_cases hzero : ds = [0]
  · subst hzero
    simp [value, digits, produced]
  · have hhead : ds.head h.nonempty ≠ 0 := by
      intro h0
      refine hzero (h.leading ?_)
      rw [List.head?_eq_some_head h.nonempty, h0]
    have hlast : ∀ hne : ds.reverse ≠ [], ds.reverse.getLast hne ≠ 0 := by
      intro hne
      rwa [List.getLast_reverse]
    have hback : Nat.digits b (value b ds) = ds.reverse :=
      Nat.digits_ofDigits b (by omega) ds.reverse (fun d hd => h.lt d (List.mem_reverse.mp hd)) hlast
    have hne : value b ds ≠ 0 := by
      intro h0
      rw [h0, Nat.digits_zero] at hback
      exact h.nonempty (List.reverse_eq_nil_iff.mp hback.symm)
    unfold digits produced
    rw [if_neg hne, hback, List.reverse_reverse]

end Numeral

namespace Segment

variable {α : Type}

/-- Memory with two bytes exchanged. -/
def swap (mem : Nat → α) (p q : Nat) : Nat → α := Function.update (Function.update mem p (mem q)) q (mem p)

theorem swap_apply (mem : Nat → α) (p q x : Nat) :
    swap mem p q x = if x = q then mem p else if x = p then mem q else mem x := by
  unfold swap
  rw [Function.update_apply, Function.update_apply]

/-- Exchange the places from `first` on, `rounds` of them, with those at the same distance from `sum - first`. -/
def swapEnds (mem : Nat → α) (sum first rounds : Nat) : Nat → α :=
  (List.range' first rounds).foldl (fun mem j => swap mem j (sum - j)) mem

/-- After some rounds the places at both ends are exchanged, and those between are as before. -/
theorem swapEnds_apply (mem : Nat → α) {sum first rounds : Nat} (h : 2 * (first + rounds) ≤ sum + 2) (x : Nat) :
    swapEnds mem sum first rounds x =
      if first ≤ x ∧ x < first + rounds ∨ first ≤ sum - x ∧ sum - x < first + rounds ∧ x ≤ sum then mem (sum - x)
      else mem x := by
  induction rounds generalizing x with
  | zero =>
      rw [if_neg (by omega)]
      rfl
  | succ rounds ih =>
      have hstep : swapEnds mem sum first (rounds + 1) =
          swap (swapEnds mem sum first rounds) (first + rounds) (sum - (first + rounds)) := by
        unfold swapEnds
        rw [List.range'_concat, List.foldl_append, Nat.one_mul]
        rfl
      have hih := ih (by omega)
      rw [hstep, swap_apply]
      -- the two places of this round have not been exchanged before
      have hlow : swapEnds mem sum first rounds (first + rounds) = mem (first + rounds) := by
        rw [hih, if_neg (by omega)]
      have hhigh : swapEnds mem sum first rounds (sum - (first + rounds)) = mem (sum - (first + rounds)) := by
        rw [hih, if_neg (by omega)]
      by_cases hxhigh : x = sum - (first + rounds)
      · rw [if_pos hxhigh, hlow, if_pos (by omega)]
        congr 1
        omega
      · rw [if_neg hxhigh]
        by_cases hxlow : x = first + rounds
        · rw [if_pos hxlow, hhigh, if_pos (by omega), hxlow]
        · rw [if_neg hxlow, hih]
          exact if_congr (by omega) rfl rfl

/-- Half of the rounds reverse a segment. -/
theorem reversed (mem : Nat → α) {sum first rounds : Nat} (h : 2 * (first + rounds) ≤ sum + 2)
    (hhalf : sum ≤ 2 * (first + rounds)) (x : Nat) :
    swapEnds mem sum first rounds x = if first ≤ x ∧ x + first ≤ sum then mem (sum - x) else mem x := by
  rw [swapEnds_apply mem h]
  by_cases hin : first ≤ x ∧ x + first ≤ sum
  · rw [if_pos hin]
    by_cases hswapped : first ≤ x ∧ x < first + rounds ∨ first ≤ sum - x ∧ sum - x < first + rounds ∧ x ≤ sum
    · rw [if_pos hswapped]
    · rw [if_neg hswapped]
      congr 1
      omega
  · rw [if_neg hin, if_neg (by omega)]

end Segment
end Lib
end FreakOS
