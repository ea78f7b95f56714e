import Mathlib.Logic.Function.Basic
import Mathlib.Tactic

/-!
# Words in memory

A memory is a function from addresses to bytes.  Words of 16 and 32 bits lie in it with the low byte first; fields of 12
bits are packed, two in three bytes.

* `ld16`, `ld32`, `st16`, `st32` — loads and stores of words.
* `ld12`, `st12lo`, `st12hi` — the load of a packed field, and the two halves of its store.
* `ld12_st12`, `ld12_st12lo_of_ne`, `ld12_st12hi_of_ne` — either half of a store leaves the other fields alone.
-/

namespace FreakOS
namespace Lib

/-- A memory, by its bytes. -/
abbrev ByteMap := Nat → BitVec 8

section Words

variable {b b' : ByteMap} {i j : Nat}

/-- The 16-bit word at an address. -/
def ld16 (b : ByteMap) (i : Nat) : BitVec 16 := b (i + 1) ++ b i

/-- The 32-bit word at an address. -/
def ld32 (b : ByteMap) (i : Nat) : BitVec 32 := ld16 b (i + 2) ++ ld16 b i

/-- The memory after a store of a 16-bit word. -/
def st16 (b : ByteMap) (i : Nat) (v : BitVec 16) : ByteMap :=
  Function.update (Function.update b i (v.setWidth 8)) (i + 1) ((v >>> 8).setWidth 8)

/-- The memory after a store of a 32-bit word. -/
def st32 (b : ByteMap) (i : Nat) (v : BitVec 32) : ByteMap :=
  st16 (st16 b i (v.setWidth 16)) (i + 2) ((v >>> 16).setWidth 16)

theorem ld16_congr (h₀ : b' i = b i) (h₁ : b' (i + 1) = b (i + 1)) : ld16 b' i = ld16 b i := by
  unfold ld16
  rw [h₀, h₁]

theorem ld32_congr (h : ∀ k < 4, b' (i + k) = b (i + k)) : ld32 b' i = ld32 b i := by
  have hlow : ld16 b' i = ld16 b i := ld16_congr (h 0 (by omega)) (h 1 (by omega))
  have hhigh : ld16 b' (i + 2) = ld16 b (i + 2) := ld16_congr (h 2 (by omega)) (h 3 (by omega))
  unfold ld32
  rw [hlow, hhigh]

/-- A store changes the bytes of its word only. -/
theorem st16_apart (v : BitVec 16) (h : j < i ∨ i + 2 ≤ j) : st16 b i v j = b j := by
  unfold st16
  rw [Function.update_of_ne (by omega), Function.update_of_ne (by omega)]

@[inherit_doc st16_apart]
theorem st32_apart (v : BitVec 32) (h : j < i ∨ i + 4 ≤ j) : st32 b i v j = b j := by
  unfold st32
  rw [st16_apart _ (by omega), st16_apart _ (by omega)]

/-- A word is its two halves. -/
theorem halves_append {w : Nat} (v : BitVec (w + w)) : (v >>> w).setWidth w ++ v.setWidth w = v := by
  refine BitVec.eq_of_getLsbD_eq fun k hk => ?_
  rw [BitVec.getLsbD_append]
  split
  · rename_i hlt
    simp [hlt]
  · rename_i hge
    have hk' : k - w < w := by omega
    simp only [BitVec.getLsbD_setWidth, BitVec.getLsbD_ushiftRight, hk', decide_true, Bool.true_and]
    congr 1
    omega

@[simp] theorem ld16_st16 (b : ByteMap) (i : Nat) (v : BitVec 16) : ld16 (st16 b i v) i = v := by
  unfold ld16 st16
  rw [Function.update_self, Function.update_of_ne (by omega), Function.update_self]
  exact halves_append (w := 8) v

@[simp] theorem ld32_st32 (b : ByteMap) (i : Nat) (v : BitVec 32) : ld32 (st32 b i v) i = v := by
  unfold ld32 st32
  rw [ld16_st16, ld16_congr (st16_apart _ (by omega)) (st16_apart _ (by omega)), ld16_st16]
  exact halves_append (w := 16) v

/-- A word is not changed by a store behind or before it. -/
theorem ld16_st16_apart (v : BitVec 16) (h : j + 2 ≤ i ∨ i + 2 ≤ j) : ld16 (st16 b i v) j = ld16 b j :=
  ld16_congr (st16_apart v (by omega)) (st16_apart v (by omega))

@[inherit_doc ld16_st16_apart]
theorem ld16_st32_apart (v : BitVec 32) (h : j + 2 ≤ i ∨ i + 4 ≤ j) : ld16 (st32 b i v) j = ld16 b j :=
  ld16_congr (st32_apart v (by omega)) (st32_apart v (by omega))

@[inherit_doc ld16_st16_apart]
theorem ld32_st32_apart (v : BitVec 32) (h : j + 4 ≤ i ∨ i + 4 ≤ j) : ld32 (st32 b i v) j = ld32 b j :=
  ld32_congr fun _ _ => st32_apart v (by omega)

@[inherit_doc ld16_st16_apart]
theorem ld32_st16_apart (v : BitVec 16) (h : j + 4 ≤ i ∨ i + 2 ≤ j) : ld32 (st16 b i v) j = ld32 b j :=
  ld32_congr fun _ _ => st16_apart v (by omega)

end Words

/-! ### Packed fields of 12 bits -/

section Packed

variable {b b' : ByteMap} {c c' : Nat}

/-- The first byte of a field. -/
def at12 (c : Nat) : Nat := c * 3 / 2

/-- The field `c`. -/
def ld12 (b : ByteMap) (c : Nat) : BitVec 16 :=
  if c % 2 = 1 then ld16 b (at12 c) >>> 4 else ld16 b (at12 c) &&& 0xFFF

/-- The first byte of the field `c` in a store of `v`. -/
def low12 (c : Nat) (old : BitVec 8) (v : BitVec 32) : BitVec 8 :=
  if c % 2 = 1 then (old &&& 0x0F) ||| (v.setWidth 8 <<< 4) else v.setWidth 8

/-- The second byte of the field `c` in a store of `v`. -/
def high12 (c : Nat) (old : BitVec 8) (v : BitVec 32) : BitVec 8 :=
  if c % 2 = 1 then (v >>> 4).setWidth 8 else (old &&& 0xF0) ||| ((v >>> 8).setWidth 8 &&& 0x0F)

/-- The first half of a store. -/
def st12lo (b : ByteMap) (c : Nat) (v : BitVec 32) : ByteMap := Function.update b (at12 c) (low12 c (b (at12 c)) v)

/-- The second half of a store. -/
def st12hi (b : ByteMap) (c : Nat) (v : BitVec 32) : ByteMap :=
  Function.update b (at12 c + 1) (high12 c (b (at12 c + 1)) v)

theorem ld12_congr (h₀ : b' (at12 c) = b (at12 c)) (h₁ : b' (at12 c + 1) = b (at12 c + 1)) : ld12 b' c = ld12 b c := by
  unfold ld12
  rw [ld16_congr h₀ h₁]

/-- A field that shares its first byte with no change, and its second one in the low half only. -/
theorem ld12_even (hc : c % 2 = 0) (h₀ : b' (at12 c) = b (at12 c))
    (h₁ : b' (at12 c + 1) &&& 0x0F = b (at12 c + 1) &&& 0x0F) : ld12 b' c = ld12 b c := by
  have hsplit : ∀ hi lo : BitVec 8, (hi ++ lo) &&& (0xFFF : BitVec 16) = (hi &&& 0x0F) ++ lo := by
    intro hi lo
    have hmask : (0xFFF : BitVec 16) = (0x0F : BitVec 8) ++ BitVec.allOnes 8 := by decide
    rw [hmask]
    exact BitVec.and_append.trans (by rw [BitVec.and_allOnes])
  unfold ld12 ld16
  rw [if_neg (by omega), if_neg (by omega), hsplit, hsplit, h₀, h₁]

/-- A field that shares its second byte with no change, and its first one in the high half only. -/
theorem ld12_odd (hc : c % 2 = 1) (h₀ : b' (at12 c) &&& 0xF0 = b (at12 c) &&& 0xF0)
    (h₁ : b' (at12 c + 1) = b (at12 c + 1)) : ld12 b' c = ld12 b c := by
  have hsplit : ∀ hi lo : BitVec 8, (hi ++ lo) >>> 4 = (hi ++ (lo &&& 0xF0)) >>> 4 := by
    intro hi lo
    refine BitVec.eq_of_getLsbD_eq fun k hk => ?_
    simp only [BitVec.getLsbD_ushiftRight, BitVec.getLsbD_append]
    split
    · rename_i hlt
      have hbit : (0xF0 : BitVec 8).getLsbD (4 + k) = true := by interval_cases k <;> first | rfl | omega
      rw [BitVec.getLsbD_and, hbit, Bool.and_true]
    · rfl
  unfold ld12 ld16
  rw [if_pos hc, if_pos hc, hsplit, hsplit (b (at12 c + 1)), h₀, h₁]

/-- The first half of a store of another field. -/
theorem ld12_st12lo_of_ne (b : ByteMap) (v : BitVec 32) (hne : c' ≠ c) : ld12 (st12lo b c v) c' = ld12 b c' := by
  unfold st12lo
  by_cases hshare : c' + 1 = c ∧ c % 2 = 1
  · -- The byte is the second one of `c'`, whose half stays.
    have hat : at12 c = at12 c' + 1 := by
      unfold at12
      omega
    refine ld12_even (by omega) (Function.update_of_ne (by omega) ..) ?_
    rw [← hat, Function.update_self]
    unfold low12
    rw [if_pos hshare.2]
    refine BitVec.eq_of_getLsbD_eq fun k hk => ?_
    interval_cases k <;> simp
  · have hfar : at12 c' ≠ at12 c ∧ at12 c' + 1 ≠ at12 c := by
      unfold at12
      omega
    exact ld12_congr (Function.update_of_ne hfar.1 ..) (Function.update_of_ne hfar.2 ..)

/-- The second half of a store of another field. -/
theorem ld12_st12hi_of_ne (b : ByteMap) (v : BitVec 32) (hne : c' ≠ c) : ld12 (st12hi b c v) c' = ld12 b c' := by
  unfold st12hi
  by_cases hshare : c' = c + 1 ∧ c % 2 = 0
  · -- The byte is the first one of `c'`, whose half stays.
    have hat : at12 c + 1 = at12 c' := by
      unfold at12
      omega
    refine ld12_odd (by omega) ?_ (Function.update_of_ne (by omega) ..)
    rw [hat, Function.update_self]
    unfold high12
    rw [if_neg (by omega)]
    refine BitVec.eq_of_getLsbD_eq fun k hk => ?_
    interval_cases k <;> simp
  · have hfar : at12 c' ≠ at12 c + 1 ∧ at12 c' + 1 ≠ at12 c + 1 := by
      unfold at12
      omega
    exact ld12_congr (Function.update_of_ne hfar.1 ..) (Function.update_of_ne hfar.2 ..)

/-- The two bytes of an odd field hold it in their upper bits. -/
theorem odd_bytes (old : BitVec 8) (v : BitVec 32) :
    ((v >>> 4).setWidth 8 ++ ((old &&& 0x0F#8) ||| (v.setWidth 8 <<< 4))) >>> 4 = v.setWidth 16 &&& 0xFFF#16 := by
  refine BitVec.eq_of_getLsbD_eq fun k hk => ?_
  rw [BitVec.getLsbD_ushiftRight, BitVec.getLsbD_append]
  interval_cases k <;> simp

/-- The two bytes of an even field hold it in their lower bits. -/
theorem even_bytes (old : BitVec 8) (v : BitVec 32) :
    (((old &&& 0xF0#8) ||| ((v >>> 8).setWidth 8 &&& 0x0F#8)) ++ v.setWidth 8) &&& 0xFFF#16 =
      v.setWidth 16 &&& 0xFFF#16 := by
  refine BitVec.eq_of_getLsbD_eq fun k hk => ?_
  rw [BitVec.getLsbD_and, BitVec.getLsbD_append]
  interval_cases k <;> simp

/-- A field holds what was stored. -/
theorem ld12_st12 (b : ByteMap) (c : Nat) (v : BitVec 32) :
    ld12 (st12hi (st12lo b c v) c v) c = v.setWidth 16 &&& 0xFFF := by
  have hlow : st12hi (st12lo b c v) c v (at12 c) = low12 c (b (at12 c)) v := by
    unfold st12hi st12lo
    rw [Function.update_of_ne (by omega), Function.update_self]
  have hhigh : st12hi (st12lo b c v) c v (at12 c + 1) = high12 c (b (at12 c + 1)) v := by
    unfold st12hi st12lo
    rw [Function.update_self, Function.update_of_ne (by omega)]
  unfold ld12 ld16
  rw [hlow, hhigh]
  unfold low12 high12
  by_cases hc : c % 2 = 1
  · rw [if_pos hc, if_pos hc, if_pos hc]
    exact odd_bytes ..
  · rw [if_neg hc, if_neg hc, if_neg hc]
    exact even_bytes ..

end Packed

end Lib
end FreakOS
