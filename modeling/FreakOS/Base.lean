import Mathlib.Tactic

/-!
# Machine words, faults and kernel lists

The pieces of `types.h`, `debug.h` and `list.h` that the rest of the model is written in.

* `U32` is `uint32_t`; the address constants are those of `mm.h`.
* `Res α` is the result of kernel code that may not return: `panic` and `assert` stop the machine
  (`Fault.panic`), and the model does not continue past an address at which nothing lives, such as one computed
  from a failed allocation (`Fault.wildPointer`), or past an `int` that overflows (`Fault.overflow`).
* `listAdd`, `listAddAfter`, `listDel` are the operations of `list.h` on the sequence of nodes that the
  circular list represents, head node excluded.
-/

namespace FreakOS

/-- `uint32_t`. -/
abbrev U32 := BitVec 32

/-- The ways in which kernel code does not return to its caller. -/
inductive Fault where
  /-- `panic(msg)`, or an `assert` with that text: interrupts off, halt. -/
  | panic (msg : String)
  /-- The code follows an address at which nothing lives: one computed from a `NULL` page block, or one that
  has been freed. -/
  | wildPointer
  /-- The code adds to an `int` that has no greater value. -/
  | overflow
  /-- A loop of the model used up its fuel. -/
  | outOfFuel
deriving DecidableEq, Repr

/-- The outcome of kernel code. -/
abbrev Res := Except Fault

/-- Peel the first step off a computation that returned. -/
theorem Res.bind_eq_ok {α β : Type} {x : Res α} {f : α → Res β} {b : β} :
    (x >>= f) = .ok b ↔ ∃ a, x = .ok a ∧ f a = .ok b := by
  cases x with
  | error e => simp [bind, Except.bind]
  | ok a => simp [bind, Except.bind]

@[simp] theorem Res.ok_bind {α β : Type} (a : α) (f : α → Res β) :
    ((Except.ok a : Res α) >>= f) = f a := rfl

theorem Res.toOption_eq_some {α : Type} {x : Res α} {a : α} : x.toOption = some a ↔ x = .ok a := by
  cases x with
  | error e => simp [Except.toOption]
  | ok b => simp [Except.toOption]

/-! ### Constants of `types.h` and `mm.h` -/

/-- `NULL`. -/
def NULL : U32 := 0#32
/-- `PGSIZE`. -/
def PGSIZE : U32 := 0x1000#32
/-- `KERNEL_BASE`. -/
def KERNEL_BASE : U32 := 0xC0000000#32
/-- `KERNEL_TOP`, that is `KERNEL_BASE + MAX_PHY_MEM_SIZE`. -/
def KERNEL_TOP : U32 := 0xF8000000#32
/-- `USER_BASE`. -/
def USER_BASE : U32 := 0x00200000#32
/-- `USER_TOP`. -/
def USER_TOP : U32 := 0xB0000000#32
/-- `PGDE_MAP_NBYTE`: the bytes mapped by one page-directory entry. -/
def PGDE_MAP_NBYTE : U32 := 0x400000#32
/-- `KSTACKSIZE`. -/
def KSTACKSIZE : U32 := 8192#32

/-- `ROUNDDOWN(a, n)`. -/
def roundDown (a n : U32) : U32 := a - a % n

/-- `ROUNDUP(a, n)`. -/
def roundUp (a n : U32) : U32 := roundDown (a + n - 1) n

theorem roundDown_toNat (a n : U32) : (roundDown a n).toNat = a.toNat - a.toNat % n.toNat := by
  unfold roundDown
  rw [BitVec.toNat_sub_of_le, BitVec.toNat_umod]
  rw [BitVec.le_def, BitVec.toNat_umod]
  exact Nat.mod_le _ _

/-! ### Bits -/

/-- `GetBit(num, pos)`. -/
def getBit (num : U32) (pos : Nat) : U32 := (num >>> pos) &&& 1

/-- `SetBit(&num, pos)`. -/
def setBit (num : U32) (pos : Nat) : U32 := num ||| (1#32 <<< pos)

/-- `ClearBit(&num, pos)`. -/
def clearBit (num : U32) (pos : Nat) : U32 := num &&& ~~~(1#32 <<< pos)

theorem getBit_eq (num : U32) (pos : Nat) : getBit num pos = if num.getLsbD pos then 1 else 0 := by
  unfold getBit
  ext i hi
  by_cases hi0 : i = 0
  · subst hi0
    by_cases hbit : num.getLsbD pos <;> simp [hbit]
  · by_cases hbit : num.getLsbD pos <;> simp [hbit, hi0]

theorem getBit_eq_one_iff {num : U32} {pos : Nat} : getBit num pos = 1 ↔ num.getLsbD pos = true := by
  rw [getBit_eq]
  by_cases hbit : num.getLsbD pos <;> simp [hbit]

theorem getBit_eq_zero_iff {num : U32} {pos : Nat} : getBit num pos = 0 ↔ num.getLsbD pos = false := by
  rw [getBit_eq]
  by_cases hbit : num.getLsbD pos <;> simp [hbit]

@[simp] theorem getLsbD_setBit (num : U32) (pos i : Nat) :
    (setBit num pos).getLsbD i = (num.getLsbD i || (decide (i < 32) && decide (i = pos))) := by
  unfold setBit
  simp only [BitVec.getLsbD_or, BitVec.getLsbD_shiftLeft, BitVec.getLsbD_one]
  congr 1
  by_cases h : i < pos
  · simp [h, show i ≠ pos by omega]
  · by_cases h' : i = pos
    · simp [h']
    · simp [h, h', show i - pos ≠ 0 by omega]

@[simp] theorem getLsbD_clearBit (num : U32) (pos i : Nat) :
    (clearBit num pos).getLsbD i = (num.getLsbD i && !decide (i = pos)) := by
  unfold clearBit
  by_cases hi : i < 32
  · simp only [BitVec.getLsbD_and, BitVec.getLsbD_not, BitVec.getLsbD_shiftLeft, BitVec.getLsbD_one]
    congr 1
    by_cases h : i < pos
    · simp [h, hi, show i ≠ pos by omega]
    · by_cases h' : i = pos
      · simp [h', show pos < 32 by omega]
      · simp [h, h', hi, show i - pos ≠ 0 by omega]
  · simp [BitVec.getLsbD_of_ge num i (by omega)]

/-! ### Sequence view of `list.h` -/

section KList

variable {α : Type} [DecidableEq α]

/-- `listAdd(head, new)`: the new node comes right after the head node. -/
def listAdd (new : α) (xs : List α) : List α := new :: xs

/-- `listAddAfter(listelem, elem)` for a member `listelem`. -/
def listAddAfter (listelem elem : α) : List α → List α
  | [] => []
  | x :: xs => if x = listelem then x :: elem :: xs else x :: listAddAfter listelem elem xs

/-- `listAddBefore(head, elem)`, also `listAddTail`: the new node comes last. -/
def listAddTail (elem : α) (xs : List α) : List α := xs ++ [elem]

/-- `listDel(listelem)`. -/
def listDel (listelem : α) (xs : List α) : List α := xs.erase listelem

theorem listAddAfter_append {xs ys : List α} {x new : α} (h : x ∉ xs) :
    listAddAfter x new (xs ++ x :: ys) = xs ++ x :: new :: ys := by
  induction xs with
  | nil => simp [listAddAfter]
  | cons c cs ih =>
      simp only [List.mem_cons, not_or] at h
      simp [listAddAfter, Ne.symm h.1, ih h.2]

theorem listDel_append {xs ys : List α} {x : α} (h : x ∉ xs) :
    listDel x (xs ++ x :: ys) = xs ++ ys := by
  simp [listDel, List.erase_append_right _ h]

end KList

end FreakOS
