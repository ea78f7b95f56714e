import FreakOS.Memory.FaultOutcome
import FreakOS.Memory.LegalStr
import FreakOS.Memory.Loader

/-!
# Stores of the kernel into user memory

`copyToUser` stores with a plain `memcpy`.  The kernel may store to every page that is present, also to one that the user
may only read, since `WP` of `cr0` is never set.  A page that is missing is a page fault in the kernel, and the machine
stops where `do_pgfault` does not resolve it.

* `UserSpace` — the areas of a process, its pages, and what the allocator has for page faults.
* `UserSpace.lands` — a store does not stop the machine.
* `UserSpace.copyToUser` — `copyToUser`, with its page faults.
* `kernelStore_iff_lands` — a store through the page directory and `do_pgfault` goes the same way.
* `UserSpace.memcpy_lands`, `UserSpace.memcpy_stops` — the bytes are copied, or the machine stops.
-/

namespace FreakOS
namespace Memory

open Lib.Extent

/-- The number of the page of an address. -/
def pageNumber (va : U32) : Nat := va.toNat / 4096

/-- The memory of a process, as it is when the kernel begins to copy into it.  Bytes of a page that is missing stand for
those of the frame that it gets. -/
structure UserSpace where
  mm : MemMap
  inv : mm.Inv
  user : ∀ vma ∈ mm.vmaList, UserRange vma.vmStart vma.vmEnd
  present : Nat → Bool
  /-- The allocator has the frames that a page fault on a page takes, when it comes to it. -/
  frames : Nat → Bool

/-- `do_pgfault` for a store of the kernel to a page that is missing; error code 2 is a write to such a page. -/
def UserSpace.storeFault (u : UserSpace) (va : U32) : Int :=
  match (findVma u.mm va).1 with
  | none => -E_INVAL
  | some vma =>
      if vma.vmStart > va then -E_INVAL
      else if !faultAllowed 2 vma.vmFlags then -E_INVAL
      else if u.frames (pageNumber va) then 0 else -E_NOMEM

/-- A store to the address does not stop the machine: the page is there, or `do_pgfault` gets it.  A page that it has got
needs no case of its own: an area holds all of the page, so that the answer is the same for every byte. -/
def UserSpace.lands (u : UserSpace) (va : U32) : Bool := u.present (pageNumber va) || decide (u.storeFault va = 0)

/-- `memcpy(dest, src, len)` into user memory. -/
def UserSpace.memcpy (u : UserSpace) (mem : Bytes) (dest src : U32) : Nat → Res Bytes
  | 0 => .ok mem
  | len + 1 =>
      if u.lands dest then u.memcpy (Function.update mem dest (mem src)) (dest + 1) (src + 1) len
      else .error (.panic "PageFault in kernel! System halted\n")

/-- `copyToUser(mm, dst, src, len)`. -/
def UserSpace.copyToUser (u : UserSpace) (mem : Bytes) (dst src len : U32) : Res (Bool × Bytes) :=
  if !(checkUserMem (some u.mm) dst len true).1 then .ok (false, mem)
  else do
    let mem ← u.memcpy mem dst src len.toNat
    return (true, mem)

/-- Every store up to byte `n` of a buffer lands. -/
def UserSpace.StoresLand (u : UserSpace) (base : U32) (n : Nat) : Prop := ∀ i, i < n → u.lands (byteAddr base i) = true

/-- The process with all its pages present. -/
def UserSpace.resident (u : UserSpace) : UserSpace := { u with present := fun _ => true }

/-! ### Which stores land -/

/-- The `switch` of `do_pgfault` asks a store of the kernel for `VMM_WRITE`. -/
theorem faultAllowed_store (vmFlags : U32) : faultAllowed 2 vmFlags = true ↔ vmFlags &&& accessFlag true ≠ 0 := by
  have hread : ¬ (2 : U32) &&& 3 = 1 := by decide
  have hother : ¬ (2 : U32) &&& 3 = 0 := by decide
  unfold faultAllowed accessFlag
  rw [if_neg hread, if_neg hother, if_pos rfl, decide_eq_true_iff]

namespace UserSpace

variable (u : UserSpace) {va : U32}

theorem storeFault_eq_zero : u.storeFault va = 0 ↔
    ByteAllowed u.mm.vmaList true va.toNat ∧ u.frames (pageNumber va) = true := by
  have hinval : (-E_INVAL : Int) ≠ 0 := by decide
  have hnomem : (-E_NOMEM : Int) ≠ 0 := by decide
  have hspec := findVma_spec u.inv va
  unfold storeFault
  generalize (findVma u.mm va).1 = found at hspec
  cases found with
  | none =>
      refine ⟨fun h => absurd h hinval, ?_⟩
      rintro ⟨⟨vma, hmem, hin, -⟩, -⟩
      cases (hspec vma).mpr ⟨hmem, hin⟩
  | some vma =>
      obtain ⟨hmem, hin⟩ := (hspec vma).mp rfl
      have hstart : ¬ vma.vmStart > va := by
        rw [gt_iff_lt, BitVec.lt_def]
        exact Nat.not_lt.mpr hin.1
      dsimp only
      rw [if_neg hstart]
      have hallowed : ByteAllowed u.mm.vmaList true va.toNat ↔ faultAllowed 2 vma.vmFlags = true := by
        rw [faultAllowed_store]
        constructor
        · rintro ⟨v, hv, hvin, hflag⟩
          rwa [Option.some.inj ((hspec v).mpr ⟨hv, hvin⟩)]
        · exact fun hflag => ⟨vma, hmem, hin, hflag⟩
      rw [hallowed]
      cases faultAllowed 2 vma.vmFlags with
      | false =>
          rw [if_pos (by decide)]
          exact ⟨fun h => absurd h hinval, fun h => absurd h.1 Bool.false_ne_true⟩
      | true =>
          rw [if_neg (by decide)]
          cases u.frames (pageNumber va) with
          | false => exact ⟨fun h => absurd h hnomem, fun h => absurd h.2 Bool.false_ne_true⟩
          | true => exact ⟨fun _ => ⟨rfl, rfl⟩, fun _ => rfl⟩

/-- A store lands on a page that is there, and on one that the process may write to while there are frames. -/
theorem lands_iff : u.lands va = true ↔ u.present (pageNumber va) = true ∨
    (ByteAllowed u.mm.vmaList true va.toNat ∧ u.frames (pageNumber va) = true) := by
  rw [← u.storeFault_eq_zero, lands, Bool.or_eq_true, decide_eq_true_iff]

@[simp] theorem resident_lands (va : U32) : u.resident.lands va = true := Bool.true_or _

variable {u} {mem : Bytes} {dest src : U32} {n : Nat}

/-- Where every store lands, the bytes are copied. -/
theorem memcpy_lands (h : u.StoresLand dest n) :
    u.memcpy mem dest src n = .ok (Memory.memcpy mem dest src n) := by
  induction n generalizing mem dest src with
  | zero => rfl
  | succ n ih =>
      unfold memcpy Memory.memcpy
      have hfirst := h 0 (Nat.succ_pos n)
      rw [byteAddr_zero] at hfirst
      rw [if_pos hfirst]
      refine ih fun i hi => ?_
      rw [byteAddr_succ]
      exact h (i + 1) (by omega)

/-- The machine stops at a store that does not land. -/
theorem memcpy_stops {i : Nat} (hi : i < n) (h : u.lands (byteAddr dest i) = false) :
    u.memcpy mem dest src n = .error (.panic "PageFault in kernel! System halted\n") := by
  induction n generalizing mem dest src i with
  | zero => exact absurd hi (Nat.not_lt_zero i)
  | succ n ih =>
      unfold memcpy
      cases i with
      | zero =>
          rw [byteAddr_zero] at h
          rw [if_neg (by rw [h]; exact Bool.false_ne_true)]
      | succ i =>
          by_cases hfirst : u.lands dest = true
          · rw [if_pos hfirst]
            refine ih (Nat.lt_of_succ_lt_succ hi) ?_
            rw [byteAddr_succ]
            exact h
          · rw [if_neg hfirst]

end UserSpace

/-! ### Through the page directory -/

section Machine

variable {lo hi : Nat} {s : Machine} {dirs : Set Nat} {u : UserSpace}

/-- The pages and the frames of a process are those of the machine. -/
structure UserSpace.Of (u : UserSpace) (s : Machine) (dirs : Set Nat) : Prop where
  dir : u.mm.dir ∈ dirs
  present : ∀ va, u.present (pageNumber va) = (target (pteOf s u.mm va)).isSome
  empty : ∀ va, target (pteOf s u.mm va) = none → pteOf s u.mm va = 0
  frames : ∀ va, u.frames (pageNumber va) = decide (pageNeed s u.mm.dir va ≤ s.pmm.freePageCount)

/-- A store through the directory of the process stops the machine exactly where it does not land. -/
theorem kernelStore_iff_lands (hs : Paged lo hi s dirs) (hu : u.Of s dirs) (va : U32) (byte : U8) :
    (∃ r, kernelStore va byte u.mm s = .ok r) ↔ u.lands va = true := by
  have hdir : (findVma u.mm va).2.dir = u.mm.dir := by
    rw [findVma_sameAreas u.mm va]
    rfl
  rw [u.lands_iff, hu.present, hu.frames, decide_eq_true_iff, Option.isSome_iff_exists]
  unfold kernelStore pteOf
  dsimp only
  cases htarget : target (look s u.mm.dir (pgdIndex va) (pteIndex va)) with
  | some page => exact iff_of_true ⟨_, rfl⟩ (Or.inl ⟨page, rfl⟩)
  | none =>
      rw [or_iff_right (by rintro ⟨page, hpage⟩; cases hpage)]
      by_cases hallowed : ByteAllowed u.mm.vmaList true va.toNat
      · obtain ⟨vma, hmem, hin, hflag⟩ := id hallowed
        obtain ⟨ret, s', hcall, hend⟩ := doPgfault_absent hs u.inv hu.dir hmem (u.user vma hmem) hin
          ((faultAllowed_store _).mpr hflag) htarget
        rw [hcall, Res.ok_bind, and_iff_right hallowed]
        dsimp only
        cases hend with
        | mapped p hempty hcount hfree hpaged hmaps =>
            refine iff_of_true ?_ hcount
            obtain ⟨role, hframes, -⟩ := hs
            have hp : p < 2 ^ 20 := hframes.lt (by rw [(hframes.free p).mpr hfree]; exact Role.noConfusion)
            rw [if_neg (not_not.mpr rfl), hdir, hmaps.mapped, target_pteWord hp (pagePerm_lt _)]
            exact ⟨_, rfl⟩
        | refused hcount hpaged hsame =>
            refine iff_of_false ?_ (Nat.not_le.mpr (hcount (hu.empty va htarget)))
            rintro ⟨r, hr⟩
            rw [if_pos (by decide)] at hr
            cases hr
      · refine iff_of_false ?_ fun h => hallowed h.1
        have hrefused : ∀ vma ∈ u.mm.vmaList, vma.extent.Contains va.toNat → faultAllowed 2 vma.vmFlags = false := by
          intro vma hmem hin
          rw [← Bool.not_eq_true, faultAllowed_store]
          exact fun hflag => hallowed ⟨vma, hmem, hin, hflag⟩
        rintro ⟨r, hr⟩
        rw [doPgfault_refused u.inv hrefused, Res.ok_bind] at hr
        dsimp only at hr
        rw [if_pos (by decide)] at hr
        cases hr

end Machine

end Memory
end FreakOS
