import FreakOS.Memory.AddressSpace
import FreakOS.Memory.PageOps

/-!
# Mapping areas and page faults

`mm_map` of `vmm.c`, `do_pgfault` of `page_fault.c`, and what user code can do with the memory that they give it.

A process reaches its memory through its page directory alone.  An access that the entries do not allow is a
page fault, and the instruction is tried again when `do_pgfault` has returned 0.

* `mmMap`, `doPgfault` — the functions of the source.
* `userPage` — what the entries allow.
* `Access`, `userAccess` — an access of user code, with the page fault that it may cause.
-/

namespace FreakOS
namespace Memory

/-! ### Bytes of frames -/

/-- `uint8_t`. -/
abbrev U8 := BitVec 8

/-- Byte `n` of a frame. -/
def frameByte (words : FrameWords) (n : Nat) : U8 :=
  (words (Fin.ofNat 1024 (n / 4))).extractLsb' (8 * (n % 4)) 8

/-- The frame with the given bytes. -/
def wordsOf (bytes : Nat → U8) : FrameWords := fun i =>
  bytes (4 * i + 3) ++ bytes (4 * i + 2) ++ bytes (4 * i + 1) ++ bytes (4 * i)

/-- Overwrite the bytes from `off` on. -/
def writeBytes (words : FrameWords) (off : Nat) (bytes : List U8) : FrameWords :=
  wordsOf fun n => if off ≤ n then bytes[n - off]?.getD (frameByte words n) else frameByte words n

theorem frameByte_wordsOf (bytes : Nat → U8) {n : Nat} (hn : n < 4096) : frameByte (wordsOf bytes) n = bytes n := by
  obtain ⟨q, r, hr, rfl⟩ : ∃ q r, r < 4 ∧ n = 4 * q + r :=
    ⟨n / 4, n % 4, by omega, by omega⟩
  have hword : (Fin.ofNat 1024 ((4 * q + r) / 4)).val = q := by
    simp only [Fin.val_ofNat]
    omega
  unfold frameByte wordsOf
  rw [hword, show (4 * q + r) % 4 = r by omega]
  have hcases : r = 0 ∨ r = 1 ∨ r = 2 ∨ r = 3 := by omega
  -- One case for each byte of a word.
  rcases hcases with rfl | rfl | rfl | rfl
  all_goals
    ext i hi
    simp only [BitVec.getElem_extractLsb', BitVec.getLsbD_append]
    simp [hi, show ¬ 8 + i < 8 by omega, show ¬ 16 + i < 8 by omega, show ¬ 24 + i < 8 by omega,
      show 16 + i - 8 - 8 = i by omega, show 24 + i - 8 - 8 - 8 = i by omega,
      show ¬ 16 + i - 8 < 8 by omega, show ¬ 24 + i - 8 < 8 by omega, show ¬ 24 + i - 8 - 8 < 8 by omega]

theorem frameByte_writeBytes (words : FrameWords) (off : Nat) (bytes : List U8) {n : Nat} (hn : n < 4096) :
    frameByte (writeBytes words off bytes) n =
      if off ≤ n then bytes[n - off]?.getD (frameByte words n) else frameByte words n :=
  frameByte_wordsOf _ hn

/-- A frame is its bytes. -/
theorem wordsOf_frameByte (words : FrameWords) : wordsOf (frameByte words) = words := by
  funext i
  have hi := i.isLt
  have hindex : ∀ r, r < 4 → frameByte words (4 * i + r) = (words i).extractLsb' (8 * r) 8 := by
    intro r hr
    unfold frameByte
    rw [show (4 * i.val + r) / 4 = i.val by omega, show (4 * i.val + r) % 4 = r by omega]
    congr 2
    exact Fin.ext (by simp)
  unfold wordsOf
  rw [hindex 3 (by omega), hindex 2 (by omega), hindex 1 (by omega), show 4 * i.val = 4 * i.val + 0 from rfl,
    hindex 0 (by omega)]
  ext n hn
  simp only [BitVec.getElem_append, BitVec.getElem_extractLsb']
  split
  · simp [BitVec.getLsbD_eq_getElem, hn]
  · split
    · rw [← BitVec.getLsbD_eq_getElem hn]
      congr 1
      omega
    · split
      · rw [← BitVec.getLsbD_eq_getElem hn]
        congr 1
        omega
      · rw [← BitVec.getLsbD_eq_getElem hn]
        congr 1
        omega

/-! ### `mm_map` -/

/-- `mm_map(mm, start_vaddr, len, vm_flags, NULL)`. -/
def mmMap (s : Machine) (mm : MemMap) (startVaddr len vmFlags : U32) : Res (Int × MemMap × Machine) :=
  let start := roundDown startVaddr PGSIZE
  let stop := roundUp (startVaddr + len) PGSIZE
  if !isUserCanAccess start stop then .ok (-E_INVAL, mm, s)
  else
    let (vma, mm) := findVma mm start
    if vma.any fun vma => decide (stop > vma.vmStart) then .ok (-E_INVAL, mm, s)
    else do
      let (vma, s) ← vmaCreate s start stop vmFlags
      let mm ← insertVma mm vma
      return (0, mm, s)

/-! ### `do_pgfault` -/

/-- The permissions of the pages of an area, as `load_icode` and `do_pgfault` compute them. -/
def pagePerm (vmFlags : U32) : U32 :=
  if vmFlags &&& VMM_WRITE ≠ 0 then PTE_PAGE_USER ||| PTE_PAGE_WRITEABLE else PTE_PAGE_USER

/-- The `switch` of `do_pgfault` over the error code. -/
def faultAllowed (errCode vmFlags : U32) : Bool :=
  if errCode &&& 3 = 1 then false
  else if errCode &&& 3 = 0 then decide (vmFlags &&& (VMM_READ ||| VMM_EXEC) ≠ 0)
  else decide (vmFlags &&& VMM_WRITE ≠ 0)

/-- `do_pgfault(mm, _if, cr2)` for a map that is not `NULL`; the frame is read for its error code only. -/
def doPgfault (s : Machine) (mm : MemMap) (errCode cr2 : U32) : Res (Int × Machine × MemMap) :=
  let (vma, mm) := findVma mm cr2
  match vma with
  | none => .ok (-E_INVAL, s, mm)
  | some vma =>
      if vma.vmStart > cr2 then .ok (-E_INVAL, s, mm)
      else if !faultAllowed errCode vma.vmFlags then .ok (-E_INVAL, s, mm)
      else do
        let addr := roundDown cr2 PGSIZE
        let (ptep, s) ← getPte s mm.dir addr true
        match ptep with
        | none => return (-E_NOMEM, s, mm)
        | some ptep =>
            if s.mem ptep.1 ptep.2 = 0 then
              let (page, s) ← pgdirAllocPage s mm.dir addr (pagePerm vma.vmFlags)
              match page with
              | none => return (-E_NOMEM, s, mm)
              | some _ => return (0, s, mm)
            -- The page is there, and the access was not allowed: no copy on write.
            else if s.mem ptep.1 ptep.2 &&& PTE_PAGE_PERSENT ≠ 0 then
              .error (.panic "error write a non-writable pte")
            else return (-E_NOMEM, s, mm)

/-! ### User code -/

/-- An entry of a directory or of a page table lets user code through. -/
def userAllows (entry : U32) (write : Bool) : Bool :=
  decide (entry &&& PTE_PAGE_PERSENT ≠ 0) && decide (entry &&& PTE_PAGE_USER ≠ 0) &&
    (!write || decide (entry &&& PTE_PAGE_WRITEABLE ≠ 0))

/-- The frame that user code reaches at an address. -/
def userPage (s : Machine) (pgdir : Nat) (va : U32) (write : Bool) : Option Nat :=
  if userAllows (s.mem pgdir (pgdIndex va)) write &&
      userAllows (look s pgdir (pgdIndex va) (pteIndex va)) write then
    target (look s pgdir (pgdIndex va) (pteIndex va))
  else none

/-- The byte that user code reads at an address. -/
def userByte (s : Machine) (pgdir : Nat) (va : U32) : Option U8 :=
  (userPage s pgdir va false).map fun page => frameByte (s.mem page) (va.toNat % 4096)

/-- What user code does with a byte of its memory. -/
inductive Access where
  | read (va : U32)
  | write (va : U32) (byte : U8)

def Access.addr : Access → U32
  | .read va => va
  | .write va _ => va

def Access.isWrite : Access → Bool
  | .read _ => false
  | .write _ _ => true

/-- The access, where the entries allow it. -/
def tryAccess (s : Machine) (pgdir : Nat) (a : Access) : Option Machine :=
  (userPage s pgdir a.addr a.isWrite).map fun page =>
    match a with
    | .read _ => s
    | .write va byte => s.fillFrame page (writeBytes (s.mem page) (va.toNat % 4096) [byte])

/-- The error code of the page fault that an access causes. -/
def Access.errCode (s : Machine) (pgdir : Nat) (a : Access) : U32 :=
  let present : U32 := if (target (look s pgdir (pgdIndex a.addr) (pteIndex a.addr))).isSome then 1 else 0
  let write : U32 := if a.isWrite then 2 else 0
  present ||| write ||| 4

/-- An access that is tried again after each page fault that was resolved; `none` if the process is killed. -/
def accessLoop (a : Access) : Nat → Machine → MemMap → Res (Option (Machine × MemMap))
  | 0, _, _ => .error .outOfFuel
  | fuel + 1, s, mm =>
      match tryAccess s mm.dir a with
      | some s => .ok (some (s, mm))
      | none => do
          let (ret, s, mm) ← doPgfault s mm (a.errCode s mm.dir) a.addr
          if ret ≠ 0 then return none else accessLoop a fuel s mm

/-- An access of user code.  A page that has been mapped is not faulted in again, so there are at most two
tries. -/
def userAccess (s : Machine) (mm : MemMap) (a : Access) : Res (Option (Machine × MemMap)) := accessLoop a 2 s mm

/-- The accesses of a process, one after the other. -/
def userRun : List Access → Machine → MemMap → Res (Option (Machine × MemMap))
  | [], s, mm => .ok (some (s, mm))
  | a :: rest, s, mm => do
      let r ← userAccess s mm a
      match r with
      | none => return none
      | some (s, mm) => userRun rest s mm

end Memory
end FreakOS
