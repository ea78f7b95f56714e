import FreakOS.Memory.Vma

/-!
# Checking and copying user memory

`checkUserMem` walks over the areas that a range of user addresses touches; `copyFromUser` and
`copyToUser` copy after a successful check (`vmm.c`).

The loop of `checkUserMem` runs while `start < len`: its bound is the length of the range, not its end.
The walk therefore only visits addresses that are numerically below `len`.

* `UserMemOk` — what the check is for: the range lies in user space, every byte is covered by an area with
  the right permission, and a write does not begin in the lowest page of a stack area.
* `checkUserLoop_iff` — what the loop decides: no byte of `[start, len)` is bad.
* `checkUserMem_correct_iff` — the check agrees with `UserMemOk` exactly when a range with a bad byte
  already has one below `len`.
-/

namespace FreakOS
namespace Memory

open Lib
open Lib.Extent

/-- `isKernelCanAccess(start, end)`. -/
def isKernelCanAccess (start stop : U32) : Bool :=
  decide (KERNEL_BASE ≤ start) && decide (start < stop) && decide (stop ≤ KERNEL_TOP)

/-- `isUserCanAccess(start, end)`. -/
def isUserCanAccess (start stop : U32) : Bool :=
  decide (USER_BASE ≤ start) && decide (start < stop) && decide (stop ≤ USER_TOP)

/-- The permission bit that an access needs. -/
def accessFlag (write : Bool) : U32 := if write then VMM_WRITE else VMM_READ

/-- An area that is found contains the address, so the walk moves up. -/
theorem lt_vmEnd_of_findVma {mm : MemMap} {vaddr : U32} {vma : VirtMemArea} {mm' : MemMap}
    (h : findVma mm vaddr = (some vma, mm')) : vaddr < vma.vmEnd := by
  have hholds : vma.holds vaddr = true := by
    unfold findVma at h
    have hfind : ∀ v, mm.vmaList.find? (·.holds vaddr) = some v → v.holds vaddr = true := by
      intro v hv
      simpa using List.find?_some hv
    cases hcache : mm.vmaCache with
    | none =>
        simp only [hcache] at h
        split at h
        · rename_i v hv
          obtain ⟨rfl, -⟩ : v = vma ∧ _ := by simpa using h
          exact hfind v hv
        · simp at h
    | some c =>
        simp only [hcache] at h
        by_cases hhit : c.holds vaddr
        · simp only [hhit, if_true] at h
          obtain ⟨rfl, -⟩ : c = vma ∧ _ := by simpa using h
          exact hhit
        · simp only [hhit] at h
          split at h
          · rename_i v hv
            obtain ⟨rfl, -⟩ : v = vma ∧ _ := by simpa using h
            exact hfind v (by simpa using hv)
          · simp at h
  simp only [VirtMemArea.holds, Bool.and_eq_true, decide_eq_true_eq] at hholds
  exact hholds.2

/-- The loop of `checkUserMem`, from `start`.  The map is returned because lookups move its cache. -/
def checkUserLoop (mm : MemMap) (len : U32) (write : Bool) (start : U32) : Bool × MemMap :=
  if start < len then
    match _hfind : findVma mm start with
    | (none, mm') => (false, mm')
    | (some vma, mm') =>
        if start < vma.vmStart then (false, mm')
        else if vma.vmFlags &&& accessFlag write = 0 then (false, mm')
        else if write = true ∧ vma.vmFlags &&& VMM_STACK ≠ 0 ∧ start < vma.vmStart + PGSIZE then
          (false, mm')
        else checkUserLoop mm' len write vma.vmEnd
  else (true, mm)
termination_by 2 ^ 32 - start.toNat
decreasing_by
  have hlt := lt_vmEnd_of_findVma _hfind
  have := vma.vmEnd.isLt
  simp only [BitVec.lt_def] at hlt
  omega

/-- `checkUserMem(mm, addr, len, write)`; `none` is the `NULL` map of a kernel thread. -/
def checkUserMem (mm : Option MemMap) (addr len : U32) (write : Bool) : Bool × Option MemMap :=
  match mm with
  | some mm =>
      if !isUserCanAccess addr (addr + len) then (false, some mm)
      else ((checkUserLoop mm len write addr).1, some (checkUserLoop mm len write addr).2)
  | none => (isKernelCanAccess addr (addr + len), none)

/-- The bytes of the current address space. -/
abbrev Bytes := U32 → BitVec 8

/-- `memcpy(dest, src, len)`: byte by byte, upwards. -/
def memcpy (mem : Bytes) (dest src : U32) : Nat → Bytes
  | 0 => mem
  | len + 1 => memcpy (Function.update mem dest (mem src)) (dest + 1) (src + 1) len

/-- `copyFromUser(mm, dst, src, len, writable)`. -/
def copyFromUser (mm : Option MemMap) (mem : Bytes) (dst src len : U32) (writable : Bool) :
    Bool × Bytes :=
  if !(checkUserMem mm src len writable).1 then (false, mem)
  else (true, memcpy mem dst src len.toNat)

/-- `copyToUser(mm, dst, src, len)`. -/
def copyToUser (mm : Option MemMap) (mem : Bytes) (dst src len : U32) : Bool × Bytes :=
  if !(checkUserMem mm dst len true).1 then (false, mem)
  else (true, memcpy mem dst src len.toNat)

/-! ### What the check is for -/

/-- The range lies in user space and does not wrap around. -/
def InUserSpace (addr len : U32) : Prop :=
  USER_BASE.toNat ≤ addr.toNat ∧ addr.toNat + len.toNat ≤ USER_TOP.toNat

/-- Some area with the needed permission contains address `x`. -/
def ByteAllowed (areas : List VirtMemArea) (write : Bool) (x : Nat) : Prop :=
  ∃ vma ∈ areas, vma.extent.Contains x ∧ vma.vmFlags &&& accessFlag write ≠ 0

/-- `x` is where the part of a range from `addr` on that lies in a stack area begins, and this is in the
lowest page of the area. -/
def BeginsInGuard (areas : List VirtMemArea) (addr x : Nat) : Prop :=
  ∃ vma ∈ areas, vma.vmFlags &&& VMM_STACK ≠ 0 ∧ vma.extent.Contains x ∧
    x = max addr vma.extent.lo ∧ x < vma.extent.lo + PGSIZE.toNat

/-- What a successful check of `[addr, addr + len)` has to mean. -/
def UserMemOk (mm : MemMap) (addr len : U32) (write : Bool) : Prop :=
  InUserSpace addr len ∧
  (∀ x, addr.toNat ≤ x → x < addr.toNat + len.toNat → ByteAllowed mm.vmaList write x) ∧
  (write = true → ∀ x, addr.toNat ≤ x → x < addr.toNat + len.toNat →
    ¬ BeginsInGuard mm.vmaList addr.toNat x)

/-- A byte of a range from `addr` on that the check has to refuse. -/
def BadByte (areas : List VirtMemArea) (write : Bool) (addr x : Nat) : Prop :=
  ¬ ByteAllowed areas write x ∨ (write = true ∧ BeginsInGuard areas addr x)

theorem userMemOk_iff (mm : MemMap) (addr len : U32) (write : Bool) :
    UserMemOk mm addr len write ↔ InUserSpace addr len ∧
      ∀ x, addr.toNat ≤ x → x < addr.toNat + len.toNat →
        ¬ BadByte mm.vmaList write addr.toNat x := by
  unfold UserMemOk BadByte
  constructor
  · rintro ⟨hin, hbytes, hguard⟩
    refine ⟨hin, fun x h1 h2 hbad => ?_⟩
    rcases hbad with hbad | ⟨hw, hbad⟩
    · exact hbad (hbytes x h1 h2)
    · exact hguard hw x h1 h2 hbad
  · rintro ⟨hin, hgood⟩
    refine ⟨hin, fun x h1 h2 => ?_, fun hw x h1 h2 hbad => ?_⟩
    · by_contra hnot
      exact hgood x h1 h2 (Or.inl hnot)
    · exact hgood x h1 h2 (Or.inr ⟨hw, hbad⟩)

theorem isUserCanAccess_iff {addr len : U32} (hlen : 0 < len.toNat) :
    isUserCanAccess addr (addr + len) = true ↔ InUserSpace addr len := by
  have h1 := addr.isLt
  have h2 := len.isLt
  simp only [isUserCanAccess, InUserSpace, Bool.and_eq_true, decide_eq_true_eq, BitVec.le_def,
    BitVec.lt_def, BitVec.toNat_add, USER_BASE, USER_TOP, BitVec.toNat_ofNat]
  omega

/-! ### What the loop decides -/

/-- Beyond the end of the area that holds `start`, the walk from that end sees the same bad bytes. -/
theorem badByte_from_vmEnd {mm : MemMap} (h : mm.Inv) {vma : VirtMemArea} (hmem : vma ∈ mm.vmaList)
    {start x : Nat} (hcont : vma.extent.Contains start) (hx : vma.extent.hi ≤ x) (write : Bool) :
    BadByte mm.vmaList write start x ↔ BadByte mm.vmaList write vma.extent.hi x := by
  have hguard : BeginsInGuard mm.vmaList start x ↔ BeginsInGuard mm.vmaList vma.extent.hi x := by
    unfold BeginsInGuard
    refine exists_congr fun v => and_congr_right fun hv => and_congr_right fun _ =>
      and_congr_right fun hvx => and_congr_left fun _ => ?_
    -- An area that holds `x` lies behind `vma`, so both walks enter it at its start.
    have hbehind : vma.extent.hi ≤ v.extent.lo := by
      by_contra hnot
      have hcommon : vma.extent.Contains (max v.extent.lo start) ∧
          v.extent.Contains (max v.extent.lo start) := by
        unfold Contains at hvx hcont ⊢
        omega
      have heq := h.sorted.contains_unique hmem hv hcommon.1 hcommon.2
      subst heq
      unfold Contains at hvx
      omega
    unfold Contains at hcont
    omega
  unfold BadByte
  rw [hguard]

/-- The bytes of the area that holds `start` are good once its flags and the guard page are checked. -/
theorem not_badByte_in_area {mm : MemMap} (h : mm.Inv) {vma : VirtMemArea} (hmem : vma ∈ mm.vmaList)
    {start x : Nat} {write : Bool} (hcont : vma.extent.Contains start) (hlo : start ≤ x)
    (hhi : x < vma.extent.hi) (hflag : vma.vmFlags &&& accessFlag write ≠ 0)
    (hguard : ¬ (write = true ∧ vma.vmFlags &&& VMM_STACK ≠ 0 ∧
      start < vma.extent.lo + PGSIZE.toNat)) :
    ¬ BadByte mm.vmaList write start x := by
  have hcontx : vma.extent.Contains x := by
    unfold Contains at hcont ⊢
    omega
  rintro (hbad | ⟨hw, v, hv, hstack, hvx, hx, hpage⟩)
  · exact hbad ⟨vma, hmem, hcontx, hflag⟩
  · have heq := h.sorted.contains_unique hv hmem hvx hcontx
    subst heq
    unfold Contains at hcont
    refine hguard ⟨hw, hstack, ?_⟩
    omega

/-- One round of the walk, in terms of the area that holds `start`. -/
theorem checkUserLoop_fst (mm : MemMap) (len : U32) (write : Bool) (start : U32) :
    (checkUserLoop mm len write start).1 =
      if start < len then
        match findVma mm start with
        | (none, _) => false
        | (some vma, mm') =>
            if start < vma.vmStart then false
            else if vma.vmFlags &&& accessFlag write = 0 then false
            else if write = true ∧ vma.vmFlags &&& VMM_STACK ≠ 0 ∧ start < vma.vmStart + PGSIZE then
              false
            else (checkUserLoop mm' len write vma.vmEnd).1
      else true := by
  rw [checkUserLoop]
  split
  · split
    · simp [*]
    · rename_i hfind
      simp only [hfind]
      split
      · rfl
      · split
        · rfl
        · split
          · rfl
          · rfl
  · rfl

/-- The walk from `start` succeeds exactly when no byte of `[start, len)` is bad. -/
theorem checkUserLoop_iff (mm : MemMap) (h : mm.Inv) (len : U32) (hlen : len ≤ USER_TOP)
    (write : Bool) (start : U32) :
    (checkUserLoop mm len write start).1 = true ↔
      ∀ x, start.toNat ≤ x → x < len.toNat → ¬ BadByte mm.vmaList write start.toNat x := by
  induction hn : 2 ^ 32 - start.toNat using Nat.strong_induction_on generalizing mm start with
  | _ n ih =>
      rw [checkUserLoop_fst]
      by_cases hlt : start < len
      swap
      · rw [if_neg hlt]
        simp only [BitVec.lt_def] at hlt
        simp only [true_iff]
        intro x h1 h2
        omega
      rw [if_pos hlt]
      simp only [BitVec.lt_def] at hlt
      rcases hfind : findVma mm start with ⟨found, mm'⟩
      have hspec := findVma_spec h start
      have hinv' := findVma_inv h start
      have hlist := findVma_vmaList mm start
      rw [hfind] at hspec hinv' hlist
      dsimp only at hspec hinv' hlist ⊢
      cases found with
      | none =>
          -- No area holds `start`: the first byte is bad.
          simp only [Bool.false_eq_true, false_iff, not_forall, not_not]
          refine ⟨start.toNat, le_refl _, hlt, Or.inl ?_⟩
          rintro ⟨vma, hmem, hcont, -⟩
          have := (hspec vma).mpr ⟨hmem, hcont⟩
          simp at this
      | some vma =>
          obtain ⟨hmem, hcont⟩ := (hspec vma).mp rfl
          have hstart : ¬ start < vma.vmStart := by
            simp only [BitVec.lt_def]
            unfold Contains at hcont
            exact Nat.not_lt.mpr hcont.1
          dsimp only
          rw [if_neg hstart]
          by_cases hflag : vma.vmFlags &&& accessFlag write = 0
          · rw [if_pos hflag]
            simp only [Bool.false_eq_true, false_iff, not_forall, not_not]
            refine ⟨start.toNat, le_refl _, hlt, Or.inl ?_⟩
            rintro ⟨v, hv, hvcont, hvflag⟩
            obtain rfl := h.sorted.contains_unique hv hmem hvcont hcont
            exact hvflag hflag
          rw [if_neg hflag]
          -- Below `USER_TOP` the end of the guard page is computed without wrapping.
          have hpage : start < vma.vmStart + PGSIZE ↔
              start.toNat < vma.extent.lo + PGSIZE.toNat := by
            simp only [BitVec.le_def, BitVec.lt_def, USER_TOP, BitVec.toNat_ofNat] at hlen hstart
            simp only [BitVec.lt_def, BitVec.toNat_add, VirtMemArea.extent, PGSIZE,
              BitVec.toNat_ofNat]
            omega
          simp only [hpage]
          by_cases hguard : write = true ∧ vma.vmFlags &&& VMM_STACK ≠ 0 ∧
              start.toNat < vma.extent.lo + PGSIZE.toNat
          · rw [if_pos hguard]
            simp only [Bool.false_eq_true, false_iff, not_forall, not_not]
            refine ⟨start.toNat, le_refl _, hlt,
              Or.inr ⟨hguard.1, vma, hmem, hguard.2.1, hcont, ?_, hguard.2.2⟩⟩
            unfold Contains at hcont
            omega
          rw [if_neg hguard]
          have hdec : 2 ^ 32 - vma.vmEnd.toNat < n := by
            have := vma.vmEnd.isLt
            simp only [Contains, VirtMemArea.extent] at hcont
            omega
          rw [ih _ hdec mm' hinv' vma.vmEnd rfl, hlist]
          constructor
          · intro hrest x h1 h2
            by_cases hx : x < vma.extent.hi
            · exact not_badByte_in_area h hmem hcont h1 hx hflag hguard
            · rw [badByte_from_vmEnd h hmem hcont (Nat.not_lt.mp hx)]
              exact hrest x (Nat.not_lt.mp hx) h2
          · intro hall x h1 h2
            have := hall x (le_trans (Nat.le_of_lt hcont.2) h1) h2
            rwa [badByte_from_vmEnd h hmem hcont h1] at this

/-! ### When the check is right -/

/-- The check of one range does its job: it answers `UserMemOk`, and a range that is not all right is
neither read nor written. -/
structure CheckCorrect (mm : MemMap) (addr len : U32) (write : Bool) : Prop where
  check : (checkUserMem (some mm) addr len write).1 = true ↔ UserMemOk mm addr len write
  copyFrom : ¬ UserMemOk mm addr len write → ∀ mem dst,
    copyFromUser (some mm) mem dst addr len write = (false, mem)
  copyTo : write = true → ¬ UserMemOk mm addr len write → ∀ mem src,
    copyToUser (some mm) mem addr src len = (false, mem)

/-- The copies are right as soon as the check is. -/
theorem checkCorrect_iff (mm : MemMap) (addr len : U32) (write : Bool) :
    CheckCorrect mm addr len write ↔
      ((checkUserMem (some mm) addr len write).1 = true ↔ UserMemOk mm addr len write) := by
  constructor
  · exact fun h => h.check
  · intro h
    have hfalse : ¬ UserMemOk mm addr len write →
        (checkUserMem (some mm) addr len write).1 = false := by
      intro hnot
      rw [← h] at hnot
      simpa using hnot
    refine ⟨h, ?_, ?_⟩
    · intro hnot mem dst
      simp [copyFromUser, hfalse hnot]
    · intro hw hnot mem src
      subst hw
      simp [copyToUser, hfalse hnot]

/-- What the check answers: the range lies in user space and no byte of it below `len` is bad. -/
theorem checkUserMem_iff (mm : MemMap) (h : mm.Inv) (addr len : U32) (hpos : 0 < len.toNat)
    (write : Bool) :
    (checkUserMem (some mm) addr len write).1 = true ↔ InUserSpace addr len ∧
      ∀ x, addr.toNat ≤ x → x < len.toNat → ¬ BadByte mm.vmaList write addr.toNat x := by
  unfold checkUserMem
  dsimp only
  by_cases hin : InUserSpace addr len
  · have hlen : len ≤ USER_TOP := by
      have := hin.2
      simp only [BitVec.le_def]
      omega
    rw [(isUserCanAccess_iff hpos).mpr hin]
    simp only [Bool.not_true, Bool.false_eq_true, if_false, hin, true_and]
    exact checkUserLoop_iff mm h len hlen write addr
  · have haccess : isUserCanAccess addr (addr + len) = false := by
      rw [← isUserCanAccess_iff hpos] at hin
      simpa using hin
    simp [haccess, hin]

/-- **The check is right exactly when what it has to refuse lies below `len`.**  For every well-formed map,
address, positive length and kind of access, `checkUserMem` and the two copies do their job if and only if
a range inside user space that has a bad byte also has one at an address less than the length of the
range. -/
theorem checkUserMem_correct_iff (mm : MemMap) (h : mm.Inv) (addr len : U32) (hpos : 0 < len.toNat)
    (write : Bool) :
    CheckCorrect mm addr len write ↔
      (InUserSpace addr len →
        (∃ x, addr.toNat ≤ x ∧ x < addr.toNat + len.toNat ∧
          BadByte mm.vmaList write addr.toNat x) →
        ∃ x, addr.toNat ≤ x ∧ x < len.toNat ∧ BadByte mm.vmaList write addr.toNat x) := by
  rw [checkCorrect_iff, checkUserMem_iff mm h addr len hpos write, userMemOk_iff]
  constructor
  · rintro hiff hin ⟨x, h1, h2, hbad⟩
    by_contra hnone
    refine (hiff.mp ⟨hin, fun y hy1 hy2 hy => hnone ⟨y, hy1, hy2, hy⟩⟩).2 x h1 h2 hbad
  · intro hseen
    constructor
    · rintro ⟨hin, hgood⟩
      refine ⟨hin, fun x h1 h2 hbad => ?_⟩
      obtain ⟨y, hy1, hy2, hy⟩ := hseen hin ⟨x, h1, h2, hbad⟩
      exact hgood y hy1 hy2 hy
    · rintro ⟨hin, hgood⟩
      exact ⟨hin, fun x h1 h2 => hgood x h1 (by omega)⟩

/-- A read-only page just above `USER_BASE`. -/
def readOnlyPage : MemMap := ⟨[⟨0, 0x200000, 0x201000, VMM_READ⟩], none, 0, 1, 0⟩

theorem readOnlyPage_run : Relation.ReflTransGen VmaStep mmCreate readOnlyPage :=
  Relation.ReflTransGen.single (.insert ⟨0, 0x200000, 0x201000, VMM_READ⟩ rfl)

/-- Reading the page is checked correctly: it has no bad byte. -/
theorem checkUserMem_correct_read_page :
    CheckCorrect readOnlyPage 0x200000#32 0x1000#32 false := by
  refine (checkUserMem_correct_iff _ (inv_of_vmaRun readOnlyPage_run) _ _ (by decide) _).mpr ?_
  rintro - ⟨x, h1, h2, hbad | ⟨hw, -⟩⟩
  · refine absurd ⟨⟨0, 0x200000, 0x201000, VMM_READ⟩, ?_, ?_, ?_⟩ hbad
    · simp [readOnlyPage]
    · exact ⟨h1, h2⟩
    · decide
  · simp at hw

/-- Writing to the page is let through, although no byte of it may be written. -/
theorem checkUserMem_allows_write_to_read_only :
    Relation.ReflTransGen VmaStep mmCreate readOnlyPage ∧
    (checkUserMem (some readOnlyPage) 0x200000#32 0x1000#32 true).1 = true ∧
    (∀ mem src, copyToUser (some readOnlyPage) mem 0x200000#32 src 0x1000#32 =
      (true, memcpy mem 0x200000#32 src 0x1000)) ∧
    ¬ UserMemOk readOnlyPage 0x200000#32 0x1000#32 true := by
  have hcheck : (checkUserMem (some readOnlyPage) 0x200000#32 0x1000#32 true).1 = true := by
    have haccess : isUserCanAccess 0x200000#32 (0x200000#32 + 0x1000#32) = true := by decide
    unfold checkUserMem
    dsimp only
    rw [haccess]
    simp only [Bool.not_true, Bool.false_eq_true, if_false]
    rw [checkUserLoop_fst, if_neg (by decide)]
  refine ⟨readOnlyPage_run, hcheck, ?_, ?_⟩
  · intro mem src
    simp [copyToUser, hcheck]
  · rintro ⟨-, hbytes, -⟩
    obtain ⟨vma, hmem, -, hflag⟩ := hbytes 0x200000 (by decide) (by decide)
    obtain rfl : vma = ⟨0, 0x200000, 0x201000, VMM_READ⟩ := by simpa [readOnlyPage] using hmem
    exact hflag (by decide)

end Memory
end FreakOS
