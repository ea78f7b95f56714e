import FreakOS.Memory.Kmalloc

/-!
# Memory at boot

`pmm.c`: the usable memory is read off the memory map of the boot loader, the array `Pages` is laid out behind the
kernel, and what is left goes to the allocator.

* `getMemInfo`, `pagesInit`, `initPMM` — the functions of the source.
* `Region` — the usable memory that `getMemInfo` finds, with all 64 bits of its base and length.
* `boot_memory_sound_iff` — when the pages of the allocator are in that memory and in the direct map of the kernel.

An entry of the map has 24 bytes, as `mmap++` has it.  The globals are 0 before.
-/

namespace FreakOS
namespace Memory

open Lib

/-- `MAX_PHY_MEM_SIZE`. -/
def MAX_PHY_MEM_SIZE : U32 := 0x38000000#32

/-- `mmapEntry_t`. -/
structure MmapEntry where
  size : U32
  baseAddrLow : U32
  baseAddrHigh : U32
  lengthLow : U32
  lengthHigh : U32
  type : U32
deriving DecidableEq, Repr

/-- The global variables of `pmm.c`; `PageCount` is that of the machine. -/
structure BootInfo where
  phyMemSize : U32
  phyMemEnd : U32
  /-- `Pages`. -/
  pages : U32
  freeMemStart : U32
  machine : Machine

/-- `getMemInfo` takes an entry. -/
def MmapEntry.usable (e : MmapEntry) : Bool := e.type == 1 && e.baseAddrLow == 0x100000#32

/-- `getMemInfo()` on the entries of the map. -/
def getMemInfo (g : BootInfo) : List MmapEntry → BootInfo
  | [] => g
  | e :: rest =>
      getMemInfo (if e.usable then
        { g with phyMemSize := e.baseAddrLow + e.lengthLow, phyMemEnd := e.baseAddrLow + e.lengthLow } else g) rest

/-- The loop of `pagesInit`, for the first `n` elements of `Pages`. -/
def reservePages (pages : Nat → PhyPageBlock) : Nat → (Nat → PhyPageBlock)
  | 0 => pages
  | n + 1 =>
      let pages := reservePages pages n
      Function.update pages n { pages n with flags := setBit 0 PGP_reserved }

/-- `pagesInit()` for a kernel that ends at `kernEnd`. -/
def pagesInit (g : BootInfo) (kernEnd : U32) : BootInfo :=
  let pages := roundUp kernEnd PGSIZE
  let pageCount := g.phyMemSize / PGSIZE
  { g with
    pages := pages
    freeMemStart := roundUp (pages + sizeofPhyPageBlock * pageCount) PGSIZE - KERNEL_BASE
    machine := { g.machine with
      pageCount := pageCount.toNat
      pmm := { g.machine.pmm with pages := reservePages g.machine.pmm.pages pageCount.toNat } } }

/-- What `initPMM` has set when it comes to the allocator. -/
def bootLayout (g : BootInfo) (mmap : List MmapEntry) (kernEnd : U32) : BootInfo :=
  let g := getMemInfo g mmap
  let g := { g with machine := { g.machine with pmm := ffFreeAreaInit g.machine.pmm } }
  pagesInit g kernEnd

/-- The block that `initPMM` hands to `ff_memmap_init`. -/
def bootBlock (g : BootInfo) : Res (Nat × Nat) := do
  let base ← pa2page g.machine g.freeMemStart
  return (base, ((g.phyMemEnd - g.freeMemStart) / PGSIZE).toNat)

/-- `initPMM()`. -/
def initPMM (g : BootInfo) (mmap : List MmapEntry) (kernEnd : U32) : Res BootInfo := do
  let g := bootLayout g mmap kernEnd
  let (base, n) ← bootBlock g
  let pmm ← ffMemmapInit g.machine.pmm base n
  return { g with machine := { g.machine with pmm := pmm } }

/-! ### The memory that is found -/

/-- The entry that `getMemInfo` takes last. -/
def Region (mmap : List MmapEntry) : Option MmapEntry := (mmap.filter MmapEntry.usable).getLast?

/-- All 64 bits of the base. -/
def MmapEntry.base (e : MmapEntry) : Nat := e.baseAddrHigh.toNat * 2 ^ 32 + e.baseAddrLow.toNat

/-- All 64 bits of the length. -/
def MmapEntry.length (e : MmapEntry) : Nat := e.lengthHigh.toNat * 2 ^ 32 + e.lengthLow.toNat

/-- The end of memory for the code: 1 MB and the low word of the length. -/
def MmapEntry.memEnd (e : MmapEntry) : U32 := 0x100000#32 + e.lengthLow

/-- A number rounded up to a page. -/
def pageCeil (n : Nat) : Nat := (n + 4095) / 4096 * 4096

/-- The physical address at which `Pages` ends. -/
def arrayEnd (kernEnd memEnd : U32) : Nat := pageCeil (kernEnd.toNat - 0xC0000000) + 20 * (memEnd.toNat / 4096)

/-- The region has the kernel, which starts at 1 MB, and the array `Pages` in it. -/
structure Room (e : MmapEntry) (kernEnd : U32) : Prop where
  kernel : 0xC0100000 ≤ kernEnd.toNat
  low : e.base ≤ 0x100000
  high : arrayEnd kernEnd e.memEnd ≤ e.base + e.length

theorem usable_iff {e : MmapEntry} : e.usable = true ↔ e.type = 1 ∧ e.baseAddrLow = 0x100000#32 := by
  unfold MmapEntry.usable
  rw [Bool.and_eq_true, beq_iff_eq, beq_iff_eq]

/-- The last usable entry decides. -/
theorem getMemInfo_eq (g : BootInfo) (mmap : List MmapEntry) : getMemInfo g mmap =
    match Region mmap with
    | none => g
    | some e => { g with phyMemSize := e.memEnd, phyMemEnd := e.memEnd } := by
  induction mmap generalizing g with
  | nil => rfl
  | cons e rest ih =>
      unfold getMemInfo
      rw [ih]
      by_cases he : e.usable = true
      · have hlow := (usable_iff.mp he).2
        have hregion : Region (e :: rest) = some ((Region rest).getD e) := by
          unfold Region
          rw [List.filter_cons_of_pos he, List.getLast?_cons]
        rw [hregion, if_pos he, hlow]
        cases Region rest with
        | none => rfl
        | some e' => rfl
      · have hregion : Region (e :: rest) = Region rest := by
          unfold Region
          rw [List.filter_cons_of_neg he]
        rw [hregion, if_neg he]

theorem usable_of_region {mmap : List MmapEntry} {e : MmapEntry} (h : Region mmap = some e) : e.usable = true :=
  (List.mem_filter.mp (List.mem_of_getLast? h)).2

section

variable {g : BootInfo} {mmap : List MmapEntry} {kernEnd : U32} {e : MmapEntry}

theorem bootLayout_memEnd (h : Region mmap = some e) : (bootLayout g mmap kernEnd).phyMemEnd = e.memEnd := by
  unfold bootLayout
  rw [getMemInfo_eq, h]
  rfl

theorem bootLayout_pageCount (h : Region mmap = some e) :
    (bootLayout g mmap kernEnd).machine.pageCount = e.memEnd.toNat / 4096 := by
  unfold bootLayout
  rw [getMemInfo_eq, h]
  exact BitVec.toNat_udiv

/-- The array starts behind the kernel. -/
theorem bootLayout_pages : (bootLayout g mmap kernEnd).pages = pagesAddr kernEnd := rfl

/-- `FreeMemStart` is the first page boundary behind the array, also where the addresses wrap around. -/
theorem bootLayout_freeMemStart (h : Region mmap = some e) (hkernel : 0xC0000000 ≤ kernEnd.toNat) :
    (bootLayout g mmap kernEnd).freeMemStart.toNat = pageCeil (arrayEnd kernEnd e.memEnd) := by
  have hstart : (bootLayout g mmap kernEnd).freeMemStart =
      roundUp (roundUp kernEnd PGSIZE + sizeofPhyPageBlock * (e.memEnd / PGSIZE)) PGSIZE - KERNEL_BASE := by
    unfold bootLayout
    rw [getMemInfo_eq, h]
    rfl
  have hcount : (e.memEnd / PGSIZE).toNat = e.memEnd.toNat / 4096 := BitVec.toNat_udiv
  have hlt := kernEnd.isLt
  have hlt' := e.memEnd.isLt
  have hsize : sizeofPhyPageBlock.toNat = 20 := rfl
  have hbase : KERNEL_BASE.toNat = 0xC0000000 := rfl
  have hpages : (roundUp kernEnd PGSIZE).toNat = (0xC0000000 + pageCeil (kernEnd.toNat - 0xC0000000)) % 2 ^ 32 := by
    rw [roundUp_toNat]
    unfold pageCeil
    omega
  have hceil : pageCeil (kernEnd.toNat - 0xC0000000) ≤ 2 ^ 30 := by
    unfold pageCeil
    omega
  have harray : (roundUp kernEnd PGSIZE + sizeofPhyPageBlock * (e.memEnd / PGSIZE)).toNat =
      (0xC0000000 + arrayEnd kernEnd e.memEnd) % 2 ^ 32 := by
    rw [BitVec.toNat_add, BitVec.toNat_mul, hpages, hcount, hsize]
    unfold arrayEnd
    omega
  have hend : arrayEnd kernEnd e.memEnd < 2 ^ 31 := by
    unfold arrayEnd
    omega
  rw [hstart, BitVec.toNat_sub, roundUp_toNat, harray, hbase]
  unfold pageCeil
  omega

/-- The block that the allocator gets; where the array leaves nothing, `pa2page` panics. -/
theorem bootBlock_eq_ok (h : Region mmap = some e) (hkernel : 0xC0000000 ≤ kernEnd.toNat) {base n : Nat} :
    bootBlock (bootLayout g mmap kernEnd) = .ok (base, n) ↔
      pageCeil (arrayEnd kernEnd e.memEnd) ≤ e.memEnd.toNat ∧
        base = pageCeil (arrayEnd kernEnd e.memEnd) / 4096 ∧
        n = (e.memEnd.toNat - pageCeil (arrayEnd kernEnd e.memEnd)) / 4096 := by
  have hstart := bootLayout_freeMemStart (g := g) h hkernel
  have haligned : pageCeil (arrayEnd kernEnd e.memEnd) % 4096 = 0 := Nat.mul_mod_left _ _
  have hpage : ((bootLayout g mmap kernEnd).freeMemStart >>> 12).toNat = pageCeil (arrayEnd kernEnd e.memEnd) / 4096 := by
    rw [BitVec.toNat_ushiftRight, hstart, Nat.shiftRight_eq_div_pow]
  have hlt := e.memEnd.isLt
  unfold bootBlock pa2page
  rw [hpage, bootLayout_pageCount h, bootLayout_memEnd h]
  by_cases hle : pageCeil (arrayEnd kernEnd e.memEnd) ≤ e.memEnd.toNat
  · rw [if_neg (by omega)]
    have hcount : ((e.memEnd - (bootLayout g mmap kernEnd).freeMemStart) / PGSIZE).toNat =
        (e.memEnd.toNat - pageCeil (arrayEnd kernEnd e.memEnd)) / 4096 := by
      rw [BitVec.toNat_udiv, BitVec.toNat_sub_of_le (by rw [BitVec.le_def, hstart]; exact hle), hstart]
      rfl
    simp only [Res.ok_bind, pure, Except.pure, Except.ok.injEq, Prod.mk.injEq, hcount, hle, true_and]
    exact ⟨fun hpair => ⟨hpair.1.symm, hpair.2.symm⟩, fun hpair => ⟨hpair.1.symm, hpair.2.symm⟩⟩
  · rw [if_pos (by omega)]
    simp [bind, Except.bind, hle]

end

/-! ### What the allocator gets -/

/-- A page that the allocator may hand out: it lies in the region, has a descriptor in `Pages`, lies behind the array
and in the direct map of the kernel. -/
structure PageSound (e : MmapEntry) (g : BootInfo) (x : Nat) : Prop where
  region : e.base ≤ 4096 * x ∧ 4096 * (x + 1) ≤ e.base + e.length
  listed : x < g.machine.pageCount
  behind : g.pages.toNat + 20 * g.machine.pageCount ≤ 0xC0000000 + 4096 * x
  mapped : 4096 * x < MAX_PHY_MEM_SIZE.toNat

/-- Memory is set up soundly: the block that `initPMM` hands to `ff_memmap_init` has sound pages only, and whatever
the allocator does from then on, each page that it hands out has an address below `KERNEL_TOP`. -/
structure BootSound (g : BootInfo) (mmap : List MmapEntry) (kernEnd : U32) (e : MmapEntry) : Prop where
  block : ∀ base n, bootBlock (bootLayout g mmap kernEnd) = .ok (base, n) →
    ∀ x, base ≤ x → x < base + n → PageSound e (bootLayout g mmap kernEnd) x
  address : ∀ g' m used, initPMM g mmap kernEnd = .ok g' →
    Relation.ReflTransGen FfStep (g'.machine.pmm, []) (m, used) → ∀ u ∈ used, ∀ x, u.Contains x →
      (page2pa x + KERNEL_BASE).toNat = 4096 * x + 0xC0000000 ∧ page2pa x + KERNEL_BASE < KERNEL_TOP

section

variable {g : BootInfo} {mmap : List MmapEntry} {kernEnd : U32} {e : MmapEntry}

/-- `initPMM` gives the block to an empty allocator. -/
theorem initPMM_eq_ok {g' : BootInfo} (hcall : initPMM g mmap kernEnd = .ok g') :
    ∃ base n, bootBlock (bootLayout g mmap kernEnd) = .ok (base, n) ∧
      ffMemmapInit (ffFreeAreaInit (bootLayout g mmap kernEnd).machine.pmm) base n = .ok g'.machine.pmm := by
  obtain ⟨⟨base, n⟩, hblock, hcall⟩ := Res.bind_eq_ok.mp hcall
  obtain ⟨pmm, hinit, hcall⟩ := Res.bind_eq_ok.mp hcall
  obtain rfl := Except.ok.inj hcall
  refine ⟨base, n, hblock, ?_⟩
  change _ = Except.ok pmm
  rw [← hinit]
  congr 1

/-- A page below the limit of physical memory is in the direct map. -/
theorem page2pa_mapped {x : Nat} (hx : 4096 * x < MAX_PHY_MEM_SIZE.toNat) :
    (page2pa x + KERNEL_BASE).toNat = 4096 * x + 0xC0000000 ∧ page2pa x + KERNEL_BASE < KERNEL_TOP := by
  have hmax : MAX_PHY_MEM_SIZE.toNat = 0x38000000 := rfl
  have hbase : KERNEL_BASE.toNat = 0xC0000000 := rfl
  have htop : KERNEL_TOP.toNat = 0xF8000000 := rfl
  have hval : (page2pa x + KERNEL_BASE).toNat = 4096 * x + 0xC0000000 := by
    unfold page2pa
    rw [BitVec.toNat_add, BitVec.toNat_shiftLeft, BitVec.toNat_ofNat, Nat.shiftLeft_eq, hbase]
    omega
  refine ⟨hval, ?_⟩
  rw [BitVec.lt_def, hval, htop]
  omega

/-- All pages of the block are sound, but for their address in the direct map. -/
theorem pageSound_of_block {base n x : Nat} (hregion : Region mmap = some e) (hroom : Room e kernEnd)
    (hblock : bootBlock (bootLayout g mmap kernEnd) = .ok (base, n)) (hx : base ≤ x) (hx' : x < base + n)
    (hmapped : 4096 * x < MAX_PHY_MEM_SIZE.toNat) : PageSound e (bootLayout g mmap kernEnd) x := by
  have hkernel : 0xC0000000 ≤ kernEnd.toNat := by
    have := hroom.kernel
    omega
  obtain ⟨hle, hbase, hn⟩ := (bootBlock_eq_ok hregion hkernel).mp hblock
  have haligned : pageCeil (arrayEnd kernEnd e.memEnd) % 4096 = 0 := Nat.mul_mod_left _ _
  have hceil : arrayEnd kernEnd e.memEnd ≤ pageCeil (arrayEnd kernEnd e.memEnd) := by
    unfold pageCeil
    omega
  have hpages : (bootLayout g mmap kernEnd).pages.toNat ≤ 0xC0000000 + pageCeil (kernEnd.toNat - 0xC0000000) := by
    rw [bootLayout_pages]
    unfold pagesAddr pageCeil
    rw [roundUp_toNat]
    omega
  have harray : pageCeil (kernEnd.toNat - 0xC0000000) + 20 * (e.memEnd.toNat / 4096) = arrayEnd kernEnd e.memEnd := rfl
  have hstart : 0x100000 ≤ pageCeil (arrayEnd kernEnd e.memEnd) := by
    have := hroom.kernel
    unfold arrayEnd pageCeil
    omega
  -- `initPMM` reads the low words only: it can miss memory of the region, but adds none.
  have hlength : e.memEnd.toNat ≤ e.base + e.length := by
    have hbaseLow := (usable_iff.mp (usable_of_region hregion)).2
    unfold MmapEntry.memEnd MmapEntry.base MmapEntry.length
    rw [BitVec.toNat_add, hbaseLow, BitVec.toNat_ofNat]
    omega
  have hlow := hroom.low
  constructor
  · constructor <;> omega
  · rw [bootLayout_pageCount hregion]
    omega
  · rw [bootLayout_pageCount hregion]
    omega
  · exact hmapped

/-- **Memory at boot.**  For every memory map and every end of the kernel such that the region that `getMemInfo` takes
has the kernel and the array in it: memory is set up soundly exactly where the last whole frame of the region ends at
or below `MAX_PHY_MEM_SIZE`, or no whole frame is left behind the array. -/
theorem boot_memory_sound_iff (g : BootInfo) (mmap : List MmapEntry) (kernEnd : U32) (e : MmapEntry)
    (hregion : Region mmap = some e) (hroom : Room e kernEnd) :
    BootSound g mmap kernEnd e ↔ e.memEnd.toNat < 0x38000000 + 4096 ∨
      e.memEnd.toNat < pageCeil (arrayEnd kernEnd e.memEnd) + 4096 := by
  have hkernel : 0xC0000000 ≤ kernEnd.toNat := by
    have := hroom.kernel
    omega
  have hmax : MAX_PHY_MEM_SIZE.toNat = 0x38000000 := rfl
  have haligned : pageCeil (arrayEnd kernEnd e.memEnd) % 4096 = 0 := Nat.mul_mod_left _ _
  have hceil : arrayEnd kernEnd e.memEnd ≤ pageCeil (arrayEnd kernEnd e.memEnd) := by
    unfold pageCeil
    omega
  constructor
  · intro hsound
    by_contra hnot
    rw [not_or, not_lt, not_lt] at hnot
    have hblock := (bootBlock_eq_ok (g := g) hregion hkernel).mpr ⟨by omega, rfl, rfl⟩
    -- The last frame of the region.
    have hlast := (hsound.block _ _ hblock (e.memEnd.toNat / 4096 - 1) (by omega) (by omega)).mapped
    omega
  · intro hcond
    have hsound : ∀ base n, bootBlock (bootLayout g mmap kernEnd) = .ok (base, n) →
        ∀ x, base ≤ x → x < base + n → PageSound e (bootLayout g mmap kernEnd) x := by
      intro base n hblock x hx hx'
      apply pageSound_of_block hregion hroom hblock hx hx'
      obtain ⟨hle, hbase, hn⟩ := (bootBlock_eq_ok hregion hkernel).mp hblock
      omega
    refine ⟨hsound, ?_⟩
    intro g' m used hinit hrun u hu x hx
    obtain ⟨base, n, hblock, hmem⟩ := initPMM_eq_ok hinit
    have hinside := (ffInv_of_run hmem hrun).used_inside u hu
    obtain ⟨hxlo, hxhi⟩ := hx
    exact page2pa_mapped (hsound base n hblock x (by omega) (by omega)).mapped

end

/-- The globals before boot. -/
def zeroBoot : BootInfo := ⟨0, 0, 0, 0, ⟨⟨fun _ => ⟨0, 0, 0⟩, [], 0⟩, 0, fun _ _ => 0, 0⟩⟩

/-- The map of a machine with `length` bytes of memory behind the first megabyte. -/
def oneRegion (length : U32) : MmapEntry := ⟨20, 0x100000, 0, length, 0, 1⟩

/-- A machine with 32 MB, and a kernel of 1 MB. -/
theorem boot_memory_sound_32MB : BootSound zeroBoot [oneRegion 0x1F00000] 0xC0200000 (oneRegion 0x1F00000) := by
  have hregion : Region [oneRegion 0x1F00000] = some (oneRegion 0x1F00000) := by decide
  have hroom : Room (oneRegion 0x1F00000) 0xC0200000 := ⟨by decide, by decide, by decide⟩
  exact (boot_memory_sound_iff zeroBoot _ 0xC0200000 _ hregion hroom).mpr (Or.inl (by decide))

/-- With 1 GB behind the first megabyte the allocator gets the frame at 896 MB, whose address in the direct map is
`KERNEL_TOP`. -/
theorem boot_memory_above_limit : ∃ base n, Region [oneRegion 0x40000000] = some (oneRegion 0x40000000) ∧
    Room (oneRegion 0x40000000) 0xC0200000 ∧
    bootBlock (bootLayout zeroBoot [oneRegion 0x40000000] 0xC0200000) = .ok (base, n) ∧
    base ≤ 0x38000 ∧ 0x38000 < base + n ∧
    ¬ PageSound (oneRegion 0x40000000) (bootLayout zeroBoot [oneRegion 0x40000000] 0xC0200000) 0x38000 ∧
    page2pa 0x38000 + KERNEL_BASE = KERNEL_TOP := by
  have hblock : bootBlock (bootLayout zeroBoot [oneRegion 0x40000000] 0xC0200000) = .ok (0x702, 0x3F9FE) := by
    decide +kernel
  refine ⟨_, _, by decide, ⟨by decide, by decide, by decide⟩, hblock, by decide, by decide, ?_, by decide⟩
  intro hsound
  exact absurd hsound.mapped (by decide)

end Memory
end FreakOS
