import FreakOS.Memory.Boot

/-!
# What is written before the page directory is switched

`mmapTempVMPage` maps 4 MB at `KERNEL_BASE`.  Until `initKernelPageTable` switches to the tables that it builds, the
array `Pages`, `KernelPGD` and `KernelPTE` have to lie in them.

* `tempMapped` — the addresses that `PGD_temp` and `PTE_high` map.
* `initKernelPageTable` — the two tables, and the stores into them.
* `bootStores` — the stores from `initPMM` on, also those of a boot that stops in a panic.
* `boot_stores_mapped_iff` — when all of them are mapped.

Every store is an address and a number of bytes.  The elements of `Pages` are written by `pagesInit`, `ff_memmap_init`
and `ff_alloc_pages`.
-/

namespace FreakOS
namespace Memory

open Lib

/-- `PGD_ECOUNT`, the entries of a page directory and of a page table. -/
def PGD_ECOUNT : Nat := 1024

/-- `PGD_PHY_ECOUNT`, that is `MAX_PHY_MEM_SIZE / 1024 / 4096`. -/
def PGD_PHY_ECOUNT : Nat := 224

example : PGD_PHY_ECOUNT = MAX_PHY_MEM_SIZE.toNat / 1024 / 4096 := by decide

/-- The entry of `PGD_temp` for an address: `PTE_low` for the first 4 MB, `PTE_high` for those at `KERNEL_BASE`. -/
def tempMapped (a : U32) : Bool := pgdIndex a == 0 || pgdIndex a == pgdIndex KERNEL_BASE

/-- The stores of `initKernelPageTable` into the tables: two times `bzero`, and the loops of `setBootKernelPGD`. -/
def tableStores (kernelPgd kernelPte : U32) : List (U32 × Nat) :=
  [(kernelPgd, 4 * PGD_ECOUNT), (kernelPte, 4 * PGD_ECOUNT * PGD_PHY_ECOUNT)] ++
    (List.range' 768 256).map (fun i => (kernelPgd + BitVec.ofNat 32 (4 * i), 4)) ++
    (List.range (PGD_ECOUNT * PGD_PHY_ECOUNT)).map fun i => (kernelPte + BitVec.ofNat 32 (4 * i), 4)

/-- `initKernelPageTable()` up to `switchPageDir`: `KernelPGD`, `KernelPTE` and the allocator. -/
def initKernelPageTable (kernEnd : U32) (s : Machine) : Res (U32 × U32 × Machine) := do
  let (kernelPgd, s) ← dokmalloc2 kernEnd s (BitVec.ofNat 32 (4 * PGD_ECOUNT))
  let (kernelPte, s) ← dokmalloc2 kernEnd s (BitVec.ofNat 32 (4 * PGD_ECOUNT * PGD_PHY_ECOUNT))
  return (kernelPgd, kernelPte, s)

/-- The elements of `Pages`. -/
def pagesStores (g : BootInfo) : List (U32 × Nat) :=
  (List.range g.machine.pageCount).map fun i => (g.pages + BitVec.ofNat 32 (20 * i), 20)

/-- All stores from `initPMM` up to `switchPageDir`. -/
def bootStores (g : BootInfo) (mmap : List MmapEntry) (kernEnd : U32) : List (U32 × Nat) :=
  pagesStores (bootLayout g mmap kernEnd) ++
    match initPMM g mmap kernEnd with
    | .error _ => []
    | .ok g =>
        match initKernelPageTable kernEnd g.machine with
        | .error _ => []
        | .ok (kernelPgd, kernelPte, _) => tableStores kernelPgd kernelPte

/-- A store touches mapped addresses of the kernel only. -/
def InWindow (store : U32 × Nat) : Prop :=
  ∀ j < store.2, KERNEL_BASE ≤ store.1 + BitVec.ofNat 32 j ∧ store.1 + BitVec.ofNat 32 j < KERNEL_BASE + 0x400000#32

/-- The window is what `mmapTempVMPage` maps at `KERNEL_BASE`. -/
theorem tempMapped_of_window {a : U32} (h : KERNEL_BASE ≤ a ∧ a < KERNEL_BASE + 0x400000#32) : tempMapped a = true := by
  have hlow : 0xC0000000 ≤ a.toNat := BitVec.le_def.mp h.1
  have hhigh : a.toNat < 0xC0400000 := BitVec.lt_def.mp h.2
  have hindex : pgdIndex a = pgdIndex KERNEL_BASE := by
    unfold pgdIndex
    have hdiv : a.toNat / 2 ^ 22 = 768 := by omega
    rw [hdiv]
    rfl
  simp [tempMapped, hindex]

/-! ### Offsets from `KERNEL_BASE` -/

/-- The address at an offset from `KERNEL_BASE`. -/
def kernelAddr (n : Nat) : U32 := KERNEL_BASE + BitVec.ofNat 32 n

theorem kernelAddr_add (n j : Nat) : kernelAddr n + BitVec.ofNat 32 j = kernelAddr (n + j) := by
  unfold kernelAddr
  rw [BitVec.add_assoc, ← BitVec.ofNat_add]

theorem kernelAddr_toNat {n : Nat} (hn : n < 2 ^ 30) : (kernelAddr n).toNat = 0xC0000000 + n := by
  have hbase : KERNEL_BASE.toNat = 0xC0000000 := rfl
  unfold kernelAddr
  rw [BitVec.toNat_add, BitVec.toNat_ofNat, hbase]
  omega

/-- A store at a small offset is in the window exactly if it ends in it. -/
theorem inWindow_iff {n len : Nat} (hn : n + len ≤ 2 ^ 30) (hlen : 0 < len) :
    InWindow (kernelAddr n, len) ↔ n + len ≤ 0x400000 := by
  have hval : ∀ j < len, (kernelAddr n + BitVec.ofNat 32 j).toNat = 0xC0000000 + (n + j) := by
    intro j hj
    rw [kernelAddr_add, kernelAddr_toNat (by omega)]
  have hbase : KERNEL_BASE.toNat = 0xC0000000 := rfl
  have htop : (KERNEL_BASE + 0x400000#32).toNat = 0xC0400000 := rfl
  constructor
  · intro h
    have hlast := (h (len - 1) (by simp; omega)).2
    rw [BitVec.lt_def, hval _ (by omega), htop] at hlast
    omega
  · intro h j hj
    rw [BitVec.le_def, BitVec.lt_def, hval j hj, hbase, htop]
    omega

/-! ### The first two allocations -/

/-- The allocator with a single free block. -/
structure OneBlock (m : Pmm) (b n : Nat) : Prop where
  list : m.freeArea = [b]
  property : (m.pages b).property = n
  count : m.freePageCount = n

/-- The block gives its front. -/
theorem OneBlock.alloc {m : Pmm} {b n k : Nat} (h : OneBlock m b n) (hk : 0 < k) (hle : k ≤ n) :
    ∃ m', ffAllocPages m k = .ok (some b, m') ∧ (k < n → OneBlock m' (b + k) (n - k)) ∧
      (k = n → m'.freeArea = []) := by
  have hprop : ∀ q, (m.pages b).property > q ↔ q < n := fun q => by rw [h.property]
  unfold ffAllocPages
  rw [if_neg (by omega), if_neg (by rw [h.count]; omega), h.list, List.find?_cons_of_pos (by simp [h.property, hle])]
  refine ⟨_, rfl, fun hlt => ?_, fun heq => ?_⟩
  · simp only [hprop, hlt, if_true]
    refine ⟨?_, ?_, ?_⟩
    · simp [listAddAfter, listDel]
    · have hne : b + k ≠ b := by omega
      simp [Function.update_of_ne hne, h.property]
    · exact congrArg (· - k) h.count
  · have hnot : ¬ k < n := by omega
    simp only [hprop, hnot, if_false]
    simp [listDel]

theorem OneBlock.not_fits {m : Pmm} {b n k : Nat} (h : OneBlock m b n) (hlt : n < k) : ¬ m.Fits k := by
  rintro ⟨c, hc, hle⟩
  rw [h.list, List.mem_singleton] at hc
  subst hc
  rw [h.property] at hle
  omega

/-- `ff_memmap_init` on an empty allocator. -/
theorem oneBlock_of_memmapInit {m₀ m₁ : Pmm} {b n : Nat} (h : ffMemmapInit (ffFreeAreaInit m₀) b n = .ok m₁) :
    OneBlock m₁ b n := by
  unfold ffMemmapInit at h
  split at h
  · cases h
  · obtain rfl := Except.ok.inj h
    exact ⟨rfl, by simp, by simp [ffFreeAreaInit]⟩

/-- The address of a frame is at its offset. -/
theorem page2pa_kernelAddr (x : Nat) : page2pa x + KERNEL_BASE = kernelAddr (4096 * x) := by
  apply BitVec.eq_of_toNat_eq
  unfold page2pa kernelAddr
  rw [BitVec.toNat_add, BitVec.toNat_shiftLeft, BitVec.toNat_ofNat, Nat.shiftLeft_eq, BitVec.toNat_add,
    BitVec.toNat_ofNat]
  omega

section

variable {kernEnd : U32} {s : Machine} {b n : Nat}

/-- The pages of `KernelPGD`. -/
theorem pagesOf_pgd : pagesOf (BitVec.ofNat 32 (4 * PGD_ECOUNT)) = 1 := by
  simp [pagesOf_eq, PGD_ECOUNT]

/-- The pages of `KernelPTE`. -/
theorem pagesOf_pte : pagesOf (BitVec.ofNat 32 (4 * PGD_ECOUNT * PGD_PHY_ECOUNT)) = 224 := by
  simp [pagesOf_eq, PGD_ECOUNT, PGD_PHY_ECOUNT]

/-- Both tables are allocated. -/
theorem initKernelPageTable_ok (kernEnd : U32) (h : OneBlock s.pmm b n) (hn : 225 ≤ n) (hb : b + 1 < 2 ^ 20) :
    ∃ s', initKernelPageTable kernEnd s = .ok (kernelAddr (4096 * b), kernelAddr (4096 * (b + 1)), s') := by
  obtain ⟨m₁, halloc₁, hrest, -⟩ := h.alloc (k := 1) (by omega) (by omega)
  obtain ⟨m₂, halloc₂, -⟩ := (hrest (by omega)).alloc (k := 224) (by omega) (by omega)
  have hpgd : dokmalloc2 kernEnd s (BitVec.ofNat 32 (4 * PGD_ECOUNT)) =
      .ok (page2pa b + KERNEL_BASE, { s with pmm := m₁ }) := dokmalloc2_some (by omega) (by rw [pagesOf_pgd]; exact halloc₁)
  have hpte : dokmalloc2 kernEnd { s with pmm := m₁ } (BitVec.ofNat 32 (4 * PGD_ECOUNT * PGD_PHY_ECOUNT)) =
      .ok (page2pa (b + 1) + KERNEL_BASE, { s with pmm := m₂ }) := dokmalloc2_some hb (by rw [pagesOf_pte]; exact halloc₂)
  unfold initKernelPageTable
  rw [hpgd]
  simp only [Res.ok_bind]
  rw [hpte, page2pa_kernelAddr, page2pa_kernelAddr]
  simp only [Res.ok_bind]
  exact ⟨_, rfl⟩

/-- There is no block for `KernelPTE`, and its address is that of `NULL`. -/
theorem initKernelPageTable_none (kernEnd : U32) (h : OneBlock s.pmm b n) (hpos : 0 < n) (hn : n < 225)
    (hb : b < 2 ^ 20) :
    ∃ s', initKernelPageTable kernEnd s =
      .ok (kernelAddr (4096 * b), (page2pagen (pagesAddr kernEnd) NULL <<< 12) + KERNEL_BASE, s') := by
  obtain ⟨m₁, halloc₁, hrest, hlast⟩ := h.alloc (k := 1) (by omega) (by omega)
  have hpgd : dokmalloc2 kernEnd s (BitVec.ofNat 32 (4 * PGD_ECOUNT)) =
      .ok (page2pa b + KERNEL_BASE, { s with pmm := m₁ }) := dokmalloc2_some (by omega) (by rw [pagesOf_pgd]; exact halloc₁)
  have hfits : ¬ m₁.Fits 224 := by
    by_cases hone : 1 = n
    · rintro ⟨c, hc, -⟩
      rw [hlast hone] at hc
      cases hc
    · exact (hrest (by omega)).not_fits (by omega)
  have hpte : dokmalloc2 kernEnd { s with pmm := m₁ } (BitVec.ofNat 32 (4 * PGD_ECOUNT * PGD_PHY_ECOUNT)) =
      .ok ((page2pagen (pagesAddr kernEnd) NULL <<< 12) + KERNEL_BASE, { s with pmm := m₁ }) :=
    dokmalloc2_not_fits (by rw [pagesOf_pte]; omega) (by rw [pagesOf_pte]; exact hfits)
  unfold initKernelPageTable
  rw [hpgd]
  simp only [Res.ok_bind]
  rw [hpte, page2pa_kernelAddr]
  simp only [Res.ok_bind]
  exact ⟨_, rfl⟩

end

/-! ### The stores of a boot -/

/-- The first stores are those of `bzero`. -/
theorem bzero_pte_mem (kernelPgd kernelPte : U32) :
    (kernelPte, 4 * PGD_ECOUNT * PGD_PHY_ECOUNT) ∈ tableStores kernelPgd kernelPte :=
  List.mem_append_left _ (List.mem_append_left _ (List.mem_cons_of_mem _ List.mem_cons_self))

theorem pte_bytes : 4 * PGD_ECOUNT * PGD_PHY_ECOUNT = 0xE0000 := by
  simp only [PGD_ECOUNT, PGD_PHY_ECOUNT, Nat.reduceMul]

/-- The tables, the directory in front, are in the window exactly if the other one ends in it. -/
theorem tableStores_mapped_iff {n m : Nat} (hn : n + 4096 ≤ m) (hm : m ≤ 2 ^ 29) :
    (∀ st ∈ tableStores (kernelAddr n) (kernelAddr m), InWindow st) ↔ m + 0xE0000 ≤ 0x400000 := by
  constructor
  · intro h
    have hpte := h _ (bzero_pte_mem _ _)
    rwa [pte_bytes, inWindow_iff (by omega) (by omega)] at hpte
  · intro h st hst
    simp only [tableStores, PGD_ECOUNT, PGD_PHY_ECOUNT, List.mem_append, List.mem_map, List.mem_range'_1, List.mem_range,
      List.mem_cons, List.not_mem_nil, or_false, kernelAddr_add] at hst
    rcases hst with ((rfl | rfl) | ⟨i, hi, rfl⟩) | ⟨i, hi, rfl⟩
    · exact (inWindow_iff (by omega) (by omega)).mpr (by omega)
    · exact (inWindow_iff (by omega) (by omega)).mpr (by omega)
    · exact (inWindow_iff (by omega) (by omega)).mpr (by omega)
    · exact (inWindow_iff (by omega) (by omega)).mpr (by omega)

section

variable {g : BootInfo} {mmap : List MmapEntry} {kernEnd : U32} {e : MmapEntry}

theorem pagesAddr_kernelAddr (hkernel : 0xC0000000 ≤ kernEnd.toNat) :
    pagesAddr kernEnd = kernelAddr (pageCeil (kernEnd.toNat - 0xC0000000)) := by
  have hlt := kernEnd.isLt
  have hbase : KERNEL_BASE.toNat = 0xC0000000 := rfl
  apply BitVec.eq_of_toNat_eq
  unfold pagesAddr kernelAddr pageCeil
  rw [roundUp_toNat, BitVec.toNat_add, BitVec.toNat_ofNat, hbase]
  omega

/-- The address of `NULL` is not in the window, as `Pages` does not start at a multiple of 4 MB. -/
theorem null_not_mapped (hlow : 0xC0100000 ≤ (pagesAddr kernEnd).toNat) (hhigh : (pagesAddr kernEnd).toNat ≤ 0xC0200000) :
    ¬ (KERNEL_BASE ≤ (page2pagen (pagesAddr kernEnd) NULL <<< 12) + KERNEL_BASE ∧
      (page2pagen (pagesAddr kernEnd) NULL <<< 12) + KERNEL_BASE < KERNEL_BASE + 0x400000#32) := by
  have hbase : KERNEL_BASE.toNat = 0xC0000000 := rfl
  have htop : (KERNEL_BASE + 0x400000#32).toNat = 0xC0400000 := rfl
  rw [BitVec.le_def, BitVec.lt_def, null_address_toNat, hbase, htop]
  -- `819 * k` is a multiple of 1024 only where `k` is.
  generalize hk : (pagesAddr kernEnd).toNat / 4096 = k
  have hk₁ : 0xC0100 ≤ k := by omega
  have hk₂ : k ≤ 0xC0200 := by omega
  clear hk hlow hhigh hbase htop
  omega

/-- The array `Pages` is in the window if it ends in it. -/
theorem pagesStores_mapped (hregion : Region mmap = some e) (hkernel : 0xC0000000 ≤ kernEnd.toNat)
    (harray : arrayEnd kernEnd e.memEnd ≤ 0x400000) : ∀ st ∈ pagesStores (bootLayout g mmap kernEnd), InWindow st := by
  intro st hst
  obtain ⟨i, hi, rfl⟩ := List.mem_map.mp hst
  rw [List.mem_range, bootLayout_pageCount hregion] at hi
  unfold arrayEnd at harray
  rw [bootLayout_pages, pagesAddr_kernelAddr hkernel, kernelAddr_add, inWindow_iff (by omega) (by omega)]
  omega

/-- `initPMM` stops where no whole frame is left behind the array. -/
theorem initPMM_error (hregion : Region mmap = some e) (hkernel : 0xC0000000 ≤ kernEnd.toNat)
    (hnone : e.memEnd.toNat < pageCeil (arrayEnd kernEnd e.memEnd) + 4096) :
    ∃ fault, initPMM g mmap kernEnd = .error fault := by
  cases hcall : initPMM g mmap kernEnd with
  | error fault => exact ⟨fault, rfl⟩
  | ok g' =>
      obtain ⟨base, n, hblock, hinit⟩ := initPMM_eq_ok hcall
      obtain ⟨-, -, hn⟩ := (bootBlock_eq_ok hregion hkernel).mp hblock
      have hzero : n = 0 := by omega
      simp [ffMemmapInit, hzero] at hinit

/-- A block that is not empty becomes the only one. -/
theorem initPMM_of_block {base n : Nat} (hblock : bootBlock (bootLayout g mmap kernEnd) = .ok (base, n)) (hn : 0 < n) :
    ∃ g', initPMM g mmap kernEnd = .ok g' ∧ OneBlock g'.machine.pmm base n := by
  have hempty : (bootLayout g mmap kernEnd).machine.pmm = ffFreeAreaInit (bootLayout g mmap kernEnd).machine.pmm := rfl
  cases hinit : ffMemmapInit (bootLayout g mmap kernEnd).machine.pmm base n with
  | error fault =>
      unfold ffMemmapInit at hinit
      rw [if_neg hn.ne'] at hinit
      cases hinit
  | ok pmm =>
      let g' := bootLayout g mmap kernEnd
      refine ⟨{ g' with machine := { g'.machine with pmm := pmm } }, ?_, ?_⟩
      · unfold initPMM
        dsimp only
        rw [hblock]
        simp only [Res.ok_bind]
        rw [hinit]
        rfl
      · rw [hempty] at hinit
        exact oneBlock_of_memmapInit hinit

/-- Otherwise the allocator has one free block. -/
theorem initPMM_ok (hregion : Region mmap = some e) (hkernel : 0xC0000000 ≤ kernEnd.toNat)
    (hsome : pageCeil (arrayEnd kernEnd e.memEnd) + 4096 ≤ e.memEnd.toNat) :
    ∃ g', initPMM g mmap kernEnd = .ok g' ∧ OneBlock g'.machine.pmm (pageCeil (arrayEnd kernEnd e.memEnd) / 4096)
      ((e.memEnd.toNat - pageCeil (arrayEnd kernEnd e.memEnd)) / 4096) :=
  initPMM_of_block ((bootBlock_eq_ok hregion hkernel).mpr ⟨Nat.le_of_add_right_le hsome, rfl, rfl⟩)
    (Nat.div_pos (Nat.le_sub_of_add_le' hsome) (by decide))

/-- **Stores at boot.**  For every kernel that ends in the first 2 MB and every memory up to `MAX_PHY_MEM_SIZE`: all
that is written before the page directory is switched is mapped exactly where the 225 frames of the two tables exist
behind the array `Pages` and end in the first 4 MB, or the boot stops in `initPMM`, since no whole frame is left
behind the array. -/
theorem boot_stores_mapped_iff (g : BootInfo) (mmap : List MmapEntry) (kernEnd : U32) (e : MmapEntry)
    (hregion : Region mmap = some e) (hlow : 0xC0100000 ≤ kernEnd.toNat) (hhigh : kernEnd.toNat ≤ 0xC0200000)
    (hmem : e.memEnd.toNat ≤ 0x38000000) :
    (∀ st ∈ bootStores g mmap kernEnd, InWindow st) ↔
      e.memEnd.toNat < pageCeil (arrayEnd kernEnd e.memEnd) + 4096 ∨
        (pageCeil (arrayEnd kernEnd e.memEnd) + 0xE1000 ≤ e.memEnd.toNat ∧
          pageCeil (arrayEnd kernEnd e.memEnd) + 0xE1000 ≤ 0x400000) := by
  have hkernel : 0xC0000000 ≤ kernEnd.toNat := by omega
  have hceil : arrayEnd kernEnd e.memEnd ≤ pageCeil (arrayEnd kernEnd e.memEnd) ∧
      pageCeil (arrayEnd kernEnd e.memEnd) ≤ arrayEnd kernEnd e.memEnd + 4095 := by
    unfold pageCeil
    omega
  have haligned : 4096 * (pageCeil (arrayEnd kernEnd e.memEnd) / 4096) = pageCeil (arrayEnd kernEnd e.memEnd) :=
    Nat.mul_div_cancel' (Nat.dvd_of_mod_eq_zero (Nat.mul_mod_left _ _))
  have hstart : pageCeil (kernEnd.toNat - 0xC0000000) ≤ 0x200000 ∧ 0x100000 ≤ pageCeil (kernEnd.toNat - 0xC0000000) := by
    unfold pageCeil
    omega
  have harray : arrayEnd kernEnd e.memEnd =
      pageCeil (kernEnd.toNat - 0xC0000000) + 20 * (e.memEnd.toNat / 4096) := rfl
  by_cases hnone : e.memEnd.toNat < pageCeil (arrayEnd kernEnd e.memEnd) + 4096
  · obtain ⟨fault, hcall⟩ := initPMM_error (g := g) hregion hkernel hnone
    have hstores : bootStores g mmap kernEnd = pagesStores (bootLayout g mmap kernEnd) := by
      unfold bootStores
      rw [hcall, List.append_nil]
    rw [hstores]
    simp only [hnone, true_or, iff_true]
    exact pagesStores_mapped hregion hkernel (by omega)
  · obtain ⟨g', hcall, hone⟩ := initPMM_ok (g := g) hregion hkernel (not_lt.mp hnone)
    simp only [hnone, false_or]
    have hstores : ∀ pgd pte s, initKernelPageTable kernEnd g'.machine = .ok (pgd, pte, s) →
        bootStores g mmap kernEnd = pagesStores (bootLayout g mmap kernEnd) ++ tableStores pgd pte := by
      intro pgd pte s htable
      simp only [bootStores, hcall, htable]
    by_cases hfull : pageCeil (arrayEnd kernEnd e.memEnd) + 0xE1000 ≤ e.memEnd.toNat
    · obtain ⟨s, htable⟩ := initKernelPageTable_ok kernEnd hone (by omega) (by omega)
      rw [hstores _ _ s htable, Nat.mul_add, haligned]
      obtain ⟨m, hm⟩ : ∃ m, m = pageCeil (arrayEnd kernEnd e.memEnd) + 4096 * 1 := ⟨_, rfl⟩
      rw [← hm, List.forall_mem_append, tableStores_mapped_iff (by omega) (by omega)]
      constructor
      · rintro ⟨-, hend⟩
        omega
      · rintro ⟨-, hend⟩
        exact ⟨pagesStores_mapped hregion hkernel (by omega), by omega⟩
    · obtain ⟨s, htable⟩ := initKernelPageTable_none kernEnd hone (by omega) (by omega) (by omega)
      rw [hstores _ _ s htable]
      simp only [hfull, false_and, iff_false]
      intro hall
      have hpte := hall ((page2pagen (pagesAddr kernEnd) NULL <<< 12) + KERNEL_BASE, 4 * PGD_ECOUNT * PGD_PHY_ECOUNT)
        (List.mem_append_right _ (bzero_pte_mem _ _)) 0 (by rw [pte_bytes]; omega)
      rw [BitVec.add_zero] at hpte
      have hpagesAddr : (pagesAddr kernEnd).toNat = 0xC0000000 + pageCeil (kernEnd.toNat - 0xC0000000) := by
        rw [pagesAddr_kernelAddr hkernel, kernelAddr_toNat (by omega)]
      exact null_not_mapped (by omega) (by omega) hpte

end

/-- A machine with 32 MB: all is mapped. -/
theorem boot_stores_mapped_32MB : (oneRegion 0x1F00000).memEnd = 0x2000000 ∧
    ∀ st ∈ bootStores zeroBoot [oneRegion 0x1F00000] 0xC0200000, InWindow st := by
  constructor
  · decide
  · exact (boot_stores_mapped_iff zeroBoot [oneRegion 0x1F00000] 0xC0200000 (oneRegion 0x1F00000) (by decide)
      (by decide) (by decide) (by decide)).mpr (Or.inr ⟨by decide, by decide⟩)

/-- With `MAX_PHY_MEM_SIZE` bytes the array `Pages` alone has more than 4 MB: its last element is not mapped. -/
theorem boot_stores_unmapped_896MB : (oneRegion 0x37F00000).memEnd = MAX_PHY_MEM_SIZE ∧
    (kernelAddr (0x200000 + 20 * 229375), 20) ∈ bootStores zeroBoot [oneRegion 0x37F00000] 0xC0200000 ∧
    ¬ InWindow (kernelAddr (0x200000 + 20 * 229375), 20) ∧
    tempMapped (kernelAddr (0x200000 + 20 * 229375)) = false := by
  have hregion : Region [oneRegion 0x37F00000] = some (oneRegion 0x37F00000) := by decide
  have hcount : (bootLayout zeroBoot [oneRegion 0x37F00000] 0xC0200000).machine.pageCount = _ :=
    bootLayout_pageCount hregion
  refine ⟨by decide, List.mem_append_left _ (List.mem_map.mpr ⟨229375, ?_, ?_⟩), ?_, by decide⟩
  · rw [List.mem_range, hcount]
    decide
  · rw [bootLayout_pages]
    decide
  · rw [inWindow_iff (by omega) (by omega)]
    omega

end Memory
end FreakOS
