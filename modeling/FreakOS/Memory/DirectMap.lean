import FreakOS.Memory.BootWindow

/-!
# The tables of the direct map

What `initKernelPageTable` of `boot_vmm.c` writes into `KernelPGD` and `KernelPTE`, on physical memory, and what the
processor finds there.  The loop over the directory has 256 rounds, and `KernelPTE` has 224 tables.

* `walk` — the two levels that the processor goes through for an address.
* `setBootKernelPGD` — as in the source, after `bzero` for both tables.
* `Placement` — where the two allocations are.
* `direct_map_not_exact` — what the tables map: `[KERNEL_BASE, KERNEL_TOP)` as wanted, and what is behind `KernelPTE`.
-/

namespace FreakOS
namespace Memory

open Lib

/-- What the processor finds for an address. -/
structure Translation where
  pa : U32
  writable : Bool
  user : Bool
deriving DecidableEq

/-- The walk of the processor for an address, from the directory in a frame. -/
def walk (phys : Nat → FrameWords) (dir : Nat) (va : U32) : Option Translation :=
  let pde := phys dir (pgdIndex va)
  match target pde with
  | none => none
  | some table =>
      let pte := phys table (pteIndex va)
      match target pte with
      | none => none
      | some frame => some {
          pa := page2pa frame + (va &&& 0xFFF)
          writable := decide (pde &&& PTE_PAGE_WRITEABLE ≠ 0 ∧ pte &&& PTE_PAGE_WRITEABLE ≠ 0)
          user := decide (pde &&& PTE_PAGE_USER ≠ 0 ∧ pte &&& PTE_PAGE_USER ≠ 0) }

namespace DirectMap

/-- Physical memory. -/
abbrev Phys := Nat → FrameWords

/-- A store through an address of the kernel. -/
def storeAt (mem : Phys) (va word : U32) : Phys :=
  let a := (va - KERNEL_BASE).toNat
  Function.update mem (a / 4096) (Function.update (mem (a / 4096)) (Fin.ofNat 1024 (a / 4)) word)

/-- Stores into the elements of an array of words. -/
def storeLoop (mem : Phys) (array : U32) (value : Nat → U32) (first n : Nat) : Phys :=
  (List.range' first n).foldl (fun mem i => storeAt mem (array + BitVec.ofNat 32 (4 * i)) (value i)) mem

/-- The flags of all entries. -/
def flags : U32 := PTE_PAGE_PERSENT ||| PTE_PAGE_WRITEABLE

/-- `setBootKernelPGD()`. -/
def setBootKernelPGD (kernelPgd kernelPte : U32) (mem : Phys) : Phys :=
  let first := (pgdIndex KERNEL_BASE).val
  let mem := storeLoop mem kernelPgd
    (fun i => (kernelPte + BitVec.ofNat 32 (4 * ((i - first) * PGD_ECOUNT)) - KERNEL_BASE) ||| flags)
    first (PGD_ECOUNT - first)
  storeLoop mem kernelPte (fun i => (BitVec.ofNat 32 i <<< 12) ||| flags) 0 (PGD_ECOUNT * PGD_PHY_ECOUNT)

/-- The stores of `initKernelPageTable()` into the two tables. -/
def initTables (kernelPgd kernelPte : U32) (mem : Phys) : Phys :=
  let mem := storeLoop mem kernelPgd (fun _ => 0) 0 PGD_ECOUNT
  let mem := storeLoop mem kernelPte (fun _ => 0) 0 (PGD_ECOUNT * PGD_PHY_ECOUNT)
  setBootKernelPGD kernelPgd kernelPte mem

/-- The frames of `KernelPGD` and of `KernelPTE`, which have addresses in the kernel and are apart. -/
structure Placement where
  pgd : Nat
  pte : Nat
  pgd_lt : pgd < 0x40000
  pte_le : pte + PGD_PHY_ECOUNT ≤ 0x40000
  apart : pgd < pte ∨ pte + PGD_PHY_ECOUNT ≤ pgd

/-- Memory after `initKernelPageTable`. -/
def Placement.tables (p : Placement) (mem : Phys) : Phys :=
  initTables (kernelAddr (4096 * p.pgd)) (kernelAddr (4096 * p.pte)) mem

/-- The addresses of the direct map are mapped as they are to be. -/
def MapsKernel (p : Placement) (mem : Phys) : Prop :=
  ∀ va, KERNEL_BASE ≤ va → va < KERNEL_TOP → walk mem p.pgd va = some ⟨va - KERNEL_BASE, true, false⟩

/-- No other address is mapped. -/
def MapsNoOther (p : Placement) (mem : Phys) : Prop :=
  ∀ va, ¬ (KERNEL_BASE ≤ va ∧ va < KERNEL_TOP) → walk mem p.pgd va = none

/-- The entries of the directory point into `KernelPTE`. -/
def PointsInside (p : Placement) (mem : Phys) : Prop :=
  ∀ i table, target (mem p.pgd i) = some table → p.pte ≤ table ∧ table < p.pte + PGD_PHY_ECOUNT

/-- The direct map is exact. -/
structure Exact (p : Placement) (mem : Phys) : Prop where
  kernel : MapsKernel p mem
  other : MapsNoOther p mem
  inside : PointsInside p mem

/-- The 32 frames behind `KernelPTE` have no present entries, and `KernelPGD` is not among them. -/
def NothingBehind (p : Placement) (mem : Phys) : Prop :=
  ∀ j, PGD_PHY_ECOUNT ≤ j → j < 256 → p.pte + j ≠ p.pgd ∧ ∀ k, target (mem (p.pte + j) k) = none

section Stores

/-- A word of memory, by its number. -/
def wordAt (mem : Phys) (w : Nat) : U32 := mem (w / 1024) (Fin.ofNat 1024 w)

theorem wordAt_frame (mem : Phys) (f : Nat) (i : Fin 1024) : wordAt mem (1024 * f + i.val) = mem f i := by
  have hlt := i.isLt
  have hframe : (1024 * f + i.val) / 1024 = f := by omega
  have hindex : Fin.ofNat 1024 (1024 * f + i.val) = i := by
    apply Fin.ext
    change (1024 * f + i.val) % 1024 = i.val
    omega
  unfold wordAt
  rw [hframe, hindex]

variable {mem : Phys} {base first n : Nat}

theorem wordAt_storeAt {w : Nat} (hw : w < 0x10000000) (mem : Phys) (word : U32) (x : Nat) :
    wordAt (storeAt mem (kernelAddr (4 * w)) word) x = if x = w then word else wordAt mem x := by
  have haddr : (kernelAddr (4 * w) - KERNEL_BASE).toNat = 4 * w := by
    unfold kernelAddr
    rw [BitVec.add_comm, BitVec.add_sub_cancel, BitVec.toNat_ofNat]
    omega
  have hframe : 4 * w / 4096 = w / 1024 := by omega
  have hindex : 4 * w / 4 = w := by omega
  unfold wordAt storeAt
  simp only [haddr, hframe, hindex]
  by_cases hx : x = w
  · rw [if_pos hx, hx, Function.update_self, Function.update_self]
  · rw [if_neg hx]
    by_cases hsame : x / 1024 = w / 1024
    · rw [hsame, Function.update_self, Function.update_of_ne]
      intro heq
      have hmod : x % 1024 = w % 1024 := congrArg Fin.val heq
      omega
    · rw [Function.update_of_ne hsame]

/-- A loop of stores writes its elements. -/
theorem wordAt_storeLoop (hend : base + first + n ≤ 0x10000000) (mem : Phys) (value : Nat → U32) (x : Nat) :
    wordAt (storeLoop mem (kernelAddr (4 * base)) value first n) x =
      if base + first ≤ x ∧ x < base + first + n then value (x - base) else wordAt mem x := by
  induction n with
  | zero =>
      rw [if_neg (by omega)]
      rfl
  | succ n ih =>
      have hplace : kernelAddr (4 * base) + BitVec.ofNat 32 (4 * (first + n)) = kernelAddr (4 * (base + first + n)) := by
        rw [kernelAddr_add, ← Nat.mul_add, Nat.add_assoc]
      have hstep : storeLoop mem (kernelAddr (4 * base)) value first (n + 1) =
          storeAt (storeLoop mem (kernelAddr (4 * base)) value first n) (kernelAddr (4 * (base + first + n)))
            (value (first + n)) := by
        rw [← hplace]
        unfold storeLoop
        rw [List.range'_concat, Nat.one_mul, List.foldl_append]
        rfl
      rw [hstep, wordAt_storeAt (by omega), ih (by omega)]
      by_cases hx : x = base + first + n
      · have hvalue : x - base = first + n := by omega
        rw [if_pos hx, if_pos (by omega), hvalue]
      · rw [if_neg hx]
        exact if_congr (by omega) rfl rfl

end Stores

section Tables

variable {p : Placement} {mem : Phys} {va : U32}

theorem pgdIndex_base : (pgdIndex KERNEL_BASE).val = 768 := by decide

/-- The words after `initKernelPageTable`. -/
theorem wordAt_tables (p : Placement) (mem : Phys) (x : Nat) :
    wordAt (p.tables mem) x =
      if 1024 * p.pte ≤ x ∧ x < 1024 * p.pte + 229376 then page2pa (x - 1024 * p.pte) ||| flags
      else if 1024 * p.pgd + 768 ≤ x ∧ x < 1024 * p.pgd + 1024 then
        page2pa (p.pte + (x - (1024 * p.pgd + 768))) ||| flags
      else if 1024 * p.pgd ≤ x ∧ x < 1024 * p.pgd + 1024 then 0 else wordAt mem x := by
  have hpgd := p.pgd_lt
  have hpte := p.pte_le
  unfold PGD_PHY_ECOUNT at hpte
  have hpgdAddr : kernelAddr (4096 * p.pgd) = kernelAddr (4 * (1024 * p.pgd)) := congrArg kernelAddr (by omega)
  have hpteAddr : kernelAddr (4096 * p.pte) = kernelAddr (4 * (1024 * p.pte)) := congrArg kernelAddr (by omega)
  unfold Placement.tables initTables setBootKernelPGD
  simp only [pgdIndex_base, PGD_ECOUNT, PGD_PHY_ECOUNT, Nat.reduceMul, Nat.reduceSub]
  rw [hpgdAddr, hpteAddr, wordAt_storeLoop (by omega), wordAt_storeLoop (by omega), wordAt_storeLoop (by omega),
    wordAt_storeLoop (by omega)]
  simp only [Nat.add_zero, Nat.add_assoc, Nat.reduceAdd]
  by_cases htable : 1024 * p.pte ≤ x ∧ x < 1024 * p.pte + 229376
  · rw [if_pos htable, if_pos htable]
    rfl
  · rw [if_neg htable, if_neg htable, if_neg htable]
    by_cases hupper : 1024 * p.pgd + 768 ≤ x ∧ x < 1024 * p.pgd + 1024
    · have hentry : kernelAddr (4 * (1024 * p.pte)) + BitVec.ofNat 32 (4 * ((x - 1024 * p.pgd - 768) * 1024)) - KERNEL_BASE =
          page2pa (p.pte + (x - (1024 * p.pgd + 768))) := by
        have hsum : 4 * (1024 * p.pte) + 4 * ((x - 1024 * p.pgd - 768) * 1024) =
            4096 * (p.pte + (x - (1024 * p.pgd + 768))) := by omega
        rw [kernelAddr_add, hsum, ← page2pa_kernelAddr, BitVec.add_sub_cancel]
      rw [if_pos hupper, if_pos hupper, hentry]
    · rw [if_neg hupper, if_neg hupper]

/-- An entry with these flags is present, writable, and not for the user. -/
theorem target_flags {frame : Nat} (h : frame < 2 ^ 20) : target (page2pa frame ||| flags) = some frame :=
  target_or_flags h (by decide) (by decide)

/-- The address of a frame has no bits for flags. -/
theorem page2pa_and_low (frame : Nat) {low : U32} (hlow : low.toNat < 2 ^ 12) : page2pa frame &&& low = 0 := by
  unfold page2pa
  ext i hi
  by_cases hlt : i < 12
  · simp [hlt]
  · have hbit : low.getLsbD i = false :=
      Nat.testBit_lt_two_pow (Nat.lt_of_lt_of_le hlow (Nat.pow_le_pow_right (by decide) (Nat.not_lt.mp hlt)))
    rw [BitVec.getElem_and, ← BitVec.getLsbD_eq_getElem (x := low), hbit, Bool.and_false]
    simp

theorem and_flags (frame : Nat) {low : U32} (hlow : low.toNat < 2 ^ 12) :
    (page2pa frame ||| flags) &&& low = flags &&& low := by
  rw [BitVec.and_or_distrib_right, page2pa_and_low frame hlow]
  exact BitVec.zero_or

/-- Two entries with these flags map a page for the kernel. -/
theorem walk_of_entries {phys : Phys} {dir table frame : Nat} (htable : table < 2 ^ 20) (hframe : frame < 2 ^ 20)
    (hpde : phys dir (pgdIndex va) = page2pa table ||| flags)
    (hpte : phys table (pteIndex va) = page2pa frame ||| flags) :
    walk phys dir va = some ⟨page2pa frame + (va &&& 0xFFF), true, false⟩ := by
  unfold walk
  simp only [hpde, target_flags htable, hpte, target_flags hframe]
  rw [and_flags table (by decide), and_flags frame (by decide), and_flags table (by decide), and_flags frame (by decide)]
  rfl

/-- The entries of the directory. -/
theorem directory_low {i : Fin 1024} (hi : i.val < 768) : p.tables mem p.pgd i = 0 := by
  have hlt := i.isLt
  have hapart := p.apart
  unfold PGD_PHY_ECOUNT at hapart
  rw [← wordAt_frame (p.tables mem), wordAt_tables, if_neg (by omega), if_neg (by omega), if_pos (by omega)]

theorem directory_high {i : Fin 1024} (hi : 768 ≤ i.val) :
    p.tables mem p.pgd i = page2pa (p.pte + (i.val - 768)) ||| flags := by
  have hlt := i.isLt
  have hapart := p.apart
  have hdiff : 1024 * p.pgd + i.val - (1024 * p.pgd + 768) = i.val - 768 := by omega
  unfold PGD_PHY_ECOUNT at hapart
  rw [← wordAt_frame (p.tables mem), wordAt_tables, if_neg (by omega), if_pos (by omega), hdiff]

/-- The entries of the tables. -/
theorem table_entry {j : Nat} (hj : j < 224) (k : Fin 1024) :
    p.tables mem (p.pte + j) k = page2pa (1024 * j + k.val) ||| flags := by
  have hlt := k.isLt
  have hdiff : 1024 * (p.pte + j) + k.val - 1024 * p.pte = 1024 * j + k.val := by omega
  rw [← wordAt_frame (p.tables mem), wordAt_tables, if_pos (by omega), hdiff]

/-- Behind the tables memory is as before, or there is the directory. -/
theorem behind_entry {j : Nat} (hj : 224 ≤ j) (hne : p.pte + j ≠ p.pgd) (k : Fin 1024) :
    p.tables mem (p.pte + j) k = mem (p.pte + j) k := by
  have hlt := k.isLt
  rw [← wordAt_frame (p.tables mem), wordAt_tables, if_neg (by omega), if_neg (by omega), if_neg (by omega), wordAt_frame]

/-- An address in its parts. -/
theorem address_split (va : U32) : va.toNat = 4194304 * (pgdIndex va).val + 4096 * (pteIndex va).val + va.toNat % 4096 := by
  have hlt := va.isLt
  change va.toNat = 4194304 * (va.toNat / 2 ^ 22 % 1024) + 4096 * (va.toNat / 2 ^ 12 % 1024) + va.toNat % 4096
  omega

theorem offset_toNat (va : U32) : (va &&& 0xFFF).toNat = va.toNat % 4096 := by
  rw [BitVec.toNat_and]
  exact Nat.and_two_pow_sub_one_eq_mod _ 12

theorem page2pa_toNat {frame : Nat} (h : frame < 2 ^ 20) : (page2pa frame).toNat = 4096 * frame := by
  unfold page2pa
  rw [BitVec.toNat_shiftLeft, BitVec.toNat_ofNat, Nat.shiftLeft_eq]
  omega

theorem maps_kernel (p : Placement) (mem : Phys) : MapsKernel p (p.tables mem) := by
  intro va hlow hhigh
  have hbase : 0xC0000000 ≤ va.toNat := BitVec.le_def.mp hlow
  have htop : va.toNat < 0xF8000000 := BitVec.lt_def.mp hhigh
  have hsplit := address_split va
  have hk := (pteIndex va).isLt
  have hpte := p.pte_le
  unfold PGD_PHY_ECOUNT at hpte
  have hj : 768 ≤ (pgdIndex va).val ∧ (pgdIndex va).val - 768 < 224 := by omega
  rw [walk_of_entries (by omega) (by omega) (directory_high hj.1) (table_entry hj.2 (pteIndex va))]
  refine congrArg (fun pa => some (Translation.mk pa true false)) (BitVec.eq_of_toNat_eq ?_)
  have hsub : (va - KERNEL_BASE).toNat = va.toNat - 0xC0000000 := BitVec.toNat_sub_of_le hlow
  rw [hsub, BitVec.toNat_add, offset_toNat, page2pa_toNat (by omega)]
  omega

theorem walk_absent {phys : Phys} {dir : Nat} (hpde : phys dir (pgdIndex va) = 0) : walk phys dir va = none := by
  unfold walk
  simp only [hpde, target_zero]

/-- The walk for an address above the direct map goes through the frames behind the tables. -/
theorem walk_behind {phys : Phys} {dir table : Nat} (htable : table < 2 ^ 20)
    (hpde : phys dir (pgdIndex va) = page2pa table ||| flags) :
    walk phys dir va = none ↔ target (phys table (pteIndex va)) = none := by
  unfold walk
  simp only [hpde, target_flags htable]
  cases target (phys table (pteIndex va)) with
  | none => exact iff_of_true rfl rfl
  | some frame => exact iff_of_false (fun h => by cases h) fun h => by cases h

/-- The address with these indices. -/
def addressOf (i k : Fin 1024) : U32 := BitVec.ofNat 32 (4194304 * i.val + 4096 * k.val)

theorem addressOf_toNat (i k : Fin 1024) : (addressOf i k).toNat = 4194304 * i.val + 4096 * k.val := by
  have hi := i.isLt
  have hk := k.isLt
  unfold addressOf
  rw [BitVec.toNat_ofNat]
  omega

theorem addressOf_indices (i k : Fin 1024) : pgdIndex (addressOf i k) = i ∧ pteIndex (addressOf i k) = k := by
  have hi := i.isLt
  have hk := k.isLt
  unfold pgdIndex pteIndex
  rw [addressOf_toNat]
  refine ⟨Fin.ext ?_, Fin.ext ?_⟩
  · change (4194304 * i.val + 4096 * k.val) / 2 ^ 22 % 1024 = i.val
    omega
  · change (4194304 * i.val + 4096 * k.val) / 2 ^ 12 % 1024 = k.val
    omega

theorem maps_no_other_iff (p : Placement) (mem : Phys) : MapsNoOther p (p.tables mem) ↔ NothingBehind p mem := by
  have hpte := p.pte_le
  unfold PGD_PHY_ECOUNT at hpte
  constructor
  · intro h j hj hj256
    unfold PGD_PHY_ECOUNT at hj
    have hnone : ∀ k, target (p.tables mem (p.pte + j) k) = none := by
      intro k
      obtain ⟨hpgd, hpteIndex⟩ := addressOf_indices (Fin.ofNat 1024 (768 + j)) k
      have hindex : (Fin.ofNat 1024 (768 + j)).val = 768 + j := Nat.mod_eq_of_lt (by omega)
      have hout : ¬ (KERNEL_BASE ≤ addressOf (Fin.ofNat 1024 (768 + j)) k ∧
          addressOf (Fin.ofNat 1024 (768 + j)) k < KERNEL_TOP) := by
        intro hin
        have htop : (addressOf (Fin.ofNat 1024 (768 + j)) k).toNat < 0xF8000000 := BitVec.lt_def.mp hin.2
        rw [addressOf_toNat, hindex] at htop
        omega
      have hentry : p.tables mem p.pgd (pgdIndex (addressOf (Fin.ofNat 1024 (768 + j)) k)) =
          page2pa (p.pte + j) ||| flags := by
        have hdiff : 768 + j - 768 = j := by omega
        rw [hpgd, directory_high (by omega), hindex, hdiff]
      have hwalk := (walk_behind (by omega) hentry).mp (h _ hout)
      rwa [hpteIndex] at hwalk
    have hne : p.pte + j ≠ p.pgd := by
      intro heq
      have hdir := hnone (Fin.ofNat 1024 768)
      rw [heq, directory_high (by decide), target_flags] at hdir
      · cases hdir
      · change p.pte + (768 % 1024 - 768) < 2 ^ 20
        omega
    refine ⟨hne, fun k => ?_⟩
    exact congrArg target (behind_entry hj hne k) ▸ hnone k
  · intro h va hout
    have hsplit := address_split va
    have hi := (pgdIndex va).isLt
    have hk := (pteIndex va).isLt
    by_cases hlow : (pgdIndex va).val < 768
    · exact walk_absent (directory_low hlow)
    · have hj : 224 ≤ (pgdIndex va).val - 768 := by
        have htop : ¬ (0xC0000000 ≤ va.toNat ∧ va.toNat < 0xF8000000) :=
          fun hin => hout ⟨BitVec.le_def.mpr hin.1, BitVec.lt_def.mpr hin.2⟩
        omega
      obtain ⟨hne, hnone⟩ := h ((pgdIndex va).val - 768) hj (by omega)
      rw [walk_behind (by omega) (directory_high (Nat.not_lt.mp hlow)), behind_entry hj hne]
      exact hnone (pteIndex va)

/-- The last entries of the directory point behind the tables. -/
theorem not_points_inside (p : Placement) (mem : Phys) : ¬ PointsInside p (p.tables mem) := by
  intro h
  have hpte := p.pte_le
  unfold PGD_PHY_ECOUNT at hpte
  have hlast : target (p.tables mem p.pgd (Fin.ofNat 1024 1023)) = some (p.pte + 255) := by
    rw [directory_high (by decide), target_flags]
    · rfl
    · change p.pte + (1023 % 1024 - 768) < 2 ^ 20
      omega
  have hinside := (h _ _ hlast).2
  unfold PGD_PHY_ECOUNT at hinside
  omega

/-- What the boot allocates is placed so. -/
theorem placement_of_boot (kernEnd : U32) {s : Machine} {b n : Nat} (h : OneBlock s.pmm b n) (hn : 225 ≤ n)
    (hb : b + 225 ≤ 0x40000) :
    ∃ p s', initKernelPageTable kernEnd s =
      .ok (kernelAddr (4096 * Placement.pgd p), kernelAddr (4096 * Placement.pte p), s') := by
  obtain ⟨s', hinit⟩ := initKernelPageTable_ok kernEnd h hn (by omega)
  refine ⟨⟨b, b + 1, by omega, ?_, .inl (Nat.lt_succ_self b)⟩, s', hinit⟩
  unfold PGD_PHY_ECOUNT
  omega

end Tables

/-- Wherever the tables are and whatever memory holds, the direct map is not exact: `[KERNEL_BASE, KERNEL_TOP)` is mapped
as it is to be, but the directory points behind `KernelPTE`, and no other address is mapped if and only if nothing there
is a present entry. -/
theorem direct_map_not_exact (p : Placement) (mem : Phys) :
    ¬ Exact p (p.tables mem) ∧ MapsKernel p (p.tables mem) ∧ (MapsNoOther p (p.tables mem) ↔ NothingBehind p mem) :=
  ⟨fun h => not_points_inside p mem h.inside, maps_kernel p mem, maps_no_other_iff p mem⟩

/-- The directory in frame 1024 and the tables behind it; another page holds what looks like an entry. -/
theorem behind_is_mapped :
    ¬ Exact ⟨1024, 1025, by decide, by decide, .inl (by decide)⟩
      (Placement.tables ⟨1024, 1025, by decide, by decide, .inl (by decide)⟩ fun _ _ => 0x12345003) ∧
    walk (Placement.tables ⟨1024, 1025, by decide, by decide, .inl (by decide)⟩ fun _ _ => 0x12345003) 1024 KERNEL_TOP =
      some ⟨0x12345000, true, false⟩ := by
  refine ⟨fun h => not_points_inside _ _ h.inside, ?_⟩
  let p : Placement := ⟨1024, 1025, by decide, by decide, .inl (by decide)⟩
  let mem : Phys := fun _ _ => 0x12345003
  have hpde : p.tables mem 1024 (pgdIndex KERNEL_TOP) = page2pa 1249 ||| flags := directory_high (by decide)
  have hpte : p.tables mem 1249 (pteIndex KERNEL_TOP) = page2pa 0x12345 ||| flags :=
    (behind_entry (j := 224) (by decide) (by decide) _).trans (by decide)
  exact (walk_of_entries (by decide) (by decide) hpde hpte).trans (by decide)

end DirectMap
end Memory
end FreakOS
