import FreakOS.Memory.DirectMap

/-!
# `VMM_map`, `VMM_unmap` and `VMM_getMapping`

The three functions of `page.c` on memory.  The kernel goes through the direct map above `KERNEL_BASE`, and below it
through the pages of the process that runs.  What the processor reads outside of the memory that the kernel has is not
known, and an argument.

* `vmmMap`, `vmmUnmap`, `vmmGetMapping` — as in the source.
* `Setting` — the directory, and the frame that `kmalloc` gives.
* `Agree` — what the functions are to do for an address.
* `map_never_agrees` — they do not, as `VMM_map` stores the kernel address of a table, and not the physical one.
* `physical_table_agrees` — with a table that is stored by its physical address they do.
-/

namespace FreakOS
namespace Memory
namespace VmmMap

open DirectMap (Phys)

/-- `PAGE_MASK`. -/
def PAGE_MASK : U32 := 0xFFFFF000

section Source

variable (user : Nat → Option Nat)

/-- The frame behind a pointer to a page; `user` has the frames of the pages outside the direct map. -/
def frameOf (ptr : U32) : Res Nat :=
  if KERNEL_BASE ≤ ptr ∧ ptr < KERNEL_TOP then .ok ((ptr - KERNEL_BASE) >>> 12).toNat
  else
    match user (ptr >>> 12).toNat with
    | none => .error .wildPointer
    | some frame => .ok frame

/-- `ptr[i]`. -/
def load (mem : Phys) (ptr : U32) (i : Fin 1024) : Res U32 := do
  let frame ← frameOf user ptr
  return mem frame i

/-- `ptr[i] = word`. -/
def store (mem : Phys) (ptr : U32) (i : Fin 1024) (word : U32) : Res Phys := do
  let frame ← frameOf user ptr
  return Function.update mem frame (Function.update (mem frame) i word)

/-- `bzero(ptr, PGSIZE)`. -/
def bzero (mem : Phys) (ptr : U32) : Res Phys := do
  let frame ← frameOf user ptr
  return Function.update mem frame fun _ => 0

/-- `VMM_map(pgd_now, vaddr, paddr, flags)`, where `kmalloc` gives `fresh`. -/
def vmmMap (fresh : U32) (pgdNow : U32) (mem : Phys) (vaddr paddr flag : U32) : Res Phys := do
  let pgd ← load user mem pgdNow (pgdIndex vaddr)
  let pte := pgd &&& PAGE_MASK
  if pte = 0 then
    let mem ← store user mem pgdNow (pgdIndex vaddr) (fresh ||| PTE_PAGE_PERSENT ||| PTE_PAGE_WRITEABLE)
    let mem ← bzero user mem fresh
    store user mem fresh (pteIndex vaddr) ((paddr &&& PAGE_MASK) ||| flag)
  else store user mem (pte + KERNEL_BASE) (pteIndex vaddr) ((paddr &&& PAGE_MASK) ||| flag)

/-- `VMM_unmap(pgd_now, vaddr)`. -/
def vmmUnmap (pgdNow : U32) (mem : Phys) (vaddr : U32) : Res Phys := do
  let pgd ← load user mem pgdNow (pgdIndex vaddr)
  let pte := pgd &&& PAGE_MASK
  if pte = 0 then return mem else store user mem (pte + KERNEL_BASE) (pteIndex vaddr) 0

/-- `VMM_getMapping(pgd_now, vaddr, &paddr)`: what is stored in `paddr`, if 1 is returned. -/
def vmmGetMapping (pgdNow : U32) (mem : Phys) (vaddr : U32) : Res (Option U32) := do
  let pgd ← load user mem pgdNow (pgdIndex vaddr)
  let pte := pgd &&& PAGE_MASK
  if pte = 0 then return none
  else
    let entry ← load user mem (pte + KERNEL_BASE) (pteIndex vaddr)
    return if entry ≠ 0 then some (entry &&& PAGE_MASK) else none

end Source

/-- The frames of the direct map. -/
def kernelFrames : Nat := 0x38000

/-- A directory in memory, the pages of the process, and the frame that `kmalloc` gives.  The process does not have the
directory among its pages, and `kmalloc` gives another frame. -/
structure Setting where
  dir : Nat
  ram : Nat
  user : Nat → Option Nat
  fresh : Nat
  ram_le : ram ≤ kernelFrames
  dir_lt : dir < ram
  fresh_lt : fresh < ram
  fresh_ne : fresh ≠ dir
  user_ne : ∀ page, user page ≠ some dir

namespace Setting

variable (s : Setting)

/-- The directory, as a pointer. -/
def pgd : U32 := page2kva s.dir

/-- What the processor reads. -/
def phys (mem absent : Phys) : Phys := fun frame => if frame < s.ram then mem frame else absent frame

/-- `VMM_map` for an address. -/
def map (mem : Phys) (va pa flag : U32) : Res Phys := vmmMap s.user (page2kva s.fresh) s.pgd mem va pa flag

/-- `VMM_unmap` for an address. -/
def unmap (mem : Phys) (va : U32) : Res Phys := vmmUnmap s.user s.pgd mem va

/-- `VMM_getMapping` for an address. -/
def getMapping (mem : Phys) (va : U32) : Res (Option U32) := vmmGetMapping s.user s.pgd mem va

end Setting

/-- The entries of a directory have been stored by `VMM_map`. -/
def Produced (mem : Phys) (dir : Nat) : Prop :=
  ∀ i, mem dir i = 0 ∨ ∃ table < kernelFrames, mem dir i = page2kva table ||| PTE_PAGE_PERSENT ||| PTE_PAGE_WRITEABLE

/-- Map, query, walk and unmap agree for an address. -/
structure Agree (s : Setting) (mem mem' : Phys) (va pa : U32) : Prop where
  query : s.getMapping mem' va = .ok (some (pa &&& PAGE_MASK))
  walk : ∀ absent, (walk (s.phys mem' absent) s.dir va).map Translation.pa = some ((pa &&& PAGE_MASK) + (va &&& 0xFFF))
  others : ∀ other : U32, other >>> 12 ≠ va >>> 12 → s.getMapping mem' other = s.getMapping mem other ∧
    ∀ absent, Memory.walk (s.phys mem' absent) s.dir other = Memory.walk (s.phys mem absent) s.dir other
  unmap : ∃ mem'', s.unmap mem' va = .ok mem'' ∧ s.getMapping mem'' va = .ok none

/-- `VMM_map` returns, and then they agree. -/
def MapAgrees (s : Setting) (mem : Phys) (va pa flag : U32) : Prop :=
  ∃ mem', s.map mem va pa flag = .ok mem' ∧ Agree s mem mem' va pa

section Addresses

variable {frame : Nat}

theorem pageMask_bit {i : Nat} (hi : i < 32) : PAGE_MASK[i] = decide (12 ≤ i) := by
  have hlow : (0xFFF : Nat).testBit i = decide (i < 12) := Nat.testBit_two_pow_sub_one 12 i
  have hmask : PAGE_MASK[i] = !(0xFFF : Nat).testBit i := BitVec.getElem_not (x := 0xFFF#32) (i := i) hi
  rw [hmask, hlow, ← decide_not]
  exact decide_eq_decide.mpr Nat.not_lt

theorem page2pa_bit (frame : Nat) {i : Nat} (hi : i < 32) (hlt : i < 12) : (page2pa frame)[i] = false := by
  unfold page2pa
  rw [BitVec.getElem_shiftLeft, decide_eq_true hlt, Bool.not_true, Bool.false_and]

/-- The frame and the flags of an entry do not overlap. -/
theorem entry_masked (frame : Nat) {flags : U32} (hflags : flags.toNat < 2 ^ 12) :
    (page2pa frame ||| flags) &&& PAGE_MASK = page2pa frame := by
  ext i hi
  rw [BitVec.getElem_and, BitVec.getElem_or, pageMask_bit hi]
  by_cases hlt : i < 12
  · rw [page2pa_bit frame hi hlt, decide_eq_false (Nat.not_le.mpr hlt), Bool.and_false]
  · obtain ⟨k, rfl⟩ := Nat.exists_eq_add_of_le (Nat.not_lt.mp hlt)
    have hflag : flags[12 + k] = false := getLsbD_of_lt_page hflags k
    rw [hflag, Bool.or_false, decide_eq_true (Nat.le_add_right 12 k), Bool.and_true]

/-- An address without its offset is that of its frame. -/
theorem address_masked (pa : U32) : pa &&& PAGE_MASK = page2pa (pa >>> 12).toNat := by
  ext i hi
  rw [BitVec.getElem_and, pageMask_bit hi]
  by_cases hlt : i < 12
  · rw [page2pa_bit _ hi hlt, decide_eq_false (Nat.not_le.mpr hlt), Bool.and_false]
  · obtain ⟨k, rfl⟩ := Nat.exists_eq_add_of_le (Nat.not_lt.mp hlt)
    unfold page2pa
    rw [BitVec.ofNat_toNat, BitVec.setWidth_eq, BitVec.getElem_shiftLeft, decide_eq_true (Nat.le_add_right 12 k),
      decide_eq_false hlt, Bool.and_true, Bool.not_false, Bool.true_and, BitVec.getElem_ushiftRight]
    rw [← BitVec.getLsbD_eq_getElem]
    congr 1
    omega

theorem address_frame (pa : U32) : (pa >>> 12).toNat < 2 ^ 20 := by
  have hlt := pa.isLt
  rw [BitVec.toNat_ushiftRight, Nat.shiftRight_eq_div_pow]
  omega

/-- The address of a frame in the direct map, as the number of a frame. -/
theorem page2kva_eq (h : frame < kernelFrames) : page2kva frame = page2pa (0xC0000 + frame) := by
  unfold kernelFrames at h
  have hbase : KERNEL_BASE.toNat = 0xC0000000 := rfl
  apply BitVec.eq_of_toNat_eq
  unfold page2kva
  rw [BitVec.toNat_add, DirectMap.page2pa_toNat (by omega), DirectMap.page2pa_toNat (by omega), hbase]
  omega

theorem page2kva_toNat (h : frame < kernelFrames) : (page2kva frame).toNat = 0xC0000000 + 4096 * frame := by
  unfold kernelFrames at h
  rw [page2kva_eq h, DirectMap.page2pa_toNat (by omega)]
  omega

/-- The direct map leads back to the frame. -/
theorem frameOf_page2kva (user : Nat → Option Nat) (h : frame < kernelFrames) :
    frameOf user (page2kva frame) = .ok frame := by
  have hnat := page2kva_toNat h
  unfold kernelFrames at h
  have hin : KERNEL_BASE ≤ page2kva frame ∧ page2kva frame < KERNEL_TOP := by
    refine ⟨BitVec.le_def.mpr ?_, BitVec.lt_def.mpr ?_⟩
    · change 0xC0000000 ≤ (page2kva frame).toNat
      omega
    · change (page2kva frame).toNat < 0xF8000000
      omega
  have hback : page2kva frame - KERNEL_BASE = page2pa frame := BitVec.add_sub_cancel _ _
  unfold frameOf
  rw [if_pos hin, hback, page2pa_shift (by omega)]

/-- With `KERNEL_BASE` added twice the address is not in the direct map. -/
theorem frameOf_twice (user : Nat → Option Nat) (h : frame < kernelFrames) :
    ∃ page, frameOf user (page2kva frame + KERNEL_BASE) =
      match user page with
      | none => .error .wildPointer
      | some frame => .ok frame := by
  have hnat := page2kva_toNat h
  unfold kernelFrames at h
  have hout : ¬ (KERNEL_BASE ≤ page2kva frame + KERNEL_BASE ∧ page2kva frame + KERNEL_BASE < KERNEL_TOP) := by
    intro hin
    have hle : 0xC0000000 ≤ (page2kva frame + KERNEL_BASE).toNat := BitVec.le_def.mp hin.1
    have hbase : KERNEL_BASE.toNat = 0xC0000000 := rfl
    rw [BitVec.toNat_add, hnat, hbase] at hle
    omega
  refine ⟨((page2kva frame + KERNEL_BASE) >>> 12).toNat, ?_⟩
  unfold frameOf
  rw [if_neg hout]

theorem load_page2kva (user : Nat → Option Nat) (h : frame < kernelFrames) (mem : Phys) (i : Fin 1024) :
    load user mem (page2kva frame) i = .ok (mem frame i) := by
  unfold load
  rw [frameOf_page2kva user h]
  rfl

theorem store_page2kva (user : Nat → Option Nat) (h : frame < kernelFrames) (mem : Phys) (i : Fin 1024) (word : U32) :
    store user mem (page2kva frame) i word =
      .ok (Function.update mem frame (Function.update (mem frame) i word)) := by
  unfold store
  rw [frameOf_page2kva user h]
  rfl

theorem bzero_page2kva (user : Nat → Option Nat) (h : frame < kernelFrames) (mem : Phys) :
    bzero user mem (page2kva frame) = .ok (Function.update mem frame fun _ => 0) := by
  unfold bzero
  rw [frameOf_page2kva user h]
  rfl

/-- An entry that `VMM_map` stores, without its flags. -/
theorem produced_masked (h : frame < kernelFrames) :
    (page2kva frame ||| PTE_PAGE_PERSENT ||| PTE_PAGE_WRITEABLE) &&& PAGE_MASK = page2kva frame := by
  rw [page2kva_eq h, BitVec.or_assoc]
  exact entry_masked _ (by decide)

end Addresses

section Maps

variable {s : Setting} {mem mem' : Phys} {va pa flag : U32}

theorem Setting.dir_kernel (s : Setting) : s.dir < kernelFrames := Nat.lt_of_lt_of_le s.dir_lt s.ram_le

theorem Setting.fresh_kernel (s : Setting) : s.fresh < kernelFrames := Nat.lt_of_lt_of_le s.fresh_lt s.ram_le

theorem zero_masked : (0 : U32) &&& PAGE_MASK = 0 := by decide

/-- With no entry for the address `VMM_map` takes a new table. -/
theorem map_new_table (hentry : mem s.dir (pgdIndex va) = 0) (pa flag : U32) :
    ∃ mem', s.map mem va pa flag = .ok mem' ∧
      mem' s.dir (pgdIndex va) = page2kva s.fresh ||| PTE_PAGE_PERSENT ||| PTE_PAGE_WRITEABLE := by
  unfold Setting.map vmmMap Setting.pgd
  rw [load_page2kva s.user s.dir_kernel, Res.ok_bind, hentry, zero_masked, if_pos rfl,
    store_page2kva s.user s.dir_kernel, Res.ok_bind, bzero_page2kva s.user s.fresh_kernel, Res.ok_bind,
    store_page2kva s.user s.fresh_kernel]
  refine ⟨_, rfl, ?_⟩
  rw [Function.update_of_ne s.fresh_ne.symm, Function.update_of_ne s.fresh_ne.symm, Function.update_self,
    Function.update_self]

/-- With an entry the functions go to the table at its address and `KERNEL_BASE`. -/
theorem map_entry {table : U32} (hentry : mem s.dir (pgdIndex va) &&& PAGE_MASK = table) (hne : table ≠ 0)
    (pa flag : U32) :
    s.map mem va pa flag = store s.user mem (table + KERNEL_BASE) (pteIndex va) ((pa &&& PAGE_MASK) ||| flag) := by
  unfold Setting.map vmmMap Setting.pgd
  rw [load_page2kva s.user s.dir_kernel, Res.ok_bind, hentry, if_neg hne]

theorem unmap_entry {table : U32} (hentry : mem s.dir (pgdIndex va) &&& PAGE_MASK = table) (hne : table ≠ 0) :
    s.unmap mem va = store s.user mem (table + KERNEL_BASE) (pteIndex va) 0 := by
  unfold Setting.unmap vmmUnmap Setting.pgd
  rw [load_page2kva s.user s.dir_kernel, Res.ok_bind, hentry, if_neg hne]

theorem getMapping_entry {table : U32} (hentry : mem s.dir (pgdIndex va) &&& PAGE_MASK = table) (hne : table ≠ 0) :
    s.getMapping mem va = do
      let entry ← load s.user mem (table + KERNEL_BASE) (pteIndex va)
      return if entry ≠ 0 then some (entry &&& PAGE_MASK) else none := by
  unfold Setting.getMapping vmmGetMapping Setting.pgd
  rw [load_page2kva s.user s.dir_kernel, Res.ok_bind, hentry, if_neg hne]

theorem page2kva_ne_zero {frame : Nat} (h : frame < kernelFrames) : page2kva frame ≠ 0 := by
  intro hzero
  have hnat := page2kva_toNat h
  rw [hzero] at hnat
  change 0 = _ at hnat
  omega

/-- A store through the kernel address of a table and `KERNEL_BASE` goes to a page of the process, or faults. -/
theorem store_behind {table : Nat} (htable : table < kernelFrames) {i : Fin 1024} {word : U32}
    (hstore : store s.user mem (page2kva table + KERNEL_BASE) i word = .ok mem') : mem' s.dir = mem s.dir := by
  obtain ⟨page, hpage⟩ := frameOf_twice s.user htable
  unfold store at hstore
  rw [hpage] at hstore
  cases huser : s.user page with
  | none =>
      rw [huser] at hstore
      cases hstore
  | some frame =>
      rw [huser] at hstore
      obtain rfl := Except.ok.inj hstore
      have hne : s.dir ≠ frame := fun heq => s.user_ne page (heq ▸ huser)
      rw [Function.update_of_ne hne]

/-- `VMM_map` leaves the kernel address of a table in the directory. -/
theorem map_leaves_produced (h : Produced mem s.dir) (hmap : s.map mem va pa flag = .ok mem') :
    ∃ table < kernelFrames,
      mem' s.dir (pgdIndex va) = page2kva table ||| PTE_PAGE_PERSENT ||| PTE_PAGE_WRITEABLE := by
  cases h (pgdIndex va) with
  | inl hzero =>
      obtain ⟨memNew, hnew, hentry⟩ := map_new_table hzero pa flag
      obtain rfl : memNew = mem' := Except.ok.inj (hnew.symm.trans hmap)
      exact ⟨s.fresh, s.fresh_kernel, hentry⟩
  | inr hprod =>
      obtain ⟨table, htable, hentry⟩ := hprod
      have hmask : mem s.dir (pgdIndex va) &&& PAGE_MASK = page2kva table := by rw [hentry, produced_masked htable]
      rw [map_entry hmask (page2kva_ne_zero htable)] at hmap
      exact ⟨table, htable, by rw [store_behind htable hmap, hentry]⟩

/-- `VMM_map` leaves the other entries of the directory as they are. -/
theorem map_others (h : Produced mem s.dir) (hmap : s.map mem va pa flag = .ok mem') {i : Fin 1024}
    (hi : i ≠ pgdIndex va) : mem' s.dir i = mem s.dir i := by
  cases h (pgdIndex va) with
  | inl hzero =>
      unfold Setting.map vmmMap Setting.pgd at hmap
      rw [load_page2kva s.user s.dir_kernel, Res.ok_bind, hzero, zero_masked, if_pos rfl,
        store_page2kva s.user s.dir_kernel, Res.ok_bind, bzero_page2kva s.user s.fresh_kernel, Res.ok_bind,
        store_page2kva s.user s.fresh_kernel] at hmap
      obtain rfl := Except.ok.inj hmap
      rw [Function.update_of_ne s.fresh_ne.symm, Function.update_of_ne s.fresh_ne.symm, Function.update_self,
        Function.update_of_ne hi]
  | inr hprod =>
      obtain ⟨table, htable, hentry⟩ := hprod
      have hmask : mem s.dir (pgdIndex va) &&& PAGE_MASK = page2kva table := by rw [hentry, produced_masked htable]
      rw [map_entry hmask (page2kva_ne_zero htable)] at hmap
      rw [store_behind htable hmap]

/-- A directory whose entries `VMM_map` has stored stays one. -/
theorem Produced.map (h : Produced mem s.dir) (hmap : s.map mem va pa flag = .ok mem') : Produced mem' s.dir := by
  intro i
  by_cases hi : i = pgdIndex va
  · rw [hi]
    exact .inr (map_leaves_produced h hmap)
  · rw [map_others h hmap hi]
    exact h i

/-- The processor takes the kernel address of a table for a physical one, and does not find it in memory. -/
theorem walk_produced {table : Nat} (htable : table < kernelFrames)
    (hentry : mem s.dir (pgdIndex va) = page2kva table ||| PTE_PAGE_PERSENT ||| PTE_PAGE_WRITEABLE) :
    walk (s.phys mem fun _ _ => 0) s.dir va = none := by
  have hram := s.ram_le
  have hpde : s.phys mem (fun _ _ => 0) s.dir (pgdIndex va) = page2pa (0xC0000 + table) ||| DirectMap.flags := by
    unfold Setting.phys
    rw [if_pos s.dir_lt, hentry, page2kva_eq htable, BitVec.or_assoc]
    rfl
  unfold kernelFrames at htable hram
  rw [DirectMap.walk_behind (by omega) hpde]
  unfold Setting.phys
  rw [if_neg (by omega)]
  exact target_zero

end Maps

/-- Whatever `VMM_map` has stored before, map, query, walk and unmap do not agree after it, as the directory has the
kernel address of the table. -/
theorem map_never_agrees (s : Setting) (mem : Phys) (h : Produced mem s.dir) (va pa flag : U32) :
    ¬ MapAgrees s mem va pa flag := by
  rintro ⟨mem', hmap, hagree⟩
  obtain ⟨table, htable, hentry⟩ := map_leaves_produced h hmap
  have hwalk := hagree.walk fun _ _ => 0
  rw [walk_produced htable hentry] at hwalk
  cases hwalk

/-- A directory with no entries, and no process. -/
def emptySetting : Setting where
  dir := 1024
  ram := 8192
  user := fun _ => none
  fresh := 1025
  ram_le := by decide
  dir_lt := by decide
  fresh_lt := by decide
  fresh_ne := by decide
  user_ne := fun _ => nofun

/-- The same directory, for a process with a page where the functions look for the table. -/
def processSetting : Setting where
  dir := 1024
  ram := 8192
  user := fun page => if page = 0x80401 then some 1030 else none
  fresh := 1026
  ram_le := by decide
  dir_lt := by decide
  fresh_lt := by decide
  fresh_ne := by decide
  user_ne := by
    intro page
    split
    · decide
    · nofun

/-- A page is mapped in the empty directory.  For the page behind it `VMM_map` returns, too, and has stored the entry in
the page of the process. -/
theorem map_never_agrees_second : ∃ mem mem', emptySetting.map (fun _ _ => 0) 0x400000 0x12345000 7 = .ok mem ∧
    processSetting.map mem 0x401000 0x12346000 7 = .ok mem' ∧ mem' 1030 1 = 0x12346007 ∧
    ¬ MapAgrees processSetting mem 0x401000 0x12346000 7 := by
  have hempty : Produced (fun _ _ => 0) emptySetting.dir := fun _ => .inl rfl
  obtain ⟨mem, hmap, hentry⟩ := @map_new_table emptySetting (fun _ _ => 0) 0x400000 rfl 0x12345000 7
  have hmask : mem processSetting.dir (pgdIndex 0x401000) &&& PAGE_MASK = page2kva emptySetting.fresh := by
    rw [← produced_masked emptySetting.fresh_kernel, ← hentry]
    rfl
  have hmap' := map_entry (s := processSetting) hmask (page2kva_ne_zero emptySetting.fresh_kernel) 0x12346000 7
  refine ⟨mem, _, hmap, hmap', ?_, map_never_agrees processSetting mem (hempty.map hmap) 0x401000 0x12346000 7⟩
  show Function.update mem 1030 _ 1030 1 = _
  rw [Function.update_self]
  exact Function.update_self _ _ _

/-- After the first mapping `VMM_getMapping` and `VMM_unmap` fault for the address, and the processor finds no page. -/
theorem query_faults :
    ∃ mem', emptySetting.map (fun _ _ => 0) 0x400000 0x12345000 7 = .ok mem' ∧
      emptySetting.getMapping mem' 0x400000 = .error .wildPointer ∧
      emptySetting.unmap mem' 0x400000 = .error .wildPointer ∧
      walk (emptySetting.phys mem' fun _ _ => 0) emptySetting.dir 0x400000 = none ∧
      ¬ MapAgrees emptySetting (fun _ _ => 0) 0x400000 0x12345000 7 := by
  obtain ⟨mem', hmap, hentry⟩ :=
    @map_new_table emptySetting (fun _ _ => 0) 0x400000 rfl 0x12345000 7
  have hmask : mem' emptySetting.dir (pgdIndex 0x400000) &&& PAGE_MASK = page2kva emptySetting.fresh := by
    rw [hentry, produced_masked emptySetting.fresh_kernel]
  have hne := page2kva_ne_zero emptySetting.fresh_kernel
  have hfault : frameOf emptySetting.user (page2kva emptySetting.fresh + KERNEL_BASE) = .error .wildPointer := by decide
  have hquery : emptySetting.getMapping mem' 0x400000 = .error .wildPointer := by
    rw [getMapping_entry hmask hne]
    unfold load
    rw [hfault]
    rfl
  refine ⟨mem', hmap, hquery, ?_, walk_produced emptySetting.fresh_kernel hentry, ?_⟩
  · rw [unmap_entry hmask hne]
    unfold store
    rw [hfault]
    rfl
  · rintro ⟨mem'', hmap', hagree⟩
    obtain rfl : mem' = mem'' := Except.ok.inj (hmap.symm.trans hmap')
    cases hquery.symm.trans hagree.query

/-! ### Tables that are stored by their physical address -/

/-- Each entry of the directory has the physical address of a table of its own. -/
structure PhysicalTables (s : Setting) (mem : Phys) (table : Fin 1024 → Option Nat) : Prop where
  absent : ∀ i, table i = none → mem s.dir i = 0
  present : ∀ i t, table i = some t → mem s.dir i = page2pa t ||| DirectMap.flags
  bounds : ∀ i t, table i = some t → 0 < t ∧ t < s.ram ∧ t ≠ s.dir
  own : ∀ i j t, table i = some t → table j = some t → i = j

/-- The entry of a page table for an address. -/
def tableEntry (mem : Phys) (table : Fin 1024 → Option Nat) (va : U32) : U32 :=
  match table (pgdIndex va) with
  | none => 0
  | some t => mem t (pteIndex va)

section Physical

variable {s : Setting} {mem mem' : Phys} {table : Fin 1024 → Option Nat} {t : Nat} {va pa flag : U32}

theorem PhysicalTables.masked (h : PhysicalTables s mem table) (ht : table (pgdIndex va) = some t) :
    mem s.dir (pgdIndex va) &&& PAGE_MASK = page2pa t := by
  rw [h.present _ t ht]
  exact entry_masked t (by decide)

theorem PhysicalTables.kernel (h : PhysicalTables s mem table) {i : Fin 1024} (ht : table i = some t) :
    t < kernelFrames :=
  Nat.lt_of_lt_of_le (h.bounds i t ht).2.1 s.ram_le

theorem PhysicalTables.ne_zero (h : PhysicalTables s mem table) {i : Fin 1024} (ht : table i = some t) :
    page2pa t ≠ 0 := by
  have hpos := (h.bounds i t ht).1
  have hlt := h.kernel ht
  unfold kernelFrames at hlt
  intro hzero
  have hnat := DirectMap.page2pa_toNat (show t < 2 ^ 20 by omega)
  rw [hzero] at hnat
  change 0 = _ at hnat
  omega

/-- `VMM_getMapping` reads the entry. -/
theorem getMapping_physical (h : PhysicalTables s mem table) (va : U32) :
    s.getMapping mem va =
      .ok (if tableEntry mem table va ≠ 0 then some (tableEntry mem table va &&& PAGE_MASK) else none) := by
  unfold tableEntry
  cases ht : table (pgdIndex va) with
  | none =>
      unfold Setting.getMapping vmmGetMapping Setting.pgd
      rw [load_page2kva s.user s.dir_kernel, Res.ok_bind, h.absent _ ht, zero_masked, if_pos rfl,
        if_neg (not_not.mpr rfl)]
      rfl
  | some t =>
      rw [getMapping_entry (h.masked ht) (h.ne_zero ht)]
      exact congrArg (fun r : Res U32 => r >>= _) (load_page2kva s.user (h.kernel ht) mem (pteIndex va))

/-- What an entry of a page table says for an address, under a directory entry that is not for the user. -/
def translation (entry va : U32) : Option Translation :=
  (target entry).map fun frame => ⟨page2pa frame + (va &&& 0xFFF), decide (entry &&& PTE_PAGE_WRITEABLE ≠ 0), false⟩

/-- The processor reads the entry. -/
theorem walk_physical (h : PhysicalTables s mem table) (absent : Phys) (va : U32) :
    walk (s.phys mem absent) s.dir va = translation (tableEntry mem table va) va := by
  have hdir : s.phys mem absent s.dir (pgdIndex va) = mem s.dir (pgdIndex va) := by
    unfold Setting.phys
    rw [if_pos s.dir_lt]
  unfold walk tableEntry translation
  cases ht : table (pgdIndex va) with
  | none => simp only [hdir, h.absent _ ht, target_zero, Option.map_none]
  | some t =>
      have hlt := h.kernel ht
      unfold kernelFrames at hlt
      have hpte : s.phys mem absent t (pteIndex va) = mem t (pteIndex va) := by
        unfold Setting.phys
        rw [if_pos (h.bounds _ t ht).2.1]
      have hwritable : (page2pa t ||| DirectMap.flags) &&& PTE_PAGE_WRITEABLE = PTE_PAGE_WRITEABLE :=
        DirectMap.and_flags t (by decide)
      have huser : (page2pa t ||| DirectMap.flags) &&& PTE_PAGE_USER = 0 := DirectMap.and_flags t (by decide)
      simp only [hdir, h.present _ t ht, DirectMap.target_flags (show t < 2 ^ 20 by omega), hpte, hwritable, huser]
      cases target (mem t (pteIndex va)) with
      | none => rfl
      | some frame =>
          have hboth : decide (PTE_PAGE_WRITEABLE ≠ 0 ∧ mem t (pteIndex va) &&& PTE_PAGE_WRITEABLE ≠ 0) =
              decide (mem t (pteIndex va) &&& PTE_PAGE_WRITEABLE ≠ 0) :=
            decide_eq_decide.mpr (and_iff_right (by decide))
          have hkernel : decide ((0 : U32) ≠ 0 ∧ mem t (pteIndex va) &&& PTE_PAGE_USER ≠ 0) = false :=
            decide_eq_false fun hc => hc.1 rfl
          rw [Option.map_some, hboth, hkernel]

/-- A store into one of the tables leaves the directory. -/
theorem PhysicalTables.update (h : PhysicalTables s mem table) {i : Fin 1024} (ht : table i = some t)
    (words : FrameWords) : PhysicalTables s (Function.update mem t words) table := by
  have hdir : Function.update mem t words s.dir = mem s.dir := Function.update_of_ne (h.bounds i t ht).2.2.symm _ _
  refine ⟨fun i hi => ?_, fun i t' hi => ?_, h.bounds, h.own⟩
  · rw [hdir, h.absent i hi]
  · rw [hdir, h.present i t' hi]

/-- Two addresses in one page have the same indices. -/
theorem same_page_iff (a b : U32) : a >>> 12 = b >>> 12 ↔ pgdIndex a = pgdIndex b ∧ pteIndex a = pteIndex b := by
  have ha := DirectMap.address_split a
  have hb := DirectMap.address_split b
  have hshift : ∀ w : U32, (w >>> 12).toNat = w.toNat / 4096 := fun w => by
    rw [BitVec.toNat_ushiftRight, Nat.shiftRight_eq_div_pow]
  have hpgd : ∀ w : U32, (pgdIndex w).val = w.toNat / 4096 / 1024 % 1024 := fun w => by
    change w.toNat / 4194304 % 1024 = _
    rw [Nat.div_div_eq_div_mul]
  have hpte : ∀ w : U32, (pteIndex w).val = w.toNat / 4096 % 1024 := fun w => rfl
  constructor
  · intro h
    have hdiv : a.toNat / 4096 = b.toNat / 4096 := by rw [← hshift, ← hshift, h]
    exact ⟨Fin.ext (by rw [hpgd, hpgd, hdiv]), Fin.ext (by rw [hpte, hpte, hdiv])⟩
  · intro h
    rw [h.1, h.2] at ha
    apply BitVec.eq_of_toNat_eq
    rw [hshift, hshift]
    omega

/-- The entry for an address after a store into the table of an address. -/
theorem tableEntry_update (h : PhysicalTables s mem table) (ht : table (pgdIndex va) = some t) (word other : U32) :
    tableEntry (Function.update mem t (Function.update (mem t) (pteIndex va) word)) table other =
      if other >>> 12 = va >>> 12 then word else tableEntry mem table other := by
  unfold tableEntry
  by_cases hsame : other >>> 12 = va >>> 12
  · obtain ⟨hpgd, hpte⟩ := (same_page_iff other va).mp hsame
    simp only [if_pos hsame, hpgd, ht, hpte, Function.update_self]
  · rw [if_neg hsame]
    cases ho : table (pgdIndex other) with
    | none => rfl
    | some t' =>
        by_cases htable : t' = t
        · subst htable
          have hpgd : pgdIndex other = pgdIndex va := h.own _ _ t' ho ht
          have hpte : pteIndex other ≠ pteIndex va := fun heq => hsame ((same_page_iff other va).mpr ⟨hpgd, heq⟩)
          simp only [Function.update_self, Function.update_of_ne hpte]
        · simp only [Function.update_of_ne htable]

/-- A store into the table of an address, as the functions make it. -/
theorem store_table (h : PhysicalTables s mem table) (ht : table (pgdIndex va) = some t) (word : U32) :
    store s.user mem (page2pa t + KERNEL_BASE) (pteIndex va) word =
      .ok (Function.update mem t (Function.update (mem t) (pteIndex va) word)) :=
  store_page2kva s.user (h.kernel ht) mem (pteIndex va) word

/-- With tables that are stored by their physical address, `VMM_map` into an existing table agrees with the others. -/
theorem physical_table_agrees (h : PhysicalTables s mem table) (ht : table (pgdIndex va) = some t) (pa : U32)
    (hflag : flag.toNat < 2 ^ 12) (hpresent : flag &&& PTE_PAGE_PERSENT ≠ 0) : MapAgrees s mem va pa flag := by
  let word : U32 := (pa &&& PAGE_MASK) ||| flag
  let mapped : Phys := Function.update mem t (Function.update (mem t) (pteIndex va) word)
  have hmap : s.map mem va pa flag = .ok mapped :=
    (map_entry (h.masked ht) (h.ne_zero ht) pa flag).trans (store_table h ht word)
  have hmapped : PhysicalTables s mapped table := h.update ht _
  have hself : tableEntry mapped table va = word := by rw [tableEntry_update h ht, if_pos rfl]
  have hother : ∀ other : U32, other >>> 12 ≠ va >>> 12 →
      tableEntry mapped table other = tableEntry mem table other := by
    intro other hne
    rw [tableEntry_update h ht, if_neg hne]
  have htarget : target word = some (pa >>> 12).toNat := by
    change target ((pa &&& PAGE_MASK) ||| flag) = _
    rw [address_masked]
    exact target_or_flags (address_frame pa) hflag hpresent
  have hword : word ≠ 0 := fun hzero => by
    rw [hzero, target_zero] at htarget
    cases htarget
  refine ⟨mapped, hmap, ?_, ?_, ?_, ?_⟩
  · rw [getMapping_physical hmapped, hself, if_pos hword]
    change Except.ok (some (((pa &&& PAGE_MASK) ||| flag) &&& PAGE_MASK)) = _
    rw [address_masked pa, entry_masked _ hflag]
  · intro absent
    rw [walk_physical hmapped, hself, translation, htarget, address_masked]
    rfl
  · intro other hne
    refine ⟨?_, fun absent => ?_⟩
    · rw [getMapping_physical hmapped, getMapping_physical h, hother other hne]
    · rw [walk_physical hmapped, walk_physical h, hother other hne]
  · refine ⟨_, (unmap_entry (hmapped.masked ht) (hmapped.ne_zero ht)).trans (store_table hmapped ht 0), ?_⟩
    rw [getMapping_physical (hmapped.update ht _), tableEntry_update hmapped ht, if_pos rfl, if_neg (not_not.mpr rfl)]

end Physical

end VmmMap
end Memory
end FreakOS
