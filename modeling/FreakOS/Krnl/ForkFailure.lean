import FreakOS.Krnl.TaskIds
import FreakOS.Memory.DupFailure

/-!
# A fork that fails

`do_fork` asks the allocator for the task structure, the kernel stack, a file table with its entries, and
the memory map with its directory, areas, page tables and frames.

* `forkRequests`, `firstRefused` — what is asked for, and what the allocator refuses first.
* `NoTrace` — the kernel is as before the call.
* `copyFiles_end`, `copyMm_end` — how the parts of `do_fork` end when a request is refused.
-/

namespace FreakOS
namespace Krnl

open Memory

/-! ### Requests -/

/-- The pages that a request is for. -/
def requestPages : Request → Nat
  | .task => pagesOf sizeofTask
  | .kstack => pagesOf KSTACKSIZE
  | .fileTable => pagesOf sizeofFileStruct
  | .file => pagesOf sizeofFile
  | .mm => pagesOf sizeofMemMap
  | .area => pagesOf sizeofVirtMemArea
  | .pgdir => 1
  | .table => 1
  | .frame => 1

/-- The first of the requests that the allocator refuses. -/
def firstRefused : Pmm → List Request → Option Request
  | _, [] => none
  | m, r :: rest =>
      match ffAllocPages m (requestPages r) with
      | .ok (some _, m) => firstRefused m rest
      | _ => some r

/-- The child gets a file table of its own. -/
def OwnFiles (current : Task) (cloneFlags : U32) : Prop :=
  current.files ≠ NULL ∧ cloneFlags &&& CLONE_FILES = 0

instance (current : Task) (cloneFlags : U32) : Decidable (OwnFiles current cloneFlags) :=
  inferInstanceAs (Decidable (_ ∧ _))

/-- The requests of `copy_files`. -/
def filesRequests (k : Kernel) (current : Task) (cloneFlags : U32) : List Request :=
  if OwnFiles current cloneFlags then
    match k.files current.files with
    | some files => .fileTable :: files.fileList.map fun _ => .file
    | none => []
  else []

/-- The requests of `copy_mm`. -/
def mmRequests (k : Kernel) (current : Task) (cloneFlags : U32) : List Request :=
  if current.mm ≠ NULL ∧ cloneFlags &&& CLONE_VM = 0 then
    match k.mms current.mm with
    | some mm => .mm :: .pgdir :: dupRequests k.machine mm
    | none => []
  else []

/-- The requests of `do_fork`, in order. -/
def forkRequests (k : Kernel) (current : Task) (cloneFlags : U32) : List Request :=
  .task :: .kstack :: (filesRequests k current cloneFlags ++ mmRequests k current cloneFlags)

/-- Requests for one page each are refused once the free pages are used up. -/
theorem firstRefused_eq {lo hi : Nat} {m : Pmm} (h : m.Inv lo hi) (requests : List Request)
    (hone : ∀ r ∈ requests, requestPages r = 1) :
    firstRefused m requests = requests[m.freePageCount]? := by
  induction requests generalizing m with
  | nil => rfl
  | cons r rest ih =>
      unfold firstRefused
      rw [hone r (by simp)]
      have hcount := allocPhyPages_count (s := ⟨m, 0, fun _ _ => 0, 0⟩) h
      unfold allocPhyPages at hcount
      rcases hcount with ⟨hzero, hcall⟩ | ⟨p, m', hcall, hcount⟩
      · obtain ⟨⟨page, m'⟩, halloc, hpair⟩ := Res.bind_eq_ok.mp hcall
        obtain ⟨rfl, -⟩ := Prod.mk.inj (Except.ok.inj hpair)
        rw [show ffAllocPages m 1 = _ from halloc, show m.freePageCount = 0 from hzero]
        rfl
      · obtain ⟨⟨page, m''⟩, halloc, hpair⟩ := Res.bind_eq_ok.mp hcall
        obtain ⟨rfl, hm⟩ := Prod.mk.inj (Except.ok.inj hpair)
        obtain rfl : m'' = m' := congrArg Machine.pmm hm
        rw [show ffAllocPages m 1 = _ from halloc, show m.freePageCount = m''.freePageCount + 1 from hcount,
          List.getElem?_cons_succ]
        exact ih (ffAllocPages_spec h halloc).inv fun r hr => hone r (by simp [hr])

theorem itemRequests_one (items : List DupItem) (slots : List (Fin 1024)) :
    ∀ r ∈ itemRequests items slots, requestPages r = 1 := by
  induction items generalizing slots with
  | nil => simp [itemRequests]
  | cons item rest ih =>
      cases item with
      | area =>
          intro r hr
          rcases List.mem_cons.mp hr with rfl | hr
          · rfl
          · exact ih slots r hr
      | page i =>
          intro r hr
          by_cases hi : i ∈ slots
          · rw [itemRequests_old hi] at hr
            rcases List.mem_cons.mp hr with rfl | hr
            · rfl
            · exact ih slots r hr
          · rw [itemRequests_new hi] at hr
            rcases List.mem_cons.mp hr with rfl | hr
            · rfl
            rcases List.mem_cons.mp hr with rfl | hr
            · rfl
            · exact ih _ r hr

/-- Behind the kernel stack, everything is for one page. -/
theorem requests_one (k : Kernel) (current : Task) (cloneFlags : U32) :
    ∀ r ∈ filesRequests k current cloneFlags ++ mmRequests k current cloneFlags, requestPages r = 1 := by
  intro r hr
  rcases List.mem_append.mp hr with hr | hr
  · unfold filesRequests at hr
    split at hr
    · split at hr
      · rcases List.mem_cons.mp hr with rfl | hr
        · rfl
        · obtain ⟨f, -, rfl⟩ := List.mem_map.mp hr
          rfl
      · simp at hr
    · simp at hr
  · unfold mmRequests at hr
    split at hr
    · split at hr
      · rcases List.mem_cons.mp hr with rfl | hr
        · rfl
        rcases List.mem_cons.mp hr with rfl | hr
        · rfl
        · exact itemRequests_one _ _ r hr
      · simp at hr
    · simp at hr

/-! ### The state before the call -/

/-- The kernel is as it was. -/
structure NoTrace (k k' : Kernel) : Prop where
  tasks : k'.tasks = k.tasks
  taskList : k'.taskList = k.taskList
  taskCount : k'.taskCount = k.taskCount
  mms : k'.mms = k.mms
  files : k'.files = k.files
  inodes : k'.inodes = k.inodes
  /-- Whatever is in a page that was allocated is there still, page tables among it. -/
  mem : ∀ x, ¬ k.machine.pmm.Free x → k'.machine.mem x = k.machine.mem x
  allocated : ∀ x, k'.machine.pmm.Free x ↔ k.machine.pmm.Free x

/-- A kernel whose structures are in pages that are in use, with the running task `current`. -/
structure ForkReady (lo hi : Nat) (k : Kernel) (current : Task) : Prop where
  paged : Paged lo hi k.machine {d | ∃ a m, k.mms a = some m ∧ d = m.dir}
  /-- Every page has an address in the kernel. -/
  kernel : hi ≤ 2 ^ 18
  running : k.tasks k.currentTask = some current
  tasks : ∀ a, k.tasks a ≠ none → ¬ k.machine.pmm.Free (pageOf a)
  mms : ∀ a, k.mms a ≠ none → ¬ k.machine.pmm.Free (pageOf a)
  files : ∀ a, k.files a ≠ none → ¬ k.machine.pmm.Free (pageOf a)
  mm : current.mm ≠ NULL → k.mms current.mm ≠ none
  table : current.files ≠ NULL → k.files current.files ≠ none
  areas : ∀ a m, k.mms a = some m → m.Inv ∧ ∀ vma ∈ m.vmaList, UserRange vma.vmStart vma.vmEnd

/-! ### Blocks -/

section Blocks

variable {lo hi : Nat} {s₀ s s' : Machine} {role₀ role role' : Nat → Role} {dirs own : Set Nat}

theorem page2kva_toNat {p : Nat} (hp : p < 2 ^ 18) : (page2kva p).toNat = KERNEL_BASE.toNat + p * 2 ^ 12 := by
  have hbase : KERNEL_BASE.toNat = 0xC0000000 := by decide
  have hpa : (page2pa p).toNat = p * 2 ^ 12 := by
    simp only [page2pa, BitVec.toNat_shiftLeft, BitVec.toNat_ofNat, Nat.shiftLeft_eq]
    omega
  unfold page2kva
  rw [BitVec.toNat_add, hpa, hbase]
  omega

theorem KERNEL_BASE_le_page2kva {p : Nat} (hp : p < 2 ^ 18) : KERNEL_BASE ≤ page2kva p := by
  rw [BitVec.le_def, page2kva_toNat hp]
  exact Nat.le_add_right _ _

theorem page2kva_ne_NULL {p : Nat} (hp : p < 2 ^ 18) : page2kva p ≠ NULL := by
  intro hc
  have hle := BitVec.le_def.mp (KERNEL_BASE_le_page2kva hp)
  rw [hc] at hle
  exact absurd hle (by decide)
/-- `addr` is the address of a block that the kernel can use. -/
structure BlockAddr (lo hi : Nat) (addr : U32) : Prop where
  page : page2kva (pageOf addr) = addr
  lo_le : lo ≤ pageOf addr
  lt_hi : pageOf addr < hi
  ne_NULL : addr ≠ NULL
  kernel : KERNEL_BASE ≤ addr

/-- A block that the allocator grants. -/
theorem alloc_granted (hkva : hi ≤ 2 ^ 18) {k : Kernel}
    (h : Footprint lo hi s₀ role₀ dirs own k.machine role) (bytes : U32) (hpos : 0 < pagesOf bytes) {p : Nat}
    {m : Pmm} (hgrant : ffAllocPages k.machine.pmm (pagesOf bytes) = .ok (some p, m)) :
    ∃ addr role', k.alloc bytes = .ok (addr, { k with machine := { k.machine with pmm := m } }) ∧
      BlockAddr lo hi addr ∧
      (∀ x ∈ Set.Ico (pageOf addr) (pageOf addr + pagesOf bytes), role x = .free) ∧
      Footprint lo hi s₀ role₀ dirs (own ∪ Set.Ico (pageOf addr) (pageOf addr + pagesOf bytes))
        { k.machine with pmm := m } role' := by
  have hcall : kmalloc k.machine bytes = .ok (page2kva p, { k.machine with pmm := m }) := by
    unfold kmalloc allocPhyPages
    rw [hgrant]
    rfl
  have hinside := (ffAllocPages_spec h.frames.pmm hgrant).inside
  obtain ⟨q, role', haddr, -, hblock, hfoot, -, -, -⟩ := h.kmalloc hpos hcall
  have hlt : p < 2 ^ 18 := by omega
  have hpage : pageOf (page2kva p) = p := pageOf_page2kva (by omega)
  obtain rfl : p = q := by
    rw [← hpage, haddr]
    refine pageOf_page2kva ?_
    have := h.frames.lt (f := q) (by simp [hblock q ⟨le_rfl, by omega⟩])
    exact this
  refine ⟨page2kva p, role', ?_, ⟨by rw [hpage], ?_, ?_, page2kva_ne_NULL hlt, KERNEL_BASE_le_page2kva hlt⟩, ?_, ?_⟩
  · unfold Kernel.alloc
    rw [hcall]
    rfl
  all_goals rw [hpage]
  · exact hinside.1
  · omega
  · exact hblock
  · exact hfoot

/-- A block of one page. -/
theorem alloc_one (hkva : hi ≤ 2 ^ 18) {k : Kernel} (h : Footprint lo hi s₀ role₀ dirs own k.machine role)
    (bytes : U32) (hone : pagesOf bytes = 1) :
    (k.machine.pmm.freePageCount = 0 ∧ k.alloc bytes = .error .wildPointer) ∨
      ∃ addr m role', k.alloc bytes = .ok (addr, { k with machine := { k.machine with pmm := m } }) ∧
        BlockAddr lo hi addr ∧ role (pageOf addr) = .free ∧
        Footprint lo hi s₀ role₀ dirs (own ∪ {pageOf addr}) { k.machine with pmm := m } role' ∧
        k.machine.pmm.freePageCount = m.freePageCount + 1 := by
  rcases allocPhyPages_count h.frames.pmm with ⟨hzero, hcall⟩ | ⟨p, m, hcall, hcount⟩
  · left
    refine ⟨hzero, ?_⟩
    unfold Kernel.alloc kmalloc
    rw [hone, hcall]
    rfl
  · right
    obtain ⟨⟨page, m'⟩, halloc, hpair⟩ := Res.bind_eq_ok.mp hcall
    obtain ⟨rfl, hm⟩ := Prod.mk.inj (Except.ok.inj hpair)
    obtain rfl : m' = m := congrArg Machine.pmm hm
    obtain ⟨addr, role', hgranted, haddr, hblock, hfoot⟩ := alloc_granted hkva h bytes (by omega)
      (by rw [hone]; exact halloc)
    have hIco : Set.Ico (pageOf addr) (pageOf addr + pagesOf bytes) = {pageOf addr} := by
      rw [hone]
      exact Ico_one _
    rw [hIco] at hblock hfoot
    exact ⟨addr, m', role', hgranted, haddr, hblock _ rfl, hfoot, hcount⟩

end Blocks

/-! ### File tables -/

section Files

variable {lo hi : Nat} {s₀ : Machine} {role₀ role : Nat → Role} {own : Set Nat}

/-- The loop of `files_dup`, with the requests `tail` to follow. -/
theorem filesDupLoop_end (hkva : hi ≤ 2 ^ 18) (files : List File) {k : Kernel} {copies : List File}
    (h : Footprint lo hi s₀ role₀ ∅ own k.machine role) {tail : List Request} {goal : Option Request}
    (hgoal : (files.map (fun _ => Request.file) ++ tail)[k.machine.pmm.freePageCount]? = goal) :
    (∃ e, filesDupLoop files k copies = .error e ∧ goal = some .file) ∨
      ∃ list s' i' own' role', filesDupLoop files k copies = .ok (list, { k with machine := s', inodes := i' }) ∧
        Footprint lo hi s₀ role₀ ∅ own' s' role' ∧ own ⊆ own' ∧ tail[s'.pmm.freePageCount]? = goal := by
  induction files generalizing k copies own role with
  | nil => exact Or.inr ⟨copies, k.machine, k.inodes, own, role, rfl, h, subset_rfl, hgoal⟩
  | cons f rest ih =>
      unfold filesDupLoop fileAllocInit
      rcases alloc_one hkva h sizeofFile rfl with
        ⟨hzero, hcall⟩ | ⟨addr, m, role', hcall, haddr, -, hfoot, hcount⟩
      · left
        rw [hcall, ← hgoal, hzero]
        exact ⟨_, rfl, rfl⟩
      · rw [hcall, Res.ok_bind]
        simp only [haddr.ne_NULL, if_false]
        rw [hcount, List.map_cons, List.cons_append, List.getElem?_cons_succ] at hgoal
        unfold fileDup
        simp only [pure, Except.pure, Res.ok_bind]
        generalize hk' : ({ k with machine := { k.machine with pmm := m }, inodes := _ } : Kernel) = k'
        have hmachine : k'.machine = { k.machine with pmm := m } := by rw [← hk']
        rw [← hmachine] at hfoot
        rw [show m = k'.machine.pmm by rw [hmachine]] at hgoal
        rcases ih hfoot hgoal with ⟨e, he, hgoal'⟩ | ⟨list, s', i', own', role'', hok, hfoot', hsub, hgoal'⟩
        · exact Or.inl ⟨e, he, hgoal'⟩
        · refine Or.inr ⟨list, s', i', own', role'', ?_, hfoot', fun x hx => hsub (Or.inl hx), hgoal'⟩
          rw [hok, ← hk']

/-- `files_dup` into a table that has just been made. -/
theorem filesDup_end (hkva : hi ≤ 2 ^ 18) {k : Kernel} {toFiles fromFiles : U32} (hto : toFiles ≠ NULL)
    (hfrom : fromFiles ≠ NULL) {ff : FileStruct} (hff : k.files fromFiles = some ff)
    (htf : k.files toFiles = some ⟨NULL, [], 0, 0⟩)
    (h : Footprint lo hi s₀ role₀ ∅ own k.machine role) {tail : List Request} {goal : Option Request}
    (hgoal : (ff.fileList.map (fun _ => Request.file) ++ tail)[k.machine.pmm.freePageCount]? = goal) :
    (∃ e, filesDup k toFiles fromFiles = .error e ∧ goal = some .file) ∨
      ∃ table s' i' own' role', filesDup k toFiles fromFiles =
          .ok (0, ({ k with machine := s', inodes := i' } : Kernel).setFileStruct toFiles table) ∧
        Footprint lo hi s₀ role₀ ∅ own' s' role' ∧ own ⊆ own' ∧ tail[s'.pmm.freePageCount]? = goal := by
  have hpanic : panicIf (toFiles = NULL ∨ fromFiles = NULL) "files dup error" = .ok () :=
    panicIf_eq_ok.mpr (not_or.mpr ⟨hto, hfrom⟩)
  have href : panicIf ((⟨NULL, [], 0, 0⟩ : FileStruct).ref ≠ 0) "files.ref is not 0!" = .ok () :=
    panicIf_eq_ok.mpr (not_not.mpr rfl)
  unfold filesDup Kernel.fileStruct
  rw [hpanic, Res.ok_bind, htf, hff]
  simp only [Res.ok_bind]
  rw [href, Res.ok_bind]
  -- The inode of the working directory may have one reference more.
  generalize hk' : (if ff.pwd ≠ NULL then _ else k) = k'
  obtain ⟨i', hi'⟩ : ∃ i', k' = { k with inodes := i' } := by
    rw [← hk']
    split
    · exact ⟨_, rfl⟩
    · exact ⟨k.inodes, rfl⟩
  have hmachine : k'.machine = k.machine := by rw [hi']
  rw [← hmachine] at h hgoal
  rcases filesDupLoop_end hkva ff.fileList h hgoal with
    ⟨e, he, hgoal'⟩ | ⟨list, s', i'', own', role', hok, hfoot, hsub, hgoal'⟩
  · left
    exact ⟨e, by rw [he]; rfl, hgoal'⟩
  · right
    refine ⟨⟨ff.pwd, list, 0, ff.fileNextId⟩, s', i'', own', role', ?_, hfoot, hsub, hgoal'⟩
    rw [hok, Res.ok_bind, hi']
    rfl

/-- The kernel `k` while `do_fork` is at work: the task structure `t` at `task` is there, and the machine, the
file tables and the inode counters may have changed. -/
def midway (k : Kernel) (task : U32) (t : Task) (s : Machine) (files : U32 → Option FileStruct)
    (inodes : U32 → INodeCount) : Kernel :=
  { k with
    machine := s
    tasks := Function.update k.tasks task (some t)
    files := files
    inodes := inodes }

section Midway

variable {k : Kernel} {task : U32} {t : Task} {s : Machine} {files : U32 → Option FileStruct}
  {inodes : U32 → INodeCount}

theorem midway_task : (midway k task t s files inodes).task task = .ok t :=
  task_eq_ok.mpr (Function.update_self ..)

theorem midway_current {current : Task} (hrunning : k.tasks k.currentTask = some current)
    (hne : k.currentTask ≠ task) :
    (midway k task t s files inodes).task (midway k task t s files inodes).currentTask = .ok current := by
  refine task_eq_ok.mpr ?_
  show Function.update k.tasks task (some t) k.currentTask = some current
  rw [Function.update_of_ne hne, hrunning]

theorem midway_modifyTask (g : Task → Task) :
    (midway k task t s files inodes).modifyTask task g = .ok (midway k task (g t) s files inodes) := by
  unfold Kernel.modifyTask
  rw [midway_task, Res.ok_bind]
  unfold midway Kernel.setTask
  simp only [Function.update_idem]
  rfl

theorem midway_alloc {bytes addr : U32} {m : Pmm}
    (hcall : ({ k with machine := s } : Kernel).alloc bytes = .ok (addr, { k with machine := { s with pmm := m } })) :
    (midway k task t s files inodes).alloc bytes =
      .ok (addr, midway k task t { s with pmm := m } files inodes) := by
  obtain ⟨s', halloc, hs'⟩ := alloc_eq_ok hcall
  have : s' = { s with pmm := m } := (congrArg Kernel.machine hs').symm
  unfold Kernel.alloc
  rw [show (midway k task t s files inodes).machine = s from rfl, show kmalloc s bytes = _ from halloc, this]
  rfl

theorem midway_alloc_error {bytes : U32} {e : Fault}
    (hcall : ({ k with machine := s } : Kernel).alloc bytes = .error e) :
    (midway k task t s files inodes).alloc bytes = .error e := by
  unfold Kernel.alloc at hcall ⊢
  rw [show (midway k task t s files inodes).machine = s from rfl]
  cases hkmalloc : kmalloc s bytes with
  | ok r =>
      rw [hkmalloc] at hcall
      simp [bind, Except.bind, pure, Except.pure] at hcall
  | error e' =>
      rw [hkmalloc] at hcall
      obtain rfl := Except.error.inj hcall
      rfl

theorem midway_destroyMm {s₁ s₂ : Machine} {addr : U32} {m : MemMap} (hnone : k.mms addr = none)
    (hcall : mmDestroy s₁ addr m = .ok (none, s₂)) :
    destroyMm { midway k task t s files inodes with machine := s₁ } addr m =
      .ok (midway k task t s₂ files inodes) := by
  have hmms : Function.update k.mms addr none = k.mms := by rw [← hnone, Function.update_eq_self]
  unfold destroyMm
  dsimp only
  rw [hcall, Res.ok_bind]
  rw [show (midway k task t s files inodes).mms = k.mms from rfl, hmms]
  rfl

end Midway

/-- How `copy_files` ends, with the requests `tail` to follow. -/
inductive FilesEnd (lo hi : Nat) (s₀ : Machine) (role₀ : Nat → Role) (own : Set Nat) (k : Kernel) (task : U32)
    (t current : Task) (cloneFlags : U32) (tail : List Request) (goal : Option Request) :
    Res (Int × Kernel) → Prop
  | stopped (e : Fault) (hgoal : goal = some .fileTable ∨ goal = some .file) :
      FilesEnd lo hi s₀ role₀ own k task t current cloneFlags tail goal (.error e)
  | noTable {s : Machine} (hfiles : current.files = NULL) (hgoal : tail[s.pmm.freePageCount]? = goal)
      {role : Nat → Role} (hfoot : Footprint lo hi s₀ role₀ ∅ own s role) :
      FilesEnd lo hi s₀ role₀ own k task t current cloneFlags tail goal
        (.ok (0, midway k task t s k.files k.inodes))
  | shared {s : Machine} {f : FileStruct} (hfiles : current.files ≠ NULL)
      (hflag : cloneFlags &&& CLONE_FILES ≠ 0) (hf : k.files current.files = some f)
      (hgoal : tail[s.pmm.freePageCount]? = goal) {role : Nat → Role}
      (hfoot : Footprint lo hi s₀ role₀ ∅ own s role) :
      FilesEnd lo hi s₀ role₀ own k task t current cloneFlags tail goal
        (.ok (0, midway k task { t with files := current.files } s
          (Function.update k.files current.files (some { f with ref := f.ref + 1 })) k.inodes))
  | copied {s : Machine} {addr : U32} {own' : Set Nat} {tables : U32 → Option FileStruct}
      {inodes : U32 → INodeCount} (hown : OwnFiles current cloneFlags) (haddr : BlockAddr lo hi addr)
      (hmem : pageOf addr ∈ own')
      (hnew : pageOf addr ∉ own) (htable : tables addr ≠ none) (hgoal : tail[s.pmm.freePageCount]? = goal)
      (hsub : own ⊆ own') {role : Nat → Role} (hfoot : Footprint lo hi s₀ role₀ ∅ own' s role) :
      FilesEnd lo hi s₀ role₀ own k task t current cloneFlags tail goal
        (.ok (0, midway k task { t with files := addr } s tables inodes))

/-- `copy_files` on the way through `do_fork`. -/
theorem copyFiles_end {lo hi : Nat} {k : Kernel} {current : Task} (hready : ForkReady lo hi k current)
    {role₀ role : Nat → Role} {own : Set Nat} {task : U32} {t : Task} {s : Machine}
    (hne : k.currentTask ≠ task) (h : Footprint lo hi k.machine role₀ ∅ own s role)
    (hused : ∀ x, k.machine.pmm.Free x ↔ role₀ x = .free) {cloneFlags : U32} {tail : List Request}
    {goal : Option Request}
    (hgoal : (filesRequests k current cloneFlags ++ tail)[s.pmm.freePageCount]? = goal) :
    FilesEnd lo hi k.machine role₀ own k task t current cloneFlags tail goal
      (copyFiles (midway k task t s k.files k.inodes) cloneFlags task) := by
  unfold copyFiles
  rw [midway_current hready.running hne, Res.ok_bind]
  unfold filesRequests at hgoal
  by_cases hnull : current.files = NULL
  · dsimp only
    rw [if_pos hnull]
    rw [if_neg (fun hc => hc.1 hnull), List.nil_append] at hgoal
    exact .noTable hnull hgoal h
  obtain ⟨f, hf⟩ := Option.ne_none_iff_exists'.mp (hready.table hnull)
  by_cases hflag : cloneFlags &&& CLONE_FILES = 0
  · dsimp only
    rw [if_neg hnull, if_neg (not_not.mpr hflag)]
    rw [if_pos ⟨hnull, hflag⟩, hf] at hgoal
    dsimp only at hgoal
    unfold filesCreate
    rcases alloc_one hready.kernel (k := { k with machine := s }) h sizeofFileStruct rfl with
      ⟨hzero, hcall⟩ | ⟨addr, m, role', hcall, haddr, hfree, hfoot, hcount⟩
    · rw [midway_alloc_error hcall]
      refine .stopped _ (Or.inl ?_)
      rw [← hgoal, hzero]
      rfl
    rw [midway_alloc hcall, Res.ok_bind]
    simp only [haddr.ne_NULL, if_false, pure, Except.pure, Res.ok_bind]
    have hnew := h.free_of_free hfree
    have hold : current.files ≠ addr := by
      rintro rfl
      refine hready.files current.files (by simp [hf]) ?_
      rw [hused]
      exact hnew
    rw [show (midway k task t { s with pmm := m } k.files k.inodes).setFileStruct addr ⟨NULL, [], 0, 0⟩ =
      midway k task t { s with pmm := m } (Function.update k.files addr (some ⟨NULL, [], 0, 0⟩)) k.inodes from rfl]
    rw [hcount, List.cons_append, List.getElem?_cons_succ] at hgoal
    rcases filesDup_end hready.kernel (k := midway k task t { s with pmm := m }
        (Function.update k.files addr (some ⟨NULL, [], 0, 0⟩)) k.inodes) haddr.ne_NULL hnull
        ((Function.update_of_ne hold _ _).trans hf) (Function.update_self ..) hfoot hgoal with
      ⟨e, he, hgoal'⟩ | ⟨table, s', i', own', role'', hok, hfoot', hsub, hgoal'⟩
    · rw [he]
      exact .stopped e (Or.inr hgoal')
    · rw [hok, Res.ok_bind]
      dsimp only
      rw [if_neg (not_not.mpr rfl)]
      have hset : (({ midway k task t { s with pmm := m } (Function.update k.files addr (some ⟨NULL, [], 0, 0⟩))
            k.inodes with machine := s', inodes := i' } : Kernel).setFileStruct addr table) =
          midway k task t s' (Function.update k.files addr (some table)) i' := by
        unfold midway Kernel.setFileStruct
        simp only [Function.update_idem]
      rw [hset]
      unfold installFiles filesRefInc Kernel.fileStruct
      rw [show (midway k task t s' (Function.update k.files addr (some table)) i').files addr = some table
        from Function.update_self ..]
      simp only [pure, Except.pure, Res.ok_bind]
      rw [show (midway k task t s' (Function.update k.files addr (some table)) i').setFileStruct addr
          { table with ref := table.ref + 1 } = midway k task t s' (Function.update
            (Function.update k.files addr (some table)) addr (some { table with ref := table.ref + 1 })) i'
        from rfl, midway_modifyTask, Res.ok_bind]
      refine .copied ⟨hnull, hflag⟩ haddr (hsub (Or.inr rfl)) ?_ ?_ hgoal' (fun x hx => hsub (Or.inl hx)) hfoot'
      · intro hc
        have := h.role_of_own hc
        simp [hfree] at this
      · rw [Function.update_self]
        simp
  · dsimp only
    rw [if_neg hnull, if_pos hflag]
    rw [if_neg (fun hc => hflag hc.2), List.nil_append] at hgoal
    unfold installFiles filesRefInc Kernel.fileStruct
    rw [show (midway k task t s k.files k.inodes).files current.files = some f from hf]
    simp only [pure, Except.pure, Res.ok_bind]
    rw [show (midway k task t s k.files k.inodes).setFileStruct current.files { f with ref := f.ref + 1 } =
      midway k task t s (Function.update k.files current.files (some { f with ref := f.ref + 1 })) k.inodes
      from rfl, midway_modifyTask, Res.ok_bind]
    exact .shared hnull hflag hf hgoal h

end Files

/-! ### Memory maps -/

section Maps

variable {lo hi : Nat} {s₀ s : Machine} {role₀ role : Nat → Role} {dirs own : Set Nat}

theorem setupPgdir_count (h : Frames lo hi s role) :
    (s.pmm.freePageCount = 0 ∧ setupPgdir s = .ok (none, s)) ∨
      ∃ d s', setupPgdir s = .ok (some d, s') ∧ s.pmm.freePageCount = s'.pmm.freePageCount + 1 := by
  unfold setupPgdir
  rcases allocPhyPages_count h.pmm with ⟨hzero, hcall⟩ | ⟨p, m, hcall, hcount⟩
  · left
    rw [hcall]
    exact ⟨hzero, rfl⟩
  · right
    rcases allocPhyPages_frames h with hnone | ⟨p', m', hcall', hp, -⟩
    · rw [hcall] at hnone
      simp at hnone
    · obtain ⟨hpp, -⟩ := Prod.mk.inj (Except.ok.inj (hcall.symm.trans hcall'))
      obtain rfl := Option.some.inj hpp
      have hframe : pa2kva ({ s with pmm := m } : Machine) (page2pa p) = .ok p :=
        pa2kva_page2pa h (by simp [hp]) rfl
      rw [hcall, Res.ok_bind]
      dsimp only
      rw [hframe, Res.ok_bind]
      exact ⟨p, _, rfl, hcount⟩

/-- A map that `copy_mm` has just made, with its directory. -/
theorem filling_new {p d : Nat} (hd : d < 2 ^ 18)
    (h : Footprint lo hi s₀ role₀ dirs own s role) (hdir : d ∈ dirs) (hown : p ∈ own)
    (hempty : ∀ i : Fin 1024, i.val < 768 → s.entry d i = none) :
    Filling lo hi s₀ role₀ dirs own p { mmCreate with pgdir := page2kva d } s := by
  have hdd : MemMap.dir { mmCreate with pgdir := page2kva d } = d := by
    unfold MemMap.dir
    exact shift_page2kva (by omega)
  refine ⟨⟨role, h⟩, by rwa [hdd], rfl, ⟨mmCreate_inv.sorted, rfl, by simp [mmCreate]⟩, ⟨?_, ?_, ?_⟩,
    ⟨hown, ?_, List.nodup_nil, by simp [mmCreate]⟩⟩
  · simp [mmCreate]
  · intro i j hi' hsome
    rw [hdd, look_of_entry_none (hempty i hi')] at hsome
    exact absurd target_zero hsome
  · intro i hi' hsome
    rw [hdd] at hsome
    exact absurd (hempty i hi') hsome
  · simp [mmCreate]

/-- What `copy_mm` does with a map that it could not fill. -/
theorem discard (h₀ : Frames lo hi s₀ role₀) {addr : U32} (haddr : BlockAddr lo hi addr) {mm : MemMap}
    (h : Filling lo hi s₀ role₀ dirs own (pageOf addr) mm s) (hpgdir : KERNEL_BASE ≤ mm.pgdir) :
    ∃ s₁ s₂ s₃ role', exitMmap s (some mm) = .ok s₁ ∧ putPgdir s₁ mm = .ok s₂ ∧
      mmDestroy s₂ addr mm = .ok (none, s₃) ∧
      Footprint lo hi s₀ role₀ (dirs \ {mm.dir}) ((own \ areaPages mm.vmaList) \ {pageOf addr}) s₃ role' := by
  obtain ⟨role, hfoot⟩ := h.footprint
  obtain ⟨s₁, role₁, hexit, hfoot₁, hempty⟩ := hfoot.exitMmap h₀ h.dir h.ref h.contained
  obtain ⟨s₂, role₂, hput, hfoot₂⟩ := hfoot₁.putPgdir h.dir hpgdir hempty
  obtain ⟨s₃, role₃, hdestroy, hfoot₃⟩ := hfoot₂.mmDestroy h₀ h.ref.le h.blocks
  rw [haddr.page] at hdestroy
  rw [← Set.sdiff_sdiff] at hfoot₃
  exact ⟨s₁, s₂, s₃, role₃, hexit, hput, hdestroy, hfoot₃⟩

/-- `copy_mm` on the way through `do_fork`, when a request of it is refused. -/
theorem copyMm_end {k : Kernel} {current : Task} (hready : ForkReady lo hi k current)
    (h₀ : Frames lo hi k.machine role₀) (hdirs : ∀ a m, k.mms a = some m → role₀ m.dir = .dir)
    {task : U32} {t : Task} (hne : k.currentTask ≠ task) {files : U32 → Option FileStruct}
    {inodes : U32 → INodeCount} (h : Footprint lo hi k.machine role₀ ∅ own s role) {cloneFlags : U32}
    {r : Request} (hgoal : (mmRequests k current cloneFlags)[s.pmm.freePageCount]? = some r) :
    (∃ e, copyMm (midway k task t s files inodes) cloneFlags task = .error e ∧
      (r = .mm ∨ r = .area ∨ r = .frame)) ∨
    ∃ s' role', copyMm (midway k task t s files inodes) cloneFlags task =
        .ok (-E_NOMEM, midway k task t s' files inodes) ∧ (r = .pgdir ∨ r = .table) ∧
      Footprint lo hi k.machine role₀ ∅ own s' role' := by
  unfold mmRequests at hgoal
  by_cases hcase : current.mm ≠ NULL ∧ cloneFlags &&& CLONE_VM = 0
  swap
  · rw [if_neg hcase] at hgoal
    simp at hgoal
  obtain ⟨old, hold⟩ := Option.ne_none_iff_exists'.mp (hready.mm hcase.1)
  rw [if_pos hcase, hold] at hgoal
  dsimp only at hgoal
  have hkva := hready.kernel
  unfold copyMm
  rw [midway_current hready.running hne, Res.ok_bind]
  dsimp only
  rw [if_neg hcase.1, if_neg (not_not.mpr hcase.2)]
  rcases alloc_one hkva (k := { k with machine := s }) h sizeofMemMap rfl with
    ⟨hzero, hcall⟩ | ⟨addr, m, role', hcall, haddr, hfree, hfoot, hcount⟩
  · left
    rw [midway_alloc_error hcall]
    rw [hzero] at hgoal
    exact ⟨_, rfl, Or.inl (Option.some.inj hgoal).symm⟩
  rw [midway_alloc hcall, Res.ok_bind]
  simp only [haddr.ne_NULL, if_false]
  rw [hcount, List.getElem?_cons_succ] at hgoal
  have hnone : k.mms addr = none := by
    by_contra hc
    refine hready.mms addr hc ?_
    rw [← h₀.free]
    exact h.free_of_free hfree
  have hpown : pageOf addr ∉ own := by
    intro hc
    have := h.role_of_own hc
    simp [hfree] at this
  rw [show (midway k task t { s with pmm := m } files inodes).machine = { s with pmm := m } from rfl]
  rcases setupPgdir_count hfoot.frames with ⟨hzero, hpgdir⟩ | ⟨d, s₁, hpgdir, hcount₁⟩
  · right
    rw [hpgdir, Res.ok_bind]
    dsimp only
    have hblocks : MapBlocks (own ∪ {pageOf addr}) (pageOf addr) mmCreate :=
      ⟨Or.inr rfl, by simp [mmCreate], List.nodup_nil, by simp [mmCreate]⟩
    obtain ⟨s', role'', hdestroy, hfoot'⟩ := hfoot.mmDestroy h₀ le_rfl hblocks
    rw [haddr.page] at hdestroy
    refine ⟨s', role'', ?_, ?_, ?_⟩
    · rw [midway_destroyMm hnone hdestroy]
      rfl
    · rw [show ({ s with pmm := m } : Machine).pmm = m from rfl] at hzero
      rw [hzero] at hgoal
      exact Or.inl (Option.some.inj hgoal).symm
    · convert hfoot' using 1
      simp [areaPages, mmCreate, hpown]
  · rw [hpgdir, Res.ok_bind]
    dsimp only
    rcases hfoot.setupPgdir hpgdir with ⟨hnone', -⟩ | ⟨d', hd', hdfree, hfoot₁, hempty⟩
    · simp at hnone'
    obtain rfl := Option.some.inj hd'
    have hd18 : d < 2 ^ 18 := by
      have := hfoot.frames.managed d (by simp [hdfree])
      omega
    have hfill := filling_new hd18 hfoot₁ (Set.mem_insert d ∅) (Or.inr rfl) hempty
    have hdd : MemMap.dir { mmCreate with pgdir := page2kva d } = d := by
      unfold MemMap.dir
      exact shift_page2kva (by omega)
    have hslots : TableSlots s₁ (MemMap.dir { mmCreate with pgdir := page2kva d }) [] := by
      intro i hi'
      rw [hdd]
      simp [hempty i hi']
    rw [show ({ s with pmm := m } : Machine).pmm = m from rfl] at hcount₁
    rw [hcount₁, List.getElem?_cons_succ] at hgoal
    obtain ⟨hinv, huser⟩ := hready.areas current.mm old hold
    have hend := dupLoop_refused h₀ (hdirs current.mm old hold) old.vmaList.reverse hfill
      (by simpa [mmCreate] using hinv.sorted) (by simpa using huser) hslots hgoal
    have hmm : (midway k task t { s with pmm := m } files inodes).mm current.mm = .ok old := by
      unfold Kernel.mm
      rw [show (midway k task t { s with pmm := m } files inodes).mms current.mm = some old from hold]
    rw [hmm, Res.ok_bind]
    unfold dupMm
    dsimp only
    generalize dupLoop old.dir old.vmaList.reverse s₁ { mmCreate with pgdir := page2kva d } = result at hend ⊢
    cases hend with
    | stopped e hstop => exact Or.inl ⟨e, rfl, hstop.elim (fun h => Or.inr (Or.inl (Option.some.inj h)))
        fun h => Or.inr (Or.inr (Option.some.inj h))⟩
    | done hdone hmm' hpgdir' hrest => simp at hdone
    | @noTable s₂ mm₂ own₂ htable hmm₂ hpgdir₂ hrest =>
        right
        have hbase : KERNEL_BASE ≤ mm₂.pgdir := by
          rw [hpgdir₂]
          exact KERNEL_BASE_le_page2kva hd18
        have hdir₂ : mm₂.dir = d := by
          unfold MemMap.dir
          rw [hpgdir₂]
          exact shift_page2kva (by omega)
        obtain ⟨s₃, s₄, s₅, role₅, hexit, hput, hdestroy, hfoot₅⟩ := discard h₀ haddr hmm₂ hbase
        refine ⟨s₅, role₅, ?_, Or.inr (Option.some.inj htable), ?_⟩
        · simp only [pure, Except.pure, Res.ok_bind, Option.getD_some]
          rw [if_pos (by decide), hexit, Res.ok_bind, hput, Res.ok_bind, midway_destroyMm hnone hdestroy]
          rfl
        · convert hfoot₅ using 1
          · rw [hdir₂]
            simp
          · rw [hrest]
            simp [areaPages, mmCreate, hpown]

end Maps

/-! ### The call -/

section Fork

variable {lo hi : Nat} {role₀ role : Nat → Role} {own : Set Nat} {k : Kernel} {current t : Task} {task : U32}
  {s : Machine} {files : U32 → Option FileStruct} {inodes : U32 → INodeCount}

/-- The label `failed_and_clean_kstack` gives the kernel stack and the task structure back. -/
theorem failedAndCleanKstack_midway (files : U32 → Option FileStruct) (inodes : U32 → INodeCount)
    (h₀ : Frames lo hi k.machine role₀) (hnone : k.tasks task = none)
    (htask : BlockAddr lo hi task) (hkstack : BlockAddr lo hi t.kstack)
    (h : Footprint lo hi k.machine role₀ ∅ own s role)
    (hblock : Set.Ico (pageOf t.kstack) (pageOf t.kstack + pagesOf KSTACKSIZE) ⊆ own)
    (hpage : pageOf task ∈ own \ Set.Ico (pageOf t.kstack) (pageOf t.kstack + pagesOf KSTACKSIZE)) :
    ∃ s' role', failedAndCleanKstack (midway k task t s files inodes) task =
        .ok (-E_NOMEM, { k with machine := s', files := files, inodes := inodes }) ∧
      Footprint lo hi k.machine role₀ ∅
        ((own \ Set.Ico (pageOf t.kstack) (pageOf t.kstack + pagesOf KSTACKSIZE)) \ {pageOf task}) s' role' := by
  obtain ⟨m₁, role₁, hfree₁, hfoot₁, -⟩ := h.kfree KSTACKSIZE h₀ (by decide) hblock
  have hone : Set.Ico (pageOf task) (pageOf task + pagesOf sizeofTask) = {pageOf task} := Ico_one _
  obtain ⟨m₂, role₂, hfree₂, hfoot₂, -⟩ := hfoot₁.kfree sizeofTask h₀ (by decide)
    (by rw [hone]; exact Set.singleton_subset_iff.mpr hpage)
  rw [hone] at hfoot₂
  rw [hkstack.page] at hfree₁
  rw [htask.page] at hfree₂
  refine ⟨_, role₂, ?_, hfoot₂⟩
  have htasks : Function.update (Function.update k.tasks task (some t)) task none = k.tasks := by
    rw [Function.update_idem, ← hnone, Function.update_eq_self]
  unfold failedAndCleanKstack freeTask Kernel.release
  rw [midway_task, Res.ok_bind, show (midway k task t s files inodes).machine = s from rfl, hfree₁]
  simp only [pure, Except.pure, Res.ok_bind]
  rw [hfree₂]
  simp only [Res.ok_bind]
  rw [show (midway k task t s files inodes).tasks = Function.update k.tasks task (some t) from rfl, htasks]
  rfl

/-- Everything has been given back. -/
theorem noTrace_of_footprint (h₀ : Frames lo hi k.machine role₀)
    (h : Footprint lo hi k.machine role₀ ∅ ∅ s role) : NoTrace k { k with machine := s } := by
  refine ⟨rfl, rfl, rfl, rfl, rfl, rfl, ?_, ?_⟩
  · intro x hx
    refine h.mem x ?_
    rwa [ne_eq, h₀.free]
  · intro x
    rw [h.free_iff h₀]
    simp

theorem putFiles_none (ht : t.files = NULL) :
    putFiles (midway k task t s files inodes) task = .ok (midway k task t s files inodes) := by
  unfold putFiles
  rw [midway_task, Res.ok_bind, if_neg (not_not.mpr ht)]
  rfl

theorem putFiles_some (ht : t.files ≠ NULL) {f : FileStruct} (hf : files t.files = some f) :
    putFiles (midway k task t s files inodes) task =
      .ok (midway k task t s (Function.update files t.files (some { f with ref := f.ref - 1 })) inodes) := by
  unfold putFiles Kernel.fileStruct
  rw [midway_task, Res.ok_bind, if_pos ht, show (midway k task t s files inodes).files t.files = some f from hf]
  rfl

/-- A request that stops the machine is not one that `do_fork` survives. -/
theorem refused_apart {r : Request} (h : r = .mm ∨ r = .area ∨ r = .frame) : ¬ (r = .pgdir ∨ r = .table) := by
  rcases h with rfl | rfl | rfl <;> simp

/-- `do_fork` from `copy_mm` on. -/
def forkMm (k : Kernel) (cloneFlags task stack : U32) (frame : InterruptFrame) : Res (Int × Kernel) := do
  let (err, k) ← copyMm k cloneFlags task
  if err ≠ 0 then
    let k ← putFiles k task
    failedAndCleanKstack k task
  else
    let k ← copyTask k task stack frame
    publish k task

/-- `do_fork` from `copy_files` on. -/
def forkFiles (k : Kernel) (cloneFlags task stack : U32) (frame : InterruptFrame) : Res (Int × Kernel) := do
  let (err, k) ← copyFiles k cloneFlags task
  if err ≠ 0 then failedAndCleanKstack k task else forkMm k cloneFlags task stack frame

/-- When a request of `copy_mm` is refused, `do_fork` does not return, or the blocks that it has taken for
the task are given back. -/
theorem forkMm_end (hready : ForkReady lo hi k current) (h₀ : Frames lo hi k.machine role₀)
    (hdirs : ∀ a m, k.mms a = some m → role₀ m.dir = .dir) (hnone : k.tasks task = none)
    (hne : k.currentTask ≠ task) (htask : BlockAddr lo hi task) (hkstack : BlockAddr lo hi t.kstack)
    (hapart : pageOf task ∉ Set.Ico (pageOf t.kstack) (pageOf t.kstack + pagesOf KSTACKSIZE))
    (h : Footprint lo hi k.machine role₀ ∅ own s role)
    (hsub : {pageOf task} ∪ Set.Ico (pageOf t.kstack) (pageOf t.kstack + pagesOf KSTACKSIZE) ⊆ own)
    {files' : U32 → Option FileStruct}
    (hput : ∀ s, putFiles (midway k task t s files inodes) task = .ok (midway k task t s files' inodes))
    {cloneFlags stack : U32} {frame : InterruptFrame} {r : Request}
    (hgoal : (mmRequests k current cloneFlags)[s.pmm.freePageCount]? = some r) :
    (∃ e, forkMm (midway k task t s files inodes) cloneFlags task stack frame = .error e ∧
      (r = .mm ∨ r = .area ∨ r = .frame)) ∨
    ∃ s' role', forkMm (midway k task t s files inodes) cloneFlags task stack frame =
        .ok (-E_NOMEM, { k with machine := s', files := files', inodes := inodes }) ∧
      (r = .pgdir ∨ r = .table) ∧
      Footprint lo hi k.machine role₀ ∅
        ((own \ Set.Ico (pageOf t.kstack) (pageOf t.kstack + pagesOf KSTACKSIZE)) \ {pageOf task}) s' role' := by
  unfold forkMm
  rcases copyMm_end (t := t) hready h₀ hdirs hne h hgoal with ⟨e, he, hr⟩ | ⟨s₁, role₁, hcall, hr, hfoot⟩
  · left
    rw [he]
    exact ⟨e, rfl, hr⟩
  · right
    obtain ⟨s₂, role₂, hclean, hfoot₂⟩ := failedAndCleanKstack_midway files' inodes h₀ hnone
      htask hkstack hfoot (fun x hx => hsub (Or.inr hx)) ⟨hsub (Or.inl rfl), hapart⟩
    refine ⟨s₂, role₂, ?_, hr, hfoot₂⟩
    rw [hcall, Res.ok_bind]
    dsimp only
    rw [if_pos (by decide), hput, Res.ok_bind, hclean]

/-- The same from `copy_files` on: a file table that has been made stays. -/
theorem forkFiles_end (hready : ForkReady lo hi k current) (h₀ : Frames lo hi k.machine role₀)
    (hdirs : ∀ a m, k.mms a = some m → role₀ m.dir = .dir) (hnone : k.tasks task = none)
    (htask : BlockAddr lo hi task) (hkstack : BlockAddr lo hi t.kstack) (htfiles : t.files = NULL)
    (hapart : pageOf task ∉ Set.Ico (pageOf t.kstack) (pageOf t.kstack + pagesOf KSTACKSIZE))
    (h : Footprint lo hi k.machine role₀ ∅
      ({pageOf task} ∪ Set.Ico (pageOf t.kstack) (pageOf t.kstack + pagesOf KSTACKSIZE)) s role)
    {cloneFlags stack : U32} {frame : InterruptFrame} {r : Request}
    (hgoal : (filesRequests k current cloneFlags ++ mmRequests k current cloneFlags)[s.pmm.freePageCount]? =
      some r) :
    (∃ ret k', forkFiles (midway k task t s k.files k.inodes) cloneFlags task stack frame = .ok (ret, k') ∧
      ret < 0 ∧ NoTrace k k') ↔ (r = .pgdir ∨ r = .table) ∧ ¬ OwnFiles current cloneFlags := by
  have hne : k.currentTask ≠ task := by
    rintro rfl
    rw [hready.running] at hnone
    simp at hnone
  have hused : ∀ x, k.machine.pmm.Free x ↔ role₀ x = .free := fun x => (h₀.free x).symm
  have hclean : (({pageOf task} ∪ Set.Ico (pageOf t.kstack) (pageOf t.kstack + pagesOf KSTACKSIZE)) \
      Set.Ico (pageOf t.kstack) (pageOf t.kstack + pagesOf KSTACKSIZE)) \ {pageOf task} = ∅ := by
    ext x
    simp only [Set.mem_sdiff, Set.mem_union, Set.mem_singleton_iff, Set.mem_empty_iff_false, iff_false]
    tauto
  have hfilesend := copyFiles_end (t := t) hready hne h hused hgoal
  unfold forkFiles
  generalize copyFiles (midway k task t s k.files k.inodes) cloneFlags task = called at hfilesend ⊢
  cases hfilesend with
  | stopped e hstop =>
      constructor
      · rintro ⟨ret, k', hcall, -⟩
        simp [bind, Except.bind] at hcall
      · rintro ⟨hr, -⟩
        rcases hr with rfl | rfl <;> simp at hstop
  | @noTable s₁ hfiles hgoal₁ role₁ hfoot =>
      have hown : ¬ OwnFiles current cloneFlags := fun hc => hc.1 hfiles
      have hput : ∀ s, putFiles (midway k task t s k.files k.inodes) task = .ok (midway k task t s k.files k.inodes) :=
        fun s => putFiles_none htfiles
      rw [Res.ok_bind]
      dsimp only
      rw [if_neg (not_not.mpr rfl)]
      rcases forkMm_end hready h₀ hdirs hnone hne htask hkstack hapart hfoot subset_rfl hput hgoal₁ with
        ⟨e, he, hr⟩ | ⟨s', role', hok, hr, hfoot'⟩
      · rw [he]
        exact iff_of_false (by simp) (fun hc => refused_apart hr hc.1)
      · rw [hok]
        rw [hclean] at hfoot'
        exact iff_of_true ⟨_, _, rfl, by decide, noTrace_of_footprint h₀ hfoot'⟩ ⟨hr, hown⟩
  | @shared s₁ f hfiles hflag hf hgoal₁ role₁ hfoot =>
      have hown : ¬ OwnFiles current cloneFlags := fun hc => hflag hc.2
      have hrestore : Function.update (Function.update k.files current.files (some { f with ref := f.ref + 1 }))
          current.files (some { f with ref := f.ref + 1 - 1 }) = k.files := by
        rw [Function.update_idem, add_sub_cancel_right, ← hf, Function.update_eq_self]
      have hput : ∀ s, putFiles (midway k task { t with files := current.files } s
          (Function.update k.files current.files (some { f with ref := f.ref + 1 })) k.inodes) task =
          .ok (midway k task { t with files := current.files } s k.files k.inodes) := by
        intro s
        rw [putFiles_some (t := { t with files := current.files }) hfiles (Function.update_self ..), hrestore]
      rw [Res.ok_bind]
      dsimp only
      rw [if_neg (not_not.mpr rfl)]
      rcases forkMm_end (t := { t with files := current.files }) hready h₀ hdirs hnone hne htask hkstack hapart hfoot
        subset_rfl hput hgoal₁ with ⟨e, he, hr⟩ | ⟨s', role', hok, hr, hfoot'⟩
      · rw [he]
        exact iff_of_false (by simp) (fun hc => refused_apart hr hc.1)
      · rw [hok]
        rw [hclean] at hfoot'
        exact iff_of_true ⟨_, _, rfl, by decide, noTrace_of_footprint h₀ hfoot'⟩ ⟨hr, hown⟩
  | @copied s₁ addr own' tables inodes hown haddr hmem hnew htable hgoal₁ hsub role₁ hfoot =>
      obtain ⟨table, htable⟩ := Option.ne_none_iff_exists'.mp htable
      refine iff_of_false ?_ fun hc => hc.2 hown
      rintro ⟨ret, k', hcall, -, hclear⟩
      rw [Res.ok_bind] at hcall
      dsimp only at hcall
      rw [if_neg (not_not.mpr rfl)] at hcall
      have hput : ∀ s, putFiles (midway k task { t with files := addr } s tables inodes) task =
          .ok (midway k task { t with files := addr } s
            (Function.update tables addr (some { table with ref := table.ref - 1 })) inodes) :=
        fun s => putFiles_some (t := { t with files := addr }) haddr.ne_NULL htable
      rcases forkMm_end (t := { t with files := addr }) hready h₀ hdirs hnone hne htask hkstack hapart hfoot
        hsub hput hgoal₁ with ⟨e, he, -⟩ | ⟨s', role', hok, -, hfoot'⟩
      · rw [he] at hcall
        simp at hcall
      · rw [hok] at hcall
        obtain ⟨-, rfl⟩ := Prod.mk.inj (Except.ok.inj hcall)
        -- The page of the new table was free and is not given back.
        have hown' := hfoot.fresh _ (Or.inr hmem)
        have hfree := (hclear.allocated (pageOf addr)).mpr ((hused _).mpr hown')
        refine ((hfoot'.free_iff h₀ _).mp hfree).2 ⟨⟨hmem, ?_⟩, ?_⟩
        · exact fun hc => hnew (Or.inr hc)
        · exact fun hc => hnew (Or.inl hc)

/-- A block that the allocator refuses. -/
theorem alloc_refused {bytes : U32} (hpos : 0 < pagesOf bytes)
    (hrefused : ∀ p m, ffAllocPages k.machine.pmm (pagesOf bytes) ≠ .ok (some p, m)) :
    k.alloc bytes = .error .wildPointer := by
  obtain ⟨⟨page, m⟩, hcall⟩ := ffAllocPages_returns k.machine.pmm hpos
  cases page with
  | some p => exact absurd hcall (hrefused p m)
  | none =>
      unfold Kernel.alloc kmalloc allocPhyPages
      rw [hcall]
      rfl

/-- **A failed fork leaves no trace exactly when it fails at the directory or at a page table, and the child
was to get no file table.**  Elsewhere the call does not return, or the new file table is lost. -/
theorem failed_fork_clean_iff (lo hi : Nat) (k : Kernel) (current : Task) (hready : ForkReady lo hi k current)
    (hcount : k.taskCount < MAX_TASKS) (cloneFlags stack : U32) (frame : InterruptFrame) (r : Request)
    (hrefused : firstRefused k.machine.pmm (forkRequests k current cloneFlags) = some r) :
    (∃ ret k', doFork k cloneFlags stack frame = .ok (ret, k') ∧ ret < 0 ∧ NoTrace k k') ↔
      (r = .pgdir ∨ r = .table) ∧ ¬ OwnFiles current cloneFlags := by
  obtain ⟨role₀, h₀, hroles⟩ := hready.paged
  have hdirs : ∀ a m, k.mms a = some m → role₀ m.dir = .dir := fun a m hm => (hroles m.dir).mpr ⟨a, m, hm, rfl⟩
  have hstart := Footprint.refl h₀
  unfold doFork allocTask
  rw [if_neg (BitVec.not_le.mpr hcount)]
  unfold forkRequests firstRefused at hrefused
  by_cases hgrant : ∃ p m, ffAllocPages k.machine.pmm (pagesOf sizeofTask) = .ok (some p, m)
  swap
  · -- Without a task structure the code goes on with a wild address.
    push Not at hgrant
    rw [alloc_refused (by decide) hgrant]
    have hr : some Request.task = some r := by
      rw [← hrefused, show requestPages .task = pagesOf sizeofTask from rfl]
      split
      · rename_i p m hcall
        exact absurd hcall (hgrant p m)
      · rfl
    obtain rfl := Option.some.inj hr
    exact iff_of_false (by simp [bind, Except.bind]) (by simp)
  obtain ⟨p, m, hgrant⟩ := hgrant
  obtain ⟨task, role₁, halloc, htask, hblock, hfoot⟩ := alloc_granted hready.kernel hstart sizeofTask (by decide) hgrant
  rw [show requestPages .task = pagesOf sizeofTask from rfl, hgrant] at hrefused
  dsimp only at hrefused
  rw [Set.empty_union, show Set.Ico (pageOf task) (pageOf task + pagesOf sizeofTask) = {pageOf task} from
    Ico_one _] at hfoot
  have hfree : role₀ (pageOf task) = .free := hblock _ ⟨le_rfl, Nat.lt_succ_self _⟩
  have hnone : k.tasks task = none := by
    by_contra hc
    exact hready.tasks task hc ((h₀.free _).mp hfree)
  rw [halloc, Res.ok_bind]
  simp only [htask.ne_NULL, if_false, pure, Except.pure, Res.ok_bind]
  rw [show ({ k with machine := { k.machine with pmm := m } } : Kernel).setTask task (newTask k.image.kernelCr3) =
    midway k task (newTask k.image.kernelCr3) { k.machine with pmm := m } k.files k.inodes from rfl]
  obtain ⟨t₁, hfiles₁, hmodify₁⟩ : ∃ t₁ : Task, t₁.files = NULL ∧
      (midway k task (newTask k.image.kernelCr3) { k.machine with pmm := m } k.files k.inodes).modifyTask task
        (fun t => { t with parent := k.currentTask }) =
      .ok (midway k task t₁ { k.machine with pmm := m } k.files k.inodes) := ⟨_, rfl, midway_modifyTask _⟩
  rw [show (midway k task (newTask k.image.kernelCr3) { k.machine with pmm := m } k.files
    k.inodes).currentTask = k.currentTask from rfl, hmodify₁, Res.ok_bind]
  unfold setupNewKstack
  unfold firstRefused at hrefused
  by_cases hgrant₂ : ∃ q m₂, ffAllocPages m (pagesOf KSTACKSIZE) = .ok (some q, m₂)
  swap
  · push Not at hgrant₂
    have herror := alloc_refused (k := { k with machine := { k.machine with pmm := m } }) (by decide) hgrant₂
    rw [midway_alloc_error herror]
    have hr : some Request.kstack = some r := by
      rw [← hrefused, show requestPages .kstack = pagesOf KSTACKSIZE from rfl]
      split
      · rename_i q m₂ hcall
        exact absurd hcall (hgrant₂ q m₂)
      · rfl
    obtain rfl := Option.some.inj hr
    exact iff_of_false (by simp [bind, Except.bind]) (by simp)
  obtain ⟨q, m₂, hgrant₂⟩ := hgrant₂
  obtain ⟨stack', role₂, halloc₂, hstack, hblock₂, hfoot₂⟩ := alloc_granted hready.kernel
    (k := { k with machine := { k.machine with pmm := m } }) hfoot KSTACKSIZE (by decide) hgrant₂
  rw [show requestPages .kstack = pagesOf KSTACKSIZE from rfl, hgrant₂] at hrefused
  dsimp only at hrefused
  rw [firstRefused_eq hfoot₂.frames.pmm _ (requests_one k current cloneFlags)] at hrefused
  rw [midway_alloc halloc₂, Res.ok_bind]
  obtain ⟨t₂, hfiles₂, hkstack₂, hmodify₂⟩ : ∃ t₂ : Task, t₂.files = NULL ∧ t₂.kstack = stack' ∧
      (midway k task t₁ { k.machine with pmm := m₂ } k.files k.inodes).modifyTask task
        (fun t => { t with kstack := stack' }) =
      .ok (midway k task t₂ { k.machine with pmm := m₂ } k.files k.inodes) :=
    ⟨{ t₁ with kstack := stack' }, hfiles₁, rfl, midway_modifyTask _⟩
  simp only [hstack.ne_NULL, ne_eq, not_false_eq_true, if_true]
  rw [hmodify₂]
  subst hkstack₂
  have hapart : pageOf task ∉ Set.Ico (pageOf t₂.kstack) (pageOf t₂.kstack + pagesOf KSTACKSIZE) := by
    intro hc
    have := hfoot.role_of_own (x := pageOf task) rfl
    simp [hblock₂ _ hc] at this
  exact forkFiles_end hready h₀ hdirs hnone htask hstack hfiles₂ hapart hfoot₂ hrefused

/-- Seven frames, of which a directory, a page and its page table take three. -/
def nineFrames : Machine :=
  ⟨⟨Function.update (memmapInitLoop reservedPages.pages 2 7) 2 ⟨2, 7, 0⟩, [2], 7⟩, 9, fun _ _ => 0, 0⟩

def fourFree : Machine :=
  match setupPgdir nineFrames >>= fun r => pgdirAllocPage r.2 2 0x200000 PTE_USER with
  | .ok (_, s) => s
  | .error _ => nineFrames

theorem fourFree_paged : Paged 2 9 fourFree (insert 2 ∅) := by
  have hboot : Booted 2 9 nineFrames := booted_of_memmapInit (n := 7) rfl (by decide)
  have hdir : PagingStep ⟨nineFrames, ∅, ∅⟩ ⟨_, insert 2 ∅, ∅⟩ := .setupPgdir rfl
  obtain ⟨role, h⟩ := pagingInv_of_run hboot ((Relation.ReflTransGen.single hdir).tail
    (.pgdirAllocPage (Set.mem_insert 2 ∅) (show 0x200000#32 < KERNEL_BASE by decide)
      (show PTE_USER.toNat < 2 ^ 12 by decide) rfl))
  exact ⟨role, h.frames, h.dirs⟩

/-- A running task with one page of memory and the file table at `files`. -/
def smallParent (files : U32) : Task :=
  { newTask 0 with state := .runnable, mm := page2kva 1, cr3 := page2pa 2, files := files }

/-- The structures of the task are in the pages 0 and 1, that are not managed. -/
def smallKernel (files : U32) : Kernel := { bootKernel smallImage fourFree with
  tasks := fun a => if a = page2kva 0 then some (smallParent files) else none
  mms := fun a => if a = page2kva 1 then some parentMm else none
  files := fun a => if a = page2kva 1 then some ⟨NULL, [], 1, 0⟩ else none
  taskCount := 1
  currentTask := page2kva 0 }

theorem forkReady_smallKernel (files : U32) (hfiles : files ≠ NULL → files = page2kva 1) :
    ForkReady 2 9 (smallKernel files) (smallParent files) := by
  have hmm : ∀ a m, (smallKernel files).mms a = some m → a = page2kva 1 ∧ m = parentMm := by
    intro a m hm
    unfold smallKernel at hm
    dsimp only at hm
    split at hm
    · rename_i ha
      exact ⟨ha, (Option.some.inj hm).symm⟩
    · simp at hm
  obtain ⟨role, h, hdirs⟩ := fourFree_paged
  have hreserved : ∀ p, p < 2 → ¬ fourFree.pmm.Free (pageOf (page2kva p)) := by
    intro p hp hc
    rw [pageOf_page2kva (by omega)] at hc
    have := h.pmm.managed_of_free hc
    omega
  refine ⟨⟨role, h, fun d => (hdirs d).trans ?_⟩, by decide, rfl, ?_, ?_, ?_, fun _ => ?_, ?_, ?_⟩
  · constructor
    · intro hd
      obtain rfl : d = 2 := by simpa using hd
      exact ⟨page2kva 1, parentMm, rfl, rfl⟩
    · rintro ⟨a, m, hm, rfl⟩
      obtain ⟨-, rfl⟩ := hmm a m hm
      exact Set.mem_insert 2 ∅
  · intro a ha
    obtain rfl : a = page2kva 0 := by
      by_contra hc
      exact ha (if_neg hc)
    exact hreserved 0 (by omega)
  · intro a ha
    obtain rfl : a = page2kva 1 := by
      by_contra hc
      exact ha (if_neg hc)
    exact hreserved 1 (by omega)
  · intro a ha
    obtain rfl : a = page2kva 1 := by
      by_contra hc
      exact ha (if_neg hc)
    exact hreserved 1 (by omega)
  · rw [show (smallKernel files).mms (smallParent files).mm = some parentMm from rfl]
    simp
  · intro hne
    obtain rfl := hfiles hne
    rw [show (smallKernel (page2kva 1)).files (smallParent (page2kva 1)).files = some ⟨NULL, [], 1, 0⟩ from rfl]
    simp
  · intro a m hm
    obtain ⟨-, rfl⟩ := hmm a m hm
    exact ⟨parentMm_inv, parentMm_user⟩

/-- The frame of a caller whose registers are all zero. -/
def zeroFrame : InterruptFrame := ⟨0, 0, 0, 0, 0, 0, 0, 0, 0, 0, 0, 0, 0, 0, 0, 0, 0, 0, 0⟩

/-- Four pages are enough for the task, its stack and its memory map, but not for the directory. -/
theorem failed_fork_clean_no_directory :
    firstRefused fourFree.pmm (forkRequests (smallKernel NULL) (smallParent NULL) 0) = some .pgdir ∧
      ∃ ret k', doFork (smallKernel NULL) 0 0 zeroFrame = .ok (ret, k') ∧ ret < 0 ∧
        NoTrace (smallKernel NULL) k' := by
  have hrefused : firstRefused fourFree.pmm (forkRequests (smallKernel NULL) (smallParent NULL) 0) =
      some .pgdir := rfl
  have hready := forkReady_smallKernel NULL fun hc => absurd rfl hc
  exact ⟨hrefused, (failed_fork_clean_iff 2 9 _ _ hready (by decide) 0 0 zeroFrame .pgdir hrefused).mpr
    ⟨Or.inl rfl, fun hc => hc.1 rfl⟩⟩

/-- With a file table of its own the task gets no memory map, and `do_fork` goes on with a wild address. -/
theorem failed_fork_not_clean :
    ¬ ∀ (lo hi : Nat) (k : Kernel) (current : Task), ForkReady lo hi k current → k.taskCount < MAX_TASKS →
      ∀ (cloneFlags stack : U32) (frame : InterruptFrame) (r : Request),
        firstRefused k.machine.pmm (forkRequests k current cloneFlags) = some r →
        ∃ ret k', doFork k cloneFlags stack frame = .ok (ret, k') ∧ ret < 0 ∧ NoTrace k k' := by
  intro hclaim
  obtain ⟨ret, k', hcall, -⟩ := hclaim 2 9 _ _ (forkReady_smallKernel (page2kva 1) fun _ => rfl) (by decide) 0 0
    zeroFrame .mm rfl
  have hstop : doFork (smallKernel (page2kva 1)) 0 0 zeroFrame = .error .wildPointer := rfl
  rw [hstop] at hcall
  simp at hcall

end Fork

end Krnl
end FreakOS
