import FreakOS.Krnl.Process
import FreakOS.Memory.PagingInv

/-!
# What the steps of the kernel leave alone

* `Kept` — a step that changes some fields of tasks only; `wakeupTask_kept`, `schedule_kept` and the like
  say so of the functions of `sched.c`.
* `Ledger` — the allocator, with the blocks of `kmalloc` that are held.
* `Grown` — a step that takes memory and changes no task; the file-table functions are of this kind.
-/

namespace FreakOS
namespace Krnl

open Lib
open Memory

theorem panicIf_eq_ok {c : Prop} [Decidable c] {msg : String} {u : Unit} :
    panicIf c msg = .ok u ↔ ¬ c := by
  unfold panicIf
  by_cases hc : c <;> simp [hc]

theorem task_eq_ok {k : Kernel} {a : U32} {t : Task} : k.task a = .ok t ↔ k.tasks a = some t := by
  unfold Kernel.task
  cases k.tasks a <;> simp

theorem modifyTask_eq_ok {k k' : Kernel} {a : U32} {g : Task → Task} :
    k.modifyTask a g = .ok k' ↔ ∃ t, k.tasks a = some t ∧ k.setTask a (g t) = k' := by
  unfold Kernel.modifyTask
  rw [Res.bind_eq_ok]
  simp only [task_eq_ok, pure, Except.pure, Except.ok.injEq]

/-- What the invariants read of a task. -/
def Task.core (t : Task) : U32 × U32 × U32 := (t.tid, t.kstack, t.mm)

theorem Task.core_inj {t u : Task} (h : t.core = u.core) :
    t.tid = u.tid ∧ t.kstack = u.kstack ∧ t.mm = u.mm := by
  obtain ⟨h1, h2⟩ := Prod.mk.inj h
  obtain ⟨h2, h3⟩ := Prod.mk.inj h2
  exact ⟨h1, h2, h3⟩

/-- The core, with what `copy_task` sets up. -/
def Task.start (t : Task) : (U32 × U32 × U32) × U32 × Context := (t.core, t.trapFrame, t.context)

/-- A task without what `wakeupTask` changes. -/
def Task.rest (t : Task) : Task :=
  { t with state := .uninit, waitState := WT_NOTWAIT, timeSlice := 0, needResched := false }

/-- A task without what `schedule` changes. -/
def Task.still (t : Task) : Task :=
  { t with timeSlice := 0, needResched := false, context := ⟨0, 0, 0, 0, 0, 0, 0, 0⟩ }

/-- A task without its place among its siblings and its children. -/
def Task.unlinked (t : Task) : Task := { t with cptr := NULL, yptr := NULL, optr := NULL }

/-- A task without its place in the tree and what `wakeupTask` changes. -/
def Task.bare (t : Task) : Task := { t.rest with parent := NULL, cptr := NULL, yptr := NULL, optr := NULL }

/-- Nothing has changed but task fields that `f` does not read, the run queue and the running task. -/
structure Kept {β : Type} (f : Task → β) (k k' : Kernel) : Prop where
  machine : k'.machine = k.machine
  taskList : k'.taskList = k.taskList
  taskCount : k'.taskCount = k.taskCount
  idleTask : k'.idleTask = k.idleTask
  initTask : k'.initTask = k.initTask
  tasks : ∀ a, (k'.tasks a).map f = (k.tasks a).map f

theorem exists_of_map_eq {α β : Type} {f : α → β} {o o' : Option α} (h : o'.map f = o.map f) {x' : α}
    (hx' : o' = some x') : ∃ x, o = some x ∧ f x = f x' := by
  subst hx'
  cases o with
  | none => simp at h
  | some x => exact ⟨x, rfl, by simpa using h.symm⟩

namespace Kept

variable {β γ : Type} {f : Task → β} {k k' k'' : Kernel}

theorem refl (k : Kernel) : Kept f k k := ⟨rfl, rfl, rfl, rfl, rfl, fun _ => rfl⟩

theorem trans (h₁ : Kept f k k') (h₂ : Kept f k' k'') : Kept f k k'' :=
  ⟨h₂.machine.trans h₁.machine, h₂.taskList.trans h₁.taskList, h₂.taskCount.trans h₁.taskCount,
    h₂.idleTask.trans h₁.idleTask, h₂.initTask.trans h₁.initTask,
    fun a => (h₂.tasks a).trans (h₁.tasks a)⟩

theorem comp (h : Kept f k k') (g : β → γ) : Kept (g ∘ f) k k' := by
  refine ⟨h.machine, h.taskList, h.taskCount, h.idleTask, h.initTask, ?_⟩
  intro a
  rw [← Option.map_map, ← Option.map_map, h.tasks a]

theorem setTask {a : U32} {t t' : Task} (ht : k.tasks a = some t) (hf : f t' = f t) :
    Kept f k (k.setTask a t') := by
  refine ⟨rfl, rfl, rfl, rfl, rfl, ?_⟩
  intro x
  by_cases hx : x = a
  · subst hx
    simp [Kernel.setTask, ht, hf]
  · simp [Kernel.setTask, hx]

theorem modifyTask {a : U32} {g : Task → Task} (hcall : k.modifyTask a g = .ok k')
    (hg : ∀ t, f (g t) = f t) : Kept f k k' := by
  obtain ⟨t, ht, rfl⟩ := modifyTask_eq_ok.mp hcall
  exact setTask ht (hg t)

theorem doIf {c : Prop} [Decidable c] {step : Kernel → Res Kernel} (hcall : k.doIf c step = .ok k')
    (hstep : ∀ k'', step k = .ok k'' → Kept f k k'') : Kept f k k' := by
  unfold Kernel.doIf at hcall
  split at hcall
  · exact hstep k' hcall
  · obtain rfl := Except.ok.inj hcall
    exact refl k

/-- A task after the step. -/
theorem task (h : Kept f k k') {a : U32} {t' : Task} (ht' : k'.tasks a = some t') :
    ∃ t, k.tasks a = some t ∧ f t = f t' := exists_of_map_eq (h.tasks a) ht'

theorem isSome (h : Kept f k k') (a : U32) : (k'.tasks a).isSome = (k.tasks a).isSome := by
  have := congrArg Option.isSome (h.tasks a)
  simpa using this

end Kept

/-! ### The scheduler -/

section Scheduler

variable {k k' : Kernel}

theorem enqueueRunQueue_kept {a : U32} (hcall : enqueueRunQueue k a = .ok k') :
    Kept (fun t => { t with timeSlice := 0 }) k k' := by
  unfold enqueueRunQueue at hcall
  obtain ⟨-, -, hcall⟩ := Res.bind_eq_ok.mp hcall
  obtain ⟨k₁, hmod, hcall⟩ := Res.bind_eq_ok.mp hcall
  obtain rfl := Except.ok.inj hcall
  have hkept := Kept.modifyTask (f := fun t => { t with timeSlice := 0 }) hmod fun t => by split <;> rfl
  exact ⟨hkept.machine, hkept.taskList, hkept.taskCount, hkept.idleTask, hkept.initTask, hkept.tasks⟩

theorem dequeueRunQueue_kept {a : U32} {β : Type} (f : Task → β) (hcall : dequeueRunQueue k a = .ok k') :
    Kept f k k' := by
  unfold dequeueRunQueue at hcall
  obtain ⟨-, -, hcall⟩ := Res.bind_eq_ok.mp hcall
  obtain rfl := Except.ok.inj hcall
  exact ⟨rfl, rfl, rfl, rfl, rfl, fun _ => rfl⟩

theorem wakeupTask_kept {a : U32} (hcall : wakeupTask k a = .ok k') : Kept Task.rest k k' := by
  unfold wakeupTask at hcall
  obtain ⟨t, ht, hcall⟩ := Res.bind_eq_ok.mp hcall
  obtain ⟨-, -, hcall⟩ := Res.bind_eq_ok.mp hcall
  refine Kept.doIf hcall fun k₁ hcall => ?_
  have hset : Kept Task.rest k (k.setTask a { t with state := .runnable, waitState := WT_NOTWAIT }) :=
    Kept.setTask (task_eq_ok.mp ht) rfl
  exact hset.trans (Kept.doIf hcall fun k₂ hcall => (enqueueRunQueue_kept hcall).comp Task.rest)

theorem runTask_kept {a : U32} {saved : Context} (hcall : runTask k a saved = .ok k') :
    Kept Task.still k k' := by
  refine Kept.doIf hcall fun k₁ hcall => ?_
  obtain ⟨t, -, hcall⟩ := Res.bind_eq_ok.mp hcall
  have hkept := Kept.modifyTask (f := Task.still) hcall fun _ => rfl
  exact ⟨hkept.machine, hkept.taskList, hkept.taskCount, hkept.idleTask, hkept.initTask, hkept.tasks⟩

theorem schedule_kept {saved : Context} (hcall : schedule k saved = .ok k') : Kept Task.still k k' := by
  unfold schedule at hcall
  obtain ⟨k₁, hmod, hcall⟩ := Res.bind_eq_ok.mp hcall
  obtain ⟨t, -, hcall⟩ := Res.bind_eq_ok.mp hcall
  obtain ⟨k₂, henq, hcall⟩ := Res.bind_eq_ok.mp hcall
  obtain ⟨k₃, hdeq, hcall⟩ := Res.bind_eq_ok.mp hcall
  have h₁ : Kept Task.still k k₁ := Kept.modifyTask hmod fun _ => rfl
  have h₂ : Kept Task.still k₁ k₂ :=
    Kept.doIf henq fun _ henq => (enqueueRunQueue_kept henq).comp Task.still
  have h₃ : Kept Task.still k₂ k₃ := Kept.doIf hdeq fun _ hdeq => dequeueRunQueue_kept Task.still hdeq
  have h₄ : Kept Task.still k₃ k' := Kept.doIf hcall fun _ hcall => runTask_kept hcall
  exact ((h₁.trans h₂).trans h₃).trans h₄

end Scheduler

/-! ### Blocks of `kmalloc` -/

/-- The frame at a kernel address. -/
def pageOf (addr : U32) : Nat := ((addr - KERNEL_BASE) >>> 12).toNat

/-- The pages of a block of `kmalloc`. -/
def blockOf (addr bytes : U32) : Extent := ⟨pageOf addr, pageOf addr + pagesOf bytes⟩

theorem pageOf_page2kva {p : Nat} (hp : p < 2 ^ 20) : pageOf (page2kva p) = p := by
  unfold pageOf page2kva
  rw [BitVec.add_sub_cancel, page2pa_shift hp]

/-- The allocator of the machine, with the blocks that the kernel holds. -/
structure Ledger (lo hi : Nat) (m₀ : Pmm) (s : Machine) (used : List Extent) : Prop where
  ff : FfInv lo hi m₀ s.pmm used
  hi_le : hi ≤ s.pageCount
  pageCount_le : s.pageCount ≤ 2 ^ 20

namespace Ledger

variable {lo hi : Nat} {m₀ : Pmm} {s s' : Machine} {used : List Extent}

theorem nodup (h : Ledger lo hi m₀ s used) : used.Nodup := by
  refine h.ff.used_apart.imp_of_mem ?_
  rintro u v hu - hapart rfl
  have := h.ff.used_nonempty u hu
  unfold Extent.Apart at hapart
  omega

/-- `kmalloc` hands out a block that was not held. -/
theorem kmalloc (h : Ledger lo hi m₀ s used) {bytes addr : U32}
    (hcall : kmalloc s bytes = .ok (addr, s')) :
    page2kva (pageOf addr) = addr ∧ blockOf addr bytes ∉ used ∧
      Ledger lo hi m₀ s' (blockOf addr bytes :: used) := by
  unfold Memory.kmalloc allocPhyPages at hcall
  obtain ⟨⟨page, s₁⟩, hpages, hcall⟩ := Res.bind_eq_ok.mp hcall
  obtain ⟨⟨page', m'⟩, halloc, hpair⟩ := Res.bind_eq_ok.mp hpages
  obtain ⟨rfl, rfl⟩ := Prod.mk.inj (Except.ok.inj hpair)
  cases page' with
  | none => simp at hcall
  | some p =>
      obtain ⟨rfl, rfl⟩ := Prod.mk.inj (Except.ok.inj hcall)
      have hff := h.ff.step (.alloc halloc)
      have hin := hff.used_inside _ (List.mem_cons_self ..)
      have hlt : p < 2 ^ 20 := by
        have h1 := hff.used_nonempty _ (List.mem_cons_self ..)
        have h2 := h.hi_le
        have h3 := h.pageCount_le
        dsimp only at hin h1
        omega
      have hpage : pageOf (page2pa p + KERNEL_BASE) = p := pageOf_page2kva hlt
      have hledger : Ledger lo hi m₀ { s with pmm := m' } (⟨p, p + pagesOf bytes⟩ :: used) :=
        ⟨hff, h.hi_le, h.pageCount_le⟩
      unfold blockOf
      rw [hpage]
      exact ⟨rfl, (List.nodup_cons.mp hledger.nodup).1, hledger⟩

/-- `kfree` takes back a block that is held. -/
theorem kfree (h : Ledger lo hi m₀ s used) {bytes addr : U32} (hblock : blockOf addr bytes ∈ used)
    (hcall : kfree s addr bytes = .ok s') :
    Ledger lo hi m₀ s' (used.erase (blockOf addr bytes)) := by
  unfold Memory.kfree pa2page freePhyPages at hcall
  obtain ⟨page, hpage, hcall⟩ := Res.bind_eq_ok.mp hcall
  obtain ⟨m', hfree, hcall⟩ := Res.bind_eq_ok.mp hcall
  obtain rfl := Except.ok.inj hcall
  split at hpage
  · simp at hpage
  · obtain rfl := Except.ok.inj hpage
    refine ⟨h.ff.step (.free hblock ?_), h.hi_le, h.pageCount_le⟩
    rw [← hfree]
    simp [blockOf, Extent.length, pageOf]

end Ledger

/-- Between `k` and `k'` the kernel has taken memory and has changed file tables, and nothing else. -/
structure Grown (k k' : Kernel) : Prop where
  frame : ∃ s f i, k' = { k with machine := s, files := f, inodes := i }
  ledger : ∀ lo hi m₀ used, Ledger lo hi m₀ k.machine used →
    ∃ used', (∀ u ∈ used, u ∈ used') ∧ Ledger lo hi m₀ k'.machine used'

theorem alloc_eq_ok {k k' : Kernel} {bytes addr : U32} (hcall : k.alloc bytes = .ok (addr, k')) :
    ∃ s', kmalloc k.machine bytes = .ok (addr, s') ∧ k' = { k with machine := s' } := by
  unfold Kernel.alloc at hcall
  obtain ⟨⟨addr', s'⟩, halloc, hcall⟩ := Res.bind_eq_ok.mp hcall
  obtain ⟨rfl, rfl⟩ := Prod.mk.inj (Except.ok.inj hcall)
  exact ⟨s', halloc, rfl⟩

namespace Grown

variable {k k' k'' : Kernel}

theorem tasks (h : Grown k k') : k'.tasks = k.tasks := by
  obtain ⟨s, f, i, rfl⟩ := h.frame
  rfl

theorem taskList (h : Grown k k') : k'.taskList = k.taskList := by
  obtain ⟨s, f, i, rfl⟩ := h.frame
  rfl

theorem taskCount (h : Grown k k') : k'.taskCount = k.taskCount := by
  obtain ⟨s, f, i, rfl⟩ := h.frame
  rfl

theorem idleTask (h : Grown k k') : k'.idleTask = k.idleTask := by
  obtain ⟨s, f, i, rfl⟩ := h.frame
  rfl

theorem currentTask (h : Grown k k') : k'.currentTask = k.currentTask := by
  obtain ⟨s, f, i, rfl⟩ := h.frame
  rfl

theorem refl (k : Kernel) : Grown k k :=
  ⟨⟨k.machine, k.files, k.inodes, rfl⟩, fun _ _ _ used h => ⟨used, fun _ hu => hu, h⟩⟩

theorem trans (h₁ : Grown k k') (h₂ : Grown k' k'') : Grown k k'' := by
  refine ⟨?_, ?_⟩
  · obtain ⟨s₁, f₁, i₁, rfl⟩ := h₁.frame
    obtain ⟨s₂, f₂, i₂, rfl⟩ := h₂.frame
    exact ⟨s₂, f₂, i₂, rfl⟩
  · intro lo hi m₀ used h
    obtain ⟨used₁, hsub₁, hledger₁⟩ := h₁.ledger lo hi m₀ used h
    obtain ⟨used₂, hsub₂, hledger₂⟩ := h₂.ledger lo hi m₀ used₁ hledger₁
    exact ⟨used₂, fun u hu => hsub₂ u (hsub₁ u hu), hledger₂⟩

theorem alloc {bytes addr : U32} (hcall : k.alloc bytes = .ok (addr, k')) : Grown k k' := by
  obtain ⟨s', halloc, rfl⟩ := alloc_eq_ok hcall
  refine ⟨⟨s', k.files, k.inodes, rfl⟩, ?_⟩
  intro lo hi m₀ used h
  exact ⟨_, fun u hu => List.mem_cons_of_mem _ hu, (h.kmalloc halloc).2.2⟩

theorem fileAllocInit {file : Option File} (hcall : fileAllocInit k = .ok (file, k')) : Grown k k' := by
  unfold Krnl.fileAllocInit at hcall
  obtain ⟨⟨addr, k₁⟩, halloc, hcall⟩ := Res.bind_eq_ok.mp hcall
  dsimp only at hcall
  split at hcall
  all_goals
    obtain ⟨-, rfl⟩ := Prod.mk.inj (Except.ok.inj hcall)
    exact alloc halloc

theorem fileDup {toFile : Option File} {fromFile copy : File}
    (hcall : fileDup k toFile fromFile = .ok (copy, k')) : Grown k k' := by
  unfold Krnl.fileDup at hcall
  split at hcall
  · simp at hcall
  · obtain ⟨-, rfl⟩ := Prod.mk.inj (Except.ok.inj hcall)
    exact ⟨⟨k.machine, k.files, _, rfl⟩, (refl k).ledger⟩

theorem filesDupLoop {files copies list : List File}
    (hcall : filesDupLoop files k copies = .ok (list, k')) : Grown k k' := by
  induction files generalizing k copies with
  | nil =>
      obtain ⟨-, rfl⟩ := Prod.mk.inj (Except.ok.inj hcall)
      exact refl k
  | cons f rest ih =>
      unfold Krnl.filesDupLoop at hcall
      obtain ⟨⟨toFile, k₁⟩, halloc, hcall⟩ := Res.bind_eq_ok.mp hcall
      obtain ⟨⟨copy, k₂⟩, hdup, hcall⟩ := Res.bind_eq_ok.mp hcall
      exact ((fileAllocInit halloc).trans (fileDup hdup)).trans (ih hcall)

theorem setFileStruct (k : Kernel) (addr : U32) (files : FileStruct) : Grown k (k.setFileStruct addr files) :=
  ⟨⟨k.machine, _, k.inodes, rfl⟩, (refl k).ledger⟩

theorem filesDup {toFiles fromFiles : U32} {ret : Int}
    (hcall : filesDup k toFiles fromFiles = .ok (ret, k')) : Grown k k' := by
  unfold Krnl.filesDup at hcall
  obtain ⟨-, -, hcall⟩ := Res.bind_eq_ok.mp hcall
  obtain ⟨tf, -, hcall⟩ := Res.bind_eq_ok.mp hcall
  obtain ⟨ff, -, hcall⟩ := Res.bind_eq_ok.mp hcall
  obtain ⟨-, -, hcall⟩ := Res.bind_eq_ok.mp hcall
  obtain ⟨⟨list, k₁⟩, hloop, hcall⟩ := Res.bind_eq_ok.mp hcall
  obtain ⟨-, rfl⟩ := Prod.mk.inj (Except.ok.inj hcall)
  refine Grown.trans ?_ ((filesDupLoop hloop).trans (setFileStruct _ _ _))
  split
  · exact ⟨⟨k.machine, k.files, _, rfl⟩, (refl k).ledger⟩
  · exact refl k

theorem filesCreate {files : U32} (hcall : filesCreate k = .ok (files, k')) : Grown k k' := by
  unfold Krnl.filesCreate at hcall
  obtain ⟨⟨addr, k₁⟩, halloc, hcall⟩ := Res.bind_eq_ok.mp hcall
  dsimp only at hcall
  split at hcall
  · obtain ⟨-, rfl⟩ := Prod.mk.inj (Except.ok.inj hcall)
    exact alloc halloc
  · obtain ⟨-, rfl⟩ := Prod.mk.inj (Except.ok.inj hcall)
    exact (alloc halloc).trans (setFileStruct _ _ _)

theorem filesRefInc {files : U32} (hcall : filesRefInc k files = .ok k') : Grown k k' := by
  unfold Krnl.filesRefInc at hcall
  obtain ⟨f, -, hcall⟩ := Res.bind_eq_ok.mp hcall
  obtain rfl := Except.ok.inj hcall
  exact setFileStruct _ _ _

end Grown

end Krnl
end FreakOS
