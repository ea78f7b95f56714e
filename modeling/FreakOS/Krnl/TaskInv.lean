import FreakOS.Krnl.Effects

/-!
# The task list and the pages of its tasks

In runs of `do_fork`, `do_exit` and `do_wait` from `initTask` on, all tasks are kernel threads: they have no
memory map, and the pages in use are blocks of `kmalloc`.

* `TaskInv` — the tasks that live are those on `TaskList`, each with its own page and its own stack.
* `Forking` — the invariant in the middle of a `do_fork`.
-/

namespace FreakOS
namespace Krnl

open Lib
open Memory

/-- The invariant of the task list.  `used` are the blocks of `kmalloc` that are held. -/
structure TaskInv (lo hi : Nat) (m₀ : Pmm) (k : Kernel) (used : List Extent) : Prop where
  ledger : Ledger lo hi m₀ k.machine used
  nodup : k.taskList.Nodup
  live : ∀ a, a ∈ k.taskList ↔ (k.tasks a).isSome
  null : k.tasks NULL = none
  idle : k.idleTask ∈ k.taskList
  noMm : ∀ a t, k.tasks a = some t → t.mm = NULL
  page : ∀ a t, k.tasks a = some t → page2kva (pageOf a) = a ∧ blockOf a sizeofTask ∈ used
  stack : ∀ a t, k.tasks a = some t → a ≠ k.idleTask →
    page2kva (pageOf t.kstack) = t.kstack ∧ blockOf t.kstack KSTACKSIZE ∈ used
  /-- No two tasks have the same stack; the one of `idle_task` is not from `kmalloc`. -/
  stack_ne : ∀ a b t u, k.tasks a = some t → k.tasks b = some u → a ≠ k.idleTask → b ≠ k.idleTask →
    t.kstack = u.kstack → a = b

/-- Blocks of tasks and of stacks differ in length. -/
theorem blockOf_task_ne_stack (a b : U32) : blockOf a sizeofTask ≠ blockOf b KSTACKSIZE := by
  intro h
  obtain ⟨h1, h2⟩ := Extent.mk.inj h
  have h3 : pagesOf sizeofTask = 1 := rfl
  have h4 : pagesOf KSTACKSIZE = 2 := rfl
  omega

theorem eq_of_blockOf_eq {a b bytes : U32} (ha : page2kva (pageOf a) = a) (hb : page2kva (pageOf b) = b)
    (h : blockOf a bytes = blockOf b bytes) : a = b := by
  rw [← ha, ← hb, show pageOf a = pageOf b from (Extent.mk.inj h).1]

section Inv

variable {lo hi : Nat} {m₀ : Pmm} {k k' k'' : Kernel} {used used' : List Extent}

namespace TaskInv

theorem kept (h : TaskInv lo hi m₀ k used) (hkept : Kept Task.core k k') :
    TaskInv lo hi m₀ k' used := by
  refine ⟨hkept.machine ▸ h.ledger, hkept.taskList ▸ h.nodup, ?_, ?_, ?_, ?_, ?_, ?_, ?_⟩
  · intro a
    rw [hkept.taskList, hkept.isSome]
    exact h.live a
  · have hnull := hkept.tasks NULL
    rw [h.null] at hnull
    simpa using hnull
  · rw [hkept.idleTask, hkept.taskList]
    exact h.idle
  · intro a t' ht'
    obtain ⟨t, ht, hcore⟩ := hkept.task ht'
    rw [← (Task.core_inj hcore).2.2]
    exact h.noMm a t ht
  · intro a t' ht'
    obtain ⟨t, ht, -⟩ := hkept.task ht'
    exact h.page a t ht
  · intro a t' ht' hne
    obtain ⟨t, ht, hcore⟩ := hkept.task ht'
    rw [← (Task.core_inj hcore).2.1]
    exact h.stack a t ht (hkept.idleTask ▸ hne)
  · intro a b t' u' ht' hu' ha hb hkstack
    obtain ⟨t, ht, hcore⟩ := hkept.task ht'
    obtain ⟨u, hu, hcore'⟩ := hkept.task hu'
    rw [hkept.idleTask] at ha hb
    refine h.stack_ne a b t u ht hu ha hb ?_
    rw [(Task.core_inj hcore).2.1, hkstack, (Task.core_inj hcore').2.1]

/-- The kernel holds more blocks. -/
theorem grow (h : TaskInv lo hi m₀ k used) (htasks : k'.tasks = k.tasks) (hlist : k'.taskList = k.taskList)
    (hidle : k'.idleTask = k.idleTask) (hsub : ∀ u ∈ used, u ∈ used')
    (hledger : Ledger lo hi m₀ k'.machine used') : TaskInv lo hi m₀ k' used' := by
  refine ⟨hledger, hlist ▸ h.nodup, ?_, ?_, ?_, ?_, ?_, ?_, ?_⟩
  · rw [hlist, htasks]
    exact h.live
  · rw [htasks]
    exact h.null
  · rw [hidle, hlist]
    exact h.idle
  · rw [htasks]
    exact h.noMm
  · intro a t ht
    obtain ⟨h1, h2⟩ := h.page a t (htasks ▸ ht)
    exact ⟨h1, hsub _ h2⟩
  · intro a t ht hne
    obtain ⟨h1, h2⟩ := h.stack a t (htasks ▸ ht) (hidle ▸ hne)
    exact ⟨h1, hsub _ h2⟩
  · rw [htasks, hidle]
    exact h.stack_ne

/-- A task is taken from the list, and its two blocks are given back. -/
theorem remove (h : TaskInv lo hi m₀ k used) {a : U32} {t : Task} (ht : k.tasks a = some t)
    (hne : a ≠ k.idleTask) (htasks : ∀ x, x ≠ a → (k'.tasks x).map Task.core = (k.tasks x).map Task.core)
    (hdead : k'.tasks a = none) (hlist : k'.taskList = k.taskList.erase a)
    (hidle : k'.idleTask = k.idleTask)
    (hledger : Ledger lo hi m₀ k'.machine
      ((used.erase (blockOf t.kstack KSTACKSIZE)).erase (blockOf a sizeofTask))) :
    TaskInv lo hi m₀ k' ((used.erase (blockOf t.kstack KSTACKSIZE)).erase (blockOf a sizeofTask)) := by
  have hother : ∀ x t', k'.tasks x = some t' → x ≠ a ∧ ∃ u, k.tasks x = some u ∧ u.core = t'.core := by
    intro x t' ht'
    have hx : x ≠ a := by
      rintro rfl
      simp [hdead] at ht'
    exact ⟨hx, exists_of_map_eq (htasks x hx) ht'⟩
  refine ⟨hledger, hlist ▸ h.nodup.erase a, ?_, ?_, ?_, ?_, ?_, ?_, ?_⟩
  · intro x
    rw [hlist]
    by_cases hx : x = a
    · subst hx
      simp [hdead, h.nodup.not_mem_erase]
    · rw [List.mem_erase_of_ne hx, h.live x]
      have := congrArg Option.isSome (htasks x hx)
      simp only [Option.isSome_map] at this
      rw [this]
  · by_cases hx : NULL = a
    · rw [hx]
      exact hdead
    · have hnull := htasks NULL hx
      rw [h.null] at hnull
      simpa using hnull
  · rw [hlist, hidle, List.mem_erase_of_ne (Ne.symm hne)]
    exact h.idle
  · intro x t' ht'
    obtain ⟨-, u, hu, hcore⟩ := hother x t' ht'
    rw [← (Task.core_inj hcore).2.2]
    exact h.noMm x u hu
  · intro x t' ht'
    obtain ⟨hx, u, hu, -⟩ := hother x t' ht'
    obtain ⟨h1, h2⟩ := h.page x u hu
    refine ⟨h1, ?_⟩
    rw [List.mem_erase_of_ne, List.mem_erase_of_ne (blockOf_task_ne_stack x _)]
    · exact h2
    · intro hblock
      exact hx (eq_of_blockOf_eq h1 (h.page a t ht).1 hblock)
  · intro x t' ht' hxi
    obtain ⟨hx, u, hu, hcore⟩ := hother x t' ht'
    rw [hidle] at hxi
    obtain ⟨h1, h2⟩ := h.stack x u hu hxi
    rw [← (Task.core_inj hcore).2.1]
    refine ⟨h1, ?_⟩
    rw [List.mem_erase_of_ne (blockOf_task_ne_stack a _).symm, List.mem_erase_of_ne]
    · exact h2
    · intro hblock
      exact hx (h.stack_ne x a u t hu ht hxi hne (eq_of_blockOf_eq h1 (h.stack a t ht hne).1 hblock))
  · intro x y t' u' ht' hu' hxi hyi hkstack
    obtain ⟨-, v, hv, hcore⟩ := hother x t' ht'
    obtain ⟨-, w, hw, hcore'⟩ := hother y u' hu'
    rw [hidle] at hxi hyi
    refine h.stack_ne x y v w hv hw hxi hyi ?_
    rw [(Task.core_inj hcore).2.1, hkstack, (Task.core_inj hcore').2.1]

/-- A task joins the list, with blocks of its own. -/
theorem add (h : TaskInv lo hi m₀ k used) {a : U32} {t : Task} (hnew : k.tasks a = none) (hne : a ≠ NULL)
    (ht : k'.tasks a = some t)
    (htasks : ∀ x, x ≠ a → (k'.tasks x).map Task.core = (k.tasks x).map Task.core)
    (hlist : k'.taskList = a :: k.taskList) (hidle : k'.idleTask = k.idleTask) (hmm : t.mm = NULL)
    (hpage : page2kva (pageOf a) = a) (hblock : blockOf a sizeofTask ∈ used')
    (hstack : page2kva (pageOf t.kstack) = t.kstack) (hblock' : blockOf t.kstack KSTACKSIZE ∈ used')
    (hfresh : blockOf t.kstack KSTACKSIZE ∉ used) (hsub : ∀ u ∈ used, u ∈ used')
    (hledger : Ledger lo hi m₀ k'.machine used') : TaskInv lo hi m₀ k' used' := by
  have hnot : a ∉ k.taskList := by simp [h.live, hnew]
  have hold : ∀ x t', k'.tasks x = some t' → (x = a ∧ t' = t) ∨
      (x ≠ a ∧ ∃ u, k.tasks x = some u ∧ u.core = t'.core) := by
    intro x t' ht'
    by_cases hx : x = a
    · subst hx
      exact Or.inl ⟨rfl, Option.some.inj (ht'.symm.trans ht)⟩
    · exact Or.inr ⟨hx, exists_of_map_eq (htasks x hx) ht'⟩
  -- The stack of another task is a block that was held before.
  have hapart : ∀ x u, k.tasks x = some u → x ≠ k.idleTask → t.kstack ≠ u.kstack := by
    intro x u hu hxi hkstack
    refine hfresh ?_
    rw [hkstack]
    exact (h.stack x u hu hxi).2
  refine ⟨hledger, ?_, ?_, ?_, ?_, ?_, ?_, ?_, ?_⟩
  · rw [hlist]
    exact List.nodup_cons.mpr ⟨hnot, h.nodup⟩
  · intro x
    rw [hlist, List.mem_cons]
    by_cases hx : x = a
    · subst hx
      simp [ht]
    · have hsome := congrArg Option.isSome (htasks x hx)
      simp only [Option.isSome_map] at hsome
      simp [hx, hsome, h.live]
  · have hnull := htasks NULL hne.symm
    rw [h.null] at hnull
    simpa using hnull
  · rw [hlist, hidle]
    exact List.mem_cons_of_mem a h.idle
  · intro x t' ht'
    rcases hold x t' ht' with ⟨rfl, rfl⟩ | ⟨-, u, hu, hcore⟩
    · exact hmm
    · rw [← (Task.core_inj hcore).2.2]
      exact h.noMm x u hu
  · intro x t' ht'
    rcases hold x t' ht' with ⟨rfl, rfl⟩ | ⟨-, u, hu, -⟩
    · exact ⟨hpage, hblock⟩
    · obtain ⟨h1, h2⟩ := h.page x u hu
      exact ⟨h1, hsub _ h2⟩
  · intro x t' ht' hxi
    rcases hold x t' ht' with ⟨rfl, rfl⟩ | ⟨-, u, hu, hcore⟩
    · exact ⟨hstack, hblock'⟩
    · obtain ⟨h1, h2⟩ := h.stack x u hu (hidle ▸ hxi)
      rw [← (Task.core_inj hcore).2.1]
      exact ⟨h1, hsub _ h2⟩
  · intro x y t' u' ht' hu' hxi hyi hkstack
    rw [hidle] at hxi hyi
    rcases hold x t' ht' with ⟨rfl, rfl⟩ | ⟨-, u, hu, hcore⟩
    · rcases hold y u' hu' with ⟨rfl, -⟩ | ⟨-, v, hv, hcore⟩
      · rfl
      · exact absurd (hkstack.trans (Task.core_inj hcore).2.1.symm) (hapart y v hv hyi)
    · rcases hold y u' hu' with ⟨rfl, rfl⟩ | ⟨-, v, hv, hcore'⟩
      · exact absurd (hkstack.symm.trans (Task.core_inj hcore).2.1.symm) (hapart x u hu hxi)
      · refine h.stack_ne x y u v hu hv hxi hyi ?_
        rw [(Task.core_inj hcore).2.1, hkstack, (Task.core_inj hcore').2.1]

end TaskInv

/-! ### `do_fork` -/

/-- What a task has until it is published. -/
def Task.seed (t : Task) : U32 × TaskState × U32 × U32 × U32 × U32 × U32 :=
  (t.mm, t.state, t.waitState, t.cptr, t.timeSlice, t.flags, t.parent)

/-- In the middle of a `do_fork` that started in `k`: task `a` exists and is not on the list. -/
structure Forking (lo hi : Nat) (m₀ : Pmm) (k : Kernel) (used : List Extent) (a : U32) (t : Task)
    (k' : Kernel) (used' : List Extent) : Prop where
  ledger : Ledger lo hi m₀ k'.machine used'
  sub : ∀ u ∈ used, u ∈ used'
  frame : ∃ s ts mm f i tf, k' = { k with
    machine := s, tasks := ts, mms := mm, files := f, inodes := i, trapFrames := tf }
  others : ∀ x, x ≠ a → k'.tasks x = k.tasks x
  self : k'.tasks a = some t
  fresh : k.tasks a = none
  seed : t.seed = (NULL, .uninit, WT_NOTWAIT, NULL, 0, 0, k.currentTask)
  ne_null : a ≠ NULL
  page : page2kva (pageOf a) = a
  block : blockOf a sizeofTask ∈ used'
  block_fresh : blockOf a sizeofTask ∉ used

/-- A failed `do_fork` has changed nothing but the machine, the file tables and what no task refers to. -/
def Unforked (k k' : Kernel) : Prop :=
  ∃ s mm f i tf, k' = { k with machine := s, mms := mm, files := f, inodes := i, trapFrames := tf }

/-- The stack of the new task is a block that was not held at the start. -/
structure Stacked (t : Task) (used used' : List Extent) : Prop where
  page : page2kva (pageOf t.kstack) = t.kstack
  block : blockOf t.kstack KSTACKSIZE ∈ used'
  block_fresh : blockOf t.kstack KSTACKSIZE ∉ used

theorem Stacked.mono {t t' : Task} {used₁ used₂ : List Extent} (h : Stacked t used used₁)
    (hkstack : t'.kstack = t.kstack) (hsub : ∀ u ∈ used₁, u ∈ used₂) : Stacked t' used used₂ := by
  refine ⟨?_, ?_, ?_⟩
  · rw [hkstack]
    exact h.page
  · rw [hkstack]
    exact hsub _ h.block
  · rw [hkstack]
    exact h.block_fresh

/-- The first steps of `do_fork`. -/
theorem allocTask_forking (h : TaskInv lo hi m₀ k used) {a : U32} (hcall : allocTask k = .ok (a, k')) :
    (a = NULL ∧ Grown k k') ∨ (a ≠ NULL ∧ ∀ k'',
      (k'.modifyTask a fun t => { t with parent := k'.currentTask }) = .ok k'' →
        ∃ t used', Forking lo hi m₀ k used a t k'' used') := by
  unfold allocTask at hcall
  obtain ⟨⟨addr, k₁⟩, halloc, hcall⟩ := Res.bind_eq_ok.mp hcall
  dsimp only at hcall
  split at hcall
  · obtain ⟨rfl, rfl⟩ := Prod.mk.inj (Except.ok.inj hcall)
    exact Or.inl ⟨rfl, Grown.alloc halloc⟩
  · rename_i hne
    obtain ⟨rfl, rfl⟩ := Prod.mk.inj (Except.ok.inj hcall)
    obtain ⟨s', hkmalloc, rfl⟩ := alloc_eq_ok halloc
    obtain ⟨hpage, hfresh, hledger⟩ := h.ledger.kmalloc hkmalloc
    have hnone : k.tasks addr = none := by
      cases ht : k.tasks addr with
      | none => rfl
      | some t => exact absurd (h.page addr t ht).2 hfresh
    refine Or.inr ⟨hne, ?_⟩
    intro k₂ hmod
    obtain ⟨t, ht, rfl⟩ := modifyTask_eq_ok.mp hmod
    have hread : Function.update k.tasks addr (some (newTask k.image.kernelCr3)) addr = some t := ht
    rw [Function.update_self] at hread
    obtain rfl := Option.some.inj hread
    refine ⟨{ newTask k.image.kernelCr3 with parent := k.currentTask }, _, hledger,
      fun u hu => List.mem_cons_of_mem _ hu, ⟨_, _, _, _, _, _, rfl⟩, ?_, ?_, hnone, rfl, hne, hpage,
      List.mem_cons_self .., hfresh⟩
    · intro x hx
      exact (Function.update_of_ne hx _ _).trans (Function.update_of_ne hx _ _)
    · exact Function.update_self ..

namespace Forking

variable {a : U32} {t : Task} {k₁ k₂ : Kernel} {used₁ : List Extent}

theorem taskList (h : Forking lo hi m₀ k used a t k₁ used₁) : k₁.taskList = k.taskList := by
  obtain ⟨s, ts, mm, f, i, tf, rfl⟩ := h.frame
  rfl

theorem taskCount (h : Forking lo hi m₀ k used a t k₁ used₁) : k₁.taskCount = k.taskCount := by
  obtain ⟨s, ts, mm, f, i, tf, rfl⟩ := h.frame
  rfl

theorem idleTask (h : Forking lo hi m₀ k used a t k₁ used₁) : k₁.idleTask = k.idleTask := by
  obtain ⟨s, ts, mm, f, i, tf, rfl⟩ := h.frame
  rfl

theorem currentTask (h : Forking lo hi m₀ k used a t k₁ used₁) : k₁.currentTask = k.currentTask := by
  obtain ⟨s, ts, mm, f, i, tf, rfl⟩ := h.frame
  rfl

theorem mm (h : Forking lo hi m₀ k used a t k₁ used₁) : t.mm = NULL := congrArg Prod.fst h.seed

theorem modify (h : Forking lo hi m₀ k used a t k₁ used₁) {g : Task → Task}
    (hcall : k₁.modifyTask a g = .ok k₂) (hg : ∀ t, (g t).seed = t.seed) :
    Forking lo hi m₀ k used a (g t) k₂ used₁ := by
  obtain ⟨t', ht', rfl⟩ := modifyTask_eq_ok.mp hcall
  obtain rfl := Option.some.inj (h.self.symm.trans ht')
  refine ⟨h.ledger, h.sub, ?_, ?_, ?_, h.fresh, (hg t).trans h.seed, h.ne_null, h.page, h.block,
    h.block_fresh⟩
  · obtain ⟨s, ts, mm, f, i, tf, rfl⟩ := h.frame
    exact ⟨_, _, _, _, _, _, rfl⟩
  · intro x hx
    exact (Function.update_of_ne hx _ _).trans (h.others x hx)
  · exact Function.update_self ..

theorem grown (h : Forking lo hi m₀ k used a t k₁ used₁) (hgrown : Grown k₁ k₂) :
    ∃ used₂, (∀ u ∈ used₁, u ∈ used₂) ∧ Forking lo hi m₀ k used a t k₂ used₂ := by
  obtain ⟨used₂, hsub, hledger⟩ := hgrown.ledger lo hi m₀ used₁ h.ledger
  refine ⟨used₂, hsub, hledger, fun u hu => hsub u (h.sub u hu), ?_, ?_, ?_, h.fresh, h.seed, h.ne_null,
    h.page, hsub _ h.block, h.block_fresh⟩
  · obtain ⟨s, ts, mm, f, i, tf, rfl⟩ := h.frame
    obtain ⟨s', f', i', rfl⟩ := hgrown.frame
    exact ⟨_, _, _, _, _, _, rfl⟩
  · rw [hgrown.tasks]
    exact h.others
  · rw [hgrown.tasks]
    exact h.self

/-- Only the machine has changed. -/
theorem machine (h : Forking lo hi m₀ k used a t k₁ used₁) {s' : Machine} {used₂ : List Extent}
    (hledger : Ledger lo hi m₀ s' used₂) (hsub : ∀ u ∈ used, u ∈ used₂) (hblock : blockOf a sizeofTask ∈ used₂) :
    Forking lo hi m₀ k used a t { k₁ with machine := s' } used₂ := by
  refine ⟨hledger, hsub, ?_, h.others, h.self, h.fresh, h.seed, h.ne_null, h.page, hblock, h.block_fresh⟩
  obtain ⟨s, ts, mm, f, i, tf, rfl⟩ := h.frame
  exact ⟨_, _, _, _, _, _, rfl⟩

theorem setupNewKstack (h : Forking lo hi m₀ k used a t k₁ used₁) {err : Int}
    (hcall : setupNewKstack k₁ a = .ok (err, k₂)) :
    (err ≠ 0 ∧ ∃ used₂, Forking lo hi m₀ k used a t k₂ used₂) ∨
      (err = 0 ∧ ∃ t' used₂, Forking lo hi m₀ k used a t' k₂ used₂ ∧ Stacked t' used used₂) := by
  unfold Krnl.setupNewKstack at hcall
  obtain ⟨⟨stack, k₃⟩, halloc, hcall⟩ := Res.bind_eq_ok.mp hcall
  dsimp only at hcall
  split at hcall
  · obtain ⟨k₄, hmod, hcall⟩ := Res.bind_eq_ok.mp hcall
    obtain ⟨rfl, rfl⟩ := Prod.mk.inj (Except.ok.inj hcall)
    obtain ⟨s', hkmalloc, rfl⟩ := alloc_eq_ok halloc
    obtain ⟨hpage, hfresh, hledger⟩ := h.ledger.kmalloc hkmalloc
    have h₃ : Forking lo hi m₀ k used a t { k₁ with machine := s' } (blockOf stack KSTACKSIZE :: used₁) :=
      h.machine hledger (fun u hu => List.mem_cons_of_mem _ (h.sub u hu)) (List.mem_cons_of_mem _ h.block)
    exact Or.inr ⟨rfl, _, _, h₃.modify hmod fun _ => rfl, hpage, List.mem_cons_self ..,
      fun hc => hfresh (h.sub _ hc)⟩
  · obtain ⟨rfl, rfl⟩ := Prod.mk.inj (Except.ok.inj hcall)
    obtain ⟨used₂, -, h₂⟩ := h.grown (Grown.alloc halloc)
    exact Or.inl ⟨by decide, used₂, h₂⟩

theorem installFiles (h : Forking lo hi m₀ k used a t k₁ used₁) {files : U32} {err : Int}
    (hcall : installFiles k₁ a files = .ok (err, k₂)) :
    ∃ t' used₂, Forking lo hi m₀ k used a t' k₂ used₂ ∧ (∀ u ∈ used₁, u ∈ used₂) ∧
      t'.kstack = t.kstack := by
  unfold Krnl.installFiles at hcall
  obtain ⟨k₃, hinc, hcall⟩ := Res.bind_eq_ok.mp hcall
  obtain ⟨k₄, hmod, hcall⟩ := Res.bind_eq_ok.mp hcall
  obtain ⟨-, rfl⟩ := Prod.mk.inj (Except.ok.inj hcall)
  obtain ⟨used₂, hsub, h₃⟩ := h.grown (Grown.filesRefInc hinc)
  exact ⟨_, used₂, h₃.modify hmod fun _ => rfl, hsub, rfl⟩

theorem copyFiles (h : Forking lo hi m₀ k used a t k₁ used₁) {flags : U32} {err : Int}
    (hcall : copyFiles k₁ flags a = .ok (err, k₂)) :
    ∃ t' used₂, Forking lo hi m₀ k used a t' k₂ used₂ ∧ (∀ u ∈ used₁, u ∈ used₂) ∧
      t'.kstack = t.kstack := by
  unfold Krnl.copyFiles at hcall
  obtain ⟨current, -, hcall⟩ := Res.bind_eq_ok.mp hcall
  dsimp only at hcall
  split at hcall
  · obtain ⟨-, rfl⟩ := Prod.mk.inj (Except.ok.inj hcall)
    exact ⟨t, used₁, h, fun _ hu => hu, rfl⟩
  · split at hcall
    · exact h.installFiles hcall
    · obtain ⟨⟨files, k₃⟩, hcreate, hcall⟩ := Res.bind_eq_ok.mp hcall
      obtain ⟨used₃, hsub₃, h₃⟩ := h.grown (Grown.filesCreate hcreate)
      dsimp only at hcall
      split at hcall
      · obtain ⟨-, rfl⟩ := Prod.mk.inj (Except.ok.inj hcall)
        exact ⟨t, used₃, h₃, hsub₃, rfl⟩
      · obtain ⟨⟨ret, k₄⟩, hdup, hcall⟩ := Res.bind_eq_ok.mp hcall
        obtain ⟨used₄, hsub₄, h₄⟩ := h₃.grown (Grown.filesDup hdup)
        dsimp only at hcall
        split at hcall
        · obtain ⟨-, rfl⟩ := Prod.mk.inj (Except.ok.inj hcall)
          exact ⟨t, used₄, h₄, fun u hu => hsub₄ u (hsub₃ u hu), rfl⟩
        · obtain ⟨t', used₅, h₅, hsub₅, hkstack⟩ := h₄.installFiles hcall
          exact ⟨t', used₅, h₅, fun u hu => hsub₅ u (hsub₄ u (hsub₃ u hu)), hkstack⟩

/-- No task has a memory map to copy. -/
theorem copyMm (h : Forking lo hi m₀ k used a t k₁ used₁) (hk : TaskInv lo hi m₀ k used) {flags : U32}
    {err : Int} (hcall : copyMm k₁ flags a = .ok (err, k₂)) : err = 0 ∧ k₂ = k₁ := by
  unfold Krnl.copyMm at hcall
  obtain ⟨current, hcurrent, hcall⟩ := Res.bind_eq_ok.mp hcall
  rw [task_eq_ok] at hcurrent
  have hmm : current.mm = NULL := by
    by_cases hx : k₁.currentTask = a
    · rw [hx, h.self] at hcurrent
      exact Option.some.inj hcurrent ▸ h.mm
    · rw [h.others _ hx] at hcurrent
      exact hk.noMm _ _ hcurrent
  dsimp only at hcall
  rw [if_pos hmm] at hcall
  obtain ⟨rfl, rfl⟩ := Prod.mk.inj (Except.ok.inj hcall)
  exact ⟨rfl, rfl⟩

theorem freeTask (h : Forking lo hi m₀ k used a t k₁ used₁) (hk : TaskInv lo hi m₀ k used)
    (hcall : freeTask k₁ a = .ok k₂) :
    Unforked k k₂ ∧ ∃ used₂, TaskInv lo hi m₀ k₂ used₂ := by
  unfold Krnl.freeTask Kernel.release at hcall
  obtain ⟨k₃, hrelease, hcall⟩ := Res.bind_eq_ok.mp hcall
  obtain ⟨s', hkfree, hrelease⟩ := Res.bind_eq_ok.mp hrelease
  obtain rfl := Except.ok.inj hrelease
  obtain rfl := Except.ok.inj hcall
  have htasks : Function.update k₁.tasks a none = k.tasks := by
    funext x
    by_cases hx : x = a
    · subst hx
      rw [Function.update_self, h.fresh]
    · rw [Function.update_of_ne hx, h.others x hx]
  refine ⟨?_, _, hk.grow htasks h.taskList h.idleTask ?_ (h.ledger.kfree h.block hkfree)⟩
  · rw [htasks]
    obtain ⟨s, ts, mm, f, i, tf, rfl⟩ := h.frame
    exact ⟨_, _, _, _, _, rfl⟩
  · intro u hu
    rw [List.mem_erase_of_ne]
    · exact h.sub u hu
    · rintro rfl
      exact h.block_fresh hu

theorem failedAndCleanKstack (h : Forking lo hi m₀ k used a t k₁ used₁) (hk : TaskInv lo hi m₀ k used)
    (hstack : Stacked t used used₁) {err : Int}
    (hcall : failedAndCleanKstack k₁ a = .ok (err, k₂)) :
    err = -E_NOMEM ∧ Unforked k k₂ ∧ ∃ used₂, TaskInv lo hi m₀ k₂ used₂ := by
  unfold Krnl.failedAndCleanKstack at hcall
  obtain ⟨t', ht', hcall⟩ := Res.bind_eq_ok.mp hcall
  obtain ⟨k₃, hrelease, hcall⟩ := Res.bind_eq_ok.mp hcall
  obtain ⟨k₄, hfree, hcall⟩ := Res.bind_eq_ok.mp hcall
  obtain ⟨rfl, rfl⟩ := Prod.mk.inj (Except.ok.inj hcall)
  obtain rfl := Option.some.inj (h.self.symm.trans (task_eq_ok.mp ht'))
  unfold Kernel.release at hrelease
  obtain ⟨s', hkfree, hrelease⟩ := Res.bind_eq_ok.mp hrelease
  obtain rfl := Except.ok.inj hrelease
  have h₃ : Forking lo hi m₀ k used a t { k₁ with machine := s' }
      (used₁.erase (blockOf t.kstack KSTACKSIZE)) := by
    refine h.machine (h.ledger.kfree hstack.block hkfree) ?_ ?_
    · intro u hu
      rw [List.mem_erase_of_ne]
      · exact h.sub u hu
      · rintro rfl
        exact hstack.block_fresh hu
    · rw [List.mem_erase_of_ne (blockOf_task_ne_stack a _)]
      exact h.block
  exact ⟨rfl, h₃.freeTask hk hfree⟩

end Forking

end Inv

end Krnl
end FreakOS
