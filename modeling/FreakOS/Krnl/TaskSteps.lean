import FreakOS.Krnl.TaskInv

/-!
# What the calls do to the task list

* `addTask_kept`, `delTask_kept` — a task joins or leaves the list, and every task keeps what it starts from.
* `doFork_cases` — `do_fork` fails and changes no task, or puts one new task on the list.
* `doExit_kept` — `do_exit` leaves the list alone.
* `doWait_shrunk`, `resumeWait_shrunk` — `do_wait` leaves the list alone or takes one task off it.
* `exec_cases` — the two kinds of step.
* `initTask_cases` — the state in which `initTask` forks `init_task` off `idle_task`.
-/

namespace FreakOS
namespace Krnl

open Lib
open Memory

section Steps

variable {lo hi : Nat} {m₀ : Pmm} {k k' : Kernel} {used : List Extent}

/-! ### Joining and leaving -/

theorem addTask_kept {a : U32} (hcall : addTask k a = .ok k') :
    Kept Task.unlinked { k with taskList := a :: k.taskList, taskCount := k.taskCount + 1 } k' := by
  unfold addTask at hcall
  obtain ⟨t, ht, hcall⟩ := Res.bind_eq_ok.mp hcall
  obtain ⟨p, -, hcall⟩ := Res.bind_eq_ok.mp hcall
  obtain ⟨k₁, holder, hcall⟩ := Res.bind_eq_ok.mp hcall
  obtain ⟨k₂, hparent, hcall⟩ := Res.bind_eq_ok.mp hcall
  obtain rfl := Except.ok.inj hcall
  have h₀ : Kept Task.unlinked { k with taskList := listAdd a k.taskList }
      (Kernel.setTask { k with taskList := listAdd a k.taskList } a { t with yptr := NULL, optr := p.cptr }) :=
    Kept.setTask (task_eq_ok.mp ht) rfl
  have h₁ := h₀.trans (Kept.doIf holder fun _ hmod => Kept.modifyTask hmod fun _ => rfl)
  have h₂ := h₁.trans (Kept.modifyTask hparent fun _ => rfl)
  exact ⟨h₂.machine, h₂.taskList, congrArg (· + 1) h₂.taskCount, h₂.idleTask, h₂.initTask, h₂.tasks⟩

theorem delTask_kept {a : U32} (hcall : delTask k a = .ok k') :
    Kept Task.unlinked { k with taskList := k.taskList.erase a, taskCount := k.taskCount - 1 } k' := by
  unfold delTask at hcall
  obtain ⟨t, -, hcall⟩ := Res.bind_eq_ok.mp hcall
  obtain ⟨k₁, holder, hcall⟩ := Res.bind_eq_ok.mp hcall
  obtain ⟨t', -, hcall⟩ := Res.bind_eq_ok.mp hcall
  obtain ⟨k₂, hyounger, hcall⟩ := Res.bind_eq_ok.mp hcall
  obtain ⟨k₃, hparent, hcall⟩ := Res.bind_eq_ok.mp hcall
  obtain rfl := Except.ok.inj hcall
  have h₁ : Kept Task.unlinked { k with taskList := listDel a k.taskList } k₁ :=
    Kept.doIf holder fun _ hmod => Kept.modifyTask hmod fun _ => rfl
  have h₂ := h₁.trans (Kept.doIf hyounger fun _ hmod => Kept.modifyTask hmod fun _ => rfl)
  have h₃ := h₂.trans (Kept.doIf hparent fun _ hmod => Kept.modifyTask hmod fun _ => rfl)
  exact ⟨h₃.machine, h₃.taskList, congrArg (· - 1) h₃.taskCount, h₃.idleTask, h₃.initTask, h₃.tasks⟩

/-- Task `t` at address `a` joins the list. -/
def Kernel.join (k : Kernel) (a : U32) (t : Task) : Kernel :=
  { k.setTask a t with taskList := a :: k.taskList, taskCount := k.taskCount + 1 }

theorem Kernel.join_self (k : Kernel) (a : U32) (t : Task) : (k.join a t).tasks a = some t :=
  Function.update_self ..

theorem Kernel.join_of_ne (k : Kernel) {a x : U32} (t : Task) (hx : x ≠ a) :
    (k.join a t).tasks x = k.tasks x := Function.update_of_ne hx _ _

/-- The child gets its id and joins the list; nothing else of what tasks start from changes. -/
theorem publish_kept {a : U32} {ret : Int} (hcall : publish k a = .ok (ret, k')) :
    ∃ t, k.tasks a = some t ∧ ret = (getNewTid k).toInt ∧
      Kept Task.start (k.join a { t with tid := getNewTid k }) k' := by
  unfold publish at hcall
  obtain ⟨k₁, hmod, hcall⟩ := Res.bind_eq_ok.mp hcall
  obtain ⟨k₂, hadd, hcall⟩ := Res.bind_eq_ok.mp hcall
  obtain ⟨k₃, hwake, hcall⟩ := Res.bind_eq_ok.mp hcall
  obtain ⟨t', ht', hcall⟩ := Res.bind_eq_ok.mp hcall
  obtain ⟨rfl, rfl⟩ := Prod.mk.inj (Except.ok.inj hcall)
  obtain ⟨t, ht, rfl⟩ := modifyTask_eq_ok.mp hmod
  have hkept : Kept Task.start (k.join a { t with tid := getNewTid k }) k₃ :=
    ((addTask_kept hadd).comp Task.start).trans ((wakeupTask_kept hwake).comp Task.start)
  refine ⟨t, ht, ?_, hkept⟩
  obtain ⟨u, hu, hstart⟩ := hkept.task (task_eq_ok.mp ht')
  obtain rfl := Option.some.inj ((k.join_self a _).symm.trans hu)
  rw [← (Task.core_inj (Prod.mk.inj hstart).1).1]

/-! ### `do_fork` -/

theorem Forking.copyTask {a : U32} {t : Task} {k₁ k₂ : Kernel} {used₁ : List Extent}
    (h : Forking lo hi m₀ k used a t k₁ used₁) {esp : U32} {frame : InterruptFrame}
    (hcall : copyTask k₁ a esp frame = .ok k₂) :
    ∃ t', Forking lo hi m₀ k used a t' k₂ used₁ ∧ t'.kstack = t.kstack := by
  unfold Krnl.copyTask at hcall
  obtain ⟨t', ht', hcall⟩ := Res.bind_eq_ok.mp hcall
  obtain rfl := Except.ok.inj hcall
  obtain rfl := Option.some.inj (h.self.symm.trans (task_eq_ok.mp ht'))
  refine ⟨_, ⟨h.ledger, h.sub, ?_, ?_, Function.update_self .., h.fresh, h.seed, h.ne_null, h.page, h.block,
    h.block_fresh⟩, rfl⟩
  · obtain ⟨s, ts, mm, f, i, tf, rfl⟩ := h.frame
    exact ⟨_, _, _, _, _, _, rfl⟩
  · intro x hx
    exact (Function.update_of_ne hx _ _).trans (h.others x hx)

/-- A `do_fork` that puts task `a` on the list. -/
structure Forked (lo hi : Nat) (m₀ : Pmm) (k : Kernel) (a : U32) (t : Task) (k' : Kernel) : Prop where
  fresh : a ∉ k.taskList
  taskList : k'.taskList = a :: k.taskList
  taskCount : k'.taskCount = k.taskCount + 1
  tid : t.tid = k.taskCount
  self : k'.tasks a = some t
  others : ∀ x, x ≠ a → (k'.tasks x).map Task.core = (k.tasks x).map Task.core
  inv : ∃ used', TaskInv lo hi m₀ k' used'

theorem Forking.publish {a : U32} {t : Task} {k₁ : Kernel} {used₁ : List Extent}
    (h : Forking lo hi m₀ k used a t k₁ used₁) (hk : TaskInv lo hi m₀ k used)
    (hstack : Stacked t used used₁) {ret : Int} (hcall : publish k₁ a = .ok (ret, k')) :
    ∃ t', ret = t'.tid.toInt ∧ Forked lo hi m₀ k a t' k' := by
  obtain ⟨u, hu, rfl, hkept⟩ := publish_kept hcall
  obtain rfl := Option.some.inj (h.self.symm.trans hu)
  obtain ⟨t', ht', hstart⟩ := exists_of_map_eq (hkept.tasks a).symm (k₁.join_self a _)
  obtain ⟨htid, hkstack, hmm⟩ := Task.core_inj (Prod.mk.inj hstart).1
  have hothers : ∀ x, x ≠ a → (k'.tasks x).map Task.core = (k.tasks x).map Task.core := by
    intro x hx
    have hstart := (hkept.comp Prod.fst).tasks x
    rw [k₁.join_of_ne _ hx, h.others x hx] at hstart
    exact hstart
  have hlist : k'.taskList = a :: k.taskList := hkept.taskList.trans (congrArg (a :: ·) h.taskList)
  have hlonger : k'.taskCount = k.taskCount + 1 := hkept.taskCount.trans (congrArg (· + 1) h.taskCount)
  have hcount : getNewTid k₁ = k.taskCount := by
    rw [← h.taskCount]
    exact BitVec.sub_add_cancel ..
  refine ⟨t', congrArg BitVec.toInt htid.symm, ?_, hlist, hlonger, htid.trans hcount, ht', hothers, used₁, ?_⟩
  · simp [hk.live, h.fresh]
  · refine hk.add h.fresh h.ne_null ht' hothers hlist (hkept.idleTask.trans h.idleTask) (hmm.trans h.mm) h.page h.block
      ?_ ?_ ?_ h.sub (hkept.machine ▸ h.ledger)
    · rw [hkstack]
      exact hstack.page
    · rw [hkstack]
      exact hstack.block
    · rw [hkstack]
      exact hstack.block_fresh

/-- `do_fork` fails and changes no task, or it gets to the publication of a new task. -/
theorem doFork_forking (h : TaskInv lo hi m₀ k used) {flags stack : U32} {frame : InterruptFrame} {ret : Int}
    (hcall : doFork k flags stack frame = .ok (ret, k')) :
    (ret < 0 ∧ Unforked k k' ∧ ∃ used', TaskInv lo hi m₀ k' used') ∨
      (k.taskCount < MAX_TASKS ∧ ∃ a t k₁ used₁, Forking lo hi m₀ k used a t k₁ used₁ ∧
        Stacked t used used₁ ∧ publish k₁ a = .ok (ret, k')) := by
  unfold doFork at hcall
  split at hcall
  · obtain ⟨rfl, rfl⟩ := Prod.mk.inj (Except.ok.inj hcall)
    exact Or.inl ⟨by decide, ⟨_, _, _, _, _, rfl⟩, used, h⟩
  · rename_i hcount
    obtain ⟨⟨a, k₁⟩, halloc, hcall⟩ := Res.bind_eq_ok.mp hcall
    dsimp only at hcall
    rcases allocTask_forking h halloc with ⟨rfl, hgrown⟩ | ⟨hne, hparent⟩
    · obtain ⟨rfl, rfl⟩ := Prod.mk.inj (Except.ok.inj hcall)
      obtain ⟨used₁, hsub, hledger⟩ := hgrown.ledger lo hi m₀ used h.ledger
      refine Or.inl ⟨by decide, ?_, used₁, h.grow hgrown.tasks hgrown.taskList hgrown.idleTask hsub hledger⟩
      obtain ⟨s, f, i, heq⟩ := hgrown.frame
      exact ⟨s, _, f, i, _, heq⟩
    · rw [if_neg hne] at hcall
      obtain ⟨k₂, hmod, hcall⟩ := Res.bind_eq_ok.mp hcall
      obtain ⟨⟨err, k₃⟩, hsetup, hcall⟩ := Res.bind_eq_ok.mp hcall
      obtain ⟨t₂, used₂, h₂⟩ := hparent k₂ hmod
      dsimp only at hcall
      rcases h₂.setupNewKstack hsetup with ⟨herr, used₃, h₃⟩ | ⟨rfl, t₃, used₃, h₃, hstack₃⟩
      · rw [if_pos herr] at hcall
        obtain ⟨k₄, hfree, hcall⟩ := Res.bind_eq_ok.mp hcall
        obtain ⟨rfl, rfl⟩ := Prod.mk.inj (Except.ok.inj hcall)
        exact Or.inl ⟨by decide, h₃.freeTask h hfree⟩
      · rw [if_neg (not_not.mpr rfl)] at hcall
        obtain ⟨⟨err, k₄⟩, hfiles, hcall⟩ := Res.bind_eq_ok.mp hcall
        obtain ⟨t₄, used₄, h₄, hsub₄, hkstack₄⟩ := h₃.copyFiles hfiles
        have hstack₄ : Stacked t₄ used used₄ := hstack₃.mono hkstack₄ hsub₄
        dsimp only at hcall
        split at hcall
        · obtain ⟨rfl, hrest⟩ := h₄.failedAndCleanKstack h hstack₄ hcall
          exact Or.inl ⟨by decide, hrest⟩
        · obtain ⟨⟨err, k₅⟩, hmm, hlast⟩ := Res.bind_eq_ok.mp hcall
          obtain ⟨rfl, rfl⟩ := h₄.copyMm h hmm
          dsimp only at hlast
          rw [if_neg (not_not.mpr rfl)] at hlast
          obtain ⟨k₆, hcopy, hlast⟩ := Res.bind_eq_ok.mp hlast
          obtain ⟨t₆, h₆, hkstack₆⟩ := h₄.copyTask hcopy
          exact Or.inr ⟨BitVec.not_le.mp hcount, a, t₆, k₆, used₄, h₆,
            hstack₄.mono hkstack₆ fun _ hu => hu, hlast⟩

/-- `do_fork` fails and changes no task, or puts one new task on the list and returns its id. -/
theorem doFork_cases (h : TaskInv lo hi m₀ k used) {flags stack : U32} {frame : InterruptFrame} {ret : Int}
    (hcall : doFork k flags stack frame = .ok (ret, k')) :
    (ret < 0 ∧ Unforked k k' ∧ ∃ used', TaskInv lo hi m₀ k' used') ∨
      (k.taskCount < MAX_TASKS ∧ ∃ a t, ret = t.tid.toInt ∧ Forked lo hi m₀ k a t k') := by
  rcases doFork_forking h hcall with hfail | ⟨hcount, a, t, k₁, used₁, h₁, hstack, hpublish⟩
  · exact Or.inl hfail
  · obtain ⟨t', hret, hforked⟩ := h₁.publish h hstack hpublish
    exact Or.inr ⟨hcount, a, t', hret, hforked⟩

/-! ### `do_exit` -/

theorem reparentOne_bare {a : U32} (hcall : reparentOne k a = .ok k') : Kept Task.bare k k' := by
  unfold reparentOne at hcall
  obtain ⟨c, -, hcall⟩ := Res.bind_eq_ok.mp hcall
  obtain ⟨k₁, hcurrent, hcall⟩ := Res.bind_eq_ok.mp hcall
  obtain ⟨init, -, hcall⟩ := Res.bind_eq_ok.mp hcall
  obtain ⟨k₂, hchild, hcall⟩ := Res.bind_eq_ok.mp hcall
  obtain ⟨k₃, hsibling, hcall⟩ := Res.bind_eq_ok.mp hcall
  obtain ⟨k₄, hparent, hcall⟩ := Res.bind_eq_ok.mp hcall
  obtain ⟨k₅, hinit, hcall⟩ := Res.bind_eq_ok.mp hcall
  obtain ⟨c', -, hcall⟩ := Res.bind_eq_ok.mp hcall
  obtain ⟨init', -, hcall⟩ := Res.bind_eq_ok.mp hcall
  have h₁ : Kept Task.bare k k₁ := Kept.modifyTask hcurrent fun _ => rfl
  have h₂ := h₁.trans (Kept.modifyTask hchild fun _ => rfl)
  have h₃ := h₂.trans (Kept.doIf hsibling fun _ hmod => Kept.modifyTask hmod fun _ => rfl)
  have h₄ := h₃.trans (Kept.modifyTask hparent fun _ => rfl)
  have h₅ := h₄.trans (Kept.modifyTask hinit fun _ => rfl)
  exact h₅.trans (Kept.doIf hcall fun _ hwake => (wakeupTask_kept hwake).comp Task.bare)

theorem reparentOne_kept {a : U32} (hcall : reparentOne k a = .ok k') : Kept Task.core k k' :=
  (reparentOne_bare hcall).comp Task.core

theorem reparent_bare {fuel : Nat} (hcall : reparent fuel k = .ok k') : Kept Task.bare k k' := by
  induction fuel generalizing k with
  | zero => simp [reparent] at hcall
  | succ fuel ih =>
      unfold reparent at hcall
      obtain ⟨current, -, hcall⟩ := Res.bind_eq_ok.mp hcall
      split at hcall
      · obtain rfl := Except.ok.inj hcall
        exact Kept.refl k
      · obtain ⟨k₁, hone, hcall⟩ := Res.bind_eq_ok.mp hcall
        exact (reparentOne_bare hone).trans (ih hcall)

theorem reparent_kept {fuel : Nat} (hcall : reparent fuel k = .ok k') : Kept Task.core k k' :=
  (reparent_bare hcall).comp Task.core

/-- No task has a memory map to give up. -/
theorem TaskInv.exitMm (h : TaskInv lo hi m₀ k used) (hcall : exitMm k = .ok k') : k' = k := by
  unfold Krnl.exitMm at hcall
  obtain ⟨current, hcurrent, hcall⟩ := Res.bind_eq_ok.mp hcall
  rw [if_pos (h.noMm _ _ (task_eq_ok.mp hcurrent))] at hcall
  exact (Except.ok.inj hcall).symm

theorem handOver_bare (hcall : handOver k = .ok k') : Kept Task.bare k k' := by
  unfold handOver at hcall
  obtain ⟨current, -, hcall⟩ := Res.bind_eq_ok.mp hcall
  obtain ⟨parent, -, hcall⟩ := Res.bind_eq_ok.mp hcall
  obtain ⟨k₁, hwake, hcall⟩ := Res.bind_eq_ok.mp hcall
  have h₁ : Kept Task.bare k k₁ :=
    Kept.doIf hwake fun _ hwake => (wakeupTask_kept hwake).comp Task.bare
  exact h₁.trans (reparent_bare hcall)

theorem handOver_kept (hcall : handOver k = .ok k') : Kept Task.core k k' := (handOver_bare hcall).comp Task.core

theorem doExit_kept (h : TaskInv lo hi m₀ k used) {errCode : Int} {saved : Context}
    (hcall : doExit k errCode saved = .ok k') : Kept Task.core k k' := by
  unfold doExit at hcall
  obtain ⟨-, -, hcall⟩ := Res.bind_eq_ok.mp hcall
  obtain ⟨k₁, hexit, hcall⟩ := Res.bind_eq_ok.mp hcall
  obtain ⟨k₂, hzombie, hcall⟩ := Res.bind_eq_ok.mp hcall
  obtain ⟨k₃, hhand, hcall⟩ := Res.bind_eq_ok.mp hcall
  obtain ⟨k₄, hschedule, hcall⟩ := Res.bind_eq_ok.mp hcall
  obtain ⟨-, -, hcall⟩ := Res.bind_eq_ok.mp hcall
  obtain rfl := Except.ok.inj hcall
  rw [h.exitMm hexit] at hzombie
  have h₂ : Kept Task.core k k₂ := Kept.modifyTask hzombie fun _ => rfl
  exact (h₂.trans (handOver_kept hhand)).trans ((schedule_kept hschedule).comp Task.core)

/-! ### `do_wait` -/

/-- At most one task has left the list, and what is left on it is as before. -/
structure Shrunk (lo hi : Nat) (m₀ : Pmm) (k k' : Kernel) : Prop where
  tasks : ∀ a t', k'.tasks a = some t' → ∃ t, k.tasks a = some t ∧ t.core = t'.core
  list : (k'.taskList = k.taskList ∧ k'.taskCount = k.taskCount) ∨
    ∃ a ∈ k.taskList, k'.taskList = k.taskList.erase a ∧ k'.taskCount = k.taskCount - 1
  inv : ∃ used', TaskInv lo hi m₀ k' used'

theorem TaskInv.shrunk (h : TaskInv lo hi m₀ k used) (hkept : Kept Task.core k k') : Shrunk lo hi m₀ k k' :=
  ⟨fun _ _ ht' => hkept.task ht', Or.inl ⟨hkept.taskList, hkept.taskCount⟩, used, h.kept hkept⟩

/-- What the label `found` of `do_wait` does. -/
theorem reap_eq {a codeStore : U32} {res : WaitResult} (hcall : reap k a codeStore = .ok (res, k')) :
    ∃ t k₁ s₂ s₄, a ≠ k.idleTask ∧ a ≠ k.initTask ∧ k.tasks a = some t ∧ delTask k a = .ok k₁ ∧
      kfree k₁.machine t.kstack KSTACKSIZE = .ok s₂ ∧ kfree s₂ a sizeofTask = .ok s₄ ∧
      res = .returned 0 (if codeStore ≠ NULL then some t.exitCode else none) ∧
      k' = { k₁ with machine := s₄, tasks := Function.update k₁.tasks a none } := by
  unfold reap freeTask Kernel.release at hcall
  obtain ⟨_, hpanic, hcall⟩ := Res.bind_eq_ok.mp hcall
  obtain ⟨t, ht, hcall⟩ := Res.bind_eq_ok.mp hcall
  obtain ⟨k₁, hdel, hcall⟩ := Res.bind_eq_ok.mp hcall
  obtain ⟨k₂, hstack, hcall⟩ := Res.bind_eq_ok.mp hcall
  obtain ⟨s₂, hkfree₂, hstack⟩ := Res.bind_eq_ok.mp hstack
  obtain rfl := Except.ok.inj hstack
  obtain ⟨k₃, hfree, hcall⟩ := Res.bind_eq_ok.mp hcall
  obtain ⟨k₄, hpage, hfree⟩ := Res.bind_eq_ok.mp hfree
  obtain ⟨s₄, hkfree₄, hpage⟩ := Res.bind_eq_ok.mp hpage
  obtain rfl := Except.ok.inj hpage
  obtain rfl := Except.ok.inj hfree
  obtain ⟨hres, hk'⟩ := Prod.mk.inj (Except.ok.inj hcall)
  obtain ⟨hidle, hinit⟩ := not_or.mp (panicIf_eq_ok.mp hpanic)
  exact ⟨t, k₁, s₂, s₄, hidle, hinit, task_eq_ok.mp ht, hdel, hkfree₂, hkfree₄, hres.symm, hk'.symm⟩

/-- The stack and the structure of the task are given back. -/
theorem reap_ledger (h : TaskInv lo hi m₀ k used) {a codeStore : U32} {res : WaitResult} {t : Task}
    (ht : k.tasks a = some t) (hcall : reap k a codeStore = .ok (res, k')) :
    blockOf t.kstack KSTACKSIZE ∈ used ∧ blockOf a sizeofTask ∈ used.erase (blockOf t.kstack KSTACKSIZE) ∧
      Ledger lo hi m₀ k'.machine ((used.erase (blockOf t.kstack KSTACKSIZE)).erase (blockOf a sizeofTask)) := by
  obtain ⟨t', k₁, s₂, s₄, hidle, -, ht', hdel, hkfree₂, hkfree₄, -, rfl⟩ := reap_eq hcall
  obtain rfl := Option.some.inj (ht.symm.trans ht')
  have hstack := (h.stack a t ht hidle).2
  have hblock : blockOf a sizeofTask ∈ used.erase (blockOf t.kstack KSTACKSIZE) := by
    rw [List.mem_erase_of_ne (blockOf_task_ne_stack a _)]
    exact (h.page a t ht).2
  have hledger₁ : Ledger lo hi m₀ k₁.machine used := by
    rw [(delTask_kept hdel).machine]
    exact h.ledger
  exact ⟨hstack, hblock, (hledger₁.kfree hstack hkfree₂).kfree hblock hkfree₄⟩

theorem reap_shrunk (h : TaskInv lo hi m₀ k used) {a codeStore : U32} {res : WaitResult}
    (hcall : reap k a codeStore = .ok (res, k')) : Shrunk lo hi m₀ k k' := by
  obtain ⟨t, k₁, s₂, s₄, hidle, -, ht, hdel, -, -, -, hk'⟩ := reap_eq hcall
  have hledger := (reap_ledger h ht hcall).2.2
  subst hk'
  have hkept := (delTask_kept hdel).comp Task.core
  have hothers : ∀ x, x ≠ a → ((Function.update k₁.tasks a none) x).map Task.core =
      (k.tasks x).map Task.core := by
    intro x hx
    rw [Function.update_of_ne hx]
    exact hkept.tasks x
  have hmem : a ∈ k.taskList := (h.live a).mpr (by simp [ht])
  refine ⟨?_, Or.inr ⟨a, hmem, hkept.taskList, hkept.taskCount⟩, _,
    h.remove ht hidle hothers (Function.update_self ..) hkept.taskList hkept.idleTask hledger⟩
  intro x t' ht'
  by_cases hx : x = a
  · subst hx
    simp at ht'
  · exact exists_of_map_eq (hothers x hx) ht'

theorem waitPass_shrunk (h : TaskInv lo hi m₀ k used) {pid codeStore : U32} {saved : Context}
    {res : WaitResult} (hcall : waitPass k pid codeStore saved = .ok (res, k')) : Shrunk lo hi m₀ k k' := by
  unfold waitPass at hcall
  obtain ⟨⟨a, haskid⟩, -, hcall⟩ := Res.bind_eq_ok.mp hcall
  dsimp only at hcall
  split at hcall
  · exact reap_shrunk h hcall
  · split at hcall
    · obtain ⟨k₁, hsleep, hcall⟩ := Res.bind_eq_ok.mp hcall
      obtain ⟨k₂, hschedule, hcall⟩ := Res.bind_eq_ok.mp hcall
      obtain ⟨-, rfl⟩ := Prod.mk.inj (Except.ok.inj hcall)
      have h₁ : Kept Task.core k k₁ := Kept.modifyTask hsleep fun _ => rfl
      exact h.shrunk (h₁.trans ((schedule_kept hschedule).comp Task.core))
    · obtain ⟨-, rfl⟩ := Prod.mk.inj (Except.ok.inj hcall)
      exact h.shrunk (Kept.refl k)

theorem doWait_shrunk (h : TaskInv lo hi m₀ k used) {pid codeStore : U32} {saved : Context}
    {res : WaitResult} (hcall : doWait k pid codeStore saved = .ok (res, k')) : Shrunk lo hi m₀ k k' := by
  unfold doWait at hcall
  obtain ⟨current, hcurrent, hcall⟩ := Res.bind_eq_ok.mp hcall
  split at hcall
  · exact waitPass_shrunk h hcall
  · rw [if_pos (h.noMm _ _ (task_eq_ok.mp hcurrent))] at hcall
    split at hcall
    · obtain ⟨-, rfl⟩ := Prod.mk.inj (Except.ok.inj hcall)
      exact h.shrunk (Kept.refl k)
    · exact waitPass_shrunk h hcall

theorem resumeWait_shrunk (h : TaskInv lo hi m₀ k used) {pid codeStore : U32} {saved : Context}
    {res : WaitResult} (hcall : resumeWait k pid codeStore saved = .ok (res, k')) :
    Shrunk lo hi m₀ k k' := by
  unfold resumeWait at hcall
  obtain ⟨current, -, hcall⟩ := Res.bind_eq_ok.mp hcall
  split at hcall
  · obtain ⟨k₁, hexit, hcall⟩ := Res.bind_eq_ok.mp hcall
    obtain ⟨-, rfl⟩ := Prod.mk.inj (Except.ok.inj hcall)
    exact h.shrunk (doExit_kept h hexit)
  · exact waitPass_shrunk h hcall

/-! ### Steps -/

/-- A step takes no task on the list, or is a `do_fork` that takes one. -/
theorem exec_cases (h : TaskInv lo hi m₀ k used) {saved : Context} {op : Op} {ret : Option Int}
    (hcall : k.exec saved op = .ok (ret, k')) :
    Shrunk lo hi m₀ k k' ∨
      ∃ flags stack frame a t, op = .fork flags stack frame ∧ k.taskCount < MAX_TASKS ∧
        ret = some t.tid.toInt ∧ Forked lo hi m₀ k a t k' := by
  cases op with
  | fork flags stack frame =>
      obtain ⟨⟨r, k₁⟩, hfork, hcall⟩ := Res.bind_eq_ok.mp hcall
      obtain ⟨rfl, rfl⟩ := Prod.mk.inj (Except.ok.inj hcall)
      rcases doFork_cases h hfork with ⟨-, ⟨s, mm, f, i, tf, rfl⟩, hinv⟩ | ⟨hcount, a, t, rfl, hforked⟩
      · exact Or.inl ⟨fun a t' ht' => ⟨t', ht', rfl⟩, Or.inl ⟨rfl, rfl⟩, hinv⟩
      · exact Or.inr ⟨flags, stack, frame, a, t, rfl, hcount, rfl, hforked⟩
  | exit errCode =>
      obtain ⟨k₁, hexit, hcall⟩ := Res.bind_eq_ok.mp hcall
      obtain ⟨rfl, rfl⟩ := Prod.mk.inj (Except.ok.inj hcall)
      exact Or.inl (h.shrunk (doExit_kept h hexit))
  | wait pid codeStore =>
      obtain ⟨⟨r, k₁⟩, hwait, hcall⟩ := Res.bind_eq_ok.mp hcall
      obtain ⟨rfl, rfl⟩ := Prod.mk.inj (Except.ok.inj hcall)
      exact Or.inl (doWait_shrunk h hwait)
  | resumeWait pid codeStore =>
      obtain ⟨⟨r, k₁⟩, hwait, hcall⟩ := Res.bind_eq_ok.mp hcall
      obtain ⟨rfl, rfl⟩ := Prod.mk.inj (Except.ok.inj hcall)
      exact Or.inl (resumeWait_shrunk h hwait)
  | schedule =>
      obtain ⟨k₁, hschedule, hcall⟩ := Res.bind_eq_ok.mp hcall
      obtain ⟨rfl, rfl⟩ := Prod.mk.inj (Except.ok.inj hcall)
      exact Or.inl (h.shrunk ((schedule_kept hschedule).comp Task.core))

/-! ### `initTask` -/

/-- `idle_task` as `initTask` sets it up. -/
def idleRecord (image : KernelImage) (files : U32) : Task := { newTask image.kernelCr3 with
  tid := 0
  state := .runnable
  waitState := WT_NOTWAIT
  kstack := image.kernelStack
  needResched := true
  files := files }

/-- The state in which `initTask` creates `init_task`: there is no task but `idle_task`. -/
structure IdleAlone (lo hi : Nat) (m₀ : Pmm) (image : KernelImage) (idle files : U32) (k : Kernel) : Prop where
  image_eq : k.image = image
  tasks : k.tasks = Function.update (fun _ => none) idle (some (idleRecord image files))
  taskList : k.taskList = [idle]
  taskCount : k.taskCount = 1
  runList : k.runList = []
  taskNum : k.taskNum = 0
  currentTask : k.currentTask = idle
  idleTask : k.idleTask = idle
  ne_null : idle ≠ NULL
  inv : ∃ used, TaskInv lo hi m₀ k used

/-- One task, on a page of its own, satisfies the invariant. -/
theorem taskInv_single {a : U32} {t : Task} (htasks : k.tasks = Function.update (fun _ => none) a (some t))
    (hlist : k.taskList = [a]) (hidle : k.idleTask = a) (hmm : t.mm = NULL)
    (hne : a ≠ NULL) (hpage : page2kva (pageOf a) = a) (hblock : blockOf a sizeofTask ∈ used)
    (hledger : Ledger lo hi m₀ k.machine used) : TaskInv lo hi m₀ k used := by
  have hread : ∀ x t', k.tasks x = some t' → x = a ∧ t' = t := by
    intro x t' ht'
    by_cases hx : x = a
    · subst hx
      rw [htasks, Function.update_self] at ht'
      exact ⟨rfl, (Option.some.inj ht').symm⟩
    · rw [htasks, Function.update_of_ne hx] at ht'
      simp at ht'
  refine ⟨hledger, hlist ▸ List.nodup_singleton a, ?_, ?_, ?_, ?_, ?_, ?_, ?_⟩
  · intro x
    by_cases hx : x = a
    · simp [hlist, htasks, hx]
    · simp [hlist, htasks, hx]
  · rw [htasks, Function.update_of_ne hne.symm]
  · simp [hlist, hidle]
  · intro x t' ht'
    rw [(hread x t' ht').2, hmm]
  · intro x t' ht'
    rw [(hread x t' ht').1]
    exact ⟨hpage, hblock⟩
  · intro x t' ht' hne
    exact absurd ((hread x t' ht').1.trans hidle.symm) hne
  · intro x y t' u' ht' hu' _ _ _
    rw [(hread x t' ht').1, (hread y u' hu').1]

/-- `initTask` sets up `idle_task` and forks `init_task` off it. -/
theorem initTask_cases {image : KernelImage} {s : Machine} {arg : U32} (hledger : Ledger lo hi m₀ s used)
    (hcall : initTask image s arg = .ok k) :
    ∃ idle files k₁ k₂ ret init, IdleAlone lo hi m₀ image idle files k₁ ∧
      createKernelThread k₁ image.initTaskFunc arg 0 = .ok (ret, k₂) ∧ ¬ ret < 0 ∧
      findTask k₂ (BitVec.ofInt 32 ret) = .ok init ∧ k = { k₂ with initTask := init } := by
  unfold initTask allocTask at hcall
  obtain ⟨⟨idle, k₁⟩, halloc, hcall⟩ := Res.bind_eq_ok.mp hcall
  obtain ⟨⟨idle', k₁'⟩, hkmalloc, halloc⟩ := Res.bind_eq_ok.mp halloc
  obtain ⟨_, hidle, hcall⟩ := Res.bind_eq_ok.mp hcall
  obtain ⟨⟨files, k₂⟩, hcreate, hcall⟩ := Res.bind_eq_ok.mp hcall
  obtain ⟨-, -, hcall⟩ := Res.bind_eq_ok.mp hcall
  obtain ⟨k₃, hmod, hcall⟩ := Res.bind_eq_ok.mp hcall
  obtain ⟨k₄, hinc, hcall⟩ := Res.bind_eq_ok.mp hcall
  obtain ⟨⟨ret, k₅⟩, hfork, hcall⟩ := Res.bind_eq_ok.mp hcall
  obtain ⟨_, hret, hcall⟩ := Res.bind_eq_ok.mp hcall
  obtain ⟨init, hinit, hcall⟩ := Res.bind_eq_ok.mp hcall
  have hfinal := (Except.ok.inj hcall).symm
  have hne : idle ≠ NULL := panicIf_eq_ok.mp hidle
  obtain ⟨s', hpage, rfl⟩ := alloc_eq_ok hkmalloc
  dsimp only at halloc
  split at halloc
  · exact absurd (Prod.mk.inj (Except.ok.inj halloc)).1.symm hne
  · obtain ⟨rfl, rfl⟩ := Prod.mk.inj (Except.ok.inj halloc)
    obtain ⟨haddr, -, hledger'⟩ := hledger.kmalloc hpage
    have hgrown := Grown.filesCreate hcreate
    obtain ⟨used₂, hsub₂, hledger₂⟩ := hgrown.ledger lo hi m₀ _ hledger'
    obtain ⟨s₂, f₂, i₂, rfl⟩ := hgrown.frame
    obtain ⟨t, ht, rfl⟩ := modifyTask_eq_ok.mp hmod
    have hread : Function.update (fun _ => none) idle' (some (newTask image.kernelCr3)) idle' = some t := ht
    rw [Function.update_self] at hread
    obtain rfl := Option.some.inj hread
    have hgrown' := Grown.filesRefInc hinc
    obtain ⟨used₄, hsub₄, hledger₄⟩ := hgrown'.ledger lo hi m₀ used₂ hledger₂
    obtain ⟨s₄, f₄, i₄, rfl⟩ := hgrown'.frame
    refine ⟨idle', files, _, _, ret, init,
      ⟨rfl, Function.update_idem .., rfl, rfl, rfl, rfl, rfl, rfl, hne, used₄, ?_⟩, hfork,
      panicIf_eq_ok.mp hret, hinit, hfinal⟩
    exact taskInv_single (Function.update_idem ..) rfl rfl rfl hne haddr
      (hsub₄ _ (hsub₂ _ (List.mem_cons_self ..))) hledger₄

end Steps

end Krnl
end FreakOS
