import FreakOS.Krnl.TaskIds

/-!
# Where a task starts to use its kernel stack

`kstack` is an `uint32_t *`, so `kstack + KSTACKSIZE` in `copy_task` and in `runTask` is four times
`KSTACKSIZE` bytes above the stack that `setupNewKstack` allocated.

* `Task.InKstack` — an address lies in the stack of a task.
* `doFork_starts_outside_kstack` — the trap frame, the first `esp` and the `esp0` of every new task lie
  outside.
* `init_frame_in_other_kstack` — a run in which the trap frame of `init_task` lies in the stack of another
  task.
-/

namespace FreakOS
namespace Krnl

open Lib
open Memory

/-- The address lies in the `KSTACKSIZE` bytes from `kstack` on, or right behind them. -/
def Task.InKstack (t : Task) (addr : U32) : Prop :=
  t.kstack.toNat ≤ addr.toNat ∧ addr.toNat ≤ t.kstack.toNat + KSTACKSIZE.toNat

instance (t : Task) (addr : U32) : Decidable (t.InKstack addr) := inferInstanceAs (Decidable (_ ∧ _))

/-- Whether the sum wraps around or not, an address that is more than `KSTACKSIZE` above `kstack` lies outside
the stack. -/
theorem Task.not_inKstack_add {t : Task} {d : U32} (hd : KSTACKSIZE < d) : ¬ t.InKstack (t.kstack + d) := by
  intro hin
  obtain ⟨h1, h2⟩ := hin
  have hd' : KSTACKSIZE.toNat < d.toNat := hd
  have hlt := d.isLt
  have hlt' := t.kstack.isLt
  rw [BitVec.toNat_add] at h1 h2
  omega

theorem Task.not_inKstack_kstackTop (t : Task) : ¬ t.InKstack t.kstackTop := t.not_inKstack_add (by decide)

/-- No byte of a frame right below `kstackTop` is in the stack. -/
theorem Task.not_inKstack_frame (t : Task) {i : Nat} (hi : i < sizeofInterruptFrame.toNat) :
    ¬ t.InKstack (t.kstackTop - sizeofInterruptFrame + BitVec.ofNat 32 i) := by
  have heq : t.kstackTop - sizeofInterruptFrame + BitVec.ofNat 32 i =
      t.kstack + (KSTACKSIZE * 4 - sizeofInterruptFrame + BitVec.ofNat 32 i) := by
    unfold Task.kstackTop
    rw [BitVec.sub_eq_add_neg, BitVec.sub_eq_add_neg, BitVec.add_assoc, BitVec.add_assoc]
    ac_rfl
  rw [heq]
  refine t.not_inKstack_add ?_
  have hi' : i < 76 := hi
  have hbase : (KSTACKSIZE * 4 - sizeofInterruptFrame).toNat = 32692 := rfl
  have hsize : KSTACKSIZE.toNat = 8192 := rfl
  rw [BitVec.lt_def, BitVec.toNat_add, hbase, hsize, BitVec.toNat_ofNat]
  omega

/-! ### The way to `copy_task` -/

section TaskList

variable {k k' : Kernel}

theorem allocTask_taskList {a : U32} (hcall : allocTask k = .ok (a, k')) : k'.taskList = k.taskList := by
  unfold allocTask at hcall
  obtain ⟨⟨addr, k₁⟩, halloc, hcall⟩ := Res.bind_eq_ok.mp hcall
  obtain ⟨s', -, rfl⟩ := alloc_eq_ok halloc
  dsimp only at hcall
  split at hcall
  · obtain ⟨-, rfl⟩ := Prod.mk.inj (Except.ok.inj hcall)
    rfl
  · obtain ⟨-, rfl⟩ := Prod.mk.inj (Except.ok.inj hcall)
    rfl

theorem modifyTask_taskList {a : U32} {g : Task → Task} (hcall : k.modifyTask a g = .ok k') :
    k'.taskList = k.taskList := by
  obtain ⟨t, -, rfl⟩ := modifyTask_eq_ok.mp hcall
  rfl

theorem setupNewKstack_taskList {a : U32} {err : Int} (hcall : setupNewKstack k a = .ok (err, k')) :
    k'.taskList = k.taskList := by
  unfold setupNewKstack at hcall
  obtain ⟨⟨stack, k₁⟩, halloc, hcall⟩ := Res.bind_eq_ok.mp hcall
  obtain ⟨s', -, rfl⟩ := alloc_eq_ok halloc
  dsimp only at hcall
  split at hcall
  · obtain ⟨k₂, hmod, hcall⟩ := Res.bind_eq_ok.mp hcall
    obtain ⟨-, rfl⟩ := Prod.mk.inj (Except.ok.inj hcall)
    exact (modifyTask_taskList hmod).trans rfl
  · obtain ⟨-, rfl⟩ := Prod.mk.inj (Except.ok.inj hcall)
    rfl

theorem installFiles_taskList {a files : U32} {err : Int} (hcall : installFiles k a files = .ok (err, k')) :
    k'.taskList = k.taskList := by
  unfold installFiles at hcall
  obtain ⟨k₁, hinc, hcall⟩ := Res.bind_eq_ok.mp hcall
  obtain ⟨k₂, hmod, hcall⟩ := Res.bind_eq_ok.mp hcall
  obtain ⟨-, rfl⟩ := Prod.mk.inj (Except.ok.inj hcall)
  exact (modifyTask_taskList hmod).trans (Grown.filesRefInc hinc).taskList

theorem copyFiles_taskList {flags a : U32} {err : Int} (hcall : copyFiles k flags a = .ok (err, k')) :
    k'.taskList = k.taskList := by
  unfold copyFiles at hcall
  obtain ⟨current, -, hcall⟩ := Res.bind_eq_ok.mp hcall
  dsimp only at hcall
  split at hcall
  · obtain ⟨-, rfl⟩ := Prod.mk.inj (Except.ok.inj hcall)
    rfl
  · split at hcall
    · exact installFiles_taskList hcall
    · obtain ⟨⟨files, k₁⟩, hcreate, hcall⟩ := Res.bind_eq_ok.mp hcall
      have h₁ := (Grown.filesCreate hcreate).taskList
      dsimp only at hcall
      split at hcall
      · obtain ⟨-, rfl⟩ := Prod.mk.inj (Except.ok.inj hcall)
        exact h₁
      · obtain ⟨⟨ret, k₂⟩, hdup, hcall⟩ := Res.bind_eq_ok.mp hcall
        have h₂ := (Grown.filesDup hdup).taskList.trans h₁
        dsimp only at hcall
        split at hcall
        · obtain ⟨-, rfl⟩ := Prod.mk.inj (Except.ok.inj hcall)
          exact h₂
        · exact (installFiles_taskList hcall).trans h₂

theorem installMm_taskList {a mm : U32} {err : Int} (hcall : installMm k a mm = .ok (err, k')) :
    k'.taskList = k.taskList := by
  unfold installMm at hcall
  obtain ⟨m, -, hcall⟩ := Res.bind_eq_ok.mp hcall
  obtain ⟨k₁, hmod, hcall⟩ := Res.bind_eq_ok.mp hcall
  obtain ⟨-, rfl⟩ := Prod.mk.inj (Except.ok.inj hcall)
  obtain ⟨t, -, rfl⟩ := modifyTask_eq_ok.mp hmod
  rfl

theorem destroyMm_taskList {mm : U32} {m : MemMap} (hcall : destroyMm k mm m = .ok k') :
    k'.taskList = k.taskList := by
  unfold destroyMm at hcall
  obtain ⟨⟨rest, s'⟩, -, hcall⟩ := Res.bind_eq_ok.mp hcall
  obtain rfl := Except.ok.inj hcall
  rfl

theorem copyMm_taskList {flags a : U32} {err : Int} (hcall : copyMm k flags a = .ok (err, k')) :
    k'.taskList = k.taskList := by
  unfold copyMm at hcall
  obtain ⟨current, -, hcall⟩ := Res.bind_eq_ok.mp hcall
  dsimp only at hcall
  split at hcall
  · obtain ⟨-, rfl⟩ := Prod.mk.inj (Except.ok.inj hcall)
    rfl
  · split at hcall
    · exact installMm_taskList hcall
    · obtain ⟨⟨mm, k₁⟩, halloc, hcall⟩ := Res.bind_eq_ok.mp hcall
      obtain ⟨s', -, rfl⟩ := alloc_eq_ok halloc
      dsimp only at hcall
      split at hcall
      · obtain ⟨-, rfl⟩ := Prod.mk.inj (Except.ok.inj hcall)
        rfl
      · obtain ⟨⟨pgdir, s₁⟩, -, hcall⟩ := Res.bind_eq_ok.mp hcall
        dsimp only at hcall
        cases pgdir with
        | none =>
            obtain ⟨k₂, hdestroy, hcall⟩ := Res.bind_eq_ok.mp hcall
            obtain ⟨-, rfl⟩ := Prod.mk.inj (Except.ok.inj hcall)
            exact (destroyMm_taskList hdestroy).trans rfl
        | some pgdir =>
            obtain ⟨old, -, hcall⟩ := Res.bind_eq_ok.mp hcall
            obtain ⟨⟨ret, s₂, m⟩, -, hcall⟩ := Res.bind_eq_ok.mp hcall
            dsimp only at hcall
            split at hcall
            · obtain ⟨s₃, -, hcall⟩ := Res.bind_eq_ok.mp hcall
              obtain ⟨s₄, -, hcall⟩ := Res.bind_eq_ok.mp hcall
              obtain ⟨k₂, hdestroy, hcall⟩ := Res.bind_eq_ok.mp hcall
              obtain ⟨-, rfl⟩ := Prod.mk.inj (Except.ok.inj hcall)
              exact (destroyMm_taskList hdestroy).trans rfl
            · exact (installMm_taskList hcall).trans rfl

/-- A `do_fork` that does not fail ends in `copy_task` and in the publication of the new task. -/
theorem doFork_success {flags stack : U32} {frame : InterruptFrame} {ret : Int}
    (hcall : doFork k flags stack frame = .ok (ret, k')) (hret : 0 ≤ ret) :
    ∃ a k₁ k₂, k₁.taskList = k.taskList ∧ copyTask k₁ a stack frame = .ok k₂ ∧
      publish k₂ a = .ok (ret, k') := by
  have hneg : ∀ {e : Int} {k₁ : Kernel}, 0 < e → (.ok (-e, k₁) : Res (Int × Kernel)) ≠ .ok (ret, k') := by
    intro e k₁ he heq
    have := (Prod.mk.inj (Except.ok.inj heq)).1
    omega
  have hclean : ∀ {k₁ : Kernel} {a : U32}, failedAndCleanKstack k₁ a ≠ .ok (ret, k') := by
    intro k₁ a hcall
    unfold failedAndCleanKstack at hcall
    obtain ⟨t, -, hcall⟩ := Res.bind_eq_ok.mp hcall
    obtain ⟨k₂, -, hcall⟩ := Res.bind_eq_ok.mp hcall
    obtain ⟨k₃, -, hcall⟩ := Res.bind_eq_ok.mp hcall
    exact hneg (by decide) hcall
  unfold doFork at hcall
  split at hcall
  · exact absurd hcall (hneg (by decide))
  · obtain ⟨⟨a, k₁⟩, halloc, hcall⟩ := Res.bind_eq_ok.mp hcall
    dsimp only at hcall
    split at hcall
    · exact absurd hcall (hneg (by decide))
    · obtain ⟨k₂, hmod, hcall⟩ := Res.bind_eq_ok.mp hcall
      obtain ⟨⟨err, k₃⟩, hsetup, hcall⟩ := Res.bind_eq_ok.mp hcall
      dsimp only at hcall
      split at hcall
      · obtain ⟨k₄, -, hcall⟩ := Res.bind_eq_ok.mp hcall
        exact absurd hcall (hneg (by decide))
      · obtain ⟨⟨err', k₄⟩, hfiles, hcall⟩ := Res.bind_eq_ok.mp hcall
        dsimp only at hcall
        split at hcall
        · exact absurd hcall hclean
        · obtain ⟨⟨err'', k₅⟩, hmm, hcall⟩ := Res.bind_eq_ok.mp hcall
          dsimp only at hcall
          split at hcall
          · obtain ⟨k₆, -, hcall⟩ := Res.bind_eq_ok.mp hcall
            exact absurd hcall hclean
          · obtain ⟨k₆, hcopy, hcall⟩ := Res.bind_eq_ok.mp hcall
            refine ⟨a, k₅, k₆, ?_, hcopy, hcall⟩
            rw [copyMm_taskList hmm, copyFiles_taskList hfiles, setupNewKstack_taskList hsetup,
              modifyTask_taskList hmod, allocTask_taskList halloc]

end TaskList

/-- Every task that `do_fork` creates, in whatever state, starts outside of its stack: no byte of its trap
frame, nor its first `esp`, nor the `esp0` that `runTask` loads for it lies in the stack. -/
theorem doFork_starts_outside_kstack (k k' : Kernel) (flags stack : U32) (frame : InterruptFrame) (ret : Int)
    (hcall : doFork k flags stack frame = .ok (ret, k')) (hret : 0 ≤ ret) :
    ∃ a t, k'.taskList = a :: k.taskList ∧ k'.tasks a = some t ∧
      (∀ i < sizeofInterruptFrame.toNat, ¬ t.InKstack (t.trapFrame + BitVec.ofNat 32 i)) ∧
      ¬ t.InKstack t.context.esp ∧
      ∀ k₁ k₂ t₁ saved, k₁.tasks a = some t₁ → t₁.kstack = t.kstack → a ≠ k₁.currentTask →
        runTask k₁ a saved = .ok k₂ → ¬ t.InKstack k₂.esp0 := by
  obtain ⟨a, k₁, k₂, hlist, hcopy, hpublish⟩ := doFork_success hcall hret
  unfold copyTask at hcopy
  obtain ⟨t₁, -, hcopy⟩ := Res.bind_eq_ok.mp hcopy
  obtain rfl := Except.ok.inj hcopy
  obtain ⟨t₂, ht₂, -, hkept⟩ := publish_kept hpublish
  obtain ⟨t, ht, hstart⟩ := exists_of_map_eq (hkept.tasks a).symm (Kernel.join_self _ a _)
  obtain ⟨hcore, hframe, hcontext⟩ : t.core = _ ∧ t.trapFrame = t₂.trapFrame ∧ t.context = t₂.context := by
    simpa [Task.start] using hstart
  have ht₂' : t₂.trapFrame = t₂.kstackTop - sizeofInterruptFrame ∧ t₂.context.esp = t₂.trapFrame := by
    have hself := (Function.update_self ..).symm.trans ht₂
    rw [← Option.some.inj hself]
    exact ⟨rfl, rfl⟩
  have hkstack : t.kstack = t₂.kstack := (Task.core_inj hcore).2.1
  have htop : t.kstackTop = t₂.kstackTop := congrArg (· + KSTACKSIZE * 4) hkstack
  have haddr : t.trapFrame = t.kstackTop - sizeofInterruptFrame := by rw [hframe, ht₂'.1, htop]
  refine ⟨a, t, hkept.taskList.trans (congrArg (a :: ·) hlist), ht, ?_, ?_, ?_⟩
  · intro i hi
    rw [haddr]
    exact t.not_inKstack_frame hi
  · rw [hcontext, ht₂'.2, ← hframe, haddr]
    have hzero := t.not_inKstack_frame (i := 0) (by decide)
    simpa using hzero
  · intro k₃ k₄ t₃ saved ht₃ hkstack₃ hne hrun
    unfold runTask Kernel.doIf at hrun
    rw [if_pos hne] at hrun
    obtain ⟨t₄, ht₄, hrun⟩ := Res.bind_eq_ok.mp hrun
    obtain rfl := Option.some.inj (ht₃.symm.trans (task_eq_ok.mp ht₄))
    obtain ⟨u, -, rfl⟩ := modifyTask_eq_ok.mp hrun
    have htop₃ : t₃.kstackTop = t.kstackTop := congrArg (· + KSTACKSIZE * 4) hkstack₃
    show ¬ t.InKstack t₃.kstackTop
    rw [htop₃]
    exact t.not_inKstack_kstackTop

/-- `idle_task` forks a second child. -/
theorem doFork_starts_outside_kstack_second_child : ∃ k k' a t,
    doFork k 0 0 noFrame = .ok (2, k') ∧ k'.taskList = a :: k.taskList ∧ k'.tasks a = some t ∧
      ¬ t.InKstack t.context.esp := by
  have heval : (do
      let k ← initTask smallImage fortyFrames 0
      let r ← doFork k 0 0 noFrame
      return r.1 : Res _) = .ok 2 := by
    decide +kernel
  obtain ⟨k, -, heval⟩ := Res.bind_eq_ok.mp heval
  obtain ⟨⟨ret, k'⟩, hfork, heval⟩ := Res.bind_eq_ok.mp heval
  obtain rfl : ret = 2 := Except.ok.inj heval
  obtain ⟨a, t, hlist, ht, -, hesp, -⟩ := doFork_starts_outside_kstack k k' 0 0 noFrame 2 hfork (by decide)
  exact ⟨k, k', a, t, hfork, hlist, ht, hesp⟩

/-- After two more forks that share the open files, the trap frame of `init_task` lies in the stack of the
third child. -/
theorem init_frame_in_other_kstack : ∃ k₀ k a b t u, initTask smallImage fortyFrames 0 = .ok k₀ ∧
    Relation.ReflTransGen TaskStep k₀ k ∧ a ∈ k.taskList ∧ b ∈ k.taskList ∧ a ≠ b ∧
    k.tasks a = some t ∧ k.tasks b = some u ∧ ¬ t.InKstack t.trapFrame ∧ ¬ t.InKstack t.context.esp ∧
    u.InKstack t.trapFrame := by
  have heval : (do
      let k₀ ← initTask smallImage fortyFrames 0
      let k ← k₀.execAll noContext [.fork CLONE_FILES 0 noFrame, .fork CLONE_FILES 0 noFrame]
      let t ← k.task 0xC0004000#32
      let u ← k.task 0xC000B000#32
      return decide (0xC0004000#32 ∈ k.taskList ∧ 0xC000B000#32 ∈ k.taskList ∧ ¬ t.InKstack t.trapFrame ∧
        ¬ t.InKstack t.context.esp ∧ u.InKstack t.trapFrame) : Res _) = .ok true := by
    decide +kernel
  obtain ⟨k₀, hinit, heval⟩ := Res.bind_eq_ok.mp heval
  obtain ⟨k, hrun, heval⟩ := Res.bind_eq_ok.mp heval
  obtain ⟨t, ht, heval⟩ := Res.bind_eq_ok.mp heval
  obtain ⟨u, hu, heval⟩ := Res.bind_eq_ok.mp heval
  obtain ⟨ha, hb, hrest⟩ := of_decide_eq_true (Except.ok.inj heval)
  exact ⟨k₀, k, _, _, t, u, hinit, taskSteps_of_execAll hrun, ha, hb, by decide, task_eq_ok.mp ht,
    task_eq_ok.mp hu, hrest⟩

end Krnl
end FreakOS
