import FreakOS.Krnl.StdinReaders

/-!
# Interrupts in the kernel

`IntrHandlerCall` reschedules only on the way back to user mode.  The handler of the timer calls `schedule()` by itself,
wherever the interrupt came from.

* `interruptHandlers`, `StdinSystem.intrHandlerCall` — `idt.c`, with the handlers of the devices.
* `Resched`, `Alone` — when the timer asks for a switch, and when there is nobody to switch to.
* `irq_in_kernel_no_switch_iff` — the interrupts in kernel code that do not switch.

The ports of the interrupt controller are left out.
-/

namespace FreakOS
namespace Krnl

open Lib
open Memory
open FreakOS.Krnl.System

/-- `IRQ0`, the timer. -/
def IRQ0 : U32 := 32#32
/-- `IRQ1`, the keyboard. -/
def IRQ1 : U32 := 33#32
/-- `T_SYSCALL`. -/
def T_SYSCALL : U32 := 0xAA#32

/-- The functions that `intrHandlerRegister` has got. -/
inductive Handler where
  | timerCallBack
  | kbdIntrCallBack
  | pageFaultCallback
  | syscall
deriving DecidableEq, Repr

/-- `interruptHandlers`, when all of them are registered. -/
def interruptHandlers (intNo : U32) : Option Handler :=
  if intNo = IRQ0 then some .timerCallBack
  else if intNo = IRQ1 then some .kbdIntrCallBack
  else if intNo = 14 then some .pageFaultCallback
  else if intNo = T_SYSCALL then some .syscall
  else none

namespace StdinSystem

/-- Run a function of the kernel. -/
def lift (s : StdinSystem) (f : Kernel → Res Kernel) : Res StdinSystem := do
  let sys ← s.sys.lift f
  return { s with sys := sys }

/-- `dispatchIntr(pr)`: `key` is what the keyboard has, `trap` what the two handlers do that no device has. -/
def dispatchIntr (s : StdinSystem) (trap : Handler → StdinSystem → Res StdinSystem) (frame : InterruptFrame)
    (key : BitVec 8) (saved : Context) : Res StdinSystem :=
  match interruptHandlers frame.intNo with
  | none => .ok s
  | some .timerCallBack => s.lift fun k => timerCallBack k saved
  | some .kbdIntrCallBack => s.doWrite key
  | some h => trap h s

/-- The end of `IntrHandlerCall` for an interrupt in user mode. -/
def backToUser (s : StdinSystem) (saved : Context) : Res StdinSystem := do
  let t ← s.sys.kernel.task s.current
  if t.flags &&& PF_EXITING ≠ 0 then do
    let sys ← s.sys.exitStart (-E_KILLED)
    return { s with sys := sys }
  else if t.needResched then s.lift fun k => schedule k saved
  else return s

/-- `isIntrInKernel(pr)`. -/
def isIntrInKernel (frame : InterruptFrame) : Bool := frame.cs = KERNEL_CS

/-- `IntrHandlerCall(_if)`, up to its end or to the first `switch_to_s`: where the handler has switched to another task,
the rest follows only when this one gets the CPU back. -/
def intrHandlerCall (s : StdinSystem) (trap : Handler → StdinSystem → Res StdinSystem) (addr : U32)
    (frame : InterruptFrame) (key : BitVec 8) (saved : Context) : Res StdinSystem :=
  if s.current = NULL then s.dispatchIntr trap frame key saved
  else do
    let t ← s.sys.kernel.task s.current
    let oldIf := t.trapFrame
    let s₁ ← s.lift fun k => k.modifyTask k.currentTask fun t => { t with trapFrame := addr }
    let s₂ ← s₁.dispatchIntr trap frame key saved
    if s₂.current ≠ s.current then return s₂
    else do
      let s₃ ← s₂.lift fun k => k.modifyTask k.currentTask fun t => { t with trapFrame := oldIf }
      if isIntrInKernel frame then return s₃ else s₃.backToUser saved

end StdinSystem

/-- After a tick, the task has `need_resched` set. -/
def Resched (t : Task) : Prop := t.needResched = true ∨ t.timeSlice.toNat ≤ 1

instance (t : Task) : Decidable (Resched t) := inferInstanceAs (Decidable (_ ∨ _))

/-- The task can go on at once: it is runnable, and nobody waits for the CPU. -/
def Alone (k : Kernel) (t : Task) : Prop := t.state = .runnable ∧ k.runList = []

section Scheduler

variable {k : Kernel} {t : Task} {saved : Context}

theorem setTask_isSome {a : U32} (t' : Task) (ht : k.tasks a = some t) (b : U32) :
    ((k.setTask a t').tasks b).isSome = (k.tasks b).isSome := by
  by_cases hb : b = a
  · subst hb
    simp [Kernel.setTask, ht]
  · simp [Kernel.setTask, hb]

theorem enqueueRunQueue_ok {a : U32} (ha : a ≠ NULL) (ht : k.tasks a = some t) :
    ∃ k', enqueueRunQueue k a = .ok k' ∧ k'.runList = k.runList ++ [a] ∧ k'.currentTask = k.currentTask ∧
      k'.idleTask = k.idleTask ∧ ∀ b, (k'.tasks b).isSome = (k.tasks b).isSome := by
  have hnull : panicIf (a = NULL) "enqueueRunQueue error!" = .ok () := panicIf_eq_ok.mpr ha
  cases hcall : enqueueRunQueue k a with
  | error fault =>
      have hmod := modifyTask_eq_ok (k := { k with runList := listAddTail a k.runList }) (g := fun t =>
        if t.timeSlice = 0 ∨ t.timeSlice > MAX_TIME_SLICES then { t with timeSlice := MAX_TIME_SLICES } else t).mpr
        ⟨t, ht, rfl⟩
      unfold enqueueRunQueue at hcall
      rw [hnull] at hcall
      simp only [Res.ok_bind, hmod, pure, Except.pure, reduceCtorEq] at hcall
  | ok k' =>
      obtain ⟨t', ts, ht', -, -, rfl⟩ := enqueueRunQueue_eq hcall
      exact ⟨_, rfl, rfl, rfl, rfl, setTask_isSome _ ht'⟩

theorem runTask_ok {a : U32} (ha : a ≠ k.currentTask) (hnext : (k.tasks a).isSome)
    (hprev : (k.tasks k.currentTask).isSome) : ∃ k', runTask k a saved = .ok k' := by
  obtain ⟨next, hnext⟩ := Option.isSome_iff_exists.mp hnext
  obtain ⟨prev, hprev⟩ := Option.isSome_iff_exists.mp hprev
  unfold runTask Kernel.doIf
  rw [if_pos ha]
  dsimp only
  rw [task_eq_ok.mpr hnext]
  exact ⟨_, modifyTask_eq_ok.mpr ⟨prev, hprev, rfl⟩⟩

/-- The task that `schedule` has chosen gets the CPU. -/
theorem switchTo_ok {a : U32} (saved : Context) (hnext : (k.tasks a).isSome) (hprev : (k.tasks k.currentTask).isSome) :
    ∃ k', (k.doIf (a ≠ k.currentTask) fun k => runTask k a saved) = .ok k' ∧ k'.currentTask = a := by
  have hcall : ∃ k', (k.doIf (a ≠ k.currentTask) fun k => runTask k a saved) = .ok k' := by
    unfold Kernel.doIf
    by_cases ha : a = k.currentTask
    · exact ⟨k, if_neg (not_not.mpr ha)⟩
    · rw [if_pos ha]
      exact runTask_ok ha hnext hprev
  obtain ⟨k', hcall⟩ := hcall
  exact ⟨k', hcall, (runTask_currentTask hcall).1⟩

/-- The first part of `schedule`: the running task is behind all others in the queue if it is runnable. -/
theorem requeue_ok (hcur : k.currentTask ≠ NULL) (ht : k.tasks k.currentTask = some t)
    (hne : k.currentTask ≠ k.idleTask) : ∃ k', (k.setTask k.currentTask { t with needResched := false }).doIf
      (t.state = .runnable ∧ k.currentTask ≠ k.idleTask) (fun k' => enqueueRunQueue k' k'.currentTask) = .ok k' ∧
      k'.runList = k.runList ++ (if t.state = .runnable then [k.currentTask] else []) ∧
      k'.currentTask = k.currentTask ∧ k'.idleTask = k.idleTask ∧ ∀ b, (k'.tasks b).isSome = (k.tasks b).isSome := by
  have hsome := setTask_isSome { t with needResched := false } ht
  unfold Kernel.doIf
  by_cases hstate : t.state = .runnable
  · rw [if_pos ⟨hstate, hne⟩, if_pos hstate]
    obtain ⟨k', hcall, hlist, hcurrent, hidleTask, hsome'⟩ := enqueueRunQueue_ok
      (k := k.setTask k.currentTask { t with needResched := false }) hcur (Function.update_self ..)
    exact ⟨k', hcall, hlist, hcurrent, hidleTask, fun b => (hsome' b).trans (hsome b)⟩
  · rw [if_neg (by simp [hstate]), if_neg hstate]
    exact ⟨_, rfl, (List.append_nil _).symm, rfl, rfl, hsome⟩

/-- The rest of `schedule`: the first task of the queue gets the CPU, or `idle_task`. -/
theorem switchToHead_ok (saved : Context) (hnull : k.tasks NULL = none) (hlive : ∀ a ∈ k.runList, (k.tasks a).isSome)
    (hidle : (k.tasks k.idleTask).isSome) (hprev : (k.tasks k.currentTask).isSome) :
    ∃ k', (do
      let k₁ ← k.doIf (getHeadRunQueue k ≠ NULL) fun k' => dequeueRunQueue k' (getHeadRunQueue k)
      let next := if getHeadRunQueue k = NULL then k₁.idleTask else getHeadRunQueue k
      k₁.doIf (next ≠ k₁.currentTask) fun k' => runTask k' next saved) = .ok k' ∧
      k'.currentTask = k.runList.head?.getD k.idleTask := by
  cases hqueue : k.runList with
  | nil =>
      have hhead : getHeadRunQueue k = NULL := by simp [getHeadRunQueue, hqueue]
      obtain ⟨k', hcall, hk'⟩ := switchTo_ok saved hidle hprev
      refine ⟨k', ?_, hk'⟩
      simpa [Kernel.doIf, hhead] using hcall
  | cons a rest =>
      have hhead : getHeadRunQueue k = a := by simp [getHeadRunQueue, hqueue]
      have hlive' : (k.tasks a).isSome := hlive a (by simp [hqueue])
      have hne : a ≠ NULL := by
        rintro rfl
        simp [hnull] at hlive'
      -- The task is in the queue, so `dequeueRunQueue` does not panic.
      have hpanic : panicIf (a = NULL) "dequeueRunQueue error!" = .ok () := panicIf_eq_ok.mpr hne
      have hdeq : (k.doIf (a ≠ NULL) fun k' => dequeueRunQueue k' a) =
          .ok { k with runList := listDel a k.runList, taskNum := k.taskNum - 1 } := by
        unfold Kernel.doIf dequeueRunQueue
        rw [if_pos hne, hpanic]
        rfl
      obtain ⟨k', hcall, hk'⟩ := switchTo_ok (k := { k with
        runList := listDel a k.runList
        taskNum := k.taskNum - 1 }) saved hlive' hprev
      refine ⟨k', ?_, hk'⟩
      rw [hhead, hdeq]
      simpa [hne] using hcall

/-- `schedule` finds the head of the queue, with the task that calls it at the end if it is runnable, or `idle_task`. -/
theorem schedule_current (h : RunInv k) (hnull : k.tasks NULL = none) (hidle : (k.tasks k.idleTask).isSome)
    (ht : k.tasks k.currentTask = some t) (hne : k.currentTask ≠ k.idleTask) :
    ∃ k', schedule k saved = .ok k' ∧ k'.currentTask = k.runList.head?.getD
      (if t.state = .runnable then k.currentTask else k.idleTask) := by
  have hcur : k.currentTask ≠ NULL := by
    intro hzero
    rw [hzero, hnull] at ht
    cases ht
  obtain ⟨k₂, henq, hlist, hcurrent, hidleTask, hsome⟩ := requeue_ok hcur ht hne
  -- The queue holds ready tasks, and behind them the task that calls `schedule`.
  have hlive : ∀ a ∈ k₂.runList, (k₂.tasks a).isSome := by
    intro a ha
    rw [hsome]
    rw [hlist, List.mem_append] at ha
    rcases ha with ha | ha
    · obtain ⟨ws, hready⟩ := Option.isSome_iff_exists.mp ((h.mem a).mp ha).2.2
      obtain ⟨t', ht', -, -⟩ := ready_eq_some_iff.mp hready
      simp [ht']
    · split at ha
      · simp [List.mem_singleton.mp ha, ht]
      · cases ha
  obtain ⟨k', hcall, hk'⟩ := switchToHead_ok (k := k₂) saved (by simpa [hnull] using hsome NULL) hlive
    (by rw [hidleTask, hsome]; exact hidle) (by rw [hcurrent, hsome, ht]; rfl)
  refine ⟨k', ?_, ?_⟩
  · have hmod := modifyTask_eq_ok (g := fun t : Task => { t with needResched := false }).mpr ⟨t, ht, rfl⟩
    have htask : (k.setTask k.currentTask { t with needResched := false }).task k.currentTask =
        .ok { t with needResched := false } := task_eq_ok.mpr (Function.update_self ..)
    unfold schedule
    rw [hmod]
    simp only [Res.ok_bind]
    rw [show (k.setTask k.currentTask { t with needResched := false }).currentTask = k.currentTask from rfl, htask]
    simp only [Res.ok_bind]
    rw [show (k.setTask k.currentTask { t with needResched := false }).idleTask = k.idleTask from rfl, henq]
    exact hcall
  · rw [hk', hlist, hidleTask]
    cases k.runList with
    | nil => by_cases hstate : t.state = .runnable <;> simp [hstate]
    | cons a rest => rfl

/-- What `tickTask` makes of a task. -/
def ticked (t : Task) : Task :=
  let t := if t.timeSlice > 0 then { t with timeSlice := t.timeSlice - 1 } else t
  if t.timeSlice = 0 then { t with needResched := true } else t

theorem ticked_state (t : Task) : (ticked t).state = t.state := by
  unfold ticked
  dsimp only
  split <;> split <;> rfl

theorem ticked_needResched (t : Task) : (ticked t).needResched = true ↔ Resched t := by
  have hzero : ∀ x : U32, x = 0 ↔ x.toNat = 0 := fun x => ⟨fun h => h ▸ rfl, fun h => BitVec.eq_of_toNat_eq h⟩
  have hpos : t.timeSlice > 0 ↔ 0 < t.timeSlice.toNat := BitVec.lt_def
  unfold ticked Resched
  dsimp only
  by_cases hslice : t.timeSlice > 0
  · have hsub : (t.timeSlice - 1).toNat = t.timeSlice.toNat - 1 := BitVec.toNat_sub_of_le (BitVec.le_def.mpr (hpos.mp hslice))
    rw [if_pos hslice]
    by_cases hlast : t.timeSlice - 1 = 0
    · rw [if_pos hlast]
      rw [hzero, hsub] at hlast
      simp only [true_iff]
      omega
    · rw [if_neg hlast]
      rw [hzero, hsub] at hlast
      have hmore : ¬ t.timeSlice.toNat ≤ 1 := by omega
      simp [hmore]
  · rw [if_neg hslice]
    rw [hpos] at hslice
    rw [if_pos ((hzero _).mpr (by omega))]
    simp only [true_iff]
    omega

/-- The timer: without `need_resched` the task goes on, and with it `schedule` is called. -/
theorem timerCallBack_current (saved : Context) (h : RunInv k) (hnull : k.tasks NULL = none)
    (hidle : (k.tasks k.idleTask).isSome)
    (ht : k.tasks k.currentTask = some t) (hne : k.currentTask ≠ k.idleTask) :
    ∃ k', timerCallBack k saved = .ok k' ∧ k'.currentTask = if Resched t then k.runList.head?.getD
      (if t.state = .runnable then k.currentTask else k.idleTask) else k.currentTask := by
  have htick : tickTask k k.currentTask = .ok (k.setTask k.currentTask (ticked t)) := modifyTask_eq_ok.mpr ⟨t, ht, rfl⟩
  have ht₁ : (k.setTask k.currentTask (ticked t)).tasks k.currentTask = some (ticked t) := Function.update_self ..
  have hsome := setTask_isSome (ticked t) ht
  have hcall : timerCallBack k saved = (k.setTask k.currentTask (ticked t)).doIf ((ticked t).needResched = true)
      fun k => schedule k saved := by
    unfold timerCallBack
    rw [htick]
    simp only [Res.ok_bind]
    rw [show (k.setTask k.currentTask (ticked t)).currentTask = k.currentTask from rfl, task_eq_ok.mpr ht₁]
    rfl
  rw [hcall]
  unfold Kernel.doIf
  by_cases hresched : Resched t
  · rw [if_pos ((ticked_needResched t).mpr hresched), if_pos hresched, ← ticked_state t]
    exact schedule_current (k := k.setTask k.currentTask (ticked t)) (h.modifyTask htick (Or.inl rfl))
      (by simpa [hnull] using hsome NULL) ((hsome _).trans hidle) ht₁ hne
  · rw [if_neg fun hset => hresched ((ticked_needResched t).mp hset), if_neg hresched]
    exact ⟨_, rfl, rfl⟩

/-- The head of the queue is another task. -/
theorem stays_iff (h : RunInv k) (hne : k.currentTask ≠ k.idleTask) :
    (if Resched t then k.runList.head?.getD (if t.state = .runnable then k.currentTask else k.idleTask)
      else k.currentTask) = k.currentTask ↔ ¬ Resched t ∨ Alone k t := by
  unfold Alone
  by_cases hresched : Resched t
  · rw [if_pos hresched]
    simp only [hresched, not_true_eq_false, false_or]
    cases hqueue : k.runList with
    | nil => by_cases hstate : t.state = .runnable <;> simp [hstate, Ne.symm hne]
    | cons a rest =>
        have hother : a ≠ k.currentTask := ((h.mem a).mp (by simp [hqueue])).1
        simp [hother]
  · simp [hresched]

end Scheduler

/-! ### Interrupts -/

namespace StdinSystem

section Interrupts

variable {s s' : StdinSystem} {t : Task} {trap : Handler → StdinSystem → Res StdinSystem} {addr : U32}
variable {frame : InterruptFrame} {key : BitVec 8} {saved : Context}

/-- The system with `CurrentTask->_if = _if`. -/
def entered (s : StdinSystem) (t : Task) (addr : U32) : StdinSystem :=
  { s with sys := s.sys.setKernel (s.sys.kernel.setTask s.current { t with trapFrame := addr }) }

theorem lift_eq_ok {f : Kernel → Res Kernel} :
    s.lift f = .ok s' ↔ ∃ k, f s.sys.kernel = .ok k ∧ s' = { s with sys := s.sys.setKernel k } := by
  unfold lift
  rw [Res.bind_eq_ok]
  constructor
  · rintro ⟨sys, hcall, hs'⟩
    obtain ⟨k, hk, rfl⟩ := System.lift_eq_ok.mp hcall
    exact ⟨k, hk, (Except.ok.inj hs').symm⟩
  · rintro ⟨k, hk, rfl⟩
    exact ⟨_, System.lift_eq_ok.mpr ⟨k, hk, rfl⟩, rfl⟩

/-- The keyboard does not switch. -/
theorem doWrite_current (hcall : s.doWrite key = .ok s') : s'.current = s.current := by
  rcases doWrite_eq_ok hcall with ⟨-, rfl⟩ | ⟨s₁, sys, -, -, hkeyboard, rfl⟩
  · rfl
  · exact (wakeupLoop_spec hkeyboard).2.1

/-- An interrupt in kernel code: what is left of it is the handler. -/
theorem intrHandlerCall_current (hcur : s.current ≠ NULL) (ht : s.sys.kernel.tasks s.current = some t)
    (hcs : isIntrInKernel frame = true) (hcall : s.intrHandlerCall trap addr frame key saved = .ok s') :
    ∃ s₂, (s.entered t addr).dispatchIntr trap frame key saved = .ok s₂ ∧ s'.current = s₂.current := by
  unfold intrHandlerCall at hcall
  rw [if_neg hcur] at hcall
  obtain ⟨t', ht', hcall⟩ := Res.bind_eq_ok.mp hcall
  obtain ⟨s₁, henter, hrest⟩ := Res.bind_eq_ok.mp hcall
  obtain ⟨s₂, hdispatch, hend⟩ := Res.bind_eq_ok.mp hrest
  obtain ⟨k, hmod, rfl⟩ := lift_eq_ok.mp henter
  obtain ⟨t'', ht'', rfl⟩ := modifyTask_eq_ok.mp hmod
  obtain rfl := Option.some.inj (ht.symm.trans ht'')
  refine ⟨s₂, hdispatch, ?_⟩
  -- Behind a switch another task runs, and the frame of this one stays where it is.
  by_cases hne : s₂.current ≠ s.current
  · rw [if_pos hne] at hend
    obtain rfl := Except.ok.inj hend
    rfl
  · rw [if_neg hne] at hend
    obtain ⟨s₃, hleave, hkernel⟩ := Res.bind_eq_ok.mp hend
    rw [if_pos hcs] at hkernel
    obtain rfl := Except.ok.inj hkernel
    obtain ⟨k₃, hmod₃, rfl⟩ := lift_eq_ok.mp hleave
    exact modifyTask_current hmod₃

/-- A handler that switches does so for the interrupt. -/
theorem intrHandlerCall_switch (hcur : s.current ≠ NULL) (ht : s.sys.kernel.tasks s.current = some t)
    {s₂ : StdinSystem} (hdispatch : (s.entered t addr).dispatchIntr trap frame key saved = .ok s₂)
    (hne : s₂.current ≠ s.current) : s.intrHandlerCall trap addr frame key saved = .ok s₂ := by
  have htask : s.sys.kernel.task s.current = .ok t := task_eq_ok.mpr ht
  have henter : (s.lift fun k => k.modifyTask k.currentTask fun t => { t with trapFrame := addr }) =
      .ok (s.entered t addr) := lift_eq_ok.mpr ⟨_, modifyTask_eq_ok.mpr ⟨t, ht, rfl⟩, rfl⟩
  unfold intrHandlerCall
  rw [if_neg hcur, htask]
  simp only [Res.ok_bind]
  rw [henter]
  simp only [Res.ok_bind]
  rw [hdispatch]
  simp only [Res.ok_bind]
  rw [if_pos hne]
  rfl

/-- **Interrupts of devices in kernel code.**  In every state with the invariants of the task list and of the run queue,
for every device, every time slice and every task but `idle_task`: the interrupt does not switch to another task exactly
if it is not the timer, or `need_resched` is not set after the tick, or the task is runnable and alone. -/
theorem irq_in_kernel_no_switch_iff {lo hi : Nat} {m₀ : Pmm} (s : StdinSystem) (h : SysBase lo hi m₀ s.sys) (t : Task)
    (ht : s.sys.kernel.tasks s.current = some t) (hidle : s.current ≠ s.sys.kernel.idleTask)
    (trap : Handler → StdinSystem → Res StdinSystem) (addr : U32) (frame : InterruptFrame) (key : BitVec 8)
    (saved : Context) (hirq : IRQ0 ≤ frame.intNo ∧ frame.intNo < IRQ0 + 16) (hcs : isIntrInKernel frame = true) :
    (∀ s', s.intrHandlerCall trap addr frame key saved = .ok s' → s'.current = s.current) ↔
      frame.intNo ≠ IRQ0 ∨ ¬ Resched t ∨ Alone s.sys.kernel t := by
  obtain ⟨⟨used, hk⟩, hrun⟩ := h
  have hcur : s.current ≠ NULL := by
    intro hnull
    rw [hnull, hk.null] at ht
    cases ht
  by_cases htimer : frame.intNo = IRQ0
  · -- The timer, on the kernel with the new frame.
    have henter := modifyTask_eq_ok (g := fun t : Task => { t with trapFrame := addr }).mpr ⟨t, ht, rfl⟩
    have hlive := setTask_isSome { t with trapFrame := addr } ht
    have hrun₁ := hrun.modifyTask henter (Or.inl rfl)
    obtain ⟨k', hcall, hk'⟩ := timerCallBack_current
      (k := s.sys.kernel.setTask s.current { t with trapFrame := addr }) saved hrun₁ (by simpa [hk.null] using hlive NULL)
      ((hlive _).trans ((hk.live _).mp hk.idle)) (Function.update_self ..) hidle
    have hdispatch : (s.entered t addr).dispatchIntr trap frame key saved =
        .ok { s.entered t addr with sys := (s.entered t addr).sys.setKernel k' } := by
      unfold dispatchIntr interruptHandlers
      rw [if_pos htimer]
      exact lift_eq_ok.mpr ⟨k', hcall, rfl⟩
    have hiff : k'.currentTask = s.current ↔ ¬ Resched t ∨ Alone s.sys.kernel t := by
      rw [hk']
      exact stays_iff hrun₁ hidle
    simp only [htimer, ne_eq, not_true_eq_false, false_or]
    rw [← hiff]
    constructor
    · intro hall
      by_contra hne
      -- A switch inside the handler is one of the whole interrupt.
      exact hne (hall _ (intrHandlerCall_switch hcur ht hdispatch hne))
    · intro hsame s' hcall'
      obtain ⟨s₂, hdispatch₂, hs'⟩ := intrHandlerCall_current hcur ht hcs hcall'
      obtain rfl := Except.ok.inj (hdispatch.symm.trans hdispatch₂)
      exact hs'.trans hsame
  · simp only [ne_eq, htimer, not_false_eq_true, true_or, iff_true]
    intro s' hcall
    obtain ⟨s₂, hdispatch, hs'⟩ := intrHandlerCall_current hcur ht hcs hcall
    rw [hs']
    unfold dispatchIntr interruptHandlers at hdispatch
    rw [if_neg htimer] at hdispatch
    by_cases hkey : frame.intNo = IRQ1
    · rw [if_pos hkey] at hdispatch
      exact doWrite_current (s := s.entered t addr) hdispatch
    · -- The other two handlers belong to an exception and to system calls.
      have hlow := BitVec.le_def.mp hirq.1
      have hhigh := BitVec.lt_def.mp hirq.2
      have hfault : frame.intNo ≠ 14 := by
        intro heq
        rw [heq] at hlow
        exact absurd hlow (by decide)
      have hcallNo : frame.intNo ≠ T_SYSCALL := by
        intro heq
        rw [heq] at hhigh
        exact absurd hhigh (by decide)
      rw [if_neg hkey, if_neg hfault, if_neg hcallNo] at hdispatch
      obtain rfl := Except.ok.inj hdispatch
      rfl

end Interrupts

/-- A frame that the timer interrupt has pushed in kernel code. -/
def timerFrame : InterruptFrame := { noFrame with intNo := IRQ0, cs := KERNEL_CS }

/-- `init_task` is the only task, and goes on after the tick. -/
theorem irq_in_kernel_no_switch_init : ∃ k₀ s, initTask smallImage fortyFrames 0 = .ok k₀ ∧
    Relation.ReflTransGen StdinStep (bootStdin k₀ (fun _ => 0) fun _ => 0) s ∧ s.current ≠ s.sys.kernel.idleTask ∧
    ∀ s', s.intrHandlerCall (fun _ s => .ok s) 0xC0300000 timerFrame 0 noContext = .ok s' → s'.current = s.current := by
  have heval : (bootSteps (fun _ _ => true) [.other (.call .yield)]).map (fun x => decide (
      x.2.current ≠ x.2.sys.kernel.idleTask ∧ x.2.sys.kernel.runList = [] ∧
      (x.2.sys.kernel.tasks x.2.current).map Task.state = some .runnable)) = some true := by
    decide +kernel
  obtain ⟨⟨k₀, s⟩, hboot, heval⟩ := Option.map_eq_some_iff.mp heval
  obtain ⟨hidle, hqueue, hstate⟩ := of_decide_eq_true heval
  obtain ⟨hinit, hsteps⟩ := bootSteps_eq_some hboot
  obtain ⟨t, ht, hstate⟩ := Option.map_eq_some_iff.mp hstate
  have hrun := stdinSteps_of_steps hsteps
  exact ⟨k₀, s, hinit, hrun, hidle,
    (irq_in_kernel_no_switch_iff s (readersInv_of_run fortyFrames_ledger hinit hrun).sys.base t ht hidle _ _ timerFrame 0
      noContext ⟨by decide, by decide⟩ (by decide)).mpr (Or.inr (Or.inr ⟨hstate, hqueue⟩))⟩

/-- `init_task` has forked, and a tick in its kernel code gives the CPU to the child. -/
theorem irq_in_kernel_switches : ∃ k₀ s s', initTask smallImage fortyFrames 0 = .ok k₀ ∧
    Relation.ReflTransGen StdinStep (bootStdin k₀ (fun _ => 0) fun _ => 0) s ∧ s.current ≠ s.sys.kernel.idleTask ∧
    isIntrInKernel timerFrame = true ∧ timerFrame.intNo = IRQ0 ∧
    s.intrHandlerCall (fun _ s => .ok s) 0xC0300000 timerFrame 0 noContext = .ok s' ∧ s'.current ≠ s.current := by
  have heval : (do
      let (k₀, s) ← bootSteps (fun _ _ => true) [.other (.call .yield), .other (.call (.fork 0 0 noFrame))]
      let s' ← (s.intrHandlerCall (fun _ s => .ok s) 0xC0300000 timerFrame 0 noContext).toOption
      return decide (s.current ≠ s.sys.kernel.idleTask ∧ s'.current ≠ s.current)) = some true := by
    decide +kernel
  obtain ⟨⟨k₀, s⟩, hboot, heval⟩ := Option.bind_eq_some_iff.mp heval
  obtain ⟨s', hcall, heval⟩ := Option.bind_eq_some_iff.mp heval
  obtain ⟨hidle, hswitch⟩ := of_decide_eq_true (Option.some.inj heval)
  obtain ⟨hinit, hsteps⟩ := bootSteps_eq_some hboot
  exact ⟨k₀, s, s', hinit, stdinSteps_of_steps hsteps, hidle, by decide, rfl, Res.toOption_eq_some.mp hcall, hswitch⟩

end StdinSystem

end Krnl
end FreakOS
