import FreakOS.Krnl.Interrupts

/-!
# The interrupt flag in the functions of the kernel

What the functions of `Interrupts` that touch no frame do with the interrupt flag: each of them returns with the flag,
`CurrentTask` and the frames as they were when it was called, however long it has slept.

* `discipline` — what a task relies on when it gets the CPU back, and what the reports have to say.
* `InKernel` — the task is `CurrentTask`, and runs in the kernel.
* `schedule_keeps`, `acquireSem_keeps`, `stdinDoRead_keeps`, … — the functions.
-/

namespace FreakOS
namespace Krnl
namespace Interrupts

open Lib
open Lib.Coroutine

variable {T : Type}

/-- What an event has to say. -/
def Event.Good : Event T → Prop
  | .returned _ entry exit => exit = entry
  | .completed task trapFrame task' trapFrame' => task' = some task ∧ trapFrame' = trapFrame
  | .argsRead call tf current => tf = some call ∧ current = some call
  | .stored call tf current => tf = some call ∧ current = some call
  | .overwritten call tf => tf = some call
  | .resumed _ result eax => eax = result

/-- A task gets the CPU in the kernel, with the interrupt flag off and itself as `CurrentTask`.  While it runs,
`CurrentTask` may be another one only in the kernel and with the flag off, and in user mode its kernel stack is empty. -/
def discipline (T : Type) : Discipline T (Cpu T) (TaskFrames T) (Event T) where
  ready t p := p.intr = false ∧ p.cs = KERNEL_CS ∧ p.currentTask = some t
  sane t o p := (p.intr = true → p.currentTask = some t) ∧
    (p.cs ≠ KERNEL_CS → p.currentTask = some t ∧ o.stack = [])
  fresh t o := ∃ frame, o = ⟨some ⟨t, 0⟩, [frame]⟩
  good := Event.Good

/-- The task is `CurrentTask`, and runs in the kernel. -/
def InKernel (t : T) (_ : TaskFrames T) (p : Cpu T) : Prop := p.currentTask = some t ∧ p.cs = KERNEL_CS

/-- A coroutine of the kernel under the discipline. -/
abbrev Obeys (t : T) {α : Type} (post : α → TaskFrames T → Cpu T → Prop) (x : Code T α) :
    TaskFrames T → Cpu T → Prop :=
  x.Safe (discipline T) t post

/-- The function leaves the flag, `CurrentTask` and the frames as they were. -/
abbrev Kept {α : Type} (x : Code T α) : Prop := x.Keeps (discipline T) InKernel

variable {t : T} {o : TaskFrames T} {p : Cpu T}

theorem InKernel.sane (h : InKernel t o p) : (discipline T).sane t o p :=
  ⟨fun _ => h.1, fun hcs => absurd h.2 hcs⟩

theorem InKernel.withIntr (h : InKernel t o p) (intr : Bool) : InKernel t o { p with intr := intr } := h

/-- Where the task is ready, it is in the kernel. -/
theorem InKernel.of_ready (h : (discipline T).ready t p) : InKernel t o p := ⟨h.2.2, h.2.1⟩

/-! ### Saving and restoring the flag -/

section Flag

theorem sane_off (h : (discipline T).sane t o p) : (discipline T).sane t o { p with intr := false } :=
  ⟨fun hoff => absurd hoff (by simp), h.2⟩

theorem safe_cli {post : Unit → TaskFrames T → Cpu T → Prop} (hsane : (discipline T).sane t o p)
    (h : post () o { p with intr := false }) : Obeys t post cli o p :=
  safe_pub (g := fun _ p => { p with intr := false }) hsane h

theorem safe_sti {post : Unit → TaskFrames T → Cpu T → Prop} (hsane : (discipline T).sane t o p)
    (h : post () o { p with intr := true }) : Obeys t post sti o p :=
  safe_pub (g := fun _ p => { p with intr := true }) hsane h

theorem safe_panic {α : Type} {post : α → TaskFrames T → Cpu T → Prop} (hsane : (discipline T).sane t o p) :
    Obeys t post panic o p :=
  Safe.bind (safe_cli hsane (safe_halt (sane_off hsane)))

theorem safe_intrSave {post : Bool → TaskFrames T → Cpu T → Prop} (hsane : (discipline T).sane t o p)
    (h : post p.intr o { p with intr := false }) : Obeys t post intrSave o p := by
  apply Safe.bind
  apply safe_read hsane
  intro part hpart
  cases hintr : p.intr with
  | false =>
      have hsame : { p with intr := false } = p := by rw [← hintr]
      simpa [hintr, hsame] using h
  | true =>
      simp only [if_true]
      apply Safe.bind
      apply safe_cli hsane
      simpa [hintr] using h

theorem safe_intrRestore {flag : Bool} {post : Unit → TaskFrames T → Cpu T → Prop} (hsane : (discipline T).sane t o p)
    (h : post () o { p with intr := flag || p.intr }) : Obeys t post (intrRestore flag) o p := by
  cases flag with
  | false => simpa [intrRestore] using h
  | true => exact safe_sti hsane h

theorem keeps_panic {α : Type} : Kept (panic : Code T α) := fun _ _ _ hp => safe_panic hp.sane

/-- The flag is restored behind `intr_save`. -/
theorem kept_restore (hp : InKernel t o p) :
    Obeys t (fun _ o' p' => o' = o ∧ p' = p) (intrRestore p.intr) o { p with intr := false } := by
  apply safe_intrRestore (hp.withIntr false).sane
  simp

/-- Also before there is a `CurrentTask`. -/
theorem exclusive_keeps : (exclusive : Code T Unit).Keeps (discipline T) (discipline T).sane := by
  intro t o p hp
  apply Safe.bind
  apply safe_intrSave hp
  apply safe_intrRestore (sane_off hp)
  simp

theorem exclusive_kept : Kept (exclusive : Code T Unit) := fun t o p hp => exclusive_keeps t o p hp.sane

theorem returning_kept {α : Type} {fn : Fn} {body : Code T α} (h : Kept body) : Kept (returning fn body) := by
  intro t o p hp
  apply Safe.bind
  apply safe_read hp.sane
  intro part hpart
  apply Safe.bind
  apply (h t o p hp).mono
  rintro a o' p' ⟨rfl, rfl⟩
  apply Safe.bind
  apply safe_read hp.sane
  intro part' hpart'
  apply Safe.bind
  apply safe_report hp.sane
  · show p'.intr = p'.intr
    rfl
  · exact ⟨rfl, rfl⟩

/-- A value is chosen, and the code behind leaves all as it was. -/
theorem kept_any {α β : Type} {k : α → Code T β} (h : ∀ a, Kept (k a)) : Kept (any α >>= k) :=
  (keeps_any fun _ _ _ hp => hp.sane).bind h

theorem kept_loop {body : Code T Unit} (h : Kept body) : Kept (loop body) := h.loop fun _ _ _ hp => hp.sane

end Flag

/-! ### `sched.c` -/

section Sched

variable [DecidableEq T]

omit [DecidableEq T] in
theorem safe_setCurrent {u : T} {post : Unit → TaskFrames T → Cpu T → Prop} (hsane : (discipline T).sane t o p)
    (h : post () o { p with currentTask := some u }) : Obeys t post (setCurrent u) o p :=
  safe_pub (g := fun _ p => { p with currentTask := some u }) hsane h

/-- The flag is off from `CurrentTask = next_task` on, and the task that goes on behind `switch_to_s` finds it off. -/
theorem runTask_kept (next : T) : Kept (runTask next) := by
  intro t o p hp
  apply Safe.bind
  apply safe_read hp.sane
  intro part hpart
  have hcurrent : p.currentTask = some t := hp.1
  simp only [hcurrent]
  split
  · apply Safe.bind
    apply safe_intrSave hp.sane
    apply Safe.bind
    apply safe_setCurrent (hp.withIntr false).sane
    apply Safe.bind
    have hcs : p.cs = KERNEL_CS := hp.2
    apply safe_switchTo
    -- The flag is off in kernel code at the switch, as it has to be for a task that is put aside.
    · exact ⟨fun hoff => absurd hoff (by simp), fun hne => absurd hcs hne⟩
    · exact ⟨rfl, hcs, rfl⟩
    · rintro p' ⟨hintr, hcs', hcurrent'⟩
      apply safe_intrRestore (InKernel.of_ready ⟨hintr, hcs', hcurrent'⟩).sane
      refine ⟨rfl, ?_⟩
      cases p
      cases p'
      simp_all
  · exact ⟨rfl, rfl⟩

theorem schedule_kept : Kept (schedule : Code T Unit) := by
  apply returning_kept
  intro t o p hp
  apply Safe.bind
  apply safe_intrSave hp.sane
  apply Safe.bind
  apply safe_any (hp.withIntr false).sane
  intro next
  apply Safe.bind
  apply safe_read (hp.withIntr false).sane
  intro part hpart
  split
  · apply Safe.bind
    apply (runTask_kept next t o _ (hp.withIntr false)).mono
    rintro _ o' p' ⟨rfl, rfl⟩
    exact kept_restore hp
  · exact kept_restore hp

omit [DecidableEq T] in
theorem wakeupTask_kept : Kept (wakeupTask : Code T Unit) := by
  apply returning_kept
  apply kept_any
  intro zombie
  cases zombie with
  | true => exact keeps_panic
  | false => exact exclusive_kept

end Sched

/-! ### `sem.c`, `wait.c` and `stdin_inode.c` -/

section Sleep

variable [DecidableEq T]

theorem down_kept : Kept (down : Code T U32) := by
  intro t o p hp
  have hoff := hp.withIntr false
  apply Safe.bind
  apply safe_intrSave hp.sane
  apply Safe.bind
  apply safe_any hoff.sane
  intro positive
  -- The flag is on again while the task sleeps, and its own `intr_flag` is taken anew behind `schedule`.
  cases positive with
  | true =>
      apply Safe.bind
      apply (kept_restore hp).mono
      rintro _ o' p' ⟨rfl, rfl⟩
      exact ⟨rfl, rfl⟩
  | false =>
      apply Safe.bind
      apply (kept_restore hp).mono
      rintro _ o' p' ⟨rfl, rfl⟩
      apply Safe.bind
      apply (schedule_kept t _ _ hp).mono
      rintro _ o' p' ⟨rfl, rfl⟩
      apply Safe.bind
      apply safe_intrSave hp.sane
      apply Safe.bind
      apply (kept_restore hp).mono
      rintro _ o'' p'' ⟨rfl, rfl⟩
      exact safe_any hp.sane fun _ => ⟨rfl, rfl⟩

omit [DecidableEq T] in
theorem up_kept : Kept (up : Code T Unit) := by
  intro t o p hp
  have hoff := hp.withIntr false
  apply Safe.bind
  apply safe_intrSave hp.sane
  apply Safe.bind
  apply safe_any hoff.sane
  intro empty
  cases empty with
  | true => exact kept_restore hp
  | false =>
      apply Safe.bind
      apply (wakeupTask_kept t o _ hoff).mono
      rintro _ o' p' ⟨rfl, rfl⟩
      exact kept_restore hp

theorem acquireSem_kept : Kept (acquireSem : Code T Unit) := by
  apply returning_kept
  apply down_kept.bind
  intro flag
  split
  · exact keeps_panic
  · exact keeps_pure ()

omit [DecidableEq T] in
theorem releaseSem_kept : Kept (releaseSem : Code T Unit) := returning_kept up_kept

omit [DecidableEq T] in
theorem stdinDoWrite_kept (c : BitVec 8) : Kept (stdinDoWrite c : Code T Unit) := by
  apply returning_kept
  split
  · intro t o p hp
    have hoff := hp.withIntr false
    apply Safe.bind
    apply safe_intrSave hp.sane
    apply Safe.bind
    apply safe_any hoff.sane
    intro waiting
    cases waiting with
    | true =>
        apply Safe.bind
        apply (kept_loop wakeupTask_kept t o _ hoff).mono
        rintro _ o' p' ⟨rfl, rfl⟩
        exact kept_restore hp
    | false => exact kept_restore hp
  · exact keeps_pure ()

/-- The loop runs with the flag off, and `intr_flag` is always the flag with which the read was called. -/
theorem stdinReadLoop_safe (hp : InKernel t o p) (n : Nat) :
    Obeys t (fun flag o' p' => flag = p.intr ∧ o' = o ∧ p' = { p with intr := false })
      (stdinReadLoop n p.intr) o { p with intr := false } := by
  have hoff := hp.withIntr false
  -- On the rounds of the loop; `intr_flag` is saved anew behind each `schedule`.
  induction n with
  | zero => exact ⟨rfl, rfl, rfl⟩
  | succ n ih =>
      apply Safe.bind
      apply safe_any hoff.sane
      intro char
      cases char with
      | true => exact ih
      | false =>
          apply Safe.bind
          apply (kept_restore hp).mono
          rintro _ o' p' ⟨rfl, rfl⟩
          apply Safe.bind
          apply (schedule_kept t _ _ hp).mono
          rintro _ o' p' ⟨rfl, rfl⟩
          apply Safe.bind
          apply safe_intrSave hp.sane
          apply Safe.bind
          apply safe_any hoff.sane
          intro again
          cases again with
          | true => exact ih
          | false => exact ⟨rfl, rfl, rfl⟩

theorem stdinDoRead_kept : Kept (stdinDoRead : Code T Unit) := by
  apply returning_kept
  intro t o p hp
  apply Safe.bind
  apply safe_intrSave hp.sane
  apply Safe.bind
  apply safe_any (hp.withIntr false).sane
  intro n
  apply Safe.bind
  apply (stdinReadLoop_safe hp n).mono
  rintro flag o' p' ⟨rfl, rfl, rfl⟩
  exact kept_restore hp

omit [DecidableEq T] in
theorem kbdIntrCallBack_kept : Kept (kbdIntrCallBack : Code T Unit) := by
  apply exclusive_kept.bind
  intro _
  apply kept_any
  exact stdinDoWrite_kept

theorem timerCallBack_kept : Kept (timerCallBack : Code T Unit) := by
  apply kept_any
  intro resched
  cases resched with
  | true => exact schedule_kept
  | false => exact keeps_pure ()

end Sleep

/-! ### `task.c` -/

section Tasks

variable [DecidableEq T]

theorem kernelWork_kept : Kept (kernelWork : Code T Unit) := by
  apply kept_loop
  apply kept_any
  intro work
  cases work with
  | exclusive => exact exclusive_kept
  | wakeupTask => exact wakeupTask_kept
  | acquireSem => exact acquireSem_kept
  | releaseSem => exact releaseSem_kept
  | stdinDoRead => exact stdinDoRead_kept
  | panic => exact keeps_panic

theorem doExit_kept {α : Type} : Kept (doExit : Code T α) := by
  apply kept_any
  intro idle
  cases idle with
  | true => exact keeps_panic
  | false =>
      apply (kept_loop exclusive_kept).bind
      intro _ t o p hp
      have hoff := hp.withIntr false
      apply Safe.bind
      apply safe_intrSave hp.sane
      apply Safe.bind
      apply (kept_loop wakeupTask_kept t o _ hoff).mono
      rintro _ o' p' ⟨rfl, rfl⟩
      apply Safe.bind
      apply (kept_restore hp).mono
      rintro _ o' p' ⟨rfl, rfl⟩
      -- A task that has exited is not elected again; the code says so with `panic`.
      exact (exclusive_kept.bind fun _ => schedule_kept.bind fun _ => keeps_panic) t _ _ hp

theorem doWait_kept : Kept (doWait : Code T Int) := by
  apply kept_any
  intro inval
  cases inval with
  | true => exact keeps_pure _
  | false =>
      -- One round of `repeat`, which ends the task if it was killed while it waited.
      have hround : Kept (do
          schedule
          if ← any Bool then doExit else return () : Code T Unit) := by
        apply schedule_kept.bind
        intro _
        apply kept_any
        intro exiting
        cases exiting with
        | true => exact doExit_kept
        | false => exact keeps_pure ()
      apply (kept_loop hround).bind
      intro _
      apply kept_any
      intro nobody
      cases nobody with
      | true => exact keeps_pure _
      | false =>
          apply kept_any
          intro bad
          cases bad with
          | true => exact keeps_panic
          | false => exact exclusive_kept.bind fun _ => keeps_pure _

omit [DecidableEq T] in
/-- The frame of a child is on its own stack, and it is the one that its `_if` points to. -/
theorem copyTask_kept (esp : U32) (frame : InterruptFrame) : Kept (copyTask esp frame : Code T T) :=
  fun _ _ _ hp => ⟨hp.sane, fun _ _ => ⟨⟨_, rfl⟩, rfl, rfl⟩⟩

theorem doFork_kept (stack : U32) {frame : Code T InterruptFrame} (h : Kept frame) : Kept (doFork stack frame) := by
  apply kept_any
  intro full
  cases full with
  | true => exact keeps_pure _
  | false =>
      apply kernelWork_kept.bind
      intro _
      apply kept_any
      intro nomem
      cases nomem with
      | true => exact keeps_pure _
      | false =>
          apply h.bind
          intro parentFrame
          apply (copyTask_kept stack parentFrame).bind
          intro _
          apply exclusive_kept.bind
          intro _
          apply exclusive_kept.bind
          intro _
          apply wakeupTask_kept.bind
          intro _
          exact keeps_any fun _ _ _ hp => hp.sane

theorem createKernelThread_kept : Kept (createKernelThread : Code T Int) := by
  apply kept_any
  intro func
  apply kept_any
  intro arg
  apply kept_any
  intro entry
  exact doFork_kept 0 (keeps_pure _)

end Tasks

end Interrupts
end Krnl
end FreakOS
