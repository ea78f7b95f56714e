import FreakOS.Krnl.InterruptFlag

/-!
# Trap frames

What happens to the frame of a call and to `_if` between `enter` and `interruptRet`.

* `callFrames` — the state of a task in a call: its `_if` points to the last frame on its stack.
* `KeepsCall` — what runs in a call changes nothing but the contents of that frame.
* `intrHandlerCall_safe` — `IntrHandlerCall` restores `_if`, and the frame has the result of the call.
* `isrStub_kept`, `intSyscall_safe` — interrupts leave all as it was; a system call may load another program.
* `rules_follow` — all rules keep to the discipline.
-/

namespace FreakOS
namespace Krnl
namespace Interrupts

open Lib
open Lib.Coroutine
open StdinSystem (isIntrInKernel)

variable {T : Type} [DecidableEq T] {t : T} {o : TaskFrames T} {p : Cpu T}

/-! ### Access to frames -/

section Access

theorem stack_modify (stack : List InterruptFrame) (frame : InterruptFrame) (g : InterruptFrame → InterruptFrame) :
    (stack ++ [frame]).modify stack.length g = stack ++ [g frame] := by
  induction stack with
  | nil => rfl
  | cons top stack ih => simpa using ih

omit [DecidableEq T] in
theorem safe_getIf {post : Option (FramePtr T) → TaskFrames T → Cpu T → Prop} (hp : InKernel t o p)
    (h : post o.trapFrame o p) : Obeys t post getIf o p := by
  apply safe_read hp.sane
  intro part hpart
  have hcurrent : p.currentTask = some t := hp.1
  simpa [hcurrent, hpart] using h

theorem safe_setIf {tf : Option (FramePtr T)} {post : Unit → TaskFrames T → Cpu T → Prop} (hp : InKernel t o p)
    (h : post () { o with trapFrame := tf } p) : Obeys t post (setIf tf) o p := by
  apply safe_lift hp.sane
  intro part hpart
  have hcurrent : p.currentTask = some t := hp.1
  simp only [hcurrent]
  constructor
  · intro u hu
    simp [hu]
  · simpa [hpart] using h

omit [DecidableEq T] in
/-- A load from a frame on the stack of the task. -/
theorem safe_load {index : Nat} {frame : InterruptFrame} {post : InterruptFrame → TaskFrames T → Cpu T → Prop}
    (hsane : (discipline T).sane t o p) (hframe : o.stack[index]? = some frame) (h : post frame o p) :
    Obeys t post (load (some ⟨t, index⟩)) o p := by
  apply Safe.bind
  apply safe_read hsane
  intro part hpart
  have hat : frameAt ⟨p, part⟩ ⟨t, index⟩ = some frame := by
    show (part t).stack[index]? = some frame
    rw [hpart]
    exact hframe
  simpa [hat] using h

omit [DecidableEq T] in
theorem load_kept (tf : Option (FramePtr T)) : Kept (load tf) := by
  intro t o p hp
  apply Safe.bind
  apply safe_read hp.sane
  intro part hpart
  split
  · exact ⟨rfl, rfl⟩
  · exact safe_any hp.sane fun _ => ⟨rfl, rfl⟩

theorem safe_modify {index : Nat} {g : InterruptFrame → InterruptFrame} {post : Unit → TaskFrames T → Cpu T → Prop}
    (hsane : (discipline T).sane t o p) (h : post () { o with stack := o.stack.modify index g } p) :
    Obeys t post (modify (some ⟨t, index⟩) g) o p := by
  apply safe_lift hsane
  intro part hpart
  constructor
  · intro u hu
    simp [hu]
  · simpa [hpart] using h

end Access

/-! ### Inside a call -/

/-- The state of the task `t` in the call of the frame `frame`, which is on top of `stack`. -/
def callFrames (t : T) (stack : List InterruptFrame) (frame : InterruptFrame) : TaskFrames T :=
  ⟨some ⟨t, stack.length⟩, stack ++ [frame]⟩

/-- What runs in a call: it may change the contents of the frame of the call, and nothing else. -/
def KeepsCall {α : Type} (x : FramePtr T → Code T α) : Prop :=
  ∀ t stack frame p, InKernel t (callFrames t stack frame) p →
    Obeys t (fun _ o' p' => (∃ frame', o' = callFrames t stack frame') ∧ p' = p) (x ⟨t, stack.length⟩)
      (callFrames t stack frame) p

section Call

variable {stack : List InterruptFrame} {frame : InterruptFrame}

omit [DecidableEq T] in
theorem callFrames_getElem : (callFrames t stack frame).stack[stack.length]? = some frame := by simp [callFrames]

omit [DecidableEq T] in
theorem KeepsCall.of_kept {α : Type} {x : FramePtr T → Code T α} (h : ∀ call, Kept (x call)) : KeepsCall x := by
  intro t stack frame p hp
  apply (h ⟨t, stack.length⟩ t _ p hp).mono
  rintro _ o' p' ⟨rfl, rfl⟩
  exact ⟨⟨frame, rfl⟩, rfl⟩

theorem sysFork_kept : Kept (sysFork : Code T Int) := by
  intro t o p hp
  apply Safe.bind
  apply safe_getIf hp
  apply Safe.bind
  apply (load_kept o.trapFrame t o p hp).mono
  rintro frame o' p' ⟨rfl, rfl⟩
  exact doFork_kept frame.userEsp (load_kept _) t _ _ hp

theorem loadIcodeEnd_safe (hp : InKernel t (callFrames t stack frame) p) :
    Obeys t (fun _ o' p' => (∃ frame', o' = callFrames t stack frame') ∧ p' = p) (loadIcodeEnd ⟨t, stack.length⟩)
      (callFrames t stack frame) p := by
  apply Safe.bind
  apply safe_getIf hp
  apply Safe.bind
  apply safe_any hp.sane
  intro stacktop
  apply Safe.bind
  apply safe_any hp.sane
  intro entry
  apply Safe.bind
  apply safe_modify hp.sane
  have hp' : InKernel t (callFrames t stack (userFrame stacktop entry)) p := hp
  have hnew : ({ callFrames t stack frame with
      stack := (callFrames t stack frame).stack.modify stack.length fun _ => userFrame stacktop entry } : TaskFrames T) =
      callFrames t stack (userFrame stacktop entry) := by
    unfold callFrames
    rw [stack_modify]
  rw [hnew]
  apply Safe.bind
  apply safe_report hp'.sane
  · rfl
  · apply (exclusive_kept t _ _ hp').mono
    rintro _ o' p' ⟨rfl, rfl⟩
    exact ⟨⟨_, rfl⟩, rfl⟩

theorem doExecve_keepsCall : KeepsCall (doExecve : FramePtr T → Code T Int) := by
  intro t stack frame p hp
  apply Safe.bind
  apply (kernelWork_kept t _ p hp).mono
  rintro _ o' p' ⟨rfl, rfl⟩
  apply Safe.bind
  apply safe_any hp.sane
  intro failed
  cases failed with
  | true => exact safe_any hp.sane fun _ => ⟨⟨frame, rfl⟩, rfl⟩
  | false =>
      apply Safe.bind
      apply (kernelWork_kept t _ _ hp).mono
      rintro _ o' p' ⟨rfl, rfl⟩
      apply Safe.bind
      apply safe_any hp.sane
      intro failed
      cases failed with
      | true =>
          apply (doExit_kept t _ _ hp).mono
          rintro _ o' p' ⟨rfl, rfl⟩
          exact ⟨⟨frame, rfl⟩, rfl⟩
      | false =>
          apply Safe.bind
          apply (loadIcodeEnd_safe hp).mono
          rintro _ o' p' ⟨⟨frame', rfl⟩, rfl⟩
          have hp' : InKernel t (callFrames t stack frame') p' := hp
          apply Safe.bind
          apply (exclusive_kept t _ _ hp').mono
          rintro _ o' p' ⟨rfl, rfl⟩
          exact ⟨⟨frame', rfl⟩, rfl⟩

theorem syscalls_keepsCall (number : Syscall) : KeepsCall fun call : FramePtr T => syscalls call number := by
  cases number with
  | exit => exact KeepsCall.of_kept fun _ => doExit_kept
  | fork => exact KeepsCall.of_kept fun _ => sysFork_kept
  | wait => exact KeepsCall.of_kept fun _ => doWait_kept
  | exec => exact doExecve_keepsCall
  | other =>
      apply KeepsCall.of_kept
      intro _
      apply kernelWork_kept.bind
      intro _
      exact keeps_any fun _ _ _ hp => hp.sane

/-- The frame of a call after it: as it was, or with the result of a system call in `eax`. -/
def Outcome (frame : InterruptFrame) (result : Option U32) (frame' : InterruptFrame) : Prop :=
  match result with
  | none => frame' = frame
  | some eax => frame.intNo = T_SYSCALL ∧ frame'.eax = eax

/-- `syscall` reads its arguments from the frame of its call, and stores its result there. -/
theorem syscall_safe (hp : InKernel t (callFrames t stack frame) p) (hno : frame.intNo = T_SYSCALL) :
    Obeys t (fun result o' p' => (∃ frame', o' = callFrames t stack frame' ∧ Outcome frame result frame') ∧ p' = p)
      (syscall ⟨t, stack.length⟩) (callFrames t stack frame) p := by
  apply Safe.bind
  apply safe_getIf hp
  apply Safe.bind
  apply safe_load hp.sane callFrames_getElem
  split
  · rename_i number _
    apply Safe.bind
    apply safe_getIf hp
    apply Safe.bind
    apply safe_report hp.sane
    · exact ⟨rfl, rfl⟩
    apply Safe.bind
    apply (syscalls_keepsCall number t stack frame p hp).mono
    rintro ret o' p' ⟨⟨frame', rfl⟩, rfl⟩
    have hp' : InKernel t (callFrames t stack frame') p' := hp
    apply Safe.bind
    apply safe_getIf hp'
    apply Safe.bind
    apply safe_modify hp'.sane
    apply Safe.bind
    apply safe_report
    · exact InKernel.sane hp'
    · exact ⟨rfl, rfl⟩
    · refine ⟨⟨{ frame' with eax := BitVec.ofInt 32 ret }, ?_, hno, rfl⟩, rfl⟩
      unfold callFrames
      rw [stack_modify]
  · apply Safe.bind
    apply (exclusive_kept t _ _ hp).mono
    rintro _ o' p' ⟨rfl, rfl⟩
    apply Safe.bind
    apply (exclusive_kept t _ _ hp).mono
    rintro _ o' p' ⟨rfl, rfl⟩
    exact ⟨⟨frame, rfl, rfl⟩, rfl⟩

/-- `IntrHandlerCall` finds the handler of an exception, not that of a device or of system calls. -/
theorem interruptHandlers_exception (n : Fin 32) :
    interruptHandlers (BitVec.ofNat 32 n.val) = none ∨
      interruptHandlers (BitVec.ofNat 32 n.val) = some .pageFaultCallback := by
  revert n
  decide

theorem interruptHandlers_syscall {intNo : U32} (h : interruptHandlers intNo = some .syscall) : intNo = T_SYSCALL := by
  unfold interruptHandlers at h
  split at h
  · cases h
  split at h
  · cases h
  split at h
  · cases h
  split at h
  · assumption
  · cases h

theorem pageFaultCallback_kept (call : FramePtr T) : Kept (pageFaultCallback call) := by
  apply (kept_loop exclusive_kept).bind
  intro _
  apply kept_any
  intro restored
  cases restored with
  | true => exact keeps_pure ()
  | false =>
      apply (keeps_read fun _ _ _ hp => hp.sane).bind
      intro current
      cases current with
      | none => exact keeps_panic
      | some _ =>
          apply (load_kept (some call)).bind
          intro frame
          split
          · exact keeps_panic
          · exact doExit_kept

theorem dispatchIntr_safe (hp : InKernel t (callFrames t stack frame) p) :
    Obeys t (fun result o' p' => (∃ frame', o' = callFrames t stack frame' ∧ Outcome frame result frame') ∧ p' = p)
      (dispatchIntr ⟨t, stack.length⟩) (callFrames t stack frame) p := by
  have hsame : ∀ {x : Code T Unit}, Kept x →
      Obeys t (fun result o' p' => (∃ frame', o' = callFrames t stack frame' ∧ Outcome frame result frame') ∧ p' = p)
        (x >>= fun _ => pure none) (callFrames t stack frame) p := by
    intro x hx
    apply Safe.bind
    apply (hx t _ _ hp).mono
    rintro _ o' p' ⟨rfl, rfl⟩
    exact ⟨⟨frame, rfl, rfl⟩, rfl⟩
  apply Safe.bind
  apply safe_load hp.sane callFrames_getElem
  split
  · exact ⟨⟨frame, rfl, rfl⟩, rfl⟩
  · exact hsame timerCallBack_kept
  · exact hsame kbdIntrCallBack_kept
  · exact hsame (pageFaultCallback_kept _)
  · rename_i hhandler
    exact syscall_safe hp (interruptHandlers_syscall hhandler)

theorem backToUser_kept : Kept (backToUser : Code T Unit) := by
  apply kept_any
  intro exiting
  cases exiting with
  | true => exact doExit_kept
  | false =>
      apply kept_any
      intro resched
      cases resched with
      | true => exact schedule_kept
      | false => exact keeps_pure ()

omit [DecidableEq T] in
/-- The report at the end, for a task whose `_if` is again what it was. -/
theorem reportCompleted_kept (hp : InKernel t o p) :
    Obeys t (fun _ o' p' => o' = o ∧ p' = p) (reportCompleted t o.trapFrame) o p := by
  apply Safe.bind
  apply safe_read hp.sane
  intro part hpart
  apply safe_report hp.sane
  · exact ⟨hp.1, congrArg TaskFrames.trapFrame hpart⟩
  · exact ⟨rfl, rfl⟩

/-- `IntrHandlerCall` leaves `_if` as it found it, and the frame has the result of the call. -/
theorem intrHandlerCall_safe {oldIf : Option (FramePtr T)} (hp : InKernel t ⟨oldIf, stack ++ [frame]⟩ p) :
    Obeys t (fun result o' p' => (∃ frame', o' = ⟨oldIf, stack ++ [frame']⟩ ∧ Outcome frame result frame') ∧ p' = p)
      (intrHandlerCall ⟨t, stack.length⟩) ⟨oldIf, stack ++ [frame]⟩ p := by
  apply Safe.bind
  apply safe_read hp.sane
  intro part hpart
  have hcurrent : p.currentTask = some t := hp.1
  simp only [hcurrent]
  apply Safe.bind
  apply safe_getIf hp
  apply Safe.bind
  apply safe_setIf hp
  have hcall : InKernel t (callFrames t stack frame) p := hp
  apply Safe.bind
  apply safe_load hcall.sane callFrames_getElem
  apply Safe.bind
  -- Handlers inside this one have put `_if` back, so only the frame of this call may be another one.
  apply (dispatchIntr_safe hcall).mono
  rintro result o' p' ⟨⟨frame', rfl, hout⟩, rfl⟩
  have hcall' : InKernel t (callFrames t stack frame') p' := hp
  apply Safe.bind
  apply safe_setIf hcall'
  have hback : InKernel t ⟨oldIf, stack ++ [frame']⟩ p' := hp
  have hend : Obeys t
      (fun result' o' p'' => (∃ frame', o' = ⟨oldIf, stack ++ [frame']⟩ ∧ Outcome frame result' frame') ∧ p'' = p')
      (reportCompleted t oldIf >>= fun _ => pure result) ⟨oldIf, stack ++ [frame']⟩ p' := by
    apply Safe.bind
    apply (reportCompleted_kept hback).mono
    rintro _ o'' p'' ⟨rfl, rfl⟩
    exact ⟨⟨frame', rfl, hout⟩, rfl⟩
  split
  · apply Safe.bind
    apply (backToUser_kept t _ _ hback).mono
    rintro _ o'' p'' ⟨rfl, rfl⟩
    exact hend
  · exact hend

end Call

/-! ### Into the kernel and back -/

/-- The frame that `enter` builds. -/
def enteredFrame (p : Cpu T) (regs : InterruptFrame) : InterruptFrame :=
  { regs with
    cs := p.cs
    eflags := (regs.eflags &&& ~~~FL_IF) ||| (if p.intr then FL_IF else 0) }

/-- The stack on which it builds it. -/
def enteredStack (o : TaskFrames T) (p : Cpu T) : List InterruptFrame := if p.cs = KERNEL_CS then o.stack else []

/-- The frames and the CPU behind `interruptRet`, where `_if` was `oldIf` and `frame` was on top of `stack`. -/
def returnedFrames (oldIf : Option (FramePtr T)) (stack : List InterruptFrame) (frame : InterruptFrame) :
    TaskFrames T :=
  ⟨oldIf, if frame.cs = KERNEL_CS then stack else []⟩
@[inherit_doc returnedFrames] def returnedCpu (p : Cpu T) (frame : InterruptFrame) : Cpu T :=
  { p with intr := frame.eflags &&& FL_IF ≠ 0, cs := frame.cs }

section Stub

variable {regs frame : InterruptFrame} {stack : List InterruptFrame} {oldIf : Option (FramePtr T)}

omit [DecidableEq T] in
/-- The interrupt flag comes back from the frame. -/
theorem enteredFrame_intr : decide ((enteredFrame p regs).eflags &&& FL_IF ≠ 0) = p.intr := by
  have hbits : (regs.eflags &&& ~~~FL_IF) &&& FL_IF = 0 := by
    rw [BitVec.and_assoc, show ~~~FL_IF &&& FL_IF = 0 from by decide]
    simp
  -- The other bits of the flags are gone, so the flag of the CPU decides.
  cases hintr : p.intr with
  | false => simpa [enteredFrame, hintr] using hbits
  | true =>
      have hone : (enteredFrame p regs).eflags &&& FL_IF = FL_IF := by
        simp only [enteredFrame, hintr, if_true]
        rw [BitVec.and_or_distrib_right, hbits]
        decide
      rw [hone]
      decide

omit [DecidableEq T] in
/-- What was entered is what comes back, if the stack in user mode was empty. -/
theorem returned_entered (regs : InterruptFrame) (hstack : p.cs ≠ KERNEL_CS → o.stack = []) :
    returnedFrames o.trapFrame (enteredStack o p) (enteredFrame p regs) = o ∧ returnedCpu p (enteredFrame p regs) = p := by
  constructor
  · obtain ⟨trapFrame, frames⟩ := o
    by_cases hcs : p.cs = KERNEL_CS
    · simp [returnedFrames, enteredStack, enteredFrame, hcs]
    · have hempty : frames = [] := hstack hcs
      simp [returnedFrames, enteredFrame, hcs, hempty]
  · unfold returnedCpu
    rw [enteredFrame_intr]
    rfl

theorem safe_enter {trapGate : Bool} {post : FramePtr T → TaskFrames T → Cpu T → Prop}
    (hsane : (discipline T).sane t o p)
    (h : post ⟨t, (enteredStack o p).length⟩ ⟨o.trapFrame, enteredStack o p ++ [enteredFrame p regs]⟩
      { p with intr := trapGate && p.intr, cs := KERNEL_CS }) :
    Obeys t post (enter trapGate regs) o p := by
  apply safe_lift hsane
  intro part hpart
  constructor
  · intro u hu
    simp [hu]
  · simpa [enteredStack, enteredFrame, hpart] using h

theorem safe_interruptRet (stack : List InterruptFrame) {post : InterruptFrame → TaskFrames T → Cpu T → Prop}
    (hsane : (discipline T).sane t ⟨oldIf, stack ++ [frame]⟩ p)
    (h : post frame (returnedFrames oldIf stack frame) (returnedCpu p frame)) :
    Obeys t post (interruptRet (some ⟨t, stack.length⟩)) ⟨oldIf, stack ++ [frame]⟩ p := by
  apply Safe.bind
  apply safe_load hsane List.getElem?_concat_length
  apply safe_lift hsane
  intro part hpart
  constructor
  · intro u hu
    simp [hu]
  · simpa [returnedFrames, returnedCpu, hpart] using h

/-- The first frame of a task. -/
theorem safe_interruptRet_first {post : InterruptFrame → TaskFrames T → Cpu T → Prop}
    (hsane : (discipline T).sane t ⟨oldIf, [frame]⟩ p)
    (h : post frame (returnedFrames oldIf [] frame) (returnedCpu p frame)) :
    Obeys t post (interruptRet (some ⟨t, 0⟩)) ⟨oldIf, [frame]⟩ p :=
  safe_interruptRet [] hsane h

/-- The stub around a call of `IntrHandlerCall` that leaves a frame from which the task can go on. -/
theorem isrStub_of_call {trapGate : Bool} {Q : Option U32 → InterruptFrame → Prop}
    (hsane : (discipline T).sane t o p)
    (hkernel : ∀ o' intr, (intr = true → p.intr = true) →
      (discipline T).sane t o' { p with intr := intr, cs := KERNEL_CS })
    (hcall : Obeys t
      (fun result o' p' => (∃ frame', o' = ⟨o.trapFrame, enteredStack o p ++ [frame']⟩ ∧
        Outcome (enteredFrame p regs) result frame' ∧ Q result frame') ∧
          p' = { p with intr := false, cs := KERNEL_CS })
      (intrHandlerCall ⟨t, (enteredStack o p).length⟩) ⟨o.trapFrame, enteredStack o p ++ [enteredFrame p regs]⟩
      { p with intr := false, cs := KERNEL_CS })
    (hsafe : ∀ result frame', Q result frame' → (discipline T).sane t
      (returnedFrames o.trapFrame (enteredStack o p) frame') (returnedCpu p frame')) :
    Obeys t (fun _ o' p' => ∃ result frame', Q result frame' ∧ Outcome (enteredFrame p regs) result frame' ∧
        o' = returnedFrames o.trapFrame (enteredStack o p) frame' ∧ p' = returnedCpu p frame')
      (isrStub trapGate regs) o p := by
  apply Safe.bind
  apply safe_enter hsane
  apply Safe.bind
  apply safe_cli
  · apply hkernel
    cases trapGate <;> simp
  apply Safe.bind
  apply hcall.mono
  rintro result o' p' ⟨⟨frame', rfl, hout, hresult⟩, rfl⟩
  apply Safe.bind
  apply safe_interruptRet
  · exact hkernel _ false (by simp)
  apply safe_report
  · exact hsafe result frame' hresult
  · show frame'.eax = result.getD regs.eax
    cases result with
    | none => rw [hout]; rfl
    | some eax => exact hout.2
  · exact ⟨result, frame', hresult, hout, rfl, rfl⟩

/-- A stub for a task that is `CurrentTask`: it goes back with what is then in its frame. -/
theorem isrStub_safe {trapGate : Bool} (hcurrent : p.currentTask = some t) (hstack : p.cs ≠ KERNEL_CS → o.stack = []) :
    Obeys t (fun _ o' p' => ∃ result frame', Outcome (enteredFrame p regs) result frame' ∧
        o' = returnedFrames o.trapFrame (enteredStack o p) frame' ∧ p' = returnedCpu p frame')
      (isrStub trapGate regs) o p := by
  have hin : InKernel t ⟨o.trapFrame, enteredStack o p ++ [enteredFrame p regs]⟩
      { p with intr := false, cs := KERNEL_CS } := ⟨hcurrent, rfl⟩
  refine (isrStub_of_call (Q := fun _ _ => True) ?_ ?_ ?_ ?_).mono ?_
  · exact ⟨fun _ => hcurrent, fun hcs => ⟨hcurrent, hstack hcs⟩⟩
  · exact fun _ _ _ => ⟨fun _ => hcurrent, fun hcs => absurd rfl hcs⟩
  · apply (intrHandlerCall_safe hin).mono
    rintro result o' p' ⟨⟨frame', rfl, hout⟩, rfl⟩
    exact ⟨⟨frame', rfl, hout, trivial⟩, rfl⟩
  · -- behind `iret` the task is still `CurrentTask`, and in user mode its stack is empty
    intro result frame' _
    refine ⟨fun _ => hcurrent, fun hcs => ⟨hcurrent, ?_⟩⟩
    have hcs' : frame'.cs ≠ KERNEL_CS := hcs
    simp [returnedFrames, hcs']
  · rintro _ o' p' ⟨result, frame', -, hout, ho, hp⟩
    exact ⟨result, frame', hout, ho, hp⟩

/-- A call of `IntrHandlerCall` for an exception while there is no `CurrentTask`. -/
theorem intrHandlerCall_none {n : Fin 32} (hcurrent : p.currentTask = none)
    (hsane : (discipline T).sane t ⟨oldIf, stack ++ [frame]⟩ p) (hno : frame.intNo = BitVec.ofNat 32 n.val) :
    Obeys t (fun result o' p' => result = none ∧ o' = ⟨oldIf, stack ++ [frame]⟩ ∧ p' = p)
      (intrHandlerCall ⟨t, stack.length⟩) ⟨oldIf, stack ++ [frame]⟩ p := by
  apply Safe.bind
  apply safe_read hsane
  intro part hpart
  simp only [hcurrent]
  apply Safe.bind
  apply safe_load hsane List.getElem?_concat_length
  rw [hno]
  cases interruptHandlers_exception n with
  | inl hnone =>
      rw [hnone]
      exact ⟨rfl, rfl, rfl⟩
  | inr hfault =>
      rw [hfault]
      apply Safe.bind
      apply Safe.bind
      apply (exclusive_keeps.loop (fun _ _ _ h => h) t _ p hsane).mono
      rintro _ o' p' ⟨rfl, rfl⟩
      apply Safe.bind
      apply safe_any hsane
      intro restored
      cases restored with
      | true => exact ⟨rfl, rfl, rfl⟩
      | false =>
          apply Safe.bind
          apply safe_read hsane
          intro part' hpart'
          simp only [hcurrent]
          exact safe_panic hsane

theorem intNo_ne_syscall (i : Interrupt) : i.intNo ≠ T_SYSCALL := by
  cases i with
  | irq n => revert n; decide
  | exception n => revert n; decide

omit [DecidableEq T] in
theorem returned_of_outcome {result : Option U32} (hout : Outcome (enteredFrame p regs) result frame)
    (hno : regs.intNo ≠ T_SYSCALL) : frame = enteredFrame p regs := by
  cases result with
  | none => exact hout
  | some eax => exact absurd hout.1 hno

/-- An interrupt of a device or an exception leaves all as it was. -/
theorem isrStub_kept {i : Interrupt} (hallowed : i.Allowed t p) (hsane : (discipline T).sane t o p)
    (hregs : regs.intNo = i.intNo) : Obeys t (fun _ o' p' => o' = o ∧ p' = p) (isrStub false regs) o p := by
  have hstack : p.cs ≠ KERNEL_CS → o.stack = [] := fun hcs => (hsane.2 hcs).2
  have hsame := returned_entered regs hstack
  have hcase : p.currentTask = some t ∨ p.currentTask = none ∧ ∃ n, i = .exception n := by
    cases i with
    | irq n => exact .inl (hsane.1 hallowed)
    | exception n =>
        cases hallowed with
        | inl hnone => exact .inr ⟨hnone, n, rfl⟩
        | inr hcurrent => exact .inl hcurrent
  cases hcase with
  | inl hcurrent =>
      apply (isrStub_safe hcurrent hstack).mono
      rintro _ o' p' ⟨result, frame', hout, rfl, rfl⟩
      obtain rfl := returned_of_outcome hout (hregs ▸ intNo_ne_syscall i)
      exact hsame
  | inr hnone =>
      obtain ⟨hnone, n, rfl⟩ := hnone
      have hintr : p.intr = false := by
        cases hintr : p.intr with
        | false => rfl
        | true => exact absurd (hsane.1 hintr) (by simp [hnone])
      have hkernel : ∀ o' intr, (intr = true → p.intr = true) →
          (discipline T).sane t o' { p with intr := intr, cs := KERNEL_CS } := by
        intro o' intr hle
        exact ⟨fun h => absurd (hle h) (by simp [hintr]), fun h => absurd rfl h⟩
      refine (isrStub_of_call (Q := fun _ frame' => frame' = enteredFrame p regs) hsane hkernel ?_ ?_).mono ?_
      · have hno : (enteredFrame p regs).intNo = BitVec.ofNat 32 n.val := hregs
        refine (intrHandlerCall_none ?_ ?_ hno).mono ?_
        · exact hnone
        · exact hkernel _ false (by simp)
        rintro result o' p' ⟨rfl, rfl, rfl⟩
        exact ⟨⟨_, rfl, rfl, rfl⟩, rfl⟩
      · rintro result frame' rfl
        rw [hsame.1, hsame.2]
        exact hsane
      · rintro _ o' p' ⟨result, frame', rfl, -, rfl, rfl⟩
        exact hsame

end Stub

/-! ### Tasks -/

/-- A task that is `CurrentTask`, in user mode or in the kernel. -/
def OnTask (t : T) (o : TaskFrames T) (p : Cpu T) : Prop :=
  p.currentTask = some t ∧ (p.cs ≠ KERNEL_CS → o.stack = [])

section Tasks

omit [DecidableEq T] in
theorem OnTask.sane (h : OnTask t o p) : (discipline T).sane t o p := ⟨fun _ => h.1, fun hcs => ⟨h.1, h.2 hcs⟩⟩

theorem intSyscall_safe (hp : OnTask t o p) : Obeys t (fun _ => OnTask t) intSyscall o p := by
  apply Safe.bind
  apply safe_any hp.sane
  intro regs
  apply (isrStub_safe hp.1 hp.2).mono
  rintro _ o' p' ⟨result, frame', -, rfl, rfl⟩
  refine ⟨hp.1, fun hcs => ?_⟩
  have hcs' : frame'.cs ≠ KERNEL_CS := hcs
  simp [returnedFrames, hcs']

theorem userProgram_safe {post : Unit → TaskFrames T → Cpu T → Prop} (hp : OnTask t o p) :
    Obeys t post userProgram o p := by
  apply Safe.bind
  apply (safe_loop (fun _ _ h => h.sane) (fun _ _ h => intSyscall_safe h) hp).mono
  intro _ o' p' hp'
  exact safe_halt hp'.sane

/-- A round of a kernel thread ends in the kernel; a program that was loaded does not come back. -/
theorem kernelThread_safe (hp : InKernel t o p) : Obeys t (fun _ => (discipline T).sane t) kernelThread o p := by
  have hround : ∀ {x : Code T Unit}, Kept x → ∀ o p, InKernel t o p → Obeys t (fun _ => InKernel t) x o p := by
    intro x hx o p hp
    apply (hx t o p hp).mono
    rintro _ o' p' ⟨rfl, rfl⟩
    exact hp
  apply Safe.bind
  refine (safe_loop (fun _ _ h => h.sane) ?_ hp).mono ?_
  · intro o p hp
    apply Safe.bind
    apply safe_any hp.sane
    intro work
    cases work with
    | kernelWork => exact hround kernelWork_kept o p hp
    | schedule => exact hround schedule_kept o p hp
    | createKernelThread => exact hround (createKernelThread_kept.bind fun _ => keeps_pure ()) o p hp
    | doWait => exact hround (doWait_kept.bind fun _ => keeps_pure ()) o p hp
    | intSyscall =>
        apply Safe.bind
        apply (intSyscall_safe ⟨hp.1, fun hcs => absurd hp.2 hcs⟩).mono
        intro _ o' p' hp'
        apply Safe.bind
        apply safe_read hp'.sane
        intro part hpart
        split
        · rename_i hcs
          exact ⟨hp'.1, hcs⟩
        · exact userProgram_safe hp'
  · intro _ o' p' hp'
    apply (doExit_kept t o' p' hp').mono
    rintro _ o'' p'' ⟨rfl, rfl⟩
    exact hp'.sane

/-- A new task begins with the frame on its stack. -/
theorem forkret_safe (hfresh : (discipline T).fresh t o) (hready : (discipline T).ready t p) :
    Obeys t (fun _ => (discipline T).sane t) forkret o p := by
  obtain ⟨frame, rfl⟩ := hfresh
  have hp : InKernel t ⟨some ⟨t, 0⟩, [frame]⟩ p := InKernel.of_ready hready
  apply Safe.bind
  apply safe_getIf hp
  apply Safe.bind
  apply safe_interruptRet_first hp.sane
  have htask : OnTask t (returnedFrames (some ⟨t, 0⟩) [] frame) (returnedCpu p frame) := by
    refine ⟨hp.1, fun _ => ?_⟩
    simp [returnedFrames]
  split
  · rename_i hcs
    exact kernelThread_safe ⟨htask.1, hcs⟩
  · exact userProgram_safe htask

/-- The rules keep to the discipline. -/
theorem rules_follow : Processor.Follows (discipline T) (rules T) := by
  constructor
  · intro t o p hfresh hready
    exact forkret_safe hfresh hready
  · intro i t o p hp
    apply Safe.bind
    apply safe_any hp.2
    intro regs
    exact isrStub_kept hp.1 hp.2 rfl

theorem initTask_safe (hcurrent : p.currentTask = none) (hcs : p.cs = KERNEL_CS) (hintr : p.intr = false) :
    Obeys t (fun _ => InKernel t) initTask o p := by
  have hsane : ∀ o, (discipline T).sane t o p :=
    fun _ => ⟨fun h => absurd h (by simp [hintr]), fun h => absurd hcs h⟩
  have hloop : ∀ o, Obeys t (fun _ o' p' => o' = o ∧ p' = p) (loop exclusive) o p :=
    fun o => exclusive_keeps.loop (fun _ _ _ h => h) t o p (hsane o)
  apply Safe.bind
  apply (hloop o).mono
  rintro _ o' p' ⟨rfl, rfl⟩
  apply Safe.bind
  apply safe_lift (hsane _)
  intro part hpart
  refine ⟨fun u hu => by simp [hu], ?_⟩
  apply Safe.bind
  apply (hloop _).mono
  rintro _ o'' p'' ⟨rfl, rfl⟩
  apply Safe.bind
  apply safe_pub (g := fun t p => { p with currentTask := some t }) (hsane _)
  have hin : ∀ o, InKernel t o { p'' with currentTask := some t } := fun _ => ⟨rfl, hcs⟩
  apply Safe.bind
  apply (createKernelThread_kept t _ _ (hin _)).mono
  rintro tid o' p' ⟨rfl, rfl⟩
  split
  · exact safe_panic (InKernel.sane ⟨rfl, hcs⟩)
  · exact ⟨rfl, hcs⟩

theorem main_safe (hcurrent : p.currentTask = none) (hcs : p.cs = KERNEL_CS) (hintr : p.intr = false) :
    Obeys t (fun _ => (discipline T).sane t) main o p := by
  apply Safe.bind
  apply (exclusive_keeps.loop (fun _ _ _ h => h) t o p ?_).mono
  · rintro _ o' p' ⟨rfl, rfl⟩
    apply Safe.bind
    apply (initTask_safe hcurrent hcs hintr).mono
    intro _ o' p' hp
    apply Safe.bind
    apply (kept_loop exclusive_kept t o' p' hp).mono
    rintro _ o'' p'' ⟨rfl, rfl⟩
    apply Safe.bind
    apply safe_sti hp.sane
    apply Safe.bind
    have hround : Kept (do if ← any Bool then schedule else return () : Code T Unit) := by
      apply kept_any
      intro resched
      cases resched with
      | true => exact schedule_kept
      | false => exact keeps_pure ()
    apply (kept_loop hround t _ _ (hp.withIntr true)).mono
    rintro _ o' p' ⟨rfl, rfl⟩
    exact safe_halt (hp.withIntr true).sane
  · exact ⟨fun h => absurd h (by simp [hintr]), fun h => absurd hcs h⟩

end Tasks

end Interrupts
end Krnl
end FreakOS
