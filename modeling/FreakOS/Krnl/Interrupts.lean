import FreakOS.Lib.Coroutine
import FreakOS.Krnl.Preemption

/-!
# The interrupt flag, and the frames on the kernel stacks

The code of the kernel as far as it changes the interrupt flag, `CurrentTask`, or the frames of `InterruptFrame_t` and
the pointers `_if` to them: `intr_sync.h`, `sched.c`, `sem.c`, `wait.c`, `stdin_inode.c`, `kbd.c`, `timer.c`, `idt.c`,
`syscall.c`, `page_fault.c`, the functions of `task.c`, `init_task.c` and `main.c`, and the stubs of `idt_s.s`.

Only the flow of control and what it depends on here is kept: what else a test depends on is any value, so each path
of the source is a path of the model.  In particular `schedule` takes any task.  A loop has any number of rounds.
`panic` and `haltSys` do not go on.

A frame is named by the task on whose kernel stack it is, and by the number of frames below it there.  What lies above
the stack pointer is not kept: a load from there gives any value.  Where the stack itself is in memory is the matter
of `KernelStack`.

* `Event` — what is reported of a run, for the results about it.
* `schedule`, `acquireSem`, `stdinDoRead`, … — the functions that use the interrupt flag.
* `doFork`, `doExecve`, `syscall`, `intrHandlerCall` — those that use frames.
* `isrStub`, `interruptRet` — the way into the kernel and back.
* `rules`, `Boot` — tasks begin in `forkret`, and the first one in `main`.
-/

namespace FreakOS
namespace Krnl
namespace Interrupts

open Lib
open Lib.Coroutine (any halt lift report loop switchTo)
open Memory (E_NOMEM E_INVAL)
open StdinSystem (isIntrInKernel)

/-! ### The state -/

/-- The interrupt flag and `cs` of the CPU, and the variable `CurrentTask`. -/
structure Cpu (T : Type) where
  intr : Bool
  cs : U32
  currentTask : Option T
deriving DecidableEq, Repr

/-- The address of a frame: the one with the number `index` from the bottom of the kernel stack of `task`. -/
structure FramePtr (T : Type) where
  task : T
  index : Nat
deriving DecidableEq, Repr

/-- What belongs to a task: `_if`, and the frames on its kernel stack, the last one at the end. -/
structure TaskFrames (T : Type) where
  trapFrame : Option (FramePtr T)
  stack : List InterruptFrame
deriving DecidableEq, Repr

/-- The functions that have to return with the interrupt flag with which they were called. -/
inductive Fn where
  | schedule
  | wakeupTask
  | acquireSem
  | releaseSem
  | stdinDoRead
  | stdinDoWrite
deriving DecidableEq, Repr

/-- What is reported. -/
inductive Event (T : Type) where
  /-- A function has returned; the interrupt flag when it was called, and now. -/
  | returned (fn : Fn) (entry exit : Bool)
  /-- `IntrHandlerCall` has ended: `CurrentTask` and its `_if` when it was called, `CurrentTask` and the `_if` of that
  task now. -/
  | completed (task : T) (trapFrame : Option (FramePtr T)) (task' : Option T) (trapFrame' : Option (FramePtr T))
  /-- `syscall`, called for the frame `call`, reads its arguments from `tf`; the `_if` of `CurrentTask` is `current`. -/
  | argsRead (call : FramePtr T) (tf current : Option (FramePtr T))
  /-- It stores its result in `tf`. -/
  | stored (call : FramePtr T) (tf current : Option (FramePtr T))
  /-- `load_icode`, called by `syscall` for the frame `call`, overwrites `tf`. -/
  | overwritten (call : FramePtr T) (tf : Option (FramePtr T))
  /-- The code below the frame `call` goes on with `eax`; `result` is what it should be: what the call has returned, or
  what was in `eax` before. -/
  | resumed (call : FramePtr T) (result eax : U32)

/-- A function of the kernel. -/
abbrev Code (T : Type) := Coroutine T (Cpu T) (TaskFrames T) (Event T)

/-- `FL_IF`. -/
def FL_IF : U32 := 0x200#32
/-- `USER_CS`. -/
def USER_CS : U32 := 0x1B#32
/-- `USER_DS`. -/
def USER_DS : U32 := 0x23#32

variable {T : Type} [DecidableEq T]

/-- The frame at an address. -/
def frameAt (s : Shared T (Cpu T) (TaskFrames T)) (tf : FramePtr T) : Option InterruptFrame :=
  (s.part tf.task).stack[tf.index]?

/-! ### The interrupt flag -/

/-- `read_eflags() & FL_IF`. -/
def readIntr : Code T Bool := lift fun _ s => (s.pub.intr, s)

/-- `cli()`. -/
def cli : Code T Unit := lift fun _ s => ((), { s with pub := { s.pub with intr := false } })

/-- `sti()`. -/
def sti : Code T Unit := lift fun _ s => ((), { s with pub := { s.pub with intr := true } })

/-- `intr_save(x)`. -/
def intrSave : Code T Bool := do
  if ← readIntr then
    cli
    return true
  else return false

/-- `intr_restore(x)`. -/
def intrRestore (flag : Bool) : Code T Unit := if flag then sti else pure ()

/-- `panic(msg)`; `haltSys()` does the same without a message. -/
def panic {α : Type} : Code T α := do
  cli
  halt

/-- Code that needs the interrupt flag off for a while: `sprintk`, and parts of `kmalloc`, `do_fork`, `do_wait`. -/
def exclusive : Code T Unit := do
  let flag ← intrSave
  intrRestore flag

/-- A call of a function, with a report of the interrupt flag. -/
def returning {α : Type} (fn : Fn) (body : Code T α) : Code T α := do
  let entry ← readIntr
  let a ← body
  let exit ← readIntr
  report (.returned fn entry exit)
  return a

/-! ### `sched.c` -/

/-- `CurrentTask`. -/
def getCurrent : Code T (Option T) := lift fun _ s => (s.pub.currentTask, s)

/-- `CurrentTask = task`. -/
def setCurrent (task : T) : Code T Unit :=
  lift fun _ s => ((), { s with pub := { s.pub with currentTask := some task } })

/-- `runTask(next_task)`. -/
def runTask (next : T) : Code T Unit := do
  let current ← getCurrent
  if some next ≠ current then
    let flag ← intrSave
    setCurrent next
    -- The task goes on here when another one has switched back to it.
    switchTo next
    intrRestore flag
  else return ()

/-- `schedule()`. -/
def schedule : Code T Unit := returning .schedule do
  let flag ← intrSave
  let next ← any T
  let current ← getCurrent
  if some next ≠ current then
    runTask next
    intrRestore flag
  else intrRestore flag

/-- `wakeupTask(task)`. -/
def wakeupTask : Code T Unit := returning .wakeupTask do
  if ← any Bool then panic
  else
    let flag ← intrSave
    intrRestore flag

/-! ### `sem.c` and `wait.c` -/

/-- `down(sem, wait_state)`. -/
def down : Code T U32 := do
  let flag ← intrSave
  if ← any Bool then
    intrRestore flag
    return 0
  else
    intrRestore flag
    schedule
    -- Awake again: the task takes itself out of the queue, unless `up` has done so.
    let flag ← intrSave
    intrRestore flag
    any U32

/-- `up(sem, wait_state)`. -/
def up : Code T Unit := do
  let flag ← intrSave
  if ← any Bool then intrRestore flag
  else
    wakeupTask
    intrRestore flag

/-- `acquireSem(sem)`. -/
def acquireSem : Code T Unit := returning .acquireSem do
  let flag ← down
  if flag ≠ 0 then panic else return ()

/-- `releaseSem(sem)`. -/
def releaseSem : Code T Unit := returning .releaseSem up

/-- `wakeupAll(head, wakeup_flags, del)`. -/
def wakeupAll : Code T Unit := loop wakeupTask

/-! ### `stdin_inode.c`, `kbd.c` and `timer.c` -/

/-- `_stdin_do_write(c)`. -/
def stdinDoWrite (c : BitVec 8) : Code T Unit := returning .stdinDoWrite do
  if c ≠ 0 then
    let flag ← intrSave
    if ← any Bool then
      wakeupAll
      intrRestore flag
    else intrRestore flag
  else return ()

/-- The loop of `_stdin_do_read` with `n` rounds to go, of which each takes a character or sleeps; its value is
`intr_flag`. -/
def stdinReadLoop : Nat → Bool → Code T Bool
  | 0, flag => return flag
  | n + 1, flag => do
      if ← any Bool then stdinReadLoop n flag
      else
        -- There is nothing to read.
        intrRestore flag
        schedule
        let flag ← intrSave
        if ← any Bool then stdinReadLoop n flag else return flag

/-- `_stdin_do_read(buf, len)`. -/
def stdinDoRead : Code T Unit := returning .stdinDoRead do
  let flag ← intrSave
  let n ← any Nat
  let flag ← stdinReadLoop n flag
  intrRestore flag

/-- `kbdIntrCallBack()`. -/
def kbdIntrCallBack : Code T Unit := do
  exclusive
  let c ← any (BitVec 8)
  stdinDoWrite c

/-- `timerCallBack()`. -/
def timerCallBack : Code T Unit := do
  if ← any Bool then schedule else return ()

/-! ### `task.c` -/

/-- What the other code of the kernel does on its way. -/
inductive Work where
  | exclusive
  | wakeupTask
  | acquireSem
  | releaseSem
  | stdinDoRead
  | panic

/-- Any number of calls of the functions above: what is between the steps of `task.c` that are modelled, and all that the
calls on files do. -/
def kernelWork : Code T Unit := loop do
  match ← any Work with
  | .exclusive => exclusive
  | .wakeupTask => wakeupTask
  | .acquireSem => acquireSem
  | .releaseSem => releaseSem
  | .stdinDoRead => stdinDoRead
  | .panic => panic

/-- `do_exit(err_code)`. -/
def doExit {α : Type} : Code T α := do
  if ← any Bool then panic
  else
    loop exclusive
    let flag ← intrSave
    loop wakeupTask
    intrRestore flag
    exclusive
    schedule
    panic

/-- `do_wait(pid, code_store)`. -/
def doWait : Code T Int := do
  if ← any Bool then return -E_INVAL
  else
    loop do
      schedule
      -- A task that has been killed meanwhile exits.
      if ← any Bool then doExit else return ()
    if ← any Bool then return -E_BAD_PROC
    else if ← any Bool then panic
    else
      exclusive
      return 0

/-- `*tf`. -/
def load (tf : Option (FramePtr T)) : Code T InterruptFrame := do
  match ← lift fun _ s => (tf.bind (frameAt s), s) with
  | some frame => return frame
  | none => any InterruptFrame

/-- `*tf` is changed. -/
def modify (tf : Option (FramePtr T)) (g : InterruptFrame → InterruptFrame) : Code T Unit :=
  lift fun _ s =>
    match tf with
    | none => ((), s)
    | some tf =>
        let o := s.part tf.task
        ((), { s with part := Function.update s.part tf.task { o with stack := o.stack.modify tf.index g } })

/-- `CurrentTask->_if`. -/
def getIf : Code T (Option (FramePtr T)) :=
  lift fun _ s => (s.pub.currentTask.bind fun task => (s.part task).trapFrame, s)

/-- `CurrentTask->_if = tf`. -/
def setIf (tf : Option (FramePtr T)) : Code T Unit :=
  lift fun _ s =>
    match s.pub.currentTask with
    | none => ((), s)
    | some task => ((), { s with part := Function.update s.part task { s.part task with trapFrame := tf } })

/-- The frame that `copy_task` makes for a child. -/
def childFrame (esp : U32) (frame : InterruptFrame) : InterruptFrame :=
  { frame with eax := 0, userEsp := esp, eflags := setBit frame.eflags 9 }

/-- `copy_task(task, esp, _if)`: from now on the child is there. -/
def copyTask (esp : U32) (frame : InterruptFrame) : Code T T :=
  .spawn (fun child => ⟨some ⟨child, 0⟩, [childFrame esp frame]⟩) .ret

/-- `do_fork(clone_flags, stack, _if)`, where `frame` reads `*_if`. -/
def doFork (stack : U32) (frame : Code T InterruptFrame) : Code T Int := do
  if ← any Bool then return -E_NO_FREE_TASK
  else
    kernelWork
    if ← any Bool then return -E_NOMEM
    else
      let parentFrame ← frame
      let _ ← copyTask stack parentFrame
      exclusive
      exclusive
      wakeupTask
      any Int

/-- `createKernelThread(func, arg, clone_flags)`. -/
def createKernelThread : Code T Int := do
  let func ← any U32
  let arg ← any U32
  let entry ← any U32
  doFork 0 (pure { noFrame with
    cs := KERNEL_CS
    ds := KERNEL_DS
    es := KERNEL_DS
    ss := KERNEL_DS
    ebx := func
    edx := arg
    eip := entry })

/-- The frame that `load_icode` makes. -/
def userFrame (stacktop entry : U32) : InterruptFrame :=
  { noFrame with
    cs := USER_CS
    ds := USER_DS
    es := USER_DS
    ss := USER_DS
    userEsp := stacktop
    eip := entry
    eflags := FL_IF }

/-- The end of `load_icode`, in the call of the frame `call`. -/
def loadIcodeEnd (call : FramePtr T) : Code T Unit := do
  let tf ← getIf
  let stacktop ← any U32
  let entry ← any U32
  modify tf fun _ => userFrame stacktop entry
  report (.overwritten call tf)
  exclusive

/-- `do_execve(name, argc, argv)`: it fails, it cannot go back, or the program is loaded. -/
def doExecve (call : FramePtr T) : Code T Int := do
  kernelWork
  if ← any Bool then any Int
  else
    -- The old memory map is given up here, so from now on a failure ends the task.
    kernelWork
    if ← any Bool then doExit
    else
      loadIcodeEnd call
      exclusive
      return 0

/-! ### `syscall.c` -/

/-- The entries of `syscalls`; all others do with the state that is kept here what `kernelWork` does. -/
inductive Syscall where
  | exit
  | fork
  | wait
  | exec
  | other
deriving DecidableEq, Repr

/-- `sys_fork(arg)`. -/
def sysFork : Code T Int := do
  let tf ← getIf
  let frame ← load tf
  doFork frame.userEsp (load tf)

/-- `syscalls[num](arg)`. -/
def syscalls (call : FramePtr T) : Syscall → Code T Int
  | .exit => doExit
  | .fork => sysFork
  | .wait => doWait
  | .exec => doExecve call
  | .other => do
      kernelWork
      any Int

/-- `syscalls[num]`, where there is one: the numbers are those of `syscall.h`. -/
def syscallOf (num : U32) : Option Syscall :=
  if num = 1 then some .exit
  else if num = 2 then some .fork
  else if num = 3 then some .wait
  else if num = 4 then some .exec
  else if [18, 30, 100, 101, 102, 103, 104, 110, 111, 255].contains num then some .other
  else none

/-- `syscall(_if)` for the frame `call`; its value is the result that it has stored. -/
def syscall (call : FramePtr T) : Code T (Option U32) := do
  let tf ← getIf
  let frame ← load tf
  match syscallOf frame.eax with
  | some number =>
      let current ← getIf
      report (.argsRead call tf current)
      let ret ← syscalls call number
      -- `tf` is that of before the call, which may have slept.
      let current ← getIf
      modify tf fun frame => { frame with eax := BitVec.ofInt 32 ret }
      report (.stored call tf current)
      return some (BitVec.ofInt 32 ret)
  | none =>
      exclusive
      exclusive
      return none

/-! ### `page_fault.c` and `idt.c` -/

/-- `isIntrInKernel(_if)` of `page_fault.c`, which looks at the error code and not at `cs`. -/
def isFaultInKernel (frame : InterruptFrame) : Bool := frame.errCode &&& 4 = 0

/-- `pageFaultCallback(_if)`. -/
def pageFaultCallback (call : FramePtr T) : Code T Unit := do
  loop exclusive
  if ← any Bool then return ()
  else
    match ← getCurrent with
    | none => panic
    | some _ =>
        let frame ← load (some call)
        if isFaultInKernel frame then panic else doExit

/-- `dispatchIntr(pr)`; its value is the result that a system call has stored. -/
def dispatchIntr (call : FramePtr T) : Code T (Option U32) := do
  let frame ← load (some call)
  match interruptHandlers frame.intNo with
  | none => return none
  | some .timerCallBack => do
      timerCallBack
      return none
  | some .kbdIntrCallBack => do
      kbdIntrCallBack
      return none
  | some .pageFaultCallback => do
      pageFaultCallback call
      return none
  | some .syscall => syscall call

/-- What `IntrHandlerCall` does at its end for an interrupt in user mode. -/
def backToUser : Code T Unit := do
  if ← any Bool then doExit
  else if ← any Bool then schedule
  else return ()

/-- The report of `IntrHandlerCall` at its end. -/
def reportCompleted (task : T) (oldIf : Option (FramePtr T)) : Code T Unit := do
  let (task', trapFrame') ← lift fun _ s => ((s.pub.currentTask, (s.part task).trapFrame), s)
  report (.completed task oldIf task' trapFrame')

/-- `IntrHandlerCall(_if)`. -/
def intrHandlerCall (call : FramePtr T) : Code T (Option U32) := do
  match ← getCurrent with
  | none => dispatchIntr call
  | some task =>
      let oldIf ← getIf
      setIf (some call)
      let frame ← load (some call)
      let inKernel := isIntrInKernel frame
      let result ← dispatchIntr call
      setIf oldIf
      if !inKernel then
        backToUser
        reportCompleted task oldIf
        return result
      else
        reportCompleted task oldIf
        return result

/-! ### The stubs -/

/-- The CPU and the stub build a frame with the registers `regs`.  From user mode the stack is that of `esp0`, the empty
one.  A trap gate leaves the interrupt flag as it is. -/
def enter (trapGate : Bool) (regs : InterruptFrame) : Code T (FramePtr T) :=
  lift fun t s =>
    let o := s.part t
    let stack := if s.pub.cs = KERNEL_CS then o.stack else []
    let eflags := (regs.eflags &&& ~~~FL_IF) ||| (if s.pub.intr then FL_IF else 0)
    (⟨t, stack.length⟩,
      { pub := { s.pub with intr := trapGate && s.pub.intr, cs := KERNEL_CS }
        part := Function.update s.part t
          { o with stack := stack ++ [{ regs with cs := s.pub.cs, eflags := eflags }] } })

/-- `_interrupt_ret` with the stack pointer at `tf`: the registers are those of the frame, and its place is free.  In user
mode nothing is on the kernel stack. -/
def interruptRet (tf : Option (FramePtr T)) : Code T InterruptFrame := do
  let frame ← load tf
  lift fun t s =>
    let o := s.part t
    let stack := if frame.cs = KERNEL_CS then o.stack.take (tf.elim 0 FramePtr.index) else []
    (frame,
      { pub := { s.pub with intr := frame.eflags &&& FL_IF ≠ 0, cs := frame.cs }
        part := Function.update s.part t { o with stack := stack } })

/-- `ISR_CommonStub` and `IRQ_CommonStub`, with all that comes before them. -/
def isrStub (trapGate : Bool) (regs : InterruptFrame) : Code T Unit := do
  let call ← enter trapGate regs
  cli
  let result ← intrHandlerCall call
  let frame ← interruptRet (some call)
  report (.resumed call (result.getD regs.eax) frame.eax)

/-- `int T_SYSCALL` with any registers. -/
def intSyscall : Code T Unit := do
  let regs ← any InterruptFrame
  isrStub true { regs with intNo := T_SYSCALL }

/-! ### Where tasks run -/

/-- A program in user mode. -/
def userProgram : Code T Unit := do
  loop intSyscall
  halt

/-- What the function of a kernel thread does. -/
inductive ThreadWork where
  | kernelWork
  | schedule
  | createKernelThread
  | doWait
  /-- `exec_user` and `test_call_syscall`. -/
  | intSyscall

/-- A kernel thread in its function; when a program has been loaded in its place, it goes on with that. -/
def kernelThread : Code T Unit := do
  loop do
    match ← any ThreadWork with
    | .kernelWork => kernelWork
    | .schedule => schedule
    | .createKernelThread => do
        let _ ← createKernelThread
        return ()
    | .doWait => do
        let _ ← doWait
        return ()
    | .intSyscall => do
        intSyscall
        let cs ← lift fun _ s => (s.pub.cs, s)
        if cs = KERNEL_CS then return () else userProgram
  doExit

/-- `forkret()`, where each task begins, and where it goes from there. -/
def forkret : Code T Unit := do
  let tf ← getIf
  let frame ← interruptRet tf
  if frame.cs = KERNEL_CS then kernelThread else userProgram

/-- `initTask()`. -/
def initTask : Code T Unit := do
  loop exclusive
  lift fun t s => ((), { s with part := Function.update s.part t { s.part t with trapFrame := none } })
  loop exclusive
  lift fun t s => ((), { s with pub := { s.pub with currentTask := some t } })
  let tid ← createKernelThread
  if tid < 0 then panic else return ()

/-- `cpu_idle()`. -/
def cpuIdle : Code T Unit := do
  loop do
    if ← any Bool then schedule else return ()
  halt

/-- `main()`. -/
def main : Code T Unit := do
  loop exclusive
  initTask
  loop exclusive
  sti
  cpuIdle

/-- An interrupt of a device, or an exception of the CPU. -/
inductive Interrupt where
  | irq (n : Fin 16)
  | exception (n : Fin 32)
deriving DecidableEq, Repr

/-- The number of an interrupt. -/
def Interrupt.intNo : Interrupt → U32
  | .irq n => BitVec.ofNat 32 (32 + n.val)
  | .exception n => BitVec.ofNat 32 n.val

/-- Devices interrupt when the interrupt flag is set.  Exceptions may come at any time, but not in `runTask` between
`CurrentTask = next_task` and `switch_to_s`. -/
def Interrupt.Allowed (t : T) (cpu : Cpu T) : Interrupt → Prop
  | .irq _ => cpu.intr = true
  | .exception _ => cpu.currentTask = none ∨ cpu.currentTask = some t

/-- The rules of the machine. -/
def rules (T : Type) [DecidableEq T] : Rules T (Cpu T) (TaskFrames T) (Event T) Interrupt where
  start := forkret
  handler i := do
    let regs ← any InterruptFrame
    isrStub false { regs with intNo := i.intNo }
  allowed i t cpu := i.Allowed t cpu

/-- The machine when the loader calls `main`, on the stack that is going to be the one of the idle task. -/
structure Boot (m : Processor T (Cpu T) (TaskFrames T) (Event T)) : Prop where
  intr : m.shared.pub.intr = false
  cs : m.shared.pub.cs = KERNEL_CS
  currentTask : m.shared.pub.currentTask = none
  stack : (m.shared.part m.running).stack = []
  main : m.code m.running = some main
  others : ∀ t, t ≠ m.running → m.code t = none
  log : m.log = []

end Interrupts
end Krnl
end FreakOS
