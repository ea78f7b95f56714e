import FreakOS.Krnl.Process

/-!
# Tasks that run under preemption

The kernel with the place at which each task goes on when it gets the CPU, so that the timer can come between
two statements of a call.  The pieces are cut at the places where interrupts are on: `down` of `sem.c` before
and after `schedule`, `do_exit` before its section without interrupts, `do_wait` in its search and before it
sleeps.  `do_fork` is one piece, and so is the end of `do_wait` from the zombie it has found on.

* `Pc` — the place of a task.
* `Semaphore`, `waitAddCurrent`, `wakeupWait`, `down…`, `up` — `wait.c` and `sem.c`.
* `System.step` — one step: the timer, the keyboard, a call, or the next piece of a call.

A `Wait_t` lives on the stack of the task that waits, and a task waits once at a time, so a node of a wait queue
is named by its task.  What `stdin` reads is left out: a task may find its buffer empty at any time.
-/

namespace FreakOS
namespace Krnl

open Memory

/-- `WT_INTERRUPTED`. -/
def WT_INTERRUPTED : U32 := 0x80000000#32
/-- `WT_KSEM`. -/
def WT_KSEM : U32 := 0x100#32
/-- `WT_KBD`. -/
def WT_KBD : U32 := 0x80000004#32

/-- Where a task goes on. -/
inductive Pc where
  /-- Outside of the calls below. -/
  | run
  /-- In `down`, before `schedule()`. -/
  | downSched (sem : Nat)
  /-- In `down`, after `schedule()`. -/
  | downWoken (sem : Nat)
  /-- In `_stdin_do_read`, before `schedule()`. -/
  | stdinSched
  /-- In `_stdin_do_read`, after `schedule()`. -/
  | stdinWoken
  /-- In `do_exit`, before `state = TASK_ZOMBIE`. -/
  | exitMark (errCode : Int)
  /-- In `do_exit`, after `state = TASK_ZOMBIE`. -/
  | exitCode (errCode : Int)
  /-- In `do_exit`, before `intr_save`. -/
  | exitSection
  /-- In `do_exit`, before `schedule()`. -/
  | exitSched
  /-- In `do_exit`, after `schedule()`. -/
  | exited
  /-- In `do_wait`, at the label `repeat`. -/
  | waitScan (pid codeStore : U32)
  /-- In the loop over the children, at `task`. -/
  | waitLoop (codeStore task : U32) (haskid : Bool)
  /-- In `do_wait`, before `state = TASK_SLEEPING`. -/
  | waitMark (pid codeStore : U32)
  /-- In `do_wait`, before `wait_state = WT_CHILD`. -/
  | waitReason (pid codeStore : U32)
  /-- In `do_wait`, before `schedule()`. -/
  | waitSched (pid codeStore : U32)
  /-- In `do_wait`, after `schedule()`. -/
  | waitWoken (pid codeStore : U32)
deriving DecidableEq, Repr

/-- The greatest `int32_t`. -/
def INT_MAX : Int := 0x7FFFFFFF

/-- `Semaphore_t`; the queue has the tasks of its nodes. -/
structure Semaphore where
  value : Int
  waitQueue : List U32

/-- The kernel and its tasks.  The last three fields are not in the source, they record what has happened. -/
structure System where
  kernel : Kernel
  pc : U32 → Pc
  sems : Nat → Semaphore
  /-- `wait_queue` of `stdin_inode.c`. -/
  stdinQueue : List U32
  /-- `flags` of the `Wait_t` of a task. -/
  waitFlags : U32 → U32
  /-- The number of times that `acquireSem` has got a semaphore. -/
  granted : Nat → Nat
  /-- The number of calls of `releaseSem`. -/
  released : Nat → Nat
  /-- Who has got a semaphore and has not released it. -/
  holders : Nat → List U32

namespace System

def current (s : System) : U32 := s.kernel.currentTask

def setKernel (s : System) (k : Kernel) : System := { s with kernel := k }

/-- The task at `a` goes on at `pc`. -/
def goto (s : System) (a : U32) (pc : Pc) : System := { s with pc := Function.update s.pc a pc }

def setSem (s : System) (sem : Nat) (x : Semaphore) : System :=
  { s with sems := Function.update s.sems sem x }

/-- `sem` has been given to the task at `a`. -/
def grant (s : System) (sem : Nat) (a : U32) : System :=
  { s with
    granted := Function.update s.granted sem (s.granted sem + 1)
    holders := Function.update s.holders sem (a :: s.holders sem) }

/-- Run a function of the kernel. -/
def lift (s : System) (f : Kernel → Res Kernel) : Res System := do
  let k ← f s.kernel
  return s.setKernel k

/-- `schedule()`, after which the running task goes on at `pc`. -/
def scheduleTo (s : System) (pc : Pc) (saved : Context) : Res System :=
  (s.goto s.current pc).lift fun k => schedule k saved

/-- The timer interrupt. -/
def tick (s : System) (saved : Context) : Res System := s.lift fun k => timerCallBack k saved

/-! ### `wait.c` -/

/-- `waitAddCurrent(head, wait, wait_state)`, apart from the queue: the new node comes last. -/
def waitAddCurrent (s : System) (waitState : U32) : Res System := do
  let s ← s.lift fun k =>
    k.modifyTask k.currentTask fun t => { t with state := .sleeping, waitState := waitState }
  return { s with waitFlags := Function.update s.waitFlags s.current WT_INTERRUPTED }

/-- `wakeupWait(head, wait, wakeup_flags, del)`, apart from the queue. -/
def wakeupWait (s : System) (a wakeupFlags : U32) : Res System :=
  { s with waitFlags := Function.update s.waitFlags a wakeupFlags }.lift fun k => wakeupTask k a

/-- The loop of `wakeupAll` with `del` set. -/
def wakeupLoop (wakeupFlags : U32) : List U32 → System → Res System
  | [], s => .ok s
  | a :: rest, s => do
      let s ← s.wakeupWait a wakeupFlags
      wakeupLoop wakeupFlags rest s

/-! ### `sem.c` -/

/-- The first section of `down(sem, WT_KSEM)`. -/
def down (s : System) (sem : Nat) : Res System :=
  let x := s.sems sem
  if x.value > 0 then .ok ((s.setSem sem { x with value := x.value - 1 }).grant sem s.current)
  else do
    let s ← s.waitAddCurrent WT_KSEM
    let s := s.setSem sem { x with waitQueue := listAddTail s.current x.waitQueue }
    return s.goto s.current (.downSched sem)

/-- The rest of `down` after `schedule()`, and of `acquireSem`. -/
def downWoken (s : System) (sem : Nat) : Res System := do
  let x := s.sems sem
  let s := s.setSem sem { x with waitQueue := listDel s.current x.waitQueue }
  panicIf (s.waitFlags s.current ≠ WT_KSEM) "Sem flag is not 0!"
  return s.goto s.current .run

/-- `up(sem, WT_KSEM)`. -/
def up (s : System) (sem : Nat) : Res System :=
  let x := s.sems sem
  let s := { s with
    released := Function.update s.released sem (s.released sem + 1)
    holders := Function.update s.holders sem ((s.holders sem).erase s.current) }
  match x.waitQueue with
  | [] =>
      if x.value = INT_MAX then .error .overflow
      else .ok (s.setSem sem { x with value := x.value + 1 })
  | a :: rest =>
      let s := s.setSem sem { x with waitQueue := rest }
      (s.grant sem a).wakeupWait a WT_KSEM

/-! ### `stdin_inode.c` -/

/-- `_stdin_do_read` on an empty buffer. -/
def stdinSleep (s : System) : Res System := do
  let s ← s.waitAddCurrent WT_KBD
  let s := { s with stdinQueue := listAddTail s.current s.stdinQueue }
  return s.goto s.current .stdinSched

/-- `_stdin_do_read` after `schedule()`. -/
def stdinWoken (s : System) : System :=
  let s := { s with stdinQueue := listDel s.current s.stdinQueue }
  s.goto s.current .run

/-- `_stdin_do_write(c)`, from the keyboard interrupt: it wakes up all that wait. -/
def keyboard (s : System) : Res System :=
  wakeupLoop WT_KBD s.stdinQueue { s with stdinQueue := [] }

/-! ### `do_exit` -/

/-- The start of `do_exit(err_code)`. -/
def exitStart (s : System) (errCode : Int) : Res System := do
  panicIf (s.current = s.kernel.idleTask) "Trying to exit idle!"
  let s ← s.lift exitMm
  return s.goto s.current (.exitMark errCode)

/-- `state = TASK_ZOMBIE`. -/
def markZombie (s : System) : Res System :=
  s.lift fun k => k.modifyTask k.currentTask fun t => { t with state := .zombie }

/-- `exit_code = err_code`. -/
def storeExitCode (s : System) (errCode : Int) : Res System :=
  s.lift fun k => k.modifyTask k.currentTask fun t => { t with exitCode := errCode }

/-- The section of `do_exit` without interrupts. -/
def exitSection (s : System) : Res System := do
  let s ← s.lift handOver
  return s.goto s.current .exitSched

/-- The last call of `do_exit`. -/
def exitSched (s : System) (saved : Context) : Res System := do
  let s' ← s.scheduleTo .exited saved
  panicIf (s'.current = s.current) "do_exit will not return!"
  return s'

/-! ### `do_wait` -/

/-- The start of `do_wait(pid, code_store)`; no task here has a memory map. -/
def waitStart (s : System) (pid codeStore : U32) : System :=
  if codeStore ≠ NULL ∧ !(checkUserMem none codeStore 4 true).1 then s
  else s.goto s.current (.waitScan pid codeStore)

/-- The label `found` of `do_wait`.  Nothing goes on at the address of the task that is freed. -/
def waitFound (s : System) (codeStore task : U32) : Res System := do
  let (_, k) ← reap s.kernel task codeStore
  return ((s.setKernel k).goto task .run).goto s.current .run

/-- What follows the search: sleep, or return `-E_BAD_PROC`. -/
def waitNone (s : System) (pid codeStore : U32) (haskid : Bool) : System :=
  s.goto s.current (if haskid then .waitMark pid codeStore else .run)

/-- The search of `do_wait`: for `waitpid` as a whole, for `wait` up to the loop. -/
def waitScan (s : System) (pid codeStore : U32) : Res System :=
  if pid ≠ 0 then do
    let (task, haskid) ← findChild s.kernel pid
    if task ≠ NULL then s.waitFound codeStore task
    else return s.waitNone pid codeStore haskid
  else do
    let t ← s.kernel.task s.current
    return s.goto s.current (.waitLoop codeStore t.cptr false)

/-- One round of the loop over the children. -/
def waitLoop (s : System) (codeStore task : U32) (haskid : Bool) : Res System :=
  if task = NULL then .ok (s.waitNone 0 codeStore haskid)
  else do
    let t ← s.kernel.task task
    if t.state = .zombie then s.waitFound codeStore task
    else return s.goto s.current (.waitLoop codeStore t.optr true)

/-- `state = TASK_SLEEPING`. -/
def markSleeping (s : System) : Res System :=
  s.lift fun k => k.modifyTask k.currentTask fun t => { t with state := .sleeping }

/-- `wait_state = WT_CHILD`. -/
def waitReason (s : System) (pid codeStore : U32) : Res System := do
  let s ← s.lift fun k => k.modifyTask k.currentTask fun t => { t with waitState := WT_CHILD }
  return s.goto s.current (.waitSched pid codeStore)

/-- `do_wait` after `schedule()`. -/
def waitWoken (s : System) (pid codeStore : U32) : Res System := do
  let t ← s.kernel.task s.current
  if t.flags &&& PF_EXITING ≠ 0 then s.exitStart (-E_KILLED)
  else return s.goto s.current (.waitScan pid codeStore)

/-! ### Steps -/

/-- What a task may call. -/
inductive Call where
  | yield
  | fork (cloneFlags stack : U32) (frame : InterruptFrame)
  | exit (errCode : Int)
  | wait (pid codeStore : U32)
  | acquireSem (sem : Nat)
  | releaseSem (sem : Nat)
  | readStdin

/-- The start of a call. -/
def call (s : System) (saved : Context) : Call → Res System
  | .yield => s.lift fun k => schedule k saved
  | .fork cloneFlags stack frame => do
      let (_, k) ← doFork s.kernel cloneFlags stack frame
      return s.setKernel k
  | .exit errCode => s.exitStart errCode
  | .wait pid codeStore => .ok (s.waitStart pid codeStore)
  | .acquireSem sem => s.down sem
  | .releaseSem sem => s.up sem
  | .readStdin => s.stdinSleep

/-- The next piece of the call in which the running task is. -/
def next (s : System) (saved : Context) : Pc → Option (Res System)
  | .run => none
  | .downSched sem => some (s.scheduleTo (.downWoken sem) saved)
  | .downWoken sem => some (s.downWoken sem)
  | .stdinSched => some (s.scheduleTo .stdinWoken saved)
  | .stdinWoken => some (.ok s.stdinWoken)
  | .exitMark errCode => some (do
      let s ← s.markZombie
      let s ← s.storeExitCode errCode
      s.exitSection)
  | .exitCode errCode => some (do
      let s ← s.storeExitCode errCode
      s.exitSection)
  | .exitSection => some s.exitSection
  | .exitSched => some (s.exitSched saved)
  | .exited => none
  | .waitScan pid codeStore => some (s.waitScan pid codeStore)
  | .waitLoop codeStore task haskid => some (s.waitLoop codeStore task haskid)
  | .waitMark pid codeStore => some (do
      let s ← s.markSleeping
      s.waitReason pid codeStore)
  | .waitReason pid codeStore => some (s.waitReason pid codeStore)
  | .waitSched pid codeStore => some (s.scheduleTo (.waitWoken pid codeStore) saved)
  | .waitWoken pid codeStore => some (s.waitWoken pid codeStore)

/-- What happens next. -/
inductive Act where
  /-- The timer interrupt. -/
  | tick
  /-- The keyboard interrupt. -/
  | keyboard
  /-- The running task makes a call; `idle_task` calls nothing but `schedule`. -/
  | call (c : Call)
  /-- The running task goes on with its call. -/
  | next
  /-- The timer interrupt right after `state = TASK_ZOMBIE` in `do_exit`. -/
  | tickInExit
  /-- The timer interrupt right after `exit_code = err_code` in `do_exit`. -/
  | tickBeforeSection
  /-- The timer interrupt right after `state = TASK_SLEEPING` in `do_wait`. -/
  | tickInWait

/-- One step; `none` where the running task is somewhere else. -/
def step (s : System) (saved : Context) : Act → Option (Res System)
  | .tick => some (s.tick saved)
  | .keyboard => some s.keyboard
  | .call c =>
      match s.pc s.current, c with
      | .run, .yield => some (s.call saved .yield)
      | .run, c => if s.current = s.kernel.idleTask then none else some (s.call saved c)
      | _, _ => none
  | .next => s.next saved (s.pc s.current)
  | .tickInExit =>
      match s.pc s.current with
      | .exitMark errCode => some (do
          let s ← s.markZombie
          (s.goto s.current (.exitCode errCode)).tick saved)
      | _ => none
  | .tickBeforeSection =>
      match s.pc s.current with
      | .exitMark errCode => some (do
          let s ← s.markZombie
          let s ← s.storeExitCode errCode
          (s.goto s.current .exitSection).tick saved)
      | _ => none
  | .tickInWait =>
      match s.pc s.current with
      | .waitMark pid codeStore => some (do
          let s ← s.markSleeping
          (s.goto s.current (.waitReason pid codeStore)).tick saved)
      | _ => none

end System

/-- The system when `initTask` is done, with semaphores that `initSem` has set to `v`. -/
def bootSystem (k : Kernel) (v : Nat → Int) : System where
  kernel := k
  pc := fun _ => .run
  sems := fun sem => ⟨v sem, []⟩
  stdinQueue := []
  waitFlags := fun _ => 0
  granted := fun _ => 0
  released := fun _ => 0
  holders := fun _ => []

/-- One step of a run. -/
def SysStep (s s' : System) : Prop := ∃ saved act, s.step saved act = some (.ok s')

end Krnl
end FreakOS
