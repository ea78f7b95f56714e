import FreakOS.Krnl.State

/-!
# The scheduler

`sched.c`: the run queue, `wakeupTask`, `schedule` and `runTask`, and the timer interrupt of `timer.c`.
Interrupts are off in all of them, so each is one step.
-/

namespace FreakOS
namespace Krnl

open Memory

/-- `enqueueRunQueue(&RunQueue, task)`. -/
def enqueueRunQueue (k : Kernel) (task : U32) : Res Kernel := do
  panicIf (task = NULL) "enqueueRunQueue error!"
  let k := { k with runList := listAddTail task k.runList }
  let k ← k.modifyTask task fun t =>
    if t.timeSlice = 0 ∨ t.timeSlice > MAX_TIME_SLICES then { t with timeSlice := MAX_TIME_SLICES } else t
  return { k with taskNum := k.taskNum + 1 }

/-- `dequeueRunQueue(&RunQueue, task)`. -/
def dequeueRunQueue (k : Kernel) (task : U32) : Res Kernel := do
  panicIf (task = NULL) "dequeueRunQueue error!"
  return { k with runList := listDel task k.runList, taskNum := k.taskNum - 1 }

/-- `getHeadRunQueue(&RunQueue)`. -/
def getHeadRunQueue (k : Kernel) : U32 := k.runList.head?.getD NULL

/-- `wakeupTask(task)`. -/
def wakeupTask (k : Kernel) (task : U32) : Res Kernel := do
  let t ← k.task task
  panicIf (t.state = .zombie) "try to wake up zombie task!"
  k.doIf (t.state ≠ .runnable) fun k =>
    let k := k.setTask task { t with state := .runnable, waitState := WT_NOTWAIT }
    k.doIf (task ≠ k.currentTask ∧ task ≠ k.idleTask) fun k => enqueueRunQueue k task

/-- The address `kstack + KSTACKSIZE`: `kstack` is an `uint32_t *`, so the sum is in words. -/
def Task.kstackTop (t : Task) : U32 := t.kstack + KSTACKSIZE * 4

/-- `runTask(next_task)`; `saved` is what `switch_to_s` stores for the task that stops running. -/
def runTask (k : Kernel) (nextTask : U32) (saved : Context) : Res Kernel :=
  k.doIf (nextTask ≠ k.currentTask) fun k => do
    let prev := k.currentTask
    let next ← k.task nextTask
    let k := { k with currentTask := nextTask, esp0 := next.kstackTop, cr3 := next.cr3 }
    k.modifyTask prev fun t => { t with context := saved }

/-- `schedule()`. -/
def schedule (k : Kernel) (saved : Context) : Res Kernel := do
  let k ← k.modifyTask k.currentTask fun t => { t with needResched := false }
  let current ← k.task k.currentTask
  let k ← k.doIf (current.state = .runnable ∧ k.currentTask ≠ k.idleTask) fun k =>
    enqueueRunQueue k k.currentTask
  let head := getHeadRunQueue k
  let k ← k.doIf (head ≠ NULL) fun k => dequeueRunQueue k head
  let next := if head = NULL then k.idleTask else head
  k.doIf (next ≠ k.currentTask) fun k => runTask k next saved

/-- `tickTask(&RunQueue, task)`. -/
def tickTask (k : Kernel) (task : U32) : Res Kernel :=
  k.modifyTask task fun t =>
    let t := if t.timeSlice > 0 then { t with timeSlice := t.timeSlice - 1 } else t
    if t.timeSlice = 0 then { t with needResched := true } else t

/-- `timerCallBack()`, without the clock. -/
def timerCallBack (k : Kernel) (saved : Context) : Res Kernel := do
  let k ← tickTask k k.currentTask
  let current ← k.task k.currentTask
  k.doIf (current.needResched = true) fun k => schedule k saved

end Krnl
end FreakOS
