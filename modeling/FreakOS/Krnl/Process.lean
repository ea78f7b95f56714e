import FreakOS.Krnl.Sched

/-!
# Processes

`task.c` without `exec`, and the file-table functions of `file.c` that `do_fork` uses.

* `initTask` — the state in which the scheduler takes over.
* `doFork`, `doExit`, `doWait` — the life of a process.  `do_exit` and a `do_wait` that sleeps end in
  `schedule`, with another task running; a task that was woken in `do_wait` goes on with `resumeWait`.
* `Op`, `Kernel.exec` — these calls as the steps of a run.
-/

namespace FreakOS
namespace Krnl

open Memory

/-! ### File tables -/

/-- `files_create()`. -/
def filesCreate (k : Kernel) : Res (U32 × Kernel) := do
  let (files, k) ← k.alloc sizeofFileStruct
  if files = NULL then return (NULL, k)
  else return (files, k.setFileStruct files ⟨NULL, [], 0, 0⟩)

/-- `file_alloc_init()`. -/
def fileAllocInit (k : Kernel) : Res (Option File × Kernel) := do
  let (file, k) ← k.alloc sizeofFile
  if file = NULL then return (none, k)
  else return (some ⟨file, .init, false, false, 0, 0, NULL, 0⟩, k)

/-- `file_dup(to, from)`. -/
def fileDup (k : Kernel) (toFile : Option File) (fromFile : File) : Res (File × Kernel) :=
  match toFile with
  | none => .error (.panic "file dup error")
  | some toFile =>
      let copy := { toFile with
        fd := fromFile.fd
        pos := fromFile.pos
        readable := fromFile.readable
        writable := fromFile.writable
        inode := fromFile.inode
        status := .opened
        openCount := toFile.openCount + 1 }
      let count := k.inodes fromFile.inode
      let count := { count with ref := count.ref + 1, opened := count.opened + 1 }
      .ok (copy, { k with inodes := Function.update k.inodes fromFile.inode count })

/-- The loop of `files_dup`: each copy is added at the front of the new table. -/
def filesDupLoop : List File → Kernel → List File → Res (List File × Kernel)
  | [], k, copies => .ok (copies, k)
  | fromFile :: rest, k, copies => do
      let (toFile, k) ← fileAllocInit k
      let (copy, k) ← fileDup k toFile fromFile
      filesDupLoop rest k (listAdd copy copies)

/-- `files_dup(to, from)`. -/
def filesDup (k : Kernel) (toFiles fromFiles : U32) : Res (Int × Kernel) := do
  panicIf (toFiles = NULL ∨ fromFiles = NULL) "files dup error"
  let tf ← k.fileStruct toFiles
  let ff ← k.fileStruct fromFiles
  panicIf (tf.ref ≠ 0) "files.ref is not 0!"
  let tf := { tf with pwd := ff.pwd, fileNextId := ff.fileNextId }
  let count := k.inodes ff.pwd
  let k := if ff.pwd ≠ NULL then
      { k with inodes := Function.update k.inodes ff.pwd { count with ref := count.ref + 1 } }
    else k
  let (list, k) ← filesDupLoop ff.fileList k tf.fileList
  return (0, k.setFileStruct toFiles { tf with fileList := list })

/-- `files_ref_inc(files)`. -/
def filesRefInc (k : Kernel) (files : U32) : Res Kernel := do
  let f ← k.fileStruct files
  return k.setFileStruct files { f with ref := f.ref + 1 }

/-- `put_files(task)`; `files_destroy` does nothing. -/
def putFiles (k : Kernel) (task : U32) : Res Kernel := do
  let t ← k.task task
  if t.files ≠ NULL then
    let f ← k.fileStruct t.files
    return k.setFileStruct t.files { f with ref := f.ref - 1 }
  else return k

/-! ### Task structures -/

/-- The fields that `allocTask` sets.  `exit_code` is not initialised; it is read once `do_exit` has set
it. -/
def newTask (cr3 : U32) : Task where
  tid := -1#32
  state := .uninit
  waitState := WT_NOTWAIT
  exitCode := 0
  kstack := 0
  flags := 0
  parent := NULL
  cptr := NULL
  yptr := NULL
  optr := NULL
  mm := NULL
  context := ⟨0, 0, 0, 0, 0, 0, 0, 0⟩
  trapFrame := NULL
  cr3 := cr3
  timeSlice := 0
  needResched := false
  files := NULL

/-- `allocTask()`. -/
def allocTask (k : Kernel) : Res (U32 × Kernel) := do
  let (task, k) ← k.alloc sizeofTask
  if task = NULL then return (NULL, k) else return (task, k.setTask task (newTask k.image.kernelCr3))

/-- `setupNewKstack(task)`. -/
def setupNewKstack (k : Kernel) (task : U32) : Res (Int × Kernel) := do
  let (stack, k) ← k.alloc KSTACKSIZE
  if stack ≠ NULL then
    let k ← k.modifyTask task fun t => { t with kstack := stack }
    return (0, k)
  else return (E_NOMEM, k)

/-- `kfree(task, sizeof(Task_t))`: no structure lives there any more. -/
def freeTask (k : Kernel) (task : U32) : Res Kernel := do
  let k ← k.release task sizeofTask
  return { k with tasks := Function.update k.tasks task none }

/-- `add_task(task)`. -/
def addTask (k : Kernel) (task : U32) : Res Kernel := do
  let k := { k with taskList := listAdd task k.taskList }
  let t ← k.task task
  let p ← k.task t.parent
  let k := k.setTask task { t with yptr := NULL, optr := p.cptr }
  let k ← k.doIf (p.cptr ≠ NULL) fun k => k.modifyTask p.cptr fun o => { o with yptr := task }
  let k ← k.modifyTask t.parent fun p => { p with cptr := task }
  return { k with taskCount := k.taskCount + 1 }

/-- `del_task(task)`. -/
def delTask (k : Kernel) (task : U32) : Res Kernel := do
  let k := { k with taskList := listDel task k.taskList }
  let t ← k.task task
  let k ← k.doIf (t.optr ≠ NULL) fun k => k.modifyTask t.optr fun o => { o with yptr := t.yptr }
  let t ← k.task task
  let k ← k.doIf (t.yptr ≠ NULL) fun k => k.modifyTask t.yptr fun y => { y with optr := t.optr }
  let k ← k.doIf (t.yptr = NULL) fun k => k.modifyTask t.parent fun p => { p with cptr := t.optr }
  return { k with taskCount := k.taskCount - 1 }

/-- The loop of `find_task`. -/
def findTaskIn (k : Kernel) (tid : U32) : List U32 → Res U32
  | [] => .ok NULL
  | task :: rest => do
      let t ← k.task task
      if tid = t.tid then return task else findTaskIn k tid rest

/-- `find_task(tid)`. -/
def findTask (k : Kernel) (tid : U32) : Res U32 := findTaskIn k tid k.taskList

/-- `get_new_tid()`. -/
def getNewTid (k : Kernel) : U32 := k.taskCount - 1 + 1

/-! ### `do_fork` -/

/-- The label `ok_files` of `copy_files`. -/
def installFiles (k : Kernel) (task files : U32) : Res (Int × Kernel) := do
  let k ← filesRefInc k files
  let k ← k.modifyTask task fun t => { t with files := files }
  return (0, k)

/-- `copy_files(clone_flags, task)`. -/
def copyFiles (k : Kernel) (cloneFlags task : U32) : Res (Int × Kernel) := do
  let current ← k.task k.currentTask
  let oldFiles := current.files
  if oldFiles = NULL then return (0, k)
  else if cloneFlags &&& CLONE_FILES ≠ 0 then installFiles k task oldFiles
  else
    let (files, k) ← filesCreate k
    if files = NULL then return (-1, k)
    else
      let (ret, k) ← filesDup k files oldFiles
      if ret ≠ 0 then return (ret, k) else installFiles k task files

/-- The label `out` of `copy_mm`. -/
def installMm (k : Kernel) (task mm : U32) : Res (Int × Kernel) := do
  let m ← k.mm mm
  let k := { k with mms := Function.update k.mms mm (some { m with ref := m.ref + 1 }) }
  let k ← k.modifyTask task fun t => { t with mm := mm, cr3 := m.pgdir - KERNEL_BASE }
  return (0, k)

/-- `mm_destroy(mm)` on the kernel. -/
def destroyMm (k : Kernel) (mm : U32) (m : MemMap) : Res Kernel := do
  let (rest, machine) ← mmDestroy k.machine mm m
  return { k with machine := machine, mms := Function.update k.mms mm rest }

/-- `copy_mm(clone_flags, task)`. -/
def copyMm (k : Kernel) (cloneFlags task : U32) : Res (Int × Kernel) := do
  let current ← k.task k.currentTask
  let oldMm := current.mm
  if oldMm = NULL then return (0, k)
  else if cloneFlags &&& CLONE_VM ≠ 0 then installMm k task oldMm
  else
    let (mm, k) ← k.alloc sizeofMemMap
    if mm = NULL then return (-E_NOMEM, k)
    else
      let (pgdir, machine) ← setupPgdir k.machine
      match pgdir with
      | none =>
          let k ← destroyMm { k with machine := machine } mm mmCreate
          return (-E_NOMEM, k)
      | some pgdir =>
          let old ← k.mm oldMm
          let (ret, machine, m) ← dupMm machine (some { mmCreate with pgdir := page2kva pgdir }) (some old)
          let m := m.getD mmCreate
          if ret ≠ 0 then
            let machine ← exitMmap machine (some m)
            let machine ← putPgdir machine m
            let k ← destroyMm { k with machine := machine } mm m
            return (ret, k)
          else installMm { k with machine := machine, mms := Function.update k.mms mm (some m) } task mm

/-- `copy_task(task, esp, _if)`.  The frame is put below `kstack + KSTACKSIZE`. -/
def copyTask (k : Kernel) (task esp : U32) (frame : InterruptFrame) : Res Kernel := do
  let t ← k.task task
  let addr := t.kstackTop - sizeofInterruptFrame
  let frame := { frame with eax := 0, userEsp := esp, eflags := setBit frame.eflags 9 }
  let k := { k with trapFrames := Function.update k.trapFrames addr (some frame) }
  let context := { t.context with eip := k.image.forkret, esp := addr }
  return k.setTask task { t with trapFrame := addr, context := context }

/-- The part of `do_fork` in which the child becomes visible. -/
def publish (k : Kernel) (task : U32) : Res (Int × Kernel) := do
  let tid := getNewTid k
  let k ← k.modifyTask task fun t => { t with tid := tid }
  let k ← addTask k task
  let k ← wakeupTask k task
  let t ← k.task task
  return (t.tid.toInt, k)

/-- The label `failed_and_clean_kstack` of `do_fork`. -/
def failedAndCleanKstack (k : Kernel) (task : U32) : Res (Int × Kernel) := do
  let t ← k.task task
  let k ← k.release t.kstack KSTACKSIZE
  let k ← freeTask k task
  return (-E_NOMEM, k)

/-- `do_fork(clone_flags, stack, _if)`. -/
def doFork (k : Kernel) (cloneFlags stack : U32) (frame : InterruptFrame) : Res (Int × Kernel) := do
  if k.taskCount ≥ MAX_TASKS then return (-E_NO_FREE_TASK, k)
  else
    let (task, k) ← allocTask k
    if task = NULL then return (-E_NOMEM, k)
    else
      let k ← k.modifyTask task fun t => { t with parent := k.currentTask }
      let (err, k) ← setupNewKstack k task
      if err ≠ 0 then
        let k ← freeTask k task
        return (-E_NOMEM, k)
      else
        let (err, k) ← copyFiles k cloneFlags task
        if err ≠ 0 then failedAndCleanKstack k task
        else
          let (err, k) ← copyMm k cloneFlags task
          if err ≠ 0 then
            let k ← putFiles k task
            failedAndCleanKstack k task
          else
            let k ← copyTask k task stack frame
            publish k task

/-- `createKernelThread(func, arg, clone_flags)`. -/
def createKernelThread (k : Kernel) (func arg cloneFlags : U32) : Res (Int × Kernel) :=
  let zero : InterruptFrame := ⟨0, 0, 0, 0, 0, 0, 0, 0, 0, 0, 0, 0, 0, 0, 0, 0, 0, 0, 0⟩
  doFork k (cloneFlags ||| CLONE_VM) 0 { zero with
    cs := KERNEL_CS
    ds := KERNEL_DS
    es := KERNEL_DS
    ss := KERNEL_DS
    ebx := func
    edx := arg
    eip := k.image.kernelThreadEntry }

/-! ### `initTask` -/

/-- The kernel before `initTask`, on a machine that `pmm_init` has set up. -/
def bootKernel (image : KernelImage) (machine : Machine) : Kernel where
  image := image
  machine := machine
  tasks := fun _ => none
  mms := fun _ => none
  files := fun _ => none
  inodes := fun _ => ⟨0, 0⟩
  trapFrames := fun _ => none
  taskList := []
  taskCount := 0
  runList := []
  taskNum := 0
  currentTask := NULL
  idleTask := NULL
  initTask := NULL
  esp0 := image.kernelStack
  cr3 := image.kernelCr3

/-- `initTask()`; `arg` is the address of the string for `init_task_func`. -/
def initTask (image : KernelImage) (machine : Machine) (arg : U32) : Res Kernel := do
  let (idle, k) ← allocTask (bootKernel image machine)
  panicIf (idle = NULL) "Can not create idle task!"
  let k := { k with idleTask := idle, taskList := listAdd idle k.taskList }
  let (files, k) ← filesCreate k
  panicIf (files = NULL) "idle task files create error!"
  let k ← k.modifyTask idle fun t => { t with
    tid := 0
    state := .runnable
    waitState := WT_NOTWAIT
    kstack := image.kernelStack
    needResched := true
    files := files }
  let k ← filesRefInc k files
  let k := { k with taskCount := k.taskCount + 1, currentTask := idle }
  let (initTid, k) ← createKernelThread k image.initTaskFunc arg 0
  panicIf (initTid < 0) "create init process failed."
  let init ← findTask k (BitVec.ofInt 32 initTid)
  return { k with initTask := init }

/-! ### `do_exit` -/

/-- One round of the loop below, for the child `child` of the running task. -/
def reparentOne (k : Kernel) (child : U32) : Res Kernel := do
  let c ← k.task child
  let k ← k.modifyTask k.currentTask fun t => { t with cptr := c.optr }
  let init ← k.task k.initTask
  let k ← k.modifyTask child fun t => { t with yptr := NULL, optr := init.cptr }
  let k ← k.doIf (init.cptr ≠ NULL) fun k => k.modifyTask init.cptr fun t => { t with yptr := child }
  let k ← k.modifyTask child fun t => { t with parent := k.initTask }
  let k ← k.modifyTask k.initTask fun t => { t with cptr := child }
  let c ← k.task child
  let init ← k.task k.initTask
  k.doIf (c.state = .zombie ∧ init.waitState = WT_CHILD) fun k => wakeupTask k k.initTask

/-- The loop of `do_exit` that hands the children over to `init_task`. -/
def reparent : Nat → Kernel → Res Kernel
  | 0, _ => .error .outOfFuel
  | fuel + 1, k => do
      let current ← k.task k.currentTask
      if current.cptr = NULL then return k
      else
        let k ← reparentOne k current.cptr
        reparent fuel k

/-- One round for each task that can be on the list. -/
def reparentFuel : Nat := MAX_TASKS.toNat + 1

/-- What `do_exit` does with the memory map of the task. -/
def exitMm (k : Kernel) : Res Kernel := do
  let current ← k.task k.currentTask
  if current.mm = NULL then return k
  else
    let m ← k.mm current.mm
    let m := { m with ref := m.ref - 1 }
    let k := { k with cr3 := k.image.kernelCr3, mms := Function.update k.mms current.mm (some m) }
    let k ← k.doIf (m.ref = 0) fun k => do
      let machine ← exitMmap k.machine (some m)
      let machine ← putPgdir machine m
      destroyMm { k with machine := machine } current.mm m
    k.modifyTask k.currentTask fun t => { t with mm := NULL }

/-- The part of `do_exit` in which interrupts are off. -/
def handOver (k : Kernel) : Res Kernel := do
  let current ← k.task k.currentTask
  let parent ← k.task current.parent
  let k ← k.doIf (parent.waitState = WT_CHILD) fun k => wakeupTask k current.parent
  reparent reparentFuel k

/-- `do_exit(err_code)`.  Another task runs when it is done. -/
def doExit (k : Kernel) (errCode : Int) (saved : Context) : Res Kernel := do
  panicIf (k.currentTask = k.idleTask) "Trying to exit idle!"
  let k ← exitMm k
  let k ← k.modifyTask k.currentTask fun t => { t with state := .zombie, exitCode := errCode }
  let k ← handOver k
  let k' ← schedule k saved
  panicIf (k'.currentTask = k.currentTask) "do_exit will not return!"
  return k'

/-! ### `do_wait` -/

/-- How a pass of `do_wait` ends. -/
inductive WaitResult where
  /-- The call returns `code`, with `stored` written to `*code_store`. -/
  | returned (code : Int) (stored : Option Int)
  /-- The task sleeps until a child exits. -/
  | slept
deriving DecidableEq, Repr

/-- The search for a zombie along the children, from `task` on: the first one, and if there is a child. -/
def findZombie (k : Kernel) : Nat → U32 → Bool → Res (U32 × Bool)
  | 0, _, _ => .error .outOfFuel
  | fuel + 1, task, haskid => do
      if task = NULL then return (NULL, haskid)
      else
        let t ← k.task task
        if t.state = .zombie then return (task, true) else findZombie k fuel t.optr true

/-- The label `found` of `do_wait`. -/
def reap (k : Kernel) (task codeStore : U32) : Res (WaitResult × Kernel) := do
  panicIf (task = k.idleTask ∨ task = k.initTask) "Can not wait idleproc or initproc!\n"
  let t ← k.task task
  let stored := if codeStore ≠ NULL then some t.exitCode else none
  let k ← delTask k task
  let k ← k.release t.kstack KSTACKSIZE
  let k ← freeTask k task
  return (.returned 0 stored, k)

/-- What `waitpid` looks for: the task `pid` if it is a zombie child, and if it is a child at all. -/
def findChild (k : Kernel) (pid : U32) : Res (U32 × Bool) := do
  let task ← findTask k pid
  if task = NULL then return (NULL, false)
  else
    let t ← k.task task
    if t.parent = k.currentTask then return (if t.state = .zombie then task else NULL, true)
    else return (NULL, false)

/-- What `wait` looks for: the first zombie among the children. -/
def findAnyChild (k : Kernel) : Res (U32 × Bool) := do
  let current ← k.task k.currentTask
  findZombie k reparentFuel current.cptr false

/-- `do_wait(pid, code_store)` from the label `repeat` to the next `schedule` or to the end. -/
def waitPass (k : Kernel) (pid codeStore : U32) (saved : Context) : Res (WaitResult × Kernel) := do
  let search := if pid ≠ 0 then findChild k pid else findAnyChild k
  let (task, haskid) ← search
  if task ≠ NULL then reap k task codeStore
  else if haskid then
    let k ← k.modifyTask k.currentTask fun t => { t with state := .sleeping, waitState := WT_CHILD }
    let k ← schedule k saved
    return (.slept, k)
  else return (.returned (-E_BAD_PROC) none, k)

/-- `do_wait(pid, code_store)` up to the first `schedule`. -/
def doWait (k : Kernel) (pid codeStore : U32) (saved : Context) : Res (WaitResult × Kernel) := do
  let current ← k.task k.currentTask
  if codeStore = NULL then waitPass k pid codeStore saved
  else if current.mm = NULL then
    if !(checkUserMem none codeStore 4 true).1 then return (.returned (-E_INVAL) none, k)
    else waitPass k pid codeStore saved
  else
    let m ← k.mm current.mm
    let (legal, m) := checkUserMem (some m) codeStore 4 true
    let k := { k with mms := Function.update k.mms current.mm m }
    if !legal then return (.returned (-E_INVAL) none, k) else waitPass k pid codeStore saved

/-- What a task that slept in `do_wait` goes on with. -/
def resumeWait (k : Kernel) (pid codeStore : U32) (saved : Context) : Res (WaitResult × Kernel) := do
  let current ← k.task k.currentTask
  if current.flags &&& PF_EXITING ≠ 0 then
    let k ← doExit k (-E_KILLED) saved
    return (.slept, k)
  else waitPass k pid codeStore saved

/-! ### Runs -/

/-- What the running task does next. -/
inductive Op where
  | fork (cloneFlags stack : U32) (frame : InterruptFrame)
  | exit (errCode : Int)
  | wait (pid codeStore : U32)
  | resumeWait (pid codeStore : U32)
  | schedule

/-- One step: the value that a `do_fork` returns, and the new state. -/
def Kernel.exec (k : Kernel) (saved : Context) : Op → Res (Option Int × Kernel)
  | .fork cloneFlags stack frame => do
      let (ret, k) ← doFork k cloneFlags stack frame
      return (some ret, k)
  | .exit errCode => do
      let k ← doExit k errCode saved
      return (none, k)
  | .wait pid codeStore => do
      let (_, k) ← doWait k pid codeStore saved
      return (none, k)
  | .resumeWait pid codeStore => do
      let (_, k) ← resumeWait k pid codeStore saved
      return (none, k)
  | .schedule => do
      let k ← schedule k saved
      return (none, k)

end Krnl
end FreakOS
