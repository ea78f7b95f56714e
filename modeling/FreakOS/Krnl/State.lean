import FreakOS.Memory.AddressSpace

/-!
# Tasks and the state of the kernel

The structures of `task.h`, `file.h` and `idt.h` that the task functions use, and the kernel state they
work on.  Structures live at kernel addresses: a heap maps the address of a structure to its value, and an
address that no structure lives at cannot be followed (`Fault.wildPointer`).

The pages of structures come from `kmalloc`, so the allocator is that of the machine.  Names of tasks,
their `runs` counter and semaphores have no part in what is modelled.  Registers are not modelled either:
what `switch_to_s` saves is given from outside.
-/

namespace FreakOS
namespace Krnl

open Memory

/-! ### Structures -/

/-- `TaskState_e`. -/
inductive TaskState where
  | uninit
  | sleeping
  | runnable
  | zombie
deriving DecidableEq, Repr

/-- `Context_t`. -/
structure Context where
  eip : U32
  esp : U32
  ebx : U32
  ecx : U32
  edx : U32
  esi : U32
  edi : U32
  ebp : U32
deriving DecidableEq, Repr

/-- `InterruptFrame_t`. -/
structure InterruptFrame where
  gs : U32
  fs : U32
  es : U32
  ds : U32
  edi : U32
  esi : U32
  ebp : U32
  uselessEsp : U32
  ebx : U32
  edx : U32
  ecx : U32
  eax : U32
  intNo : U32
  errCode : U32
  eip : U32
  cs : U32
  eflags : U32
  userEsp : U32
  ss : U32
deriving DecidableEq, Repr

/-- `Task_t`.  `tid` holds the bits of an `int32_t`, and `trapFrame` is the pointer `_if`. -/
structure Task where
  tid : U32
  state : TaskState
  waitState : U32
  exitCode : Int
  kstack : U32
  flags : U32
  parent : U32
  cptr : U32
  yptr : U32
  optr : U32
  mm : U32
  context : Context
  trapFrame : U32
  cr3 : U32
  timeSlice : U32
  needResched : Bool
  files : U32
deriving DecidableEq, Repr

/-- The `status` of a `File_t`. -/
inductive FileStatus where
  | none
  | init
  | opened
  | closed
deriving DecidableEq, Repr

/-- `File_t`.  `node` is the address of the structure itself. -/
structure File where
  node : U32
  status : FileStatus
  readable : Bool
  writable : Bool
  fd : Int
  pos : Int
  inode : U32
  openCount : Int
deriving DecidableEq, Repr

/-- `FileStruct_t`. -/
structure FileStruct where
  pwd : U32
  fileList : List File
  ref : Int
  fileNextId : Int
deriving DecidableEq, Repr

/-- The counters of an `INode_t`. -/
structure INodeCount where
  ref : Int
  opened : Int
deriving DecidableEq, Repr

/-! ### Constants -/

/-- `CLONE_VM`. -/
def CLONE_VM : U32 := 0x100#32
/-- `CLONE_FILES`. -/
def CLONE_FILES : U32 := 0x800#32
/-- `MAX_TASKS`. -/
def MAX_TASKS : U32 := 4096#32
/-- `PF_EXITING`. -/
def PF_EXITING : U32 := 1#32
/-- `WT_NOTWAIT`. -/
def WT_NOTWAIT : U32 := 0#32
/-- `WT_CHILD`. -/
def WT_CHILD : U32 := 0x80000001#32
/-- `MAX_TIME_SLICES`. -/
def MAX_TIME_SLICES : U32 := 1#32
/-- `KERNEL_CS`. -/
def KERNEL_CS : U32 := 8#32
/-- `KERNEL_DS`. -/
def KERNEL_DS : U32 := 16#32

/-- `E_KILLED`. -/
def E_KILLED : Int := 13
/-- `E_NO_FREE_TASK`. -/
def E_NO_FREE_TASK : Int := 15
/-- `E_BAD_PROC`. -/
def E_BAD_PROC : Int := 16

/-- `sizeof(Task_t)`. -/
def sizeofTask : U32 := 148#32
/-- `sizeof(InterruptFrame_t)`. -/
def sizeofInterruptFrame : U32 := 76#32
/-- `sizeof(FileStruct_t)`. -/
def sizeofFileStruct : U32 := 44#32
/-- `sizeof(File_t)`. -/
def sizeofFile : U32 := 36#32

/-! ### The kernel -/

/-- Addresses that the linker decides on, and the page directory of the kernel. -/
structure KernelImage where
  kernelStack : U32
  forkret : U32
  kernelThreadEntry : U32
  initTaskFunc : U32
  kernelCr3 : U32

/-- The kernel with its heaps, lists and global variables. -/
structure Kernel where
  image : KernelImage
  machine : Machine
  tasks : U32 → Option Task
  mms : U32 → Option MemMap
  files : U32 → Option FileStruct
  inodes : U32 → INodeCount
  /-- The trap frames that `copy_task` has written, by address. -/
  trapFrames : U32 → Option InterruptFrame
  taskList : List U32
  taskCount : U32
  /-- `RunQueue.run_list`. -/
  runList : List U32
  /-- `RunQueue.task_num`. -/
  taskNum : U32
  currentTask : U32
  idleTask : U32
  initTask : U32
  /-- `TS.ts_esp0`. -/
  esp0 : U32
  cr3 : U32

/-- Stop with a message where a condition holds. -/
def panicIf (c : Prop) [Decidable c] (msg : String) : Res Unit :=
  if c then .error (.panic msg) else .ok ()

namespace Kernel

/-- Take a step where a condition holds. -/
def doIf (k : Kernel) (c : Prop) [Decidable c] (step : Kernel → Res Kernel) : Res Kernel :=
  if c then step k else .ok k

/-- Follow a `Task_t *`. -/
def task (k : Kernel) (addr : U32) : Res Task :=
  match k.tasks addr with
  | some t => .ok t
  | none => .error .wildPointer

/-- Overwrite the structure at an address. -/
def setTask (k : Kernel) (addr : U32) (t : Task) : Kernel :=
  { k with tasks := Function.update k.tasks addr (some t) }

/-- Write some fields of a structure. -/
def modifyTask (k : Kernel) (addr : U32) (f : Task → Task) : Res Kernel := do
  let t ← k.task addr
  return k.setTask addr (f t)

/-- Follow a `MemMap_t *`. -/
def mm (k : Kernel) (addr : U32) : Res MemMap :=
  match k.mms addr with
  | some mm => .ok mm
  | none => .error .wildPointer

/-- Follow a `FileStruct_t *`. -/
def fileStruct (k : Kernel) (addr : U32) : Res FileStruct :=
  match k.files addr with
  | some files => .ok files
  | none => .error .wildPointer

def setFileStruct (k : Kernel) (addr : U32) (files : FileStruct) : Kernel :=
  { k with files := Function.update k.files addr (some files) }

/-- `kmalloc(bytes)` on the kernel. -/
def alloc (k : Kernel) (bytes : U32) : Res (U32 × Kernel) := do
  let (addr, machine) ← kmalloc k.machine bytes
  return (addr, { k with machine := machine })

/-- `kfree(vaddr, bytes)` on the kernel. -/
def release (k : Kernel) (vaddr bytes : U32) : Res Kernel := do
  let machine ← kfree k.machine vaddr bytes
  return { k with machine := machine }

end Kernel

end Krnl
end FreakOS
