import FreakOS.Fs.Locks

/-!
# The order of the semaphores

* `level` — first one of a memory map, a table, the device list, a volume or an inode; then that of the block cache;
  then that of a disk.
* `Call` — the calls, with the operations of FAT inodes as `FatOp`.
* `lock_order` — each call gives back what it takes, in this order, so tasks never wait for each other in a circle.
-/

namespace FreakOS
namespace Locks

open Lib
open Lib.Locking (Guard Runs Keeps Path Ordered heldAfter)

/-- The order in which semaphores are nested. -/
def level : Sem → Nat
  | .mm _ | .files _ | .vDevList | .fatVolume _ | .fatInode _ => 0
  | .blockCache => 1
  | .ide _ => 2

/-! ### Devices and the block cache -/

section Guarded

variable {guard : U32 → Guard Sem}

theorem take_runs (x : Sem) : Runs level guard (level x) [] [x] (Locking.down x) :=
  Runs.down le_rfl fun _ hy => by cases hy

theorem give_runs (x : Sem) : Runs level guard (level x) [x] [] (Locking.up x) := Runs.up le_rfl

theorem ideRequestLock_keeps (ideno : Nat) : Keeps level guard 2 (ideRequestLock ideno) := by
  unfold ideRequestLock
  exact (take_runs (.ide ideno)).bind fun _ => Runs.any.bind fun ret =>
    (give_runs (.ide ideno)).bind fun _ => Runs.pure ret

theorem diskIoDirectOneblock_keeps (blockdev : Option Nat) : Keeps level guard 2 (diskIoDirectOneblock blockdev) := by
  cases blockdev with
  | none => exact Runs.halt
  | some blockdev =>
      unfold diskIoDirectOneblock
      exact (ideRequestLock_keeps blockdev).bind fun ret => Runs.ite (fun _ => Runs.pure 1) fun _ => Runs.pure 0

/-- The disk is accessed under the semaphore of the block cache. -/
theorem diskIoDirectOneblock_runs (blockdev : Option Nat) :
    Runs level guard 1 [Sem.blockCache] [Sem.blockCache] (diskIoDirectOneblock blockdev) := by
  refine (diskIoDirectOneblock_keeps blockdev).frame (by decide) ?_
  simp [level]

theorem bcacheRwEnd_runs (ret : Int) : Runs level guard 1 [Sem.blockCache] [] (bcacheRwEnd ret) := by
  unfold bcacheRwEnd
  exact (give_runs Sem.blockCache).bind fun _ => Runs.ite (fun _ => Runs.pure 1) fun _ => Runs.pure 0

theorem bcacheRw_keeps (blockdev : Option Nat) : Keeps level guard 1 (bcacheRw blockdev) := by
  unfold bcacheRw
  refine (take_runs Sem.blockCache).bind fun _ => Runs.any.bind fun slot => ?_
  cases slot with
  | hit => exact (give_runs Sem.blockCache).bind fun _ => Runs.pure 0
  | free => exact (diskIoDirectOneblock_runs blockdev).bind fun ret => bcacheRwEnd_runs ret
  | victim dev modified =>
      refine Runs.bind (Runs.ite (fun _ => diskIoDirectOneblock_runs dev) fun _ => Runs.pure 0) fun ret => ?_
      apply Runs.ite
      · intro _
        exact (give_runs Sem.blockCache).bind fun _ => Runs.pure 1
      · intro _
        exact (diskIoDirectOneblock_runs blockdev).bind fun ret => bcacheRwEnd_runs ret

theorem diskIOBCacheLoop_keeps (blockdev : Option Nat) (nsecs : Nat) :
    Keeps level guard 1 (diskIOBCacheLoop blockdev nsecs) := by
  induction nsecs with
  | zero => exact Runs.pure 0
  | succ nsecs ih =>
      unfold diskIOBCacheLoop
      exact (bcacheRw_keeps blockdev).bind fun ret => Runs.ite (fun _ => Runs.pure 1) fun _ => ih

theorem diskIOBCache_keeps (blockdev : Option Nat) (nsecs : Nat) :
    Keeps level guard 1 (diskIOBCache blockdev nsecs) := by
  unfold diskIOBCache
  exact Runs.ite (fun _ => Runs.halt) fun _ => diskIOBCacheLoop_keeps blockdev nsecs

theorem syncLoop_runs (slots : Nat) : Runs level guard 1 [Sem.blockCache] [] (syncLoop slots) := by
  induction slots with
  | zero => exact (give_runs Sem.blockCache).bind fun _ => Runs.pure 0
  | succ slots ih =>
      unfold syncLoop
      refine Runs.any.bind fun slot => ?_
      cases slot with
      | none => exact ih
      | some dev =>
          refine (diskIoDirectOneblock_runs dev).bind fun ret => Runs.ite (fun _ => ?_) fun _ => ih
          exact (give_runs Sem.blockCache).bind fun _ => Runs.pure 1

theorem syncAllBcache_keeps : Keeps level guard 1 syncAllBcache := by
  unfold syncAllBcache
  exact (take_runs Sem.blockCache).bind fun _ => syncLoop_runs _

theorem diskReadWrite_keeps (blockdev : Option Nat) (nsecs : Nat) :
    Keeps level guard 1 (diskReadWrite blockdev nsecs) := by
  induction nsecs with
  | zero => exact Runs.pure 0
  | succ nsecs ih =>
      unfold diskReadWrite
      exact (diskIOBCache_keeps blockdev 1).bind fun ret => Runs.ite (fun _ => Runs.pure _) fun _ => ih

theorem diskAccesses_keeps (n : Nat) : Keeps level guard 1 (diskAccesses n) := by
  induction n with
  | zero => exact Runs.pure ()
  | succ n ih =>
      unfold diskAccesses
      exact Runs.any.bind fun blockdev => Runs.any.bind fun nsecs => (diskReadWrite_keeps blockdev nsecs).bind fun _ => ih

/-! ### FAT inodes -/

/-- A function of `fat_base.c` on a volume whose guard, if it has one, is held. -/
theorem fatbase_runs {before : List Sem} {fatfs : U32} (hbefore : ∀ y ∈ before, level y < 1)
    (hguard : (guard fatfs).Met before) : Runs level guard 0 before before (fatbase fatfs) := by
  unfold fatbase
  refine Runs.region (Runs.any.bind fun n => (diskAccesses_keeps n).bind fun _ => Runs.any) (by decide) hbefore hguard

section File

variable {inode : FatNode} (hguard : (guard inode.fatfs).Met [Sem.fatInode inode.addr])

include hguard

/-- The volume is accessed under the semaphore of the inode. -/
theorem fatbase_file : Runs level guard 0 [Sem.fatInode inode.addr] [Sem.fatInode inode.addr] (fatbase inode.fatfs) := by
  refine fatbase_runs ?_ hguard
  simp [level]

theorem fatFileRw_keeps (buf : U32) : Keeps level guard 0 (fatFileRw inode buf) := by
  unfold fatFileRw
  refine Runs.ite (fun _ => Runs.pure _) fun _ => Runs.ite (fun _ => Runs.pure _) fun _ => ?_
  exact (take_runs (.fatInode inode.addr)).bind fun _ => (fatbase_file hguard).bind fun ret =>
    (give_runs (.fatInode inode.addr)).bind fun _ => Runs.pure ret

theorem fatLseek_keeps : Keeps level guard 0 (fatLseek inode) := by
  unfold fatLseek
  refine Runs.ite (fun _ => Runs.pure _) fun _ => Runs.ite (fun _ => Runs.pure _) fun _ => ?_
  exact (take_runs (.fatInode inode.addr)).bind fun _ => (fatbase_file hguard).bind fun ret =>
    (give_runs (.fatInode inode.addr)).bind fun _ => Runs.pure ret

theorem fatTruncate_keeps : Keeps level guard 0 (fatTruncate inode) := by
  have hbase := fatbase_file hguard
  unfold fatTruncate
  refine Runs.ite (fun _ => Runs.pure _) fun _ => Runs.ite (fun _ => Runs.pure _) fun _ => ?_
  refine (take_runs (.fatInode inode.addr)).bind fun _ => hbase.bind fun _ => Runs.any.bind fun longer => ?_
  refine Runs.bind (Runs.ite (fun _ => hbase) fun _ => hbase.bind fun _ => hbase) fun _ => ?_
  exact hbase.bind fun _ => (give_runs (.fatInode inode.addr)).bind fun _ => Runs.pure 0

theorem fatSync_keeps : Keeps level guard 0 (fatSync inode) := by
  unfold fatSync
  refine Runs.ite (fun _ => Runs.pure _) fun _ => Runs.ite (fun _ => Runs.pure _) fun _ => ?_
  refine (take_runs (.fatInode inode.addr)).bind fun _ => (fatbase_file hguard).bind fun ret => ?_
  refine Runs.bind (syncAllBcache_keeps.frame (by decide) (by simp [level])) fun _ => ?_
  exact (give_runs (.fatInode inode.addr)).bind fun _ => Runs.pure ret

end File

section Volume

variable {fatfs : U32} (hguard : (guard fatfs).Met [Sem.fatVolume fatfs])

include hguard

/-- The volume is accessed under its own semaphore. -/
theorem fatbase_volume : Runs level guard 0 [Sem.fatVolume fatfs] [Sem.fatVolume fatfs] (fatbase fatfs) := by
  refine fatbase_runs ?_ hguard
  simp [level]

theorem fatFindInode_keeps (path : U32) : Keeps level guard 0 (fatFindInode fatfs path) := by
  have hbase := fatbase_volume hguard
  have hup : ∀ {α : Type} (r : α), Runs level guard 0 [Sem.fatVolume fatfs] []
      (Locking.up (Sem.fatVolume fatfs) >>= fun _ => pure r : Code α) :=
    fun r => (give_runs (.fatVolume fatfs)).bind fun _ => Runs.pure r
  unfold fatFindInode kmallocFails
  refine (take_runs (.fatVolume fatfs)).bind fun _ => Runs.ite (fun _ => hup none) fun _ => ?_
  refine Runs.any.bind fun _ => Runs.ite (fun _ => hup none) fun _ => Runs.any.bind fun cached => ?_
  cases cached with
  | some found => exact hup _
  | none =>
      unfold fatFindOnDisk kmallocFails
      refine Runs.any.bind fun _ => Runs.ite (fun _ => hup none) fun _ => Runs.any.bind fun addr => ?_
      refine hbase.bind fun _ => Runs.ite (fun _ => hup _) fun _ => ?_
      exact hbase.bind fun _ => (give_runs (.fatVolume fatfs)).bind fun _ =>
        Runs.ite (fun _ => Runs.pure _) fun _ => Runs.pure _

end Volume

section Unlocked

variable {inode : FatNode} (hguard : (guard inode.fatfs).Met [])

include hguard

/-- The volume is accessed without a semaphore. -/
theorem fatbase_unlocked : Keeps level guard 0 (fatbase inode.fatfs) := by
  refine fatbase_runs ?_ hguard
  intro y hy
  cases hy

theorem fatLookup_keeps (relativePath : U32) : Keeps level guard 0 (fatLookup inode relativePath) := by
  have hfind : ∀ path, Keeps level guard 0 (fatFindInode inode.fatfs path) :=
    fatFindInode_keeps (hguard.mono fun x hx => by cases hx)
  unfold fatLookup
  refine Runs.ite (fun _ => Runs.pure _) fun _ => Runs.ite (fun _ => Runs.pure _) fun _ => ?_
  refine Runs.any.bind fun newInPath => Runs.ite (fun _ => Runs.pure _) fun _ => (hfind newInPath).bind fun out => ?_
  cases out with
  | none => exact Runs.pure _
  | some out => exact Runs.pure _

theorem fatCreate_keeps (name : U32) (isExist : Bool) : Keeps level guard 0 (fatCreate inode name isExist) := by
  have hbase := fatbase_unlocked hguard
  unfold fatCreate kmallocFails
  refine Runs.ite (fun _ => Runs.pure _) fun _ => Runs.ite (fun _ => Runs.pure _) fun _ => ?_
  refine Runs.any.bind fun _ => Runs.ite (fun _ => Runs.pure _) fun _ => ?_
  refine Runs.any.bind fun _ => Runs.ite (fun _ => Runs.pure _) fun _ => hbase.bind fun ret => ?_
  apply Runs.ite
  · intro _
    exact hbase.bind fun _ => Runs.pure 0
  · intro _
    exact Runs.ite (fun _ => Runs.pure _) fun _ => Runs.pure _

theorem fatReaddir_keeps (rewind : Bool) : Keeps level guard 0 (fatReaddir inode rewind) := by
  unfold fatReaddir
  refine Runs.ite (fun _ => Runs.pure _) fun _ => Runs.ite (fun _ => Runs.pure _) fun _ => ?_
  refine (fatbase_unlocked hguard).bind fun ret => Runs.ite (fun _ => Runs.pure _) fun _ => ?_
  refine Runs.ite (fun _ => Runs.pure _) fun _ => Runs.any.bind fun _ => Runs.ite (fun _ => Runs.pure _) fun _ => ?_
  exact Runs.any.bind fun name => (fatLookup_keeps hguard name).bind fun _ => Runs.pure _

theorem fatMkdir_keeps (dirName : U32) : Keeps level guard 0 (fatMkdir inode dirName) := by
  unfold fatMkdir kmallocFails
  refine Runs.ite (fun _ => Runs.pure _) fun _ => Runs.ite (fun _ => Runs.pure _) fun _ => ?_
  refine Runs.any.bind fun _ => Runs.ite (fun _ => Runs.pure _) fun _ => ?_
  exact (fatbase_unlocked hguard).bind fun _ => Runs.pure _

theorem fatStat_keeps (stat : U32) : Keeps level guard 0 (fatStat inode stat) := by
  unfold fatStat
  exact Runs.ite (fun _ => Runs.pure _) fun _ => (fatbase_unlocked hguard).bind fun _ => Runs.pure _

theorem fatRelease_keeps : Keeps level guard 0 (fatRelease inode) := by
  unfold fatRelease
  refine Runs.ite (fun _ => Runs.pure _) fun _ => Runs.ite (fun _ => ?_) fun _ => Runs.pure _
  exact (fatbase_unlocked hguard).bind fun _ => Runs.pure _

end Unlocked

theorem fatGetType_keeps (k : Nat) (inode : FatNode) (typeOut : U32) :
    Keeps level guard k (fatGetType inode typeOut) := by
  unfold fatGetType
  exact Runs.ite (fun _ => Runs.pure _) fun _ => Runs.pure _

end Guarded

/-! ### The operations of inodes -/

/-- The function gives back the semaphores that it takes, and takes them in their order. -/
abbrev Balanced {α : Type} (p : Code α) : Prop := Keeps level (fun _ => .free) 0 p

/-- An operation of an inode is balanced, where the inode has it. -/
theorem lookup_balanced {inode : Node} {lookup : U32 → Code (Int × Option FatNode)} (h : inode.lookup = some lookup)
    (path : U32) : Balanced (lookup path) := by
  cases inode with
  | fat inode =>
      obtain rfl := Option.some.inj h
      exact fatLookup_keeps (by trivial) path
  | dev kind => cases h

theorem iopen_balanced {inode : Node} {iopen : Code Int} (h : inode.iopen = some iopen) : Balanced iopen := by
  obtain rfl := Option.some.inj h
  exact Runs.pure 0

theorem read_balanced {inode : Node} {read : U32 → Code Int} (h : inode.read = some read) (buf : U32) :
    Balanced (read buf) := by
  cases inode with
  | fat inode =>
      obtain ⟨-, h⟩ := Option.ite_none_right_eq_some.mp h
      obtain rfl := Option.some.inj h
      exact fatFileRw_keeps (by trivial) buf
  | dev kind =>
      cases kind with
      | stdin =>
          obtain rfl := Option.some.inj h
          exact Runs.any
      | stdout => cases h
      | blk => cases h

theorem write_balanced {inode : Node} {write : U32 → Code Int} (h : inode.write = some write) (buf : U32) :
    Balanced (write buf) := by
  cases inode with
  | fat inode =>
      obtain ⟨-, h⟩ := Option.ite_none_right_eq_some.mp h
      obtain rfl := Option.some.inj h
      exact fatFileRw_keeps (by trivial) buf
  | dev kind =>
      cases kind with
      | stdin => cases h
      | stdout =>
          obtain rfl := Option.some.inj h
          exact Runs.any
      | blk => cases h

theorem lseek_balanced {inode : Node} {lseek : Code Int} (h : inode.lseek = some lseek) : Balanced lseek := by
  cases inode with
  | fat inode =>
      obtain ⟨-, h⟩ := Option.ite_none_right_eq_some.mp h
      obtain rfl := Option.some.inj h
      exact fatLseek_keeps (by trivial)
  | dev kind => cases h

theorem truncate_balanced {inode : Node} {truncate : Code Int} (h : inode.truncate = some truncate) :
    Balanced truncate := by
  cases inode with
  | fat inode =>
      obtain ⟨-, h⟩ := Option.ite_none_right_eq_some.mp h
      obtain rfl := Option.some.inj h
      exact fatTruncate_keeps (by trivial)
  | dev kind => cases h

theorem create_balanced {inode : Node} {create : U32 → Bool → Code Int} (h : inode.create = some create)
    (name : U32) (isExist : Bool) : Balanced (create name isExist) := by
  cases inode with
  | fat inode =>
      obtain ⟨-, h⟩ := Option.ite_none_left_eq_some.mp h
      obtain rfl := Option.some.inj h
      exact fatCreate_keeps (by trivial) name isExist
  | dev kind => cases h

theorem stat_balanced {inode : Node} {stat : U32 → Code Int} (h : inode.stat = some stat) (buf : U32) :
    Balanced (stat buf) := by
  cases inode with
  | fat inode =>
      obtain rfl := Option.some.inj h
      exact fatStat_keeps (by trivial) buf
  | dev kind => cases h

theorem sync_balanced {inode : Node} {sync : Code Int} (h : inode.sync = some sync) : Balanced sync := by
  cases inode with
  | fat inode =>
      obtain ⟨-, h⟩ := Option.ite_none_right_eq_some.mp h
      obtain rfl := Option.some.inj h
      exact fatSync_keeps (by trivial)
  | dev kind => cases h

/-- `iop_get_type` takes no semaphore at all. -/
theorem getType_keeps (k : Nat) {inode : Node} {getType : U32 → Code (Int × U32)} (h : inode.getType = some getType)
    (typeOut : U32) : Keeps level (fun _ => .free) k (getType typeOut) := by
  cases inode with
  | fat inode =>
      obtain rfl := Option.some.inj h
      exact fatGetType_keeps k inode typeOut
  | dev kind => cases h

/-! ### `vdev.c` and `vfs_*.c` -/

theorem vdevAdd_balanced (vdevName devInode fs : U32) (isDev mountable : Bool) :
    Balanced (vdevAdd vdevName devInode fs isDev mountable) := by
  unfold vdevAdd kmallocFails
  refine Runs.ite (fun _ => Runs.pure _) fun _ => Runs.ite (fun _ => Runs.pure _) fun _ => ?_
  refine Runs.any.bind fun _ => Runs.ite (fun _ => Runs.pure _) fun _ => ?_
  refine (take_runs .vDevList).bind fun _ => Runs.any.bind fun _ => ?_
  apply Runs.ite
  · intro _
    exact (give_runs .vDevList).bind fun _ => Runs.any
  · intro _
    refine Runs.any.bind fun _ => Runs.ite (fun _ => ?_) fun _ => ?_
    · exact (give_runs .vDevList).bind fun _ => Runs.any
    · exact (give_runs .vDevList).bind fun _ => Runs.pure 0

theorem fatFindInode_balanced (fatfs path : U32) : Balanced (fatFindInode fatfs path) :=
  fatFindInode_keeps (by trivial) path

theorem vdevParsePath_balanced : Balanced vdevParsePath := by
  have hroot : Balanced vdevGetRootInode := by
    unfold vdevGetRootInode
    refine Runs.any.bind fun vdev => ?_
    match vdev with
    | none => exact Runs.pure _
    | some (.inode kind) => exact Runs.pure _
    | some (.fs fatfs path) => exact (fatFindInode_balanced fatfs path).bind fun inode => Runs.pure _
  unfold vdevParsePath vfsGetCurInode
  refine Runs.any.bind fun absolute => Runs.ite (fun _ => ?_) fun _ => ?_
  · exact hroot.bind fun inode => Runs.pure _
  · exact Runs.any.bind fun pwd => Runs.pure _

theorem vfsSetCurInode_balanced (files : U32) (inode : Option Node) : Balanced (vfsSetCurInode files inode) := by
  have hset : Keeps level (fun _ => .free) 1 (setPwd inode) := by
    cases inode with
    | none => exact Runs.pure _
    | some inode =>
        dsimp only [setPwd]
        split
        · exact Runs.pure _
        · rename_i getType htype
          refine Runs.any.bind fun typeOut => (getType_keeps 1 htype typeOut).bind fun r => ?_
          exact Runs.ite (fun _ => Runs.pure _) fun _ => Runs.ite (fun _ => Runs.pure _) fun _ => Runs.pure _
  have hset' : Runs level (fun _ => .free) 0 [Sem.files files] [Sem.files files] (setPwd inode) := by
    refine hset.frame (by decide) ?_
    simp [level]
  unfold vfsSetCurInode
  refine (take_runs (.files files)).bind fun _ => Runs.any.bind fun same => ?_
  refine Runs.bind (Runs.ite (fun _ => Runs.pure _) fun _ => hset') fun ret => ?_
  exact (give_runs (.files files)).bind fun _ => Runs.pure ret

theorem vfsLookup_balanced : Balanced vfsLookup := by
  unfold vfsLookup
  refine vdevParsePath_balanced.bind fun parsed => ?_
  obtain ⟨ret, vdevInode⟩ := parsed
  cases vdevInode with
  | none => exact Runs.pure _
  | some vdevInode =>
      refine Runs.any.bind fun empty => Runs.ite (fun _ => Runs.pure _) fun _ => ?_
      dsimp only
      split
      · exact Runs.pure _
      · rename_i lookup hlookup
        exact Runs.any.bind fun path => (lookup_balanced hlookup path).bind fun r => Runs.pure _

theorem vfsOpenFound_balanced (cut : Bool) (inode : Option Node) : Balanced (vfsOpenFound cut inode) := by
  cases inode with
  | none => exact Runs.pure _
  | some inode =>
      dsimp only [vfsOpenFound]
      split
      · exact Runs.pure _
      · rename_i iopen hopen
        refine (iopen_balanced hopen).bind fun ret => Runs.ite (fun _ => Runs.pure _) fun _ => ?_
        apply Runs.ite
        · intro _
          split
          · exact Runs.pure _
          · rename_i truncate htruncate
            exact (truncate_balanced htruncate).bind fun ret => Runs.ite (fun _ => Runs.pure _) fun _ => Runs.pure _
        · intro _
          exact Runs.pure _

theorem vfsOpen_balanced (openFlag : U32) : Balanced (vfsOpen openFlag) := by
  have hcreate : ∀ cut, Balanced (vfsOpenCreate cut) := by
    intro cut
    unfold vfsOpenCreate vfsLookupParent
    refine vdevParsePath_balanced.bind fun parsed => ?_
    obtain ⟨ret, dir⟩ := parsed
    refine Runs.ite (fun _ => Runs.pure _) fun _ => ?_
    dsimp only
    split
    · exact Runs.pure _
    · rename_i create hcreate
      obtain ⟨inode, -, hcreate⟩ := Option.bind_eq_some_iff.mp hcreate
      refine Runs.any.bind fun name => (create_balanced hcreate name true).bind fun ret => ?_
      refine Runs.ite (fun _ => Runs.pure _) fun _ => vfsLookup_balanced.bind fun r => ?_
      exact vfsOpenFound_balanced cut r.2
  unfold vfsOpen kmallocFails
  refine Runs.any.bind fun _ => Runs.ite (fun _ => Runs.pure _) fun _ => vfsLookup_balanced.bind fun r => ?_
  apply Runs.ite
  · intro _
    exact Runs.ite (fun _ => hcreate _) fun _ => Runs.pure _
  · intro _
    exact Runs.ite (fun _ => Runs.pure _) fun _ => vfsOpenFound_balanced _ r.2

theorem vfsClose_balanced (inode : Node) : Balanced (vfsClose inode) := by
  unfold vfsClose
  split
  · exact Runs.pure _
  · rename_i sync hsync
    exact (sync_balanced hsync).bind fun ret => Runs.ite (fun _ => Runs.pure _) fun _ => Runs.pure _

/-! ### `file.c` -/

theorem fileOpen_balanced (files openFlag : U32) : Balanced (fileOpen files openFlag) := by
  unfold fileOpen kmallocFails
  refine Runs.any.bind fun _ => Runs.ite (fun _ => Runs.pure _) fun _ => (vfsOpen_balanced openFlag).bind fun r => ?_
  refine Runs.ite (fun _ => Runs.pure _) fun _ => ?_
  exact (take_runs (.files files)).bind fun _ => (give_runs (.files files)).bind fun _ => Runs.any

theorem fileClose_balanced : Balanced fileClose := by
  unfold fileClose findFileWithFd
  refine Runs.any.bind fun file => ?_
  cases file with
  | none => exact Runs.pure _
  | some inode => exact (vfsClose_balanced inode).bind fun _ => Runs.pure _

theorem fileRw_balanced {op : Node → Option (U32 → Code Int)}
    (hop : ∀ {inode : Node} {f : U32 → Code Int}, op inode = some f → ∀ buf, Balanced (f buf)) :
    Balanced (fileRw op) := by
  unfold fileRw findFileWithFd
  refine Runs.any.bind fun file => ?_
  cases file with
  | none => exact Runs.pure _
  | some inode =>
      refine Runs.any.bind fun allowed => Runs.ite (fun _ => Runs.pure _) fun _ => ?_
      split
      · exact Runs.pure _
      · rename_i f hf
        refine Runs.any.bind fun buf => (hop hf buf).bind fun ret => ?_
        exact Runs.ite (fun _ => Runs.pure _) fun _ => Runs.pure _

theorem fileRead_balanced : Balanced fileRead := fileRw_balanced read_balanced

theorem fileWrite_balanced : Balanced fileWrite := fileRw_balanced write_balanced

theorem fileSeek_balanced (flag : U32) : Balanced (fileSeek flag) := by
  have hto : ∀ inode, Balanced (fileSeekTo inode) := by
    intro inode
    unfold fileSeekTo
    split
    · exact Runs.pure _
    · rename_i lseek hlseek
      exact (lseek_balanced hlseek).bind fun ret => Runs.ite (fun _ => Runs.pure _) fun _ => Runs.pure _
  unfold fileSeek findFileWithFd
  refine Runs.any.bind fun file => ?_
  cases file with
  | none => exact Runs.pure _
  | some inode =>
      refine Runs.ite (fun _ => hto inode) fun _ => Runs.ite (fun _ => ?_) fun _ => Runs.pure _
      split
      · exact Runs.pure _
      · rename_i stat hstat
        refine Runs.bind (Runs.any.bind fun buf => stat_balanced hstat buf) fun ret => ?_
        exact Runs.ite (fun _ => Runs.pure _) fun _ => hto inode

theorem fileFstat_balanced : Balanced fileFstat := by
  unfold fileFstat findFileWithFd
  refine Runs.any.bind fun file => ?_
  cases file with
  | none => exact Runs.pure _
  | some inode =>
      dsimp only
      split
      · exact Runs.pure _
      · rename_i stat hstat
        exact Runs.any.bind fun buf => stat_balanced hstat buf

theorem fileFsync_balanced : Balanced fileFsync := by
  unfold fileFsync findFileWithFd
  refine Runs.any.bind fun file => ?_
  cases file with
  | none => exact Runs.pure _
  | some inode =>
      dsimp only
      split
      · exact Runs.pure _
      · rename_i sync hsync
        exact (sync_balanced hsync).bind fun ret => Runs.ite (fun _ => Runs.pure _) fun _ => Runs.pure _

theorem filesCloseall_balanced (files : U32) : Balanced (filesCloseall files) := by
  have hloop : ∀ inodes, Balanced (closeallLoop inodes) := by
    intro inodes
    induction inodes with
    | nil => exact Runs.pure ()
    | cons inode rest ih =>
        unfold closeallLoop
        refine Runs.bind ?_ fun _ => ih
        cases hsync : inode.sync with
        | none => exact Runs.pure 0
        | some sync => exact sync_balanced hsync
  unfold filesCloseall
  exact Runs.ite (fun _ => Runs.halt) fun _ => Runs.any.bind hloop

theorem filesDup_balanced (toFiles fromFiles : U32) : Balanced (filesDup toFiles fromFiles) := by
  unfold filesDup
  refine Runs.ite (fun _ => Runs.halt) fun _ => Runs.any.bind fun _ => Runs.ite (fun _ => Runs.halt) fun _ => ?_
  exact (take_runs (.files fromFiles)).bind fun _ => (give_runs (.files fromFiles)).bind fun _ => Runs.pure 0

/-! ### `sysfile.c` -/

/-- What `lock_mm(mm)` takes. -/
def heldMm (mm : U32) : List Sem := if mm ≠ NULL then [.mm mm] else []

theorem lockMm_runs (mm : U32) : Runs level (fun _ => .free) 0 [] (heldMm mm) (lockMm mm) := by
  unfold lockMm heldMm
  split
  · exact take_runs (.mm mm)
  · exact Runs.pure ()

theorem unlockMm_runs (mm : U32) : Runs level (fun _ => .free) 0 (heldMm mm) [] (unlockMm mm) := by
  unfold unlockMm heldMm
  split
  · exact give_runs (.mm mm)
  · exact Runs.pure ()

theorem copyPath_balanced (mm : U32) : Balanced (copyPath mm) := by
  unfold copyPath kmallocFails
  refine Runs.any.bind fun _ => Runs.ite (fun _ => Runs.pure _) fun _ => ?_
  refine (lockMm_runs mm).bind fun _ => Runs.any.bind fun copied => (unlockMm_runs mm).bind fun _ => ?_
  exact Runs.ite (fun _ => Runs.pure _) fun _ => Runs.pure _

theorem sysfileOpen_balanced (mm files openFlags : U32) : Balanced (sysfileOpen mm files openFlags) := by
  unfold sysfileOpen
  exact (copyPath_balanced mm).bind fun ret => Runs.ite (fun _ => Runs.pure _) fun _ => fileOpen_balanced files openFlags

theorem sysfileReadLoop_balanced (mm : U32) (rounds : Nat) : Balanced (sysfileReadLoop mm rounds) := by
  induction rounds with
  | zero => exact Runs.halt
  | succ rounds ih =>
      unfold sysfileReadLoop
      refine fileRead_balanced.bind fun ret => Runs.any.bind fun alen => ?_
      refine Runs.bind (Runs.ite (fun _ => (lockMm_runs mm).bind fun _ => unlockMm_runs mm) fun _ => Runs.pure ())
        fun _ => ?_
      refine Runs.ite (fun _ => Runs.pure _) fun _ => Runs.any.bind fun more => ?_
      exact Runs.ite (fun _ => ih) fun _ => Runs.pure _

theorem sysfileRead_balanced (mm : U32) (len : Nat) : Balanced (sysfileRead mm len) := by
  unfold sysfileRead kmallocFails
  refine Runs.ite (fun _ => Runs.pure _) fun _ => Runs.any.bind fun readable => ?_
  refine Runs.ite (fun _ => Runs.pure _) fun _ => Runs.any.bind fun _ => Runs.ite (fun _ => Runs.pure _) fun _ => ?_
  exact Runs.any.bind fun rounds => (sysfileReadLoop_balanced mm rounds).bind fun _ => Runs.any

theorem sysfileWriteLoop_balanced (mm : U32) (rounds : Nat) : Balanced (sysfileWriteLoop mm rounds) := by
  induction rounds with
  | zero => exact Runs.halt
  | succ rounds ih =>
      unfold sysfileWriteLoop
      refine (lockMm_runs mm).bind fun _ => Runs.any.bind fun copied => (unlockMm_runs mm).bind fun _ => ?_
      refine Runs.bind (Runs.ite (fun _ => fileWrite_balanced) fun _ => Runs.pure _) fun ret => Runs.any.bind fun alen => ?_
      refine Runs.ite (fun _ => Runs.pure _) fun _ => Runs.any.bind fun more => ?_
      exact Runs.ite (fun _ => ih) fun _ => Runs.pure _

theorem sysfileWrite_balanced (mm : U32) (len : Nat) : Balanced (sysfileWrite mm len) := by
  unfold sysfileWrite kmallocFails
  refine Runs.ite (fun _ => Runs.pure _) fun _ => Runs.any.bind fun writable => ?_
  refine Runs.ite (fun _ => Runs.pure _) fun _ => Runs.any.bind fun _ => Runs.ite (fun _ => Runs.pure _) fun _ => ?_
  exact Runs.any.bind fun rounds => (sysfileWriteLoop_balanced mm rounds).bind fun _ => Runs.any

theorem sysfileFstat_balanced (mm : U32) : Balanced (sysfileFstat mm) := by
  unfold sysfileFstat
  refine fileFstat_balanced.bind fun ret => Runs.ite (fun _ => Runs.pure _) fun _ => ?_
  refine (lockMm_runs mm).bind fun _ => Runs.any.bind fun copied => (unlockMm_runs mm).bind fun _ => ?_
  exact Runs.ite (fun _ => Runs.pure _) fun _ => Runs.pure _

/-! ### `task.c` -/

theorem loadIcode_balanced : Balanced loadIcode := by
  have hread : ∀ len, Balanced (loadIcodeRead len) := by
    intro len
    unfold loadIcodeRead sysfileSeek
    refine (fileSeek_balanced _).bind fun ret => Runs.ite (fun _ => Runs.pure _) fun _ => ?_
    exact (sysfileRead_balanced NULL len).bind fun ret => Runs.ite (fun _ => Runs.pure _) fun _ => Runs.pure _
  have hreads : ∀ n, Balanced (loadReads n) := by
    intro n
    induction n with
    | zero => exact Runs.pure _
    | succ n ih =>
        unfold loadReads
        exact Runs.any.bind fun len => (hread len).bind fun ret => Runs.ite (fun _ => Runs.pure _) fun _ => ih
  unfold loadIcode
  exact Runs.any.bind fun n => (hreads n).bind fun ret => Runs.ite (fun _ => Runs.pure _) fun _ => Runs.any

theorem doExecve_balanced (mm files : U32) (argc : Int) (name : U32) : Balanced (doExecve mm files argc name) := by
  unfold doExecve
  refine Runs.ite (fun _ => Runs.pure _) fun _ => (lockMm_runs mm).bind fun _ => ?_
  refine Runs.bind (Runs.ite (fun _ => Runs.pure _) fun _ => Runs.any) fun legal => ?_
  apply Runs.ite
  · intro _
    exact (unlockMm_runs mm).bind fun _ => Runs.pure _
  · intro _
    refine Runs.any.bind fun ret => Runs.ite (fun _ => ?_) fun _ => ?_
    · exact (unlockMm_runs mm).bind fun _ => Runs.pure _
    · refine (unlockMm_runs mm).bind fun _ => (filesCloseall_balanced files).bind fun _ => ?_
      refine (sysfileOpen_balanced mm files _).bind fun fd => Runs.ite (fun _ => Runs.halt) fun _ => ?_
      exact loadIcode_balanced.bind fun ret => Runs.ite (fun _ => Runs.halt) fun _ => Runs.pure _

theorem copyMm_balanced (oldMm : U32) (cloneVm : Bool) : Balanced (copyMm oldMm cloneVm) := by
  unfold copyMm kmallocFails
  refine Runs.ite (fun _ => Runs.pure _) fun _ => Runs.ite (fun _ => Runs.pure _) fun _ => ?_
  refine Runs.any.bind fun _ => Runs.ite (fun _ => Runs.pure _) fun _ => ?_
  refine Runs.any.bind fun _ => Runs.ite (fun _ => Runs.pure _) fun _ => ?_
  exact (lockMm_runs oldMm).bind fun _ => Runs.any.bind fun ret => (unlockMm_runs oldMm).bind fun _ => Runs.pure ret

theorem copyFiles_balanced (oldFiles : U32) (cloneFiles : Bool) : Balanced (copyFiles oldFiles cloneFiles) := by
  unfold copyFiles
  refine Runs.ite (fun _ => Runs.pure _) fun _ => Runs.ite (fun _ => Runs.pure _) fun _ => ?_
  exact Runs.any.bind fun files => Runs.ite (fun _ => Runs.pure _) fun _ => filesDup_balanced files oldFiles

theorem doFork_balanced (mm files : U32) (cloneVm cloneFiles : Bool) :
    Balanced (doFork mm files cloneVm cloneFiles) := by
  unfold doFork kmallocFails
  refine Runs.any.bind fun _ => Runs.ite (fun _ => Runs.pure _) fun _ => ?_
  refine Runs.any.bind fun _ => Runs.ite (fun _ => Runs.pure _) fun _ => ?_
  refine Runs.any.bind fun _ => Runs.ite (fun _ => Runs.pure _) fun _ => ?_
  refine (copyFiles_balanced files cloneFiles).bind fun ret => Runs.ite (fun _ => Runs.pure _) fun _ => ?_
  exact (copyMm_balanced mm cloneVm).bind fun ret => Runs.ite (fun _ => Runs.pure _) fun _ => Runs.any

/-! ### Calls -/

/-- The operations of FAT inodes that use `fat_base.c`, and `fat_find_inode`. -/
inductive FatOp
  | read (inode : FatNode) (buf : U32)
  | write (inode : FatNode) (buf : U32)
  | lseek (inode : FatNode)
  | truncate (inode : FatNode)
  | sync (inode : FatNode)
  | create (inode : FatNode) (name : U32) (isExist : Bool)
  | mkdir (inode : FatNode) (dirName : U32)
  | readdir (inode : FatNode) (rewind : Bool)
  | stat (inode : FatNode) (buf : U32)
  | findInode (fatfs path : U32)
deriving DecidableEq, Repr

/-- Run a function for its effect. -/
def discard {α : Type} (p : Code α) : Code Unit := do
  let _ ← p
  return ()

theorem discard_keeps {guard : U32 → Guard Sem} {k : Nat} {α : Type} {p : Code α} (hp : Keeps level guard k p) :
    Keeps level guard k (discard p) := hp.bind fun _ => Runs.pure ()

namespace FatOp

/-- The function that is called. -/
def program : FatOp → Code Unit
  | read inode buf => discard (fatRead inode buf)
  | write inode buf => discard (fatWrite inode buf)
  | lseek inode => discard (fatLseek inode)
  | truncate inode => discard (fatTruncate inode)
  | sync inode => discard (fatSync inode)
  | create inode name isExist => discard (fatCreate inode name isExist)
  | mkdir inode dirName => discard (fatMkdir inode dirName)
  | readdir inode rewind => discard (fatReaddir inode rewind)
  | stat inode buf => discard (fatStat inode buf)
  | findInode fatfs path => discard (fatFindInode fatfs path)

/-- The volume. -/
def volume : FatOp → U32
  | read inode _ | write inode _ | lseek inode | truncate inode | sync inode | create inode _ _ | mkdir inode _
  | readdir inode _ | stat inode _ => inode.fatfs
  | findInode fatfs _ => fatfs

/-- The semaphore that is held during all calls of `fat_base.c`. -/
def lock : FatOp → Option Sem
  | read inode _ | write inode _ | lseek inode | truncate inode | sync inode => some (.fatInode inode.addr)
  | create _ _ _ | mkdir _ _ | readdir _ _ | stat _ _ => none
  | findInode fatfs _ => some (.fatVolume fatfs)

/-- An operation is balanced, if what it takes is enough to be in its volume. -/
theorem keeps (op : FatOp) {guard : U32 → Guard Sem} (hguard : (guard op.volume).Met op.lock.toList) :
    Keeps level guard 0 op.program := by
  cases op with
  | read inode buf => exact discard_keeps (fatFileRw_keeps hguard buf)
  | write inode buf => exact discard_keeps (fatFileRw_keeps hguard buf)
  | lseek inode => exact discard_keeps (fatLseek_keeps hguard)
  | truncate inode => exact discard_keeps (fatTruncate_keeps hguard)
  | sync inode => exact discard_keeps (fatSync_keeps hguard)
  | create inode name isExist => exact discard_keeps (fatCreate_keeps hguard name isExist)
  | mkdir inode dirName => exact discard_keeps (fatMkdir_keeps hguard dirName)
  | readdir inode rewind => exact discard_keeps (fatReaddir_keeps hguard rewind)
  | stat inode buf => exact discard_keeps (fatStat_keeps hguard buf)
  | findInode fatfs path => exact discard_keeps (fatFindInode_keeps hguard path)

end FatOp

/-- The calls; `mm` and `files` are those of the task. -/
inductive Call
  | sysfileOpen (mm files openFlags : U32)
  | sysfileClose
  | sysfileRead (mm : U32) (len : Nat)
  | sysfileWrite (mm : U32) (len : Nat)
  | sysfileSeek (flag : U32)
  | sysfileFstat (mm : U32)
  | sysfileFsync
  | doExecve (mm files : U32) (argc : Int) (name : U32)
  | doFork (mm files : U32) (cloneVm cloneFiles : Bool)
  | vdevAdd (vdevName devInode fs : U32) (isDev mountable : Bool)
  | vfsSetCurInode (files : U32) (inode : Option Node)
  | fat (op : FatOp)
  | fatLookup (inode : FatNode) (relativePath : U32)
  | fatRelease (inode : FatNode)
  | fatGetType (inode : FatNode) (typeOut : U32)
  | diskIOBCache (blockdev : Option Nat) (nsecs : Nat)
  | syncAllBcache

/-- The function that is called. -/
def Call.program : Call → Code Unit
  | sysfileOpen mm files openFlags => discard (Locks.sysfileOpen mm files openFlags)
  | sysfileClose => discard Locks.sysfileClose
  | sysfileRead mm len => discard (Locks.sysfileRead mm len)
  | sysfileWrite mm len => discard (Locks.sysfileWrite mm len)
  | sysfileSeek flag => discard (Locks.sysfileSeek flag)
  | sysfileFstat mm => discard (Locks.sysfileFstat mm)
  | sysfileFsync => discard Locks.sysfileFsync
  | doExecve mm files argc name => discard (Locks.doExecve mm files argc name)
  | doFork mm files cloneVm cloneFiles => discard (Locks.doFork mm files cloneVm cloneFiles)
  | vdevAdd vdevName devInode fs isDev mountable => discard (Locks.vdevAdd vdevName devInode fs isDev mountable)
  | vfsSetCurInode files inode => discard (Locks.vfsSetCurInode files inode)
  | fat op => op.program
  | fatLookup inode relativePath => discard (Locks.fatLookup inode relativePath)
  | fatRelease inode => discard (Locks.fatRelease inode)
  | fatGetType inode typeOut => discard (Locks.fatGetType inode typeOut)
  | diskIOBCache blockdev nsecs => discard (Locks.diskIOBCache blockdev nsecs)
  | syncAllBcache => discard Locks.syncAllBcache

/-- With no semaphore below it, a function may start at any level. -/
theorem keeps_zero {k : Nat} {α : Type} {p : Code α} (hp : Keeps level (fun _ => .free) k p) : Balanced p :=
  hp.frame (Nat.zero_le k) fun _ hy => by cases hy

theorem Call.balanced (call : Call) : Balanced call.program := by
  cases call with
  | sysfileOpen mm files openFlags => exact discard_keeps (sysfileOpen_balanced mm files openFlags)
  | sysfileClose => exact discard_keeps fileClose_balanced
  | sysfileRead mm len => exact discard_keeps (sysfileRead_balanced mm len)
  | sysfileWrite mm len => exact discard_keeps (sysfileWrite_balanced mm len)
  | sysfileSeek flag => exact discard_keeps (fileSeek_balanced flag)
  | sysfileFstat mm => exact discard_keeps (sysfileFstat_balanced mm)
  | sysfileFsync => exact discard_keeps fileFsync_balanced
  | doExecve mm files argc name => exact discard_keeps (doExecve_balanced mm files argc name)
  | doFork mm files cloneVm cloneFiles => exact discard_keeps (doFork_balanced mm files cloneVm cloneFiles)
  | vdevAdd vdevName devInode fs isDev mountable =>
      exact discard_keeps (vdevAdd_balanced vdevName devInode fs isDev mountable)
  | vfsSetCurInode files inode => exact discard_keeps (vfsSetCurInode_balanced files inode)
  | fat op => exact op.keeps trivial
  | fatLookup inode relativePath => exact discard_keeps (fatLookup_keeps (by trivial) relativePath)
  | fatRelease inode => exact discard_keeps (fatRelease_keeps (by trivial))
  | fatGetType inode typeOut => exact discard_keeps (fatGetType_keeps 0 inode typeOut)
  | diskIOBCache blockdev nsecs => exact discard_keeps (keeps_zero (diskIOBCache_keeps blockdev nsecs))
  | syncAllBcache => exact discard_keeps (keeps_zero syncAllBcache_keeps)

/-- A call starts without semaphores, and ends without them. -/
theorem Call.orderly (call : Call) : Tasks.Orderly level (fun _ => .free) call.program [] [] :=
  call.balanced [] [] (fun _ hy => by cases hy) fun _ hm => by cases hm

/-- On every return path of a call each semaphore is taken as often as it is given back, never when it is held and always
above what is held, and nothing is held at the end.  Tasks that do such calls in any interleaving do not wait for each
other in a circle. -/
theorem lock_order {T : Type} [DecidableEq T] {s₀ s : Tasks Sem U32 T Call} (hinit : s₀.Initial)
    (hrun : Relation.ReflTransGen (Tasks.Step Call.program fun _ _ _ => True) s₀ s) :
    (∀ (call : Call) (events : List (Locking.Event Sem)), Path call.program events () →
      Ordered level [] events ∧ heldAfter [] events = [] ∧
        ∀ x, events.count (.acquired x) = events.count (.released x)) ∧
      (∀ t, s.Idle t → s.held t = []) ∧ ∀ t, ¬ Relation.TransGen s.WaitsFor t t := by
  have hinv : Tasks.Inv level (fun _ _ => .free) s := Tasks.Inv.of_run Call.orderly hinit hrun
  refine ⟨?_, fun t hidle => (hinv.idle hidle).1, hinv.acyclic⟩
  · intro call events hpath
    obtain ⟨horder, inside, hheld, -⟩ := call.orderly.path hpath
    refine ⟨horder, hheld, ?_⟩
    intro x
    simpa [hheld] using horder.count x

/-- Two tasks look up an inode of the same volume: one waits for the other. -/
theorem lock_order_two_lookups : ∃ s : Tasks Sem U32 Bool Call,
    Relation.ReflTransGen (Tasks.Step Call.program fun _ _ _ => True) Tasks.quiet s ∧ s.WaitsFor true false ∧
      ¬ Relation.TransGen s.WaitsFor true true := by
  have hnobody : ∀ (t : Bool) (x : Sem), t ∉ (fun _ : Sem => ([] : List Bool)) x := fun _ _ => List.not_mem_nil
  let call : Call := .fat (.findInode 1 1)
  have hfirst : Tasks.Step Call.program (fun _ _ _ => True) (Tasks.quiet : Tasks Sem U32 Bool Call) _ :=
    .start (t := false) (j := call) ⟨rfl, hnobody false⟩ trivial
  have hrun := (((Relation.ReflTransGen.single hfirst).tail
    (.acquire (t := false) (hnobody false) rfl Nat.one_pos)).tail
      (.start (t := true) (j := call) ⟨rfl, hnobody true⟩ trivial)).tail (.wait (t := true) (hnobody true) rfl rfl)
  refine ⟨_, hrun, ⟨.fatVolume 1, ?_, ?_⟩, ?_⟩
  · exact List.mem_singleton_self _
  · exact List.mem_singleton_self _
  · exact (lock_order Tasks.quiet_initial hrun).2.2 true

end Locks
end FreakOS
