import FreakOS.Driver.BlockCache
import FreakOS.Fs.File
import FreakOS.Lib.Locking

/-!
# What the calls on files do with semaphores

The functions of `ide_entity.c`, `bcache.c`, `fat_io.c`, `fat_inode.c`, `vdev.c`, `vfs_*.c`, `file.c`, `sysfile.c` and
`task.c` that take semaphores, and the ones between them, with all their return paths.

Only the flow of control and what it depends on here is kept: what else a test depends on is any value, so each path
of the source is a path of the model.  `panic` and `do_exit`, which do not return and take no semaphore, are `halt`.
A loop has any number of rounds, which is chosen before the first one.  `fat_base.c` takes no semaphore, it reads and
writes the disk; a call of one of its functions is a region that is named by the volume.  `lock_mm(NULL)` does
nothing.  A block device is given by its number, with `none` for `NULL`.

* `Sem` — the semaphores.
* `fatFileRw`, `fatLseek`, … — the operations of FAT inodes.
* `vfsOpen`, `fileOpen`, `sysfileOpen`, … — the calls on files.
* `doExecve`, `doFork` — of `task.c`.
-/

namespace FreakOS
namespace Locks

open Lib
open Lib.Locking (down up begin done any halt)
open Fs (VFS_INVAL VFS_INVAL_OP VFS_OP_FAILED FILE_INVAL FILE_INVAL_OP FILE_OP_FAILED)
open Memory (E_NOMEM E_INVAL)

/-! ### Semaphores and constants -/

/-- The semaphores, by the structure they are in. -/
inductive Sem
  | mm (mm : U32)
  | files (files : U32)
  | vDevList
  | fatVolume (fatfs : U32)
  | fatInode (inode : U32)
  | blockCache
  | ide (ideno : Nat)
deriving DecidableEq, Repr

/-- A function of the kernel; its regions are the volumes. -/
abbrev Code := Locking Sem U32

/-- `-INODE_PNULL` and the other codes of `inode.h`. -/
def INODE_PNULL : Int := 1
@[inherit_doc INODE_PNULL] def INODE_NOT_FILE : Int := 2
@[inherit_doc INODE_PNULL] def INDOE_NOT_DIR : Int := 3
@[inherit_doc INODE_PNULL] def INODE_EXIST : Int := 5
@[inherit_doc INODE_PNULL] def INODE_NOT_EXIST : Int := 6
@[inherit_doc INODE_PNULL] def INODE_INTERNAL_ERR : Int := 8
@[inherit_doc INODE_PNULL] def INODE_OP_NULL : Int := 10

/-- `FR_EXIST`. -/
def FR_EXIST : Int := 7
/-- `RES_ERROR`. -/
def RES_ERROR : Int := 1
/-- `INODE_TYPE_DIR`. -/
def INODE_TYPE_DIR : U32 := 2#32
/-- `VFS_NOT_EXIST`. -/
def VFS_NOT_EXIST : Int := 3
/-- `VFS_EXIST`. -/
def VFS_EXIST : Int := 4
/-- `VFS_PNULL`. -/
def VFS_PNULL : Int := 6
/-- `VFS_MEM_ERR`. -/
def VFS_MEM_ERR : Int := 7
/-- `FILE_MEM_ERR`. -/
def FILE_MEM_ERR : Int := 7
/-- `VDEV_PNULL`. -/
def VDEV_PNULL : Int := 1
/-- `VDEV_TYPE_ERR`. -/
def VDEV_TYPE_ERR : Int := 2
/-- `VDEV_NOT_EXIST`. -/
def VDEV_NOT_EXIST : Int := 4
/-- `VDEV_INTERNAL_ERR`. -/
def VDEV_INTERNAL_ERR : Int := 4
/-- `EXEC_MAX_ARG_NUM`. -/
def EXEC_MAX_ARG_NUM : Int := 32
/-- `E_NO_FREE_TASK`. -/
def E_NO_FREE_TASK : Int := 15

/-- `kmalloc` may give `NULL`. -/
def kmallocFails : Code Bool := any Bool

/-! ### Memory maps -/

/-- `lock_mm(mm)`. -/
def lockMm (mm : U32) : Code Unit := if mm ≠ NULL then down (.mm mm) else pure ()

/-- `unlock_mm(mm)`. -/
def unlockMm (mm : U32) : Code Unit := if mm ≠ NULL then up (.mm mm) else pure ()

/-! ### Devices and the block cache -/

/-- `ide0_request_lock(req)` and `ide1_request_lock(req)`. -/
def ideRequestLock (ideno : Nat) : Code Int := do
  down (.ide ideno)
  let ret ← any Int
  up (.ide ideno)
  return ret

/-- `disk_io_direct_oneblock(blockdev, buffer, secno, write)`. -/
def diskIoDirectOneblock : Option Nat → Code Int
  | none => halt
  | some blockdev => do
      let ret ← ideRequestLock blockdev
      if ret ≠ 0 then return 1 else return 0

/-- What `bcache_rw` finds: the block, a free slot, or a slot to be emptied, with its device and `modified`. -/
inductive Slot
  | hit
  | free
  | victim (dev : Option Nat) (modified : Bool)

/-- The end of `bcache_rw` after the block has been read. -/
def bcacheRwEnd (ret : Int) : Code Int := do
  up .blockCache
  if ret ≠ 0 then return 1 else return 0

/-- `bcache_rw(blockdev, buffer, secno, write)`. -/
def bcacheRw (blockdev : Option Nat) : Code Int := do
  down .blockCache
  match ← any Slot with
  | .hit =>
      up .blockCache
      return 0
  | .free =>
      let ret ← diskIoDirectOneblock blockdev
      bcacheRwEnd ret
  | .victim dev modified =>
      let ret ← (if modified then diskIoDirectOneblock dev else pure 0)
      if ret ≠ 0 then
        up .blockCache
        return 1
      else
        let ret ← diskIoDirectOneblock blockdev
        bcacheRwEnd ret

/-- The loop of `diskIO_BCache`. -/
def diskIOBCacheLoop (blockdev : Option Nat) : Nat → Code Int
  | 0 => return 0
  | nsecs + 1 => do
      let ret ← bcacheRw blockdev
      if ret ≠ 0 then return 1 else diskIOBCacheLoop blockdev nsecs

/-- `diskIO_BCache(blockdev, in_req)`. -/
def diskIOBCache (blockdev : Option Nat) (nsecs : Nat) : Code Int :=
  if blockdev = none then halt else diskIOBCacheLoop blockdev nsecs

/-- The loop of `sync_all_bcache`: a slot that is occupied and modified is written to its device. -/
def syncLoop : Nat → Code Int
  | 0 => do
      up .blockCache
      return 0
  | slots + 1 => do
      match ← any (Option (Option Nat)) with
      | none => syncLoop slots
      | some dev =>
          let ret ← diskIoDirectOneblock dev
          if ret ≠ 0 then
            up .blockCache
            return 1
          else syncLoop slots

/-- `sync_all_bcache()`. -/
def syncAllBcache : Code Int := do
  down .blockCache
  syncLoop Driver.N_BCACHE

/-- `_disk_read(blockdev, buffer, secno, nsecs)` and `_disk_write`. -/
def diskReadWrite (blockdev : Option Nat) : Nat → Code Int
  | 0 => return 0
  | nsecs + 1 => do
      let ret ← diskIOBCache blockdev 1
      if ret ≠ 0 then return RES_ERROR else diskReadWrite blockdev nsecs

/-! ### FAT inodes -/

/-- Any number of accesses to the disk. -/
def diskAccesses : Nat → Code Unit
  | 0 => return ()
  | n + 1 => do
      let blockdev ← any (Option Nat)
      let nsecs ← any Nat
      let _ ← diskReadWrite blockdev nsecs
      diskAccesses n

/-- What a function of `fat_base.c` does. -/
def fatbaseBody : Code Int := do
  let n ← any Nat
  diskAccesses n
  any Int

/-- A call of a function of `fat_base.c` on the volume of `fatfs`. -/
def fatbase (fatfs : U32) : Code Int := do
  begin fatfs
  let ret ← fatbaseBody
  done fatfs
  return ret

/-- The inode of a FAT file or directory, by its address; `fatfs` is its volume. -/
structure FatNode where
  addr : U32
  isFile : Bool
  fatfs : U32
deriving DecidableEq, Repr

/-- `fat_file_rw(inode, buf, len, copied, write)`. -/
def fatFileRw (inode : FatNode) (buf : U32) : Code Int :=
  if inode.addr = NULL ∨ buf = NULL then return -INODE_PNULL
  else if !inode.isFile then return -INODE_NOT_FILE
  else do
    down (.fatInode inode.addr)
    let ret ← fatbase inode.fatfs
    up (.fatInode inode.addr)
    return ret

/-- `fat_read(inode, buf, len, copied)`. -/
def fatRead (inode : FatNode) (buf : U32) : Code Int := fatFileRw inode buf

/-- `fat_write(inode, buf, len, copied)`. -/
def fatWrite (inode : FatNode) (buf : U32) : Code Int := fatFileRw inode buf

/-- `fat_lseek(inode, off)`. -/
def fatLseek (inode : FatNode) : Code Int :=
  if inode.addr = NULL then return -INODE_PNULL
  else if !inode.isFile then return -INODE_NOT_FILE
  else do
    down (.fatInode inode.addr)
    let ret ← fatbase inode.fatfs
    up (.fatInode inode.addr)
    return ret

/-- `fat_truncate(inode, len)`; the last call is the seek back. -/
def fatTruncate (inode : FatNode) : Code Int :=
  if inode.addr = NULL then return -INODE_PNULL
  else if !inode.isFile then return -INODE_NOT_FILE
  else do
    down (.fatInode inode.addr)
    let _ ← fatbase inode.fatfs
    let longer ← any Bool
    let _ ← (if longer then fatbase inode.fatfs else do
      let _ ← fatbase inode.fatfs
      fatbase inode.fatfs)
    let _ ← fatbase inode.fatfs
    up (.fatInode inode.addr)
    return 0

/-- `fat_sync(inode)`. -/
def fatSync (inode : FatNode) : Code Int :=
  if inode.addr = NULL then return -INODE_PNULL
  else if !inode.isFile then return -INODE_NOT_FILE
  else do
    down (.fatInode inode.addr)
    let ret ← fatbase inode.fatfs
    let _ ← syncAllBcache
    up (.fatInode inode.addr)
    return ret

/-- `fat_find_inode` after the inode has been looked up in memory: it is opened as a file or as a directory. -/
def fatFindOnDisk (fatfs : U32) : Code (Option FatNode) := do
  if ← kmallocFails then
    up (.fatVolume fatfs)
    return none
  else
    let addr ← any U32
    let openRet ← fatbase fatfs
    if openRet = 0 then
      up (.fatVolume fatfs)
      return some ⟨addr, true, fatfs⟩
    else
      let openRet ← fatbase fatfs
      up (.fatVolume fatfs)
      if openRet = 0 then return some ⟨addr, false, fatfs⟩ else return none

/-- `fat_find_inode(fatfs, path)`. -/
def fatFindInode (fatfs path : U32) : Code (Option FatNode) := do
  down (.fatVolume fatfs)
  if fatfs = NULL ∨ path = NULL then
    up (.fatVolume fatfs)
    return none
  else if ← kmallocFails then
    up (.fatVolume fatfs)
    return none
  else
    -- An inode of the volume that is in memory.
    match ← any (Option (U32 × Bool)) with
    | some (addr, isFile) =>
        up (.fatVolume fatfs)
        return some ⟨addr, isFile, fatfs⟩
    | none => fatFindOnDisk fatfs

/-- `fat_lookup(inode, relative_path, inode_out)`. -/
def fatLookup (inode : FatNode) (relativePath : U32) : Code (Int × Option FatNode) :=
  if inode.addr = NULL ∨ relativePath = NULL then return (-INODE_PNULL, none)
  else if inode.isFile then return (-INDOE_NOT_DIR, none)
  else do
    let newInPath ← any U32
    if newInPath = NULL then return (-INODE_INTERNAL_ERR, none)
    else
      match ← fatFindInode inode.fatfs newInPath with
      | none => return (-INODE_NOT_EXIST, none)
      | some out => return (0, some out)

/-- `fat_create(inode, name, mode)`, where `isExist` is that of `mode`. -/
def fatCreate (inode : FatNode) (name : U32) (isExist : Bool) : Code Int :=
  if inode.addr = NULL ∨ name = NULL then return -INODE_PNULL
  else if inode.isFile then return -INDOE_NOT_DIR
  else do
    if ← kmallocFails then return -INODE_INTERNAL_ERR
    else if ← kmallocFails then return -INODE_INTERNAL_ERR
    else
      let ret ← fatbase inode.fatfs
      if ret = 0 then
        let _ ← fatbase inode.fatfs
        return 0
      else if isExist then return 0
      else return if ret = FR_EXIST then -INODE_EXIST else ret

/-- `fat_readdir(inode, inode_out)`, where `rewind` is `inode_out == NULL`. -/
def fatReaddir (inode : FatNode) (rewind : Bool) : Code Int :=
  if inode.addr = NULL then return -INODE_PNULL
  else if inode.isFile then return -INDOE_NOT_DIR
  else do
    let ret ← fatbase inode.fatfs
    if ret ≠ 0 then return -INODE_INTERNAL_ERR
    else if rewind then return ret
    else if ← any Bool then return 0
    else
      let name ← any U32
      let (ret, _) ← fatLookup inode name
      return if ret ≠ 0 then 1 else 0

/-- `fat_mkdir(inode, dir_name)`. -/
def fatMkdir (inode : FatNode) (dirName : U32) : Code Int :=
  if inode.addr = NULL ∨ dirName = NULL then return -INODE_PNULL
  else if inode.isFile then return -INDOE_NOT_DIR
  else do
    if ← kmallocFails then return -INODE_INTERNAL_ERR
    else
      let ret ← fatbase inode.fatfs
      return if ret = 0 then 0 else if ret = FR_EXIST then -INODE_EXIST else -INODE_INTERNAL_ERR

/-- `fat_stat(inode, stat)`. -/
def fatStat (inode : FatNode) (stat : U32) : Code Int :=
  if inode.addr = NULL ∨ stat = NULL then return -INODE_PNULL
  else do
    let ret ← fatbase inode.fatfs
    return if ret ≠ 0 then -INODE_INTERNAL_ERR else 0

/-- `fat_release(inode)`. -/
def fatRelease (inode : FatNode) : Code Int :=
  if inode.addr = NULL then return -INODE_PNULL
  else do
    if inode.isFile then
      let _ ← fatbase inode.fatfs
      return 0
    else return 0

/-- `fat_get_type(inode, type_out)`: the code and the type. -/
def fatGetType (inode : FatNode) (typeOut : U32) : Code (Int × U32) :=
  if inode.addr = NULL ∨ typeOut = NULL then return (-INODE_PNULL, 0)
  else return (0, if inode.isFile then 1 else INODE_TYPE_DIR)

/-! ### The operations of inodes -/

/-- The inodes of devices. -/
inductive DevKind
  | stdin
  | stdout
  | blk
deriving DecidableEq, Repr

/-- `INode_t`. -/
inductive Node
  | fat (inode : FatNode)
  | dev (kind : DevKind)
deriving DecidableEq, Repr

namespace Node

/-- `iop_lookup`. -/
def lookup : Node → Option (U32 → Code (Int × Option FatNode))
  | .fat inode => some (fatLookup inode)
  | .dev _ => none

/-- `iop_open`, which gives `0` in each table. -/
def iopen : Node → Option (Code Int)
  | _ => some (return 0)

/-- `iop_read`; `stdin_read` waits for the keyboard only. -/
def read : Node → Option (U32 → Code Int)
  | .fat inode => if inode.isFile then some (fatRead inode) else none
  | .dev .stdin => some fun _ => any Int
  | .dev _ => none

/-- `iop_write`. -/
def write : Node → Option (U32 → Code Int)
  | .fat inode => if inode.isFile then some (fatWrite inode) else none
  | .dev .stdout => some fun _ => any Int
  | .dev _ => none

/-- `iop_lseek`. -/
def lseek : Node → Option (Code Int)
  | .fat inode => if inode.isFile then some (fatLseek inode) else none
  | .dev _ => none

/-- `iop_truncate`. -/
def truncate : Node → Option (Code Int)
  | .fat inode => if inode.isFile then some (fatTruncate inode) else none
  | .dev _ => none

/-- `iop_create`. -/
def create : Node → Option (U32 → Bool → Code Int)
  | .fat inode => if inode.isFile then none else some (fatCreate inode)
  | .dev _ => none

/-- `iop_stat`. -/
def stat : Node → Option (U32 → Code Int)
  | .fat inode => some (fatStat inode)
  | .dev _ => none

/-- `iop_sync`. -/
def sync : Node → Option (Code Int)
  | .fat inode => if inode.isFile then some (fatSync inode) else none
  | .dev _ => none

/-- `iop_get_type`. -/
def getType : Node → Option (U32 → Code (Int × U32))
  | .fat inode => some (fatGetType inode)
  | .dev _ => none

end Node

/-! ### `vdev.c` -/

/-- `vdev_add(vdev_name, dev_inode, fs, mountable)`, where `isDev` says that the inode is of `Dev_Type`. -/
def vdevAdd (vdevName devInode fs : U32) (isDev mountable : Bool) : Code Int :=
  if vdevName = NULL then return VDEV_PNULL
  else if ¬ (devInode = NULL ∧ fs ≠ NULL ∧ !mountable ∨ devInode ≠ NULL ∧ isDev) then return VDEV_TYPE_ERR
  else do
    if ← kmallocFails then return VDEV_INTERNAL_ERR
    else
      down .vDevList
      let exists_ ← any Bool
      if exists_ then
        up .vDevList
        -- The function ends without `return`.
        any Int
      else if ← kmallocFails then
        up .vDevList
        any Int
      else
        up .vDevList
        return 0

/-- An entry of `vDevList` with the name that is looked for. -/
inductive VDev
  | fs (fatfs path : U32)
  | inode (kind : DevKind)

/-- `vdev_get_root_inode(name)`; the root of a volume comes from `get_fatfs_root_inode`. -/
def vdevGetRootInode : Code (Option Node) := do
  match ← any (Option VDev) with
  | none => return none
  | some (.inode kind) => return some (.dev kind)
  | some (.fs fatfs path) =>
      let inode ← fatFindInode fatfs path
      return inode.map .fat

/-! ### `vfs_*.c` -/

/-- `vfs_get_cur_inode(inode_out)`. -/
def vfsGetCurInode : Code (Int × Option Node) := do
  let pwd ← any (Option Node)
  return (if pwd.isSome then 0 else 1, pwd)

/-- The part of `vfs_set_cur_inode` under the semaphore. -/
def setPwd : Option Node → Code Int
  | none => return 0
  | some inode =>
      match inode.getType with
      | none => return -INODE_OP_NULL
      | some getType => do
          let typeOut ← any U32
          let (ret, type) ← getType typeOut
          if ret ≠ 0 then return ret
          else if type ≠ INODE_TYPE_DIR then return -INDOE_NOT_DIR
          else return 0

/-- `vfs_set_cur_inode(inode)`. -/
def vfsSetCurInode (files : U32) (inode : Option Node) : Code Int := do
  down (.files files)
  let same ← any Bool
  let ret ← (if same then pure 0 else setPwd inode)
  up (.files files)
  return ret

/-- `vdev_parse_path(path, subpath, vdev_inode_out)`. -/
def vdevParsePath : Code (Int × Option Node) := do
  let absolute ← any Bool
  if absolute then
    let inode ← vdevGetRootInode
    return (if inode.isSome then 0 else VDEV_NOT_EXIST, inode)
  else vfsGetCurInode

/-- `vfs_lookup(path, inode_out)`. -/
def vfsLookup : Code (Int × Option Node) := do
  let (ret, vdevInode) ← vdevParsePath
  match vdevInode with
  | none => return (ret, none)
  | some vdevInode =>
      let empty ← any Bool
      if empty then return (0, some vdevInode)
      else
        match vdevInode.lookup with
        | none => return (-INODE_OP_NULL, none)
        | some lookup =>
            let path ← any U32
            let (ret, inode) ← lookup path
            return (ret, inode.map .fat)

/-- `vfs_lookup_parent(path, vdev_inode_out, endp)`. -/
def vfsLookupParent : Code (Int × Option Node) := vdevParsePath

/-- `vfs_open` from the test of `inode` on; `cut` is `open_flag & OPEN_TRUNC || create`. -/
def vfsOpenFound (cut : Bool) : Option Node → Code (Int × Option Node)
  | none => return (VFS_PNULL, none)
  | some inode =>
      match inode.iopen with
      | none => return (VFS_INVAL_OP, none)
      | some iopen => do
          let ret ← iopen
          if ret ≠ 0 then return (ret, none)
          else if cut then
            match inode.truncate with
            | none => return (VFS_INVAL_OP, none)
            | some truncate =>
                let ret ← truncate
                if ret ≠ 0 then return (VFS_OP_FAILED, none) else return (0, some inode)
          else return (0, some inode)

/-- The part of `vfs_open` that creates the file. -/
def vfsOpenCreate (cut : Bool) : Code (Int × Option Node) := do
  let (ret, dir) ← vfsLookupParent
  if ret ≠ 0 then return (VFS_INVAL, none)
  else
    match dir.bind Node.create with
    | none => return (VFS_INVAL_OP, none)
    | some create =>
        let name ← any U32
        let ret ← create name true
        if ret ≠ 0 then return (VFS_OP_FAILED, none)
        else
          let (_, inode) ← vfsLookup
          vfsOpenFound cut inode

/-- `vfs_open(path, open_flag, inode_out)`. -/
def vfsOpen (openFlag : U32) : Code (Int × Option Node) := do
  if ← kmallocFails then return (VFS_MEM_ERR, none)
  else
    let exist := openFlag &&& Fs.OPEN_EXIST ≠ 0
    let create := openFlag &&& Fs.OPEN_CREATE ≠ 0
    let cut := decide (openFlag &&& Fs.OPEN_TRUNC ≠ 0 ∨ create)
    let (ret, inode) ← vfsLookup
    if ret ≠ 0 then
      if create then vfsOpenCreate cut else return (VFS_NOT_EXIST, none)
    else if exist ∧ create then return (VFS_EXIST, none)
    else vfsOpenFound cut inode

/-- `vfs_close(inode)`. -/
def vfsClose (inode : Node) : Code Int :=
  match inode.sync with
  | none => return VFS_INVAL_OP
  | some sync => do
      let ret ← sync
      if ret ≠ 0 then return VFS_OP_FAILED else return 0

/-! ### `file.c` -/

/-- `file_open(path, open_flag)`. -/
def fileOpen (files openFlag : U32) : Code Int := do
  if ← kmallocFails then return -FILE_MEM_ERR
  else
    let (ret, _) ← vfsOpen openFlag
    if ret ≠ 0 then return -FILE_OP_FAILED
    else
      down (.files files)
      up (.files files)
      any Int

/-- `find_file_with_fd(fd)`: the inode of the file. -/
def findFileWithFd : Code (Option Node) := any (Option Node)

/-- `file_close(fd)`. -/
def fileClose : Code Int := do
  match ← findFileWithFd with
  | none => return -FILE_INVAL
  | some inode =>
      let _ ← vfsClose inode
      return 0

/-- `file_read(fd, buf, blen, copied)` and `file_write`, with the operation of the inode. -/
def fileRw (op : Node → Option (U32 → Code Int)) : Code Int := do
  match ← findFileWithFd with
  | none => return -FILE_INVAL
  | some inode =>
      let allowed ← any Bool
      if !allowed then return -FILE_INVAL
      else
        match op inode with
        | none => return -FILE_INVAL_OP
        | some op =>
            let buf ← any U32
            let ret ← op buf
            if ret ≠ 0 then return -FILE_OP_FAILED else return 0

/-- `file_read(fd, buf, blen, copied)`. -/
def fileRead : Code Int := fileRw Node.read

/-- `file_write(fd, buf, blen, copied)`. -/
def fileWrite : Code Int := fileRw Node.write

/-- The end of `file_seek`. -/
def fileSeekTo (inode : Node) : Code Int :=
  match inode.lseek with
  | none => return -FILE_INVAL_OP
  | some lseek => do
      let ret ← lseek
      if ret ≠ 0 then return -FILE_OP_FAILED else return 0

/-- `file_seek(fd, pos, flag)`. -/
def fileSeek (flag : U32) : Code Int := do
  match ← findFileWithFd with
  | none => return -FILE_INVAL
  | some inode =>
      if flag = Fs.LSEEK_SET ∨ flag = Fs.LSEEK_CUR then fileSeekTo inode
      else if flag = Fs.LSEEK_END then
        match inode.stat with
        | none => return -FILE_INVAL_OP
        | some stat =>
            let ret ← any U32 >>= stat
            if ret ≠ 0 then return -FILE_OP_FAILED else fileSeekTo inode
      else return -FILE_INVAL

/-- `file_fstat(fd, stat)`. -/
def fileFstat : Code Int := do
  match ← findFileWithFd with
  | none => return -FILE_INVAL
  | some inode =>
      match inode.stat with
      | none => return -FILE_INVAL_OP
      | some stat => any U32 >>= stat

/-- `file_fsync(fd)`. -/
def fileFsync : Code Int := do
  match ← findFileWithFd with
  | none => return -FILE_INVAL
  | some inode =>
      match inode.sync with
      | none => return -FILE_INVAL_OP
      | some sync =>
          let ret ← sync
          if ret ≠ 0 then return -FILE_OP_FAILED else return 0

/-- The loop of `files_closeall`, over the inodes of the table. -/
def closeallLoop : List Node → Code Unit
  | [] => return ()
  | inode :: rest => do
      let _ ← (inode.sync).getD (return 0)
      closeallLoop rest

/-- `files_closeall(files)`. -/
def filesCloseall (files : U32) : Code Unit :=
  if files = NULL then halt else any (List Node) >>= closeallLoop

/-- `files_dup(to, from)`. -/
def filesDup (toFiles fromFiles : U32) : Code Int :=
  if toFiles = NULL ∨ fromFiles = NULL then halt
  else do
    if ← any Bool then halt
    else
      down (.files fromFiles)
      up (.files fromFiles)
      return 0

/-! ### `sysfile.c` -/

/-- `copy_path(to, from)`; `mm` is that of the task. -/
def copyPath (mm : U32) : Code Int := do
  if ← kmallocFails then return -E_NOMEM
  else
    lockMm mm
    let copied ← any Bool
    unlockMm mm
    if copied then return 0 else return -E_INVAL

/-- `sysfile_open(path, open_flags)`; `files` is the table of the task. -/
def sysfileOpen (mm files openFlags : U32) : Code Int := do
  let ret ← copyPath mm
  if ret ≠ 0 then return ret else fileOpen files openFlags

/-- `sysfile_close(fd)`. -/
def sysfileClose : Code Int := fileClose

/-- The loop of `sysfile_read`.  When the rounds are used up the path is cut off. -/
def sysfileReadLoop (mm : U32) : Nat → Code Int
  | 0 => halt
  | rounds + 1 => do
      let ret ← fileRead
      let alen ← any Nat
      -- `copyToUser`.
      (if alen ≠ 0 then do
        lockMm mm
        unlockMm mm
      else pure ())
      if ret ≠ 0 ∨ alen = 0 then return ret
      else
        let more ← any Bool
        if more then sysfileReadLoop mm rounds else return ret

/-- `sysfile_read(fd, base, len)`. -/
def sysfileRead (mm : U32) (len : Nat) : Code Int := do
  if len = 0 then return 0
  else
    let readable ← any Bool
    if !readable then return -E_INVAL
    else if ← kmallocFails then return -E_NOMEM
    else
      let rounds ← any Nat
      let _ ← sysfileReadLoop mm rounds
      any Int

/-- The loop of `sysfile_write`.  When the rounds are used up the path is cut off. -/
def sysfileWriteLoop (mm : U32) : Nat → Code Int
  | 0 => halt
  | rounds + 1 => do
      lockMm mm
      let copied ← any Bool
      unlockMm mm
      let ret ← (if copied then fileWrite else pure (-E_INVAL))
      let alen ← any Nat
      if ret ≠ 0 ∨ alen = 0 then return ret
      else
        let more ← any Bool
        if more then sysfileWriteLoop mm rounds else return ret

/-- `sysfile_write(fd, base, len)`. -/
def sysfileWrite (mm : U32) (len : Nat) : Code Int := do
  if len = 0 then return 0
  else
    let writable ← any Bool
    if !writable then return -E_INVAL
    else if ← kmallocFails then return -E_NOMEM
    else
      let rounds ← any Nat
      let _ ← sysfileWriteLoop mm rounds
      any Int

/-- `sysfile_seek(fd, pos, flag)`. -/
def sysfileSeek (flag : U32) : Code Int := fileSeek flag

/-- `sysfile_fstat(fd, stat)`. -/
def sysfileFstat (mm : U32) : Code Int := do
  let ret ← fileFstat
  if ret ≠ 0 then return ret
  else
    lockMm mm
    let copied ← any Bool
    unlockMm mm
    if copied then return ret else return -E_INVAL

/-- `sysfile_fsync(fd)`. -/
def sysfileFsync : Code Int := fileFsync

/-! ### `task.c` -/

/-- `load_icode_read(fd, buf, len, offset)`, by a task without memory map. -/
def loadIcodeRead (len : Nat) : Code Int := do
  let ret ← sysfileSeek Fs.LSEEK_SET
  if ret ≠ 0 then return ret
  else
    let ret ← sysfileRead NULL len
    if ret ≠ len then return if ret < 0 then ret else -1 else return 0

/-- Any number of reads of `load_icode`, up to the first that fails. -/
def loadReads : Nat → Code Int
  | 0 => return 0
  | n + 1 => do
      let len ← any Nat
      let ret ← loadIcodeRead len
      if ret ≠ 0 then return ret else loadReads n

/-- `load_icode(fd, argc, kargv)`: between and after its reads it may stop with an error. -/
def loadIcode : Code Int := do
  let n ← any Nat
  let ret ← loadReads n
  if ret ≠ 0 then return ret else any Int

/-- `do_execve(name, argc, argv)`; after the label `execve_do_exit` the task exits. -/
def doExecve (mm files : U32) (argc : Int) (name : U32) : Code Int := do
  if ¬ (1 ≤ argc ∧ argc ≤ EXEC_MAX_ARG_NUM) then return -E_INVAL
  else
    lockMm mm
    let legal ← (if name = NULL then pure true else any Bool)
    if !legal then
      unlockMm mm
      return -E_INVAL
    else
      -- `copy_kargv` copies from the memory of the user.
      let ret ← any Int
      if ret ≠ 0 then
        unlockMm mm
        return ret
      else
        unlockMm mm
        filesCloseall files
        let fd ← sysfileOpen mm files Fs.OPEN_READ
        if fd < 0 then halt
        else
          let ret ← loadIcode
          if ret ≠ 0 then halt else return 0

/-- `copy_mm(clone_flags, task)`; `oldMm` is that of the running task. -/
def copyMm (oldMm : U32) (cloneVm : Bool) : Code Int :=
  if oldMm = NULL then return 0
  else if cloneVm then return 0
  else do
    if ← kmallocFails then return -E_NOMEM
    else if ← any Bool then return -E_NOMEM
    else
      lockMm oldMm
      let ret ← any Int
      unlockMm oldMm
      return ret

/-- `copy_files(clone_flags, task)`; `oldFiles` is that of the running task. -/
def copyFiles (oldFiles : U32) (cloneFiles : Bool) : Code Int :=
  if oldFiles = NULL then return 0
  else if cloneFiles then return 0
  else do
    let files ← any U32
    if files = NULL then return -1
    else filesDup files oldFiles

/-- `do_fork(clone_flags, stack, _if)`. -/
def doFork (mm files : U32) (cloneVm cloneFiles : Bool) : Code Int := do
  let full ← any Bool
  if full then return -E_NO_FREE_TASK
  else if ← kmallocFails then return -E_NOMEM
  else if ← kmallocFails then return -E_NOMEM
  else
    let ret ← copyFiles files cloneFiles
    if ret ≠ 0 then return -E_NOMEM
    else
      let ret ← copyMm mm cloneVm
      if ret ≠ 0 then return -E_NOMEM else any Int

end Locks
end FreakOS
