import FreakOS.Krnl.Process
import FreakOS.Memory.PageFault

/-!
# Open files

`file.c`: the descriptor table of a task and the calls on descriptors.  `file_alloc_init`, `file_dup`, `files_create`
and `files_dup` are with `do_fork` in `Krnl.Process`.

The functions take the address of the table that `get_cur_files` gives.  An inode is an address.  Its operations are
given by an `INodeOps`, with `none` for an operation that is `NULL`, over a state `σ` of the file systems.  `vfs_open`
is a parameter of `fileOpen`.  The semaphore of a table, and `open_count`, which each call puts back, have no part in
what is modelled.

* `findFileWithFd` — the lookup of a descriptor.
* `fileOpen`, `fileClose`, `filesCloseall` — the table.
* `fileRead`, `fileWrite`, `fileSeek`, `fileFstat`, `fileFsync` — the calls on a descriptor.
-/

namespace FreakOS
namespace Fs

open Memory
open Krnl

/-! ### Constants -/

/-- `OPEN_MASK`. -/
def OPEN_MASK : U32 := 0xFF#32
/-- `OPEN_READ`. -/
def OPEN_READ : U32 := 0#32
/-- `OPEN_WRITE`. -/
def OPEN_WRITE : U32 := 1#32
/-- `OPEN_RW`. -/
def OPEN_RW : U32 := 2#32
/-- `OPEN_CREATE`. -/
def OPEN_CREATE : U32 := 4#32
/-- `OPEN_EXIST`. -/
def OPEN_EXIST : U32 := 8#32
/-- `OPEN_TRUNC`. -/
def OPEN_TRUNC : U32 := 0x10#32

/-- `LSEEK_SET`. -/
def LSEEK_SET : U32 := 0#32
/-- `LSEEK_CUR`. -/
def LSEEK_CUR : U32 := 1#32
/-- `LSEEK_END`. -/
def LSEEK_END : U32 := 2#32

/-- `FILE_INVAL`. -/
def FILE_INVAL : Int := 1
/-- `FILE_INVAL_OP`. -/
def FILE_INVAL_OP : Int := 2
/-- `FILE_OP_FAILED`. -/
def FILE_OP_FAILED : Int := 5
/-- `VFS_INVAL`. -/
def VFS_INVAL : Int := 1
/-- `VFS_INVAL_OP`. -/
def VFS_INVAL_OP : Int := 2
/-- `VFS_OP_FAILED`. -/
def VFS_OP_FAILED : Int := 5

/-- The greatest `int32_t`. -/
def INT32_MAX : Int := 0x7FFFFFFF

/-- `int32_t` addition. -/
def addInt32 (x y : Int) : Int := (BitVec.ofInt 32 (x + y)).toInt

/-! ### Inodes -/

/-- The operations of inodes, by the address of the inode. -/
structure INodeOps (σ : Type) where
  /-- `iop_read(inode, buf, blen, &copied)`: the code and the bytes. -/
  read : U32 → Option (U32 → σ → (Int × List U8) × σ)
  /-- `iop_write(inode, buf, blen, &copied)`: the code and the number of bytes. -/
  write : U32 → Option (List U8 → σ → (Int × U32) × σ)
  /-- `iop_lseek(inode, off)`. -/
  lseek : U32 → Option (U32 → σ → Int × σ)
  /-- `iop_stat(inode, &stat)`: the code and `stat.size`. -/
  stat : U32 → Option (σ → (Int × U32) × σ)
  /-- `iop_sync(inode)`. -/
  sync : U32 → Option (σ → Int × σ)

/-- The kernel and the file systems. -/
structure FsKernel (σ : Type) where
  kernel : Kernel
  disk : σ

namespace FsKernel

variable {σ : Type}

/-- Change the kernel. -/
def setKernel (x : FsKernel σ) (k : Kernel) : FsKernel σ := { x with kernel := k }

/-- Change the file systems. -/
def setDisk (x : FsKernel σ) (d : σ) : FsKernel σ := { x with disk := d }

/-- Change the counters of an inode. -/
def setCount (x : FsKernel σ) (inode : U32) (count : INodeCount) : FsKernel σ :=
  x.setKernel { x.kernel with inodes := Function.update x.kernel.inodes inode count }

end FsKernel

/-- `vfs_close(inode)`. -/
def vfsClose {σ : Type} (ops : INodeOps σ) (x : FsKernel σ) (inode : U32) : Int × FsKernel σ :=
  if inode = NULL then (VFS_INVAL, x)
  else
    match ops.sync inode with
    | none => (VFS_INVAL_OP, x)
    | some sync =>
        let (ret, disk) := sync x.disk
        let count := x.kernel.inodes inode
        let x := (x.setDisk disk).setCount inode { count with ref := count.ref - 1, opened := count.opened - 1 }
        (if ret ≠ 0 then VFS_OP_FAILED else 0, x)

/-! ### Tables -/

/-- `find_file_with_fd(fd)` on the table of the task. -/
def findFileWithFd (fs : FileStruct) (fd : Int) : Option File := fs.fileList.find? fun f => decide (fd = f.fd)

/-- Write the fields of the entry at an address. -/
def updateEntry (list : List File) (node : U32) (g : File → File) : List File :=
  list.map fun f => if f.node = node then g f else f

/-- `readable` as `file_open` computes it. -/
def openReadable (openFlag : U32) : Bool :=
  decide (openFlag &&& OPEN_MASK = OPEN_READ ∨ openFlag &&& OPEN_MASK = OPEN_RW)

/-- `writeable` as `file_open` computes it. -/
def openWritable (openFlag : U32) : Bool :=
  decide (openFlag &&& OPEN_MASK = OPEN_WRITE ∨ openFlag &&& OPEN_MASK = OPEN_RW)

/-- The fields that `file_open` sets. -/
def setOpened (inode openFlag : U32) (f : File) : File :=
  { f with
    status := .opened
    inode := inode
    pos := 0
    readable := openReadable openFlag
    writable := openWritable openFlag }

/-- `file_open(path, open_flag)`, where `vfsOpen` is `vfs_open(path, open_flag, &inode)`. -/
def fileOpen {σ : Type} (x : FsKernel σ) (files openFlag : U32)
    (vfsOpen : FsKernel σ → Res ((Int × U32) × FsKernel σ)) : Res (Int × FsKernel σ) := do
  let (newFile, k) ← fileAllocInit x.kernel
  match newFile with
  | none => return (-7, x.setKernel k)
  | some newFile =>
      let ((ret, inode), x) ← vfsOpen (x.setKernel k)
      if ret ≠ 0 then
        let k ← x.kernel.release newFile.node sizeofFile
        return (-FILE_OP_FAILED, x.setKernel k)
      else
        let fs ← x.kernel.fileStruct files
        match fs.fileList.find? fun f => decide (f.inode = inode) with
        | some found =>
            let k ← x.kernel.release newFile.node sizeofFile
            let list := updateEntry fs.fileList found.node (setOpened inode openFlag)
            return (found.fd, x.setKernel (k.setFileStruct files { fs with fileList := list }))
        | none =>
            if fs.fileNextId = INT32_MAX then .error .overflow
            else
              let file := { setOpened inode openFlag newFile with
                openCount := newFile.openCount + 1, fd := fs.fileNextId }
              let fs := { fs with fileList := listAdd file fs.fileList, fileNextId := fs.fileNextId + 1 }
              return (file.fd, x.setKernel (x.kernel.setFileStruct files fs))

/-- `file_close(fd)`. -/
def fileClose {σ : Type} (ops : INodeOps σ) (x : FsKernel σ) (files : U32) (fd : Int) : Res (Int × FsKernel σ) := do
  let fs ← x.kernel.fileStruct files
  match findFileWithFd fs fd with
  | none => return (-FILE_INVAL, x)
  | some file =>
      let (_, x) := vfsClose ops x file.inode
      let list := fs.fileList.filter fun f => decide (f.node ≠ file.node)
      let k := x.kernel.setFileStruct files { fs with fileList := list }
      let k ← k.release file.node sizeofFile
      return (0, x.setKernel k)

/-- The address that `lp2vma` computes from the list node of a `File_t`: the node is at byte 28 of a `File_t` and at
byte 16 of a `VirtMemArea_t`. -/
def lp2vmaOfFile (file : File) : U32 := file.node + 28 - 16

/-- `if (file->inode->ops->iop_sync != NULL) file->inode->ops->iop_sync(file->inode)`. -/
def syncINode {σ : Type} (ops : INodeOps σ) (x : FsKernel σ) (inode : U32) : FsKernel σ :=
  match ops.sync inode with
  | none => x
  | some sync => x.setDisk (sync x.disk).2

/-- The loop of `files_closeall`. -/
def closeallLoop {σ : Type} (ops : INodeOps σ) : List File → FsKernel σ → Res (FsKernel σ)
  | [], x => .ok x
  | file :: rest, x => do
      let x := syncINode ops x file.inode
      let k ← x.kernel.release (lp2vmaOfFile file) sizeofVirtMemArea
      closeallLoop ops rest (x.setKernel k)

/-- `files_closeall(files)`. -/
def filesCloseall {σ : Type} (ops : INodeOps σ) (x : FsKernel σ) (files : U32) : Res (FsKernel σ) := do
  panicIf (files = NULL) "files dup error"
  let fs ← x.kernel.fileStruct files
  let x ← closeallLoop ops fs.fileList x
  return x.setKernel (x.kernel.setFileStruct files { fs with fileList := [] })

/-! ### Calls on a descriptor -/

/-- Write the fields of the entry of a table. -/
def FsKernel.modifyFile {σ : Type} (x : FsKernel σ) (files node : U32) (g : File → File) : Res (FsKernel σ) := do
  let fs ← x.kernel.fileStruct files
  return x.setKernel (x.kernel.setFileStruct files { fs with fileList := updateEntry fs.fileList node g })

/-- How `file_read` and `file_write` move the position: by the length that was asked for. -/
def advancePos (blen : U32) (f : File) : File :=
  if f.status = .opened then { f with pos := addInt32 f.pos blen.toNat } else f

/-- `file_read(fd, buf, blen, &copied)`: the code and the bytes. -/
def fileRead {σ : Type} (ops : INodeOps σ) (x : FsKernel σ) (files : U32) (fd : Int) (blen : U32) :
    Res ((Int × List U8) × FsKernel σ) := do
  let fs ← x.kernel.fileStruct files
  match findFileWithFd fs fd with
  | none => return ((-FILE_INVAL, []), x)
  | some file =>
      if !file.readable then return ((-FILE_INVAL, []), x)
      else
        match ops.read file.inode with
        | none => return ((-FILE_INVAL_OP, []), x)
        | some read =>
            let ((ret, bytes), disk) := read blen x.disk
            if ret ≠ 0 then return ((-FILE_OP_FAILED, []), x.setDisk disk)
            else
              let x ← (x.setDisk disk).modifyFile files file.node (advancePos blen)
              return ((0, bytes), x)

/-- `file_write(fd, buf, blen, &copied)`: the code and the number of bytes. -/
def fileWrite {σ : Type} (ops : INodeOps σ) (x : FsKernel σ) (files : U32) (fd : Int) (buf : List U8) :
    Res ((Int × U32) × FsKernel σ) := do
  let fs ← x.kernel.fileStruct files
  match findFileWithFd fs fd with
  | none => return ((-FILE_INVAL, 0), x)
  | some file =>
      if !file.writable then return ((-FILE_INVAL, 0), x)
      else
        match ops.write file.inode with
        | none => return ((-FILE_INVAL_OP, 0), x)
        | some write =>
            let ((ret, copied), disk) := write buf x.disk
            if ret ≠ 0 then return ((-FILE_OP_FAILED, 0), x.setDisk disk)
            else
              let x ← (x.setDisk disk).modifyFile files file.node (advancePos (BitVec.ofNat 32 buf.length))
              return ((0, copied), x)

/-- The `switch` of `file_seek`: an error, or the new position. -/
def seekTarget {σ : Type} (ops : INodeOps σ) (d : σ) (file : File) (pos : Int) (flag : U32) : Except Int Int × σ :=
  if flag = LSEEK_SET then (.ok pos, d)
  else if flag = LSEEK_CUR then (.ok (addInt32 pos file.pos), d)
  else if flag = LSEEK_END then
    match ops.stat file.inode with
    | none => (.error (-FILE_INVAL_OP), d)
    | some stat =>
        let ((ret, size), d) := stat d
        if ret ≠ 0 then (.error (-FILE_OP_FAILED), d) else (.ok (addInt32 pos size.toNat), d)
  else (.error (-FILE_INVAL), d)

/-- `file_seek(fd, pos, flag)`. -/
def fileSeek {σ : Type} (ops : INodeOps σ) (x : FsKernel σ) (files : U32) (fd pos : Int) (flag : U32) :
    Res (Int × FsKernel σ) := do
  let fs ← x.kernel.fileStruct files
  match findFileWithFd fs fd with
  | none => return (-FILE_INVAL, x)
  | some file =>
      match seekTarget ops x.disk file pos flag with
      | (.error ret, d) => return (ret, x.setDisk d)
      | (.ok pos, d) =>
          match ops.lseek file.inode with
          | none => return (-FILE_INVAL_OP, x.setDisk d)
          | some lseek =>
              let (ret, d) := lseek (BitVec.ofInt 32 pos) d
              if ret ≠ 0 then return (-FILE_OP_FAILED, x.setDisk d)
              else
                let x ← (x.setDisk d).modifyFile files file.node fun f => { f with pos := pos }
                return (0, x)

/-- `file_fstat(fd, stat)`: the code and the size. -/
def fileFstat {σ : Type} (ops : INodeOps σ) (x : FsKernel σ) (files : U32) (fd : Int) :
    Res ((Int × U32) × FsKernel σ) := do
  let fs ← x.kernel.fileStruct files
  match findFileWithFd fs fd with
  | none => return ((-FILE_INVAL, 0), x)
  | some file =>
      match ops.stat file.inode with
      | none => return ((-FILE_INVAL_OP, 0), x)
      | some stat =>
          let (answer, d) := stat x.disk
          return (answer, x.setDisk d)

/-- `file_fsync(fd)`. -/
def fileFsync {σ : Type} (ops : INodeOps σ) (x : FsKernel σ) (files : U32) (fd : Int) : Res (Int × FsKernel σ) := do
  let fs ← x.kernel.fileStruct files
  match findFileWithFd fs fd with
  | none => return (-FILE_INVAL, x)
  | some file =>
      match ops.sync file.inode with
      | none => return (-FILE_INVAL_OP, x)
      | some sync =>
          let (ret, d) := sync x.disk
          return (if ret ≠ 0 then -FILE_OP_FAILED else 0, x.setDisk d)

end Fs
end FreakOS
