import FreakOS.Fs.File
import FreakOS.Fs.Locks
import FreakOS.Lib.CString
import FreakOS.Lib.Resumption

/-!
# Paths in the virtual file system

`vdev_parse_path`, `vfs_lookup` and `vfs_lookup_parent` of `vfs_lookup.c`, and `vfs_open` of `vfs_file.c`.  The registry
of devices and the operations of inodes answer as they like (`Lib.Prog`).

A `char *` is the memory from there on, and the model stops where that ends, so a function that goes on however short
the memory behind the terminator is does not look at it.

* `vdevParsePath`, `vfsLookup`, `vfsLookupParent` — as in the source.
* `repairLoop` — how `vfs_open` fills in the `/` that the parser has overwritten.
* `vfsOpen` — with the path buffers that are filled.
-/

namespace FreakOS
namespace Vfs

open Lib
open Lib.CString (text)
open Krnl
open Fs (VFS_INVAL VFS_INVAL_OP VFS_OP_FAILED OPEN_EXIST OPEN_CREATE OPEN_TRUNC)
open Locks (VFS_NOT_EXIST VFS_EXIST VFS_PNULL VFS_MEM_ERR VDEV_NOT_EXIST INODE_OP_NULL)

/-- `/`. -/
def slash : Char8 := 0x2F
/-- `INODE_CREATE_EXIST`. -/
def INODE_CREATE_EXIST : U32 := 1

/-! ### Devices and inodes -/

/-- A call of the registry, or of an operation of an inode. -/
inductive VfsCall where
  | vdevGetRootInode (name : CString)
  | iopLookup (inode : U32) (path : CString)
  | iopCreate (dir : U32) (name : CString) (mode : U32)
  | iopOpen (inode flag : U32)
  | iopTruncate (inode len : U32)
deriving DecidableEq

/-- The code that is returned, and the inode that is returned or stored. -/
structure VfsAnswer where
  ret : Int
  inode : Option U32

/-- The operations that are not `NULL`, by the inode. -/
structure VfsOps where
  lookup : U32 → Bool
  create : U32 → Bool
  iopen : U32 → Bool
  truncate : U32 → Bool

/-- The kernel. -/
structure VfsState where
  kernel : Kernel
  /-- Not in the source: the path buffers that have been filled, with the bytes that were requested. -/
  filled : List (U32 × CString)

/-- A function of the virtual file system. -/
abbrev VfsOp := Prog VfsState Fault VfsCall VfsAnswer

/-- The result of a function of the kernel. -/
def VfsOp.ofRes {α : Type} : Res α → VfsOp α
  | .ok a => pure a
  | .error e => .stop e

@[simp] theorem VfsOp.ofRes_ok_bind {α β : Type} (a : α) (k : α → VfsOp β) : (VfsOp.ofRes (.ok a) >>= k) = k a := rfl

/-- Change the counters of an inode. -/
def countInode (inode : U32) (f : INodeCount → INodeCount) : VfsOp Unit :=
  Prog.lift fun s =>
    let inodes := Function.update s.kernel.inodes inode (f (s.kernel.inodes inode))
    .ok ((), { s with kernel := { s.kernel with inodes } })

/-- `inode_ref_inc(inode)`. -/
def inodeRefInc (inode : U32) : VfsOp Unit := countInode inode fun c => { c with ref := c.ref + 1 }

/-- `inode_ref_dec(inode)`. -/
def inodeRefDec (inode : U32) : VfsOp Unit := countInode inode fun c => { c with ref := c.ref - 1 }

/-- `inode_open_inc(inode)`. -/
def inodeOpenInc (inode : U32) : VfsOp Unit := countInode inode fun c => { c with opened := c.opened + 1 }

/-- `inode_open_dec(inode)`. -/
def inodeOpenDec (inode : U32) : VfsOp Unit := countInode inode fun c => { c with opened := c.opened - 1 }

/-- `vfs_get_cur_inode(inode_out)`; `files` is the table of the task. -/
def vfsGetCurInode (files : U32) : VfsOp (Int × U32) := do
  let fs ← Prog.lift fun s => (s.kernel.fileStruct files).map fun fs => (fs, s)
  if fs.pwd ≠ NULL then
    inodeRefInc fs.pwd
    return (0, fs.pwd)
  else return (1, NULL)

/-! ### The parser -/

/-- `strlen(src)`. -/
def strlen : List Char8 → Res Nat
  | [] => .error .wildPointer
  | c :: src => if c = 0 then .ok 0 else (strlen src).map (· + 1)

/-- The first loop of `vdev_parse_path`, from index `i` on: `i` and `slash` after it. -/
def scanSlash : List Char8 → Nat → Res (Nat × Int)
  | [], _ => .error .wildPointer
  | c :: path, i => if c = 0 then .ok (i, -1) else if c = slash then .ok (i, i) else scanSlash path (i + 1)

/-- The second loop of `vdev_parse_path`, from index `i` on: `i` after it. -/
def scanStop : List Char8 → Nat → Res Nat
  | [], _ => .error .wildPointer
  | c :: path, i => if c ≠ slash ∧ c ≠ 0 then scanStop path (i + 1) else .ok i

/-- What `vdev_parse_path` returns and stores; `subpath` is an index of the path, and `path` the memory after it. -/
structure Parsed where
  ret : Int
  subpath : Nat
  inode : U32
  path : List Char8
deriving DecidableEq

/-- The part of `vdev_parse_path` for paths that begin with a `/`; `i` is the index of the first `/`. -/
def parseAbsolute (path : List Char8) (pathLen i : Nat) : VfsOp Parsed := do
  let i ← VfsOp.ofRes (scanStop (path.drop (i + 1)) (i + 1))
  let path := path.set i 0
  let subpath := if i < pathLen then i + 1 else i
  let found ← Prog.query (.vdevGetRootInode (text (path.drop 1)))
  let inode := found.inode.getD NULL
  return ⟨if inode = NULL then VDEV_NOT_EXIST else 0, subpath, inode, path⟩

/-- `vdev_parse_path(path, subpath, vdev_inode_out)`. -/
def vdevParsePath (files : U32) (path : List Char8) : VfsOp Parsed := do
  let pathLen ← VfsOp.ofRes (strlen path)
  let scanned ← VfsOp.ofRes (scanSlash path 0)
  if scanned.2 ≠ 0 then
    let (ret, inode) ← vfsGetCurInode files
    return ⟨ret, 0, inode, path⟩
  else parseAbsolute path pathLen scanned.1

/-- `vfs_lookup(path, inode_out)`, with the inode that is stored, and the memory of the path after it. -/
def vfsLookup (ops : VfsOps) (files : U32) (path : List Char8) : VfsOp (Int × Option U32 × List Char8) := do
  let p ← vdevParsePath files path
  if p.ret ≠ 0 then return (p.ret, none, p.path)
  else
    match p.path[p.subpath]? with
    | none => .stop .wildPointer
    | some c =>
        if c ≠ 0 then
          if !ops.lookup p.inode then return (-INODE_OP_NULL, none, p.path)
          else
            let found ← Prog.query (.iopLookup p.inode (text (p.path.drop p.subpath)))
            inodeRefDec p.inode
            return (found.ret, found.inode, p.path)
        else return (0, some p.inode, p.path)

/-- `vfs_lookup_parent(path, vdev_inode_out, endp)`: the inode and `endp` are those of the parser. -/
def vfsLookupParent (files : U32) (path : List Char8) : VfsOp Parsed := vdevParsePath files path

/-! ### `vfs_open` -/

/-- The loop of `vfs_open` that fills in the `/` again; the first argument is the number of bytes. -/
def repairLoop : Nat → List Char8 → Res (List Char8)
  | 0, path => .ok path
  | _ + 1, [] => .error .wildPointer
  | n + 1, c :: path => (repairLoop n path).map ((if c = 0 then slash else c) :: ·)

/-- `kmalloc(bytes)`. -/
def kmalloc (bytes : U32) : VfsOp U32 :=
  Prog.lift fun s => (s.kernel.alloc bytes).map fun r => (r.1, { s with kernel := r.2 })

/-- `kfree(vaddr, bytes)`. -/
def kfree (vaddr bytes : U32) : VfsOp Unit :=
  Prog.lift fun s => (s.kernel.release vaddr bytes).map fun kernel => ((), { s with kernel })

/-- `strcpy(dest, path)`, where `dest` is a buffer of `bytes` bytes. -/
def strcpyPath (dest : List Char8) (bytes : U32) (path : CString) : VfsOp (List Char8) := do
  Prog.lift fun s => .ok ((), { s with filled := (bytes, path) :: s.filled })
  VfsOp.ofRes (if dest.length ≤ path.bytes.length then .error .wildPointer
    else .ok (path.bytes ++ 0 :: dest.drop (path.bytes.length + 1)))

/-- `vfs_open` from the test of `inode` on. -/
def openFound (ops : VfsOps) (openFlag : U32) (create : Bool) (inode : U32) : VfsOp (Int × Option U32) :=
  if inode = NULL then return (VFS_PNULL, none)
  else if !ops.iopen inode then return (VFS_INVAL_OP, none)
  else do
    let opened ← Prog.query (.iopOpen inode openFlag)
    if opened.ret ≠ 0 then
      inodeRefDec inode
      return (opened.ret, none)
    else
      inodeOpenInc inode
      if openFlag &&& OPEN_TRUNC ≠ 0 ∨ create = true then
        if !ops.truncate inode then return (VFS_INVAL_OP, none)
        else
          let cut ← Prog.query (.iopTruncate inode 0)
          if cut.ret ≠ 0 then
            inodeRefDec inode
            inodeOpenDec inode
            return (VFS_OP_FAILED, none)
          else return (0, some inode)
      else return (0, some inode)

/-- The part of `vfs_open` that creates the file; `first` is what the first lookup has stored. -/
def openCreate (ops : VfsOps) (files openFlag : U32) (pathLen : Nat) (first : Option U32) (pathIn : List Char8) :
    VfsOp (Int × Option U32) := do
  let p ← vfsLookupParent files pathIn
  if p.ret ≠ 0 then return (VFS_INVAL, none)
  else if !ops.create p.inode then return (VFS_INVAL_OP, none)
  else
    let created ← Prog.query (.iopCreate p.inode (text (p.path.drop p.subpath)) INODE_CREATE_EXIST)
    if created.ret ≠ 0 then return (VFS_OP_FAILED, none)
    else
      let pathIn ← VfsOp.ofRes (repairLoop pathLen p.path)
      let (_, second, _) ← vfsLookup ops files pathIn
      openFound ops openFlag true ((second <|> first).getD NULL)

/-- `vfs_open` once `path_in` has been filled. -/
def openCopy (ops : VfsOps) (files openFlag : U32) (pathLen : Nat) (pathIn : List Char8) : VfsOp (Int × Option U32) := do
  let exist := openFlag &&& OPEN_EXIST ≠ 0
  let create := openFlag &&& OPEN_CREATE ≠ 0
  let (ret, first, pathIn) ← vfsLookup ops files pathIn
  let pathIn ← VfsOp.ofRes (repairLoop pathLen pathIn)
  if ret ≠ 0 then
    if create then openCreate ops files openFlag pathLen first pathIn else return (VFS_NOT_EXIST, none)
  else if exist ∧ create then return (VFS_EXIST, none)
  else openFound ops openFlag create (first.getD NULL)

/-- `vfs_open(path, open_flag, inode_out)`, with the inode that is stored; `dest` is what is in memory from the
address of `path_in` on. -/
def vfsOpen (ops : VfsOps) (files : U32) (path : CString) (openFlag : U32) (dest : List Char8) :
    VfsOp (Int × Option U32) := do
  let pathLen := path.bytes.length
  let pathIn ← kmalloc (BitVec.ofNat 32 pathLen)
  if pathIn = NULL then return (VFS_MEM_ERR, none)
  else
    let mem ← strcpyPath dest (BitVec.ofNat 32 pathLen) path
    let r ← openCopy ops files openFlag pathLen mem
    kfree pathIn (BitVec.ofNat 32 pathLen)
    return r

end Vfs
end FreakOS
