import FreakOS.Fs.FatInodes
import FreakOS.Lib.Resumption

/-!
# The operations of FAT inodes and the driver

The operations of `fat_inode.c` over `fat_base.c`.  The driver is not modelled: an operation calls it, and what it
returns and stores through its pointers is an arbitrary answer (`Lib.Prog`).  So a run of an operation has a log, with
the calls and the codes that the driver has returned for them.

An allocation that fails is an argument of the operation, as in `fatFindInode` of the volume in memory.  The model stops
where the block of an inode does not exist, and where a path is longer than its block.

* `BaseCall`, `Answer` — the calls of the driver, and what comes back.
* `fatCreate`, `fatMkdir`, `fatTruncate`, … — as in the source.
* `Reaches` — the states that a mounted volume gets to.
* `fatFindInode_answered`, `fatLookup_answered`, `fatReaddir_answered` — with `fat_base.c` as the driver.
-/

namespace FreakOS
namespace FatOps

open Lib
open Memory
open Fat
open Locks (INODE_PNULL INODE_NOT_FILE INDOE_NOT_DIR INODE_EXIST INODE_NOT_EXIST INODE_INTERNAL_ERR FR_EXIST
  INODE_TYPE_DIR)

/-! ### The driver -/

/-- `FA_READ` and the other modes of `fatbase_open`. -/
def FA_READ : U8 := 0x01
@[inherit_doc FA_READ] def FA_WRITE : U8 := 0x02
@[inherit_doc FA_READ] def FA_CREATE_NEW : U8 := 0x04
@[inherit_doc FA_READ] def FA_CREATE_ALWAYS : U8 := 0x08
/-- `AM_MASK`. -/
def AM_MASK : U8 := 0xFF
/-- `INODE_CREATE_MASK`. -/
def INODE_CREATE_MASK : U32 := 0xFF
/-- `INODE_CREATE_EXIST`. -/
def INODE_CREATE_EXIST : U32 := 1
/-- `INODE_TYPE_REGULAR`. -/
def INODE_TYPE_REGULAR : U32 := 1

/-- A call of `fat_base.c`, or of `sync_all_bcache`. -/
inductive BaseCall where
  | fatbaseOpen (path : List U8) (mode : U8)
  | fatbaseClose (fp : BaseFile)
  | fatbaseRead (fp : BaseFile) (btr : U32)
  | fatbaseWrite (fp : BaseFile) (buff : List U8)
  | fatbaseLseek (fp : BaseFile) (ofs : U32)
  | fatbaseTell (fp : BaseFile)
  | fatbaseTruncate (fp : BaseFile)
  | fatbaseSync (fp : BaseFile)
  | fatbaseMkdir (path : List U8)
  | fatbaseOpendir (path : List U8)
  | fatbaseReaddir (dj : DirPos)
  | fatbaseStat (path : List U8)
  | syncAllBcache
deriving DecidableEq, Repr

/-- `FATBase_FILINFO`, as far as it is read. -/
structure FilInfo where
  fsize : U32
  fattrib : U8
  fname : List U8
deriving DecidableEq, Repr

/-- The code that is returned, and what is stored through the pointers of the call: the file and the directory object,
the information on a file, the bytes of a read, the number of bytes, and the file pointer. -/
structure Answer where
  ret : Int
  file : BaseFile
  dir : DirPos
  info : FilInfo
  bytes : List U8
  count : U32
  fptr : U32
deriving DecidableEq, Repr

/-- The calls of a run, with their answers. -/
abbrev Log := List (BaseCall × Answer)

/-! ### The volume in memory -/

/-- `FatFs_t`. -/
structure Volume where
  nextId : U32
  inodeList : List FatInode
deriving DecidableEq, Repr

namespace Volume

/-- The `INode_t` at an address. -/
def node (s : Volume) (inode : U32) : Option FatInode := s.inodeList.find? fun n => n.addr = inode

/-- `find_list_fatinode_with_internal_path_nolock(fatfs, inpath)`. -/
def findInternalPath (s : Volume) (inpath : List U8) : Option FatInode :=
  s.inodeList.find? fun n => n.internalPath = inpath

/-- The object of an inode has been changed by the driver. -/
def setData (s : Volume) (inode : U32) (data : InodeData) : Volume :=
  { s with inodeList := s.inodeList.map fun n => if n.addr = inode then { n with data } else n }

/-- `construct_fatinode_info` and `fat_add_inode_list`. -/
def construct (s : Volume) (inode : U32) (inpath : List U8) (data : InodeData) : Volume where
  nextId := s.nextId + 1
  inodeList := listAdd ⟨inode, s.nextId, inpath, data⟩ s.inodeList

/-- `fat_del_inode_list` and `inode_free`. -/
def remove (s : Volume) (inode : U32) : Volume := { s with inodeList := s.inodeList.filter fun n => n.addr ≠ inode }

end Volume

/-- An operation of an inode. -/
abbrev FatOp := Prog Volume Fault BaseCall Answer

/-- The inode at an address. -/
def inodeAt (inode : U32) : FatOp FatInode :=
  Prog.lift fun s =>
    match s.node inode with
    | some n => .ok (n, s)
    | none => .error .wildPointer

/-- Search the list of the volume. -/
def searchList (inpath : List U8) : FatOp (Option FatInode) := Prog.lift fun s => .ok (s.findInternalPath inpath, s)

/-- Add an inode to the list. -/
def addInode (inode : U32) (inpath : List U8) (data : InodeData) : FatOp Unit :=
  Prog.lift fun s => .ok ((), s.construct inode inpath data)

/-- Store what the driver has made of the object of an inode. -/
def setData (inode : U32) (data : InodeData) : FatOp Unit := Prog.lift fun s => .ok ((), s.setData inode data)

/-- Remove an inode from the list, and give its block back. -/
def removeInode (inode : U32) : FatOp Unit := Prog.lift fun s => .ok ((), s.remove inode)

/-! ### Lookup -/

/-- The part of `fat_find_inode` that calls the driver. -/
def openInode (internalPath : List U8) : FatOp (Option InodeData) := do
  let file ← Prog.query (.fatbaseOpen internalPath (FA_READ ||| FA_WRITE))
  if file.ret = FR_OK then return some (.file file.file)
  else
    let dir ← Prog.query (.fatbaseOpendir internalPath)
    return if dir.ret = FR_OK then some (.dir dir.dir) else none

/-- `fat_find_inode`, from the search for the internal path on. -/
def findOrOpen (a : Alloc) (internalPath : List U8) : FatOp U32 := do
  match ← searchList internalPath with
  | some inode => return inode.addr
  | none =>
      if a.inode = NULL then return NULL
      else
        match ← openInode internalPath with
        | none => return NULL
        | some data =>
            addInode a.inode internalPath data
            return a.inode

/-- `fat_find_inode(fatfs, path)`. -/
def fatFindInode (m : Mount) (a : Alloc) (path : Option (List U8)) : FatOp U32 :=
  match path with
  | none => return NULL
  | some path =>
      if !a.internalPath then return NULL
      else if (bulidInternalPath m path).length ≥ PATH_BLOCK_LEN then .stop .wildPointer
      else findOrOpen a (bulidInternalPath m path)

/-- `fat_lookup(inode, relative_path, inode_out)`, with what is stored at `inode_out`. -/
def fatLookup (m : Mount) (a : Alloc) (inode : U32) (relativePath : Option (List U8)) : FatOp (Int × Option U32) :=
  match relativePath with
  | none => return (-INODE_PNULL, none)
  | some relativePath =>
      if inode = NULL then return (-INODE_PNULL, none)
      else do
        let n ← inodeAt inode
        match n.data with
        | .file _ => return (-INDOE_NOT_DIR, none)
        | .dir _ =>
            if !a.newPath then return (-INODE_INTERNAL_ERR, none)
            else
              let newInPath := lookupPath n.internalPath relativePath
              if newInPath.length ≥ PATH_BLOCK_LEN then .stop .wildPointer
              else
                let out ← fatFindInode m a (some newInPath)
                if out = NULL then return (-INODE_NOT_EXIST, none) else return (INODE_OK, some out)

/-! ### Files -/

/-- `fat_file_rw(inode, buf, len, copied, write)`, with the answer of the driver; `call` is its call. -/
def fatFileRw (inode buf : U32) (call : BaseFile → BaseCall) : FatOp (Int × Option Answer) :=
  if inode = NULL ∨ buf = NULL then return (-INODE_PNULL, none)
  else do
    let n ← inodeAt inode
    match n.data with
    | .dir _ => return (-INODE_NOT_FILE, none)
    | .file fp =>
        let rw ← Prog.query (call fp)
        setData inode (.file rw.file)
        return (rw.ret, some rw)

/-- `fat_read(inode, buf, len, copied)`, with the bytes in `buf` and the number at `copied`. -/
def fatRead (inode buf len : U32) : FatOp (Int × Option (List U8 × U32)) := do
  let (ret, rw) ← fatFileRw inode buf fun fp => .fatbaseRead fp len
  return (ret, rw.map fun r => (r.bytes, r.count))

/-- `fat_write(inode, buf, len, copied)`, with the number at `copied`; `bytes` are the bytes of `buf`. -/
def fatWrite (inode buf : U32) (bytes : List U8) : FatOp (Int × Option U32) := do
  let (ret, rw) ← fatFileRw inode buf fun fp => .fatbaseWrite fp bytes
  return (ret, rw.map Answer.count)

/-- `fat_lseek(inode, off)`. -/
def fatLseek (inode off : U32) : FatOp Int :=
  if inode = NULL then return -INODE_PNULL
  else do
    let n ← inodeAt inode
    match n.data with
    | .dir _ => return -INODE_NOT_FILE
    | .file fp =>
        let sought ← Prog.query (.fatbaseLseek fp off)
        setData inode (.file sought.file)
        return sought.ret

/-- `fat_truncate(inode, len)`; no code of the driver is kept. -/
def fatTruncate (inode len : U32) : FatOp Int :=
  if inode = NULL then return -INODE_PNULL
  else do
    let n ← inodeAt inode
    match n.data with
    | .dir _ => return -INODE_NOT_FILE
    | .file fp =>
        let told ← Prog.query (.fatbaseTell fp)
        let sought ← Prog.query (.fatbaseLseek told.file len)
        let cut ← (if len > fp.fsize then pure sought else Prog.query (.fatbaseTruncate sought.file))
        let back ← Prog.query (.fatbaseLseek cut.file told.fptr)
        setData inode (.file back.file)
        return 0

/-- `fat_sync(inode)`; the code of `sync_all_bcache` is not kept. -/
def fatSync (inode : U32) : FatOp Int :=
  if inode = NULL then return -INODE_PNULL
  else do
    let n ← inodeAt inode
    match n.data with
    | .dir _ => return -INODE_NOT_FILE
    | .file fp =>
        let synced ← Prog.query (.fatbaseSync fp)
        let _ ← Prog.query .syncAllBcache
        setData inode (.file synced.file)
        return synced.ret

/-- `fat_stat(inode, stat)`, with the size and the bits that are set in `attr`. -/
def fatStat (inode stat : U32) : FatOp (Int × Option (U32 × U32)) :=
  if inode = NULL ∨ stat = NULL then return (-INODE_PNULL, none)
  else do
    let n ← inodeAt inode
    let found ← Prog.query (.fatbaseStat n.internalPath)
    if found.ret ≠ FR_OK then return (-INODE_INTERNAL_ERR, none)
    else
      let isDir := found.info.fattrib &&& AM_MASK = AM_DIR
      return (INODE_OK, some (found.info.fsize, if isDir then INODE_TYPE_DIR else INODE_TYPE_REGULAR))

/-! ### Directories -/

/-- A path with a name behind it: a `/` is put in where there is none. -/
def joinPath (inodeInPath name : List U8) : List U8 :=
  if inodeInPath.getLast? ≠ some (chr '/') ∧ name.head? ≠ some (chr '/') then inodeInPath ++ [chr '/'] ++ name
  else inodeInPath ++ name

/-- The part of `fat_create` that calls the driver. -/
def createFile (newInPath : List U8) (isExist : Bool) : FatOp Int := do
  if isExist then
    let opened ← Prog.query (.fatbaseOpen newInPath FA_CREATE_ALWAYS)
    if opened.ret ≠ FR_OK then return INODE_OK
    else
      let _ ← Prog.query (.fatbaseClose opened.file)
      return opened.ret
  else
    let opened ← Prog.query (.fatbaseOpen newInPath FA_CREATE_NEW)
    if opened.ret = FR_OK then
      let _ ← Prog.query (.fatbaseClose opened.file)
      return INODE_OK
    else if opened.ret = FR_EXIST then return -INODE_EXIST
    else
      -- In the source `ret == -INODE_INTERNAL_ERR` stands here, which assigns nothing.
      return opened.ret

/-- `fat_create(inode, name, mode)`; `newFile` says that there is memory for the `FATBase_FILE`. -/
def fatCreate (a : Alloc) (newFile : Bool) (inode : U32) (name : Option (List U8)) (mode : U32) : FatOp Int :=
  match name with
  | none => return -INODE_PNULL
  | some name =>
      if inode = NULL then return -INODE_PNULL
      else do
        let n ← inodeAt inode
        match n.data with
        | .file _ => return -INDOE_NOT_DIR
        | .dir _ =>
            if !a.newPath then return -INODE_INTERNAL_ERR
            else if !newFile then return -INODE_INTERNAL_ERR
            else
              let newInPath := joinPath n.internalPath name
              if newInPath.length ≥ PATH_BLOCK_LEN then .stop .wildPointer
              else createFile newInPath (mode &&& INODE_CREATE_MASK = INODE_CREATE_EXIST)

/-- The part of `fat_mkdir` that calls the driver. -/
def makeDir (newPath : List U8) : FatOp Int := do
  let made ← Prog.query (.fatbaseMkdir newPath)
  if made.ret = FR_OK then return INODE_OK
  else if made.ret = FR_EXIST then return -INODE_EXIST
  else return -INODE_INTERNAL_ERR

/-- `fat_mkdir(inode, dir_name)`. -/
def fatMkdir (a : Alloc) (inode : U32) (dirName : Option (List U8)) : FatOp Int :=
  match dirName with
  | none => return -INODE_PNULL
  | some dirName =>
      if inode = NULL then return -INODE_PNULL
      else do
        let n ← inodeAt inode
        match n.data with
        | .file _ => return -INDOE_NOT_DIR
        | .dir _ =>
            if !a.newPath then return -INODE_INTERNAL_ERR
            else
              let newPath := joinPath n.internalPath dirName
              if newPath.length ≥ PATH_BLOCK_LEN then .stop .wildPointer
              else makeDir newPath

/-- `fat_readdir` after the driver has read an entry. -/
def entryOut (m : Mount) (a : Alloc) (inode : U32) (read : Answer) : FatOp (Int × Option U32) :=
  if read.ret ≠ FR_OK then return (-INODE_INTERNAL_ERR, none)
  else if read.info.fname = [] then return (INODE_OK, some NULL)
  else do
    let (ret, o) ← fatLookup m a inode (some read.info.fname)
    -- `ret` is the result of the comparison.
    return (if ret ≠ INODE_OK then 1 else 0, o)

/-- `fat_readdir(inode, inode_out)`, with what is stored at `inode_out`; `out` says that `inode_out` is not `NULL`. -/
def fatReaddir (m : Mount) (a : Alloc) (inode : U32) (out : Bool) : FatOp (Int × Option U32) :=
  if inode = NULL then return (-INODE_PNULL, none)
  else do
    let n ← inodeAt inode
    match n.data with
    | .file _ => return (-INDOE_NOT_DIR, none)
    | .dir dj =>
        if !out then
          let opened ← Prog.query (.fatbaseOpendir n.internalPath)
          setData inode (.dir opened.dir)
          return (if opened.ret ≠ FR_OK then -INODE_INTERNAL_ERR else opened.ret, none)
        else
          let read ← Prog.query (.fatbaseReaddir dj)
          setData inode (.dir read.dir)
          entryOut m a inode read

/-- `fat_release(inode)`; the code of `fatbase_close` is not kept. -/
def fatRelease (inode : U32) : FatOp Int :=
  if inode = NULL then return -INODE_PNULL
  else do
    let n ← inodeAt inode
    match n.data with
    | .file fp =>
        let _ ← Prog.query (.fatbaseClose fp)
        removeInode inode
        return INODE_OK
    | .dir _ =>
        removeInode inode
        return INODE_OK

/-! ### Runs -/

/-- An operation with its arguments, other than `fat_release`. -/
inductive Op where
  | create (inode : U32) (name : Option (List U8)) (mode : U32)
  | mkdir (inode : U32) (dirName : Option (List U8))
  | truncate (inode len : U32)
  | readdir (inode : U32) (out : Bool)
  | lookup (inode : U32) (relativePath : Option (List U8))
  | lseek (inode off : U32)
  | sync (inode : U32)
  | stat (inode buf : U32)
  | read (inode buf len : U32)
  | write (inode buf : U32) (bytes : List U8)
deriving DecidableEq, Repr

/-- The operation, as far as its code goes. -/
def Op.code (m : Mount) (a : Alloc) (newFile : Bool) : Op → FatOp Int
  | .create inode name mode => fatCreate a newFile inode name mode
  | .mkdir inode dirName => fatMkdir a inode dirName
  | .truncate inode len => fatTruncate inode len
  | .readdir inode out => do
      let (ret, _) ← fatReaddir m a inode out
      return ret
  | .lookup inode relativePath => do
      let (ret, _) ← fatLookup m a inode relativePath
      return ret
  | .lseek inode off => fatLseek inode off
  | .sync inode => fatSync inode
  | .stat inode buf => do
      let (ret, _) ← fatStat inode buf
      return ret
  | .read inode buf len => do
      let (ret, _) ← fatRead inode buf len
      return ret
  | .write inode buf bytes => do
      let (ret, _) ← fatWrite inode buf bytes
      return ret

/-- `kmalloc` does not give the block of an inode that exists. -/
def FreshIn (a : Alloc) (s : Volume) : Prop := a.inode ∉ s.inodeList.map FatInode.addr

/-- The states that a mounted volume gets to, whatever the driver answers. -/
inductive Reaches (m : Mount) : Volume → Prop
  | mounted : Reaches m ⟨0, []⟩
  | find {a : Alloc} {path : Option (List U8)} {s s' : Volume} {log : Log} {inode : U32} (hreach : Reaches m s)
      (hfresh : FreshIn a s) (hrun : (fatFindInode m a path).Answered s log inode s') : Reaches m s'
  | call {a : Alloc} {newFile : Bool} {op : Op} {s s' : Volume} {log : Log} {ret : Int} (hreach : Reaches m s)
      (hfresh : FreshIn a s) (hrun : (op.code m a newFile).Answered s log ret s') : Reaches m s'
  | release {inode : U32} {s s' : Volume} {log : Log} {ret : Int} (hreach : Reaches m s)
      (hrun : (fatRelease inode).Answered s log ret s') : Reaches m s'

/-! ### `fat_base.c` as the driver -/

/-- The volume in memory, without the window of the driver. -/
def volumeOf (s : FatFs) : Volume := ⟨s.nextId, s.inodeList⟩

/-- An answer that stores nothing. -/
def Answer.ofCode (ret : Int) : Answer := ⟨ret, ⟨⟨0, 0⟩, 0, 0⟩, ⟨0, 0, 0⟩, ⟨0, 0, []⟩, [], 0, 0⟩

section Driver

variable {m : Mount} {a : Alloc} {s s' : FatFs}

theorem inodeAt_answered {inode : U32} {n : FatInode} (h : s.node inode = some n) :
    (inodeAt inode).Answered (volumeOf s) [] n (volumeOf s) := by
  apply Prog.answered_lift_iff.mpr
  have hnode : (volumeOf s).node inode = some n := h
  simp only [hnode, and_self]

theorem searchList_answered (inpath : List U8) :
    (searchList inpath).Answered (volumeOf s) [] (s.findInternalPath inpath) (volumeOf s) :=
  Prog.answered_lift_iff.mpr ⟨rfl, rfl⟩

theorem addInode_answered (inpath : List U8) (data : InodeData) (w : Window) :
    (addInode a.inode inpath data).Answered (volumeOf s) [] ()
      (volumeOf (({ s with window := w }.construct a.inode inpath data).answer inpath a.inode)) :=
  Prog.answered_lift_iff.mpr ⟨rfl, rfl⟩

theorem openInode_answered {inpath : List U8} {w w' : Window} {data : Option InodeData} (v : Volume)
    (h : Fat.openInode m inpath w = .ok (data, w')) : ∃ log, (openInode inpath).Answered v log data v := by
  have hno : FR_NO_FILE ≠ FR_OK := by decide
  obtain ⟨⟨file, w₁⟩, -, h⟩ := Res.bind_eq_ok.mp h
  cases file with
  | ok fp =>
      cases h
      refine ⟨[(.fatbaseOpen inpath (FA_READ ||| FA_WRITE), { Answer.ofCode FR_OK with file := fp })], ?_⟩
      exact Prog.answered_query_bind_iff.mpr ⟨_, _, rfl, .ret _ v⟩
  | error res =>
      obtain ⟨⟨ret, dj, w₂⟩, -, h⟩ := Res.bind_eq_ok.mp h
      cases h
      refine ⟨[(.fatbaseOpen inpath (FA_READ ||| FA_WRITE), .ofCode FR_NO_FILE),
        (.fatbaseOpendir inpath, { Answer.ofCode ret with dir := dj })], ?_⟩
      refine Prog.answered_query_bind_iff.mpr ⟨_, _, rfl, ?_⟩
      rw [show (Answer.ofCode FR_NO_FILE).ret = FR_NO_FILE from rfl, if_neg hno]
      exact Prog.answered_query_bind_iff.mpr ⟨_, _, rfl, .ret _ v⟩

/-- `fat_find_inode` over `fat_base.c` is a run of `fat_find_inode` over the driver. -/
theorem fatFindInode_answered {path : Option (List U8)} {r : U32} (h : Fat.fatFindInode m a s path = .ok (r, s')) :
    ∃ log, (fatFindInode m a path).Answered (volumeOf s) log r (volumeOf s') := by
  unfold Fat.fatFindInode at h
  cases path with
  | none =>
      cases h
      exact ⟨[], .ret NULL _⟩
  | some path =>
      simp only at h
      simp only [fatFindInode]
      split at h
      · next hpath =>
          cases h
          rw [if_pos hpath]
          exact ⟨[], .ret NULL _⟩
      · next hpath =>
          split at h
          · cases h
          · next hlen =>
              rw [if_neg hpath, if_neg hlen]
              have hsearch := searchList_answered (s := s) (bulidInternalPath m path)
              split at h
              · next n hfind =>
                  cases h
                  rw [hfind] at hsearch
                  exact ⟨_, hsearch.bind (.ret n.addr _)⟩
              · next hfind =>
                  rw [hfind] at hsearch
                  split at h
                  · next hinode =>
                      cases h
                      refine hsearch.exists_bind ⟨[], ?_⟩
                      simp only [if_pos hinode]
                      exact .ret NULL _
                  · next hinode =>
                      obtain ⟨⟨data, w⟩, hopen, h⟩ := Res.bind_eq_ok.mp h
                      obtain ⟨log, hopened⟩ := openInode_answered (volumeOf s) hopen
                      refine hsearch.exists_bind ⟨log ++ [], ?_⟩
                      simp only [if_neg hinode]
                      cases data with
                      | none =>
                          cases h
                          exact hopened.bind (.ret NULL _)
                      | some data =>
                          cases h
                          exact hopened.bind ((addInode_answered _ data w).bind (.ret a.inode _))

@[inherit_doc fatFindInode_answered]
theorem fatLookup_answered {inode : U32} {path : Option (List U8)} {r : Int × Option U32}
    (h : Fat.fatLookup m a s inode path = .ok (r, s')) :
    ∃ log, (fatLookup m a inode path).Answered (volumeOf s) log r (volumeOf s') := by
  unfold Fat.fatLookup at h
  unfold fatLookup
  cases path with
  | none =>
      cases h
      exact ⟨[], .ret _ _⟩
  | some path =>
      simp only at h ⊢
      split at h
      · next hinode =>
          cases h
          rw [if_pos hinode]
          exact ⟨[], .ret _ _⟩
      · next hinode =>
          rw [if_neg hinode]
          split at h
          · cases h
          · next n hnode =>
              have hat := inodeAt_answered hnode
              cases hdata : n.data with
              | file fp =>
                  simp only [hdata] at h
                  cases h
                  refine hat.exists_bind ⟨[], ?_⟩
                  simp only [hdata]
                  exact .ret _ _
              | dir dj =>
                  simp only [hdata] at h
                  split at h
                  · next hpath =>
                      cases h
                      refine hat.exists_bind ⟨[], ?_⟩
                      simp only [hdata, if_pos hpath]
                      exact .ret _ _
                  · next hpath =>
                      split at h
                      · cases h
                      · next hlen =>
                          obtain ⟨⟨out, s₁⟩, hfind, h⟩ := Res.bind_eq_ok.mp h
                          obtain ⟨log, hfound⟩ := fatFindInode_answered hfind
                          refine hat.exists_bind ⟨log ++ [], ?_⟩
                          simp only [hdata, if_neg hpath, if_neg hlen]
                          refine hfound.bind ?_
                          by_cases hout : out = NULL
                          · simp only [if_pos hout] at h ⊢
                            cases h
                            exact .ret _ _
                          · simp only [if_neg hout] at h ⊢
                            cases h
                            exact .ret _ _

theorem setData_answered (inode : U32) (dj : DirPos) (w : Window) :
    (setData inode (.dir dj)).Answered (volumeOf s) [] () (volumeOf (s.moveDir inode dj w)) :=
  Prog.answered_lift_iff.mpr ⟨rfl, rfl⟩

@[inherit_doc fatFindInode_answered]
theorem fatReaddir_answered {inode : U32} {out : Bool} {r : Int × Option U32}
    (h : Fat.fatReaddir m a s inode out = .ok (r, s')) :
    ∃ log, (fatReaddir m a inode out).Answered (volumeOf s) log r (volumeOf s') := by
  unfold Fat.fatReaddir at h
  unfold fatReaddir
  split at h
  · next hinode =>
      cases h
      rw [if_pos hinode]
      exact ⟨[], .ret _ _⟩
  · next hinode =>
      rw [if_neg hinode]
      split at h
      · cases h
      · next n hnode =>
          have hat := inodeAt_answered hnode
          cases hdata : n.data with
          | file fp =>
              simp only [hdata] at h
              cases h
              refine hat.exists_bind ⟨[], ?_⟩
              simp only [hdata]
              exact .ret _ _
          | dir dj =>
              simp only [hdata] at h
              cases out with
              | false =>
                  obtain ⟨⟨ret, dj', w⟩, -, h⟩ := Res.bind_eq_ok.mp h
                  cases h
                  refine hat.exists_bind ⟨[(.fatbaseOpendir n.internalPath, { Answer.ofCode ret with dir := dj' })], ?_⟩
                  simp only [hdata]
                  refine Prog.answered_query_bind_iff.mpr ⟨_, _, rfl, ?_⟩
                  exact (setData_answered inode dj' w).bind (.ret _ _)
              | true =>
                  obtain ⟨⟨fname, dj', w⟩, -, h⟩ := Res.bind_eq_ok.mp h
                  -- What `fatbase_readdir` answers.
                  let read : Answer :=
                    { Answer.ofCode (if fname.isSome then FR_OK else FR_NO_FILE) with
                      dir := dj'
                      info := ⟨0, 0, fname.getD []⟩ }
                  have hout : ∃ log, (entryOut m a inode read).Answered (volumeOf (s.moveDir inode dj' w)) log r
                      (volumeOf s') := by
                    unfold entryOut
                    cases fname with
                    | none =>
                        cases h
                        exact ⟨[], .ret _ _⟩
                    | some fname =>
                        cases fname with
                        | nil =>
                            cases h
                            exact ⟨[], .ret _ _⟩
                        | cons c fname =>
                            obtain ⟨⟨⟨ret, o⟩, s₁⟩, hlookup, h⟩ := Res.bind_eq_ok.mp h
                            cases h
                            obtain ⟨log, hlog⟩ := fatLookup_answered hlookup
                            exact ⟨_, hlog.bind (.ret _ _)⟩
                  obtain ⟨log, hlog⟩ := hout
                  refine hat.exists_bind ⟨(.fatbaseReaddir dj, read) :: log, ?_⟩
                  simp only [hdata]
                  exact Prog.answered_query_bind_iff.mpr ⟨read, log, rfl, (setData_answered inode dj' w).bind hlog⟩

end Driver

end FatOps
end FreakOS
