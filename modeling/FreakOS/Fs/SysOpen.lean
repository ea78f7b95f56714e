import FreakOS.Fs.FatInodes
import FreakOS.Fs.VfsPath
import FreakOS.Krnl.TaskIds
import FreakOS.Memory.LegalStr
import FreakOS.Memory.PageRefs

/-!
# The path buffers of `open`

`copy_path` and `sysfile_open` of `sysfile.c`, with `file_open` over `vfs_open`.  A path goes through a buffer of the
system call, one of `vfs_open`, and, on a FAT volume, one of `fat_lookup` and one of `fat_find_inode`.

* `copyPath`, `fileOpen`, `sysfileOpen` — as in the source.
* `fileOpen_run` — it is the `file_open` of the descriptor table, with `vfs_open` put in.
* `OpenSafe` — nothing panics, and what is filled is large enough.
* `open_never_safe` — the buffer of `vfs_open` has no byte for the terminator, and without bytes there is none.
* `vfsOpen_fatFits` — the paths for which the buffers of a FAT volume are large enough.
-/

namespace FreakOS
namespace Vfs

open Lib
open Lib.CString (text)
open Lib.Prog (Answered)
open Memory
open Krnl
open Fs (FsKernel INT32_MAX FILE_OP_FAILED updateEntry setOpened)

/-- `FS_MAX_FPATH_LEN`. -/
def FS_MAX_FPATH_LEN : U32 := 4095
/-- `INTERNAL_PATH_LEN`. -/
def INTERNAL_PATH_LEN : Nat := 512

/-- `n` bytes of memory. -/
def bytesFrom (mem : Bytes) (a : U32) : Nat → List Char8
  | 0 => []
  | n + 1 => mem a :: bytesFrom mem (a + 1) n

/-- `copy_path(to, from)`, with the buffer and the string in it; `mm` is the map of the task, and `mem` its memory. -/
def copyPath (mm : U32) (mem : Bytes) (src : U32) : VfsOp (Int × Option (U32 × CString)) := do
  let buffer ← kmalloc (FS_MAX_FPATH_LEN + 1)
  if buffer = NULL then return (-E_NOMEM, none)
  else
    let copy ← Prog.lift fun s =>
      let copy := copyLegalStr (s.kernel.mms mm) mem buffer src (FS_MAX_FPATH_LEN + 1)
      .ok (copy, { s with kernel := { s.kernel with mms := Function.update s.kernel.mms mm copy.mm } })
    if copy.ret then return (0, some (buffer, text (bytesFrom copy.mem buffer (FS_MAX_FPATH_LEN + 1).toNat)))
    else
      kfree buffer (FS_MAX_FPATH_LEN + 1)
      return (-E_INVAL, none)

/-- `file_open` once the file is open, on the table of the task. -/
def enterFile (k : Kernel) (files openFlag inode : U32) (newFile : File) : Res (Int × Kernel) := do
  let fs ← k.fileStruct files
  match fs.fileList.find? fun f => decide (f.inode = inode) with
  | some found =>
      let k ← k.release newFile.node sizeofFile
      let list := updateEntry fs.fileList found.node (setOpened inode openFlag)
      return (found.fd, k.setFileStruct files { fs with fileList := list })
  | none =>
      if fs.fileNextId = INT32_MAX then .error .overflow
      else
        let file := { setOpened inode openFlag newFile with openCount := newFile.openCount + 1, fd := fs.fileNextId }
        let fs := { fs with fileList := listAdd file fs.fileList, fileNextId := fs.fileNextId + 1 }
        return (file.fd, k.setFileStruct files fs)

/-- `file_open(path, open_flag)`. -/
def fileOpen (ops : VfsOps) (files : U32) (path : CString) (openFlag : U32) (dest : List Char8) : VfsOp Int := do
  let newFile ← Prog.lift fun s => (fileAllocInit s.kernel).map fun r => (r.1, { s with kernel := r.2 })
  match newFile with
  | none => return -7
  | some newFile =>
      let (ret, inode) ← vfsOpen ops files path openFlag dest
      if ret ≠ 0 then
        kfree newFile.node sizeofFile
        return -FILE_OP_FAILED
      else
        Prog.lift fun s => (enterFile s.kernel files openFlag (inode.getD NULL) newFile).map fun r =>
          (r.1, { s with kernel := r.2 })

/-- `sysfile_open(path, open_flags)`; `src` is the address of the path, and `dest` what is in memory from the address
of the copy of `vfs_open` on. -/
def sysfileOpen (ops : VfsOps) (files mm : U32) (mem : Bytes) (src openFlags : U32) (dest : List Char8) :
    VfsOp Int := do
  let (ret, path) ← copyPath mm mem src
  match path with
  | none => return ret
  | some (buffer, path) =>
      let ret ← fileOpen ops files path openFlags dest
      kfree buffer (FS_MAX_FPATH_LEN + 1)
      return ret

/-! ### The table of descriptors -/

/-- The state of the descriptor calls. -/
def fsKernelOf (s : VfsState) : FsKernel (List (U32 × CString)) := ⟨s.kernel, s.filled⟩

/-- A result of the one, as a result of the other. -/
def resOf {α : Type} (r : Res (α × VfsState)) : Res (α × FsKernel (List (U32 × CString))) :=
  r.map fun r => (r.1, fsKernelOf r.2)

/-- The last part of `file_open`, here and in the table of descriptors. -/
theorem enterFile_eq (x : FsKernel (List (U32 × CString))) (files openFlag inode : U32) (newFile : File) :
    ((enterFile x.kernel files openFlag inode newFile).map fun r => (r.1, x.setKernel r.2)) = do
      let fs ← x.kernel.fileStruct files
      match fs.fileList.find? fun f => decide (f.inode = inode) with
      | some found =>
          let k ← x.kernel.release newFile.node sizeofFile
          let list := updateEntry fs.fileList found.node (setOpened inode openFlag)
          return (found.fd, x.setKernel (k.setFileStruct files { fs with fileList := list }))
      | none =>
          if fs.fileNextId = INT32_MAX then .error .overflow
          else
            let file := { setOpened inode openFlag newFile with openCount := newFile.openCount + 1, fd := fs.fileNextId }
            let fs := { fs with fileList := listAdd file fs.fileList, fileNextId := fs.fileNextId + 1 }
            return (file.fd, x.setKernel (x.kernel.setFileStruct files fs)) := by
  unfold enterFile
  cases x.kernel.fileStruct files with
  | error e => rfl
  | ok fs =>
      simp only [Res.ok_bind]
      cases fs.fileList.find? fun f => decide (f.inode = inode) with
      | some found =>
          dsimp only
          cases x.kernel.release newFile.node sizeofFile with
          | error e => rfl
          | ok k => rfl
      | none =>
          dsimp only
          split
          · rfl
          · rfl

/-- `file_open` here and in the table of descriptors. -/
theorem fileOpen_run (ops : VfsOps) (files : U32) (path : CString) (openFlag : U32) (dest : List Char8)
    (answer : VfsCall → VfsAnswer) (s : VfsState) :
    resOf ((fileOpen ops files path openFlag dest).run answer s) =
      Fs.fileOpen (fsKernelOf s) files openFlag fun x =>
        (resOf ((vfsOpen ops files path openFlag dest).run answer ⟨x.kernel, x.disk⟩)).map fun r =>
          ((r.1.1, r.1.2.getD NULL), r.2) := by
  unfold fileOpen Fs.fileOpen
  rw [Prog.run_bind, Prog.run_lift, show (fsKernelOf s).kernel = s.kernel from rfl]
  cases halloc : fileAllocInit s.kernel with
  | error e => rfl
  | ok r =>
      obtain ⟨newFile, k⟩ := r
      cases newFile with
      | none => rfl
      | some newFile =>
          simp only [Except.map, Res.ok_bind, Prog.run_bind]
          rw [show (⟨((fsKernelOf s).setKernel k).kernel, ((fsKernelOf s).setKernel k).disk⟩ : VfsState) =
            { s with kernel := k } from rfl]
          cases hopen : (vfsOpen ops files path openFlag dest).run answer { s with kernel := k } with
          | error e => rfl
          | ok r =>
              obtain ⟨⟨ret, inode⟩, s₁⟩ := r
              simp only [resOf, Except.map, Res.ok_bind]
              by_cases hret : ret ≠ 0
              · simp only [if_pos hret, Prog.run_bind, kfree, Prog.run_lift]
                cases hrelease : s₁.kernel.release newFile.node sizeofFile with
                | error e => simp only [fsKernelOf, hrelease]; rfl
                | ok k => simp only [fsKernelOf, hrelease]; rfl
              · simp only [if_neg hret, Prog.run_lift]
                refine Eq.trans ?_ (enterFile_eq (fsKernelOf s₁) files openFlag (inode.getD NULL) newFile)
                rw [show (fsKernelOf s₁).kernel = s₁.kernel from rfl]
                cases enterFile s₁.kernel files openFlag (inode.getD NULL) newFile with
                | error e => rfl
                | ok r => rfl

/-! ### Safety -/

/-- The FAT directories, with the volume and the internal path of each. -/
abbrev FatDirs := U32 → Option (Fat.Mount × List U8)

/-- The paths that a lookup puts together fit in their buffers: `new_in_path` of `fat_lookup`, and `internal_path` of
`fat_find_inode`. -/
def FatFits (dirs : FatDirs) : VfsCall → Prop
  | .iopLookup inode path => ∀ m internalPath, dirs inode = some (m, internalPath) →
      (Fat.lookupPath internalPath path.bytes).length + 1 ≤ INTERNAL_PATH_LEN ∧
        (Fat.bulidInternalPath m (Fat.lookupPath internalPath path.bytes)).length + 1 ≤ INTERNAL_PATH_LEN
  | _ => True

/-- No run of a call panics, and every buffer that one fills has been requested with a byte more than its string. -/
structure OpenSafe (dirs : FatDirs) (call : VfsOp Int) (s : VfsState) : Prop where
  no_panic : ∀ log msg, ¬ call.Stops s log (.panic msg)
  filled : ∀ log s' new, call.Visits s log s' → s'.filled = new ++ s.filled →
    ∀ b ∈ new, b.2.bytes.length + 1 ≤ b.1.toNat
  fat : ∀ log s', call.Visits s log s' → ∀ e ∈ log, FatFits dirs e.1

/-- There is memory for a `File_t` and for the copy of a path. -/
def FreeMemory (k : Kernel) (p : CString) : Prop :=
  ∃ file k₁, fileAllocInit k = .ok (some file, k₁) ∧
    (p.bytes ≠ [] → ∃ pathIn k₂, k₁.alloc (BitVec.ofNat 32 p.bytes.length) = .ok (pathIn, k₂) ∧ pathIn ≠ NULL)

section Safety

variable {ops : VfsOps} {files openFlag : U32} {p : CString} {dest : List Char8} {s : VfsState}

/-- A path without characters is copied to a block without pages. -/
theorem vfsOpen_empty (h : p.bytes = []) :
    (vfsOpen ops files p openFlag dest).Stops s [] (.panic "alloc:n is must greater than 0!") := by
  have halloc : s.kernel.alloc (BitVec.ofNat 32 p.bytes.length) =
      .error (.panic "alloc:n is must greater than 0!") := by
    rw [h]
    rfl
  have hstop : (kmalloc (BitVec.ofNat 32 p.bytes.length)).Stops s [] (.panic "alloc:n is must greater than 0!") := by
    apply Prog.stops_lift
    rw [halloc]
    rfl
  exact hstop.bind

/-- The block has as many bytes as the path has characters. -/
theorem vfsOpen_fills {pathIn : U32} {k : Kernel}
    (halloc : s.kernel.alloc (BitVec.ofNat 32 p.bytes.length) = .ok (pathIn, k)) (hne : pathIn ≠ NULL) :
    (vfsOpen ops files p openFlag dest).Visits s []
      ⟨k, (BitVec.ofNat 32 p.bytes.length, p) :: s.filled⟩ := by
  have hmalloc : (kmalloc (BitVec.ofNat 32 p.bytes.length)).Answered s [] pathIn { s with kernel := k } := by
    refine Prog.answered_lift_iff.mpr ⟨rfl, ?_⟩
    rw [halloc]
    rfl
  refine hmalloc.visits_bind ?_
  rw [if_neg hne]
  have hfill : (Prog.lift fun s => .ok ((), { s with filled := (BitVec.ofNat 32 p.bytes.length, p) :: s.filled }) :
      VfsOp Unit).Answered { s with kernel := k } [] () ⟨k, (BitVec.ofNat 32 p.bytes.length, p) :: s.filled⟩ :=
    Prog.answered_lift_iff.mpr ⟨rfl, rfl⟩
  exact (hfill.visits_bind (.start _ _)).bind

/-- What changes the kernel alone fills nothing. -/
theorem filled_of_map {α β : Type} {x : Res α} {g : α → β × VfsState} {b : β} {s' : VfsState}
    (hg : ∀ a, (g a).2.filled = s.filled) (h : x.map g = .ok (b, s')) : s'.filled = s.filled := by
  cases x with
  | error e => cases h
  | ok a =>
      have hpair : g a = (b, s') := Except.ok.inj h
      rw [← hg a, hpair]

/-- `copy_path` has a buffer of its own. -/
theorem copyPath_filled {mm src : U32} {mem : Bytes} {log : List (VfsCall × VfsAnswer)} {r : Int × Option (U32 × CString)}
    {s' : VfsState} (h : (copyPath mm mem src).Answered s log r s') : s'.filled = s.filled := by
  unfold copyPath kmalloc at h
  rw [Prog.answered_lift_bind_iff] at h
  obtain ⟨buffer, s₁, halloc, h⟩ := h
  have hfirst : s₁.filled = s.filled := filled_of_map (fun _ => rfl) halloc
  rw [← hfirst]
  split at h
  · rw [(Prog.answered_pure_iff.mp h).2.2]
  · rw [Prog.answered_lift_bind_iff] at h
    obtain ⟨copy, s₂, hcopy, h⟩ := h
    cases hcopy
    split at h
    · rw [(Prog.answered_pure_iff.mp h).2.2]
    · unfold kfree at h
      rw [Prog.answered_lift_bind_iff] at h
      obtain ⟨_, s₃, hfree, h⟩ := h
      rw [(Prog.answered_pure_iff.mp h).2.2]
      exact filled_of_map (fun _ => rfl) hfree

/-- `file_open` comes to `vfs_open`. -/
theorem fileAllocInit_answered {file : Option File} {k : Kernel} (h : fileAllocInit s.kernel = .ok (file, k)) :
    (Prog.lift fun s => (fileAllocInit s.kernel).map fun r => (r.1, { s with kernel := r.2 }) :
      VfsOp (Option File)).Answered s [] file { s with kernel := k } := by
  refine Prog.answered_lift_iff.mpr ⟨rfl, ?_⟩
  rw [h]
  rfl

theorem fileOpen_panics (ops : VfsOps) (files openFlag : U32) (dest : List Char8) (hempty : p.bytes = [])
    (hmem : FreeMemory s.kernel p) :
    (fileOpen ops files p openFlag dest).Stops s [] (.panic "alloc:n is must greater than 0!") := by
  obtain ⟨file, k₁, hfile, -⟩ := hmem
  exact (fileAllocInit_answered hfile).stops_bind (vfsOpen_empty hempty).bind

theorem fileOpen_fills (ops : VfsOps) (files openFlag : U32) (dest : List Char8) (hne : p.bytes ≠ [])
    (hmem : FreeMemory s.kernel p) :
    ∃ k, (fileOpen ops files p openFlag dest).Visits s [] ⟨k, (BitVec.ofNat 32 p.bytes.length, p) :: s.filled⟩ := by
  obtain ⟨file, k₁, hfile, hpath⟩ := hmem
  obtain ⟨pathIn, k₂, halloc, hpathIn⟩ := hpath hne
  have hfills := @vfsOpen_fills ops files openFlag p dest { s with kernel := k₁ } pathIn k₂ halloc hpathIn
  exact ⟨k₂, (fileAllocInit_answered hfile).visits_bind hfills.bind⟩

end Safety

/-- For every path that `copy_path` accepts and every word of flags, with memory for the buffers, `sysfile_open` has a
run that panics, or one that fills a buffer that is too small. -/
theorem open_never_safe (dirs : FatDirs) (ops : VfsOps) (files mm : U32) (mem : Bytes) (src openFlags : U32)
    (dest : List Char8) (s s₁ : VfsState) (buffer : U32) (p : CString)
    (hpath : (copyPath mm mem src).Answered s [] (0, some (buffer, p)) s₁) (hmem : FreeMemory s₁.kernel p) :
    ¬ OpenSafe dirs (sysfileOpen ops files mm mem src openFlags dest) s := by
  intro hsafe
  by_cases hempty : p.bytes = []
  · exact hsafe.no_panic _ _ (hpath.stops_bind (fileOpen_panics ops files openFlags dest hempty hmem).bind)
  · obtain ⟨k, hvisit⟩ := fileOpen_fills ops files openFlags dest hempty hmem
    have hnew : (BitVec.ofNat 32 p.bytes.length, p) :: s₁.filled =
        [(BitVec.ofNat 32 p.bytes.length, p)] ++ s.filled := by rw [copyPath_filled hpath, List.singleton_append]
    have hfits := hsafe.filled _ _ _ (hpath.visits_bind hvisit.bind) hnew _ (List.mem_singleton.mpr rfl)
    have hle : (BitVec.ofNat 32 p.bytes.length).toNat ≤ p.bytes.length := by
      rw [BitVec.toNat_ofNat]
      exact Nat.mod_le _ _
    exact absurd (hfits.trans hle) (Nat.not_succ_le_self _)

/-- A path is a few characters longer when it is looked up on a FAT volume. -/
theorem fatFits_of_length {dirs : FatDirs} {inode : U32} {path : CString}
    (h : ∀ m q, dirs inode = some (m, q) → q.length - 2 + path.bytes.length + 5 ≤ INTERNAL_PATH_LEN) :
    FatFits dirs (.iopLookup inode path) := by
  intro m q hdir
  have hle := h m q hdir
  have hlookup : (Fat.lookupPath q path.bytes).length ≤ q.length - 2 + 1 + path.bytes.length := by
    unfold Fat.lookupPath
    dsimp only
    split
    · rw [List.length_append, List.length_append, List.length_drop]
      rfl
    · rw [List.length_append, List.length_drop]
      omega
  have hbuild : (Fat.bulidInternalPath m (Fat.lookupPath q path.bytes)).length ≤
      (Fat.lookupPath q path.bytes).length + 3 := by
    unfold Fat.bulidInternalPath Fat.slashed
    rw [List.length_cons, List.length_cons]
    split
    · omega
    · rw [List.length_cons]
  omega

/-- The buffers of a FAT volume are large enough for the paths that end a little before `INTERNAL_PATH_LEN`. -/
theorem vfsOpen_fatFits {dirs : FatDirs} {ops : VfsOps} {files openFlag : U32} {p : CString} {dest : List Char8}
    {s s' : VfsState} {log : List (VfsCall × VfsAnswer)} {r : Int × Option U32}
    (hrun : (vfsOpen ops files p openFlag dest).Answered s log r s')
    (h : ∀ inode m q, dirs inode = some (m, q) → q.length - 2 + (target p).bytes.length + 5 ≤ INTERNAL_PATH_LEN) :
    ∀ e ∈ log, FatFits dirs e.1 := by
  intro e he
  have hresolves := vfsOpen_answered hrun e he
  cases hcall : e.1 with
  | iopLookup inode path =>
      rw [hcall] at hresolves
      obtain rfl : path = target p := hresolves
      exact fatFits_of_length (h inode)
  | vdevGetRootInode name => trivial
  | iopCreate dir name mode => trivial
  | iopOpen inode flag => trivial
  | iopTruncate inode len => trivial

/-! ### Paths of one character, and of none -/

/-- A page that a user may read. -/
def readablePage : MemMap := ⟨[⟨0, 0x200000, 0x201000, VMM_READ⟩], none, 0, 1, 0⟩

/-- A kernel with four free pages, and a task with this page. -/
def openState : VfsState := ⟨{ bootKernel smallImage sixFrames with mms := fun _ => some readablePage }, []⟩

/-- The pages that are left when `copy_path` has its buffer. -/
def threeFree : Machine := ((Memory.kmalloc sixFrames 4096).toOption.getD (0, sixFrames)).2

@[inherit_doc threeFree] def copiedState : VfsState :=
  ⟨{ openState.kernel with machine := threeFree, mms := Function.update openState.kernel.mms 0 (some readablePage) }, []⟩

/-- A character at the begin of the page. -/
def oneChar (c : Char8) : Bytes := fun a => if a = 0x200000 then c else 0

/-- `/`. -/
def slashPath : CString := ⟨[slash], by decide⟩

section OneChar

variable {c : Char8} {n : Nat} {p : CString}

theorem copyLegalStr_oneChar (hn : strnlen (oneChar c) 0x200000 4096 = n) (hlt : n < 4096) :
    ∃ events, copyLegalStr (some readablePage) (oneChar c) 0xC0002000 0x200000 (FS_MAX_FPATH_LEN + 1) =
      ⟨true, memcpy (oneChar c) 0xC0002000 0x200000 (n + 1), some readablePage, events⟩ := by
  have hloop : checkUserLoop readablePage 4096 false 0x200000 = (true, readablePage) := by
    unfold checkUserLoop
    rw [if_neg (by decide)]
  have hcheck : checkUserMem (some readablePage) 0x200000 4096 false = (true, some readablePage) := by
    unfold checkUserMem
    dsimp only
    rw [hloop]
    rfl
  have hpart : (if roundDown (0x200000 + PGSIZE) PGSIZE - 0x200000 > FS_MAX_FPATH_LEN + 1 then FS_MAX_FPATH_LEN + 1
      else roundDown (0x200000 + PGSIZE) PGSIZE - 0x200000) = (4096 : U32) := by decide
  unfold copyLegalStr
  rw [copyLegalLoop_eq, hpart]
  dsimp only
  rw [hcheck, if_neg (by decide), show (4096 : U32).toNat = 4096 from rfl, hn, if_pos hlt]
  exact ⟨_, rfl⟩

theorem copyPath_oneChar (hn : strnlen (oneChar c) 0x200000 4096 = n) (hlt : n < 4096)
    (htext : text (bytesFrom (memcpy (oneChar c) 0xC0002000 0x200000 (n + 1)) 0xC0002000 4096) = p) :
    (copyPath 0 (oneChar c) 0x200000).Answered openState [] (0, some (0xC0002000, p)) copiedState := by
  obtain ⟨events, hcopy⟩ := copyLegalStr_oneChar hn hlt
  have hmalloc : (kmalloc (FS_MAX_FPATH_LEN + 1)).Answered openState [] 0xC0002000
      ⟨{ openState.kernel with machine := threeFree }, []⟩ := Prog.answered_lift_iff.mpr ⟨rfl, rfl⟩
  refine hmalloc.bind ?_
  rw [if_neg (by decide)]
  refine Prog.answered_lift_bind_iff.mpr
    ⟨⟨true, memcpy (oneChar c) 0xC0002000 0x200000 (n + 1), some readablePage, events⟩, copiedState, ?_, ?_⟩
  · dsimp only
    rw [show ({ openState.kernel with machine := threeFree } : Kernel).mms 0 = some readablePage from rfl, hcopy]
    rfl
  · rw [if_pos rfl, show (FS_MAX_FPATH_LEN + 1).toNat = 4096 from rfl, htext]
    exact .ret _ _

end OneChar

/-- The call of `sysfile_open` with this path, for reading. -/
def openOneChar (c : Char8) : VfsOp Int :=
  sysfileOpen ⟨fun _ => true, fun _ => true, fun _ => true, fun _ => true⟩ 0xC0005000 0 (oneChar c) 0x200000 0
    (List.replicate 4096 0)

/-- The empty path is accepted, and panics. -/
theorem empty_path_panics : (copyPath 0 (oneChar 0) 0x200000).Answered openState [] (0, some (0xC0002000, .empty))
      copiedState ∧ FreeMemory copiedState.kernel .empty ∧ ¬ OpenSafe (fun _ => none) (openOneChar 0) openState := by
  have hpath : (copyPath 0 (oneChar 0) 0x200000).Answered openState [] (0, some (0xC0002000, .empty)) copiedState :=
    copyPath_oneChar (show strnlen (oneChar 0) 0x200000 4096 = 0 from rfl) (by decide) (by decide +kernel)
  have hmem : FreeMemory copiedState.kernel .empty := ⟨_, _, rfl, fun h => absurd rfl h⟩
  exact ⟨hpath, hmem, fun hsafe => hsafe.no_panic _ _ (hpath.stops_bind (fileOpen_panics _ _ _ _ rfl hmem).bind)⟩

/-- `/` has a buffer of one byte. -/
theorem open_never_safe_slash : slashPath.bytes.length = 1 ∧
    ¬ OpenSafe (fun _ => none) (openOneChar slash) openState := by
  have hpath : (copyPath 0 (oneChar slash) 0x200000).Answered openState [] (0, some (0xC0002000, slashPath))
      copiedState := copyPath_oneChar (show strnlen (oneChar slash) 0x200000 4096 = 1 by decide +kernel) (by decide)
    (by decide +kernel)
  have hmem : FreeMemory copiedState.kernel slashPath := ⟨_, _, rfl, fun _ => ⟨_, _, rfl, by decide⟩⟩
  exact ⟨rfl, open_never_safe _ _ _ _ _ _ _ _ _ _ _ _ hpath hmem⟩

end Vfs
end FreakOS
