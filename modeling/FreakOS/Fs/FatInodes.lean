import FreakOS.Fs.FatNames
import FreakOS.Fs.Locks
import FreakOS.Lib.Interning

/-!
# The inodes of a mounted FAT volume

`fat_find_inode`, `fat_lookup` and `fat_readdir` of `fat_inode.c`, with `auto_mount`, `fatbase_open` and
`fatbase_opendir` of `fat_base.c` below them, for calls that come one after the other.

The internal paths of the inodes are the keys of a table of interned objects (`Lib.Interning`), and what they mean is
the directory entry that the driver finds.  The model stops where the block of an inode does not exist, and where a path
is longer than the block that `kmalloc` gives for it.

* `fatFindInode`, `fatLookup`, `fatReaddir` — as in the source.
* `Mount.resolves` — the directory entry that an internal path names.
* `OneInode` — the inodes that have been returned are the same for the same entries, and only for those.
* `Spelled` — the entry of a path is not in memory under another spelling.
* `one_inode` — what holds in the runs of such calls.
* `other_case_splits` — and what becomes of a file whose name is written in the other case.
-/

namespace FreakOS
namespace Fat

open Lib
open Memory
open Fs (FR_DENIED)
open DirVolume (Traced)
open Locks (INODE_PNULL INDOE_NOT_DIR INODE_NOT_EXIST INODE_INTERNAL_ERR)

/-- `FR_OK`. -/
def FR_OK : Int := 0
/-- `INODE_OK`. -/
def INODE_OK : Int := 0
/-- `_DRIVES`. -/
def DRIVES : U8 := 8
/-- The bytes of a block that `kmalloc(INTERNAL_PATH_LEN)` gives: a page. -/
def PATH_BLOCK_LEN : Nat := 4096

/-! ### State -/

/-- `FATBase_FILE`, as far as `fatbase_open` takes it from the volume; `dir` is `dir_sect` and `dir_ptr`. -/
structure BaseFile where
  dir : EntryPos
  orgClust : U32
  fsize : U32
deriving DecidableEq, Repr

/-- `FATBase_InodeData_u`, with `fatinode_type`. -/
inductive InodeData where
  | file (fp : BaseFile)
  | dir (dj : DirPos)
deriving DecidableEq, Repr

/-- `INode_t` with its `FatINode_t`. -/
structure FatInode where
  addr : U32
  id : U32
  internalPath : List U8
  data : InodeData
deriving DecidableEq, Repr

/-- `FatFs_t`, with the window of the volume. -/
structure FatFs where
  window : Window
  nextId : U32
  inodeList : List FatInode
  /-- Not in the source: the internal paths for which `fat_find_inode` has returned an `INode_t`, with its address. -/
  found : List (List U8 × U32)
deriving DecidableEq, Repr

/-- What a mounted `FatFs_t` keeps: `fatbase_part_index`, and its volume in the table `Fat_SuperBlock`. -/
structure Mount where
  superBlocks : U8 → Option DirVolume
  partIndex : U32
  vol : DirVolume
  partIndex_lt : partIndex < DRIVES.setWidth 32
  registered : superBlocks (partIndex.setWidth 8) = some vol

/-- What `kmalloc` gives to a call: the path of `fat_lookup`, the internal path, and the `INode_t`. -/
structure Alloc where
  newPath : Bool
  internalPath : Bool
  inode : U32
deriving DecidableEq, Repr

namespace FatFs

/-- The `INode_t` at an address. -/
def node (s : FatFs) (inode : U32) : Option FatInode := s.inodeList.find? fun n => n.addr = inode

/-- `find_list_fatinode_with_internal_path_nolock(fatfs, inpath)`. -/
def findInternalPath (s : FatFs) (inpath : List U8) : Option FatInode :=
  s.inodeList.find? fun n => n.internalPath = inpath

/-- The `FATBase_DIR` of an inode has been moved. -/
def moveDir (s : FatFs) (inode : U32) (dj : DirPos) (w : Window) : FatFs :=
  { s with
    window := w
    inodeList := s.inodeList.map fun n => if n.addr = inode then { n with data := .dir dj } else n }

/-- `fat_find_inode` returns an `INode_t`. -/
def answer (s : FatFs) (inpath : List U8) (inode : U32) : FatFs := { s with found := (inpath, inode) :: s.found }

/-- `construct_fatinode_info` and `fat_add_inode_list`. -/
def construct (s : FatFs) (inode : U32) (inpath : List U8) (data : InodeData) : FatFs :=
  { s with
    nextId := s.nextId + 1
    inodeList := listAdd ⟨inode, s.nextId, inpath, data⟩ s.inodeList }

end FatFs

/-! ### Paths -/

/-- A path with a `/` in front. -/
def slashed (path : List U8) : List U8 := if path.head? = some (chr '/') then path else chr '/' :: path

/-- `bulid_internal_path(fatfs, dest, path)`. -/
def bulidInternalPath (m : Mount) (path : List U8) : List U8 :=
  (m.partIndex + (chr '0').setWidth 32).setWidth 8 :: chr ':' :: slashed path

/-- The path that `fat_lookup` puts together. -/
def lookupPath (inodeInPath relativePath : List U8) : List U8 :=
  let newInPath := inodeInPath.drop 2
  let newInPath :=
    if newInPath.getLast? ≠ some (chr '/') ∧ relativePath.head? ≠ some (chr '/') then newInPath ++ [chr '/']
    else newInPath
  newInPath ++ relativePath

/-- The drive number in front of a path, and the path behind it. -/
def driveOf : List U8 → U8 × List U8
  | c :: colon :: p => if c - chr '0' ≤ 9 ∧ colon = chr ':' then (c - chr '0', p) else (0, c :: colon :: p)
  | p => (0, p)

/-- `auto_mount(path, rfs, chk_wp)` for volumes that are mounted. -/
def autoMount (m : Mount) (path : List U8) : Except Int (DirVolume × List U8) :=
  let (drv, p) := driveOf (path.dropWhile fun c => c = chr ' ')
  let p := if p.head? = some (chr '/') then p.tail else p
  if drv ≥ DRIVES then .error FR_INVALID_DRIVE
  else
    match m.superBlocks drv with
    | none => .error FR_NOT_ENABLED
    | some fs => .ok (fs, p)

/-! ### The driver -/

/-- `fatbase_open(fp, path, FA_READ | FA_WRITE)`. -/
def fatbaseOpen (m : Mount) (path : List U8) (w : Window) : Res (Except Int BaseFile × Window) :=
  match autoMount m path with
  | .error res => .ok (.error res, w)
  | .ok (fs, path) => do
      let (dir, _, w) ← fs.tracePath path w
      match dir with
      | .failed res => return (.error res, w)
      | .root => return (.error FR_NO_FILE, w)
      | .entry pos =>
          let dir := fs.entry pos
          if dir.attr &&& AM_DIR ≠ 0 then return (.error FR_NO_FILE, w)
          else if dir.attr &&& AM_RDO ≠ 0 then return (.error FR_DENIED, w)
          else return (.ok ⟨pos, dir.clust, dir.fileSize⟩, w)

/-- `fatbase_opendir(dj, path)`. -/
def fatbaseOpendir (m : Mount) (dj : DirPos) (path : List U8) (w : Window) : Res (Int × DirPos × Window) :=
  match autoMount m path with
  | .error res => .ok (res, dj, w)
  | .ok (fs, path) => do
      let (dir, dj, w) ← fs.tracePath path w
      match dir with
      | .failed res => return (res, dj, w)
      | .root => return (FR_OK, dj, w)
      | .entry pos =>
          let dir := fs.entry pos
          if dir.attr &&& AM_DIR ≠ 0 then return (FR_OK, fs.dirPos dir.clust, w) else return (FR_NO_FILE, dj, w)

/-! ### `fat_inode.c` -/

/-- The part of `fat_find_inode` that reads the disk. -/
def openInode (m : Mount) (internalPath : List U8) (w : Window) : Res (Option InodeData × Window) := do
  let (file, w) ← fatbaseOpen m internalPath w
  match file with
  | .ok fp => return (some (.file fp), w)
  | .error _ =>
      let (res, dj, w) ← fatbaseOpendir m ⟨0, 0, 0⟩ internalPath w
      return (if res = FR_OK then some (.dir dj) else none, w)

/-- `fat_find_inode(fatfs, path)`. -/
def fatFindInode (m : Mount) (a : Alloc) (s : FatFs) (path : Option (List U8)) : Res (U32 × FatFs) :=
  match path with
  | none => .ok (NULL, s)
  | some path =>
      if !a.internalPath then .ok (NULL, s)
      else
        let internalPath := bulidInternalPath m path
        if internalPath.length ≥ PATH_BLOCK_LEN then .error .wildPointer
        else
          match s.findInternalPath internalPath with
          | some inode => .ok (inode.addr, s.answer internalPath inode.addr)
          | none =>
              if a.inode = NULL then .ok (NULL, s)
              else do
                let (data, w) ← openInode m internalPath s.window
                let s := { s with window := w }
                match data with
                | none => return (NULL, s)
                | some data => return (a.inode, (s.construct a.inode internalPath data).answer internalPath a.inode)

/-- `fat_lookup(inode, relative_path, inode_out)`, with what is stored at `inode_out`. -/
def fatLookup (m : Mount) (a : Alloc) (s : FatFs) (inode : U32) (relativePath : Option (List U8)) :
    Res ((Int × Option U32) × FatFs) :=
  match relativePath with
  | none => .ok ((-INODE_PNULL, none), s)
  | some relativePath =>
      if inode = NULL then .ok ((-INODE_PNULL, none), s)
      else
        match s.node inode with
        | none => .error .wildPointer
        | some n =>
            match n.data with
            | .file _ => .ok ((-INDOE_NOT_DIR, none), s)
            | .dir _ =>
                if !a.newPath then .ok ((-INODE_INTERNAL_ERR, none), s)
                else
                  let newInPath := lookupPath n.internalPath relativePath
                  if newInPath.length ≥ PATH_BLOCK_LEN then .error .wildPointer
                  else do
                    let (out, s) ← fatFindInode m a s (some newInPath)
                    if out = NULL then return ((-INODE_NOT_EXIST, none), s) else return ((INODE_OK, some out), s)

/-- `fat_readdir(inode, inode_out)`, with what is stored at `inode_out`; `out` says that `inode_out` is not `NULL`. -/
def fatReaddir (m : Mount) (a : Alloc) (s : FatFs) (inode : U32) (out : Bool) : Res ((Int × Option U32) × FatFs) :=
  if inode = NULL then .ok ((-INODE_PNULL, none), s)
  else
    match s.node inode with
    | none => .error .wildPointer
    | some n =>
        match n.data with
        | .file _ => .ok ((-INDOE_NOT_DIR, none), s)
        | .dir dj =>
            if !out then do
              let (ret, dj, w) ← fatbaseOpendir m dj n.internalPath s.window
              return ((if ret ≠ FR_OK then -INODE_INTERNAL_ERR else ret, none), s.moveDir inode dj w)
            else do
              let (fname, dj, w) ← m.vol.fatbaseReaddir dj s.window
              let s := s.moveDir inode dj w
              match fname with
              | none => return ((-INODE_INTERNAL_ERR, none), s)
              | some [] => return ((INODE_OK, some NULL), s)
              | some (c :: fname) => do
                  let ((ret, o), s) ← fatLookup m a s inode (some (c :: fname))
                  -- `ret` is the result of the comparison.
                  return ((if ret ≠ INODE_OK then 1 else 0, o), s)

/-! ### Runs -/

/-- A call. -/
inductive Call where
  | find (path : Option (List U8))
  | lookup (inode : U32) (relativePath : Option (List U8))
  | readdir (inode : U32) (out : Bool)
deriving DecidableEq, Repr

/-- The state after a call. -/
def exec (m : Mount) (a : Alloc) (s : FatFs) : Call → Res FatFs
  | .find path => do
      let (_, s) ← fatFindInode m a s path
      return s
  | .lookup inode relativePath => do
      let (_, s) ← fatLookup m a s inode relativePath
      return s
  | .readdir inode out => do
      let (_, s) ← fatReaddir m a s inode out
      return s

/-- `kmalloc` does not give the block of an inode that exists. -/
def Alloc.Fresh (a : Alloc) (s : FatFs) : Prop := a.inode ∉ s.inodeList.map FatInode.addr

/-- After `setFatFs` and `fatfs_mount`. -/
def FatFs.mounted (w : Window) : FatFs := ⟨w, 0, [], []⟩

/-- The states that calls lead to which meet the condition `P`. -/
inductive Run (m : Mount) (P : Alloc → FatFs → Call → Prop) : FatFs → Prop
  | mounted (w : Window) : Run m P (.mounted w)
  | call {a : Alloc} {s s' : FatFs} {c : Call} (hrun : Run m P s) (hfresh : a.Fresh s) (hcond : P a s c)
      (hexec : exec m a s c = .ok s') : Run m P s'

/-! ### The meaning of paths -/

/-- The directory entry of the volume that an internal path names. -/
def Mount.resolves (m : Mount) (internalPath : List U8) : Res Traced :=
  match autoMount m internalPath with
  | .error res => .ok (.failed res)
  | .ok (fs, path) => (fs.steady.tracePath path ⟨0, 0⟩).map Prod.fst

/-- The table of inodes. -/
def FatFs.interning (s : FatFs) : Interning.State (List U8) U32 :=
  ⟨s.inodeList.map fun n => (n.internalPath, n.addr), s.found⟩

/-- One file, one inode. -/
structure OneInode (m : Mount) (s : FatFs) : Prop where
  /-- A path that has been looked up names the root directory, or a directory entry. -/
  named : ∀ l ∈ s.found, m.resolves l.1 = .ok .root ∨ ∃ pos, m.resolves l.1 = .ok (.entry pos)
  /-- Two lookups have returned the same `INode_t` if and only if the paths name the same directory entry. -/
  lookups : Interning.OneObject m.resolves s.interning
  /-- No two `FATBase_FILE` are for the same directory entry. -/
  files : ∀ n ∈ s.inodeList, ∀ n' ∈ s.inodeList, ∀ fp fp', n.data = .file fp → n'.data = .file fp' →
    fp.dir = fp'.dir → n = n'

/-- The entry that a path names is not in memory under another spelling, if the path can be opened. -/
def SpelledPath (m : Mount) (a : Alloc) (s : FatFs) (path : List U8) : Prop :=
  a.internalPath = true → a.inode ≠ NULL →
    ∀ data w, openInode m (bulidInternalPath m path) s.window = .ok (some data, w) →
      ∀ n ∈ s.inodeList, m.resolves n.internalPath = m.resolves (bulidInternalPath m path) →
        n.internalPath = bulidInternalPath m path

/-- The path that a call hands to `fat_find_inode`, and the state then. -/
inductive Asks (m : Mount) (a : Alloc) (s : FatFs) : Call → List U8 → FatFs → Prop
  | find {path : List U8} : Asks m a s (.find (some path)) path s
  | lookup {inode : U32} {n : FatInode} {dj : DirPos} {path : List U8} (hnode : s.node inode = some n)
      (hdir : n.data = .dir dj) (halloc : a.newPath = true) :
      Asks m a s (.lookup inode (some path)) (lookupPath n.internalPath path) s
  | readdir {inode : U32} {n : FatInode} {dj dj' : DirPos} {w : Window} {fname : List U8}
      (hnode : s.node inode = some n) (hdir : n.data = .dir dj) (halloc : a.newPath = true)
      (hread : m.vol.fatbaseReaddir dj s.window = .ok (some fname, dj', w)) (hname : fname ≠ []) :
      Asks m a s (.readdir inode true) (lookupPath n.internalPath fname) (s.moveDir inode dj' w)

/-- The call does not ask for an entry that is in memory under another spelling. -/
def Spelled (m : Mount) (a : Alloc) (s : FatFs) (c : Call) : Prop :=
  ∀ path s₁, Asks m a s c path s₁ → SpelledPath m a s₁ path

/-! ### The invariant -/

/-- What the driver has opened is what the internal path of the inode names. -/
def Opened (m : Mount) (internalPath : List U8) : InodeData → Prop
  | .file fp => m.resolves internalPath = .ok (.entry fp.dir)
  | .dir _ => m.resolves internalPath = .ok .root ∨ ∃ pos, m.resolves internalPath = .ok (.entry pos)

theorem Opened.named {m : Mount} {internalPath : List U8} {data : InodeData} (h : Opened m internalPath data) :
    m.resolves internalPath = .ok .root ∨ ∃ pos, m.resolves internalPath = .ok (.entry pos) := by
  cases data with
  | file fp => exact .inr ⟨fp.dir, h⟩
  | dir dj => exact h

/-- The invariant of a mounted volume. -/
structure Inv (m : Mount) (s : FatFs) : Prop where
  interning : Interning.Inv s.interning
  opened : ∀ n ∈ s.inodeList, Opened m n.internalPath n.data

section Driver

variable {m : Mount} {path : List U8} {w w' : Window}

theorem autoMount_error {res : Int} (h : autoMount m path = .error res) : res ≠ FR_OK := by
  unfold autoMount at h
  simp only at h
  split at h
  · cases h
    decide
  · split at h
    · cases h
      decide
    · cases h

/-- What is traced in spite of failures is what the path names. -/
theorem resolves_of_tracePath {fs : DirVolume} {p : List U8} {t : Traced} {dj : DirPos}
    (hmount : autoMount m path = .ok (fs, p)) (htrace : fs.tracePath p w = .ok (t, dj, w'))
    (hok : ∀ code, t ≠ .failed code) : m.resolves path = .ok t := by
  obtain ⟨u, hu⟩ := DirVolume.tracePath_steady htrace hok ⟨0, 0⟩
  unfold Mount.resolves
  rw [hmount]
  simp only [hu, Except.map]

theorem fatbaseOpen_resolves {fp : BaseFile} (h : fatbaseOpen m path w = .ok (.ok fp, w')) :
    m.resolves path = .ok (.entry fp.dir) := by
  unfold fatbaseOpen at h
  split at h
  · cases h
  · next fs p hmount =>
      obtain ⟨⟨t, dj, w₁⟩, htrace, h⟩ := Res.bind_eq_ok.mp h
      cases t with
      | failed code => cases h
      | root => cases h
      | entry pos =>
          simp only at h
          split at h
          · cases h
          · split at h
            · cases h
            · cases h
              exact resolves_of_tracePath hmount htrace fun _ => Traced.noConfusion

theorem fatbaseOpendir_resolves {dj dj' : DirPos} (h : fatbaseOpendir m dj path w = .ok (FR_OK, dj', w')) :
    m.resolves path = .ok .root ∨ ∃ pos, m.resolves path = .ok (.entry pos) := by
  unfold fatbaseOpendir at h
  split at h
  · next res hmount =>
      obtain ⟨hres, -⟩ := Prod.mk.inj (Except.ok.inj h)
      exact absurd hres (autoMount_error hmount)
  · next fs p hmount =>
      obtain ⟨⟨t, dj₁, w₁⟩, htrace, h⟩ := Res.bind_eq_ok.mp h
      cases t with
      | failed code =>
          obtain ⟨hcode, -⟩ := Prod.mk.inj (Except.ok.inj h)
          exact absurd hcode (DirVolume.tracePath_failed htrace)
      | root => exact .inl (resolves_of_tracePath hmount htrace fun _ => Traced.noConfusion)
      | entry pos => exact .inr ⟨pos, resolves_of_tracePath hmount htrace fun _ => Traced.noConfusion⟩

theorem openInode_opened {data : InodeData} (h : openInode m path w = .ok (some data, w')) : Opened m path data := by
  obtain ⟨⟨file, w₁⟩, hopen, h⟩ := Res.bind_eq_ok.mp h
  cases file with
  | ok fp =>
      cases h
      exact fatbaseOpen_resolves hopen
  | error res =>
      obtain ⟨⟨ret, dj, w₂⟩, hopendir, h⟩ := Res.bind_eq_ok.mp h
      simp only at h
      split at h
      · next hret =>
          cases h
          rw [hret] at hopendir
          exact fatbaseOpendir_resolves hopendir
      · cases h

end Driver

/-! ### Steps -/

section Steps

variable {m : Mount} {a : Alloc} {s s' : FatFs}

theorem Inv.mounted (w : Window) : Inv m (.mounted w) := ⟨Interning.Inv.init, fun _ h => absurd h List.not_mem_nil⟩

/-- An inode is in the table, and the table has nothing else. -/
theorem mem_table {l : List U8 × U32} : l ∈ s.interning.table ↔ ∃ n ∈ s.inodeList, (n.internalPath, n.addr) = l :=
  List.mem_map

theorem Inv.eq_of_path (h : Inv m s) {n n' : FatInode} (hn : n ∈ s.inodeList) (hn' : n' ∈ s.inodeList)
    (heq : n.internalPath = n'.internalPath) : n = n' := by
  have hnodup : (s.inodeList.map FatInode.internalPath).Nodup := by
    have hkeys := h.interning.keys
    unfold FatFs.interning at hkeys
    rwa [List.map_map] at hkeys
  exact List.inj_on_of_nodup_map hnodup hn hn' heq

/-- One file, one inode: that is so if the table is right. -/
theorem Inv.oneInode_iff (h : Inv m s) : OneInode m s ↔ Interning.OneObject m.resolves s.interning := by
  constructor
  · exact OneInode.lookups
  · intro hone
    have hpath := h.interning.oneObject_iff.mp hone
    constructor
    · intro l hl
      obtain ⟨n, hn, rfl⟩ := mem_table.mp ((h.interning.mem_answered l).mp hl)
      exact (h.opened n hn).named
    · exact hone
    · intro n hn n' hn' fp fp' hfile hfile' hdir
      have hopened := h.opened n hn
      have hopened' := h.opened n' hn'
      rw [hfile] at hopened
      rw [hfile'] at hopened'
      -- The entries are those that the internal paths name, so the paths mean the same.
      have hmeaning : m.resolves n.internalPath = m.resolves n'.internalPath := by
        rw [show m.resolves n.internalPath = _ from hopened, show m.resolves n'.internalPath = _ from hopened', hdir]
      exact h.eq_of_path hn hn' (hpath _ (mem_table.mpr ⟨n, hn, rfl⟩) _ (mem_table.mpr ⟨n', hn', rfl⟩) hmeaning)

/-- The ends of `fat_find_inode`. -/
inductive FindEnd (m : Mount) (a : Alloc) (s : FatFs) (path : List U8) : U32 → FatFs → Prop
  /-- The path is not opened. -/
  | nothing (w : Window) (hnot : a.internalPath = true → a.inode ≠ NULL →
      ∀ data w, openInode m (bulidInternalPath m path) s.window ≠ .ok (some data, w)) :
      FindEnd m a s path NULL { s with window := w }
  /-- There is an inode with the internal path. -/
  | inMemory {n : FatInode} (hmem : n ∈ s.inodeList) (hpath : n.internalPath = bulidInternalPath m path) :
      FindEnd m a s path n.addr (s.answer (bulidInternalPath m path) n.addr)
  /-- A new one is made. -/
  | made {data : InodeData} {w : Window} (hpath : a.internalPath = true) (hinode : a.inode ≠ NULL)
      (hnew : ∀ n ∈ s.inodeList, n.internalPath ≠ bulidInternalPath m path)
      (hopen : openInode m (bulidInternalPath m path) s.window = .ok (some data, w)) :
      FindEnd m a s path a.inode
        (({ s with window := w }.construct a.inode (bulidInternalPath m path) data).answer (bulidInternalPath m path)
          a.inode)

theorem fatFindInode_end {path : List U8} {r : U32} (h : fatFindInode m a s (some path) = .ok (r, s')) :
    FindEnd m a s path r s' := by
  unfold fatFindInode at h
  simp only at h
  split at h
  · next hpath =>
      cases h
      exact .nothing s.window fun halloc => by simp [halloc] at hpath
  · next hpath =>
      split at h
      · cases h
      · split at h
        · next n hfind =>
            cases h
            have hkey : n.internalPath = bulidInternalPath m path := by simpa using List.find?_some hfind
            exact .inMemory (List.mem_of_find?_eq_some hfind) hkey
        · next hfind =>
            split at h
            · next hinode =>
                cases h
                exact .nothing s.window fun _ hne => absurd hinode hne
            · next hinode =>
                obtain ⟨⟨data, w⟩, hopen, h⟩ := Res.bind_eq_ok.mp h
                cases data with
                | none =>
                    cases h
                    refine .nothing w fun _ _ data w' hopen' => ?_
                    rw [hopen] at hopen'
                    cases hopen'
                | some data =>
                    cases h
                    refine .made (by simpa using hpath) hinode (fun n hn hkey => ?_) hopen
                    have hnone := List.find?_eq_none.mp hfind n hn
                    simp [hkey] at hnone

/-- An inode that is found in the list. -/
theorem ask_inMemory {n : FatInode} {inpath : List U8} (hmem : n ∈ s.inodeList) (hpath : n.internalPath = inpath) :
    Interning.Ask inpath s.interning (s.answer inpath n.addr).interning := by
  have htable : (inpath, n.addr) ∈ s.interning.table := by
    rw [← hpath]
    exact mem_table.mpr ⟨n, hmem, rfl⟩
  exact .hit htable

/-- An inode that is made. -/
theorem ask_made {inpath : List U8} (hnew : ∀ n ∈ s.inodeList, n.internalPath ≠ inpath) (hfresh : a.Fresh s)
    (data : InodeData) (w : Window) :
    Interning.Ask inpath s.interning
      (({ s with window := w }.construct a.inode inpath data).answer inpath a.inode).interning := by
  have hkey : inpath ∉ s.interning.table.map Prod.fst := by
    intro hkey
    obtain ⟨l, hl, hkey⟩ := List.mem_map.mp hkey
    obtain ⟨n, hn, rfl⟩ := mem_table.mp hl
    exact hnew n hn hkey
  have hobject : a.inode ∉ s.interning.table.map Prod.snd := by
    intro hobject
    obtain ⟨l, hl, hobject⟩ := List.mem_map.mp hobject
    obtain ⟨n, hn, rfl⟩ := mem_table.mp hl
    exact hfresh (List.mem_map.mpr ⟨n, hn, hobject⟩)
  exact .miss hkey hobject

theorem FindEnd.inv {path : List U8} {r : U32} (hend : FindEnd m a s path r s') (h : Inv m s) (hfresh : a.Fresh s) :
    Inv m s' := by
  cases hend with
  | nothing w hnot => exact ⟨h.interning, h.opened⟩
  | inMemory hmem hpath => exact ⟨(ask_inMemory hmem hpath).inv h.interning, h.opened⟩
  | @made data w hpath hinode hnew hopen =>
      constructor
      · exact (ask_made hnew hfresh data w).inv h.interning
      · intro n hn
        cases List.mem_cons.mp hn with
        | inl heq =>
            rw [heq]
            exact openInode_opened hopen
        | inr hn => exact h.opened n hn

/-- `fat_find_inode` keeps one inode for a file if and only if the file is not in memory under another spelling. -/
theorem FindEnd.oneInode_iff {path : List U8} {r : U32} (hend : FindEnd m a s path r s') (h : Inv m s)
    (hfresh : a.Fresh s) (hone : OneInode m s) : OneInode m s' ↔ SpelledPath m a s path := by
  have hinv := hend.inv h hfresh
  have hlookups := hone.lookups
  rw [hinv.oneInode_iff]
  cases hend with
  | nothing w hnot =>
      constructor
      · intro _ hpath hinode data w' hopen
        exact absurd hopen (hnot hpath hinode data w')
      · exact fun _ => hlookups
  | @inMemory n₀ hmem hpath =>
      -- Both sides hold: the inode that is found already stands for the entry.
      have hother : ∀ n ∈ s.inodeList, m.resolves n.internalPath = m.resolves (bulidInternalPath m path) →
          n.internalPath = bulidInternalPath m path := by
        intro n hn hmeaning
        rw [← hpath] at hmeaning ⊢
        exact h.interning.oneObject_iff.mp hlookups _ (mem_table.mpr ⟨n, hn, rfl⟩) _ (mem_table.mpr ⟨n₀, hmem, rfl⟩)
          hmeaning
      rw [(ask_inMemory hmem hpath).oneObject_iff h.interning hlookups]
      constructor
      · exact fun _ _ _ _ _ _ => hother
      · intro _ l hl
        obtain ⟨n, hn, rfl⟩ := mem_table.mp hl
        exact hother n hn
  | @made data w hpath hinode hnew hopen =>
      rw [(ask_made hnew hfresh data w).oneObject_iff h.interning hlookups]
      constructor
      · intro hother _ _ _ _ _ n hn
        exact hother _ (mem_table.mpr ⟨n, hn, rfl⟩)
      · intro hspelled l hl
        obtain ⟨n, hn, rfl⟩ := mem_table.mp hl
        exact hspelled hpath hinode data w hopen n hn

theorem fatFindInode_oneInode_iff {path : List U8} {r : U32} (h : Inv m s) (hfresh : a.Fresh s) (hone : OneInode m s)
    (hfind : fatFindInode m a s (some path) = .ok (r, s')) : OneInode m s' ↔ SpelledPath m a s path :=
  (fatFindInode_end hfind).oneInode_iff h hfresh hone

/-! ### The pointers of directories -/

variable {inode : U32} {dj : DirPos} {w : Window}

theorem moveDir_interning : (s.moveDir inode dj w).interning = s.interning := by
  unfold FatFs.interning FatFs.moveDir
  simp only [List.map_map]
  congr 1
  apply List.map_congr_left
  intro n _
  simp only [Function.comp_apply]
  split <;> rfl

theorem moveDir_fresh (hfresh : a.Fresh s) : a.Fresh (s.moveDir inode dj w) := by
  unfold Alloc.Fresh FatFs.moveDir at *
  rw [List.map_map]
  intro hmem
  obtain ⟨n, hn, heq⟩ := List.mem_map.mp hmem
  refine hfresh (List.mem_map.mpr ⟨n, hn, ?_⟩)
  rw [← heq, Function.comp_apply]
  split <;> rfl

theorem moveDir_inv (h : Inv m s) : Inv m (s.moveDir inode dj w) := by
  constructor
  · rw [moveDir_interning]
    exact h.interning
  · intro n' hn'
    obtain ⟨n, hn, rfl⟩ := List.mem_map.mp hn'
    split
    · exact (h.opened n hn).named
    · exact h.opened n hn

theorem moveDir_oneInode (h : Inv m s) (hone : OneInode m s) : OneInode m (s.moveDir inode dj w) := by
  rw [(moveDir_inv h).oneInode_iff, moveDir_interning]
  exact hone.lookups

/-- The inode is the same but for its pointer. -/
theorem moveDir_node {n' : FatInode} (hnode : (s.moveDir inode dj w).node inode = some n') :
    ∃ n, s.node inode = some n ∧ n'.internalPath = n.internalPath := by
  unfold FatFs.node FatFs.moveDir at *
  rw [List.find?_map] at hnode
  obtain ⟨n, hn, rfl⟩ := Option.map_eq_some_iff.mp hnode
  refine ⟨n, ?_, by split <;> rfl⟩
  rw [← hn]
  congr 1
  funext x
  simp only [Function.comp_apply]
  split <;> rfl

/-! ### `fat_lookup` and `fat_readdir` -/

/-- `fat_lookup` changes nothing, or it finds an inode. -/
theorem fatLookup_asks {path : Option (List U8)} {r : Int × Option U32} (h : fatLookup m a s inode path = .ok (r, s')) :
    s' = s ∨ ∃ n dj p out, s.node inode = some n ∧ n.data = .dir dj ∧ a.newPath = true ∧ path = some p ∧
      fatFindInode m a s (some (lookupPath n.internalPath p)) = .ok (out, s') := by
  unfold fatLookup at h
  split at h
  · cases h
    exact .inl rfl
  · next p =>
      split at h
      · cases h
        exact .inl rfl
      · split at h
        · cases h
        · next n hnode =>
            split at h
            · cases h
              exact .inl rfl
            · next dj hdir =>
                split at h
                · cases h
                  exact .inl rfl
                · next halloc =>
                    simp only at h
                    split at h
                    · cases h
                    · obtain ⟨⟨out, s₁⟩, hfind, h⟩ := Res.bind_eq_ok.mp h
                      have hs : s₁ = s' := by
                        simp only at h
                        split at h <;> cases h <;> rfl
                      subst hs
                      exact .inr ⟨n, dj, p, out, hnode, hdir, by simpa using halloc, rfl, hfind⟩

theorem fatLookup_keeps {path : Option (List U8)} {r : Int × Option U32} (h : Inv m s) (hone : OneInode m s)
    (hfresh : a.Fresh s) (hrun : fatLookup m a s inode path = .ok (r, s'))
    (hspelled : ∀ n dj p, s.node inode = some n → n.data = .dir dj → a.newPath = true → path = some p →
      SpelledPath m a s (lookupPath n.internalPath p)) : Inv m s' ∧ OneInode m s' := by
  cases fatLookup_asks hrun with
  | inl heq =>
      rw [heq]
      exact ⟨h, hone⟩
  | inr hasks =>
      obtain ⟨n, dj, p, out, hnode, hdir, halloc, hpath, hfind⟩ := hasks
      have hend := fatFindInode_end hfind
      exact ⟨hend.inv h hfresh, (hend.oneInode_iff h hfresh hone).mpr (hspelled n dj p hnode hdir halloc hpath)⟩

theorem fatReaddir_keeps {out : Bool} {r : Int × Option U32} (h : Inv m s) (hone : OneInode m s)
    (hfresh : a.Fresh s) (hrun : fatReaddir m a s inode out = .ok (r, s'))
    (hspelled : Spelled m a s (.readdir inode out)) : Inv m s' ∧ OneInode m s' := by
  unfold fatReaddir at hrun
  split at hrun
  · cases hrun
    exact ⟨h, hone⟩
  split at hrun
  · cases hrun
  · next n hnode =>
      split at hrun
      · cases hrun
        exact ⟨h, hone⟩
      · next dj hdir =>
          cases out with
          | false =>
              obtain ⟨⟨ret, dj', w⟩, -, hrun⟩ := Res.bind_eq_ok.mp hrun
              cases hrun
              exact ⟨moveDir_inv h, moveDir_oneInode h hone⟩
          | true =>
              obtain ⟨⟨fname, dj', w⟩, hread, hrun⟩ := Res.bind_eq_ok.mp hrun
              have hinv : Inv m (s.moveDir inode dj' w) := moveDir_inv h
              have hone' : OneInode m (s.moveDir inode dj' w) := moveDir_oneInode h hone
              simp only at hrun
              split at hrun
              · cases hrun
                exact ⟨hinv, hone'⟩
              · cases hrun
                exact ⟨hinv, hone'⟩
              · next c fname =>
                  obtain ⟨⟨⟨ret, o⟩, s₁⟩, hlookup, hrun⟩ := Res.bind_eq_ok.mp hrun
                  cases hrun
                  -- `fat_lookup` sees the inode with its pointer moved, but under the same path.
                  apply fatLookup_keeps hinv hone' (moveDir_fresh hfresh) hlookup
                  intro n' dj₁ p hnode' _ halloc hp
                  obtain ⟨n₀, hnode₀, hpath⟩ := moveDir_node hnode'
                  obtain rfl : n = n₀ := Option.some.inj (hnode.symm.trans hnode₀)
                  cases hp
                  rw [hpath]
                  exact hspelled _ _ (.readdir hnode hdir halloc hread (List.cons_ne_nil c fname))

/-- A call that does not ask for an entry under another spelling keeps one inode for a file. -/
theorem exec_keeps {c : Call} (h : Inv m s) (hone : OneInode m s) (hfresh : a.Fresh s) (hspelled : Spelled m a s c)
    (hexec : exec m a s c = .ok s') : Inv m s' ∧ OneInode m s' := by
  cases c with
  | find path =>
      obtain ⟨⟨r, s₁⟩, hfind, hexec⟩ := Res.bind_eq_ok.mp hexec
      cases hexec
      cases path with
      | none =>
          cases hfind
          exact ⟨h, hone⟩
      | some path =>
          have hend := fatFindInode_end hfind
          exact ⟨hend.inv h hfresh, (hend.oneInode_iff h hfresh hone).mpr (hspelled path s .find)⟩
  | lookup inode path =>
      obtain ⟨⟨r, s₁⟩, hlookup, hexec⟩ := Res.bind_eq_ok.mp hexec
      cases hexec
      apply fatLookup_keeps h hone hfresh hlookup
      intro n dj p hnode hdir halloc hp
      rw [hp] at hspelled
      exact hspelled _ s (.lookup hnode hdir halloc)
  | readdir inode out =>
      obtain ⟨⟨r, s₁⟩, hreaddir, hexec⟩ := Res.bind_eq_ok.mp hexec
      cases hexec
      exact fatReaddir_keeps h hone hfresh hreaddir hspelled

theorem OneInode.mounted (w : Window) : OneInode m (.mounted w) :=
  (Inv.mounted w).oneInode_iff.mpr fun _ h => absurd h List.not_mem_nil

theorem run_inv (hrun : Run m (Spelled m) s) : Inv m s ∧ OneInode m s := by
  induction hrun with
  | mounted w => exact ⟨.mounted w, .mounted w⟩
  | call _ hfresh hspelled hexec ih => exact exec_keeps ih.1 ih.2 hfresh hspelled hexec

end Steps

/-- In every run of calls that do not ask for an entry which is in memory under another spelling, one file has one
inode. -/
theorem one_inode (m : Mount) (s : FatFs) (hrun : Run m (Spelled m) s) : OneInode m s := (run_inv hrun).2

/-! ### A volume with one file -/

/-- `A.TXT`, which starts in cluster 2 and has 5 bytes. -/
def smallRoot : List U8 :=
  ['A', ' ', ' ', ' ', ' ', ' ', ' ', ' ', 'T', 'X', 'T'].map chr ++ 0x20 :: List.replicate 14 0 ++ [2, 0, 5, 0, 0, 0]

/-- A volume with `A.TXT` in its root directory. -/
def smallVolume : DirVolume where
  fsType := .fat16
  fatbase := 1
  dirbase := 3
  database := 4
  nRootdir := 16
  maxClust := 100
  sectsClust := 1
  sector := fun sect off => if sect = 3 then smallRoot.getD off 0 else 0
  ok := fun _ => true
  root_sect := by decide

/-- The volume as drive 0. -/
def smallMount : Mount where
  superBlocks := fun drv => if drv = 0 then some smallVolume else none
  partIndex := 0
  vol := smallVolume
  partIndex_lt := by decide
  registered := rfl

/-- `/a.txt` and `/A.TXT`. -/
def lowerPath : List U8 := ['/', 'a', '.', 't', 'x', 't'].map chr
@[inherit_doc lowerPath] def upperPath : List U8 := ['/', 'A', '.', 'T', 'X', 'T'].map chr

/-- The inode that is made for the file. -/
def smallInode (addr id : U32) (path : List U8) : FatInode :=
  ⟨addr, id, bulidInternalPath smallMount path, .file ⟨⟨3, 0⟩, 2, 5⟩⟩

/-- After the first lookup. -/
def smallFound : FatFs :=
  ⟨⟨3, 1⟩, 1, [smallInode 0xC0200000 0 lowerPath], [(bulidInternalPath smallMount lowerPath, 0xC0200000)]⟩

theorem smallFound_run {P : Alloc → FatFs → Call → Prop}
    (hcond : P ⟨true, true, 0xC0200000⟩ (.mounted ⟨0, 0⟩) (.find (some lowerPath))) : Run smallMount P smallFound :=
  .call (.mounted ⟨0, 0⟩) List.not_mem_nil hcond (by decide +kernel)

/-- The file is looked up twice under one spelling, the second time without the `/`. -/
theorem one_inode_twice : OneInode smallMount
    { smallFound with found := (bulidInternalPath smallMount lowerPath, 0xC0200000) :: smallFound.found } := by
  apply one_inode
  apply Run.call (a := ⟨true, true, 0xC0201000⟩) (c := .find (some lowerPath.tail)) (smallFound_run _)
  · unfold Alloc.Fresh
    decide
  · intro path s₁ hasks
    cases hasks
    intro _ _ _ _ _ n hn _
    obtain rfl : n = smallInode 0xC0200000 0 lowerPath := List.mem_singleton.mp hn
    decide +kernel
  · decide +kernel
  · intro path s₁ hasks
    cases hasks
    intro _ _ _ _ _ n hn _
    exact absurd hn List.not_mem_nil

/-- Looked up as `/a.txt` and as `/A.TXT`, one file has two inodes. -/
theorem two_inodes : ∃ s, Run smallMount (fun _ _ _ => True) s ∧ ¬ OneInode smallMount s := by
  have hfresh : Alloc.Fresh ⟨true, true, 0xC0201000⟩ smallFound := by
    unfold Alloc.Fresh
    decide
  have hexec : exec smallMount ⟨true, true, 0xC0201000⟩ smallFound (.find (some upperPath)) =
      .ok ((smallFound.construct 0xC0201000 (bulidInternalPath smallMount upperPath) (.file ⟨⟨3, 0⟩, 2, 5⟩)).answer
        (bulidInternalPath smallMount upperPath) 0xC0201000) := by
    decide +kernel
  refine ⟨_, .call (smallFound_run trivial) hfresh trivial hexec, ?_⟩
  intro hone
  have hsame := hone.files (smallInode 0xC0201000 1 upperPath) List.mem_cons_self
    (smallInode 0xC0200000 0 lowerPath) (List.mem_cons_of_mem _ List.mem_cons_self) _ _ rfl rfl rfl
  exact absurd (congrArg FatInode.addr hsame) (by decide)

/-! ### The other case of letters -/

section Case

variable {m : Mount} {path path' : List U8}

theorem slashed_upper (path : List U8) : (slashed path).map upper = slashed (path.map upper) := by
  have hslash : upper (chr '/') = chr '/' := by decide
  cases path with
  | nil => rfl
  | cons c path =>
      unfold slashed
      simp only [List.head?_cons, List.map_cons, Option.some.injEq, slash_upper]
      split
      · rfl
      · rw [List.map_cons, List.map_cons, hslash]

theorem drive_digit : ∀ c : U8, c < DRIVES → c + chr '0' ≠ chr ' ' ∧ c + chr '0' - chr '0' = c ∧ c ≤ 9 ∧ ¬ c ≥ DRIVES := by
  decide

/-- The driver traces an internal path on the volume that it was built for. -/
theorem autoMount_internalPath (m : Mount) (path : List U8) :
    autoMount m (bulidInternalPath m path) = .ok (m.vol, (slashed path).tail) := by
  have hhead : (slashed path).head? = some (chr '/') := by
    unfold slashed
    split
    · next h => exact h
    · rfl
  have hdrive : (m.partIndex + (chr '0').setWidth 32).setWidth 8 = m.partIndex.setWidth 8 + chr '0' := by
    rw [BitVec.setWidth_add _ _ (by decide)]
    rfl
  have hlt : m.partIndex.setWidth 8 < DRIVES := by
    have hlt := m.partIndex_lt
    simp only [BitVec.lt_def, BitVec.toNat_setWidth, DRIVES] at hlt ⊢
    omega
  obtain ⟨hspace, hdigit, hnine, hdrives⟩ := drive_digit _ hlt
  unfold autoMount bulidInternalPath
  rw [hdrive, List.dropWhile_cons_of_neg (by simpa using hspace)]
  simp only [driveOf, hdigit, hnine, hhead, m.registered, and_self, if_true, if_neg hdrives]

theorem resolves_bulid (m : Mount) (path : List U8) : m.resolves (bulidInternalPath m path) =
    (m.vol.steady.tracePath (slashed path).tail ⟨0, 0⟩).map Prod.fst := by
  unfold Mount.resolves
  rw [autoMount_internalPath]

/-- Paths in ASCII that differ only in the case of letters name the same entry. -/
theorem resolves_upper (hascii : ∀ c ∈ path, c < 0x80) (hascii' : ∀ c ∈ path', c < 0x80)
    (h : path.map upper = path'.map upper) :
    m.resolves (bulidInternalPath m path) = m.resolves (bulidInternalPath m path') := by
  have htail : ∀ p : List U8, (∀ c ∈ p, c < 0x80) → ∀ c ∈ (slashed p).tail, c < 0x80 := by
    intro p hp c hc
    have hmem := List.mem_of_mem_tail hc
    unfold slashed at hmem hc
    split at hc
    · exact hp c (List.mem_of_mem_tail hc)
    · exact hp c hc
  have hupper : (slashed path).tail.map upper = (slashed path').tail.map upper := by
    rw [List.map_tail, List.map_tail, slashed_upper, slashed_upper, h]
  rw [resolves_bulid, resolves_bulid, DirVolume.tracePath_upper (htail path hascii) (htail path' hascii') hupper]

/-- A file that is in memory gets a second inode when its name is looked up in the other case. -/
theorem other_case_splits {a : Alloc} {s s' : FatFs} {n : FatInode} {r : U32} (hrun : Run m (Spelled m) s)
    (hfresh : a.Fresh s) (hn : n ∈ s.inodeList) (hpath : n.internalPath = bulidInternalPath m path)
    (hascii : ∀ c ∈ path, c < 0x80) (hascii' : ∀ c ∈ path', c < 0x80) (hcase : path.map upper = path'.map upper)
    (hne : bulidInternalPath m path ≠ bulidInternalPath m path')
    (hfind : fatFindInode m a s (some path') = .ok (r, s')) (hr : r ≠ NULL) : ¬ OneInode m s' := by
  obtain ⟨hinv, hone⟩ := run_inv hrun
  have hmeaning : m.resolves n.internalPath = m.resolves (bulidInternalPath m path') := by
    rw [hpath]
    exact resolves_upper hascii hascii' hcase
  have hend := fatFindInode_end hfind
  intro hone'
  have hspelled := (hend.oneInode_iff hinv hfresh hone).mp hone'
  cases hend with
  | nothing w hnot => exact hr rfl
  | @inMemory n' hn' hpath' =>
      have hsame := hinv.interning.oneObject_iff.mp hone.lookups _ (mem_table.mpr ⟨n, hn, rfl⟩) _
        (mem_table.mpr ⟨n', hn', rfl⟩) (by rw [hpath']; exact hmeaning)
      exact hne (hpath.symm.trans (hsame.trans hpath'))
  | made halloc hinode hnew hopen => exact hne (hpath.symm.trans (hspelled halloc hinode _ _ hopen n hn hmeaning))

end Case

end Fat
end FreakOS
