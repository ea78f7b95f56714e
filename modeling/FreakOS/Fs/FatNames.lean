import FreakOS.Fs.FatSeek

/-!
# Names and directories of a FAT volume

`make_dirfile`, `trace_path`, `next_dir_entry`, `get_cluster`, `get_fileinfo` and `fatbase_readdir` of `fat_base.c`, on
the sectors of a volume that is only read.

A string is the list of its bytes without the final `\0`.  Every reading from the device may fail.

* `makeDirfile` — a segment of a path in the format of a directory entry.
* `tracePath` — the entry that a path names.
* `fatbaseReaddir` — the names that a directory shows.
* `tracePath_steady` — what is found in spite of failures is what there is.
* `tracePath_upper` — the case of letters does not matter for the entry.
-/

namespace FreakOS
namespace Fat

open Lib
open Memory
open Fs (FR_RW_ERROR SECTOR_SIZE)

/-- `WORD`. -/
abbrev U16 := BitVec 16

/-! ### Constants -/

/-- `FR_NO_FILE` and the other codes of `FRESULT`. -/
def FR_NO_FILE : Int := 2
@[inherit_doc FR_NO_FILE] def FR_NO_PATH : Int := 3
@[inherit_doc FR_NO_FILE] def FR_INVALID_NAME : Int := 4
@[inherit_doc FR_NO_FILE] def FR_INVALID_DRIVE : Int := 5
@[inherit_doc FR_NO_FILE] def FR_NOT_ENABLED : Int := 10

/-- `AM_RDO` and the other bits of `DIR_Attr`. -/
def AM_RDO : U8 := 0x01#8
@[inherit_doc AM_RDO] def AM_VOL : U8 := 0x08#8
@[inherit_doc AM_RDO] def AM_DIR : U8 := 0x10#8

/-- The byte of an ASCII character. -/
def chr (c : Char) : U8 := BitVec.ofNat 8 c.toNat

/-! ### `make_dirfile` -/

/-- The locals of `make_dirfile`: the place `n` for the next byte, the end `t` of the part of the name, the flags `a` and
`b`, and `dirname`. -/
structure NameState where
  n : Nat
  t : Nat
  a : U8
  b : U8
  dirname : List U8
deriving DecidableEq, Repr

/-- A segment in the format of a directory entry. -/
structure DirName where
  name : List U8
  ntFlag : U8
deriving DecidableEq, Repr

/-- `make_dirfile` starts with a name of spaces. -/
def NameState.init : NameState := ⟨0, 8, 0x00, 0x18, List.replicate 11 (chr ' ')⟩

/-- `dirname[n++] = c`, at the label `md_l2`. -/
def NameState.put (s : NameState) (c : U8) : Option NameState :=
  if s.n ≥ s.t then none else some { s with n := s.n + 1, dirname := s.dirname.set s.n c }

/-- The label `md_l1`. -/
def NameState.putPlain (s : NameState) (c : U8) : Option NameState := { s with a := s.a &&& 0xFE }.put c

/-- The second half of the body of the loop: letters, and what is left. -/
def NameState.letter (s : NameState) (c : U8) : Option NameState :=
  if s.a &&& 1 = 0 then
    if c = chr '|' then none
    else if chr '[' ≤ c ∧ c ≤ chr ']' then none
    else
      let s := if chr 'A' ≤ c ∧ c ≤ chr 'Z' then { s with b := s.b &&& (if s.t = 8 then 0xF7 else 0xEF) } else s
      if chr 'a' ≤ c ∧ c ≤ chr 'z' then
        { s with a := s.a ||| (if s.t = 8 then 0x08 else 0x10) }.putPlain (c - 0x20)
      else s.putPlain c
  else s.putPlain c

/-- The body of the loop of `make_dirfile` for a `c` that does not end the segment. -/
def NameState.step (s : NameState) (c : U8) : Option NameState :=
  if c ≤ chr ' ' ∨ c = 0x7F then none
  else if c = chr '.' then
    if s.a &&& 1 = 0 ∧ 1 ≤ s.n ∧ s.n ≤ 8 then some { s with n := 8, t := 11 } else none
  else if (0x81 ≤ c ∧ c ≤ 0x9F) ∨ (0xE0 ≤ c ∧ c ≤ 0xFC) then
    { s with a := s.a ^^^ 1 }.put (if s.n = 0 ∧ c = 0xE5 then 0x05 else c)
  else if c = chr '"' then none
  else if c ≤ chr ')' then s.putPlain c
  else if c ≤ chr ',' then none
  else if c ≤ chr '9' then s.putPlain c
  else if c ≤ chr '?' then none
  else s.letter c

/-- The end of a segment. -/
def NameState.finish (s : NameState) : Option DirName :=
  if s.n = 0 then none else some ⟨s.dirname, s.a &&& s.b⟩

/-- The loop of `make_dirfile`.  `none` is the result 1; otherwise there is the name, and the rest of the path behind a
separator. -/
def makeDirfileLoop : List U8 → NameState → Option (DirName × Option (List U8))
  | [], s => s.finish.map fun fn => (fn, none)
  | c :: path, s =>
      if c = chr '/' then s.finish.map fun fn => (fn, some path)
      else
        match s.step c with
        | none => none
        | some s => makeDirfileLoop path s

/-- `make_dirfile(&path, dirname)`. -/
def makeDirfile (path : List U8) : Option (DirName × Option (List U8)) := makeDirfileLoop path .init

/-! ### The volume -/

/-- `fs_type`. -/
inductive FsType where
  | fat12
  | fat16
  | fat32
deriving DecidableEq, Repr

/-- `clust2sect(fs, clust)`, from `max_clust`, `sects_clust` and `database`. -/
def clust2sect (maxClust : U32) (sectsClust : U8) (database clust : U32) : U32 :=
  let clust := clust - 2
  if clust ≥ maxClust - 2 then 0 else clust * sectsClust.setWidth 32 + database

/-- `FATBase_DIR`, without the volume and `sclust`. -/
structure DirPos where
  index : U16
  clust : U32
  sect : U32
deriving DecidableEq, Repr

/-- The directory pointer at the begin of the root directory. -/
def rootDir (fsType : FsType) (dirbase maxClust : U32) (sectsClust : U8) (database : U32) : DirPos :=
  if fsType = .fat32 then ⟨0, dirbase, clust2sect maxClust sectsClust database dirbase⟩ else ⟨0, 0, dirbase⟩

/-- `FATBase_SuperBlock`, with the sectors of the volume. -/
structure DirVolume where
  fsType : FsType
  fatbase : U32
  dirbase : U32
  database : U32
  nRootdir : U16
  maxClust : U32
  sectsClust : U8
  /-- The bytes of the sectors. -/
  sector : U32 → Nat → U8
  /-- Which readings from the device succeed. -/
  ok : Nat → Bool
  /-- The root directory does not start in the boot sector. -/
  root_sect : (rootDir fsType dirbase maxClust sectsClust database).sect ≠ 0

/-- The window of a volume: `winsect`, and how often the device has been read. -/
structure Window where
  sect : U32
  accesses : Nat
deriving DecidableEq, Repr

/-- The place of a directory entry: its sector, and its number in the window. -/
structure EntryPos where
  sect : U32
  slot : Nat
deriving DecidableEq, Repr

/-- The fields of a directory entry that are read here. -/
structure DirEntry where
  name : List U8
  attr : U8
  ntres : U8
  clust : U32
  fileSize : U32
deriving DecidableEq, Repr

/-- `DIR_Name[0]` is the first byte of the name. -/
def DirEntry.firstByte (e : DirEntry) : U8 := e.name.headD 0

/-- The entry is not deleted, and no volume label. -/
def DirEntry.valid (e : DirEntry) : Bool := e.firstByte ≠ 0xE5 && e.attr &&& AM_VOL = 0

namespace DirVolume

/-- `move_window(fs, sector)` with nothing to write back. -/
def moveWindow (v : DirVolume) (w : Window) (sector : U32) : Bool × Window :=
  if w.sect ≠ sector ∧ sector ≠ 0 then
    if v.ok w.accesses then (true, ⟨sector, w.accesses + 1⟩) else (false, { w with accesses := w.accesses + 1 })
  else (true, w)

/-- `LD_WORD(&win[off])`. -/
def ldWord (v : DirVolume) (sect : U32) (off : Nat) : U16 := v.sector sect (off + 1) ++ v.sector sect off

/-- `LD_DWORD(&win[off])`. -/
def ldDword (v : DirVolume) (sect : U32) (off : Nat) : U32 := v.ldWord sect (off + 2) ++ v.ldWord sect off

/-- The directory entry at a place. -/
def entry (v : DirVolume) (pos : EntryPos) : DirEntry :=
  let dir := 32 * pos.slot
  { name := (List.range 11).map fun i => v.sector pos.sect (dir + i)
    attr := v.sector pos.sect (dir + 11)
    ntres := v.sector pos.sect (dir + 12)
    clust := v.ldWord pos.sect (dir + 20) ++ v.ldWord pos.sect (dir + 26)
    fileSize := v.ldDword pos.sect (dir + 28) }

/-- `get_cluster(fs, clust)`. -/
def getCluster (v : DirVolume) (w : Window) (clust : U32) : U32 × Window :=
  if 2 ≤ clust ∧ clust < v.maxClust then
    let word := clust.toNat % 65536
    match v.fsType with
    | .fat12 =>
        let bc : U16 := BitVec.ofNat 16 (word * 3 / 2)
        match v.moveWindow w (v.fatbase + bc.setWidth 32 / SECTOR_SIZE) with
        | (false, w) => (1, w)
        | (true, w) =>
            let wc := v.sector w.sect (bc.toNat % 512)
            let bc := bc + 1
            match v.moveWindow w (v.fatbase + bc.setWidth 32 / SECTOR_SIZE) with
            | (false, w) => (1, w)
            | (true, w) =>
                let wc : U16 := v.sector w.sect (bc.toNat % 512) ++ wc
                ((if clust &&& 1 ≠ 0 then wc >>> 4 else wc &&& 0xFFF).setWidth 32, w)
    | .fat16 =>
        match v.moveWindow w (v.fatbase + clust / (SECTOR_SIZE / 2)) with
        | (false, w) => (1, w)
        | (true, w) => ((v.ldWord w.sect (word * 2 % 512)).setWidth 32, w)
    | .fat32 =>
        match v.moveWindow w (v.fatbase + clust / (SECTOR_SIZE / 4)) with
        | (false, w) => (1, w)
        | (true, w) => (v.ldDword w.sect (word * 4 % 512) &&& 0x0FFFFFFF, w)
  else (1, w)

/-- The directory pointer at the begin of the root directory. -/
def rootPos (v : DirVolume) : DirPos := rootDir v.fsType v.dirbase v.maxClust v.sectsClust v.database

/-- The directory pointer behind the first two entries of a directory. -/
def dirPos (v : DirVolume) (clust : U32) : DirPos := ⟨2, clust, clust2sect v.maxClust v.sectsClust v.database clust⟩

/-- `next_dir_entry(dj)`. -/
def nextDirEntry (v : DirVolume) (dj : DirPos) (w : Window) : Bool × DirPos × Window :=
  let idx := dj.index + 1
  if idx &&& 15 = 0 then
    let dj := { dj with sect := dj.sect + 1 }
    if dj.clust = 0 then
      if idx ≥ v.nRootdir then (false, dj, w) else (true, { dj with index := idx }, w)
    else if (idx / 16) &&& (v.sectsClust.setWidth 16 - 1) = 0 then
      let (clust, w) := v.getCluster w dj.clust
      if clust < 2 ∨ clust ≥ v.maxClust then (false, dj, w)
      else (true, ⟨idx, clust, clust2sect v.maxClust v.sectsClust v.database clust⟩, w)
    else (true, { dj with index := idx }, w)
  else (true, { dj with index := idx }, w)

/-- The place of the entry under the directory pointer. -/
def entryPos (dj : DirPos) (w : Window) : EntryPos := ⟨w.sect, dj.index.toNat % 16⟩

/-! ### `trace_path` -/

/-- The ends of the inner loop of `trace_path`. -/
inductive Search where
  | found (pos : EntryPos)
  | absent
  | failed
deriving DecidableEq, Repr

/-- The inner loop of `trace_path`: the entry with the name `fn` from the pointer on. -/
def searchEntry (v : DirVolume) (fn : List U8) : Nat → DirPos → Window → Res (Search × DirPos × Window)
  | 0, _, _ => .error .outOfFuel
  | fuel + 1, dj, w =>
      match v.moveWindow w dj.sect with
      | (false, w) => .ok (.failed, dj, w)
      | (true, w) =>
          let e := v.entry (entryPos dj w)
          if e.firstByte = 0 then .ok (.absent, dj, w)
          else if e.valid ∧ e.name = fn then .ok (.found (entryPos dj w), dj, w)
          else
            match v.nextDirEntry dj w with
            | (false, dj, w) => .ok (.absent, dj, w)
            | (true, dj, w) => v.searchEntry fn fuel dj w

/-- More than there are directory pointers and windows: a search that takes longer runs in a ring, and never ends. -/
def searchFuel : Nat := 2 ^ 112

/-- What a path names. -/
inductive Traced where
  | root
  | entry (pos : EntryPos)
  /-- `trace_path` returns this code. -/
  | failed (code : Int)
deriving DecidableEq, Repr

/-- The outer loop of `trace_path`; the first argument is more than the length of the path. -/
def traceLoop (v : DirVolume) : Nat → List U8 → DirPos → Window → Res (Traced × DirPos × Window)
  | 0, _, _, _ => .error .outOfFuel
  | fuel + 1, path, dj, w =>
      match makeDirfile path with
      | none => .ok (.failed FR_INVALID_NAME, dj, w)
      | some (fn, rest) => do
          match ← v.searchEntry fn.name searchFuel dj w with
          | (.failed, dj, w) => return (.failed FR_RW_ERROR, dj, w)
          | (.absent, dj, w) => return (.failed (if rest = none then FR_NO_FILE else FR_NO_PATH), dj, w)
          | (.found pos, dj, w) =>
              match rest with
              | none => return (.entry pos, dj, w)
              | some path =>
                  if (v.entry pos).attr &&& AM_DIR = 0 then return (.failed FR_NO_PATH, dj, w)
                  else v.traceLoop fuel path (v.dirPos (v.entry pos).clust) w

/-- `trace_path(dj, fn, path, dir)`, with `dj` as it is then. -/
def tracePath (v : DirVolume) (path : List U8) (w : Window) : Res (Traced × DirPos × Window) :=
  if path = [] then .ok (.root, v.rootPos, w) else v.traceLoop (path.length + 1) path v.rootPos w

/-! ### `fatbase_readdir` -/

/-- A part of a name up to the first space, in lower case if the NT flag says so. -/
def infoPart (lower : Bool) (bytes : List U8) : List U8 :=
  (bytes.takeWhile fun c => c ≠ chr ' ').map fun c =>
    if lower ∧ chr 'A' ≤ c ∧ c ≤ chr 'Z' then c + 0x20 else c

/-- The string in `fname` after `get_fileinfo(finfo, dir)`. -/
def getFileinfo (e : DirEntry) : List U8 :=
  let body := (e.name.take 8).map fun c => if c = 0x05 then 0xE5 else c
  let ext := e.name.drop 8
  let fname := infoPart (e.ntres &&& 0x08 ≠ 0) body ++
    if ext.headD 0 ≠ chr ' ' then chr '.' :: infoPart (e.ntres &&& 0x10 ≠ 0) ext else []
  fname.takeWhile fun c => c ≠ 0

/-- `fatbase_readdir(dj, finfo)` from the pointer on: `none` after an error, otherwise the name, which is empty at the end
of the directory. -/
def readdirLoop (v : DirVolume) : Nat → DirPos → Window → Res (Option (List U8) × DirPos × Window)
  | 0, _, _ => .error .outOfFuel
  | fuel + 1, dj, w =>
      if dj.sect = 0 then .ok (some [], dj, w)
      else
        match v.moveWindow w dj.sect with
        | (false, w) => .ok (none, dj, w)
        | (true, w) =>
            let e := v.entry (entryPos dj w)
            if e.firstByte = 0 then .ok (some [], dj, w)
            else
              let fname := if e.valid then getFileinfo e else []
              let (next, dj, w) := v.nextDirEntry dj w
              let dj := if next then dj else { dj with sect := 0 }
              if fname ≠ [] then .ok (some fname, dj, w) else v.readdirLoop fuel dj w

/-- `fatbase_readdir(dj, finfo)`. -/
def fatbaseReaddir (v : DirVolume) (dj : DirPos) (w : Window) : Res (Option (List U8) × DirPos × Window) :=
  v.readdirLoop searchFuel dj w

/-! ### Failures of the device -/

/-- The volume on a device that never fails. -/
def steady (v : DirVolume) : DirVolume := { v with ok := fun _ => true }

@[simp] theorem steady_fsType (v : DirVolume) : v.steady.fsType = v.fsType := rfl
@[simp] theorem steady_fatbase (v : DirVolume) : v.steady.fatbase = v.fatbase := rfl
@[simp] theorem steady_database (v : DirVolume) : v.steady.database = v.database := rfl
@[simp] theorem steady_nRootdir (v : DirVolume) : v.steady.nRootdir = v.nRootdir := rfl
@[simp] theorem steady_maxClust (v : DirVolume) : v.steady.maxClust = v.maxClust := rfl
@[simp] theorem steady_sectsClust (v : DirVolume) : v.steady.sectsClust = v.sectsClust := rfl
@[simp] theorem steady_sector (v : DirVolume) : v.steady.sector = v.sector := rfl
@[simp] theorem steady_ldWord (v : DirVolume) : v.steady.ldWord = v.ldWord := rfl
@[simp] theorem steady_ldDword (v : DirVolume) : v.steady.ldDword = v.ldDword := rfl
@[simp] theorem steady_entry (v : DirVolume) : v.steady.entry = v.entry := rfl
@[simp] theorem steady_rootPos (v : DirVolume) : v.steady.rootPos = v.rootPos := rfl
@[simp] theorem steady_dirPos (v : DirVolume) : v.steady.dirPos = v.dirPos := rfl

variable {v : DirVolume} {w w' u : Window} {dj dj' : DirPos}

/-- A window moves to the same sector on the device that never fails. -/
theorem moveWindow_steady {sector : U32} (h : v.moveWindow w sector = (true, w'))
    (hwin : w.sect = u.sect ∨ sector ≠ 0) :
    ∃ u', v.steady.moveWindow u sector = (true, u') ∧ w'.sect = u'.sect := by
  -- Sector 0 leaves the window as it is; any other one is in it after a success.
  have hw' : w'.sect = if sector ≠ 0 then sector else w.sect := by
    unfold moveWindow at h
    split at h
    · next hmove =>
        split at h
        · obtain rfl : ⟨sector, w.accesses + 1⟩ = w' := congrArg Prod.snd h
          rw [if_pos hmove.2]
        · cases congrArg Prod.fst h
    · next hmove =>
        obtain rfl : w = w' := congrArg Prod.snd h
        by_cases hzero : sector = 0
        · rw [if_neg (not_not_intro hzero)]
        · rw [if_pos hzero]
          by_contra hne
          exact hmove ⟨hne, hzero⟩
  rw [hw']
  unfold moveWindow
  by_cases hmove : u.sect ≠ sector ∧ sector ≠ 0
  · rw [if_pos hmove, if_pos hmove.2]
    exact ⟨_, rfl, rfl⟩
  · rw [if_neg hmove]
    refine ⟨u, rfl, ?_⟩
    by_cases hzero : sector = 0
    · rw [if_neg (not_not_intro hzero)]
      exact hwin.resolve_right (not_not_intro hzero)
    · rw [if_pos hzero]
      by_contra hne
      exact hmove ⟨Ne.symm hne, hzero⟩

/-- A cluster that `get_cluster` reads is read on the device that never fails. -/
theorem getCluster_steady {clust : U32} {x : U32} (h : v.getCluster w clust = (x, w')) (hx : x ≠ 1)
    (hwin : w.sect = u.sect) : ∃ u', v.steady.getCluster u clust = (x, u') ∧ w'.sect = u'.sect := by
  unfold getCluster at h ⊢
  simp only [steady_fsType, steady_fatbase, steady_maxClust, steady_sector, steady_ldWord, steady_ldDword]
  split at h
  · next hrange =>
      simp only [hrange, and_self, if_true]
      cases htype : v.fsType with
      | fat12 =>
          simp only [htype] at h
          split at h
          · exact absurd (congrArg Prod.fst h).symm hx
          · next w₁ hmove₁ =>
              split at h
              · exact absurd (congrArg Prod.fst h).symm hx
              · next w₂ hmove₂ =>
                  obtain ⟨u₁, hu₁, heq₁⟩ := moveWindow_steady hmove₁ (.inl hwin)
                  obtain ⟨u₂, hu₂, heq₂⟩ := moveWindow_steady hmove₂ (.inl heq₁)
                  obtain ⟨rfl, rfl⟩ := Prod.mk.inj h
                  refine ⟨u₂, ?_, heq₂⟩
                  simp only [hu₁, hu₂, heq₁, heq₂]
      | fat16 =>
          simp only [htype] at h
          split at h
          · exact absurd (congrArg Prod.fst h).symm hx
          · next w₁ hmove₁ =>
              obtain ⟨u₁, hu₁, heq₁⟩ := moveWindow_steady hmove₁ (.inl hwin)
              obtain ⟨rfl, rfl⟩ := Prod.mk.inj h
              refine ⟨u₁, ?_, heq₁⟩
              simp only [hu₁, heq₁]
      | fat32 =>
          simp only [htype] at h
          split at h
          · exact absurd (congrArg Prod.fst h).symm hx
          · next w₁ hmove₁ =>
              obtain ⟨u₁, hu₁, heq₁⟩ := moveWindow_steady hmove₁ (.inl hwin)
              obtain ⟨rfl, rfl⟩ := Prod.mk.inj h
              refine ⟨u₁, ?_, heq₁⟩
              simp only [hu₁, heq₁]
  · exact absurd (congrArg Prod.fst h).symm hx

theorem nextDirEntry_steady (h : v.nextDirEntry dj w = (true, dj', w')) (hwin : w.sect = u.sect) :
    ∃ u', v.steady.nextDirEntry dj u = (true, dj', u') ∧ w'.sect = u'.sect := by
  unfold nextDirEntry at h ⊢
  simp only [steady_nRootdir, steady_sectsClust, steady_maxClust, steady_database] at h ⊢
  split at h
  · next hsector =>
      rw [if_pos hsector]
      split at h
      · next hstatic =>
          rw [if_pos hstatic]
          split at h
          · cases congrArg Prod.fst h
          · next hidx =>
              obtain ⟨rfl, rfl⟩ := Prod.mk.inj (congrArg Prod.snd h)
              exact ⟨u, if_neg hidx, hwin⟩
      · next hstatic =>
          rw [if_neg hstatic]
          split at h
          · next hcluster =>
              split at h
              · cases congrArg Prod.fst h
              · next hclust =>
                  obtain ⟨rfl, rfl⟩ := Prod.mk.inj (congrArg Prod.snd h)
                  -- After a failure `get_cluster` returns 1, which ends the chain.
                  have hone : (v.getCluster w dj.clust).1 ≠ 1 := by
                    intro hone
                    rw [hone] at hclust
                    exact hclust (.inl (by decide))
                  obtain ⟨u', hu', heq⟩ := getCluster_steady (Prod.mk.eta).symm hone hwin
                  refine ⟨u', ?_, heq⟩
                  simp only [hcluster, if_true, hu', hclust, if_false]
          · next hcluster =>
              obtain ⟨rfl, rfl⟩ := Prod.mk.inj (congrArg Prod.snd h)
              exact ⟨u, if_neg hcluster, hwin⟩
  · next hsector =>
      obtain ⟨rfl, rfl⟩ := Prod.mk.inj (congrArg Prod.snd h)
      exact ⟨u, if_neg hsector, hwin⟩

/-- A search that succeeds finds the same entry on the device that never fails. -/
theorem searchEntry_steady {fn : List U8} {fuel : Nat} {pos : EntryPos}
    (h : v.searchEntry fn fuel dj w = .ok (.found pos, dj', w')) (hwin : w.sect = u.sect ∨ dj.sect ≠ 0) :
    ∃ u', v.steady.searchEntry fn fuel dj u = .ok (.found pos, dj', u') ∧ w'.sect = u'.sect := by
  -- Only the first sector that is read may be 0, so the windows may differ only before it.
  induction fuel generalizing dj w u with
  | zero => cases h
  | succ fuel ih =>
      unfold searchEntry at h ⊢
      split at h
      · cases h
      · next w₁ hmove =>
          obtain ⟨u₁, hu₁, heq₁⟩ := moveWindow_steady hmove hwin
          have hpos : entryPos dj u₁ = entryPos dj w₁ := by
            unfold entryPos
            rw [heq₁]
          simp only [hu₁, hpos, steady_entry]
          simp only at h
          split at h
          · cases h
          · next hend =>
              rw [if_neg hend]
              split at h
              · next hfound =>
                  cases h
                  rw [if_pos hfound]
                  exact ⟨u₁, rfl, heq₁⟩
              · next hfound =>
                  rw [if_neg hfound]
                  split at h
                  · cases h
                  · next dj₂ w₂ hnext =>
                      obtain ⟨u₂, hu₂, heq₂⟩ := nextDirEntry_steady hnext heq₁
                      rw [hu₂]
                      exact ih h (.inl heq₂)

theorem traceLoop_steady {fuel : Nat} {path : List U8} {pos : EntryPos}
    (h : v.traceLoop fuel path dj w = .ok (.entry pos, dj', w')) (hwin : w.sect = u.sect ∨ dj.sect ≠ 0) :
    ∃ u', v.steady.traceLoop fuel path dj u = .ok (.entry pos, dj', u') ∧ w'.sect = u'.sect := by
  induction fuel generalizing path dj w u with
  | zero => cases h
  | succ fuel ih =>
      unfold traceLoop at h ⊢
      split at h
      · cases h
      · next fn rest hname =>
          obtain ⟨⟨search, dj₁, w₁⟩, hsearch, h⟩ := Res.bind_eq_ok.mp h
          cases search with
          | failed => cases h
          | absent => cases h
          | found pos' =>
              obtain ⟨u₁, hu₁, heq₁⟩ := searchEntry_steady hsearch hwin
              simp only [hu₁, Res.ok_bind, steady_entry, steady_dirPos]
              cases rest with
              | none =>
                  cases h
                  exact ⟨u₁, rfl, heq₁⟩
              | some path' =>
                  simp only at h ⊢
                  split at h
                  · cases h
                  · next hdir =>
                      simp only [hdir, if_false]
                      exact ih h (.inl heq₁)

/-- A path that is not empty names an entry, or there is an error. -/
theorem traceLoop_ends {fuel : Nat} {path : List U8} {t : Traced}
    (h : v.traceLoop fuel path dj w = .ok (t, dj', w')) :
    (∃ pos, t = .entry pos) ∨ ∃ code, t = .failed code ∧ code ≠ 0 := by
  induction fuel generalizing path dj w with
  | zero => cases h
  | succ fuel ih =>
      unfold traceLoop at h
      split at h
      · cases h
        exact .inr ⟨_, rfl, by decide⟩
      · next fn rest hname =>
          obtain ⟨⟨search, dj₁, w₁⟩, hsearch, h⟩ := Res.bind_eq_ok.mp h
          cases search with
          | failed =>
              cases h
              exact .inr ⟨_, rfl, by decide⟩
          | absent =>
              cases h
              exact .inr ⟨_, rfl, by split <;> decide⟩
          | found pos =>
              cases rest with
              | none =>
                  cases h
                  exact .inl ⟨pos, rfl⟩
              | some path' =>
                  simp only at h
                  split at h
                  · cases h
                    exact .inr ⟨_, rfl, by decide⟩
                  · exact ih h

/-- `FR_OK` is no error. -/
theorem tracePath_failed {path : List U8} {code : Int} (h : v.tracePath path w = .ok (.failed code, dj', w')) :
    code ≠ 0 := by
  unfold tracePath at h
  split at h
  · cases h
  · cases traceLoop_ends h with
    | inl hentry =>
        obtain ⟨pos, hpos⟩ := hentry
        cases hpos
    | inr hfailed =>
        obtain ⟨code', hcode, hne⟩ := hfailed
        cases hcode
        exact hne

/-- What a path has been found to name on a device that may fail. -/
theorem tracePath_steady {path : List U8} {t : Traced} (h : v.tracePath path w = .ok (t, dj', w'))
    (hok : ∀ code, t ≠ .failed code) (u : Window) :
    ∃ u', v.steady.tracePath path u = .ok (t, dj', u') := by
  unfold tracePath at h ⊢
  split at h
  · next hroot =>
      cases h
      exact ⟨u, if_pos hroot⟩
  · next hroot =>
      rw [if_neg hroot]
      cases traceLoop_ends h with
      | inl hentry =>
          obtain ⟨pos, rfl⟩ := hentry
          obtain ⟨u', hu', -⟩ := traceLoop_steady h (u := u) (.inr v.root_sect)
          exact ⟨u', hu'⟩
      | inr hfailed =>
          obtain ⟨code, hcode, -⟩ := hfailed
          exact absurd hcode (hok code)

end DirVolume

/-! ### Upper and lower case -/

/-- The upper case of an ASCII letter. -/
def upper (c : U8) : U8 := if chr 'a' ≤ c ∧ c ≤ chr 'z' then c - 0x20 else c

/-- The two states are in the same place with the same name, and no byte of Shift-JIS is open. -/
structure NameState.Like (s s' : NameState) : Prop where
  n : s.n = s'.n
  t : s.t = s'.t
  dirname : s.dirname = s'.dirname
  flag : s.a &&& 1 = 0
  flag' : s'.a &&& 1 = 0

section Upper

variable {s s' : NameState} {c : U8}

theorem flag_cleared (a : U8) : (a &&& 0xFE) &&& 1 = 0 := by
  rw [BitVec.and_assoc]
  simp

theorem putPlain_like (hn : s.n = s'.n) (ht : s.t = s'.t) (hname : s.dirname = s'.dirname) (c : U8) :
    Option.Rel NameState.Like (s.putPlain c) (s'.putPlain c) := by
  unfold NameState.putPlain NameState.put
  simp only [hn, ht, hname]
  split
  · exact .none
  · exact .some ⟨rfl, rfl, rfl, flag_cleared _, flag_cleared _⟩

/-- A byte that is no small letter leaves like states like. -/
theorem NameState.Like.letter (h : s.Like s') (hc : ¬ (chr 'a' ≤ c ∧ c ≤ chr 'z')) :
    Option.Rel NameState.Like (s.letter c) (s'.letter c) := by
  unfold NameState.letter
  simp only [h.flag, h.flag', hc, if_true, if_false]
  split
  · exact .none
  split
  · exact .none
  apply putPlain_like
  · split <;> exact h.n
  · split <;> exact h.t
  · split <;> exact h.dirname

/-- What the tests of `make_dirfile` say about a small letter and the capital one. -/
theorem small_letter : ∀ c : U8, chr 'a' ≤ c ∧ c ≤ chr 'z' →
    (c ≠ chr '|' ∧ ¬ (chr '[' ≤ c ∧ c ≤ chr ']') ∧ ¬ (chr 'A' ≤ c ∧ c ≤ chr 'Z')) ∧
      (c - 0x20 ≠ chr '|' ∧ ¬ (chr '[' ≤ c - 0x20 ∧ c - 0x20 ≤ chr ']') ∧
        (chr 'A' ≤ c - 0x20 ∧ c - 0x20 ≤ chr 'Z') ∧ ¬ (chr 'a' ≤ c - 0x20 ∧ c - 0x20 ≤ chr 'z')) := by
  decide

/-- A small letter, and the capital one in a like state. -/
theorem NameState.Like.letter_upper (h : s.Like s') (hc : chr 'a' ≤ c ∧ c ≤ chr 'z') :
    Option.Rel NameState.Like (s.letter c) (s'.letter (c - 0x20)) := by
  obtain ⟨⟨hbar, hbracket, hcapital⟩, hbar', hbracket', hcapital', hsmall'⟩ := small_letter c hc
  unfold NameState.letter
  simp only [h.flag, h.flag', hc, hbar, hbracket, hcapital, hbar', hbracket', hcapital', hsmall', and_self, if_true,
    if_false]
  apply putPlain_like
  · exact h.n
  · exact h.t
  · exact h.dirname

/-- A letter comes to `letter`. -/
theorem step_of_letter : ∀ d : U8, (chr 'A' ≤ d ∧ d ≤ chr 'Z') ∨ (chr 'a' ≤ d ∧ d ≤ chr 'z') →
    ¬ (d ≤ chr ' ' ∨ d = 0x7F) ∧ d ≠ chr '.' ∧ ¬ ((0x81 ≤ d ∧ d ≤ 0x9F) ∨ (0xE0 ≤ d ∧ d ≤ 0xFC)) ∧ d ≠ chr '"' ∧
      ¬ d ≤ chr ')' ∧ ¬ d ≤ chr ',' ∧ ¬ d ≤ chr '9' ∧ ¬ d ≤ chr '?' := by
  decide

theorem step_eq_letter (s : NameState) {d : U8} (hd : (chr 'A' ≤ d ∧ d ≤ chr 'Z') ∨ (chr 'a' ≤ d ∧ d ≤ chr 'z')) :
    s.step d = s.letter d := by
  obtain ⟨h1, h2, h3, h4, h5, h6, h7, h8⟩ := step_of_letter d hd
  unfold NameState.step
  simp only [h1, h2, h3, h4, h5, h6, h7, h8, if_false]

theorem not_shiftJis : ∀ c : U8, c < 0x80 → ¬ ((0x81 ≤ c ∧ c ≤ 0x9F) ∨ (0xE0 ≤ c ∧ c ≤ 0xFC)) := by decide

/-- An ASCII byte, and its upper case in a like state. -/
theorem NameState.Like.step (h : s.Like s') (hascii : c < 0x80) :
    Option.Rel NameState.Like (s.step c) (s'.step (upper c)) := by
  by_cases hc : chr 'a' ≤ c ∧ c ≤ chr 'z'
  · have hupper : upper c = c - 0x20 := if_pos hc
    rw [hupper, step_eq_letter s (.inr hc), step_eq_letter s' (.inl (small_letter c hc).2.2.2.1)]
    exact h.letter_upper hc
  · have hupper : upper c = c := if_neg hc
    rw [hupper]
    unfold NameState.step
    simp only [not_shiftJis c hascii, h.flag, h.flag', h.n, if_false]
    split
    · exact .none
    split
    · split
      · exact .some ⟨rfl, rfl, h.dirname, h.flag, h.flag'⟩
      · exact .none
    split
    · exact .none
    split
    · exact putPlain_like h.n h.t h.dirname c
    split
    · exact .none
    split
    · exact putPlain_like h.n h.t h.dirname c
    split
    · exact .none
    · exact h.letter hc

theorem finish_like (h : s.Like s') : s.finish.map DirName.name = s'.finish.map DirName.name := by
  unfold NameState.finish
  rw [h.n, h.dirname]
  split <;> rfl

theorem slash_upper : ∀ c : U8, upper c = chr '/' ↔ c = chr '/' := by decide

/-- What `make_dirfile` finds in a path in upper case. -/
theorem makeDirfileLoop_upper (path : List U8) (hascii : ∀ c ∈ path, c < 0x80) (h : s.Like s') :
    (makeDirfileLoop (path.map upper) s').map (fun r => (r.1.name, r.2)) =
      (makeDirfileLoop path s).map fun r => (r.1.name, r.2.map (List.map upper)) := by
  induction path generalizing s s' with
  | nil =>
      have hfinish := finish_like h
      cases hs : s.finish <;> cases hs' : s'.finish <;> simp_all [makeDirfileLoop]
  | cons c path ih =>
      have hrest : ∀ c ∈ path, c < 0x80 := fun d hd => hascii d (List.mem_cons_of_mem c hd)
      by_cases hslash : c = chr '/'
      · have hfinish := finish_like h
        have hupper : upper c = chr '/' := (slash_upper c).mpr hslash
        cases hs : s.finish <;> cases hs' : s'.finish <;> simp_all [makeDirfileLoop]
      · have hupper : upper c ≠ chr '/' := fun heq => hslash ((slash_upper c).mp heq)
        simp only [List.map_cons, makeDirfileLoop, hslash, hupper, if_false]
        have hstep := h.step (hascii c List.mem_cons_self)
        cases hs : s.step c with
        | none =>
            rw [hs] at hstep
            cases hs' : s'.step (upper c) with
            | none => rfl
            | some s₁' =>
                rw [hs'] at hstep
                cases hstep
        | some s₁ =>
            rw [hs] at hstep
            cases hs' : s'.step (upper c) with
            | none =>
                rw [hs'] at hstep
                cases hstep
            | some s₁' =>
                rw [hs'] at hstep
                cases hstep with
                | some hlike => exact ih hrest hlike

theorem makeDirfile_upper (path : List U8) (hascii : ∀ c ∈ path, c < 0x80) :
    (makeDirfile (path.map upper)).map (fun r => (r.1.name, r.2)) =
      (makeDirfile path).map fun r => (r.1.name, r.2.map (List.map upper)) :=
  makeDirfileLoop_upper path hascii ⟨rfl, rfl, rfl, by decide, by decide⟩

/-- The rest of a path is a part of it. -/
theorem mem_of_makeDirfileLoop {path rest : List U8} {fn : DirName}
    (h : makeDirfileLoop path s = some (fn, some rest)) : ∀ c ∈ rest, c ∈ path := by
  induction path generalizing s with
  | nil =>
      obtain ⟨fn', -, hr⟩ := Option.map_eq_some_iff.mp h
      cases hr
  | cons d path ih =>
      unfold makeDirfileLoop at h
      split at h
      · obtain ⟨fn', -, hr⟩ := Option.map_eq_some_iff.mp h
        obtain rfl : path = rest := by simpa using congrArg Prod.snd hr
        exact fun c hc => List.mem_cons_of_mem d hc
      · split at h
        · cases h
        · exact fun c hc => List.mem_cons_of_mem d (ih h c hc)

end Upper

namespace DirVolume

variable {v : DirVolume}

theorem traceLoop_upper (fuel : Nat) (path : List U8) (hascii : ∀ c ∈ path, c < 0x80) (dj : DirPos) (w : Window) :
    v.traceLoop fuel (path.map upper) dj w = v.traceLoop fuel path dj w := by
  induction fuel generalizing path dj w with
  | zero => rfl
  | succ fuel ih =>
      have hsame := makeDirfile_upper path hascii
      unfold traceLoop
      cases hs : makeDirfile path with
      | none =>
          rw [hs] at hsame
          have hs' : makeDirfile (path.map upper) = none := by simpa using hsame
          rw [hs']
      | some r =>
          rw [hs] at hsame
          obtain ⟨r', hs', hr⟩ := Option.map_eq_some_iff.mp hsame
          obtain ⟨fn, rest⟩ := r
          obtain ⟨fn', rest'⟩ := r'
          have hname : fn'.name = fn.name := congrArg Prod.fst hr
          obtain rfl : rest' = rest.map (List.map upper) := congrArg Prod.snd hr
          rw [hs']
          simp only [hname]
          cases rest with
          | none => rfl
          | some rest =>
              have hrest : ∀ c ∈ rest, c < 0x80 := fun c hc => hascii c (mem_of_makeDirfileLoop hs c hc)
              simp only [Option.map_some, ih rest hrest, reduceCtorEq]

/-- Paths in ASCII that differ only in the case of letters name the same entry. -/
theorem tracePath_upper {path path' : List U8} (hascii : ∀ c ∈ path, c < 0x80) (hascii' : ∀ c ∈ path', c < 0x80)
    (h : path.map upper = path'.map upper) (w : Window) : v.tracePath path w = v.tracePath path' w := by
  have hlen : path.length = path'.length := by simpa using congrArg List.length h
  unfold tracePath
  by_cases hnil : path = []
  · subst hnil
    have hnil' : path' = [] := List.length_eq_zero_iff.mp hlen.symm
    rw [hnil']
  · have hnil' : path' ≠ [] := fun heq => hnil (List.length_eq_zero_iff.mp (hlen.trans (by rw [heq]; rfl)))
    rw [if_neg hnil, if_neg hnil', ← traceLoop_upper _ path hascii, ← traceLoop_upper _ path' hascii', h, hlen]

end DirVolume

end Fat
end FreakOS
