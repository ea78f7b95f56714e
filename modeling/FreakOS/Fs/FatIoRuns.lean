import FreakOS.Lib.LinkTable
import FreakOS.Fs.FatIoFiles

/-!
# Runs of calls on open FAT files

Calls on several open files of one drive, call after call and file after file, against the files that the layers above see,
and against what is stored of them.

* `IoRun` — runs of calls that fit on the drive.
* `OpenFiles` — several open files, with clusters and directory entries of their own.
* `files_refine` — in every run the files are the `FatFile`s of a `FatDisk`.
* `fileAt` — the content of a file, from its directory entry, the FAT and the sectors of the drive.
* `synced_stays` — what has been synced is stored, and stays so when other files are used.
-/

namespace FreakOS
namespace Fs

open Lib
open Memory
open Fat (entryFsize entryOrgClust entryFsize_congr entryOrgClust_congr)

/-! ### Runs of calls on several files -/

/-- A call on a file. -/
inductive IoOp
  | read (btr : U32)
  | write (data : List U8)
  | seek (ofs : U32)
  | sync
deriving DecidableEq, Repr

/-- What a call returns. -/
inductive IoAnswer
  | bytes (res : Int) (data : List U8)
  | count (res : Int) (bw : Nat)
  | done (res : Int)
deriving DecidableEq, Repr

namespace IoOp

/-- The call on the `FATBase_FILE`. -/
def exec : IoOp → FatIo → IoVolume → IoAnswer × FatIo × IoVolume
  | .read btr, f, v =>
      let ((res, bytes), f, v) := ioRead f v btr
      (.bytes res bytes, f, v)
  | .write data, f, v =>
      let ((res, bw), f, v) := ioWrite f v data
      (.count res bw, f, v)
  | .seek ofs, f, v =>
      let (res, f, v) := ioLseek f v ofs
      (.done res, f, v)
  | .sync, f, v =>
      let (res, f, v) := ioSync f v
      (.done res, f, v)

/-- The call on the content of the file. -/
def onDisk (inode : U32) : IoOp → FatDisk → IoAnswer × FatDisk
  | .read btr, d =>
      let ((res, bytes), d) := fatRead inode btr d
      (.bytes res bytes, d)
  | .write data, d =>
      let ((res, bw), d) := fatWrite inode data d
      (.count res bw.toNat, d)
  | .seek ofs, d =>
      let (res, d) := fatLseek inode ofs d
      (.done res, d)
  | .sync, d =>
      let (res, d) := fatSync inode d
      (.done res, d)

/-- The file stays below 4 GiB, and the volume has the clusters by which it grows. -/
def Fits : IoOp → FatIo → IoVolume → Prop
  | .read _, _, _ => True
  | .write data, f, v => f.fsize.toNat + data.length < 2 ^ 32 ∧
      v.vol.HasRoom (growth f v (f.fptr + BitVec.ofNat 32 data.length))
  | .seek ofs, f, v => v.vol.HasRoom (growth f v ofs)
  | .sync, _, _ => True

end IoOp

/-- The drive with the `FATBase_FILE`s, by inode. -/
structure IoState where
  vol : IoVolume
  file : U32 → FatIo

/-- A call on the file of an inode. -/
def IoState.call (s : IoState) (inode : U32) (op : IoOp) : IoAnswer × IoState :=
  let (r, f, v) := op.exec (s.file inode) s.vol
  (r, ⟨v, Function.update s.file inode f⟩)

/-- Calls on open files that fit, one after the other, with what they return. -/
inductive IoRun (inodes : Set U32) : IoState → List (U32 × IoOp × IoAnswer) → IoState → Prop
  | nil (s : IoState) : IoRun inodes s [] s
  | cons {s s' : IoState} {inode : U32} {op : IoOp} {rest : List (U32 × IoOp × IoAnswer)} (hopen : inode ∈ inodes)
      (hfits : op.Fits (s.file inode) s.vol) (hrest : IoRun inodes (s.call inode op).2 rest s') :
      IoRun inodes s ((inode, op, (s.call inode op).1) :: rest) s'

/-- Two files have different directory entries. -/
def EntriesApart (f g : FatIo) : Prop := f.dirSect = g.dirSect → f.dirPtr + 32 ≤ g.dirPtr ∨ g.dirPtr + 32 ≤ f.dirPtr

/-- Open files on a drive that works, with clusters `ls` and directory entries of their own. -/
structure OpenFiles (s : IoState) (inodes : Set U32) (ls : U32 → List U32) : Prop where
  good : s.vol.vol.Good
  file : ∀ i ∈ inodes, OpenFile (s.file i) s.vol (ls i)
  apart : ∀ i ∈ inodes, ∀ j ∈ inodes, i ≠ j → (ls i).Disjoint (ls j)
  entries : ∀ i ∈ inodes, ∀ j ∈ inodes, i ≠ j → EntriesApart (s.file i) (s.file j)

/-- What the layers above see of a file. -/
structure Sees (x : FatFile) (f : FatIo) (v : IoVolume) (l : List U32) : Prop where
  content : x.content = ioContent f v l
  fptr : x.fptr = f.fptr.toNat
  error : x.error = false
  dirSize : x.dirSize = entryFsize (v.dir f.dirSect) f.dirPtr

section Others

variable {e f g : FatIo} {v w : IoVolume} {l l' m : List U32}

/-- A file is the same after a call on another one. -/
theorem Confined.other_file (h : Confined v l w l') (hfile : IoFile f v m) (hdisj : m.Disjoint l) :
    IoFile f w m ∧ ioContent f w m = ioContent f v m := by
  have hC := C_pos hfile.wf
  have hchain := (h.other hfile.file.chain hdisj).1
  have hsect : ∀ q, q / v.C < m.length → w.disk (v.fileSect m q) = v.disk (v.fileSect m q) :=
    fun q hq => h.other_sect hfile.placed hC hfile.file.chain hdisj hq
  refine ⟨⟨⟨hfile.file.org, hchain, ?_, hfile.file.fptr⟩, h.grown.good.toWellFormed, h.placed hfile.placed, ?_, hfile.error,
    hfile.top, ?_, ?_⟩, ioContent_congr rfl ?_⟩
  · rw [h.grown.alike.clustBytes]
    exact hfile.file.size
  · refine Eq.trans ?_ hfile.valid
    unfold validate
    rw [h.mounted, h.id]
  · intro hpos
    obtain ⟨hclust, hcurr, hleft⟩ := hfile.stands hpos
    refine ⟨?_, ?_, ?_⟩
    · rw [h.C]
      exact hclust
    · rw [h.fileSect]
      exact hcurr
    · rw [h.C]
      exact hleft
  · intro hin hclean
    have hpos : f.fptr.toNat ≠ 0 := by
      intro hzero
      refine hin ?_
      unfold FatIo.inSect
      rw [hzero]
    obtain ⟨hclust, hcurr, -⟩ := hfile.stands hpos
    rw [hfile.loaded hin hclean, hcurr]
    exact (hsect _ (List.getElem?_eq_some_iff.mp hclust).1).symm
  · intro i hi
    have hbyte := hsect _ (hfile.in_clusters hi)
    unfold ioByte shown
    rw [h.fileSect]
    split
    · by_cases heq : v.fileSect m (i / 512) = f.currSect
      · rw [heq, Function.update_self, Function.update_self]
      · rw [Function.update_of_ne heq, Function.update_of_ne heq, hbyte]
    · rw [hbyte]

/-- The directory entry of a file is the same after a call on another one. -/
theorem Served.other_entry (h : Served e v l g w l') (hapart : EntriesApart f e) :
    ∀ k < 32, w.dir f.dirSect (f.dirPtr + k) = v.dir f.dirSect (f.dirPtr + k) := by
  intro k hk
  refine h.entries f.dirSect (f.dirPtr + k) fun hsect => ?_
  have := hapart hsect
  omega

theorem Entered.other (h : Entered f v) (hsame : ∀ k < 32, w.dir f.dirSect (f.dirPtr + k) = v.dir f.dirSect (f.dirPtr + k)) :
    Entered f w :=
  ⟨(entryFsize_congr hsame).trans h.size, (entryOrgClust_congr hsame).trans h.clust⟩

/-- An open file, after a call on another one. -/
theorem Served.other_file (h : Served e v l g w l') (hfile : OpenFile f v m) (hdisj : m.Disjoint l)
    (hapart : EntriesApart f e) : OpenFile f w m ∧ ioContent f w m = ioContent f v m := by
  obtain ⟨hio, hcontent⟩ := h.confined.other_file hfile.toIoFile hdisj
  exact ⟨⟨hio.aside f.written 0 w.vol.fsiFlag w.dir, hfile.canRead, hfile.canWrite, hfile.dirty,
    fun hunwritten => (hfile.entered hunwritten).other (h.other_entry hapart)⟩, hcontent⟩

theorem Served.other_sees {x : FatFile} (h : Served e v l g w l') (hfile : OpenFile f v m) (hdisj : m.Disjoint l)
    (hapart : EntriesApart f e) (hsees : Sees x f v m) : Sees x f w m :=
  ⟨hsees.content.trans (h.other_file hfile hdisj hapart).2.symm, hsees.fptr, hsees.error,
    hsees.dirSize.trans (entryFsize_congr (h.other_entry hapart)).symm⟩

end Others

/-! #### One call -/

section Step

variable {f : FatIo} {v : IoVolume} {l : List U32} {d : FatDisk} {inode : U32}

theorem sees_put {g : FatIo} {w : IoVolume} {l' : List U32} (d : FatDisk) (inode : U32) {x : FatFile}
    (hcontent : x.content = ioContent g w l') (hptr : x.fptr = g.fptr.toNat) (herror : x.error = false)
    (hsize : x.dirSize = entryFsize (w.dir g.dirSect) g.dirPtr) : Sees ((d.put inode x).file inode) g w l' := by
  have hput : (d.put inode x).file inode = x := Function.update_self ..
  rw [hput]
  exact ⟨hcontent, hptr, herror, hsize⟩

/-- The size in the directory entry, after a call that leaves the directories alone. -/
theorem Sees.dirSize_kept {x : FatFile} {g : FatIo} {w : IoVolume} (hsees : Sees x f v l) (hslot : g.slot = f.slot)
    (hdir : w.dir = v.dir) : x.dirSize = entryFsize (w.dir g.dirSect) g.dirPtr := by
  obtain ⟨hsect, hptr⟩ := Prod.mk.inj hslot
  rw [hdir, hsect, hptr]
  exact hsees.dirSize

theorem file_put (d : FatDisk) (x : FatFile) {j : U32} (hne : j ≠ inode) : (d.put inode x).file j = d.file j :=
  Function.update_of_ne hne ..

theorem read_refines (h : OpenFile f v l) (hgood : v.vol.Good) (btr : U32) (hsees : Sees (d.file inode) f v l)
    (hworks : d.next.fails = none) : ∃ bytes g w d', ioRead f v btr = ((0, bytes), g, w) ∧
      fatRead inode btr d = ((0, bytes), d') ∧ Served f v l g w l ∧ Sees (d'.file inode) g w l ∧
        ∀ j, j ≠ inode → d'.file j = d.file j := by
  have hcontent := hsees.content
  have hptr := hsees.fptr
  have herror := hsees.error
  obtain ⟨k, hk⟩ := ioRead_spec h.toIoFile h.canRead btr
  generalize ioRead f v btr = r at hk
  obtain ⟨⟨res, bytes⟩, g, w⟩ := r
  obtain ⟨hbytes, hval, -, hreading, houtcome⟩ := hk
  dsimp only at hbytes hval hreading houtcome
  obtain ⟨rfl, hall, hfile⟩ := houtcome.resolve_right fun hfails => hfails.2.2 hgood.works
  have hlen : ((ioContent f v l).drop f.fptr.toNat).length = f.fsize.toNat - f.fptr.toNat := by
    rw [List.length_drop, ioContent_length]
  have hsame : bytes = ((d.file inode).content.drop (d.file inode).fptr).take btr.toNat := by
    rw [hbytes, hcontent, hptr, hall]
    refine List.take_eq_take_iff.mpr ?_
    rw [hlen]
    omega
  have hcount : bytes.length = k := by
    rw [hbytes, List.length_take, hlen]
    omega
  have hconf := hreading.confined h.toIoFile hgood
  have hopen : OpenFile g w l := by
    refine ⟨hfile, ?_, ?_, fun hdirty => ?_, fun hunwritten => (h.entered ?_).transfer hreading.slot hconf.dir ?_ ?_⟩
    · rw [hreading.fil]
      exact h.canRead
    · rw [hreading.fil]
      exact h.canWrite
    · rw [hreading.fil]
      exact h.dirty (hreading.dirty hdirty)
    · rw [hreading.fil] at hunwritten
      exact hunwritten
    · rw [hreading.fil]
    · rw [hreading.fil]
  refine ⟨bytes, g, w, d.put inode { d.file inode with fptr := (d.file inode).fptr + bytes.length }, rfl, ?_,
    hconf.served hreading.slot hopen, sees_put d inode ?_ ?_ herror (hsees.dirSize_kept hreading.slot hconf.dir),
    fun j hne => file_put d _ hne⟩
  · unfold fatRead
    dsimp only
    rw [herror, if_neg (by decide), hworks]
    dsimp only
    rw [← hsame]
  · show (d.file inode).content = _
    rw [hcontent]
    refine (ioContent_congr ?_ fun i _ => hreading.ioByte l i).symm
    rw [hreading.fil]
  · show (d.file inode).fptr + bytes.length = _
    rw [hptr, hval, hcount]

theorem write_refines (h : OpenFile f v l) (hgood : v.vol.Good) {data : List U8} (hfits : (IoOp.write data).Fits f v)
    (hsees : Sees (d.file inode) f v l) (hworks : d.next.fails = none) (hlimit : d.next.limit = f.fptr.toNat + data.length) :
    ∃ g w l' d', ioWrite f v data = ((0, data.length), g, w) ∧
      fatWrite inode data d = ((0, BitVec.ofNat 32 data.length), d') ∧
      Served f v l g w l' ∧ Sees (d'.file inode) g w l' ∧ ∀ j, j ≠ inode → d'.file j = d.file j := by
  have hcontent := hsees.content
  have hptr := hsees.fptr
  have herror := hsees.error
  obtain ⟨g, w, l', hcall, hserved, hdir, hval, hover⟩ := ioWrite_spec h hgood data hfits.1 hfits.2
  have hsmall : ¬ 2 ^ 32 ≤ (d.file inode).content.length + data.length := by
    rw [hcontent, ioContent_length]
    exact Nat.not_le.mpr hfits.1
  have htake : data.take (d.next.limit - (d.file inode).fptr) = data := by
    rw [hlimit, hptr, Nat.add_sub_cancel_left]
    exact List.take_length
  refine ⟨g, w, l', d.put inode { d.file inode with
      content := overwrite (d.file inode).content (d.file inode).fptr data
      fptr := (d.file inode).fptr + data.length }, hcall, ?_, hserved,
    sees_put d inode ?_ ?_ herror (hsees.dirSize_kept hserved.slot hdir), fun j hne => file_put d _ hne⟩
  · unfold fatWrite
    dsimp only
    rw [herror, if_neg (by decide), if_neg hsmall, hworks]
    dsimp only
    rw [htake]
  · show overwrite (d.file inode).content (d.file inode).fptr data = _
    rw [hcontent, hptr, hover]
  · show (d.file inode).fptr + data.length = _
    rw [hptr, hval]

theorem seek_refines (h : OpenFile f v l) (hgood : v.vol.Good) {ofs : U32} (hfits : (IoOp.seek ofs).Fits f v)
    (hsees : Sees (d.file inode) f v l) : ∃ g w l' a, ioLseek f v ofs = (0, g, w) ∧ a.fails = none ∧ Served f v l g w l' ∧
      ∃ d', fatLseek inode ofs { d with answer := fun _ => a } = (0, d') ∧ Sees (d'.file inode) g w l' ∧
        ∀ j, j ≠ inode → d'.file j = d.file j := by
  have hcontent := hsees.content
  have herror := hsees.error
  obtain ⟨g, w, l', hcall, hserved, hdir, hval, tail, hgrown, hlen⟩ := ioLseek_spec h hgood hfits
  -- The clusters that the file grows into hold the rest of the content.
  refine ⟨g, w, l', ⟨none, ofs.toNat, fun i => tail.getD i 0⟩, hcall, rfl, hserved, ?_⟩
  unfold fatLseek
  dsimp only
  rw [herror, if_neg (by decide)]
  show ∃ d', (if ofs.toNat ≤ (d.file inode).content.length then _ else _) = (0, d') ∧ _
  have hold : (d.file inode).content.length = f.fsize.toNat := by rw [hcontent, ioContent_length]
  by_cases hin : ofs.toNat ≤ (d.file inode).content.length
  · have hnil : tail = [] := List.length_eq_zero_iff.mp (by omega)
    rw [if_pos hin]
    refine ⟨_, rfl, sees_put _ inode ?_ ?_ rfl (hsees.dirSize_kept hserved.slot hdir), fun j hne => file_put _ _ hne⟩
    · rw [hgrown, hnil, List.append_nil]
      exact hcontent
    · rw [hval]
  · rw [if_neg hin]
    have hsize : max (d.file inode).content.length (min ofs.toNat ofs.toNat) = ofs.toNat := by omega
    refine ⟨_, rfl, sees_put _ inode ?_ ?_ rfl (hsees.dirSize_kept hserved.slot hdir), fun j hne => file_put _ _ hne⟩
    · show (d.file inode).content ++ (List.range (max (d.file inode).content.length (min ofs.toNat ofs.toNat) -
        (d.file inode).content.length)).map (fun i => tail.getD i 0) = _
      rw [hsize, hgrown, hcontent]
      congr 1
      refine List.ext_getElem? fun i => ?_
      rw [List.getElem?_map, ioContent_length]
      by_cases hi : i < tail.length
      · rw [List.getElem?_range (by omega), List.getElem?_eq_getElem hi]
        exact congrArg some (List.getD_eq_getElem _ _ hi)
      · rw [List.getElem?_eq_none (by rw [List.length_range]; omega), List.getElem?_eq_none (by omega)]
        rfl
    · show max (d.file inode).content.length (min ofs.toNat ofs.toNat) = _
      rw [hsize, hval]

/-- A call on a file is a call on its content. -/
theorem exec_refines (h : OpenFile f v l) (hgood : v.vol.Good) {op : IoOp} (hfits : op.Fits f v)
    (hsees : Sees (d.file inode) f v l) :
    ∃ g w l' a, op.exec f v = ((op.onDisk inode { d with answer := fun _ => a }).1, g, w) ∧ a.fails = none ∧
      Served f v l g w l' ∧ Sees ((op.onDisk inode { d with answer := fun _ => a }).2.file inode) g w l' ∧
        ∀ j, j ≠ inode → (op.onDisk inode { d with answer := fun _ => a }).2.file j = d.file j := by
  cases op with
  | read btr =>
      obtain ⟨bytes, g, w, d', hcall, hread, hserved, hsees', hothers⟩ :=
        read_refines (d := { d with answer := fun _ => ⟨none, 0, fun _ => 0⟩ })
        h hgood btr hsees rfl
      refine ⟨g, w, l, ⟨none, 0, fun _ => 0⟩, ?_, rfl, hserved, ?_⟩
      · unfold IoOp.exec IoOp.onDisk
        dsimp only
        rw [hcall, hread]
      · unfold IoOp.onDisk
        dsimp only
        rw [hread]
        exact ⟨hsees', hothers⟩
  | write data =>
      obtain ⟨g, w, l', d', hcall, hwrite, hserved, hsees', hothers⟩ :=
        write_refines (d := { d with answer := fun _ => ⟨none, f.fptr.toNat + data.length, fun _ => 0⟩ })
          h hgood hfits hsees rfl rfl
      have hcount : (BitVec.ofNat 32 data.length).toNat = data.length := by
        rw [BitVec.toNat_ofNat]
        exact Nat.mod_eq_of_lt (lt_of_le_of_lt (Nat.le_add_left ..) hfits.1)
      refine ⟨g, w, l', ⟨none, f.fptr.toNat + data.length, fun _ => 0⟩, ?_, rfl, hserved, ?_⟩
      · unfold IoOp.exec IoOp.onDisk
        dsimp only
        rw [hcall, hwrite]
        dsimp only
        rw [hcount]
      · unfold IoOp.onDisk
        dsimp only
        rw [hwrite]
        exact ⟨hsees', hothers⟩
  | seek ofs =>
      obtain ⟨g, w, l', a, hcall, hworks, hserved, d', hseek, hsees', hothers⟩ := seek_refines h hgood hfits hsees
      refine ⟨g, w, l', a, ?_, hworks, hserved, ?_⟩
      · unfold IoOp.exec IoOp.onDisk
        dsimp only
        rw [hcall, hseek]
      · unfold IoOp.onDisk
        dsimp only
        rw [hseek]
        exact ⟨hsees', hothers⟩
  | sync =>
      obtain ⟨g, w, hcall, hserved, hptr, hcontent, -, hentered⟩ := ioSync_spec h hgood
      refine ⟨g, w, l, ⟨none, 0, fun _ => 0⟩, ?_, rfl, hserved, sees_put _ inode ?_ ?_ hsees.error ?_,
        fun j hne => file_put _ _ hne⟩
      · unfold IoOp.exec
        dsimp only
        rw [hcall]
        rfl
      · rw [hcontent]
        exact hsees.content
      · rw [hptr]
        exact hsees.fptr
      · show BitVec.ofNat 32 (d.file inode).content.length = _
        rw [hsees.content, ← hcontent, ioContent_length, hentered.size, BitVec.ofNat_toNat, BitVec.setWidth_eq]

end Step

/-! #### Whole runs -/

section Runs

variable {s s' : IoState} {inodes : Set U32} {ls : U32 → List U32} {d : FatDisk}

/-- The files as the layers above see them. -/
def diskOf (s : IoState) (ls : U32 → List U32) : FatDisk where
  file := fun i => {
    content := ioContent (s.file i) s.vol (ls i)
    fptr := (s.file i).fptr.toNat
    error := false
    dirSize := entryFsize (s.vol.dir (s.file i).dirSect) (s.file i).dirPtr }
  answer := fun _ => ⟨none, 0, fun _ => 0⟩
  calls := 0

theorem sees_diskOf (s : IoState) (ls : U32 → List U32) (i : U32) : Sees ((diskOf s ls).file i) (s.file i) s.vol (ls i) :=
  ⟨rfl, rfl, rfl, rfl⟩

/-- A call on one of several files leaves all of them open. -/
theorem OpenFiles.after (h : OpenFiles s inodes ls) {inode : U32} (hopen : inode ∈ inodes) {g : FatIo} {w : IoVolume}
    {l' : List U32} (hserved : Served (s.file inode) s.vol (ls inode) g w l') :
    OpenFiles ⟨w, Function.update s.file inode g⟩ inodes (Function.update ls inode l') := by
  have hdisj : ∀ i ∈ inodes, i ≠ inode → (ls i).Disjoint l' :=
    fun i hi hne => (hserved.confined.other (h.file i hi).file.chain (h.apart i hi inode hopen hne)).2
  have hslot : ∀ i, (Function.update s.file inode g i).slot = (s.file i).slot := by
    intro i
    by_cases hne : i = inode
    · subst hne
      rw [Function.update_self]
      exact hserved.slot
    · rw [Function.update_of_ne hne]
  refine ⟨hserved.confined.grown.good, ?_, ?_, ?_⟩
  · intro i hi
    dsimp only
    by_cases hne : i = inode
    · subst hne
      rw [Function.update_self, Function.update_self]
      exact hserved.file
    · rw [Function.update_of_ne hne, Function.update_of_ne hne]
      exact (hserved.other_file (h.file i hi) (h.apart i hi inode hopen hne) (h.entries i hi inode hopen hne)).1
  · intro i hi j hj hij
    by_cases hi' : i = inode
    · subst hi'
      rw [Function.update_self, Function.update_of_ne (Ne.symm hij)]
      exact (hdisj j hj (Ne.symm hij)).symm
    · rw [Function.update_of_ne hi']
      by_cases hj' : j = inode
      · subst hj'
        rw [Function.update_self]
        exact hdisj i hi hi'
      · rw [Function.update_of_ne hj']
        exact h.apart i hi j hj hij
  · intro i hi j hj hij
    obtain ⟨hsect, hptr⟩ := Prod.mk.inj (hslot i)
    obtain ⟨hsect', hptr'⟩ := Prod.mk.inj (hslot j)
    unfold EntriesApart
    dsimp only
    rw [hsect, hptr, hsect', hptr']
    exact h.entries i hi j hj hij

/-- A call on one of several files. -/
theorem OpenFiles.call (h : OpenFiles s inodes ls) {inode : U32} (hopen : inode ∈ inodes) {op : IoOp}
    (hfits : op.Fits (s.file inode) s.vol) (hsees : ∀ i ∈ inodes, Sees (d.file i) (s.file i) s.vol (ls i)) :
    ∃ a l', a.fails = none ∧ (s.call inode op).1 = (op.onDisk inode { d with answer := fun _ => a }).1 ∧
      (∃ g, Served (s.file inode) s.vol (ls inode) g (s.call inode op).2.vol l') ∧
        OpenFiles (s.call inode op).2 inodes (Function.update ls inode l') ∧
          ∀ i ∈ inodes, Sees ((op.onDisk inode { d with answer := fun _ => a }).2.file i) ((s.call inode op).2.file i)
            (s.call inode op).2.vol (Function.update ls inode l' i) := by
  obtain ⟨g, w, l', a, hexec, hworks, hserved, hsees', hothers⟩ :=
    exec_refines (h.file inode hopen) h.good hfits (hsees inode hopen)
  have hcall : s.call inode op =
      ((op.onDisk inode { d with answer := fun _ => a }).1, ⟨w, Function.update s.file inode g⟩) := by
    unfold IoState.call
    rw [hexec]
  rw [hcall]
  refine ⟨a, l', hworks, rfl, ⟨g, hserved⟩, h.after hopen hserved, ?_⟩
  intro i hi
  by_cases hne : i = inode
  · subst hne
    show Sees _ (Function.update s.file i g i) w (Function.update ls i l' i)
    rw [Function.update_self, Function.update_self]
    exact hsees'
  · show Sees _ (Function.update s.file inode g i) w (Function.update ls inode l' i)
    rw [Function.update_of_ne hne, Function.update_of_ne hne, hothers i hne]
    exact hserved.other_sees (h.file i hi) (h.apart i hi inode hopen hne) (h.entries i hi inode hopen hne) (hsees i hi)

/-- As many bytes of the sectors of a chain of clusters. -/
def stored (v : IoVolume) (l : List U32) (n : Nat) : List U8 :=
  (List.range n).map fun i => v.disk (v.fileSect l (i / 512)) (i % 512)

/-- The content of the file of a directory entry: the sectors of its chain in the FAT, as far as its size goes. -/
def fileAt (v : IoVolume) (dirSect : U32) (dirPtr : Nat) : List U8 :=
  let clust := entryOrgClust (v.dir dirSect) dirPtr
  stored v (follow v.vol.fat v.vol.Inside v.vol.maxClust.toNat clust) (entryFsize (v.dir dirSect) dirPtr).toNat

/-- A file is stored: its directory entry has it, and the sectors of its clusters hold its content. -/
structure StoredFile (f : FatIo) (v : IoVolume) (l : List U32) (content : List U8) : Prop where
  entered : Entered f v
  org : f.orgClust = l.headD 0
  chain : v.vol.OnChain l
  bytes : stored v l f.fsize.toNat = content

/-- The chain of a file, from the cluster in its directory entry. -/
theorem follow_chain {v : FatVolume} {l : List U32} (h : v.OnChain l) :
    follow v.fat v.Inside v.maxClust.toNat (l.headD 0) = l := by
  cases l with
  | nil => exact follow_outside fun hin => absurd hin.1 (by decide)
  | cons c rest =>
      have hlen := length_le_maxClust h
      rw [List.length_cons] at hlen
      exact Chained.follow_eq (not_inside_of_ended v) h (by omega)

theorem StoredFile.fileAt_eq {f : FatIo} {v : IoVolume} {l : List U32} {content : List U8} (h : StoredFile f v l content) :
    fileAt v f.dirSect f.dirPtr = content := by
  unfold fileAt
  rw [h.entered.size, h.entered.clust, h.org]
  dsimp only
  rw [follow_chain h.chain]
  exact h.bytes

/-- A stored file stays so when another one is used. -/
theorem Served.other_stored {e f g : FatIo} {v w : IoVolume} {l l' m : List U32} {content : List U8}
    (h : Served e v l g w l') (hfile : OpenFile f v m) (hdisj : m.Disjoint l) (hapart : EntriesApart f e)
    (hstored : StoredFile f v m content) : StoredFile f w m content := by
  have hconf := h.confined
  refine ⟨hstored.entered.other (h.other_entry hapart), hstored.org, (hconf.other hstored.chain hdisj).1, ?_⟩
  rw [← hstored.bytes]
  refine map_range_congr fun i hi => ?_
  have hsect := hconf.other_sect hfile.placed (C_pos hfile.wf) hstored.chain hdisj (hfile.in_clusters hi)
  have hplace : w.fileSect m (i / 512) = v.fileSect m (i / 512) := hconf.fileSect m (i / 512)
  rw [hplace]
  exact congrFun hsect (i % 512)

/-- Calls on other files leave a stored file as it is. -/
theorem IoRun.others {inode : U32} {tr : List (U32 × IoOp × IoAnswer)} {content : List U8} (h : OpenFiles s inodes ls)
    (hopen : inode ∈ inodes) (hstored : StoredFile (s.file inode) s.vol (ls inode) content) (hrun : IoRun inodes s tr s')
    (hothers : ∀ e ∈ tr, e.1 ≠ inode) :
    s'.file inode = s.file inode ∧ StoredFile (s.file inode) s'.vol (ls inode) content := by
  induction hrun generalizing ls with
  | nil s => exact ⟨rfl, hstored⟩
  | @cons s s' i op rest hi hfits hrest ih =>
      obtain ⟨a, l', -, -, ⟨g, hserved⟩, h', -⟩ := h.call hi hfits fun i _ => sees_diskOf s ls i
      have hne : inode ≠ i := fun heq => hothers _ List.mem_cons_self heq.symm
      have hsame : (s.call i op).2.file inode = s.file inode := Function.update_of_ne hne ..
      have hnext := hserved.other_stored (h.file inode hopen) (h.apart inode hopen i hi hne) (h.entries inode hopen i hi hne)
        hstored
      obtain ⟨hfile, hlast⟩ := ih h' (by
        rw [hsame, Function.update_of_ne hne]
        exact hnext) fun e he => hothers e (List.mem_cons_of_mem _ he)
      rw [Function.update_of_ne hne, hsame] at hlast
      exact ⟨hfile.trans hsame, hlast⟩

/-- After `fatbase_sync` the file is stored. -/
theorem sync_stores {f : FatIo} {v : IoVolume} {l : List U32} (h : OpenFile f v l) (hgood : v.vol.Good) :
    ∃ g w, ioSync f v = (0, g, w) ∧ Served f v l g w l ∧ StoredFile g w l (ioContent f v l) := by
  obtain ⟨g, w, hcall, hserved, -, hcontent, hdisk, hentered⟩ := ioSync_spec h hgood
  refine ⟨g, w, hcall, hserved, hentered, hserved.file.file.org, hserved.file.file.chain, ?_⟩
  have hsize : g.fsize = f.fsize := by
    refine BitVec.eq_of_toNat_eq ?_
    rw [← ioContent_length g w l, ← ioContent_length f v l, hcontent]
  unfold stored ioContent
  rw [hsize]
  refine map_range_congr fun i _ => ?_
  have hplace : w.fileSect l (i / 512) = v.fileSect l (i / 512) := hserved.confined.fileSect l (i / 512)
  rw [hplace, hdisk]
  rfl

/-- What `fatbase_sync` has stored of a file is found again by its directory entry, whatever is done to other files. -/
theorem synced_stays {inode : U32} {tr : List (U32 × IoOp × IoAnswer)} (h : OpenFiles s inodes ls) (hopen : inode ∈ inodes)
    (hrun : IoRun inodes (s.call inode .sync).2 tr s') (hothers : ∀ e ∈ tr, e.1 ≠ inode) :
    fileAt s'.vol (s.file inode).dirSect (s.file inode).dirPtr = ioContent (s.file inode) s.vol (ls inode) := by
  obtain ⟨g, w, hcall, hserved, hstored⟩ := sync_stores (h.file inode hopen) h.good
  have hexec : s.call inode .sync = (.done 0, ⟨w, Function.update s.file inode g⟩) := by
    unfold IoState.call IoOp.exec
    dsimp only
    rw [hcall]
  have h' := h.after hopen hserved
  rw [Function.update_eq_self] at h'
  rw [hexec] at hrun
  obtain ⟨-, hlast⟩ := hrun.others h' hopen (by
    dsimp only
    rw [Function.update_self]
    exact hstored) hothers
  dsimp only at hlast
  rw [Function.update_self] at hlast
  obtain ⟨hsect, hptr⟩ := Prod.mk.inj hserved.slot
  rw [← hsect, ← hptr]
  exact hlast.fileAt_eq

end Runs

/-! ### Two files on a small drive -/

/-- Two empty files, `7` and `8`, with directory entries in the sector `8`. -/
def twoFiles : IoState where
  vol := smallDrive fun _ => true
  file := fun i => { emptyFile with canWrite := true, dirPtr := if i = 7 then 0 else 32 }

/-- An entry of zeros is that of an empty file. -/
theorem entered_zero {f : FatIo} {v : IoVolume} (hdir : v.dir f.dirSect = fun _ => 0) (hsize : f.fsize = 0)
    (horg : f.orgClust = 0) : Entered f v := by
  refine ⟨?_, ?_⟩
  · rw [hdir, hsize]
    show ((0 ++ 0 : BitVec 16) ++ (0 ++ 0 : BitVec 16) : U32) = 0
    decide
  · rw [hdir, horg]
    show ((0 ++ 0 : BitVec 16) ++ (0 ++ 0 : BitVec 16) : U32) = 0
    decide

theorem twoFiles_open : OpenFiles twoFiles {7, 8} fun _ => [] := by
  have hfile : ∀ i, OpenFile (twoFiles.file i) twoFiles.vol [] := fun i =>
    ⟨⟨⟨rfl, Chained.nil, Nat.zero_le _, fun _ => BitVec.le_refl _⟩, smallDrive_wellFormed _, smallDrive_placed _, rfl, rfl,
      fun _ => ⟨rfl, rfl⟩, fun hpos => absurd rfl hpos, fun hin => absurd rfl hin⟩, rfl, rfl, fun hd => hd,
      fun _ => entered_zero rfl rfl rfl⟩
  refine ⟨⟨smallDrive_wellFormed _, fun _ _ => rfl⟩, fun i _ => hfile i, fun _ _ _ _ _ => List.disjoint_nil_left [], ?_⟩
  rintro i (rfl | rfl) j (rfl | rfl) hne
  · exact absurd rfl hne
  · exact fun _ => Or.inl (by decide)
  · exact fun _ => Or.inr (by decide)
  · exact absurd rfl hne

/-- One free cluster is room enough for a file that grows by one at most. -/
theorem hasRoom_of_free {f : FatIo} {v : IoVolume} {ofs c : U32}
    (hfree : v.vol.Inside c ∧ v.vol.fat c = 0 ∧ growth f v ofs ≤ 1) : v.vol.HasRoom (growth f v ofs) :=
  ⟨[c], List.nodup_singleton c, hfree.2.2, fun d hd => by
    obtain rfl := List.mem_singleton.mp hd
    exact ⟨hfree.1, hfree.2.1⟩⟩

/-- One call, with what it returns. -/
theorem IoRun.told {inodes : Set U32} {s s' : IoState} {inode : U32} {op : IoOp} {r : IoAnswer}
    {rest : List (U32 × IoOp × IoAnswer)} (hopen : inode ∈ inodes) (hfits : op.Fits (s.file inode) s.vol)
    (hanswer : (s.call inode op).1 = r) (hrest : IoRun inodes (s.call inode op).2 rest s') :
    IoRun inodes s ((inode, op, r) :: rest) s' := by
  rw [← hanswer]
  exact .cons hopen hfits hrest

/-- The file `7` has three bytes. -/
def threeBytes : IoState := (twoFiles.call 7 (.write [1, 2, 3])).2

theorem threeBytes_open : ∃ ls, OpenFiles threeBytes {7, 8} ls := by
  have hfits : (IoOp.write [1, 2, 3]).Fits (twoFiles.file 7) twoFiles.vol :=
    ⟨by decide +kernel, hasRoom_of_free (c := 2) (by decide +kernel)⟩
  obtain ⟨a, l', -, -, -, hopen, -⟩ := twoFiles_open.call (Or.inl rfl) hfits fun i _ => sees_diskOf twoFiles _ i
  exact ⟨_, hopen⟩

/-- The file `8` gets two bytes after the file `7` has been synced. -/
def laterCalls : List (U32 × IoOp × IoAnswer) := [(8, .write [4, 5], .count 0 2), (8, .sync, .done 0)]

def laterState : IoState := (((threeBytes.call 7 .sync).2.call 8 (.write [4, 5])).2.call 8 .sync).2

theorem threeBytes_run : IoRun {7, 8} (threeBytes.call 7 .sync).2 laterCalls laterState :=
  .told (Or.inr rfl) ⟨by decide +kernel, hasRoom_of_free (c := 3) (by decide +kernel)⟩ (by decide +kernel)
    (.told (Or.inr rfl) trivial (by decide +kernel) (.nil _))

theorem synced_stays_small : ∃ ls : U32 → List U32, OpenFiles threeBytes {7, 8} ls ∧
    fileAt laterState.vol 8 0 = ioContent (threeBytes.file 7) threeBytes.vol (ls 7) ∧ fileAt laterState.vol 8 0 = [1, 2, 3] ∧
      fileAt laterState.vol 8 32 = [4, 5] := by
  obtain ⟨ls, hopen⟩ := threeBytes_open
  have hsect : (threeBytes.file 7).dirSect = 8 := by decide +kernel
  have hptr : (threeBytes.file 7).dirPtr = 0 := by decide +kernel
  have hstays := synced_stays hopen (Or.inl rfl) threeBytes_run (by decide)
  rw [hsect, hptr] at hstays
  exact ⟨ls, hopen, hstays, by decide +kernel, by decide +kernel⟩

end Fs
end FreakOS
