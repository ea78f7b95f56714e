import FreakOS.Fs.FatIoWrite

/-!
# Calls on an open FAT file

`fatbase_read`, `fatbase_write`, `fatbase_lseek` and `fatbase_sync` on a file that is open, by its content and its directory
entry.

* `ioContent` — the content of a file.
* `ioRead_spec` — what a read returns, whichever transfers fail.
* `OpenFile` — a file of the kernel, whose directory entry tells of it unless it has been written.
* `Served` — what a call leaves of a file and its drive.
* `ioWrite_spec`, `ioSync_spec`, `ioLseek_spec` — the other calls, on a drive that works and has room.
* `syncEntry_backed` — the directories that a file is synced to are those on the drive.
-/

namespace FreakOS
namespace Fs

open Lib
open Memory
open Fat (WinVolume entryFsize entryOrgClust storeEntry entryFsize_congr entryOrgClust_congr entryFsize_store
  entryOrgClust_store storeEntry_apart)

/-! ### The content of a file -/

/-- The content of a file with the clusters `l`. -/
def ioContent (f : FatIo) (v : IoVolume) (l : List U32) : List U8 := (List.range f.fsize.toNat).map (ioByte f v l)

section Content

variable {f g : FatIo} {v w : IoVolume} {l l' : List U32}

theorem ioContent_length (f : FatIo) (v : IoVolume) (l : List U32) : (ioContent f v l).length = f.fsize.toNat := by
  unfold ioContent
  rw [List.length_map, List.length_range]

theorem ioContent_getElem? (f : FatIo) (v : IoVolume) (l : List U32) (i : Nat) :
    (ioContent f v l)[i]? = if i < f.fsize.toNat then some (ioByte f v l i) else none := by
  unfold ioContent
  rw [List.getElem?_map]
  split
  · rename_i hlt
    rw [List.getElem?_range hlt]
    rfl
  · rename_i hge
    rw [List.getElem?_eq_none (by rw [List.length_range]; omega)]
    rfl

/-- The bytes from a place on. -/
theorem ioContent_take (f : FatIo) (v : IoVolume) (l : List U32) {p k : Nat} (hle : p + k ≤ f.fsize.toNat) :
    ((ioContent f v l).drop p).take k = (List.range k).map fun i => ioByte f v l (p + i) := by
  refine List.ext_getElem? fun i => ?_
  rw [List.getElem?_take, List.getElem?_drop, ioContent_getElem?, List.getElem?_map]
  by_cases hi : i < k
  · rw [if_pos hi, if_pos (by omega), List.getElem?_range hi]
    rfl
  · rw [if_neg hi, List.getElem?_eq_none (by rw [List.length_range]; omega)]
    rfl

theorem ioContent_congr (hsize : g.fsize = f.fsize) (hsame : ∀ i < f.fsize.toNat, ioByte g w l' i = ioByte f v l i) :
    ioContent g w l' = ioContent f v l := by
  unfold ioContent
  rw [hsize]
  exact map_range_congr hsame

end Content

/-! ### `fatbase_read` -/

section Read

variable {f : FatIo} {v : IoVolume} {l : List U32}

/-- What a call of `fatbase_read` leaves: `k` bytes have been read. -/
structure ReadBack (f : FatIo) (v : IoVolume) (l : List U32) (btr : U32) (k : Nat) (r : (Int × List U8) × FatIo × IoVolume) :
    Prop where
  bytes : r.1.2 = ((ioContent f v l).drop f.fptr.toNat).take k
  fptr : r.2.1.fptr.toNat = f.fptr.toNat + k
  le : k ≤ min btr.toNat (f.fsize.toNat - f.fptr.toNat)
  reading : Reading f v r.2.1 r.2.2
  outcome : r.1.1 = 0 ∧ k = min btr.toNat (f.fsize.toNat - f.fptr.toNat) ∧ IoFile r.2.1 r.2.2 l ∨
    r.1.1 = FR_RW_ERROR ∧ r.2.1.error = true ∧ ¬ v.vol.Works

/-- Whichever transfers fail, `fatbase_read` returns bytes of the file from its pointer on, and moves the pointer behind
them.  It changes no byte of the file, and fails only on a drive that does not work. -/
theorem ioRead_spec (h : IoFile f v l) (hread : f.canRead = true) (btr : U32) :
    ∃ k, ReadBack f v l btr k (ioRead f v btr) := by
  have hptr : f.fptr ≤ f.fsize := h.file.fptr h.error
  have hle := BitVec.le_def.mp hptr
  have hremain : (f.fsize - f.fptr).toNat = f.fsize.toNat - f.fptr.toNat := BitVec.toNat_sub_of_le hptr
  have hcount : (if f.fsize - f.fptr < btr then f.fsize - f.fptr else btr).toNat =
      min btr.toNat (f.fsize.toNat - f.fptr.toNat) := by
    split
    · rename_i hlt
      rw [BitVec.lt_def, hremain] at hlt
      omega
    · rename_i hge
      rw [BitVec.not_lt, BitVec.le_def, hremain] at hge
      omega
  unfold ioRead
  dsimp only
  rw [h.valid, h.error, hread, if_neg (by decide), if_neg (by decide), if_neg (by decide), hcount]
  obtain ⟨k, hk⟩ := readLoop_spec (min btr.toNat (f.fsize.toNat - f.fptr.toNat)) h (by omega)
    (Nat.lt_succ_self _)
  have hsmall := hk.le
  refine ⟨k, ?_, hk.fptr, hk.le, hk.reading, hk.outcome⟩
  rw [hk.bytes, ioContent_take f v l (by omega)]

/-- A drive with three clusters and an empty FAT. -/
def smallDrive (ok : Nat → Bool) : IoVolume where
  vol := {
    maxClust := 5
    sectsClust := 1
    lastClust := 0
    freeClust := 3
    fsiFlag := false
    fat := fun _ => 0
    entryMask := 0x0FFFFFFF
    data := fun _ _ => 0
    ok := ok
    moved := fun _ => 0
    accesses := 0 }
  fsType := .fat32
  database := 10
  disk := fun _ _ => 0
  dir := fun _ _ => 0
  mounted := true
  id := 1

/-- An empty file that is open for reading only. -/
def emptyFile : FatIo where
  canRead := true
  canWrite := false
  written := false
  dirty := false
  error := false
  fptr := 0
  fsize := 0
  orgClust := 0
  currClust := 0
  bound := true
  id := 1
  sectClust := 1
  currSect := 0
  dirSect := 8
  dirPtr := 0
  buffer := fun _ => 0

theorem smallDrive_wellFormed (ok : Nat → Bool) : (smallDrive ok).vol.WellFormed := by
  refine ⟨(by decide : 0 < 1), fun clust hlt => ?_, (by decide : (5 : U32) ≤ 0x0FFFFFFF &&& 0x0FFFFFFF),
    fun _ _ => (by decide : (0 : U32) ≠ 1)⟩
  have hmask : (smallDrive ok).vol.entryMask = BitVec.ofNat 32 (2 ^ 28 - 1) := rfl
  have hsmall : clust.toNat < 5 := BitVec.lt_def.mp hlt
  refine BitVec.eq_of_toNat_eq ?_
  rw [hmask, BitVec.toNat_and, BitVec.toNat_ofNat]
  show clust.toNat &&& (2 ^ 28 - 1) = _
  rw [Nat.and_two_pow_sub_one_eq_mod]
  exact Nat.mod_eq_of_lt (by omega)

theorem smallDrive_placed (ok : Nat → Bool) : (smallDrive ok).Placed := (by decide : 10 + 5 * 1 < 2 ^ 32)

/-- A drive on which a transfer may fail, with a file of three bytes in the cluster `2`. -/
def shortIo (ok : Nat → Bool) : FatIo × IoVolume :=
  ({ emptyFile with fsize := 3, orgClust := 2 },
    { smallDrive ok with vol := { (smallDrive ok).vol with fat := fun c => if c = 2 then 0x0FFFFFFF else 0 } })

theorem shortIo_file (ok : Nat → Bool) : IoFile (shortIo ok).1 (shortIo ok).2 [2] := by
  have hwell := smallDrive_wellFormed ok
  have hchain : (shortIo ok).2.vol.OnChain [2] :=
    Chained.single ⟨BitVec.le_refl _, (by decide : (2 : U32) < 5)⟩ (by decide : (5 : U32) ≤ 0x0FFFFFFF)
  have hone : (smallDrive ok).C = 1 := rfl
  have hsize : (3 : U32).toNat ≤ 1 * (smallDrive ok).vol.clustBytes.toNat := by
    rw [clustBytes_eq, hone]
    decide
  refine ⟨⟨rfl, hchain, hsize, fun _ => (by decide : (0 : U32) ≤ 3)⟩,
    ⟨hwell.sects, hwell.entry, hwell.mark, fun clust _ => ?_⟩,
    smallDrive_placed ok, rfl, rfl, fun _ => ⟨rfl, rfl⟩, fun hpos => absurd rfl hpos, fun hin => absurd rfl hin⟩
  show (if clust = 2 then (0x0FFFFFFF : U32) else 0) ≠ 1
  split <;> decide

/-- A file that may not be written, on a drive that works and on one that fails. -/
theorem ioRead_spec_short : (∃ k, ReadBack (shortIo fun _ => true).1 (shortIo fun _ => true).2 [2] 5 k
      (ioRead (shortIo fun _ => true).1 (shortIo fun _ => true).2 5)) ∧
    (ioRead (shortIo fun _ => true).1 (shortIo fun _ => true).2 5).1 = (0, [0, 0, 0]) ∧
    ∃ k, ReadBack (shortIo fun _ => false).1 (shortIo fun _ => false).2 [2] 5 k
      (ioRead (shortIo fun _ => false).1 (shortIo fun _ => false).2 5) :=
  ⟨ioRead_spec (shortIo_file _) rfl 5, rfl, ioRead_spec (shortIo_file _) rfl 5⟩

end Read

/-! ### Open files -/

/-- The directory entry of a file has its size and its first cluster. -/
structure Entered (f : FatIo) (v : IoVolume) : Prop where
  size : entryFsize (v.dir f.dirSect) f.dirPtr = f.fsize
  clust : entryOrgClust (v.dir f.dirSect) f.dirPtr = f.orgClust

/-- A file of the kernel: it is open for reading and writing, and `fatbase_sync` sees that its buffer is dirty, or that its
directory entry is an old one. -/
structure OpenFile (f : FatIo) (v : IoVolume) (l : List U32) : Prop extends IoFile f v l where
  canRead : f.canRead = true
  canWrite : f.canWrite = true
  dirty : f.dirty = true → f.written = true
  entered : f.written = false → Entered f v

section Calls

variable {f g : FatIo} {v w : IoVolume} {l l' : List U32}

/-- The end of `fatbase_write` changes nothing in a file whose pointer is in it. -/
theorem IoFile.writeDone (h : IoFile f v l) : IoFile (writeDone f) v l := by
  have hsize : (Fs.writeDone f).fsize = f.fsize := by
    refine BitVec.eq_of_toNat_eq ?_
    rw [writeDone_fsize]
    exact max_eq_left (BitVec.le_def.mp (h.file.fptr h.error))
  refine ⟨⟨h.file.org, h.file.chain, ?_, ?_⟩, h.wf, h.placed, h.valid, h.error, h.top, fun hpos => ?_,
    h.loaded⟩
  · show (Fs.writeDone f).fsize.toNat ≤ _
    rw [hsize]
    exact h.file.size
  · intro herror
    show f.fptr ≤ (Fs.writeDone f).fsize
    rw [hsize]
    exact h.file.fptr herror
  · exact ⟨(h.stands hpos).clust, (h.stands hpos).sect, (h.stands hpos).left⟩

/-- Reading is confined to the file. -/
theorem Reading.confined (h : IoFile f v l) (hgood : v.vol.Good) (hreading : Reading f v g w) : Confined v l w l := by
  obtain ⟨n, disk, rfl⟩ := hreading.vol
  refine .same hgood h.file.chain n fun s hs => ?_
  rcases hreading.disk with hdisk | hdisk
  · exact congrFun hdisk s
  · exact (congrFun hdisk s).trans (shown_outside h.writeDone hs)

/-! #### `fatbase_write` -/

/-- The clusters by which a file must grow to reach an offset. -/
def growth (f : FatIo) (v : IoVolume) (ofs : U32) : Nat := v.vol.clustersFor ofs - v.vol.clustersFor f.fsize

/-- With them, the chain of the file reaches the offset. -/
theorem growth_reaches (h : IoFile f v l) (hgood : v.vol.Good) (ofs : U32) (hpos : 0 < ofs.toNat) :
    (ofs.toNat - 1) / 512 / v.C < l.length + growth f v ofs := by
  have hold := h.file.clustersFor_le hgood (BitVec.le_refl f.fsize)
  have hlt : (ofs.toNat - 1) / v.vol.clustBytes.toNat < v.vol.clustersFor ofs := div_lt_clustersFor hgood (by omega)
  rw [clustBytes_eq] at hlt
  rw [Nat.div_div_eq_div_mul, Nat.mul_comm 512]
  unfold growth
  omega

theorem overwrite_getElem? (content data : List U8) {p : Nat} (hp : p ≤ content.length) (i : Nat) :
    (overwrite content p data)[i]? =
      if p ≤ i ∧ i < p + data.length then data[i - p]? else content[i]? := by
  unfold overwrite
  have htake : (content.take p).length = p := List.length_take_of_le hp
  by_cases hlow : i < p
  · rw [if_neg (by omega), List.append_assoc, List.getElem?_append_left (by omega), List.getElem?_take_of_lt hlow]
  · rw [List.append_assoc, List.getElem?_append_right (by omega), htake]
    by_cases hin : i < p + data.length
    · rw [if_pos (by omega), List.getElem?_append_left (by omega)]
    · rw [if_neg (by omega), List.getElem?_append_right (by omega), List.getElem?_drop]
      congr 1
      omega

/-- What a call leaves of an open file and its drive: of the directories, it changes the entry of the file only. -/
structure Served (f : FatIo) (v : IoVolume) (l : List U32) (g : FatIo) (w : IoVolume) (l' : List U32) : Prop where
  confined : Confined v l { w with dir := v.dir } l'
  entries : ∀ s i, (s = f.dirSect → i < f.dirPtr ∨ f.dirPtr + 32 ≤ i) → w.dir s i = v.dir s i
  slot : g.slot = f.slot
  file : OpenFile g w l'

/-- A call that leaves the directories alone. -/
theorem Confined.served (h : Confined v l w l') (hslot : g.slot = f.slot) (hfile : OpenFile g w l') :
    Served f v l g w l' := by
  have hsame : { w with dir := v.dir } = w := by rw [← h.dir]
  refine ⟨?_, fun s i _ => by rw [h.dir], hslot, hfile⟩
  rw [hsame]
  exact h

/-- A call after one that leaves the directories alone. -/
theorem Served.before {e : FatIo} {u : IoVolume} {l'' : List U32} (h : Served g w l' e u l'') (hconf : Confined v l w l')
    (hslot : g.slot = f.slot) : Served f v l e u l'' := by
  obtain ⟨hsect, hptr⟩ := Prod.mk.inj hslot
  have hboth := hconf.trans h.confined
  refine ⟨?_, ?_, h.slot.trans hslot, h.file⟩
  · rw [hconf.dir] at hboth
    exact hboth
  · intro s i hi
    rw [h.entries s i (by rwa [hsect, hptr]), hconf.dir]

theorem Entered.transfer (h : Entered f v) (hslot : g.slot = f.slot) (hdir : w.dir = v.dir) (hsize : g.fsize = f.fsize)
    (horg : g.orgClust = f.orgClust) : Entered g w := by
  obtain ⟨hsect, hptr⟩ := Prod.mk.inj hslot
  refine ⟨?_, ?_⟩
  · rw [hdir, hsect, hptr, hsize]
    exact h.size
  · rw [hdir, hsect, hptr, horg]
    exact h.clust

/-- On a drive that works and has room, `fatbase_write` writes its bytes over the content from the pointer on. -/
theorem ioWrite_spec (h : OpenFile f v l) (hgood : v.vol.Good) (data : List U8) (hsize : f.fsize.toNat + data.length < 2 ^ 32)
    (hroom : v.vol.HasRoom (growth f v (f.fptr + BitVec.ofNat 32 data.length))) :
    ∃ g w l', ioWrite f v data = ((0, data.length), g, w) ∧ Served f v l g w l' ∧
      w.dir = v.dir ∧ g.fptr.toNat = f.fptr.toNat + data.length ∧
        ioContent g w l' = overwrite (ioContent f v l) f.fptr.toNat data := by
  have hle := BitVec.le_def.mp (h.file.fptr h.error)
  have hend : (f.fptr + BitVec.ofNat 32 data.length).toNat = f.fptr.toNat + data.length :=
    advance_toNat f (by omega)
  have hgrow : ¬ f.fsize + BitVec.ofNat 32 data.length < f.fsize := by
    rw [BitVec.lt_def, BitVec.toNat_add, BitVec.toNat_ofNat, Nat.mod_eq_of_lt (a := data.length) (by omega),
      Nat.mod_eq_of_lt hsize]
    omega
  obtain ⟨g, w, l', hcall, hwrote⟩ := writeLoop_spec (data.length + 1) data h.toIoFile.writeDone hgood hroom
    (by
      intro hpos
      have := growth_reaches h.toIoFile hgood (f.fptr + BitVec.ofNat 32 data.length) (by omega)
      rwa [hend] at this)
    (by omega) (Nat.lt_succ_self _)
  have hopen : OpenFile (writeDone g) w l' := ⟨hwrote.file, hwrote.canRead.trans h.canRead, hwrote.canWrite.trans h.canWrite,
    fun _ => rfl, fun hunwritten => absurd (show true = false from hunwritten) (by decide)⟩
  refine ⟨writeDone g, w, l', ?_, hwrote.confined.served hwrote.slot hopen, hwrote.confined.dir, hwrote.fptr, ?_⟩
  · unfold ioWrite
    rw [h.valid, h.error, h.canWrite, if_neg (by decide), if_neg (by decide), if_neg (by decide), if_neg hgrow, hcall]
  · refine List.ext_getElem? fun i => ?_
    rw [overwrite_getElem? _ _ (by rw [ioContent_length]; exact hle), ioContent_getElem?, ioContent_getElem?, writeDone_fsize,
      hwrote.fsize, hwrote.fptr]
    by_cases hnew : f.fptr.toNat ≤ i ∧ i < f.fptr.toNat + data.length
    · rw [if_pos hnew, if_pos (by omega)]
      have hbyte : ioByte (writeDone g) w l' i = ioByte g w l' i := rfl
      rw [hbyte, hwrote.bytes i (by rw [hwrote.fptr]; omega), if_pos hnew, List.getD_eq_getElem _ _ (by omega),
        List.getElem?_eq_getElem (by omega)]
    · rw [if_neg hnew]
      by_cases hold : i < f.fsize.toNat
      · have hbyte : ioByte (writeDone g) w l' i = ioByte g w l' i := rfl
        rw [if_pos (by omega), if_pos hold, hbyte, hwrote.bytes i (by omega), if_neg hnew]
      · rw [if_neg (by omega), if_neg hold]

/-! #### `fatbase_sync` -/

/-- The file after its buffer has been written back. -/
theorem IoFile.flushed (h : IoFile f v l) (n : Nat) :
    IoFile { f with dirty := false } { v.after n with disk := shown f v } l := by
  refine ⟨h.file.transfer (.after v.vol n) rfl rfl rfl h.file.fptr, ⟨h.wf.sects, h.wf.entry, h.wf.mark, h.wf.reserved⟩,
    h.placed, h.valid, h.error, fun hzero => ⟨(h.top hzero).1, rfl⟩, ?_, ?_⟩
  · intro hpos
    exact ⟨(h.stands hpos).clust, (h.stands hpos).sect, (h.stands hpos).left⟩
  · intro hsect _
    show f.buffer = shown f v f.currSect
    unfold shown
    split
    · rw [Function.update_self]
    · rename_i hclean
      exact h.loaded hsect (by simpa using hclean)

/-- The file with its buffer written back is still open. -/
theorem OpenFile.flushed (h : OpenFile f v l) (n : Nat) :
    OpenFile { f with dirty := false } { v.after n with disk := shown f v } l :=
  ⟨h.toIoFile.flushed n, h.canRead, h.canWrite, fun hd => absurd (show false = true from hd) (by decide),
    fun hunwritten => (h.entered hunwritten).transfer rfl rfl rfl rfl⟩

/-- `FA__WRITTEN` and the directories are for `fatbase_sync` only, and the FSInfo flag is for `sync` only. -/
theorem IoFile.aside (h : IoFile f v l) (written : Bool) (n : Nat) (fsiFlag : Bool) (dir : U32 → ByteMap) :
    IoFile { f with written := written } { v with vol := { v.vol.after n with fsiFlag := fsiFlag }, dir := dir } l :=
  ⟨⟨h.file.org, ⟨h.file.chain.steps, h.file.chain.inside, h.file.chain.stops⟩, h.file.size, h.file.fptr⟩,
    ⟨h.wf.sects, h.wf.entry, h.wf.mark, h.wf.reserved⟩, h.placed, h.valid, h.error, h.top,
    fun hpos => ⟨(h.stands hpos).clust, (h.stands hpos).sect, (h.stands hpos).left⟩, h.loaded⟩

/-- `sync` on a drive that works. -/
theorem sync_works (v : IoVolume) (hworks : v.vol.Works) :
    ∃ n fsiFlag, v.sync = (0, { v with vol := { v.vol.after n with fsiFlag := fsiFlag } }) := by
  unfold IoVolume.sync
  rw [v.access_eq, hworks _ le_rfl]
  dsimp only
  rw [if_neg (by decide)]
  split
  · exact ⟨2, false, rfl⟩
  · exact ⟨1, v.vol.fsiFlag, rfl⟩

/-- `fatbase_sync` from the directory entry on, on a drive that works. -/
theorem ioSyncEntry_works (f : FatIo) (hworks : v.vol.Works) :
    ∃ n fsiFlag, ioSyncEntry f v = (0, { f with written := false }, { v with
      vol := { v.vol.after n with fsiFlag := fsiFlag }
      dir := Function.update v.dir f.dirSect (storeEntry (v.dir f.dirSect) f.dirPtr f.fsize f.orgClust) }) := by
  obtain ⟨n, fsiFlag, hsync⟩ := sync_works { v.after 1 with
      dir := Function.update v.dir f.dirSect (storeEntry (v.dir f.dirSect) f.dirPtr f.fsize f.orgClust) }
    fun k hk => hworks k ((Nat.le_succ _).trans hk)
  refine ⟨1 + n, fsiFlag, ?_⟩
  unfold ioSyncEntry
  rw [v.access_eq, hworks _ le_rfl]
  dsimp only
  rw [if_neg (by decide), ← v.vol.after_after]
  exact congrArg (fun r : Int × IoVolume => (r.1, { f with written := false }, r.2)) hsync

/-- The sectors `dirs` of the directories are what the window and the drive show. -/
def ShowsDirs (dirs : Set U32) (w : WinVolume) (v : IoVolume) : Prop :=
  ∃ L, w.Shows L ∧ ∀ s ∈ dirs, w.Primary s ∧ L s = v.dir s

/-- With the window, `fatbase_sync` from the directory entry on stores the same, and the drive itself has the directories
then. -/
theorem syncEntry_backed {dirs : Set U32} {win : WinVolume} (h : ShowsDirs dirs win v) (hsect : f.dirSect ∈ dirs)
    (hwin : win.Works) (hworks : v.vol.Works) :
    ShowsDirs dirs (win.syncEntry f.dirSect f.dirPtr f.fsize f.orgClust).2 (ioSyncEntry f v).2.2 ∧
      ∀ s ∈ dirs, (win.syncEntry f.dirSect f.dirPtr f.fsize f.orgClust).2.disk s = (ioSyncEntry f v).2.2.dir s := by
  obtain ⟨L, hshows, hdirs⟩ := h
  obtain ⟨hprimary, hline⟩ := hdirs f.dirSect hsect
  obtain ⟨L', -, hshows', hnext, hstored, hdone⟩ := WinVolume.syncEntry_shows hshows hprimary f.dirPtr f.fsize f.orgClust
  obtain ⟨rfl, hmain⟩ := hstored (hdone hwin)
  obtain ⟨n, fsiFlag, hcall⟩ := ioSyncEntry_works f hworks
  rw [hcall]
  -- Both store the entry over the same sector.
  have hsame : ∀ s ∈ dirs, Function.update L f.dirSect (storeEntry (L f.dirSect) f.dirPtr f.fsize f.orgClust) s =
      Function.update v.dir f.dirSect (storeEntry (v.dir f.dirSect) f.dirPtr f.fsize f.orgClust) s := by
    intro s hs
    by_cases heq : s = f.dirSect
    · rw [heq, Function.update_self, Function.update_self, hline]
    · rw [Function.update_of_ne heq, Function.update_of_ne heq]
      exact (hdirs s hs).2
  have hplace : ∀ s ∈ dirs, (win.syncEntry f.dirSect f.dirPtr f.fsize f.orgClust).2.Primary s := by
    intro s hs
    rw [hnext.layout]
    exact (hdirs s hs).1
  refine ⟨⟨_, hshows', fun s hs => ⟨hplace s hs, hsame s hs⟩⟩, fun s hs => ?_⟩
  refine Eq.trans ?_ (hsame s hs)
  rw [← hmain]
  exact (if_pos (hplace s hs)).symm

/-- `fatbase_sync` from the directory entry on puts the file into its directory. -/
theorem ioSyncEntry_spec (h : OpenFile f v l) (hgood : v.vol.Good) (hclean : f.dirty = false) :
    ∃ g w, ioSyncEntry f v = (0, g, w) ∧ Served f v l g w l ∧ g.fptr = f.fptr ∧ ioContent g w l = ioContent f v l ∧
      w.disk = v.disk ∧ Entered g w := by
  obtain ⟨n, fsiFlag, hcall⟩ := ioSyncEntry_works f hgood.works
  have hentered : Entered { f with written := false } { v with
      vol := { v.vol.after n with fsiFlag := fsiFlag }
      dir := Function.update v.dir f.dirSect (storeEntry (v.dir f.dirSect) f.dirPtr f.fsize f.orgClust) } := by
    refine ⟨?_, ?_⟩
    · dsimp only
      rw [Function.update_self, entryFsize_store]
    · dsimp only
      rw [Function.update_self, entryOrgClust_store]
  refine ⟨_, _, hcall, ⟨.synced hgood h.file.chain n fsiFlag, ?_, rfl, ⟨h.toIoFile.aside false n fsiFlag _, h.canRead,
    h.canWrite, ?_, fun _ => hentered⟩⟩, rfl, ?_, rfl, hentered⟩
  · intro s i hi
    dsimp only
    by_cases hsect : s = f.dirSect
    · rw [hsect, Function.update_self, storeEntry_apart _ _ _ (hi hsect)]
    · rw [Function.update_of_ne hsect]
  · intro hdirty
    exact absurd (show f.dirty = true from hdirty) (by rw [hclean]; decide)
  · exact ioContent_congr rfl fun _ _ => rfl

/-- On a drive that works, `fatbase_sync` writes the buffer back, and the directory entry has the file then. -/
theorem ioSync_spec (h : OpenFile f v l) (hgood : v.vol.Good) : ∃ g w, ioSync f v = (0, g, w) ∧ Served f v l g w l ∧
    g.fptr = f.fptr ∧ ioContent g w l = ioContent f v l ∧ w.disk = shown f v ∧ Entered g w := by
  unfold ioSync
  rw [h.valid, if_neg (by decide)]
  by_cases hwritten : f.written = true
  · rw [if_pos hwritten]
    obtain ⟨n, hflush⟩ := flush_works f hgood.works
    have hreading := reading_flush f v n
    have hconf := hreading.confined h.toIoFile hgood
    obtain ⟨g, w, hcall, hserved, hptr, hcontent, hdisk, hentered⟩ :=
      ioSyncEntry_spec (h.flushed n) hconf.grown.good rfl
    rw [hflush]
    refine ⟨g, w, hcall, hserved.before hconf rfl, hptr, ?_, hdisk, hentered⟩
    rw [hcontent]
    exact ioContent_congr rfl fun i _ => hreading.ioByte l i
  · rw [if_neg hwritten]
    have hclean : f.dirty = false := by
      cases hdirty : f.dirty with
      | false => rfl
      | true => exact absurd (h.dirty hdirty) hwritten
    exact ⟨f, v, rfl, (Confined.refl hgood h.file.chain).served rfl h, rfl, rfl, (shown_clean hclean).symm,
      h.entered (by simpa using hwritten)⟩

/-! #### `fatbase_lseek` -/

theorem add_skip (p n ofs o : U32) : p + n + (ofs - n - o) = p + (ofs - o) := by grind

/-- The loop of `fatbase_lseek` gets to the cluster of the offset, and stretches the chain up to it. -/
theorem seekLoop_spec (hgood : v.vol.Good) (hwrite : f.canWrite = true) {pre rest : List U32} {clust ofs : U32}
    {k : Nat} (fuel : Nat)
    (hchain : v.vol.OnChain (pre ++ clust :: rest)) (hroom : v.vol.HasRoom k) (hpos : 0 < ofs.toNat)
    (hneed : (ofs.toNat - 1) / (v.C * 512) < rest.length + 1 + k) (hfuel : ofs.toNat < fuel) :
    ∃ c o u l', seekLoop fuel f v clust ofs =
        (.found c o, { f with currClust := c, fptr := f.fptr + (ofs - o) }, { v with vol := u }) ∧
      Grown v.vol (pre ++ clust :: rest) u l' ∧ l'[pre.length + (ofs.toNat - 1) / (v.C * 512)]? = some c ∧
        o.toNat = (ofs.toNat - 1) % (v.C * 512) + 1 := by
  induction fuel generalizing f v pre rest clust ofs k with
  | zero => omega
  | succ fuel ih =>
      have hbytes := clustBytes_eq v
      have hC : 0 < v.C * 512 := Nat.mul_pos (C_pos hgood.toWellFormed) (by decide)
      unfold seekLoop
      dsimp only
      by_cases hlast : ofs ≤ v.vol.clustBytes
      · -- The offset lies in this cluster.
        rw [if_pos hlast]
        have hle := BitVec.le_def.mp hlast
        rw [hbytes] at hle
        refine ⟨clust, ofs, v.vol, _, ?_, .refl hgood hchain, ?_, ?_⟩
        · rw [BitVec.sub_self, BitVec.add_zero]
        · rw [Nat.div_eq_of_lt (by omega), Nat.add_zero, List.getElem?_append_right le_rfl, Nat.sub_self]
          rfl
        · rw [Nat.mod_eq_of_lt (by omega)]
          omega
      · have hlt := BitVec.lt_def.mp (BitVec.not_le.mp hlast)
        rw [hbytes] at hlt
        have hsub : (ofs - v.vol.clustBytes).toNat = ofs.toNat - v.C * 512 := by
          rw [BitVec.toNat_sub_of_le (by rw [BitVec.le_def]; omega), hbytes]
        -- One cluster less.
        have hsplit : ofs.toNat - 1 = ofs.toNat - v.C * 512 - 1 + v.C * 512 := by omega
        have hdiv : (ofs.toNat - 1) / (v.C * 512) = (ofs.toNat - v.C * 512 - 1) / (v.C * 512) + 1 := by
          conv_lhs => rw [hsplit]
          exact Nat.add_div_right _ hC
        have hmod : (ofs.toNat - 1) % (v.C * 512) = (ofs.toNat - v.C * 512 - 1) % (v.C * 512) := by
          conv_lhs => rw [hsplit]
          exact Nat.add_mod_right ..
        obtain ⟨x, hx⟩ : ∃ x, (ofs.toNat - v.C * 512 - 1) / (v.C * 512) = x := ⟨_, rfl⟩
        rw [hx] at hdiv
        rw [hdiv] at hneed
        obtain ⟨d, rest', u, k', hcall, hd, hgrown, hroom', hle⟩ := createChain_follows hgood hchain hroom (by
          rintro rfl
          rw [List.length_nil] at hneed
          omega)
        have hcreate : v.createChain clust = (d, { v with vol := u }) := by
          unfold IoVolume.createChain
          rw [hcall]
        rw [if_neg hlast, if_pos hwrite, hcreate]
        dsimp only
        rw [if_neg (inside_ne_zero hd), hgrown.alike.maxClust,
          if_neg (not_or.mpr ⟨inside_ne_one hd, BitVec.not_le.mpr hd.2⟩), hgrown.alike.clustBytes]
        have hassoc : pre ++ clust :: d :: rest' = (pre ++ [clust]) ++ d :: rest' := by simp
        have hC' : ({ v with vol := u } : IoVolume).C = v.C := congrArg BitVec.toNat hgrown.alike.sectsClust
        obtain ⟨c, o, u', l', hloop, hgrown', hget, ho⟩ :=
          ih (f := { f with currClust := clust, fptr := f.fptr + v.vol.clustBytes })
          (v := { v with vol := u }) hgrown.good hwrite (hassoc ▸ hgrown.chain) hroom' (by rw [hsub]; omega)
          (by rw [hsub, hC', hx]; omega) (by rw [hsub]; omega)
        rw [hsub, hC'] at hget ho
        rw [hx] at hget
        refine ⟨c, o, u', l', ?_, ?_, ?_, ?_⟩
        · rw [hloop]
          rw [add_skip]
        · exact hgrown.trans ⟨hgrown'.good, hgrown'.alike, hgrown'.chain, hassoc ▸ hgrown'.kept,
            fun c hused hc => hgrown'.links c hused (hassoc ▸ hc)⟩
        · rw [hdiv, ← hget, List.length_append, List.length_singleton]
          congr 1
          omega
        · rw [hmod]
          exact ho

/-- What a seek leaves of a file, up to its end. -/
structure Sought (f : FatIo) (v : IoVolume) (l : List U32) (ofs : U32) (g : FatIo) (w : IoVolume) (l' : List U32) : Prop where
  grown : Grown v.vol l w.vol l'
  vol : w = { v with vol := w.vol }
  fil : g = { f with
    fptr := ofs, orgClust := g.orgClust, currClust := g.currClust, sectClust := g.sectClust, currSect := g.currSect,
    buffer := g.buffer }
  org : g.orgClust = l'.headD 0
  stands : Stands g w l' ((ofs.toNat - 1) / 512)
  loaded : ofs.toNat % 512 ≠ 0 → g.buffer = w.disk g.currSect

/-- A place in a cluster, by its sector. -/
theorem sector_of_place {C n : Nat} : (n % (C * 512)) / 512 = n / 512 % C := by
  rw [Nat.mul_comm, Nat.mod_mul_right_div_self]

/-- `fatbase_lseek` from the first cluster on. -/
theorem ioSeekFrom_spec (hgood : v.vol.Good) (hwrite : f.canWrite = true) (hzero : f.fptr = 0) {rest : List U32}
    (hchain : v.vol.OnChain (f.orgClust :: rest)) {ofs : U32} {k : Nat} (hroom : v.vol.HasRoom k) (hpos : 0 < ofs.toNat)
    (hneed : (ofs.toNat - 1) / (v.C * 512) < rest.length + 1 + k) :
    ∃ g w l', ioSeekFrom f v f.orgClust ofs = (0, ioSeekDone g, w) ∧ Sought f v (f.orgClust :: rest) ofs g w l' := by
  have hC := C_pos hgood.toWellFormed
  have hclust : f.orgClust ≠ 0 := inside_ne_zero (hchain.inside _ List.mem_cons_self)
  obtain ⟨c, o, u, l', hloop, hgrown, hget, ho⟩ := seekLoop_spec hgood hwrite (ofs.toNat + 1)
    (show v.vol.OnChain ([] ++ f.orgClust :: rest) from hchain) hroom hpos hneed (Nat.lt_succ_self _)
  rw [List.length_nil, Nat.zero_add] at hget
  -- The sector in the cluster, and in the file.
  obtain ⟨q, hq⟩ : ∃ q, (ofs.toNat - 1) / 512 = q := ⟨_, rfl⟩
  have hquot : (ofs.toNat - 1) / (v.C * 512) = q / v.C := by rw [← hq, Nat.div_div_eq_div_mul, Nat.mul_comm]
  have hmod := Nat.mod_lt q hC
  have hbyte := v.vol.sectsClust.isLt
  have hsmall : q % v.C < 2 ^ 8 := hmod.trans hbyte
  have hpred : ((o - 1) / SECTOR_SIZE).toNat = q % v.C := by
    have hone : (o - 1).toNat = o.toNat - 1 := BitVec.toNat_sub_of_le (BitVec.le_def.mpr (by show 1 ≤ _; omega))
    rw [BitVec.toNat_udiv, hone, ho, Nat.add_sub_cancel, ← hq]
    exact sector_of_place
  obtain ⟨csect, hcsect⟩ : ∃ csect : U8, ((o - 1) / SECTOR_SIZE).setWidth 8 = csect := ⟨_, rfl⟩
  have hcsectVal : csect.toNat = q % v.C := by
    rw [← hcsect, BitVec.toNat_setWidth, hpred]
    exact Nat.mod_eq_of_lt hsmall
  rw [hquot] at hget
  have hwide : csect.setWidth 32 = BitVec.ofNat 32 (q % v.C) := by
    refine BitVec.eq_of_toNat_eq ?_
    rw [BitVec.toNat_setWidth, hcsectVal, BitVec.toNat_ofNat]
  have hCu : ({ v with vol := u } : IoVolume).C = v.C := congrArg BitVec.toNat hgrown.alike.sectsClust
  have hsect : ({ v with vol := u } : IoVolume).sect c + csect.setWidth 32 =
      ({ v with vol := u } : IoVolume).fileSect l' q := by
    unfold IoVolume.fileSect
    rw [hCu, List.getD_eq_getElem?_getD, hget, hwide]
    rfl
  have hleft : (u.sectsClust - csect).toNat = v.C - q % v.C := by
    rw [BitVec.toNat_sub_of_le (BitVec.le_def.mpr (by rw [hcsectVal]; exact hmod.le.trans_eq hCu.symm)), hcsectVal]
    exact congrArg (· - q % v.C) hCu
  have hrem : o.toNat % 512 = ofs.toNat % 512 := by
    have hdvd : (ofs.toNat - 1) % (v.C * 512) % 512 = (ofs.toNat - 1) % 512 := Nat.mod_mul_left_mod ..
    omega
  have horg : f.orgClust = l'.headD 0 := by
    obtain ⟨t, ht⟩ := hgrown.kept
    rw [← ht]
    rfl
  have hptr : f.fptr + (ofs - o) + o = ofs := by
    rw [hzero]
    exact (congrArg (· + o) (BitVec.zero_add _)).trans (BitVec.sub_add_cancel ..)
  unfold ioSeekFrom
  rw [if_neg hclust, hloop]
  dsimp only
  rw [hcsect, hsect]
  by_cases hin : o.toNat % 512 ≠ 0
  · have hread : ({ v with vol := u } : IoVolume).diskRead (({ v with vol := u } : IoVolume).fileSect l' q) =
        (some (v.disk (({ v with vol := u } : IoVolume).fileSect l' q)), ({ v with vol := u } : IoVolume).after 1) :=
      (diskRead_spec _ _).resolve_right fun hfails => hfails.2 hgrown.good.works
    rw [if_pos hin, hread]
    dsimp only
    rw [hptr]
    refine ⟨_, _, l', rfl, ⟨⟨hgrown.good.after 1, hgrown.alike.trans (.after u 1), hgrown.chain, hgrown.kept, hgrown.links⟩,
      rfl, rfl, horg, ⟨?_, ?_, ?_⟩, fun _ => rfl⟩⟩
    · rw [hq]
      exact hCu.symm ▸ hget
    · rw [hq]
      rfl
    · rw [hq]
      exact hleft.trans (congrArg (fun n => n - q % n) hCu.symm)
  · rw [if_neg hin]
    dsimp only
    rw [hptr]
    refine ⟨_, _, l', rfl, ⟨hgrown, rfl, rfl, horg, ⟨?_, ?_, ?_⟩, fun hne => absurd (hrem.trans_ne hne) hin⟩⟩
    · rw [hq]
      exact hCu.symm ▸ hget
    · rw [hq]
    · rw [hq]
      exact hleft.trans (congrArg (fun n => n - q % n) hCu.symm)

/-- `fatbase_lseek` when the buffer is clean. -/
theorem ioSeekClean_spec (h : IoFile f v l) (hwrite : f.canWrite = true) (hgood : v.vol.Good) {ofs : U32} {k : Nat}
    (hroom : v.vol.HasRoom k) (hpos : 0 < ofs.toNat) (hneed : (ofs.toNat - 1) / (v.C * 512) < l.length + k) :
    ∃ g w l', ioSeekClean f v ofs = (0, ioSeekDone g, w) ∧ Sought f v l ofs g w l' := by
  have hne : ofs ≠ 0 := fun hzero => absurd hpos (by rw [hzero]; decide)
  have hclip : ¬ (f.fsize < ofs ∧ (!f.canWrite) = true) := by
    rw [hwrite]
    exact fun h => absurd h.2 (by decide)
  unfold ioSeekClean
  rw [if_neg hclip]
  dsimp only
  rw [if_neg hne]
  cases l with
  | nil =>
      -- The file has no cluster yet.
      have horg : f.orgClust = 0 := h.file.org
      rw [List.length_nil, Nat.zero_add] at hneed
      obtain ⟨b, u, hcall, hin, hgrown, hroom'⟩ := createChain_first hgood hroom (Nat.zero_lt_of_lt hneed)
      have hcreate : v.createChain 0 = (b, { v with vol := u }) := by
        unfold IoVolume.createChain
        rw [hcall]
      have hCu : ({ v with vol := u } : IoVolume).C = v.C := congrArg BitVec.toNat hgrown.alike.sectsClust
      obtain ⟨g, w, l', hseek, hsought⟩ := ioSeekFrom_spec (f := { f with fptr := 0, sectClust := 1, orgClust := b })
        (v := { v with vol := u }) hgrown.good hwrite rfl hgrown.chain hroom' hpos (by
          rw [hCu, List.length_nil]
          omega)
      rw [if_pos horg, hcreate]
      dsimp only
      rw [if_neg (inside_ne_one hin)]
      exact ⟨g, w, l', hseek, ⟨hgrown.trans hsought.grown, hsought.vol, hsought.fil, hsought.org, hsought.stands,
        hsought.loaded⟩⟩
  | cons c rest =>
      obtain rfl : f.orgClust = c := h.file.org
      have hclust : f.orgClust ≠ 0 := inside_ne_zero (h.file.chain.inside _ List.mem_cons_self)
      obtain ⟨g, w, l', hseek, hsought⟩ := ioSeekFrom_spec (f := { f with fptr := 0, sectClust := 1 }) hgood hwrite rfl
        h.file.chain hroom hpos hneed
      rw [if_neg hclust]
      exact ⟨g, w, l', hseek, ⟨hsought.grown, hsought.vol, hsought.fil, hsought.org, hsought.stands, hsought.loaded⟩⟩

/-- The file at its top. -/
theorem IoFile.rewound (h : IoFile f v l) (hclean : f.dirty = false) : IoFile { f with fptr := 0, sectClust := 1 } v l := by
  have htop : (0 : U32) ≤ f.fsize := BitVec.le_def.mpr (Nat.zero_le _)
  refine ⟨h.file.transfer (.refl v.vol) rfl rfl rfl fun _ => htop, h.wf, h.placed, h.valid, h.error,
    fun _ => ⟨rfl, hclean⟩, fun hpos => absurd rfl hpos, fun hsect => absurd rfl hsect⟩

theorem ioSeekDone_eq (hwrite : f.canWrite = true) :
    ioSeekDone f = { writeDone f with written := if f.fsize < f.fptr then true else f.written } := by
  unfold ioSeekDone writeDone
  by_cases hlt : f.fsize < f.fptr
  · rw [if_pos ⟨hwrite, hlt⟩, if_pos hlt, if_pos hlt]
  · rw [if_neg fun h => hlt h.2, if_neg hlt, if_neg hlt]

theorem Sought.fptr {ofs : U32} (hs : Sought f v l ofs g w l') : g.fptr = ofs := by rw [hs.fil]

theorem Sought.fsize {ofs : U32} (hs : Sought f v l ofs g w l') : g.fsize = f.fsize := by rw [hs.fil]

theorem Sought.slot {ofs : U32} (hs : Sought f v l ofs g w l') : g.slot = f.slot := by
  rw [hs.fil]
  rfl

theorem Sought.canWrite {ofs : U32} (hs : Sought f v l ofs g w l') (h : OpenFile f v l) : g.canWrite = true := by
  rw [hs.fil]
  exact h.canWrite

/-- A seek does not touch the drive. -/
theorem Sought.confined {ofs : U32} (hs : Sought f v l ofs g w l') : Confined v l w l' := by
  refine ⟨hs.grown, ?_, ?_, ?_, ?_, fun s _ => ?_⟩ <;> rw [hs.vol]

/-- The file after a seek, with its size. -/
theorem Sought.ioFile {ofs : U32} (hs : Sought f v l ofs g w l') (h : IoFile f v l) (hclean : f.dirty = false)
    (hpos : 0 < ofs.toNat) : IoFile (writeDone g) w l' := by
  have hconf := hs.confined
  obtain ⟨hfile, -⟩ := (h.rewound hclean).writeDone.wrote hconf (g := { g with fptr := 0 }) (m := ofs.toNat) hpos
    (by
      show 0 + ofs.toNat < _
      rw [Nat.zero_add]
      exact ofs.isLt)
    (by
      show ({ g.toFatFil with fptr := 0 } : FatFil) = _
      rw [hs.fil, hs.org])
    (by
      show (g.bound && w.mounted && decide (g.id = w.id)) = _
      rw [hs.fil, hconf.mounted, hconf.id]
      rfl)
    (by
      show Stands _ w l' ((0 + ofs.toNat - 1) / 512)
      rw [Nat.zero_add]
      exact ⟨hs.stands.clust, hs.stands.sect, hs.stands.left⟩)
    (by
      show (0 + ofs.toNat) % 512 ≠ 0 → _
      rw [Nat.zero_add]
      exact fun hne _ => hs.loaded hne)
  have hadvance : ({ g with fptr := 0 } : FatIo).advance ofs.toNat = g := by
    have hval : (0 : U32) + BitVec.ofNat 32 ofs.toNat = g.fptr := by
      rw [hs.fptr, BitVec.ofNat_toNat, BitVec.setWidth_eq]
      exact BitVec.zero_add ofs
    show { g with fptr := 0 + BitVec.ofNat 32 ofs.toNat } = g
    rw [hval]
  rwa [hadvance] at hfile

/-- Without `FA__WRITTEN` the file has not grown, so that it has its first cluster already. -/
theorem Sought.entered {ofs : U32} (hs : Sought f v l ofs g w l') (h : OpenFile f v l) (hpos : 0 < ofs.toNat)
    (hunwritten : (ioSeekDone g).written = false) : Entered (ioSeekDone g) w := by
  have hwrite := hs.canWrite h
  rw [ioSeekDone_eq hwrite] at hunwritten ⊢
  change (if g.fsize < g.fptr then true else g.written) = false at hunwritten
  by_cases hlt : g.fsize < g.fptr
  · rw [if_pos hlt] at hunwritten
    cases hunwritten
  · rw [if_neg hlt] at hunwritten
    rw [hs.fptr, hs.fsize, BitVec.lt_def] at hlt
    have hold : f.written = false := by
      rw [hs.fil] at hunwritten
      exact hunwritten
    have hclust := h.in_clusters (i := 0) (by omega)
    refine (h.entered hold).transfer hs.slot hs.confined.dir ?_ ?_
    · show (writeDone g).fsize = f.fsize
      refine BitVec.eq_of_toNat_eq ?_
      rw [writeDone_fsize, hs.fsize, hs.fptr]
      omega
    · show g.orgClust = f.orgClust
      rw [hs.org, h.file.org]
      exact hs.grown.headD (List.ne_nil_of_length_pos (Nat.zero_lt_of_lt hclust))

/-- The file after a seek. -/
theorem Sought.served {ofs : U32} (hs : Sought f v l ofs g w l') (h : OpenFile f v l) (hclean : f.dirty = false)
    (hpos : 0 < ofs.toNat) : Served f v l (ioSeekDone g) w l' ∧ w.dir = v.dir ∧ (ioSeekDone g).fptr = ofs ∧
      (ioSeekDone g).fsize.toNat = max f.fsize.toNat ofs.toNat ∧
        ∀ i < f.fsize.toNat, ioByte (ioSeekDone g) w l' i = ioByte f v l i := by
  have hconf := hs.confined
  have hfile := hs.ioFile h.toIoFile hclean hpos
  have hread : g.canRead = true := by
    rw [hs.fil]
    exact h.canRead
  have hwrite := hs.canWrite h
  have hdirty : g.dirty = false := by
    rw [hs.fil]
    exact hclean
  have hentered := hs.entered h hpos
  rw [ioSeekDone_eq hwrite] at hentered ⊢
  refine ⟨hconf.served hs.slot ⟨hfile.aside _ 0 w.vol.fsiFlag w.dir, hread, hwrite, ?_, hentered⟩, hconf.dir,
    hs.fptr, ?_, ?_⟩
  · intro hd
    exact absurd (show g.dirty = true from hd) (by rw [hdirty]; decide)
  · show (writeDone g).fsize.toNat = _
    rw [writeDone_fsize, hs.fptr, hs.fsize]
  · intro i hi
    have hin : i / 512 / v.C < l.length := h.in_clusters hi
    have hdisk : w.disk = v.disk := by rw [hs.vol]
    show shown g w (w.fileSect l' (i / 512)) (i % 512) = shown f v (v.fileSect l (i / 512)) (i % 512)
    rw [shown_clean hdirty, shown_clean hclean, hdisk, hconf.fileSect, fileSect_kept v hs.grown.kept hin]

/-- A content that has grown. -/
theorem ioContent_grow (hle : f.fsize.toNat ≤ g.fsize.toNat)
    (hsame : ∀ i < f.fsize.toNat, ioByte g w l' i = ioByte f v l i) :
    ioContent g w l' = ioContent f v l ++ (ioContent g w l').drop f.fsize.toNat := by
  have htake : (ioContent g w l').take f.fsize.toNat = ioContent f v l := by
    refine List.ext_getElem? fun i => ?_
    rw [List.getElem?_take, ioContent_getElem?, ioContent_getElem?]
    by_cases hi : i < f.fsize.toNat
    · rw [if_pos hi, if_pos (by omega), if_pos hi, hsame i hi]
    · rw [if_neg hi, if_neg hi]
  conv_lhs => rw [← List.take_append_drop f.fsize.toNat (ioContent g w l'), htake]

/-- On a drive that works and has room, `fatbase_lseek` moves the pointer, and lengthens the file up to it. -/
theorem ioLseek_spec (h : OpenFile f v l) (hgood : v.vol.Good) {ofs : U32} (hroom : v.vol.HasRoom (growth f v ofs)) :
    ∃ g w l', ioLseek f v ofs = (0, g, w) ∧ Served f v l g w l' ∧ w.dir = v.dir ∧ g.fptr = ofs ∧
      ∃ tail, ioContent g w l' = ioContent f v l ++ tail ∧ f.fsize.toNat + tail.length = max f.fsize.toNat ofs.toNat := by
  obtain ⟨n, hflush⟩ := flush_works f hgood.works
  have hreading := reading_flush f v n
  have hconf := hreading.confined h.toIoFile hgood
  have hopen := h.flushed n
  unfold ioLseek
  rw [h.valid, h.error, if_neg (by decide), if_neg (by decide), hflush]
  dsimp only
  by_cases hzero : ofs = 0
  · -- The top of the file.
    subst hzero
    have hclip : ¬ (f.fsize < 0 ∧ (!f.canWrite) = true) := fun h =>
      absurd h.1 (BitVec.not_lt.mpr (BitVec.le_def.mpr (Nat.zero_le _)))
    have htop : OpenFile { f with fptr := 0, sectClust := 1, dirty := false } { v.after n with disk := shown f v } l :=
      ⟨hopen.rewound rfl, h.canRead, h.canWrite, hopen.dirty,
        fun hunwritten => (hopen.entered hunwritten).transfer rfl rfl rfl rfl⟩
    refine ⟨{ f with fptr := 0, sectClust := 1, dirty := false }, _, l, ?_, hconf.served rfl htop, rfl, rfl, [], ?_, ?_⟩
    · unfold ioSeekClean
      dsimp only
      rw [if_neg hclip, if_pos rfl]
      unfold ioSeekDone
      rw [if_neg fun h => absurd h.2 (BitVec.not_lt.mpr (BitVec.le_def.mpr (Nat.zero_le _)))]
    · rw [List.append_nil]
      exact ioContent_congr rfl fun i _ => hreading.ioByte l i
    · exact (max_eq_left (Nat.zero_le _)).symm
  · have hpos : 0 < ofs.toNat := Nat.pos_of_ne_zero fun hz => hzero (BitVec.eq_of_toNat_eq hz)
    have hneed := growth_reaches h.toIoFile hgood ofs hpos
    rw [Nat.div_div_eq_div_mul, Nat.mul_comm 512] at hneed
    obtain ⟨g, w, l', hcall, hsought⟩ :=
      ioSeekClean_spec hopen.toIoFile h.canWrite (hgood.after n) (k := growth f v ofs) hroom hpos hneed
    obtain ⟨hserved, hdir, hptr, hsize, hbytes⟩ := hsought.served hopen rfl hpos
    have hgrown : f.fsize.toNat ≤ (ioSeekDone g).fsize.toNat := by
      rw [hsize]
      exact le_max_left ..
    have hcontent := ioContent_grow (f := f) (v := v) (l := l) hgrown fun i hi =>
      (hbytes i hi).trans (hreading.ioByte l i)
    refine ⟨_, w, l', hcall, hserved.before hconf rfl, hdir, hptr, _, hcontent, ?_⟩
    rw [List.length_drop, ioContent_length]
    change (ioSeekDone g).fsize.toNat = max f.fsize.toNat ofs.toNat at hsize
    omega

end Calls

end Fs
end FreakOS
