import FreakOS.Fs.SysWrite

/-!
# The end of a file

`file_seek` with `LSEEK_END` and `file_fstat` take the size of a FAT file from its directory entry.  `file_write` makes
the file longer, but the entry has the new size only after `file_fsync`.

* `SeesEnd` — the two calls go by the size that reads go by.
* `WriteRun` — the runs of `file_write` and `file_fsync` on a descriptor.
* `WriteRun.entry_iff` — when the entry has the size of the file.
* `sees_end_iff` — and so what the two calls see after a run.
-/

namespace FreakOS
namespace Fs

open Memory
open Krnl

/-- The bytes of a file. -/
def fileSize (d : FatDisk) (inode : U32) : Nat := (d.file inode).content.length

/-- The size in its directory entry. -/
def entrySize (d : FatDisk) (inode : U32) : Nat := (d.file inode).dirSize.toNat

/-- The position of a descriptor. -/
def posOf (k : Kernel) (files : U32) (fd : Int) : Option Int :=
  (k.files files).bind fun fs => (findFileWithFd fs fd).map File.pos

/-- The device does not fail the next `n` calls. -/
def Serves (d : FatDisk) (n : Nat) : Prop := ∀ i, i < n → (d.answer (d.calls + i)).fails = none

/-- A seek to `off` from the end of the file, and `file_fstat`, go by its size. -/
structure SeesEnd (x : FsKernel FatDisk) (files : U32) (fd : Int) (inode : U32) (off : Int) : Prop where
  seek : Serves x.disk 2 → (x.disk.file inode).error = false → 0 ≤ off + fileSize x.disk inode →
    ∃ x', fileSeek fatOps x files fd off LSEEK_END = .ok (0, x') ∧
      posOf x'.kernel files fd = some (off + fileSize x.disk inode)
  stat : Serves x.disk 1 → ∃ size x', fileFstat fatOps x files fd = .ok ((0, size), x') ∧
    size.toNat = fileSize x.disk inode

/-- `file_fsync` gets to the directory entry. -/
def reachesEntry (d : FatDisk) : Bool := d.next.fails != some 0

/-- Calls of `file_write` and `file_fsync` on a descriptor.  The flag says that the file has become longer since
`file_fsync` has got to its directory entry. -/
inductive WriteRun (files : U32) (fd : Int) (inode : U32) (x₀ : FsKernel FatDisk) : Bool → FsKernel FatDisk → Prop
  | start : WriteRun files fd inode x₀ false x₀
  | write {longer : Bool} {x x' : FsKernel FatDisk} {buf : List U8} {r : Int × U32}
      (hrun : WriteRun files fd inode x₀ longer x) (hcall : fileWrite fatOps x files fd buf = .ok (r, x')) :
      WriteRun files fd inode x₀ (longer || decide (fileSize x.disk inode < fileSize x'.disk inode)) x'
  | fsync {longer : Bool} {x x' : FsKernel FatDisk} {ret : Int} (hrun : WriteRun files fd inode x₀ longer x)
      (hcall : fileFsync fatOps x files fd = .ok (ret, x')) :
      WriteRun files fd inode x₀ (longer && !reachesEntry x.disk) x'

section EndSeek

variable {x x' : FsKernel FatDisk} {d : FatDisk} {files inode : U32} {fd : Int} {readable writable : Bool}

/-! ### The operations of the inode -/

theorem put_file (d : FatDisk) (inode : U32) (f : FatFile) : (d.put inode f).file inode = f := Function.update_self ..

theorem le_length_overwrite (content bytes : List U8) (n : Nat) : content.length ≤ (overwrite content n bytes).length := by
  simp only [overwrite, List.length_append, List.length_take, List.length_drop]
  omega

theorem length_overwrite_le (content bytes : List U8) (n : Nat) :
    (overwrite content n bytes).length ≤ content.length + bytes.length := by
  simp only [overwrite, List.length_append, List.length_take, List.length_drop]
  omega

/-- A write makes a file longer, if anything, and leaves its entry alone. -/
theorem fatWrite_sizes (inode : U32) (buf : List U8) (d : FatDisk) (hlt : fileSize d inode < 2 ^ 32) :
    entrySize (fatWrite inode buf d).2 inode = entrySize d inode ∧
      fileSize d inode ≤ fileSize (fatWrite inode buf d).2 inode ∧ fileSize (fatWrite inode buf d).2 inode < 2 ^ 32 := by
  unfold fatWrite
  dsimp only
  split
  · exact ⟨rfl, le_rfl, hlt⟩
  split
  · exact ⟨rfl, le_rfl, hlt⟩
  rename_i hsmall
  unfold fileSize entrySize at *
  split
  · rename_i n hfails
    have hle := le_length_overwrite (d.file inode).content (buf.take n) (d.file inode).fptr
    simp only [FatDisk.put, Function.update_self, List.length_take]
    exact ⟨trivial, by omega, by omega⟩
  · have hle := le_length_overwrite (d.file inode).content (buf.take (d.next.limit - (d.file inode).fptr))
      (d.file inode).fptr
    have hge := length_overwrite_le (d.file inode).content (buf.take (d.next.limit - (d.file inode).fptr))
      (d.file inode).fptr
    rw [List.length_take] at hge
    simp only [FatDisk.put, Function.update_self]
    exact ⟨trivial, hle, by omega⟩

/-- `fat_sync` leaves a file alone, and its entry has the size of the file if it is reached. -/
theorem fatSync_sizes (inode : U32) (d : FatDisk) (hlt : fileSize d inode < 2 ^ 32) :
    fileSize (fatSync inode d).2 inode = fileSize d inode ∧ entrySize (fatSync inode d).2 inode =
      if reachesEntry d then fileSize d inode else entrySize d inode := by
  have hentry : (BitVec.ofNat 32 (d.file inode).content.length).toNat = fileSize d inode := by
    rw [BitVec.toNat_ofNat]
    exact Nat.mod_eq_of_lt hlt
  unfold fatSync reachesEntry
  dsimp only
  split
  · rename_i hfails
    simp [hfails, fileSize, entrySize, FatDisk.put]
  · rename_i n hfails
    rw [if_pos (by simp [hfails])]
    simp only [fileSize, entrySize, FatDisk.put, Function.update_self]
    exact ⟨trivial, hentry⟩
  · rename_i hfails
    rw [if_pos (by simp [hfails])]
    simp only [fileSize, entrySize, FatDisk.put, Function.update_self]
    exact ⟨trivial, hentry⟩

theorem addInt32_le (x y : Int) : addInt32 x y ≤ INT32_MAX := by
  unfold addInt32 INT32_MAX
  have hlt : (BitVec.ofInt 32 (x + y)).toInt < 2 ^ 31 := BitVec.toInt_lt
  exact Int.le_of_lt_add_one hlt

/-! ### The calls -/

theorem fileWrite_disk (h : FdOn x.kernel files fd inode readable writable) {buf : List U8} {r : Int × U32}
    (hcall : fileWrite fatOps x files fd buf = .ok (r, x')) :
    x'.disk = x.disk ∨ x'.disk = (fatWrite inode buf x.disk).2 := by
  cases writable with
  | false =>
      obtain ⟨fs, f, hfs, hfind, -, -, hwritable⟩ := h
      unfold fileWrite at hcall
      rw [fileStruct_eq_ok.mpr hfs, Res.ok_bind, hfind] at hcall
      simp only [hwritable, Bool.not_false, if_true] at hcall
      obtain ⟨-, rfl⟩ := Prod.mk.inj (Except.ok.inj hcall)
      exact .inl rfl
  | true =>
      have hop : fatOps.write inode = some (fatWrite inode) := rfl
      obtain ⟨x₁, hdisk, -, hcall'⟩ := fileWrite_of_op hop h buf
      rw [hcall] at hcall'
      obtain ⟨-, rfl⟩ := Prod.mk.inj (Except.ok.inj hcall')
      exact .inr hdisk

theorem fileFsync_disk (h : FdOn x.kernel files fd inode readable writable) {ret : Int}
    (hcall : fileFsync fatOps x files fd = .ok (ret, x')) :
    x'.kernel = x.kernel ∧ x'.disk = (fatSync inode x.disk).2 := by
  obtain ⟨fs, f, hfs, hfind, rfl, -, -⟩ := h
  unfold fileFsync at hcall
  rw [fileStruct_eq_ok.mpr hfs, Res.ok_bind, hfind] at hcall
  obtain ⟨-, rfl⟩ := Prod.mk.inj (Except.ok.inj hcall)
  exact ⟨rfl, rfl⟩

theorem fileFstat_serves (h : FdOn x.kernel files fd inode readable writable) (hserves : Serves x.disk 1) :
    ∃ x', fileFstat fatOps x files fd = .ok ((0, (x.disk.file inode).dirSize), x') := by
  obtain ⟨fs, f, hfs, hfind, rfl, -, -⟩ := h
  have hnext : x.disk.next.fails = none := hserves 0 Nat.one_pos
  have hstat : fatStat f.inode x.disk =
      ((0, (x.disk.file f.inode).dirSize), x.disk.put f.inode (x.disk.file f.inode)) := by
    unfold fatStat
    rw [hnext]
  unfold fileFstat
  rw [fileStruct_eq_ok.mpr hfs, Res.ok_bind, hfind]
  simp only [fatOps, hstat]
  exact ⟨_, rfl⟩

theorem fatLseek_serves (off : U32) (herror : (d.file inode).error = false) (hnext : d.next.fails = none) :
    (fatLseek inode off d).1 = 0 := by
  unfold fatLseek
  dsimp only
  rw [herror, if_neg Bool.false_ne_true, hnext]
  dsimp only
  split
  · rfl
  · rfl

/-- A seek from the end goes by the directory entry. -/
theorem fileSeek_serves (h : FdOn x.kernel files fd inode readable writable) (hserves : Serves x.disk 2)
    (herror : (x.disk.file inode).error = false) (off : Int) :
    ∃ x', fileSeek fatOps x files fd off LSEEK_END = .ok (0, x') ∧
      posOf x'.kernel files fd = some (addInt32 off (entrySize x.disk inode)) := by
  obtain ⟨fs, f, hfs, hfind, rfl, -, -⟩ := h
  have hnext : x.disk.next.fails = none := hserves 0 Nat.two_pos
  set d₁ : FatDisk := x.disk.put f.inode (x.disk.file f.inode) with hd₁
  have hstat : fatStat f.inode x.disk = ((0, (x.disk.file f.inode).dirSize), d₁) := by
    unfold fatStat
    rw [hnext]
  have htarget : seekTarget fatOps x.disk f off LSEEK_END =
      (.ok (addInt32 off (entrySize x.disk f.inode)), d₁) := by
    unfold seekTarget
    rw [if_neg (by decide), if_neg (by decide), if_pos rfl]
    simp only [fatOps, hstat]
    rfl
  have hlseek : (fatLseek f.inode (BitVec.ofInt 32 (addInt32 off (entrySize x.disk f.inode))) d₁).1 = 0 := by
    refine fatLseek_serves _ ?_ (hserves 1 Nat.one_lt_two)
    rw [hd₁, put_file, herror]
  have hop : fatOps.lseek f.inode = some (fatLseek f.inode) := rfl
  set target := addInt32 off (entrySize x.disk f.inode)
  set y := x.setDisk (fatLseek f.inode (BitVec.ofInt 32 target) d₁).2
  set g : File → File := fun f => { f with pos := target } with hg
  have hcall : fileSeek fatOps x files fd off LSEEK_END = y.modifyFile files f.node g >>= fun x' => .ok (0, x') := by
    unfold fileSeek
    rw [fileStruct_eq_ok.mpr hfs, Res.ok_bind, hfind]
    simp only [htarget, hop, hlseek, ne_eq, not_true_eq_false, if_false]
    rfl
  obtain ⟨x', hmodify⟩ := modifyFile_ok (x := y) (by exact hfs) f.node g
  rw [hmodify, Res.ok_bind] at hcall
  refine ⟨x', hcall, ?_⟩
  obtain ⟨hfiles, -⟩ := modifyFile_files (y := y) (by exact hfs) hmodify
  have hfd : ∀ e, (g e).fd = e.fd := fun _ => rfl
  unfold posOf
  rw [hfiles, Function.update_self, Option.bind_some, findFileWithFd_updateEntry hfind _ hfd, if_pos rfl]
  rfl

/-! ### Runs -/

/-- What holds of the file of the descriptor in a run. -/
structure WriteRun.Inv (files : U32) (fd : Int) (inode : U32) (readable writable longer : Bool) (x : FsKernel FatDisk) :
    Prop where
  fd : FdOn x.kernel files fd inode readable writable
  small : fileSize x.disk inode < 2 ^ 32
  le : entrySize x.disk inode ≤ fileSize x.disk inode
  entry : entrySize x.disk inode = fileSize x.disk inode ↔ longer = false

theorem WriteRun.inv {x₀ : FsKernel FatDisk} {longer : Bool} (hfd : FdOn x₀.kernel files fd inode readable writable)
    (hentry : entrySize x₀.disk inode = fileSize x₀.disk inode) (hrun : WriteRun files fd inode x₀ longer x) :
    Inv files fd inode readable writable longer x := by
  induction hrun with
  | start => exact ⟨hfd, by rw [← hentry]; exact (x₀.disk.file inode).dirSize.isLt, hentry.le, by simp [hentry]⟩
  | @write longer x x' buf r hrun hcall ih =>
      have hfd' := ih.fd.touched (fileWrite_touched hcall)
      cases fileWrite_disk ih.fd hcall with
      | inl hdisk =>
          rw [hdisk]
          exact ⟨hfd', by rw [hdisk]; exact ih.small, by rw [hdisk]; exact ih.le, by rw [hdisk]; simp [ih.entry]⟩
      | inr hdisk =>
          obtain ⟨hsame, hle, hlt⟩ := fatWrite_sizes inode buf x.disk ih.small
          rw [← hdisk] at hsame hle hlt
          refine ⟨hfd', hlt, hsame.le.trans (ih.le.trans hle), ?_⟩
          rw [hsame, Bool.or_eq_false_iff, ← ih.entry, decide_eq_false_iff_not]
          have hentry_le := ih.le
          omega
  | @fsync longer x x' ret hrun hcall ih =>
      obtain ⟨hkernel, hdisk⟩ := fileFsync_disk ih.fd hcall
      obtain ⟨hsize, hsynced⟩ := fatSync_sizes inode x.disk ih.small
      rw [← hdisk] at hsize hsynced
      refine ⟨hkernel ▸ ih.fd, hsize ▸ ih.small, ?_, ?_⟩
      · rw [hsynced, hsize]
        split
        · exact le_rfl
        · exact ih.le
      · rw [hsynced, hsize]
        cases hreach : reachesEntry x.disk with
        | true => simp
        | false => simpa using ih.entry

end EndSeek

/-- After calls of `file_write` and `file_fsync` on a descriptor of a FAT file whose entry had the size of the file at
first, `LSEEK_END` and `file_fstat` go by the size of the file if and only if the file has not become longer since
`file_fsync` has got to the entry, and the position is one that a descriptor can have. -/
theorem sees_end_iff {x₀ x : FsKernel FatDisk} {files inode : U32} {fd : Int} {readable writable longer : Bool}
    (hfd : FdOn x₀.kernel files fd inode readable writable)
    (hentry : entrySize x₀.disk inode = fileSize x₀.disk inode) (hrun : WriteRun files fd inode x₀ longer x)
    (off : Int) : SeesEnd x files fd inode off ↔
      (Serves x.disk 1 → longer = false) ∧ (Serves x.disk 2 → (x.disk.file inode).error = false →
        0 ≤ off + fileSize x.disk inode → off + fileSize x.disk inode ≤ INT32_MAX) := by
  have hinv := hrun.inv hfd hentry
  have hone : Serves x.disk 2 → Serves x.disk 1 := fun h i hi => h i (Nat.lt_succ_of_lt hi)
  constructor
  · intro hsees
    have hlonger : Serves x.disk 1 → longer = false := by
      intro hserves
      obtain ⟨size, x', hcall, hsize⟩ := hsees.stat hserves
      obtain ⟨x₁, hstat⟩ := fileFstat_serves hinv.fd hserves
      rw [hcall] at hstat
      obtain ⟨hret, -⟩ := Prod.mk.inj (Except.ok.inj hstat)
      obtain ⟨-, rfl⟩ := Prod.mk.inj hret
      exact hinv.entry.mp hsize
    refine ⟨hlonger, ?_⟩
    intro hserves herror hpos
    obtain ⟨x', hcall, hplace⟩ := hsees.seek hserves herror hpos
    obtain ⟨x₁, hseek, hplace₁⟩ := fileSeek_serves hinv.fd hserves herror off
    rw [hcall] at hseek
    obtain ⟨-, rfl⟩ := Prod.mk.inj (Except.ok.inj hseek)
    rw [hplace] at hplace₁
    rw [Option.some.inj hplace₁]
    exact addInt32_le _ _
  · intro hcond
    constructor
    · intro hserves herror hpos
      obtain ⟨x', hcall, hplace⟩ := fileSeek_serves hinv.fd hserves herror off
      have hsame := hinv.entry.mpr (hcond.1 (hone hserves))
      refine ⟨x', hcall, ?_⟩
      rw [hplace, hsame, addInt32_of_range hpos (hcond.2 hserves herror hpos)]
    · intro hserves
      obtain ⟨x', hcall⟩ := fileFstat_serves hinv.fd hserves
      exact ⟨_, x', hcall, hinv.entry.mpr (hcond.1 hserves)⟩

/-- A file of four bytes, with a descriptor at its start. -/
def fourByteFile : FsKernel FatDisk := ⟨oneKernel true true, fourByteDisk none⟩

/-- Six bytes are written to it. -/
def sixBytesWritten : FsKernel FatDisk :=
  ((fileWrite fatOps fourByteFile 0xC0002000 0 [5, 6, 7, 8, 9, 10]).toOption.getD ((0, 0), fourByteFile)).2

/-- And then synchronised. -/
def sixBytesSynced : FsKernel FatDisk :=
  ((fileFsync fatOps sixBytesWritten 0xC0002000 0).toOption.getD (0, sixBytesWritten)).2

theorem sixBytesWritten_run : WriteRun 0xC0002000 0 0xC0030000 fourByteFile true sixBytesWritten := by
  have hcall : fileWrite fatOps fourByteFile 0xC0002000 0 [5, 6, 7, 8, 9, 10] = .ok ((0, 6), sixBytesWritten) := rfl
  exact .write .start hcall

theorem sixBytesSynced_run : WriteRun 0xC0002000 0 0xC0030000 fourByteFile false sixBytesSynced := by
  have hcall : fileFsync fatOps sixBytesWritten 0xC0002000 0 = .ok (0, sixBytesSynced) := rfl
  exact .fsync sixBytesWritten_run hcall

/-- After `file_fsync` the end of the file is seen. -/
theorem sees_end_iff_synced : SeesEnd sixBytesSynced 0xC0002000 0 0xC0030000 0 := by
  have hiff := sees_end_iff (oneKernel_fdOn true true) rfl sixBytesSynced_run 0
  exact hiff.mpr ⟨fun _ => rfl, fun _ _ _ => by decide⟩

/-- Before it the size is said to be 4, the descriptor is put at 4, and there the two last of six bytes are read. -/
theorem end_before_sync : ¬ SeesEnd sixBytesWritten 0xC0002000 0 0xC0030000 0 ∧ ∃ x' x'' d,
    fileSeek fatOps sixBytesWritten 0xC0002000 0 0 LSEEK_END = .ok (0, x') ∧ posOf x'.kernel 0xC0002000 0 = some 4 ∧
      fileFstat fatOps sixBytesWritten 0xC0002000 0 = .ok ((0, 4), x'') ∧
      fatRead 0xC0030000 2 x'.disk = ((0, [9, 10]), d) := by
  refine ⟨?_, _, _, _, rfl, rfl, rfl, rfl⟩
  intro hsees
  obtain ⟨size, x', hcall, hsize⟩ := hsees.stat fun _ _ => rfl
  have hfour : fileFstat fatOps sixBytesWritten 0xC0002000 0 = .ok ((0, 4), _) := rfl
  rw [hfour] at hcall
  obtain ⟨hret, -⟩ := Prod.mk.inj (Except.ok.inj hcall)
  obtain ⟨-, rfl⟩ := Prod.mk.inj hret
  exact absurd hsize (by decide)

end Fs
end FreakOS
