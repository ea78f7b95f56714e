import FreakOS.Fs.FileRights

/-!
# Positions of descriptors

A descriptor has a position, `File_t.pos`.  The driver does not use it: it reads and writes at `fptr` of the one
`FATBase_FILE` that an inode has, for all descriptors of the inode.

* `FatFile`, `FatDisk` — files of a FAT volume as `fatbase_read`, `fatbase_write`, `fatbase_lseek`, `fatbase_stat`
  and `fatbase_sync` leave them for their callers: a content, a place `fptr` in it, and an error flag.
* `fatOps` — the operations of the inode of a file.
* `Alone` — the calls that keep one descriptor to an inode, and its position at `fptr`.
* `file_positions` — what is read in every run of such calls.
-/

namespace FreakOS
namespace Fs

open Lib
open Memory
open Krnl

/-! ### FAT files -/

/-- `FR_RW_ERROR`. -/
def FR_RW_ERROR : Int := 8
/-- `INODE_INTERNAL_ERR`. -/
def INODE_INTERNAL_ERR : Int := 8

/-- A file, with its `FATBase_FILE`. -/
structure FatFile where
  content : List U8
  fptr : Nat
  /-- `FA__ERROR`. -/
  error : Bool
  /-- The size in the directory entry, which `fatbase_sync` writes. -/
  dirSize : U32
deriving DecidableEq, Repr

/-- What the device and the volume answer to a call. -/
structure Answer where
  /-- The device fails, after so many bytes. -/
  fails : Option Nat
  /-- The size up to which the file can grow. -/
  limit : Nat
  /-- What lies in the clusters that the file grows into. -/
  junk : Nat → U8

/-- The files of a volume, by inode. -/
structure FatDisk where
  file : U32 → FatFile
  answer : Nat → Answer
  calls : Nat

namespace FatDisk

/-- The answer to the next call. -/
def next (d : FatDisk) : Answer := d.answer d.calls

/-- A call has been answered, and has left the file like this. -/
def put (d : FatDisk) (inode : U32) (f : FatFile) : FatDisk :=
  { d with file := Function.update d.file inode f, calls := d.calls + 1 }

end FatDisk

/-- Write bytes over a content, and beyond its end. -/
def overwrite (content : List U8) (at_ : Nat) (bytes : List U8) : List U8 :=
  content.take at_ ++ bytes ++ content.drop (at_ + bytes.length)

/-- `fat_read(inode, buf, len, &copied)`. -/
def fatRead (inode : U32) (len : U32) (d : FatDisk) : (Int × List U8) × FatDisk :=
  let f := d.file inode
  if f.error then ((FR_RW_ERROR, []), d)
  else
    match d.next.fails with
    | some n => ((FR_RW_ERROR, []), d.put inode { f with fptr := f.fptr + n, error := true })
    | none =>
        let bytes := (f.content.drop f.fptr).take len.toNat
        ((0, bytes), d.put inode { f with fptr := f.fptr + bytes.length })

/-- `fat_write(inode, buf, len, &copied)`.  A file of 4 GiB or more is refused with `FR_OK`, and a full volume cuts the
write short. -/
def fatWrite (inode : U32) (buf : List U8) (d : FatDisk) : (Int × U32) × FatDisk :=
  let f := d.file inode
  if f.error then ((FR_RW_ERROR, 0), d)
  else if 2 ^ 32 ≤ f.content.length + buf.length then ((0, 0), d)
  else
    match d.next.fails with
    | some n => ((FR_RW_ERROR, 0), d.put inode { f with
        content := (overwrite f.content f.fptr (buf.take n)).take f.content.length
        fptr := f.fptr + n
        error := true })
    | none =>
        let bytes := buf.take (d.next.limit - f.fptr)
        ((0, BitVec.ofNat 32 bytes.length), d.put inode { f with
          content := overwrite f.content f.fptr bytes
          fptr := f.fptr + bytes.length })

/-- `fat_lseek(inode, off)`.  The file object is open for writing, so a seek beyond the end stretches the file. -/
def fatLseek (inode : U32) (off : U32) (d : FatDisk) : Int × FatDisk :=
  let f := d.file inode
  if f.error then (FR_RW_ERROR, d)
  else
    match d.next.fails with
    | some n => (FR_RW_ERROR, d.put inode { f with fptr := n, error := true })
    | none =>
        if off.toNat ≤ f.content.length then (0, d.put inode { f with fptr := off.toNat })
        else
          let size := max f.content.length (min off.toNat d.next.limit)
          (0, d.put inode { f with
            content := f.content ++ (List.range (size - f.content.length)).map d.next.junk
            fptr := size })

/-- `fat_stat(inode, &stat)`: the size comes from the directory entry. -/
def fatStat (inode : U32) (d : FatDisk) : (Int × U32) × FatDisk :=
  match d.next.fails with
  | some _ => ((-INODE_INTERNAL_ERR, 0), d.put inode (d.file inode))
  | none => ((0, (d.file inode).dirSize), d.put inode (d.file inode))

/-- `fat_sync(inode)`.  A device that fails after some bytes has taken the directory entry. -/
def fatSync (inode : U32) (d : FatDisk) : Int × FatDisk :=
  let f := d.file inode
  let synced := { f with dirSize := BitVec.ofNat 32 f.content.length }
  match d.next.fails with
  | some 0 => (FR_RW_ERROR, d.put inode f)
  | some (_ + 1) => (FR_RW_ERROR, d.put inode synced)
  | none => (0, d.put inode synced)

/-- `fat_file_op`. -/
def fatOps : INodeOps FatDisk where
  read := fun inode => some (fatRead inode)
  write := fun inode => some (fatWrite inode)
  lseek := fun inode => some (fatLseek inode)
  stat := fun inode => some (fatStat inode)
  sync := fun inode => some (fatSync inode)

/-! ### One descriptor to an inode -/

/-- An entry of some table. -/
def Holds (k : Kernel) (a : U32) (f : File) : Prop := ∃ fs, k.files a = some fs ∧ f ∈ fs.fileList

/-- `vfs_open` leaves the files that are open alone. -/
def OpensFat (vfsOpen : FsKernel FatDisk → Res ((Int × U32) × FsKernel FatDisk)) : Prop :=
  ∀ y r y', vfsOpen y = .ok (r, y') → Aside y y' ∧
    ∀ a f, Holds y.kernel a f → y'.disk.file f.inode = y.disk.file f.inode

/-- The calls that keep one descriptor to an inode, and its position at `fptr`: an open is of a file that no descriptor
has and that is at its start, a table that is inherited is empty, a read stays within the file, a write has room, and
a seek goes to a place of the file. -/
def FileOp.Alone (x : FsKernel FatDisk) : FileOp FatDisk → Prop
  | .fileOpen _ _ vfsOpen => OpensFat vfsOpen ∧ ∀ k inode y, k.files = x.kernel.files →
      vfsOpen (x.setKernel k) = .ok ((0, inode), y) →
        (∀ a f, Holds x.kernel a f → f.inode ≠ inode) ∧ (y.disk.file inode).fptr = 0
  | .filesDup _ fromFiles => ∀ fs, x.kernel.files fromFiles = some fs → fs.fileList = []
  | .fileRead files fd blen => ∀ fs f, x.kernel.files files = some fs → findFileWithFd fs fd = some f →
      f.pos + blen.toNat ≤ (x.disk.file f.inode).content.length ∧ f.pos + blen.toNat ≤ INT32_MAX
  | .fileWrite files fd buf => ∀ fs f, x.kernel.files files = some fs → findFileWithFd fs fd = some f →
      f.pos + buf.length ≤ x.disk.next.limit ∧ f.pos + buf.length ≤ INT32_MAX ∧
        (x.disk.file f.inode).content.length + buf.length < 2 ^ 32
  | .fileSeek files fd pos flag => ∀ fs f, x.kernel.files files = some fs → findFileWithFd fs fd = some f →
      let size : Int := (x.disk.file f.inode).content.length
      (flag = LSEEK_SET → 0 ≤ pos ∧ pos ≤ size ∧ pos ≤ INT32_MAX) ∧
      (flag = LSEEK_CUR → 0 ≤ pos + f.pos ∧ pos + f.pos ≤ size ∧ pos + f.pos ≤ INT32_MAX) ∧
      (flag = LSEEK_END → 0 ≤ pos + (x.disk.file f.inode).dirSize.toNat ∧
        pos + (x.disk.file f.inode).dirSize.toNat ≤ size ∧ pos + (x.disk.file f.inode).dirSize.toNat ≤ INT32_MAX)
  | _ => True

/-- The invariant of the positions. -/
structure PosInv (lo hi : Nat) (m₀ : Pmm) (x : FsKernel FatDisk) : Prop where
  tables : ∃ used, TablesInv lo hi m₀ x.kernel used
  alone : ∀ a f b g, Holds x.kernel a f → Holds x.kernel b g → f.inode = g.inode → a = b ∧ f = g
  status : ∀ a f, Holds x.kernel a f → f.status = .opened
  pos : ∀ a f, Holds x.kernel a f → (x.disk.file f.inode).error = true ∨ f.pos = (x.disk.file f.inode).fptr

/-- An entry is still there, and its file is where it was. -/
def Stays (x x' : FsKernel FatDisk) (a : U32) (f : File) : Prop :=
  Holds x'.kernel a f ∧ (x'.disk.file f.inode).fptr = (x.disk.file f.inode).fptr

/-- What a call on a descriptor may do to its entry and its file. -/
inductive FdEffect (x : FsKernel FatDisk) (files : U32) (fd : Int) (x' : FsKernel FatDisk) : Prop
  | none (hkernel : x'.kernel = x.kernel) (hfile : x'.disk.file = x.disk.file)
  | failed {fs : FileStruct} {f : File} {file : FatFile} (hfs : x.kernel.files files = some fs)
      (hfind : findFileWithFd fs fd = some f) (hkernel : x'.kernel = x.kernel)
      (hfile : x'.disk.file = Function.update x.disk.file f.inode file) (herror : file.error = true)
  | moved {fs : FileStruct} {f : File} {file : FatFile} {g : File → File} (hfs : x.kernel.files files = some fs)
      (hfind : findFileWithFd fs fd = some f)
      (hfiles : x'.kernel.files = Function.update x.kernel.files files (some { fs with
        fileList := updateEntry fs.fileList f.node g }))
      (hfile : x'.disk.file = Function.update x.disk.file f.inode file) (hg : Spares g)
      (hstatus : (g f).status = f.status) (hpos : (g f).pos = file.fptr)

section Positions

variable {lo hi : Nat} {m₀ : Pmm} {x x' : FsKernel FatDisk}

theorem holds_of_find {k : Kernel} {files : U32} {fs : FileStruct} {fd : Int} {f : File}
    (hfs : k.files files = some fs) (hfind : findFileWithFd fs fd = some f) : Holds k files f :=
  ⟨fs, hfs, (mem_of_findFileWithFd hfind).1⟩

/-- The entries of the tables after one of them has been written to. -/
theorem holds_updateEntry {k k' : Kernel} {used : List Extent} (h : TablesInv lo hi m₀ k used) {files : U32}
    {fs : FileStruct} {f : File} {g : File → File} (hfs : k.files files = some fs) (hf : f ∈ fs.fileList)
    (hfiles : k'.files = Function.update k.files files (some { fs with
      fileList := updateEntry fs.fileList f.node g })) (a : U32) (e : File) :
    Holds k' a e ↔ (a = files ∧ e = g f) ∨ (Holds k a e ∧ ¬ (a = files ∧ e = f)) := by
  unfold Holds
  rw [hfiles]
  by_cases ha : a = files
  · subst ha
    simp only [Function.update_self, true_and]
    constructor
    · rintro ⟨fs', hfs', he⟩
      obtain rfl := Option.some.inj hfs'
      obtain ⟨e₀, he₀, rfl⟩ := List.mem_map.mp he
      by_cases hnode : e₀.node = f.node
      · obtain rfl := (h.own a a fs fs hfs hfs e₀ he₀ f hf hnode).2
        exact Or.inl (if_pos rfl)
      · rw [if_neg hnode]
        refine Or.inr ⟨⟨fs, hfs, he₀⟩, ?_⟩
        rintro rfl
        exact hnode rfl
    · rintro (rfl | ⟨⟨fs', hfs', he⟩, hne⟩)
      · exact ⟨_, rfl, List.mem_map.mpr ⟨f, hf, if_pos rfl⟩⟩
      · obtain rfl : fs = fs' := Option.some.inj (hfs.symm.trans hfs')
        refine ⟨_, rfl, List.mem_map.mpr ⟨e, he, if_neg ?_⟩⟩
        intro hnode
        exact hne (h.own a a fs fs hfs hfs e he f hf hnode).2
  · simp [ha]

/-- A call on a descriptor keeps the invariant, and leaves the other descriptors where they are. -/
theorem FdEffect.posInv {files : U32} {fd : Int} (heffect : FdEffect x files fd x') (h : PosInv lo hi m₀ x)
    (htables : ∃ used, TablesInv lo hi m₀ x'.kernel used) :
    PosInv lo hi m₀ x' ∧ ∀ a f, Holds x.kernel a f → ¬ (a = files ∧ f.fd = fd) → Stays x x' a f := by
  obtain ⟨used, hinv⟩ := h.tables
  cases heffect with
  | none hkernel hfile =>
      refine ⟨⟨htables, ?_, ?_, ?_⟩, ?_⟩
      · rw [hkernel]
        exact h.alone
      · rw [hkernel]
        exact h.status
      · rw [hkernel, hfile]
        exact h.pos
      · intro a f hf _
        unfold Stays
        rw [hkernel, hfile]
        exact ⟨hf, rfl⟩
  | @failed fs f file hfs hfind hkernel hfile herror =>
      have hf := holds_of_find hfs hfind
      refine ⟨⟨htables, ?_, ?_, ?_⟩, ?_⟩
      · rw [hkernel]
        exact h.alone
      · rw [hkernel]
        exact h.status
      · intro a e he
        rw [hkernel] at he
        rw [hfile]
        by_cases heq : e.inode = f.inode
        · rw [heq, Function.update_self]
          exact Or.inl herror
        · rw [Function.update_of_ne heq]
          exact h.pos a e he
      · intro a e he hne
        refine ⟨hkernel ▸ he, ?_⟩
        rw [hfile, Function.update_of_ne]
        intro heq
        obtain ⟨rfl, rfl⟩ := h.alone a e files f he hf heq
        exact hne ⟨rfl, (mem_of_findFileWithFd hfind).2⟩
  | @moved fs f file g hfs hfind hfiles hfile hg hstatus hpos =>
      obtain ⟨hmem, hfd⟩ := mem_of_findFileWithFd hfind
      have hf := holds_of_find hfs hfind
      have hholds := holds_updateEntry hinv hfs hmem hfiles
      -- An entry of the new tables has the inode of one of the old tables.
      have hold : ∀ a e, Holds x'.kernel a e →
          ∃ e₀, Holds x.kernel a e₀ ∧ e₀.inode = e.inode ∧ ((a = files ∧ e₀ = f ∧ e = g f) ∨
            (e = e₀ ∧ ¬ (a = files ∧ e₀ = f))) := by
        intro a e he
        rcases (hholds a e).mp he with ⟨rfl, rfl⟩ | ⟨he, hne⟩
        · exact ⟨f, hf, (hg.inode f).symm, Or.inl ⟨rfl, rfl, rfl⟩⟩
        · exact ⟨e, he, rfl, Or.inr ⟨rfl, hne⟩⟩
      refine ⟨⟨htables, ?_, ?_, ?_⟩, ?_⟩
      · intro a e b e' he he' heq
        obtain ⟨e₀, he₀, hinode, hcase⟩ := hold a e he
        obtain ⟨e₁, he₁, hinode', hcase'⟩ := hold b e' he'
        obtain ⟨rfl, rfl⟩ := h.alone a e₀ b e₁ he₀ he₁ (hinode.trans (heq.trans hinode'.symm))
        refine ⟨rfl, ?_⟩
        rcases hcase with ⟨ha, hef, rfl⟩ | ⟨rfl, hne⟩
        · rcases hcase' with ⟨-, -, rfl⟩ | ⟨-, hne'⟩
          · rfl
          · exact absurd ⟨ha, hef⟩ hne'
        · rcases hcase' with ⟨ha, hef, -⟩ | ⟨rfl, -⟩
          · exact absurd ⟨ha, hef⟩ hne
          · rfl
      · intro a e he
        obtain ⟨e₀, he₀, -, ⟨-, rfl, rfl⟩ | ⟨rfl, -⟩⟩ := hold a e he
        · rw [hstatus]
          exact h.status a e₀ he₀
        · exact h.status a e he₀
      · intro a e he
        obtain ⟨e₀, he₀, hinode, ⟨-, rfl, rfl⟩ | ⟨rfl, hne⟩⟩ := hold a e he
        · rw [hg.inode, hfile, Function.update_self]
          exact Or.inr hpos
        · rw [hfile, Function.update_of_ne]
          · exact h.pos a e he₀
          · intro heq
            exact hne (h.alone a e files f he₀ hf heq)
      · intro a e he hne
        have hne' : ¬ (a = files ∧ e = f) := by
          rintro ⟨rfl, rfl⟩
          exact hne ⟨rfl, hfd⟩
        refine ⟨(hholds a e).mpr (Or.inr ⟨he, hne'⟩), ?_⟩
        rw [hfile, Function.update_of_ne]
        intro heq
        exact hne' (h.alone a e files f he hf heq)

theorem addInt32_of_range {p q : Int} (h0 : 0 ≤ p + q) (h1 : p + q ≤ INT32_MAX) : addInt32 p q = p + q := by
  unfold addInt32
  rw [BitVec.toInt_ofInt]
  unfold INT32_MAX at h1
  exact Int.bmod_eq_of_le (by omega) (by omega)

/-- How `modifyFile` writes to the entry of a descriptor. -/
theorem modifyFile_files {y y' : FsKernel FatDisk} {files node : U32} {fs : FileStruct} {g : File → File}
    (hfs : y.kernel.files files = some fs) (hcall : y.modifyFile files node g = .ok y') :
    y'.kernel.files = Function.update y.kernel.files files (some { fs with fileList := updateEntry fs.fileList node g }) ∧
      y'.disk = y.disk := by
  unfold FsKernel.modifyFile at hcall
  rw [fileStruct_eq_ok.mpr hfs, Res.ok_bind] at hcall
  obtain rfl := Except.ok.inj hcall
  exact ⟨rfl, rfl⟩

/-- `file_read` on a file of a volume. -/
theorem fileRead_effect (h : PosInv lo hi m₀ x) {files : U32} {fd : Int} {blen : U32} {r : Int × List U8}
    (halone : FileOp.Alone x (.fileRead files fd blen)) (hcall : fileRead fatOps x files fd blen = .ok (r, x')) :
    FdEffect x files fd x' := by
  unfold fileRead at hcall
  obtain ⟨fs, hfs, hcall⟩ := Res.bind_eq_ok.mp hcall
  rw [fileStruct_eq_ok] at hfs
  split at hcall
  · obtain ⟨-, rfl⟩ := Prod.mk.inj (Except.ok.inj hcall)
    exact .none rfl rfl
  · rename_i f hfind
    obtain ⟨hsize, hmax⟩ := halone fs f hfs hfind
    have hf := holds_of_find hfs hfind
    split at hcall
    · obtain ⟨-, rfl⟩ := Prod.mk.inj (Except.ok.inj hcall)
      exact .none rfl rfl
    · simp only [fatOps, fatRead] at hcall
      by_cases herror : (x.disk.file f.inode).error = true
      · simp only [herror, if_true, FR_RW_ERROR] at hcall
        obtain ⟨-, rfl⟩ := Prod.mk.inj (Except.ok.inj hcall)
        exact .none rfl rfl
      · have hpos := (h.pos files f hf).resolve_left herror
        simp only [herror, if_false, Bool.false_eq_true] at hcall
        cases hfails : x.disk.next.fails with
        | some n =>
            simp only [hfails, FR_RW_ERROR] at hcall
            obtain ⟨-, rfl⟩ := Prod.mk.inj (Except.ok.inj hcall)
            exact .failed hfs hfind rfl rfl rfl
        | none =>
            simp only [hfails, ne_eq, not_true_eq_false, if_false] at hcall
            obtain ⟨x₁, hmodify, hcall⟩ := Res.bind_eq_ok.mp hcall
            obtain ⟨-, rfl⟩ := Prod.mk.inj (Except.ok.inj hcall)
            obtain ⟨hfiles, hdisk⟩ := modifyFile_files (by exact hfs) hmodify
            refine .moved hfs hfind hfiles (congrArg FatDisk.file hdisk) (spares_advancePos blen) ?_ ?_
            · unfold advancePos
              split <;> rfl
            · -- The read stays within the file, so all of it is copied.
              have hlen : (((x.disk.file f.inode).content.drop (x.disk.file f.inode).fptr).take blen.toNat).length =
                  blen.toNat := by
                rw [List.length_take, List.length_drop]
                omega
              rw [advancePos, if_pos (h.status files f hf)]
              show addInt32 f.pos blen.toNat = _
              rw [addInt32_of_range (by omega) hmax, hlen, hpos]
              rfl

/-- `file_write` on a file of a volume. -/
theorem fileWrite_effect (h : PosInv lo hi m₀ x) {files : U32} {fd : Int} {buf : List U8} {r : Int × U32}
    (halone : FileOp.Alone x (.fileWrite files fd buf)) (hcall : fileWrite fatOps x files fd buf = .ok (r, x')) :
    FdEffect x files fd x' := by
  unfold fileWrite at hcall
  obtain ⟨fs, hfs, hcall⟩ := Res.bind_eq_ok.mp hcall
  rw [fileStruct_eq_ok] at hfs
  split at hcall
  · obtain ⟨-, rfl⟩ := Prod.mk.inj (Except.ok.inj hcall)
    exact .none rfl rfl
  · rename_i f hfind
    obtain ⟨hlimit, hmax, hsize⟩ := halone fs f hfs hfind
    have hf := holds_of_find hfs hfind
    split at hcall
    · obtain ⟨-, rfl⟩ := Prod.mk.inj (Except.ok.inj hcall)
      exact .none rfl rfl
    · simp only [fatOps, fatWrite] at hcall
      by_cases herror : (x.disk.file f.inode).error = true
      · simp only [herror, if_true, FR_RW_ERROR] at hcall
        obtain ⟨-, rfl⟩ := Prod.mk.inj (Except.ok.inj hcall)
        exact .none rfl rfl
      · have hpos := (h.pos files f hf).resolve_left herror
        have hsmall : ¬ 2 ^ 32 ≤ (x.disk.file f.inode).content.length + buf.length := by omega
        simp only [herror, if_false, Bool.false_eq_true, hsmall] at hcall
        cases hfails : x.disk.next.fails with
        | some n =>
            simp only [hfails, FR_RW_ERROR] at hcall
            obtain ⟨-, rfl⟩ := Prod.mk.inj (Except.ok.inj hcall)
            exact .failed hfs hfind rfl rfl rfl
        | none =>
            simp only [hfails, ne_eq, not_true_eq_false, if_false] at hcall
            obtain ⟨x₁, hmodify, hcall⟩ := Res.bind_eq_ok.mp hcall
            obtain ⟨-, rfl⟩ := Prod.mk.inj (Except.ok.inj hcall)
            obtain ⟨hfiles, hdisk⟩ := modifyFile_files (by exact hfs) hmodify
            refine .moved hfs hfind hfiles (congrArg FatDisk.file hdisk) (spares_advancePos _) ?_ ?_
            · unfold advancePos
              split <;> rfl
            · -- The volume has room, so all of it is written.
              have hlen : (buf.take (x.disk.next.limit - (x.disk.file f.inode).fptr)).length = buf.length := by
                rw [List.length_take]
                omega
              have hword : (BitVec.ofNat 32 buf.length).toNat = buf.length := by
                rw [BitVec.toNat_ofNat]
                omega
              rw [advancePos, if_pos (h.status files f hf)]
              show addInt32 f.pos (BitVec.ofNat 32 buf.length).toNat = _
              rw [hword, addInt32_of_range (by omega) hmax, hlen, hpos]
              rfl

/-- The place that `file_seek` goes to. -/
theorem seekTarget_eq {files : U32} {fd pos : Int} {flag : U32} {fs : FileStruct} {f : File}
    (hfs : x.kernel.files files = some fs) (hfind : findFileWithFd fs fd = some f)
    (halone : FileOp.Alone x (.fileSeek files fd pos flag)) {target : Int} {d : FatDisk}
    (htarget : seekTarget fatOps x.disk f pos flag = (.ok target, d)) :
    d.file = x.disk.file ∧ 0 ≤ target ∧ target ≤ (x.disk.file f.inode).content.length ∧ target ≤ INT32_MAX := by
  obtain ⟨hset, hcur, hend⟩ := halone fs f hfs hfind
  unfold seekTarget at htarget
  split at htarget
  · rename_i hflag
    obtain ⟨hok, rfl⟩ := Prod.mk.inj htarget
    obtain rfl := Except.ok.inj hok
    exact ⟨rfl, hset hflag⟩
  · split at htarget
    · rename_i hflag
      obtain ⟨hok, rfl⟩ := Prod.mk.inj htarget
      obtain rfl := Except.ok.inj hok
      obtain ⟨h0, h1, h2⟩ := hcur hflag
      rw [addInt32_of_range h0 h2]
      exact ⟨rfl, h0, h1, h2⟩
    · split at htarget
      · rename_i hflag
        obtain ⟨h0, h1, h2⟩ := hend hflag
        simp only [fatOps, fatStat] at htarget
        cases hfails : x.disk.next.fails with
        | some n =>
            simp [hfails, INODE_INTERNAL_ERR] at htarget
        | none =>
            simp only [hfails, ne_eq, not_true_eq_false, if_false] at htarget
            obtain ⟨hok, rfl⟩ := Prod.mk.inj htarget
            obtain rfl := Except.ok.inj hok
            rw [addInt32_of_range h0 h2]
            exact ⟨Function.update_eq_self _ _, h0, h1, h2⟩
      · cases (Prod.mk.inj htarget).1

theorem seekTarget_file {f : File} {pos : Int} {flag : U32} {r : Except Int Int} {d : FatDisk}
    (htarget : seekTarget fatOps x.disk f pos flag = (r, d)) : d.file = x.disk.file := by
  unfold seekTarget at htarget
  split at htarget
  · obtain ⟨-, rfl⟩ := Prod.mk.inj htarget
    rfl
  · split at htarget
    · obtain ⟨-, rfl⟩ := Prod.mk.inj htarget
      rfl
    · split at htarget
      · simp only [fatOps, fatStat] at htarget
        cases hfails : x.disk.next.fails with
        | some n =>
            simp only [hfails, INODE_INTERNAL_ERR] at htarget
            obtain ⟨-, rfl⟩ := Prod.mk.inj htarget
            exact Function.update_eq_self _ _
        | none =>
            simp only [hfails, ne_eq, not_true_eq_false, if_false] at htarget
            obtain ⟨-, rfl⟩ := Prod.mk.inj htarget
            exact Function.update_eq_self _ _
      · obtain ⟨-, rfl⟩ := Prod.mk.inj htarget
        rfl

/-- `file_seek` on a file of a volume. -/
theorem fileSeek_effect {files : U32} {fd pos : Int} {flag : U32} {ret : Int}
    (halone : FileOp.Alone x (.fileSeek files fd pos flag))
    (hcall : fileSeek fatOps x files fd pos flag = .ok (ret, x')) : FdEffect x files fd x' := by
  unfold fileSeek at hcall
  obtain ⟨fs, hfs, hcall⟩ := Res.bind_eq_ok.mp hcall
  rw [fileStruct_eq_ok] at hfs
  split at hcall
  · obtain ⟨-, rfl⟩ := Prod.mk.inj (Except.ok.inj hcall)
    exact .none rfl rfl
  · rename_i f hfind
    split at hcall
    · rename_i htarget
      obtain ⟨-, rfl⟩ := Prod.mk.inj (Except.ok.inj hcall)
      exact .none rfl (seekTarget_file htarget)
    · rename_i target d htarget
      obtain ⟨hfile, h0, hsize, hmax⟩ := seekTarget_eq hfs hfind halone htarget
      have hoff : (BitVec.ofInt 32 target).toNat = target.toNat := by
        unfold INT32_MAX at hmax
        rw [BitVec.toNat_ofInt]
        omega
      have hput : ∀ file, (d.put f.inode file).file = Function.update x.disk.file f.inode file := by
        intro file
        rw [← hfile]
        rfl
      simp only [fatOps, fatLseek, hfile, hoff] at hcall
      by_cases herror : (x.disk.file f.inode).error = true
      · simp only [herror, if_true, FR_RW_ERROR] at hcall
        obtain ⟨-, rfl⟩ := Prod.mk.inj (Except.ok.inj hcall)
        exact .none rfl hfile
      · simp only [herror, if_false, Bool.false_eq_true] at hcall
        cases hfails : d.next.fails with
        | some n =>
            simp only [hfails, FR_RW_ERROR] at hcall
            obtain ⟨-, rfl⟩ := Prod.mk.inj (Except.ok.inj hcall)
            exact .failed hfs hfind rfl (hput _) rfl
        | none =>
            have hle : target.toNat ≤ (x.disk.file f.inode).content.length := by omega
            simp only [hfails, hle, if_true, ne_eq, not_true_eq_false, if_false] at hcall
            obtain ⟨x₁, hmodify, hcall⟩ := Res.bind_eq_ok.mp hcall
            obtain ⟨-, rfl⟩ := Prod.mk.inj (Except.ok.inj hcall)
            obtain ⟨hfiles, hdisk⟩ := modifyFile_files (by exact hfs) hmodify
            refine .moved hfs hfind hfiles ((congrArg FatDisk.file hdisk).trans (hput _)) (spares_setPos target) rfl ?_
            show target = (target.toNat : Int)
            omega

/-- No entry is new, and no file has moved. -/
theorem PosInv.fewer (h : PosInv lo hi m₀ x) (htables : ∃ used, TablesInv lo hi m₀ x'.kernel used)
    (hholds : ∀ a f, Holds x'.kernel a f → Holds x.kernel a f)
    (hfile : ∀ a f, Holds x.kernel a f → (x'.disk.file f.inode).error = (x.disk.file f.inode).error ∧
      (x'.disk.file f.inode).fptr = (x.disk.file f.inode).fptr) : PosInv lo hi m₀ x' := by
  refine ⟨htables, ?_, ?_, ?_⟩
  · intro a f b g hf hg heq
    exact h.alone a f b g (hholds a f hf) (hholds b g hg) heq
  · intro a f hf
    exact h.status a f (hholds a f hf)
  · intro a f hf
    obtain ⟨herror, hfptr⟩ := hfile a f (hholds a f hf)
    rw [herror, hfptr]
    exact h.pos a f (hholds a f hf)

/-- A table without entries, where there was none or one without entries. -/
theorem holds_put_empty {k k' : Kernel} {b : U32} {gs : FileStruct} (hgs : gs.fileList = [])
    (hfiles : k'.files = Function.update k.files b (some gs))
    (hold : ∀ fs, k.files b = some fs → fs.fileList = []) (a : U32) (f : File) : Holds k' a f ↔ Holds k a f := by
  unfold Holds
  rw [hfiles]
  by_cases ha : a = b
  · subst ha
    constructor
    · rintro ⟨fs, hfs, hf⟩
      rw [Function.update_self] at hfs
      obtain rfl := Option.some.inj hfs
      rw [hgs] at hf
      cases hf
    · rintro ⟨fs, hfs, hf⟩
      rw [hold fs hfs] at hf
      cases hf
  · rw [Function.update_of_ne ha]

/-- `file_close` synchronises the file of the entry. -/
theorem fileClose_disk {files : U32} {fd ret : Int} (hcall : fileClose fatOps x files fd = .ok (ret, x')) (i : U32) :
    (x'.disk.file i).error = (x.disk.file i).error ∧ (x'.disk.file i).fptr = (x.disk.file i).fptr := by
  have hsync : ∀ inode, ((fatSync inode x.disk).2.file i).error = (x.disk.file i).error ∧
      ((fatSync inode x.disk).2.file i).fptr = (x.disk.file i).fptr := by
    intro inode
    unfold fatSync
    dsimp only
    split
    all_goals
      by_cases hi : i = inode
      · subst hi
        simp [FatDisk.put]
      · simp [FatDisk.put, Function.update_of_ne hi]
  unfold fileClose at hcall
  obtain ⟨fs, -, hcall⟩ := Res.bind_eq_ok.mp hcall
  split at hcall
  · obtain ⟨-, rfl⟩ := Prod.mk.inj (Except.ok.inj hcall)
    exact ⟨rfl, rfl⟩
  · rename_i f _
    obtain ⟨k, -, hcall⟩ := Res.bind_eq_ok.mp hcall
    obtain ⟨-, rfl⟩ := Prod.mk.inj (Except.ok.inj hcall)
    have hclose : (vfsClose fatOps x f.inode).2.disk = x.disk ∨
        (vfsClose fatOps x f.inode).2.disk = (fatSync f.inode x.disk).2 := by
      unfold vfsClose
      split
      · exact Or.inl rfl
      · exact Or.inr rfl
    show ((vfsClose fatOps x f.inode).2.disk.file i).error = _ ∧ ((vfsClose fatOps x f.inode).2.disk.file i).fptr = _
    rcases hclose with h | h
    · rw [h]
      exact ⟨rfl, rfl⟩
    · rw [h]
      exact hsync f.inode

/-- The files of open descriptors after `file_open`. -/
theorem fileOpen_disk {vfsOpen : FsKernel FatDisk → Res ((Int × U32) × FsKernel FatDisk)} {inode : U32}
    (hopens : OpensFat vfsOpen)
    {fd : Int} (hfrom : (fd < 0 ∧ x'.disk = x.disk ∧ x'.kernel.files = x.kernel.files) ∨ Called x x' vfsOpen inode fd)
    {a : U32} {f : File}
    (hf : Holds x.kernel a f) : x'.disk.file f.inode = x.disk.file f.inode := by
  rcases hfrom with ⟨-, hdisk, -⟩ | ⟨k₁, r, y', hfiles, hvfs, hdisk, -⟩
  · rw [hdisk]
  · rw [hdisk]
    refine (hopens _ r y' hvfs).2 a f ?_
    obtain ⟨fs, hfs, hmem⟩ := hf
    exact ⟨fs, hfiles ▸ hfs, hmem⟩

/-- `file_open` of a file that no descriptor has makes a descriptor at its start, and leaves the others alone. -/
theorem fileOpen_posInv (h : PosInv lo hi m₀ x) {files openFlag : U32}
    {vfsOpen : FsKernel FatDisk → Res ((Int × U32) × FsKernel FatDisk)} {fd : Int}
    (halone : FileOp.Alone x (.fileOpen files openFlag vfsOpen))
    (hcall : fileOpen x files openFlag vfsOpen = .ok (fd, x')) :
    PosInv lo hi m₀ x' ∧ (∀ a f, Holds x.kernel a f → Stays x x' a f) ∧
      (0 ≤ fd → ∃ f, Holds x'.kernel files f ∧ f.fd = fd ∧ f.pos = 0 ∧ (x'.disk.file f.inode).fptr = 0) := by
  obtain ⟨used, hinv⟩ := h.tables
  obtain ⟨hopens, hnew⟩ := halone
  obtain ⟨used', inode, hinv', hopen, hfrom⟩ := fileOpen_spec hinv (fun y r y' hy => (hopens y r y' hy).1) hcall
  have hdisk : ∀ {a f}, Holds x.kernel a f → x'.disk.file f.inode = x.disk.file f.inode :=
    fun hf => fileOpen_disk hopens hfrom hf
  have hsame : x'.kernel.files = x.kernel.files → PosInv lo hi m₀ x' ∧ ∀ a f, Holds x.kernel a f → Stays x x' a f := by
    intro hfiles
    have hholds : ∀ a f, Holds x'.kernel a f ↔ Holds x.kernel a f := by
      intro a f
      unfold Holds
      rw [hfiles]
    refine ⟨h.fewer ⟨used', hinv'⟩ (fun a f => (hholds a f).mp) ?_, ?_⟩
    · intro a f hf
      rw [hdisk hf]
      exact ⟨rfl, rfl⟩
    · intro a f hf
      exact ⟨(hholds a f).mpr hf, by rw [hdisk hf]⟩
  -- The inode is the one that `vfs_open` gave.
  have hgiven : (fd < 0 ∧ x'.kernel.files = x.kernel.files) ∨ ((∀ a f, Holds x.kernel a f → f.inode ≠ inode) ∧
      (x'.disk.file inode).fptr = 0) := by
    rcases hfrom with ⟨hneg, -, hfiles⟩ | ⟨k₁, r, y', hk₁, hvfs, hdisk', hfiles | rfl⟩
    · exact Or.inl ⟨hneg, hfiles⟩
    · exact Or.inl hfiles
    · rw [hdisk']
      exact Or.inr (hnew k₁ inode y' hk₁ hvfs)
  rcases hgiven with ⟨hneg, hfiles⟩ | ⟨hnone, hstart⟩
  · obtain ⟨hpos, hstays⟩ := hsame hfiles
    exact ⟨hpos, hstays, fun hfd => by omega⟩
  · cases hopen with
    | failed hneg hfiles =>
        obtain ⟨hpos, hstays⟩ := hsame hfiles
        exact ⟨hpos, hstays, fun hfd => by omega⟩
    | again hfs hfound _ =>
        have hmem := List.mem_of_find?_eq_some hfound
        exact absurd (by simpa using List.find?_some hfound) (hnone files _ ⟨_, hfs, hmem⟩)
    | @new _ fs file hfs _ _ hset _ hfiles =>
        have hinode : file.inode = inode := by rw [← hset]; rfl
        have hzero : file.pos = 0 := by rw [← hset]; rfl
        have hstatus : file.status = .opened := by rw [← hset]; rfl
        have hholds : ∀ a f, Holds x'.kernel a f ↔ (a = files ∧ f = file) ∨ Holds x.kernel a f := by
          intro a f
          unfold Holds
          rw [hfiles]
          by_cases ha : a = files
          · subst ha
            simp [hfs]
          · simp [ha]
        refine ⟨⟨⟨used', hinv'⟩, ?_, ?_, ?_⟩, ?_, ?_⟩
        · intro a f b g hf hg heq
          rcases (hholds a f).mp hf with ⟨rfl, rfl⟩ | hf
          · rcases (hholds b g).mp hg with ⟨rfl, rfl⟩ | hg
            · exact ⟨rfl, rfl⟩
            · exact absurd (heq.symm.trans hinode) (hnone b g hg)
          · rcases (hholds b g).mp hg with ⟨rfl, rfl⟩ | hg
            · exact absurd (heq.trans hinode) (hnone a f hf)
            · exact h.alone a f b g hf hg heq
        · intro a f hf
          rcases (hholds a f).mp hf with ⟨-, rfl⟩ | hf
          · exact hstatus
          · exact h.status a f hf
        · intro a f hf
          rcases (hholds a f).mp hf with ⟨-, rfl⟩ | hf
          · rw [hinode, hstart, hzero]
            exact Or.inr rfl
          · rw [hdisk hf]
            exact h.pos a f hf
        · intro a f hf
          exact ⟨(hholds a f).mpr (Or.inr hf), by rw [hdisk hf]⟩
        · intro _
          refine ⟨file, (hholds files file).mpr (Or.inl ⟨rfl, rfl⟩), rfl, hzero, ?_⟩
          rw [hinode, hstart]

/-- What a successful `file_read` copies, and where it leaves the descriptor. -/
theorem fileRead_bytes (h : PosInv lo hi m₀ x) {files : U32} {fs : FileStruct} {fd : Int} {f : File}
    (hfs : x.kernel.files files = some fs) (hfind : findFileWithFd fs fd = some f) {blen : U32} {bytes : List U8}
    (hcall : fileRead fatOps x files fd blen = .ok ((0, bytes), x')) :
    f.pos = (x.disk.file f.inode).fptr ∧
      bytes = ((x.disk.file f.inode).content.drop (x.disk.file f.inode).fptr).take blen.toNat ∧
      Holds x'.kernel files (advancePos blen f) := by
  have hf := holds_of_find hfs hfind
  unfold fileRead at hcall
  rw [fileStruct_eq_ok.mpr hfs, Res.ok_bind, hfind] at hcall
  dsimp only at hcall
  split at hcall
  · cases (Prod.mk.inj (Prod.mk.inj (Except.ok.inj hcall)).1).1
  · simp only [fatOps, fatRead] at hcall
    by_cases herror : (x.disk.file f.inode).error = true
    · simp [herror, FR_RW_ERROR, FILE_OP_FAILED, pure, Except.pure] at hcall
    · have hpos := (h.pos files f hf).resolve_left herror
      simp only [herror, if_false, Bool.false_eq_true] at hcall
      cases hfails : x.disk.next.fails with
      | some n => simp [hfails, FR_RW_ERROR, FILE_OP_FAILED, pure, Except.pure] at hcall
      | none =>
          simp only [hfails, ne_eq, not_true_eq_false, if_false] at hcall
          obtain ⟨x₁, hmodify, hcall⟩ := Res.bind_eq_ok.mp hcall
          obtain ⟨hbytes, rfl⟩ := Prod.mk.inj (Except.ok.inj hcall)
          obtain ⟨hfiles, -⟩ := modifyFile_files (by exact hfs) hmodify
          refine ⟨hpos, (Prod.mk.inj hbytes).2.symm, _, by rw [hfiles]; exact Function.update_self .., ?_⟩
          exact List.mem_map.mpr ⟨f, (mem_of_findFileWithFd hfind).1, if_pos rfl⟩

end Positions

/-- The call is on that descriptor. -/
def FileOp.On {σ : Type} : FileOp σ → U32 → Int → Prop
  | .fileClose files fd, a, e => a = files ∧ e = fd
  | .fileRead files fd _, a, e => a = files ∧ e = fd
  | .fileWrite files fd _, a, e => a = files ∧ e = fd
  | .fileSeek files fd _ _, a, e => a = files ∧ e = fd
  | _, _, _ => False

/-- One call that keeps one descriptor to an inode. -/
def AloneStep (s s' : Session FatDisk) : Prop :=
  ∃ op : FileOp FatDisk, op.Valid s.x.kernel ∧ op.Alone s.x ∧ op.exec fatOps s = .ok s'

/-- Such a call keeps the invariant of the positions, and leaves the descriptors that it is not on where they are. -/
theorem PosInv.step {lo hi : Nat} {m₀ : Pmm} {s s' : Session FatDisk} (h : PosInv lo hi m₀ s.x) {op : FileOp FatDisk}
    (hvalid : op.Valid s.x.kernel) (halone : op.Alone s.x) (hexec : op.exec fatOps s = .ok s') :
    PosInv lo hi m₀ s'.x ∧ ∀ a f, Holds s.x.kernel a f → ¬ op.On a f.fd → Stays s.x s'.x a f := by
  obtain ⟨used, hinv⟩ := h.tables
  cases op with
  | create =>
      obtain ⟨⟨b, k'⟩, hcall, hexec⟩ := Res.bind_eq_ok.mp hexec
      obtain rfl := Except.ok.inj hexec
      obtain ⟨⟨used', -, hinv'⟩, hnew⟩ := filesCreate_spec hinv hcall
      have hholds : ∀ a f, Holds k' a f ↔ Holds s.x.kernel a f := by
        by_cases hnull : b = NULL
        · intro a f
          unfold Holds
          rw [filesCreate_null (hnull ▸ hcall)]
        · obtain ⟨hnone, hfiles, -⟩ := hnew hnull
          refine holds_put_empty (by rfl) hfiles ?_
          intro fs hfs
          rw [hnone] at hfs
          cases hfs
      refine ⟨h.fewer ⟨used', show TablesInv lo hi m₀ (s.x.setKernel k').kernel used' from hinv'⟩
        (fun a f => (hholds a f).mp) (fun _ _ _ => ⟨rfl, rfl⟩), ?_⟩
      intro a f hf _
      exact ⟨(hholds a f).mpr hf, rfl⟩
  | fileOpen files openFlag vfsOpen =>
      obtain ⟨⟨fd, x'⟩, hcall, hexec⟩ := Res.bind_eq_ok.mp hexec
      obtain rfl := Except.ok.inj hexec
      obtain ⟨hpos, hstays, -⟩ := fileOpen_posInv h halone hcall
      exact ⟨hpos, fun a f hf _ => hstays a f hf⟩
  | fileClose files fd =>
      obtain ⟨⟨ret, x'⟩, hcall, hexec⟩ := Res.bind_eq_ok.mp hexec
      obtain rfl := Except.ok.inj hexec
      obtain ⟨used', hinv', hclosed⟩ := fileClose_spec hinv hcall
      have hdisk := fileClose_disk hcall
      have hholds : ∀ a f, Holds x'.kernel a f ↔ Holds s.x.kernel a f ∧ ¬ (a = files ∧ f.fd = fd) := by
        intro a f
        unfold Holds
        cases hclosed with
        | unknown hfs hnone hfiles =>
            rw [hfiles]
            refine ⟨fun hf => ⟨hf, ?_⟩, fun hf => hf.1⟩
            rintro ⟨rfl, hfd⟩
            obtain ⟨fs, hfs', hmem⟩ := hf
            obtain rfl := Option.some.inj (hfs.symm.trans hfs')
            have := List.find?_eq_none.mp hnone f hmem
            simp [hfd] at this
        | closed hfs _ hfiles =>
            rw [hfiles]
            by_cases ha : a = files
            · subst ha
              simp [hfs]
            · simp [ha]
      refine ⟨h.fewer ⟨used', hinv'⟩ (fun a f hf => ((hholds a f).mp hf).1) (fun _ f _ => hdisk f.inode), ?_⟩
      intro a f hf hon
      exact ⟨(hholds a f).mpr ⟨hf, hon⟩, (hdisk f.inode).2⟩
  | filesDup toFiles fromFiles =>
      obtain ⟨⟨ret, k'⟩, hcall, hexec⟩ := Res.bind_eq_ok.mp hexec
      obtain rfl := Except.ok.inj hexec
      obtain ⟨tf, hto⟩ := filesDup_table hcall
      obtain ⟨used', ff, cf, hinv', hdup⟩ := filesDup_spec hinv hto (hvalid tf hto) hcall
      have hempty : cf.fileList = [] := by
        have hlist := hdup.entries
        rw [halone ff hdup.source] at hlist
        simpa using hlist
      have hholds := holds_put_empty hempty hdup.result hvalid
      refine ⟨h.fewer ⟨used', show TablesInv lo hi m₀ (s.x.setKernel k').kernel used' from hinv'⟩
        (fun a f => (hholds a f).mp) (fun _ _ _ => ⟨rfl, rfl⟩), ?_⟩
      intro a f hf _
      exact ⟨(hholds a f).mpr hf, rfl⟩
  | fileRead files fd blen =>
      obtain ⟨⟨r, x'⟩, hcall, hexec⟩ := Res.bind_eq_ok.mp hexec
      obtain rfl := Except.ok.inj hexec
      exact (fileRead_effect h halone hcall).posInv h ⟨used, (fileRead_touched hcall).tablesInv hinv⟩
  | fileWrite files fd buf =>
      obtain ⟨⟨r, x'⟩, hcall, hexec⟩ := Res.bind_eq_ok.mp hexec
      obtain rfl := Except.ok.inj hexec
      exact (fileWrite_effect h halone hcall).posInv h ⟨used, (fileWrite_touched hcall).tablesInv hinv⟩
  | fileSeek files fd pos flag =>
      obtain ⟨⟨r, x'⟩, hcall, hexec⟩ := Res.bind_eq_ok.mp hexec
      obtain rfl := Except.ok.inj hexec
      exact (fileSeek_effect halone hcall).posInv h ⟨used, (fileSeek_touched hcall).tablesInv hinv⟩

theorem PosInv.of_run {lo hi : Nat} {m₀ : Pmm} {x₀ : FsKernel FatDisk} {used : List Extent}
    (hledger : Ledger lo hi m₀ x₀.kernel.machine used) (hnone : ∀ a, x₀.kernel.files a = none)
    {s : Session FatDisk} (hrun : Relation.ReflTransGen AloneStep ⟨x₀, []⟩ s) : PosInv lo hi m₀ s.x := by
  induction hrun with
  | refl =>
      have hempty : ∀ a f, ¬ Holds x₀.kernel a f := by
        rintro a f ⟨fs, hfs, -⟩
        rw [hnone a] at hfs
        cases hfs
      refine ⟨⟨used, TablesInv.init hledger hnone⟩, ?_, ?_, ?_⟩
      · intro a f b g hf
        exact absurd hf (hempty a f)
      · intro a f hf
        exact absurd hf (hempty a f)
      · intro a f hf
        exact absurd hf (hempty a f)
  | tail _ hstep ih =>
      obtain ⟨op, hvalid, halone, hexec⟩ := hstep
      exact (ih.step hvalid halone hexec).1

/-- In every run of calls that keep one descriptor to an inode, a successful `file_read` copies the bytes of the file
from the position of the descriptor on; if the call is itself such a one, the position moves on by what was copied.  An
open gives a descriptor at offset 0.  No such call moves a descriptor that it is not on, or the place in its file. -/
theorem file_positions {lo hi : Nat} {m₀ : Pmm} {x₀ : FsKernel FatDisk} {used : List Extent}
    (hledger : Ledger lo hi m₀ x₀.kernel.machine used) (hnone : ∀ a, x₀.kernel.files a = none)
    {s : Session FatDisk} (hrun : Relation.ReflTransGen AloneStep ⟨x₀, []⟩ s) :
    (∀ files fs fd f blen bytes x', s.x.kernel.files files = some fs → findFileWithFd fs fd = some f →
      fileRead fatOps s.x files fd blen = .ok ((0, bytes), x') →
      0 ≤ f.pos ∧ bytes = ((s.x.disk.file f.inode).content.drop f.pos.toNat).take blen.toNat ∧
        bytes.length = min blen.toNat ((s.x.disk.file f.inode).content.length - f.pos.toNat) ∧
        (FileOp.Alone s.x (.fileRead files fd blen) → ∃ fs' f', x'.kernel.files files = some fs' ∧
          findFileWithFd fs' fd = some f' ∧ f'.pos = f.pos + bytes.length)) ∧
    (∀ files openFlag vfsOpen fd x', FileOp.Alone s.x (.fileOpen files openFlag vfsOpen) →
      fileOpen s.x files openFlag vfsOpen = .ok (fd, x') → 0 ≤ fd → ∃ fs f, x'.kernel.files files = some fs ∧
        findFileWithFd fs fd = some f ∧ f.pos = 0 ∧ (x'.disk.file f.inode).fptr = 0) ∧
    ∀ op s', FileOp.Valid s.x.kernel op → FileOp.Alone s.x op → op.exec fatOps s = .ok s' →
      ∀ a f, Holds s.x.kernel a f → ¬ op.On a f.fd → Stays s.x s'.x a f := by
  have h := PosInv.of_run hledger hnone hrun
  refine ⟨?_, ?_, ?_⟩
  · intro files fs fd f blen bytes x' hfs hfind hcall
    obtain ⟨hpos, hbytes, hentry⟩ := fileRead_bytes h hfs hfind hcall
    have hnat : f.pos.toNat = (s.x.disk.file f.inode).fptr := by omega
    rw [hnat]
    refine ⟨by omega, hbytes, ?_, ?_⟩
    · rw [hbytes, List.length_take, List.length_drop]
    · intro halone
      obtain ⟨hsize, hmax⟩ := halone fs f hfs hfind
      obtain ⟨used', hinv⟩ := h.tables
      have hinv' := (fileRead_touched hcall).tablesInv hinv
      obtain ⟨fs', hfs', hmem⟩ := hentry
      have hfd : (advancePos blen f).fd = fd := by
        rw [(spares_advancePos blen).fd]
        exact (mem_of_findFileWithFd hfind).2
      have hfind' := findFileWithFd_eq_some (hinv'.ok files fs' hfs') hmem
      rw [hfd] at hfind'
      refine ⟨fs', _, hfs', hfind', ?_⟩
      have hlen : bytes.length = blen.toNat := by
        rw [hbytes, List.length_take, List.length_drop]
        omega
      rw [advancePos, if_pos (h.status files f (holds_of_find hfs hfind)), hlen]
      exact addInt32_of_range (by omega) hmax
  · intro files openFlag vfsOpen fd x' halone hcall hfd
    obtain ⟨hpos, -, hnew⟩ := fileOpen_posInv h halone hcall
    obtain ⟨used', hinv⟩ := hpos.tables
    obtain ⟨f, ⟨fs, hfs, hmem⟩, rfl, hzero, hstart⟩ := hnew hfd
    exact ⟨fs, f, hfs, findFileWithFd_eq_some (hinv.ok files fs hfs) hmem, hzero, hstart⟩
  · intro op s' hvalid halone hexec
    exact (h.step hvalid halone hexec).2

/-! ### Runs on a small volume -/

/-- The only file is the inode at `0xC0030000`, of four bytes; the device does not fail. -/
def fourBytes : Session FatDisk :=
  ⟨⟨bootKernel smallImage fortyFrames, ⟨fun _ => ⟨[1, 2, 3, 4], 0, false, 4⟩, fun _ => ⟨none, 4, fun _ => 0⟩, 0⟩⟩, []⟩

@[inherit_doc fourBytes] def openFour (x : FsKernel FatDisk) : Res ((Int × U32) × FsKernel FatDisk) :=
  let count := x.kernel.inodes 0xC0030000#32
  .ok ((0, 0xC0030000#32), x.setCount 0xC0030000#32 { count with opened := count.opened + 1 })

theorem openFour_opensFat : OpensFat openFour := by
  intro y r y' h
  obtain ⟨-, rfl⟩ := Prod.mk.inj (Except.ok.inj h)
  exact ⟨⟨⟨y.kernel.machine, _, rfl⟩, fun _ _ _ used hledger => ⟨used, fun _ hu => hu, hledger⟩⟩, fun _ _ _ => rfl⟩

theorem openFour_disk {y : FsKernel FatDisk} {r : Int × U32} {y' : FsKernel FatDisk} (h : openFour y = .ok (r, y')) :
    r = (0, 0xC0030000#32) ∧ y'.disk = y.disk := by
  obtain ⟨rfl, rfl⟩ := Prod.mk.inj (Except.ok.inj h)
  exact ⟨rfl, rfl⟩

/-- A table without entries is created. -/
theorem fourBytes_create {s₁ : Session FatDisk} (hcreate : FileOp.create.exec fatOps fourBytes = .ok s₁) :
    s₁.x.disk = fourBytes.x.disk ∧ ∀ a f, ¬ Holds s₁.x.kernel a f := by
  obtain ⟨⟨b, k'⟩, hcall, hexec⟩ := Res.bind_eq_ok.mp hcreate
  obtain rfl := Except.ok.inj hexec
  have hinv : TablesInv 2 42 reservedPages fourBytes.x.kernel [] := TablesInv.init fortyFrames_ledger fun _ => rfl
  obtain ⟨-, hnew⟩ := filesCreate_spec hinv hcall
  refine ⟨rfl, ?_⟩
  rintro a f ⟨fs, hfs, hf⟩
  change k'.files a = some fs at hfs
  by_cases hnull : b = NULL
  · rw [filesCreate_null (hnull ▸ hcall)] at hfs
    cases hfs
  · rw [(hnew hnull).2.1] at hfs
    by_cases ha : a = b
    · subst ha
      rw [Function.update_self] at hfs
      obtain rfl := Option.some.inj hfs
      cases hf
    · rw [Function.update_of_ne ha] at hfs
      cases hfs

/-- The file is read twice: the second read goes on where the first one ended. -/
theorem file_positions_two_reads : ∃ s x' fs f, Relation.ReflTransGen AloneStep fourBytes s ∧
    fileRead fatOps s.x 0xC0002000#32 0 2 = .ok ((0, [3, 4]), x') ∧
    s.x.kernel.files 0xC0002000#32 = some fs ∧ findFileWithFd fs 0 = some f ∧ 0 ≤ f.pos ∧
    [3, 4] = ((s.x.disk.file f.inode).content.drop f.pos.toNat).take 2 := by
  have heval : (do
      let s₁ ← FileOp.create.exec fatOps fourBytes
      let s₂ ← (FileOp.fileOpen 0xC0002000#32 OPEN_READ openFour).exec fatOps s₁
      let fs₂ ← s₂.x.kernel.fileStruct 0xC0002000#32
      let s₃ ← (FileOp.fileRead 0xC0002000#32 0 2).exec fatOps s₂
      let fs₃ ← s₃.x.kernel.fileStruct 0xC0002000#32
      let (read₃, _) ← fileRead fatOps s₃.x 0xC0002000#32 0 2
      return decide ((findFileWithFd fs₂ 0).map (fun f => (f.inode, f.pos)) = some (0xC0030000#32, 0) ∧
        (s₂.x.disk.file 0xC0030000#32).content = [1, 2, 3, 4] ∧ (findFileWithFd fs₃ 0).isSome ∧
        read₃ = (0, [3, 4])) : Res _) = .ok true := by
    decide +kernel
  obtain ⟨s₁, hcreate, heval⟩ := Res.bind_eq_ok.mp heval
  obtain ⟨s₂, hopen, heval⟩ := Res.bind_eq_ok.mp heval
  obtain ⟨fs₂, hfs₂, heval⟩ := Res.bind_eq_ok.mp heval
  obtain ⟨s₃, hread, heval⟩ := Res.bind_eq_ok.mp heval
  obtain ⟨fs₃, hfs₃, heval⟩ := Res.bind_eq_ok.mp heval
  obtain ⟨⟨read₃, x₃⟩, hread₃, heval⟩ := Res.bind_eq_ok.mp heval
  obtain ⟨hfind₂, hcontent, hsome, rfl⟩ := of_decide_eq_true (Except.ok.inj heval)
  obtain ⟨hdisk, hempty⟩ := fourBytes_create hcreate
  have haloneOpen : FileOp.Alone s₁.x (.fileOpen 0xC0002000#32 OPEN_READ openFour) := by
    refine ⟨openFour_opensFat, ?_⟩
    intro k inode y _ hy
    refine ⟨fun a f hf => absurd hf (hempty a f), ?_⟩
    rw [(openFour_disk hy).2, show (s₁.x.setKernel k).disk = fourBytes.x.disk from hdisk]
    rfl
  have haloneRead : FileOp.Alone s₂.x (.fileRead 0xC0002000#32 0 2) := by
    intro fs f hfs hfind
    obtain rfl := Option.some.inj ((fileStruct_eq_ok.mp hfs₂).symm.trans hfs)
    rw [hfind, Option.map_some] at hfind₂
    obtain ⟨hinode, hpos⟩ := Prod.mk.inj (Option.some.inj hfind₂)
    rw [hinode, hcontent, hpos]
    decide
  have hrun : Relation.ReflTransGen AloneStep fourBytes s₃ :=
    ((Relation.ReflTransGen.single ⟨.create, trivial, trivial, hcreate⟩).tail
      ⟨.fileOpen _ _ openFour, fun y r y' hy => (openFour_opensFat y r y' hy).1, haloneOpen, hopen⟩).tail
      ⟨.fileRead _ _ _, trivial, haloneRead, hread⟩
  obtain ⟨f, hf⟩ := Option.isSome_iff_exists.mp hsome
  obtain ⟨hbytes, -, -⟩ := file_positions fortyFrames_ledger (fun _ => rfl) hrun
  obtain ⟨h0, hsame, -⟩ := hbytes _ fs₃ 0 f 2 _ x₃ (fileStruct_eq_ok.mp hfs₃) hf hread₃
  exact ⟨s₃, x₃, fs₃, f, hrun, hread₃, fileStruct_eq_ok.mp hfs₃, hf, h0, hsame⟩

/-- A descriptor at offset 0 reads the third byte first, when the file has been read before; and a read of nine bytes
moves the position of a descriptor by nine in a file of four. -/
theorem file_positions_differ :
    (∃ s fs f bytes x', Relation.ReflTransGen (FileStep fatOps) fourBytes s ∧
      s.x.kernel.files 0xC0002000#32 = some fs ∧ findFileWithFd fs 1 = some f ∧ f.pos = 0 ∧
      fileRead fatOps s.x 0xC0002000#32 1 2 = .ok ((0, bytes), x') ∧
      bytes ≠ ((s.x.disk.file f.inode).content.drop f.pos.toNat).take 2) ∧
    ∃ s fs f bytes x' fs' f', Relation.ReflTransGen (FileStep fatOps) fourBytes s ∧
      s.x.kernel.files 0xC0002000#32 = some fs ∧ findFileWithFd fs 0 = some f ∧
      fileRead fatOps s.x 0xC0002000#32 0 9 = .ok ((0, bytes), x') ∧
      x'.kernel.files 0xC0002000#32 = some fs' ∧ findFileWithFd fs' 0 = some f' ∧
      f'.pos ≠ f.pos + bytes.length := by
  have heval : (do
      let s₁ ← FileOp.create.exec fatOps fourBytes
      let s₂ ← (FileOp.fileOpen 0xC0002000#32 OPEN_READ openFour).exec fatOps s₁
      let s₃ ← (FileOp.fileRead 0xC0002000#32 0 2).exec fatOps s₂
      let s₄ ← (FileOp.fileClose 0xC0002000#32 0).exec fatOps s₃
      let s₅ ← (FileOp.fileOpen 0xC0002000#32 OPEN_READ openFour).exec fatOps s₄
      let fs₅ ← s₅.x.kernel.fileStruct 0xC0002000#32
      let (read₅, _) ← fileRead fatOps s₅.x 0xC0002000#32 1 2
      let fs₂ ← s₂.x.kernel.fileStruct 0xC0002000#32
      let (read₂, x₂) ← fileRead fatOps s₂.x 0xC0002000#32 0 9
      let fs₂' ← x₂.kernel.fileStruct 0xC0002000#32
      return decide ((findFileWithFd fs₅ 1).map (fun f => (f.inode, f.pos)) = some (0xC0030000#32, 0) ∧
        (s₅.x.disk.file 0xC0030000#32).content = [1, 2, 3, 4] ∧ read₅ = (0, [3, 4]) ∧
        (findFileWithFd fs₂ 0).map (fun f => f.pos) = some 0 ∧ read₂ = (0, [1, 2, 3, 4]) ∧
        (findFileWithFd fs₂' 0).map (fun f => f.pos) = some 9) : Res _) = .ok true := by
    decide +kernel
  obtain ⟨s₁, hcreate, heval⟩ := Res.bind_eq_ok.mp heval
  obtain ⟨s₂, hopen₂, heval⟩ := Res.bind_eq_ok.mp heval
  obtain ⟨s₃, hread₃, heval⟩ := Res.bind_eq_ok.mp heval
  obtain ⟨s₄, hclose₄, heval⟩ := Res.bind_eq_ok.mp heval
  obtain ⟨s₅, hopen₅, heval⟩ := Res.bind_eq_ok.mp heval
  obtain ⟨fs₅, hfs₅, heval⟩ := Res.bind_eq_ok.mp heval
  obtain ⟨⟨read₅, x₅⟩, hread₅, heval⟩ := Res.bind_eq_ok.mp heval
  obtain ⟨fs₂, hfs₂, heval⟩ := Res.bind_eq_ok.mp heval
  obtain ⟨⟨read₂, x₂⟩, hread₂, heval⟩ := Res.bind_eq_ok.mp heval
  obtain ⟨fs₂', hfs₂', heval⟩ := Res.bind_eq_ok.mp heval
  obtain ⟨hfind₅, hcontent, rfl, hfind₂, rfl, hfind₂'⟩ := of_decide_eq_true (Except.ok.inj heval)
  obtain ⟨f₅, hf₅, heq₅⟩ := Option.map_eq_some_iff.mp hfind₅
  obtain ⟨hinode, hpos⟩ := Prod.mk.inj heq₅
  obtain ⟨f₂, hf₂, hpos₂⟩ := Option.map_eq_some_iff.mp hfind₂
  obtain ⟨f₂', hf₂', hpos₂'⟩ := Option.map_eq_some_iff.mp hfind₂'
  have haside := fun y r y' hy => (openFour_opensFat y r y' hy).1
  have hrun₂ : Relation.ReflTransGen (FileStep fatOps) fourBytes s₂ :=
    (Relation.ReflTransGen.single ⟨.create, trivial, hcreate⟩).tail ⟨.fileOpen _ _ openFour, haside, hopen₂⟩
  have hrun₅ := ((hrun₂.tail ⟨.fileRead _ _ _, trivial, hread₃⟩).tail ⟨.fileClose _ _, trivial, hclose₄⟩).tail
    ⟨.fileOpen _ _ openFour, haside, hopen₅⟩
  refine ⟨⟨s₅, fs₅, f₅, _, x₅, hrun₅, fileStruct_eq_ok.mp hfs₅, hf₅, hpos, hread₅, ?_⟩, s₂, fs₂, f₂, _, x₂, fs₂',
    f₂', hrun₂, fileStruct_eq_ok.mp hfs₂, hf₂, hread₂, fileStruct_eq_ok.mp hfs₂', hf₂', ?_⟩
  · rw [hinode, hcontent, hpos]
    decide
  · rw [hpos₂, hpos₂']
    decide

end Fs
end FreakOS
