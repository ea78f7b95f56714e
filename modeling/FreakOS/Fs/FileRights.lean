import FreakOS.Fs.FileTable

/-!
# Access rights of descriptors

`file_open` decides on the rights of a descriptor by a `switch` on the whole flag byte, and writes over an entry that
the table already has for the inode.

* `accessMode` — the part of a flag word that says how the file is to be used.
* `FileOp`, `Session` — the calls on descriptors, with a log of what `file_open` has returned.
* `PlainOpen` — the opens that give the rights that were asked for, and take none away.
* `file_rights` — the rights in every run of such opens.
-/

namespace FreakOS
namespace Fs

open Lib
open Memory
open Krnl

/-! ### Access modes -/

/-- The flags other than the access mode. -/
def optionFlags : U32 := OPEN_CREATE ||| OPEN_EXIST ||| OPEN_TRUNC

/-- The access mode of a flag word. -/
def accessMode (openFlag : U32) : U32 := openFlag &&& OPEN_MASK &&& ~~~optionFlags

/-- The access mode allows reads. -/
def modeReads (openFlag : U32) : Bool := decide (accessMode openFlag = OPEN_READ ∨ accessMode openFlag = OPEN_RW)

/-- The access mode allows writes. -/
def modeWrites (openFlag : U32) : Bool := decide (accessMode openFlag = OPEN_WRITE ∨ accessMode openFlag = OPEN_RW)

/-- The flag words on which the `switch` of `file_open` is right. -/
def PlainFlags (openFlag : U32) : Prop :=
  openFlag &&& optionFlags = 0 ∨
    (accessMode openFlag ≠ OPEN_READ ∧ accessMode openFlag ≠ OPEN_WRITE ∧ accessMode openFlag ≠ OPEN_RW)

instance (openFlag : U32) : Decidable (PlainFlags openFlag) := inferInstanceAs (Decidable (_ ∨ _))

/-- Without options the whole flag byte is the access mode. -/
theorem accessMode_of_no_options {openFlag : U32} (h : openFlag &&& optionFlags = 0) :
    accessMode openFlag = openFlag &&& OPEN_MASK := by
  apply BitVec.eq_of_getLsbD_eq
  intro i hi
  have hbit := congrArg (fun b : U32 => b.getLsbD i) h
  simp only [BitVec.getLsbD_and] at hbit
  simp only [accessMode, BitVec.getLsbD_and, BitVec.getLsbD_not, hi, decide_true, Bool.true_and]
  cases hx : openFlag.getLsbD i
  · simp
  · rw [hx, Bool.true_and] at hbit
    simp [hbit]

/-- A flag byte without options is its own access mode. -/
theorem accessMode_of_mask {openFlag c : U32} (h : openFlag &&& OPEN_MASK = c) (hc : c &&& ~~~optionFlags = c) :
    accessMode openFlag = c := by
  unfold accessMode
  rw [h, hc]

/-- The `switch` of `file_open` gives the rights of the access mode on the plain flag words, and on no others. -/
theorem plainFlags_iff (openFlag : U32) :
    PlainFlags openFlag ↔ openReadable openFlag = modeReads openFlag ∧ openWritable openFlag = modeWrites openFlag := by
  have hread : openFlag &&& OPEN_MASK = OPEN_READ → accessMode openFlag = OPEN_READ :=
    fun h => accessMode_of_mask h (by decide)
  have hwrite : openFlag &&& OPEN_MASK = OPEN_WRITE → accessMode openFlag = OPEN_WRITE :=
    fun h => accessMode_of_mask h (by decide)
  have hrw : openFlag &&& OPEN_MASK = OPEN_RW → accessMode openFlag = OPEN_RW :=
    fun h => accessMode_of_mask h (by decide)
  have hne : OPEN_READ ≠ OPEN_WRITE ∧ OPEN_READ ≠ OPEN_RW ∧ OPEN_WRITE ≠ OPEN_RW := by decide
  -- One of the three modes, with an option beside it, is no case of the `switch`.
  have hopt : ∀ c, openFlag &&& OPEN_MASK = c → c &&& ~~~optionFlags = c → openFlag &&& optionFlags = 0 := by
    intro c hmask hc
    have hsub : optionFlags &&& OPEN_MASK = optionFlags := by decide
    rw [← hsub, ← BitVec.and_assoc, BitVec.and_comm openFlag, BitVec.and_assoc, hmask, ← hc, BitVec.and_comm c,
      ← BitVec.and_assoc]
    simp
  unfold openReadable openWritable modeReads modeWrites
  rw [decide_eq_decide, decide_eq_decide]
  constructor
  · rintro (h | ⟨h1, h2, h3⟩)
    · rw [accessMode_of_no_options h]
      exact ⟨Iff.rfl, Iff.rfl⟩
    · have h1' := mt hread h1
      have h2' := mt hwrite h2
      have h3' := mt hrw h3
      simp [h1, h2, h3, h1', h2', h3']
  · rintro ⟨h1, h2⟩
    by_cases hmode : accessMode openFlag = OPEN_READ ∨ accessMode openFlag = OPEN_WRITE ∨
        accessMode openFlag = OPEN_RW
    · refine Or.inl ?_
      rcases hmode with h | h | h
      · rcases h1.mpr (Or.inl h) with hm | hm
        · exact hopt _ hm (by decide)
        · exact absurd (h.symm.trans (hrw hm)) hne.2.1
      · rcases h2.mpr (Or.inl h) with hm | hm
        · exact hopt _ hm (by decide)
        · exact absurd (h.symm.trans (hrw hm)) hne.2.2
      · rcases h1.mpr (Or.inr h) with hm | hm
        · exact absurd ((hread hm).symm.trans h) hne.2.1
        · exact hopt _ hm (by decide)
    · push Not at hmode
      exact Or.inr hmode

/-! ### Sessions -/

/-- A descriptor that `file_open` has returned, in a table, for a flag word. -/
structure Granted where
  files : U32
  fd : Int
  openFlag : U32
deriving DecidableEq, Repr

/-- The kernel and the file systems, with the descriptors that are open. -/
structure Session (σ : Type) where
  x : FsKernel σ
  granted : List Granted

/-- The calls on descriptors. -/
inductive FileOp (σ : Type)
  | create
  | fileOpen (files openFlag : U32) (vfsOpen : FsKernel σ → Res ((Int × U32) × FsKernel σ))
  | fileClose (files : U32) (fd : Int)
  | filesDup (toFiles fromFiles : U32)
  | fileRead (files : U32) (fd : Int) (blen : U32)
  | fileWrite (files : U32) (fd : Int) (buf : List U8)
  | fileSeek (files : U32) (fd pos : Int) (flag : U32)

/-- A child has the descriptors of its parent. -/
def inheritGranted (granted : List Granted) (toFiles fromFiles : U32) : List Granted :=
  (granted.filter fun g => decide (g.files = fromFiles)).map fun g => { g with files := toFiles }

/-- One call. -/
def FileOp.exec {σ : Type} (ops : INodeOps σ) : FileOp σ → Session σ → Res (Session σ)
  | .create, s => do
      let (_, k) ← filesCreate s.x.kernel
      return ⟨s.x.setKernel k, s.granted⟩
  | .fileOpen files openFlag vfsOpen, s => do
      let (fd, x) ← Fs.fileOpen s.x files openFlag vfsOpen
      return ⟨x, if 0 ≤ fd then ⟨files, fd, openFlag⟩ :: s.granted else s.granted⟩
  | .fileClose files fd, s => do
      let (_, x) ← Fs.fileClose ops s.x files fd
      return ⟨x, s.granted.filter fun g => decide (¬ (g.files = files ∧ g.fd = fd))⟩
  | .filesDup toFiles fromFiles, s => do
      let (_, k) ← Krnl.filesDup s.x.kernel toFiles fromFiles
      return ⟨s.x.setKernel k, s.granted ++ inheritGranted s.granted toFiles fromFiles⟩
  | .fileRead files fd blen, s => do
      let (_, x) ← Fs.fileRead ops s.x files fd blen
      return ⟨x, s.granted⟩
  | .fileWrite files fd buf, s => do
      let (_, x) ← Fs.fileWrite ops s.x files fd buf
      return ⟨x, s.granted⟩
  | .fileSeek files fd pos flag, s => do
      let (_, x) ← Fs.fileSeek ops s.x files fd pos flag
      return ⟨x, s.granted⟩

/-- `vfs_open` is as it should be, and `files_dup` is for a table without entries. -/
def FileOp.Valid {σ : Type} (k : Kernel) : FileOp σ → Prop
  | .fileOpen _ _ vfsOpen => ∀ y r y', vfsOpen y = .ok (r, y') → Aside y y'
  | .filesDup toFiles _ => ∀ tf, k.files toFiles = some tf → tf.fileList = []
  | _ => True

/-- The opens that give the rights that were asked for, and take none away: the flag word is plain, and an entry that
the table has for the inode has the same rights, and is at the start of the file. -/
structure PlainOpen {σ : Type} (x : FsKernel σ) (files openFlag : U32)
    (vfsOpen : FsKernel σ → Res ((Int × U32) × FsKernel σ)) : Prop where
  plain : PlainFlags openFlag
  again : ∀ k inode y, k.files = x.kernel.files → vfsOpen (x.setKernel k) = .ok ((0, inode), y) →
    ∀ fs, x.kernel.files files = some fs → ∀ f ∈ fs.fileList, f.inode = inode →
      inherited (setOpened inode openFlag f) = inherited f

/-- Each `file_open` is a plain one. -/
def FileOp.Plain {σ : Type} (x : FsKernel σ) : FileOp σ → Prop
  | .fileOpen files openFlag vfsOpen => PlainOpen x files openFlag vfsOpen
  | _ => True

/-- One call, on the descriptors of some table. -/
def FileStep {σ : Type} (ops : INodeOps σ) (s s' : Session σ) : Prop :=
  ∃ op : FileOp σ, op.Valid s.x.kernel ∧ op.exec ops s = .ok s'

/-- One call; if it is a `file_open`, a plain one. -/
def PlainFileStep {σ : Type} (ops : INodeOps σ) (s s' : Session σ) : Prop :=
  ∃ op : FileOp σ, op.Valid s.x.kernel ∧ op.Plain s.x ∧ op.exec ops s = .ok s'

/-- An entry has the rights of a flag word. -/
def HasRights (f : File) (openFlag : U32) : Prop :=
  f.readable = modeReads openFlag ∧ f.writable = modeWrites openFlag

/-- The invariant of the rights: what `file_open` has returned has the rights that were asked for. -/
structure RightsInv {σ : Type} (lo hi : Nat) (m₀ : Pmm) (s : Session σ) : Prop where
  tables : ∃ used, TablesInv lo hi m₀ s.x.kernel used
  granted : ∀ g ∈ s.granted, ∃ fs f, s.x.kernel.files g.files = some fs ∧ f ∈ fs.fileList ∧ f.fd = g.fd ∧
    HasRights f g.openFlag

/-- What the calls other than `file_close` leave of an entry. -/
def Keeps (k k' : Kernel) : Prop := ∀ a fs, k.files a = some fs → ∀ f ∈ fs.fileList,
  ∃ fs' f', k'.files a = some fs' ∧ f' ∈ fs'.fileList ∧ f'.fd = f.fd ∧ f'.readable = f.readable ∧
    f'.writable = f.writable

section Rights

variable {σ : Type} {lo hi : Nat} {m₀ : Pmm} {k k' : Kernel} {used : List Extent}

theorem Keeps.of_files_eq (h : k'.files = k.files) : Keeps k k' := by
  intro a fs hfs f hf
  exact ⟨fs, f, h ▸ hfs, hf, rfl, rfl, rfl⟩

/-- One table is overwritten, with the entries that it had. -/
theorem Keeps.put {a : U32} {fs' : FileStruct} (hfiles : k'.files = Function.update k.files a (some fs'))
    (h : ∀ fs, k.files a = some fs → ∀ f ∈ fs.fileList, ∃ f' ∈ fs'.fileList, f'.fd = f.fd ∧
      f'.readable = f.readable ∧ f'.writable = f.writable) : Keeps k k' := by
  intro b gs hgs g hg
  by_cases hb : b = a
  · subst hb
    obtain ⟨f', hf', hrest⟩ := h gs hgs g hg
    exact ⟨fs', f', by rw [hfiles, Function.update_self], hf', hrest⟩
  · exact ⟨gs, g, by rw [hfiles, Function.update_of_ne hb, hgs], hg, rfl, rfl, rfl⟩

theorem RightsInv.keeps {s : Session σ} (h : RightsInv lo hi m₀ s) (x' : FsKernel σ) {used' : List Extent}
    (hinv : TablesInv lo hi m₀ x'.kernel used') (hkeeps : Keeps s.x.kernel x'.kernel) :
    RightsInv lo hi m₀ ⟨x', s.granted⟩ := by
  refine ⟨⟨used', hinv⟩, ?_⟩
  intro g hg
  obtain ⟨fs, f, hfs, hf, hfd, hr, hw⟩ := h.granted g hg
  obtain ⟨fs', f', hfs', hf', hfd', hr', hw'⟩ := hkeeps _ fs hfs f hf
  exact ⟨fs', f', hfs', hf', hfd'.trans hfd, hr'.trans hr, hw'.trans hw⟩

/-- A plain open leaves the entries as they are, but for the status of the one it opens again. -/
theorem Opened.kept (h : TablesInv lo hi m₀ k used) {files openFlag inode : U32} {fd : Int}
    (hopen : Opened k files openFlag inode fd k')
    (hagain : ∀ fs, k.files files = some fs → ∀ f ∈ fs.fileList, f.inode = inode →
      inherited (setOpened inode openFlag f) = inherited f) :
    ∀ a fs, k.files a = some fs → ∀ f ∈ fs.fileList,
      ∃ fs' f', k'.files a = some fs' ∧ f' ∈ fs'.fileList ∧ inherited f' = inherited f := by
  intro a fs hfs f hf
  cases hopen with
  | failed _ hfiles => exact ⟨fs, f, hfiles ▸ hfs, hf, rfl⟩
  | @again _ fs₀ found hfs₀ hfound hfiles =>
      by_cases ha : a = files
      · subst ha
        obtain rfl : fs₀ = fs := Option.some.inj (hfs₀.symm.trans hfs)
        refine ⟨_, _, by rw [hfiles, Function.update_self], List.mem_map_of_mem hf, ?_⟩
        split
        · rename_i hnode
          obtain rfl := (h.own a a fs₀ fs₀ hfs hfs f hf found (List.mem_of_find?_eq_some hfound) hnode).2
          exact hagain fs₀ hfs f hf (by simpa using List.find?_some hfound)
        · rfl
      · exact ⟨fs, f, by rw [hfiles, Function.update_of_ne ha, hfs], hf, rfl⟩
  | @new _ fs₀ file hfs₀ _ _ _ _ hfiles =>
      by_cases ha : a = files
      · subst ha
        obtain rfl : fs₀ = fs := Option.some.inj (hfs₀.symm.trans hfs)
        exact ⟨_, f, by rw [hfiles, Function.update_self], List.mem_cons_of_mem _ hf, rfl⟩
      · exact ⟨fs, f, by rw [hfiles, Function.update_of_ne ha, hfs], hf, rfl⟩

/-- A plain `file_open` leaves the descriptors, with their rights and positions, as they are. -/
theorem plainOpen_kept {x x' : FsKernel σ} (h : TablesInv lo hi m₀ x.kernel used) {files openFlag inode : U32}
    {vfsOpen : FsKernel σ → Res ((Int × U32) × FsKernel σ)} {fd : Int}
    (hopen : Opened x.kernel files openFlag inode fd x'.kernel)
    (hfrom : (fd < 0 ∧ x'.disk = x.disk ∧ x'.kernel.files = x.kernel.files) ∨ Called x x' vfsOpen inode fd)
    (hplain : PlainOpen x files openFlag vfsOpen) :
    ∀ a fs, x.kernel.files a = some fs → ∀ f ∈ fs.fileList,
      ∃ fs' f', x'.kernel.files a = some fs' ∧ f' ∈ fs'.fileList ∧ inherited f' = inherited f := by
  have hsame : x'.kernel.files = x.kernel.files → ∀ a fs, x.kernel.files a = some fs → ∀ f ∈ fs.fileList,
      ∃ fs' f', x'.kernel.files a = some fs' ∧ f' ∈ fs'.fileList ∧ inherited f' = inherited f := by
    intro hfiles a fs hfs f hf
    exact ⟨fs, f, hfiles ▸ hfs, hf, rfl⟩
  rcases hfrom with ⟨-, -, hfiles⟩ | ⟨k₁, r, y', hk₁, hvfs, -, ⟨-, hfiles⟩ | rfl⟩
  · exact hsame hfiles
  · exact hsame hfiles
  · exact hopen.kept h (hplain.again k₁ inode y' hk₁ hvfs)

/-- What `file_open` returns is a descriptor with the rights that the `switch` gives. -/
theorem Opened.granted {files openFlag inode : U32} {fd : Int} (hopen : Opened k files openFlag inode fd k')
    (hfd : 0 ≤ fd) : ∃ fs f, k'.files files = some fs ∧ f ∈ fs.fileList ∧ f.fd = fd ∧
      f.readable = openReadable openFlag ∧ f.writable = openWritable openFlag := by
  cases hopen with
  | failed hneg _ => omega
  | @again _ fs found hfs hfound hfiles =>
      refine ⟨_, setOpened inode openFlag found, by rw [hfiles, Function.update_self], ?_, rfl, rfl, rfl⟩
      exact List.mem_map.mpr ⟨found, List.mem_of_find?_eq_some hfound, if_pos rfl⟩
  | @new _ fs file hfs _ hlast hset _ hfiles =>
      refine ⟨_, file, by rw [hfiles, Function.update_self], List.mem_cons_self .., rfl, ?_, ?_⟩
      · rw [← hset]
        rfl
      · rw [← hset]
        rfl

/-- The fields of an entry that the calls on a descriptor do not touch. -/
structure Spares (g : File → File) : Prop where
  fd : ∀ f, (g f).fd = f.fd
  node : ∀ f, (g f).node = f.node
  inode : ∀ f, (g f).inode = f.inode
  readable : ∀ f, (g f).readable = f.readable
  writable : ∀ f, (g f).writable = f.writable

theorem spares_advancePos (blen : U32) : Spares (advancePos blen) := by
  constructor
  all_goals
    intro f
    unfold advancePos
    split
    · rfl
    · rfl

theorem spares_setPos (pos : Int) : Spares fun f => { f with pos := pos } :=
  ⟨fun _ => rfl, fun _ => rfl, fun _ => rfl, fun _ => rfl, fun _ => rfl⟩

/-- What the calls on a descriptor do to the kernel: they write to fields of its entry. -/
inductive Touched (k : Kernel) (files : U32) (fd : Int) : Kernel → Prop
  | same : Touched k files fd k
  | moved {fs : FileStruct} {file : File} {g : File → File} (hfs : k.files files = some fs)
      (hfind : findFileWithFd fs fd = some file) (hg : Spares g) :
      Touched k files fd (k.setFileStruct files { fs with fileList := updateEntry fs.fileList file.node g })

theorem modifyFile_touched {fd : Int} {x x' : FsKernel σ} (hx : x.kernel = k) {files : U32} {fs : FileStruct}
    {file : File} (hfs : k.files files = some fs) (hfind : findFileWithFd fs fd = some file) {g : File → File}
    (hg : Spares g) (hcall : x.modifyFile files file.node g = .ok x') : Touched k files fd x'.kernel := by
  subst hx
  unfold FsKernel.modifyFile at hcall
  obtain ⟨fs', hfs', hcall⟩ := Res.bind_eq_ok.mp hcall
  obtain rfl := Except.ok.inj hcall
  obtain rfl : fs' = fs := Option.some.inj ((fileStruct_eq_ok.mp hfs').symm.trans hfs)
  exact .moved hfs hfind hg

theorem fileRead_touched {ops : INodeOps σ} {x x' : FsKernel σ} {files : U32} {fd : Int} {blen : U32}
    {r : Int × List U8} (hcall : fileRead ops x files fd blen = .ok (r, x')) :
    Touched x.kernel files fd x'.kernel := by
  unfold fileRead at hcall
  obtain ⟨fs, hfs, hcall⟩ := Res.bind_eq_ok.mp hcall
  split at hcall
  · obtain ⟨-, rfl⟩ := Prod.mk.inj (Except.ok.inj hcall)
    exact .same
  · rename_i file hfind
    split at hcall
    · obtain ⟨-, rfl⟩ := Prod.mk.inj (Except.ok.inj hcall)
      exact .same
    · split at hcall
      · obtain ⟨-, rfl⟩ := Prod.mk.inj (Except.ok.inj hcall)
        exact .same
      · dsimp only at hcall
        split at hcall
        · obtain ⟨-, rfl⟩ := Prod.mk.inj (Except.ok.inj hcall)
          exact .same
        · obtain ⟨x₁, hmodify, hcall⟩ := Res.bind_eq_ok.mp hcall
          obtain ⟨-, rfl⟩ := Prod.mk.inj (Except.ok.inj hcall)
          exact modifyFile_touched (by rfl) (fileStruct_eq_ok.mp hfs) hfind (spares_advancePos blen) hmodify

theorem fileWrite_touched {ops : INodeOps σ} {x x' : FsKernel σ} {files : U32} {fd : Int} {buf : List U8}
    {r : Int × U32} (hcall : fileWrite ops x files fd buf = .ok (r, x')) :
    Touched x.kernel files fd x'.kernel := by
  unfold fileWrite at hcall
  obtain ⟨fs, hfs, hcall⟩ := Res.bind_eq_ok.mp hcall
  split at hcall
  · obtain ⟨-, rfl⟩ := Prod.mk.inj (Except.ok.inj hcall)
    exact .same
  · rename_i file hfind
    split at hcall
    · obtain ⟨-, rfl⟩ := Prod.mk.inj (Except.ok.inj hcall)
      exact .same
    · split at hcall
      · obtain ⟨-, rfl⟩ := Prod.mk.inj (Except.ok.inj hcall)
        exact .same
      · dsimp only at hcall
        split at hcall
        · obtain ⟨-, rfl⟩ := Prod.mk.inj (Except.ok.inj hcall)
          exact .same
        · obtain ⟨x₁, hmodify, hcall⟩ := Res.bind_eq_ok.mp hcall
          obtain ⟨-, rfl⟩ := Prod.mk.inj (Except.ok.inj hcall)
          exact modifyFile_touched (by rfl) (fileStruct_eq_ok.mp hfs) hfind (spares_advancePos _) hmodify

theorem fileSeek_touched {ops : INodeOps σ} {x x' : FsKernel σ} {files : U32} {fd pos : Int} {flag : U32} {ret : Int}
    (hcall : fileSeek ops x files fd pos flag = .ok (ret, x')) : Touched x.kernel files fd x'.kernel := by
  unfold fileSeek at hcall
  obtain ⟨fs, hfs, hcall⟩ := Res.bind_eq_ok.mp hcall
  split at hcall
  · obtain ⟨-, rfl⟩ := Prod.mk.inj (Except.ok.inj hcall)
    exact .same
  · rename_i file hfind
    split at hcall
    · obtain ⟨-, rfl⟩ := Prod.mk.inj (Except.ok.inj hcall)
      exact .same
    · rename_i target d htarget
      split at hcall
      · obtain ⟨-, rfl⟩ := Prod.mk.inj (Except.ok.inj hcall)
        exact .same
      · dsimp only at hcall
        split at hcall
        · obtain ⟨-, rfl⟩ := Prod.mk.inj (Except.ok.inj hcall)
          exact .same
        · obtain ⟨x₁, hmodify, hcall⟩ := Res.bind_eq_ok.mp hcall
          obtain ⟨-, rfl⟩ := Prod.mk.inj (Except.ok.inj hcall)
          exact modifyFile_touched (by rfl) (fileStruct_eq_ok.mp hfs) hfind (spares_setPos target) hmodify

theorem Touched.tablesInv {files : U32} {fd : Int} (htouched : Touched k files fd k')
    (h : TablesInv lo hi m₀ k used) : TablesInv lo hi m₀ k' used := by
  cases htouched with
  | same => exact h
  | moved hfs _ hg => exact h.updateEntry hfs _ _ hg.fd hg.node rfl h.ledger

theorem Touched.keeps {files : U32} {fd : Int} (htouched : Touched k files fd k') : Keeps k k' := by
  cases htouched with
  | same => exact Keeps.of_files_eq rfl
  | @moved fs file g hfs _ hg =>
      refine Keeps.put (a := files) rfl ?_
      intro gs hgs f hf
      obtain rfl : fs = gs := Option.some.inj (hfs.symm.trans hgs)
      refine ⟨_, List.mem_map_of_mem hf, ?_⟩
      split
      · exact ⟨hg.fd f, hg.readable f, hg.writable f⟩
      · exact ⟨rfl, rfl, rfl⟩

/-- A plain call keeps the invariant of the rights. -/
theorem RightsInv.step {ops : INodeOps σ} {s s' : Session σ} (h : RightsInv lo hi m₀ s)
    (hstep : PlainFileStep ops s s') : RightsInv lo hi m₀ s' := by
  obtain ⟨used, hinv⟩ := h.tables
  obtain ⟨op, hvalid, hplain, hexec⟩ := hstep
  cases op with
  | create =>
      obtain ⟨⟨a, k'⟩, hcall, hexec⟩ := Res.bind_eq_ok.mp hexec
      obtain rfl := Except.ok.inj hexec
      obtain ⟨⟨used', -, hinv'⟩, hnew⟩ := filesCreate_spec hinv hcall
      refine h.keeps (s.x.setKernel k') hinv' ?_
      by_cases hnull : a = NULL
      · exact Keeps.of_files_eq (filesCreate_null (hnull ▸ hcall))
      · obtain ⟨hnone, hfiles, -⟩ := hnew hnull
        refine Keeps.put hfiles ?_
        intro fs hfs
        rw [hnone] at hfs
        cases hfs
  | fileOpen files openFlag vfsOpen =>
      obtain ⟨⟨fd, x'⟩, hcall, hexec⟩ := Res.bind_eq_ok.mp hexec
      obtain rfl := Except.ok.inj hexec
      obtain ⟨used', inode, hinv', hopen, hfrom⟩ := fileOpen_spec hinv hvalid hcall
      have hkeeps : Keeps s.x.kernel x'.kernel := by
        intro a fs hfs f hf
        obtain ⟨fs', f', hfs', hf', hsame⟩ := plainOpen_kept hinv hopen hfrom hplain a fs hfs f hf
        simp only [inherited, Prod.mk.injEq] at hsame
        exact ⟨fs', f', hfs', hf', hsame.1, hsame.2.2.2⟩
      have hold := h.keeps _ hinv' hkeeps
      split
      · rename_i hfd
        refine ⟨hold.tables, ?_⟩
        intro g hg
        rcases List.mem_cons.mp hg with rfl | hg
        · obtain ⟨fs, f, hfs, hf, hffd, hr, hw⟩ := hopen.granted hfd
          obtain ⟨hr', hw'⟩ := (plainFlags_iff openFlag).mp hplain.plain
          exact ⟨fs, f, hfs, hf, hffd, hr.trans hr', hw.trans hw'⟩
        · exact hold.granted g hg
      · exact hold
  | fileClose files fd =>
      obtain ⟨⟨ret, x'⟩, hcall, hexec⟩ := Res.bind_eq_ok.mp hexec
      obtain rfl := Except.ok.inj hexec
      obtain ⟨used', hinv', hclosed⟩ := fileClose_spec hinv hcall
      refine ⟨⟨used', hinv'⟩, ?_⟩
      intro g hg
      obtain ⟨hg, hother⟩ := List.mem_filter.mp hg
      obtain ⟨fs, f, hfs, hf, hfd, hrights⟩ := h.granted g hg
      cases hclosed with
      | unknown _ _ hfiles => exact ⟨fs, f, hfiles ▸ hfs, hf, hfd, hrights⟩
      | @closed fs₀ file hfs₀ _ hfiles =>
          by_cases hfiles' : g.files = files
          · rw [hfiles', hfs₀] at hfs
            obtain rfl := Option.some.inj hfs
            refine ⟨_, f, by rw [hfiles, hfiles', Function.update_self], ?_, hfd, hrights⟩
            have hne : g.fd ≠ fd := fun heq => of_decide_eq_true hother ⟨hfiles', heq⟩
            exact List.mem_filter.mpr ⟨hf, by simpa [hfd] using hne⟩
          · exact ⟨fs, f, by rw [hfiles, Function.update_of_ne hfiles', hfs], hf, hfd, hrights⟩
  | filesDup toFiles fromFiles =>
      obtain ⟨⟨ret, k'⟩, hcall, hexec⟩ := Res.bind_eq_ok.mp hexec
      obtain rfl := Except.ok.inj hexec
      obtain ⟨tf, hto⟩ := filesDup_table hcall
      obtain ⟨used', ff, cf, hinv', hdup⟩ := filesDup_spec hinv hto (hvalid tf hto) hcall
      have hkeeps : Keeps s.x.kernel k' := by
        refine Keeps.put hdup.result ?_
        intro fs hfs
        rw [hvalid fs hfs]
        intro f hf
        cases hf
      refine ⟨⟨used', hinv'⟩, ?_⟩
      intro g hg
      rcases List.mem_append.mp hg with hg | hg
      · exact (h.keeps (s.x.setKernel k') hinv' hkeeps).granted g hg
      · -- The entry of the parent has a copy.
        obtain ⟨g₀, hg₀, rfl⟩ := List.mem_map.mp hg
        obtain ⟨hg₀, hfrom⟩ := List.mem_filter.mp hg₀
        obtain ⟨fs, f, hfs, hf, hfd, hr, hw⟩ := h.granted g₀ hg₀
        rw [of_decide_eq_true hfrom, hdup.source] at hfs
        obtain rfl := Option.some.inj hfs
        have hmem : inherited f ∈ cf.fileList.map inherited := by
          rw [hdup.entries, List.mem_reverse]
          exact List.mem_map_of_mem hf
        obtain ⟨f', hf', hsame⟩ := List.mem_map.mp hmem
        simp only [inherited, Prod.mk.injEq] at hsame
        obtain ⟨hfd', -, -, hr', hw'⟩ := hsame
        refine ⟨cf, f', ?_, hf', hfd'.trans hfd, hr'.trans hr, hw'.trans hw⟩
        show k'.files toFiles = some cf
        rw [hdup.result, Function.update_self]
  | fileRead files fd blen =>
      obtain ⟨⟨r, x'⟩, hcall, hexec⟩ := Res.bind_eq_ok.mp hexec
      obtain rfl := Except.ok.inj hexec
      have htouched := fileRead_touched hcall
      exact h.keeps _ (htouched.tablesInv hinv) htouched.keeps
  | fileWrite files fd buf =>
      obtain ⟨⟨r, x'⟩, hcall, hexec⟩ := Res.bind_eq_ok.mp hexec
      obtain rfl := Except.ok.inj hexec
      have htouched := fileWrite_touched hcall
      exact h.keeps _ (htouched.tablesInv hinv) htouched.keeps
  | fileSeek files fd pos flag =>
      obtain ⟨⟨r, x'⟩, hcall, hexec⟩ := Res.bind_eq_ok.mp hexec
      obtain rfl := Except.ok.inj hexec
      have htouched := fileSeek_touched hcall
      exact h.keeps _ (htouched.tablesInv hinv) htouched.keeps

theorem modifyFile_ok {x : FsKernel σ} {files : U32} {fs : FileStruct} (hfs : x.kernel.files files = some fs)
    (node : U32) (g : File → File) : ∃ x', x.modifyFile files node g = .ok x' := by
  unfold FsKernel.modifyFile
  rw [fileStruct_eq_ok.mpr hfs]
  exact ⟨_, rfl⟩

theorem modifyFile_disk {x x' : FsKernel σ} {files node : U32} {g : File → File}
    (hcall : x.modifyFile files node g = .ok x') : x'.disk = x.disk := by
  unfold FsKernel.modifyFile at hcall
  obtain ⟨fs, -, hcall⟩ := Res.bind_eq_ok.mp hcall
  obtain rfl := Except.ok.inj hcall
  rfl

/-- `file_read` refuses a descriptor exactly when the entry is not readable. -/
theorem fileRead_check (ops : INodeOps σ) {x : FsKernel σ} {files : U32} {fs : FileStruct} {fd : Int} {f : File}
    (hfs : x.kernel.files files = some fs) (hfind : findFileWithFd fs fd = some f) (blen : U32) :
    ∃ ret bytes x', fileRead ops x files fd blen = .ok ((ret, bytes), x') ∧
      (ret ≠ -FILE_INVAL ↔ f.readable = true) := by
  unfold fileRead
  rw [fileStruct_eq_ok.mpr hfs, Res.ok_bind, hfind]
  dsimp only
  cases hr : f.readable
  · exact ⟨_, _, _, rfl, by simp⟩
  · cases hop : ops.read f.inode with
    | none => exact ⟨_, _, _, rfl, by decide⟩
    | some read =>
        rcases hread : read blen x.disk with ⟨⟨ret, bytes⟩, d⟩
        dsimp only
        rw [hread]
        by_cases hret : ret = 0
        · obtain ⟨x', hmodify⟩ := modifyFile_ok (x := x.setDisk d) hfs f.node (advancePos blen)
          refine ⟨0, bytes, x', ?_, by decide⟩
          simp [hret, hmodify, pure, Except.pure]
        · exact ⟨-FILE_OP_FAILED, [], x.setDisk d, by simp [hret, pure, Except.pure], by decide⟩

/-- `file_write` refuses a descriptor exactly when the entry is not writable. -/
theorem fileWrite_check (ops : INodeOps σ) {x : FsKernel σ} {files : U32} {fs : FileStruct} {fd : Int} {f : File}
    (hfs : x.kernel.files files = some fs) (hfind : findFileWithFd fs fd = some f) (buf : List U8) :
    ∃ ret copied x', fileWrite ops x files fd buf = .ok ((ret, copied), x') ∧
      (ret ≠ -FILE_INVAL ↔ f.writable = true) := by
  unfold fileWrite
  rw [fileStruct_eq_ok.mpr hfs, Res.ok_bind, hfind]
  dsimp only
  cases hw : f.writable
  · exact ⟨_, _, _, rfl, by simp⟩
  · cases hop : ops.write f.inode with
    | none => exact ⟨_, _, _, rfl, by decide⟩
    | some write =>
        rcases hwrite : write buf x.disk with ⟨⟨ret, copied⟩, d⟩
        dsimp only
        rw [hwrite]
        by_cases hret : ret = 0
        · obtain ⟨x', hmodify⟩ := modifyFile_ok (x := x.setDisk d) hfs f.node
            (advancePos (BitVec.ofNat 32 buf.length))
          refine ⟨0, copied, x', ?_, by decide⟩
          simp [hret, hmodify, pure, Except.pure]
        · exact ⟨-FILE_OP_FAILED, 0, x.setDisk d, by simp [hret, pure, Except.pure], by decide⟩

end Rights

/-- The invariant of the rights holds after every run of plain calls. -/
theorem RightsInv.of_run {σ : Type} {ops : INodeOps σ} {lo hi : Nat} {m₀ : Pmm} {x₀ : FsKernel σ}
    {used : List Extent} (hledger : Ledger lo hi m₀ x₀.kernel.machine used) (hnone : ∀ a, x₀.kernel.files a = none)
    {s : Session σ} (hrun : Relation.ReflTransGen (PlainFileStep ops) ⟨x₀, []⟩ s) : RightsInv lo hi m₀ s := by
  induction hrun with
  | refl => exact ⟨⟨used, TablesInv.init hledger hnone⟩, by simp⟩
  | tail _ hstep ih => exact ih.step hstep

/-- In every run in which each `file_open` is a plain one, what `file_open` has returned can be read, and written, as
the access mode says, and a further plain `file_open` changes neither the rights nor the position of any descriptor. -/
theorem file_rights {σ : Type} {ops : INodeOps σ} {lo hi : Nat} {m₀ : Pmm} {x₀ : FsKernel σ} {used : List Extent}
    (hledger : Ledger lo hi m₀ x₀.kernel.machine used) (hnone : ∀ a, x₀.kernel.files a = none)
    {s : Session σ} (hrun : Relation.ReflTransGen (PlainFileStep ops) ⟨x₀, []⟩ s) :
    (∀ g ∈ s.granted,
      (∀ blen, ∃ ret bytes x', fileRead ops s.x g.files g.fd blen = .ok ((ret, bytes), x') ∧
        (ret ≠ -FILE_INVAL ↔ accessMode g.openFlag = OPEN_READ ∨ accessMode g.openFlag = OPEN_RW)) ∧
      (∀ buf, ∃ ret copied x', fileWrite ops s.x g.files g.fd buf = .ok ((ret, copied), x') ∧
        (ret ≠ -FILE_INVAL ↔ accessMode g.openFlag = OPEN_WRITE ∨ accessMode g.openFlag = OPEN_RW))) ∧
    ∀ files openFlag vfsOpen fd x', (∀ y r y', vfsOpen y = .ok (r, y') → Aside y y') →
      PlainOpen s.x files openFlag vfsOpen → fileOpen s.x files openFlag vfsOpen = .ok (fd, x') →
      ∀ a fs, s.x.kernel.files a = some fs → ∀ f ∈ fs.fileList,
        ∃ fs' f', x'.kernel.files a = some fs' ∧ f' ∈ fs'.fileList ∧ inherited f' = inherited f := by
  have h := RightsInv.of_run hledger hnone hrun
  obtain ⟨used', hinv⟩ := h.tables
  refine ⟨?_, ?_⟩
  · intro g hg
    obtain ⟨fs, f, hfs, hf, hfd, hr, hw⟩ := h.granted g hg
    have hfind := findFileWithFd_eq_some (hinv.ok _ fs hfs) hf
    rw [hfd] at hfind
    refine ⟨?_, ?_⟩
    · intro blen
      obtain ⟨ret, bytes, x', hcall, hiff⟩ := fileRead_check ops hfs hfind blen
      refine ⟨ret, bytes, x', hcall, ?_⟩
      rw [hiff, hr, modeReads, decide_eq_true_eq]
    · intro buf
      obtain ⟨ret, copied, x', hcall, hiff⟩ := fileWrite_check ops hfs hfind buf
      refine ⟨ret, copied, x', hcall, ?_⟩
      rw [hiff, hw, modeWrites, decide_eq_true_eq]
  · intro files openFlag vfsOpen fd x' hvfs hplain hcall
    obtain ⟨-, inode, -, hopen, hfrom⟩ := fileOpen_spec hinv hvfs hcall
    exact plainOpen_kept hinv hopen hfrom hplain

/-- A kernel without tables. -/
def noTables : Session Unit := ⟨⟨bootKernel smallImage fortyFrames, ()⟩, []⟩

/-- `vfs_open` of a second file. -/
def openOther (x : FsKernel Unit) : Res ((Int × U32) × FsKernel Unit) :=
  let count := x.kernel.inodes 0xC0030040#32
  .ok ((0, 0xC0030040#32), x.setCount 0xC0030040#32 { count with opened := count.opened + 1 })

theorem openOther_aside (y : FsKernel Unit) (r : Int × U32) (y' : FsKernel Unit) (h : openOther y = .ok (r, y')) :
    Aside y y' := by
  obtain ⟨-, rfl⟩ := Prod.mk.inj (Except.ok.inj h)
  exact ⟨⟨y.kernel.machine, _, rfl⟩, fun _ _ _ used hledger => ⟨used, fun _ hu => hu, hledger⟩⟩

/-- A file is opened for reading and writing, and a second one for reading. -/
theorem file_rights_read_write : ∃ s s' fs, Relation.ReflTransGen (PlainFileStep noOps) noTables s ∧
    s.granted = [⟨0xC0002000#32, 0, OPEN_RW⟩] ∧ s.x.kernel.files 0xC0002000#32 = some fs ∧
    Relation.ReflTransGen (PlainFileStep noOps) noTables s' ∧
    s'.granted = [⟨0xC0002000#32, 1, OPEN_READ⟩, ⟨0xC0002000#32, 0, OPEN_RW⟩] ∧
    (∀ f ∈ fs.fileList, ∃ fs' f', s'.x.kernel.files 0xC0002000#32 = some fs' ∧ f' ∈ fs'.fileList ∧
      inherited f' = inherited f) ∧
    (∀ buf, ∃ ret copied x', fileWrite noOps s'.x 0xC0002000#32 0 buf = .ok ((ret, copied), x') ∧ ret ≠ -FILE_INVAL) ∧
    ∀ buf, ∃ copied x', fileWrite noOps s'.x 0xC0002000#32 1 buf = .ok ((-FILE_INVAL, copied), x') := by
  have heval : (do
      let s₁ ← FileOp.create.exec noOps noTables
      let fs₁ ← s₁.x.kernel.fileStruct 0xC0002000#32
      let s₂ ← (FileOp.fileOpen 0xC0002000#32 OPEN_RW openOne).exec noOps s₁
      let fs₂ ← s₂.x.kernel.fileStruct 0xC0002000#32
      let r ← fileOpen s₂.x 0xC0002000#32 OPEN_READ openOther
      return decide (fs₁.fileList = [] ∧ s₂.granted = [⟨0xC0002000#32, 0, OPEN_RW⟩] ∧
        fs₂.fileList.map File.inode = [0xC0030000#32] ∧ r.1 = 1) : Res _) = .ok true := by
    decide +kernel
  obtain ⟨s₁, hcreate, heval⟩ := Res.bind_eq_ok.mp heval
  obtain ⟨fs₁, hfs₁, heval⟩ := Res.bind_eq_ok.mp heval
  obtain ⟨s₂, hopen₂, heval⟩ := Res.bind_eq_ok.mp heval
  obtain ⟨fs₂, hfs₂, heval⟩ := Res.bind_eq_ok.mp heval
  obtain ⟨⟨fd, x₃⟩, hcall, heval⟩ := Res.bind_eq_ok.mp heval
  obtain ⟨hempty, hgranted, hinodes, rfl⟩ := of_decide_eq_true (Except.ok.inj heval)
  have hplain₁ : PlainOpen s₁.x 0xC0002000#32 OPEN_RW openOne := by
    refine ⟨by decide, ?_⟩
    intro k inode y _ _ gs hgs f hf
    obtain rfl := Option.some.inj ((fileStruct_eq_ok.mp hfs₁).symm.trans hgs)
    rw [hempty] at hf
    cases hf
  have hplain₂ : PlainOpen s₂.x 0xC0002000#32 OPEN_READ openOther := by
    refine ⟨by decide, ?_⟩
    intro k inode y _ hcalled gs hgs f hf hsame
    obtain rfl := Option.some.inj ((fileStruct_eq_ok.mp hfs₂).symm.trans hgs)
    have hinode := List.mem_map_of_mem (f := File.inode) hf
    rw [hinodes, List.mem_singleton, hsame] at hinode
    obtain ⟨hother, -⟩ := Prod.mk.inj (Except.ok.inj hcalled)
    obtain ⟨-, rfl⟩ := Prod.mk.inj hother
    exact absurd hinode (by decide)
  have hrun₂ : Relation.ReflTransGen (PlainFileStep noOps) noTables s₂ :=
    (Relation.ReflTransGen.single ⟨.create, trivial, trivial, hcreate⟩).tail
      ⟨.fileOpen 0xC0002000#32 OPEN_RW openOne, openOne_aside, hplain₁, hopen₂⟩
  have hopen₃ : (FileOp.fileOpen 0xC0002000#32 OPEN_READ openOther).exec noOps s₂ =
      .ok ⟨x₃, ⟨0xC0002000#32, 1, OPEN_READ⟩ :: s₂.granted⟩ := by
    rw [FileOp.exec, hcall, Res.ok_bind]
    rfl
  have hrun₃ := hrun₂.tail ⟨.fileOpen 0xC0002000#32 OPEN_READ openOther, openOther_aside, hplain₂, hopen₃⟩
  obtain ⟨-, hkept⟩ := file_rights fortyFrames_ledger (fun _ => rfl) hrun₂
  obtain ⟨hrights, -⟩ := file_rights fortyFrames_ledger (fun _ => rfl) hrun₃
  obtain ⟨-, hwrite₀⟩ := hrights ⟨0xC0002000#32, 0, OPEN_RW⟩ (by simp [hgranted])
  obtain ⟨-, hwrite₁⟩ := hrights ⟨0xC0002000#32, 1, OPEN_READ⟩ (by simp)
  refine ⟨s₂, _, fs₂, hrun₂, hgranted, fileStruct_eq_ok.mp hfs₂, hrun₃, by rw [hgranted], ?_, ?_, ?_⟩
  · exact hkept _ _ _ 1 x₃ openOther_aside hplain₂ hcall _ fs₂ (fileStruct_eq_ok.mp hfs₂)
  · intro buf
    obtain ⟨ret, copied, x', hcall, hiff⟩ := hwrite₀ buf
    exact ⟨ret, copied, x', hcall, hiff.mpr (by decide)⟩
  · intro buf
    obtain ⟨ret, copied, x', hcall, hiff⟩ := hwrite₁ buf
    have hret : ret = -FILE_INVAL := not_not.mp (mt hiff.mp (by decide))
    exact ⟨copied, x', hret ▸ hcall⟩

/-- A descriptor for reading and writing that was asked for with `OPEN_CREATE` cannot be read, and one that was asked
for without it can no longer be written once the file has been opened again for reading. -/
theorem file_rights_lost :
    (∃ s g, Relation.ReflTransGen (FileStep noOps) noTables s ∧ g ∈ s.granted ∧ accessMode g.openFlag = OPEN_RW ∧
      ∃ x', fileRead noOps s.x g.files g.fd 1 = .ok ((-FILE_INVAL, []), x')) ∧
    ∃ s g, Relation.ReflTransGen (FileStep noOps) noTables s ∧ g ∈ s.granted ∧ accessMode g.openFlag = OPEN_RW ∧
      ∃ x', fileWrite noOps s.x g.files g.fd [1] = .ok ((-FILE_INVAL, 0), x') := by
  have heval : (do
      let s₁ ← FileOp.create.exec noOps noTables
      let s₂ ← (FileOp.fileOpen 0xC0002000#32 (OPEN_RW ||| OPEN_CREATE) openOne).exec noOps s₁
      let (read, _) ← fileRead noOps s₂.x 0xC0002000#32 0 1
      let s₃ ← (FileOp.fileOpen 0xC0002000#32 OPEN_RW openOne).exec noOps s₁
      let s₄ ← (FileOp.fileOpen 0xC0002000#32 OPEN_READ openOne).exec noOps s₃
      let (write, _) ← fileWrite noOps s₄.x 0xC0002000#32 0 [1]
      return decide (⟨0xC0002000#32, 0, OPEN_RW ||| OPEN_CREATE⟩ ∈ s₂.granted ∧ read = (-FILE_INVAL, []) ∧
        ⟨0xC0002000#32, 0, OPEN_RW⟩ ∈ s₄.granted ∧ write = (-FILE_INVAL, 0)) : Res _) = .ok true := by
    decide +kernel
  obtain ⟨s₁, hcreate, heval⟩ := Res.bind_eq_ok.mp heval
  obtain ⟨s₂, hopen₂, heval⟩ := Res.bind_eq_ok.mp heval
  obtain ⟨⟨read, x₂⟩, hread, heval⟩ := Res.bind_eq_ok.mp heval
  obtain ⟨s₃, hopen₃, heval⟩ := Res.bind_eq_ok.mp heval
  obtain ⟨s₄, hopen₄, heval⟩ := Res.bind_eq_ok.mp heval
  obtain ⟨⟨write, x₄⟩, hwrite, heval⟩ := Res.bind_eq_ok.mp heval
  obtain ⟨hgranted₂, rfl, hgranted₄, rfl⟩ := of_decide_eq_true (Except.ok.inj heval)
  have hstart : Relation.ReflTransGen (FileStep noOps) noTables s₁ := .single ⟨.create, trivial, hcreate⟩
  refine ⟨⟨s₂, _, hstart.tail ⟨.fileOpen _ _ openOne, openOne_aside, hopen₂⟩, hgranted₂, by decide, x₂, hread⟩, ?_⟩
  exact ⟨s₄, _, (hstart.tail ⟨.fileOpen _ _ openOne, openOne_aside, hopen₃⟩).tail
    ⟨.fileOpen _ _ openOne, openOne_aside, hopen₄⟩, hgranted₄, by decide, x₄, hwrite⟩

end Fs
end FreakOS
