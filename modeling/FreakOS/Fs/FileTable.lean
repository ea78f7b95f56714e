import FreakOS.Fs.File
import FreakOS.Krnl.TaskIds

/-!
# Descriptor tables

* `TableOk` — the descriptors of a table are distinct and below `file_next_id`.
* `TablesInv` — the invariant of all tables: each is in order, and no `File_t` is in two of them.
* `TableStep` — `files_create`, `file_open`, `file_close`, `files_closeall` and `files_dup`.
* `file_tables` — what follows for lookups, for closing and for inheriting.
-/

namespace FreakOS
namespace Fs

open Lib
open Memory
open Krnl

/-! ### `file_open` -/

/-- The ways through `file_open`. -/
inductive OpenCase {σ : Type} (x : FsKernel σ) (files openFlag : U32)
    (vfsOpen : FsKernel σ → Res ((Int × U32) × FsKernel σ)) : Int → FsKernel σ → Prop
  | noMemory {k : Kernel} (halloc : fileAllocInit x.kernel = .ok (none, k)) :
      OpenCase x files openFlag vfsOpen (-7) (x.setKernel k)
  | failed {newFile : File} {k₁ k₂ : Kernel} {ret : Int} {inode : U32} {y : FsKernel σ}
      (halloc : fileAllocInit x.kernel = .ok (some newFile, k₁))
      (hopen : vfsOpen (x.setKernel k₁) = .ok ((ret, inode), y)) (hret : ret ≠ 0)
      (hrelease : y.kernel.release newFile.node sizeofFile = .ok k₂) :
      OpenCase x files openFlag vfsOpen (-FILE_OP_FAILED) (y.setKernel k₂)
  | again {newFile found : File} {k₁ k₂ : Kernel} {inode : U32} {y : FsKernel σ} {fs : FileStruct}
      (halloc : fileAllocInit x.kernel = .ok (some newFile, k₁))
      (hopen : vfsOpen (x.setKernel k₁) = .ok ((0, inode), y)) (hfs : y.kernel.files files = some fs)
      (hfound : fs.fileList.find? (fun f => decide (f.inode = inode)) = some found)
      (hrelease : y.kernel.release newFile.node sizeofFile = .ok k₂) :
      OpenCase x files openFlag vfsOpen found.fd (y.setKernel (k₂.setFileStruct files { fs with
        fileList := updateEntry fs.fileList found.node (setOpened inode openFlag) }))
  | new {newFile : File} {k₁ : Kernel} {inode : U32} {y : FsKernel σ} {fs : FileStruct}
      (halloc : fileAllocInit x.kernel = .ok (some newFile, k₁))
      (hopen : vfsOpen (x.setKernel k₁) = .ok ((0, inode), y)) (hfs : y.kernel.files files = some fs)
      (hnone : fs.fileList.find? (fun f => decide (f.inode = inode)) = none) (hlast : fs.fileNextId ≠ INT32_MAX) :
      OpenCase x files openFlag vfsOpen fs.fileNextId (y.setKernel (y.kernel.setFileStruct files { fs with
        fileList := { setOpened inode openFlag newFile with
          openCount := newFile.openCount + 1, fd := fs.fileNextId } :: fs.fileList
        fileNextId := fs.fileNextId + 1 }))

theorem fileStruct_eq_ok {k : Kernel} {a : U32} {fs : FileStruct} :
    k.fileStruct a = .ok fs ↔ k.files a = some fs := by
  unfold Kernel.fileStruct
  cases k.files a <;> simp

theorem fileOpen_cases {σ : Type} {x x' : FsKernel σ} {files openFlag : U32}
    {vfsOpen : FsKernel σ → Res ((Int × U32) × FsKernel σ)} {fd : Int}
    (hcall : fileOpen x files openFlag vfsOpen = .ok (fd, x')) : OpenCase x files openFlag vfsOpen fd x' := by
  unfold fileOpen at hcall
  obtain ⟨⟨newFile, k₁⟩, halloc, hcall⟩ := Res.bind_eq_ok.mp hcall
  cases newFile with
  | none =>
      obtain ⟨rfl, rfl⟩ := Prod.mk.inj (Except.ok.inj hcall)
      exact .noMemory halloc
  | some newFile =>
      obtain ⟨⟨⟨ret, inode⟩, y⟩, hopen, hcall⟩ := Res.bind_eq_ok.mp hcall
      dsimp only at hcall
      split at hcall
      · rename_i hret
        obtain ⟨k₂, hrelease, hcall⟩ := Res.bind_eq_ok.mp hcall
        obtain ⟨rfl, rfl⟩ := Prod.mk.inj (Except.ok.inj hcall)
        exact .failed halloc hopen hret hrelease
      · rename_i hret
        obtain rfl : ret = 0 := not_not.mp hret
        obtain ⟨fs, hfs, hcall⟩ := Res.bind_eq_ok.mp hcall
        rw [fileStruct_eq_ok] at hfs
        split at hcall
        · rename_i found hfound
          obtain ⟨k₂, hrelease, hcall⟩ := Res.bind_eq_ok.mp hcall
          obtain ⟨rfl, rfl⟩ := Prod.mk.inj (Except.ok.inj hcall)
          exact .again halloc hopen hfs hfound hrelease
        · rename_i hnone
          split at hcall
          · cases hcall
          · rename_i hlast
            obtain ⟨rfl, rfl⟩ := Prod.mk.inj (Except.ok.inj hcall)
            exact .new halloc hopen hfs hnone hlast

/-! ### Blocks of one page -/

/-- The block of a structure that fits in a page. -/
def pageBlock (addr : U32) : Extent := ⟨pageOf addr, pageOf addr + 1⟩

theorem blockOf_sizeofFile (addr : U32) : blockOf addr sizeofFile = pageBlock addr := rfl

theorem blockOf_sizeofFileStruct (addr : U32) : blockOf addr sizeofFileStruct = pageBlock addr := rfl

theorem pageBlock_inj {a b : U32} (ha : page2kva (pageOf a) = a) (hb : page2kva (pageOf b) = b)
    (h : pageBlock a = pageBlock b) : a = b := by
  rw [← ha, ← hb, show pageOf a = pageOf b from (Extent.mk.inj h).1]

/-- The address that `files_closeall` frees is in the page of the `File_t`. -/
theorem pageBlock_lp2vmaOfFile {file : File} (hpage : page2kva (pageOf file.node) = file.node) :
    blockOf (lp2vmaOfFile file) sizeofVirtMemArea = pageBlock file.node := by
  have hp : pageOf file.node < 2 ^ 20 := by
    have := (file.node - KERNEL_BASE).isLt
    simp only [pageOf, BitVec.toNat_ushiftRight, Nat.shiftRight_eq_div_pow]
    omega
  have hoff : pageOf (lp2vmaOfFile file) = pageOf file.node := by
    generalize hq : pageOf file.node = q at hpage hp
    have hq' : page2pa q = BitVec.ofNat 32 (q * 4096) := by
      apply BitVec.eq_of_toNat_eq
      simp only [page2pa, BitVec.toNat_shiftLeft, BitVec.toNat_ofNat, Nat.shiftLeft_eq]
      omega
    have haddr : lp2vmaOfFile file - KERNEL_BASE = BitVec.ofNat 32 (q * 4096 + 12) := by
      unfold lp2vmaOfFile
      rw [← hpage, page2kva, hq', BitVec.ofNat_add]
      bv_omega
    unfold pageOf
    rw [haddr]
    simp only [BitVec.toNat_ushiftRight, BitVec.toNat_ofNat, Nat.shiftRight_eq_div_pow]
    omega
  unfold blockOf pageBlock
  rw [hoff]
  rfl

/-! ### The invariant -/

/-- The descriptors of a table. -/
structure TableOk (fs : FileStruct) : Prop where
  fds : (fs.fileList.map File.fd).Nodup
  below : ∀ f ∈ fs.fileList, f.fd < fs.fileNextId

/-- The invariant of all tables.  `used` are the blocks of `kmalloc` that are held. -/
structure TablesInv (lo hi : Nat) (m₀ : Pmm) (k : Kernel) (used : List Extent) : Prop where
  ledger : Ledger lo hi m₀ k.machine used
  ok : ∀ a fs, k.files a = some fs → TableOk fs
  table : ∀ a fs, k.files a = some fs → page2kva (pageOf a) = a ∧ pageBlock a ∈ used
  entry : ∀ a fs, k.files a = some fs → ∀ f ∈ fs.fileList,
    page2kva (pageOf f.node) = f.node ∧ pageBlock f.node ∈ used
  /-- A `File_t` is in one place of one table. -/
  own : ∀ a b fs gs, k.files a = some fs → k.files b = some gs → ∀ f ∈ fs.fileList, ∀ g ∈ gs.fileList,
    f.node = g.node → a = b ∧ f = g
  apart : ∀ a b fs gs, k.files a = some fs → k.files b = some gs → ∀ f ∈ fs.fileList, f.node ≠ b

theorem findFileWithFd_eq_some {fs : FileStruct} (h : TableOk fs) {f : File} (hf : f ∈ fs.fileList) :
    findFileWithFd fs f.fd = some f := by
  unfold findFileWithFd
  cases hfind : fs.fileList.find? fun g => decide (f.fd = g.fd) with
  | none =>
      rw [List.find?_eq_none] at hfind
      simpa using hfind f hf
  | some g =>
      have hg := List.mem_of_find?_eq_some hfind
      have hfd : f.fd = g.fd := by simpa using List.find?_some hfind
      rw [List.inj_on_of_nodup_map h.fds hf hg hfd]

theorem mem_of_findFileWithFd {fs : FileStruct} {fd : Int} {f : File} (h : findFileWithFd fs fd = some f) :
    f ∈ fs.fileList ∧ f.fd = fd := by
  refine ⟨List.mem_of_find?_eq_some h, ?_⟩
  have : fd = f.fd := by simpa using List.find?_some h
  exact this.symm

namespace TablesInv

variable {lo hi : Nat} {m₀ : Pmm} {k k' : Kernel} {used used' : List Extent}

/-- Only the memory has changed. -/
theorem grow (h : TablesInv lo hi m₀ k used) (hfiles : k'.files = k.files)
    (hledger : Ledger lo hi m₀ k'.machine used') (hsub : ∀ u ∈ used, u ∈ used') : TablesInv lo hi m₀ k' used' := by
  refine ⟨hledger, ?_, ?_, ?_, ?_, ?_⟩
  · rw [hfiles]
    exact h.ok
  · intro a fs hfs
    obtain ⟨h1, h2⟩ := h.table a fs (hfiles ▸ hfs)
    exact ⟨h1, hsub _ h2⟩
  · intro a fs hfs f hf
    obtain ⟨h1, h2⟩ := h.entry a fs (hfiles ▸ hfs) f hf
    exact ⟨h1, hsub _ h2⟩
  · rw [hfiles]
    exact h.own
  · rw [hfiles]
    exact h.apart

/-- One table is overwritten.  Its entries are old ones, with the same address, or fresh. -/
theorem put (h : TablesInv lo hi m₀ k used) {a : U32} {fs' : FileStruct}
    (hfiles : k'.files = Function.update k.files a (some fs')) (hok : TableOk fs')
    (hledger : Ledger lo hi m₀ k'.machine used') (hsub : ∀ b gs, k.files b = some gs → b ≠ a →
      pageBlock b ∈ used' ∧ ∀ g ∈ gs.fileList, pageBlock g.node ∈ used')
    (hself : page2kva (pageOf a) = a ∧ pageBlock a ∈ used')
    (hnodes : ∀ f ∈ fs'.fileList, page2kva (pageOf f.node) = f.node ∧ pageBlock f.node ∈ used')
    (hinj : ∀ f ∈ fs'.fileList, ∀ g ∈ fs'.fileList, f.node = g.node → f = g)
    (hne : ∀ f ∈ fs'.fileList, f.node ≠ a)
    (hapart : ∀ b gs, k.files b = some gs → b ≠ a → (∀ g ∈ gs.fileList, g.node ≠ a) ∧
      ∀ f ∈ fs'.fileList, f.node ≠ b ∧ ∀ g ∈ gs.fileList, f.node ≠ g.node) :
    TablesInv lo hi m₀ k' used' := by
  have hread : ∀ b gs, k'.files b = some gs → (b = a ∧ gs = fs') ∨ (b ≠ a ∧ k.files b = some gs) := by
    intro b gs hgs
    rw [hfiles] at hgs
    by_cases hb : b = a
    · subst hb
      rw [Function.update_self] at hgs
      exact Or.inl ⟨rfl, (Option.some.inj hgs).symm⟩
    · rw [Function.update_of_ne hb] at hgs
      exact Or.inr ⟨hb, hgs⟩
  refine ⟨hledger, ?_, ?_, ?_, ?_, ?_⟩
  · intro b gs hgs
    rcases hread b gs hgs with ⟨rfl, rfl⟩ | ⟨-, hgs⟩
    · exact hok
    · exact h.ok b gs hgs
  · intro b gs hgs
    rcases hread b gs hgs with ⟨rfl, rfl⟩ | ⟨hb, hgs⟩
    · exact hself
    · exact ⟨(h.table b gs hgs).1, (hsub b gs hgs hb).1⟩
  · intro b gs hgs g hg
    rcases hread b gs hgs with ⟨rfl, rfl⟩ | ⟨hb, hgs⟩
    · exact hnodes g hg
    · exact ⟨(h.entry b gs hgs g hg).1, (hsub b gs hgs hb).2 g hg⟩
  · intro b c fs gs hfs hgs f hf g hg hnode
    rcases hread b fs hfs with ⟨rfl, rfl⟩ | ⟨hb, hfs⟩
    · rcases hread c gs hgs with ⟨rfl, rfl⟩ | ⟨hc, hgs⟩
      · exact ⟨rfl, hinj f hf g hg hnode⟩
      · exact absurd hnode (((hapart c gs hgs hc).2 f hf).2 g hg)
    · rcases hread c gs hgs with ⟨rfl, rfl⟩ | ⟨hc, hgs⟩
      · exact absurd hnode.symm (((hapart b fs hfs hb).2 g hg).2 f hf)
      · exact h.own b c fs gs hfs hgs f hf g hg hnode
  · intro b c fs gs hfs hgs f hf
    rcases hread b fs hfs with ⟨rfl, rfl⟩ | ⟨hb, hfs⟩
    · rcases hread c gs hgs with ⟨rfl, rfl⟩ | ⟨hc, hgs⟩
      · exact hne f hf
      · exact ((hapart c gs hgs hc).2 f hf).1
    · rcases hread c gs hgs with ⟨rfl, rfl⟩ | ⟨hc, hgs⟩
      · exact (hapart b fs hfs hb).1 f hf
      · exact h.apart b c fs gs hfs hgs f hf

/-- An address that `kmalloc` gives is neither that of a table nor that of an entry. -/
theorem fresh (h : TablesInv lo hi m₀ k used) {addr : U32}
    (hfresh : pageBlock addr ∉ used) :
    k.files addr = none ∧ ∀ b gs, k.files b = some gs → b ≠ addr ∧ ∀ g ∈ gs.fileList, g.node ≠ addr := by
  refine ⟨?_, ?_⟩
  · cases hfs : k.files addr with
    | none => rfl
    | some fs => exact absurd (h.table addr fs hfs).2 hfresh
  · intro b gs hgs
    refine ⟨?_, ?_⟩
    · rintro rfl
      exact hfresh (h.table b gs hgs).2
    · rintro g hg rfl
      exact hfresh (h.entry b gs hgs g hg).2

end TablesInv

/-! ### Steps -/

/-- What `vfs_open` may do: it leaves the tables and the blocks that others hold alone. -/
structure Aside {σ : Type} (x x' : FsKernel σ) : Prop where
  frame : ∃ s i, x'.kernel = { x.kernel with machine := s, inodes := i }
  ledger : ∀ lo hi m₀ used, Ledger lo hi m₀ x.kernel.machine used →
    ∃ used', (∀ u ∈ used, u ∈ used') ∧ Ledger lo hi m₀ x'.kernel.machine used'

theorem Aside.files {σ : Type} {x x' : FsKernel σ} (h : Aside x x') : x'.kernel.files = x.kernel.files := by
  obtain ⟨s, i, heq⟩ := h.frame
  rw [heq]

/-- One operation on the tables, with the number of `file_open`s. -/
inductive TableStep {σ : Type} (ops : INodeOps σ) : FsKernel σ → Nat → FsKernel σ → Prop
  | create {x : FsKernel σ} {a : U32} {k' : Kernel} (hcall : filesCreate x.kernel = .ok (a, k')) :
      TableStep ops x 0 (x.setKernel k')
  | fileOpen {x x' : FsKernel σ} {files openFlag : U32} {fd : Int}
      {vfsOpen : FsKernel σ → Res ((Int × U32) × FsKernel σ)}
      (hvfs : ∀ y r y', vfsOpen y = .ok (r, y') → Aside y y')
      (hcall : fileOpen x files openFlag vfsOpen = .ok (fd, x')) : TableStep ops x 1 x'
  | fileClose {x x' : FsKernel σ} {files : U32} {fd ret : Int}
      (hcall : fileClose ops x files fd = .ok (ret, x')) : TableStep ops x 0 x'
  | filesCloseall {x x' : FsKernel σ} {files : U32} (hcall : filesCloseall ops x files = .ok x') :
      TableStep ops x 0 x'
  | filesDup {x : FsKernel σ} {toFiles fromFiles : U32} {tf : FileStruct} {k' : Kernel} {ret : Int}
      (hto : x.kernel.files toFiles = some tf) (hempty : tf.fileList = [])
      (hcall : filesDup x.kernel toFiles fromFiles = .ok (ret, k')) : TableStep ops x 0 (x.setKernel k')

/-- A run of operations, with the number of `file_open`s. -/
inductive TableRun {σ : Type} (ops : INodeOps σ) (x₀ : FsKernel σ) : Nat → FsKernel σ → Prop
  | refl : TableRun ops x₀ 0 x₀
  | step {x x' : FsKernel σ} {n m : Nat} (hrun : TableRun ops x₀ n x) (hstep : TableStep ops x m x') :
      TableRun ops x₀ (n + m) x'

/-- No table has given out more descriptors than that. -/
def OpensLe (k : Kernel) (n : Nat) : Prop := ∀ a fs, k.files a = some fs → fs.fileNextId ≤ n

/-- One table is overwritten. -/
theorem OpensLe.put {k k' : Kernel} {n m : Nat} (h : OpensLe k n) {a : U32} {fs : FileStruct}
    (hfiles : k'.files = Function.update k.files a (some fs)) (hfs : fs.fileNextId ≤ (n + m : Nat)) :
    OpensLe k' (n + m) := by
  intro b gs hgs
  rw [hfiles] at hgs
  by_cases hb : b = a
  · subst hb
    rw [Function.update_self] at hgs
    exact Option.some.inj hgs ▸ hfs
  · rw [Function.update_of_ne hb] at hgs
    have := h b gs hgs
    omega

section Steps

variable {lo hi : Nat} {m₀ : Pmm} {k k' : Kernel} {used : List Extent}

theorem filesCreate_null (hcall : filesCreate k = .ok (NULL, k')) : k'.files = k.files := by
  unfold filesCreate at hcall
  obtain ⟨⟨addr, k₁⟩, halloc, hcall⟩ := Res.bind_eq_ok.mp hcall
  obtain ⟨s', -, rfl⟩ := alloc_eq_ok halloc
  dsimp only at hcall
  split at hcall
  · obtain ⟨-, rfl⟩ := Prod.mk.inj (Except.ok.inj hcall)
    rfl
  · rename_i hne
    exact absurd (Prod.mk.inj (Except.ok.inj hcall)).1 hne

/-- A new table is empty, and at an address of its own. -/
theorem filesCreate_spec (h : TablesInv lo hi m₀ k used) {a : U32} (hcall : filesCreate k = .ok (a, k')) :
    (∃ used', (∀ u ∈ used, u ∈ used') ∧ TablesInv lo hi m₀ k' used') ∧
      (a ≠ NULL → k.files a = none ∧
        k'.files = Function.update k.files a (some ⟨NULL, [], 0, 0⟩) ∧ k'.inodes = k.inodes) := by
  unfold filesCreate at hcall
  obtain ⟨⟨addr, k₁⟩, halloc, hcall⟩ := Res.bind_eq_ok.mp hcall
  obtain ⟨s', hkmalloc, rfl⟩ := alloc_eq_ok halloc
  obtain ⟨hpage, hfresh, hledger⟩ := h.ledger.kmalloc hkmalloc
  rw [blockOf_sizeofFileStruct] at hfresh hledger
  obtain ⟨hnone, hothers⟩ := h.fresh hfresh
  have hsub : ∀ u ∈ used, u ∈ pageBlock addr :: used := fun u hu => List.mem_cons_of_mem _ hu
  dsimp only at hcall
  split at hcall
  · rename_i hnull
    obtain ⟨rfl, rfl⟩ := Prod.mk.inj (Except.ok.inj hcall)
    exact ⟨⟨_, hsub, h.grow rfl hledger hsub⟩, fun hne => absurd rfl hne⟩
  · obtain ⟨rfl, rfl⟩ := Prod.mk.inj (Except.ok.inj hcall)
    refine ⟨⟨_, hsub, ?_⟩, fun _ => ⟨hnone, rfl, rfl⟩⟩
    refine h.put (a := addr) rfl ⟨List.nodup_nil, by simp⟩ hledger ?_
      ⟨hpage, List.mem_cons_self ..⟩ (by simp) (by simp) (by simp) ?_
    · intro b gs hgs _
      exact ⟨hsub _ (h.table b gs hgs).2, fun g hg => hsub _ (h.entry b gs hgs g hg).2⟩
    · intro b gs hgs _
      exact ⟨(hothers b gs hgs).2, by simp⟩

/-- Fields other than the descriptor and the address may be written freely. -/
theorem TableOk.updateEntry {fs : FileStruct} (h : TableOk fs) (node : U32) {g : File → File}
    (hg : ∀ f, (g f).fd = f.fd) : TableOk { fs with fileList := updateEntry fs.fileList node g } := by
  have hfds : (Fs.updateEntry fs.fileList node g).map File.fd = fs.fileList.map File.fd := by
    unfold Fs.updateEntry
    rw [List.map_map]
    refine List.map_congr_left fun f _ => ?_
    show (if f.node = node then g f else f).fd = f.fd
    split
    · exact hg f
    · rfl
  refine ⟨?_, ?_⟩
  · show ((Fs.updateEntry fs.fileList node g).map File.fd).Nodup
    rw [hfds]
    exact h.fds
  · intro f hf
    obtain ⟨f₀, hf₀, rfl⟩ := List.mem_map.mp hf
    dsimp only
    split
    · rw [hg]
      exact h.below f₀ hf₀
    · exact h.below f₀ hf₀

/-- An entry of a table that was written to. -/
theorem mem_updateEntry {list : List File} {node : U32} {g : File → File} (hg : ∀ f, (g f).node = f.node) {f : File}
    (hf : f ∈ updateEntry list node g) :
    ∃ f₀ ∈ list, f = (if f₀.node = node then g f₀ else f₀) ∧ f.node = f₀.node := by
  obtain ⟨f₀, hf₀, rfl⟩ := List.mem_map.mp hf
  refine ⟨f₀, hf₀, rfl, ?_⟩
  split
  · exact hg f₀
  · rfl

/-- An entry of a table is written to. -/
theorem TablesInv.updateEntry (h : TablesInv lo hi m₀ k used) {a : U32} {fs : FileStruct} (hfs : k.files a = some fs)
    (node : U32) (g : File → File) (hfd : ∀ f, (g f).fd = f.fd) (hnode : ∀ f, (g f).node = f.node)
    (hfiles : k'.files =
      Function.update k.files a (some { fs with fileList := Fs.updateEntry fs.fileList node g }))
    (hledger : Ledger lo hi m₀ k'.machine used) : TablesInv lo hi m₀ k' used := by
  refine h.put hfiles ((h.ok a fs hfs).updateEntry node hfd) hledger ?_ (h.table a fs hfs) ?_ ?_ ?_ ?_
  · intro b gs hgs _
    exact ⟨(h.table b gs hgs).2, fun g hg => (h.entry b gs hgs g hg).2⟩
  · intro f hf
    obtain ⟨f₀, hf₀, -, hnode₀⟩ := mem_updateEntry hnode hf
    rw [hnode₀]
    exact h.entry a fs hfs f₀ hf₀
  · intro f hf f' hf' heq
    obtain ⟨f₀, hf₀, rfl, hnode₀⟩ := mem_updateEntry hnode hf
    obtain ⟨f₁, hf₁, rfl, hnode₁⟩ := mem_updateEntry hnode hf'
    rw [hnode₀, hnode₁] at heq
    rw [(h.own a a fs fs hfs hfs f₀ hf₀ f₁ hf₁ heq).2]
  · intro f hf
    obtain ⟨f₀, hf₀, -, hnode₀⟩ := mem_updateEntry hnode hf
    rw [hnode₀]
    exact h.apart a a fs fs hfs hfs f₀ hf₀
  · intro b gs hgs hb
    refine ⟨h.apart b a gs fs hgs hfs, ?_⟩
    intro f hf
    obtain ⟨f₀, hf₀, -, hnode₀⟩ := mem_updateEntry hnode hf
    rw [hnode₀]
    refine ⟨h.apart a b fs gs hfs hgs f₀ hf₀, ?_⟩
    intro g' hg' heq
    exact hb (h.own a b fs gs hfs hgs f₀ hf₀ g' hg' heq).1.symm

theorem release_eq_ok {addr bytes : U32} (hcall : k.release addr bytes = .ok k') :
    ∃ s', kfree k.machine addr bytes = .ok s' ∧ k' = { k with machine := s' } := by
  unfold Kernel.release at hcall
  obtain ⟨s', hkfree, hcall⟩ := Res.bind_eq_ok.mp hcall
  exact ⟨s', hkfree, (Except.ok.inj hcall).symm⟩

/-- `file_alloc_init` takes a page that was not held. -/
theorem fileAllocInit_spec (hledger : Ledger lo hi m₀ k.machine used) {file : File}
    (hcall : fileAllocInit k = .ok (some file, k')) :
    ∃ s', k' = { k with machine := s' } ∧ file = ⟨file.node, .init, false, false, 0, 0, NULL, 0⟩ ∧
      page2kva (pageOf file.node) = file.node ∧ pageBlock file.node ∉ used ∧
      Ledger lo hi m₀ s' (pageBlock file.node :: used) := by
  unfold fileAllocInit at hcall
  obtain ⟨⟨addr, k₁⟩, halloc, hcall⟩ := Res.bind_eq_ok.mp hcall
  obtain ⟨s', hkmalloc, rfl⟩ := alloc_eq_ok halloc
  obtain ⟨hpage, hfresh, hledger'⟩ := hledger.kmalloc hkmalloc
  dsimp only at hcall
  split at hcall
  · simp [pure, Except.pure] at hcall
  · obtain ⟨hfile, rfl⟩ := Prod.mk.inj (Except.ok.inj hcall)
    obtain rfl := Option.some.inj hfile
    exact ⟨s', rfl, rfl, hpage, hfresh, hledger'⟩

/-- An entry joins a table. -/
theorem TablesInv.addEntry (h : TablesInv lo hi m₀ k used) {a : U32} {fs : FileStruct} (hfs : k.files a = some fs)
    (file : File) (hpage : page2kva (pageOf file.node) = file.node) (hfresh : pageBlock file.node ∉ used)
    {used' : List Extent} (hnew : pageBlock file.node ∈ used') (hsub : ∀ u ∈ used, u ∈ used')
    {fs' : FileStruct} (hlist : fs'.fileList = file :: fs.fileList) (hok : TableOk fs')
    (hfiles : k'.files = Function.update k.files a (some fs')) (hledger : Ledger lo hi m₀ k'.machine used') :
    TablesInv lo hi m₀ k' used' := by
  obtain ⟨-, hothers⟩ := h.fresh hfresh
  have hmem : ∀ f ∈ fs'.fileList, f = file ∨ f ∈ fs.fileList := by
    intro f hf
    rw [hlist] at hf
    exact List.mem_cons.mp hf
  refine h.put hfiles hok hledger ?_ ?_ ?_ ?_ ?_ ?_
  · intro b gs hgs _
    exact ⟨hsub _ (h.table b gs hgs).2, fun g hg => hsub _ (h.entry b gs hgs g hg).2⟩
  · exact ⟨(h.table a fs hfs).1, hsub _ (h.table a fs hfs).2⟩
  · intro f hf
    rcases hmem f hf with rfl | hf
    · exact ⟨hpage, hnew⟩
    · exact ⟨(h.entry a fs hfs f hf).1, hsub _ (h.entry a fs hfs f hf).2⟩
  · intro f hf g hg heq
    rcases hmem f hf with rfl | hf
    · rcases hmem g hg with rfl | hg
      · rfl
      · exact absurd heq.symm ((hothers a fs hfs).2 g hg)
    · rcases hmem g hg with rfl | hg
      · exact absurd heq ((hothers a fs hfs).2 f hf)
      · exact (h.own a a fs fs hfs hfs f hf g hg heq).2
  · intro f hf
    rcases hmem f hf with rfl | hf
    · exact (hothers a fs hfs).1.symm
    · exact h.apart a a fs fs hfs hfs f hf
  · intro b gs hgs hb
    refine ⟨h.apart b a gs fs hgs hfs, ?_⟩
    intro f hf
    rcases hmem f hf with rfl | hf
    · exact ⟨(hothers b gs hgs).1.symm, fun g hg => ((hothers b gs hgs).2 g hg).symm⟩
    · refine ⟨h.apart a b fs gs hfs hgs f hf, ?_⟩
      intro g hg heq
      exact hb (h.own a b fs gs hfs hgs f hf g hg heq).1.symm

/-- An entry with the next descriptor joins a table. -/
theorem TableOk.add {fs : FileStruct} (h : TableOk fs) {file : File} (hfd : file.fd = fs.fileNextId) :
    TableOk { fs with fileList := file :: fs.fileList, fileNextId := fs.fileNextId + 1 } := by
  refine ⟨?_, ?_⟩
  · show ((file :: fs.fileList).map File.fd).Nodup
    rw [List.map_cons, List.nodup_cons]
    refine ⟨?_, h.fds⟩
    intro hmem
    obtain ⟨f, hf, hff⟩ := List.mem_map.mp hmem
    have := h.below f hf
    omega
  · intro f hf
    show f.fd < fs.fileNextId + 1
    rcases List.mem_cons.mp hf with rfl | hf
    · omega
    · have := h.below f hf
      omega

/-- How `file_open` ends, on the tables: they are as they were, an entry of the inode is written over, or there is a
new entry. -/
inductive Opened (k : Kernel) (files openFlag inode : U32) : Int → Kernel → Prop
  | failed {fd : Int} {k' : Kernel} (hfd : fd < 0) (hfiles : k'.files = k.files) : Opened k files openFlag inode fd k'
  | again {k' : Kernel} {fs : FileStruct} {found : File} (hfs : k.files files = some fs)
      (hfound : fs.fileList.find? (fun f => decide (f.inode = inode)) = some found)
      (hfiles : k'.files = Function.update k.files files (some { fs with
        fileList := updateEntry fs.fileList found.node (setOpened inode openFlag) })) :
      Opened k files openFlag inode found.fd k'
  | new {k' : Kernel} {fs : FileStruct} {file : File} (hfs : k.files files = some fs)
      (hnone : fs.fileList.find? (fun f => decide (f.inode = inode)) = none)
      (hfd : file.fd = fs.fileNextId) (hset : setOpened inode openFlag file = file)
      (hfresh : ∀ b gs, k.files b = some gs → ∀ g ∈ gs.fileList, g.node ≠ file.node)
      (hfiles : k'.files = Function.update k.files files (some { fs with
        fileList := file :: fs.fileList, fileNextId := fs.fileNextId + 1 })) :
      Opened k files openFlag inode file.fd k'

theorem fileAllocInit_machine {file : Option File} (hcall : fileAllocInit k = .ok (file, k')) :
    ∃ s', k' = { k with machine := s' } := by
  unfold fileAllocInit at hcall
  obtain ⟨⟨addr, k₁⟩, halloc, hcall⟩ := Res.bind_eq_ok.mp hcall
  obtain ⟨s', -, rfl⟩ := alloc_eq_ok halloc
  dsimp only at hcall
  split at hcall
  all_goals
    obtain ⟨-, rfl⟩ := Prod.mk.inj (Except.ok.inj hcall)
    exact ⟨s', rfl⟩

theorem fileAllocInit_files {file : Option File} (hcall : fileAllocInit k = .ok (file, k')) : k'.files = k.files := by
  obtain ⟨s', rfl⟩ := fileAllocInit_machine hcall
  rfl

/-- After `file_alloc_init` and `vfs_open` the page of the new `File_t` is held, and nothing else has changed for the
tables. -/
theorem TablesInv.opening {σ : Type} {x y : FsKernel σ} (h : TablesInv lo hi m₀ x.kernel used)
    {vfsOpen : FsKernel σ → Res ((Int × U32) × FsKernel σ)}
    (hvfs : ∀ y r y', vfsOpen y = .ok (r, y') → Aside y y') {newFile : File} {k₁ : Kernel} {r : Int × U32}
    (halloc : fileAllocInit x.kernel = .ok (some newFile, k₁)) (hopen : vfsOpen (x.setKernel k₁) = .ok (r, y)) :
    y.kernel.files = x.kernel.files ∧ page2kva (pageOf newFile.node) = newFile.node ∧
      pageBlock newFile.node ∉ used ∧ ∃ used₁, pageBlock newFile.node ∈ used₁ ∧ (∀ u ∈ used, u ∈ used₁) ∧
        Ledger lo hi m₀ y.kernel.machine used₁ := by
  obtain ⟨s', rfl, -, hpage, hfresh, hledger⟩ := fileAllocInit_spec h.ledger halloc
  have haside := hvfs _ _ _ hopen
  obtain ⟨used₁, hsub, hledger₁⟩ := haside.ledger lo hi m₀ _ hledger
  refine ⟨haside.files, hpage, hfresh, used₁, hsub _ (List.mem_cons_self ..), ?_, hledger₁⟩
  intro u hu
  exact hsub u (List.mem_cons_of_mem _ hu)

/-- The page of the new `File_t` is given back. -/
theorem TablesInv.back {σ : Type} {x y : FsKernel σ} (h : TablesInv lo hi m₀ x.kernel used)
    {vfsOpen : FsKernel σ → Res ((Int × U32) × FsKernel σ)}
    (hvfs : ∀ y r y', vfsOpen y = .ok (r, y') → Aside y y') {newFile : File} {k₁ k₂ : Kernel} {r : Int × U32}
    (halloc : fileAllocInit x.kernel = .ok (some newFile, k₁)) (hopen : vfsOpen (x.setKernel k₁) = .ok (r, y))
    (hrelease : y.kernel.release newFile.node sizeofFile = .ok k₂) :
    ∃ used', TablesInv lo hi m₀ k₂ used' ∧ k₂.files = x.kernel.files ∧ y.kernel.files = x.kernel.files := by
  obtain ⟨hfiles, -, hfresh, used₁, hblock, hsub, hledger⟩ := h.opening hvfs halloc hopen
  obtain ⟨s₂, hkfree, rfl⟩ := release_eq_ok hrelease
  have hledger₂ := hledger.kfree (show blockOf newFile.node sizeofFile ∈ used₁ from hblock) hkfree
  refine ⟨_, h.grow hfiles hledger₂ ?_, hfiles, hfiles⟩
  intro u hu
  rw [blockOf_sizeofFile, List.mem_erase_of_ne]
  · exact hsub u hu
  · rintro rfl
    exact hfresh hu

/-- `file_open` has called `vfs_open`; if it went on to the table, `vfs_open` gave it the inode. -/
def Called {σ : Type} (x x' : FsKernel σ) (vfsOpen : FsKernel σ → Res ((Int × U32) × FsKernel σ)) (inode : U32)
    (fd : Int) : Prop :=
  ∃ k₁ r y', k₁.files = x.kernel.files ∧ vfsOpen (x.setKernel k₁) = .ok (r, y') ∧ x'.disk = y'.disk ∧
    ((fd < 0 ∧ x'.kernel.files = x.kernel.files) ∨ r = (0, inode))

/-- `file_open` keeps the invariant of the tables. -/
theorem fileOpen_spec {σ : Type} {x x' : FsKernel σ} (h : TablesInv lo hi m₀ x.kernel used) {files openFlag : U32}
    {vfsOpen : FsKernel σ → Res ((Int × U32) × FsKernel σ)}
    (hvfs : ∀ y r y', vfsOpen y = .ok (r, y') → Aside y y') {fd : Int}
    (hcall : fileOpen x files openFlag vfsOpen = .ok (fd, x')) :
    ∃ used' inode, TablesInv lo hi m₀ x'.kernel used' ∧ Opened x.kernel files openFlag inode fd x'.kernel ∧
      ((fd < 0 ∧ x'.disk = x.disk ∧ x'.kernel.files = x.kernel.files) ∨ Called x x' vfsOpen inode fd) := by
  cases fileOpen_cases hcall with
  | noMemory halloc =>
      obtain ⟨s', rfl⟩ := fileAllocInit_machine halloc
      obtain ⟨used', hsub, hledger⟩ := (Grown.fileAllocInit halloc).ledger lo hi m₀ used h.ledger
      exact ⟨used', NULL, h.grow rfl hledger hsub, .failed (by decide) rfl, Or.inl ⟨by decide, rfl, rfl⟩⟩
  | failed halloc hopen _ hrelease =>
      obtain ⟨used', hinv, hfiles, -⟩ := h.back hvfs halloc hopen hrelease
      have hfiles₁ := fileAllocInit_files halloc
      exact ⟨used', NULL, hinv, .failed (by decide) hfiles,
        Or.inr ⟨_, _, _, hfiles₁, hopen, rfl, Or.inl ⟨by decide, hfiles⟩⟩⟩
  | @again newFile found k₁ k₂ inode y fs halloc hopen hfs hfound hrelease =>
      obtain ⟨used', hinv, hfiles, hfiles'⟩ := h.back hvfs halloc hopen hrelease
      rw [hfiles'] at hfs
      have hfs₂ : k₂.files files = some fs := by
        rw [hfiles]
        exact hfs
      refine ⟨used', inode, ?_, .again hfs hfound ?_,
        Or.inr ⟨_, _, _, fileAllocInit_files halloc, hopen, rfl, Or.inr rfl⟩⟩
      · change TablesInv lo hi m₀ (k₂.setFileStruct files { fs with
          fileList := updateEntry fs.fileList found.node (setOpened inode openFlag) }) used'
        exact hinv.updateEntry hfs₂ found.node (setOpened inode openFlag) (fun _ => rfl) (fun _ => rfl) rfl hinv.ledger
      · rw [← hfiles]
        rfl
  | @new newFile k₁ inode y fs halloc hopen hfs hnone hlast =>
      obtain ⟨hfiles, hpage, hfresh, used₁, hblock, hsub, hledger⟩ := h.opening hvfs halloc hopen
      rw [hfiles] at hfs
      have hothers := (h.fresh hfresh).2
      have hupdate : ∀ fs', (y.kernel.setFileStruct files fs').files =
          Function.update x.kernel.files files (some fs') := by
        intro fs'
        rw [← hfiles]
        rfl
      have hfd : ({ setOpened inode openFlag newFile with
          openCount := newFile.openCount + 1, fd := fs.fileNextId } : File).fd = fs.fileNextId := rfl
      have hok := (h.ok files fs hfs).add hfd
      refine ⟨used₁, inode, ?_, .new hfs hnone hfd rfl ?_ (hupdate _),
        Or.inr ⟨_, _, _, fileAllocInit_files halloc, hopen, rfl, Or.inr rfl⟩⟩
      · exact h.addEntry hfs { setOpened inode openFlag newFile with
          openCount := newFile.openCount + 1, fd := fs.fileNextId } hpage hfresh hblock hsub rfl hok (hupdate _) hledger
      · intro b gs hgs
        exact (hothers b gs hgs).2

/-- `vfs_close` changes the counters and the file systems only. -/
theorem vfsClose_kernel {σ : Type} (ops : INodeOps σ) (x : FsKernel σ) (inode : U32) :
    ∃ i, (vfsClose ops x inode).2.kernel = { x.kernel with inodes := i } := by
  unfold vfsClose
  split
  · exact ⟨x.kernel.inodes, rfl⟩
  · split
    · exact ⟨x.kernel.inodes, rfl⟩
    · exact ⟨_, rfl⟩

/-- The entry that `file_close` takes out is the only one with its descriptor. -/
theorem TablesInv.filter_node (h : TablesInv lo hi m₀ k used) {a : U32} {fs : FileStruct} (hfs : k.files a = some fs)
    {file : File} (hfile : file ∈ fs.fileList) :
    (fs.fileList.filter fun f => decide (f.node ≠ file.node)) =
      fs.fileList.filter fun f => decide (f.fd ≠ file.fd) := by
  apply List.filter_congr
  intro f hf
  rw [decide_eq_decide]
  constructor
  · rintro hnode hfd
    exact hnode (congrArg File.node (List.inj_on_of_nodup_map (h.ok a fs hfs).fds hf hfile hfd))
  · rintro hfd hnode
    exact hfd (congrArg File.fd (h.own a a fs fs hfs hfs f hf file hfile hnode).2)

/-- Entries leave a table, and their pages are given back. -/
theorem TablesInv.removeEntries (h : TablesInv lo hi m₀ k used) {a : U32} {fs : FileStruct} (hfs : k.files a = some fs)
    {keep : List File} (hkeep : keep.Sublist fs.fileList)
    (hfiles : k'.files = Function.update k.files a (some { fs with fileList := keep }))
    {used' : List Extent} (hledger : Ledger lo hi m₀ k'.machine used')
    (hsub : ∀ u ∈ used, u ∉ used' → ∃ f ∈ fs.fileList, f ∉ keep ∧ u = pageBlock f.node) :
    TablesInv lo hi m₀ k' used' := by
  have hmem : ∀ f ∈ keep, f ∈ fs.fileList := fun f hf => hkeep.subset hf
  -- A block that is in use for something else is still held.
  have htable : ∀ b gs, k.files b = some gs → pageBlock b ∈ used' := by
    intro b gs hgs
    by_contra hnot
    obtain ⟨f, hf, -, hb⟩ := hsub _ (h.table b gs hgs).2 hnot
    exact h.apart a b fs gs hfs hgs f hf (pageBlock_inj (h.table b gs hgs).1 (h.entry a fs hfs f hf).1 hb).symm
  have hentry : ∀ b gs, k.files b = some gs → ∀ g ∈ gs.fileList, (b = a → g ∈ keep) → pageBlock g.node ∈ used' := by
    intro b gs hgs g hg hb
    by_contra hnot
    obtain ⟨f, hf, hgone, heq⟩ := hsub _ (h.entry b gs hgs g hg).2 hnot
    obtain ⟨rfl, rfl⟩ := h.own b a gs fs hgs hfs g hg f hf
      (pageBlock_inj (h.entry b gs hgs g hg).1 (h.entry a fs hfs f hf).1 heq)
    exact hgone (hb rfl)
  refine h.put hfiles ?_ hledger ?_ ?_ ?_ ?_ ?_ ?_
  · refine ⟨(hkeep.map File.fd).nodup (h.ok a fs hfs).fds, ?_⟩
    intro f hf
    exact (h.ok a fs hfs).below f (hmem f hf)
  · intro b gs hgs hb
    exact ⟨htable b gs hgs, fun g hg => hentry b gs hgs g hg fun heq => absurd heq hb⟩
  · exact ⟨(h.table a fs hfs).1, htable a fs hfs⟩
  · intro f hf
    exact ⟨(h.entry a fs hfs f (hmem f hf)).1, hentry a fs hfs f (hmem f hf) fun _ => hf⟩
  · intro f hf g hg heq
    exact (h.own a a fs fs hfs hfs f (hmem f hf) g (hmem g hg) heq).2
  · intro f hf
    exact h.apart a a fs fs hfs hfs f (hmem f hf)
  · intro b gs hgs hb
    refine ⟨h.apart b a gs fs hgs hfs, ?_⟩
    intro f hf
    refine ⟨h.apart a b fs gs hfs hgs f (hmem f hf), ?_⟩
    intro g hg heq
    exact hb (h.own a b fs gs hfs hgs f (hmem f hf) g hg heq).1.symm

/-- How `file_close` ends, on the tables. -/
inductive Closed (k : Kernel) (files : U32) (fd : Int) : Kernel → Prop
  | unknown {k' : Kernel} {fs : FileStruct} (hfs : k.files files = some fs) (hnone : findFileWithFd fs fd = none)
      (hfiles : k'.files = k.files) : Closed k files fd k'
  | closed {k' : Kernel} {fs : FileStruct} {file : File} (hfs : k.files files = some fs)
      (hfound : findFileWithFd fs fd = some file)
      (hfiles : k'.files = Function.update k.files files (some { fs with
        fileList := fs.fileList.filter fun f => decide (f.fd ≠ fd) })) : Closed k files fd k'

/-- `file_close` keeps the invariant of the tables. -/
theorem fileClose_spec {σ : Type} {ops : INodeOps σ} {x x' : FsKernel σ} (h : TablesInv lo hi m₀ x.kernel used)
    {files : U32} {fd ret : Int} (hcall : fileClose ops x files fd = .ok (ret, x')) :
    ∃ used', TablesInv lo hi m₀ x'.kernel used' ∧ Closed x.kernel files fd x'.kernel := by
  unfold fileClose at hcall
  obtain ⟨fs, hfs, hbody⟩ := Res.bind_eq_ok.mp hcall
  rw [fileStruct_eq_ok] at hfs
  split at hbody
  · rename_i hnone
    obtain ⟨-, rfl⟩ := Prod.mk.inj (Except.ok.inj hbody)
    exact ⟨used, h, .unknown hfs hnone rfl⟩
  · rename_i file hfound
    obtain ⟨hfile, rfl⟩ := mem_of_findFileWithFd hfound
    obtain ⟨i, hclose⟩ := vfsClose_kernel ops x file.inode
    dsimp only at hbody
    rw [hclose, h.filter_node hfs hfile] at hbody
    obtain ⟨k₁, hrelease, hbody⟩ := Res.bind_eq_ok.mp hbody
    obtain ⟨-, rfl⟩ := Prod.mk.inj (Except.ok.inj hbody)
    obtain ⟨s₁, hkfree, rfl⟩ := release_eq_ok hrelease
    have hblock := (h.entry files fs hfs file hfile).2
    have hledger := h.ledger.kfree (show blockOf file.node sizeofFile ∈ used from hblock) hkfree
    refine ⟨used.erase (pageBlock file.node), ?_, .closed hfs hfound rfl⟩
    refine h.removeEntries hfs (List.filter_sublist ..) rfl hledger ?_
    intro u hu hgone
    refine ⟨file, hfile, by simp, ?_⟩
    by_contra hne
    exact hgone ((List.mem_erase_of_ne hne).mpr hu)

theorem syncINode_kernel {σ : Type} (ops : INodeOps σ) (x : FsKernel σ) (inode : U32) :
    (syncINode ops x inode).kernel = x.kernel := by
  unfold syncINode
  cases ops.sync inode <;> rfl

/-- The loop of `files_closeall` gives the pages of the entries back. -/
theorem closeallLoop_spec {σ : Type} {ops : INodeOps σ} {list : List File} {x x' : FsKernel σ} {used : List Extent}
    (hledger : Ledger lo hi m₀ x.kernel.machine used) (hpages : ∀ f ∈ list, page2kva (pageOf f.node) = f.node)
    (hused : ∀ f ∈ list, pageBlock f.node ∈ used) (hnodup : (list.map fun f => pageBlock f.node).Nodup)
    (hcall : closeallLoop ops list x = .ok x') :
    ∃ s' used', x'.kernel = { x.kernel with machine := s' } ∧ Ledger lo hi m₀ s' used' ∧
      ∀ u ∈ used, u ∉ used' → ∃ f ∈ list, u = pageBlock f.node := by
  induction list generalizing x used with
  | nil =>
      obtain rfl := Except.ok.inj hcall
      exact ⟨x.kernel.machine, used, rfl, hledger, fun u hu hgone => absurd hu hgone⟩
  | cons file rest ih =>
      unfold closeallLoop at hcall
      obtain ⟨k₁, hrelease, hcall⟩ := Res.bind_eq_ok.mp hcall
      obtain ⟨hnew, hnodup⟩ := List.nodup_cons.mp hnodup
      have hblock := pageBlock_lp2vmaOfFile (hpages file (List.mem_cons_self ..))
      rw [syncINode_kernel] at hrelease
      obtain ⟨s₁, hkfree, rfl⟩ := release_eq_ok hrelease
      have hheld : blockOf (lp2vmaOfFile file) sizeofVirtMemArea ∈ used := by
        rw [hblock]
        exact hused file (List.mem_cons_self ..)
      have hledger₁ := hledger.kfree hheld hkfree
      rw [hblock] at hledger₁
      obtain ⟨s', used', hkernel, hledger', hgone⟩ := ih (x := FsKernel.setKernel _ { x.kernel with machine := s₁ })
        hledger₁ (fun f hf => hpages f (List.mem_cons_of_mem _ hf)) (fun f hf => by
          refine (List.mem_erase_of_ne ?_).mpr (hused f (List.mem_cons_of_mem _ hf))
          intro heq
          have hin : pageBlock f.node ∈ rest.map fun f => pageBlock f.node := List.mem_map_of_mem hf
          rw [heq] at hin
          exact hnew hin) hnodup hcall
      refine ⟨s', used', hkernel, hledger', ?_⟩
      intro u hu hnot
      by_cases heq : u = pageBlock file.node
      · exact ⟨file, List.mem_cons_self .., heq⟩
      · obtain ⟨f, hf, hfu⟩ := hgone u ((List.mem_erase_of_ne heq).mpr hu) hnot
        exact ⟨f, List.mem_cons_of_mem _ hf, hfu⟩

/-- The entries of a table have blocks of their own. -/
theorem TablesInv.nodup_blocks (h : TablesInv lo hi m₀ k used) {a : U32} {fs : FileStruct}
    (hfs : k.files a = some fs) : (fs.fileList.map fun f => pageBlock f.node).Nodup := by
  refine List.Nodup.map_on ?_ (List.Nodup.of_map File.fd (h.ok a fs hfs).fds)
  intro f hf g hg heq
  have hnode := pageBlock_inj (h.entry a fs hfs f hf).1 (h.entry a fs hfs g hg).1 heq
  exact (h.own a a fs fs hfs hfs f hf g hg hnode).2

/-- `files_closeall` empties the table. -/
theorem filesCloseall_spec {σ : Type} {ops : INodeOps σ} {x x' : FsKernel σ} (h : TablesInv lo hi m₀ x.kernel used)
    {files : U32} (hcall : filesCloseall ops x files = .ok x') :
    ∃ used' fs, TablesInv lo hi m₀ x'.kernel used' ∧ x.kernel.files files = some fs ∧
      x'.kernel.files = Function.update x.kernel.files files (some { fs with fileList := [] }) := by
  unfold filesCloseall at hcall
  obtain ⟨_, -, hcall⟩ := Res.bind_eq_ok.mp hcall
  obtain ⟨fs, hfs, hcall⟩ := Res.bind_eq_ok.mp hcall
  obtain ⟨x₁, hloop, hcall⟩ := Res.bind_eq_ok.mp hcall
  obtain rfl := Except.ok.inj hcall
  rw [fileStruct_eq_ok] at hfs
  obtain ⟨s', used', hkernel, hledger, hgone⟩ := closeallLoop_spec h.ledger
    (fun f hf => (h.entry files fs hfs f hf).1) (fun f hf => (h.entry files fs hfs f hf).2) (h.nodup_blocks hfs) hloop
  have hupdate : (x₁.kernel.setFileStruct files { fs with fileList := [] }).files =
      Function.update x.kernel.files files (some { fs with fileList := [] }) := by
    rw [hkernel]
    rfl
  refine ⟨used', fs, ?_, hfs, hupdate⟩
  refine h.removeEntries hfs (List.nil_sublist _) hupdate ?_ ?_
  · show Ledger lo hi m₀ x₁.kernel.machine used'
    rw [hkernel]
    exact hledger
  · intro u hu hnot
    obtain ⟨f, hf, hfu⟩ := hgone u hu hnot
    exact ⟨f, hf, List.not_mem_nil, hfu⟩

/-- What a child inherits of an entry. -/
def inherited (f : File) : Int × U32 × Int × Bool × Bool := (f.fd, f.inode, f.pos, f.readable, f.writable)

/-- The loop of `files_dup` copies the entries, in the other order, to pages of their own. -/
theorem filesDupLoop_spec {files copies list : List File} {k k' : Kernel} {used : List Extent}
    (hledger : Ledger lo hi m₀ k.machine used) (hcopies : ∀ c ∈ copies, pageBlock c.node ∈ used)
    (hnodup : (copies.map fun f => pageBlock f.node).Nodup)
    (hcall : filesDupLoop files k copies = .ok (list, k')) :
    ∃ s' i used', k' = { k with machine := s', inodes := i } ∧ Ledger lo hi m₀ s' used' ∧
      (∀ u ∈ used, u ∈ used') ∧ list.map inherited = (files.map inherited).reverse ++ copies.map inherited ∧
      (list.map fun f => pageBlock f.node).Nodup ∧ ∀ f ∈ list, f ∈ copies ∨
        (page2kva (pageOf f.node) = f.node ∧ pageBlock f.node ∈ used' ∧ pageBlock f.node ∉ used) := by
  induction files generalizing k copies used with
  | nil =>
      obtain ⟨rfl, rfl⟩ := Prod.mk.inj (Except.ok.inj hcall)
      exact ⟨k.machine, k.inodes, used, rfl, hledger, fun u hu => hu, by simp, hnodup, fun f hf => Or.inl hf⟩
  | cons fromFile rest ih =>
      unfold filesDupLoop at hcall
      obtain ⟨⟨toFile, k₁⟩, halloc, hcall⟩ := Res.bind_eq_ok.mp hcall
      obtain ⟨⟨copy, k₂⟩, hdup, hrest⟩ := Res.bind_eq_ok.mp hcall
      cases toFile with
      | none => cases hdup
      | some toFile =>
          obtain ⟨s₁, rfl, -, hpage, hfresh, hledger₁⟩ := fileAllocInit_spec hledger halloc
          obtain ⟨hcopy, hk₂⟩ := Prod.mk.inj (Except.ok.inj hdup)
          have hnode : copy.node = toFile.node := by rw [← hcopy]
          have hinherited : inherited copy = inherited fromFile := by
            rw [← hcopy]
            rfl
          rw [← hnode] at hpage hfresh hledger₁
          have hledger₂ : Ledger lo hi m₀ k₂.machine (pageBlock copy.node :: used) := by
            rw [← hk₂]
            exact hledger₁
          have hmem : ∀ c ∈ listAdd copy copies, pageBlock c.node ∈ pageBlock copy.node :: used := by
            intro c hc
            rcases List.mem_cons.mp hc with rfl | hc
            · exact List.mem_cons_self ..
            · exact List.mem_cons_of_mem _ (hcopies c hc)
          have hnodup' : ((listAdd copy copies).map fun f => pageBlock f.node).Nodup := by
            refine List.nodup_cons.mpr ⟨?_, hnodup⟩
            intro hin
            obtain ⟨c, hc, heq⟩ := List.mem_map.mp hin
            have hheld := hcopies c hc
            rw [show pageBlock c.node = pageBlock copy.node from heq] at hheld
            exact hfresh hheld
          obtain ⟨s', i, used', rfl, hledger', hsub, hlist, hblocks, hnew⟩ := ih hledger₂ hmem hnodup' hrest
          refine ⟨s', i, used', ?_, hledger', ?_, ?_, hblocks, ?_⟩
          · rw [← hk₂]
          · intro u hu
            exact hsub u (List.mem_cons_of_mem _ hu)
          · rw [hlist]
            show _ ++ inherited copy :: copies.map inherited = _
            rw [hinherited, List.map_cons, List.reverse_cons, List.append_assoc, List.singleton_append]
          · intro f hf
            rcases hnew f hf with hf | ⟨h1, h2, h3⟩
            · rcases List.mem_cons.mp hf with rfl | hf
              · exact Or.inr ⟨hpage, hsub _ (List.mem_cons_self ..), hfresh⟩
              · exact Or.inl hf
            · exact Or.inr ⟨h1, h2, fun hu => h3 (List.mem_cons_of_mem _ hu)⟩

/-- What `files_dup` makes of an empty table. -/
structure Inherits (k : Kernel) (toFiles fromFiles : U32) (ff cf : FileStruct) (k' : Kernel) : Prop where
  source : k.files fromFiles = some ff
  result : k'.files = Function.update k.files toFiles (some cf)
  pwd : cf.pwd = ff.pwd
  nextId : cf.fileNextId = ff.fileNextId
  entries : cf.fileList.map inherited = (ff.fileList.map inherited).reverse
  fresh : ∀ f ∈ cf.fileList, ∀ b gs, k.files b = some gs → ∀ g ∈ gs.fileList, g.node ≠ f.node

theorem map_fd_of_inherited {fs gs : List File} (h : fs.map inherited = (gs.map inherited).reverse) :
    fs.map File.fd = (gs.map File.fd).reverse := by
  have hfd : ∀ l : List File, l.map File.fd = (l.map inherited).map Prod.fst := by
    intro l
    rw [List.map_map]
    rfl
  rw [hfd, h, List.map_reverse, ← hfd]

theorem filesDup_table {toFiles fromFiles : U32} {ret : Int} (hcall : filesDup k toFiles fromFiles = .ok (ret, k')) :
    ∃ tf, k.files toFiles = some tf := by
  unfold filesDup at hcall
  obtain ⟨_, -, hcall⟩ := Res.bind_eq_ok.mp hcall
  obtain ⟨tf, htf, -⟩ := Res.bind_eq_ok.mp hcall
  exact ⟨tf, fileStruct_eq_ok.mp htf⟩

/-- `files_dup` keeps the invariant of the tables. -/
theorem filesDup_spec (h : TablesInv lo hi m₀ k used) {toFiles fromFiles : U32} {tf : FileStruct}
    (hto : k.files toFiles = some tf) (hempty : tf.fileList = []) {ret : Int}
    (hcall : filesDup k toFiles fromFiles = .ok (ret, k')) :
    ∃ used' ff cf, TablesInv lo hi m₀ k' used' ∧ Inherits k toFiles fromFiles ff cf k' := by
  unfold filesDup at hcall
  obtain ⟨_, -, hcall⟩ := Res.bind_eq_ok.mp hcall
  obtain ⟨tf', htf, hcall⟩ := Res.bind_eq_ok.mp hcall
  obtain ⟨ff, hff, hcall⟩ := Res.bind_eq_ok.mp hcall
  obtain ⟨_, -, hcall⟩ := Res.bind_eq_ok.mp hcall
  obtain ⟨⟨list, k₁⟩, hloop, hcall⟩ := Res.bind_eq_ok.mp hcall
  obtain ⟨-, rfl⟩ := Prod.mk.inj (Except.ok.inj hcall)
  rw [fileStruct_eq_ok] at htf hff
  obtain rfl : tf' = tf := Option.some.inj (htf.symm.trans hto)
  -- The reference of the working directory is counted before the loop.
  generalize hk : (if ff.pwd ≠ NULL then _ else k : Kernel) = k₀ at hloop
  have hk₀ : ∃ i, k₀ = { k with inodes := i } := by
    split at hk
    · exact ⟨_, hk.symm⟩
    · exact ⟨k.inodes, hk.symm⟩
  obtain ⟨i₀, rfl⟩ := hk₀
  rw [hempty] at hloop
  obtain ⟨s', i, used', rfl, hledger, hsub, hlist, hblocks, hnew⟩ :=
    filesDupLoop_spec (k := { k with inodes := i₀ }) h.ledger  (by simp) (by simp) hloop
  rw [List.map_nil, List.append_nil] at hlist
  have hfds := map_fd_of_inherited hlist
  have hblock : ∀ f ∈ list, page2kva (pageOf f.node) = f.node ∧ pageBlock f.node ∈ used' ∧ pageBlock f.node ∉ used := by
    intro f hf
    exact (hnew f hf).resolve_left List.not_mem_nil
  have hfresh : ∀ f ∈ list, ∀ b gs, k.files b = some gs → b ≠ f.node ∧ ∀ g ∈ gs.fileList, g.node ≠ f.node := by
    intro f hf
    exact (h.fresh (hblock f hf).2.2).2
  refine ⟨used', ff, ⟨ff.pwd, list, tf'.ref, ff.fileNextId⟩, ?_, hff, rfl, rfl, rfl, hlist, ?_⟩
  · refine h.put (a := toFiles) rfl ⟨?_, ?_⟩ hledger ?_ ?_ ?_ ?_ ?_ ?_
    · show (list.map File.fd).Nodup
      rw [hfds]
      exact List.nodup_reverse.mpr (h.ok fromFiles ff hff).fds
    · intro f hf
      have hfd : f.fd ∈ (ff.fileList.map File.fd).reverse := by
        rw [← hfds]
        exact List.mem_map_of_mem hf
      obtain ⟨g, hg, hgf⟩ := List.mem_map.mp (List.mem_reverse.mp hfd)
      rw [← hgf]
      exact (h.ok fromFiles ff hff).below g hg
    · intro b gs hgs _
      exact ⟨hsub _ (h.table b gs hgs).2, fun g hg => hsub _ (h.entry b gs hgs g hg).2⟩
    · exact ⟨(h.table toFiles tf' hto).1, hsub _ (h.table toFiles tf' hto).2⟩
    · intro f hf
      exact ⟨(hblock f hf).1, (hblock f hf).2.1⟩
    · intro f hf g hg heq
      exact List.inj_on_of_nodup_map hblocks hf hg (congrArg pageBlock heq)
    · intro f hf
      exact (hfresh f hf toFiles tf' hto).1.symm
    · intro b gs hgs _
      refine ⟨h.apart b toFiles gs tf' hgs hto, ?_⟩
      intro f hf
      exact ⟨(hfresh f hf b gs hgs).1.symm, fun g hg => ((hfresh f hf b gs hgs).2 g hg).symm⟩
  · intro f hf b gs hgs
    exact (hfresh f hf b gs hgs).2

/-- One operation keeps the invariant of the tables. -/
theorem TableStep.tablesInv {σ : Type} {ops : INodeOps σ} {x x' : FsKernel σ} {n m : Nat}
    (hstep : TableStep ops x m x') (h : TablesInv lo hi m₀ x.kernel used) (hopens : OpensLe x.kernel n) :
    OpensLe x'.kernel (n + m) ∧ ∃ used', TablesInv lo hi m₀ x'.kernel used' := by
  cases hstep with
  | @create a k' hcall =>
      obtain ⟨⟨used', -, hinv⟩, hnew⟩ := filesCreate_spec h hcall
      refine ⟨?_, used', hinv⟩
      by_cases hnull : a = NULL
      · have hfiles := filesCreate_null (hnull ▸ hcall)
        intro b gs hgs
        exact hopens b gs (hfiles ▸ hgs)
      · exact hopens.put (m := 0) (hnew hnull).2.1 (by simp)
  | fileOpen hvfs hcall =>
      obtain ⟨used', inode, hinv, hcase, -⟩ := fileOpen_spec h hvfs hcall
      refine ⟨?_, used', hinv⟩
      cases hcase with
      | failed _ hfiles =>
          intro b gs hgs
          have := hopens b gs (hfiles ▸ hgs)
          omega
      | again hfs _ hfiles =>
          have := hopens _ _ hfs
          exact hopens.put hfiles (by dsimp only; omega)
      | new hfs _ _ _ _ hfiles =>
          have := hopens _ _ hfs
          exact hopens.put hfiles (by dsimp only; omega)
  | fileClose hcall =>
      obtain ⟨used', hinv, hcase⟩ := fileClose_spec h hcall
      refine ⟨?_, used', hinv⟩
      cases hcase with
      | unknown _ _ hfiles =>
          intro b gs hgs
          exact hopens b gs (hfiles ▸ hgs)
      | closed hfs _ hfiles =>
          have hle := hopens _ _ hfs
          exact hopens.put (m := 0) hfiles hle
  | filesCloseall hcall =>
      obtain ⟨used', fs, hinv, hfs, hfiles⟩ := filesCloseall_spec h hcall
      have hle := hopens _ _ hfs
      exact ⟨hopens.put (m := 0) hfiles hle, used', hinv⟩
  | filesDup hto hempty hcall =>
      obtain ⟨used', ff, cf, hinv, hdup⟩ := filesDup_spec h hto hempty hcall
      refine ⟨hopens.put (m := 0) hdup.result ?_, used', hinv⟩
      rw [hdup.nextId]
      exact hopens _ _ hdup.source

end Steps

/-! ### Runs -/

/-- A kernel that has no table yet. -/
theorem TablesInv.init {lo hi : Nat} {m₀ : Pmm} {k : Kernel} {used : List Extent}
    (hledger : Ledger lo hi m₀ k.machine used) (hnone : ∀ a, k.files a = none) : TablesInv lo hi m₀ k used := by
  refine ⟨hledger, ?_, ?_, ?_, ?_, ?_⟩
  · intro a fs hfs
    simp [hnone a] at hfs
  · intro a fs hfs
    simp [hnone a] at hfs
  · intro a fs hfs
    simp [hnone a] at hfs
  · intro a b fs gs hfs
    simp [hnone a] at hfs
  · intro a b fs gs hfs
    simp [hnone a] at hfs

/-- The invariant of the tables holds after every run. -/
theorem TableRun.tablesInv {σ : Type} {ops : INodeOps σ} {lo hi : Nat} {m₀ : Pmm} {x₀ x : FsKernel σ} {n : Nat}
    {used : List Extent} (hrun : TableRun ops x₀ n x) (hledger : Ledger lo hi m₀ x₀.kernel.machine used)
    (hnone : ∀ a, x₀.kernel.files a = none) :
    OpensLe x.kernel n ∧ ∃ used', TablesInv lo hi m₀ x.kernel used' := by
  induction hrun with
  | refl =>
      refine ⟨?_, used, TablesInv.init hledger hnone⟩
      intro a fs hfs
      simp [hnone a] at hfs
  | step _ hstep ih =>
      obtain ⟨hopens, used', hinv⟩ := ih
      exact hstep.tablesInv hinv hopens

/-- No operations, and the only file is the inode at `0xC0030000`. -/
def noOps : INodeOps Unit := ⟨fun _ => none, fun _ => none, fun _ => none, fun _ => none, fun _ => none⟩

@[inherit_doc noOps] def openOne (x : FsKernel Unit) : Res ((Int × U32) × FsKernel Unit) :=
  let count := x.kernel.inodes 0xC0030000#32
  .ok ((0, 0xC0030000#32), x.setCount 0xC0030000#32 { count with opened := count.opened + 1 })

theorem openOne_aside (y : FsKernel Unit) (r : Int × U32) (y' : FsKernel Unit) (h : openOne y = .ok (r, y')) :
    Aside y y' := by
  obtain ⟨-, rfl⟩ := Prod.mk.inj (Except.ok.inj h)
  exact ⟨⟨y.kernel.machine, _, rfl⟩, fun _ _ _ used hledger => ⟨used, fun _ hu => hu, hledger⟩⟩

end Fs
end FreakOS
