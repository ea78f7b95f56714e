import FreakOS.Memory.Teardown

/-!
# What has been taken since an earlier moment

Code that builds an address space takes directories, page tables, mapped frames and blocks of `kmalloc`.
`Footprint` compares the frames of the machine with those of an earlier moment: whatever was in use then is
in use now with its old content, and what has been taken is listed.

* `Frames.setKernel` — blocks of `kmalloc` come and go.
* `Footprint.free_iff` — once the directories are gone, only the listed blocks are missing.
* `Footprint.setupPgdir`, `Footprint.setPages`, `Footprint.teardown` — the steps of an address space.
* `Footprint.kmalloc`, `Footprint.kfree` — the blocks.
-/

namespace FreakOS
namespace Memory

open Lib

/-! ### The directory of the kernel stays where it is -/

section KernelPgd

variable {s s' : Machine}

theorem allocPhyPages_kernelPgd {n : Nat} {page : Option Nat} (hcall : allocPhyPages s n = .ok (page, s')) :
    s'.kernelPgd = s.kernelPgd := by
  obtain ⟨⟨page', m⟩, -, hcall⟩ := Res.bind_eq_ok.mp hcall
  obtain ⟨-, rfl⟩ := Prod.mk.inj (Except.ok.inj hcall)
  rfl

theorem freePhyPages_kernelPgd {base n : Nat} (hcall : freePhyPages s base n = .ok s') :
    s'.kernelPgd = s.kernelPgd := by
  obtain ⟨m, -, hcall⟩ := Res.bind_eq_ok.mp hcall
  obtain rfl := Except.ok.inj hcall
  rfl

theorem setupPgdir_kernelPgd {pgdir : Option Nat} (hcall : setupPgdir s = .ok (pgdir, s')) :
    s'.kernelPgd = s.kernelPgd := by
  obtain ⟨⟨page, s₁⟩, halloc, hcall⟩ := Res.bind_eq_ok.mp hcall
  rw [← allocPhyPages_kernelPgd halloc]
  cases page with
  | none =>
      obtain ⟨-, rfl⟩ := Prod.mk.inj (Except.ok.inj hcall)
      rfl
  | some p =>
      obtain ⟨d, -, hcall⟩ := Res.bind_eq_ok.mp hcall
      obtain ⟨-, rfl⟩ := Prod.mk.inj (Except.ok.inj hcall)
      rfl

theorem getPte_kernelPgd {d : Nat} {va : U32} {create : Bool} {ptep : Option (Nat × Fin 1024)}
    (hcall : getPte s d va create = .ok (ptep, s')) : s'.kernelPgd = s.kernelPgd := by
  unfold getPte at hcall
  split at hcall
  · split at hcall
    · obtain ⟨-, rfl⟩ := Prod.mk.inj (Except.ok.inj hcall)
      rfl
    · obtain ⟨⟨page, s₁⟩, halloc, hcall⟩ := Res.bind_eq_ok.mp hcall
      rw [← allocPhyPages_kernelPgd halloc]
      cases page with
      | none =>
          obtain ⟨-, rfl⟩ := Prod.mk.inj (Except.ok.inj hcall)
          rfl
      | some p =>
          obtain ⟨f, -, hcall⟩ := Res.bind_eq_ok.mp hcall
          obtain ⟨q, -, hcall⟩ := Res.bind_eq_ok.mp hcall
          obtain ⟨-, rfl⟩ := Prod.mk.inj (Except.ok.inj hcall)
          rfl
  · obtain ⟨q, -, hcall⟩ := Res.bind_eq_ok.mp hcall
    obtain ⟨-, rfl⟩ := Prod.mk.inj (Except.ok.inj hcall)
    rfl

theorem pteRemovePage_kernelPgd {ptep : Nat × Fin 1024} (hcall : pteRemovePage s ptep = .ok s') :
    s'.kernelPgd = s.kernelPgd := by
  unfold pteRemovePage at hcall
  split at hcall
  · obtain ⟨page, -, hcall⟩ := Res.bind_eq_ok.mp hcall
    obtain ⟨s₁, hdrop, hcall⟩ := Res.bind_eq_ok.mp hcall
    obtain rfl := Except.ok.inj hcall
    show s₁.kernelPgd = _
    unfold dropPage at hdrop
    dsimp only at hdrop
    split at hdrop
    · exact (freePhyPages_kernelPgd hdrop).trans rfl
    · obtain rfl := Except.ok.inj hdrop
      rfl
  · obtain rfl := Except.ok.inj hcall
    rfl

theorem pageInsert_kernelPgd {d page : Nat} {va perm : U32} {err : Int}
    (hcall : pageInsert s d page va perm = .ok (err, s')) : s'.kernelPgd = s.kernelPgd := by
  obtain ⟨⟨ptep, s₁⟩, hpte, hcall⟩ := Res.bind_eq_ok.mp hcall
  rw [← getPte_kernelPgd hpte]
  cases ptep with
  | none =>
      obtain ⟨-, rfl⟩ := Prod.mk.inj (Except.ok.inj hcall)
      rfl
  | some ptep =>
      obtain ⟨s₂, hevict, hcall⟩ := Res.bind_eq_ok.mp hcall
      obtain ⟨-, rfl⟩ := Prod.mk.inj (Except.ok.inj hcall)
      show s₂.kernelPgd = (pageRefInc s₁ page).kernelPgd
      unfold evictOld at hevict
      split at hevict
      · obtain ⟨p, -, hevict⟩ := Res.bind_eq_ok.mp hevict
        split at hevict
        · obtain rfl := Except.ok.inj hevict
          rfl
        · exact pteRemovePage_kernelPgd hevict
      · obtain rfl := Except.ok.inj hevict
        rfl

theorem rangeLoop_kernelPgd {body : Machine → U32 → Res (Round × Machine)} {stop : U32}
    (hbody : ∀ s a r s', body s a = .ok (r, s') → s'.kernelPgd = s.kernelPgd) (fuel : Nat) {start : U32}
    {code : Int} (hcall : rangeLoop body stop fuel s start = .ok (code, s')) :
    s'.kernelPgd = s.kernelPgd := by
  induction fuel generalizing s start with
  | zero => simp [rangeLoop] at hcall
  | succ fuel ih =>
      obtain ⟨⟨r, s₁⟩, hround, hcall⟩ := Res.bind_eq_ok.mp hcall
      have hfirst := hbody _ _ _ _ hround
      cases r with
      | ret c =>
          obtain ⟨-, rfl⟩ := Prod.mk.inj (Except.ok.inj hcall)
          exact hfirst
      | next a =>
          dsimp only at hcall
          split at hcall
          · exact (ih hcall).trans hfirst
          · obtain ⟨-, rfl⟩ := Prod.mk.inj (Except.ok.inj hcall)
            exact hfirst

theorem unmapRange_kernelPgd {d : Nat} {start stop : U32} (hcall : unmapRange s d start stop = .ok s') :
    s'.kernelPgd = s.kernelPgd := by
  unfold unmapRange at hcall
  split at hcall
  · simp at hcall
  split at hcall
  · simp at hcall
  obtain ⟨⟨code, s₁⟩, hloop, hcall⟩ := Res.bind_eq_ok.mp hcall
  obtain rfl := Except.ok.inj hcall
  refine rangeLoop_kernelPgd ?_ rangeFuel hloop
  intro t a r t' hround
  obtain ⟨⟨ptep, t₁⟩, hpte, hround⟩ := Res.bind_eq_ok.mp hround
  rw [← getPte_kernelPgd hpte]
  cases ptep with
  | none =>
      obtain ⟨-, rfl⟩ := Prod.mk.inj (Except.ok.inj hround)
      rfl
  | some ptep =>
      dsimp only at hround
      split at hround
      · obtain ⟨t₂, hremove, hround⟩ := Res.bind_eq_ok.mp hround
        obtain ⟨-, rfl⟩ := Prod.mk.inj (Except.ok.inj hround)
        exact pteRemovePage_kernelPgd hremove
      · obtain ⟨-, rfl⟩ := Prod.mk.inj (Except.ok.inj hround)
        rfl

theorem exitRange_kernelPgd {d : Nat} {start stop : U32} (hcall : exitRange s d start stop = .ok s') :
    s'.kernelPgd = s.kernelPgd := by
  unfold exitRange at hcall
  split at hcall
  · simp at hcall
  split at hcall
  · simp at hcall
  obtain ⟨⟨code, s₁⟩, hloop, hcall⟩ := Res.bind_eq_ok.mp hcall
  obtain rfl := Except.ok.inj hcall
  refine rangeLoop_kernelPgd ?_ rangeFuel hloop
  intro t a r t' hround
  unfold exitRound at hround
  split at hround
  · obtain ⟨page, -, hround⟩ := Res.bind_eq_ok.mp hround
    obtain ⟨t₁, hfree, hround⟩ := Res.bind_eq_ok.mp hround
    obtain ⟨-, rfl⟩ := Prod.mk.inj (Except.ok.inj hround)
    show t₁.kernelPgd = t.kernelPgd
    exact freePhyPages_kernelPgd hfree
  · obtain ⟨-, rfl⟩ := Prod.mk.inj (Except.ok.inj hround)
    rfl

theorem copyRound_kernelPgd {toDir fromDir : Nat} {a : U32} {r : Round}
    (hcall : copyRound toDir fromDir s a = .ok (r, s')) : s'.kernelPgd = s.kernelPgd := by
  obtain ⟨⟨ptep, s₁⟩, hpte, hcall⟩ := Res.bind_eq_ok.mp hcall
  rw [← getPte_kernelPgd hpte]
  cases ptep with
  | none =>
      obtain ⟨-, rfl⟩ := Prod.mk.inj (Except.ok.inj hcall)
      rfl
  | some ptep =>
      dsimp only at hcall
      split at hcall
      · obtain ⟨⟨nptep, s₂⟩, hnpte, hcall⟩ := Res.bind_eq_ok.mp hcall
        rw [← getPte_kernelPgd hnpte]
        cases nptep with
        | none =>
            obtain ⟨-, rfl⟩ := Prod.mk.inj (Except.ok.inj hcall)
            rfl
        | some nptep =>
            obtain ⟨page, -, hcall⟩ := Res.bind_eq_ok.mp hcall
            obtain ⟨⟨npage, s₃⟩, halloc, hcall⟩ := Res.bind_eq_ok.mp hcall
            rw [← allocPhyPages_kernelPgd halloc]
            cases npage with
            | none => simp at hcall
            | some np =>
                obtain ⟨src, -, hcall⟩ := Res.bind_eq_ok.mp hcall
                obtain ⟨dst, -, hcall⟩ := Res.bind_eq_ok.mp hcall
                obtain ⟨⟨ret, s₄⟩, hins, hcall⟩ := Res.bind_eq_ok.mp hcall
                dsimp only at hcall
                split at hcall
                · simp at hcall
                · obtain ⟨-, rfl⟩ := Prod.mk.inj (Except.ok.inj hcall)
                  exact (pageInsert_kernelPgd hins).trans rfl
      · obtain ⟨-, rfl⟩ := Prod.mk.inj (Except.ok.inj hcall)
        rfl

theorem forEachArea_kernelPgd {range : Machine → Nat → U32 → U32 → Res Machine} {d : Nat}
    (hrange : ∀ s a b s', range s d a b = .ok s' → s'.kernelPgd = s.kernelPgd) (areas : List VirtMemArea)
    (hcall : forEachArea range d areas s = .ok s') : s'.kernelPgd = s.kernelPgd := by
  induction areas generalizing s with
  | nil =>
      obtain rfl := Except.ok.inj hcall
      rfl
  | cons vma rest ih =>
      obtain ⟨s₁, hfirst, hcall⟩ := Res.bind_eq_ok.mp hcall
      exact (ih hcall).trans (hrange _ _ _ _ hfirst)

theorem exitMmap_kernelPgd {mm : MemMap} (hcall : exitMmap s (some mm) = .ok s') :
    s'.kernelPgd = s.kernelPgd := by
  unfold exitMmap at hcall
  dsimp only at hcall
  split at hcall
  · simp at hcall
  obtain ⟨s₁, hunmap, hexit⟩ := Res.bind_eq_ok.mp hcall
  have h₁ := forEachArea_kernelPgd (fun _ _ _ _ h => unmapRange_kernelPgd h) _ hunmap
  have h₂ := forEachArea_kernelPgd (fun _ _ _ _ h => exitRange_kernelPgd h) _ hexit
  exact h₂.trans h₁

end KernelPgd

/-! ### Footprints -/

section Footprint

variable {lo hi : Nat} {s₀ s s' : Machine} {role₀ role role' : Nat → Role}

/-- Free frames become frames of the kernel, and frames of the kernel become free. -/
theorem Frames.setKernel (h : Frames lo hi s role) {m : Pmm} (hpmm : m.Inv lo hi)
    (hfree : ∀ x, role' x = .free ↔ m.Free x)
    (hcases : ∀ x, role' x = role x ∨ (role x = .free ∧ role' x = .kernel) ∨
      (role x = .kernel ∧ role' x = .free ∧ x ≠ s.kernelPgd))
    (href : ∀ x, role x ≠ .kernel → (m.pages x).ref = (s.pmm.pages x).ref)
    (hzero : ∀ x, role x = .kernel → role' x = .free → (m.pages x).ref = 0) :
    Frames lo hi { s with pmm := m } role' := by
  have hback : ∀ x r, r ≠ .free → r ≠ .kernel → (role' x = r ↔ role x = r) := by
    intro x r hr hr'
    rcases hcases x with hx | ⟨hx, hx'⟩ | ⟨hx, hx', -⟩
    · rw [hx]
    · rw [hx, hx']
      exact ⟨fun hc => absurd hc.symm hr', fun hc => absurd hc.symm hr⟩
    · rw [hx, hx']
      exact ⟨fun hc => absurd hc.symm hr, fun hc => absurd hc.symm hr'⟩
  have hmap : ∀ slot, pteMap ({ s with pmm := m } : Machine) role' slot = pteMap s role slot := by
    intro slot
    have htable : (role' slot.1).isTable = (role slot.1).isTable := by
      rcases hcases slot.1 with hx | ⟨hx, hx'⟩ | ⟨hx, hx', -⟩
      · rw [hx]
      · rw [hx, hx']
        rfl
      · rw [hx, hx']
        rfl
    unfold pteMap
    rw [htable]
    rfl
  have hcount : ∀ f, refCount ({ s with pmm := m } : Machine) role' f = refCount s role f :=
    fun f => fiberCount_congr fun slot _ => hmap slot
  refine ⟨hpmm, h.hi_le, h.pageCount_le, hfree, ?_, ?_, ?_, ?_, ?_, ?_, ?_⟩
  · intro f hf
    rcases hcases f with hx | ⟨-, hx⟩ | ⟨-, hx, -⟩
    · exact h.managed f (hx ▸ hf)
    · exact absurd hx hf
    · exact hpmm.managed_of_free ((hfree f).mp hx)
  · intro t d i ht
    obtain ⟨h1, h2, h3⟩ := h.table t d i ((hback t _ (by simp) (by simp)).mp ht)
    exact ⟨(hback d _ (by simp) (by simp)).mpr h1, h2, h3⟩
  · intro d i t hd hi' ht
    have hd' := (hback d _ (by simp) (by simp)).mp hd
    exact (hback t _ (by simp) (by simp)).mpr (h.entry d i t hd' hi' ht)
  · intro t d i j f ht hf
    have ht' := (hback t _ (by simp) (by simp)).mp ht
    exact (hback f _ (by simp) (by simp)).mpr (h.pte t d i j f ht' hf)
  · intro f hf
    have hf' := (hback f _ (by simp) (by simp)).mp hf
    rw [hcount]
    show (m.pages f).ref.toNat = _ ∧ _
    rw [href f (by simp [hf'])]
    exact h.user f hf'
  · intro f hf
    show (m.pages f).ref = 0
    rcases hcases f with hx | ⟨-, hx⟩ | ⟨hx, hx', -⟩
    · have hrole : role f ≠ .kernel := by
        rintro hc
        rcases hf with hf | hf <;> rw [hx, hc] at hf <;> simp at hf
      rw [href f hrole]
      exact h.unused f (hx ▸ hf)
    · rcases hf with hf | hf <;> rw [hx] at hf <;> simp at hf
    · exact hzero f hx hx'
  · refine ⟨?_, h.kernelPgd.2⟩
    show role' s.kernelPgd = .kernel
    rcases hcases s.kernelPgd with hx | ⟨hx, -⟩ | ⟨-, -, hx⟩
    · rw [hx, h.kernelPgd.1]
    · rw [h.kernelPgd.1] at hx
      simp at hx
    · exact absurd rfl hx

/-- What a directory shows is decided by its memory and the memory of its page tables. -/
theorem Frames.look_eq (h : Frames lo hi s role) {d : Nat} (hd : role d = .dir) {i : Fin 1024}
    (hi' : i.val < 768) (j : Fin 1024) (hmem : s'.mem d = s.mem d)
    (htable : ∀ t, role t = .table d i → s'.mem t = s.mem t) : look s' d i j = look s d i j := by
  have hentry : s'.entry d i = s.entry d i := by
    unfold Machine.entry
    rw [hmem]
  unfold look
  rw [hentry]
  cases hsome : s.entry d i with
  | none => rfl
  | some t =>
      dsimp only
      rw [htable t (h.entry d i t hd hi' hsome)]

/-- The frame that an area lives in. -/
def VirtMemArea.page (vma : VirtMemArea) : Nat := ((vma.node - KERNEL_BASE) >>> 12).toNat

/-- The pages of areas. -/
def areaPages (areas : List VirtMemArea) : Set Nat := {x | ∃ vma ∈ areas, x = vma.page}

/-- The structures of a memory map are in blocks of `own`, each in its own block. -/
structure MapBlocks (own : Set Nat) (p : Nat) (mm : MemMap) : Prop where
  map : p ∈ own
  areas : ∀ vma ∈ mm.vmaList, vma.node = page2kva vma.page ∧ vma.page ∈ own
  nodup : (mm.vmaList.map VirtMemArea.page).Nodup
  apart : p ∉ mm.vmaList.map VirtMemArea.page

theorem shift_page2kva {p : Nat} (hp : p < 2 ^ 20) :
    ((page2kva p - KERNEL_BASE) >>> 12).toNat = p := by
  unfold page2kva
  rw [BitVec.add_sub_cancel, page2pa_shift hp]

/-- A block of one page. -/
theorem Ico_one (p : Nat) : Set.Ico p (p + 1) = {p} := by
  ext x
  rw [Set.mem_Ico, Set.mem_singleton_iff]
  omega

/-- Since `s₀` the directories `dirs` and the kernel frames `own` have been taken, and what the directories
lead to.  Whatever was in use at `s₀` has the same role and the same content. -/
structure Footprint (lo hi : Nat) (s₀ : Machine) (role₀ : Nat → Role) (dirs own : Set Nat) (s : Machine)
    (role : Nat → Role) : Prop where
  frames : Frames lo hi s role
  roles : ∀ x, role₀ x ≠ .free → role x = role₀ x
  mem : ∀ x, role₀ x ≠ .free → s.mem x = s₀.mem x
  fresh : ∀ x, x ∈ dirs ∨ x ∈ own → role₀ x = .free
  dir : ∀ x, role₀ x = .free → (role x = .dir ↔ x ∈ dirs)
  kernel : ∀ x, role₀ x = .free → (role x = .kernel ↔ x ∈ own)
  held : ∀ x, role₀ x = .free → role x ≠ .held
  /-- The new directories map no frame of the earlier moment. -/
  apart : ∀ d ∈ dirs, ∀ i j f, i.val < 768 → target (look s d i j) = some f → role₀ f = .free
  kernelPgd : s.kernelPgd = s₀.kernelPgd

namespace Footprint

variable {dirs own : Set Nat}

theorem refl (h : Frames lo hi s role) : Footprint lo hi s role ∅ ∅ s role := by
  refine ⟨h, fun _ _ => rfl, fun _ _ => rfl, by simp, ?_, ?_, ?_, by simp, rfl⟩
  all_goals
    intro x hx
    simp [hx]

theorem role_of_dir (h : Footprint lo hi s₀ role₀ dirs own s role) {d : Nat} (hd : d ∈ dirs) :
    role d = .dir := (h.dir d (h.fresh d (Or.inl hd))).mpr hd

theorem role_of_own (h : Footprint lo hi s₀ role₀ dirs own s role) {x : Nat} (hx : x ∈ own) :
    role x = .kernel := (h.kernel x (h.fresh x (Or.inr hx))).mpr hx

/-- A new page table belongs to a new directory. -/
theorem table_new (h : Footprint lo hi s₀ role₀ dirs own s role) (h₀ : Frames lo hi s₀ role₀) {t d : Nat}
    {i : Fin 1024} (ht₀ : role₀ t = .free) (ht : role t = .table d i) : d ∈ dirs := by
  obtain ⟨hd, hi', hlink⟩ := h.frames.table t d i ht
  by_cases hd₀ : role₀ d = .free
  · exact (h.dir d hd₀).mp hd
  · -- A directory of the earlier moment still leads to its old page tables.
    rw [h.roles d hd₀] at hd
    unfold Machine.entry at hlink
    rw [h.mem d hd₀] at hlink
    have := h₀.entry d i t hd hi' hlink
    simp [ht₀] at this

/-- A new mapped frame is mapped by a new directory. -/
theorem user_new (h : Footprint lo hi s₀ role₀ dirs own s role) (h₀ : Frames lo hi s₀ role₀) {f : Nat}
    (hf₀ : role₀ f = .free) (hf : role f = .user) :
    ∃ d ∈ dirs, ∃ i j, i.val < 768 ∧ target (look s d i j) = some f := by
  obtain ⟨⟨t, j⟩, -, hslot⟩ := fiberCount_pos_iff.mp (h.frames.user f hf).2
  unfold pteMap at hslot
  split at hslot
  · rename_i htable
    obtain ⟨d, i, ht⟩ := Role.isTable_iff.mp htable
    obtain ⟨hd, hi', hlink⟩ := h.frames.table t d i ht
    by_cases ht₀ : role₀ t = .free
    · refine ⟨d, h.table_new h₀ ht₀ ht, i, j, hi', ?_⟩
      rw [look_of_entry hlink]
      exact hslot
    · rw [h.roles t ht₀] at ht
      unfold Machine.entry at hslot
      rw [h.mem t ht₀] at hslot
      have := h₀.pte t d i j f ht hslot
      simp [hf₀] at this
  · simp at hslot

/-- When no new directory is left, the frames that are missing are those of the kernel. -/
theorem free_iff (h : Footprint lo hi s₀ role₀ ∅ own s role) (h₀ : Frames lo hi s₀ role₀) (x : Nat) :
    s.pmm.Free x ↔ s₀.pmm.Free x ∧ x ∉ own := by
  rw [← h.frames.free, ← h₀.free]
  constructor
  · intro hx
    by_cases hx₀ : role₀ x = .free
    · refine ⟨hx₀, ?_⟩
      intro hown
      simp [h.role_of_own hown] at hx
    · exact absurd ((h.roles x hx₀).symm.trans hx) hx₀
  · rintro ⟨hx₀, hown⟩
    cases hx : role x with
    | free => rfl
    | kernel => exact absurd ((h.kernel x hx₀).mp hx) hown
    | dir => exact absurd ((h.dir x hx₀).mp hx) (Set.notMem_empty x)
    | held => exact absurd hx (h.held x hx₀)
    | table d i => exact absurd (h.table_new h₀ hx₀ hx) (Set.notMem_empty d)
    | user =>
        obtain ⟨d, hd, -⟩ := h.user_new h₀ hx₀ hx
        exact absurd hd (Set.notMem_empty d)

/-- A mapped frame of the earlier moment is still mapped there. -/
theorem user_old (h : Footprint lo hi s₀ role₀ dirs own s role) (h₀ : Frames lo hi s₀ role₀)
    (hframes : Frames lo hi s' role') (hmem : ∀ x, role₀ x ≠ .free → s'.mem x = s.mem x)
    (hdir : ∀ x, role' x = .dir ↔ role x = .dir) {x : Nat} (hx : role₀ x = .user) : role' x = .user := by
  obtain ⟨⟨t, j⟩, -, hslot⟩ := fiberCount_pos_iff.mp (h₀.user x hx).2
  unfold pteMap at hslot
  split at hslot
  · rename_i htable
    obtain ⟨d, i, ht⟩ := Role.isTable_iff.mp htable
    obtain ⟨hd, hi', hlink⟩ := h₀.table t d i ht
    have hdnew : role' d = .dir := by rw [hdir, h.roles d (by simp [hd]), hd]
    have hlink' : s'.entry d i = some t := by
      unfold Machine.entry
      rw [hmem d (by simp [hd]), h.mem d (by simp [hd])]
      exact hlink
    refine hframes.pte t d i j x (hframes.entry d i t hdnew hi' hlink') ?_
    unfold Machine.entry
    rw [hmem t (by simp [ht]), h.mem t (by simp [ht])]
    exact hslot
  · simp at hslot

/-- A step that changes nothing but page tables of the new directories and what they map. -/
theorem setPages (h : Footprint lo hi s₀ role₀ dirs own s role) (h₀ : Frames lo hi s₀ role₀)
    (hframes : Frames lo hi s' role')
    (hroles : ∀ x, role₀ x ≠ .free → role' x = role x ∨ role x = .user)
    (hmem : ∀ x, role₀ x ≠ .free → s'.mem x = s.mem x)
    (hdir : ∀ x, role' x = .dir ↔ role x = .dir) (hkernel : ∀ x, role' x = .kernel ↔ role x = .kernel)
    (hheld : ∀ x, role' x = .held ↔ role x = .held)
    (hapart : ∀ d ∈ dirs, ∀ i j f, i.val < 768 → target (look s' d i j) = some f →
      target (look s d i j) = some f ∨ role₀ f = .free)
    (hpgd : s'.kernelPgd = s.kernelPgd) : Footprint lo hi s₀ role₀ dirs own s' role' := by
  refine ⟨hframes, ?_, ?_, h.fresh, ?_, ?_, ?_, ?_, hpgd.trans h.kernelPgd⟩
  · intro x hx
    rcases hroles x hx with hx' | hx'
    · rw [hx', h.roles x hx]
    · have hx₀ := (h.roles x hx).symm.trans hx'
      rw [h.user_old h₀ hframes hmem hdir hx₀, hx₀]
  · intro x hx
    rw [hmem x hx, h.mem x hx]
  · intro x hx
    rw [hdir x]
    exact h.dir x hx
  · intro x hx
    rw [hkernel x]
    exact h.kernel x hx
  · intro x hx
    rw [ne_eq, hheld x]
    exact h.held x hx
  · intro d hd i j f hi' hf
    exact (hapart d hd i j f hi' hf).elim (h.apart d hd i j f hi') id

/-- A page table of a new directory is new. -/
theorem table_fresh (h : Footprint lo hi s₀ role₀ dirs own s role) (h₀ : Frames lo hi s₀ role₀) {d t : Nat}
    (hd : d ∈ dirs) {i : Fin 1024} (ht : role t = .table d i) : role₀ t = .free := by
  by_contra hc
  rw [h.roles t hc] at ht
  have := (h₀.table t d i ht).1
  simp [h.fresh d (Or.inl hd)] at this

/-- A frame that was free at the earlier moment, or has the role it had then. -/
theorem free_of_free (h : Footprint lo hi s₀ role₀ dirs own s role) {x : Nat} (hx : role x = .free) :
    role₀ x = .free := by
  by_contra hc
  exact hc ((h.roles x hc).symm.trans hx)

/-- `kmalloc` takes a block of free frames; there must be as many. -/
theorem kmalloc (h : Footprint lo hi s₀ role₀ dirs own s role) {bytes addr : U32}
    (hpos : 0 < pagesOf bytes) (hcall : kmalloc s bytes = .ok (addr, s')) :
    ∃ p role', addr = page2kva p ∧ p < 2 ^ 20 ∧ (∀ x ∈ Set.Ico p (p + pagesOf bytes), role x = .free) ∧
      Footprint lo hi s₀ role₀ dirs (own ∪ Set.Ico p (p + pagesOf bytes)) s' role' ∧
      (∀ x, role x ≠ .free → role' x = role x) ∧ (∃ m, s' = { s with pmm := m }) ∧
      s.pmm.freePageCount = s'.pmm.freePageCount + pagesOf bytes := by
  classical
  unfold Memory.kmalloc allocPhyPages at hcall
  obtain ⟨⟨page, s₁⟩, hpages, hcall⟩ := Res.bind_eq_ok.mp hcall
  obtain ⟨⟨page', m⟩, halloc, hpair⟩ := Res.bind_eq_ok.mp hpages
  obtain ⟨rfl, rfl⟩ := Prod.mk.inj (Except.ok.inj hpair)
  cases page' with
  | none => simp at hcall
  | some p =>
      obtain ⟨rfl, rfl⟩ := Prod.mk.inj (Except.ok.inj hcall)
      have hspec := ffAllocPages_spec h.frames.pmm halloc
      have hblock : ∀ x ∈ Set.Ico p (p + pagesOf bytes), role x = .free := by
        rintro x ⟨h1, h2⟩
        exact (h.frames.free x).mpr ((hspec.free x).mpr (Or.inr ⟨h1, h2⟩))
      have hlt : p < 2 ^ 20 := by
        have := hspec.inside
        have := h.frames.hi_le
        have := h.frames.pageCount_le
        omega
      let role' : Nat → Role := fun x => if x ∈ Set.Ico p (p + pagesOf bytes) then .kernel else role x
      have hin : ∀ x ∈ Set.Ico p (p + pagesOf bytes), role' x = .kernel := fun x hx => if_pos hx
      have hout : ∀ x, x ∉ Set.Ico p (p + pagesOf bytes) → role' x = role x := fun x hx => if_neg hx
      have hkeep : ∀ x, role x ≠ .free → role' x = role x := fun x hx => hout x fun hc => hx (hblock x hc)
      have hframes : Frames lo hi { s with pmm := m } role' := by
        refine h.frames.setKernel hspec.inv ?_ ?_ (fun x _ => hspec.ref x) ?_
        · intro x
          by_cases hx : x ∈ Set.Ico p (p + pagesOf bytes)
          · rw [hin x hx]
            simpa using hspec.taken x hx.1 hx.2
          · rw [hout x hx, h.frames.free, hspec.free x]
            exact or_iff_left hx
        · intro x
          by_cases hx : x ∈ Set.Ico p (p + pagesOf bytes)
          · exact Or.inr (Or.inl ⟨hblock x hx, hin x hx⟩)
          · exact Or.inl (hout x hx)
        · intro x hx hx'
          rw [hkeep x (by simp [hx]), hx] at hx'
          simp at hx'
      refine ⟨p, role', rfl, hlt, hblock, ?_, hkeep, ⟨m, rfl⟩, hspec.count⟩
      refine ⟨hframes, ?_, h.mem, ?_, ?_, ?_, ?_, h.apart, h.kernelPgd⟩
      · intro x hx
        rw [hkeep x (by rwa [h.roles x hx]), h.roles x hx]
      · rintro x (hx | hx | hx)
        · exact h.fresh x (Or.inl hx)
        · exact h.fresh x (Or.inr hx)
        · exact h.free_of_free (hblock x hx)
      · intro x hx
        by_cases hxb : x ∈ Set.Ico p (p + pagesOf bytes)
        · have := h.dir x hx
          rw [hblock x hxb] at this
          rw [hin x hxb]
          simpa using this
        · rw [hout x hxb]
          exact h.dir x hx
      · intro x hx
        by_cases hxb : x ∈ Set.Ico p (p + pagesOf bytes)
        · simp [hin x hxb, hxb]
        · rw [hout x hxb, h.kernel x hx]
          exact (or_iff_left hxb).symm
      · intro x hx
        by_cases hxb : x ∈ Set.Ico p (p + pagesOf bytes)
        · simp [hin x hxb]
        · rw [hout x hxb]
          exact h.held x hx

/-- `kfree` gives a block back. -/
theorem kfree (h : Footprint lo hi s₀ role₀ dirs own s role) (bytes : U32) {p : Nat}
    (h₀ : Frames lo hi s₀ role₀) (hpos : 0 < pagesOf bytes)
    (hblock : Set.Ico p (p + pagesOf bytes) ⊆ own) :
    ∃ m role', kfree s (page2kva p) bytes = .ok { s with pmm := m } ∧
      Footprint lo hi s₀ role₀ dirs (own \ Set.Ico p (p + pagesOf bytes)) { s with pmm := m } role' ∧
      (∀ x, role x ≠ .kernel → role' x = role x) := by
  classical
  have hrole : ∀ x ∈ Set.Ico p (p + pagesOf bytes), role x = .kernel := fun x hx => h.role_of_own (hblock hx)
  have hmanaged : ∀ x ∈ Set.Ico p (p + pagesOf bytes), lo ≤ x ∧ x < hi :=
    fun x hx => h₀.managed x (by simp [h.fresh x (Or.inr (hblock hx))])
  have hfirst := hmanaged p ⟨le_rfl, by omega⟩
  have hlast := hmanaged (p + pagesOf bytes - 1) ⟨by omega, by omega⟩
  have hin : lo ≤ p ∧ p + pagesOf bytes ≤ hi := ⟨hfirst.1, by omega⟩
  have hlt : p < 2 ^ 20 := h₀.lt (by simp [h.fresh p (Or.inr (hblock ⟨le_rfl, by omega⟩))])
  obtain ⟨m, hcall, hspec⟩ := ffFreePages_spec h.frames.pmm hpos hin.1 hin.2 fun x h1 h2 hc => by
    have := (h.frames.free x).mpr hc
    simp [hrole x ⟨h1, h2⟩] at this
  let role' : Nat → Role := fun x => if x ∈ Set.Ico p (p + pagesOf bytes) then .free else role x
  have hgone : ∀ x ∈ Set.Ico p (p + pagesOf bytes), role' x = .free := fun x hx => if_pos hx
  have hout : ∀ x, x ∉ Set.Ico p (p + pagesOf bytes) → role' x = role x := fun x hx => if_neg hx
  have hframes : Frames lo hi { s with pmm := m } role' := by
    refine h.frames.setKernel hspec.inv ?_ ?_ ?_ ?_
    · intro x
      by_cases hx : x ∈ Set.Ico p (p + pagesOf bytes)
      · simp only [hgone x hx, true_iff]
        exact (hspec.free x).mpr (Or.inr hx)
      · rw [hout x hx, h.frames.free, hspec.free x]
        exact (or_iff_left hx).symm
    · intro x
      by_cases hx : x ∈ Set.Ico p (p + pagesOf bytes)
      · refine Or.inr (Or.inr ⟨hrole x hx, hgone x hx, ?_⟩)
        rintro rfl
        have hfree := h.fresh _ (Or.inr (hblock hx))
        rw [h.kernelPgd, h₀.kernelPgd.1] at hfree
        simp at hfree
      · exact Or.inl (hout x hx)
    · intro x hx
      rw [hspec.ref x, if_neg]
      intro hc
      exact hx (hrole x hc)
    · intro x hx hx'
      by_cases hxb : x ∈ Set.Ico p (p + pagesOf bytes)
      · rw [hspec.ref x]
        exact if_pos hxb
      · rw [hout x hxb, hx] at hx'
        simp at hx'
  refine ⟨m, role', ?_, ?_, ?_⟩
  · have hle : p ≤ s.pageCount := by
      have := h.frames.hi_le
      omega
    unfold Memory.kfree pa2page freePhyPages
    rw [shift_page2kva hlt, if_neg (by omega), Res.ok_bind, hcall]
    rfl
  · refine ⟨hframes, ?_, h.mem, ?_, ?_, ?_, ?_, h.apart, h.kernelPgd⟩
    · intro x hx
      rw [hout x ?_, h.roles x hx]
      intro hc
      exact hx (h.fresh x (Or.inr (hblock hc)))
    · rintro x (hx | hx)
      · exact h.fresh x (Or.inl hx)
      · exact h.fresh x (Or.inr hx.1)
    · intro x hx
      by_cases hxb : x ∈ Set.Ico p (p + pagesOf bytes)
      · have := h.dir x hx
        rw [hrole x hxb] at this
        rw [hgone x hxb]
        simpa using this
      · rw [hout x hxb]
        exact h.dir x hx
    · intro x hx
      by_cases hxb : x ∈ Set.Ico p (p + pagesOf bytes)
      · simp [hgone x hxb, hxb]
      · rw [hout x hxb, h.kernel x hx]
        exact ⟨fun hc => ⟨hc, hxb⟩, fun hc => hc.1⟩
    · intro x hx
      by_cases hxb : x ∈ Set.Ico p (p + pagesOf bytes)
      · simp [hgone x hxb]
      · rw [hout x hxb]
        exact h.held x hx
  · intro x hx
    exact hout x fun hc => hx (hrole x hc)

/-- `setup_pgdir` takes a frame for a directory that shows no user page, or there is none. -/
theorem setupPgdir (h : Footprint lo hi s₀ role₀ dirs own s role) {pgdir : Option Nat}
    (hcall : setupPgdir s = .ok (pgdir, s')) :
    (pgdir = none ∧ s' = s) ∨ ∃ d, pgdir = some d ∧ role d = .free ∧
      Footprint lo hi s₀ role₀ (insert d dirs) own s' (Function.update role d .dir) ∧
      ∀ i : Fin 1024, i.val < 768 → s'.entry d i = none := by
  cases pgdir with
  | none =>
      left
      refine ⟨rfl, ?_⟩
      unfold Memory.setupPgdir at hcall
      rcases allocPhyPages_frames h.frames with halloc | ⟨p, m, halloc, hp, -⟩
      · rw [halloc, Res.ok_bind] at hcall
        obtain ⟨-, rfl⟩ := Prod.mk.inj (Except.ok.inj hcall)
        rfl
      · have hframe : pa2kva ({ s with pmm := m } : Machine) (page2pa p) = .ok p :=
          pa2kva_page2pa h.frames (by simp [hp]) rfl
        rw [halloc, Res.ok_bind] at hcall
        dsimp only at hcall
        rw [hframe, Res.ok_bind] at hcall
        simp [pure, Except.pure] at hcall
  | some d =>
      right
      have hpgd : s'.kernelPgd = s.kernelPgd := setupPgdir_kernelPgd hcall
      obtain ⟨hd, hframes, hmem, hkernel⟩ := setupPgdir_frames h.frames hcall
      have hd₀ := h.free_of_free hd
      have hentry : ∀ i : Fin 1024, i.val < 768 → s'.entry d i = none := by
        intro i hi'
        unfold Machine.entry
        rw [hkernel]
        exact h.frames.kernelPgd.2 i hi'
      refine ⟨d, rfl, hd, ⟨hframes, ?_, ?_, ?_, ?_, ?_, ?_, ?_, hpgd.trans h.kernelPgd⟩, hentry⟩
      · intro x hx
        have hxd : x ≠ d := by
          rintro rfl
          exact hx hd₀
        rw [Function.update_of_ne hxd, h.roles x hx]
      · intro x hx
        rw [hmem x, h.mem x hx]
        rintro rfl
        exact hx hd₀
      · rintro x ((rfl | hx) | hx)
        · exact hd₀
        · exact h.fresh x (Or.inl hx)
        · exact h.fresh x (Or.inr hx)
      · intro x hx
        by_cases hxd : x = d
        · subst hxd
          simp
        · rw [Function.update_of_ne hxd, h.dir x hx]
          simp [hxd]
      · intro x hx
        by_cases hxd : x = d
        · subst hxd
          have := h.kernel x hx
          rw [hd] at this
          simpa using this
        · rw [Function.update_of_ne hxd, h.kernel x hx]
      · intro x hx
        by_cases hxd : x = d
        · subst hxd
          simp
        · rw [Function.update_of_ne hxd]
          exact h.held x hx
      · rintro d' hd' i j f hi' hf
        by_cases hdd : d' = d
        · subst hdd
          rw [look_of_entry_none (hentry i hi')] at hf
          simp at hf
        · have hold : d' ∈ dirs := hd'.resolve_left hdd
          rw [h.frames.look_eq (h.role_of_dir hold) hi' j (hmem d' hdd) ?_] at hf
          · exact h.apart d' hold i j f hi' hf
          · intro t ht
            refine hmem t ?_
            rintro rfl
            simp [hd] at ht

/-- `exit_mmap` unmaps what a new directory maps, and frees its page tables. -/
theorem exitMmap (h : Footprint lo hi s₀ role₀ dirs own s role) (h₀ : Frames lo hi s₀ role₀) {mm : MemMap}
    (hd : mm.dir ∈ dirs) (href : mm.ref = 0) (hmm : Contained s mm) :
    ∃ s' role', exitMmap s (some mm) = .ok s' ∧ Footprint lo hi s₀ role₀ dirs own s' role' ∧
      ∀ i : Fin 1024, i.val < 768 → s'.entry mm.dir i = none := by
  have hdir := h.role_of_dir hd
  obtain ⟨s₁, role₁, s₂, role₂, hcall, hun, hcl⟩ := exitMmap_spec h.frames hdir href hmm
  have hkept : ∀ x, role₀ x ≠ .free → x ≠ mm.dir ∧ ∀ i, role x ≠ .table mm.dir i := by
    refine fun x hx => ⟨?_, fun i hc => hx (h.table_fresh h₀ hd hc)⟩
    rintro rfl
    exact hx (h.fresh _ (Or.inl hd))
  have hback : ∀ x r, r ≠ .free → (∀ d i, r ≠ .table d i) → r ≠ .user → (role₂ x = r ↔ role x = r) := by
    intro x r hr htable huser
    rcases hun.roles x with hx | ⟨hx, hx'⟩ <;> rcases hcl.roles x with hy | ⟨hy, i, hy'⟩
    · rw [hy, hx]
    · rw [hy, ← hx, hy']
      exact ⟨fun hc => absurd hc.symm hr, fun hc => absurd hc.symm (htable _ _)⟩
    · rw [hy, hx', hx]
      exact ⟨fun hc => absurd hc.symm hr, fun hc => absurd hc.symm huser⟩
    · simp [hx'] at hy'
  refine ⟨s₂, role₂, hcall, ?_, fun i hi' => hcl.gone i hi' hi'⟩
  refine h.setPages h₀ hcl.frames ?_ ?_ ?_ ?_ ?_ ?_ (exitMmap_kernelPgd hcall)
  · intro x hx
    rcases hcl.roles x with hy | ⟨-, i, hy⟩
    · rw [hy]
      exact (hun.roles x).imp_right And.left
    · exact absurd ((hun.table_iff x i).mp hy) ((hkept x hx).2 i)
  · intro x hx
    rw [hcl.mem x (hkept x hx).1, hun.mem x (hkept x hx).2]
  · exact fun x => hback x .dir (by simp) (by simp) (by simp)
  · exact fun x => hback x .kernel (by simp) (by simp) (by simp)
  · exact fun x => hback x .held (by simp) (by simp) (by simp)
  · intro d' hd' i j f hi' hf
    left
    by_cases hdd : d' = mm.dir
    · subst hdd
      rw [look_of_entry_none (hcl.gone i hi' hi')] at hf
      simp at hf
    · have hrole := h.role_of_dir hd'
      have hrole₁ := (hun.dir_iff d').mpr hrole
      rw [hun.frames.look_eq hrole₁ hi' j (hcl.mem d' hdd) ?_, hun.kept d' i j hrole hi' ?_] at hf
      · exact hf
      · exact fun hc => hdd hc.1
      · intro t ht
        refine hcl.mem t ?_
        rintro rfl
        rw [(hun.dir_iff _).mpr hdir] at ht
        simp at ht

/-- `put_pgdir` frees a new directory that shows no user page. -/
theorem putPgdir (h : Footprint lo hi s₀ role₀ dirs own s role) {mm : MemMap}
    (hd : mm.dir ∈ dirs) (hpgdir : KERNEL_BASE ≤ mm.pgdir)
    (hempty : ∀ i : Fin 1024, i.val < 768 → s.entry mm.dir i = none) :
    ∃ s' role', putPgdir s mm = .ok s' ∧ Footprint lo hi s₀ role₀ (dirs \ {mm.dir}) own s' role' := by
  have hfresh := h.fresh _ (Or.inl hd)
  obtain ⟨m, hcall, hframes⟩ := putPgdir_spec h.frames (h.role_of_dir hd) hpgdir hempty
  refine ⟨_, _, hcall, hframes, ?_, h.mem, ?_, ?_, ?_, ?_, ?_, h.kernelPgd⟩
  · intro x hx
    rw [Function.update_of_ne ?_, h.roles x hx]
    rintro rfl
    exact hx hfresh
  · rintro x (hx | hx)
    · exact h.fresh x (Or.inl hx.1)
    · exact h.fresh x (Or.inr hx)
  · intro x hx
    by_cases hxd : x = mm.dir
    · subst hxd
      simp
    · rw [Function.update_of_ne hxd, h.dir x hx]
      simp [hxd]
  · intro x hx
    by_cases hxd : x = mm.dir
    · subst hxd
      have := h.kernel mm.dir hx
      rw [h.role_of_dir hd] at this
      simpa using this
    · rw [Function.update_of_ne hxd, h.kernel x hx]
  · intro x hx
    by_cases hxd : x = mm.dir
    · subst hxd
      simp
    · rw [Function.update_of_ne hxd]
      exact h.held x hx
  · intro d hdd
    exact h.apart d hdd.1

/-- `mm_destroy` frees the blocks of the areas. -/
theorem freeAreas (h : Footprint lo hi s₀ role₀ dirs own s role) (h₀ : Frames lo hi s₀ role₀)
    (areas : List VirtMemArea) (hnodes : ∀ vma ∈ areas, vma.node = page2kva vma.page ∧ vma.page ∈ own)
    (hnodup : (areas.map VirtMemArea.page).Nodup) :
    ∃ s' role', freeAreas areas s = .ok s' ∧
      Footprint lo hi s₀ role₀ dirs (own \ areaPages areas) s' role' := by
  induction areas generalizing s role own with
  | nil =>
      refine ⟨s, role, rfl, ?_⟩
      rwa [show own \ areaPages [] = own by simp [areaPages]]
  | cons vma rest ih =>
      obtain ⟨hnode, hown⟩ := hnodes vma (by simp)
      obtain ⟨hvma, hrest⟩ := List.nodup_cons.mp hnodup
      have hone : Set.Ico vma.page (vma.page + pagesOf sizeofVirtMemArea) = {vma.page} :=
        Ico_one vma.page
      obtain ⟨m, role₁, hfree, h₁, -⟩ := h.kfree sizeofVirtMemArea (p := vma.page) h₀ (by decide)
        (by rw [hone]; exact Set.singleton_subset_iff.mpr hown)
      rw [hone] at h₁
      have hleft : ∀ v ∈ rest, v.node = page2kva v.page ∧ v.page ∈ own \ {vma.page} := by
        intro v hv
        obtain ⟨h1, h2⟩ := hnodes v (by simp [hv])
        refine ⟨h1, h2, ?_⟩
        intro hc
        exact hvma (List.mem_map.mpr ⟨v, hv, hc⟩)
      obtain ⟨s', role', hcall, h'⟩ := ih h₁ hleft hrest
      refine ⟨s', role', ?_, ?_⟩
      · unfold Memory.freeAreas
        rw [hnode, hfree, Res.ok_bind, hcall]
      · rwa [show own \ areaPages (vma :: rest) = (own \ {vma.page}) \ areaPages rest by
          ext x
          simp [areaPages, and_assoc]]

/-- `mm_destroy` frees the blocks of a map that nobody uses. -/
theorem mmDestroy (h : Footprint lo hi s₀ role₀ dirs own s role) (h₀ : Frames lo hi s₀ role₀) {p : Nat}
    {mm : MemMap} (href : mm.ref ≤ 0) (hblocks : MapBlocks own p mm) :
    ∃ s' role', mmDestroy s (page2kva p) mm = .ok (none, s') ∧
      Footprint lo hi s₀ role₀ dirs (own \ (areaPages mm.vmaList ∪ {p})) s' role' := by
  obtain ⟨s₁, role₁, hfree, h₁⟩ := h.freeAreas h₀ mm.vmaList hblocks.areas hblocks.nodup
  have hone : Set.Ico p (p + pagesOf sizeofMemMap) = {p} := Ico_one p
  have hp : p ∈ own \ areaPages mm.vmaList := by
    refine ⟨hblocks.map, ?_⟩
    rintro ⟨vma, hvma, rfl⟩
    exact hblocks.apart (List.mem_map_of_mem hvma)
  obtain ⟨m, role₂, hmap, h₂, -⟩ := h₁.kfree sizeofMemMap h₀ (by decide)
    (by rw [hone]; exact Set.singleton_subset_iff.mpr hp)
  rw [hone, Set.sdiff_sdiff] at h₂
  refine ⟨_, role₂, ?_, h₂⟩
  unfold Memory.mmDestroy
  rw [if_pos href, hfree, Res.ok_bind, hmap]
  rfl

end Footprint

end Footprint

end Memory
end FreakOS
