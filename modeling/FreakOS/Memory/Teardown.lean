import FreakOS.Memory.Fork

/-!
# Tearing down an address space

`exit_mmap` unmaps the pages of all areas, then frees the page tables of the slots that the areas touch;
`put_pgdir` frees the directory.

* `Cleared`, `exitRange_spec` — what freeing the page tables of some slots leaves.
* `exitMmap_spec` — the two loops.
* `teardown_exact` — what goes back to the allocator.
-/

namespace FreakOS
namespace Memory

open Lib

/-- From `s` to `s'` the page tables of the slots `B` of directory `d` have been freed. -/
structure Cleared (lo hi : Nat) (d : Nat) (B : Fin 1024 → Prop) (s : Machine) (role : Nat → Role)
    (s' : Machine) (role' : Nat → Role) : Prop where
  frames : Frames lo hi s' role'
  roles : ∀ x, role' x = role x ∨ (role' x = .free ∧ ∃ i, role x = .table d i)
  mem : ∀ x, x ≠ d → s'.mem x = s.mem x
  kept : ∀ i : Fin 1024, 768 ≤ i.val ∨ ¬ B i → s'.mem d i = s.mem d i
  gone : ∀ i : Fin 1024, i.val < 768 → B i → s'.entry d i = none

section Teardown

variable {lo hi d : Nat} {B C : Fin 1024 → Prop} {s s' s'' : Machine} {role role' role'' : Nat → Role}

namespace Cleared

theorem refl (h : Frames lo hi s role) (hB : ∀ i : Fin 1024, i.val < 768 → B i → s.entry d i = none) :
    Cleared lo hi d B s role s role :=
  ⟨h, fun _ => Or.inl rfl, fun _ _ => rfl, fun _ _ => rfl, hB⟩

/-- Slots without a page table may be counted in. -/
theorem mono (h : Cleared lo hi d B s role s' role') (hBC : ∀ i, B i → C i)
    (hCB : ∀ i : Fin 1024, i.val < 768 → C i → B i ∨ s'.entry d i = none) :
    Cleared lo hi d C s role s' role' := by
  refine ⟨h.frames, h.roles, h.mem, ?_, ?_⟩
  · rintro i hi'
    exact h.kept i (hi'.imp_right fun hC hB => hC (hBC i hB))
  · intro i hi' hC
    exact (hCB i hi' hC).elim (h.gone i hi') id

theorem trans (h₁ : Cleared lo hi d B s role s' role') (h₂ : Cleared lo hi d C s' role' s'' role'') :
    Cleared lo hi d (fun i => B i ∨ C i) s role s'' role'' := by
  refine ⟨h₂.frames, ?_, ?_, ?_, ?_⟩
  · intro x
    rcases h₁.roles x with hx | ⟨hx, hx'⟩
    · rw [← hx]
      exact h₂.roles x
    · right
      rcases h₂.roles x with hy | ⟨-, i, hy⟩
      · exact ⟨hy.trans hx, hx'⟩
      · simp [hx] at hy
  · intro x hx
    rw [h₂.mem x hx, h₁.mem x hx]
  · intro i hi'
    rw [h₂.kept i (hi'.imp_right fun hc hC => hc (Or.inr hC)),
      h₁.kept i (hi'.imp_right fun hc hB => hc (Or.inl hB))]
  · intro i hi' hBC
    by_cases hC : C i
    · exact h₂.gone i hi' hC
    · unfold Machine.entry
      rw [h₂.kept i (Or.inr hC)]
      exact h₁.gone i hi' (hBC.resolve_right hC)

theorem dir_iff (h : Cleared lo hi d B s role s' role') (x : Nat) : role' x = .dir ↔ role x = .dir := by
  rcases h.roles x with hx | ⟨hx, i, hx'⟩
  · rw [hx]
  · simp [hx, hx']

/-- Page tables that are left are as empty as before. -/
theorem empty (h : Cleared lo hi d B s role s' role') (hd : role d = .dir)
    (hempty : ∀ t i j, role t = .table d i → s.entry t j = none) (t : Nat) (i j : Fin 1024)
    (ht : role' t = .table d i) : s'.entry t j = none := by
  rcases h.roles t with ht' | ⟨ht', -⟩
  · have htd : t ≠ d := by
      rintro rfl
      rw [ht', hd] at ht
      simp at ht
    unfold Machine.entry
    rw [h.mem t htd]
    exact hempty t i j (ht' ▸ ht)
  · simp [ht] at ht'

end Cleared

/-- One round of `exit_range` frees the page table of its slot. -/
theorem exitRound_spec (h : Frames lo hi s role) (hd : role d = .dir)
    (hempty : ∀ t i j, role t = .table d i → s.entry t j = none) {va : U32}
    (hva : (pgdIndex va).val < 768) :
    ∃ s' role', exitRound d s va = .ok (.next (va + PGDE_MAP_NBYTE), s') ∧
      Cleared lo hi d (fun i => i = pgdIndex va) s role s' role' := by
  unfold exitRound
  cases hentry : s.entry d (pgdIndex va) with
  | none =>
      rw [if_neg (by simpa using target_eq_none_iff.mp hentry)]
      refine ⟨s, role, rfl, Cleared.refl h ?_⟩
      rintro i - rfl
      exact hentry
  | some t =>
      have ht := h.entry d _ t hd hva hentry
      obtain ⟨m, hfree, hframes⟩ := h.unlink ht fun j => hempty t _ j ht
      rw [if_pos (present_of_target hentry)]
      have hpage : pgd2page s (s.mem d (pgdIndex va)) = .ok t :=
        pa2page_of_target hentry (h.le_pageCount (by simp [ht]))
      rw [hpage, Res.ok_bind, hfree, Res.ok_bind]
      refine ⟨_, _, rfl, ⟨hframes, ?_, ?_, ?_, ?_⟩⟩
      · intro x
        by_cases hx : x = t
        · subst hx
          exact Or.inr ⟨Function.update_self .., _, ht⟩
        · exact Or.inl (Function.update_of_ne hx _ _)
      · intro x hx
        exact store_mem_of_ne _ _ _ hx
      · intro i hi'
        have hne : i ≠ pgdIndex va := by
          rintro rfl
          rcases hi' with hi' | hi'
          · omega
          · exact hi' rfl
        show Function.update s.mem d (Function.update (s.mem d) (pgdIndex va) 0) d i = s.mem d i
        rw [Function.update_self, Function.update_of_ne hne]
      · rintro i - rfl
        rw [entry_store, if_pos ⟨rfl, rfl⟩]
        exact target_zero

/-- The slots that a range touches. -/
def TouchesSlot (start stop : U32) (i : Fin 1024) : Prop :=
  start.toNat / 2 ^ 22 ≤ i.val ∧ i.val * 2 ^ 22 < stop.toNat

theorem touchesSlot_of_page {start stop : U32} {i j : Fin 1024} (h1 : start.toNat ≤ pageAddr i j)
    (h2 : pageAddr i j < stop.toNat) : TouchesSlot start stop i := by
  have := j.isLt
  unfold pageAddr at h1 h2
  exact ⟨by omega, Nat.lt_of_le_of_lt (Nat.le_add_right _ _) h2⟩

/-- `exit_range` frees the page tables of the slots that its range touches. -/
theorem exitRange_spec (h : Frames lo hi s role) (hd : role d = .dir)
    (hempty : ∀ t i j, role t = .table d i → s.entry t j = none) {start stop : U32}
    (hrange : UserRange start stop) :
    ∃ s' role', exitRange s d start stop = .ok s' ∧
      Cleared lo hi d (TouchesSlot start stop) s role s' role' := by
  have hlt := hrange.lt
  have htop := hrange.le_top
  unfold exitRange
  rw [if_neg (not_not.mpr ⟨hrange.start_aligned, hrange.stop_aligned⟩), hrange.user]
  simp only [Bool.not_true, Bool.false_eq_true, if_false]
  have hdown : (roundDown start PGDE_MAP_NBYTE).toNat = start.toNat / 2 ^ 22 * 2 ^ 22 := by
    rw [roundDown_toNat, show PGDE_MAP_NBYTE.toNat = 4194304 from rfl]
    omega
  -- The slots up to the current address are done.
  let P : Nat → Machine → Prop := fun a sa => a % 2 ^ 22 = 0 ∧ start.toNat / 2 ^ 22 * 2 ^ 22 ≤ a ∧
    ∃ rolea, Cleared lo hi d (fun i => TouchesSlot start stop i ∧ i.val * 2 ^ 22 < a) s role sa rolea
  have hrule := rangeLoop_rule (exitRound d) stop P (fun _ _ => False) (fun _ => False) ?_ rangeFuel
    (s := s) (a := (roundDown start PGDE_MAP_NBYTE).toNat) ?_ (by omega) ?_
  · rw [BitVec.ofNat_toNat, BitVec.setWidth_eq] at hrule
    rcases hrule with ⟨e, -, he⟩ | ⟨code, s', hloop, hfalse | ⟨-, a, ha, -, -, role', hspec⟩⟩
    · exact absurd he id
    · exact absurd hfalse id
    · refine ⟨s', role', by rw [hloop]; rfl, hspec.mono (fun i hi' => hi'.1) ?_⟩
      intro i _ hi'
      exact Or.inl ⟨hi', by have := hi'.2; omega⟩
  · rintro a sa ⟨hmod, hle, rolea, hspec⟩ hmore
    have hva := pgdIndex_lt_of_user (a := a) (by omega)
    have hval := pgdIndex_val (a := a) (by omega)
    obtain ⟨s', role', hcall, hone⟩ := exitRound_spec hspec.frames ((hspec.dir_iff d).mpr hd)
      (hspec.empty hd hempty) hva
    rw [show BitVec.ofNat 32 a + PGDE_MAP_NBYTE = BitVec.ofNat 32 (a + 2 ^ 22) by
      rw [BitVec.ofNat_add]; rfl] at hcall
    refine Or.inr (Or.inr ⟨_, s', hcall, by omega, by omega, ⟨by omega, by omega, role', ?_⟩⟩)
    refine (hspec.trans hone).mono ?_ ?_
    · rintro i (⟨hi', hia⟩ | rfl)
      · exact ⟨hi', by omega⟩
      · refine ⟨⟨?_, ?_⟩, ?_⟩ <;> rw [hval] <;> omega
    · rintro i - ⟨hi', hia⟩
      left
      by_cases hia' : i.val * 2 ^ 22 < a
      · exact Or.inl ⟨hi', hia'⟩
      · refine Or.inr (Fin.ext ?_)
        rw [hval]
        omega
  · refine ⟨by omega, by omega, role, Cleared.refl h ?_⟩
    rintro i - ⟨⟨h1, -⟩, h2⟩
    omega
  · unfold rangeFuel
    omega

/-- The first loop of `exit_mmap`. -/
theorem forEachArea_unmapRange (h : Frames lo hi s role) (hd : role d = .dir) (areas : List VirtMemArea)
    (huser : ∀ vma ∈ areas, UserRange vma.vmStart vma.vmEnd) :
    ∃ s' role', forEachArea unmapRange d areas s = .ok s' ∧
      Unmapped lo hi d (InAreas areas) s role s' role' := by
  induction areas generalizing s role with
  | nil => exact ⟨s, role, rfl, Unmapped.refl h (by simp [InAreas])⟩
  | cons vma rest ih =>
      obtain ⟨s₁, role₁, hcall, hspec⟩ := unmapRange_spec h hd (huser vma (by simp))
      obtain ⟨s₂, role₂, hrest, hspec'⟩ := ih hspec.frames ((hspec.dir_iff d).mpr hd)
        fun v hv => huser v (by simp [hv])
      refine ⟨s₂, role₂, ?_, (hspec.trans hd hspec').mono ?_ ?_⟩
      · unfold forEachArea
        rw [hcall, Res.ok_bind, hrest]
      · rintro i j (hij | ⟨v, hv, hij⟩)
        · exact ⟨vma, by simp, hij⟩
        · exact ⟨v, by simp [hv], hij⟩
      · rintro i j - ⟨v, hv, hij⟩
        rcases List.mem_cons.mp hv with rfl | hv
        · exact Or.inl (Or.inl hij)
        · exact Or.inl (Or.inr ⟨v, hv, hij⟩)

/-- The second loop of `exit_mmap`. -/
theorem forEachArea_exitRange (h : Frames lo hi s role) (hd : role d = .dir)
    (hempty : ∀ t i j, role t = .table d i → s.entry t j = none) (areas : List VirtMemArea)
    (huser : ∀ vma ∈ areas, UserRange vma.vmStart vma.vmEnd) :
    ∃ s' role', forEachArea exitRange d areas s = .ok s' ∧
      Cleared lo hi d (fun i => ∃ vma ∈ areas, TouchesSlot vma.vmStart vma.vmEnd i) s role s' role' := by
  induction areas generalizing s role with
  | nil => exact ⟨s, role, rfl, Cleared.refl h (by simp)⟩
  | cons vma rest ih =>
      obtain ⟨s₁, role₁, hcall, hspec⟩ := exitRange_spec h hd hempty (huser vma (by simp))
      obtain ⟨s₂, role₂, hrest, hspec'⟩ := ih hspec.frames ((hspec.dir_iff d).mpr hd) (hspec.empty hd hempty)
        fun v hv => huser v (by simp [hv])
      refine ⟨s₂, role₂, ?_, (hspec.trans hspec').mono ?_ ?_⟩
      · unfold forEachArea
        rw [hcall, Res.ok_bind, hrest]
      · rintro i (hi' | ⟨v, hv, hi'⟩)
        · exact ⟨vma, by simp, hi'⟩
        · exact ⟨v, by simp [hv], hi'⟩
      · rintro i - ⟨v, hv, hi'⟩
        rcases List.mem_cons.mp hv with rfl | hv
        · exact Or.inl (Or.inl hi')
        · exact Or.inl (Or.inr ⟨v, hv, hi'⟩)

/-- A memory map whose pages are all in its areas, and whose page tables are all touched by them. -/
structure Contained (s : Machine) (mm : MemMap) : Prop where
  user : ∀ vma ∈ mm.vmaList, UserRange vma.vmStart vma.vmEnd
  pages : ∀ i j : Fin 1024, i.val < 768 → target (look s mm.dir i j) ≠ none → InAreas mm.vmaList i j
  slots : ∀ i : Fin 1024, i.val < 768 → s.entry mm.dir i ≠ none → ∃ j, InAreas mm.vmaList i j

/-- `exit_mmap` unmaps all pages of the map and frees all its page tables. -/
theorem exitMmap_spec (h : Frames lo hi s role) {mm : MemMap} (hd : role mm.dir = .dir)
    (href : mm.ref = 0) (hmm : Contained s mm) :
    ∃ s₁ role₁ s₂ role₂, exitMmap s (some mm) = .ok s₂ ∧
      Unmapped lo hi mm.dir (fun i _ => i.val < 768) s role s₁ role₁ ∧
      Cleared lo hi mm.dir (fun i => i.val < 768) s₁ role₁ s₂ role₂ := by
  obtain ⟨s₁, role₁, hunmap, hspec⟩ := forEachArea_unmapRange h hd mm.vmaList hmm.user
  have hd₁ := (hspec.dir_iff mm.dir).mpr hd
  -- Outside the areas there was nothing to unmap.
  have hall : Unmapped lo hi mm.dir (fun i _ => i.val < 768) s role s₁ role₁ := by
    refine hspec.mono (fun i j hij => hij.lt hmm.user) ?_
    intro i j hi' _
    by_cases hij : InAreas mm.vmaList i j
    · exact Or.inl hij
    · right
      rw [hspec.kept mm.dir i j hd hi' fun hc => hij hc.2]
      by_contra hc
      exact hij (hmm.pages i j hi' hc)
  have hempty : ∀ t i j, role₁ t = .table mm.dir i → s₁.entry t j = none := by
    intro t i j ht
    obtain ⟨-, hi', hlink⟩ := hspec.frames.table t _ i ht
    have := hall.gone i j hi' hi'
    rwa [look_of_entry hlink] at this
  obtain ⟨s₂, role₂, hexit, hspec'⟩ := forEachArea_exitRange hspec.frames hd₁ hempty mm.vmaList hmm.user
  refine ⟨s₁, role₁, s₂, role₂, ?_, hall, hspec'.mono ?_ ?_⟩
  · unfold exitMmap
    dsimp only
    rw [if_neg (not_not.mpr href), hunmap, Res.ok_bind, hexit]
  · rintro i ⟨vma, hvma, -, hlt⟩
    have := (hmm.user vma hvma).le_top
    omega
  · intro i hi' _
    by_cases htouch : ∃ vma ∈ mm.vmaList, TouchesSlot vma.vmStart vma.vmEnd i
    · exact Or.inl htouch
    · right
      unfold Machine.entry
      rw [hspec'.kept i (Or.inr htouch), hspec.mem mm.dir (by simp [hd])]
      by_contra hc
      obtain ⟨j, vma, hvma, h1, h2⟩ := hmm.slots i hi' hc
      exact htouch ⟨vma, hvma, touchesSlot_of_page h1 h2⟩

/-- What is left of an address space: `s` before, `s₁` after `exit_mmap`, `s₂` after `put_pgdir`. -/
structure TornDown (s s₁ s₂ : Machine) (dirs : Set Nat) (mm : MemMap) : Prop where
  /-- The frames that come back: the directory, its page tables, and what only it has mapped. -/
  freed : ∀ f, s₂.pmm.Free f ↔ s.pmm.Free f ∨ f = mm.dir ∨ IsTable s {mm.dir} f ∨
    (Mapped s {mm.dir} f ∧ ¬ Mapped s (dirs \ {mm.dir}) f)
  /-- Each comes back once. -/
  count : s₂.pmm.freePageCount = s.pmm.freePageCount + {f | s₂.pmm.Free f ∧ ¬ s.pmm.Free f}.ncard
  /-- Frames that are mapped elsewhere lose the references of this address space. -/
  refs : ∀ f, Mapped s (dirs \ {mm.dir}) f →
    (s₂.pmm.pages f).ref.toNat + pteCount s {mm.dir} f = (s.pmm.pages f).ref.toNat
  user_pdes : ∀ i : Fin 1024, i.val < 768 → s₁.entry mm.dir i = none
  kernel_pdes : ∀ i : Fin 1024, 768 ≤ i.val → s₂.mem mm.dir i = s.mem mm.dir i
  /-- All memory outside the directory and its page tables is as before. -/
  rest : ∀ x, x ≠ mm.dir → ¬ IsTable s {mm.dir} x → s₂.mem x = s.mem x

theorem putPgdir_spec (h : Frames lo hi s role) {mm : MemMap} (hd : role mm.dir = .dir)
    (hpgdir : KERNEL_BASE ≤ mm.pgdir)
    (hempty : ∀ i : Fin 1024, i.val < 768 → s.entry mm.dir i = none) :
    ∃ m, putPgdir s mm = .ok { s with pmm := m } ∧
      Frames lo hi { s with pmm := m } (Function.update role mm.dir .free) := by
  obtain ⟨m, hfree, hframes⟩ := h.dropDir hd hempty
  have hle := h.le_pageCount (f := mm.dir) (by simp [hd])
  refine ⟨m, ?_, hframes⟩
  unfold putPgdir kva2page pa2page
  rw [if_neg (BitVec.not_lt.mpr hpgdir)]
  rw [show ((mm.pgdir - KERNEL_BASE) >>> 12).toNat = mm.dir from rfl, if_neg (by omega), Res.ok_bind, hfree]

/-- The number of free frames. -/
theorem Pmm.Inv.freePageCount_eq {m : Pmm} (h : m.Inv lo hi) :
    {f | m.Free f}.Finite ∧ m.freePageCount = {f | m.Free f}.ncard := by
  obtain ⟨hfinite, hcard⟩ := h.coalesced.ncard_covers
  exact ⟨hfinite, h.count.trans hcard.symm⟩

/-- An allocator with more free frames. -/
theorem freePageCount_add {m m' : Pmm} (h : m.Inv lo hi) (h' : m'.Inv lo hi)
    (hmono : ∀ f, m.Free f → m'.Free f) :
    m'.freePageCount = m.freePageCount + {f | m'.Free f ∧ ¬ m.Free f}.ncard := by
  obtain ⟨hfinite, hcount⟩ := h.freePageCount_eq
  obtain ⟨hfinite', hcount'⟩ := h'.freePageCount_eq
  have hset : {f | m'.Free f} = {f | m.Free f} ∪ {f | m'.Free f ∧ ¬ m.Free f} := by
    ext f
    have := hmono f
    simp only [Set.mem_union, Set.mem_ofPred_eq]
    tauto
  have hdisjoint : Disjoint {f | m.Free f} {f | m'.Free f ∧ ¬ m.Free f} := by
    rw [Set.disjoint_left]
    rintro f hf ⟨-, hf'⟩
    exact hf' hf
  rw [hcount, hcount', hset, Set.ncard_union_eq hdisjoint hfinite (hfinite'.subset fun f hf => hf.1)]

/-- Once its pages are unmapped, the frames in use are those that other directories map. -/
theorem user_iff_mapped_elsewhere {dirs : Set Nat} (h : Unmapped lo hi d (fun i _ => i.val < 768) s role s' role')
    (hdirs : ∀ d, role d = .dir ↔ d ∈ dirs) (f : Nat) :
    role' f = .user ↔ Mapped s (dirs \ {d}) f := by
  have hdirs' : ∀ d, role' d = .dir ↔ d ∈ dirs := fun d => (h.dir_iff d).trans (hdirs d)
  rw [← h.frames.mapped_iff hdirs', mapped_iff_look, mapped_iff_look]
  constructor
  · rintro ⟨d', hd', i, j, hi', hlook⟩
    have hne : d' ≠ d := by
      rintro rfl
      rw [h.gone i j hi' hi'] at hlook
      simp at hlook
    rw [h.kept d' i j ((hdirs d').mpr hd') hi' fun hc => hne hc.1] at hlook
    exact ⟨d', ⟨hd', hne⟩, i, j, hi', hlook⟩
  · rintro ⟨d', ⟨hd', hne⟩, i, j, hi', hlook⟩
    refine ⟨d', hd', i, j, hi', ?_⟩
    rwa [h.kept d' i j ((hdirs d').mpr hd') hi' fun hc => hne hc.1]

/-- The frames that are free after the two loops of `exit_mmap`. -/
theorem free_iff_of_cleared (h : Unmapped lo hi d (fun i _ => i.val < 768) s role s' role')
    (hclear : Cleared lo hi d (fun i => i.val < 768) s' role' s'' role'') (f : Nat) :
    role'' f = .free ↔ role f = .free ∨ (∃ i, role f = .table d i) ∨
      (role f = .user ∧ role' f ≠ .user) := by
  have htable : role'' f = .free ↔ role' f = .free ∨ ∃ i, role' f = .table d i := by
    rcases hclear.roles f with hf | ⟨hf, i, hf'⟩
    · rw [hf]
      refine ⟨Or.inl, ?_⟩
      rintro (hfree | ⟨i, hi'⟩)
      · exact hfree
      · obtain ⟨-, hlt, hlink⟩ := hclear.frames.table f d i (hf.trans hi')
        simp [hclear.gone i hlt hlt] at hlink
    · simp [hf, hf']
  rw [htable]
  rcases h.roles f with hf | ⟨hf, hf'⟩
  · rw [hf]
    simp
  · simp [hf, hf']

/-- **Address-space teardown is complete and frees nothing twice.**  `exit_mmap` and `put_pgdir` return,
also where several areas share a page table, and give back exactly what belonged to the address space. -/
theorem teardown_exact (lo hi : Nat) (s : Machine) (dirs : Set Nat) (hs : Paged lo hi s dirs) (mm : MemMap)
    (hdir : mm.dir ∈ dirs) (hpgdir : KERNEL_BASE ≤ mm.pgdir) (href : mm.ref = 0)
    (hmm : Contained s mm) :
    ∃ s₁ s₂, exitMmap s (some mm) = .ok s₁ ∧ putPgdir s₁ mm = .ok s₂ ∧
      TornDown s s₁ s₂ dirs mm ∧ Paged lo hi s₂ (dirs \ {mm.dir}) := by
  obtain ⟨role, h, hdirs⟩ := hs
  have hd := (hdirs _).mpr hdir
  have hone : ∀ d ∈ ({mm.dir} : Set Nat), role d = .dir := by
    rintro _ rfl
    exact hd
  obtain ⟨s₁, role₁, s₂, role₂, hexit, hunmap, hclear⟩ := exitMmap_spec h hd href hmm
  have hd₁ := (hunmap.dir_iff mm.dir).mpr hd
  have hgone : ∀ i : Fin 1024, i.val < 768 → s₂.entry mm.dir i = none := fun i hi' => hclear.gone i hi' hi'
  obtain ⟨m, hput, h₃⟩ := putPgdir_spec hclear.frames ((hclear.dir_iff _).mpr hd₁) hpgdir hgone
  have huser := user_iff_mapped_elsewhere hunmap hdirs
  have htables : ∀ x, IsTable s {mm.dir} x ↔ ∃ i, role x = .table mm.dir i := by
    intro x
    rw [h.isTable_iff hone]
    simp
  have hdirs₃ : ∀ d, Function.update role₂ mm.dir .free d = .dir ↔ d ∈ dirs \ {mm.dir} := by
    intro d
    by_cases hdd : d = mm.dir
    · subst hdd
      simp
    · rw [Function.update_of_ne hdd, hclear.dir_iff, hunmap.dir_iff, hdirs]
      simp [hdd]
  have hmem : ∀ x, x ≠ mm.dir → ¬ IsTable s {mm.dir} x → s₂.mem x = s.mem x := by
    intro x hx hnot
    rw [htables, not_exists] at hnot
    rw [hclear.mem x hx, hunmap.mem x hnot]
  have hfreed : ∀ f, m.Free f ↔ s.pmm.Free f ∨ f = mm.dir ∨ IsTable s {mm.dir} f ∨
      (Mapped s {mm.dir} f ∧ ¬ Mapped s (dirs \ {mm.dir}) f) := by
    intro f
    rw [← show _ ↔ m.Free f from h₃.free f]
    by_cases hf : f = mm.dir
    · simp [hf]
    · have hmine : role f = .user ∧ role₁ f ≠ .user ↔
          Mapped s {mm.dir} f ∧ ¬ Mapped s (dirs \ {mm.dir}) f := by
        rw [Ne, huser f, ← h.mapped_iff hdirs, mapped_split hdir]
        tauto
      rw [Function.update_of_ne hf, free_iff_of_cleared hunmap hclear, hmine, htables, h.free]
      simp [hf]
  refine ⟨s₂, { s₂ with pmm := m }, hexit, hput, ⟨hfreed, ?_, ?_, hgone, ?_, hmem⟩, _, h₃, hdirs₃⟩
  · exact freePageCount_add h.pmm h₃.pmm fun f hf => (hfreed f).mpr (Or.inl hf)
  · intro f hf
    have hf₁ := (huser f).mpr hf
    have hfd : f ≠ mm.dir := by
      rintro rfl
      simp [hd₁] at hf₁
    have hf₃ : Function.update role₂ mm.dir .free f = .user := by
      rw [Function.update_of_ne hfd]
      rcases hclear.roles f with hf' | ⟨-, i, hf'⟩
      · rw [hf', hf₁]
      · simp [hf₁] at hf'
    -- The other directories and their page tables have not been touched.
    have hothers : ∀ d ∈ dirs \ {mm.dir}, role d = .dir := fun d hd' => (hdirs d).mpr hd'.1
    have hcongr : pteCount { s₂ with pmm := m } (dirs \ {mm.dir}) f = pteCount s (dirs \ {mm.dir}) f := by
      refine pteCount_congr ?_ ?_ f
      · intro d hd'
        refine hmem d hd'.2 fun hc => ?_
        obtain ⟨i, hi'⟩ := (htables d).mp hc
        simp [hothers d hd'] at hi'
      · intro t ht
        obtain ⟨d, hd', i, hrole⟩ := (h.isTable_iff hothers t).mp ht
        refine hmem t ?_ fun hc => ?_
        · rintro rfl
          simp [hd] at hrole
        · obtain ⟨i', hi'⟩ := (htables t).mp hc
          rw [hrole] at hi'
          exact hd'.2 (Role.table.inj hi').1
    have hbefore := (h.user f ((h.mapped_iff hdirs f).mp ((mapped_split hdir f).mpr (Or.inr hf)))).1
    have hafter := (h₃.user f hf₃).1
    rw [← h.pteCount_eq hdirs, h.pteCount_split (fun d hd' => (hdirs d).mpr hd') hdir] at hbefore
    rw [← h₃.pteCount_eq hdirs₃, hcongr] at hafter
    omega
  · intro i hi'
    show s₂.mem mm.dir i = s.mem mm.dir i
    rw [hclear.kept i (Or.inl hi'), hunmap.mem mm.dir (by simp [hd])]

/-- A machine with one page, in frame 3, mapped at 2 MB by the directory in frame 2. -/
def onePageMachine : Machine :=
  match setupPgdir sixFrames >>= fun r => pgdirAllocPage r.2 2 0x200000 PTE_USER with
  | .ok (_, s) => s
  | .error _ => sixFrames

theorem onePageMachine_run :
    Relation.ReflTransGen PagingStep ⟨sixFrames, ∅, ∅⟩ ⟨onePageMachine, insert 2 ∅, ∅⟩ := by
  have hdir : PagingStep ⟨sixFrames, ∅, ∅⟩ ⟨_, insert 2 ∅, ∅⟩ := .setupPgdir rfl
  exact (Relation.ReflTransGen.single hdir).tail
    (.pgdirAllocPage (Set.mem_insert 2 ∅) (show 0x200000#32 < KERNEL_BASE by decide)
      (show PTE_USER.toNat < 2 ^ 12 by decide) rfl)

theorem paged_of_run {s : Machine} {dirs held : Set Nat}
    (hrun : Relation.ReflTransGen PagingStep ⟨sixFrames, ∅, ∅⟩ ⟨s, dirs, held⟩) : Paged 2 6 s dirs := by
  obtain ⟨role, h⟩ := pagingInv_of_run sixFrames_booted hrun
  exact ⟨role, h.frames, h.dirs⟩

theorem onePageMachine_dir : onePageMachine.mem 2 = Function.update (fun _ => 0) 0 0x4007 := rfl

theorem onePageMachine_table : onePageMachine.mem 4 = Function.update (fun _ => 0) 512 0x3007 := rfl

/-- A directory with one page table that has one entry. -/
theorem single_page {s : Machine} {d t : Nat} {i j : Fin 1024} {w w' : U32}
    (hd : s.mem d = Function.update (fun _ => 0) i w) (hlink : s.entry d i = some t)
    (ht : s.mem t = Function.update (fun _ => 0) j w') :
    (∀ i', s.entry d i' ≠ none → i' = i) ∧
      ∀ i' j', target (look s d i' j') ≠ none → i' = i ∧ j' = j := by
  have hslot : ∀ i', s.entry d i' ≠ none → i' = i := by
    intro i' hi'
    by_contra hc
    refine hi' ?_
    unfold Machine.entry
    rw [hd, Function.update_of_ne hc]
    exact target_zero
  refine ⟨hslot, ?_⟩
  intro i' j' hlook
  obtain ⟨f, hf⟩ := Option.ne_none_iff_exists'.mp hlook
  obtain ⟨t', hlink', hentry⟩ := entry_of_look hf
  obtain rfl := hslot i' (by simp [hlink'])
  obtain rfl : t' = t := by simpa [hlink] using hlink'.symm
  refine ⟨rfl, ?_⟩
  by_contra hc
  unfold Machine.entry at hentry
  rw [ht, Function.update_of_ne hc, target_zero] at hentry
  simp at hentry

/-- The map of a process that exits, with its directory in frame 2. -/
def exitingMm (areas : List VirtMemArea) : MemMap := ⟨areas, none, page2kva 2, areas.length, 0⟩

theorem inAreas_parentMm : InAreas parentMm.vmaList 0 512 :=
  ⟨_, List.mem_singleton.mpr rfl, by decide, by decide⟩

/-- The page comes back to the allocator. -/
theorem teardown_exact_one_page : ∃ s₁ s₂,
    exitMmap onePageMachine (some (exitingMm parentMm.vmaList)) = .ok s₁ ∧
      TornDown onePageMachine s₁ s₂ (insert 2 ∅) (exitingMm parentMm.vmaList) ∧ s₂.pmm.Free 3 := by
  obtain ⟨hslot, hpage⟩ := single_page onePageMachine_dir rfl onePageMachine_table
  have hmm : Contained onePageMachine (exitingMm parentMm.vmaList) := by
    refine ⟨parentMm_user, ?_, ?_⟩
    · intro i j _ hij
      obtain ⟨rfl, rfl⟩ := hpage i j hij
      exact inAreas_parentMm
    · intro i _ hi'
      obtain rfl := hslot i hi'
      exact ⟨512, inAreas_parentMm⟩
  obtain ⟨s₁, s₂, h₁, -, h₂, -⟩ := teardown_exact 2 6 _ _ (paged_of_run onePageMachine_run)
    (exitingMm parentMm.vmaList) (Set.mem_insert 2 ∅) (by decide) rfl hmm
  refine ⟨s₁, s₂, h₁, h₂, (h₂.freed 3).mpr (Or.inr (Or.inr (Or.inr ⟨?_, ?_⟩)))⟩
  · exact mapped_iff_look.mpr ⟨2, Set.mem_singleton 2, 0, 512, by decide, rfl⟩
  · rw [mapped_iff_look]
    rintro ⟨d, hd, -⟩
    obtain rfl : d = 2 := by simpa using hd.1
    exact hd.2 rfl

/-- The same machine after the page was removed: the page table in frame 4 is empty. -/
def emptyTableMachine : Machine :=
  match pageRemove onePageMachine 2 0x200000 with
  | .ok s => s
  | .error _ => onePageMachine

/-- Without an area that touches it, an empty page table is not found by `exit_mmap`. -/
theorem exitMmap_leaves_empty_table :
    ¬ ∀ (lo hi : Nat) (s : Machine) (dirs : Set Nat) (mm : MemMap), Paged lo hi s dirs → mm.dir ∈ dirs →
      KERNEL_BASE ≤ mm.pgdir → mm.ref = 0 → mm.Inv →
      (∀ vma ∈ mm.vmaList, UserRange vma.vmStart vma.vmEnd) →
      (∀ i j : Fin 1024, i.val < 768 → target (look s mm.dir i j) ≠ none → InAreas mm.vmaList i j) →
      ∃ s₁, exitMmap s (some mm) = .ok s₁ ∧ ∀ i : Fin 1024, i.val < 768 → s₁.entry mm.dir i = none := by
  intro hclaim
  have hrun : Relation.ReflTransGen PagingStep ⟨sixFrames, ∅, ∅⟩ ⟨emptyTableMachine, insert 2 ∅, ∅⟩ :=
    onePageMachine_run.tail (.pageRemove (Set.mem_insert 2 ∅) (show 0x200000#32 < KERNEL_BASE by decide) rfl)
  have htable : emptyTableMachine.mem 4 = Function.update (fun _ => 0) 512 0 := by
    show Function.update (Function.update (fun _ => 0) 512 0x3007) 512 0 = _
    rw [Function.update_idem]
  obtain ⟨-, hpage⟩ := single_page (show emptyTableMachine.mem 2 = _ from onePageMachine_dir) rfl htable
  have hinside : ∀ i j : Fin 1024, i.val < 768 → target (look emptyTableMachine 2 i j) ≠ none →
      InAreas [] i j := by
    intro i j _ hij
    obtain ⟨rfl, rfl⟩ := hpage i j hij
    exact absurd rfl hij
  obtain ⟨s₁, hexit, hgone⟩ := hclaim 2 6 _ _ (exitingMm []) (paged_of_run hrun) (Set.mem_insert 2 ∅)
    (by decide) rfl ⟨sortedApart_nil, rfl, by simp [exitingMm]⟩ (by simp [exitingMm]) hinside
  obtain rfl := Except.ok.inj hexit
  have hleft : emptyTableMachine.entry 2 0 = some 4 := rfl
  have hnone : emptyTableMachine.entry 2 0 = none := hgone 0 (by decide)
  simp [hleft] at hnone

end Teardown

end Memory
end FreakOS
