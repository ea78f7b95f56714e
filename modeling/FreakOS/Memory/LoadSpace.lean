import FreakOS.Memory.FaultOutcome
import FreakOS.Memory.Loader

/-!
# An address space while it is built

What holds of the frames while `load_icode` fills a new page directory: the frames are in order, no frame is mapped
twice by the directory, and user code may read what it maps.  Each function that the loader calls keeps this.

* `Space` — the invariant, for given roles; `Loading` — for some.
* `Space.kmalloc`, `Space.kfree`, `Space.fill`, `Space.getPte`, `Space.pgdirAllocPage`, `Space.setupPgdir` — the calls.
* `Space.userByte_eq` — what user code reads.
-/

namespace FreakOS
namespace Memory

open Lib

/-- The directory `d` maps user pages, each frame once, and lets user code read them; the frames `own` are blocks of
`kmalloc`, and the frames `pages` are mapped. -/
structure Space (lo hi d : Nat) (own pages : Set Nat) (s : Machine) (role : Nat → Role) : Prop where
  frames : Frames lo hi s role
  dir : role d = .dir
  own : ∀ x ∈ own, role x = .kernel ∧ x ≠ s.kernelPgd ∧ lo ≤ x ∧ x < hi
  pages : ∀ x ∈ pages, role x = .user
  once : ∀ i j i' j' f, i.val < 768 → i'.val < 768 → target (look s d i j) = some f →
    target (look s d i' j') = some f → i = i' ∧ j = j'
  dirUser : ∀ i, i.val < 768 → s.entry d i ≠ none → s.mem d i &&& PTE_PAGE_USER ≠ 0
  pteUser : ∀ i j, i.val < 768 → target (look s d i j) ≠ none → look s d i j &&& PTE_PAGE_USER ≠ 0

/-- The invariant of the loader. -/
def Loading (lo hi d : Nat) (own pages : Set Nat) (s : Machine) : Prop := ∃ role, Space lo hi d own pages s role

section Space

variable {lo hi d : Nat} {own pages : Set Nat} {s s' : Machine} {role role' : Nat → Role}

theorem Loading.mono {own' pages' : Set Nat} (h : Loading lo hi d own pages s) (hown : own' ⊆ own)
    (hpages : pages' ⊆ pages) : Loading lo hi d own' pages' s := by
  obtain ⟨role, h⟩ := h
  exact ⟨role, h.frames, h.dir, fun x hx => h.own x (hown hx), fun x hx => h.pages x (hpages hx), h.once, h.dirUser,
    h.pteUser⟩

/-- A bit that one of two words has is in both together. -/
theorem or_bits_ne_zero {a b c : U32} (h : b &&& c ≠ 0) : (a ||| b) &&& c ≠ 0 := by
  intro hzero
  refine h ?_
  have hsplit : (a ||| b) &&& c = (a &&& c) ||| (b &&& c) := by
    ext i hi
    simp [Bool.and_or_distrib_right]
  rw [hsplit] at hzero
  exact (BitVec.or_eq_zero_iff.mp hzero).2

namespace Space

/-- The directory and its page tables are as before. -/
theorem keep (h : Space lo hi d own pages s role) (hframes : Frames lo hi s' role') (hdir : role' d = .dir)
    {own' pages' : Set Nat} (hown : ∀ x ∈ own', role' x = .kernel ∧ x ≠ s'.kernelPgd ∧ lo ≤ x ∧ x < hi)
    (hpages : ∀ x ∈ pages', role' x = .user) (hmem : ∀ i : Fin 1024, i.val < 768 → s'.mem d i = s.mem d i)
    (hlook : ∀ i j : Fin 1024, i.val < 768 → look s' d i j = look s d i j) :
    Space lo hi d own' pages' s' role' := by
  refine ⟨hframes, hdir, hown, hpages, ?_, ?_, ?_⟩
  · intro i j i' j' f hi' hi'' hf hf'
    rw [hlook i j hi'] at hf
    rw [hlook i' j' hi''] at hf'
    exact h.once i j i' j' f hi' hi'' hf hf'
  · intro i hi' hentry
    unfold Machine.entry at hentry
    rw [hmem i hi'] at hentry ⊢
    exact h.dirUser i hi' hentry
  · intro i j hi' hf
    rw [hlook i j hi'] at hf ⊢
    exact h.pteUser i j hi' hf

/-- `kmalloc` of a page. -/
theorem kmalloc (h : Space lo hi d own pages s role) {bytes addr : U32} (hone : pagesOf bytes = 1)
    (hcall : kmalloc s bytes = .ok (addr, s')) :
    ∃ p role', addr = page2kva p ∧ p < 2 ^ 20 ∧ Space lo hi d (insert p own) pages s' role' := by
  obtain ⟨p, role', haddr, hp, hfree, hfoot, hkeep, ⟨m, rfl⟩, -⟩ :=
    (Footprint.refl h.frames).kmalloc (by omega) hcall
  have hpfree : role p = .free := hfree p ⟨le_rfl, by omega⟩
  have hpkernel : role' p = .kernel := by
    refine (hfoot.kernel p hpfree).mpr (Or.inr ⟨le_rfl, by omega⟩)
  refine ⟨p, role', haddr, hp, h.keep hfoot.frames ?_ ?_ ?_ (fun _ _ => rfl) fun _ _ _ => rfl⟩
  · rw [hkeep d (by simp [h.dir]), h.dir]
  · rintro x (rfl | hx)
    · refine ⟨hpkernel, ?_, h.frames.managed x (by simp [hpfree])⟩
      rintro rfl
      simp [h.frames.kernelPgd.1] at hpfree
    · obtain ⟨hrole, hrest⟩ := h.own x hx
      exact ⟨by rw [hkeep x (by simp [hrole]), hrole], hrest⟩
  · intro x hx
    rw [hkeep x (by simp [h.pages x hx]), h.pages x hx]

/-- `kfree` of a block of one page. -/
theorem kfree (h : Space lo hi d own pages s role) {bytes : U32} (hone : pagesOf bytes = 1) {p : Nat} (hp : p < 2 ^ 20)
    (hmem : p ∈ own) (hcall : Memory.kfree s (page2kva p) bytes = .ok s') :
    ∃ role', Space lo hi d (own \ {p}) pages s' role' := by
  obtain ⟨hkernel, hpgd, hlo, hhi⟩ := h.own p hmem
  have hused : ∀ x, p ≤ x → x < p + 1 → ¬ s.pmm.Free x := by
    intro x h1 h2 hfree
    obtain rfl : x = p := by omega
    have hrole := (h.frames.free x).mpr hfree
    simp [hkernel] at hrole
  obtain ⟨m, hfree, hspec⟩ := ffFreePages_spec h.frames.pmm Nat.one_pos hlo (by omega) hused
  have hs : s' = { s with pmm := m } := by
    have hle : p ≤ s.pageCount := by
      have hhi' := h.frames.hi_le
      omega
    unfold Memory.kfree pa2page freePhyPages at hcall
    rw [shift_page2kva hp, if_neg (by omega), Res.ok_bind, hone, hfree] at hcall
    exact (Except.ok.inj hcall).symm
  subst hs
  have hother : ∀ x, x ≠ p → Function.update role p .free x = role x := fun x hx => Function.update_of_ne hx ..
  have hframes : Frames lo hi { s with pmm := m } (Function.update role p .free) := by
    refine h.frames.setKernel hspec.inv ?_ ?_ ?_ ?_
    · intro x
      rw [hspec.free x]
      by_cases hx : x = p
      · subst hx
        simp
      · rw [hother x hx, h.frames.free]
        exact (or_iff_left (by omega)).symm
    · intro x
      by_cases hx : x = p
      · subst hx
        exact Or.inr (Or.inr ⟨hkernel, Function.update_self .., hpgd⟩)
      · exact Or.inl (hother x hx)
    · intro x hx
      rw [hspec.ref x, if_neg]
      intro hc
      obtain rfl : x = p := by omega
      exact hx hkernel
    · intro x hx hx'
      by_cases hxp : x = p
      · rw [hspec.ref x]
        exact if_pos (by omega)
      · rw [hother x hxp, hx] at hx'
        simp at hx'
  refine ⟨_, h.keep hframes ?_ ?_ ?_ (fun _ _ => rfl) fun _ _ _ => rfl⟩
  · rw [hother d ?_, h.dir]
    rintro rfl
    simp [h.dir] at hkernel
  · rintro x ⟨hx, hxp⟩
    rw [hother x hxp]
    exact h.own x hx
  · intro x hx
    rw [hother x ?_, h.pages x hx]
    rintro rfl
    simp [h.pages x hx] at hkernel

/-- A block of `kmalloc` or a mapped page is filled. -/
theorem fill (h : Space lo hi d own pages s role) {p : Nat}
    (hp : role p = .user ∨ role p = .kernel ∧ p ≠ s.kernelPgd) (words : FrameWords) :
    Space lo hi d own pages (s.fillFrame p words) role := by
  have hdir : role p ≠ .dir := by
    rcases hp with hp | ⟨hp, -⟩ <;> simp [hp]
  have htable : (role p).isTable = false := by
    rcases hp with hp | ⟨hp, -⟩ <;> simp [hp, Role.isTable]
  have hpgd : p ≠ s.kernelPgd := by
    rcases hp with hp | ⟨-, hp⟩
    · rintro rfl
      simp [h.frames.kernelPgd.1] at hp
    · exact hp
  refine h.keep (h.frames.fillData hdir htable hpgd words) h.dir h.own h.pages ?_ ?_
  · intro i _
    have hdp : d ≠ p := by
      rintro rfl
      exact hdir h.dir
    rw [show (s.fillFrame p words).mem d = s.mem d from Function.update_of_ne hdp ..]
  · exact fun i j hi' => look_fillData h.frames hdir htable words h.dir hi' j

/-- A page table that is made can be read by user code. -/
theorem tableReady (h : Space lo hi d own pages s role) {i : Fin 1024} {t : Nat}
    (hready : TableReady s role d i t s' role') (hframes : Frames lo hi s' role') :
    Space lo hi d own pages s' role' := by
  have hlook : ∀ i' j : Fin 1024, i'.val < 768 → look s' d i' j = look s d i' j :=
    fun i' j hi' => hready.look_eq h.frames h.dir h.dir hi' j
  refine ⟨hframes, (hready.steady.dir d).mpr h.dir, ?_, ?_, ?_, ?_, ?_⟩
  · intro x hx
    obtain ⟨hrole, hpgd, hrest⟩ := h.own x hx
    refine ⟨(hready.steady.kernel x).mpr hrole, ?_, hrest⟩
    cases hready with
    | found _ => exact hpgd
    | created _ _ => exact hpgd
  · intro x hx
    rw [hready.role_eq (by simp [h.pages x hx]), h.pages x hx]
  · intro i₁ j₁ i₂ j₂ f h₁ h₂ hf₁ hf₂
    rw [hlook _ _ h₁] at hf₁
    rw [hlook _ _ h₂] at hf₂
    exact h.once i₁ j₁ i₂ j₂ f h₁ h₂ hf₁ hf₂
  · intro i' hi' hentry
    by_cases hslot : i' = i
    · subst hslot
      cases hready with
      | found _ => exact h.dirUser i' hi' hentry
      | created _ _ =>
          simp only [Machine.store, Function.update_self]
          rw [BitVec.or_assoc, BitVec.or_assoc]
          exact or_bits_ne_zero (by decide)
    · have hword := hready.mem_dir h.dir hslot
      unfold Machine.entry at hentry
      rw [hword] at hentry ⊢
      exact h.dirUser i' hi' hentry
  · intro i' j hi' hf
    rw [hlook i' j hi'] at hf ⊢
    exact h.pteUser i' j hi' hf

/-- A frame that is taken from the allocator. -/
theorem alloc (h : Space lo hi d own pages s role) {p : Nat} {m : Pmm} (hfree : role p = .free)
    (hframes : Frames lo hi { s with pmm := m } (Function.update role p .held)) :
    Space lo hi d own pages { s with pmm := m } (Function.update role p .held) := by
  have hother : ∀ x, role x ≠ .free → Function.update role p .held x = role x := by
    intro x hx
    refine Function.update_of_ne ?_ ..
    rintro rfl
    exact hx hfree
  refine h.keep hframes ?_ ?_ ?_ (fun _ _ => rfl) fun _ _ _ => rfl
  · rw [hother d (by simp [h.dir]), h.dir]
  · intro x hx
    obtain ⟨hrole, hrest⟩ := h.own x hx
    exact ⟨by rw [hother x (by simp [hrole]), hrole], hrest⟩
  · intro x hx
    rw [hother x (by simp [h.pages x hx]), h.pages x hx]

/-- `pgdir_alloc_page` maps a frame that was free. -/
theorem pgdirAllocPage (h : Space lo hi d own pages s role) {va perm : U32} (hva : (pgdIndex va).val < 768)
    (hperm : perm.toNat < 2 ^ 12) (huser : perm &&& PTE_PAGE_USER ≠ 0) {p : Nat}
    (hcall : Memory.pgdirAllocPage s d va perm = .ok (some p, s')) :
    ∃ role', Space lo hi d own {p} s' role' ∧ role p = .free ∧
      (∀ i j : Fin 1024, i.val < 768 → look s' d i j =
        if i = pgdIndex va ∧ j = pteIndex va then pteWord p perm else look s d i j) ∧
      ∀ x, role x = .user → s'.mem x = s.mem x := by
  unfold Memory.pgdirAllocPage at hcall
  rcases allocPhyPages_frames h.frames with halloc | ⟨q, m, halloc, hfree, hheld⟩
  · rw [halloc, Res.ok_bind] at hcall
    cases hcall
  rw [halloc, Res.ok_bind] at hcall
  dsimp only at hcall
  have hq : Function.update role q .held q = .held := Function.update_self ..
  have hspace := h.alloc hfree hheld
  rcases pageInsert_frames hheld hspace.dir hva (Or.inr hq) hperm with
    hfail | ⟨t, s₁, role₁, m₁, hready, hframes₁, hins, -⟩
  · rw [hfail, Res.ok_bind] at hcall
    dsimp only at hcall
    rw [if_pos (by decide)] at hcall
    obtain ⟨s₂, -, hcall⟩ := Res.bind_eq_ok.mp hcall
    cases hcall
  rw [hins, Res.ok_bind] at hcall
  dsimp only at hcall
  rw [if_neg (not_not.mpr rfl)] at hcall
  obtain ⟨hpq, rfl⟩ := Prod.mk.inj (Except.ok.inj hcall)
  obtain rfl : q = p := Option.some.inj hpq
  -- The same call, seen through the directories.
  obtain ⟨role', hinserted⟩ : ∃ role', Inserted lo hi d va q perm { s with pmm := m } (Function.update role q .held)
      { s₁.store t (pteIndex va) (pteWord q perm) with pmm := m₁ } role' := by
    rcases pageInsert_spec hheld hspace.dir hva (Or.inr hq) hperm with hfail | ⟨s₂, role', hins', hspec⟩
    · rw [hins] at hfail
      have hcode : (0 : Int) = -E_NOMEM := congrArg Prod.fst (Except.ok.inj hfail)
      exact absurd hcode (by decide)
    · rw [hins] at hins'
      obtain ⟨-, rfl⟩ := Prod.mk.inj (Except.ok.inj hins')
      exact ⟨role', hspec⟩
  have hspace₁ := hspace.tableReady hready hframes₁
  have hlt : q < 2 ^ 20 := h.frames.lt (by simp [hfree])
  have hother : ∀ x, role x ≠ .free → x ≠ q := by
    rintro x hx rfl
    exact hx hfree
  have hlook : ∀ i j : Fin 1024, i.val < 768 →
      look { s₁.store t (pteIndex va) (pteWord q perm) with pmm := m₁ } d i j =
        if i = pgdIndex va ∧ j = pteIndex va then pteWord q perm else look s d i j := by
    intro i j hi'
    have hwords := hinserted.words d i j hspace.dir hi'
    simp only [true_and] at hwords
    exact hwords
  have hdirMem : ({ s₁.store t (pteIndex va) (pteWord q perm) with pmm := m₁ } : Machine).mem d = s₁.mem d := by
    refine store_mem_of_ne s₁ _ _ ?_
    rintro rfl
    have hdir := hspace₁.dir
    simp [hready.isTable] at hdir
  have hnotMapped : ∀ i j : Fin 1024, i.val < 768 → target (look s d i j) ≠ some q := by
    intro i j hi' hf
    have hrole := h.frames.user_of_look h.dir hi' hf
    simp [hfree] at hrole
  refine ⟨role', ⟨hinserted.frames, ?_, ?_, ?_, ?_, ?_, ?_⟩, hfree, hlook, ?_⟩
  · have hdq := hother d (by simp [h.dir])
    refine (hinserted.steady.dir d).mpr ?_
    rw [Function.update_of_ne hdq, Function.update_of_ne hdq, h.dir]
  · intro x hx
    obtain ⟨hrole, -⟩ := h.own x hx
    have hxq := hother x (by simp [hrole])
    refine ⟨(hinserted.steady.kernel x).mpr ?_, (hspace₁.own x hx).2⟩
    rw [Function.update_of_ne hxq, Function.update_of_ne hxq, hrole]
  · rintro x rfl
    exact hinserted.mapped
  · intro i j i' j' f hi' hi'' hf hf'
    rw [hlook i j hi'] at hf
    rw [hlook i' j' hi''] at hf'
    split at hf
    · rw [target_pteWord hlt hperm] at hf
      obtain rfl := Option.some.inj hf
      split at hf'
      · rename_i hslot hslot'
        exact ⟨hslot.1.trans hslot'.1.symm, hslot.2.trans hslot'.2.symm⟩
      · exact absurd hf' (hnotMapped i' j' hi'')
    · split at hf'
      · rw [target_pteWord hlt hperm] at hf'
        obtain rfl := Option.some.inj hf'
        exact absurd hf (hnotMapped i j hi')
      · exact h.once i j i' j' f hi' hi'' hf hf'
  · intro i hi' hentry
    unfold Machine.entry at hentry
    rw [hdirMem] at hentry ⊢
    exact hspace₁.dirUser i hi' hentry
  · intro i j hi' hf
    rw [hlook i j hi'] at hf ⊢
    split at hf
    · rename_i hslot
      rw [if_pos hslot]
      exact or_bits_ne_zero huser
    · rename_i hslot
      rw [if_neg hslot]
      exact h.pteUser i j hi' hf
  · intro x hx
    have hxq := hother x (by simp [hx])
    have hrole : Function.update role q .held x = .user := by rw [Function.update_of_ne hxq, hx]
    refine hinserted.mem x (by simp [hrole]) ?_ (by simp [hrole])
    rintro rfl
    simp [h.dir] at hx

/-- `get_pte` with a page table for the address. -/
theorem getPte (h : Space lo hi d own pages s role) {va : U32} (hva : (pgdIndex va).val < 768) {ptep : Nat × Fin 1024}
    (hcall : Memory.getPte s d va true = .ok (some ptep, s')) :
    ∃ role', Space lo hi d own pages s' role' ∧ (∀ i j : Fin 1024, i.val < 768 → look s' d i j = look s d i j) ∧
      s'.mem ptep.1 ptep.2 = look s d (pgdIndex va) (pteIndex va) ∧
      ∀ x, role x = .user → role' x = .user ∧ s'.mem x = s.mem x := by
  rcases getPte_create h.frames h.dir hva with hnone | ⟨t, s₁, role₁, hsome, hready, hframes⟩
  · rw [hnone] at hcall
    cases hcall
  · rw [hsome] at hcall
    obtain ⟨hptep, rfl⟩ := Prod.mk.inj (Except.ok.inj hcall)
    obtain rfl := Option.some.inj hptep
    have hlook : ∀ i j : Fin 1024, i.val < 768 → look s₁ d i j = look s d i j :=
      fun i j hi' => hready.look_eq h.frames h.dir h.dir hi' j
    refine ⟨role₁, h.tableReady hready hframes, hlook, ?_, ?_⟩
    · obtain ⟨-, -, hlink⟩ := hframes.table t d _ hready.isTable
      rw [← hlook _ _ hva, look_of_entry hlink]
    · intro x hx
      refine ⟨(hready.role_eq (by simp [hx])).trans hx, hready.mem_eq (by simp [hx]) ?_⟩
      rintro rfl
      simp [h.dir] at hx

end Space

/-- `setup_pgdir`. -/
theorem Loading.setupPgdir (h : Frames lo hi s role) (hcall : Memory.setupPgdir s = .ok (some d, s')) :
    Loading lo hi d ∅ ∅ s' := by
  obtain ⟨-, hframes, -, hkernel⟩ := setupPgdir_frames h hcall
  have hentry : ∀ i : Fin 1024, i.val < 768 → s'.entry d i = none := by
    intro i hi'
    unfold Machine.entry
    rw [hkernel]
    exact h.kernelPgd.2 i hi'
  have hlook : ∀ i j : Fin 1024, i.val < 768 → target (look s' d i j) = none := by
    intro i j hi'
    rw [look_of_entry_none (hentry i hi')]
    exact target_zero
  refine ⟨_, hframes, Function.update_self .., by simp, by simp, ?_, ?_, ?_⟩
  · intro i j i' j' f hi' _ hf
    rw [hlook i j hi'] at hf
    cases hf
  · intro i hi' hsome
    exact absurd (hentry i hi') hsome
  · intro i j hi' hsome
    exact absurd (hlook i j hi') hsome

/-- `mm_map` takes a page for the structure of the area. -/
theorem Loading.mmMap {mm mm' : MemMap} {a len flags : U32} {ret : Int} (h : Loading lo hi d own pages s)
    (hcall : mmMap s mm a len flags = .ok (ret, mm', s')) : Loading lo hi d own pages s' := by
  unfold Memory.mmMap at hcall
  dsimp only at hcall
  split at hcall
  · obtain ⟨-, -, rfl⟩ := by simpa using Except.ok.inj hcall
    exact h
  · split at hcall
    · obtain ⟨-, -, rfl⟩ := by simpa using Except.ok.inj hcall
      exact h
    · obtain ⟨⟨vma, s₁⟩, hcreate, hcall⟩ := Res.bind_eq_ok.mp hcall
      obtain ⟨mm'', -, hcall⟩ := Res.bind_eq_ok.mp hcall
      obtain rfl : s₁ = s' := congrArg (fun r => r.2.2) (Except.ok.inj hcall)
      unfold vmaCreate at hcreate
      obtain ⟨⟨node, s₂⟩, hkmalloc, hcreate⟩ := Res.bind_eq_ok.mp hcreate
      obtain rfl : s₂ = s₁ := congrArg Prod.snd (Except.ok.inj hcreate)
      obtain ⟨role, h⟩ := h
      obtain ⟨p, role', -, -, hspace⟩ := h.kmalloc rfl hkmalloc
      exact Loading.mono ⟨role', hspace⟩ (Set.subset_insert p own) subset_rfl

/-- The entry of a user page lets user code read. -/
theorem userAllows_read {e : U32} (hpresent : e &&& PTE_PAGE_PERSENT ≠ 0) (huser : e &&& PTE_PAGE_USER ≠ 0) :
    userAllows e false = true := by
  unfold userAllows
  rw [decide_eq_true hpresent, decide_eq_true huser]
  rfl

/-- What user code reads at an address. -/
theorem Space.userByte_eq (h : Space lo hi d own pages s role) {va : U32} (hva : (pgdIndex va).val < 768) :
    userByte s d va =
      (target (look s d (pgdIndex va) (pteIndex va))).map fun f => frameByte (s.mem f) (va.toNat % 4096) := by
  unfold userByte userPage
  cases hf : target (look s d (pgdIndex va) (pteIndex va)) with
  | none => simp
  | some f =>
      obtain ⟨t, hentry, -⟩ := entry_of_look hf
      have hdir := h.dirUser (pgdIndex va) hva (by simp [hentry])
      have hpte := h.pteUser (pgdIndex va) (pteIndex va) hva (by simp [hf])
      rw [userAllows_read (present_of_target hentry) hdir, userAllows_read (present_of_target hf) hpte]
      rfl

end Space

end Memory
end FreakOS
