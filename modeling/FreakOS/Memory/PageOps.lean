import FreakOS.Memory.PagingInv

/-!
# The page operations keep the frames in order

One specification for each function of `page.c` that works on a single page, in terms of the roles of the
frames.

* `allocPhyPages_frames`, `freePhyPages_frames` — a frame moves between the allocator and its holder.
* `getPte_present`, `getPte_absent`, `getPte_create` — the three ways of `get_pte`.
* `pteRemovePage_frames`, `pageInsert_frames` — an entry is cleared, or set.
-/

namespace FreakOS
namespace Memory

open Lib

/-! ### Reference counts and the allocator -/

@[simp] theorem setPageRef_mem (s : Machine) (page : Nat) (val : U32) :
    (setPageRef s page val).mem = s.mem := rfl

theorem setPageRef_ref (s : Machine) (page : Nat) (val : U32) (x : Nat) :
    ((setPageRef s page val).pmm.pages x).ref =
      if x = page then val else (s.pmm.pages x).ref := by
  by_cases hx : x = page
  · subst hx
    simp [setPageRef]
  · simp [setPageRef, hx]

theorem setPageRef_blocks (s : Machine) (page : Nat) (val : U32) :
    (setPageRef s page val).pmm.blocks = s.pmm.blocks := by
  unfold Pmm.blocks
  refine List.map_congr_left ?_
  intro p _
  refine blockAt_congr ?_
  by_cases hp : p = page
  · subst hp
    simp [setPageRef]
  · simp [setPageRef, hp]

theorem setPageRef_free (s : Machine) (page : Nat) (val : U32) (x : Nat) :
    (setPageRef s page val).pmm.Free x ↔ s.pmm.Free x := by
  unfold Pmm.Free
  rw [setPageRef_blocks]

/-- The allocator does not read the reference counts. -/
theorem setPageRef_inv {lo hi : Nat} {s : Machine} (h : s.pmm.Inv lo hi) (page : Nat) (val : U32) :
    (setPageRef s page val).pmm.Inv lo hi := by
  have hpages : ∀ p, ((setPageRef s page val).pmm.pages p).flags = (s.pmm.pages p).flags ∧
      ((setPageRef s page val).pmm.pages p).property = (s.pmm.pages p).property := by
    intro p
    by_cases hp : p = page
    · subst hp
      simp [setPageRef]
    · simp [setPageRef, hp]
  refine ⟨?_, ?_, ?_, ?_, ?_⟩
  · rw [setPageRef_blocks]
    exact h.coalesced
  · intro p hp
    rw [(hpages p).2]
    exact h.inside p hp
  · intro p h1 h2
    rw [(hpages p).1]
    exact h.head_bit p h1 h2
  · intro p h1 h2
    rw [(hpages p).1]
    exact h.not_reserved p h1 h2
  · rw [setPageRef_blocks]
    exact h.count

section Ops

variable {lo hi : Nat} {s : Machine} {role : Nat → Role}

/-- One page is taken from the allocator, or there is none. -/
theorem allocPhyPages_frames (h : Frames lo hi s role) :
    allocPhyPages s 1 = .ok (none, s) ∨
      ∃ p m, allocPhyPages s 1 = .ok (some p, { s with pmm := m }) ∧ role p = .free ∧
        Frames lo hi { s with pmm := m } (Function.update role p .held) := by
  obtain ⟨⟨page, m⟩, hcall⟩ := ffAllocPages_returns s.pmm (n := 1) (by omega)
  cases page with
  | none =>
      obtain rfl := ffAllocPages_none hcall
      exact Or.inl (by simp [allocPhyPages, hcall])
  | some p =>
      have hspec := ffAllocPages_spec h.pmm hcall
      have hp : role p = .free := (h.free p).mpr ((hspec.free p).mpr (Or.inr ⟨le_rfl, by omega⟩))
      refine Or.inr ⟨p, m, by simp [allocPhyPages, hcall], hp, ?_⟩
      refine h.setPlain (Or.inl hp) (Or.inr (Or.inl rfl)) hspec.inv ?_ (fun x _ => hspec.ref x) ?_
      · intro x
        have hfree := hspec.free x
        have htaken := hspec.taken x
        by_cases hx : x = p
        · subst hx
          simpa using htaken le_rfl (by omega)
        · rw [if_neg hx]
          constructor
          · exact fun hx' => hfree.mpr (Or.inl hx')
          · exact fun hx' => (hfree.mp hx').resolve_right (by omega)
      · intro _
        rw [hspec.ref p]
        exact h.unused p (Or.inl hp)

/-- What freeing one page does to the allocator. -/
theorem freePhyPages_one (h : s.pmm.Inv lo hi) {p : Nat} (hp : lo ≤ p ∧ p < hi)
    (hused : ¬ s.pmm.Free p) :
    ∃ m, freePhyPages s p 1 = .ok { s with pmm := m } ∧ m.Inv lo hi ∧
      (∀ x, m.Free x ↔ s.pmm.Free x ∨ x = p) ∧
      (∀ x, (m.pages x).ref = if x = p then 0 else (s.pmm.pages x).ref) := by
  have hone : ∀ x, p ≤ x ∧ x < p + 1 ↔ x = p := by omega
  have hused' : ∀ x, p ≤ x → x < p + 1 → ¬ s.pmm.Free x := by
    intro x h1 h2
    rwa [(hone x).mp ⟨h1, h2⟩]
  obtain ⟨m, hcall, hspec⟩ := ffFreePages_spec h (by omega) hp.1 (by omega) hused'
  refine ⟨m, by simp [freePhyPages, hcall], hspec.inv, ?_, ?_⟩
  · intro x
    rw [hspec.free x, hone]
  · intro x
    rw [hspec.ref x]
    simp only [hone]

/-- The same for a frame that is in use. -/
theorem Frames.freePhyPages_one (h : Frames lo hi s role) {p : Nat} (hp : role p ≠ .free)
    (hpk : role p ≠ .kernel) :
    ∃ m, freePhyPages s p 1 = .ok { s with pmm := m } ∧ m.Inv lo hi ∧
      (∀ x, m.Free x ↔ s.pmm.Free x ∨ x = p) ∧
      (∀ x, (m.pages x).ref = if x = p then 0 else (s.pmm.pages x).ref) :=
  Memory.freePhyPages_one h.pmm (h.managed p hpk) fun hc => hp ((h.free p).mpr hc)

/-- A held frame goes back to the allocator. -/
theorem freePhyPages_frames (h : Frames lo hi s role) {p : Nat} (hp : role p = .held) :
    ∃ m, freePhyPages s p 1 = .ok { s with pmm := m } ∧
      Frames lo hi { s with pmm := m } (Function.update role p .free) := by
  obtain ⟨m, hcall, hinv, hfree, href⟩ := h.freePhyPages_one (p := p) (by simp [hp]) (by simp [hp])
  refine ⟨m, hcall, h.setPlain (Or.inr hp) (Or.inl rfl) hinv ?_ ?_ ?_⟩
  · intro x
    rw [hfree x]
    by_cases hx : x = p <;> simp [hx]
  · intro x hx
    rw [href x, if_neg hx]
  · intro _
    rw [href p, if_pos rfl]

/-! ### Page tables come and go -/

/-- A held frame, cleared, becomes the page table of an empty slot. -/
theorem Frames.link (h : Frames lo hi s role) {p d : Nat} {i : Fin 1024} (hp : role p = .held)
    (hd : role d = .dir) (hi' : i.val < 768) (hnone : s.entry d i = none) {word : U32}
    (hword : target word = some p) :
    Frames lo hi (((setPageRef s p 1).fillFrame p fun _ => 0).store d i word)
      (Function.update role p (.table d i)) := by
  have hpd : p ≠ d := by
    rintro rfl
    simp [hp] at hd
  have hentry : ∀ x k, x ≠ p → ((((setPageRef s p 1).fillFrame p fun _ => 0).store d i word).entry x k =
      if x = d ∧ k = i then some p else s.entry x k) := by
    intro x k hx
    rw [entry_store, hword]
    refine if_congr Iff.rfl rfl ?_
    simp [Machine.entry, Machine.fillFrame, hx]
  have hzero : ∀ k, (((setPageRef s p 1).fillFrame p fun _ => 0).store d i word).entry p k = none := by
    intro k
    rw [entry_store, if_neg (fun hc => hpd hc.1)]
    simp only [Machine.entry, Machine.fillFrame, Function.update_self]
    exact target_zero
  have hk : s.kernelPgd ≠ p ∧ s.kernelPgd ≠ d := by
    have hkernel := h.kernelPgd.1
    constructor
    · rintro hc
      simp [hc, hp] at hkernel
    · rintro hc
      simp [hc, hd] at hkernel
  refine h.setRole (by simp [hp]) (by simp [hp]) (by simp) (setPageRef_inv h.pmm p 1) rfl rfl ?_ ?_ ?_ ?_
    ?_ ?_ ?_
  · rw [store_mem_of_ne _ _ _ hk.2]
    exact Function.update_of_ne hk.1 _ _
  · intro x
    show (setPageRef s p 1).pmm.Free x ↔ _
    rw [setPageRef_free]
    by_cases hx : x = p
    · subst hx
      rw [← h.free x]
      simp [hp]
    · simp [hx]
  · intro x hx
    exact (setPageRef_ref s p 1 x).trans (if_neg hx)
  · simp
  · intro t d' i' ht
    by_cases htp : t = p
    · subst htp
      rw [Function.update_self] at ht
      obtain ⟨rfl, rfl⟩ : d = d' ∧ i = i' := by simpa using ht
      refine ⟨?_, hi', ?_⟩
      · rw [Function.update_of_ne (Ne.symm hpd), hd]
      · rw [hentry d i (Ne.symm hpd), if_pos ⟨rfl, rfl⟩]
    · rw [Function.update_of_ne htp] at ht
      obtain ⟨h1, h2, h3⟩ := h.table t d' i' ht
      have hd'p : d' ≠ p := by
        rintro rfl
        simp [hp] at h1
      refine ⟨?_, h2, ?_⟩
      · rw [Function.update_of_ne hd'p, h1]
      · rw [hentry d' i' hd'p, if_neg ?_, h3]
        rintro ⟨rfl, rfl⟩
        simp [hnone] at h3
  · intro d' i' t hd' hi'' ht
    have hd'p : d' ≠ p := by
      rintro rfl
      simp at hd'
    rw [Function.update_of_ne hd'p] at hd'
    rw [hentry d' i' hd'p] at ht
    split at ht
    · rename_i hc
      obtain ⟨rfl, rfl⟩ := hc
      obtain rfl : p = t := by simpa using ht
      rw [Function.update_self]
    · have htrole := h.entry d' i' t hd' hi'' ht
      rw [Function.update_of_ne ?_, htrole]
      rintro rfl
      simp [hp] at htrole
  · intro slot
    obtain ⟨x, k⟩ := slot
    by_cases hx : x = p
    · subst hx
      simpa [pteMap, hp, Role.isTable] using hzero k
    · simp only [pteMap, Function.update_of_ne hx]
      split
      · rename_i htable
        rw [hentry x k hx, if_neg ?_]
        rintro ⟨rfl, -⟩
        simp [hd, Role.isTable] at htable
      · rfl

/-- An empty page table is taken out of its slot and freed. -/
theorem Frames.unlink (h : Frames lo hi s role) {t d : Nat} {i : Fin 1024} (ht : role t = .table d i)
    (hempty : ∀ j, s.entry t j = none) :
    ∃ m, freePhyPages s t 1 = .ok { s with pmm := m } ∧
      Frames lo hi (({ s with pmm := m } : Machine).store d i 0) (Function.update role t .free) := by
  obtain ⟨hd, hi', hlink⟩ := h.table t d i ht
  obtain ⟨m, hcall, hinv, hfree, href⟩ := h.freePhyPages_one (p := t) (by simp [ht]) (by simp [ht])
  have htd : t ≠ d := by
    rintro rfl
    simp [ht] at hd
  have hentry : ∀ x k, (({ s with pmm := m } : Machine).store d i 0).entry x k =
      if x = d ∧ k = i then none else s.entry x k := by
    intro x k
    rw [entry_store, target_zero]
    rfl
  refine ⟨m, hcall, h.setRole (by simp [ht]) (by simp [ht]) (by simp) hinv rfl rfl ?_ ?_ ?_ ?_ ?_ ?_ ?_⟩
  · refine store_mem_of_ne _ _ _ ?_
    intro hc
    have hkernel := h.kernelPgd.1
    simp [hc, hd] at hkernel
  · intro x
    show m.Free x ↔ _
    rw [hfree x]
    by_cases hx : x = t <;> simp [hx]
  · intro x hx
    exact (href x).trans (if_neg hx)
  · intro _
    exact (href t).trans (if_pos rfl)
  · intro t' d' i' ht'
    have htt : t' ≠ t := by
      rintro rfl
      simp at ht'
    rw [Function.update_of_ne htt] at ht'
    obtain ⟨h1, h2, h3⟩ := h.table t' d' i' ht'
    refine ⟨?_, h2, ?_⟩
    · rw [Function.update_of_ne ?_, h1]
      rintro rfl
      simp [ht] at h1
    · rw [hentry, if_neg ?_, h3]
      rintro ⟨rfl, rfl⟩
      rw [hlink] at h3
      exact htt (Option.some.inj h3).symm
  · intro d' i' t' hd' hi'' ht'
    have hdt : d' ≠ t := by
      rintro rfl
      simp at hd'
    rw [Function.update_of_ne hdt] at hd'
    rw [hentry] at ht'
    split at ht'
    · simp at ht'
    · rename_i hne
      have htrole := h.entry d' i' t' hd' hi'' ht'
      rw [Function.update_of_ne ?_, htrole]
      rintro rfl
      rw [ht] at htrole
      obtain ⟨rfl, rfl⟩ : d = d' ∧ i = i' := by simpa using htrole
      exact hne ⟨rfl, rfl⟩
  · intro slot
    obtain ⟨x, k⟩ := slot
    by_cases hx : x = t
    · subst hx
      simp [pteMap, ht, Role.isTable, hempty k]
    · simp only [pteMap, Function.update_of_ne hx]
      split
      · rename_i htable
        rw [hentry, if_neg ?_]
        rintro ⟨rfl, -⟩
        simp [hd, Role.isTable] at htable
      · rfl

/-- A held frame becomes a directory without user pages. -/
theorem Frames.toDir (h : Frames lo hi s role) {p : Nat} (hp : role p = .held) {words : FrameWords}
    (hwords : ∀ i : Fin 1024, i.val < 768 → target (words i) = none) :
    Frames lo hi (s.fillFrame p words) (Function.update role p .dir) := by
  have hfill := h.fillFrame hp words
  have hp' : ∀ i : Fin 1024, i.val < 768 → (s.fillFrame p words).entry p i = none := by
    intro i hi'
    simp only [Machine.entry, Machine.fillFrame, Function.update_self]
    exact hwords i hi'
  refine hfill.setRole (by simp [hp]) (by simp [hp]) (by simp) h.pmm rfl rfl rfl ?_ (fun _ _ => rfl) ?_
    ?_ ?_ ?_
  · intro x
    by_cases hx : x = p
    · subst hx
      rw [← hfill.free x]
      simp [hp]
    · simp [hx]
  · simp
  · intro t d i ht
    have htp : t ≠ p := by
      rintro rfl
      simp at ht
    rw [Function.update_of_ne htp] at ht
    obtain ⟨h1, h2, h3⟩ := hfill.table t d i ht
    refine ⟨?_, h2, h3⟩
    rw [Function.update_of_ne ?_, h1]
    rintro rfl
    simp [hp] at h1
  · intro d i t hd hi' ht
    by_cases hdp : d = p
    · subst hdp
      simp [hp' i hi'] at ht
    · rw [Function.update_of_ne hdp] at hd
      have htrole := hfill.entry d i t hd hi' ht
      rw [Function.update_of_ne ?_, htrole]
      rintro rfl
      simp [hp] at htrole
  · intro slot
    by_cases hx : slot.1 = p
    · simp [pteMap, hx, hp, Role.isTable]
    · simp only [pteMap, Function.update_of_ne hx]

/-- A directory without user pages is freed. -/
theorem Frames.dropDir (h : Frames lo hi s role) {d : Nat} (hd : role d = .dir)
    (hempty : ∀ i : Fin 1024, i.val < 768 → s.entry d i = none) :
    ∃ m, freePhyPages s d 1 = .ok { s with pmm := m } ∧
      Frames lo hi { s with pmm := m } (Function.update role d .free) := by
  obtain ⟨m, hcall, hinv, hfree, href⟩ := h.freePhyPages_one (p := d) (by simp [hd]) (by simp [hd])
  refine ⟨m, hcall, h.setRole (by simp [hd]) (by simp [hd]) (by simp) hinv rfl rfl rfl ?_ ?_ ?_ ?_ ?_ ?_⟩
  · intro x
    show m.Free x ↔ _
    rw [hfree x]
    by_cases hx : x = d <;> simp [hx]
  · intro x hx
    exact (href x).trans (if_neg hx)
  · intro _
    exact (href d).trans (if_pos rfl)
  · intro t d' i ht
    have htd : t ≠ d := by
      rintro rfl
      simp at ht
    rw [Function.update_of_ne htd] at ht
    obtain ⟨h1, h2, h3⟩ := h.table t d' i ht
    refine ⟨?_, h2, h3⟩
    rw [Function.update_of_ne ?_, h1]
    rintro rfl
    simp [hempty i h2] at h3
  · intro d' i t hd' hi' ht
    have hdd : d' ≠ d := by
      rintro rfl
      simp at hd'
    rw [Function.update_of_ne hdd] at hd'
    have htrole := h.entry d' i t hd' hi' ht
    rw [Function.update_of_ne ?_, htrole]
    rintro rfl
    simp [hd] at htrole
  · intro slot
    by_cases hx : slot.1 = d
    · simp [pteMap, hx, hd, Role.isTable]
    · simp only [pteMap, Function.update_of_ne hx]
      rfl

/-! ### `get_pte` -/

theorem pa2kva_page2pa (h : Frames lo hi s role) {p : Nat} (hp : role p ≠ .kernel) {s' : Machine}
    (hcount : s'.pageCount = s.pageCount) : pa2kva s' (page2pa p) = .ok p := by
  unfold pa2kva pa2page
  rw [page2pa_shift (h.lt hp), if_neg]
  have := h.le_pageCount hp
  omega

theorem pa2page_of_target {e : U32} {f : Nat} (he : target e = some f) (hf : f ≤ s.pageCount) :
    pa2page s (pteAddr e) = .ok f := by
  unfold target at he
  split at he
  · simp at he
  · obtain rfl : (pteAddr e >>> 12).toNat = f := by simpa using he
    unfold pa2page
    rw [if_neg (by omega)]

theorem present_of_target {e : U32} {f : Nat} (he : target e = some f) : e &&& PTE_PAGE_PERSENT ≠ 0 := by
  intro hc
  rw [target_eq_none_iff.mpr hc] at he
  simp at he

theorem pte2page_of_target {e : U32} {f : Nat} (he : target e = some f) (hf : f ≤ s.pageCount) :
    pte2page s e = .ok f := by
  unfold pte2page
  rw [if_neg (present_of_target he)]
  exact pa2page_of_target he hf

theorem getPte_absent {d : Nat} {va : U32} (hnone : s.entry d (pgdIndex va) = none) :
    getPte s d va false = .ok (none, s) := by
  unfold getPte
  rw [if_pos (target_eq_none_iff.mp hnone)]
  rfl

theorem ptePointer_eq {d t : Nat} {va : U32} (hsome : s.entry d (pgdIndex va) = some t)
    (ht : t ≤ s.pageCount) : ptePointer s d va = .ok (t, pteIndex va) := by
  unfold ptePointer pa2kva
  rw [pa2page_of_target hsome ht]
  rfl

theorem getPte_present {d t : Nat} {va : U32} (hsome : s.entry d (pgdIndex va) = some t)
    (ht : t ≤ s.pageCount) (create : Bool) :
    getPte s d va create = .ok (some (t, pteIndex va), s) := by
  unfold getPte
  rw [if_neg (present_of_target hsome), ptePointer_eq hsome ht]
  rfl

/-- What `get_pte` leaves when it is to create the page table: it was there, or a free frame has become
the page table, cleared. -/
inductive TableReady (s : Machine) (role : Nat → Role) (d : Nat) (i : Fin 1024) (t : Nat) :
    Machine → (Nat → Role) → Prop
  | found (ht : role t = .table d i) : TableReady s role d i t s role
  | created {m : Pmm} (ht : role t = .free) (hnone : s.entry d i = none) :
      TableReady s role d i t
        (((setPageRef { s with pmm := m } t 1).fillFrame t fun _ => 0).store d i
          (page2pa t ||| PTE_PAGE_USER ||| PTE_PAGE_WRITEABLE ||| PTE_PAGE_PERSENT))
        (Function.update role t (.table d i))

theorem getPte_create (h : Frames lo hi s role) {d : Nat} (hd : role d = .dir) {va : U32}
    (hva : (pgdIndex va).val < 768) :
    getPte s d va true = .ok (none, s) ∨
      ∃ t s' role', getPte s d va true = .ok (some (t, pteIndex va), s') ∧
        TableReady s role d (pgdIndex va) t s' role' ∧ Frames lo hi s' role' := by
  cases hentry : s.entry d (pgdIndex va) with
  | some t =>
      have ht := h.entry d (pgdIndex va) t hd hva hentry
      have hcall := getPte_present hentry (h.le_pageCount (by simp [ht])) true
      exact Or.inr ⟨t, s, role, hcall, .found ht, h⟩
  | none =>
      unfold getPte
      rw [if_pos (target_eq_none_iff.mp hentry)]
      simp only [Bool.not_true, Bool.false_eq_true, if_false]
      rcases allocPhyPages_frames h with halloc | ⟨p, m, halloc, hp, hheld⟩
      · rw [halloc]
        exact Or.inl rfl
      · right
        have hpd : d ≠ p := by
          rintro rfl
          simp [hp] at hd
        have hd' : Function.update role p .held d = .dir := by
          rw [Function.update_of_ne hpd, hd]
        -- The flags are in the low 12 bits, so the entry points to the new frame.
        have hword : target (page2pa p ||| PTE_PAGE_USER ||| PTE_PAGE_WRITEABLE ||| PTE_PAGE_PERSENT) =
            some p := by
          rw [BitVec.or_assoc, BitVec.or_assoc]
          exact target_or_flags (h.lt (by simp [hp])) (by decide) (by decide)
        have hlink := hheld.link (Function.update_self ..) hd' hva hentry hword
        rw [Function.update_idem] at hlink
        refine ⟨p, _, _, ?_, .created (m := m) hp hentry, hlink⟩
        have hframe : pa2kva (setPageRef { s with pmm := m } p 1) (page2pa p) = .ok p :=
          pa2kva_page2pa h (by simp [hp]) rfl
        have hpointer : ptePointer (((setPageRef { s with pmm := m } p 1).fillFrame p fun _ => 0).store d
            (pgdIndex va) (page2pa p ||| PTE_PAGE_USER ||| PTE_PAGE_WRITEABLE ||| PTE_PAGE_PERSENT)) d va =
            .ok (p, pteIndex va) := by
          refine ptePointer_eq ?_ (h.le_pageCount (by simp [hp]))
          rw [entry_store, if_pos ⟨rfl, rfl⟩, hword]
        simp only [halloc, Res.ok_bind, hframe, hpointer]
        rfl

/-! ### Entries are cleared and set -/

/-- Dropping a reference: the page is freed when it was the last one. -/
theorem dropPage_spec (h : s.pmm.Inv lo hi) {p : Nat} (hp : lo ≤ p ∧ p < hi) (hused : ¬ s.pmm.Free p)
    (hpos : 0 < (s.pmm.pages p).ref.toNat) (hle : (s.pmm.pages p).ref.toNat ≤ 2 ^ 30) :
    ∃ m, dropPage s p = .ok { s with pmm := m } ∧ m.Inv lo hi ∧
      (∀ x, m.Free x ↔ s.pmm.Free x ∨ (x = p ∧ (s.pmm.pages p).ref.toNat = 1)) ∧
      (∀ x, (m.pages x).ref.toNat + (if x = p then 1 else 0) = (s.pmm.pages x).ref.toNat) := by
  have hdec : ((s.pmm.pages p).ref - 1).toNat = (s.pmm.pages p).ref.toNat - 1 := by
    simp only [BitVec.toNat_sub, BitVec.toNat_ofNat, BitVec.ofNat_eq_ofNat]
    omega
  have hsigned : ((pageRefDec s p).pmm.pages p).ref.toInt = (s.pmm.pages p).ref.toNat - 1 := by
    unfold pageRefDec
    rw [setPageRef_ref, if_pos rfl, BitVec.toInt_eq_toNat_of_lt (by omega), hdec]
    omega
  have hrefs : ∀ x, ((pageRefDec s p).pmm.pages x).ref.toNat + (if x = p then 1 else 0) =
      (s.pmm.pages x).ref.toNat := by
    intro x
    unfold pageRefDec
    rw [setPageRef_ref]
    by_cases hx : x = p
    · subst hx
      rw [if_pos rfl, if_pos rfl, hdec]
      omega
    · rw [if_neg hx, if_neg hx]
      rfl
  unfold dropPage
  dsimp only
  rw [hsigned]
  -- The count is signed in the source; it is far below `2 ^ 31` here.
  by_cases hlast : (s.pmm.pages p).ref.toNat = 1
  · rw [if_pos (by omega)]
    obtain ⟨m, hcall, hinv, hfree, href⟩ := freePhyPages_one (s := pageRefDec s p)
      (setPageRef_inv h p _) hp (fun hc => hused ((setPageRef_free s p _ p).mp hc))
    refine ⟨m, hcall, hinv, ?_, ?_⟩
    · intro x
      rw [hfree x, pageRefDec, setPageRef_free]
      simp [hlast]
    · intro x
      rw [href x]
      have := hrefs x
      by_cases hx : x = p
      · subst hx
        simp [hlast]
      · rw [if_neg hx]
        exact this
  · rw [if_neg (by omega)]
    refine ⟨_, rfl, setPageRef_inv h p _, ?_, hrefs⟩
    intro x
    exact (setPageRef_free s p _ x).trans (by simp [hlast])

theorem Frames.ref_le (h : Frames lo hi s role) {f : Nat} (hf : role f = .user) :
    0 < (s.pmm.pages f).ref.toNat ∧ (s.pmm.pages f).ref.toNat ≤ 2 ^ 30 := by
  obtain ⟨h1, h2⟩ := h.user f hf
  have := refCount_le s role f
  omega

/-- The last reference of a frame is the one whose removal leaves none. -/
theorem Frames.last_ref_iff (h : Frames lo hi s role) {t d : Nat} {i : Fin 1024}
    (ht : role t = .table d i) {j : Fin 1024} {p : Nat} (hp : s.entry t j = some p) {word : U32}
    (hword : target word ≠ some p) :
    (s.pmm.pages p).ref.toNat = 1 ↔ refCount (s.store t j word) role p = 0 := by
  have huser := h.user p (h.pte t d i j p ht hp)
  have hcount := h.refCount_store ht j word p
  rw [if_pos hp, if_neg hword] at hcount
  omega

/-- `pte_remove_page` on a present entry. -/
theorem pteRemovePage_frames (h : Frames lo hi s role) {t d : Nat} {i : Fin 1024}
    (ht : role t = .table d i) (j : Fin 1024) {p : Nat} (hp : s.entry t j = some p) :
    ∃ m, pteRemovePage s (t, j) = .ok { s.store t j 0 with pmm := m } ∧
      Frames lo hi { s.store t j 0 with pmm := m } (retarget s role t j 0) := by
  have huser := h.pte t d i j p ht hp
  have hused : ¬ s.pmm.Free p := by
    rw [← h.free p]
    simp [huser]
  obtain ⟨hpos, hle⟩ := h.ref_le huser
  obtain ⟨m, hdrop, hinv, hfree, href⟩ := dropPage_spec h.pmm (h.managed p (by simp [huser])) hused hpos hle
  have hpage := pte2page_of_target (s := s) hp (h.le_pageCount (by simp [huser]))
  refine ⟨m, ?_, h.setPte ht j 0 (by simp) hinv ?_ ?_⟩
  · unfold pteRemovePage
    rw [if_pos (present_of_target hp), hpage, Res.ok_bind, hdrop]
    rfl
  · intro x
    rw [hfree x, hp]
    refine or_congr_right ?_
    constructor
    · rintro ⟨rfl, hone⟩
      exact ⟨rfl, (h.last_ref_iff ht hp (by simp)).mp hone⟩
    · rintro ⟨hx, hzero⟩
      obtain rfl := Option.some.inj hx
      exact ⟨rfl, (h.last_ref_iff ht hp (by simp)).mpr hzero⟩
  · intro x
    have := href x
    rw [hp]
    simpa [eq_comm] using this

/-- The part of `page_insert` behind `get_pte`. -/
theorem evictOld_frames (h : Frames lo hi s role) {t d : Nat} {i : Fin 1024} (ht : role t = .table d i)
    (j : Fin 1024) {page : Nat} (hpage : role page = .user ∨ role page = .held) {word : U32}
    (hword : target word = some page) :
    ∃ s' m, evictOld (pageRefInc s page) page (t, j) = .ok s' ∧
      s'.store t j word = { s.store t j word with pmm := m } ∧
      Frames lo hi { s.store t j word with pmm := m } (retarget s role t j word) := by
  have hnew : ∀ f, target word = some f → role f = .user ∨ role f = .held := by
    intro f hf
    obtain rfl : page = f := by simpa [hword] using hf
    exact hpage
  -- The count of the page after `page_ref_inc`.
  have hsmall : (s.pmm.pages page).ref.toNat ≤ 2 ^ 30 := by
    rcases hpage with hu | hh
    · exact (h.ref_le hu).2
    · rw [h.unused page (Or.inr hh)]
      decide
  have hinc : ∀ x, ((pageRefInc s page).pmm.pages x).ref.toNat =
      (s.pmm.pages x).ref.toNat + (if x = page then 1 else 0) := by
    intro x
    unfold pageRefInc
    rw [setPageRef_ref]
    by_cases hx : x = page
    · subst hx
      rw [if_pos rfl, if_pos rfl]
      simp only [BitVec.toNat_add, BitVec.toNat_ofNat, BitVec.ofNat_eq_ofNat]
      omega
    · rw [if_neg hx, if_neg hx]
      rfl
  have hinvInc : (pageRefInc s page).pmm.Inv lo hi := setPageRef_inv h.pmm page _
  have hfreeInc : ∀ x, (pageRefInc s page).pmm.Free x ↔ s.pmm.Free x := setPageRef_free s page _
  unfold evictOld
  show ∃ s' m, (if s.mem t j &&& PTE_PAGE_PERSENT ≠ 0 then _ else _) = _ ∧ _ ∧ _
  cases hold : s.entry t j with
  | none =>
      -- Nothing was mapped here.
      rw [if_neg (by simpa using target_eq_none_iff.mp hold)]
      refine ⟨_, (pageRefInc s page).pmm, rfl, rfl, h.setPte ht j word hnew hinvInc ?_ ?_⟩
      · intro x
        rw [hfreeInc x, hold]
        simp
      · intro x
        rw [hinc x, hold, hword]
        simp [eq_comm]
  | some p =>
      have huser := h.pte t d i j p ht hold
      rw [if_pos (present_of_target hold)]
      have hp2page : pte2page (pageRefInc s page) (s.mem t j) = .ok p :=
        pte2page_of_target hold (h.le_pageCount (by simp [huser]))
      show ∃ s' m, (pte2page (pageRefInc s page) (s.mem t j) >>= _) = _ ∧ _ ∧ _
      rw [hp2page, Res.ok_bind]
      by_cases hsame : p = page
      · -- The same page: the new reference is taken back.
        subst hsame
        rw [if_pos rfl]
        refine ⟨_, (pageRefDec (pageRefInc s p) p).pmm, rfl, rfl,
          h.setPte ht j word hnew (setPageRef_inv hinvInc p _) ?_ ?_⟩
        · intro x
          have hfree := (setPageRef_free (pageRefInc s p) p
            (((pageRefInc s p).pmm.pages p).ref - 1) x).trans (hfreeInc x)
          rw [pageRefDec, hfree, hold]
          refine ⟨Or.inl, ?_⟩
          rintro (hx | ⟨hx, hzero⟩)
          · exact hx
          · obtain rfl := Option.some.inj hx
            have hcount := h.refCount_store ht j word p
            have := (h.user p huser).2
            rw [if_pos hold, if_pos hword] at hcount
            omega
        · intro x
          have hx := hinc x
          unfold pageRefDec
          rw [setPageRef_ref, hold, hword]
          by_cases hxp : x = p
          · subst hxp
            rw [if_pos rfl] at hx ⊢
            simp only [BitVec.toNat_sub, BitVec.toNat_ofNat, BitVec.ofNat_eq_ofNat]
            omega
          · rw [if_neg hxp] at hx ⊢
            rw [hx]
            simp [Ne.symm hxp]
      · -- Another page is given up for the new one.
        rw [if_neg hsame]
        have hrefp : ((pageRefInc s page).pmm.pages p).ref.toNat = (s.pmm.pages p).ref.toNat := by
          rw [hinc p, if_neg hsame, Nat.add_zero]
        obtain ⟨hpos, hle⟩ := h.ref_le huser
        have hused : ¬ (pageRefInc s page).pmm.Free p := by
          rw [hfreeInc p, ← h.free p]
          simp [huser]
        obtain ⟨m, hdrop, hinv, hfree, href⟩ := dropPage_spec hinvInc (h.managed p (by simp [huser]))
          hused (by omega) (by omega)
        refine ⟨({ pageRefInc s page with pmm := m } : Machine).store t j 0, m, ?_, ?_,
          h.setPte ht j word hnew hinv ?_ ?_⟩
        · unfold pteRemovePage
          show (if s.mem t j &&& PTE_PAGE_PERSENT ≠ 0 then _ else _) = _
          rw [if_pos (present_of_target hold)]
          show (pte2page (pageRefInc s page) (s.mem t j) >>= _) = _
          rw [hp2page, Res.ok_bind, hdrop]
          rfl
        · simp [Machine.store, pageRefInc, setPageRef]
        · intro x
          rw [hfree x, hfreeInc x, hold, hrefp]
          refine or_congr_right ?_
          have hne : target word ≠ some p := by
            rw [hword]
            simpa using Ne.symm hsame
          constructor
          · rintro ⟨rfl, hone⟩
            exact ⟨rfl, (h.last_ref_iff ht hold hne).mp hone⟩
          · rintro ⟨hx, hzero⟩
            obtain rfl := Option.some.inj hx
            exact ⟨rfl, (h.last_ref_iff ht hold hne).mpr hzero⟩
        · intro x
          have h1 := href x
          have h2 := hinc x
          rw [hold, hword]
          simp only [Option.some.injEq, eq_comm (b := x)]
          omega

/-! ### What the operations leave alone -/

/-- The word that maps page `j` of slot `i` in directory `d`, or zero where there is no page table. -/
def look (s : Machine) (d : Nat) (i j : Fin 1024) : U32 :=
  match s.entry d i with
  | some t => s.mem t j
  | none => 0

/-- Directories, page tables, and the frames of the kernel and of holders keep their roles; frames become
directories, kernel frames or held ones in no other way. -/
structure Steady (role role' : Nat → Role) : Prop where
  dir : ∀ x, role' x = .dir ↔ role x = .dir
  held : ∀ x, role' x = .held ↔ role x = .held
  kernel : ∀ x, role' x = .kernel ↔ role x = .kernel
  table : ∀ x d i, role x = .table d i → role' x = .table d i

theorem Steady.refl (role : Nat → Role) : Steady role role :=
  ⟨fun _ => Iff.rfl, fun _ => Iff.rfl, fun _ => Iff.rfl, fun _ _ _ h => h⟩

theorem Steady.trans {role₁ role₂ role₃ : Nat → Role} (h₁ : Steady role₁ role₂)
    (h₂ : Steady role₂ role₃) : Steady role₁ role₃ :=
  ⟨fun x => (h₂.dir x).trans (h₁.dir x), fun x => (h₂.held x).trans (h₁.held x),
    fun x => (h₂.kernel x).trans (h₁.kernel x), fun x d i h => h₂.table x d i (h₁.table x d i h)⟩

/-- Only mapped frames can become free. -/
theorem Steady.user_of_freed {role role' : Nat → Role} (h : Steady role role') {x : Nat}
    (hx : role x ≠ .free) (hx' : role' x = .free) : role x = .user := by
  cases hrole : role x with
  | free => exact absurd hrole hx
  | kernel => simpa [hx'] using (h.kernel x).mpr hrole
  | dir => simpa [hx'] using (h.dir x).mpr hrole
  | table d i => simpa [hx'] using h.table x d i hrole
  | held => simpa [hx'] using (h.held x).mpr hrole
  | user => rfl

/-- Free and mapped frames may change their roles among being free, mapped and page tables. -/
theorem Steady.of_cases {role role' : Nat → Role}
    (h : ∀ x, role' x = role x ∨ ((role x = .free ∨ role x = .user) ∧
      (role' x = .free ∨ role' x = .user ∨ ∃ d i, role' x = .table d i))) : Steady role role' := by
  refine ⟨?_, ?_, ?_, ?_⟩
  all_goals intro x
  all_goals rcases h x with hx | ⟨hx | hx, hx' | hx' | ⟨d, i, hx'⟩⟩
  all_goals simp [*]

/-- The roles around one entry that is cleared. -/
theorem retarget_zero_cases (h : Frames lo hi s role) {t d : Nat} {i : Fin 1024}
    (ht : role t = .table d i) (j : Fin 1024) (x : Nat) :
    retarget s role t j 0 x = role x ∨ (role x = .user ∧ retarget s role t j 0 x = .free) := by
  unfold retarget
  split
  · rename_i hc
    exact Or.inr ⟨h.pte t d i j x ht hc.1, rfl⟩
  · rw [if_neg (by simp)]
    exact Or.inl rfl

/-- The roles around one entry that is set to map `page`. -/
theorem retarget_cases (h : Frames lo hi s role) {t d : Nat} {i : Fin 1024} (ht : role t = .table d i)
    (j : Fin 1024) {word : U32} {page : Nat} (hword : target word = some page) (x : Nat) :
    retarget s role t j word x = Function.update role page .user x ∨
      (x ≠ page ∧ s.entry t j = some x ∧ role x = .user ∧ retarget s role t j word x = .free) := by
  by_cases hx : x = page
  · subst hx
    left
    rw [Function.update_self]
    unfold retarget
    rw [if_neg, if_pos hword]
    rintro ⟨hentry, hzero⟩
    have hcount := h.refCount_store ht j word x
    rw [if_pos hentry, if_pos hword] at hcount
    have := (h.user x (h.pte t d i j x ht hentry)).2
    omega
  · rw [Function.update_of_ne hx]
    unfold retarget
    split
    · rename_i hc
      exact Or.inr ⟨hx, hc.1, h.pte t d i j x ht hc.1, rfl⟩
    · rw [if_neg (by rw [hword]; simpa using Ne.symm hx)]
      exact Or.inl rfl

theorem retarget_steady (h : Frames lo hi s role) {t d : Nat} {i : Fin 1024} (ht : role t = .table d i)
    (j : Fin 1024) {word : U32} {page : Nat} (hword : target word = some page) :
    Steady (Function.update role page .user) (retarget s role t j word) := by
  refine Steady.of_cases fun x => ?_
  rcases retarget_cases h ht j hword x with hx | ⟨hx, -, hu, hx'⟩
  · exact Or.inl hx
  · rw [Function.update_of_ne hx]
    exact Or.inr ⟨Or.inr hu, Or.inl hx'⟩

theorem look_store (h : Frames lo hi s role) {t d : Nat} {i : Fin 1024} (ht : role t = .table d i)
    (j : Fin 1024) (word : U32) {d' : Nat} (hd' : role d' = .dir) {i' : Fin 1024} (hi' : i'.val < 768)
    (j' : Fin 1024) :
    look (s.store t j word) d' i' j' =
      if d' = d ∧ i' = i ∧ j' = j then word else look s d' i' j' := by
  obtain ⟨-, -, hlink⟩ := h.table t d i ht
  have hentry : (s.store t j word).entry d' i' = s.entry d' i' := by
    rw [entry_store, if_neg]
    rintro ⟨rfl, -⟩
    simp [ht] at hd'
  unfold look
  rw [hentry]
  cases hsome : s.entry d' i' with
  | none =>
      rw [if_neg]
      rintro ⟨rfl, rfl, -⟩
      simp [hlink] at hsome
  | some t' =>
      have ht' := h.entry d' i' t' hd' hi' hsome
      -- A page table has one directory and one slot, so the word is seen nowhere else.
      by_cases htt : t' = t
      · subst htt
        obtain ⟨rfl, rfl⟩ : d = d' ∧ i = i' := by simpa [ht] using ht'
        by_cases hj : j' = j
        · subst hj
          simp [Machine.store]
        · simp [Machine.store, hj]
      · rw [if_neg]
        · simp [Machine.store, Function.update_of_ne htt]
        · rintro ⟨rfl, rfl, -⟩
          rw [hlink] at hsome
          exact htt (Option.some.inj hsome).symm

namespace TableReady

variable {d t : Nat} {i : Fin 1024} {s' : Machine} {role' : Nat → Role}

theorem isTable (h : TableReady s role d i t s' role') : role' t = .table d i := by
  cases h with
  | found ht => exact ht
  | created ht hnone => simp

theorem role_eq (h : TableReady s role d i t s' role') {x : Nat} (hx : role x ≠ .free) :
    role' x = role x := by
  cases h with
  | found ht => rfl
  | created ht hnone =>
      refine Function.update_of_ne ?_ _ _
      rintro rfl
      exact hx ht

theorem steady (h : TableReady s role d i t s' role') : Steady role role' := by
  cases h with
  | found ht => exact Steady.refl role
  | created ht hnone =>
      refine Steady.of_cases fun x => ?_
      by_cases hx : x = t
      · subst hx
        exact Or.inr ⟨Or.inl ht, Or.inr (Or.inr ⟨d, i, Function.update_self ..⟩)⟩
      · exact Or.inl (Function.update_of_ne hx _ _)

theorem mem_eq (h : TableReady s role d i t s' role') {x : Nat} (hx : role x ≠ .free) (hxd : x ≠ d) :
    s'.mem x = s.mem x := by
  cases h with
  | found ht => rfl
  | created ht hnone =>
      rw [store_mem_of_ne _ _ _ hxd]
      refine Function.update_of_ne ?_ _ _
      rintro rfl
      exact hx ht

/-- A page table that has just been made maps nothing, as before. -/
theorem look_eq (h : TableReady s role d i t s' role') (hs : Frames lo hi s role) (hd : role d = .dir)
    {d' : Nat} (hd' : role d' = .dir) {i' : Fin 1024} (hi' : i'.val < 768) (j' : Fin 1024) :
    look s' d' i' j' = look s d' i' j' := by
  cases h with
  | found ht => rfl
  | created ht hnone =>
      rename_i m
      have hdt : d' ≠ t := by
        rintro rfl
        simp [ht] at hd'
      have hword : target (page2pa t ||| PTE_PAGE_USER ||| PTE_PAGE_WRITEABLE ||| PTE_PAGE_PERSENT) =
          some t := by
        rw [BitVec.or_assoc, BitVec.or_assoc]
        exact target_or_flags (hs.lt (by simp [ht])) (by decide) (by decide)
      unfold look
      rw [entry_store, hword]
      by_cases hslot : d' = d ∧ i' = i
      · obtain ⟨rfl, rfl⟩ := hslot
        rw [if_pos ⟨rfl, rfl⟩, hnone]
        dsimp only
        rw [store_mem_of_ne _ _ _ (Ne.symm hdt)]
        simp [Machine.fillFrame]
      · rw [if_neg hslot]
        have hentry : ((setPageRef { s with pmm := m } t 1).fillFrame t fun _ => 0).entry d' i' =
            s.entry d' i' := by
          simp [Machine.entry, Machine.fillFrame, Function.update_of_ne hdt]
        rw [hentry]
        cases hsome : s.entry d' i' with
        | none => rfl
        | some t' =>
            have ht' := hs.entry d' i' t' hd' hi' hsome
            have htt : t' ≠ t := by
              rintro rfl
              simp [ht] at ht'
            have htd : t' ≠ d := by
              rintro rfl
              simp [hd] at ht'
            dsimp only
            rw [store_mem_of_ne _ _ _ htd]
            simp [Machine.fillFrame, Function.update_of_ne htt]

end TableReady

end Ops

end Memory
end FreakOS
