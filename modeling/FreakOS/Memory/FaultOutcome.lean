import FreakOS.Memory.DupFailure
import FreakOS.Memory.MapArea

/-!
# Page faults are resolved or refused

What `do_pgfault` does with a fault that the processor can raise: the page gets a fresh frame, or the fault
is refused and no page is mapped.  Its `panic` is for a write to a page that is present although the area
lets it be written, and no present page is that.

* `FaultCode` — error codes that agree with the entry of the page, after the rules of the processor.
* `AreaPtes` — the present pages of an area are user pages, writable where the area is.
* `doPgfault_absent` — a fault on a page that is not present, with what it takes from the allocator.
* `doPgfault_resolves_or_refuses` — all faults.
-/

namespace FreakOS
namespace Memory

open Lib
open Lib.Extent

/-- `do_pgfault(mm, _if, cr2)`; `find_vma` finds nothing where `mm` is `NULL`. -/
def doPgfaultMm (s : Machine) (mm : Option MemMap) (errCode cr2 : U32) : Res (Int × Machine × Option MemMap) :=
  match mm with
  | none => .ok (-E_INVAL, s, none)
  | some mm => do
      let r ← doPgfault s mm errCode cr2
      return (r.1, r.2.1, some r.2.2)

/-! ### Error codes -/

/-- The word of the page table for an address, or zero where there is no page table. -/
def pteOf (s : Machine) (mm : MemMap) (va : U32) : U32 := look s mm.dir (pgdIndex va) (pteIndex va)

/-- The error code agrees with the entry of the page: bit 0 says whether the page is present, and a fault on
a present page is a write to one that is not writable or an access of user code to one that is not for
users. -/
structure FaultCode (s : Machine) (mm : MemMap) (errCode va : U32) : Prop where
  absent : errCode &&& 1 = 0 → target (pteOf s mm va) = none
  present : errCode &&& 1 ≠ 0 → target (pteOf s mm va) ≠ none ∧
    ((errCode &&& 2 ≠ 0 ∧ pteOf s mm va &&& PTE_PAGE_WRITEABLE = 0) ∨
      (errCode &&& 4 ≠ 0 ∧ pteOf s mm va &&& PTE_PAGE_USER = 0))

/-- The present pages of the areas are user pages, and writable exactly where the area is. -/
def AreaPtes (s : Machine) (mm : MemMap) : Prop :=
  ∀ vma ∈ mm.vmaList, ∀ va : U32, vma.extent.Contains va.toNat → target (pteOf s mm va) ≠ none →
    pteOf s mm va &&& PTE_PAGE_USER ≠ 0 ∧
      (pteOf s mm va &&& PTE_PAGE_WRITEABLE ≠ 0 ↔ vma.vmFlags &&& VMM_WRITE ≠ 0)

/-- The area permits the access: `VMM_WRITE` for a write, `VMM_READ` or `VMM_EXEC` for a read or a fetch. -/
def Permits (vma : VirtMemArea) (errCode : U32) : Prop :=
  if errCode &&& 2 ≠ 0 then vma.vmFlags &&& VMM_WRITE ≠ 0 else vma.vmFlags &&& (VMM_READ ||| VMM_EXEC) ≠ 0

/-- Some area permits the access. -/
def AccessPermitted (mm : MemMap) (errCode va : U32) : Prop :=
  ∃ vma ∈ mm.vmaList, vma.extent.Contains va.toNat ∧ Permits vma errCode

theorem errCode_low_bits (errCode : U32) :
    (errCode &&& 3 = 0 ∧ errCode &&& 1 = 0 ∧ errCode &&& 2 = 0) ∨
      (errCode &&& 3 = 1 ∧ errCode &&& 1 ≠ 0 ∧ errCode &&& 2 = 0) ∨
      (errCode &&& 3 = 2 ∧ errCode &&& 1 = 0 ∧ errCode &&& 2 ≠ 0) ∨
      (errCode &&& 3 = 3 ∧ errCode &&& 1 ≠ 0 ∧ errCode &&& 2 ≠ 0) := by
  have hone : errCode &&& 1 = (errCode &&& 3) &&& 1 := by
    rw [BitVec.and_assoc]
    rfl
  have htwo : errCode &&& 2 = (errCode &&& 3) &&& 2 := by
    rw [BitVec.and_assoc]
    rfl
  have hlt : (errCode &&& 3).toNat < 4 := by
    rw [BitVec.toNat_and]
    exact Nat.lt_of_le_of_lt Nat.and_le_right (by decide)
  rw [hone, htwo]
  have hcases : errCode &&& 3 = 0 ∨ errCode &&& 3 = 1 ∨ errCode &&& 3 = 2 ∨ errCode &&& 3 = 3 := by
    have hsplit : (errCode &&& 3).toNat = 0 ∨ (errCode &&& 3).toNat = 1 ∨ (errCode &&& 3).toNat = 2 ∨
        (errCode &&& 3).toNat = 3 := by omega
    rcases hsplit with h | h | h | h
    · exact Or.inl (BitVec.eq_of_toNat_eq h)
    · exact Or.inr (Or.inl (BitVec.eq_of_toNat_eq h))
    · exact Or.inr (Or.inr (Or.inl (BitVec.eq_of_toNat_eq h)))
    · exact Or.inr (Or.inr (Or.inr (BitVec.eq_of_toNat_eq h)))
  rcases hcases with h | h | h | h
  all_goals
    rw [h]
    decide

/-- The `switch` lets an access through that the area permits, unless it is a read of a present page. -/
theorem faultAllowed_iff (errCode : U32) (vma : VirtMemArea) :
    faultAllowed errCode vma.vmFlags = true ↔
      Permits vma errCode ∧ (errCode &&& 1 ≠ 0 → errCode &&& 2 ≠ 0) := by
  have hbits := errCode_low_bits errCode
  unfold faultAllowed Permits
  generalize errCode &&& 3 = low at hbits ⊢
  generalize errCode &&& 1 = present at hbits ⊢
  generalize errCode &&& 2 = write at hbits ⊢
  rcases hbits with ⟨h3, h1, h2⟩ | ⟨h3, h1, h2⟩ | ⟨h3, h1, h2⟩ | ⟨h3, h1, h2⟩
  all_goals simp_all

/-! ### The page of an address -/

theorem roundDown_page_toNat (va : U32) : (roundDown va PGSIZE).toNat = va.toNat / 4096 * 4096 := by
  rw [roundDown_toNat, show PGSIZE.toNat = 4096 from rfl]
  omega

@[simp] theorem pgdIndex_roundDown (va : U32) : pgdIndex (roundDown va PGSIZE) = pgdIndex va := by
  apply Fin.ext
  simp only [pgdIndex, roundDown_page_toNat, Fin.val_ofNat]
  omega

@[simp] theorem pteIndex_roundDown (va : U32) : pteIndex (roundDown va PGSIZE) = pteIndex va := by
  apply Fin.ext
  simp only [pteIndex, roundDown_page_toNat, Fin.val_ofNat]
  omega

/-- An address of an area of user memory has a slot in the user part of the directory. -/
theorem pgdIndex_lt_of_area {vma : VirtMemArea} (huser : UserRange vma.vmStart vma.vmEnd) {va : U32}
    (hin : vma.extent.Contains va.toNat) : (pgdIndex va).val < 768 := by
  have htop := huser.le_top
  simp only [Contains, VirtMemArea.extent] at hin
  simp only [pgdIndex, Fin.val_ofNat]
  omega

/-! ### Outcomes -/

section Outcomes

variable {lo hi : Nat} {s s' : Machine} {role : Nat → Role} {dirs : Set Nat} {mm : MemMap}

/-- The kernel part of every directory is as before. -/
def SameKernelPart (dirs : Set Nat) (s s' : Machine) : Prop :=
  ∀ d ∈ dirs, ∀ i : Fin 1024, 768 ≤ i.val → s'.mem d i = s.mem d i

/-- Every directory maps what it mapped before. -/
structure SameMappings (dirs : Set Nat) (s s' : Machine) : Prop where
  user : ∀ d ∈ dirs, ∀ i j : Fin 1024, i.val < 768 → look s' d i j = look s d i j
  kernel : SameKernelPart dirs s s'

theorem SameMappings.refl (dirs : Set Nat) (s : Machine) : SameMappings dirs s s :=
  ⟨fun _ _ _ _ _ => rfl, fun _ _ _ _ => rfl⟩

/-- One page is mapped by a new word, and everything else as before. -/
structure MapsPage (dirs : Set Nat) (s s' : Machine) (d : Nat) (va word : U32) : Prop where
  mapped : look s' d (pgdIndex va) (pteIndex va) = word
  others : ∀ d' ∈ dirs, ∀ i j : Fin 1024, i.val < 768 →
    ¬ (d' = d ∧ i = pgdIndex va ∧ j = pteIndex va) → look s' d' i j = look s d' i j
  kernel : SameKernelPart dirs s s'

/-- A page table that is made enters one word into one directory. -/
theorem TableReady.mem_dir {d t : Nat} {i : Fin 1024} {role' : Nat → Role}
    (h : TableReady s role d i t s' role') {d' : Nat} (hd' : role d' = .dir) {i' : Fin 1024} (hne : i' ≠ i) :
    s'.mem d' i' = s.mem d' i' := by
  cases h with
  | found ht => rfl
  | created ht hnone =>
      have hdt : d' ≠ t := by
        rintro rfl
        simp [ht] at hd'
      have hfill : ∀ m : Pmm, ((setPageRef { s with pmm := m } t 1).fillFrame t fun _ => 0).mem d' = s.mem d' :=
        fun m => Function.update_of_ne hdt _ _
      by_cases hd : d' = d
      · subst hd
        simp only [Machine.store, Function.update_self, Function.update_of_ne hne, hfill]
      · rw [store_mem_of_ne _ _ _ hd, hfill]

theorem Paged.of_steady (h : ∃ role', Frames lo hi s' role' ∧ Steady role role')
    (hdirs : ∀ d, role d = .dir ↔ d ∈ dirs) : Paged lo hi s' dirs := by
  obtain ⟨role', hframes, hsteady⟩ := h
  refine ⟨role', hframes, ?_⟩
  intro d
  rw [hsteady.dir, hdirs]

/-- A page gets a frame in a page table that is there, if a frame is free. -/
theorem pgdirAllocPage_empty (h : Frames lo hi s role) (hdirs : ∀ d, role d = .dir ↔ d ∈ dirs) {d t : Nat}
    {va perm : U32} (ht : role t = .table d (pgdIndex va)) (hnone : s.entry t (pteIndex va) = none)
    (hperm : perm.toNat < 2 ^ 12) :
    (s.pmm.freePageCount = 0 ∧ pgdirAllocPage s d va perm = .ok (none, s)) ∨
      ∃ p s', pgdirAllocPage s d va perm = .ok (some p, s') ∧ s.pmm.Free p ∧ 1 ≤ s.pmm.freePageCount ∧
        Paged lo hi s' dirs ∧ MapsPage dirs s s' d va (pteWord p perm) := by
  obtain ⟨hd, hva, hlink⟩ := h.table t d _ ht
  obtain ⟨page, s', role', hcall, hframes, hsteady⟩ := pgdirAllocPage_frames h hd hva hperm
  have htcount : t ≤ s.pageCount := h.le_pageCount (by simp [ht])
  rcases allocPhyPages_count h.pmm with ⟨hzero, halloc⟩ | ⟨p, m, halloc, hcount⟩
  · left
    refine ⟨hzero, ?_⟩
    unfold pgdirAllocPage
    rw [halloc]
    rfl
  · right
    have hinsert : pgdirAllocPage s d va perm = .ok (some p,
        (pageRefInc { s with pmm := m } p).store t (pteIndex va) (pteWord p perm)) := by
      unfold pgdirAllocPage
      rw [halloc, Res.ok_bind]
      dsimp only
      have hlink' : ({ s with pmm := m } : Machine).entry d (pgdIndex va) = some t := hlink
      rw [pageInsert_empty hlink' htcount hnone]
      rfl
    have hpaged : Paged lo hi ((pageRefInc { s with pmm := m } p).store t (pteIndex va) (pteWord p perm))
        dirs := by
      rw [hinsert] at hcall
      obtain ⟨-, rfl⟩ := Prod.mk.inj (Except.ok.inj hcall)
      exact Paged.of_steady ⟨role', hframes, hsteady⟩ hdirs
    have hfree : s.pmm.Free p := by
      rcases allocPhyPages_frames h with halloc' | ⟨q, m', halloc', hq, -⟩
      · rw [halloc] at halloc'
        simp at halloc'
      · rw [halloc] at halloc'
        obtain ⟨hpq, -⟩ := Prod.mk.inj (Except.ok.inj halloc')
        obtain rfl := Option.some.inj hpq
        exact (h.free p).mp hq
    refine ⟨p, _, hinsert, hfree, by omega, hpaged, ?_, ?_, ?_⟩
    · show look (s.store t (pteIndex va) (pteWord p perm)) d (pgdIndex va) (pteIndex va) = _
      rw [look_store h ht _ _ hd hva, if_pos ⟨rfl, rfl, rfl⟩]
    · intro d' hd' i j hi' hne
      show look (s.store t (pteIndex va) (pteWord p perm)) d' i j = _
      rw [look_store h ht _ _ ((hdirs d').mpr hd') hi', if_neg hne]
    · intro d' hd' i _
      have hdt : d' ≠ t := by
        rintro rfl
        have hdir := (hdirs d').mpr hd'
        simp [ht] at hdir
      show (s.store t (pteIndex va) (pteWord p perm)).mem d' i = _
      rw [store_mem_of_ne _ _ _ hdt]

/-- The end of a fault on a page that is not present, in an area with flags `vmFlags`. -/
inductive FaultEnd (lo hi : Nat) (dirs : Set Nat) (s : Machine) (mm : MemMap) (va vmFlags : U32) :
    Int → Machine → Prop
  | mapped {s' : Machine} (p : Nat) (hempty : pteOf s mm va = 0)
      (hcount : pageNeed s mm.dir va ≤ s.pmm.freePageCount) (hfree : s.pmm.Free p) (hpaged : Paged lo hi s' dirs)
      (hmaps : MapsPage dirs s s' mm.dir va (pteWord p (pagePerm vmFlags))) :
      FaultEnd lo hi dirs s mm va vmFlags 0 s'
  | refused {s' : Machine} (hcount : pteOf s mm va = 0 → s.pmm.freePageCount < pageNeed s mm.dir va)
      (hpaged : Paged lo hi s' dirs) (hsame : SameMappings dirs s s') :
      FaultEnd lo hi dirs s mm va vmFlags (-E_NOMEM) s'

theorem pagePerm_lt (vmFlags : U32) : (pagePerm vmFlags).toNat < 2 ^ 12 := by
  unfold pagePerm
  split
  · decide
  · decide

/-- A fault on a page that is not present, once it has passed the checks. -/
theorem doPgfault_absent (hs : Paged lo hi s dirs) (hmm : mm.Inv) (hdir : mm.dir ∈ dirs) {errCode va : U32}
    {vma : VirtMemArea} (hmem : vma ∈ mm.vmaList) (huser : UserRange vma.vmStart vma.vmEnd)
    (hin : vma.extent.Contains va.toNat) (hallowed : faultAllowed errCode vma.vmFlags = true)
    (habsent : target (pteOf s mm va) = none) :
    ∃ ret s', doPgfault s mm errCode va = .ok (ret, s', (findVma mm va).2) ∧
      FaultEnd lo hi dirs s mm va vma.vmFlags ret s' := by
  obtain ⟨role, h, hdirs⟩ := hs
  have hd := (hdirs _).mpr hdir
  have hfound : (findVma mm va).1 = some vma := (findVma_spec hmm va vma).mpr ⟨hmem, hin⟩
  have hstart : ¬ vma.vmStart > va := by
    have hlo := hin.1
    simp only [VirtMemArea.extent] at hlo
    simp only [gt_iff_lt, BitVec.lt_def]
    omega
  have hdirCache : (findVma mm va).2.dir = mm.dir := by
    rw [findVma_sameAreas mm va]
    rfl
  have hva := pgdIndex_lt_of_area huser hin
  have hva' : (pgdIndex (roundDown va PGSIZE)).val < 768 := by rwa [pgdIndex_roundDown]
  have hneed : pageNeed s mm.dir (roundDown va PGSIZE) = pageNeed s mm.dir va := by
    unfold pageNeed
    rw [pgdIndex_roundDown]
  unfold doPgfault
  rcases hpair : findVma mm va with ⟨found, mm'⟩
  rw [hpair] at hfound hdirCache
  dsimp only at hfound hdirCache
  subst hfound
  dsimp only
  rw [if_neg hstart, if_neg (by simp [hallowed]), hdirCache]
  rcases getPte_count h hd hva' with ⟨hentry, hzero, hcall⟩ |
    ⟨t, s₁, role₁, hcall, hready, h₁, hcount, -⟩
  · -- No page table, and no frame for one.
    rw [hcall]
    refine ⟨-E_NOMEM, s, rfl, .refused ?_ ⟨role, h, hdirs⟩ (SameMappings.refl dirs s)⟩
    intro _
    unfold pageNeed
    rw [pgdIndex_roundDown] at hentry
    rw [if_pos hentry]
    omega
  · rw [hcall, Res.ok_bind]
    rw [hneed] at hcount
    rw [pgdIndex_roundDown] at hready
    rw [pteIndex_roundDown]
    dsimp only
    have ht₁ := hready.isTable
    obtain ⟨hd₁, -, hlink₁⟩ := h₁.table t mm.dir _ ht₁
    have hdirs₁ : ∀ d, role₁ d = .dir ↔ d ∈ dirs := by
      intro d
      rw [hready.steady.dir, hdirs]
    have hsame : SameMappings dirs s s₁ := by
      refine ⟨fun d' hd' i j hi' => hready.look_eq h hd ((hdirs d').mpr hd') hi' j, ?_⟩
      intro d' hd' i hi'
      refine hready.mem_dir ((hdirs d').mpr hd') ?_
      rintro rfl
      omega
    have hword : s₁.mem t (pteIndex va) = pteOf s mm va := by
      rw [← look_of_entry hlink₁]
      exact hsame.user _ hdir _ _ hva
    rw [hword]
    by_cases hzero : pteOf s mm va = 0
    · rw [if_pos hzero]
      have hnone : s₁.entry t (pteIndex va) = none := by
        unfold Machine.entry
        rw [hword]
        exact habsent
      have hround : s₁.entry t (pteIndex (roundDown va PGSIZE)) = none := by rwa [pteIndex_roundDown]
      have ht₁' : role₁ t = .table mm.dir (pgdIndex (roundDown va PGSIZE)) := by rwa [pgdIndex_roundDown]
      rcases pgdirAllocPage_empty h₁ hdirs₁ ht₁' hround (pagePerm_lt vma.vmFlags) with
        ⟨hnofree, halloc⟩ | ⟨p, s₂, halloc, hfree, hone, hpaged, hmaps⟩
      · rw [halloc]
        exact ⟨-E_NOMEM, s₁, rfl, .refused (fun _ => by omega) ⟨role₁, h₁, hdirs₁⟩ hsame⟩
      · rw [halloc]
        have hfree₀ : s.pmm.Free p := by
          -- A frame that is free once the page table is there was free before.
          by_contra hused
          have hrole : role p ≠ .free := fun hp => hused ((h.free p).mp hp)
          have hrole₁ := hready.role_eq hrole
          rw [← hrole₁] at hrole
          exact hrole ((h₁.free p).mpr hfree)
        refine ⟨0, s₂, rfl, .mapped p hzero (by omega) hfree₀ hpaged ⟨?_, ?_, ?_⟩⟩
        · have hmapped := hmaps.mapped
          rwa [pgdIndex_roundDown, pteIndex_roundDown] at hmapped
        · intro d' hd' i j hi' hne
          rw [hmaps.others d' hd' i j hi' (by rwa [pgdIndex_roundDown, pteIndex_roundDown])]
          exact hsame.user d' hd' i j hi'
        · intro d' hd' i hi'
          rw [hmaps.kernel d' hd' i hi', hsame.kernel d' hd' i hi']
    · -- An entry that is neither empty nor present.
      rw [if_neg hzero, if_neg (by simpa using target_eq_none_iff.mp habsent)]
      exact ⟨-E_NOMEM, s₁, rfl, .refused (fun h0 => absurd h0 hzero) ⟨role₁, h₁, hdirs₁⟩ hsame⟩

/-- What the caller of `do_pgfault` has: a map in order whose directory is one of `dirs`, present pages that
agree with their areas, and an error code that agrees with the entry of the page. -/
structure FaultRaised (s : Machine) (dirs : Set Nat) (mm : MemMap) (errCode va : U32) : Prop where
  inv : mm.Inv
  user : ∀ vma ∈ mm.vmaList, UserRange vma.vmStart vma.vmEnd
  dir : mm.dir ∈ dirs
  ptes : AreaPtes s mm
  code : FaultCode s mm errCode va

/-- No area holds the address, or its flags or the error code are against the access. -/
theorem doPgfault_refused (hmm : mm.Inv) {errCode va : U32}
    (hnone : ∀ vma ∈ mm.vmaList, vma.extent.Contains va.toNat → faultAllowed errCode vma.vmFlags = false) :
    doPgfault s mm errCode va = .ok (-E_INVAL, s, (findVma mm va).2) := by
  unfold doPgfault
  rcases hpair : findVma mm va with ⟨found, mm'⟩
  cases found with
  | none => rfl
  | some vma =>
      obtain ⟨hmem, hin⟩ := (findVma_spec hmm va vma).mp (by rw [hpair])
      dsimp only
      split
      · rfl
      · rw [if_pos (by simp [hnone vma hmem hin])]

/-- A fault that passes the `switch` is a fault on a page that is not present. -/
theorem absent_of_allowed {errCode va : U32} (h : FaultRaised s dirs mm errCode va) {vma : VirtMemArea}
    (hmem : vma ∈ mm.vmaList) (hin : vma.extent.Contains va.toNat)
    (hallowed : faultAllowed errCode vma.vmFlags = true) : target (pteOf s mm va) = none := by
  obtain ⟨hpermits, hwrite⟩ := (faultAllowed_iff errCode vma).mp hallowed
  by_cases hbit : errCode &&& 1 = 0
  · exact h.code.absent hbit
  · -- A write that the area permits, to a present page: the page lets it through.
    obtain ⟨hpresent, hviolated⟩ := h.code.present hbit
    obtain ⟨huser, hwritable⟩ := h.ptes vma hmem va hin hpresent
    unfold Permits at hpermits
    rw [if_pos (hwrite hbit)] at hpermits
    rcases hviolated with ⟨-, hro⟩ | ⟨-, hsuper⟩
    · exact absurd hro (hwritable.mpr hpermits)
    · exact absurd hsuper huser

/-- **Page faults are resolved or refused.**  Let the frames be in order, the present pages of the areas
user pages that are writable exactly where the area is, and the error code in agreement with the entry of
the page.  Then for every map, or `NULL`, and every address `do_pgfault` returns.  The areas stay.  It
returns 0 only if an area permits the access, and then the page is mapped to a frame that was free, with the
permissions of the area, and nothing else is mapped differently.  If no area permits the access, the result
is negative and the machine is as it was.  Every other failure leaves all pages as they were mapped; where
the page has no entry yet, `-E_NOMEM` says exactly that the frames for it were missing. -/
theorem doPgfault_resolves_or_refuses (lo hi : Nat) (s : Machine) (dirs : Set Nat) (hs : Paged lo hi s dirs)
    (mm : Option MemMap) (errCode va : U32) (hraised : ∀ m, mm = some m → FaultRaised s dirs m errCode va) :
    ∃ ret s' mm', doPgfaultMm s mm errCode va = .ok (ret, s', mm') ∧ Paged lo hi s' dirs ∧
      (∀ m, mm = some m → ∃ m', mm' = some m' ∧ SameAreas m m') ∧
      (ret = 0 → ∃ m vma p, mm = some m ∧ vma ∈ m.vmaList ∧ vma.extent.Contains va.toNat ∧
        Permits vma errCode ∧ s.pmm.Free p ∧
        MapsPage dirs s s' m.dir va (pteWord p (pagePerm vma.vmFlags))) ∧
      ((∀ m, mm = some m → ¬ AccessPermitted m errCode va) → ret < 0 ∧ s' = s) ∧
      (ret ≠ 0 → ret < 0 ∧ SameMappings dirs s s') ∧
      (∀ m, mm = some m → AccessPermitted m errCode va → pteOf s m va = 0 →
        (s.pmm.freePageCount < pageNeed s m.dir va → ret = -E_NOMEM) ∧
        (pageNeed s m.dir va ≤ s.pmm.freePageCount → ret = 0)) := by
  have hinval : (-E_INVAL : Int) < 0 := by decide
  have hnomem : (-E_NOMEM : Int) < 0 := by decide
  cases mm with
  | none =>
      refine ⟨-E_INVAL, s, none, rfl, hs, ?_, ?_, fun _ => ⟨hinval, rfl⟩,
        fun _ => ⟨hinval, SameMappings.refl dirs s⟩, ?_⟩
      · intro m hm
        cases hm
      · intro hret
        exact absurd hret (by decide)
      · intro m hm
        cases hm
  | some m =>
      have h := hraised m rfl
      have hareas : ∀ m', some m = some m' → ∃ m'', some (findVma m va).2 = some m'' ∧ SameAreas m' m'' := by
        intro m' hm'
        obtain rfl := Option.some.inj hm'
        exact ⟨_, rfl, findVma_sameAreas m va⟩
      by_cases hallowed : ∃ vma ∈ m.vmaList, vma.extent.Contains va.toNat ∧
          faultAllowed errCode vma.vmFlags = true
      · obtain ⟨vma, hmem, hin, hflags⟩ := hallowed
        have hpermits := ((faultAllowed_iff errCode vma).mp hflags).1
        have habsent := absent_of_allowed h hmem hin hflags
        have hpermitted : AccessPermitted m errCode va := ⟨vma, hmem, hin, hpermits⟩
        obtain ⟨ret, s', hcall, hend⟩ := doPgfault_absent hs h.inv h.dir hmem (h.user vma hmem) hin hflags habsent
        have hmm : doPgfaultMm s (some m) errCode va = .ok (ret, s', some (findVma m va).2) := by
          unfold doPgfaultMm
          dsimp only
          rw [hcall]
          rfl
        cases hend with
        | mapped p hempty hcount hfree hpaged hmaps =>
            refine ⟨0, s', _, hmm, hpaged, hareas, ?_, ?_, fun hne => absurd rfl hne, ?_⟩
            · intro _
              exact ⟨m, vma, p, rfl, hmem, hin, hpermits, hfree, hmaps⟩
            · intro hnot
              exact absurd hpermitted (hnot m rfl)
            · intro m' hm' _ _
              obtain rfl := Option.some.inj hm'
              exact ⟨fun hlt => by omega, fun _ => rfl⟩
        | refused hcount hpaged hsame =>
            refine ⟨-E_NOMEM, s', _, hmm, hpaged, hareas, ?_, ?_, fun _ => ⟨hnomem, hsame⟩, ?_⟩
            · intro hret
              exact absurd hret (by decide)
            · intro hnot
              exact absurd hpermitted (hnot m rfl)
            · intro m' hm' _ hempty
              obtain rfl := Option.some.inj hm'
              exact ⟨fun _ => rfl, fun hle => absurd (hcount hempty) (by omega)⟩
      · have hrefused : ∀ vma ∈ m.vmaList, vma.extent.Contains va.toNat →
            faultAllowed errCode vma.vmFlags = false := by
          intro vma hmem hin
          by_contra hflags
          exact hallowed ⟨vma, hmem, hin, by simpa using hflags⟩
        have hmm : doPgfaultMm s (some m) errCode va = .ok (-E_INVAL, s, some (findVma m va).2) := by
          unfold doPgfaultMm
          dsimp only
          rw [doPgfault_refused h.inv hrefused]
          rfl
        refine ⟨-E_INVAL, s, _, hmm, hs, hareas, ?_, fun _ => ⟨hinval, rfl⟩,
          fun _ => ⟨hinval, SameMappings.refl dirs s⟩, ?_⟩
        · intro hret
          exact absurd hret (by decide)
        · intro m' hm' hpermitted hempty
          obtain rfl := Option.some.inj hm'
          -- A page without an entry is not present, so the `switch` lets the access through.
          obtain ⟨vma, hmem, hin, hpermits⟩ := hpermitted
          refine absurd ⟨vma, hmem, hin, (faultAllowed_iff errCode vma).mpr ⟨hpermits, ?_⟩⟩ hallowed
          intro hbit
          have hpresent := (h.code.present hbit).1
          rw [hempty, target_zero] at hpresent
          exact absurd rfl hpresent

/-- A read fault in the one area of a map whose directory is empty. -/
def readFaultMm : MemMap := ⟨[⟨0, 0x200000, 0x201000, VMM_READ⟩], none, page2kva 2, 1, 0⟩

/-- The machine with that directory. -/
def readFaultMachine : Res (Option Nat × Machine) := setupPgdir twelveFrames

/-- The page gets a frame, which user code may read. -/
theorem doPgfault_resolves_read : ∃ s, readFaultMachine = .ok (some 2, s) ∧
    ∃ s' mm' p, doPgfaultMm s (some readFaultMm) 4#32 0x200123#32 = .ok (0, s', mm') ∧ s.pmm.Free p ∧
      MapsPage {2} s s' 2 0x200123#32 (pteWord p PTE_PAGE_USER) := by
  have s₁ : PagingStep ⟨twelveFrames, ∅, ∅⟩ ⟨_, insert 2 ∅, ∅⟩ := .setupPgdir rfl
  have hboot : Booted 2 12 twelveFrames := booted_of_memmapInit (n := 10) rfl (by decide)
  obtain ⟨role, h⟩ := pagingInv_of_run hboot (.single s₁)
  have hone : (insert 2 ∅ : Set Nat) = {2} := by simp
  have hpaged : Paged 2 12 _ {2} := ⟨role, h.frames, by rw [← hone]; exact h.dirs⟩
  refine ⟨_, rfl, ?_⟩
  obtain ⟨ret, s', mm', hcall, -, -, hmapped, -, -, hframes⟩ := doPgfault_resolves_or_refuses 2 12 _ {2} hpaged
    (some readFaultMm) 4#32 0x200123#32 (by
      intro m hm
      obtain rfl := Option.some.inj hm
      refine ⟨⟨⟨by decide, by decide⟩, rfl, by simp [readFaultMm]⟩, ?_, rfl, ?_, ?_, ?_⟩
      · intro vma hvma
        obtain rfl := List.mem_singleton.mp hvma
        exact ⟨rfl, rfl, rfl⟩
      · intro vma hvma va hin hpresent
        obtain rfl := List.mem_singleton.mp hvma
        have hslot : pgdIndex va = 0 := by
          apply Fin.ext
          have hbound : va.toNat < 0x201000 := hin.2
          simp only [pgdIndex, Fin.val_ofNat]
          omega
        refine absurd ?_ hpresent
        unfold pteOf
        rw [hslot]
        exact target_zero
      · intro _
        exact target_zero
      · intro hbit
        exact absurd rfl hbit)
  have hpermitted : AccessPermitted readFaultMm 4#32 0x200123#32 :=
    ⟨_, List.mem_singleton.mpr rfl, ⟨by decide, by decide⟩, by unfold Permits; decide⟩
  have hret : ret = 0 := (hframes _ rfl hpermitted rfl).2 (by decide)
  subst hret
  obtain ⟨m, vma, p, hm, hvma, -, -, hfree, hmaps⟩ := hmapped rfl
  obtain rfl := Option.some.inj hm
  obtain rfl := List.mem_singleton.mp hvma
  exact ⟨s', mm', p, hcall, hfree, hmaps⟩

end Outcomes

end Memory
end FreakOS
