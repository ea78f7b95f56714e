import FreakOS.Memory.Boot

/-!
# Addresses and the array of pages

The conversions of `pmm.h` between physical addresses, kernel addresses and pointers into `Pages`, on words.  Elsewhere
the model names a page by its index.

* `pa2page`, `pa2pagen`, `pa2kva`, `kva2pa`, `pte2page`, … — as in the source.
* `Sound` — what the conversions of an address are to do.
* `conversions_sound_iff` — the addresses for which they do it.
-/

namespace FreakOS
namespace PageArray

open Memory (pteAddr PTE_PAGE_PERSENT page2pagen pagePointer sizeofPhyPageBlock page2pagen_some BootInfo)

/-- `Pages` and `PageCount`. -/
structure Globals where
  pages : U32
  pageCount : U32

/-- `pagesInit()`, for a kernel that ends at `kernEnd`. -/
def pagesInit (kernEnd phyMemSize : U32) : Globals := ⟨roundUp kernEnd PGSIZE, phyMemSize / PGSIZE⟩

section Source

variable (g : Globals)

/-- `&Pages[i]`. -/
def element (i : U32) : U32 := g.pages + sizeofPhyPageBlock * i

/-- `page2pa(page)`. -/
def page2pa (page : U32) : U32 := page2pagen g.pages page <<< 12

/-- `pa2page(pa)`. -/
def pa2page (pa : U32) : Res U32 :=
  if pa >>> 12 > g.pageCount then .error (.panic "pa is invalid!") else .ok (element g (pa >>> 12))

/-- `pa2pagen(pa)`. -/
def pa2pagen (pa : U32) : Res U32 :=
  if pa >>> 12 > g.pageCount then .error (.panic "pa is invalid!") else .ok (pa >>> 12)

/-- `kva2pa(kva)`. -/
def kva2pa (kva : U32) : Res U32 :=
  if kva < KERNEL_BASE then .error (.panic "kva2pa err: arg is not less than KERNEL_BASE! ")
  else .ok (kva - KERNEL_BASE)

/-- `pa2kva(pa)`. -/
def pa2kva (pa : U32) : Res U32 := do
  let _ ← pa2pagen g pa
  return pa + KERNEL_BASE

/-- `pte2page(pte)`. -/
def pte2page (pte : U32) : Res U32 :=
  if pte &&& PTE_PAGE_PERSENT = 0 then .error (.panic "pte2page err: invalid pte!") else pa2page g (pteAddr pte)

/-- `pgd2page(pgd)`. -/
def pgd2page (pgd : U32) : Res U32 := pa2page g (pteAddr pgd)

end Source

/-- The code has stopped with a panic. -/
def Panics {α : Type} (r : Res α) : Prop := ∃ msg, r = .error (.panic msg)

/-- A conversion panics, or returns an element of `Pages`. -/
def InArray (g : Globals) (r : Res U32) : Prop := Panics r ∨ ∃ i < g.pageCount, r = .ok (element g i)

/-- The conversions of `pa` stay inside `Pages` and invert each other. -/
structure Sound (g : Globals) (pa : U32) : Prop where
  page : Panics (pa2page g pa) ∨ pa2page g pa = .ok (element g (pa >>> 12)) ∧ pa >>> 12 < g.pageCount
  pagen : Panics (pa2pagen g pa) ∨ pa2pagen g pa = .ok (pa >>> 12) ∧ pa >>> 12 < g.pageCount
  kva : Panics (pa2kva g pa) ∨ pa2pagen g pa = .ok (pa >>> 12) ∧ pa >>> 12 < g.pageCount
  page2pa : ∀ page, pa2page g pa = .ok page → page2pa g page = roundDown pa PGSIZE
  kva2pa : ∀ kva, pa2kva g pa = .ok kva → kva2pa kva = .ok pa
  entries : ∀ entry, pteAddr entry = roundDown pa PGSIZE → InArray g (pte2page g entry) ∧ InArray g (pgd2page g entry)

/-- From an element of `Pages` to its address and back. -/
def RoundTrip (g : Globals) (i : U32) : Prop := pa2page g (page2pa g (element g i)) = .ok (element g i)

section Words

variable {g : Globals} {pa i : U32}

theorem index_toNat (pa : U32) : (pa >>> 12).toNat = pa.toNat / 4096 := by
  rw [BitVec.toNat_ushiftRight, Nat.shiftRight_eq_div_pow]

theorem roundDown_page (pa : U32) : roundDown pa PGSIZE = (pa >>> 12) <<< 12 := by
  have hlt := pa.isLt
  apply BitVec.eq_of_toNat_eq
  rw [roundDown_toNat, BitVec.toNat_shiftLeft, index_toNat, Nat.shiftLeft_eq]
  change pa.toNat - pa.toNat % 4096 = pa.toNat / 4096 * 4096 % 2 ^ 32
  omega

theorem shift_index (pa : U32) : ((pa >>> 12) <<< 12) >>> 12 = pa >>> 12 := by
  have hlt := pa.isLt
  apply BitVec.eq_of_toNat_eq
  rw [index_toNat, BitVec.toNat_shiftLeft, index_toNat, Nat.shiftLeft_eq]
  omega

theorem page2pa_element (g : Globals) (hi : i.toNat < 2 ^ 20) : page2pa g (element g i) = i <<< 12 := by
  have hpointer : element g i = pagePointer g.pages (some i.toNat) := by
    show _ = g.pages + sizeofPhyPageBlock * BitVec.ofNat 32 i.toNat
    rw [BitVec.ofNat_toNat, BitVec.setWidth_eq]
    rfl
  unfold page2pa
  rw [hpointer, page2pagen_some g.pages hi, BitVec.ofNat_toNat, BitVec.setWidth_eq]

theorem pa2page_of_le (h : ¬ pa >>> 12 > g.pageCount) : pa2page g pa = .ok (element g (pa >>> 12)) := if_neg h

theorem pa2pagen_of_le (h : ¬ pa >>> 12 > g.pageCount) : pa2pagen g pa = .ok (pa >>> 12) := if_neg h

theorem pa2kva_of_le (h : ¬ pa >>> 12 > g.pageCount) : pa2kva g pa = .ok (pa + KERNEL_BASE) := by
  unfold pa2kva
  rw [pa2pagen_of_le h]
  rfl

theorem panics_of_gt (h : pa >>> 12 > g.pageCount) :
    Panics (pa2page g pa) ∧ Panics (pa2pagen g pa) ∧ Panics (pa2kva g pa) := by
  have hpagen : pa2pagen g pa = .error (.panic "pa is invalid!") := if_pos h
  refine ⟨⟨_, if_pos h⟩, ⟨_, hpagen⟩, "pa is invalid!", ?_⟩
  unfold pa2kva
  rw [hpagen]
  rfl

theorem not_panics_ok {α : Type} (a : α) : ¬ Panics (.ok a) := by
  intro h
  obtain ⟨msg, hmsg⟩ := h
  cases hmsg

/-- The kernel addresses are those of the first gigabyte. -/
theorem kva2pa_iff (pa : U32) : kva2pa (pa + KERNEL_BASE) = .ok pa ↔ pa < 0x40000000 := by
  have hlt := pa.isLt
  have hbase : KERNEL_BASE.toNat = 0xC0000000 := rfl
  have hsum : (pa + KERNEL_BASE).toNat = (pa.toNat + 0xC0000000) % 2 ^ 32 := BitVec.toNat_add ..
  have hback : pa + KERNEL_BASE - KERNEL_BASE = pa := BitVec.add_sub_cancel pa KERNEL_BASE
  have hlow : (pa < 0x40000000) ↔ pa.toNat < 0x40000000 := BitVec.lt_def
  unfold kva2pa
  by_cases hwrap : pa + KERNEL_BASE < KERNEL_BASE
  · rw [if_pos hwrap]
    rw [BitVec.lt_def, hsum, hbase] at hwrap
    refine iff_of_false (fun h => by cases h) ?_
    rw [hlow]
    omega
  · rw [if_neg hwrap, hback]
    rw [BitVec.lt_def, hsum, hbase] at hwrap
    refine iff_of_true rfl ?_
    rw [hlow]
    omega

end Words

section Sound

variable {g : Globals} {pa : U32}

/-- An entry that is decoded has the index of its page. -/
theorem entries_inArray (h : pa >>> 12 > g.pageCount ∨ pa >>> 12 < g.pageCount) {entry : U32}
    (hentry : pteAddr entry = roundDown pa PGSIZE) : InArray g (pa2page g (pteAddr entry)) := by
  have hindex : pteAddr entry >>> 12 = pa >>> 12 := by rw [hentry, roundDown_page, shift_index]
  cases h with
  | inl hgt =>
      rw [← hindex] at hgt
      exact .inl (panics_of_gt hgt).1
  | inr hlt =>
      rw [← hindex] at hlt
      exact .inr ⟨_, hlt, pa2page_of_le fun hgt => absurd (BitVec.lt_def.mp hgt) (Nat.lt_asymm (BitVec.lt_def.mp hlt))⟩

theorem inArray_pte2page {entry : U32} (h : InArray g (pa2page g (pteAddr entry))) : InArray g (pte2page g entry) := by
  unfold pte2page
  by_cases hpresent : entry &&& PTE_PAGE_PERSENT = 0
  · rw [if_pos hpresent]
    exact .inl ⟨_, rfl⟩
  · rw [if_neg hpresent]
    exact h

/-- The test lets `PageCount` itself through. -/
theorem sound_index (h : Sound g pa) : pa >>> 12 > g.pageCount ∨ pa >>> 12 < g.pageCount := by
  by_cases hgt : pa >>> 12 > g.pageCount
  · exact .inl hgt
  · cases h.page with
    | inl hpanic =>
        rw [pa2page_of_le hgt] at hpanic
        exact absurd hpanic (not_panics_ok _)
    | inr hpage => exact .inr hpage.2

theorem sound_iff : Sound g pa ↔ g.pageCount < pa >>> 12 ∨ (pa >>> 12 < g.pageCount ∧ pa < 0x40000000) := by
  constructor
  · intro h
    cases sound_index h with
    | inl hgt => exact .inl hgt
    | inr hlt =>
        have hle : ¬ pa >>> 12 > g.pageCount :=
          fun hgt => absurd (BitVec.lt_def.mp hgt) (Nat.lt_asymm (BitVec.lt_def.mp hlt))
        exact .inr ⟨hlt, (kva2pa_iff pa).mp (h.kva2pa _ (pa2kva_of_le hle))⟩
  · intro h
    have hindex : pa >>> 12 > g.pageCount ∨ pa >>> 12 < g.pageCount := h.imp id And.left
    have hentries : ∀ entry, pteAddr entry = roundDown pa PGSIZE →
        InArray g (pte2page g entry) ∧ InArray g (pgd2page g entry) := by
      intro entry hentry
      have harray := entries_inArray hindex hentry
      exact ⟨inArray_pte2page harray, harray⟩
    cases h with
    | inl hgt =>
        obtain ⟨hpage, hpagen, hkva⟩ := panics_of_gt hgt
        refine ⟨.inl hpage, .inl hpagen, .inl hkva, ?_, ?_, hentries⟩
        · intro page hok
          rw [hok] at hpage
          exact absurd hpage (not_panics_ok page)
        · intro kva hok
          rw [hok] at hkva
          exact absurd hkva (not_panics_ok kva)
    | inr hin =>
        obtain ⟨hlt, hlow⟩ := hin
        have hle : ¬ pa >>> 12 > g.pageCount :=
          fun hgt => absurd (BitVec.lt_def.mp hgt) (Nat.lt_asymm (BitVec.lt_def.mp hlt))
        refine ⟨.inr ⟨pa2page_of_le hle, hlt⟩, .inr ⟨pa2pagen_of_le hle, hlt⟩, .inr ⟨pa2pagen_of_le hle, hlt⟩, ?_, ?_,
          hentries⟩
        · intro page hok
          obtain rfl := Except.ok.inj ((pa2page_of_le hle).symm.trans hok)
          have hsmall : (pa >>> 12).toNat < 2 ^ 20 := by
            have hbound := pa.isLt
            rw [index_toNat]
            omega
          rw [page2pa_element g hsmall, roundDown_page]
        · intro kva hok
          obtain rfl := Except.ok.inj ((pa2kva_of_le hle).symm.trans hok)
          exact (kva2pa_iff pa).mpr hlow

/-- The address of page `2 ^ 20` is 0. -/
theorem not_roundTrip_top (g : Globals) : ¬ RoundTrip g 0x100000 := by
  intro h
  have hdiff : element g 0x100000 - g.pages = sizeofPhyPageBlock * 0x100000 := by
    unfold element
    rw [BitVec.add_comm, BitVec.add_sub_cancel]
  have hzero : page2pa g (element g 0x100000) = 0 := by
    unfold page2pa page2pagen
    rw [hdiff]
    decide
  have hnone : ¬ (0 : U32) >>> 12 > g.pageCount := fun hlt => absurd (BitVec.lt_def.mp hlt) (Nat.not_lt_zero _)
  unfold RoundTrip at h
  rw [hzero, pa2page_of_le hnone] at h
  have hsame : element g ((0 : U32) >>> 12) - g.pages = sizeofPhyPageBlock * 0x100000 := by
    rw [Except.ok.inj h, hdiff]
  unfold element at hsame
  rw [BitVec.add_comm, BitVec.add_sub_cancel] at hsame
  revert hsame
  decide

theorem roundTrip_iff (g : Globals) : (∀ i < g.pageCount, RoundTrip g i) ↔ g.pageCount ≤ 0x100000 := by
  constructor
  · intro h
    by_contra hgt
    exact not_roundTrip_top g (h 0x100000 (BitVec.not_le.mp hgt))
  · intro hle i hi
    have hlt : i.toNat < g.pageCount.toNat := BitVec.lt_def.mp hi
    have htop : g.pageCount.toNat ≤ 2 ^ 20 := BitVec.le_def.mp hle
    have hindex : (i <<< 12) >>> 12 = i := by
      apply BitVec.eq_of_toNat_eq
      rw [index_toNat, BitVec.toNat_shiftLeft, Nat.shiftLeft_eq]
      omega
    unfold RoundTrip
    rw [page2pa_element g (by omega), pa2page_of_le, hindex]
    rw [hindex]
    exact fun hgt => absurd (BitVec.lt_def.mp hgt) (Nat.lt_asymm hlt)

end Sound

/-- Memory has at most `2 ^ 20` pages. -/
theorem pagesInit_pageCount (kernEnd phyMemSize : U32) : (pagesInit kernEnd phyMemSize).pageCount ≤ 0x100000 := by
  have hlt := phyMemSize.isLt
  have hdiv : (pagesInit kernEnd phyMemSize).pageCount.toNat = phyMemSize.toNat / 4096 := BitVec.toNat_udiv
  rw [BitVec.le_def, hdiv]
  change phyMemSize.toNat / 4096 ≤ 2 ^ 20
  omega

/-- `pagesInit` here and at boot. -/
theorem pagesInit_eq (b : BootInfo) (kernEnd : U32) :
    (Memory.pagesInit b kernEnd).pages = (pagesInit kernEnd b.phyMemSize).pages ∧
      (Memory.pagesInit b kernEnd).machine.pageCount = (pagesInit kernEnd b.phyMemSize).pageCount.toNat := ⟨rfl, rfl⟩

/-- `pa2page` here and where a page is its index. -/
theorem pa2page_eq (g : Globals) (s : Memory.Machine) (hcount : s.pageCount = g.pageCount.toNat) (pa : U32) :
    pa2page g pa = (Memory.pa2page s pa).map fun n => element g (BitVec.ofNat 32 n) := by
  unfold pa2page Memory.pa2page
  have hiff : pa >>> 12 > g.pageCount ↔ (pa >>> 12).toNat > s.pageCount := by
    rw [hcount]
    exact BitVec.lt_def
  by_cases hgt : pa >>> 12 > g.pageCount
  · rw [if_pos hgt, if_pos (hiff.mp hgt)]
    rfl
  · rw [if_neg hgt, if_neg fun h => hgt (hiff.mpr h)]
    show _ = Except.ok (element g (BitVec.ofNat 32 (pa >>> 12).toNat))
    rw [BitVec.ofNat_toNat, BitVec.setWidth_eq]

/-- For every `Pages` and `PageCount`: the conversions of an address are sound if and only if it is behind the page
`PageCount`, or before it and in the first gigabyte; and all elements of `Pages` have addresses that lead back to them
if and only if there are at most `2 ^ 20`. -/
theorem conversions_sound_iff (g : Globals) :
    (∀ pa, Sound g pa ↔ g.pageCount < pa >>> 12 ∨ (pa >>> 12 < g.pageCount ∧ pa < 0x40000000)) ∧
      ((∀ i < g.pageCount, RoundTrip g i) ↔ g.pageCount ≤ 0x100000) :=
  ⟨fun _ => sound_iff, roundTrip_iff g⟩

/-- With 32 MB of memory, the address of its end is converted to the element behind the array. -/
theorem end_of_memory_accepted : (pagesInit 0xC0200000 0x2000000).pageCount = 8192 ∧
    pa2page (pagesInit 0xC0200000 0x2000000) 0x2000000 = .ok (element (pagesInit 0xC0200000 0x2000000) 8192) ∧
      ¬ Sound (pagesInit 0xC0200000 0x2000000) 0x2000000 := by
  refine ⟨by decide, by decide, fun h => ?_⟩
  cases sound_index h with
  | inl hgt => exact absurd hgt (by decide)
  | inr hlt => exact absurd hlt (by decide)

end PageArray
end FreakOS
