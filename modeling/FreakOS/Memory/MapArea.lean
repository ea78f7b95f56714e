import FreakOS.Memory.FirstFit
import FreakOS.Memory.Fork
import FreakOS.Memory.Kmalloc
import FreakOS.Memory.PageFault

/-!
# What `mm_map` accepts

`mm_map` rounds the request to pages, tests the rounded bounds, looks up the area of the first page, and
leaves every other comparison with the existing areas to `insert_vma`.

* `mmMap_refused`, `mmMap_taken`, `mmMap_vacant` — the three ways through the function.
* `mmMap_rejects_overlap_iff` — an overlap is refused without a panic unless the new range starts below the
  area that it runs into.
* `mmMap_covers_iff` — the new area covers the request unless `start_vaddr + len` wraps around past the
  start of its own page.
-/

namespace FreakOS
namespace Memory

open Lib
open Lib.Extent

/-- The local `start` of `mm_map`. -/
def mapStart (startVaddr : U32) : U32 := roundDown startVaddr PGSIZE

/-- The local `end` of `mm_map`. -/
def mapStop (startVaddr len : U32) : U32 := roundUp (startVaddr + len) PGSIZE

/-- The page-rounded range of a request. -/
def mapRange (startVaddr len : U32) : Extent := ⟨(mapStart startVaddr).toNat, (mapStop startVaddr len).toNat⟩

/-- The same map, apart from the area that the lookup cache holds. -/
def SameAreas (mm mm' : MemMap) : Prop := mm' = { mm with vmaCache := mm'.vmaCache }

theorem SameAreas.refl (mm : MemMap) : SameAreas mm mm := rfl

theorem findVma_sameAreas (mm : MemMap) (vaddr : U32) : SameAreas mm (findVma mm vaddr).2 := by
  rcases findVma_snd mm vaddr with h | ⟨vma, -, h⟩
  · rw [h]
    exact SameAreas.refl mm
  · rw [h]
    rfl

theorem mapStart_toNat (a : U32) : (mapStart a).toNat = a.toNat - a.toNat % 4096 := roundDown_toNat a PGSIZE

theorem mapStop_toNat (a len : U32) :
    (mapStop a len).toNat = ((a.toNat + len.toNat) % 2 ^ 32 + 4095) % 2 ^ 32 / 4096 * 4096 := by
  unfold mapStop
  rw [roundUp_toNat, BitVec.toNat_add]

theorem mapRange_access_iff (a len : U32) :
    isUserCanAccess (mapStart a) (mapStop a len) = true ↔
      USER_BASE.toNat ≤ (mapRange a len).lo ∧ (mapRange a len).lo < (mapRange a len).hi ∧
        (mapRange a len).hi ≤ USER_TOP.toNat := by
  simp [isUserCanAccess, mapRange, BitVec.le_def, BitVec.lt_def, and_assoc]

/-! ### The three ways through `mm_map` -/

section Paths

variable {s : Machine} {mm : MemMap} {a len flags : U32}

theorem mmMap_refused (s : Machine) (mm : MemMap) (flags : U32)
    (haccess : isUserCanAccess (mapStart a) (mapStop a len) = false) :
    mmMap s mm a len flags = .ok (-E_INVAL, mm, s) := by
  unfold mapStart mapStop at haccess
  unfold mmMap
  simp [haccess]

/-- The first page lies in an area. -/
theorem mmMap_taken (s : Machine) (flags : U32) (h : mm.Inv)
    (haccess : isUserCanAccess (mapStart a) (mapStop a len) = true)
    {vma : VirtMemArea} (hmem : vma ∈ mm.vmaList) (hfirst : vma.extent.Contains (mapRange a len).lo) :
    mmMap s mm a len flags = .ok (-E_INVAL, (findVma mm (mapStart a)).2, s) := by
  have hfound : (findVma mm (mapStart a)).1 = some vma := (findVma_spec h _ _).mpr ⟨hmem, hfirst⟩
  have hbelow : mapStop a len > vma.vmStart := by
    have hrange := (mapRange_access_iff a len).mp haccess
    have hlo := hfirst.1
    simp only [mapRange, VirtMemArea.extent] at hrange hlo
    rw [gt_iff_lt, BitVec.lt_def]
    omega
  unfold mapStart mapStop at *
  unfold mmMap
  simp [haccess, hfound, hbelow]

/-- The first page lies in no area: the new area is allocated and inserted. -/
theorem mmMap_vacant (s : Machine) (flags : U32) (h : mm.Inv)
    (haccess : isUserCanAccess (mapStart a) (mapStop a len) = true)
    (hfirst : ∀ vma ∈ mm.vmaList, ¬ vma.extent.Contains (mapRange a len).lo) :
    mmMap s mm a len flags = (do
      let (vma, s) ← vmaCreate s (mapStart a) (mapStop a len) flags
      let mm ← insertVma mm vma
      return (0, mm, s)) := by
  have hnone : (findVma mm (mapStart a)).1 = none := by
    cases hfound : (findVma mm (mapStart a)).1 with
    | none => rfl
    | some vma =>
        obtain ⟨hmem, hcont⟩ := (findVma_spec h _ _).mp hfound
        exact absurd hcont (hfirst vma hmem)
  have hsame : (findVma mm (mapStart a)).2 = mm := by
    rcases findVma_snd mm (mapStart a) with heq | ⟨vma, hsome, -⟩
    · exact heq
    · rw [hnone] at hsome
      simp at hsome
  unfold mapStart mapStop at *
  unfold mmMap
  simp [haccess, hnone, hsame]

/-- `vma_create` returns the area that it is asked for, if it returns. -/
theorem vmaCreate_cases (s : Machine) (start stop flags : U32) :
    vmaCreate s start stop flags = .error .wildPointer ∨
      ∃ node m, vmaCreate s start stop flags = .ok (⟨node, start, stop, flags⟩, { s with pmm := m }) := by
  obtain ⟨⟨o, m⟩, hcall⟩ := ffAllocPages_returns s.pmm Nat.one_pos
  unfold vmaCreate kmalloc allocPhyPages
  rw [show pagesOf sizeofVirtMemArea = 1 from rfl, hcall]
  cases o with
  | none => exact Or.inl rfl
  | some p => exact Or.inr ⟨_, m, rfl⟩

/-- It returns exactly when a page is free. -/
theorem vmaCreate_ok_iff {lo hi : Nat} (h : s.pmm.Inv lo hi) (start stop flags : U32) :
    (∃ r, vmaCreate s start stop flags = .ok r) ↔ ∃ x, s.pmm.Free x := by
  obtain ⟨⟨o, m⟩, hcall⟩ := ffAllocPages_returns s.pmm Nat.one_pos
  unfold vmaCreate kmalloc allocPhyPages
  rw [show pagesOf sizeofVirtMemArea = 1 from rfl, hcall]
  cases o with
  | none =>
      rw [ffAllocPages_none hcall] at hcall
      have hnone := (ffAllocPages_eq_none_iff h Nat.one_pos).mp hcall
      constructor
      · rintro ⟨r, hr⟩
        simp [bind, Except.bind, pure, Except.pure] at hr
      · rintro ⟨x, hx⟩
        refine absurd ⟨x, ?_⟩ hnone
        intro y hy hyx
        obtain rfl : y = x := by omega
        exact hx
  | some p =>
      have hspec := ffAllocPages_spec h hcall
      constructor
      · intro
        exact ⟨p, (hspec.free p).mpr (Or.inr ⟨le_rfl, by omega⟩)⟩
      · intro
        exact ⟨_, rfl⟩

end Paths

/-! ### Overlaps -/

/-- An overlap is refused, nothing but the lookup cache changes, and no check of `insert_vma` panics. -/
def RejectsOverlap (s : Machine) (mm : MemMap) (a len flags : U32) : Prop :=
  ((∃ vma ∈ mm.vmaList, ∃ x, vma.extent.Contains x ∧ (mapRange a len).Contains x) →
    ∃ mm', mmMap s mm a len flags = .ok (-E_INVAL, mm', s) ∧ SameAreas mm mm') ∧
  ∀ msg, mmMap s mm a len flags ≠ .error (.panic msg)

/-- The range lies in user space, its first page is vacant, and an area begins further up in it. -/
def EntersFromBelow (mm : MemMap) (a len : U32) : Prop :=
  isUserCanAccess (mapStart a) (mapStop a len) = true ∧
  (∀ vma ∈ mm.vmaList, ¬ vma.extent.Contains (mapRange a len).lo) ∧
  ∃ vma ∈ mm.vmaList, (mapRange a len).Contains vma.extent.lo

/-- A vacant first page leaves one way to overlap. -/
theorem overlap_iff_begins {mm : MemMap} (h : mm.Inv) {i : Extent}
    (hfirst : ∀ vma ∈ mm.vmaList, ¬ vma.extent.Contains i.lo) :
    (∃ vma ∈ mm.vmaList, ∃ x, vma.extent.Contains x ∧ i.Contains x) ↔
      ∃ vma ∈ mm.vmaList, i.Contains vma.extent.lo := by
  constructor
  · rintro ⟨vma, hmem, x, hx, hix⟩
    refine ⟨vma, hmem, ?_⟩
    have hnot := hfirst vma hmem
    unfold Contains at *
    omega
  · rintro ⟨vma, hmem, hin⟩
    have hne := h.sorted.nonempty _ (List.mem_map_of_mem hmem)
    exact ⟨vma, hmem, vma.extent.lo, ⟨le_rfl, hne⟩, hin⟩

/-- **Overlapping requests.**  For every map reached from `mm_create`, every machine and every request: an
overlapping request is refused with `-E_INVAL`, changes nothing but the lookup cache, and no check of
`insert_vma` panics, exactly when the request does not start in a vacant page below an area that it runs
into. -/
theorem mmMap_rejects_overlap_iff (s : Machine) (mm : MemMap) (a len flags : U32)
    (hrun : Relation.ReflTransGen VmaStep mmCreate mm) :
    RejectsOverlap s mm a len flags ↔ ¬ EntersFromBelow mm a len := by
  have h := inv_of_vmaRun hrun
  by_cases haccess : isUserCanAccess (mapStart a) (mapStop a len) = true
  · have hrange := (mapRange_access_iff a len).mp haccess
    by_cases hfirst : ∀ vma ∈ mm.vmaList, ¬ vma.extent.Contains (mapRange a len).lo
    · have hcall := mmMap_vacant s flags h haccess hfirst
      have henters : EntersFromBelow mm a len ↔ ∃ vma ∈ mm.vmaList, (mapRange a len).Contains vma.extent.lo :=
        ⟨fun hfrom => hfrom.2.2, fun hin => ⟨haccess, hfirst, hin⟩⟩
      have hreturn : ∀ mm', mmMap s mm a len flags ≠ .ok (-E_INVAL, mm', s) := by
        intro mm' heq
        rw [hcall] at heq
        obtain ⟨r, -, heq⟩ := Res.bind_eq_ok.mp heq
        obtain ⟨mm'', -, heq⟩ := Res.bind_eq_ok.mp heq
        have hzero := congrArg Prod.fst (Except.ok.inj heq)
        simp [E_INVAL] at hzero
      rw [henters, ← overlap_iff_begins h hfirst]
      constructor
      · intro hprop hover
        obtain ⟨mm', heq, -⟩ := hprop.1 hover
        exact hreturn mm' heq
      · intro hnone
        refine ⟨fun hover => absurd hover hnone, ?_⟩
        intro msg hpanic
        rw [hcall] at hpanic
        rcases vmaCreate_cases s (mapStart a) (mapStop a len) flags with hwild | ⟨node, m, hok⟩
        · rw [hwild] at hpanic
          simp [bind, Except.bind] at hpanic
        · have hapart : ∀ vma ∈ mm.vmaList, Apart (mapRange a len) vma.extent := by
            intro vma hmem
            have hne := h.sorted.nonempty _ (List.mem_map_of_mem hmem)
            refine (apart_iff_disjoint hrange.2.1 hne).mpr ?_
            intro x hx hvx
            exact hnone ⟨vma, hmem, x, hvx, hx⟩
          have hinsert := (insertVma_eq_ok_iff h ⟨node, mapStart a, mapStop a len, flags⟩ _).mpr
            ⟨hrange.2.1, hapart, rfl⟩
          rw [hok, Res.ok_bind] at hpanic
          dsimp only at hpanic
          rw [hinsert, Res.ok_bind] at hpanic
          cases hpanic
    · simp only [not_forall, not_not] at hfirst
      obtain ⟨vma, hmem, hcont⟩ := hfirst
      have hcall := mmMap_taken s flags h haccess hmem hcont
      have hnot : ¬ EntersFromBelow mm a len := fun hfrom => hfrom.2.1 vma hmem hcont
      refine iff_of_true ⟨fun _ => ⟨_, hcall, findVma_sameAreas mm _⟩, ?_⟩ hnot
      intro msg hpanic
      rw [hcall] at hpanic
      cases hpanic
  · have hcall := mmMap_refused s mm flags (Bool.eq_false_iff.mpr haccess)
    refine iff_of_true ⟨fun _ => ⟨_, hcall, SameAreas.refl mm⟩, ?_⟩ (fun hfrom => haccess hfrom.1)
    intro msg hpanic
    rw [hcall] at hpanic
    cases hpanic

/-- The machine and the map after the mapping of one page at 0x201000. -/
def mappedAbove : Res (Int × MemMap × Machine) := mmMap twelveFrames mmCreate 0x201000#32 0x1000#32 VMM_READ

/-- Two pages from 0x200000 on run into an area at 0x201000 from below: `insert_vma` panics. -/
theorem mmMap_panics_from_below : ∃ mm s,
    mappedAbove = .ok (0, mm, s) ∧ Relation.ReflTransGen VmaStep mmCreate mm ∧
      mmMap s mm 0x200000#32 0x2000#32 VMM_READ = .error (.panic " vma overlap :pend>=nstart!") ∧
      ¬ RejectsOverlap s mm 0x200000#32 0x2000#32 VMM_READ := by
  have hstep : VmaStep mmCreate _ := .insert ⟨page2kva 2, 0x201000, 0x202000, VMM_READ⟩ rfl
  have hpanic : ∀ mm s, mappedAbove = .ok (0, mm, s) →
      mmMap s mm 0x200000#32 0x2000#32 VMM_READ = .error (.panic " vma overlap :pend>=nstart!") := by
    intro mm s heq
    cases heq
    rfl
  refine ⟨_, _, rfl, .single hstep, hpanic _ _ rfl, ?_⟩
  intro hprop
  exact hprop.2 _ (hpanic _ _ rfl)

theorem mmMap_rejects_overlap_first_page : ∃ mm s,
    mappedAbove = .ok (0, mm, s) ∧ RejectsOverlap s mm 0x201000#32 0x2000#32 VMM_READ := by
  have hstep : VmaStep mmCreate _ := .insert ⟨page2kva 2, 0x201000, 0x202000, VMM_READ⟩ rfl
  refine ⟨_, _, rfl, (mmMap_rejects_overlap_iff _ _ 0x201000#32 0x2000#32 VMM_READ (.single hstep)).mpr ?_⟩
  intro hfrom
  exact hfrom.2.1 ⟨page2kva 2, 0x201000, 0x202000, VMM_READ⟩ (by simp) (by decide)

/-! ### What a mapping covers -/

/-- Area `vma` is made of whole pages of user space, covers the request, and no page more. -/
structure Covered (vma : VirtMemArea) (a len : U32) : Prop where
  aligned : vma.vmStart.toNat % 4096 = 0 ∧ vma.vmEnd.toNat % 4096 = 0
  user : USER_BASE ≤ vma.vmStart ∧ vma.vmEnd ≤ USER_TOP
  covers : ∀ x, a.toNat ≤ x → x < a.toNat + len.toNat → vma.extent.Contains x
  below : vma.extent.lo ≤ a.toNat ∧ a.toNat < vma.extent.lo + 4096
  above : vma.extent.hi < a.toNat + len.toNat + 4096

/-- A request that succeeds is covered by the area that is new; one that fails changes nothing but the
lookup cache. -/
def MapCovers (s : Machine) (mm : MemMap) (a len flags : U32) : Prop :=
  (∀ mm' s', mmMap s mm a len flags = .ok (0, mm', s') →
    a.toNat + len.toNat ≤ USER_TOP.toNat ∧
    ∃ vma, mm'.vmaList.Perm (vma :: mm.vmaList) ∧ vma.vmFlags = flags ∧ Covered vma a len) ∧
  ∀ ret mm' s', mmMap s mm a len flags = .ok (ret, mm', s') → ret ≠ 0 → SameAreas mm mm'

/-- The addresses of the page of `a`. -/
def pageOf (a : U32) : Extent := ⟨(mapStart a).toNat, (mapStart a).toNat + 4096⟩

/-- The end of the request wraps around to an address behind the start of its page, and this one page can
be mapped. -/
def WrapsIntoPage (s : Machine) (mm : MemMap) (a len : U32) : Prop :=
  2 ^ 32 < a.toNat % 4096 + len.toNat ∧
  USER_BASE.toNat ≤ (pageOf a).lo ∧ (pageOf a).hi ≤ USER_TOP.toNat ∧
  (∀ vma ∈ mm.vmaList, Apart (pageOf a) vma.extent) ∧ ∃ x, s.pmm.Free x

/-- A request that wraps around and passes the test of the bounds is rounded to one page. -/
theorem mapRange_wrapped_iff {a len : U32} (hwrap : 2 ^ 32 ≤ a.toNat + len.toNat) :
    isUserCanAccess (mapStart a) (mapStop a len) = true ↔
      2 ^ 32 < a.toNat % 4096 + len.toNat ∧ USER_BASE.toNat ≤ (pageOf a).lo ∧
        (pageOf a).hi ≤ USER_TOP.toNat := by
  have ha := a.isLt
  have hlen := len.isLt
  rw [mapRange_access_iff]
  simp only [mapRange, pageOf, mapStart_toNat, mapStop_toNat, USER_BASE, USER_TOP, BitVec.toNat_ofNat]
  omega

theorem mapRange_eq_pageOf {a len : U32} (hwrap : 2 ^ 32 < a.toNat % 4096 + len.toNat)
    (htop : (pageOf a).hi ≤ USER_TOP.toNat) : mapRange a len = pageOf a := by
  have ha := a.isLt
  have hlen := len.isLt
  simp only [pageOf, mapStart_toNat, USER_TOP, BitVec.toNat_ofNat] at htop
  simp only [mapRange, pageOf, mapStart_toNat, mapStop_toNat, Extent.mk.injEq, true_and]
  omega

/-- A request that does not wrap around is covered by its rounded range. -/
theorem covered_of_no_wrap {a len : U32} (hlt : a.toNat + len.toNat < 2 ^ 32)
    (haccess : isUserCanAccess (mapStart a) (mapStop a len) = true) (node flags : U32) :
    a.toNat + len.toNat ≤ USER_TOP.toNat ∧ Covered ⟨node, mapStart a, mapStop a len, flags⟩ a len := by
  have ha := a.isLt
  have hrange := (mapRange_access_iff a len).mp haccess
  have hstart := mapStart_toNat a
  have hstop := mapStop_toNat a len
  simp only [mapRange, USER_TOP, USER_BASE, BitVec.toNat_ofNat] at hrange
  have hend : a.toNat + len.toNat ≤ (mapStop a len).toNat := by omega
  have hmore : (mapStop a len).toNat < a.toNat + len.toNat + 4096 := by omega
  refine ⟨?_, ⟨?_, ?_⟩, ⟨?_, ?_⟩, ?_, ⟨?_, ?_⟩, ?_⟩
  · simp only [USER_TOP, BitVec.toNat_ofNat]
    omega
  · show (mapStart a).toNat % 4096 = 0
    omega
  · show (mapStop a len).toNat % 4096 = 0
    omega
  · show USER_BASE ≤ mapStart a
    simp only [BitVec.le_def, USER_BASE, BitVec.toNat_ofNat]
    omega
  · show mapStop a len ≤ USER_TOP
    simp only [BitVec.le_def, USER_TOP, BitVec.toNat_ofNat]
    omega
  · intro x hlo hhi
    show (mapStart a).toNat ≤ x ∧ x < (mapStop a len).toNat
    omega
  · show (mapStart a).toNat ≤ a.toNat
    omega
  · show a.toNat < (mapStart a).toNat + 4096
    omega
  · exact hmore

/-- A mapping that succeeds inserts the rounded range. -/
theorem mmMap_ok_zero {s s' : Machine} {mm mm' : MemMap} {a len flags : U32} (h : mm.Inv)
    (hcall : mmMap s mm a len flags = .ok (0, mm', s')) :
    isUserCanAccess (mapStart a) (mapStop a len) = true ∧
      (∀ vma ∈ mm.vmaList, Apart (mapRange a len) vma.extent) ∧
      ∃ node m, vmaCreate s (mapStart a) (mapStop a len) flags =
          .ok (⟨node, mapStart a, mapStop a len, flags⟩, { s with pmm := m }) ∧
        mm'.vmaList.Perm (⟨node, mapStart a, mapStop a len, flags⟩ :: mm.vmaList) := by
  have hzero : (-E_INVAL : Int) ≠ 0 := by decide
  by_cases haccess : isUserCanAccess (mapStart a) (mapStop a len) = true
  · by_cases hfirst : ∀ vma ∈ mm.vmaList, ¬ vma.extent.Contains (mapRange a len).lo
    · rw [mmMap_vacant _ _ h haccess hfirst] at hcall
      rcases vmaCreate_cases s (mapStart a) (mapStop a len) flags with hwild | ⟨node, m, hok⟩
      · rw [hwild] at hcall
        simp [bind, Except.bind] at hcall
      · rw [hok, Res.ok_bind] at hcall
        obtain ⟨mm'', hinsert, hcall⟩ := Res.bind_eq_ok.mp hcall
        obtain rfl : mm'' = mm' := congrArg (fun r => r.2.1) (Except.ok.inj hcall)
        obtain ⟨-, hapart, rfl⟩ := (insertVma_eq_ok_iff h _ _).mp hinsert
        refine ⟨haccess, hapart, node, m, hok, ?_⟩
        dsimp only
        rw [← areas_append mm ⟨node, mapStart a, mapStop a len, flags⟩]
        exact List.perm_middle
    · simp only [not_forall, not_not] at hfirst
      obtain ⟨vma, hmem, hcont⟩ := hfirst
      rw [mmMap_taken _ _ h haccess hmem hcont] at hcall
      exact absurd (congrArg Prod.fst (Except.ok.inj hcall)) hzero
  · rw [mmMap_refused _ _ _ (Bool.eq_false_iff.mpr haccess)] at hcall
    exact absurd (congrArg Prod.fst (Except.ok.inj hcall)) hzero

/-- The map stays in order, and keeps its directory. -/
theorem mmMap_inv {s s' : Machine} {mm mm' : MemMap} {a len flags : U32} {ret : Int} (h : mm.Inv)
    (hcall : mmMap s mm a len flags = .ok (ret, mm', s')) : mm'.Inv ∧ mm'.dir = mm.dir := by
  have hfind : (findVma mm (roundDown a PGSIZE)).2.Inv ∧ (findVma mm (roundDown a PGSIZE)).2.dir = mm.dir := by
    refine ⟨findVma_inv h _, ?_⟩
    rw [findVma_sameAreas mm (roundDown a PGSIZE)]
    rfl
  unfold mmMap at hcall
  dsimp only at hcall
  split at hcall
  · obtain ⟨-, rfl, -⟩ := by simpa using Except.ok.inj hcall
    exact ⟨h, rfl⟩
  · split at hcall
    · obtain ⟨-, rfl, -⟩ := by simpa using Except.ok.inj hcall
      exact hfind
    · obtain ⟨r, -, hcall⟩ := Res.bind_eq_ok.mp hcall
      obtain ⟨mm'', hinsert, hcall⟩ := Res.bind_eq_ok.mp hcall
      obtain rfl : mm'' = mm' := congrArg (fun r => r.2.1) (Except.ok.inj hcall)
      refine ⟨insertVma_inv hfind.1 hinsert, ?_⟩
      obtain ⟨-, -, rfl⟩ := (insertVma_eq_ok_iff hfind.1 _ _).mp hinsert
      exact hfind.2

/-- A mapping that fails changes nothing but the lookup cache. -/
theorem mmMap_failed {s s' : Machine} {mm mm' : MemMap} {a len flags : U32} {ret : Int} (h : mm.Inv)
    (hcall : mmMap s mm a len flags = .ok (ret, mm', s')) (hret : ret ≠ 0) : SameAreas mm mm' := by
  by_cases haccess : isUserCanAccess (mapStart a) (mapStop a len) = true
  · by_cases hfirst : ∀ vma ∈ mm.vmaList, ¬ vma.extent.Contains (mapRange a len).lo
    · rw [mmMap_vacant _ _ h haccess hfirst] at hcall
      obtain ⟨r, -, hcall⟩ := Res.bind_eq_ok.mp hcall
      obtain ⟨mm'', -, hcall⟩ := Res.bind_eq_ok.mp hcall
      exact absurd (congrArg Prod.fst (Except.ok.inj hcall)).symm hret
    · simp only [not_forall, not_not] at hfirst
      obtain ⟨vma, hmem, hcont⟩ := hfirst
      rw [mmMap_taken _ _ h haccess hmem hcont] at hcall
      obtain rfl : (findVma mm (mapStart a)).2 = mm' := congrArg (fun r => r.2.1) (Except.ok.inj hcall)
      exact findVma_sameAreas mm _
  · rw [mmMap_refused _ _ _ (Bool.eq_false_iff.mpr haccess)] at hcall
    obtain rfl : mm = mm' := congrArg (fun r => r.2.1) (Except.ok.inj hcall)
    exact SameAreas.refl mm

/-- **Requests and the areas they get.**  For every map reached from `mm_create`, every machine whose page
allocator keeps its invariant and every request: success means that `start_vaddr + len` stays below
`USER_TOP` and that the new area covers the request with less than a page to spare on either side, and
failure changes nothing, exactly when the request does not wrap around into a page of user space that is
vacant while a page for the area's record is free. -/
theorem mmMap_covers_iff (s : Machine) (lo hi : Nat) (hpmm : s.pmm.Inv lo hi) (mm : MemMap)
    (a len flags : U32) (hrun : Relation.ReflTransGen VmaStep mmCreate mm) :
    MapCovers s mm a len flags ↔ ¬ WrapsIntoPage s mm a len := by
  have h := inv_of_vmaRun hrun
  constructor
  · rintro hprop ⟨hwrap, hbase, htop, hapart, hfree⟩
    have hcarry : 2 ^ 32 ≤ a.toNat + len.toNat := by omega
    have haccess := (mapRange_wrapped_iff hcarry).mpr ⟨hwrap, hbase, htop⟩
    have hrange := (mapRange_access_iff a len).mp haccess
    rw [← mapRange_eq_pageOf hwrap htop] at hapart
    have hfirst : ∀ vma ∈ mm.vmaList, ¬ vma.extent.Contains (mapRange a len).lo := by
      intro vma hmem hcont
      have hne := h.sorted.nonempty _ (List.mem_map_of_mem hmem)
      exact (apart_iff_disjoint hrange.2.1 hne).mp (hapart vma hmem) _ ⟨le_rfl, hrange.2.1⟩ hcont
    -- Then the mapping succeeds, and the request reaches beyond the end of the address space.
    obtain ⟨r, hr⟩ := (vmaCreate_ok_iff hpmm (mapStart a) (mapStop a len) flags).mpr hfree
    rcases vmaCreate_cases s (mapStart a) (mapStop a len) flags with hwild | ⟨node, m, hok⟩
    · rw [hwild] at hr
      cases hr
    · have hinsert := (insertVma_eq_ok_iff h ⟨node, mapStart a, mapStop a len, flags⟩ _).mpr
        ⟨hrange.2.1, hapart, rfl⟩
      have hcall : ∃ mm', mmMap s mm a len flags = .ok (0, mm', { s with pmm := m }) := by
        rw [mmMap_vacant _ _ h haccess hfirst, hok, Res.ok_bind]
        dsimp only
        rw [hinsert]
        exact ⟨_, rfl⟩
      obtain ⟨mm', hcall⟩ := hcall
      have hbound := (hprop.1 mm' _ hcall).1
      simp only [USER_TOP, BitVec.toNat_ofNat] at hbound
      omega
  · intro hnot
    refine ⟨?_, fun ret mm' s' hcall hret => mmMap_failed h hcall hret⟩
    intro mm' s' hcall
    obtain ⟨haccess, hapart, node, m, hcreate, hperm⟩ := mmMap_ok_zero h hcall
    have hlt : a.toNat + len.toNat < 2 ^ 32 := by
      by_contra hcarry
      obtain ⟨hwrap, hbase, htop⟩ := (mapRange_wrapped_iff (by omega)).mp haccess
      rw [mapRange_eq_pageOf hwrap htop] at hapart
      exact hnot ⟨hwrap, hbase, htop, hapart, (vmaCreate_ok_iff hpmm _ _ _).mp ⟨_, hcreate⟩⟩
    obtain ⟨hbound, hcovered⟩ := covered_of_no_wrap hlt haccess node flags
    exact ⟨hbound, _, hperm, rfl, hcovered⟩

/-- A request of 2^32 - 1 bytes from 0x20000800 on is given one page. -/
theorem mmMap_accepts_wrapped : ∃ mm s,
    mmMap twelveFrames mmCreate 0x20000800#32 0xFFFFFFFF#32 VMM_READ = .ok (0, mm, s) ∧
      mm.vmaList = [⟨page2kva 2, 0x20000000, 0x20001000, VMM_READ⟩] ∧
      ¬ MapCovers twelveFrames mmCreate 0x20000800#32 0xFFFFFFFF#32 VMM_READ := by
  refine ⟨_, _, rfl, rfl, ?_⟩
  intro hprop
  exact absurd (hprop.1 _ _ rfl).1 (by decide)

theorem mmMap_covers_one_page : MapCovers twelveFrames mmCreate 0x20000800#32 0x800#32 VMM_READ := by
  have hinit : ffMemmapInit (ffFreeAreaInit reservedPages) 2 10 = .ok twelveFrames.pmm := rfl
  have hpmm : twelveFrames.pmm.Inv 2 12 := (ffMemmapInit_spec hinit).1
  exact (mmMap_covers_iff twelveFrames 2 12 hpmm mmCreate 0x20000800#32 0x800#32 VMM_READ .refl).mpr
    (fun hwrap => absurd hwrap.1 (by decide))

end Memory
end FreakOS
