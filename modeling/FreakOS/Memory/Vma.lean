import FreakOS.Base
import FreakOS.Lib.Extent
import Mathlib.Data.List.TakeWhile

/-!
# Memory areas of an address space

The list of `VirtMemArea_t` of a `MemMap_t` (`vmm.c`): `find_vma` with its one-entry cache,
`check_vma_overlap` and `insert_vma`.  The semaphore and the owner field of `MemMap_t` are not part of
this model; `pgdir` and `ref` are carried along for the code that duplicates and tears down maps.

* `MemMap.Inv` — the areas are sorted and apart, `vma_count` is their number, and the cache holds an area
  of the list.
* `findVma_spec` — the cached lookup gives the answer of a plain search.
* `insertVma_eq_ok_iff` — `insert_vma` returns exactly when the new area is non-empty and overlaps none.
* `vma_run_invariant` — both, for every map reached from `mm_create`.
-/

namespace FreakOS
namespace Memory

open Lib
open Lib.Extent

/-- `VirtMemArea_t`.  `node` is the address of the structure itself. -/
structure VirtMemArea where
  node : U32
  vmStart : U32
  vmEnd : U32
  vmFlags : U32
deriving DecidableEq, Repr

/-- `MemMap_t`. -/
structure MemMap where
  vmaList : List VirtMemArea
  vmaCache : Option VirtMemArea
  pgdir : U32
  vmaCount : Int
  ref : Int
deriving DecidableEq, Repr

/-- `VMM_READ`. -/
def VMM_READ : U32 := 1#32
/-- `VMM_WRITE`. -/
def VMM_WRITE : U32 := 2#32
/-- `VMM_EXEC`. -/
def VMM_EXEC : U32 := 4#32
/-- `VMM_STACK`. -/
def VMM_STACK : U32 := 8#32

/-- The map that `mm_create` sets up. -/
def mmCreate : MemMap := ⟨[], none, 0, 0, 0⟩

/-- The test `vma->vm_start <= vaddr && vma->vm_end > vaddr`. -/
def VirtMemArea.holds (vma : VirtMemArea) (vaddr : U32) : Bool :=
  decide (vma.vmStart ≤ vaddr) && decide (vma.vmEnd > vaddr)

/-- `find_vma(mm, vaddr)` for a map that is not `NULL`: the cached area if it fits, else the first area of
the list that does; an area that is found becomes the cached one. -/
def findVma (mm : MemMap) (vaddr : U32) : Option VirtMemArea × MemMap :=
  let found :=
    match mm.vmaCache with
    | some vma => if vma.holds vaddr then some vma else mm.vmaList.find? (·.holds vaddr)
    | none => mm.vmaList.find? (·.holds vaddr)
  match found with
  | some vma => (some vma, { mm with vmaCache := some vma })
  | none => (none, mm)

/-- `check_vma_overlap(prev, next)`. -/
def checkVmaOverlap (prev next : VirtMemArea) : Res Unit :=
  if prev.vmStart ≥ prev.vmEnd then .error (.panic " vma overlap :pstart>=pend!")
  else if prev.vmEnd > next.vmStart then .error (.panic " vma overlap :pend>=nstart!")
  else if next.vmStart ≥ next.vmEnd then .error (.panic " vma overlap :nstart>=pend!")
  else .ok ()

/-- A check against a neighbour, left out where the neighbour is the list head. -/
def checkIfNode (neighbour : Option VirtMemArea) (check : VirtMemArea → Res Unit) : Res Unit :=
  match neighbour with
  | some v => check v
  | none => .ok ()

/-- The areas that the loop of `insert_vma` passes, up to the first one that starts after `vma`.  The last
of them is `lp_prev`; where there is none, `lp_prev` is the list head. -/
def areasBefore (mm : MemMap) (vma : VirtMemArea) : List VirtMemArea :=
  mm.vmaList.takeWhile fun v => !decide (v.vmStart > vma.vmStart)

/-- The areas behind the insertion point; the first of them is `lp_next`. -/
def areasAfter (mm : MemMap) (vma : VirtMemArea) : List VirtMemArea :=
  mm.vmaList.dropWhile fun v => !decide (v.vmStart > vma.vmStart)

/-- `insert_vma(mm, vma)`. -/
def insertVma (mm : MemMap) (vma : VirtMemArea) : Res MemMap :=
  if vma.vmStart ≥ vma.vmEnd then
    .error (.panic " vma overlap :start>=end!")
  else do
    checkIfNode (areasBefore mm vma).getLast? fun prev => checkVmaOverlap prev vma
    checkIfNode (areasAfter mm vma).head? fun next => checkVmaOverlap vma next
    return { mm with
      vmaList := areasBefore mm vma ++ vma :: areasAfter mm vma
      vmaCount := mm.vmaCount + 1 }

/-! ### The invariant -/

/-- The addresses of an area. -/
def VirtMemArea.extent (vma : VirtMemArea) : Extent := ⟨vma.vmStart.toNat, vma.vmEnd.toNat⟩

theorem VirtMemArea.holds_iff (vma : VirtMemArea) (vaddr : U32) :
    vma.holds vaddr = true ↔ vma.extent.Contains vaddr.toNat := by
  simp [VirtMemArea.holds, VirtMemArea.extent, Contains, BitVec.le_def, BitVec.lt_def]

/-- The invariant of a memory map. -/
structure MemMap.Inv (mm : MemMap) : Prop where
  sorted : SortedApart (mm.vmaList.map VirtMemArea.extent)
  count : mm.vmaCount = mm.vmaList.length
  cache : ∀ vma, mm.vmaCache = some vma → vma ∈ mm.vmaList

theorem mmCreate_inv : mmCreate.Inv :=
  ⟨sortedApart_nil, rfl, by simp [mmCreate]⟩

/-- A plain search of the list finds the area that contains an address, and only that one. -/
theorem find?_holds_iff {mm : MemMap} (h : SortedApart (mm.vmaList.map VirtMemArea.extent))
    (vaddr : U32) (vma : VirtMemArea) :
    mm.vmaList.find? (·.holds vaddr) = some vma ↔
      vma ∈ mm.vmaList ∧ vma.extent.Contains vaddr.toNat := by
  constructor
  · intro hfind
    have hholds : vma.holds vaddr = true := by
      simpa using List.find?_some hfind
    exact ⟨List.mem_of_find?_eq_some hfind, (vma.holds_iff vaddr).mp hholds⟩
  · rintro ⟨hmem, hcont⟩
    have hsome : (mm.vmaList.find? (·.holds vaddr)).isSome := by
      rw [List.find?_isSome]
      exact ⟨vma, hmem, (vma.holds_iff vaddr).mpr hcont⟩
    obtain ⟨found, hfound⟩ := Option.isSome_iff_exists.mp hsome
    have hmem' := List.mem_of_find?_eq_some hfound
    have hholds : found.holds vaddr = true := by
      simpa using List.find?_some hfound
    have hcont' := (found.holds_iff vaddr).mp hholds
    rw [hfound, h.contains_unique hmem' hmem hcont' hcont]

/-- The cached lookup answers like the plain search. -/
theorem findVma_fst {mm : MemMap} (h : mm.Inv) (vaddr : U32) :
    (findVma mm vaddr).1 = mm.vmaList.find? (·.holds vaddr) := by
  unfold findVma
  cases hcache : mm.vmaCache with
  | none =>
      dsimp only
      split
      · rename_i hfound
        exact hfound.symm
      · rename_i hfound
        exact hfound.symm
  | some vma =>
      dsimp only
      by_cases hhit : vma.holds vaddr
      · rw [if_pos hhit]
        exact ((find?_holds_iff h.sorted vaddr vma).mpr
          ⟨h.cache vma hcache, (vma.holds_iff vaddr).mp hhit⟩).symm
      · rw [if_neg hhit]
        split
        · rename_i hfound
          exact hfound.symm
        · rename_i hfound
          exact hfound.symm

/-- A lookup changes nothing but the cache. -/
theorem findVma_snd (mm : MemMap) (vaddr : U32) :
    (findVma mm vaddr).2 = mm ∨
      ∃ vma, (findVma mm vaddr).1 = some vma ∧
        (findVma mm vaddr).2 = { mm with vmaCache := some vma } := by
  unfold findVma
  dsimp only
  split
  · exact Or.inr ⟨_, rfl, rfl⟩
  · exact Or.inl rfl

@[simp] theorem findVma_vmaList (mm : MemMap) (vaddr : U32) :
    (findVma mm vaddr).2.vmaList = mm.vmaList := by
  rcases findVma_snd mm vaddr with h | ⟨_, _, h⟩
  · rw [h]
  · rw [h]

theorem findVma_spec {mm : MemMap} (h : mm.Inv) (vaddr : U32) (vma : VirtMemArea) :
    (findVma mm vaddr).1 = some vma ↔ vma ∈ mm.vmaList ∧ vma.extent.Contains vaddr.toNat := by
  rw [findVma_fst h, find?_holds_iff h.sorted]

theorem findVma_inv {mm : MemMap} (h : mm.Inv) (vaddr : U32) : (findVma mm vaddr).2.Inv := by
  rcases findVma_snd mm vaddr with heq | ⟨vma, hfound, heq⟩
  · rw [heq]
    exact h
  · rw [heq]
    refine ⟨h.sorted, h.count, ?_⟩
    intro v hv
    obtain rfl : vma = v := by simpa using hv
    exact ((findVma_spec h vaddr vma).mp hfound).1

/-! ### Insertion -/

theorem checkVmaOverlap_eq_ok_iff {prev next : VirtMemArea} {u : Unit}
    (hprev : prev.extent.lo < prev.extent.hi) (hnext : next.extent.lo < next.extent.hi) :
    checkVmaOverlap prev next = .ok u ↔ prev.extent.hi ≤ next.extent.lo := by
  simp only [VirtMemArea.extent] at hprev hnext ⊢
  have h1 : ¬ prev.vmStart ≥ prev.vmEnd := by
    simp only [ge_iff_le, BitVec.le_def]
    omega
  have h2 : ¬ next.vmStart ≥ next.vmEnd := by
    simp only [ge_iff_le, BitVec.le_def]
    omega
  unfold checkVmaOverlap
  rw [if_neg h1]
  by_cases h3 : prev.vmEnd > next.vmStart
  · rw [if_pos h3]
    simp only [gt_iff_lt, BitVec.lt_def] at h3
    simp only [reduceCtorEq, false_iff]
    omega
  · rw [if_neg h3, if_neg h2]
    simp only [gt_iff_lt, BitVec.lt_def] at h3
    simp only [true_iff]
    omega

theorem areas_append (mm : MemMap) (vma : VirtMemArea) :
    areasBefore mm vma ++ areasAfter mm vma = mm.vmaList :=
  List.takeWhile_append_dropWhile

theorem sorted_append {mm : MemMap} (h : mm.Inv) (vma : VirtMemArea) :
    SortedApart ((areasBefore mm vma).map VirtMemArea.extent ++
      (areasAfter mm vma).map VirtMemArea.extent) := by
  rw [← List.map_append, areas_append]
  exact h.sorted

theorem areasBefore_lo_le (mm : MemMap) (vma : VirtMemArea) :
    ∀ i ∈ (areasBefore mm vma).map VirtMemArea.extent, i.lo ≤ vma.extent.lo := by
  intro i hi
  obtain ⟨v, hv, rfl⟩ := List.mem_map.mp hi
  have := List.mem_takeWhile_imp hv
  simpa [VirtMemArea.extent, BitVec.lt_def] using this

/-- The first area behind the insertion point starts later, and the ones behind it later still. -/
theorem lt_areasAfter_lo {mm : MemMap} (h : mm.Inv) (vma : VirtMemArea) :
    ∀ i ∈ (areasAfter mm vma).map VirtMemArea.extent, vma.extent.lo < i.lo := by
  intro i hi
  refine (sorted_append h vma).append_right.le_lo_of_head (v := vma.extent.lo + 1) ?_ i hi
  intro j hj
  rw [List.head?_map, Option.mem_map] at hj
  obtain ⟨v, hv, rfl⟩ := hj
  have hnot := List.head?_dropWhile_not (fun v => !decide (v.vmStart > vma.vmStart)) mm.vmaList
  have hv' : (mm.vmaList.dropWhile fun v => !decide (v.vmStart > vma.vmStart)).head? = some v := hv
  rw [hv'] at hnot
  simpa [VirtMemArea.extent, BitVec.lt_def] using hnot

/-- Apart from the whole map is the same as passing the two neighbour tests of the code. -/
theorem apart_iff_checks {mm : MemMap} (h : mm.Inv) {vma : VirtMemArea}
    (hne : vma.extent.lo < vma.extent.hi) :
    (∀ v ∈ mm.vmaList, Apart vma.extent v.extent) ↔
      checkIfNode (areasBefore mm vma).getLast? (fun prev => checkVmaOverlap prev vma) = .ok () ∧
      checkIfNode (areasAfter mm vma).head? (fun next => checkVmaOverlap vma next) = .ok () := by
  have hsorted := sorted_append h vma
  have hleft : checkIfNode (areasBefore mm vma).getLast? (fun prev => checkVmaOverlap prev vma)
      = .ok () ↔ ∀ i ∈ ((areasBefore mm vma).map VirtMemArea.extent).getLast?,
        i.hi ≤ vma.extent.lo := by
    rw [List.getLast?_map]
    cases hlast : (areasBefore mm vma).getLast? with
    | none => simp [checkIfNode]
    | some prev =>
        have hprev := hsorted.nonempty prev.extent
          (List.mem_append_left _ (List.mem_map_of_mem (List.mem_of_getLast? hlast)))
        simpa [checkIfNode] using checkVmaOverlap_eq_ok_iff hprev hne
  have hright : checkIfNode (areasAfter mm vma).head? (fun next => checkVmaOverlap vma next)
      = .ok () ↔ ∀ i ∈ ((areasAfter mm vma).map VirtMemArea.extent).head?,
        vma.extent.hi ≤ i.lo := by
    rw [List.head?_map]
    cases hhead : (areasAfter mm vma).head? with
    | none => simp [checkIfNode]
    | some next =>
        have hnext := hsorted.nonempty next.extent
          (List.mem_append_right _ (List.mem_map_of_mem (List.mem_of_head? hhead)))
        simpa [checkIfNode] using checkVmaOverlap_eq_ok_iff hne hnext
  rw [hleft, hright,
    ← hsorted.apart_iff_neighbours hne (areasBefore_lo_le mm vma) (lt_areasAfter_lo h vma),
    ← List.map_append, areas_append]
  exact List.forall_mem_map.symm

/-- `insert_vma` returns exactly when the new area is non-empty and apart from every area of the map, and
then it is put in its place. -/
theorem insertVma_eq_ok_iff {mm : MemMap} (h : mm.Inv) (vma : VirtMemArea) (mm' : MemMap) :
    insertVma mm vma = .ok mm' ↔
      vma.extent.lo < vma.extent.hi ∧ (∀ v ∈ mm.vmaList, Apart vma.extent v.extent) ∧
      mm' = { mm with
        vmaList := areasBefore mm vma ++ vma :: areasAfter mm vma
        vmaCount := mm.vmaCount + 1 } := by
  unfold insertVma
  by_cases hempty : vma.vmStart ≥ vma.vmEnd
  · rw [if_pos hempty]
    simp only [ge_iff_le, BitVec.le_def] at hempty
    simp only [reduceCtorEq, VirtMemArea.extent, false_iff, not_and]
    omega
  · have hne : vma.extent.lo < vma.extent.hi := by
      simp only [ge_iff_le, BitVec.le_def] at hempty
      simp only [VirtMemArea.extent]
      omega
    rw [if_neg hempty, apart_iff_checks h hne]
    constructor
    · intro hcall
      obtain ⟨u₁, h₁, hcall⟩ := Res.bind_eq_ok.mp hcall
      obtain ⟨u₂, h₂, hcall⟩ := Res.bind_eq_ok.mp hcall
      exact ⟨hne, ⟨h₁, h₂⟩, (Except.ok.inj hcall).symm⟩
    · rintro ⟨-, ⟨h₁, h₂⟩, rfl⟩
      rw [h₁, Res.ok_bind, h₂]
      rfl

theorem checkVmaOverlap_cases (prev next : VirtMemArea) :
    checkVmaOverlap prev next = .ok () ∨ ∃ msg, checkVmaOverlap prev next = .error (.panic msg) := by
  unfold checkVmaOverlap
  split
  · exact Or.inr ⟨_, rfl⟩
  · split
    · exact Or.inr ⟨_, rfl⟩
    · split
      · exact Or.inr ⟨_, rfl⟩
      · exact Or.inl rfl

theorem checkIfNode_cases (neighbour : Option VirtMemArea) {check : VirtMemArea → Res Unit}
    (hcheck : ∀ v, check v = .ok () ∨ ∃ msg, check v = .error (.panic msg)) :
    checkIfNode neighbour check = .ok () ∨
      ∃ msg, checkIfNode neighbour check = .error (.panic msg) := by
  cases neighbour with
  | none => exact Or.inl rfl
  | some v => exact hcheck v

/-- Every outcome of `insert_vma` is an updated map or a panic. -/
theorem insertVma_cases (mm : MemMap) (vma : VirtMemArea) :
    (∃ mm', insertVma mm vma = .ok mm') ∨ ∃ msg, insertVma mm vma = .error (.panic msg) := by
  unfold insertVma
  split
  · exact Or.inr ⟨_, rfl⟩
  · rcases checkIfNode_cases (areasBefore mm vma).getLast?
      (fun prev => checkVmaOverlap_cases prev vma) with h₁ | ⟨msg, h₁⟩
    · rw [h₁]
      rcases checkIfNode_cases (areasAfter mm vma).head?
        (fun next => checkVmaOverlap_cases vma next) with h₂ | ⟨msg, h₂⟩
      · rw [Res.ok_bind, h₂]
        exact Or.inl ⟨_, rfl⟩
      · rw [Res.ok_bind, h₂]
        exact Or.inr ⟨msg, rfl⟩
    · rw [h₁]
      exact Or.inr ⟨msg, rfl⟩

theorem insertVma_inv {mm mm' : MemMap} {vma : VirtMemArea} (h : mm.Inv)
    (hcall : insertVma mm vma = .ok mm') : mm'.Inv := by
  obtain ⟨hne, hapart, rfl⟩ := (insertVma_eq_ok_iff h vma mm').mp hcall
  have hsorted := sorted_append h vma
  have hapart' : ∀ i ∈ (areasBefore mm vma).map VirtMemArea.extent ++
      (areasAfter mm vma).map VirtMemArea.extent, Apart vma.extent i := by
    rw [← List.map_append, areas_append]
    exact List.forall_mem_map.mpr hapart
  obtain ⟨hlast, hhead⟩ := (hsorted.apart_iff_neighbours hne (areasBefore_lo_le mm vma)
    (lt_areasAfter_lo h vma)).mp hapart'
  refine ⟨?_, ?_, ?_⟩
  · simpa using hsorted.insert hne hlast hhead
  · have hcount := h.count
    rw [← areas_append mm vma] at hcount
    simp only [List.length_append, List.length_cons] at hcount ⊢
    push_cast at hcount ⊢
    omega
  · intro v hv
    have hmem := h.cache v hv
    rw [← areas_append mm vma] at hmem
    rcases List.mem_append.mp hmem with hmem | hmem
    · simp [hmem]
    · simp [hmem]

/-! ### Runs -/

/-- One operation on a map: an insertion that returns, or a lookup. -/
inductive VmaStep : MemMap → MemMap → Prop
  | insert {mm mm' : MemMap} (vma : VirtMemArea) (hcall : insertVma mm vma = .ok mm') : VmaStep mm mm'
  | find (mm : MemMap) (vaddr : U32) : VmaStep mm (findVma mm vaddr).2

theorem inv_of_vmaRun {mm : MemMap} (hrun : Relation.ReflTransGen VmaStep mmCreate mm) : mm.Inv := by
  induction hrun with
  | refl => exact mmCreate_inv
  | tail _ hstep ih =>
      cases hstep with
      | insert vma hcall => exact insertVma_inv ih hcall
      | find vaddr => exact findVma_inv ih vaddr

/-- **Memory maps stay sorted and lookups stay exact.**  In every map reached from `mm_create` by
insertions that return and by lookups: the areas are in order of their start, non-empty and pairwise
disjoint; `vma_count` is their number; the cache is empty or an area of the list; `find_vma` gives, for
every address, the answer of a search without the cache, which is the only area that contains the address
or nothing when there is none; and `insert_vma` panics exactly for an empty area and for one that shares
an address with an existing area. -/
theorem vma_run_invariant (mm : MemMap) (hrun : Relation.ReflTransGen VmaStep mmCreate mm) :
    mm.vmaList.Pairwise (fun a b => a.vmStart < b.vmStart) ∧
    (∀ a ∈ mm.vmaList, a.vmStart < a.vmEnd) ∧
    mm.vmaList.Pairwise (fun a b => ∀ x, ¬ (a.holds x = true ∧ b.holds x = true)) ∧
    mm.vmaCount = mm.vmaList.length ∧
    (mm.vmaCache = none ∨ ∃ a ∈ mm.vmaList, mm.vmaCache = some a) ∧
    (∀ vaddr, (findVma mm vaddr).1 = mm.vmaList.find? (fun a => a.holds vaddr)) ∧
    (∀ vaddr a, (findVma mm vaddr).1 = some a ↔ a ∈ mm.vmaList ∧ a.holds vaddr = true) ∧
    (∀ vaddr, (findVma mm vaddr).1 = none ↔ ∀ a ∈ mm.vmaList, a.holds vaddr = false) ∧
    (∀ vma, (∃ msg, insertVma mm vma = .error (.panic msg)) ↔
      vma.vmStart ≥ vma.vmEnd ∨ ∃ a ∈ mm.vmaList, ∃ x, a.holds x = true ∧ vma.holds x = true) := by
  have h := inv_of_vmaRun hrun
  have hordered := List.pairwise_map.mp h.sorted.ordered
  have hne : ∀ a ∈ mm.vmaList, a.extent.lo < a.extent.hi :=
    fun a ha => h.sorted.nonempty _ (List.mem_map_of_mem ha)
  refine ⟨?_, ?_, ?_, h.count, ?_, findVma_fst h, ?_, ?_, ?_⟩
  · refine hordered.imp_of_mem ?_
    intro a b ha _ hab
    have := hne a ha
    simp only [VirtMemArea.extent] at this hab
    simp only [BitVec.lt_def]
    omega
  · intro a ha
    simpa [VirtMemArea.extent, BitVec.lt_def] using hne a ha
  · refine hordered.imp ?_
    intro a b hab x hx
    have ha := (a.holds_iff x).mp hx.1
    have hb := (b.holds_iff x).mp hx.2
    unfold Contains at ha hb
    omega
  · cases hcache : mm.vmaCache with
    | none => exact Or.inl rfl
    | some a => exact Or.inr ⟨a, h.cache a hcache, rfl⟩
  · intro vaddr a
    rw [findVma_spec h, a.holds_iff]
  · intro vaddr
    rw [findVma_fst h, List.find?_eq_none]
    simp
  · intro vma
    -- Not panicking is returning, which `insertVma_eq_ok_iff` characterises.
    have hok : (∃ mm', insertVma mm vma = .ok mm') ↔
        vma.extent.lo < vma.extent.hi ∧ ∀ v ∈ mm.vmaList, Apart vma.extent v.extent := by
      constructor
      · rintro ⟨mm', hcall⟩
        obtain ⟨h1, h2, -⟩ := (insertVma_eq_ok_iff h vma mm').mp hcall
        exact ⟨h1, h2⟩
      · rintro ⟨h1, h2⟩
        exact ⟨_, (insertVma_eq_ok_iff h vma _).mpr ⟨h1, h2, rfl⟩⟩
    have hpanic : (∃ msg, insertVma mm vma = .error (.panic msg)) ↔
        ¬ ∃ mm', insertVma mm vma = .ok mm' := by
      constructor
      · rintro ⟨msg, hmsg⟩ ⟨mm', hcall⟩
        simp [hmsg] at hcall
      · intro hnot
        exact (insertVma_cases mm vma).resolve_left hnot
    rw [hpanic, hok]
    by_cases hempty : vma.vmStart ≥ vma.vmEnd
    · have hnot : ¬ vma.extent.lo < vma.extent.hi := by
        simp only [ge_iff_le, BitVec.le_def] at hempty
        simp only [VirtMemArea.extent]
        omega
      simp [hnot, hempty]
    · have hvma : vma.extent.lo < vma.extent.hi := by
        simp only [ge_iff_le, BitVec.le_def] at hempty
        simp only [VirtMemArea.extent]
        omega
      simp only [hvma, true_and, hempty, false_or]
      constructor
      · intro hnot
        simp only [not_forall] at hnot
        obtain ⟨a, ha, hoverlap⟩ := hnot
        -- The later of the two starts is a common address.
        refine ⟨a, ha, if a.vmStart ≤ vma.vmStart then vma.vmStart else a.vmStart, ?_⟩
        have := hne a ha
        rw [a.holds_iff, vma.holds_iff]
        simp only [Apart, Contains, VirtMemArea.extent] at *
        split
        · rename_i hle
          simp only [BitVec.le_def] at hle
          omega
        · rename_i hle
          simp only [BitVec.le_def] at hle
          omega
      · rintro ⟨a, ha, x, hax, hvx⟩ hapart
        exact (apart_iff_disjoint hvma (hne a ha)).mp (hapart a ha) x.toNat
          ((vma.holds_iff x).mp hvx) ((a.holds_iff x).mp hax)

/-- Two touching areas inserted out of order, and a lookup in between: the map keeps them in order, and
the address where they meet belongs to the second. -/
theorem vma_run_invariant_touching :
    ∃ mm, Relation.ReflTransGen VmaStep mmCreate mm ∧
      mm.vmaList = [⟨1, 0x200000, 0x201000, 1⟩, ⟨2, 0x201000, 0x203000, 3⟩] ∧
      (findVma mm 0x201000#32).1 = some ⟨2, 0x201000, 0x203000, 3⟩ := by
  have s₁ : VmaStep mmCreate _ := .insert ⟨2, 0x201000, 0x203000, 3⟩ rfl
  have s₂ := (Relation.ReflTransGen.single s₁).tail (.find _ 0x201800#32)
  have s₃ := s₂.tail (.insert ⟨1, 0x200000, 0x201000, 1⟩ rfl)
  exact ⟨_, s₃, rfl, ((vma_run_invariant _ s₃).2.2.2.2.2.2.1 _ _).mpr ⟨by decide, by decide⟩⟩

end Memory
end FreakOS
