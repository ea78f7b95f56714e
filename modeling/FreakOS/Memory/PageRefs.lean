import Mathlib.Data.Set.Card
import FreakOS.Memory.PageRange

/-!
# Page reference counts are exact

Runs of the page operations over any number of directories, from a machine on which only the kernel has
memory.  Code that runs on the machine gets directories from `setup_pgdir` and frames from
`allocPhyPages(1)`.  It maps a frame only while it holds it or while the frame is mapped somewhere, with
permissions that are flags, at addresses below the kernel.

* `Mapped`, `IsTable`, `pteCount` — what the page tables say, without the help of roles.
* `PagingStep`, `PagingInv` — the runs and their invariant.
* `page_refs_exact` — the reference counts, and the frames that are free, in every state of a run.
-/

namespace FreakOS
namespace Memory

open Lib

/-! ### What the page tables say -/

/-- Frame `t` is a page table of the user part of one of the directories. -/
def IsTable (s : Machine) (dirs : Set Nat) (t : Nat) : Prop :=
  ∃ d ∈ dirs, ∃ i : Fin 1024, i.val < 768 ∧ s.entry d i = some t

/-- Some present entry of a page table points to `f`. -/
def Mapped (s : Machine) (dirs : Set Nat) (f : Nat) : Prop :=
  ∃ t, IsTable s dirs t ∧ ∃ j, s.entry t j = some f

/-- The number of present entries, over all page tables, that point to `f`. -/
noncomputable def pteCount (s : Machine) (dirs : Set Nat) (f : Nat) : Nat :=
  {slot : Nat × Fin 1024 | IsTable s dirs slot.1 ∧ s.entry slot.1 slot.2 = some f}.ncard

theorem mapped_iff_look {s : Machine} {dirs : Set Nat} {f : Nat} :
    Mapped s dirs f ↔ ∃ d ∈ dirs, ∃ i j : Fin 1024, i.val < 768 ∧ target (look s d i j) = some f := by
  constructor
  · rintro ⟨t, ⟨d, hd, i, hi', hlink⟩, j, hentry⟩
    exact ⟨d, hd, i, j, hi', by rwa [look_of_entry hlink]⟩
  · rintro ⟨d, hd, i, j, hi', hlook⟩
    obtain ⟨t, hlink, hentry⟩ := entry_of_look hlook
    exact ⟨t, ⟨d, hd, i, hi', hlink⟩, j, hentry⟩

/-- The page tables of a directory and of the others. -/
theorem isTable_split {s : Machine} {dirs : Set Nat} {d : Nat} (hd : d ∈ dirs) (t : Nat) :
    IsTable s dirs t ↔ IsTable s {d} t ∨ IsTable s (dirs \ {d}) t := by
  constructor
  · rintro ⟨d', hd', h⟩
    by_cases hdd : d' = d
    · exact Or.inl ⟨d', hdd, h⟩
    · exact Or.inr ⟨d', ⟨hd', hdd⟩, h⟩
  · rintro (⟨d', rfl, h⟩ | ⟨d', hd', h⟩)
    · exact ⟨d', hd, h⟩
    · exact ⟨d', hd'.1, h⟩

theorem mapped_split {s : Machine} {dirs : Set Nat} {d : Nat} (hd : d ∈ dirs) (f : Nat) :
    Mapped s dirs f ↔ Mapped s {d} f ∨ Mapped s (dirs \ {d}) f := by
  unfold Mapped
  simp only [isTable_split hd, or_and_right, exists_or]

theorem isTable_congr {s s' : Machine} {dirs : Set Nat} (hdirs : ∀ d ∈ dirs, s'.mem d = s.mem d)
    (t : Nat) : IsTable s' dirs t ↔ IsTable s dirs t := by
  unfold IsTable Machine.entry
  refine exists_congr fun d => and_congr_right fun hd => ?_
  rw [hdirs d hd]

theorem pteCount_congr {s s' : Machine} {dirs : Set Nat} (hdirs : ∀ d ∈ dirs, s'.mem d = s.mem d)
    (htables : ∀ t, IsTable s dirs t → s'.mem t = s.mem t) (f : Nat) :
    pteCount s' dirs f = pteCount s dirs f := by
  unfold pteCount
  congr 1
  ext slot
  rw [Set.mem_ofPred_eq, Set.mem_ofPred_eq, isTable_congr hdirs]
  refine and_congr_right fun ht => ?_
  unfold Machine.entry
  rw [htables _ ht]

/-! ### The page tables and the roles -/

namespace Frames

variable {lo hi : Nat} {s : Machine} {role : Nat → Role} {dirs : Set Nat}

/-- The page tables of some directories. -/
theorem isTable_iff (h : Frames lo hi s role) (hdirs : ∀ d ∈ dirs, role d = .dir) (t : Nat) :
    IsTable s dirs t ↔ ∃ d ∈ dirs, ∃ i, role t = .table d i := by
  constructor
  · rintro ⟨d, hd, i, hi', hentry⟩
    exact ⟨d, hd, i, h.entry d i t (hdirs d hd) hi' hentry⟩
  · rintro ⟨d, hd, i, ht⟩
    obtain ⟨-, h2, h3⟩ := h.table t d i ht
    exact ⟨d, hd, i, h2, h3⟩

/-- The page tables of all directories. -/
theorem isTable_iff_role (h : Frames lo hi s role) (hdirs : ∀ d, role d = .dir ↔ d ∈ dirs) (t : Nat) :
    IsTable s dirs t ↔ ∃ d i, role t = .table d i := by
  rw [h.isTable_iff fun d hd => (hdirs d).mpr hd]
  constructor
  · rintro ⟨d, -, i, ht⟩
    exact ⟨d, i, ht⟩
  · rintro ⟨d, i, ht⟩
    exact ⟨d, (hdirs d).mp (h.table t d i ht).1, i, ht⟩

theorem pteCount_eq (h : Frames lo hi s role) (hdirs : ∀ d, role d = .dir ↔ d ∈ dirs) (f : Nat) :
    pteCount s dirs f = refCount s role f := by
  have hset : {slot : Nat × Fin 1024 | IsTable s dirs slot.1 ∧ s.entry slot.1 slot.2 = some f} =
      ↑(pteSlots.filter fun slot => pteMap s role slot = some f) := by
    ext slot
    rw [Finset.mem_coe, Finset.mem_filter, mem_pteSlots, Set.mem_ofPred_eq, h.isTable_iff_role hdirs]
    unfold pteMap
    constructor
    · rintro ⟨⟨d, i, ht⟩, hentry⟩
      refine ⟨h.lt (by simp [ht]), ?_⟩
      rw [if_pos (Role.isTable_iff.mpr ⟨d, i, ht⟩), hentry]
    · rintro ⟨-, hslot⟩
      split at hslot
      · rename_i htable
        exact ⟨Role.isTable_iff.mp htable, hslot⟩
      · simp at hslot
  unfold pteCount refCount fiberCount
  rw [hset, Set.ncard_coe_finset]

theorem mapped_iff (h : Frames lo hi s role) (hdirs : ∀ d, role d = .dir ↔ d ∈ dirs) (f : Nat) :
    Mapped s dirs f ↔ role f = .user := by
  constructor
  · rintro ⟨t, ht, j, hentry⟩
    obtain ⟨d, i, hrole⟩ := (h.isTable_iff_role hdirs t).mp ht
    exact h.pte t d i j f hrole hentry
  · intro hf
    have hpos := (h.user f hf).2
    unfold refCount at hpos
    rw [fiberCount_pos_iff] at hpos
    obtain ⟨slot, -, hslot⟩ := hpos
    unfold pteMap at hslot
    split at hslot
    · rename_i htable
      exact ⟨slot.1, (h.isTable_iff_role hdirs _).mpr (Role.isTable_iff.mp htable), slot.2, hslot⟩
    · simp at hslot

/-- The entries of one directory and of the others add up. -/
theorem pteCount_split (h : Frames lo hi s role) (hdirs : ∀ d ∈ dirs, role d = .dir) {d : Nat}
    (hd : d ∈ dirs) (f : Nat) :
    pteCount s dirs f = pteCount s {d} f + pteCount s (dirs \ {d}) f := by
  have hone : ∀ d' ∈ ({d} : Set Nat), role d' = .dir := by
    rintro _ rfl
    exact hdirs _ hd
  have hothers : ∀ d' ∈ dirs \ {d}, role d' = .dir := fun d' hd' => hdirs d' hd'.1
  have hfinite : ∀ D : Set Nat, (∀ d' ∈ D, role d' = .dir) →
      {slot : Nat × Fin 1024 | IsTable s D slot.1 ∧ s.entry slot.1 slot.2 = some f}.Finite := by
    intro D hD
    refine pteSlots.finite_toSet.subset ?_
    rintro slot ⟨ht, -⟩
    obtain ⟨d', -, i, hrole⟩ := (h.isTable_iff hD _).mp ht
    exact mem_pteSlots.mpr (h.lt (by simp [hrole]))
  have hdisjoint : Disjoint
      {slot : Nat × Fin 1024 | IsTable s {d} slot.1 ∧ s.entry slot.1 slot.2 = some f}
      {slot | IsTable s (dirs \ {d}) slot.1 ∧ s.entry slot.1 slot.2 = some f} := by
    rw [Set.disjoint_left]
    rintro slot ⟨ht, -⟩ ⟨ht', -⟩
    obtain ⟨d₁, hd₁, i, hrole⟩ := (h.isTable_iff hone _).mp ht
    obtain ⟨d₂, hd₂, i', hrole'⟩ := (h.isTable_iff hothers _).mp ht'
    rw [hrole] at hrole'
    obtain ⟨rfl, -⟩ := Role.table.inj hrole'
    exact hd₂.2 hd₁
  unfold pteCount
  rw [← Set.ncard_union_eq hdisjoint (hfinite _ hone) (hfinite _ hothers)]
  congr 1
  ext slot
  simp only [Set.mem_union, Set.mem_ofPred_eq]
  rw [isTable_split hd, or_and_right]

end Frames

/-! ### Runs -/

/-- A machine on which only the kernel has memory: the frames that are not free are the kernel's. -/
structure Booted (lo hi : Nat) (s : Machine) : Prop where
  pmm : s.pmm.Inv lo hi
  hi_le : hi ≤ s.pageCount
  pageCount_le : s.pageCount ≤ 2 ^ 20
  unused : ∀ f, s.pmm.Free f → (s.pmm.pages f).ref = 0
  kernelPgd_used : ¬ s.pmm.Free s.kernelPgd
  kernelPgd_empty : ∀ i : Fin 1024, i.val < 768 → s.entry s.kernelPgd i = none

/-- A machine, its page directories, and the frames that were allocated and not mapped yet. -/
structure PagingState where
  machine : Machine
  dirs : Set Nat
  held : Set Nat

/-- One operation of a run. -/
inductive PagingStep : PagingState → PagingState → Prop
  | setupPgdir {s s' : Machine} {dirs held : Set Nat} {d : Nat}
      (hcall : setupPgdir s = .ok (some d, s')) : PagingStep ⟨s, dirs, held⟩ ⟨s', insert d dirs, held⟩
  | alloc {s s' : Machine} {dirs held : Set Nat} {f : Nat}
      (hcall : allocPhyPages s 1 = .ok (some f, s')) :
      PagingStep ⟨s, dirs, held⟩ ⟨s', dirs, insert f held⟩
  | pageInsert {s s' : Machine} {dirs held : Set Nat} {d f : Nat} {va perm : U32} {err : Int}
      (hd : d ∈ dirs) (hva : va < KERNEL_BASE) (hperm : perm.toNat < 2 ^ 12)
      (hf : f ∈ held ∨ Mapped s dirs f) (hcall : pageInsert s d f va perm = .ok (err, s')) :
      PagingStep ⟨s, dirs, held⟩ ⟨s', dirs, {x ∈ held | ¬ (x = f ∧ err = 0)}⟩
  | pgdirAllocPage {s s' : Machine} {dirs held : Set Nat} {d : Nat} {va perm : U32} {page : Option Nat}
      (hd : d ∈ dirs) (hva : va < KERNEL_BASE) (hperm : perm.toNat < 2 ^ 12)
      (hcall : pgdirAllocPage s d va perm = .ok (page, s')) :
      PagingStep ⟨s, dirs, held⟩ ⟨s', dirs, held⟩
  | pageRemove {s s' : Machine} {dirs held : Set Nat} {d : Nat} {va : U32} (hd : d ∈ dirs)
      (hva : va < KERNEL_BASE) (hcall : pageRemove s d va = .ok s') :
      PagingStep ⟨s, dirs, held⟩ ⟨s', dirs, held⟩
  | unmapRange {s s' : Machine} {dirs held : Set Nat} {d : Nat} {start stop : U32} (hd : d ∈ dirs)
      (hcall : unmapRange s d start stop = .ok s') : PagingStep ⟨s, dirs, held⟩ ⟨s', dirs, held⟩
  | copyRange {s s' : Machine} {dirs held : Set Nat} {toDir fromDir : Nat} {start stop : U32} {err : Int}
      (hto : toDir ∈ dirs) (hfrom : fromDir ∈ dirs)
      (hcall : copyRange s toDir fromDir start stop = .ok (err, s')) :
      PagingStep ⟨s, dirs, held⟩ ⟨s', dirs, held⟩

/-! ### The invariant -/

/-- The roles agree with the ghost state of a run that started in `s₀`. -/
structure Agree (lo hi : Nat) (s₀ : Machine) (p : PagingState) (role : Nat → Role) : Prop where
  frames : Frames lo hi p.machine role
  dirs : ∀ d, role d = .dir ↔ d ∈ p.dirs
  held : ∀ f, role f = .held ↔ f ∈ p.held
  kernel : ∀ f, role f = .kernel ↔ ¬ s₀.pmm.Free f

/-- The invariant of the runs. -/
def PagingInv (lo hi : Nat) (s₀ : Machine) (p : PagingState) : Prop := ∃ role, Agree lo hi s₀ p role

namespace Agree

variable {lo hi : Nat} {s₀ : Machine} {p : PagingState} {role : Nat → Role}

/-- An operation that leaves directories, held frames and kernel frames in place. -/
theorem of_steady (h : Agree lo hi s₀ p role) {s' : Machine} {role' : Nat → Role}
    (hframes : Frames lo hi s' role') (hsteady : Steady role role') :
    Agree lo hi s₀ ⟨s', p.dirs, p.held⟩ role' :=
  ⟨hframes, fun d => (hsteady.dir d).trans (h.dirs d), fun f => (hsteady.held f).trans (h.held f),
    fun f => (hsteady.kernel f).trans (h.kernel f)⟩

/-- A free frame becomes a directory. -/
theorem newDir (h : Agree lo hi s₀ p role) {d : Nat} (hd : role d = .free) {s' : Machine}
    (hframes : Frames lo hi s' (Function.update role d .dir)) :
    Agree lo hi s₀ ⟨s', insert d p.dirs, p.held⟩ (Function.update role d .dir) := by
  refine ⟨hframes, ?_, ?_, ?_⟩
  all_goals intro x
  all_goals by_cases hx : x = d
  all_goals first
    | (subst hx; simp [hd, ← h.held, ← h.kernel])
    | simp [h.dirs, h.held, h.kernel, hx]

/-- A free frame is handed out. -/
theorem newHeld (h : Agree lo hi s₀ p role) {f : Nat} (hf : role f = .free) {s' : Machine}
    (hframes : Frames lo hi s' (Function.update role f .held)) :
    Agree lo hi s₀ ⟨s', p.dirs, insert f p.held⟩ (Function.update role f .held) := by
  refine ⟨hframes, ?_, ?_, ?_⟩
  all_goals intro x
  all_goals by_cases hx : x = f
  all_goals first
    | (subst hx; simp [hf, ← h.dirs, ← h.kernel])
    | simp [h.dirs, h.held, h.kernel, hx]

/-- A frame that is held or mapped has been mapped. -/
theorem nowMapped (h : Agree lo hi s₀ p role) {f : Nat} (hf : role f = .user ∨ role f = .held)
    {s' : Machine} {role' : Nat → Role} (hframes : Frames lo hi s' role')
    (hsteady : Steady (Function.update role f .user) role') :
    Agree lo hi s₀ ⟨s', p.dirs, {x ∈ p.held | x ≠ f}⟩ role' := by
  have hnot : f ∉ p.dirs ∧ s₀.pmm.Free f := by
    rw [← h.dirs f, ← not_not (a := s₀.pmm.Free f), ← h.kernel f]
    rcases hf with hf | hf <;> simp [hf]
  refine ⟨hframes, ?_, ?_, ?_⟩
  · intro x
    rw [hsteady.dir x]
    by_cases hx : x = f
    · subst hx
      simp [hnot.1]
    · simp [h.dirs, hx]
  · intro x
    rw [hsteady.held x]
    by_cases hx : x = f
    · subst hx
      simp
    · simp [h.held, hx]
  · intro x
    rw [hsteady.kernel x]
    by_cases hx : x = f
    · subst hx
      simp [hnot.2]
    · simp [h.kernel, hx]

end Agree

theorem Booted.agree {lo hi : Nat} {s₀ : Machine} (h : Booted lo hi s₀) :
    Agree lo hi s₀ ⟨s₀, ∅, ∅⟩ fun f => if s₀.pmm.Free f then .free else .kernel := by
  have hrole : ∀ f r, (if s₀.pmm.Free f then Role.free else Role.kernel) = r → r = .free ∨ r = .kernel := by
    intro f r hr
    split at hr
    · exact Or.inl hr.symm
    · exact Or.inr hr.symm
  have hnot : ∀ f r, r ≠ .free → r ≠ .kernel →
      (if s₀.pmm.Free f then Role.free else Role.kernel) ≠ r := by
    intro f r h1 h2 hr
    exact (hrole f r hr).elim h1 h2
  refine ⟨⟨h.pmm, h.hi_le, h.pageCount_le, ?_, ?_, ?_, ?_, ?_, ?_, ?_, ?_⟩, ?_, ?_, ?_⟩
  · intro f
    by_cases hf : s₀.pmm.Free f <;> simp [hf]
  · intro f hf
    by_cases hfree : s₀.pmm.Free f
    · exact h.pmm.managed_of_free hfree
    · simp [hfree] at hf
  · intro t d i ht
    exact absurd ht (hnot t _ (by simp) (by simp))
  · intro d i t hd
    exact absurd hd (hnot d _ (by simp) (by simp))
  · intro t d i j f ht
    exact absurd ht (hnot t _ (by simp) (by simp))
  · intro f hf
    exact absurd hf (hnot f _ (by simp) (by simp))
  · rintro f (hf | hf)
    · refine h.unused f ?_
      by_contra hc
      simp [hc] at hf
    · exact absurd hf (hnot f _ (by simp) (by simp))
  · exact ⟨by simp [h.kernelPgd_used], h.kernelPgd_empty⟩
  · intro d
    simpa using hnot d .dir (by simp) (by simp)
  · intro f
    simpa using hnot f .held (by simp) (by simp)
  · intro f
    by_cases hf : s₀.pmm.Free f <;> simp [hf]

section Steps

variable {lo hi : Nat} {s : Machine} {role : Nat → Role}

/-- `setup_pgdir` turns a free frame into a directory. -/
theorem setupPgdir_frames (h : Frames lo hi s role) {d : Nat} {s' : Machine}
    (hcall : setupPgdir s = .ok (some d, s')) :
    role d = .free ∧ Frames lo hi s' (Function.update role d .dir) ∧
      (∀ x, x ≠ d → s'.mem x = s.mem x) ∧ s'.mem d = s.mem s.kernelPgd := by
  unfold setupPgdir at hcall
  rcases allocPhyPages_frames h with halloc | ⟨p, m, halloc, hp, hheld⟩
  · rw [halloc, Res.ok_bind] at hcall
    simp [pure, Except.pure] at hcall
  · have hframe : pa2kva ({ s with pmm := m } : Machine) (page2pa p) = .ok p :=
      pa2kva_page2pa h (by simp [hp]) rfl
    rw [halloc, Res.ok_bind] at hcall
    dsimp only at hcall
    rw [hframe, Res.ok_bind] at hcall
    obtain ⟨hpd, rfl⟩ := Prod.mk.inj (Except.ok.inj hcall)
    obtain rfl := Option.some.inj hpd
    have hdir : Frames lo hi (({ s with pmm := m } : Machine).fillFrame p (s.mem s.kernelPgd)) _ :=
      hheld.toDir (Function.update_self ..) h.kernelPgd.2
    rw [Function.update_idem] at hdir
    refine ⟨hp, hdir, ?_, ?_⟩
    · intro x hx
      exact Function.update_of_ne hx _ _
    · exact Function.update_self ..

/-- `pgdir_alloc_page` maps a fresh frame, or leaves the frames as they were. -/
theorem pgdirAllocPage_frames (h : Frames lo hi s role) {d : Nat} (hd : role d = .dir) {va perm : U32}
    (hva : (pgdIndex va).val < 768) (hperm : perm.toNat < 2 ^ 12) :
    ∃ page s' role', pgdirAllocPage s d va perm = .ok (page, s') ∧ Frames lo hi s' role' ∧
      Steady role role' := by
  unfold pgdirAllocPage
  rcases allocPhyPages_frames h with halloc | ⟨p, m, halloc, hp, hheld⟩
  · rw [halloc, Res.ok_bind]
    exact ⟨none, s, role, rfl, h, Steady.refl role⟩
  · rw [halloc, Res.ok_bind]
    dsimp only
    have hpd : d ≠ p := by
      rintro rfl
      simp [hp] at hd
    have hd' : Function.update role p .held d = .dir := by
      rw [Function.update_of_ne hpd, hd]
    have hheldp : Function.update role p .held p = .held := Function.update_self ..
    rcases pageInsert_spec hheld hd' hva (Or.inr hheldp) hperm with hins | ⟨s', role', hins, hspec⟩
    · -- Without memory for the page table, the page goes back.
      rw [hins, Res.ok_bind]
      dsimp only
      obtain ⟨m', hfree, hframes⟩ := freePhyPages_frames hheld hheldp
      rw [if_pos (by decide), hfree, Res.ok_bind]
      refine ⟨none, _, _, rfl, hframes, Steady.of_cases fun x => ?_⟩
      rw [Function.update_idem]
      by_cases hx : x = p
      · subst hx
        exact Or.inl (by rw [Function.update_self, hp])
      · exact Or.inl (Function.update_of_ne hx _ _)
    · rw [hins, Res.ok_bind]
      refine ⟨some p, s', role', rfl, hspec.frames, Steady.trans (Steady.of_cases fun x => ?_)
        hspec.steady⟩
      rw [Function.update_idem]
      by_cases hx : x = p
      · subst hx
        exact Or.inr ⟨Or.inl hp, Or.inr (Or.inl (Function.update_self ..))⟩
      · exact Or.inl (Function.update_of_ne hx _ _)

/-- A range function that has returned was given a range that passes its tests. -/
theorem userRange_of_unmapRange {d : Nat} {start stop : U32} {s' : Machine}
    (hcall : unmapRange s d start stop = .ok s') : UserRange start stop := by
  unfold unmapRange at hcall
  split at hcall
  · simp at hcall
  · rename_i haligned
    split at hcall
    · simp at hcall
    · rename_i huser
      obtain ⟨h1, h2⟩ := not_not.mp haligned
      exact ⟨h1, h2, by simpa using huser⟩

theorem userRange_of_copyRange {toDir fromDir : Nat} {start stop : U32} {r : Int × Machine}
    (hcall : copyRange s toDir fromDir start stop = .ok r) :
    UserRange start stop ∧ rangeLoop (copyRound toDir fromDir) stop rangeFuel s start = .ok r := by
  unfold copyRange at hcall
  split at hcall
  · simp at hcall
  · rename_i haligned
    split at hcall
    · simp at hcall
    · rename_i huser
      obtain ⟨h1, h2⟩ := not_not.mp haligned
      exact ⟨⟨h1, h2, by simpa using huser⟩, hcall⟩

/-- `copy_range` keeps the frames in order, whatever it replaces on the way. -/
theorem copyRange_frames (h : Frames lo hi s role) {toDir fromDir : Nat} (hto : role toDir = .dir)
    (hfrom : role fromDir = .dir) {start stop : U32} {err : Int} {s' : Machine}
    (hcall : copyRange s toDir fromDir start stop = .ok (err, s')) :
    ∃ role', Frames lo hi s' role' ∧ Steady role role' := by
  obtain ⟨hrange, hloop⟩ := userRange_of_copyRange hcall
  have hlt := hrange.lt
  have htop := hrange.le_top
  let P : Machine → Prop := fun sa => ∃ rolea, Frames lo hi sa rolea ∧ Steady role rolea
  have hrule := rangeLoop_rule (copyRound toDir fromDir) stop (fun a sa => PageAligned a ∧ P sa)
    (fun _ sa => P sa) (fun _ => True) ?_ rangeFuel (s := s) (a := start.toNat)
    ⟨hrange.aligned, role, h, Steady.refl role⟩ hlt ?_
  · rw [BitVec.ofNat_toNat, BitVec.setWidth_eq, hloop] at hrule
    rcases hrule with ⟨e, he, -⟩ | ⟨code, s'', hok, hP | ⟨-, -, -, -, hP⟩⟩
    · simp at he
    · obtain ⟨-, rfl⟩ := Prod.mk.inj (Except.ok.inj hok)
      exact hP
    · obtain ⟨-, rfl⟩ := Prod.mk.inj (Except.ok.inj hok)
      exact hP
  · rintro a sa ⟨haligned, rolea, hframes, hsteady⟩ hmore
    have hmod := haligned.aligned
    rcases copyRound_spec hframes ((hsteady.dir toDir).mpr hto) ((hsteady.dir fromDir).mpr hfrom)
      (a := a) (by omega) with ⟨msg, he⟩ | hret | ⟨hskip, -⟩ | ⟨hnext, -⟩ | ⟨s₂, role₂, hnext, hspec⟩
    · exact Or.inl ⟨_, he, trivial⟩
    · exact Or.inr (Or.inl ⟨_, sa, hret, rolea, hframes, hsteady⟩)
    · exact Or.inr (Or.inr ⟨_, sa, hskip, by omega, by omega, ⟨by omega, by omega⟩, rolea, hframes,
        hsteady⟩)
    · exact Or.inr (Or.inr ⟨_, sa, hnext, le_rfl, by omega, ⟨by omega, by omega⟩, rolea, hframes,
        hsteady⟩)
    · exact Or.inr (Or.inr ⟨_, s₂, hnext, le_rfl, by omega, ⟨by omega, by omega⟩, role₂, hspec.frames,
        hsteady.trans hspec.steady⟩)
  · unfold rangeFuel
    omega

end Steps

/-- How the roles may change over one operation. -/
structure Moved (role role' : Nat → Role) : Prop where
  freed : ∀ x, role x ≠ .free → role' x = .free → role x = .user
  unmapped : ∀ x, role x = .user → role' x = .user ∨ role' x = .free ∨ ∃ d i, role' x = .table d i

theorem Moved.refl (role : Nat → Role) : Moved role role :=
  ⟨fun _ hx hx' => absurd hx' hx, fun _ hx => Or.inl hx⟩

theorem Moved.of_steady {role role' : Nat → Role} (h : Steady role role') : Moved role role' := by
  refine ⟨fun x => h.user_of_freed, ?_⟩
  intro x hx
  cases hx' : role' x with
  | free => exact Or.inr (Or.inl rfl)
  | kernel => simpa [hx] using (h.kernel x).mp hx'
  | dir => simpa [hx] using (h.dir x).mp hx'
  | table d i => exact Or.inr (Or.inr ⟨d, i, rfl⟩)
  | held => simpa [hx] using (h.held x).mp hx'
  | user => exact Or.inl rfl

/-- A free frame takes another role. -/
theorem Moved.of_free {role : Nat → Role} {f : Nat} {r : Role} (hf : role f = .free) :
    Moved role (Function.update role f r) := by
  refine ⟨?_, ?_⟩
  · intro x hx hx'
    by_cases hxf : x = f
    · subst hxf
      exact absurd hf hx
    · rw [Function.update_of_ne hxf] at hx'
      exact absurd hx' hx
  · intro x hx
    left
    rw [Function.update_of_ne, hx]
    rintro rfl
    simp [hf] at hx

/-- A frame is mapped, and the one it replaces may be free. -/
theorem Moved.of_mapped {role role' : Nat → Role} {f : Nat}
    (h : Steady (Function.update role f .user) role') (hf : role' f = .user) : Moved role role' := by
  have hmoved := Moved.of_steady h
  refine ⟨?_, ?_⟩
  · intro x hx hx'
    have hxf : x ≠ f := by
      rintro rfl
      simp [hf] at hx'
    have := hmoved.freed x
    rw [Function.update_of_ne hxf] at this
    exact this hx hx'
  · intro x hx
    by_cases hxf : x = f
    · subst hxf
      exact Or.inl hf
    · refine hmoved.unmapped x ?_
      rw [Function.update_of_ne hxf, hx]

theorem pgdIndex_lt_of_lt_KERNEL_BASE {va : U32} (hva : va < KERNEL_BASE) : (pgdIndex va).val < 768 := by
  have hlt : va.toNat < 0xC0000000 := by
    simpa [BitVec.lt_def, KERNEL_BASE] using hva
  have := pgdIndex_lt_of_user hlt
  rwa [BitVec.ofNat_toNat, BitVec.setWidth_eq] at this

section Runs

variable {lo hi : Nat} {s₀ : Machine}

/-- Every operation keeps the invariant. -/
theorem PagingStep.agree {p p' : PagingState} (hstep : PagingStep p p') {role : Nat → Role}
    (h : Agree lo hi s₀ p role) : ∃ role', Agree lo hi s₀ p' role' ∧ Moved role role' := by
  cases hstep with
  | setupPgdir hcall =>
      obtain ⟨hd, hframes, -, -⟩ := setupPgdir_frames h.frames hcall
      exact ⟨_, h.newDir hd hframes, .of_free hd⟩
  | alloc hcall =>
      rcases allocPhyPages_frames h.frames with halloc | ⟨f, m, halloc, hf, hframes⟩
      · rw [halloc] at hcall
        simp at hcall
      · rw [halloc] at hcall
        obtain ⟨hff, rfl⟩ := Prod.mk.inj (Except.ok.inj hcall)
        obtain rfl := Option.some.inj hff
        exact ⟨_, h.newHeld hf hframes, .of_free hf⟩
  | pageInsert hd hva hperm hf hcall =>
      rename_i s s' dirs held d f va perm err
      have hf' : role f = .user ∨ role f = .held := by
        rcases hf with hf | hf
        · exact Or.inr ((h.held f).mpr hf)
        · exact Or.inl ((h.frames.mapped_iff h.dirs f).mp hf)
      rcases pageInsert_spec h.frames ((h.dirs d).mpr hd) (pgdIndex_lt_of_lt_KERNEL_BASE hva) hf' hperm
        with hins | ⟨s₁, role₁, hins, hspec⟩
      · rw [hins] at hcall
        obtain ⟨rfl, rfl⟩ := Prod.mk.inj (Except.ok.inj hcall)
        refine ⟨role, ?_, .refl role⟩
        have hheld : {x ∈ held | ¬ (x = f ∧ -E_NOMEM = 0)} = held := by
          ext x
          simp [E_NOMEM]
        rw [hheld]
        exact h
      · rw [hins] at hcall
        obtain ⟨rfl, rfl⟩ := Prod.mk.inj (Except.ok.inj hcall)
        refine ⟨role₁, ?_, .of_mapped hspec.steady hspec.mapped⟩
        have := h.nowMapped hf' hspec.frames hspec.steady
        simpa using this
  | pgdirAllocPage hd hva hperm hcall =>
      obtain ⟨page, s₁, role₁, hcall', hframes, hsteady⟩ := pgdirAllocPage_frames h.frames
        ((h.dirs _).mpr hd) (pgdIndex_lt_of_lt_KERNEL_BASE hva) hperm
      rw [hcall'] at hcall
      obtain ⟨rfl, rfl⟩ := Prod.mk.inj (Except.ok.inj hcall)
      exact ⟨role₁, h.of_steady hframes hsteady, .of_steady hsteady⟩
  | pageRemove hd hva hcall =>
      obtain ⟨s₁, role₁, hcall', hspec⟩ := pageRemove_unmapped h.frames ((h.dirs _).mpr hd)
        (pgdIndex_lt_of_lt_KERNEL_BASE hva)
      rw [hcall'] at hcall
      obtain rfl := Except.ok.inj hcall
      exact ⟨role₁, h.of_steady hspec.frames hspec.steady, .of_steady hspec.steady⟩
  | unmapRange hd hcall =>
      obtain ⟨s₁, role₁, hcall', hspec⟩ := unmapRange_spec h.frames ((h.dirs _).mpr hd)
        (userRange_of_unmapRange hcall)
      rw [hcall'] at hcall
      obtain rfl := Except.ok.inj hcall
      exact ⟨role₁, h.of_steady hspec.frames hspec.steady, .of_steady hspec.steady⟩
  | copyRange hto hfrom hcall =>
      obtain ⟨role₁, hframes, hsteady⟩ := copyRange_frames h.frames ((h.dirs _).mpr hto)
        ((h.dirs _).mpr hfrom) hcall
      exact ⟨role₁, h.of_steady hframes hsteady, .of_steady hsteady⟩

theorem pagingInv_of_run {p : PagingState} (hboot : Booted lo hi s₀)
    (hrun : Relation.ReflTransGen PagingStep ⟨s₀, ∅, ∅⟩ p) : PagingInv lo hi s₀ p := by
  induction hrun with
  | refl => exact ⟨_, hboot.agree⟩
  | tail _ hstep ih =>
      obtain ⟨role, h⟩ := ih
      obtain ⟨role', h', -⟩ := hstep.agree h
      exact ⟨role', h'⟩

/-- A managed frame is free unless it is used for something. -/
theorem Agree.free_iff {p : PagingState} {role : Nat → Role} (h : Agree lo hi s₀ p role) (f : Nat) :
    p.machine.pmm.Free f ↔ ¬ (Mapped p.machine p.dirs f ∨ IsTable p.machine p.dirs f ∨ f ∈ p.dirs ∨
      f ∈ p.held ∨ ¬ s₀.pmm.Free f) := by
  rw [h.frames.mapped_iff h.dirs, h.frames.isTable_iff_role h.dirs, ← h.dirs, ← h.held, ← h.kernel, ← h.frames.free]
  cases role f <;> simp

/-- Mapping a frame where it is mapped already, with other permissions perhaps, leaves all counts. -/
theorem Agree.reinsert {p : PagingState} {role : Nat → Role} (h : Agree lo hi s₀ p role) {d f : Nat}
    (hd : d ∈ p.dirs) {va perm : U32} (hva : va < KERNEL_BASE) (hperm : perm.toNat < 2 ^ 12)
    (hmapped : target (look p.machine d (pgdIndex va) (pteIndex va)) = some f) :
    ∃ s', pageInsert p.machine d f va perm = .ok (0, s') ∧
      (s'.pmm.pages f).ref = (p.machine.pmm.pages f).ref := by
  have hva' := pgdIndex_lt_of_lt_KERNEL_BASE hva
  have hd' := (h.dirs d).mpr hd
  obtain ⟨t, hlink, hmapped⟩ := entry_of_look hmapped
  have ht := h.frames.entry d _ t hd' hva' hlink
  have hf : role f = .user := h.frames.pte t d _ _ f ht hmapped
  have hword : target (pteWord f perm) = some f := target_pteWord (h.frames.lt (by simp [hf])) hperm
  obtain ⟨s₁, m, hevict, hstore, hframes⟩ := evictOld_frames h.frames ht (pteIndex va) (Or.inl hf) hword
  refine ⟨s₁.store t (pteIndex va) (pteWord f perm), ?_, ?_⟩
  · unfold pageInsert
    rw [getPte_present hlink (h.frames.le_pageCount (by simp [ht])), Res.ok_bind]
    dsimp only
    rw [hevict, Res.ok_bind]
    rfl
  · -- Both counts are the number of entries, and that has not changed.
    have hnew : ∀ x, target (pteWord f perm) = some x → role x = .user ∨ role x = .held := by
      intro x hx
      obtain rfl : f = x := by simpa [hword] using hx
      exact Or.inl hf
    have hrole : retarget p.machine role t (pteIndex va) (pteWord f perm) f = .user := by
      rcases retarget_cases h.frames ht (pteIndex va) hword f with hx | ⟨hx, -⟩
      · rw [hx, Function.update_self]
      · exact absurd rfl hx
    have hafter := (hframes.user f hrole).1
    have hbefore := (h.frames.user f hf).1
    have hcount := h.frames.refCount_store ht (pteIndex va) (pteWord f perm) f
    rw [h.frames.refCount_retarget ht (pteIndex va) hnew] at hafter
    rw [if_pos hword, show p.machine.entry t (pteIndex va) = some f from hmapped, if_pos rfl] at hcount
    rw [hstore]
    apply BitVec.eq_of_toNat_eq
    omega

/-- **Page reference counts are exact.**  In every state of a run of the page operations:

* the `ref` field of a mapped frame is the number of present entries, over all page tables, that point to
  it, and a mapped frame is not free;
* a managed frame is free unless it is mapped, a page table, a directory, held, or the kernel's; so a frame
  is back at the allocator as soon as its last mapping is gone;
* over one more operation, a frame in use becomes free exactly when it was mapped and is not any more
  (`copy_range` may have taken it for a page table by then);
* inserting a frame again at an address where it is mapped succeeds and leaves its count. -/
theorem page_refs_exact (lo hi : Nat) (s₀ : Machine) (hboot : Booted lo hi s₀) (p : PagingState)
    (hrun : Relation.ReflTransGen PagingStep ⟨s₀, ∅, ∅⟩ p) :
    (∀ f, Mapped p.machine p.dirs f →
      (p.machine.pmm.pages f).ref.toNat = pteCount p.machine p.dirs f ∧ ¬ p.machine.pmm.Free f) ∧
    (∀ f, p.machine.pmm.Free f ↔ ¬ (Mapped p.machine p.dirs f ∨ IsTable p.machine p.dirs f ∨
      f ∈ p.dirs ∨ f ∈ p.held ∨ ¬ s₀.pmm.Free f)) ∧
    (∀ p', PagingStep p p' → ∀ f, ¬ p.machine.pmm.Free f →
      (p'.machine.pmm.Free f ↔ Mapped p.machine p.dirs f ∧ ¬ Mapped p'.machine p'.dirs f ∧
        ¬ IsTable p'.machine p'.dirs f)) ∧
    (∀ d ∈ p.dirs, ∀ va < KERNEL_BASE, ∀ f perm, perm.toNat < 2 ^ 12 →
      target (look p.machine d (pgdIndex va) (pteIndex va)) = some f →
      ∃ s', pageInsert p.machine d f va perm = .ok (0, s') ∧
        (s'.pmm.pages f).ref = (p.machine.pmm.pages f).ref) := by
  obtain ⟨role, h⟩ := pagingInv_of_run hboot hrun
  refine ⟨?_, h.free_iff, ?_, ?_⟩
  · intro f hf
    have huser := (h.frames.mapped_iff h.dirs f).mp hf
    rw [h.frames.pteCount_eq h.dirs]
    refine ⟨(h.frames.user f huser).1, ?_⟩
    rw [← h.frames.free]
    simp [huser]
  · intro p' hstep f hf
    obtain ⟨role', h', hmoved⟩ := hstep.agree h
    rw [← h.frames.free] at hf
    rw [h.frames.mapped_iff h.dirs, h'.frames.mapped_iff h'.dirs, h'.frames.isTable_iff_role h'.dirs,
      ← h'.frames.free]
    constructor
    · intro hf'
      exact ⟨hmoved.freed f hf hf', by simp [hf'], by simp [hf']⟩
    · rintro ⟨huser, hnot, htable⟩
      rcases hmoved.unmapped f huser with hf' | hf' | hf'
      · exact absurd hf' hnot
      · exact hf'
      · exact absurd hf' htable
  · intro d hd va hva f perm hperm hmapped
    exact h.reinsert hd hva hperm hmapped

/-- A machine right after `ff_memmap_init` got `n` frames from frame 2 on, with the kernel in the others. -/
theorem booted_of_memmapInit {n : Nat} {m : Pmm}
    (hinit : ffMemmapInit (ffFreeAreaInit reservedPages) 2 n = .ok m) (hn : 2 + n ≤ 2 ^ 20) :
    Booted 2 (2 + n) ⟨m, 2 + n, fun _ _ => 0, 0⟩ := by
  have hinv := (ffMemmapInit_spec hinit).1
  refine ⟨hinv, le_rfl, hn, ?_, ?_, fun _ _ => target_zero⟩
  · intro f _
    unfold ffMemmapInit at hinit
    split at hinit
    · simp at hinit
    · obtain rfl := Except.ok.inj hinit
      have hloop : ∀ q, (memmapInitLoop reservedPages.pages 2 n q).ref = 0 := by
        intro q
        rw [memmapInitLoop_apply]
        split <;> rfl
      by_cases hf : f = 2
      · subst hf
        simpa [ffFreeAreaInit] using hloop 2
      · simpa [ffFreeAreaInit, hf] using hloop f
  · intro hfree
    have hmanaged : 2 ≤ 0 := (hinv.managed_of_free hfree).1
    omega

/-- A machine with four free frames. -/
def sixFrames : Machine := ⟨fourPages, 6, fun _ _ => 0, 0⟩

theorem sixFrames_booted : Booted 2 6 sixFrames := booted_of_memmapInit (n := 4) rfl (by decide)

/-- A page is mapped in a new directory: the page is in frame 3, its page table in frame 4. -/
theorem page_refs_exact_one_page : ∃ p, Relation.ReflTransGen PagingStep ⟨sixFrames, ∅, ∅⟩ p ∧
    Mapped p.machine p.dirs 3 ∧ pteCount p.machine p.dirs 3 = 1 := by
  have s₁ : PagingStep ⟨sixFrames, ∅, ∅⟩ ⟨_, insert 2 ∅, ∅⟩ := .setupPgdir rfl
  have hrun := (Relation.ReflTransGen.single s₁).tail
    (.pgdirAllocPage (Set.mem_insert 2 ∅) (show 0x200000#32 < KERNEL_BASE by decide)
      (show PTE_USER.toNat < 2 ^ 12 by decide) rfl)
  obtain ⟨hcount, -, -, -⟩ := page_refs_exact 2 6 _ sixFrames_booted _ hrun
  have hmapped := hcount 3 ⟨4, ⟨2, Set.mem_insert 2 ∅, 0, by decide, rfl⟩, 512, rfl⟩
  exact ⟨_, hrun, ⟨4, ⟨2, Set.mem_insert 2 ∅, 0, by decide, rfl⟩, 512, rfl⟩, hmapped.1.symm.trans rfl⟩

end Runs

end Memory
end FreakOS
