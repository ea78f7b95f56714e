import FreakOS.Memory.LoadSpace

/-!
# Runs of the loader

What each part of `load_icode` leaves, whatever the file system answers and whatever the other tasks do while it is
asked, as long as they leave the address space that is built in order.

* `Respects` — what the others may do.
* `meets_loadIcodeRead` — reading from the file.
* `meets_loadSegment`, `meets_loadSegments`, `meets_loadStack` — the parts of the address space.
* `meets_mapIcode` — the address space that is ready for the arguments.
-/

namespace FreakOS
namespace Memory

open Lib
open Lib.Prog (Meets)

/-- A step of another task: every address space that is being built stays in order. -/
def Respects (lo hi : Nat) (s s' : Machine) : Prop :=
  ∀ d own pages, Loading lo hi d own pages s → Loading lo hi d own pages s'

theorem Respects.refl (lo hi : Nat) (s : Machine) : Respects lo hi s s := fun _ _ _ h => h

section Runs

variable {lo hi d : Nat} {own pages : Set Nat}

/-! ### Reading -/

theorem meets_write {P : Machine → Prop} {Q : Unit → Machine → Prop} {f : Machine → Machine} (h : ∀ s, P s → Q () (f s)) :
    Meets (Respects lo hi) P (Load.write f) Q := by
  refine Meets.lift ?_
  intro s u s' hs hcall
  obtain ⟨-, rfl⟩ := Prod.mk.inj (Except.ok.inj hcall)
  exact h s hs

theorem meets_ask (question : FileCall) :
    Meets (Respects lo hi) (Loading lo hi d own pages) (Prog.query question : Load FileAnswer)
      (fun _ => Loading lo hi d own pages) :=
  Meets.query fun _ _ _ hs henv => henv d own pages hs

/-- The destination of a read is a mapped page, or no page at all. -/
def Dest.In (dest : Dest) (pages : Set Nat) : Prop := ∀ page off, dest = some (page, off) → page ∈ pages

theorem Loading.fillPage {s : Machine} (h : Loading lo hi d own pages s) {p : Nat} (hp : p ∈ pages) (words : FrameWords) :
    Loading lo hi d own pages (s.fillFrame p words) := by
  obtain ⟨role, h⟩ := h
  exact ⟨role, h.fill (Or.inl (h.pages p hp)) words⟩

theorem Loading.fillOwn {s : Machine} (h : Loading lo hi d own pages s) {p : Nat} (hp : p ∈ own) (words : FrameWords) :
    Loading lo hi d own pages (s.fillFrame p words) := by
  obtain ⟨role, h⟩ := h
  obtain ⟨hkernel, hpgd, -⟩ := h.own p hp
  exact ⟨role, h.fill (Or.inr ⟨hkernel, hpgd⟩) words⟩

theorem Loading.putBytes {s : Machine} {dest : Dest} (h : Loading lo hi d own pages s) (hdest : dest.In pages)
    (copied : Nat) (bytes : List U8) : Loading lo hi d own pages (Memory.putBytes dest copied bytes s) := by
  cases dest with
  | none => exact h
  | some place => exact h.fillPage (hdest place.1 place.2 rfl) _

/-- The loop of `sysfile_read`, by induction on its fuel. -/
theorem meets_sysfileReadLoop {dest : Dest} (hdest : dest.In pages) {buffer : Nat} (hbuffer : buffer ∈ own) (fuel : Nat)
    (pos len : U32) (copied : List U8) :
    Meets (Respects lo hi) (Loading lo hi d own pages) (sysfileReadLoop dest buffer fuel pos len copied)
      (fun _ => Loading lo hi d own pages) := by
  induction fuel generalizing pos len copied with
  | zero => exact Meets.stop _
  | succ fuel ih =>
      unfold sysfileReadLoop
      refine Meets.ite (fun _ => Meets.pure fun s hs => hs) fun _ => ?_
      refine Meets.bind (meets_ask _) fun answer => ?_
      refine Meets.bind (meets_write (Q := fun _ => Loading lo hi d own pages) ?_) fun _ => ?_
      · exact fun s hs => hs.fillOwn hbuffer _
      refine Meets.bind (Q := fun _ => Loading lo hi d own pages) (Meets.lift ?_) fun bytes => ?_
      · intro s bytes s' hs hcall
        obtain ⟨-, rfl⟩ := Prod.mk.inj (Except.ok.inj hcall)
        exact hs
      refine Meets.bind (meets_write (Q := fun _ => Loading lo hi d own pages) ?_) fun _ => ?_
      · exact fun s hs => hs.putBytes hdest _ _
      exact Meets.ite (fun _ => Meets.pure fun s hs => hs) fun _ => ih _ _ _

theorem frameAt_page2kva {p : Nat} (hp : p < 2 ^ 20) : frameAt (page2kva p) = p := shift_page2kva hp

theorem Res.map_eq_ok {x : Res Machine} {u : Unit} {s : Machine} (h : x.map ((), ·) = .ok (u, s)) : x = .ok s := by
  cases x with
  | error e => cases h
  | ok s' =>
      obtain ⟨-, rfl⟩ := Prod.mk.inj (Except.ok.inj h)
      rfl

theorem meets_sysfileRead {dest : Dest} (hdest : dest.In pages) (pos len : U32) :
    Meets (Respects lo hi) (Loading lo hi d ∅ pages) (sysfileRead dest pos len) (fun _ => Loading lo hi d ∅ pages) := by
  unfold sysfileRead
  refine Meets.ite (fun _ => Meets.pure fun s hs => hs) fun _ => ?_
  -- The buffer is a frame that `kmalloc` has handed out.
  refine Meets.bind (Q := fun buffer s => ∃ p, (buffer = page2kva p ∧ p < 2 ^ 20) ∧ Loading lo hi d {p} pages s)
    (Meets.lift ?_) fun buffer => ?_
  · rintro s buffer s' ⟨role, hs⟩ hcall
    obtain ⟨p, role', hbuffer, hp, hspace⟩ := hs.kmalloc rfl hcall
    exact ⟨p, ⟨hbuffer, hp⟩, Loading.mono ⟨role', hspace⟩ (by simp) subset_rfl⟩
  refine Meets.forValue fun p => Meets.fact ?_
  rintro ⟨rfl, hp⟩
  rw [frameAt_page2kva hp]
  refine Meets.bind (meets_sysfileReadLoop hdest (Set.mem_singleton p) _ _ _ _) fun r => ?_
  obtain ⟨copied, ret⟩ := r
  refine Meets.bind (Q := fun _ => Loading lo hi d ∅ pages) (Meets.lift ?_) fun _ => Meets.pure fun s hs => hs
  rintro s u s' ⟨role, hs⟩ hcall
  obtain ⟨role', hspace⟩ := hs.kfree rfl hp (Set.mem_singleton p) (Res.map_eq_ok hcall)
  exact Loading.mono ⟨role', hspace⟩ (Set.empty_subset _) subset_rfl

/-- `load_icode_read`. -/
theorem meets_loadIcodeRead {dest : Dest} (hdest : dest.In pages) (len offset : U32) :
    Meets (Respects lo hi) (Loading lo hi d ∅ pages) (loadIcodeRead dest len offset)
      (fun _ => Loading lo hi d ∅ pages) := by
  unfold loadIcodeRead
  refine Meets.bind (meets_ask _) fun answer => ?_
  refine Meets.ite (fun _ => Meets.pure fun s hs => hs) fun _ => ?_
  refine Meets.bind (meets_sysfileRead hdest offset len) fun r => ?_
  obtain ⟨bytes, ret⟩ := r
  exact Meets.ite (fun _ => Meets.pure fun s hs => hs) fun _ => Meets.pure fun s hs => hs

/-! ### Segments -/

/-- The page that a cursor is in. -/
def pageSet (page : Option Nat) : Set Nat := {x | page = some x}

theorem pagePerm_user (vmFlags : U32) : pagePerm vmFlags &&& PTE_PAGE_USER ≠ 0 := by
  unfold pagePerm
  split
  · decide
  · decide

theorem meets_segmentPage (la flags : U32) :
    Meets (Respects lo hi) (Loading lo hi d ∅ pages) (segmentPage d la (pagePerm flags))
      (fun page s => ∀ p, page = some p → Loading lo hi d ∅ (pageSet page) s) := by
  unfold segmentPage
  refine Meets.ite (fun hlt => Meets.lift ?_) fun _ => Meets.stop _
  rintro s page s' ⟨role, hs⟩ hcall p rfl
  have hva : (pgdIndex la).val < 768 := by
    have hbase : la.toNat < 0xC0000000 := hlt
    simp only [pgdIndex, Fin.val_ofNat]
    omega
  obtain ⟨role', hspace, -⟩ := hs.pgdirAllocPage hva (pagePerm_lt flags) (pagePerm_user flags) hcall
  refine Loading.mono ⟨role', hspace⟩ subset_rfl ?_
  intro x hx
  exact (Option.some.inj hx).symm

theorem meets_clearBytes (page : Option Nat) (off size : U32) :
    Meets (Respects lo hi) (Loading lo hi d ∅ (pageSet page)) (clearBytes page off size)
      (fun _ => Loading lo hi d ∅ (pageSet page)) := by
  cases page with
  | none => exact Meets.stop _
  | some p =>
      refine Meets.ite (fun _ => meets_write ?_) fun _ => Meets.stop _
      exact fun s hs => hs.fillPage rfl _

/-- The loop over the part that is in the file, by induction on its fuel. -/
theorem meets_loadFilePart (flags stop : U32) (fuel : Nat) (c : Cursor) (offset : U32) :
    Meets (Respects lo hi) (Loading lo hi d ∅ (pageSet c.page)) (loadFilePart d (pagePerm flags) stop fuel c offset)
      (fun r s => r.1 = 0 → Loading lo hi d ∅ (pageSet r.2.page) s) := by
  induction fuel generalizing c offset with
  | zero => exact Meets.stop _
  | succ fuel ih =>
      unfold loadFilePart
      refine Meets.ite (fun _ => ?_) fun _ => Meets.pure fun s hs _ => hs
      refine Meets.bind (meets_segmentPage c.la flags) fun page => ?_
      cases page with
      | none =>
          have hnomem : (-E_NOMEM : Int) ≠ 0 := by decide
          exact Meets.pure fun s _ hret => absurd hret hnomem
      | some p =>
          have hdest : Dest.In (some (p, (c.start - c.la).toNat)) (pageSet (some p)) := by
            rintro _ _ ⟨⟩
            rfl
          refine Meets.bind ((meets_loadIcodeRead hdest _ _).imp (fun s hs => hs p rfl) fun _ _ h => h) fun r => ?_
          obtain ⟨bytes, ret⟩ := r
          refine Meets.ite (fun hne => Meets.pure fun s _ hret => absurd hret hne) fun _ => ?_
          exact ih ⟨_, _, some p⟩ _

theorem meets_clearTail (stop : U32) (c : Cursor) :
    Meets (Respects lo hi) (Loading lo hi d ∅ (pageSet c.page)) (clearTail stop c)
      (fun _ => Loading lo hi d ∅ ∅) := by
  have hmono : ∀ s, Loading lo hi d ∅ (pageSet c.page) s → Loading lo hi d ∅ ∅ s :=
    fun s hs => hs.mono subset_rfl (Set.empty_subset _)
  unfold clearTail
  refine Meets.ite (fun _ => ?_) fun _ => Meets.pure hmono
  refine Meets.ite (fun _ => Meets.pure hmono) fun _ => ?_
  exact Meets.bind (meets_clearBytes c.page _ _) fun _ => Meets.pure hmono

/-- The loop over the part that is not in the file, by induction on its fuel. -/
theorem meets_loadBss (flags stop : U32) (fuel : Nat) (c : Cursor) :
    Meets (Respects lo hi) (Loading lo hi d ∅ ∅) (loadBss d (pagePerm flags) stop fuel c)
      (fun ret s => ret = 0 → Loading lo hi d ∅ ∅ s) := by
  induction fuel generalizing c with
  | zero => exact Meets.stop _
  | succ fuel ih =>
      unfold loadBss
      refine Meets.ite (fun _ => ?_) fun _ => Meets.pure fun s hs _ => hs
      refine Meets.bind (meets_segmentPage c.la flags) fun page => ?_
      cases page with
      | none =>
          have hnomem : (-E_NOMEM : Int) ≠ 0 := by decide
          exact Meets.pure fun s _ hret => absurd hret hnomem
      | some p =>
          refine Meets.bind ((meets_clearBytes (some p) _ _).imp (fun s hs => hs p rfl) fun _ _ h => h) fun _ => ?_
          exact (ih ⟨_, _, some p⟩).imp (fun s hs => hs.mono subset_rfl (Set.empty_subset _)) fun _ _ h => h

/-! ### The memory map -/

/-- The map of an address space that is being built. -/
structure Building (lo hi : Nat) (mm : MemMap) (s : Machine) : Prop where
  inv : mm.Inv
  space : Loading lo hi mm.dir ∅ ∅ s

theorem Building.mmMap {s s' : Machine} {mm mm' : MemMap} {a len flags : U32} {ret : Int} (h : Building lo hi mm s)
    (hcall : mmMap s mm a len flags = .ok (ret, mm', s')) : Building lo hi mm' s' ∧ mm'.dir = mm.dir := by
  obtain ⟨hinv, hdir⟩ := mmMap_inv h.inv hcall
  refine ⟨⟨hinv, ?_⟩, hdir⟩
  rw [hdir]
  exact h.space.mmMap hcall

/-- The body of the loop over the program headers. -/
theorem meets_loadSegment (ph : ProgramHeader) (mm : MemMap) :
    Meets (Respects lo hi) (Building lo hi mm) (loadSegment ph mm)
      (fun r s => r.1 = 0 → Building lo hi r.2 s) := by
  unfold loadSegment
  refine Meets.ite (fun _ => Meets.pure fun s hs _ => hs) fun _ => ?_
  refine Meets.ite (fun _ => Meets.pure fun s hs _ => hs) fun _ => ?_
  refine Meets.ite (fun _ => Meets.pure fun s hs _ => hs) fun _ => ?_
  refine Meets.bind (Q := fun r => Building lo hi r.2) (Meets.lift ?_) fun r => ?_
  · intro s r s' hs hcall
    obtain ⟨⟨ret, mm', s₁⟩, hmap, hpair⟩ := Res.bind_eq_ok.mp hcall
    obtain ⟨rfl, rfl⟩ := Prod.mk.inj (Except.ok.inj hpair)
    exact (hs.mmMap hmap).1
  obtain ⟨ret, mm'⟩ := r
  refine Meets.ite (fun hne => Meets.pure fun s _ hret => absurd hret hne) fun _ => ?_
  -- The order of the map does not depend on the memory.
  refine Meets.imp (P := fun s => mm'.Inv ∧ Loading lo hi mm'.dir ∅ ∅ s) (Meets.fact fun hinv => ?_)
    (fun s hs => ⟨hs.inv, hs.space⟩) fun _ _ h => h
  have hnone : ∀ s, Loading lo hi mm'.dir ∅ ∅ s → Loading lo hi mm'.dir ∅ (pageSet none) s :=
    fun s hs => hs.mono subset_rfl fun x hx => absurd hx (by simp [pageSet])
  refine Meets.bind ((meets_loadFilePart _ _ _ _ _).imp hnone fun _ _ h => h) fun r => ?_
  obtain ⟨ret, c⟩ := r
  refine Meets.ite (fun hne => Meets.pure fun s _ hret => absurd hret hne) fun hzero => ?_
  have hret : ret = 0 := not_not.mp hzero
  refine Meets.bind ((meets_clearTail _ c).imp (fun s hs => hs hret) fun _ _ h => h) fun c => ?_
  refine Meets.bind (meets_loadBss _ _ _ c) fun ret => ?_
  exact Meets.pure fun s hs hret => ⟨hinv, hs hret⟩

/-- The loop over the program headers, by induction on the number of headers that are left. -/
theorem meets_loadSegments (elf : ElfHeader) (left : Nat) (mm : MemMap) :
    Meets (Respects lo hi) (Building lo hi mm) (loadSegments elf left mm)
      (fun r s => r.1 = 0 → Building lo hi r.2 s) := by
  induction left generalizing mm with
  | zero => exact Meets.pure fun s hs _ => hs
  | succ left ih =>
      unfold loadSegments
      refine Meets.imp (P := fun s => mm.Inv ∧ Loading lo hi mm.dir ∅ ∅ s) (Meets.fact fun hinv => ?_)
        (fun s hs => ⟨hs.inv, hs.space⟩) fun _ _ h => h
      refine Meets.bind (meets_loadIcodeRead (by rintro _ _ ⟨⟩) _ _) fun r => ?_
      obtain ⟨bytes, ret⟩ := r
      refine Meets.ite (fun hne => Meets.pure fun s _ hret => absurd hret hne) fun _ => ?_
      refine Meets.bind ((meets_loadSegment (.decode bytes) mm).imp (fun s hs => ⟨hinv, hs⟩) fun _ _ h => h) fun r => ?_
      obtain ⟨ret, mm'⟩ := r
      refine Meets.ite (fun hne => Meets.pure fun s _ hret => absurd hret hne) fun hzero => ?_
      exact (ih mm').imp (fun s hs => hs (not_not.mp hzero)) fun _ _ h => h

/-! ### The stack -/

/-- The area of the stack is there. -/
def HasStack (mm : MemMap) : Prop :=
  ∃ vma ∈ mm.vmaList, vma.vmStart = USTACK_TOP - USTACK_SIZE ∧ vma.vmEnd = USTACK_TOP ∧
    vma.vmFlags = VMM_READ ||| VMM_WRITE ||| VMM_STACK

theorem meets_stackPage (mm : MemMap) {n : U32} (hn : (pgdIndex (USTACK_TOP - n * PGSIZE)).val < 768) :
    Meets (Respects lo hi) (Building lo hi mm) (stackPage mm n) (fun _ => Building lo hi mm) := by
  unfold stackPage
  refine Meets.bind (Q := fun page s => ∀ p, page = some p → Building lo hi mm s) (Meets.lift ?_) fun page => ?_
  · rintro s page s' ⟨hinv, role, hs⟩ hcall p rfl
    obtain ⟨role', hspace, -⟩ := hs.pgdirAllocPage hn (by decide) (by decide) hcall
    exact ⟨hinv, Loading.mono ⟨role', hspace⟩ subset_rfl (Set.empty_subset _)⟩
  · cases page with
    | none => exact Meets.stop _
    | some p => exact Meets.pure fun s hs => hs p rfl

theorem meets_loadStack (mm : MemMap) :
    Meets (Respects lo hi) (Building lo hi mm) (loadStack mm)
      (fun r s => r.1 = 0 → Building lo hi r.2 s ∧ HasStack r.2) := by
  unfold loadStack
  refine Meets.bind (Q := fun r s => (r.1 = 0 → HasStack r.2) ∧ Building lo hi r.2 s) (Meets.lift ?_) fun r => ?_
  · intro s r s' hs hcall
    obtain ⟨⟨ret, mm', s₁⟩, hmap, hpair⟩ := Res.bind_eq_ok.mp hcall
    obtain ⟨rfl, rfl⟩ := Prod.mk.inj (Except.ok.inj hpair)
    refine ⟨?_, (hs.mmMap hmap).1⟩
    rintro rfl
    obtain ⟨-, -, node, m, -, hperm⟩ := mmMap_ok_zero hs.inv hmap
    refine ⟨_, hperm.symm.subset List.mem_cons_self, ?_, ?_, rfl⟩
    · show mapStart (USTACK_TOP - USTACK_SIZE) = _
      decide
    · show mapStop (USTACK_TOP - USTACK_SIZE) USTACK_SIZE = _
      decide
  obtain ⟨ret, mm'⟩ := r
  refine Meets.fact fun hstack => ?_
  refine Meets.ite (fun hne => Meets.pure fun s _ hret => absurd hret hne) fun hzero => ?_
  refine Meets.bind (meets_stackPage mm' (by decide)) fun _ => ?_
  refine Meets.bind (meets_stackPage mm' (by decide)) fun _ => ?_
  refine Meets.bind (meets_stackPage mm' (by decide)) fun _ => ?_
  refine Meets.bind (meets_stackPage mm' (by decide)) fun _ => ?_
  exact Meets.pure fun s hs _ => ⟨hs, hstack (not_not.mp hzero)⟩

/-! ### All of it -/

/-- The error paths return their code and no program. -/
theorem meets_badPgdirCleanupMm (node : U32) (mm : MemMap) (ret : Int) {P : Machine → Prop} :
    Meets (Respects lo hi) P (badPgdirCleanupMm node mm ret) (fun r _ => r = (ret, none)) :=
  Meets.bind (Q := fun _ _ => True) (Meets.lift fun _ _ _ _ _ => trivial) fun _ => Meets.pure fun _ _ => rfl

theorem meets_badElfCleanupPgdir (node : U32) (mm : MemMap) (ret : Int) {P : Machine → Prop} :
    Meets (Respects lo hi) P (badElfCleanupPgdir node mm ret) (fun r _ => r = (ret, none)) :=
  Meets.bind (Q := fun _ _ => True) (Meets.lift fun _ _ _ _ _ => trivial) fun _ => meets_badPgdirCleanupMm node mm ret

theorem meets_badCleanupMmap (node : U32) (mm : MemMap) (ret : Int) {P : Machine → Prop} :
    Meets (Respects lo hi) P (badCleanupMmap node mm ret) (fun r _ => r = (ret, none)) :=
  Meets.bind (Q := fun _ _ => True) (Meets.lift fun _ _ _ _ _ => trivial) fun _ => meets_badElfCleanupPgdir node mm ret

/-- The map is ready for the arguments. -/
structure Loaded (lo hi : Nat) (mm : MemMap) (s : Machine) : Prop extends Building lo hi mm s where
  stack : HasStack mm

/-- `load_icode` up to the arguments. -/
theorem meets_mapIcode :
    Meets (Respects lo hi) (fun s => ∃ role, Frames lo hi s role) mapIcode
      (fun r s => (r.1 ≠ 0 ∧ r.2 = none) ∨ ∃ image, r = (0, some image) ∧ Loaded lo hi image.mm s) := by
  have hbad : ∀ {ret : Int}, ret ≠ 0 → ∀ (r : Int × Option Image) (s : Machine), r = (ret, none) →
      (r.1 ≠ 0 ∧ r.2 = none) ∨ ∃ image, r = (0, some image) ∧ Loaded lo hi image.mm s := by
    rintro ret hne r s rfl
    exact Or.inl ⟨hne, rfl⟩
  unfold mapIcode
  refine Meets.bind (Q := fun _ s => ∃ role, Frames lo hi s role) (Meets.lift ?_) fun node => ?_
  · rintro s node s' ⟨role, hs⟩ hcall
    obtain ⟨p, role', -, -, -, hfoot, -⟩ := (Footprint.refl hs).kmalloc (by decide) hcall
    exact ⟨role', hfoot.frames⟩
  refine Meets.bind (Q := fun pgdir s => ∀ d, pgdir = some d → d < 2 ^ 20 ∧ Loading lo hi d ∅ ∅ s)
    (Meets.lift ?_) fun pgdir => ?_
  · rintro s pgdir s' ⟨role, hs⟩ hcall d rfl
    obtain ⟨hfree, -⟩ := setupPgdir_frames hs hcall
    exact ⟨hs.lt (by simp [hfree]), Loading.setupPgdir hs hcall⟩
  cases pgdir with
  | none => exact (meets_badPgdirCleanupMm node mmCreate _).imp (fun _ h => h) (hbad (by decide))
  | some pgdir =>
      refine Meets.imp (P := fun s => pgdir < 2 ^ 20 ∧ Loading lo hi pgdir ∅ ∅ s) (Meets.fact fun hlt => ?_)
        (fun s hs => hs pgdir rfl) fun _ _ h => h
      have hdir : ({ mmCreate with pgdir := page2kva pgdir } : MemMap).dir = pgdir := shift_page2kva hlt
      have hinv : ({ mmCreate with pgdir := page2kva pgdir } : MemMap).Inv :=
        ⟨mmCreate_inv.sorted, mmCreate_inv.count, mmCreate_inv.cache⟩
      dsimp only
      refine Meets.bind (meets_loadIcodeRead (by rintro _ _ ⟨⟩) _ _) fun r => ?_
      obtain ⟨bytes, ret⟩ := r
      refine Meets.ite (fun hne => (meets_badElfCleanupPgdir node _ _).imp (fun _ h => h) (hbad hne)) fun _ => ?_
      refine Meets.ite (fun _ => (meets_badElfCleanupPgdir node _ _).imp (fun _ h => h) (hbad (by decide))) fun _ => ?_
      refine Meets.bind ((meets_loadSegments _ _ _).imp (fun s hs => ⟨hinv, by rwa [hdir]⟩) fun _ _ h => h) fun r => ?_
      obtain ⟨ret, mm⟩ := r
      refine Meets.ite (fun hne => (meets_badCleanupMmap node _ _).imp (fun _ h => h) (hbad hne)) fun hzero => ?_
      refine Meets.bind ((meets_loadStack mm).imp (fun s hs => hs (not_not.mp hzero)) fun _ _ h => h) fun r => ?_
      obtain ⟨ret, mm'⟩ := r
      refine Meets.ite (fun hne => (meets_badCleanupMmap node _ _).imp (fun _ h => h) (hbad hne)) fun hzero => ?_
      refine Meets.pure fun s hs => ?_
      obtain ⟨hbuilding, hstack⟩ := hs (not_not.mp hzero)
      exact Or.inr ⟨_, rfl, ⟨⟨hbuilding.inv.sorted, hbuilding.inv.count, hbuilding.inv.cache⟩, hbuilding.space⟩, hstack⟩

end Runs

end Memory
end FreakOS
