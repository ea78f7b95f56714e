import FreakOS.Memory.Footprint

/-!
# How `dup_mm` runs out of memory

`dup_mm` asks the allocator for one block for each area, one frame for each page, and one frame for each
page table.  With `n` free pages the request after the first `n` ones is refused, and the request that is
refused decides how `dup_mm` ends.

* `Request`, `pageRequests`, `dupRequests` — what is asked for, in order.
* `copyRound_count` — one page: what it takes, and how it fails.
* `dupLoop_refused` — the loop of `dup_mm`.
-/

namespace FreakOS
namespace Memory

open Lib

/-! ### Requests -/

/-- What `do_fork` asks the allocator for. -/
inductive Request where
  | task
  | kstack
  | fileTable
  | file
  | mm
  | pgdir
  | area
  | table
  | frame
deriving DecidableEq, Repr

/-- What `dup_mm` comes across: an area, or a page of slot `i` that is present. -/
inductive DupItem where
  | area
  | page (i : Fin 1024)

/-- The slot and the page table index of page number `p`. -/
def pageSlot (p : Nat) : Fin 1024 × Fin 1024 := (Fin.ofNat 1024 (p / 1024), Fin.ofNat 1024 p)

/-- The items of `n` pages from page number `first` on. -/
def pageItems (s : Machine) (dir first n : Nat) : List DupItem :=
  (List.range' first n).filterMap fun p =>
    if target (look s dir (pageSlot p).1 (pageSlot p).2) = none then none else some (.page (pageSlot p).1)

/-- The items of an area. -/
def areaItems (s : Machine) (dir : Nat) (vma : VirtMemArea) : List DupItem :=
  .area :: pageItems s dir (vma.vmStart.toNat / 2 ^ 12) ((vma.vmEnd.toNat - vma.vmStart.toNat) / 2 ^ 12)

/-- The requests for the items, when the slots `slots` have their page tables already. -/
def itemRequests : List DupItem → List (Fin 1024) → List Request
  | [], _ => []
  | .area :: rest, slots => .area :: itemRequests rest slots
  | .page i :: rest, slots =>
      if i ∈ slots then .frame :: itemRequests rest slots
      else .table :: .frame :: itemRequests rest (i :: slots)

/-- The requests of `dup_mm(to, from)`. -/
def dupRequests (s : Machine) (fromMm : MemMap) : List Request :=
  itemRequests (fromMm.vmaList.reverse.flatMap (areaItems s fromMm.dir)) []

theorem itemRequests_old {i : Fin 1024} {slots : List (Fin 1024)} (h : i ∈ slots) (rest : List DupItem) :
    itemRequests (.page i :: rest) slots = .frame :: itemRequests rest slots := if_pos h

theorem itemRequests_new {i : Fin 1024} {slots : List (Fin 1024)} (h : i ∉ slots) (rest : List DupItem) :
    itemRequests (.page i :: rest) slots = .table :: .frame :: itemRequests rest (i :: slots) := if_neg h

theorem pageItems_append (s : Machine) (dir first m n : Nat) :
    pageItems s dir first (m + n) = pageItems s dir first m ++ pageItems s dir (first + m) n := by
  unfold pageItems
  rw [← List.filterMap_append]
  congr 1
  rw [List.range'_append_1]

/-- Pages that are not present ask for nothing. -/
theorem pageItems_eq_nil {s : Machine} {dir first n : Nat}
    (h : ∀ p, first ≤ p → p < first + n → target (look s dir (pageSlot p).1 (pageSlot p).2) = none) :
    pageItems s dir first n = [] := by
  unfold pageItems
  rw [List.filterMap_eq_nil_iff]
  intro p hp
  obtain ⟨h1, h2⟩ := List.mem_range'_1.mp hp
  rw [if_pos (h p h1 h2)]

/-! ### The allocator -/

section Count

variable {lo hi : Nat} {s s' : Machine} {role role' : Nat → Role}

/-- A page is refused exactly when no page is free. -/
theorem allocPhyPages_count (h : s.pmm.Inv lo hi) :
    (s.pmm.freePageCount = 0 ∧ allocPhyPages s 1 = .ok (none, s)) ∨
      ∃ p m, allocPhyPages s 1 = .ok (some p, { s with pmm := m }) ∧
        s.pmm.freePageCount = m.freePageCount + 1 := by
  by_cases hzero : s.pmm.freePageCount = 0
  · left
    refine ⟨hzero, ?_⟩
    unfold allocPhyPages ffAllocPages
    rw [if_neg (by omega), if_pos (by omega)]
    rfl
  · right
    obtain ⟨hfinite, hcount⟩ := h.freePageCount_eq
    have hsome : {f | s.pmm.Free f}.Nonempty := by
      rw [← Set.ncard_pos hfinite]
      omega
    obtain ⟨x, hx⟩ := hsome
    obtain ⟨p, m, hcall⟩ := ffAllocPages_one h hx
    refine ⟨p, m, ?_, (ffAllocPages_spec h hcall).count⟩
    unfold allocPhyPages
    rw [hcall]
    rfl

/-- `page_insert` at a place that maps nothing, in a page table that exists. -/
theorem pageInsert_empty {d t page : Nat} {va perm : U32} (hlink : s.entry d (pgdIndex va) = some t)
    (ht : t ≤ s.pageCount) (hnone : s.entry t (pteIndex va) = none) :
    pageInsert s d page va perm =
      .ok (0, (pageRefInc s page).store t (pteIndex va) (pteWord page perm)) := by
  have hbit : ¬ (pageRefInc s page).mem t (pteIndex va) &&& PTE_PAGE_PERSENT ≠ 0 :=
    not_not.mpr (target_eq_none_iff.mp hnone)
  unfold pageInsert
  rw [getPte_present hlink ht, Res.ok_bind]
  unfold evictOld
  dsimp only
  rw [if_neg hbit]
  rfl

/-- The frames that the page at `va` takes when it is copied to directory `d`. -/
def pageNeed (s : Machine) (d : Nat) (va : U32) : Nat := if s.entry d (pgdIndex va) = none then 2 else 1

/-- One round of `copy_range` at a page that is present in `fromDir` and not in `toDir`. -/
inductive RoundCount (toDir : Nat) (va : U32) (s : Machine) : Res (Round × Machine) → Prop
  | noTable (hentry : s.entry toDir (pgdIndex va) = none) (hcount : s.pmm.freePageCount = 0) :
      RoundCount toDir va s (.ok (.ret (-E_NOMEM), s))
  | noFrame (msg : String) (hcount : s.pmm.freePageCount + 1 = pageNeed s toDir va) :
      RoundCount toDir va s (.error (.panic msg))
  | copied {s' : Machine} (hcount : s.pmm.freePageCount = s'.pmm.freePageCount + pageNeed s toDir va)
      (hslots : ∀ i, s'.entry toDir i ≠ none ↔ s.entry toDir i ≠ none ∨ i = pgdIndex va) :
      RoundCount toDir va s (.ok (.next (va + PGSIZE), s'))

/-- `get_pte` with `create`, with what it takes. -/
theorem getPte_count (h : Frames lo hi s role) {d : Nat} (hd : role d = .dir) {va : U32}
    (hva : (pgdIndex va).val < 768) :
    (s.entry d (pgdIndex va) = none ∧ s.pmm.freePageCount = 0 ∧ getPte s d va true = .ok (none, s)) ∨
      ∃ t s' role', getPte s d va true = .ok (some (t, pteIndex va), s') ∧
        TableReady s role d (pgdIndex va) t s' role' ∧ Frames lo hi s' role' ∧
        s.pmm.freePageCount + 1 = s'.pmm.freePageCount + pageNeed s d va ∧
        ∀ i, s'.entry d i ≠ none ↔ s.entry d i ≠ none ∨ i = pgdIndex va := by
  unfold pageNeed
  rcases getPte_create h hd hva with hcall | ⟨t, s', role', hcall, hready, hframes⟩
  · left
    cases hentry : s.entry d (pgdIndex va) with
    | some t =>
        have ht := h.entry d _ t hd hva hentry
        rw [getPte_present hentry (h.le_pageCount (by simp [ht]))] at hcall
        simp at hcall
    | none =>
        refine ⟨rfl, ?_, hcall⟩
        rcases allocPhyPages_count h.pmm with ⟨hzero, -⟩ | ⟨p, m, halloc, -⟩
        · exact hzero
        · unfold getPte at hcall
          rw [if_pos (target_eq_none_iff.mp hentry), halloc] at hcall
          simp only [Bool.not_true, Bool.false_eq_true, if_false, Res.ok_bind] at hcall
          obtain ⟨f, -, hcall⟩ := Res.bind_eq_ok.mp hcall
          obtain ⟨q, -, hcall⟩ := Res.bind_eq_ok.mp hcall
          simp [pure, Except.pure] at hcall
  · right
    refine ⟨t, s', role', hcall, hready, hframes, ?_⟩
    have hlink := (hframes.table t d _ hready.isTable).2.2
    cases hready with
    | found ht =>
        rw [hlink]
        refine ⟨by simp, fun i => ⟨Or.inl, ?_⟩⟩
        rintro (hi' | rfl)
        · exact hi'
        · simp [hlink]
    | @created m ht hnone =>
        refine ⟨?_, ?_⟩
        · rw [if_pos hnone]
          unfold getPte at hcall
          rw [if_pos (target_eq_none_iff.mp hnone)] at hcall
          simp only [Bool.not_true, Bool.false_eq_true, if_false] at hcall
          rcases allocPhyPages_count h.pmm with ⟨-, halloc⟩ | ⟨p, m', halloc, hcount⟩
          · rw [halloc] at hcall
            simp [bind, Except.bind, pure, Except.pure] at hcall
          · rw [halloc, Res.ok_bind] at hcall
            obtain ⟨f, -, hcall⟩ := Res.bind_eq_ok.mp hcall
            obtain ⟨q, -, hcall⟩ := Res.bind_eq_ok.mp hcall
            obtain ⟨-, hs⟩ := Prod.mk.inj (Except.ok.inj hcall)
            rw [← hs, hcount]
            rfl
        · intro i
          have hdt : d ≠ t := by
            rintro rfl
            simp [ht] at hd
          rw [entry_store]
          by_cases hi' : i = pgdIndex va
          · subst hi'
            rw [entry_store, if_pos ⟨rfl, rfl⟩] at hlink
            simp [hlink]
          · rw [if_neg fun hc => hi' hc.2]
            have hsame : ((setPageRef { s with pmm := m } t 1).fillFrame t fun _ => 0).entry d i =
                s.entry d i := by
              unfold Machine.entry Machine.fillFrame
              dsimp only
              rw [Function.update_of_ne hdt]
              rfl
            rw [hsame]
            simp [hi']

theorem copyRound_count (h : Frames lo hi s role) {toDir fromDir : Nat} (hto : role toDir = .dir)
    (hfrom : role fromDir = .dir) {va : U32} (hva : (pgdIndex va).val < 768) {page : Nat}
    (hpage : target (look s fromDir (pgdIndex va) (pteIndex va)) = some page)
    (habsent : target (look s toDir (pgdIndex va) (pteIndex va)) = none) :
    RoundCount toDir va s (copyRound toDir fromDir s va) := by
  obtain ⟨tf, hlink, hentry⟩ := entry_of_look hpage
  have htf := h.entry fromDir _ tf hfrom hva hlink
  unfold copyRound
  rw [getPte_present hlink (h.le_pageCount (by simp [htf])), Res.ok_bind]
  dsimp only
  rw [if_pos (present_of_target hentry)]
  rcases getPte_count h hto hva with ⟨hnone, hzero, hcall⟩ | ⟨t, s₁, role₁, hcall, hready, h₁, hcount, hslots⟩
  · rw [hcall]
    exact .noTable hnone hzero
  rw [hcall, Res.ok_bind]
  dsimp only
  have hpagerole : role page = .user := h.pte tf _ _ _ page htf hentry
  have htfmem : s₁.mem tf = s.mem tf := by
    refine hready.mem_eq (by simp [htf]) ?_
    rintro rfl
    simp [htf] at hto
  have hpage₁ : role₁ page = .user := by rw [hready.role_eq (by simp [hpagerole]), hpagerole]
  have hpte : target (s.mem tf (pteIndex va)) = some page := hentry
  rw [htfmem, pte2page_of_target hpte (h₁.le_pageCount (by simp [hpage₁])), Res.ok_bind]
  rcases allocPhyPages_frames h₁ with halloc | ⟨np, m, halloc, hnp₁, hheld⟩
  · rw [halloc]
    refine .noFrame _ ?_
    rcases allocPhyPages_count h₁.pmm with ⟨hzero, -⟩ | ⟨p, m, halloc', -⟩
    · omega
    · rw [halloc] at halloc'
      simp at halloc'
  have hmcount : s₁.pmm.freePageCount = m.freePageCount + 1 := by
    rcases allocPhyPages_count h₁.pmm with ⟨-, halloc'⟩ | ⟨p, m', halloc', hm⟩
    · rw [halloc] at halloc'
      simp at halloc'
    · rw [halloc] at halloc'
      obtain ⟨-, hs⟩ := Prod.mk.inj (Except.ok.inj halloc')
      rw [hm, ← show m = m' from congrArg Machine.pmm hs]
  rw [halloc, Res.ok_bind]
  dsimp only
  have hsrc : pa2kva ({ s₁ with pmm := m } : Machine) (page2pa page) = .ok page :=
    pa2kva_page2pa h₁ (by simp [hpage₁]) rfl
  have hdst : pa2kva ({ s₁ with pmm := m } : Machine) (page2pa np) = .ok np :=
    pa2kva_page2pa h₁ (by simp [hnp₁]) rfl
  rw [hsrc, Res.ok_bind, hdst, Res.ok_bind]
  -- The frame that was taken is no directory and no page table.
  have ht₁ := hready.isTable
  have hto₁ : role₁ toDir = .dir := by rw [hready.role_eq (by simp [hto]), hto]
  have htne : t ≠ np := by
    rintro rfl
    simp [hnp₁] at ht₁
  have htone : toDir ≠ np := by
    rintro rfl
    simp [hnp₁] at hto₁
  have hlink₁ := (h₁.table t toDir _ ht₁).2.2
  set s₂ : Machine := ({ s₁ with pmm := m } : Machine).fillFrame np (s₁.mem page) with hs₂
  have hmem₂ : ∀ x, x ≠ np → s₂.mem x = s₁.mem x := fun x hx => Function.update_of_ne hx _ _
  have hlink₂ : s₂.entry toDir (pgdIndex va) = some t := by
    unfold Machine.entry
    rw [hmem₂ toDir htone]
    exact hlink₁
  have hnone₂ : s₂.entry t (pteIndex va) = none := by
    unfold Machine.entry
    rw [hmem₂ t htne, ← look_of_entry hlink₁, hready.look_eq h hto hto hva]
    exact habsent
  show RoundCount toDir va s (pageInsert s₂ toDir np va _ >>= _)
  rw [pageInsert_empty hlink₂ (h₁.le_pageCount (by simp [ht₁])) hnone₂, Res.ok_bind]
  refine .copied ?_ ?_
  · show s.pmm.freePageCount = m.freePageCount + pageNeed s toDir va
    omega
  · intro i
    have htt : toDir ≠ t := by
      rintro rfl
      simp [hto₁] at ht₁
    rw [← hslots i]
    unfold Machine.entry
    rw [store_mem_of_ne _ _ _ htt]
    show target (s₂.mem toDir i) ≠ none ↔ _
    rw [hmem₂ toDir htone]

end Count

/-! ### The loops -/

section Loops

variable {lo hi p : Nat} {s₀ s s' : Machine} {role₀ role role' : Nat → Role} {dirs own : Set Nat}
  {mm : MemMap}

/-- The slots of user space that have a page table in directory `d`. -/
def TableSlots (s : Machine) (d : Nat) (slots : List (Fin 1024)) : Prop :=
  ∀ i : Fin 1024, i.val < 768 → (i ∈ slots ↔ s.entry d i ≠ none)

/-- A directory of the earlier moment shows what it showed. -/
theorem Footprint.look_old (h : Footprint lo hi s₀ role₀ dirs own s role) (h₀ : Frames lo hi s₀ role₀)
    {d : Nat} (hd : role₀ d = .dir) {i : Fin 1024} (hi' : i.val < 768) (j : Fin 1024) :
    look s d i j = look s₀ d i j :=
  h₀.look_eq hd hi' j (h.mem d (by simp [hd])) fun t ht => h.mem t (by simp [ht])

/-- A page was copied into a new directory. -/
theorem Footprint.pageCopied (h : Footprint lo hi s₀ role₀ dirs own s role) (h₀ : Frames lo hi s₀ role₀)
    {toDir fromDir : Nat} (hto : toDir ∈ dirs) {va : U32}
    (hspec : PageCopied lo hi toDir fromDir va s role s' role') (hpgd : s'.kernelPgd = s.kernelPgd) :
    Footprint lo hi s₀ role₀ dirs own s' role' := by
  have hlive : ∀ x, role₀ x ≠ .free → role x ≠ .free := fun x hx hc => hx (h.free_of_free hc)
  obtain ⟨page, npage, -, hfree, huser, -, hlook⟩ := hspec.copy
  refine h.setPages h₀ hspec.frames ?_ ?_ hspec.steady.dir hspec.steady.kernel hspec.steady.held ?_ hpgd
  · intro x hx
    exact (hspec.roles x (hlive x hx)).imp_right And.left
  · intro x hx
    refine hspec.mem x (hlive x hx) ?_ fun i hc => hx (h.table_fresh h₀ hto hc)
    rintro rfl
    exact hx (h.fresh x (Or.inl hto))
  · intro d hd i j f hi' hf
    rw [hlook d i j (h.role_of_dir hd) hi'] at hf
    split at hf
    · right
      rw [target_pteWord (hspec.frames.lt (by simp [huser])) (and_PTE_USER_lt _)] at hf
      obtain rfl := Option.some.inj hf
      exact h.free_of_free hfree
    · exact Or.inl hf

/-- A page that is copied lies in an area, and so does its page table. -/
theorem Contained.pageCopied {mm : MemMap} (hmm : Contained s mm) {fromDir : Nat} (hd : role mm.dir = .dir)
    {a : Nat} (ha : PageAligned a) {vma : VirtMemArea} (hvma : vma ∈ mm.vmaList)
    (hin : vma.vmStart.toNat ≤ a ∧ a < vma.vmEnd.toNat)
    (hspec : PageCopied lo hi mm.dir fromDir (BitVec.ofNat 32 a) s role s' role')
    (hslots : ∀ i, s'.entry mm.dir i ≠ none ↔ s.entry mm.dir i ≠ none ∨ i = pgdIndex (BitVec.ofNat 32 a)) :
    Contained s' mm := by
  obtain ⟨page, npage, -, -, -, -, hlook⟩ := hspec.copy
  have hplace : InAreas mm.vmaList (pgdIndex (BitVec.ofNat 32 a)) (pteIndex (BitVec.ofNat 32 a)) := by
    refine ⟨vma, hvma, ?_⟩
    rwa [(pageAddr_eq_iff ha _ _).mpr ⟨rfl, rfl⟩]
  refine ⟨hmm.user, ?_, ?_⟩
  · intro i j hi' hsome
    rw [hlook mm.dir i j hd hi'] at hsome
    split at hsome
    · rename_i hc
      obtain ⟨-, rfl, rfl⟩ := hc
      exact hplace
    · exact hmm.pages i j hi' hsome
  · intro i hi' hsome
    rcases (hslots i).mp hsome with hold | rfl
    · exact hmm.slots i hi' hold
    · exact ⟨_, hplace⟩

/-- How far `copy_range` has come at address `a`, on the way to `stop`: from here on the machine refuses
what it would have refused from the start. -/
structure RangeState (lo hi : Nat) (s₀ : Machine) (role₀ : Nat → Role) (dirs own : Set Nat) (mm : MemMap)
    (fromDir stop : Nat) (tail : List DupItem) (goal : Option Request) (a : Nat) (s : Machine) : Prop where
  aligned : PageAligned a
  footprint : ∃ role, Footprint lo hi s₀ role₀ dirs own s role
  contained : Contained s mm
  absent : ∀ i j, a ≤ pageAddr i j → pageAddr i j < stop → target (look s mm.dir i j) = none
  refused : ∃ slots, TableSlots s mm.dir slots ∧
    (itemRequests (pageItems s₀ fromDir (a / 2 ^ 12) ((stop - a) / 2 ^ 12) ++ tail) slots)[
      s.pmm.freePageCount]? = goal

theorem pageSlot_eq {a : Nat} (ha : PageAligned a) :
    pageSlot (a / 2 ^ 12) = (pgdIndex (BitVec.ofNat 32 a), pteIndex (BitVec.ofNat 32 a)) := by
  have hlt := ha.lt
  refine Prod.ext (Fin.ext ?_) (Fin.ext ?_)
  · rw [pgdIndex_val hlt]
    simp only [pageSlot, Fin.val_ofNat]
    omega
  · rw [pteIndex_val hlt]
    simp only [pageSlot, Fin.val_ofNat]

/-- The items from a page on. -/
theorem pageItems_cons (s : Machine) (dir : Nat) {a stop : Nat} (ha : PageAligned a) (hlt : a < stop)
    (hstop : stop % 2 ^ 12 = 0) :
    pageItems s dir (a / 2 ^ 12) ((stop - a) / 2 ^ 12) =
      (if target (look s dir (pgdIndex (BitVec.ofNat 32 a)) (pteIndex (BitVec.ofNat 32 a))) = none then []
        else [.page (pgdIndex (BitVec.ofNat 32 a))]) ++
        pageItems s dir ((a + 2 ^ 12) / 2 ^ 12) ((stop - (a + 2 ^ 12)) / 2 ^ 12) := by
  have hmod := ha.aligned
  rw [show (stop - a) / 2 ^ 12 = 1 + (stop - (a + 2 ^ 12)) / 2 ^ 12 by omega, pageItems_append,
    show (a + 2 ^ 12) / 2 ^ 12 = a / 2 ^ 12 + 1 by omega]
  congr 1
  by_cases hnone : target (look s dir (pgdIndex (BitVec.ofNat 32 a)) (pteIndex (BitVec.ofNat 32 a))) = none
  all_goals
    unfold pageItems
    rw [List.range'_one, List.filterMap_cons, List.filterMap_nil, pageSlot_eq ha]
    simp [hnone]

/-- Pages that are missing may be skipped. -/
theorem pageItems_skip {s : Machine} {dir stop : Nat} (a a' : Nat) (hle : a ≤ a') (ha : a % 2 ^ 12 = 0)
    (ha' : a' % 2 ^ 12 = 0) (hstop : stop % 2 ^ 12 = 0)
    (hnone : ∀ p, a / 2 ^ 12 ≤ p → p < a' / 2 ^ 12 → target (look s dir (pageSlot p).1 (pageSlot p).2) = none) :
    pageItems s dir (a / 2 ^ 12) ((stop - a) / 2 ^ 12) =
      pageItems s dir (a' / 2 ^ 12) ((stop - a') / 2 ^ 12) := by
  by_cases hcase : a' ≤ stop
  · rw [show (stop - a) / 2 ^ 12 = (a' - a) / 2 ^ 12 + (stop - a') / 2 ^ 12 by omega, pageItems_append,
      pageItems_eq_nil fun p h1 h2 => hnone p h1 (by omega), List.nil_append]
    congr 1
    omega
  · rw [pageItems_eq_nil fun p h1 h2 => hnone p h1 (by omega), show (stop - a') / 2 ^ 12 = 0 by omega]
    rfl

/-- One round of `copy_range` at a page that is not there: the page is skipped, or its whole slot. -/
theorem copyRound_skip (h : Frames lo hi s role) (toDir : Nat) {fromDir : Nat} (hfrom : role fromDir = .dir) {a : Nat}
    (huser : a < 0xB0000000)
    (hnone : target (look s fromDir (pgdIndex (BitVec.ofNat 32 a)) (pteIndex (BitVec.ofNat 32 a))) = none) :
    (copyRound toDir fromDir s (BitVec.ofNat 32 a) =
        .ok (.next (BitVec.ofNat 32 ((a / 2 ^ 22 + 1) * 2 ^ 22)), s) ∧
      s.entry fromDir (pgdIndex (BitVec.ofNat 32 a)) = none) ∨
    copyRound toDir fromDir s (BitVec.ofNat 32 a) = .ok (.next (BitVec.ofNat 32 (a + 2 ^ 12)), s) := by
  have hva := pgdIndex_lt_of_user (a := a) (by omega)
  unfold copyRound
  rw [← add_PGSIZE_eq, ← nextSlot_eq huser]
  cases hentry : s.entry fromDir (pgdIndex (BitVec.ofNat 32 a)) with
  | none =>
      rw [getPte_absent hentry, Res.ok_bind]
      exact Or.inl ⟨rfl, rfl⟩
  | some tf =>
      have htf := h.entry fromDir _ tf hfrom hva hentry
      rw [look_of_entry hentry] at hnone
      rw [getPte_present hentry (h.le_pageCount (by simp [htf])), Res.ok_bind]
      dsimp only
      rw [if_neg (not_not.mpr (target_eq_none_iff.mp hnone))]
      exact Or.inr rfl

/-- A round that goes on at a page that is present has copied it. -/
theorem pageCopied_of_next (h : Frames lo hi s role) {toDir fromDir : Nat} (hto : role toDir = .dir)
    (hfrom : role fromDir = .dir) {a : Nat} (huser : a < 0xB0000000) {page : Nat}
    (hpage : target (look s fromDir (pgdIndex (BitVec.ofNat 32 a)) (pteIndex (BitVec.ofNat 32 a))) = some page)
    {next : U32} (hcall : copyRound toDir fromDir s (BitVec.ofNat 32 a) = .ok (.next next, s')) :
    ∃ role', PageCopied lo hi toDir fromDir (BitVec.ofNat 32 a) s role s' role' := by
  rcases copyRound_spec h hto hfrom huser with
    ⟨msg, he⟩ | hret | ⟨-, hentry⟩ | ⟨-, hnone⟩ | ⟨s'', role', hnext, hspec⟩
  · simp [he] at hcall
  · simp [hret] at hcall
  · rw [look_of_entry_none hentry, target_zero] at hpage
    simp at hpage
  · simp [hpage] at hnone
  · rw [hnext] at hcall
    obtain ⟨-, rfl⟩ := Prod.mk.inj (Except.ok.inj hcall)
    exact ⟨role', hspec⟩

/-- One round of `copy_range`. -/
theorem copyRound_refused (h₀ : Frames lo hi s₀ role₀) {mm : MemMap} (hto : mm.dir ∈ dirs) {fromDir : Nat}
    (hfrom : role₀ fromDir = .dir) {vma : VirtMemArea} (hvma : vma ∈ mm.vmaList)
    (hrange : UserRange vma.vmStart vma.vmEnd) {tail : List DupItem} {goal : Option Request} {a : Nat}
    (h : RangeState lo hi s₀ role₀ dirs own mm fromDir vma.vmEnd.toNat tail goal a s)
    (hstart : vma.vmStart.toNat ≤ a) (hmore : a < vma.vmEnd.toNat) :
    (∃ e, copyRound mm.dir fromDir s (BitVec.ofNat 32 a) = .error e ∧ (∃ msg, e = .panic msg) ∧
        goal = some .frame) ∨
    (copyRound mm.dir fromDir s (BitVec.ofNat 32 a) = .ok (.ret (-E_NOMEM), s) ∧ goal = some .table) ∨
    (∃ a' s', copyRound mm.dir fromDir s (BitVec.ofNat 32 a) = .ok (.next (BitVec.ofNat 32 a'), s') ∧
      a + 2 ^ 12 ≤ a' ∧ a' < 2 ^ 32 ∧
      RangeState lo hi s₀ role₀ dirs own mm fromDir vma.vmEnd.toNat tail goal a' s') := by
  obtain ⟨ha, ⟨role, hfoot⟩, hmm, habsent, slots, hslots, hgoal⟩ := h
  have htop := hrange.le_top
  have hmod := ha.aligned
  have hstop := hrange.stop_mod
  have hva := pgdIndex_lt_of_user (a := a) (by omega)
  have hd := hfoot.role_of_dir hto
  have hfromdir : role fromDir = .dir := by rw [hfoot.roles fromDir (by simp [hfrom]), hfrom]
  have hsame : ∀ i j, i.val < 768 → look s fromDir i j = look s₀ fromDir i j :=
    fun i j hi' => hfoot.look_old h₀ hfrom hi' j
  rw [pageItems_cons s₀ fromDir ha hmore hstop] at hgoal
  -- What a page without a frame leaves to do.
  have hskip : target (look s fromDir (pgdIndex (BitVec.ofNat 32 a)) (pteIndex (BitVec.ofNat 32 a))) = none →
      RangeState lo hi s₀ role₀ dirs own mm fromDir vma.vmEnd.toNat tail goal (a + 2 ^ 12) s := by
    intro hnone
    rw [hsame _ _ hva] at hnone
    rw [if_pos hnone, List.nil_append] at hgoal
    exact ⟨⟨by omega, by omega⟩, ⟨role, hfoot⟩, hmm, fun i j h1 => habsent i j (by omega), slots, hslots, hgoal⟩
  cases hpage : target (look s fromDir (pgdIndex (BitVec.ofNat 32 a)) (pteIndex (BitVec.ofNat 32 a))) with
  | none =>
      right
      right
      rcases copyRound_skip hfoot.frames mm.dir hfromdir (a := a) (by omega) hpage with
        ⟨hcall, hentry⟩ | hcall
      · -- All pages up to the next slot are missing.
        refine ⟨_, s, hcall, by omega, by omega, ⟨by omega, by omega⟩, ⟨role, hfoot⟩, hmm,
          fun i j h1 => habsent i j (by omega), slots, hslots, ?_⟩
        rw [hsame _ _ hva] at hpage
        rw [if_pos hpage, List.nil_append] at hgoal
        rw [← hgoal, pageItems_skip (a + 2 ^ 12) ((a / 2 ^ 22 + 1) * 2 ^ 22) (by omega) (by omega)
          (by omega) hstop]
        intro p h1 h2
        have hfst : (pageSlot p).1 = pgdIndex (BitVec.ofNat 32 a) := by
          refine Fin.ext ?_
          rw [pgdIndex_val (by omega)]
          simp only [pageSlot, Fin.val_ofNat]
          omega
        rw [hfst, ← hsame _ _ hva, look_of_entry_none hentry]
        exact target_zero
      · exact ⟨_, s, hcall, le_rfl, by omega, hskip hpage⟩
  | some page =>
      have hplace := habsent (pgdIndex (BitVec.ofNat 32 a)) (pteIndex (BitVec.ofNat 32 a))
      rw [(pageAddr_eq_iff ha _ _).mpr ⟨rfl, rfl⟩] at hplace
      have hround := copyRound_count hfoot.frames hd hfromdir hva hpage (hplace le_rfl hmore)
      rw [← hsame _ _ hva, hpage, if_neg (by simp), List.append_assoc, List.cons_append,
        List.nil_append] at hgoal
      have hslot := hslots _ hva
      generalize hcall : copyRound mm.dir fromDir s (BitVec.ofNat 32 a) = result at hround ⊢
      cases hround with
      | noTable hentry hcount =>
          right
          left
          refine ⟨rfl, ?_⟩
          rw [hcount, itemRequests_new (by simp [hslot, hentry]), List.getElem?_cons_zero] at hgoal
          exact hgoal.symm
      | noFrame msg hcount =>
          left
          refine ⟨_, rfl, ⟨msg, rfl⟩, ?_⟩
          unfold pageNeed at hcount
          split at hcount
          · rename_i hentry
            rw [itemRequests_new (by simp [hslot, hentry]), show s.pmm.freePageCount = 0 + 1 by omega,
              List.getElem?_cons_succ, List.getElem?_cons_zero] at hgoal
            exact hgoal.symm
          · rename_i hentry
            rw [itemRequests_old (hslot.mpr hentry), show s.pmm.freePageCount = 0 by omega,
              List.getElem?_cons_zero] at hgoal
            exact hgoal.symm
      | @copied s' hcount hslots' =>
          right
          right
          obtain ⟨role', hspec⟩ := pageCopied_of_next hfoot.frames hd hfromdir (by omega) hpage hcall
          have hpgd := copyRound_kernelPgd hcall
          have hfoot' := hfoot.pageCopied h₀ hto hspec hpgd
          refine ⟨a + 2 ^ 12, s', by rw [add_PGSIZE_eq], le_rfl, by omega, ⟨by omega, by omega⟩, ⟨role', hfoot'⟩,
            hmm.pageCopied hd ha hvma ⟨hstart, hmore⟩ hspec hslots', ?_, ?_⟩
          · intro i j h1 h2
            have hi' : i.val < 768 := by
              unfold pageAddr at h2
              omega
            obtain ⟨_, _, -, -, -, -, hlook⟩ := hspec.copy
            rw [hlook mm.dir i j hd hi', if_neg]
            · exact habsent i j (by omega) h2
            · rintro ⟨-, hij⟩
              have := (pageAddr_eq_iff ha i j).mpr hij
              omega
          · unfold pageNeed at hcount
            by_cases hentry : s.entry mm.dir (pgdIndex (BitVec.ofNat 32 a)) = none
            · -- The page table is new as well.
              refine ⟨pgdIndex (BitVec.ofNat 32 a) :: slots, ?_, ?_⟩
              · intro i hi'
                rw [hslots' i, List.mem_cons, hslots i hi', or_comm]
              · rw [if_pos hentry] at hcount
                rw [hcount, itemRequests_new (by simp [hslot, hentry]), List.getElem?_cons_succ,
                  List.getElem?_cons_succ] at hgoal
                exact hgoal
            · refine ⟨slots, ?_, ?_⟩
              · intro i hi'
                rw [hslots' i, hslots i hi']
                refine ⟨Or.inl, ?_⟩
                rintro (h | rfl)
                · exact h
                · exact hentry
              · rw [if_neg hentry] at hcount
                rw [hcount, itemRequests_old (hslot.mpr hentry), List.getElem?_cons_succ] at hgoal
                exact hgoal

/-- How a routine ends that a refused request may stop. -/
inductive CopyEnd (lo hi : Nat) (s₀ : Machine) (role₀ : Nat → Role) (dirs own : Set Nat) (mm : MemMap)
    (tail : List DupItem) (goal : Option Request) : Res (Int × Machine) → Prop
  | noFrame (msg : String) (hgoal : goal = some .frame) :
      CopyEnd lo hi s₀ role₀ dirs own mm tail goal (.error (.panic msg))
  | noTable {s : Machine} {role : Nat → Role} (hgoal : goal = some .table)
      (hfoot : Footprint lo hi s₀ role₀ dirs own s role) (hmm : Contained s mm) :
      CopyEnd lo hi s₀ role₀ dirs own mm tail goal (.ok (-E_NOMEM, s))
  | done {s : Machine} {role : Nat → Role} {slots : List (Fin 1024)}
      (hfoot : Footprint lo hi s₀ role₀ dirs own s role) (hmm : Contained s mm)
      (hslots : TableSlots s mm.dir slots) (hgoal : (itemRequests tail slots)[s.pmm.freePageCount]? = goal) :
      CopyEnd lo hi s₀ role₀ dirs own mm tail goal (.ok (0, s))

/-- `copy_range` for one area, with the requests `tail` to follow. -/
theorem copyRange_refused (h₀ : Frames lo hi s₀ role₀) {mm : MemMap} (hto : mm.dir ∈ dirs) {fromDir : Nat}
    (hfrom : role₀ fromDir = .dir) {vma : VirtMemArea} (hvma : vma ∈ mm.vmaList)
    (hrange : UserRange vma.vmStart vma.vmEnd) {tail : List DupItem} {goal : Option Request}
    (h : RangeState lo hi s₀ role₀ dirs own mm fromDir vma.vmEnd.toNat tail goal vma.vmStart.toNat s) :
    CopyEnd lo hi s₀ role₀ dirs own mm tail goal (copyRange s mm.dir fromDir vma.vmStart vma.vmEnd) := by
  have htop := hrange.le_top
  unfold copyRange
  rw [if_neg (not_not.mpr ⟨hrange.start_aligned, hrange.stop_aligned⟩), hrange.user]
  simp only [Bool.not_true, Bool.false_eq_true, if_false]
  let P : Nat → Machine → Prop := fun a sa => vma.vmStart.toNat ≤ a ∧
    RangeState lo hi s₀ role₀ dirs own mm fromDir vma.vmEnd.toNat tail goal a sa
  let Q : Int → Machine → Prop := fun code sa => code = -E_NOMEM ∧ goal = some .table ∧
    (∃ role, Footprint lo hi s₀ role₀ dirs own sa role) ∧ Contained sa mm
  have hrule := rangeLoop_rule (copyRound mm.dir fromDir) vma.vmEnd P Q
    (fun e => (∃ msg, e = .panic msg) ∧ goal = some .frame) ?_ rangeFuel (s := s) (a := vma.vmStart.toNat)
    ⟨le_rfl, h⟩ hrange.lt ?_
  · rw [BitVec.ofNat_toNat, BitVec.setWidth_eq] at hrule
    rcases hrule with ⟨e, he, ⟨msg, rfl⟩, hgoal⟩ | ⟨code, s', hok, hend⟩
    · rw [he]
      exact .noFrame msg hgoal
    · rw [hok]
      rcases hend with ⟨rfl, hgoal, ⟨role, hfoot⟩, hmm⟩ | ⟨rfl, a', ha', -, hstate⟩
      · exact .noTable hgoal hfoot hmm
      · obtain ⟨-, ⟨role, hfoot⟩, hmm, -, slots, hslots, hgoal⟩ := hstate
        rw [show (vma.vmEnd.toNat - a') / 2 ^ 12 = 0 by omega] at hgoal
        exact .done hfoot hmm hslots hgoal
  · rintro a sa ⟨hstart, hstate⟩ hmore
    rcases copyRound_refused h₀ hto hfrom hvma hrange hstate hstart hmore with
      ⟨e, he, hmsg, hgoal⟩ | ⟨hret, hgoal⟩ | ⟨a', s', hnext, hle, hlt, hstate'⟩
    · exact Or.inl ⟨e, he, hmsg, hgoal⟩
    · exact Or.inr (Or.inl ⟨_, sa, hret, rfl, hgoal, hstate.footprint, hstate.contained⟩)
    · exact Or.inr (Or.inr ⟨a', s', hnext, hle, hlt, by omega, hstate'⟩)
  · unfold rangeFuel
    omega

/-- `kmalloc` of one page. -/
theorem kmalloc_count (h : s.pmm.Inv lo hi) (bytes : U32) (hone : pagesOf bytes = 1) :
    (s.pmm.freePageCount = 0 ∧ kmalloc s bytes = .error .wildPointer) ∨
      ∃ p m, kmalloc s bytes = .ok (page2kva p, { s with pmm := m }) ∧
        s.pmm.freePageCount = m.freePageCount + 1 := by
  unfold kmalloc
  rw [hone]
  rcases allocPhyPages_count h with ⟨hzero, halloc⟩ | ⟨p, m, halloc, hcount⟩
  · left
    rw [halloc]
    exact ⟨hzero, rfl⟩
  · right
    rw [halloc]
    exact ⟨p, m, rfl, hcount⟩

/-- A map that is being filled: it has its directory, its areas are in order, and its structures are in
blocks of their own. -/
structure Filling (lo hi : Nat) (s₀ : Machine) (role₀ : Nat → Role) (dirs own : Set Nat) (p : Nat) (mm : MemMap)
    (s : Machine) : Prop where
  footprint : ∃ role, Footprint lo hi s₀ role₀ dirs own s role
  dir : mm.dir ∈ dirs
  ref : mm.ref = 0
  inv : mm.Inv
  contained : Contained s mm
  blocks : MapBlocks own p mm

/-- How `dup_mm` ends. -/
inductive DupEnd (lo hi : Nat) (s₀ : Machine) (role₀ : Nat → Role) (dirs rest : Set Nat) (p : Nat)
    (pgdir : U32) (goal : Option Request) : Res (Int × Machine × MemMap) → Prop
  | stopped (e : Fault) (hgoal : goal = some .area ∨ goal = some .frame) :
      DupEnd lo hi s₀ role₀ dirs rest p pgdir goal (.error e)
  | noTable {s : Machine} {mm : MemMap} {own : Set Nat} (hgoal : goal = some .table)
      (hmm : Filling lo hi s₀ role₀ dirs own p mm s) (hpgdir : mm.pgdir = pgdir)
      (hrest : own \ areaPages mm.vmaList = rest) :
      DupEnd lo hi s₀ role₀ dirs rest p pgdir goal (.ok (-E_NOMEM, s, mm))
  | done {s : Machine} {mm : MemMap} {own : Set Nat} (hgoal : goal = none)
      (hmm : Filling lo hi s₀ role₀ dirs own p mm s) (hpgdir : mm.pgdir = pgdir)
      (hrest : own \ areaPages mm.vmaList = rest) :
      DupEnd lo hi s₀ role₀ dirs rest p pgdir goal (.ok (0, s, mm))

/-- A new area before all others, in a block that was free. -/
theorem Filling.insert (h : Filling lo hi s₀ role₀ dirs own p mm s) (vma : VirtMemArea) {m : Pmm} {q : Nat}
    (hfoot : Footprint lo hi s₀ role₀ dirs (own ∪ {q}) { s with pmm := m } role') (hq : q ∉ own)
    (hnode : vma.node = page2kva q) (hpage : vma.page = q) (hrange : UserRange vma.vmStart vma.vmEnd)
    (hsorted : SortedApart ((vma :: mm.vmaList).map VirtMemArea.extent)) :
    ∃ mm', insertVma mm vma = .ok mm' ∧ mm'.vmaList = vma :: mm.vmaList ∧ mm'.pgdir = mm.pgdir ∧
      Filling lo hi s₀ role₀ dirs (own ∪ {q}) p mm' { s with pmm := m } ∧
      (own ∪ {q}) \ areaPages mm'.vmaList = own \ areaPages mm.vmaList := by
  have hapart : ∀ v ∈ mm.vmaList, vma.vmEnd.toNat ≤ v.vmStart.toNat := by
    intro v hv
    exact (List.pairwise_cons.mp hsorted.ordered).1 v.extent (List.mem_map_of_mem hv)
  have hlt := hrange.lt
  obtain ⟨mm', hcall⟩ : ∃ mm', insertVma mm vma = .ok mm' :=
    ⟨_, (insertVma_eq_ok_iff h.inv vma _).mpr ⟨hlt, fun v hv => Or.inl (hapart v hv), rfl⟩⟩
  have hfront : ∀ v ∈ mm.vmaList, vma.vmStart < v.vmStart := by
    intro v hv
    have := hapart v hv
    rw [BitVec.lt_def]
    omega
  obtain ⟨hlist, hdir⟩ := insertVma_front hfront hcall
  obtain ⟨-, -, hmm'⟩ := (insertVma_eq_ok_iff h.inv vma mm').mp hcall
  have hpgdir : mm'.pgdir = mm.pgdir := by rw [hmm']
  have href : mm'.ref = mm.ref := by rw [hmm']
  have hold : ∀ v ∈ mm.vmaList, v.page ≠ q := by
    rintro v hv rfl
    exact hq (h.blocks.areas v hv).2
  refine ⟨mm', hcall, hlist, hpgdir, ⟨⟨role', hfoot⟩, hdir ▸ h.dir, href.trans h.ref,
    insertVma_inv h.inv hcall, ⟨?_, ?_, ?_⟩, ⟨Or.inl h.blocks.map, ?_, ?_, ?_⟩⟩, ?_⟩
  all_goals rw [hlist]
  · intro v hv
    rcases List.mem_cons.mp hv with rfl | hv
    · exact hrange
    · exact h.contained.user v hv
  · intro i j hi' hsome
    rw [hdir] at hsome
    obtain ⟨v, hv, hij⟩ := h.contained.pages i j hi' hsome
    exact ⟨v, List.mem_cons_of_mem _ hv, hij⟩
  · intro i hi' hsome
    rw [hdir] at hsome
    obtain ⟨j, v, hv, hij⟩ := h.contained.slots i hi' hsome
    exact ⟨j, v, List.mem_cons_of_mem _ hv, hij⟩
  · intro v hv
    rcases List.mem_cons.mp hv with rfl | hv
    · exact ⟨hpage ▸ hnode, Or.inr hpage⟩
    · obtain ⟨h1, h2⟩ := h.blocks.areas v hv
      exact ⟨h1, Or.inl h2⟩
  · rw [List.map_cons, List.nodup_cons]
    refine ⟨?_, h.blocks.nodup⟩
    rw [List.mem_map]
    rintro ⟨v, hv, hvq⟩
    exact hold v hv (hvq.trans hpage)
  · rw [List.map_cons, List.mem_cons, not_or]
    refine ⟨?_, h.blocks.apart⟩
    rintro rfl
    exact hq (hpage ▸ h.blocks.map)
  · ext x
    simp only [areaPages, Set.mem_sdiff, Set.mem_union, Set.mem_singleton_iff, Set.mem_ofPred_eq,
      List.mem_cons, exists_eq_or_imp, hpage, not_or]
    constructor
    · rintro ⟨hx | hx, hne, hrest⟩
      · exact ⟨hx, hrest⟩
      · exact absurd hx hne
    · rintro ⟨hx, hrest⟩
      refine ⟨Or.inl hx, ?_, hrest⟩
      rintro rfl
      exact hq hx

/-- The loop of `dup_mm`, with the areas `areas` before it. -/
theorem dupLoop_refused (h₀ : Frames lo hi s₀ role₀) {fromDir : Nat} (hfrom : role₀ fromDir = .dir)
    (areas : List VirtMemArea) {mm : MemMap} {p : Nat} (h : Filling lo hi s₀ role₀ dirs own p mm s)
    (hsorted : SortedApart ((areas.reverse ++ mm.vmaList).map VirtMemArea.extent))
    (huser : ∀ vma ∈ areas, UserRange vma.vmStart vma.vmEnd) {slots : List (Fin 1024)}
    (hslots : TableSlots s mm.dir slots) {goal : Option Request}
    (hgoal : (itemRequests (areas.flatMap (areaItems s₀ fromDir)) slots)[s.pmm.freePageCount]? = goal) :
    DupEnd lo hi s₀ role₀ dirs (own \ areaPages mm.vmaList) p mm.pgdir goal (dupLoop fromDir areas s mm) := by
  induction areas generalizing s own mm slots with
  | nil =>
      refine .done ?_ h rfl rfl
      rw [← hgoal]
      rfl
  | cons pvma rest ih =>
      rw [List.reverse_cons, List.append_assoc, List.singleton_append] at hsorted
      obtain ⟨role, hfoot⟩ := h.footprint
      have hrange := huser pvma (by simp)
      rw [List.flatMap_cons] at hgoal
      unfold dupLoop vmaCreate
      rcases kmalloc_count hfoot.frames.pmm sizeofVirtMemArea rfl with ⟨hzero, hcall⟩ | ⟨p', m', hcall, -⟩
      · rw [hcall]
        refine .stopped _ (Or.inl ?_)
        rw [← hgoal, hzero]
        rfl
      obtain ⟨q, role', haddr, hq, hblock, hfoot', -, -, hcount⟩ := hfoot.kmalloc (by decide) hcall
      have hone : Set.Ico q (q + pagesOf sizeofVirtMemArea) = {q} := Ico_one q
      rw [hone] at hblock hfoot'
      have hqown : q ∉ own := by
        intro hc
        have := hblock q rfl
        simp [hfoot.role_of_own hc] at this
      let nvma : VirtMemArea := ⟨page2kva q, pvma.vmStart, pvma.vmEnd, pvma.vmFlags⟩
      have hextent : nvma.extent = pvma.extent := by simp only [VirtMemArea.extent, nvma]
      rw [List.map_append, List.map_cons, ← hextent, ← List.map_cons, ← List.map_append] at hsorted
      have htail : SortedApart ((nvma :: mm.vmaList).map VirtMemArea.extent) := by
        rw [List.map_append] at hsorted
        exact hsorted.append_right
      obtain ⟨mm', hinsert, hlist, hpgdir, hmm', hrest⟩ :=
        h.insert nvma hfoot' hqown rfl (shift_page2kva hq) hrange htail
      have hdir : mm'.dir = mm.dir := by
        unfold MemMap.dir
        rw [hpgdir]
      have hvma : nvma ∈ mm'.vmaList := by simp [hlist]
      rw [hcall, haddr, Res.ok_bind]
      simp only [pure, Except.pure, Res.ok_bind]
      rw [hinsert, Res.ok_bind]
      -- The new area shows nothing yet.
      have habsent : ∀ i j, pvma.vmStart.toNat ≤ pageAddr i j → pageAddr i j < pvma.vmEnd.toNat →
          target (look s mm'.dir i j) = none := by
        intro i j h1 h2
        rw [hdir]
        by_contra hc
        have htop := hrange.le_top
        have hi' : i.val < 768 := by
          unfold pageAddr at h2
          omega
        obtain ⟨v, hv, h3, -⟩ := h.contained.pages i j hi' hc
        have := (List.pairwise_cons.mp htail.ordered).1 v.extent (List.mem_map_of_mem hv)
        have hle : pvma.vmEnd.toNat ≤ v.vmStart.toNat := this
        omega
      have hstate : RangeState lo hi s₀ role₀ dirs (own ∪ {q}) mm' fromDir nvma.vmEnd.toNat
          (rest.flatMap (areaItems s₀ fromDir)) goal nvma.vmStart.toNat { s with pmm := m' } := by
        refine ⟨hrange.aligned, hmm'.footprint, hmm'.contained, habsent, slots, ?_, ?_⟩
        · rw [hdir]
          exact hslots
        · rw [show s.pmm.freePageCount = m'.freePageCount + 1 from hcount] at hgoal
          exact hgoal
      have hend := copyRange_refused h₀ hmm'.dir hfrom hvma hrange hstate
      have hcopy : copyRange { s with pmm := m' } mm'.dir fromDir nvma.vmStart nvma.vmEnd =
          copyRange { s with pmm := m' } mm'.dir fromDir pvma.vmStart pvma.vmEnd := rfl
      rw [← hcopy]
      generalize copyRange { s with pmm := m' } mm'.dir fromDir nvma.vmStart nvma.vmEnd = result at hend ⊢
      cases hend with
      | noFrame msg hframe => exact .stopped _ (Or.inr hframe)
      | @noTable s₂ role₂ htable hfoot₂ hmm₂ =>
          exact .noTable htable ⟨⟨role₂, hfoot₂⟩, hmm'.dir, hmm'.ref, hmm'.inv, hmm₂, hmm'.blocks⟩ hpgdir hrest
      | @done s₂ role₂ slots₂ hfoot₂ hmm₂ hslots₂ hgoal₂ =>
          have hfill : Filling lo hi s₀ role₀ dirs (own ∪ {q}) p mm' s₂ :=
            ⟨⟨role₂, hfoot₂⟩, hmm'.dir, hmm'.ref, hmm'.inv, hmm₂, hmm'.blocks⟩
          have hend := ih hfill (by rw [hlist]; exact hsorted) (fun v hv => huser v (by simp [hv])) hslots₂ hgoal₂
          rw [hrest, hpgdir] at hend
          exact hend

end Loops

end Memory
end FreakOS
