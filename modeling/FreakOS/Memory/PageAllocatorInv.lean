import FreakOS.Memory.PageAllocator

/-!
# The allocator keeps its free list disjoint and coalesced

One specification lemma for each allocator operation, and from them the invariant of every run.

* `ffAllocPages_spec` — a block is cut off the front of a free block, or nothing changes.
* `ffFreePages_spec` — a block that is in use comes back; `mergeLoop_eq_absorb` relates the loop of the
  code, which re-bases `base` and deletes the node it stands on, to `Lib.absorb`.
* `ff_run_invariant` — the invariant after any sequence of calls.
-/

namespace FreakOS
namespace Memory

open Lib
open Lib.Extent

theorem reserved_ne_property : PGP_reserved ≠ PGP_property := by decide

/-! ### The two page loops -/

theorem memmapInitLoop_apply (pages : Nat → PhyPageBlock) (p n q : Nat) :
    memmapInitLoop pages p n q =
      if p ≤ q ∧ q < p + n ∧ (pages q).flags ≠ 0 then ⟨0, 0, 0⟩ else pages q := by
  induction n generalizing pages p with
  | zero =>
      rw [if_neg (by omega)]
      rfl
  | succ n ih =>
      unfold memmapInitLoop
      rw [ih]
      by_cases hq : q = p
      · subst hq
        rw [if_neg (by omega)]
        by_cases hflags : (pages q).flags ≠ 0
        · rw [if_pos hflags, if_pos ⟨le_rfl, by omega, hflags⟩, Function.update_self]
        · rw [if_neg hflags, if_neg (fun h => hflags h.2.2)]
      · have hsame : (if (pages p).flags ≠ 0 then Function.update pages p ⟨0, 0, 0⟩ else pages) q
            = pages q := by
          split
          · exact Function.update_of_ne hq _ _
          · rfl
        rw [hsame]
        by_cases hin : p ≤ q ∧ q < p + (n + 1) ∧ (pages q).flags ≠ 0
        · rw [if_pos hin, if_pos ⟨by omega, by omega, hin.2.2⟩]
        · rw [if_neg hin, if_neg (fun h => hin ⟨by omega, by omega, h.2.2⟩)]

/-- The page array after the first loop of `ff_free_pages`. -/
def clearPages (pages : Nat → PhyPageBlock) (p n : Nat) (q : Nat) : PhyPageBlock :=
  if p ≤ q ∧ q < p + n then { pages q with flags := 0, ref := 0 } else pages q

/-- Pages that are neither reserved nor heads of free blocks pass the check of the first loop. -/
theorem clearLoop_eq_ok (pages : Nat → PhyPageBlock) (p n : Nat)
    (hflags : ∀ q, p ≤ q → q < p + n →
      getBit (pages q).flags PGP_reserved = 0 ∧ getBit (pages q).flags PGP_property = 0) :
    clearLoop pages p n = .ok (clearPages pages p n) := by
  induction n generalizing pages p with
  | zero =>
      have : clearPages pages p 0 = pages := by
        funext q
        unfold clearPages
        rw [if_neg (by omega)]
      rw [this]
      rfl
  | succ n ih =>
      have hp := hflags p le_rfl (by omega)
      unfold clearLoop
      rw [if_neg (by simp [hp.1, hp.2]), ih]
      · congr 1
        funext q
        unfold clearPages
        by_cases hq : q = p
        · subst hq
          rw [if_neg (by omega), if_pos (by omega), Function.update_self]
        · by_cases hin : p ≤ q ∧ q < p + (n + 1)
          · rw [if_pos (by omega), if_pos hin, Function.update_of_ne hq]
          · rw [if_neg (by omega), if_neg hin, Function.update_of_ne hq]
      · intro q hq hq'
        rw [Function.update_of_ne (by omega)]
        exact hflags q (by omega) (by omega)

/-! ### Merging -/

/-- What `mergeLoop` does to the page array, next to what it returns. -/
structure MergeSpec (pages : Nat → PhyPageBlock) (base : Nat) (xs : List Nat)
    (r : (Nat → PhyPageBlock) × Nat × List Nat) : Prop where
  /-- The merged block and the remaining blocks are those of `absorb`. -/
  absorbed : (blockAt r.1 r.2.1, r.2.2.map (blockAt r.1)) =
    absorb (blockAt pages base) (xs.map (blockAt pages))
  /-- The resulting nodes were there before, each at most once. -/
  subset : ∀ q ∈ r.2.1 :: r.2.2, q ∈ base :: xs
  nodup : (r.2.1 :: r.2.2).Nodup
  /-- Only nodes that are given up lose their head bit. -/
  flags : ∀ q, (r.1 q).flags = if q ∈ base :: xs ∧ q ∉ r.2.1 :: r.2.2 then
    clearBit (pages q).flags PGP_property else (pages q).flags
  ref : ∀ q, (r.1 q).ref = (pages q).ref
  untouched : ∀ q, q ∉ base :: xs → r.1 q = pages q

theorem blockAt_congr {pages pages' : Nat → PhyPageBlock} {q : Nat}
    (h : (pages q).property = (pages' q).property) : blockAt pages q = blockAt pages' q := by
  simp [blockAt, h]

section MergeBlocks

variable {pages : Nat → PhyPageBlock} {taker donor : Nat}

theorem mergeBlocks_other {q : Nat} (ht : q ≠ taker) (hd : q ≠ donor) :
    mergeBlocks pages taker donor q = pages q := by
  simp [mergeBlocks, Function.update_of_ne ht, Function.update_of_ne hd]

theorem mergeBlocks_taker (h : taker ≠ donor) :
    mergeBlocks pages taker donor taker = { pages taker with
      property := (pages taker).property + (pages donor).property } := by
  simp [mergeBlocks, Function.update_of_ne h]

theorem mergeBlocks_donor (h : taker ≠ donor) :
    mergeBlocks pages taker donor donor = { pages donor with
      flags := clearBit (pages donor).flags PGP_property } := by
  simp [mergeBlocks, Function.update_of_ne h.symm]

theorem mergeBlocks_ref (q : Nat) : (mergeBlocks pages taker donor q).ref = (pages q).ref := by
  unfold mergeBlocks
  by_cases hd : q = donor
  · subst hd
    by_cases ht : q = taker
    · subst ht
      simp
    · simp [Function.update_of_ne ht]
  · by_cases ht : q = taker
    · subst ht
      simp [Function.update_of_ne hd]
    · simp [Function.update_of_ne ht, Function.update_of_ne hd]

end MergeBlocks

/-- A merge step in front of a loop that meets its specification.  `taker` and `donor` are `base` and the
visited node `p`, in one order or the other. -/
theorem MergeSpec.of_mergeBlocks {pages : Nat → PhyPageBlock} {base p taker donor : Nat}
    {rest : List Nat} {r : (Nat → PhyPageBlock) × Nat × List Nat}
    (hpair : (taker = base ∧ donor = p) ∨ (taker = p ∧ donor = base))
    (hnodup : (base :: p :: rest).Nodup)
    (habsorb : absorb (blockAt (mergeBlocks pages taker donor) taker) (rest.map (blockAt pages)) =
      absorb (blockAt pages base) ((p :: rest).map (blockAt pages)))
    (hspec : MergeSpec (mergeBlocks pages taker donor) taker rest r) :
    MergeSpec pages base (p :: rest) r := by
  simp only [List.nodup_cons, List.mem_cons, not_or] at hnodup
  obtain ⟨⟨hbp, hbrest⟩, hprest, -⟩ := hnodup
  have hne : taker ≠ donor := by
    rcases hpair with ⟨rfl, rfl⟩ | ⟨rfl, rfl⟩
    · exact hbp
    · exact Ne.symm hbp
  have hmem : ∀ q, q ∈ base :: p :: rest ↔ q = donor ∨ q ∈ taker :: rest := by
    intro q
    rcases hpair with ⟨rfl, rfl⟩ | ⟨rfl, rfl⟩
    · simp [or_left_comm]
    · simp
  have hdonor : donor ∉ taker :: rest := by
    rcases hpair with ⟨rfl, rfl⟩ | ⟨rfl, rfl⟩
    · simp [Ne.symm hbp, hprest]
    · simp [hbp, hbrest]
  have hdout : donor ∉ r.2.1 :: r.2.2 := fun h => hdonor (hspec.subset donor h)
  refine ⟨?_, ?_, hspec.nodup, ?_, ?_, ?_⟩
  · rw [hspec.absorbed, ← habsorb]
    congr 1
    apply List.map_congr_left
    intro q hq
    apply blockAt_congr
    have hqd : q ≠ donor := fun h => hdonor (h ▸ List.mem_cons_of_mem _ hq)
    by_cases hqt : q = taker
    · subst hqt
      rcases hpair with ⟨rfl, rfl⟩ | ⟨rfl, rfl⟩
      · exact absurd hq hbrest
      · exact absurd hq hprest
    · rw [mergeBlocks_other hqt hqd]
  · intro q hq
    exact (hmem q).mpr (Or.inr (hspec.subset q hq))
  · intro q
    rw [hspec.flags q]
    by_cases hqd : q = donor
    · subst hqd
      rw [if_neg (fun h => hdonor h.1), if_pos ⟨(hmem q).mpr (Or.inl rfl), hdout⟩,
        mergeBlocks_donor hne]
    · have hflag : (mergeBlocks pages taker donor q).flags = (pages q).flags := by
        by_cases hqt : q = taker
        · subst hqt
          rw [mergeBlocks_taker hne]
        · rw [mergeBlocks_other hqt hqd]
      simp only [hflag, hmem q, hqd, false_or]
  · intro q
    rw [hspec.ref q, mergeBlocks_ref]
  · intro q hq
    rw [hmem q, not_or] at hq
    have hqt : q ≠ taker := fun h => hq.2 (by simp [h])
    rw [hspec.untouched q hq.2, mergeBlocks_other hqt hq.1]

/-- The loop of the code computes `absorb`. -/
theorem mergeLoop_eq_absorb (pages : Nat → PhyPageBlock) (base : Nat) (xs : List Nat)
    (hnodup : (base :: xs).Nodup) :
    MergeSpec pages base xs (mergeLoop pages base xs) := by
  induction xs generalizing pages base with
  | nil =>
      exact ⟨rfl, by simp [mergeLoop], by simp [mergeLoop], by simp [mergeLoop],
        fun _ => rfl, fun _ _ => rfl⟩
  | cons p rest ih =>
      have hparts := hnodup
      simp only [List.nodup_cons, List.mem_cons, not_or] at hparts
      obtain ⟨⟨hbp, hbrest⟩, hprest, hrest⟩ := hparts
      unfold mergeLoop
      split
      · rename_i hdown
        refine MergeSpec.of_mergeBlocks (Or.inl ⟨rfl, rfl⟩) hnodup ?_
          (ih _ base (List.nodup_cons.mpr ⟨hbrest, hrest⟩))
        have hblock : blockAt (mergeBlocks pages base p) base =
            ⟨(blockAt pages base).lo, (blockAt pages p).hi⟩ := by
          simp only [blockAt, mergeBlocks_taker hbp]
          congr 1
          omega
        rw [hblock]
        simp [absorb, blockAt, hdown]
      · rename_i hdown
        split
        · rename_i hup
          refine MergeSpec.of_mergeBlocks (Or.inr ⟨rfl, rfl⟩) hnodup ?_
            (ih _ p (List.nodup_cons.mpr ⟨hprest, hrest⟩))
          have hblock : blockAt (mergeBlocks pages p base) p =
              ⟨(blockAt pages p).lo, (blockAt pages base).hi⟩ := by
            simp only [blockAt, mergeBlocks_taker (Ne.symm hbp)]
            congr 1
            omega
          rw [hblock]
          simp [absorb, blockAt, hdown, hup]
        · -- No contact: `p` stays on the list, and the rest of the loop does not touch it.
          rename_i hup
          have hspec := ih pages base (List.nodup_cons.mpr ⟨hbrest, hrest⟩)
          set r := mergeLoop pages base rest with hr
          have hpin : p ∉ base :: rest := by simp [Ne.symm hbp, hprest]
          have hpout : p ∉ r.2.1 :: r.2.2 := fun h => hpin (hspec.subset p h)
          have hpsame : r.1 p = pages p := hspec.untouched p hpin
          simp only [List.mem_cons, not_or] at hpout
          have hn := List.nodup_cons.mp hspec.nodup
          refine ⟨?_, ?_, ?_, ?_, hspec.ref, ?_⟩
          · have hfst := congrArg Prod.fst hspec.absorbed
            have hsnd := congrArg Prod.snd hspec.absorbed
            dsimp only at hfst hsnd ⊢
            rw [List.map_cons, hfst, hsnd, blockAt_congr (congrArg PhyPageBlock.property hpsame)]
            simp [absorb, blockAt, hdown, hup]
          · intro q hq
            have hq' : q = p ∨ q ∈ r.2.1 :: r.2.2 := by
              simpa [or_left_comm] using hq
            rcases hq' with rfl | hq'
            · simp
            · rcases List.mem_cons.mp (hspec.subset q hq') with h | h
              · simp [h]
              · simp [h]
          · refine List.nodup_cons.mpr ⟨?_, List.nodup_cons.mpr ⟨hpout.2, hn.2⟩⟩
            simp only [List.mem_cons, not_or]
            exact ⟨Ne.symm hpout.1, hn.1⟩
          · intro q
            dsimp only
            rw [hspec.flags q]
            by_cases hqp : q = p
            · subst hqp
              rw [if_neg (fun h => hpin h.1), if_neg (by simp)]
            · simp only [List.mem_cons, hqp, false_or]
          · intro q hq
            simp only [List.mem_cons, not_or] at hq
            exact hspec.untouched q (by simp [hq.1, hq.2.2])

/-! ### Facts about the invariant -/

namespace Pmm.Inv

variable {m : Pmm} {lo hi : Nat}

theorem pos (h : m.Inv lo hi) {p : Nat} (hp : p ∈ m.freeArea) : 0 < (m.pages p).property := by
  have := h.coalesced.nonempty (blockAt m.pages p) (List.mem_map_of_mem hp)
  simp only [blockAt] at this
  omega

theorem nodup (h : m.Inv lo hi) : m.freeArea.Nodup := by
  have hapart := List.pairwise_map.mp h.coalesced.apart
  refine hapart.imp_of_mem ?_
  intro a b ha _ hab heq
  subst heq
  have := h.pos ha
  simp only [Apart, blockAt] at hab
  omega

/-- A free page lies in the managed range. -/
theorem managed_of_free (h : m.Inv lo hi) {x : Nat} (hx : m.Free x) : lo ≤ x ∧ x < hi := by
  obtain ⟨i, hi', hix⟩ := hx
  obtain ⟨p, hp, rfl⟩ := List.mem_map.mp hi'
  have := h.inside p hp
  simp only [blockAt, Contains] at hix
  omega

/-- The head of a free block is free. -/
theorem free_of_mem (h : m.Inv lo hi) {p : Nat} (hp : p ∈ m.freeArea) : m.Free p := by
  have := h.pos hp
  exact ⟨blockAt m.pages p, List.mem_map_of_mem hp, ⟨le_rfl, by simp only [blockAt]; omega⟩⟩

/-- Two nodes of the list are equal once the head of one lies in the block of the other. -/
theorem eq_of_contains (h : m.Inv lo hi) {p q : Nat} (hp : p ∈ m.freeArea) (hq : q ∈ m.freeArea)
    (hpq : p ≤ q) (hqp : q < p + (m.pages p).property) : p = q := by
  by_contra hne
  obtain ⟨as, bs, hsplit⟩ := List.append_of_mem hp
  have hq' : q ∈ as ++ bs := by
    rw [hsplit] at hq
    simpa [Ne.symm hne] using hq
  have hperm : m.blocks.Perm (blockAt m.pages p :: (as ++ bs).map (blockAt m.pages)) := by
    unfold Pmm.blocks
    rw [hsplit]
    simp [List.perm_middle]
  have hapart := (coalesced_cons_iff.mp (h.coalesced.perm hperm)).2.1 _ (List.mem_map_of_mem hq')
  have := h.pos hq
  simp only [Apart, blockAt] at hapart
  omega

end Pmm.Inv

/-! ### Allocation -/

/-- What a successful `ff_alloc_pages(n)` that returns page `p` does. -/
structure AllocSpec (m : Pmm) (lo hi n p : Nat) (m' : Pmm) : Prop where
  inv : m'.Inv lo hi
  inside : lo ≤ p ∧ p + n ≤ hi
  free : ∀ x, m.Free x ↔ m'.Free x ∨ (p ≤ x ∧ x < p + n)
  taken : ∀ x, p ≤ x → x < p + n → ¬ m'.Free x
  count : m.freePageCount = m'.freePageCount + n
  ref : ∀ x, (m'.pages x).ref = (m.pages x).ref
  outside : ∀ x, ¬ (lo ≤ x ∧ x < hi) → m'.pages x = m.pages x

/-- The state after the front of block `page` has been handed out, with `as` and `bs` the nodes before
and behind it. -/
def takeFront (m : Pmm) (n page : Nat) (as bs : List Nat) : Pmm :=
  let rest := page + n
  let split := (m.pages page).property > n
  let pages₁ :=
    if split then
      Function.update m.pages rest { m.pages rest with
        property := (m.pages page).property - n
        flags := setBit (m.pages rest).flags PGP_property }
    else m.pages
  { pages := Function.update pages₁ page { pages₁ page with
      property := n, flags := clearBit (pages₁ page).flags PGP_property }
    freeArea := if split then as ++ rest :: bs else as ++ bs
    freePageCount := m.freePageCount - n }

theorem takeFront_spec {m : Pmm} {lo hi n page : Nat} {as bs : List Nat} (h : m.Inv lo hi)
    (hn : 0 < n) (hlist : m.freeArea = as ++ page :: bs) (hfit : n ≤ (m.pages page).property) :
    AllocSpec m lo hi n page (takeFront m n page as bs) := by
  have hmem : page ∈ m.freeArea := by simp [hlist]
  have hin := h.inside page hmem
  have hnodup := h.nodup
  rw [hlist] at hnodup
  have hout : page ∉ as ++ bs := (List.nodup_middle.mp hnodup).notMem
  have hsub : ∀ q ∈ as ++ bs, q ∈ m.freeArea := by
    intro q hq
    rw [hlist]
    rcases List.mem_append.mp hq with hq | hq
    · simp [hq]
    · simp [hq]
  -- The remainder's head is no node of the old list: it lies strictly inside the old block.
  have hrest : (m.pages page).property > n → page + n ∉ m.freeArea := by
    intro hgt hq
    have := h.eq_of_contains hmem hq (by omega) (by omega)
    omega
  have hpages : ∀ q, q ≠ page → q ≠ page + n →
      (takeFront m n page as bs).pages q = m.pages q := by
    intro q hqp hqr
    simp only [takeFront, Function.update_of_ne hqp]
    split
    · rw [Function.update_of_ne hqr]
    · rfl
  have hpage : (takeFront m n page as bs).pages page = { m.pages page with
      property := n, flags := clearBit (m.pages page).flags PGP_property } := by
    simp only [takeFront, Function.update_self]
    split
    · rw [Function.update_of_ne (by omega)]
    · rfl
  have hothers : (as ++ bs).map (blockAt (takeFront m n page as bs).pages) =
      (as ++ bs).map (blockAt m.pages) := by
    apply List.map_congr_left
    intro q hq
    have hqp : q ≠ page := fun heq => hout (heq ▸ hq)
    apply blockAt_congr
    simp only [takeFront, Function.update_of_ne hqp]
    split
    · rename_i hgt
      have hqr : q ≠ page + n := fun heq => hrest hgt (heq ▸ hsub q hq)
      rw [Function.update_of_ne hqr]
    · rfl
  have hperm : m.blocks.Perm (blockAt m.pages page :: (as ++ bs).map (blockAt m.pages)) := by
    unfold Pmm.blocks
    rw [hlist]
    simp [List.perm_middle]
  have hperm' : (takeFront m n page as bs).blocks.Perm
      (cutFront n (blockAt m.pages page) ++ (as ++ bs).map (blockAt m.pages)) := by
    rw [← hothers]
    by_cases hgt : (m.pages page).property > n
    · have hcut : cutFront n (blockAt m.pages page) =
          [blockAt (takeFront m n page as bs).pages (page + n)] := by
        have hval : (takeFront m n page as bs).pages (page + n) = { m.pages (page + n) with
            property := (m.pages page).property - n
            flags := setBit (m.pages (page + n)).flags PGP_property } := by
          have hne : page + n ≠ page := by omega
          simp [takeFront, hgt, Function.update_of_ne hne]
        rw [cutFront_of_lt (by simp only [blockAt]; omega)]
        simp only [blockAt, hval]
        congr 2
        omega
      have hlist' : (takeFront m n page as bs).freeArea = as ++ (page + n) :: bs := by
        simp [takeFront, hgt]
      unfold Pmm.blocks
      rw [hcut, hlist']
      simp [List.perm_middle]
    · have hcut : cutFront n (blockAt m.pages page) = [] :=
        cutFront_of_le (by simp only [blockAt]; omega)
      have hlist' : (takeFront m n page as bs).freeArea = as ++ bs := by
        simp [takeFront, hgt]
      unfold Pmm.blocks
      rw [hcut, hlist']
      simp
  have hcoal := h.coalesced.perm hperm
  have hle : (blockAt m.pages page).lo + n ≤ (blockAt m.pages page).hi := by
    simp only [blockAt]
    omega
  have htotal : total m.blocks = total (takeFront m n page as bs).blocks + n := by
    rw [total_perm hperm, total_perm hperm', total_cutFront hle]
  refine ⟨⟨?_, ?_, ?_, ?_, ?_⟩, ⟨hin.1, by omega⟩, ?_, ?_, ?_, ?_, ?_⟩
  · exact (coalesced_cutFront hcoal).perm hperm'.symm
  · intro q hq
    have hblock : blockAt (takeFront m n page as bs).pages q ∈
        cutFront n (blockAt m.pages page) ++ (as ++ bs).map (blockAt m.pages) :=
      hperm'.mem_iff.mp (List.mem_map_of_mem hq)
    rcases List.mem_append.mp hblock with hb | hb
    · unfold cutFront at hb
      split at hb
      · have hb' := List.mem_singleton.mp hb
        have hlo := congrArg Extent.lo hb'
        have hhi := congrArg Extent.hi hb'
        simp only [blockAt] at hlo hhi
        omega
      · simp at hb
    · obtain ⟨q', hq', heq⟩ := List.mem_map.mp hb
      have hlo := congrArg Extent.lo heq
      have hhi := congrArg Extent.hi heq
      have := h.inside q' (hsub q' hq')
      simp only [blockAt] at hlo hhi
      omega
  · intro q hqlo hqhi
    by_cases hqp : q = page
    · subst hqp
      have hnot : q ∉ (takeFront m n q as bs).freeArea := by
        simp only [List.mem_append, not_or] at hout
        simp only [takeFront]
        split
        · simp [hout.1, hout.2, show n ≠ 0 by omega]
        · simp [hout.1, hout.2]
      rw [hpage, getBit_eq_one_iff]
      simp [hnot]
    · by_cases hgt : (m.pages page).property > n
      · by_cases hqr : q = page + n
        · subst hqr
          rw [getBit_eq_one_iff]
          simp [takeFront, hgt, Function.update_of_ne hqp, PGP_property]
        · rw [hpages q hqp hqr, h.head_bit q hqlo hqhi, hlist]
          simp [takeFront, hgt, hqp, hqr]
      · have hsame : (takeFront m n page as bs).pages q = m.pages q := by
          simp [takeFront, hgt, Function.update_of_ne hqp]
        rw [hsame, h.head_bit q hqlo hqhi, hlist]
        simp [takeFront, hgt, hqp]
  · intro q hqlo hqhi
    have hbit := h.not_reserved q hqlo hqhi
    rw [getBit_eq_zero_iff] at hbit ⊢
    by_cases hqp : q = page
    · subst hqp
      rw [hpage]
      simp [hbit]
    · by_cases hqr : q = page + n
      · subst hqr
        simp only [takeFront, Function.update_of_ne hqp]
        split
        · simp [hbit, reserved_ne_property]
        · exact hbit
      · rw [hpages q hqp hqr]
        exact hbit
  · have := h.count
    simp only [takeFront] at htotal ⊢
    omega
  · intro x
    unfold Pmm.Free
    rw [covers_perm hperm, covers_perm hperm', covers_cutFront hle]
    simp [blockAt]
  · intro x hlo hhi
    unfold Pmm.Free
    rw [covers_perm hperm']
    exact not_covers_cutFront hcoal hle hlo hhi
  · have := h.count
    simp only [takeFront]
    omega
  · intro x
    by_cases hxp : x = page
    · subst hxp
      rw [hpage]
    · by_cases hxr : x = page + n
      · subst hxr
        simp only [takeFront, Function.update_of_ne hxp]
        split
        · rw [Function.update_self]
        · rfl
      · rw [hpages x hxp hxr]
  · intro x hx
    have hxp : x ≠ page := by
      rintro rfl
      omega
    by_cases hgt : (m.pages page).property > n
    · exact hpages x hxp (by omega)
    · simp [takeFront, hgt, Function.update_of_ne hxp]

theorem ffAllocPages_spec {m m' : Pmm} {lo hi n p : Nat} (h : m.Inv lo hi)
    (hcall : ffAllocPages m n = .ok (some p, m')) : AllocSpec m lo hi n p m' := by
  unfold ffAllocPages at hcall
  split at hcall
  · simp at hcall
  · rename_i hn
    split at hcall
    · simp at hcall
    · cases hfind : m.freeArea.find? fun p => decide ((m.pages p).property ≥ n) with
      | none => simp [hfind] at hcall
      | some page =>
          obtain ⟨hfit, as, bs, hlist, -⟩ := List.find?_eq_some_iff_append.mp hfind
          have hfit' : n ≤ (m.pages page).property := by simpa using hfit
          have hout : page ∉ as := by
            have hnodup := h.nodup
            rw [hlist] at hnodup
            have := (List.nodup_middle.mp hnodup).notMem
            simp only [List.mem_append, not_or] at this
            exact this.1
          have heq : p = page ∧ m' = takeFront m n page as bs := by
            simp only [hfind, Except.ok.injEq, Prod.mk.injEq, Option.some.injEq] at hcall
            refine ⟨hcall.1.symm, hcall.2.symm.trans ?_⟩
            unfold takeFront
            by_cases hgt : (m.pages page).property > n
            · simp only [hgt, if_true]
              rw [hlist, listAddAfter_append hout, listDel_append hout]
            · simp only [hgt, if_false]
              rw [hlist, listDel_append hout]
          obtain ⟨rfl, rfl⟩ := heq
          exact takeFront_spec h (by omega) hlist hfit'

/-- A failed allocation changes nothing. -/
theorem ffAllocPages_none {m m' : Pmm} {n : Nat} (hcall : ffAllocPages m n = .ok (none, m')) :
    m' = m := by
  unfold ffAllocPages at hcall
  split at hcall
  · simp at hcall
  · split at hcall
    · simpa using hcall.symm
    · split at hcall
      · simpa using hcall.symm
      · simp at hcall

/-- `ff_alloc_pages(n)` panics only for `n = 0`. -/
theorem ffAllocPages_returns (m : Pmm) {n : Nat} (hn : 0 < n) :
    ∃ r, ffAllocPages m n = .ok r := by
  unfold ffAllocPages
  rw [if_neg (by omega)]
  split
  · exact ⟨_, rfl⟩
  · split
    · exact ⟨_, rfl⟩
    · exact ⟨_, rfl⟩

/-- A single page is available as long as any page is free. -/
theorem ffAllocPages_one {m : Pmm} {lo hi x : Nat} (h : m.Inv lo hi) (hx : m.Free x) :
    ∃ p m', ffAllocPages m 1 = .ok (some p, m') := by
  obtain ⟨i, hi', -⟩ := hx
  obtain ⟨p, hp, -⟩ := List.mem_map.mp hi'
  have hcount : ¬ 1 > m.freePageCount := by
    have hpos := h.pos hp
    have hle : (blockAt m.pages p).length ≤ total m.blocks :=
      List.single_le_sum (by simp) _ (List.mem_map_of_mem (List.mem_map_of_mem hp))
    have := h.count
    simp only [blockAt, Extent.length] at hle
    omega
  have hsome : (m.freeArea.find? fun p => decide ((m.pages p).property ≥ 1)).isSome := by
    rw [List.find?_isSome]
    exact ⟨p, hp, decide_eq_true (h.pos hp)⟩
  obtain ⟨page, hpage⟩ := Option.isSome_iff_exists.mp hsome
  unfold ffAllocPages
  rw [if_neg (by omega), if_neg hcount, hpage]
  exact ⟨_, _, rfl⟩

/-! ### Release -/

/-- What `ff_free_pages(base, n)` does to a block that is in use. -/
structure FreeSpec (m : Pmm) (lo hi base n : Nat) (m' : Pmm) : Prop where
  inv : m'.Inv lo hi
  free : ∀ x, m'.Free x ↔ m.Free x ∨ (base ≤ x ∧ x < base + n)
  count : m'.freePageCount = m.freePageCount + n
  ref : ∀ x, (m'.pages x).ref = if base ≤ x ∧ x < base + n then 0 else (m.pages x).ref
  outside : ∀ x, ¬ (lo ≤ x ∧ x < hi) → m'.pages x = m.pages x

theorem ffFreePages_spec {m : Pmm} {lo hi base n : Nat} (h : m.Inv lo hi) (hn : 0 < n)
    (hlo : lo ≤ base) (hhi : base + n ≤ hi)
    (hused : ∀ x, base ≤ x → x < base + n → ¬ m.Free x) :
    ∃ m', ffFreePages m base n = .ok m' ∧ FreeSpec m lo hi base n m' := by
  have hnotmem : ∀ x, base ≤ x → x < base + n → x ∉ m.freeArea :=
    fun x h1 h2 hmem => hused x h1 h2 (h.free_of_mem hmem)
  -- The check of the first loop passes: no page of the block is reserved or heads a free block.
  have hclear : clearLoop m.pages base n = .ok (clearPages m.pages base n) := by
    refine clearLoop_eq_ok m.pages base n ?_
    intro q h1 h2
    refine ⟨h.not_reserved q (by omega) (by omega), ?_⟩
    have hbit := (h.head_bit q (by omega) (by omega)).not.mpr (hnotmem q h1 h2)
    rw [getBit_eq_one_iff] at hbit
    rw [getBit_eq_zero_iff]
    simpa using hbit
  set cleared := clearPages m.pages base n with hcleared
  set head : PhyPageBlock := { cleared base with
    property := n, flags := setBit (cleared base).flags PGP_property } with hhead
  set pages := Function.update cleared base head with hpages
  set r := mergeLoop pages base m.freeArea with hr
  have hcall : ffFreePages m base n = .ok
      { pages := r.1, freePageCount := m.freePageCount + n, freeArea := listAdd r.2.1 r.2.2 } := by
    unfold ffFreePages
    rw [if_neg (by omega), hclear]
    rfl
  have hoff : ∀ q, ¬ (base ≤ q ∧ q < base + n) → pages q = m.pages q := by
    intro q hq
    rw [hpages, Function.update_of_ne (by omega), hcleared]
    exact if_neg hq
  have hlist : ∀ q ∈ m.freeArea, pages q = m.pages q :=
    fun q hq => hoff q (fun hin => hnotmem q hin.1 hin.2 hq)
  have hmap : m.freeArea.map (blockAt pages) = m.blocks :=
    List.map_congr_left fun q hq => blockAt_congr (congrArg PhyPageBlock.property (hlist q hq))
  have hblock : blockAt pages base = ⟨base, base + n⟩ := by
    simp [blockAt, hpages, hhead]
  have hnodup : (base :: m.freeArea).Nodup :=
    List.nodup_cons.mpr ⟨hnotmem base le_rfl (by omega), h.nodup⟩
  have hspec : MergeSpec pages base m.freeArea r := mergeLoop_eq_absorb pages base m.freeArea hnodup
  have hapart : ∀ i ∈ m.blocks, Apart ⟨base, base + n⟩ i := by
    intro i hi'
    refine (apart_iff_disjoint (by dsimp only; omega) (h.coalesced.nonempty i hi')).mpr ?_
    intro x hx hix
    exact hused x hx.1 hx.2 ⟨i, hi', hix⟩
  have habs : (blockAt r.1 r.2.1, r.2.2.map (blockAt r.1)) = absorb ⟨base, base + n⟩ m.blocks := by
    rw [hspec.absorbed, hmap, hblock]
  have hblocks : (listAdd r.2.1 r.2.2).map (blockAt r.1) =
      (absorb ⟨base, base + n⟩ m.blocks).1 :: (absorb ⟨base, base + n⟩ m.blocks).2 := by
    rw [← habs]
    rfl
  have hne : (⟨base, base + n⟩ : Extent).lo < (⟨base, base + n⟩ : Extent).hi := by
    dsimp only
    omega
  have hfree : ∀ x, Covers ((listAdd r.2.1 r.2.2).map (blockAt r.1)) x ↔
      m.Free x ∨ (base ≤ x ∧ x < base + n) := by
    intro x
    rw [hblocks, absorb_covers _ _ hne h.coalesced.nonempty, covers_cons]
    exact or_comm
  have hnodes : ∀ q ∈ r.2.1 :: r.2.2, q = base ∨ q ∈ m.freeArea :=
    fun q hq => List.mem_cons.mp (hspec.subset q hq)
  have hcoal : Coalesced ((listAdd r.2.1 r.2.2).map (blockAt r.1)) := by
    rw [hblocks]
    exact absorb_coalesced _ _ hne h.coalesced hapart
  have hinside : ∀ q ∈ r.2.1 :: r.2.2, lo ≤ q ∧ q + (r.1 q).property ≤ hi := by
    -- Both ends of a resulting block are covered by the old free pages and the new block.
    intro q hq
    have hpos := hcoal.nonempty _ (List.mem_map_of_mem hq)
    have hfirst := (hfree q).mp ⟨blockAt r.1 q, List.mem_map_of_mem hq, ⟨le_rfl, hpos⟩⟩
    have hlast := (hfree (q + (r.1 q).property - 1)).mp
      ⟨blockAt r.1 q, List.mem_map_of_mem hq, by
        simp only [blockAt] at hpos
        simp only [Contains, blockAt]
        omega⟩
    have hm1 : m.Free q → lo ≤ q := fun hf => (h.managed_of_free hf).1
    have hm2 := h.managed_of_free (x := q + (r.1 q).property - 1)
    simp only [blockAt] at hpos
    refine ⟨?_, ?_⟩
    · rcases hfirst with hf | hf
      · exact hm1 hf
      · omega
    · rcases hlast with hf | hf
      · have := (hm2 hf).2
        omega
      · omega
  refine ⟨_, hcall, ⟨⟨hcoal, hinside, ?_, ?_, ?_⟩, hfree, rfl, ?_, ?_⟩⟩
  · intro q hqlo hqhi
    change getBit (r.1 q).flags PGP_property = 1 ↔ q ∈ r.2.1 :: r.2.2
    rw [getBit_eq_one_iff, hspec.flags q]
    have hold : (pages q).flags.getLsbD PGP_property = true ↔ q ∈ base :: m.freeArea := by
      by_cases hqb : q = base
      · subst hqb
        simp [hpages, hhead, PGP_property]
      · by_cases hin : base ≤ q ∧ q < base + n
        · have hval : pages q = { m.pages q with flags := 0, ref := 0 } := by
            rw [hpages, Function.update_of_ne hqb, hcleared]
            exact if_pos hin
          rw [hval]
          simp [hqb, hnotmem q hin.1 hin.2]
        · rw [hoff q hin, ← getBit_eq_one_iff, h.head_bit q hqlo hqhi]
          simp [hqb]
    by_cases hq : q ∈ base :: m.freeArea ∧ q ∉ r.2.1 :: r.2.2
    · rw [if_pos hq]
      simp [hq.2]
    · rw [if_neg hq, hold]
      constructor
      · intro hmem
        by_contra hnot
        exact hq ⟨hmem, hnot⟩
      · intro hmem
        exact hspec.subset q hmem
  · intro q hqlo hqhi
    change getBit (r.1 q).flags PGP_reserved = 0
    have hbase : (pages q).flags.getLsbD PGP_reserved = false := by
      by_cases hin : base ≤ q ∧ q < base + n
      · have hval : cleared q = { m.pages q with flags := 0, ref := 0 } := if_pos hin
        by_cases hqb : q = base
        · subst hqb
          simp [hpages, hhead, hval, reserved_ne_property]
        · rw [hpages, Function.update_of_ne hqb, hval]
          simp
      · rw [hoff q hin, ← getBit_eq_zero_iff]
        exact h.not_reserved q hqlo hqhi
    rw [getBit_eq_zero_iff, hspec.flags q]
    split
    · simp [hbase]
    · exact hbase
  · change m.freePageCount + n = total ((listAdd r.2.1 r.2.2).map (blockAt r.1))
    rw [hblocks, absorb_total _ _ hne h.coalesced.nonempty, h.count]
    simp only [Extent.length]
    omega
  · intro x
    change (r.1 x).ref = _
    rw [hspec.ref x]
    by_cases hin : base ≤ x ∧ x < base + n
    · have hval : cleared x = { m.pages x with flags := 0, ref := 0 } := if_pos hin
      rw [if_pos hin]
      by_cases hxb : x = base
      · subst hxb
        simp [hpages, hhead, hval]
      · rw [hpages, Function.update_of_ne hxb, hval]
    · rw [if_neg hin, hoff x hin]
  · intro x hx
    change r.1 x = m.pages x
    have hxb : x ∉ base :: m.freeArea := by
      intro hmem
      rcases List.mem_cons.mp hmem with rfl | hmem
      · omega
      · exact hx (h.managed_of_free (h.free_of_mem hmem))
    rw [hspec.untouched x hxb, hoff x (by omega)]

/-! ### Runs -/

/-- The allocator right after `ff_memmap_init`: one free block. -/
theorem ffMemmapInit_spec {m₀ m₁ : Pmm} {base n : Nat}
    (hinit : ffMemmapInit (ffFreeAreaInit m₀) base n = .ok m₁) :
    m₁.Inv base (base + n) ∧ m₁.freePageCount = n ∧
      ∀ x, ¬ (base ≤ x ∧ x < base + n) → m₁.pages x = m₀.pages x := by
  unfold ffMemmapInit at hinit
  split at hinit
  · simp at hinit
  · rename_i hn
    simp only [ffFreeAreaInit, Nat.zero_add, listAdd, Except.ok.injEq] at hinit
    have hloop : ∀ q, base ≤ q → q < base + n →
        (memmapInitLoop m₀.pages base n q).flags = 0 := by
      intro q h1 h2
      rw [memmapInitLoop_apply]
      split
      · rfl
      · rename_i hflags
        by_contra hne
        exact hflags ⟨h1, h2, hne⟩
    have hbase := hloop base le_rfl (by omega)
    subst hinit
    refine ⟨⟨?_, ?_, ?_, ?_, ?_⟩, rfl, ?_⟩
    · refine coalesced_cons_iff.mpr ⟨?_, by simp, by simp, coalesced_nil⟩
      simp only [blockAt, Function.update_self]
      omega
    · intro p hp
      have : p = base := by simpa using hp
      subst this
      simp
    · intro p h1 h2
      rw [getBit_eq_one_iff]
      by_cases hp : p = base
      · subst hp
        simp [PGP_property]
      · simp [hloop p h1 h2, hp]
    · intro p h1 h2
      rw [getBit_eq_zero_iff]
      by_cases hp : p = base
      · subst hp
        simp [hbase, reserved_ne_property]
      · simp [Function.update_of_ne hp, hloop p h1 h2]
    · simp [Pmm.blocks, blockAt, Extent.length]
    · intro x hx
      have hxb : x ≠ base := by
        rintro rfl
        omega
      simp only [Function.update_of_ne hxb]
      rw [memmapInitLoop_apply, if_neg (fun hin => hx ⟨hin.1, hin.2.1⟩)]

/-- One call by the users of the allocator, who keep the list of blocks they hold: any allocation, and
the release of a block that is held, with its size. -/
inductive FfStep : Pmm × List Extent → Pmm × List Extent → Prop
  | alloc {m m' : Pmm} {used : List Extent} {n p : Nat}
      (hcall : ffAllocPages m n = .ok (some p, m')) : FfStep (m, used) (m', ⟨p, p + n⟩ :: used)
  | allocNone {m m' : Pmm} {used : List Extent} {n : Nat}
      (hcall : ffAllocPages m n = .ok (none, m')) : FfStep (m, used) (m', used)
  | free {m m' : Pmm} {used : List Extent} {u : Extent} (hu : u ∈ used)
      (hcall : ffFreePages m u.lo u.length = .ok m') : FfStep (m, used) (m', used.erase u)

/-- The invariant of the allocator together with the blocks that are handed out. -/
structure FfInv (lo hi : Nat) (m₀ m : Pmm) (used : List Extent) : Prop where
  inv : m.Inv lo hi
  used_nonempty : ∀ u ∈ used, u.lo < u.hi
  used_inside : ∀ u ∈ used, lo ≤ u.lo ∧ u.hi ≤ hi
  used_apart : used.Pairwise Apart
  used_not_free : ∀ u ∈ used, ∀ x, u.Contains x → ¬ m.Free x
  count : m.freePageCount + total used = hi - lo
  outside : ∀ x, ¬ (lo ≤ x ∧ x < hi) → m.pages x = m₀.pages x

/-- A block that is held can be released: the panic of `ff_free_pages` is not reached. -/
theorem FfInv.free_spec {lo hi : Nat} {m₀ m : Pmm} {used : List Extent}
    (h : FfInv lo hi m₀ m used) {u : Extent} (hu : u ∈ used) :
    ∃ m', ffFreePages m u.lo u.length = .ok m' ∧ FreeSpec m lo hi u.lo u.length m' := by
  have hne := h.used_nonempty u hu
  have hin := h.used_inside u hu
  have hlen : u.lo + u.length = u.hi := by
    simp only [Extent.length]
    omega
  refine ffFreePages_spec h.inv (by omega) hin.1 (by omega) ?_
  intro x h1 h2
  exact h.used_not_free u hu x ⟨h1, by omega⟩

theorem FfInv.step {lo hi : Nat} {m₀ m m' : Pmm} {used used' : List Extent}
    (h : FfInv lo hi m₀ m used) (hstep : FfStep (m, used) (m', used')) :
    FfInv lo hi m₀ m' used' := by
  cases hstep with
  | alloc hcall =>
      rename_i n p
      have hspec := ffAllocPages_spec h.inv hcall
      have hn : 0 < n := by
        by_contra hzero
        have : n = 0 := by omega
        simp [this, ffAllocPages] at hcall
      have hfree : ∀ x, m'.Free x → m.Free x := fun x hx => (hspec.free x).mpr (Or.inl hx)
      have hblock : ∀ x, (⟨p, p + n⟩ : Extent).Contains x → m.Free x :=
        fun x hx => (hspec.free x).mpr (Or.inr hx)
      refine ⟨hspec.inv, ?_, ?_, ?_, ?_, ?_, ?_⟩
      · intro u hu
        rcases List.mem_cons.mp hu with rfl | hu
        · dsimp only
          omega
        · exact h.used_nonempty u hu
      · intro u hu
        rcases List.mem_cons.mp hu with rfl | hu
        · exact hspec.inside
        · exact h.used_inside u hu
      · refine List.pairwise_cons.mpr ⟨?_, h.used_apart⟩
        intro u hu
        refine (apart_iff_disjoint (by dsimp only; omega) (h.used_nonempty u hu)).mpr ?_
        intro x hx hux
        exact h.used_not_free u hu x hux (hblock x hx)
      · intro u hu x hux hx
        rcases List.mem_cons.mp hu with rfl | hu
        · exact hspec.taken x hux.1 hux.2 hx
        · exact h.used_not_free u hu x hux (hfree x hx)
      · have h1 := h.count
        have h2 := hspec.count
        simp only [total_cons, Extent.length]
        omega
      · intro x hx
        rw [hspec.outside x hx, h.outside x hx]
  | allocNone hcall =>
      rw [ffAllocPages_none hcall]
      exact h
  | free hu hcall =>
      rename_i u
      obtain ⟨m'', hcall', hspec⟩ := h.free_spec hu
      rw [hcall'] at hcall
      obtain rfl : m'' = m' := by simpa using hcall
      have hperm : used.Perm (u :: used.erase u) := List.perm_cons_erase hu
      have hsub : ∀ v ∈ used.erase u, v ∈ used := fun v hv => List.mem_of_mem_erase hv
      have hpair := (hperm.pairwise_iff Apart.symm).mp h.used_apart
      have hlen : u.lo + u.length = u.hi := by
        have := h.used_nonempty u hu
        simp only [Extent.length]
        omega
      refine ⟨hspec.inv, fun v hv => h.used_nonempty v (hsub v hv),
        fun v hv => h.used_inside v (hsub v hv), (List.pairwise_cons.mp hpair).2, ?_, ?_, ?_⟩
      · intro v hv x hvx hx
        rcases (hspec.free x).mp hx with hx | hx
        · exact h.used_not_free v (hsub v hv) x hvx hx
        · have hapart := (List.pairwise_cons.mp hpair).1 v hv
          refine (apart_iff_disjoint (h.used_nonempty u hu) (h.used_nonempty v (hsub v hv))).mp
            hapart x ⟨hx.1, by omega⟩ hvx
      · have h1 := h.count
        have h2 := hspec.count
        rw [total_perm hperm, total_cons] at h1
        omega
      · intro x hx
        rw [hspec.outside x hx, h.outside x hx]

/-- The invariant holds after every run. -/
theorem ffInv_of_run {m₀ m₁ m : Pmm} {base n : Nat} {used : List Extent}
    (hinit : ffMemmapInit (ffFreeAreaInit m₀) base n = .ok m₁)
    (hrun : Relation.ReflTransGen FfStep (m₁, []) (m, used)) :
    FfInv base (base + n) m₀ m used := by
  obtain ⟨hinv, hcount, hout⟩ := ffMemmapInit_spec hinit
  have hstart : FfInv base (base + n) m₀ m₁ [] :=
    ⟨hinv, by simp, by simp, by simp, by simp, by simp [hcount], hout⟩
  suffices hgen : ∀ s, Relation.ReflTransGen FfStep (m₁, []) s → FfInv base (base + n) m₀ s.1 s.2 from
    hgen (m, used) hrun
  intro s hs
  induction hs with
  | refl => exact hstart
  | tail _ hstep ih => exact ih.step hstep

theorem getFreeMem_eq {m : Pmm} {lo hi : Nat} (h : m.Inv lo hi) :
    getFreeMem m = BitVec.ofNat 32 m.freePageCount * PGSIZE := by
  have hfold : ∀ (xs : List Nat) (acc : Nat),
      xs.foldl (fun acc p => acc + BitVec.ofNat 32 (m.pages p).property) (BitVec.ofNat 32 acc) =
        BitVec.ofNat 32 (acc + total (xs.map (blockAt m.pages))) := by
    intro xs
    induction xs with
    | nil => simp
    | cons p xs ih =>
        intro acc
        rw [List.foldl_cons, ← BitVec.ofNat_add, ih, List.map_cons, total_cons, Nat.add_assoc]
        simp [blockAt, Extent.length]
  unfold getFreeMem
  have := hfold m.freeArea 0
  rw [Nat.zero_add] at this
  rw [h.count]
  congr 1

/-- **The free list after any run.**  From `ff_free_area_init` and one `ff_memmap_init(base, n)`, whatever
allocations follow and in whatever order blocks that are held come back: the free blocks are non-empty,
inside the managed range, pairwise apart, apart from every block that is held, and coalesced; exactly
their heads carry `PGP_property` among the managed pages, and no other descriptor has changed; the page
count is the sum of the `property` fields, and with what is held the managed total; and no further
allocation or release of a held block can panic. -/
theorem ff_run_invariant (m₀ m₁ m : Pmm) (base n : Nat) (used : List Extent)
    (hinit : ffMemmapInit (ffFreeAreaInit m₀) base n = .ok m₁)
    (hrun : Relation.ReflTransGen FfStep (m₁, []) (m, used)) :
    (∀ b ∈ m.freeArea, 0 < (m.pages b).property ∧ base ≤ b ∧ b + (m.pages b).property ≤ base + n) ∧
    m.freeArea.Pairwise (fun b c => b + (m.pages b).property ≤ c ∨ c + (m.pages c).property ≤ b) ∧
    (∀ b ∈ m.freeArea, ∀ u ∈ used, b + (m.pages b).property ≤ u.lo ∨ u.hi ≤ b) ∧
    (∀ b ∈ m.freeArea, ∀ c ∈ m.freeArea, b + (m.pages b).property ≠ c) ∧
    (∀ p, getBit (m.pages p).flags PGP_property = 1 ↔ p ∈ m.freeArea ∨
      (¬ (base ≤ p ∧ p < base + n) ∧ getBit (m₀.pages p).flags PGP_property = 1)) ∧
    m.freePageCount = (m.freeArea.map fun b => (m.pages b).property).sum ∧
    getFreeMem m = BitVec.ofNat 32 m.freePageCount * PGSIZE ∧
    m.freePageCount + total used = n ∧
    (∀ k, 0 < k → ∃ r, ffAllocPages m k = .ok r) ∧
    (∀ u ∈ used, ∃ m', ffFreePages m u.lo u.length = .ok m') := by
  have h := ffInv_of_run hinit hrun
  have hpairwise := List.pairwise_map.mp h.inv.coalesced.apart
  refine ⟨fun b hb => ⟨h.inv.pos hb, h.inv.inside b hb⟩, hpairwise, ?_, ?_, ?_, ?_,
    getFreeMem_eq h.inv, ?_, fun k hk => ffAllocPages_returns m hk, ?_⟩
  · intro b hb u hu
    have hbpos := h.inv.coalesced.nonempty _ (List.mem_map_of_mem hb)
    refine (apart_iff_disjoint hbpos (h.used_nonempty u hu)).mpr ?_
    intro x hbx hux
    exact h.used_not_free u hu x hux ⟨_, List.mem_map_of_mem hb, hbx⟩
  · intro b hb c hc
    exact h.inv.coalesced.gap _ (List.mem_map_of_mem hb) _ (List.mem_map_of_mem hc)
  · intro p
    by_cases hp : base ≤ p ∧ p < base + n
    · rw [h.inv.head_bit p hp.1 hp.2]
      simp [hp]
    · have hnot : p ∉ m.freeArea := fun hmem => hp (h.inv.managed_of_free (h.inv.free_of_mem hmem))
      rw [h.outside p hp]
      simp [hnot, hp]
  · rw [h.inv.count]
    simp [total, Pmm.blocks, blockAt, Extent.length, Function.comp_def]
  · have := h.count
    omega
  · intro u hu
    obtain ⟨m', hcall, -⟩ := h.free_spec hu
    exact ⟨m', hcall⟩

/-- Pages as `pagesInit` leaves them: everything reserved. -/
def reservedPages : Pmm := ⟨fun _ => ⟨1, 0, 0⟩, [], 0⟩

/-- The allocator over four managed pages from page 2 on. -/
def fourPages : Pmm := ⟨Function.update (memmapInitLoop reservedPages.pages 2 4) 2 ⟨2, 4, 0⟩, [2], 4⟩

/-- Three allocations on four pages and the release of the first one leave page 2 free. -/
theorem ff_run_invariant_four_pages :
    ∃ m, ffMemmapInit (ffFreeAreaInit reservedPages) 2 4 = .ok fourPages ∧
      Relation.ReflTransGen FfStep (fourPages, []) (m, [⟨5, 6⟩, ⟨3, 5⟩]) ∧ m.freeArea = [2] ∧
      m.freePageCount + total [⟨5, 6⟩, ⟨3, 5⟩] = 4 := by
  have s₁ : FfStep (fourPages, []) (_, [⟨2, 3⟩]) := .alloc (n := 1) (p := 2) rfl
  have s₂ := (Relation.ReflTransGen.single s₁).tail (.alloc (n := 2) (p := 3) rfl)
  have s₃ := s₂.tail (.alloc (n := 1) (p := 5) rfl)
  have s₄ := s₃.tail (.free (u := ⟨2, 3⟩) (by decide) rfl)
  have hinit : ffMemmapInit (ffFreeAreaInit reservedPages) 2 4 = .ok fourPages := rfl
  exact ⟨_, hinit, s₄, rfl,
    (ff_run_invariant reservedPages fourPages _ 2 4 _ hinit s₄).2.2.2.2.2.2.2.1⟩

end Memory
end FreakOS
