import FreakOS.Memory.PageAllocatorInv

/-!
# First fit on a coalesced list finds every run of free pages

`ff_alloc_pages` looks at one block of the list at a time.  It can miss a run of free pages only where the
run is spread over two blocks, and the merging of `ff_free_pages` keeps that from happening, whatever the
order of the releases.

* `FfInv.free_iff` — a managed page is free exactly when no holder has it.
* `ffAllocPages_eq_none_iff`, `ffAllocPages_first` — what the search finds, in terms of pages.
* `ff_alloc_finds_run` — both after any run of the allocator.
-/

namespace FreakOS
namespace Memory

open Lib
open Lib.Extent

/-! ### Free pages and pages that are held -/

/-- Every managed page is free or held. -/
def Partitioned (lo hi : Nat) (m : Pmm) (used : List Extent) : Prop :=
  ∀ x, lo ≤ x → x < hi → m.Free x ∨ Covers used x

theorem Partitioned.step {lo hi : Nat} {m₀ m m' : Pmm} {used used' : List Extent}
    (h : FfInv lo hi m₀ m used) (hpart : Partitioned lo hi m used)
    (hstep : FfStep (m, used) (m', used')) : Partitioned lo hi m' used' := by
  intro x hlo hhi
  have hx := hpart x hlo hhi
  cases hstep with
  | alloc hcall =>
      have hspec := ffAllocPages_spec h.inv hcall
      rw [covers_cons]
      rcases hx with hx | hx
      · rcases (hspec.free x).mp hx with hx | hx
        · exact Or.inl hx
        · exact Or.inr (Or.inl hx)
      · exact Or.inr (Or.inr hx)
  | allocNone hcall =>
      rw [ffAllocPages_none hcall]
      exact hx
  | free hu hcall =>
      rename_i u
      obtain ⟨m'', hcall', hspec⟩ := h.free_spec hu
      rw [hcall'] at hcall
      obtain rfl : m'' = m' := by simpa using hcall
      have hlen : u.lo + u.length = u.hi := by
        have := h.used_nonempty u hu
        simp only [Extent.length]
        omega
      rw [hspec.free x, hlen]
      rw [covers_perm (List.perm_cons_erase hu), covers_cons] at hx
      rcases hx with hx | hx | hx
      · exact Or.inl (Or.inl hx)
      · exact Or.inl (Or.inr hx)
      · exact Or.inr hx

theorem partitioned_of_run {m₀ m₁ m : Pmm} {base n : Nat} {used : List Extent}
    (hinit : ffMemmapInit (ffFreeAreaInit m₀) base n = .ok m₁)
    (hrun : Relation.ReflTransGen FfStep (m₁, []) (m, used)) :
    Partitioned base (base + n) m used := by
  have hstart : Partitioned base (base + n) m₁ [] := by
    -- Right after the initialisation the one free block is the whole range.
    intro x hlo hhi
    left
    unfold ffMemmapInit at hinit
    split at hinit
    · simp at hinit
    · simp only [Except.ok.injEq] at hinit
      subst hinit
      refine ⟨⟨base, base + n⟩, ?_, hlo, hhi⟩
      simp [Pmm.blocks, blockAt, ffFreeAreaInit, listAdd]
  suffices hgen : ∀ s, Relation.ReflTransGen FfStep (m₁, []) s →
      Partitioned base (base + n) s.1 s.2 from hgen (m, used) hrun
  intro s hs
  induction hs with
  | refl => exact hstart
  | tail hbefore hstep ih => exact ih.step (ffInv_of_run hinit hbefore) hstep

theorem FfInv.free_iff {lo hi : Nat} {m₀ m : Pmm} {used : List Extent} (h : FfInv lo hi m₀ m used)
    (hpart : Partitioned lo hi m used) (x : Nat) :
    m.Free x ↔ (lo ≤ x ∧ x < hi) ∧ ¬ Covers used x := by
  constructor
  · intro hx
    refine ⟨h.inv.managed_of_free hx, ?_⟩
    rintro ⟨u, hu, hux⟩
    exact h.used_not_free u hu x hux hx
  · intro hx
    exact (hpart x hx.1.1 hx.1.2).resolve_right hx.2

/-! ### The search -/

/-- Page `p` is the first of `n` consecutive free pages. -/
def Pmm.FreeRun (m : Pmm) (p n : Nat) : Prop := ∀ x, p ≤ x → x < p + n → m.Free x

section Search

variable {m : Pmm} {lo hi : Nat}

/-- A run of free pages lies in the block of one node of the list. -/
theorem Pmm.Inv.freeRun_iff (h : m.Inv lo hi) {n : Nat} (hn : 0 < n) (p : Nat) :
    m.FreeRun p n ↔ ∃ b ∈ m.freeArea, b ≤ p ∧ p + n ≤ b + (m.pages b).property := by
  unfold Pmm.FreeRun Pmm.Free
  rw [h.coalesced.window_iff hn]
  simp [Pmm.blocks, blockAt]

/-- No block of the list is larger than the number of free pages, so the first test of
`ff_alloc_pages` turns no request away that a block could meet. -/
theorem Pmm.Inv.property_le_count (h : m.Inv lo hi) {b : Nat} (hb : b ∈ m.freeArea) :
    (m.pages b).property ≤ m.freePageCount := by
  obtain ⟨as, bs, hsplit⟩ := List.append_of_mem hb
  have htotal : total m.blocks = total (blockAt m.pages b :: (as ++ bs).map (blockAt m.pages)) := by
    apply total_perm
    unfold Pmm.blocks
    rw [hsplit]
    simp [List.perm_middle]
  rw [h.count, htotal, total_cons]
  simp only [blockAt, Extent.length]
  omega

theorem ffAllocPages_eq_none_iff (h : m.Inv lo hi) {n : Nat} (hn : 0 < n) :
    ffAllocPages m n = .ok (none, m) ↔ ¬ ∃ p, m.FreeRun p n := by
  constructor
  · rintro hcall ⟨p, hp⟩
    obtain ⟨b, hb, hbp, hpb⟩ := (h.freeRun_iff hn p).mp hp
    have hfit : n ≤ (m.pages b).property := by omega
    have hcount := h.property_le_count hb
    unfold ffAllocPages at hcall
    rw [if_neg (by omega), if_neg (by omega)] at hcall
    cases hfind : m.freeArea.find? fun p => decide ((m.pages p).property ≥ n) with
    | none =>
        have := List.find?_eq_none.mp hfind b hb
        simp only [ge_iff_le, decide_eq_true_eq] at this
        omega
    | some q => simp [hfind] at hcall
  · intro hnone
    obtain ⟨⟨o, m'⟩, hcall⟩ := ffAllocPages_returns m hn
    cases o with
    | none => rw [hcall, ffAllocPages_none hcall]
    | some p =>
        have hspec := ffAllocPages_spec h hcall
        exact absurd ⟨p, fun x hlo hhi => (hspec.free x).mpr (Or.inr ⟨hlo, hhi⟩)⟩ hnone

/-- The block that is cut is the first one of the list that is large enough. -/
theorem ffAllocPages_first {m' : Pmm} {n p : Nat} (hcall : ffAllocPages m n = .ok (some p, m')) :
    ∃ as bs, m.freeArea = as ++ p :: bs ∧ n ≤ (m.pages p).property ∧
      ∀ b ∈ as, (m.pages b).property < n := by
  unfold ffAllocPages at hcall
  split at hcall
  · simp at hcall
  · split at hcall
    · simp at hcall
    · cases hfind : m.freeArea.find? fun p => decide ((m.pages p).property ≥ n) with
      | none => simp [hfind] at hcall
      | some q =>
          simp only [hfind, Except.ok.injEq, Prod.mk.injEq, Option.some.injEq] at hcall
          obtain ⟨rfl, -⟩ := hcall
          obtain ⟨hfit, as, bs, hlist, hbefore⟩ := List.find?_eq_some_iff_append.mp hfind
          refine ⟨as, bs, hlist, by simpa using hfit, ?_⟩
          intro b hb
          simpa using hbefore b hb

end Search

/-- **First fit never misses.**  From `ff_free_area_init` and one `ff_memmap_init(base, total)`, after any
allocations and any releases of held blocks, the free pages are the managed pages that nobody holds, and a
request for `n > 0` pages returns.  It returns `NULL` exactly when no `n` consecutive managed pages are
free, and then nothing changes; otherwise it returns the head of the first block of the list with at
least `n` pages, and exactly the `n` pages from there on stop being free. -/
theorem ff_alloc_finds_run (m₀ m₁ m : Pmm) (base managed n : Nat) (used : List Extent)
    (hinit : ffMemmapInit (ffFreeAreaInit m₀) base managed = .ok m₁)
    (hrun : Relation.ReflTransGen FfStep (m₁, []) (m, used)) (hn : 0 < n) :
    (∀ x, m.Free x ↔ (base ≤ x ∧ x < base + managed) ∧ ¬ Covers used x) ∧
    (∃ r, ffAllocPages m n = .ok r) ∧
    ((∃ m', ffAllocPages m n = .ok (none, m')) ↔
      ¬ ∃ p, base ≤ p ∧ p + n ≤ base + managed ∧ ∀ x, p ≤ x → x < p + n → m.Free x) ∧
    (∀ m', ffAllocPages m n = .ok (none, m') → m' = m) ∧
    (∀ p m', ffAllocPages m n = .ok (some p, m') →
      (∃ as bs, m.freeArea = as ++ p :: bs ∧ n ≤ (m.pages p).property ∧
        ∀ b ∈ as, (m.pages b).property < n) ∧
      (∀ x, p ≤ x → x < p + n → m.Free x) ∧
      (∀ x, m'.Free x ↔ m.Free x ∧ ¬ (p ≤ x ∧ x < p + n))) := by
  have h := ffInv_of_run hinit hrun
  refine ⟨h.free_iff (partitioned_of_run hinit hrun), ffAllocPages_returns m hn, ?_,
    fun m' hcall => ffAllocPages_none hcall, ?_⟩
  · have hmanaged : (∃ p, base ≤ p ∧ p + n ≤ base + managed ∧ m.FreeRun p n) ↔ ∃ p, m.FreeRun p n := by
      constructor
      · rintro ⟨p, -, -, hp⟩
        exact ⟨p, hp⟩
      · rintro ⟨p, hp⟩
        have hfirst := h.inv.managed_of_free (hp p le_rfl (by omega))
        have hlast := h.inv.managed_of_free (hp (p + n - 1) (by omega) (by omega))
        exact ⟨p, hfirst.1, by omega, hp⟩
    change _ ↔ ¬ ∃ p, base ≤ p ∧ p + n ≤ base + managed ∧ m.FreeRun p n
    rw [hmanaged, ← ffAllocPages_eq_none_iff h.inv hn]
    constructor
    · rintro ⟨m', hcall⟩
      rw [hcall, ffAllocPages_none hcall]
    · intro hcall
      exact ⟨m, hcall⟩
  · intro p m' hcall
    have hspec := ffAllocPages_spec h.inv hcall
    refine ⟨ffAllocPages_first hcall, fun x hlo hhi => (hspec.free x).mpr (Or.inr ⟨hlo, hhi⟩), ?_⟩
    intro x
    rw [hspec.free x]
    constructor
    · intro hx
      refine ⟨Or.inl hx, ?_⟩
      intro hin
      exact hspec.taken x hin.1 hin.2 hx
    · rintro ⟨hx, hout⟩
      exact hx.resolve_right hout

/-- On four pages of which the middle two are held, a request for two pages finds none. -/
theorem ff_alloc_finds_run_four_pages :
    ∃ m, Relation.ReflTransGen FfStep (fourPages, []) (m, [⟨5, 6⟩, ⟨3, 5⟩]) ∧
      ((∃ m', ffAllocPages m 2 = .ok (none, m')) ↔
        ¬ ∃ p, 2 ≤ p ∧ p + 2 ≤ 2 + 4 ∧ ∀ x, p ≤ x → x < p + 2 → m.Free x) := by
  have s₁ : FfStep (fourPages, []) (_, [⟨2, 3⟩]) := .alloc (n := 1) (p := 2) rfl
  have s₂ := (Relation.ReflTransGen.single s₁).tail (.alloc (n := 2) (p := 3) rfl)
  have s₃ := s₂.tail (.alloc (n := 1) (p := 5) rfl)
  have s₄ := s₃.tail (.free (u := ⟨2, 3⟩) (by decide) rfl)
  have hinit : ffMemmapInit (ffFreeAreaInit reservedPages) 2 4 = .ok fourPages := rfl
  exact ⟨_, s₄, (ff_alloc_finds_run reservedPages fourPages _ 2 4 2 _ hinit s₄ (by decide)).2.2.1⟩

end Memory
end FreakOS
