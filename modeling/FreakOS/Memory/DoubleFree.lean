import FreakOS.Memory.PageAllocatorInv

/-!
# Releasing pages that are already free

`ff_free_pages` looks at the flags of every page that it is given.  Only the head of a free block carries
`PGP_property`, and `ff_memmap_init` and a merge clear the flags of the other pages of a block.

* `PhyPageBlock.Refused` — the check of the first loop does not let a page pass.
* `clearLoop_eq_error_iff` — the loop stops with its panic exactly where one of the pages is refused.
* `double_free_caught_iff` — which releases of free pages are noticed, in every run.
-/

namespace FreakOS
namespace Memory

open Lib
open Lib.Extent

/-- The panic of `ff_free_pages` about the flags of a page. -/
def flagsError : Fault := .panic "free page's flags error!"

/-- The first loop of `ff_free_pages` stops at such a page. -/
def PhyPageBlock.Refused (page : PhyPageBlock) : Prop :=
  getBit page.flags PGP_reserved ≠ 0 ∨ getBit page.flags PGP_property ≠ 0

instance (page : PhyPageBlock) : Decidable page.Refused :=
  inferInstanceAs (Decidable (getBit page.flags PGP_reserved ≠ 0 ∨ getBit page.flags PGP_property ≠ 0))

theorem clearLoop_succ (pages : Nat → PhyPageBlock) (p n : Nat) :
    clearLoop pages p (n + 1) = if (pages p).Refused then .error flagsError
      else clearLoop (Function.update pages p { pages p with flags := 0, ref := 0 }) (p + 1) n := rfl

/-- The pages that the loop has passed do not matter to the ones that it comes to. -/
theorem clearLoop_eq_error_iff {pages : Nat → PhyPageBlock} {p n : Nat} {e : Fault} :
    clearLoop pages p n = .error e ↔ e = flagsError ∧ ∃ q, p ≤ q ∧ q < p + n ∧ (pages q).Refused := by
  induction n generalizing pages p with
  | zero =>
      simp only [clearLoop, reduceCtorEq, false_iff, not_and, not_exists]
      intro _ q hq hq'
      omega
  | succ n ih =>
      rw [clearLoop_succ]
      by_cases hp : (pages p).Refused
      · rw [if_pos hp]
        constructor
        · intro h
          exact ⟨(Except.error.inj h).symm, p, le_rfl, by omega, hp⟩
        · rintro ⟨rfl, -⟩
          rfl
      · rw [if_neg hp, ih]
        refine and_congr_right fun _ => ?_
        constructor
        · rintro ⟨q, hq, hq', href⟩
          rw [Function.update_of_ne (by omega)] at href
          exact ⟨q, by omega, by omega, href⟩
        · rintro ⟨q, hq, hq', href⟩
          have hne : q ≠ p := by
            rintro rfl
            exact hp href
          refine ⟨q, by omega, by omega, ?_⟩
          rw [Function.update_of_ne hne]
          exact href

/-- Only the first loop of `ff_free_pages` stops, and it does so before the list and the count are written. -/
theorem ffFreePages_eq_error_iff {m : Pmm} {base n : Nat} {e : Fault} (hn : 0 < n) :
    ffFreePages m base n = .error e ↔ clearLoop m.pages base n = .error e := by
  unfold ffFreePages
  rw [if_neg (by omega)]
  cases hloop : clearLoop m.pages base n with
  | error e' => simp [bind, Except.bind]
  | ok pages => simp [bind, Except.bind, pure, Except.pure]

/-- In a state with the invariant a managed page is refused where it heads a free block. -/
theorem Pmm.Inv.refused_iff {m : Pmm} {lo hi q : Nat} (h : m.Inv lo hi) (hlo : lo ≤ q) (hhi : q < hi) :
    (m.pages q).Refused ↔ q ∈ m.freeArea := by
  have hproperty : getBit (m.pages q).flags PGP_property ≠ 0 ↔ getBit (m.pages q).flags PGP_property = 1 := by
    rw [ne_eq, getBit_eq_zero_iff, getBit_eq_one_iff, Bool.not_eq_false]
  unfold PhyPageBlock.Refused
  rw [hproperty, h.head_bit q hlo hhi]
  simp [h.not_reserved q hlo hhi]

/-- **Which releases are noticed.**  In every state after allocations and releases of blocks that are held,
`ff_free_pages(base, k)` panics, in its first loop, exactly where one of the pages is the head of a free block or an
unmanaged page whose flags are set; that some page is free is not enough. -/
theorem double_free_caught_iff (m₀ m₁ m : Pmm) (lo n : Nat) (used : List Extent)
    (hinit : ffMemmapInit (ffFreeAreaInit m₀) lo n = .ok m₁)
    (hrun : Relation.ReflTransGen FfStep (m₁, []) (m, used)) (base k : Nat) (hk : 0 < k) :
    (ffFreePages m base k = .error flagsError ∧ clearLoop m.pages base k = .error flagsError) ↔
      ∃ q, base ≤ q ∧ q < base + k ∧
        (q ∈ m.freeArea ∨ (¬ (lo ≤ q ∧ q < lo + n) ∧ (m₀.pages q).Refused)) := by
  have h := ffInv_of_run hinit hrun
  rw [ffFreePages_eq_error_iff hk, and_self, clearLoop_eq_error_iff]
  simp only [true_and]
  refine exists_congr fun q => and_congr_right fun _ => and_congr_right fun _ => ?_
  by_cases hq : lo ≤ q ∧ q < lo + n
  · rw [h.inv.refused_iff hq.1 hq.2]
    simp [hq]
  · have hnot : q ∉ m.freeArea := fun hmem => hq (h.inv.managed_of_free (h.inv.free_of_mem hmem))
    rw [h.outside q hq]
    simp [hnot, hq]

/-- The head of the only free block is released. -/
theorem double_free_caught_at_head :
    ffFreePages fourPages 2 1 = .error flagsError ∧ clearLoop fourPages.pages 2 1 = .error flagsError :=
  (double_free_caught_iff reservedPages fourPages fourPages 2 4 [] rfl .refl 2 1
    (by decide)).mpr ⟨2, le_rfl, by decide, Or.inl (by decide)⟩

/-- The second page of the block is free as well, and its release goes through: the list then has page 3 twice, and
the count says that five of the four pages are free. -/
theorem double_free_missed_inside_block : ∃ m, ffMemmapInit (ffFreeAreaInit reservedPages) 2 4 = .ok fourPages ∧
    fourPages.Free 3 ∧ ffFreePages fourPages 3 1 = .ok m ∧ m.blocks = [⟨3, 4⟩, ⟨2, 6⟩] ∧ m.freePageCount = 5 :=
  ⟨_, rfl, by decide, rfl, by decide, rfl⟩

end Memory
end FreakOS
