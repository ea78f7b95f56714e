import Mathlib.Data.Set.Card
import Mathlib.Order.Interval.Finset.Nat
import Mathlib.Tactic

/-!
# Families of half-open spans

Half-open intervals `[lo, hi)` of naturals (`Extent`), and two kinds of finite family of them:

* `Coalesced xs` — non-empty, pairwise apart, and no member ends where another begins.  `absorb b xs`
  is one pass over such a family that merges a new interval `b` with whatever it touches;
  `absorb_coalesced` shows that a single pass is enough, whatever the order of the family.  `cutFront`
  takes points away at the front of a member.
* `SortedApart xs` — non-empty, in increasing order, each ending before the next one starts.  A new
  interval can be compared with its two neighbours only (`sortedApart_insert`), and a point lies in at
  most one member (`SortedApart.contains_unique`).
-/

namespace FreakOS
namespace Lib

/-- The half-open interval `[lo, hi)`. -/
structure Extent where
  lo : Nat
  hi : Nat
deriving DecidableEq, Repr

namespace Extent

/-- The number of points of an interval. -/
def length (i : Extent) : Nat := i.hi - i.lo

/-- The point `x` lies in `[lo, hi)`. -/
def Contains (i : Extent) (x : Nat) : Prop := i.lo ≤ x ∧ x < i.hi

instance (i : Extent) (x : Nat) : Decidable (i.Contains x) :=
  inferInstanceAs (Decidable (i.lo ≤ x ∧ x < i.hi))

/-- One of the two ends before the other one begins. -/
def Apart (i j : Extent) : Prop := i.hi ≤ j.lo ∨ j.hi ≤ i.lo

instance (i j : Extent) : Decidable (Apart i j) :=
  inferInstanceAs (Decidable (i.hi ≤ j.lo ∨ j.hi ≤ i.lo))

theorem Apart.symm {i j : Extent} (h : Apart i j) : Apart j i := Or.symm h

instance symm_apart : Std.Symm Apart := ⟨fun _ _ => Apart.symm⟩

/-- Non-empty intervals are apart exactly when they share no point. -/
theorem apart_iff_disjoint {i j : Extent} (hi : i.lo < i.hi) (hj : j.lo < j.hi) :
    Apart i j ↔ ∀ x, i.Contains x → ¬ j.Contains x := by
  constructor
  · intro h x hx hx'
    unfold Apart at h
    unfold Contains at hx hx'
    omega
  · intro h
    by_contra hnot
    -- The larger of the two left ends is a common point.
    refine h (max i.lo j.lo) ?_ ?_
    all_goals
      unfold Apart at hnot
      unfold Contains
      omega

end Extent

open Extent

/-- Some member of the family contains `x`. -/
def Covers (xs : List Extent) (x : Nat) : Prop := ∃ i ∈ xs, i.Contains x

@[simp] theorem covers_nil (x : Nat) : ¬ Covers [] x := by simp [Covers]

@[simp] theorem covers_cons (i : Extent) (xs : List Extent) (x : Nat) :
    Covers (i :: xs) x ↔ i.Contains x ∨ Covers xs x := by simp [Covers]

/-- The number of points of a family, counted member by member. -/
def total (xs : List Extent) : Nat := (xs.map Extent.length).sum

@[simp] theorem total_nil : total [] = 0 := rfl

@[simp] theorem total_cons (i : Extent) (xs : List Extent) :
    total (i :: xs) = i.length + total xs := by simp [total]

theorem total_perm {xs ys : List Extent} (h : xs.Perm ys) : total xs = total ys :=
  (h.map Extent.length).sum_eq

theorem covers_perm {xs ys : List Extent} (h : xs.Perm ys) (x : Nat) : Covers xs x ↔ Covers ys x := by
  simp [Covers, h.mem_iff]

/-! ### Coalesced families -/

/-- Non-empty members, pairwise apart, no member ending where another begins. -/
structure Coalesced (xs : List Extent) : Prop where
  nonempty : ∀ i ∈ xs, i.lo < i.hi
  apart : xs.Pairwise Apart
  gap : ∀ i ∈ xs, ∀ j ∈ xs, i.hi ≠ j.lo

theorem coalesced_nil : Coalesced [] := ⟨by simp, by simp, by simp⟩

theorem coalesced_cons_iff {i : Extent} {xs : List Extent} :
    Coalesced (i :: xs) ↔ i.lo < i.hi ∧ (∀ j ∈ xs, Apart i j) ∧
      (∀ j ∈ xs, i.hi ≠ j.lo ∧ j.hi ≠ i.lo) ∧ Coalesced xs := by
  constructor
  · intro h
    have hapart := List.pairwise_cons.mp h.apart
    refine ⟨h.nonempty i (by simp), hapart.1, ?_, ?_⟩
    · intro j hj
      exact ⟨h.gap i (by simp) j (by simp [hj]), h.gap j (by simp [hj]) i (by simp)⟩
    · exact ⟨fun j hj => h.nonempty j (by simp [hj]), hapart.2,
        fun j hj k hk => h.gap j (by simp [hj]) k (by simp [hk])⟩
  · rintro ⟨hne, hapart, hgap, hxs⟩
    refine ⟨?_, List.pairwise_cons.mpr ⟨hapart, hxs.apart⟩, ?_⟩
    · intro j hj
      rcases List.mem_cons.mp hj with rfl | hj
      · exact hne
      · exact hxs.nonempty j hj
    · intro j hj k hk
      rcases List.mem_cons.mp hj with rfl | hj'
      · rcases List.mem_cons.mp hk with rfl | hk'
        · omega
        · exact (hgap k hk').1
      · rcases List.mem_cons.mp hk with rfl | hk'
        · exact (hgap j hj').2
        · exact hxs.gap j hj' k hk'

theorem Coalesced.perm {xs ys : List Extent} (h : Coalesced xs) (hp : xs.Perm ys) :
    Coalesced ys := by
  refine ⟨fun i hi => h.nonempty i (hp.mem_iff.mpr hi), ?_,
    fun i hi j hj => h.gap i (hp.mem_iff.mpr hi) j (hp.mem_iff.mpr hj)⟩
  exact (hp.pairwise_iff Apart.symm).mp h.apart

/-- In a coalesced family, consecutive covered points lie in one member: the point behind the end of a
member is not covered. -/
theorem Coalesced.window_iff {xs : List Extent} (h : Coalesced xs) {n : Nat} (hn : 0 < n) (x : Nat) :
    (∀ y, x ≤ y → y < x + n → Covers xs y) ↔ ∃ i ∈ xs, i.lo ≤ x ∧ x + n ≤ i.hi := by
  constructor
  · intro hcov
    obtain ⟨i, hi, hix⟩ := hcov x le_rfl (by omega)
    refine ⟨i, hi, hix.1, ?_⟩
    by_contra hshort
    have hlt : i.lo < i.hi := h.nonempty i hi
    have hend : x < i.hi := hix.2
    obtain ⟨j, hj, hjx⟩ := hcov i.hi (by omega) (by omega)
    have hne : i ≠ j := by
      intro heq
      have := heq ▸ hjx.2
      omega
    have hapart : Apart i j := h.apart.forall hi hj hne
    have hgap := h.gap i hi j hj
    unfold Contains at hjx
    unfold Apart at hapart
    omega
  · rintro ⟨i, hi, hlo, hhi⟩ y hy hyn
    exact ⟨i, hi, by omega, by omega⟩

/-- The points of a family, as a set: its size is the total. -/
theorem Coalesced.ncard_covers {xs : List Extent} (h : Coalesced xs) :
    {x | Covers xs x}.Finite ∧ {x | Covers xs x}.ncard = total xs := by
  induction xs with
  | nil => simp
  | cons i xs ih =>
      obtain ⟨hne, hapart, -, hxs⟩ := coalesced_cons_iff.mp h
      obtain ⟨hfinite, hcard⟩ := ih hxs
      have hset : {x | Covers (i :: xs) x} = ↑(Finset.Ico i.lo i.hi) ∪ {x | Covers xs x} := by
        ext x
        simp [Contains]
      have hdisjoint : Disjoint (↑(Finset.Ico i.lo i.hi) : Set Nat) {x | Covers xs x} := by
        rw [Set.disjoint_left]
        rintro x hx ⟨j, hj, hjx⟩
        exact (apart_iff_disjoint hne (hxs.nonempty j hj)).mp (hapart j hj) x (by simpa [Contains] using hx) hjx
      rw [hset]
      refine ⟨(Finset.finite_toSet _).union hfinite, ?_⟩
      rw [Set.ncard_union_eq hdisjoint (Finset.finite_toSet _) hfinite, Set.ncard_coe_finset, Nat.card_Ico,
        hcard, total_cons]
      rfl

/-- What is left of an extent when its first `n` points are taken. -/
def cutFront (n : Nat) (i : Extent) : List Extent :=
  if i.lo + n < i.hi then [⟨i.lo + n, i.hi⟩] else []

section CutFront

variable {i : Extent} {xs : List Extent} {n : Nat}

theorem cutFront_of_lt (h : i.lo + n < i.hi) : cutFront n i = [⟨i.lo + n, i.hi⟩] := if_pos h

theorem cutFront_of_le (h : i.hi ≤ i.lo + n) : cutFront n i = [] := if_neg (by omega)

/-- A member that gives up its front leaves a coalesced family: it only shrinks, and its end stays. -/
theorem coalesced_cutFront (h : Coalesced (i :: xs)) : Coalesced (cutFront n i ++ xs) := by
  obtain ⟨-, hapart, hgap, hxs⟩ := coalesced_cons_iff.mp h
  unfold cutFront
  split
  · rename_i hne
    refine coalesced_cons_iff.mpr ⟨hne, ?_, ?_, hxs⟩
    · intro j hj
      have := hapart j hj
      unfold Apart at this ⊢
      dsimp only
      omega
    · intro j hj
      have h1 := hapart j hj
      have h2 := hgap j hj
      have h3 := hxs.nonempty j hj
      unfold Apart at h1
      dsimp only
      omega
  · exact hxs

theorem total_cutFront (hn : i.lo + n ≤ i.hi) :
    total (i :: xs) = total (cutFront n i ++ xs) + n := by
  unfold cutFront
  split
  · simp only [List.singleton_append, total_cons, Extent.length]
    omega
  · simp only [List.nil_append, total_cons, Extent.length]
    omega

theorem covers_cutFront (hn : i.lo + n ≤ i.hi) (x : Nat) :
    Covers (i :: xs) x ↔ Covers (cutFront n i ++ xs) x ∨ (i.lo ≤ x ∧ x < i.lo + n) := by
  unfold cutFront
  split
  · simp only [List.singleton_append, covers_cons, Contains]
    constructor
    · rintro (h | h)
      · by_cases hx : x < i.lo + n
        · exact Or.inr ⟨h.1, hx⟩
        · exact Or.inl (Or.inl ⟨by omega, h.2⟩)
      · exact Or.inl (Or.inr h)
    · rintro ((h | h) | h)
      · exact Or.inl ⟨by omega, h.2⟩
      · exact Or.inr h
      · exact Or.inl ⟨h.1, by omega⟩
  · simp only [List.nil_append, covers_cons, Contains]
    constructor
    · rintro (h | h)
      · exact Or.inr ⟨h.1, by omega⟩
      · exact Or.inl h
    · rintro (h | h)
      · exact Or.inr h
      · exact Or.inl ⟨h.1, by omega⟩

/-- The points that were taken are not covered any more. -/
theorem not_covers_cutFront (h : Coalesced (i :: xs)) (hn : i.lo + n ≤ i.hi) {x : Nat}
    (hlo : i.lo ≤ x) (hhi : x < i.lo + n) : ¬ Covers (cutFront n i ++ xs) x := by
  obtain ⟨hne, hapart, -, hxs⟩ := coalesced_cons_iff.mp h
  rintro ⟨j, hj, hjx⟩
  rcases List.mem_append.mp hj with hj | hj
  · unfold cutFront at hj
    split at hj
    · have : j = ⟨i.lo + n, i.hi⟩ := by simpa using hj
      subst this
      have := hjx.1
      dsimp only at this
      omega
    · simp at hj
  · exact (apart_iff_disjoint hne (hxs.nonempty j hj)).mp (hapart j hj) x ⟨hlo, by omega⟩ hjx

end CutFront

/-- One pass over a family that merges `b` with every member it touches when it is reached. -/
def absorb (b : Extent) : List Extent → Extent × List Extent
  | [] => (b, [])
  | c :: cs =>
      if b.hi = c.lo then
        absorb ⟨b.lo, c.hi⟩ cs
      else if c.hi = b.lo then
        absorb ⟨c.lo, b.hi⟩ cs
      else
        ((absorb b cs).1, c :: (absorb b cs).2)

/-- The pass leaves the set of covered points as it was. -/
theorem absorb_covers (b : Extent) (xs : List Extent) (hb : b.lo < b.hi)
    (hxs : ∀ i ∈ xs, i.lo < i.hi) (x : Nat) :
    Covers ((absorb b xs).1 :: (absorb b xs).2) x ↔ Covers (b :: xs) x := by
  induction xs generalizing b with
  | nil => simp [absorb]
  | cons c cs ih =>
      have hc := hxs c (by simp)
      have hcs : ∀ i ∈ cs, i.lo < i.hi := fun i hi => hxs i (by simp [hi])
      unfold absorb
      split
      · rename_i htouch
        rw [ih ⟨b.lo, c.hi⟩ (by dsimp only; omega) hcs]
        simp only [covers_cons, Contains]
        constructor
        · rintro (h | h)
          · by_cases hx : x < b.hi
            · exact Or.inl ⟨h.1, hx⟩
            · exact Or.inr (Or.inl ⟨by omega, h.2⟩)
          · exact Or.inr (Or.inr h)
        · rintro (h | h | h)
          · exact Or.inl ⟨h.1, by omega⟩
          · exact Or.inl ⟨by omega, h.2⟩
          · exact Or.inr h
      · split
        · rename_i htouch
          rw [ih ⟨c.lo, b.hi⟩ (by dsimp only; omega) hcs]
          simp only [covers_cons, Contains]
          constructor
          · rintro (h | h)
            · by_cases hx : x < c.hi
              · exact Or.inr (Or.inl ⟨h.1, hx⟩)
              · exact Or.inl ⟨by omega, h.2⟩
            · exact Or.inr (Or.inr h)
          · rintro (h | h | h)
            · exact Or.inl ⟨by omega, h.2⟩
            · exact Or.inl ⟨h.1, by omega⟩
            · exact Or.inr h
        · have hrec := ih b hb hcs
          simp only [covers_cons] at hrec ⊢
          rw [or_left_comm, hrec, or_left_comm]

/-- The pass neither loses nor gains points. -/
theorem absorb_total (b : Extent) (xs : List Extent) (hb : b.lo < b.hi)
    (hxs : ∀ i ∈ xs, i.lo < i.hi) :
    total ((absorb b xs).1 :: (absorb b xs).2) = b.length + total xs := by
  induction xs generalizing b with
  | nil => simp [absorb]
  | cons c cs ih =>
      have hc := hxs c (by simp)
      have hcs : ∀ i ∈ cs, i.lo < i.hi := fun i hi => hxs i (by simp [hi])
      unfold absorb
      split
      · rw [ih ⟨b.lo, c.hi⟩ (by dsimp only; omega) hcs]
        simp only [total_cons, Extent.length]
        omega
      · split
        · rw [ih ⟨c.lo, b.hi⟩ (by dsimp only; omega) hcs]
          simp only [total_cons, Extent.length]
          omega
        · have hrec := ih b hb hcs
          simp only [total_cons] at hrec ⊢
          omega

/-- What the pass keeps was there before. -/
theorem absorb_snd_subset (b : Extent) (xs : List Extent) :
    ∀ i ∈ (absorb b xs).2, i ∈ xs := by
  induction xs generalizing b with
  | nil => simp [absorb]
  | cons c cs ih =>
      intro i hi
      unfold absorb at hi
      split at hi
      · exact List.mem_cons_of_mem _ (ih _ i hi)
      · split at hi
        · exact List.mem_cons_of_mem _ (ih _ i hi)
        · rcases List.mem_cons.mp hi with rfl | hi
          · simp
          · exact List.mem_cons_of_mem _ (ih _ i hi)

/-- The ends of the merged interval are ends of `b` or of members. -/
theorem absorb_fst_ends (b : Extent) (xs : List Extent) :
    ((absorb b xs).1.lo = b.lo ∨ ∃ i ∈ xs, (absorb b xs).1.lo = i.lo) ∧
      ((absorb b xs).1.hi = b.hi ∨ ∃ i ∈ xs, (absorb b xs).1.hi = i.hi) := by
  induction xs generalizing b with
  | nil => simp [absorb]
  | cons c cs ih =>
      unfold absorb
      split
      · obtain ⟨hlo, hhi⟩ := ih ⟨b.lo, c.hi⟩
        refine ⟨?_, ?_⟩
        · rcases hlo with h | ⟨i, hi, h⟩
          · exact Or.inl h
          · exact Or.inr ⟨i, by simp [hi], h⟩
        · rcases hhi with h | ⟨i, hi, h⟩
          · exact Or.inr ⟨c, by simp, h⟩
          · exact Or.inr ⟨i, by simp [hi], h⟩
      · split
        · obtain ⟨hlo, hhi⟩ := ih ⟨c.lo, b.hi⟩
          refine ⟨?_, ?_⟩
          · rcases hlo with h | ⟨i, hi, h⟩
            · exact Or.inr ⟨c, by simp, h⟩
            · exact Or.inr ⟨i, by simp [hi], h⟩
          · rcases hhi with h | ⟨i, hi, h⟩
            · exact Or.inl h
            · exact Or.inr ⟨i, by simp [hi], h⟩
        · obtain ⟨hlo, hhi⟩ := ih b
          refine ⟨?_, ?_⟩
          · rcases hlo with h | ⟨i, hi, h⟩
            · exact Or.inl h
            · exact Or.inr ⟨i, by simp [hi], h⟩
          · rcases hhi with h | ⟨i, hi, h⟩
            · exact Or.inl h
            · exact Or.inr ⟨i, by simp [hi], h⟩

/-- **One pass is enough.**  Merging a new interval into a coalesced family it is apart from gives a
coalesced family again, whatever the order of the family: by `Coalesced.gap` a member that has been
passed over cannot touch anything the pass picks up later. -/
theorem absorb_coalesced (b : Extent) (xs : List Extent) (hb : b.lo < b.hi)
    (hxs : Coalesced xs) (hapart : ∀ i ∈ xs, Apart b i) :
    Coalesced ((absorb b xs).1 :: (absorb b xs).2) := by
  induction xs generalizing b with
  | nil => exact coalesced_cons_iff.mpr ⟨hb, by simp [absorb], by simp [absorb], coalesced_nil⟩
  | cons c cs ih =>
      obtain ⟨hc, hcapart, hcgap, hcs⟩ := coalesced_cons_iff.mp hxs
      have hbc := hapart c (by simp)
      have hbcs : ∀ i ∈ cs, Apart b i := fun i hi => hapart i (by simp [hi])
      unfold absorb
      split
      · refine ih ⟨b.lo, c.hi⟩ (by dsimp only; omega) hcs ?_
        intro i hi
        have h1 := hbcs i hi
        have h2 := hcapart i hi
        have h3 := hcs.nonempty i hi
        unfold Apart at h1 h2 ⊢
        dsimp only
        omega
      · rename_i hdown
        split
        · refine ih ⟨c.lo, b.hi⟩ (by dsimp only; omega) hcs ?_
          intro i hi
          have h1 := hbcs i hi
          have h2 := hcapart i hi
          have h3 := hcs.nonempty i hi
          unfold Apart at h1 h2 ⊢
          dsimp only
          omega
        · rename_i hup
          have hrec := ih b hb hcs hbcs
          obtain ⟨hne, hrapart, hrgap, hrest⟩ := coalesced_cons_iff.mp hrec
          have hsub := absorb_snd_subset b cs
          obtain ⟨hlo, hhi⟩ := absorb_fst_ends b cs
          -- `c` shares no point with the merged interval, since that covers points of `b` and `cs` only.
          have hcb : Apart (absorb b cs).1 c := by
            refine (apart_iff_disjoint hne hc).mpr ?_
            intro x hx hcx
            have hcov := (absorb_covers b cs hb hcs.nonempty x).mp (by simp [hx])
            rcases (covers_cons _ _ _).mp hcov with hbx | ⟨i, hi, hix⟩
            · exact (apart_iff_disjoint hb hc).mp hbc x hbx hcx
            · exact (apart_iff_disjoint hc (hcs.nonempty i hi)).mp (hcapart i hi) x hcx hix
          have hcgap' : (absorb b cs).1.hi ≠ c.lo ∧ c.hi ≠ (absorb b cs).1.lo := by
            constructor
            · rcases hhi with h | ⟨i, hi, h⟩
              · rw [h]
                exact hdown
              · rw [h]
                exact (hcgap i hi).2
            · rcases hlo with h | ⟨i, hi, h⟩
              · rw [h]
                exact hup
              · rw [h]
                exact (hcgap i hi).1
          refine coalesced_cons_iff.mpr ⟨hne, ?_, ?_, ?_⟩
          · intro j hj
            rcases List.mem_cons.mp hj with rfl | hj
            · exact hcb
            · exact hrapart j hj
          · intro j hj
            rcases List.mem_cons.mp hj with rfl | hj
            · exact hcgap'
            · exact hrgap j hj
          · exact coalesced_cons_iff.mpr ⟨hc, fun j hj => hcapart j (hsub j hj),
              fun j hj => hcgap j (hsub j hj), hrest⟩

/-! ### Sorted families -/

/-- Non-empty members in increasing order, each ending no later than the next begins. -/
structure SortedApart (xs : List Extent) : Prop where
  nonempty : ∀ i ∈ xs, i.lo < i.hi
  ordered : xs.Pairwise fun i j => i.hi ≤ j.lo

theorem sortedApart_nil : SortedApart [] := ⟨by simp, by simp⟩

namespace SortedApart

variable {xs pre post : List Extent}

/-- In a sequence of objects whose extents are sorted, a point lies in the extent of at most one. -/
theorem contains_unique {α : Type} {f : α → Extent} {objs : List α} (h : SortedApart (objs.map f))
    {i j : α} (hi : i ∈ objs) (hj : j ∈ objs) {x : Nat} (hix : (f i).Contains x)
    (hjx : (f j).Contains x) : i = j := by
  unfold Contains at hix hjx
  induction objs with
  | nil => simp at hi
  | cons c cs ih =>
      have hordered := List.pairwise_cons.mp h.ordered
      have htail : SortedApart (cs.map f) := ⟨fun k hk => h.nonempty k (by simp [hk]), hordered.2⟩
      rcases List.mem_cons.mp hi with rfl | hi'
      · rcases List.mem_cons.mp hj with rfl | hj'
        · rfl
        · have := hordered.1 (f j) (List.mem_map_of_mem hj')
          omega
      · rcases List.mem_cons.mp hj with rfl | hj'
        · have := hordered.1 (f i) (List.mem_map_of_mem hi')
          omega
        · exact ih htail hi' hj'

/-- Left of the insertion point, the last member reaches furthest. -/
theorem hi_le_of_getLast (h : SortedApart pre) {v : Nat}
    (hlast : ∀ i ∈ pre.getLast?, i.hi ≤ v) : ∀ i ∈ pre, i.hi ≤ v := by
  induction pre with
  | nil => simp
  | cons c cs ih =>
      have hordered := List.pairwise_cons.mp h.ordered
      have hcs : SortedApart cs := ⟨fun i hi => h.nonempty i (by simp [hi]), hordered.2⟩
      intro i hi
      cases cs with
      | nil =>
          have : i = c := by simpa using hi
          subst this
          exact hlast i (by simp)
      | cons d ds =>
          have hrec := ih hcs (by simpa using hlast)
          rcases List.mem_cons.mp hi with rfl | hi'
          · have h1 := hordered.1 d (by simp)
            have h2 := h.nonempty d (by simp)
            have h3 := hrec d (by simp)
            omega
          · exact hrec i hi'

/-- Right of the insertion point, the first member starts earliest. -/
theorem le_lo_of_head (h : SortedApart post) {v : Nat}
    (hhead : ∀ i ∈ post.head?, v ≤ i.lo) : ∀ i ∈ post, v ≤ i.lo := by
  cases post with
  | nil => simp
  | cons c cs =>
      have hordered := List.pairwise_cons.mp h.ordered
      have hc := hhead c (by simp)
      intro i hi
      rcases List.mem_cons.mp hi with rfl | hi'
      · exact hc
      · have h1 := hordered.1 i hi'
        have h2 := h.nonempty c (by simp)
        omega

theorem append_left (h : SortedApart (pre ++ post)) : SortedApart pre :=
  ⟨fun i hi => h.nonempty i (by simp [hi]), (List.pairwise_append.mp h.ordered).1⟩

theorem append_right (h : SortedApart (pre ++ post)) : SortedApart post :=
  ⟨fun i hi => h.nonempty i (by simp [hi]), (List.pairwise_append.mp h.ordered).2.1⟩

/-- **Two comparisons are enough.**  A non-empty `v` whose place is between `pre` and `post` is apart
from the whole family exactly when it starts after the last member of `pre` ends and ends before the
first member of `post` starts. -/
theorem apart_iff_neighbours (h : SortedApart (pre ++ post)) {v : Extent} (hv : v.lo < v.hi)
    (hpre : ∀ i ∈ pre, i.lo ≤ v.lo) (hpost : ∀ i ∈ post, v.lo < i.lo) :
    (∀ i ∈ pre ++ post, Apart v i) ↔
      (∀ i ∈ pre.getLast?, i.hi ≤ v.lo) ∧ (∀ i ∈ post.head?, v.hi ≤ i.lo) := by
  constructor
  · intro hapart
    refine ⟨fun i hi => ?_, fun i hi => ?_⟩
    · have hmem : i ∈ pre := List.mem_of_getLast? hi
      have h1 := hapart i (by simp [hmem])
      have h2 := hpre i hmem
      unfold Apart at h1
      omega
    · have hmem : i ∈ post := List.mem_of_head? hi
      have h1 := hapart i (by simp [hmem])
      have h2 := hpost i hmem
      have h3 := h.nonempty i (by simp [hmem])
      unfold Apart at h1
      omega
  · rintro ⟨hlast, hhead⟩ i hi
    rcases List.mem_append.mp hi with hi | hi
    · exact Or.inr (hi_le_of_getLast h.append_left hlast i hi)
    · exact Or.inl (le_lo_of_head h.append_right hhead i hi)

/-- Inserting at that place keeps the family sorted. -/
theorem insert (h : SortedApart (pre ++ post)) {v : Extent} (hv : v.lo < v.hi)
    (hlast : ∀ i ∈ pre.getLast?, i.hi ≤ v.lo) (hhead : ∀ i ∈ post.head?, v.hi ≤ i.lo) :
    SortedApart (pre ++ v :: post) := by
  refine ⟨?_, ?_⟩
  · intro i hi
    rcases List.mem_append.mp hi with hi | hi
    · exact h.nonempty i (by simp [hi])
    · rcases List.mem_cons.mp hi with rfl | hi
      · exact hv
      · exact h.nonempty i (by simp [hi])
  · have hparts := List.pairwise_append.mp h.ordered
    have hleft := hi_le_of_getLast h.append_left hlast
    refine List.pairwise_append.mpr ⟨hparts.1, ?_, ?_⟩
    · exact List.pairwise_cons.mpr ⟨le_lo_of_head h.append_right hhead, hparts.2.1⟩
    · intro i hi j hj
      rcases List.mem_cons.mp hj with rfl | hj
      · exact hleft i hi
      · exact hparts.2.2 i hi j hj

end SortedApart

end Lib
end FreakOS
