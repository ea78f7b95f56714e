import FreakOS.Lib.LinkTable

/-!
# Lists that end with a null link

A pointer leads to the first cell of a list, the link of each cell to the next one, and the last link is null.

* `Listed` — the cells of a list in order.
* `Listed.unique`, `Listed.nodup` — the pointer and the links determine the cells, and no cell is there twice.
* `Listed.congr`, `Listed.push` — what writes to the links do to a list.
* `Listed.of_index` — cells that are linked by their numbers.
-/

namespace FreakOS
namespace Lib

/-- From the pointer `p` on the list has the cells `l`. -/
def Listed {α : Type*} [Zero α] (next : α → α) : α → List α → Prop
  | p, [] => p = 0
  | p, a :: l => p = a ∧ a ≠ 0 ∧ Listed next (next a) l

instance decidableListed {α : Type*} [Zero α] [DecidableEq α] (next : α → α) :
    (p : α) → (l : List α) → Decidable (Listed next p l)
  | p, [] => inferInstanceAs (Decidable (p = 0))
  | p, a :: l =>
      have := decidableListed next (next a) l
      inferInstanceAs (Decidable (p = a ∧ a ≠ 0 ∧ Listed next (next a) l))

namespace Listed

variable {α : Type*} [Zero α] {next next' : α → α} {l m : List α} {a p : α}

theorem nil_iff : Listed next p [] ↔ p = 0 := Iff.rfl

/-- A null pointer has no cells. -/
theorem eq_nil (h : Listed next 0 l) : l = [] := by
  cases l with
  | nil => rfl
  | cons a l => exact absurd h.1.symm h.2.1

/-- Any other pointer is the first cell. -/
theorem eq_cons (h : Listed next p l) (hp : p ≠ 0) : ∃ m, l = p :: m ∧ Listed next (next p) m := by
  cases l with
  | nil => exact absurd h hp
  | cons a m =>
      obtain ⟨rfl, -, hm⟩ := h
      exact ⟨m, rfl, hm⟩

theorem ne_zero (h : Listed next p l) (ha : a ∈ l) : a ≠ 0 := by
  induction l generalizing p with
  | nil => cases ha
  | cons b l ih =>
      rcases List.mem_cons.mp ha with rfl | ha
      · exact h.2.1
      · exact ih h.2.2 ha

theorem unique (hl : Listed next p l) (hm : Listed next p m) : l = m := by
  induction l generalizing p m with
  | nil =>
      obtain rfl : p = 0 := hl
      exact hm.eq_nil.symm
  | cons a l ih =>
      obtain ⟨rfl, hne, hl⟩ := hl
      obtain ⟨m, rfl, hrest⟩ := hm.eq_cons hne
      rw [ih hl hrest]

/-- The list as a chain in the table of links. -/
theorem chained (h : Listed next p l) : Chained next (fun c => c ≠ 0) (fun c => c = 0) l := by
  induction l generalizing p with
  | nil => exact Chained.nil
  | cons a l ih =>
      obtain ⟨-, hne, hl⟩ := h
      have hchain := ih hl
      cases l with
      | nil => exact Chained.single hne hl
      | cons b l =>
          refine ⟨List.isChain_cons_cons.mpr ⟨hl.1, hchain.steps⟩, ?_, ?_⟩
          · intro c hc
            rcases List.mem_cons.mp hc with rfl | hc
            · exact hne
            · exact hchain.inside c hc
          · intro c hc
            rw [List.getLast?_cons_cons] at hc
            exact hchain.stops c hc

theorem nodup (h : Listed next p l) : l.Nodup := h.chained.nodup fun _ hzero hne => hne hzero

/-- A list depends on its pointer and on the links of its cells. -/
theorem congr (h : Listed next p l) (hsame : ∀ a ∈ l, next' a = next a) : Listed next' p l := by
  induction l generalizing p with
  | nil => exact h
  | cons a l ih =>
      refine ⟨h.1, h.2.1, ?_⟩
      rw [hsame a List.mem_cons_self]
      exact ih h.2.2 fun b hb => hsame b (List.mem_cons_of_mem a hb)

/-- A cell that is linked to the first one. -/
theorem push (h : Listed next p l) (hne : a ≠ 0) (hlink : next' a = p) (hsame : ∀ b ∈ l, next' b = next b) :
    Listed next' a (a :: l) :=
  ⟨rfl, hne, hlink ▸ h.congr hsame⟩

/-- From a cell of the list on, the rest of it. -/
theorem drop (h : Listed next p (m ++ a :: l)) : Listed next a (a :: l) := by
  induction m generalizing p with
  | nil =>
      obtain ⟨rfl, hne, hl⟩ := h
      exact ⟨rfl, hne, hl⟩
  | cons b m ih => exact ih h.2.2

/-- Cells that are linked in the order of their numbers, the last one to null. -/
theorem of_index {cell : Nat → α} {n : Nat} (hne : ∀ j < n, cell j ≠ 0)
    (hlink : ∀ j < n, next (cell j) = if j + 1 < n then cell (j + 1) else 0) (hn : 0 < n) :
    Listed next (cell 0) ((List.range n).map cell) := by
  have hfrom : ∀ m k, k + m = n → Listed next (if k < n then cell k else 0) ((List.range' k m).map cell) := by
    intro m
    induction m with
    | zero =>
        intro k hk
        rw [if_neg (by omega)]
        exact nil_iff.mpr rfl
    | succ m ih =>
        intro k hk
        have hlt : k < n := by omega
        rw [if_pos hlt, List.range'_succ, List.map_cons]
        refine ⟨rfl, hne k hlt, ?_⟩
        rw [hlink k hlt]
        exact ih (k + 1) (by omega)
  have hall := hfrom n 0 (Nat.zero_add n)
  rwa [if_pos hn, ← List.range_eq_range'] at hall

end Listed

end Lib
end FreakOS
