import Mathlib.Data.List.Chain
import Mathlib.Data.List.Nodup
import Mathlib.Tactic

/-!
# Chains in a table of links

A table gives each cell its next one.  `Chained next inside ended l` says that following the table from the first
cell of `l` on visits the cells of `l`, all of them `inside`, and then finds an `ended` link.

* `Chained.unique`, `Chained.nodup` — a chain is determined by its first cell, and never comes back to a cell.
* `Chained.agree`, `Chained.extend`, `Chained.cut` — what the writes to the table do to a chain.
* `Chained.notMem` — a cell whose link is neither `inside` nor `ended` is on no chain.
* `follow`, `Chained.follow_eq` — a chain is found again from its first cell.
-/

namespace FreakOS
namespace Lib

/-- The cells of `l` follow one another in the table, and the last one ends the chain. -/
structure Chained {α : Type*} (next : α → α) (inside ended : α → Prop) (l : List α) : Prop where
  steps : l.IsChain fun a b => next a = b
  inside : ∀ a ∈ l, inside a
  stops : ∀ a ∈ l.getLast?, ended (next a)

namespace Chained

variable {α : Type*} {next next' : α → α} {inside ended : α → Prop} {l m : List α} {a b x : α}

theorem nil : Chained next inside ended [] :=
  ⟨List.isChain_nil, fun _ h => absurd h List.not_mem_nil, fun _ h => by cases h⟩

/-- A cell of a chain is followed by the next one. -/
theorem next_eq (h : Chained next inside ended (l ++ a :: b :: m)) : next a = b :=
  (List.isChain_cons_cons.mp h.steps.right_of_append).1

theorem next_getElem (h : Chained next inside ended l) {i : Nat} (hi : i < l.length) (hnext : i + 1 < l.length) :
    next l[i] = l[i + 1] :=
  List.isChain_iff_getElem.mp h.steps i hnext

theorem last_ended (h : Chained next inside ended (l ++ [a])) : ended (next a) :=
  h.stops a (by simp)

theorem right (h : Chained next inside ended (l ++ m)) : Chained next inside ended m := by
  refine ⟨h.steps.right_of_append, fun a ha => h.inside a (List.mem_append_right l ha), ?_⟩
  intro a ha
  refine h.stops a ?_
  rw [List.getLast?_append]
  rw [Option.mem_def] at ha ⊢
  rw [ha, Option.some_or]

/-- The link of a cell of the chain leads to a cell of the chain, or ends it. -/
theorem link (h : Chained next inside ended l) (ha : a ∈ l) : inside (next a) ∨ ended (next a) := by
  obtain ⟨s, t, rfl⟩ := List.append_of_mem ha
  cases t with
  | nil => exact Or.inr h.last_ended
  | cons b t =>
      left
      rw [h.next_eq]
      exact h.inside b (by simp)

/-- A cell whose link is neither in the table nor an end is on no chain. -/
theorem notMem (h : Chained next inside ended l) (hin : ¬ inside (next b)) (hend : ¬ ended (next b)) : b ∉ l := by
  intro hb
  rcases h.link hb with hlink | hlink
  · exact hin hlink
  · exact hend hlink

/-- Two chains from the same cell are the same. -/
theorem unique (hsep : ∀ c, ended c → ¬ inside c) (hl : Chained next inside ended (a :: l))
    (hm : Chained next inside ended (a :: m)) : l = m := by
  induction l generalizing a m with
  | nil =>
      cases m with
      | nil => rfl
      | cons b m =>
          have hend : ended (next a) := last_ended (l := []) hl
          rw [next_eq (l := []) hm] at hend
          exact absurd (hm.inside b (by simp)) (hsep b hend)
  | cons b l ih =>
      have hb : next a = b := next_eq (l := []) hl
      cases m with
      | nil =>
          have hend : ended (next a) := last_ended (l := []) hm
          rw [hb] at hend
          exact absurd (hl.inside b (by simp)) (hsep b hend)
      | cons c m =>
          obtain rfl : b = c := hb.symm.trans (next_eq (l := []) hm)
          rw [ih (right (l := [a]) hl) (right (l := [a]) hm)]

/-- A chain that ends does not come back to a cell. -/
theorem nodup (hsep : ∀ c, ended c → ¬ inside c) (h : Chained next inside ended l) : l.Nodup := by
  induction l with
  | nil => exact List.nodup_nil
  | cons a l ih =>
      have hl : Chained next inside ended l := right (l := [a]) h
      refine List.nodup_cons.mpr ⟨?_, ih hl⟩
      intro ha
      obtain ⟨s, t, rfl⟩ := List.append_of_mem ha
      -- From `a` on, the chain would be its own proper end.
      have hloop : s ++ a :: t = t := unique hsep h hl.right
      have hlen := congrArg List.length hloop
      rw [List.length_append, List.length_cons] at hlen
      omega

/-- A chain only depends on the links of its cells. -/
theorem agree (h : Chained next inside ended l) (hsame : ∀ a ∈ l, next' a = next a) :
    Chained next' inside ended l := by
  refine ⟨?_, h.inside, ?_⟩
  · refine h.steps.imp_of_mem_imp ?_
    intro a b ha _ hab
    rw [hsame a ha, hab]
  · intro a ha
    rw [hsame a (List.mem_of_mem_getLast? ha)]
    exact h.stops a ha

theorem steps_agree (h : (l ++ [a]).IsChain fun a b => next a = b) (hsame : ∀ c ∈ l, next' c = next c) :
    (l ++ [a]).IsChain fun a b => next' a = b := by
  induction l with
  | nil => exact List.isChain_singleton a
  | cons c l ih =>
      have htail := ih h.tail fun d hd => hsame d (List.mem_cons_of_mem c hd)
      refine htail.cons ?_
      intro d hd
      rw [hsame c List.mem_cons_self]
      exact h.rel_head? hd

/-- One more cell at the end. -/
theorem extend (h : Chained next inside ended (l ++ [a])) (hsame : ∀ c ∈ l, next' c = next c) (hlink : next' a = b)
    (hin : inside b) (hend : ended (next' b)) : Chained next' inside ended (l ++ [a, b]) := by
  refine ⟨?_, ?_, ?_⟩
  · exact List.isChain_split.mpr ⟨steps_agree h.steps hsame, List.isChain_pair.mpr hlink⟩
  · intro c hc
    rcases List.mem_append.mp hc with hc | hc
    · exact h.inside c (List.mem_append_left [a] hc)
    · rcases List.mem_pair.mp hc with rfl | rfl
      · exact h.inside c (by simp)
      · exact hin
  · intro c hc
    obtain rfl : b = c := by simpa using hc
    exact hend

/-- The cells behind `a` are cut off. -/
theorem cut (h : Chained next inside ended (l ++ a :: m)) (hsame : ∀ c ∈ l, next' c = next c)
    (hend : ended (next' a)) : Chained next' inside ended (l ++ [a]) := by
  refine ⟨?_, ?_, ?_⟩
  · exact steps_agree (List.isChain_split.mp h.steps).1 hsame
  · intro c hc
    refine h.inside c ?_
    rw [List.append_cons]
    exact List.mem_append_left m hc
  · intro c hc
    obtain rfl : a = c := by simpa using hc
    exact hend

/-- A chain of one cell. -/
theorem single (hin : inside a) (hend : ended (next a)) : Chained next inside ended [a] := by
  refine ⟨List.isChain_singleton a, ?_, ?_⟩
  · intro c hc
    rw [List.mem_singleton.mp hc]
    exact hin
  · intro c hc
    obtain rfl : a = c := by simpa using hc
    exact hend

end Chained

/-! ### Following the links -/

/-- The cells from one on, at most so many. -/
def follow {α : Type*} (next : α → α) (inside : α → Prop) [DecidablePred inside] : Nat → α → List α
  | 0, _ => []
  | n + 1, a => if inside a then a :: follow next inside n (next a) else []

section Follow

variable {α : Type*} {next : α → α} {inside ended : α → Prop} [DecidablePred inside] {l : List α} {a : α} {n : Nat}

theorem follow_outside (hout : ¬ inside a) : follow next inside n a = [] := by
  cases n with
  | zero => rfl
  | succ n => exact if_neg hout

/-- Following the links from the first cell of a chain gives the chain. -/
theorem Chained.follow_eq (hsep : ∀ c, ended c → ¬ inside c) (h : Chained next inside ended (a :: l)) (hlen : l.length < n) :
    follow next inside n a = a :: l := by
  induction n generalizing a l with
  | zero => omega
  | succ n ih =>
      unfold follow
      rw [if_pos (h.inside a List.mem_cons_self)]
      cases l with
      | nil =>
          have hend : ended (next a) := last_ended (l := []) h
          rw [follow_outside (hsep _ hend)]
      | cons b l =>
          obtain rfl : next a = b := next_eq (l := []) h
          rw [List.length_cons] at hlen
          rw [ih (right (l := [a]) h) (by omega)]

end Follow

end Lib
end FreakOS
