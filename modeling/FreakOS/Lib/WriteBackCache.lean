import Mathlib.Logic.Function.Basic
import Mathlib.Tactic

/-!
# Write-back caches over a backing store

A cache is a family of lines over an index type; a line carries a key, the value it holds for the key, and
a dirty flag.  The *logical* content is what a user of the cache has written; the *backing* store may lag
behind it on the keys of dirty lines.

* `Coherent` — lines have distinct keys, a line holds the logical value of its key, and the backing store
  is up to date wherever no dirty line says otherwise.
* `Coherent.write`, `Coherent.writeBack`, `Coherent.drop`, `Coherent.fill` — the four things a cache does
  with a line.  A write-back may leave the dirty flag set.
* `Coherent.refill` — dropping and filling in one go, which is what an eviction does.
* `Coherent.backing_eq` — once the key of every dirty line is up to date, the store is the logical content.
-/

namespace FreakOS
namespace Lib

/-- One line of a cache. -/
structure Line (K V : Type*) where
  key : K
  val : V
  dirty : Bool

section Cache

variable {ι K V : Type*} [DecidableEq ι] [DecidableEq K]

/-- The lines agree with the logical content, and so does the backing store off the dirty lines. -/
structure Coherent (lines : ι → Option (Line K V)) (backing logical : K → V) : Prop where
  unique : ∀ i j l m, lines i = some l → lines j = some m → l.key = m.key → i = j
  holds : ∀ i l, lines i = some l → l.val = logical l.key
  clean : ∀ k, (∀ i l, lines i = some l → l.key = k → l.dirty = false) → backing k = logical k

namespace Coherent

variable {lines : ι → Option (Line K V)} {backing logical : K → V}

omit [DecidableEq ι] [DecidableEq K] in
/-- An empty cache shows the backing store. -/
theorem empty (hnone : ∀ i, lines i = none) : Coherent lines backing backing where
  unique i j l m hi _ _ := by simp [hnone i] at hi
  holds i l hi := by simp [hnone i] at hi
  clean _ _ := rfl

omit [DecidableEq ι] [DecidableEq K] in
/-- The key of a clean line is up to date in the backing store. -/
theorem backed_of_clean (h : Coherent lines backing logical) {i : ι} {l : Line K V}
    (hi : lines i = some l) (hclean : l.dirty = false) : backing l.key = logical l.key := by
  refine h.clean l.key ?_
  intro j m hj hkey
  obtain rfl := h.unique j i m l hj hi hkey
  obtain rfl : m = l := by simpa [hj] using hi
  exact hclean

/-- Writing a line changes the logical content at its key and makes the line dirty. -/
theorem write (h : Coherent lines backing logical) {i : ι} {l : Line K V} (hi : lines i = some l)
    (v : V) :
    Coherent (Function.update lines i (some ⟨l.key, v, true⟩)) backing
      (Function.update logical l.key v) := by
  -- Keys do not move, so the updated family has the keys of the old one.
  have hkeys : ∀ j m, Function.update lines i (some ⟨l.key, v, true⟩) j = some m →
      ∃ m', lines j = some m' ∧ m'.key = m.key ∧ (j ≠ i → m' = m) := by
    intro j m hj
    by_cases hji : j = i
    · subst hji
      obtain rfl : (⟨l.key, v, true⟩ : Line K V) = m := by simpa using hj
      exact ⟨l, hi, rfl, fun hne => absurd rfl hne⟩
    · rw [Function.update_of_ne hji] at hj
      exact ⟨m, hj, rfl, fun _ => rfl⟩
  refine ⟨?_, ?_, ?_⟩
  · intro j k m n hj hk hkey
    obtain ⟨m', hm', hmkey, -⟩ := hkeys j m hj
    obtain ⟨n', hn', hnkey, -⟩ := hkeys k n hk
    exact h.unique j k m' n' hm' hn' (by rw [hmkey, hnkey, hkey])
  · intro j m hj
    by_cases hji : j = i
    · subst hji
      obtain rfl : (⟨l.key, v, true⟩ : Line K V) = m := by simpa using hj
      simp
    · obtain ⟨m', hm', -, hsame⟩ := hkeys j m hj
      obtain rfl := hsame hji
      have hne : m'.key ≠ l.key := fun hkey => hji (h.unique j i m' l hm' hi hkey)
      rw [Function.update_of_ne hne]
      exact h.holds j m' hm'
  · intro k hk
    have hkl : k ≠ l.key := by
      rintro rfl
      have := hk i ⟨l.key, v, true⟩ (by simp) rfl
      simp at this
    rw [Function.update_of_ne hkl]
    refine h.clean k ?_
    intro j m hj hkey
    refine hk j m ?_ hkey
    rw [Function.update_of_ne ?_]
    · exact hj
    · rintro rfl
      obtain rfl : l = m := by simpa [hi] using hj
      exact hkl hkey.symm

omit [DecidableEq ι] in
/-- A write-back leaves up to date what was up to date. -/
theorem writeBack_backed (h : Coherent lines backing logical) {i : ι} {l : Line K V}
    (hi : lines i = some l) {k : K} (hk : backing k = logical k) :
    Function.update backing l.key l.val k = logical k := by
  by_cases hkl : k = l.key
  · subst hkl
    rw [Function.update_self]
    exact h.holds i l hi
  · rw [Function.update_of_ne hkl]
    exact hk

omit [DecidableEq ι] in
/-- Writing the value of a line to the backing store is allowed at any time. -/
theorem writeBack (h : Coherent lines backing logical) {i : ι} {l : Line K V} (hi : lines i = some l) :
    Coherent lines (Function.update backing l.key l.val) logical :=
  ⟨h.unique, h.holds, fun k hk => h.writeBack_backed hi (h.clean k hk)⟩

omit [DecidableEq K] in
/-- A line whose key is up to date may be dropped. -/
theorem drop (h : Coherent lines backing logical) {i : ι}
    (hbacked : ∀ l, lines i = some l → backing l.key = logical l.key) :
    Coherent (Function.update lines i none) backing logical := by
  have hold : ∀ j m, Function.update lines i none j = some m → lines j = some m := by
    intro j m hj
    by_cases hji : j = i
    · subst hji
      simp at hj
    · rwa [Function.update_of_ne hji] at hj
  refine ⟨?_, ?_, ?_⟩
  · intro j k m n hj hk
    exact h.unique j k m n (hold j m hj) (hold k n hk)
  · intro j m hj
    exact h.holds j m (hold j m hj)
  · intro k hk
    by_cases hline : ∃ l, lines i = some l ∧ l.key = k
    · obtain ⟨l, hl, rfl⟩ := hline
      exact hbacked l hl
    · refine h.clean k ?_
      intro j m hj hkey
      refine hk j m ?_ hkey
      rw [Function.update_of_ne ?_]
      · exact hj
      · rintro rfl
        exact hline ⟨m, hj, hkey⟩

omit [DecidableEq K] in
/-- An empty line may be filled with the stored value of a key that no line has. -/
theorem fill (h : Coherent lines backing logical) {i : ι} (hi : lines i = none) {k : K}
    (habsent : ∀ j l, lines j = some l → l.key ≠ k) :
    Coherent (Function.update lines i (some ⟨k, backing k, false⟩)) backing logical := by
  have hcases : ∀ j m, Function.update lines i (some ⟨k, backing k, false⟩) j = some m →
      (j = i ∧ m = ⟨k, backing k, false⟩) ∨ (j ≠ i ∧ lines j = some m) := by
    intro j m hj
    by_cases hji : j = i
    · subst hji
      refine Or.inl ⟨rfl, ?_⟩
      simpa using hj.symm
    · rw [Function.update_of_ne hji] at hj
      exact Or.inr ⟨hji, hj⟩
  have hstored : backing k = logical k := by
    refine h.clean k ?_
    intro j m hj hkey
    exact absurd hkey (habsent j m hj)
  refine ⟨?_, ?_, ?_⟩
  · intro j j' m n hj hj' hkey
    rcases hcases j m hj with ⟨rfl, rfl⟩ | ⟨-, hm⟩
    · rcases hcases j' n hj' with ⟨rfl, -⟩ | ⟨-, hn⟩
      · rfl
      · exact absurd hkey.symm (habsent j' n hn)
    · rcases hcases j' n hj' with ⟨rfl, rfl⟩ | ⟨-, hn⟩
      · exact absurd hkey (habsent j m hm)
      · exact h.unique j j' m n hm hn hkey
  · intro j m hj
    rcases hcases j m hj with ⟨rfl, rfl⟩ | ⟨-, hm⟩
    · exact hstored
    · exact h.holds j m hm
  · intro k' hk'
    refine h.clean k' ?_
    intro j m hj hkey
    refine hk' j m ?_ hkey
    rw [Function.update_of_ne ?_]
    · exact hj
    · rintro rfl
      simp [hi] at hj

omit [DecidableEq K] in
/-- A line whose key is up to date may be given to a key that no line has. -/
theorem refill (h : Coherent lines backing logical) {i : ι}
    (hbacked : ∀ l, lines i = some l → backing l.key = logical l.key) {k : K}
    (habsent : ∀ j l, lines j = some l → l.key ≠ k) :
    Coherent (Function.update lines i (some ⟨k, backing k, false⟩)) backing logical := by
  have habsent' : ∀ j l, Function.update lines i none j = some l → l.key ≠ k := by
    intro j l hj
    by_cases hji : j = i
    · subst hji
      simp at hj
    · rw [Function.update_of_ne hji] at hj
      exact habsent j l hj
  have hfill := (h.drop hbacked).fill (Function.update_self i none lines) habsent'
  rwa [Function.update_idem] at hfill

omit [DecidableEq ι] [DecidableEq K] in
/-- A store that is up to date at the key of every dirty line is the logical content. -/
theorem backing_eq (h : Coherent lines backing logical)
    (hdirty : ∀ i l, lines i = some l → l.dirty = true → backing l.key = logical l.key) :
    backing = logical := by
  funext k
  by_cases hline : ∃ i l, lines i = some l ∧ l.key = k ∧ l.dirty = true
  · obtain ⟨i, l, hl, rfl, hd⟩ := hline
    exact hdirty i l hl hd
  · refine h.clean k ?_
    intro i l hl hkey
    by_contra hd
    exact hline ⟨i, l, hl, hkey, by simpa using hd⟩

end Coherent

end Cache

end Lib
end FreakOS
