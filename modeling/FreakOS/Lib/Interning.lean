import Mathlib.Data.List.Nodup

/-!
# Tables of interned objects

The first time that a key is asked for, an object is made for it; from then on the table gives the same one.  Keys have a
meaning, and two keys may mean the same.

* `Ask` — a key is asked for, and there is an object to show for it.
* `OneObject` — the answers are the same for the keys that mean the same, and only for those.
* `Ask.oneObject_iff` — an answer keeps that so as long as a key is never asked for beside another one with its meaning.
-/

namespace FreakOS
namespace Lib
namespace Interning

variable {K A M : Type*}

/-- The objects by their keys, and all the answers that have been given. -/
structure State (K A : Type*) where
  table : List (K × A)
  answered : List (K × A)

/-- A key has one object, an object has one key, and the table holds what has been answered. -/
structure Inv (s : State K A) : Prop where
  keys : (s.table.map Prod.fst).Nodup
  objects : (s.table.map Prod.snd).Nodup
  mem_answered : ∀ l, l ∈ s.answered ↔ l ∈ s.table

/-- The object of the key is found in the table, or made. -/
inductive Ask (key : K) (s : State K A) : State K A → Prop
  | hit {object : A} (hmem : (key, object) ∈ s.table) :
      Ask key s { s with answered := (key, object) :: s.answered }
  | miss {object : A} (hkey : key ∉ s.table.map Prod.fst) (hobject : object ∉ s.table.map Prod.snd) :
      Ask key s ⟨(key, object) :: s.table, (key, object) :: s.answered⟩

/-- Two answers are the same if and only if the keys mean the same. -/
def OneObject (meaning : K → M) (s : State K A) : Prop :=
  ∀ l ∈ s.answered, ∀ l' ∈ s.answered, l.2 = l'.2 ↔ meaning l.1 = meaning l'.1

variable {meaning : K → M} {s s' : State K A} {key : K}

theorem Inv.init : Inv (⟨[], []⟩ : State K A) := ⟨List.nodup_nil, List.nodup_nil, fun _ => Iff.rfl⟩

theorem Inv.eq_of_key (h : Inv s) {l l' : K × A} (hl : l ∈ s.table) (hl' : l' ∈ s.table) (heq : l.1 = l'.1) : l = l' :=
  List.inj_on_of_nodup_map h.keys hl hl' heq

theorem Inv.eq_of_object (h : Inv s) {l l' : K × A} (hl : l ∈ s.table) (hl' : l' ∈ s.table) (heq : l.2 = l'.2) :
    l = l' :=
  List.inj_on_of_nodup_map h.objects hl hl' heq

theorem Ask.inv (hask : Ask key s s') (h : Inv s) : Inv s' := by
  cases hask with
  | hit hmem =>
      constructor
      · exact h.keys
      · exact h.objects
      · intro l
        rw [List.mem_cons, h.mem_answered]
        constructor
        · intro hl
          cases hl with
          | inl heq => rwa [heq]
          | inr hl => exact hl
        · exact Or.inr
  | miss hkey hobject =>
      constructor
      · exact List.nodup_cons.mpr ⟨hkey, h.keys⟩
      · exact List.nodup_cons.mpr ⟨hobject, h.objects⟩
      · intro l
        rw [List.mem_cons, List.mem_cons, h.mem_answered]

/-- The answers are right if and only if the table has one key for a meaning. -/
theorem Inv.oneObject_iff (h : Inv s) : OneObject meaning s ↔
    ∀ l ∈ s.table, ∀ l' ∈ s.table, meaning l.1 = meaning l'.1 → l.1 = l'.1 := by
  constructor
  · intro hone l hl l' hl' hmeaning
    have hobject := (hone l ((h.mem_answered l).mpr hl) l' ((h.mem_answered l').mpr hl')).mpr hmeaning
    rw [h.eq_of_object hl hl' hobject]
  · intro hkeys l hl l' hl'
    rw [h.mem_answered] at hl hl'
    constructor
    · intro hobject
      rw [h.eq_of_object hl hl' hobject]
    · intro hmeaning
      rw [h.eq_of_key hl hl' (hkeys l hl l' hl' hmeaning)]

/-- The answer for a key keeps the answers right if and only if the table has no other key with its meaning. -/
theorem Ask.oneObject_iff (hask : Ask key s s') (h : Inv s) (hone : OneObject meaning s) :
    OneObject meaning s' ↔ ∀ l ∈ s.table, meaning l.1 = meaning key → l.1 = key := by
  rw [(hask.inv h).oneObject_iff]
  rw [h.oneObject_iff] at hone
  cases hask with
  | hit hmem =>
      constructor
      · intro _ l hl
        exact hone l hl _ hmem
      · exact fun _ => hone
  | miss hkey hobject =>
      constructor
      · intro hone' l hl
        exact hone' l (List.mem_cons_of_mem _ hl) _ List.mem_cons_self
      · intro hother l hl l' hl' hmeaning
        cases List.mem_cons.mp hl with
        | inl heq =>
            cases List.mem_cons.mp hl' with
            | inl heq' => rw [heq, heq']
            | inr hl' =>
                rw [heq] at hmeaning ⊢
                exact (hother l' hl' hmeaning.symm).symm
        | inr hl =>
            cases List.mem_cons.mp hl' with
            | inl heq' =>
                rw [heq'] at hmeaning ⊢
                exact hother l hl hmeaning
            | inr hl' => exact hone l hl l' hl' hmeaning

end Interning
end Lib
end FreakOS
