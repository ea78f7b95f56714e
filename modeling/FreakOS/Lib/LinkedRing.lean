import Mathlib.Data.List.Chain
import Mathlib.Data.List.Nodup
import Mathlib.Tactic

/-!
# Circular doubly linked lists

A heap gives each node two links.  A circular list leads from its head through its nodes back to the head.

* `Circular` — the nodes of a list in order; a node of a circular list is followed and preceded as the order says.
* `Circular.insert`, `Circular.remove` — what joining nodes does to the list in which it happens.
* `Circular.join_frame` — and what it leaves alone.
* `Circular.disjoint` — two lists share no node, or the head of one is a node of the other.
-/

namespace FreakOS
namespace Lib

/-- The links of all nodes. -/
structure LinkHeap (α : Type*) where
  prev : α → α
  next : α → α

namespace LinkHeap

variable {α : Type*}

/-- Two nodes follow one another. -/
def Joined (h : LinkHeap α) (a b : α) : Prop := h.next a = b ∧ h.prev b = a

instance [DecidableEq α] (h : LinkHeap α) (a b : α) : Decidable (h.Joined a b) := by unfold Joined; infer_instance

/-- Let two nodes follow one another. -/
def join [DecidableEq α] (h : LinkHeap α) (a b : α) : LinkHeap α where
  prev := Function.update h.prev b a
  next := Function.update h.next a b

end LinkHeap

open LinkHeap

/-- The nodes of a list follow one another. -/
def Linked {α : Type*} (h : LinkHeap α) (l : List α) : Prop := l.IsChain h.Joined

/-- The list with a head that leads through these nodes. -/
structure Circular {α : Type*} (h : LinkHeap α) (head : α) (xs : List α) : Prop where
  nodup : (head :: xs).Nodup
  path : Linked h (head :: xs ++ [head])

section Paths

variable {α : Type*} {h h' : LinkHeap α} {l : List α} {a b p n : α}

/-- A path depends on the links along it. -/
theorem Linked.of_agree (hpath : Linked h l) (hnext : ∀ a ∈ l.dropLast, h'.next a = h.next a)
    (hprev : ∀ b ∈ l.tail, h'.prev b = h.prev b) : Linked h' l := by
  induction l with
  | nil => exact List.isChain_nil
  | cons a l ih =>
      cases l with
      | nil => exact List.isChain_singleton a
      | cons b l =>
          obtain ⟨hjoined, hrest⟩ := List.isChain_cons_cons.mp hpath
          refine List.isChain_cons_cons.mpr ⟨⟨?_, ?_⟩, ih hrest ?_ ?_⟩
          · rw [hnext a List.mem_cons_self]
            exact hjoined.1
          · rw [hprev b List.mem_cons_self]
            exact hjoined.2
          · exact fun c hc => hnext c (List.mem_cons_of_mem a hc)
          · exact fun c hc => hprev c (List.mem_cons_of_mem b hc)

/-- A set that the links forward do not leave has the end of a path if it has its begin. -/
theorem Linked.mem_of_closed {S : α → Prop} (hclosed : ∀ a, S a → S (h.next a)) (hpath : Linked h (a :: l)) (ha : S a) :
    ∀ b ∈ a :: l, S b := by
  induction l generalizing a with
  | nil =>
      intro b hb
      rw [List.mem_singleton.mp hb]
      exact ha
  | cons c l ih =>
      obtain ⟨hjoined, hrest⟩ := List.isChain_cons_cons.mp hpath
      have hc : S c := hjoined.1 ▸ hclosed a ha
      intro b hb
      cases List.mem_cons.mp hb with
      | inl hba => exact hba ▸ ha
      | inr hbl => exact ih hrest hc b hbl

variable [DecidableEq α]

theorem join_next_of_ne (h : LinkHeap α) (hne : a ≠ p) (n : α) : (h.join p n).next a = h.next a :=
  Function.update_of_ne hne _ _

theorem join_prev_of_ne (h : LinkHeap α) (hne : b ≠ n) (p : α) : (h.join p n).prev b = h.prev b :=
  Function.update_of_ne hne _ _

theorem joined_join (h : LinkHeap α) (p n : α) : (h.join p n).Joined p n :=
  ⟨Function.update_self .., Function.update_self ..⟩

/-- Joining two nodes later does not take apart two others. -/
theorem Joined.join (hjoined : h.Joined a b) (ha : a ≠ p) (hb : b ≠ n) : (h.join p n).Joined a b :=
  ⟨(join_next_of_ne h ha n).trans hjoined.1, (join_prev_of_ne h hb p).trans hjoined.2⟩

/-- Joining two nodes keeps a path that leaves the first and enters the second at its ends only. -/
theorem Linked.join (hpath : Linked h l) (hp : p ∉ l.dropLast) (hn : n ∉ l.tail) : Linked (h.join p n) l :=
  hpath.of_agree (fun _ ha => join_next_of_ne h (ne_of_mem_of_not_mem ha hp) n)
    fun _ hb => join_prev_of_ne h (ne_of_mem_of_not_mem hb hn) p

end Paths

namespace Circular

variable {α : Type*} {h : LinkHeap α} {head head' e p n a : α} {xs ys zs : List α}

/-- A circular list in two parts, with the nodes at the seam. -/
structure Parts (h : LinkHeap α) (head : α) (xs ys : List α) (p n : α) : Prop where
  last : (head :: xs).getLast? = some p
  first : (ys ++ [head]).head? = some n
  front : Linked h (head :: xs)
  back : Linked h (ys ++ [head])
  seam : h.Joined p n

theorem parts_iff (hp : (head :: xs).getLast? = some p) (hn : (ys ++ [head]).head? = some n) :
    Linked h (head :: (xs ++ ys) ++ [head]) ↔ Parts h head xs ys p n := by
  have hassoc : head :: (xs ++ ys) ++ [head] = (head :: xs) ++ (ys ++ [head]) := by simp
  unfold Linked
  rw [hassoc, List.isChain_append]
  constructor
  · intro hpath
    obtain ⟨hfront, hback, hseam⟩ := hpath
    exact ⟨hp, hn, hfront, hback, hseam p hp n hn⟩
  · intro hparts
    refine ⟨hparts.front, hparts.back, fun x hx y hy => ?_⟩
    rw [Option.mem_def, hp] at hx
    rw [Option.mem_def, hn] at hy
    rw [← Option.some.inj hx, ← Option.some.inj hy]
    exact hparts.seam

theorem exists_last (head : α) (xs : List α) : ∃ p, (head :: xs).getLast? = some p :=
  ⟨_, List.getLast?_eq_some_getLast (List.cons_ne_nil head xs)⟩

theorem exists_first (ys : List α) (head : α) : ∃ n, (ys ++ [head]).head? = some n := by
  cases ys with
  | nil => exact ⟨head, rfl⟩
  | cons y ys => exact ⟨y, rfl⟩

theorem parts (hc : Circular h head (xs ++ ys)) : ∃ p n, Parts h head xs ys p n := by
  obtain ⟨p, hp⟩ := exists_last head xs
  obtain ⟨n, hn⟩ := exists_first ys head
  exact ⟨p, n, (parts_iff hp hn).mp hc.path⟩

/-- Where the nodes at the seam do not stand. -/
structure Apart (head : α) (xs ys : List α) (p n : α) : Prop where
  front_last : p ∉ (head :: xs).dropLast
  front_first : n ∉ xs
  back_last : p ∉ ys
  back_first : n ∉ (ys ++ [head]).tail
  last_mem : p ∈ head :: xs
  first_mem : n ∈ ys ++ [head]

theorem apart_of_nodup (hlast : (head :: xs).getLast? = some p) (hfirst : (ys ++ [head]).head? = some n)
    (hnodup : (head :: (xs ++ ys)).Nodup) : Apart head xs ys p n := by
  have hp : p ∈ head :: xs := List.mem_of_getLast? hlast
  have hn : n ∈ ys ++ [head] := List.mem_of_head? hfirst
  have hsplit : ((head :: xs) ++ ys).Nodup := hnodup
  obtain ⟨hfront, hys, hdisjoint⟩ := List.nodup_append.mp hsplit
  have hhead : head ∉ xs := (List.nodup_cons.mp hfront).1
  have hback : (ys ++ [head]).Nodup := by
    refine List.nodup_append.mpr ⟨hys, List.nodup_singleton head, fun a ha b hb heq => ?_⟩
    rw [List.mem_singleton.mp hb] at heq
    exact hdisjoint head List.mem_cons_self a ha heq.symm
  refine ⟨?_, ?_, fun hy => hdisjoint p hp p hy rfl, ?_, hp, hn⟩
  · obtain ⟨front, hfrontp⟩ := List.getLast?_eq_some_iff.mp hlast
    rw [hfrontp] at hfront ⊢
    rw [List.dropLast_concat]
    exact fun hmem => (List.nodup_append.mp hfront).2.2 p hmem p (List.mem_singleton.mpr rfl) rfl
  · intro hx
    cases List.mem_append.mp hn with
    | inl hy => exact hdisjoint n (List.mem_cons_of_mem head hx) n hy rfl
    | inr hh => exact hhead (List.mem_singleton.mp hh ▸ hx)
  · obtain ⟨back, hbackn⟩ := List.head?_eq_some_iff.mp hfirst
    rw [hbackn] at hback ⊢
    exact (List.nodup_cons.mp hback).1

variable [DecidableEq α]

/-- A node is inserted at the seam. -/
theorem insert (hc : Circular h head (xs ++ ys)) (hparts : Parts h head xs ys p n) (he : e ∉ head :: (xs ++ ys)) :
    Circular ((h.join p e).join e n) head (xs ++ e :: ys) := by
  obtain ⟨hfrontp, hfrontn, hbackp, hbackn, hp, hn⟩ := apart_of_nodup hparts.last hparts.first hc.nodup
  rw [List.mem_cons, List.mem_append, not_or, not_or] at he
  obtain ⟨hehead, hexs, heys⟩ := he
  have hepn : e ≠ p ∧ e ≠ n := by
    refine ⟨fun heq => ?_, fun heq => ?_⟩
    · exact (List.mem_cons.mp (heq ▸ hp)).elim hehead hexs
    · exact (List.mem_append.mp (heq ▸ hn)).elim heys fun hmem => hehead (List.mem_singleton.mp hmem)
  have hefront : e ∉ head :: xs := fun hmem => (List.mem_cons.mp hmem).elim hehead hexs
  have heback : e ∉ ys ++ [head] :=
    fun hmem => (List.mem_append.mp hmem).elim heys fun hmem => hehead (List.mem_singleton.mp hmem)
  have hfront : Linked ((h.join p e).join e n) (head :: xs) :=
    (hparts.front.join hfrontp hexs).join (fun hmem => hefront (List.mem_of_mem_dropLast hmem)) hfrontn
  have hback : Linked ((h.join p e).join e n) (ys ++ [head]) := by
    refine (hparts.back.join ?_ fun hmem => heback (List.mem_of_mem_tail hmem)).join ?_ hbackn
    · rwa [List.dropLast_concat]
    · rwa [List.dropLast_concat]
  have hseam : Parts ((h.join p e).join e n) head xs (e :: ys) p e := by
    refine ⟨hparts.last, rfl, hfront, ?_, Joined.join (joined_join h p e) hepn.1.symm hepn.2⟩
    refine List.isChain_cons.mpr ⟨fun y hy => ?_, hback⟩
    rw [Option.mem_def] at hy
    rw [Option.some.inj (hy.symm.trans hparts.first)]
    exact joined_join _ e n
  refine ⟨?_, (parts_iff hparts.last rfl).mpr hseam⟩
  have hperm : (head :: (xs ++ e :: ys)).Perm (e :: head :: (xs ++ ys)) :=
    (List.perm_middle.cons head).trans (List.Perm.swap e head _)
  rw [hperm.nodup_iff, List.nodup_cons]
  refine ⟨fun hmem => ?_, hc.nodup⟩
  cases List.mem_cons.mp hmem with
  | inl hmem => exact hehead hmem
  | inr hmem => exact (List.mem_append.mp hmem).elim hexs heys

omit [DecidableEq α] in
/-- The nodes around a node. -/
theorem around (hc : Circular h head (xs ++ e :: ys)) :
    ∃ p n, (head :: xs).getLast? = some p ∧ (ys ++ [head]).head? = some n ∧ h.prev e = p ∧ h.next e = n ∧
      e ∉ head :: xs ∧ e ∉ ys ++ [head] := by
  obtain ⟨p, hp⟩ := exists_last head xs
  obtain ⟨n, hn⟩ := exists_first ys head
  have hparts : Parts h head xs (e :: ys) p e := (parts_iff hp rfl).mp hc.path
  have hnext : h.next e = n := ((List.isChain_cons.mp hparts.back).1 n hn).1
  have hsplit : ((head :: xs) ++ e :: ys).Nodup := hc.nodup
  obtain ⟨-, hys, hdisjoint⟩ := List.nodup_append.mp hsplit
  refine ⟨p, n, hp, hn, hparts.seam.2, hnext, fun hmem => hdisjoint e hmem e List.mem_cons_self rfl, fun hmem => ?_⟩
  cases List.mem_append.mp hmem with
  | inl hmem => exact (List.nodup_cons.mp hys).1 hmem
  | inr hmem => exact hdisjoint head List.mem_cons_self e List.mem_cons_self (List.mem_singleton.mp hmem).symm

/-- The nodes around a node are joined. -/
theorem remove (hc : Circular h head (xs ++ e :: ys)) : Circular (h.join (h.prev e) (h.next e)) head (xs ++ ys) := by
  obtain ⟨p, n, hp, hn, hprev, hnext, -, -⟩ := hc.around
  have hparts : Parts h head xs (e :: ys) p e := (parts_iff hp rfl).mp hc.path
  have hnodup : (head :: (xs ++ ys)).Nodup := by
    have hperm : (head :: (xs ++ e :: ys)).Perm (e :: head :: (xs ++ ys)) :=
      (List.perm_middle.cons head).trans (List.Perm.swap e head _)
    exact (List.nodup_cons.mp (hperm.nodup_iff.mp hc.nodup)).2
  rw [hprev, hnext]
  have hjoined : Parts (h.join p n) head xs ys p n := by
    have happart := apart_of_nodup hp hn hnodup
    refine ⟨hp, hn, hparts.front.join happart.front_last happart.front_first, ?_, joined_join h p n⟩
    refine Linked.join (List.isChain_cons.mp hparts.back).2 ?_ happart.back_first
    rw [List.dropLast_concat]
    exact happart.back_last
  exact ⟨hnodup, (parts_iff hp hn).mpr hjoined⟩

/-- Joining two nodes outside a list leaves it alone. -/
theorem join_frame (hc : Circular h head xs) (hp : p ∉ head :: xs) (hn : n ∉ head :: xs) :
    Circular (h.join p n) head xs := by
  have hmem : ∀ a, a ∈ head :: xs ++ [head] → a ∈ head :: xs := by
    intro a ha
    cases List.mem_append.mp ha with
    | inl ha => exact ha
    | inr ha =>
        rw [List.mem_singleton.mp ha]
        exact List.mem_cons_self
  exact ⟨hc.nodup, hc.path.join (fun hin => hp (hmem p (List.mem_of_mem_dropLast hin)))
    fun hin => hn (hmem n (List.mem_of_mem_tail hin))⟩

omit [DecidableEq α] in
/-- The links forward do not leave a list. -/
theorem closed (hc : Circular h head xs) (ha : a ∈ head :: xs) : h.next a ∈ head :: xs := by
  obtain ⟨front, back, hsplit⟩ := List.append_of_mem ha
  obtain ⟨n, hn⟩ := exists_first back head
  have hpath := hc.path
  rw [hsplit, List.append_assoc, List.cons_append] at hpath
  have hnext : h.next a = n := ((List.isChain_cons.mp hpath.right_of_append).1 n hn).1
  rw [hnext, hsplit]
  cases back with
  | nil =>
      have hhead : n = head := Option.some.inj hn.symm
      rw [hhead, ← hsplit]
      exact List.mem_cons_self
  | cons b back =>
      obtain rfl : b = n := Option.some.inj hn
      simp

omit [DecidableEq α] in
/-- Two lists are apart, or the head of one of them is a node of the other. -/
theorem disjoint (hc : Circular h head xs) (hc' : Circular h head' zs) (hhead : head ∉ head' :: zs) :
    ∀ a ∈ head :: xs, a ∉ head' :: zs := by
  intro a ha hmem
  obtain ⟨front, back, hsplit⟩ := List.append_of_mem ha
  have hpath := hc.path
  rw [hsplit, List.append_assoc, List.cons_append] at hpath
  have hall := Linked.mem_of_closed (S := fun b => b ∈ head' :: zs) (fun b hb => hc'.closed hb) hpath.right_of_append hmem
  exact hhead (hall head (by simp))

end Circular

end Lib
end FreakOS
