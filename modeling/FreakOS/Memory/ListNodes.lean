import FreakOS.Lib.LinkedRing
import FreakOS.Memory.PageAllocator

/-!
# The lists of `list.h` as nodes

The functions of `list.h` on the links of all nodes.  Elsewhere the model has the sequence of nodes instead, with the
functions of `FreakOS.Base`.

* `initList`, `listAdd`, … — as in the source.
* `forEach` — `listForEach`, with a body that may delete the node that it visits.
* `Updates` — a list represents another sequence, and nothing else has changed.
* `lists_refine_sequences` — what the functions do to a list.
* `freeWalk_refines` — the walk of `ff_free_pages` on nodes and on the sequence.
-/

namespace FreakOS
namespace ListNodes

open Lib

section Source

variable {α : Type} [DecidableEq α]

/-- `elem->prev = value`. -/
def setPrev (h : LinkHeap α) (elem value : α) : LinkHeap α := { h with prev := Function.update h.prev elem value }

/-- `elem->next = value`. -/
def setNext (h : LinkHeap α) (elem value : α) : LinkHeap α := { h with next := Function.update h.next elem value }

/-- `initList(elem)`. -/
def initList (h : LinkHeap α) (elem : α) : LinkHeap α := setPrev (setNext h elem elem) elem elem

/-- `_list_add(elem, prev, next)`. -/
def listAddBetween (h : LinkHeap α) (elem prev next : α) : LinkHeap α :=
  let h := setNext (setPrev h next elem) prev elem
  setPrev (setNext h elem next) elem prev

/-- `_list_del(prev, next)`. -/
def listDelBetween (h : LinkHeap α) (prev next : α) : LinkHeap α := setPrev (setNext h prev next) next prev

/-- `listAddBefore(listelem, elem)`. -/
def listAddBefore (h : LinkHeap α) (listelem elem : α) : LinkHeap α := listAddBetween h elem (h.prev listelem) listelem

/-- `listAddAfter(listelem, elem)`. -/
def listAddAfter (h : LinkHeap α) (listelem elem : α) : LinkHeap α := listAddBetween h elem listelem (h.next listelem)

/-- `listAdd(list, new)`. -/
def listAdd (h : LinkHeap α) (list new : α) : LinkHeap α := listAddAfter h list new

/-- `listAddTail(listelem, new)`. -/
def listAddTail (h : LinkHeap α) (listelem new : α) : LinkHeap α := listAddBefore h listelem new

/-- `listDel(listelem)`. -/
def listDel (h : LinkHeap α) (listelem : α) : LinkHeap α := listDelBetween h (h.prev listelem) (h.next listelem)

/-- `listDelInit(listelem)`. -/
def listDelInit (h : LinkHeap α) (listelem : α) : LinkHeap α := initList (listDel h listelem) listelem

/-- `listIsEmpty(list)`. -/
def listIsEmpty (h : LinkHeap α) (list : α) : Bool := decide (h.next list = list)

/-- The loop of `listForEach(i, head)` from `i` on, with what the body has computed.  The body decides whether `del` is
called for `i`; the nodes that are visited are returned with these decisions, and nothing when the fuel is gone. -/
def forEachFrom {σ : Type} (del : LinkHeap α → α → LinkHeap α) (body : σ → LinkHeap α → α → σ × Bool) (head : α) :
    Nat → σ → LinkHeap α → α → Option (σ × LinkHeap α × List (α × Bool))
  | 0, _, _, _ => none
  | fuel + 1, s, h, i =>
      if i = head then some (s, h, [])
      else
        let r := body s h i
        let h := if r.2 then del h i else h
        (forEachFrom del body head fuel r.1 h (h.next i)).map fun done => (done.1, done.2.1, (i, r.2) :: done.2.2)

/-- `listForEach(i, head)`. -/
def forEach {σ : Type} (del : LinkHeap α → α → LinkHeap α) (body : σ → LinkHeap α → α → σ × Bool) (head : α)
    (fuel : Nat) (s : σ) (h : LinkHeap α) : Option (σ × LinkHeap α × List (α × Bool)) :=
  forEachFrom del body head fuel s h (h.next head)

/-! ### Sequences -/

/-- The sequence with a node in front of a member. -/
def insertBefore (listelem elem : α) : List α → List α
  | [] => []
  | x :: xs => if x = listelem then elem :: x :: xs else x :: insertBefore listelem elem xs

/-- What `listAddAfter` does to the sequence: the place is the head or a member. -/
def after (head listelem elem : α) (xs : List α) : List α :=
  if listelem = head then FreakOS.listAdd elem xs else FreakOS.listAddAfter listelem elem xs

/-- What `listAddBefore` does to the sequence. -/
def before (head listelem elem : α) (xs : List α) : List α :=
  if listelem = head then FreakOS.listAddTail elem xs else insertBefore listelem elem xs

/-- The visited nodes that are not deleted. -/
def kept (visited : List (α × Bool)) : List α := (visited.filter fun v => !v.2).map Prod.fst

/-- The list represents another sequence; no other node has changed apart from those that come new, and each other list
without these is as before. -/
structure Updates (h h' : LinkHeap α) (head : α) (xs xs' fresh : List α) : Prop where
  list : Circular h' head xs'
  frame : ∀ a, a ∉ head :: xs → a ∉ fresh → h'.next a = h.next a ∧ h'.prev a = h.prev a
  others : ∀ head' zs, Circular h head' zs → head ∉ head' :: zs → (∀ e ∈ fresh, e ∉ head' :: zs) → Circular h' head' zs

end Source

section Steps

variable {α : Type} [DecidableEq α] {h h' : LinkHeap α} {head elem listelem p n : α} {xs ys : List α}

theorem listDel_eq (h : LinkHeap α) (elem : α) : listDel h elem = h.join (h.prev elem) (h.next elem) := rfl

/-- The order of the four writes does not matter. -/
theorem listAddBetween_eq (hn : elem ≠ n) (h : LinkHeap α) : listAddBetween h elem p n = (h.join p elem).join elem n := by
  have hcomm : Function.update (Function.update h.prev n elem) elem p =
      Function.update (Function.update h.prev elem p) n elem := Function.update_comm hn.symm ..
  unfold listAddBetween
  exact congrArg (fun prev => LinkHeap.mk prev _) hcomm

/-- The new node comes behind its place. -/
theorem after_eq (hnodup : (head :: xs).Nodup) (hplace : listelem ∈ head :: xs) (elem : α) :
    ∃ ys zs, xs = ys ++ zs ∧ (head :: ys).getLast? = some listelem ∧ after head listelem elem xs = ys ++ elem :: zs := by
  unfold after
  by_cases hhead : listelem = head
  · rw [if_pos hhead]
    exact ⟨[], xs, rfl, congrArg some hhead.symm, rfl⟩
  · rw [if_neg hhead]
    obtain ⟨front, back, rfl⟩ := List.append_of_mem ((List.mem_cons.mp hplace).resolve_left hhead)
    have hfront : listelem ∉ front := by
      have hmiddle := List.nodup_middle.mp (List.nodup_cons.mp hnodup).2
      exact fun hmem => (List.nodup_cons.mp hmiddle).1 (List.mem_append_left back hmem)
    refine ⟨front ++ [listelem], back, by simp, ?_, ?_⟩
    · rw [← List.cons_append, List.getLast?_concat]
    · rw [listAddAfter_append hfront, List.append_assoc, List.singleton_append]

theorem insertBefore_append {x : α} (hx : x ∉ xs) (elem : α) (ys : List α) :
    insertBefore x elem (xs ++ x :: ys) = xs ++ elem :: x :: ys := by
  induction xs with
  | nil => exact if_pos rfl
  | cons y xs ih =>
      have hy : y ≠ x := fun heq => hx (heq ▸ List.mem_cons_self)
      rw [List.cons_append, insertBefore, if_neg hy, ih fun hmem => hx (List.mem_cons_of_mem y hmem)]
      rfl

/-- The new node comes in front of its place, and of the head at the end. -/
theorem before_eq (hnodup : (head :: xs).Nodup) (hplace : listelem ∈ head :: xs) (elem : α) :
    ∃ ys zs, xs = ys ++ zs ∧ (zs ++ [head]).head? = some listelem ∧ before head listelem elem xs = ys ++ elem :: zs := by
  unfold before
  by_cases hhead : listelem = head
  · rw [if_pos hhead]
    exact ⟨xs, [], (List.append_nil xs).symm, congrArg some hhead.symm, rfl⟩
  · rw [if_neg hhead]
    obtain ⟨front, back, rfl⟩ := List.append_of_mem ((List.mem_cons.mp hplace).resolve_left hhead)
    have hfront : listelem ∉ front := by
      have hmiddle := List.nodup_middle.mp (List.nodup_cons.mp hnodup).2
      exact fun hmem => (List.nodup_cons.mp hmiddle).1 (List.mem_append_left back hmem)
    exact ⟨front, listelem :: back, rfl, rfl, insertBefore_append hfront elem back⟩

/-- A node outside the list and the new ones is not written, and other lists are left alone. -/
theorem Updates.of_joins (hc : Circular h head xs) (hp : p ∈ head :: xs) (hn : n ∈ head :: xs)
    (hlist : Circular ((h.join p elem).join elem n) head ys) :
    Updates h ((h.join p elem).join elem n) head xs ys [elem] where
  list := hlist
  frame := by
    intro a ha hfresh
    have hpa : a ≠ p := fun heq => ha (heq ▸ hp)
    have hna : a ≠ n := fun heq => ha (heq ▸ hn)
    have hea : a ≠ elem := fun heq => hfresh (List.mem_singleton.mpr heq)
    rw [join_next_of_ne _ hea, join_next_of_ne _ hpa, join_prev_of_ne _ hna, join_prev_of_ne _ hea]
    exact ⟨rfl, rfl⟩
  others := by
    intro head' zs hc' hhead hfresh
    have hdisjoint := hc.disjoint hc' hhead
    have he : elem ∉ head' :: zs := hfresh elem (List.mem_singleton.mpr rfl)
    exact (hc'.join_frame (hdisjoint p hp) he).join_frame he (hdisjoint n hn)

omit [DecidableEq α] in
theorem mem_of_first (hfirst : (ys ++ [head]).head? = some n) : n ∈ head :: ys := by
  cases ys with
  | nil => exact Option.some.inj hfirst ▸ List.mem_cons_self
  | cons y ys => exact Option.some.inj hfirst ▸ List.mem_cons_of_mem head List.mem_cons_self

/-- A node is added at the seam of two parts. -/
theorem addBetween_updates {zs : List α} (hc : Circular h head (ys ++ zs)) (hparts : Circular.Parts h head ys zs p n)
    (he : elem ∉ head :: (ys ++ zs)) :
    Updates h (listAddBetween h elem p n) head (ys ++ zs) (ys ++ elem :: zs) [elem] := by
  have hp : p ∈ head :: (ys ++ zs) := by
    have hmem : p ∈ head :: ys := List.mem_of_getLast? hparts.last
    exact List.cons_subset_cons head (List.subset_append_left ys zs) hmem
  have hn : n ∈ head :: (ys ++ zs) :=
    List.cons_subset_cons head (List.subset_append_right ys zs) (mem_of_first hparts.first)
  have hne : elem ≠ n := fun heq => he (heq ▸ hn)
  rw [listAddBetween_eq hne]
  exact .of_joins hc hp hn (hc.insert hparts he)

theorem listAddAfter_updates (hc : Circular h head xs) (hplace : listelem ∈ head :: xs) (he : elem ∉ head :: xs) :
    Updates h (listAddAfter h listelem elem) head xs (after head listelem elem xs) [elem] := by
  obtain ⟨ys, zs, rfl, hlast, hafter⟩ := after_eq hc.nodup hplace elem
  obtain ⟨p, n, hparts⟩ := hc.parts
  obtain rfl : listelem = p := Option.some.inj (hlast.symm.trans hparts.last)
  unfold listAddAfter
  rw [hafter, hparts.seam.1]
  exact addBetween_updates hc hparts he

theorem listAddBefore_updates (hc : Circular h head xs) (hplace : listelem ∈ head :: xs) (he : elem ∉ head :: xs) :
    Updates h (listAddBefore h listelem elem) head xs (before head listelem elem xs) [elem] := by
  obtain ⟨ys, zs, rfl, hfirst, hbefore⟩ := before_eq hc.nodup hplace elem
  obtain ⟨p, n, hparts⟩ := hc.parts
  obtain rfl : listelem = n := Option.some.inj (hfirst.symm.trans hparts.first)
  unfold listAddBefore
  rw [hbefore, hparts.seam.2]
  exact addBetween_updates hc hparts he

omit [DecidableEq α] in
/-- The nodes around a member of a list are in the list. -/
theorem around_mem (hc : Circular h head xs) (he : elem ∈ xs) :
    h.prev elem ∈ head :: xs ∧ h.next elem ∈ head :: xs ∧ h.prev elem ≠ elem ∧ h.next elem ≠ elem := by
  obtain ⟨front, back, rfl⟩ := List.append_of_mem he
  obtain ⟨p, n, hlast, hfirst, hprev, hnext, hfront, hback⟩ := hc.around
  have hp : p ∈ head :: front := List.mem_of_getLast? hlast
  have hn : n ∈ back ++ [head] := List.mem_of_head? hfirst
  rw [hprev, hnext]
  refine ⟨List.cons_subset_cons head (List.subset_append_left front _) hp, ?_, fun heq => hfront (heq ▸ hp),
    fun heq => hback (heq ▸ hn)⟩
  simp only [List.mem_append, List.mem_cons, List.not_mem_nil, or_false] at hn ⊢
  tauto

theorem listDel_updates (hc : Circular h head xs) (he : elem ∈ xs) :
    Updates h (listDel h elem) head xs (FreakOS.listDel elem xs) [] := by
  obtain ⟨hp, hn, -, -⟩ := around_mem hc he
  rw [listDel_eq]
  refine ⟨?_, fun a ha _ => ?_, fun head' zs hc' hhead _ => ?_⟩
  · obtain ⟨front, back, rfl⟩ := List.append_of_mem he
    have hfront : elem ∉ front := by
      have hmiddle := List.nodup_middle.mp (List.nodup_cons.mp hc.nodup).2
      exact fun hmem => (List.nodup_cons.mp hmiddle).1 (List.mem_append_left back hmem)
    unfold FreakOS.listDel
    rw [List.erase_append_right _ hfront, List.erase_cons_head]
    exact hc.remove
  · rw [join_next_of_ne _ (ne_of_mem_of_not_mem hp ha).symm, join_prev_of_ne _ (ne_of_mem_of_not_mem hn ha).symm]
    exact ⟨rfl, rfl⟩
  · have hdisjoint := hc.disjoint hc' hhead
    exact hc'.join_frame (hdisjoint _ hp) (hdisjoint _ hn)

theorem initList_eq (h : LinkHeap α) (elem : α) : initList h elem = h.join elem elem := rfl

/-- A node alone is the head of an empty list. -/
theorem initList_circular (h : LinkHeap α) (elem : α) : Circular (initList h elem) elem [] :=
  ⟨List.nodup_singleton elem, List.isChain_pair.mpr (joined_join h elem elem)⟩

theorem listDelInit_updates (hc : Circular h head xs) (he : elem ∈ xs) :
    Updates h (listDelInit h elem) head xs (FreakOS.listDel elem xs) [] := by
  have hdel := listDel_updates hc he
  have hout : elem ∉ head :: FreakOS.listDel elem xs := by
    have hnodup := List.nodup_cons.mp hc.nodup
    intro hmem
    cases List.mem_cons.mp hmem with
    | inl heq => exact hnodup.1 (heq ▸ he)
    | inr hmem => exact hnodup.2.not_mem_erase hmem
  unfold listDelInit
  rw [initList_eq]
  refine ⟨hdel.list.join_frame hout hout, fun a ha hfresh => ?_, fun head' zs hc' hhead hfresh => ?_⟩
  · have hne : a ≠ elem := fun heq => ha (heq ▸ List.mem_cons_of_mem head he)
    rw [join_next_of_ne _ hne, join_prev_of_ne _ hne]
    exact hdel.frame a ha hfresh
  · have helem := hc.disjoint hc' hhead elem (List.mem_cons_of_mem head he)
    exact (hdel.others head' zs hc' hhead hfresh).join_frame helem helem

theorem listIsEmpty_iff (hc : Circular h head xs) : listIsEmpty h head = true ↔ xs = [] := by
  obtain ⟨n, hn⟩ := Circular.exists_first xs head
  have hparts : Circular.Parts h head [] xs head n := (Circular.parts_iff rfl hn).mp hc.path
  unfold listIsEmpty
  rw [decide_eq_true_eq, hparts.seam.1]
  cases xs with
  | nil => exact iff_of_true (Option.some.inj hn).symm rfl
  | cons x xs =>
      obtain rfl : x = n := Option.some.inj hn
      refine iff_of_false (fun heq => ?_) (List.cons_ne_nil x xs)
      exact (List.nodup_cons.mp hc.nodup).1 (heq ▸ List.mem_cons_self)

end Steps

section Walks

variable {α σ : Type} [DecidableEq α] {h h₁ h₂ : LinkHeap α} {head i : α} {xs ys zs : List α}

omit [DecidableEq α] in
theorem Updates.refl (hc : Circular h head xs) : Updates h h head xs xs [] :=
  ⟨hc, fun _ _ _ => ⟨rfl, rfl⟩, fun _ _ hc' _ _ => hc'⟩

omit [DecidableEq α] in
/-- Another update follows that concerns the nodes that are left. -/
theorem Updates.trans (h1 : Updates h h₁ head xs ys []) (h2 : Updates h₁ h₂ head ys zs []) (hsub : ys ⊆ xs) :
    Updates h h₂ head xs zs [] where
  list := h2.list
  frame := by
    intro a ha hfresh
    have hafter := h2.frame a (fun hmem => ha (List.cons_subset_cons head hsub hmem)) hfresh
    have hbefore := h1.frame a ha hfresh
    exact ⟨hafter.1.trans hbefore.1, hafter.2.trans hbefore.2⟩
  others := fun head' zs' hc' hhead hfresh => h2.others head' zs' (h1.others head' zs' hc' hhead hfresh) hhead hfresh

omit [DecidableEq α] in
theorem kept_cons (i : α) (deleted : Bool) (visited : List (α × Bool)) :
    kept ((i, deleted) :: visited) = if deleted then kept visited else i :: kept visited := by
  cases deleted <;> rfl

/-- The walk from a node on visits the nodes behind it; a node that is deleted still leads to the next one. -/
theorem forEachFrom_visits (body : σ → LinkHeap α → α → σ × Bool) (s : σ) {fuel : Nat}
    (hc : Circular h head (xs ++ ys)) (hi : (ys ++ [head]).head? = some i) (hfuel : ys.length < fuel) :
    ∃ s' h' visited, forEachFrom listDel body head fuel s h i = some (s', h', visited) ∧ visited.map Prod.fst = ys ∧
      Updates h h' head (xs ++ ys) (xs ++ kept visited) [] := by
  induction ys generalizing xs h s i fuel with
  | nil =>
      obtain ⟨fuel, rfl⟩ : ∃ k, fuel = k + 1 := ⟨fuel - 1, by omega⟩
      obtain rfl : head = i := Option.some.inj hi
      refine ⟨s, h, [], ?_, rfl, .refl hc⟩
      rw [forEachFrom, if_pos rfl]
  | cons y ys ih =>
      obtain ⟨fuel, rfl⟩ : ∃ k, fuel = k + 1 := ⟨fuel - 1, by omega⟩
      obtain rfl : y = i := Option.some.inj hi
      have hhead : y ≠ head := by
        intro heq
        exact (List.nodup_cons.mp hc.nodup).1 (heq ▸ List.mem_append_right xs List.mem_cons_self)
      obtain ⟨p, n, -, hfirst, -, hnext, -, -⟩ := hc.around
      have hlen : ys.length < fuel := Nat.lt_of_succ_lt_succ hfuel
      rw [forEachFrom, if_neg hhead]
      cases hr : (body s h y).2 with
      | false =>
          have hrest : (ys ++ [head]).head? = some (h.next y) := by rw [hfirst, hnext]
          have hc' : Circular h head ((xs ++ [y]) ++ ys) := by
            rwa [List.append_assoc, List.singleton_append]
          obtain ⟨s', h', visited, hwalk, hvisited, hupdates⟩ := ih (body s h y).1 hc' hrest hlen
          refine ⟨s', h', (y, false) :: visited, ?_, congrArg (List.cons y) hvisited, ?_⟩
          · simp only [hr, Bool.false_eq_true, if_false, hwalk]
            rfl
          · rw [kept_cons]
            simpa using hupdates
      | true =>
          have hmem : y ∈ xs ++ y :: ys := List.mem_append_right xs List.mem_cons_self
          have hdel := listDel_updates hc hmem
          have herase : FreakOS.listDel y (xs ++ y :: ys) = xs ++ ys := by
            have hmiddle := List.nodup_middle.mp (List.nodup_cons.mp hc.nodup).2
            have hout : y ∉ xs := fun hx => (List.nodup_cons.mp hmiddle).1 (List.mem_append_left ys hx)
            unfold FreakOS.listDel
            rw [List.erase_append_right _ hout, List.erase_cons_head]
          rw [herase] at hdel
          have hkeeps : (listDel h y).next y = h.next y := by
            rw [listDel_eq]
            exact join_next_of_ne h (around_mem hc hmem).2.2.1.symm _
          have hrest : (ys ++ [head]).head? = some ((listDel h y).next y) := by rw [hkeeps, hfirst, hnext]
          obtain ⟨s', h', visited, hwalk, hvisited, hupdates⟩ := ih (body s h y).1 hdel.list hrest hlen
          refine ⟨s', h', (y, true) :: visited, ?_, congrArg (List.cons y) hvisited, ?_⟩
          · simp only [hr, if_true, hwalk]
            rfl
          · have hsub : xs ++ ys ⊆ xs ++ y :: ys :=
              List.append_subset.mpr ⟨List.subset_append_left xs _, fun a ha => by simp [ha]⟩
            rw [kept_cons, if_pos rfl]
            exact hdel.trans hupdates hsub

/-- The walk visits the list, whatever it deletes of what it has visited. -/
theorem forEach_visits (body : σ → LinkHeap α → α → σ × Bool) (s : σ) {fuel : Nat} (hc : Circular h head xs)
    (hfuel : xs.length < fuel) :
    ∃ s' h' visited, forEach listDel body head fuel s h = some (s', h', visited) ∧ visited.map Prod.fst = xs ∧
      Updates h h' head xs (kept visited) [] := by
  obtain ⟨n, hn⟩ := Circular.exists_first xs head
  have hparts : Circular.Parts h head [] xs head n := (Circular.parts_iff rfl hn).mp hc.path
  rw [← hparts.seam.1] at hn
  have hall : Circular h head ([] ++ xs) := hc
  exact forEachFrom_visits body s hall hn hfuel

/-- A node that is deleted with `listDelInit` leads to itself. -/
theorem forEachFrom_spins (s : σ) (h : LinkHeap α) (hi : i ≠ head) (fuel : Nat) :
    forEachFrom listDelInit (fun s _ _ => (s, true)) head fuel s h i = none := by
  induction fuel generalizing h with
  | zero => rfl
  | succ fuel ih =>
      have hself : (listDelInit h i).next i = i := by
        unfold listDelInit
        rw [initList_eq]
        exact (joined_join _ i i).1
      rw [forEachFrom, if_neg hi]
      simp only [if_true, hself, ih]
      rfl

theorem forEach_spins (s : σ) (hc : Circular h head xs) (hxs : xs ≠ []) (fuel : Nat) :
    forEach listDelInit (fun s _ _ => (s, true)) head fuel s h = none := by
  refine forEachFrom_spins s h (fun heq => hxs ?_) fuel
  exact (listIsEmpty_iff hc).mp (decide_eq_true heq)

/-- What the walk computes when its body does not look at the links. -/
def sweep (f : σ → α → σ × Bool) : σ → List α → σ × List (α × Bool)
  | s, [] => (s, [])
  | s, x :: xs => ((sweep f (f s x).1 xs).1, (x, (f s x).2) :: (sweep f (f s x).1 xs).2)

theorem forEachFrom_sweep (f : σ → α → σ × Bool) {fuel : Nat} {s s' : σ} {h' : LinkHeap α} {visited : List (α × Bool)}
    (hwalk : forEachFrom listDel (fun s _ i => f s i) head fuel s h i = some (s', h', visited)) :
    sweep f s (visited.map Prod.fst) = (s', visited) := by
  induction fuel generalizing s s' h h' i visited with
  | zero => cases hwalk
  | succ fuel ih =>
      rw [forEachFrom] at hwalk
      by_cases hi : i = head
      · rw [if_pos hi] at hwalk
        cases hwalk
        rfl
      · rw [if_neg hi] at hwalk
        obtain ⟨done, hrest, hdone⟩ := Option.map_eq_some_iff.mp hwalk
        obtain ⟨s'', h'', visited'⟩ := done
        have hsweep := ih hrest
        cases hdone
        rw [List.map_cons, sweep, hsweep]

end Walks

/-! ### `ff_free_pages` -/

open Memory (PhyPageBlock mergeLoop mergeBlocks)

/-- The nodes of the free list: its head in `FreeArea`, and those in `Pages`. -/
inductive Node where
  | freeArea
  | page (p : Nat)
deriving DecidableEq

/-- The body of the second loop of `ff_free_pages`, with `Pages` and `base`. -/
def mergeBody (s : (Nat → PhyPageBlock) × Nat) : Node → ((Nat → PhyPageBlock) × Nat) × Bool
  | .freeArea => (s, false)
  | .page p =>
      if s.2 + (s.1 s.2).property = p then ((mergeBlocks s.1 s.2 p, s.2), true)
      else if p + (s.1 p).property = s.2 then ((mergeBlocks s.1 p s.2, p), true)
      else (s, false)

/-- The second loop of `ff_free_pages` on nodes, and the `listAdd` behind it. -/
def freeWalk (fuel : Nat) (pages : Nat → PhyPageBlock) (base : Nat) (h : LinkHeap Node) :
    Option (((Nat → PhyPageBlock) × Nat) × LinkHeap Node) :=
  (forEach listDel (fun s _ i => mergeBody s i) .freeArea fuel (pages, base) h).map fun done =>
    (done.1, listAdd done.2.1 .freeArea (.page done.1.2))

section FreePages

variable {pages : Nat → PhyPageBlock} {base : Nat} {xs : List Nat} {h : LinkHeap Node}

/-- On the sequence, the walk computes what `mergeLoop` does. -/
theorem sweep_mergeBody (pages : Nat → PhyPageBlock) (base : Nat) (xs : List Nat) :
    (sweep mergeBody (pages, base) (xs.map .page)).1 = ((mergeLoop pages base xs).1, (mergeLoop pages base xs).2.1) ∧
      kept (sweep mergeBody (pages, base) (xs.map .page)).2 = (mergeLoop pages base xs).2.2.map .page := by
  induction xs generalizing pages base with
  | nil => exact ⟨rfl, rfl⟩
  | cons p xs ih =>
      rw [List.map_cons, sweep, kept_cons, mergeLoop, mergeBody]
      by_cases hnext : base + (pages base).property = p
      · rw [if_pos hnext, if_pos hnext, if_pos rfl]
        exact ih (mergeBlocks pages base p) base
      · rw [if_neg hnext, if_neg hnext]
        by_cases hprev : p + (pages p).property = base
        · rw [if_pos hprev, if_pos hprev, if_pos rfl]
          exact ih (mergeBlocks pages p base) p
        · rw [if_neg hprev, if_neg hprev]
          obtain ⟨hstate, hkept⟩ := ih pages base
          exact ⟨hstate, congrArg (List.cons (Node.page p)) hkept⟩

/-- The block that is put back is not on the list. -/
theorem mergeLoop_base (pages : Nat → PhyPageBlock) (hnodup : (base :: xs).Nodup) :
    (mergeLoop pages base xs).2.1 ∉ (mergeLoop pages base xs).2.2 ∧
      (mergeLoop pages base xs).2.2 ⊆ xs ∧ (mergeLoop pages base xs).2.1 ∈ base :: xs := by
  induction xs generalizing pages base with
  | nil => exact ⟨List.not_mem_nil, List.Subset.refl _, List.mem_singleton.mpr rfl⟩
  | cons p xs ih =>
      obtain ⟨hbase, hxs⟩ := List.nodup_cons.mp hnodup
      have hbasexs : base ∉ xs := fun hmem => hbase (List.mem_cons_of_mem p hmem)
      rw [mergeLoop]
      by_cases hnext : base + (pages base).property = p
      · rw [if_pos hnext]
        obtain ⟨hout, hsub, hmem⟩ := ih (mergeBlocks pages base p) (List.nodup_cons.mpr ⟨hbasexs, (List.nodup_cons.mp hxs).2⟩)
        exact ⟨hout, fun x hx => List.mem_cons_of_mem p (hsub hx),
          List.cons_subset_cons base (List.subset_cons_self p xs) hmem⟩
      · rw [if_neg hnext]
        by_cases hprev : p + (pages p).property = base
        · rw [if_pos hprev]
          obtain ⟨hout, hsub, hmem⟩ := ih (mergeBlocks pages p base) hxs
          exact ⟨hout, fun x hx => List.mem_cons_of_mem p (hsub hx), List.mem_cons_of_mem base hmem⟩
        · rw [if_neg hprev]
          obtain ⟨hout, hsub, hmem⟩ := ih pages (List.nodup_cons.mpr ⟨hbasexs, (List.nodup_cons.mp hxs).2⟩)
          refine ⟨fun hin => ?_, List.cons_subset_cons p hsub, List.cons_subset_cons base (List.subset_cons_self p xs) hmem⟩
          cases List.mem_cons.mp hin with
          | inl heq =>
              rw [heq] at hmem
              cases List.mem_cons.mp hmem with
              | inl hpb => exact hbase (hpb ▸ List.mem_cons_self)
              | inr hpx => exact (List.nodup_cons.mp hxs).1 hpx
          | inr hin => exact hout hin

/-- `ff_free_pages` on nodes does what it does on the sequence. -/
theorem freeWalk_refines (hc : Circular h .freeArea (xs.map .page)) (hbase : base ∉ xs) {fuel : Nat}
    (hfuel : xs.length < fuel) :
    ∃ h', freeWalk fuel pages base h = some (((mergeLoop pages base xs).1, (mergeLoop pages base xs).2.1), h') ∧
      Circular h' .freeArea
        ((FreakOS.listAdd (mergeLoop pages base xs).2.1 (mergeLoop pages base xs).2.2).map .page) := by
  have hxs : xs.Nodup := (List.nodup_cons.mp hc.nodup).2.of_map
  obtain ⟨hout, -, -⟩ := mergeLoop_base pages (List.nodup_cons.mpr ⟨hbase, hxs⟩)
  obtain ⟨hstate, hkept⟩ := sweep_mergeBody pages base xs
  obtain ⟨s', h', visited, hwalk, hvisited, hupdates⟩ :=
    forEach_visits (fun s _ i => mergeBody s i) (pages, base) hc (by rwa [List.length_map])
  have hsweep := forEachFrom_sweep mergeBody hwalk
  rw [hvisited] at hsweep
  rw [hsweep] at hstate hkept
  have hlist : Circular h' .freeArea ((mergeLoop pages base xs).2.2.map .page) := hkept ▸ hupdates.list
  have hfresh : Node.page (mergeLoop pages base xs).2.1 ∉ Node.freeArea :: (mergeLoop pages base xs).2.2.map .page := by
    intro hmem
    cases List.mem_cons.mp hmem with
    | inl heq => cases heq
    | inr hmem =>
        obtain ⟨x, hx, heq⟩ := List.mem_map.mp hmem
        exact hout (Node.page.inj heq ▸ hx)
  have hadd := listAddAfter_updates hlist List.mem_cons_self hfresh
  unfold after at hadd
  rw [if_pos rfl] at hadd
  refine ⟨_, ?_, hadd.list⟩
  obtain rfl : s' = _ := hstate
  unfold freeWalk
  rw [hwalk]
  rfl

end FreePages

/-- The functions of `list.h` do to a circular list what the functions on sequences do, and leave every other list alone
that has none of the nodes involved.  `listForEach` visits the nodes in order and ends, also if its body deletes nodes
that it visits with `listDel`; with `listDelInit` it does not. -/
theorem lists_refine_sequences {α σ : Type} [DecidableEq α] (h : LinkHeap α) (head : α) (xs : List α)
    (hc : Circular h head xs) :
    (∀ listelem ∈ head :: xs, ∀ elem ∉ head :: xs,
      Updates h (listAddAfter h listelem elem) head xs (after head listelem elem xs) [elem] ∧
      Updates h (listAdd h listelem elem) head xs (after head listelem elem xs) [elem] ∧
      Updates h (listAddBefore h listelem elem) head xs (before head listelem elem xs) [elem] ∧
      Updates h (listAddTail h listelem elem) head xs (before head listelem elem xs) [elem]) ∧
    (∀ elem ∈ xs, Updates h (listDel h elem) head xs (FreakOS.listDel elem xs) [] ∧
      Updates h (listDelInit h elem) head xs (FreakOS.listDel elem xs) [] ∧ Circular (listDelInit h elem) elem []) ∧
    (∀ (body : σ → LinkHeap α → α → σ × Bool) (s : σ) (fuel : Nat), xs.length < fuel →
      ∃ s' h' visited, forEach listDel body head fuel s h = some (s', h', visited) ∧ visited.map Prod.fst = xs ∧
        Updates h h' head xs (kept visited) []) ∧
    (xs ≠ [] → ∀ (s : σ) (fuel : Nat), forEach listDelInit (fun s _ _ => (s, true)) head fuel s h = none) := by
  refine ⟨fun listelem hplace elem he => ?_, fun elem he => ?_, fun body s fuel hfuel => forEach_visits body s hc hfuel,
    fun hxs s fuel => forEach_spins s hc hxs fuel⟩
  · have hafter := listAddAfter_updates hc hplace he
    have hbefore := listAddBefore_updates hc hplace he
    exact ⟨hafter, hafter, hbefore, hbefore⟩
  · exact ⟨listDel_updates hc he, listDelInit_updates hc he, initList_circular _ elem⟩

/-- Three nodes: the list of 0 is empty, and the list of 1 has the node 2. -/
def twoLists : LinkHeap Nat where
  prev := fun a => if a = 0 then 0 else if a = 1 then 2 else 1
  next := fun a => if a = 0 then 0 else if a = 1 then 2 else 1

theorem twoLists_circular : Circular twoLists 0 [] ∧ Circular twoLists 1 [2] :=
  ⟨⟨by decide, by unfold Linked; decide⟩, ⟨by decide, by unfold Linked; decide⟩⟩

/-- `lists_refine_sequences` for the list of 1. -/
theorem lists_refine_sequences_two :
    (∀ listelem ∈ [1, 2], ∀ elem ∉ [1, 2],
      Updates twoLists (listAddAfter twoLists listelem elem) 1 [2] (after 1 listelem elem [2]) [elem] ∧
      Updates twoLists (listAdd twoLists listelem elem) 1 [2] (after 1 listelem elem [2]) [elem] ∧
      Updates twoLists (listAddBefore twoLists listelem elem) 1 [2] (before 1 listelem elem [2]) [elem] ∧
      Updates twoLists (listAddTail twoLists listelem elem) 1 [2] (before 1 listelem elem [2]) [elem]) ∧
    (∀ elem ∈ [2], Updates twoLists (listDel twoLists elem) 1 [2] (FreakOS.listDel elem [2]) [] ∧
      Updates twoLists (listDelInit twoLists elem) 1 [2] (FreakOS.listDel elem [2]) [] ∧
      Circular (listDelInit twoLists elem) elem []) ∧
    (∀ (body : Unit → LinkHeap Nat → Nat → Unit × Bool) (s : Unit) (fuel : Nat), 1 < fuel →
      ∃ s' h' visited, forEach listDel body 1 fuel s twoLists = some (s', h', visited) ∧ visited.map Prod.fst = [2] ∧
        Updates twoLists h' 1 [2] (kept visited) []) ∧
    ([2] ≠ [] → ∀ (s : Unit) (fuel : Nat), forEach listDelInit (fun s _ _ => (s, true)) 1 fuel s twoLists = none) :=
  lists_refine_sequences twoLists 1 [2] twoLists_circular.2

/-- The node 2 is added to the list of 0, which does not have it: the list of 1 is no list any more. -/
theorem listAdd_takes_from_other : Circular twoLists 0 [] ∧ Circular twoLists 1 [2] ∧ 2 ∉ [0] ∧
    ¬ ∃ xs, Circular (listAdd twoLists 0 2) 1 xs := by
  refine ⟨twoLists_circular.1, twoLists_circular.2, by decide, fun h => ?_⟩
  obtain ⟨xs, hc⟩ := h
  obtain ⟨n, hn⟩ := Circular.exists_first xs 1
  have hparts : Circular.Parts (listAdd twoLists 0 2) 1 [] xs 1 n := (Circular.parts_iff rfl hn).mp hc.path
  obtain rfl : 2 = n := hparts.seam.1
  exact absurd hparts.seam.2 (by decide)

end ListNodes
end FreakOS
