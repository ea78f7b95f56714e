import Mathlib.Tactic

/-!
# Trees stored with four pointers

A node knows its parent, its first child and its two neighbours among the children of its parent.  `Forest` says
that such a store represents the lists `kids` of children, and the lemmas below it say what happens when a node is
put in front of a list of children, taken out of one, or moved.

* `nextIn`, `prevIn` — the neighbours of an element in a list.
* `edit` — write to one node.
* `Forest.attach`, `Forest.detach`, `Forest.detachFirst`, `Forest.insert`, `Forest.remove`.
* `Forest.walk` — following the pointers from a node gives the list of its children.
-/

namespace FreakOS
namespace Lib

section Neighbours

variable {α : Type} {null : α}

/-- An element of a list without repetitions cuts it in two. -/
theorem split_of_mem {l : List α} (hnodup : l.Nodup) {a : α} (ha : a ∈ l) :
    ∃ pre post, l = pre ++ a :: post ∧ a ∉ pre ∧ a ∉ post := by
  obtain ⟨pre, post, rfl⟩ := List.append_of_mem ha
  rw [List.nodup_append, List.nodup_cons] at hnodup
  obtain ⟨-, ⟨hpost, -⟩, hpre⟩ := hnodup
  exact ⟨pre, post, rfl, fun hmem => hpre a hmem a (List.mem_cons_self ..) rfl, hpost⟩

theorem headD_mem {l : List α} (h : l.headD null ≠ null) : l.headD null ∈ l := by
  cases l with
  | nil => exact absurd rfl h
  | cons x xs => simp

variable [DecidableEq α]

/-- What comes after `a` in a list. -/
def nextIn (null : α) : List α → α → α
  | [], _ => null
  | x :: xs, a => if a = x then xs.headD null else nextIn null xs a

/-- What comes before `a` in a list. -/
def prevIn (null : α) (l : List α) (a : α) : α := nextIn null l.reverse a

theorem nextIn_split {pre post : List α} {a : α} (ha : a ∉ pre) :
    nextIn null (pre ++ a :: post) a = post.headD null := by
  induction pre with
  | nil => simp [nextIn]
  | cons x xs ih =>
      rw [List.mem_cons, not_or] at ha
      simp [nextIn, ha.1, ih ha.2]

theorem prevIn_split {pre post : List α} {a : α} (ha : a ∉ post) :
    prevIn null (pre ++ a :: post) a = pre.reverse.headD null := by
  unfold prevIn
  rw [List.reverse_append, List.reverse_cons, List.append_assoc]
  exact nextIn_split (by simpa using ha)

/-- Two elements are neighbours from both sides. -/
theorem nextIn_eq_iff {l : List α} (hnodup : l.Nodup) (hnull : null ∉ l) {a b : α} (ha : a ∈ l) (hb : b ∈ l) :
    nextIn null l a = b ↔ prevIn null l b = a := by
  constructor
  · rintro rfl
    obtain ⟨pre, post, rfl, hpre, hpost⟩ := split_of_mem hnodup ha
    rw [nextIn_split hpre] at hb ⊢
    cases post with
    | nil =>
        rw [List.headD_nil] at hb
        exact absurd hb hnull
    | cons c cs =>
        have hc : c ∉ cs := by
          rw [List.nodup_append, List.nodup_cons, List.nodup_cons] at hnodup
          exact hnodup.2.1.2.1
        have hcut : pre ++ a :: c :: cs = (pre ++ [a]) ++ c :: cs := by simp
        rw [List.headD_cons, hcut, prevIn_split hc]
        simp
  · rintro rfl
    obtain ⟨pre, post, rfl, hpre, hpost⟩ := split_of_mem hnodup hb
    rw [prevIn_split hpost] at ha ⊢
    rcases List.eq_nil_or_concat pre with rfl | ⟨cs, c, rfl⟩
    · exact absurd ha hnull
    · have hc : c ∉ cs := by
        rw [List.concat_eq_append, List.append_assoc, List.nodup_append] at hnodup
        intro hmem
        exact hnodup.2.2 c hmem c (by simp) rfl
      have hcut : cs.concat c ++ b :: post = cs ++ c :: b :: post := by simp
      rw [hcut]
      simp [nextIn_split hc]

theorem nextIn_mem {l : List α} {a : α} (h : nextIn null l a ≠ null) : nextIn null l a ∈ l := by
  induction l with
  | nil => exact absurd rfl h
  | cons x xs ih =>
      unfold nextIn at h ⊢
      by_cases ha : a = x
      · rw [if_pos ha] at h ⊢
        exact List.mem_cons_of_mem _ (headD_mem h)
      · rw [if_neg ha] at h ⊢
        exact List.mem_cons_of_mem _ (ih h)

theorem prevIn_mem {l : List α} {a : α} (h : prevIn null l a ≠ null) : prevIn null l a ∈ l :=
  List.mem_reverse.mp (nextIn_mem h)

theorem nextIn_ne_self {l : List α} (hnodup : l.Nodup) (hnull : null ∉ l) {a : α} (ha : a ∈ l) :
    nextIn null l a ≠ a := by
  obtain ⟨pre, post, rfl, hpre, hpost⟩ := split_of_mem hnodup ha
  rw [nextIn_split hpre]
  intro heq
  by_cases hnil : post.headD null = null
  · exact hnull (hnil ▸ heq ▸ ha)
  · exact hpost (heq ▸ headD_mem hnil)

theorem erase_split {pre post : List α} {x : α} (hx : x ∉ pre) : (pre ++ x :: post).erase x = pre ++ post := by
  rw [List.erase_append_right _ hx, List.erase_cons_head]

/-- The first element when one element is taken out. -/
theorem headD_erase {l : List α} {x : α} (hnodup : l.Nodup) (hnull : null ∉ l) (hx : x ∈ l) :
    (l.erase x).headD null = if prevIn null l x = null then nextIn null l x else l.headD null := by
  obtain ⟨pre, post, rfl, hpre, hpost⟩ := split_of_mem hnodup hx
  rw [erase_split hpre, prevIn_split hpost, nextIn_split hpre]
  rcases List.eq_nil_or_concat pre with rfl | ⟨cs, c, rfl⟩
  · simp
  · have hc : c ≠ null := by
      rintro rfl
      exact hnull (by simp)
    rw [if_neg (by simpa using hc)]
    cases cs <;> simp

/-- The neighbours when one element is taken out. -/
theorem nextIn_erase {l : List α} {x a : α} (hnodup : l.Nodup) (hnull : null ∉ l) (hx : x ∈ l) (ha : a ∈ l)
    (hne : a ≠ x) : nextIn null (l.erase x) a = if nextIn null l a = x then nextIn null l x else nextIn null l a := by
  obtain ⟨pre, post, rfl, hpre, hpost⟩ := split_of_mem hnodup hx
  rw [erase_split hpre, nextIn_split hpre]
  rw [List.mem_append, List.mem_cons] at ha
  rcases ha with ha | ha | ha
  · -- `a` comes before `x`.
    obtain ⟨pre₁, pre₂, rfl, hpre₁, hpre₂⟩ := split_of_mem (List.nodup_append.mp hnodup).1 ha
    rw [List.append_assoc, List.append_assoc, List.cons_append, List.cons_append, nextIn_split hpre₁,
      nextIn_split hpre₁]
    cases pre₂ with
    | nil => simp
    | cons c cs =>
        have hc : c ≠ x := by
          rintro rfl
          exact hpre (by simp)
        simp [hc]
  · exact absurd ha hne
  · -- `a` comes after `x`.
    have hsub := (List.nodup_append.mp hnodup).2.1
    obtain ⟨post₁, post₂, rfl, hpost₁, hpost₂⟩ := split_of_mem (List.nodup_cons.mp hsub).2 ha
    have hapre : a ∉ pre := by
      intro hmem
      exact (List.nodup_append.mp hnodup).2.2 a hmem a (by simp) rfl
    have hcut₁ : pre ++ (post₁ ++ a :: post₂) = (pre ++ post₁) ++ a :: post₂ := by simp
    have hcut₂ : pre ++ x :: (post₁ ++ a :: post₂) = (pre ++ x :: post₁) ++ a :: post₂ := by simp
    rw [hcut₁, hcut₂, nextIn_split (by simp [hapre, hpost₁]), nextIn_split (by simp [hapre, hpost₁, hne])]
    have hhead : post₂.headD null ≠ x := by
      intro heq
      cases post₂ with
      | nil =>
          rw [List.headD_nil] at heq
          exact hnull (by simp [heq])
      | cons c cs => exact hpost (by simp [← heq])
    rw [if_neg hhead]

theorem prevIn_erase {l : List α} {x a : α} (hnodup : l.Nodup) (hnull : null ∉ l) (hx : x ∈ l) (ha : a ∈ l)
    (hne : a ≠ x) : prevIn null (l.erase x) a = if prevIn null l a = x then prevIn null l x else prevIn null l a := by
  have hreverse : (l.erase x).reverse = l.reverse.erase x := by
    rw [hnodup.erase_eq_filter, (List.nodup_reverse.mpr hnodup).erase_eq_filter, List.filter_reverse]
  unfold prevIn
  rw [hreverse]
  exact nextIn_erase (List.nodup_reverse.mpr hnodup) (by simpa using hnull) (by simpa using hx) (by simpa using ha) hne

/-- The neighbours when an element is put in front. -/
theorem nextIn_cons_of_ne {l : List α} {x a : α} (hne : a ≠ x) : nextIn null (x :: l) a = nextIn null l a := by
  simp [nextIn, hne]

theorem prevIn_cons_self {l : List α} {x : α} (hx : x ∉ l) : prevIn null (x :: l) x = null :=
  (show prevIn null ([] ++ x :: l) x = _ from prevIn_split hx).trans rfl

theorem prevIn_cons {l : List α} {x a : α} (hnodup : l.Nodup) (ha : a ∈ l) :
    prevIn null (x :: l) a = if l.head? = some a then x else prevIn null l a := by
  obtain ⟨pre, post, rfl, hpre, hpost⟩ := split_of_mem hnodup ha
  have hcut : x :: (pre ++ a :: post) = (x :: pre) ++ a :: post := rfl
  rw [hcut, prevIn_split hpost, prevIn_split hpost]
  cases pre with
  | nil => simp
  | cons c cs =>
      have hc : c ≠ a := by
        rintro rfl
        exact hpre (by simp)
      rcases List.eq_nil_or_concat cs with rfl | ⟨ds, d, rfl⟩ <;> simp [hc]

end Neighbours

/-! ### The store -/

/-- A node: its parent, its first child, and its neighbours among the children of its parent. -/
@[ext] structure Node (α : Type) where
  parent : α
  child : α
  younger : α
  older : α

section Store

variable {α : Type} [DecidableEq α]

/-- Write to the node at `a`. -/
def edit (f : α → Option (Node α)) (a : α) (g : Node α → Node α) : α → Option (Node α) :=
  Function.update f a ((f a).map g)

theorem edit_self (f : α → Option (Node α)) (a : α) (g : Node α → Node α) : edit f a g a = (f a).map g :=
  Function.update_self ..

theorem edit_of_ne (f : α → Option (Node α)) {a x : α} (g : Node α → Node α) (hx : x ≠ a) : edit f a g x = f x :=
  Function.update_of_ne hx _ _

/-- A node after a write. -/
theorem edit_eq_some {f : α → Option (Node α)} {a x : α} {g : Node α → Node α} {n' : Node α}
    (h : edit f a g x = some n') : ∃ n, f x = some n ∧ n' = if x = a then g n else n := by
  by_cases hx : x = a
  · subst hx
    rw [edit_self] at h
    obtain ⟨n, hn, rfl⟩ := Option.map_eq_some_iff.mp h
    exact ⟨n, hn, by simp⟩
  · rw [edit_of_ne f g hx] at h
    exact ⟨n', h, by simp [hx]⟩

theorem edit_isSome (f : α → Option (Node α)) (a x : α) (g : Node α → Node α) :
    (edit f a g x).isSome = (f x).isSome := by
  by_cases hx : x = a
  · subst hx
    simp [edit_self]
  · rw [edit_of_ne f g hx]

/-- Writes to different fields may change places. -/
theorem edit_comm (f : α → Option (Node α)) (a b : α) {g h : Node α → Node α} (hgh : ∀ n, h (g n) = g (h n)) :
    edit (edit f a g) b h = edit (edit f b h) a g := by
  funext x
  by_cases hab : a = b
  · subst hab
    by_cases hx : x = a
    · subst hx
      simp only [edit_self, Option.map_map]
      exact congrArg (fun e => (f x).map e) (funext hgh)
    · simp only [edit_of_ne _ _ hx]
  · by_cases hxa : x = a
    · subst hxa
      rw [edit_of_ne _ _ hab, edit_self, edit_self, edit_of_ne _ _ hab]
    · by_cases hxb : x = b
      · subst hxb
        rw [edit_self, edit_of_ne _ _ hxa, edit_of_ne _ _ hxa, edit_self]
      · simp only [edit_of_ne _ _ hxa, edit_of_ne _ _ hxb]

/-- Put `a` in front of the children of `p`, of which `o` is the first. -/
def attach (null : α) (f : α → Option (Node α)) (p a o : α) : α → Option (Node α) :=
  let f := edit f a fun n => { n with younger := null, older := o }
  let f := if o ≠ null then edit f o fun n => { n with younger := a } else f
  edit f p fun n => { n with child := a }

/-- The node may be told its parent in the middle. -/
theorem attach_edit_parent (null : α) (f : α → Option (Node α)) (p a o i : α) :
    edit (edit (if o ≠ null then
        edit (edit f a fun n => { n with younger := null, older := o }) o fun n => { n with younger := a }
      else edit f a fun n => { n with younger := null, older := o }) a fun n => { n with parent := i }) p
        (fun n => { n with child := a }) =
      attach null (edit f a fun n => { n with parent := i }) p a o := by
  have hself : edit (edit f a fun n => { n with younger := null, older := o }) a (fun n => { n with parent := i }) =
      edit (edit f a fun n => { n with parent := i }) a fun n => { n with younger := null, older := o } :=
    edit_comm f a a fun _ => rfl
  unfold attach
  congr 1
  split
  · rw [← hself]
    exact edit_comm _ o a fun _ => rfl
  · exact hself

/-- Take the node `a` with content `n` out of the children of its parent. -/
def detach (null : α) (f : α → Option (Node α)) (n : Node α) : α → Option (Node α) :=
  let f := if n.older ≠ null then edit f n.older fun o => { o with younger := n.younger } else f
  if n.younger ≠ null then edit f n.younger fun y => { y with older := n.older }
  else edit f n.parent fun p => { p with child := n.older }

/-- A node after `attach`. -/
theorem attach_eq_some {null : α} {f : α → Option (Node α)} {p a o x : α} {n' : Node α}
    (h : attach null f p a o x = some n') : ∃ n, f x = some n ∧ n'.parent = n.parent ∧
      n'.child = (if x = p then a else n.child) ∧
      n'.younger = (if o ≠ null ∧ x = o then a else if x = a then null else n.younger) ∧
      n'.older = if x = a then o else n.older := by
  unfold attach at h
  obtain ⟨n₂, h₂, rfl⟩ := edit_eq_some h
  by_cases ho : o = null
  · rw [if_neg (not_not.mpr ho)] at h₂
    obtain ⟨n, hn, rfl⟩ := edit_eq_some h₂
    refine ⟨n, hn, ?_, ?_, ?_, ?_⟩ <;> clear h h₂ <;> grind
  · rw [if_pos ho] at h₂
    obtain ⟨n₁, h₁, rfl⟩ := edit_eq_some h₂
    obtain ⟨n, hn, rfl⟩ := edit_eq_some h₁
    refine ⟨n, hn, ?_, ?_, ?_, ?_⟩ <;> clear h h₂ h₁ <;> grind

theorem attach_isSome (null : α) (f : α → Option (Node α)) (p a o x : α) :
    (attach null f p a o x).isSome = (f x).isSome := by
  unfold attach
  rw [edit_isSome]
  split
  · rw [edit_isSome, edit_isSome]
  · rw [edit_isSome]

/-- A node after `detach`. -/
theorem detach_eq_some {null : α} {f : α → Option (Node α)} {m : Node α} {x : α} {n' : Node α}
    (h : detach null f m x = some n') : ∃ n, f x = some n ∧ n'.parent = n.parent ∧
      n'.child = (if m.younger = null ∧ x = m.parent then m.older else n.child) ∧
      n'.younger = (if m.older ≠ null ∧ x = m.older then m.younger else n.younger) ∧
      n'.older = if m.younger ≠ null ∧ x = m.younger then m.older else n.older := by
  unfold detach at h
  have hfirst : ∀ n₁, (if m.older ≠ null then edit f m.older fun o => { o with younger := m.younger } else f) x =
      some n₁ → ∃ n, f x = some n ∧
        n₁ = if m.older ≠ null ∧ x = m.older then { n with younger := m.younger } else n := by
    intro n₁ h₁
    by_cases ho : m.older = null
    · rw [if_neg (not_not.mpr ho)] at h₁
      exact ⟨n₁, h₁, by simp [ho]⟩
    · rw [if_pos ho] at h₁
      obtain ⟨n, hn, rfl⟩ := edit_eq_some h₁
      exact ⟨n, hn, by simp [ho]⟩
  by_cases hy : m.younger = null
  · rw [if_neg (not_not.mpr hy)] at h
    obtain ⟨n₁, h₁, rfl⟩ := edit_eq_some h
    obtain ⟨n, hn, rfl⟩ := hfirst n₁ h₁
    refine ⟨n, hn, ?_, ?_, ?_, ?_⟩ <;> clear h h₁ hfirst <;> grind
  · rw [if_pos hy] at h
    obtain ⟨n₁, h₁, rfl⟩ := edit_eq_some h
    obtain ⟨n, hn, rfl⟩ := hfirst n₁ h₁
    refine ⟨n, hn, ?_, ?_, ?_, ?_⟩ <;> clear h h₁ hfirst <;> grind

theorem detach_isSome (null : α) (f : α → Option (Node α)) (m : Node α) (x : α) :
    (detach null f m x).isSome = (f x).isSome := by
  unfold detach
  split <;> split <;> simp only [edit_isSome]

end Store

/-! ### Forests -/

/-- The store `f` represents the lists `kids`, each node but `root` and `floating` among the children of its parent.
The first child of `loose` need not know that it is the first. -/
structure Forest {α : Type} [DecidableEq α] (null root loose floating : α) (f : α → Option (Node α))
    (kids : α → List α) : Prop where
  null_none : f null = none
  child : ∀ p n, f p = some n → n.child = (kids p).headD null
  older : ∀ p a n, a ∈ kids p → f a = some n → n.older = nextIn null (kids p) a
  younger : ∀ p a n, a ∈ kids p → f a = some n → (p = loose → (kids p).head? ≠ some a) →
    n.younger = prevIn null (kids p) a
  parent : ∀ p a, a ∈ kids p → ∃ n, f a = some n ∧ n.parent = p
  live : ∀ p a, a ∈ kids p → (f p).isSome
  mem : ∀ a n, f a = some n → a ≠ root → a ≠ floating → a ∈ kids n.parent
  out : ∀ p, floating ∉ kids p
  nodup : ∀ p, (kids p).Nodup
  irrefl : ∀ p, p ∉ kids p
  rootless : ∀ p, root ∉ kids p
  orphan : ∀ n, f root = some n → n.parent = null

namespace Forest

variable {α : Type} [DecidableEq α] {null root loose floating : α} {f : α → Option (Node α)} {kids : α → List α}

theorem null_not_mem (h : Forest null root loose floating f kids) (p : α) : null ∉ kids p := by
  intro hmem
  obtain ⟨n, hn, -⟩ := h.parent p null hmem
  rw [h.null_none] at hn
  simp at hn

/-- A node has one parent. -/
theorem parent_unique (h : Forest null root loose floating f kids) {p q a : α} (hp : a ∈ kids p) (hq : a ∈ kids q) :
    p = q := by
  obtain ⟨n, hn, rfl⟩ := h.parent p a hp
  obtain ⟨n', hn', rfl⟩ := h.parent q a hq
  rw [hn] at hn'
  rw [Option.some.inj hn']

/-- Nothing lives below an address at which there is no node. -/
theorem kids_of_none (h : Forest null root loose floating f kids) {p : α} (hp : f p = none) : kids p = [] := by
  rw [List.eq_nil_iff_forall_not_mem]
  intro a ha
  have := h.live p a ha
  simp [hp] at this

/-- The floating node is put in front of the children of its parent. -/
theorem attach {a p : α} {n : Node α} (h : Forest null root loose a f kids) (ha : f a = some n) (hparent : n.parent = p)
    (hp : (f p).isSome) (hne : p ≠ a) (hroot : a ≠ root) (hloose : p ≠ loose) :
    Forest null root loose null (attach null f p a ((kids p).headD null))
      (Function.update kids p (a :: kids p)) := by
  have hself : Function.update kids p (a :: kids p) p = a :: kids p := Function.update_self ..
  have hothers : ∀ q, q ≠ p → Function.update kids p (a :: kids p) q = kids q := fun q hq =>
    Function.update_of_ne hq _ _
  have hnode : ∀ x, (f x).isSome → ∃ n', Lib.attach null f p a ((kids p).headD null) x = some n' := fun x hx =>
    Option.isSome_iff_exists.mp (by rw [attach_isSome]; exact hx)
  have hmem : ∀ {q b}, b ∈ Function.update kids p (a :: kids p) q → (b = a ∧ q = p) ∨ (b ≠ a ∧ b ∈ kids q) := by
    intro q b hb
    by_cases hq : q = p
    · subst hq
      rw [hself, List.mem_cons] at hb
      rcases hb with hb | hb
      · exact Or.inl ⟨hb, rfl⟩
      · refine Or.inr ⟨?_, hb⟩
        rintro rfl
        exact h.out q hb
    · rw [hothers q hq] at hb
      refine Or.inr ⟨?_, hb⟩
      rintro rfl
      exact h.out q hb
  refine ⟨?_, ?_, ?_, ?_, ?_, ?_, ?_, ?_, ?_, ?_, ?_, ?_⟩
  · rw [← Option.not_isSome_iff_eq_none, attach_isSome, h.null_none]
    simp
  · intro x n' hx
    obtain ⟨m, hm, -, hchild, -, -⟩ := attach_eq_some hx
    rw [hchild]
    by_cases hxp : x = p
    · subst hxp
      rw [if_pos rfl, hself, List.headD_cons]
    · rw [if_neg hxp, hothers x hxp]
      exact h.child x m hm
  · intro q b n' hb hx
    obtain ⟨m, hm, -, -, -, holder⟩ := attach_eq_some hx
    rw [holder]
    rcases hmem hb with ⟨rfl, rfl⟩ | ⟨hba, hbq⟩
    · rw [hself]
      simp [nextIn]
    · rw [if_neg hba, h.older q b m hbq hm]
      by_cases hq : q = p
      · subst hq
        rw [hself, nextIn_cons_of_ne hba]
      · rw [hothers q hq]
  · intro q b n' hb hx hhead
    obtain ⟨m, hm, -, -, hyounger, -⟩ := attach_eq_some hx
    rw [hyounger]
    rcases hmem hb with ⟨rfl, rfl⟩ | ⟨hba, hbq⟩
    · rw [hself, prevIn_cons_self (h.out q), if_neg, if_pos rfl]
      rintro ⟨hnull, heq⟩
      exact h.out q (heq ▸ headD_mem hnull)
    · rw [if_neg hba]
      by_cases hq : q = p
      · subst hq
        rw [hself, prevIn_cons (h.nodup q) hbq]
        cases hlist : kids q with
        | nil => simp [hlist] at hbq
        | cons o rest =>
            have hnull : o ≠ null := by
              rintro rfl
              exact h.null_not_mem q (by simp [hlist])
            by_cases hbo : b = o
            · simp [hbo, hnull]
            · have hyoung := h.younger q b m hbq hm fun heq => absurd heq hloose
              rw [hlist] at hyoung
              simp [hbo, Ne.symm hbo, hyoung]
      · rw [hothers q hq] at hhead ⊢
        rw [if_neg, h.younger q b m hbq hm hhead]
        rintro ⟨hnull, heq⟩
        exact hq (h.parent_unique hbq (heq ▸ headD_mem hnull))
  · intro q b hb
    rcases hmem hb with ⟨rfl, rfl⟩ | ⟨hba, hbq⟩
    · obtain ⟨n', hn'⟩ := hnode b (by simp [ha])
      obtain ⟨m, hm, hpar, -⟩ := attach_eq_some hn'
      rw [ha] at hm
      exact ⟨n', hn', by rw [hpar, ← Option.some.inj hm, hparent]⟩
    · obtain ⟨m, hm, hmq⟩ := h.parent q b hbq
      obtain ⟨n', hn'⟩ := hnode b (by simp [hm])
      obtain ⟨m', hm', hpar, -⟩ := attach_eq_some hn'
      rw [hm] at hm'
      exact ⟨n', hn', by rw [hpar, ← Option.some.inj hm', hmq]⟩
  · intro q b hb
    rw [attach_isSome]
    rcases hmem hb with ⟨rfl, rfl⟩ | ⟨hba, hbq⟩
    · exact hp
    · exact h.live q b hbq
  · intro b n' hb hbroot _
    obtain ⟨m, hm, hpar, -⟩ := attach_eq_some hb
    rw [hpar]
    by_cases hba : b = a
    · subst hba
      rw [ha] at hm
      rw [← Option.some.inj hm, hparent, hself]
      simp
    · have hin := h.mem b m hm hbroot hba
      by_cases hq : m.parent = p
      · rw [hq] at hin ⊢
        rw [hself]
        simp [hin]
      · rwa [hothers _ hq]
  · intro q hq
    rcases hmem hq with ⟨rfl, rfl⟩ | ⟨-, hq⟩
    · rw [h.null_none] at ha
      simp at ha
    · exact h.null_not_mem q hq
  · intro q
    by_cases hq : q = p
    · subst hq
      rw [hself]
      exact List.nodup_cons.mpr ⟨h.out q, h.nodup q⟩
    · rw [hothers q hq]
      exact h.nodup q
  · intro q hq
    rcases hmem hq with ⟨rfl, rfl⟩ | ⟨-, hq⟩
    · exact hne rfl
    · exact h.irrefl q hq
  · intro q hq
    rcases hmem hq with ⟨rfl, rfl⟩ | ⟨-, hq⟩
    · exact hroot rfl
    · exact h.rootless q hq
  · intro n' hn'
    obtain ⟨m, hm, hpar, -⟩ := attach_eq_some hn'
    rw [hpar]
    exact h.orphan m hm

/-- A node is taken out of the children of its parent. -/
theorem detach {x : α} {n : Node α} (h : Forest null root loose null f kids) (hx : f x = some n) (hroot : x ≠ root)
    (hloose : n.parent ≠ loose) :
    Forest null root loose x (detach null f n) (Function.update kids n.parent ((kids n.parent).erase x)) := by
  have hxnull : x ≠ null := by
    rintro rfl
    rw [h.null_none] at hx
    simp at hx
  have hin : x ∈ kids n.parent := h.mem x n hx hroot hxnull
  have hnull := h.null_not_mem n.parent
  have hnodup := h.nodup n.parent
  have holder : n.older = nextIn null (kids n.parent) x := h.older _ x n hin hx
  have hyounger : n.younger = prevIn null (kids n.parent) x := h.younger _ x n hin hx fun heq => absurd heq hloose
  have hself : Function.update kids n.parent ((kids n.parent).erase x) n.parent = (kids n.parent).erase x :=
    Function.update_self ..
  have hothers : ∀ q, q ≠ n.parent → Function.update kids n.parent ((kids n.parent).erase x) q = kids q :=
    fun q hq => Function.update_of_ne hq _ _
  have hmem : ∀ {q b}, b ∈ Function.update kids n.parent ((kids n.parent).erase x) q → b ≠ x ∧ b ∈ kids q := by
    intro q b hb
    by_cases hq : q = n.parent
    · subst hq
      rw [hself] at hb
      exact hnodup.mem_erase_iff.mp hb
    · rw [hothers q hq] at hb
      refine ⟨?_, hb⟩
      rintro rfl
      exact hq (h.parent_unique hb hin)
  have hnode : ∀ y, (f y).isSome → ∃ n', Lib.detach null f n y = some n' := fun y hy =>
    Option.isSome_iff_exists.mp (by rw [detach_isSome]; exact hy)
  refine ⟨?_, ?_, ?_, ?_, ?_, ?_, ?_, ?_, ?_, ?_, ?_, ?_⟩
  · rw [← Option.not_isSome_iff_eq_none, detach_isSome, h.null_none]
    simp
  · intro y n' hy
    obtain ⟨m, hm, -, hchild, -, -⟩ := detach_eq_some hy
    rw [hchild, h.child y m hm]
    by_cases hyp : y = n.parent
    · subst hyp
      rw [hself, headD_erase hnodup hnull hin, hyounger, holder]
      simp
    · rw [hothers y hyp, if_neg fun hc => hyp hc.2]
  · intro q b n' hb hy
    obtain ⟨m, hm, -, -, -, hold⟩ := detach_eq_some hy
    obtain ⟨hbx, hbq⟩ := hmem hb
    rw [hold, h.older q b m hbq hm]
    by_cases hq : q = n.parent
    · subst hq
      rw [hself, nextIn_erase hnodup hnull hin hbq hbx, hyounger, holder]
      have hbnull : b ≠ null := fun heq => hnull (heq ▸ hbq)
      by_cases hb' : prevIn null (kids n.parent) x = b
      · rw [if_pos ((nextIn_eq_iff hnodup hnull hbq hin).mpr hb'), if_pos ⟨hb' ▸ hbnull, hb'.symm⟩]
      · rw [if_neg fun heq => hb' ((nextIn_eq_iff hnodup hnull hbq hin).mp heq), if_neg fun hc => hb' hc.2.symm]
    · rw [hothers q hq, if_neg]
      rintro ⟨hne, rfl⟩
      rw [hyounger] at hbq hne
      exact hq (h.parent_unique hbq (prevIn_mem hne))
  · intro q b n' hb hy hhead
    obtain ⟨m, hm, -, -, hyoung, -⟩ := detach_eq_some hy
    obtain ⟨hbx, hbq⟩ := hmem hb
    rw [hyoung]
    by_cases hq : q = n.parent
    · subst hq
      rw [hself, prevIn_erase hnodup hnull hin hbq hbx, hyounger, holder,
        h.younger _ b m hbq hm fun heq => absurd heq hloose]
      have hbnull : b ≠ null := fun heq => hnull (heq ▸ hbq)
      by_cases hb' : nextIn null (kids n.parent) x = b
      · rw [if_pos ((nextIn_eq_iff hnodup hnull hin hbq).mp hb'), if_pos ⟨hb' ▸ hbnull, hb'.symm⟩]
      · rw [if_neg fun heq => hb' ((nextIn_eq_iff hnodup hnull hin hbq).mpr heq), if_neg fun hc => hb' hc.2.symm]
    · rw [hothers q hq] at hhead ⊢
      rw [if_neg, h.younger q b m hbq hm hhead]
      rintro ⟨hne, rfl⟩
      rw [holder] at hbq hne
      exact hq (h.parent_unique hbq (nextIn_mem hne))
  · intro q b hb
    obtain ⟨m, hm, hmq⟩ := h.parent q b (hmem hb).2
    obtain ⟨n', hn'⟩ := hnode b (by simp [hm])
    obtain ⟨m', hm', hpar, -⟩ := detach_eq_some hn'
    rw [hm] at hm'
    exact ⟨n', hn', by rw [hpar, ← Option.some.inj hm', hmq]⟩
  · intro q b hb
    rw [detach_isSome]
    exact h.live q b (hmem hb).2
  · intro b n' hb hbroot hbx
    obtain ⟨m, hm, hpar, -⟩ := detach_eq_some hb
    have hbnull : b ≠ null := by
      rintro rfl
      rw [h.null_none] at hm
      simp at hm
    have hbin := h.mem b m hm hbroot hbnull
    rw [hpar]
    by_cases hq : m.parent = n.parent
    · rw [hq] at hbin ⊢
      rw [hself]
      exact hnodup.mem_erase_iff.mpr ⟨hbx, hbin⟩
    · rwa [hothers _ hq]
  · intro q hq
    exact (hmem hq).1 rfl
  · intro q
    by_cases hq : q = n.parent
    · subst hq
      rw [hself]
      exact hnodup.erase x
    · rw [hothers q hq]
      exact h.nodup q
  · intro q hq
    exact h.irrefl q (hmem hq).2
  · intro q hq
    exact h.rootless q (hmem hq).2
  · intro n' hn'
    obtain ⟨m, hm, hpar, -⟩ := detach_eq_some hn'
    rw [hpar]
    exact h.orphan m hm

/-- The first child of `loose` is taken out, and the next one is not told. -/
theorem detachFirst {a : α} {rest : List α} (h : Forest null root loose null f kids) (hkids : kids loose = a :: rest) :
    Forest null root loose a (edit f loose fun n => { n with child := rest.headD null })
      (Function.update kids loose rest) := by
  have hnodup := h.nodup loose
  rw [hkids, List.nodup_cons] at hnodup
  have hself : Function.update kids loose rest loose = rest := Function.update_self ..
  have hothers : ∀ q, q ≠ loose → Function.update kids loose rest q = kids q := fun q hq =>
    Function.update_of_ne hq _ _
  have hin : a ∈ kids loose := by
    rw [hkids]
    exact List.mem_cons_self ..
  have hmem : ∀ {q b}, b ∈ Function.update kids loose rest q → b ≠ a ∧ b ∈ kids q := by
    intro q b hb
    by_cases hq : q = loose
    · subst hq
      rw [hself] at hb
      refine ⟨?_, hkids ▸ List.mem_cons_of_mem _ hb⟩
      rintro rfl
      exact hnodup.1 hb
    · rw [hothers q hq] at hb
      refine ⟨?_, hb⟩
      rintro rfl
      exact hq (h.parent_unique hb hin)
  refine ⟨?_, ?_, ?_, ?_, ?_, ?_, ?_, ?_, ?_, ?_, ?_, ?_⟩
  · rw [← Option.not_isSome_iff_eq_none, edit_isSome, h.null_none]
    simp
  · intro y n' hy
    obtain ⟨m, hm, rfl⟩ := edit_eq_some hy
    by_cases hyl : y = loose
    · subst hyl
      rw [if_pos rfl, hself]
    · rw [if_neg hyl, hothers y hyl]
      exact h.child y m hm
  · intro q b n' hb hy
    obtain ⟨m, hm, rfl⟩ := edit_eq_some hy
    obtain ⟨hba, hbq⟩ := hmem hb
    have hold := h.older q b m hbq hm
    have hsame : (if b = loose then { m with child := rest.headD null } else m).older = m.older := by
      split <;> rfl
    rw [hsame, hold]
    by_cases hq : q = loose
    · subst hq
      rw [hself, hkids, nextIn_cons_of_ne hba]
    · rw [hothers q hq]
  · intro q b n' hb hy hhead
    obtain ⟨m, hm, rfl⟩ := edit_eq_some hy
    obtain ⟨hba, hbq⟩ := hmem hb
    have hsame : (if b = loose then { m with child := rest.headD null } else m).younger = m.younger := by
      split <;> rfl
    rw [hsame]
    by_cases hq : q = loose
    · subst hq
      have hyoung := h.younger q b m hbq hm fun _ => by simpa [hkids] using Ne.symm hba
      rw [hself] at hb hhead ⊢
      rw [hyoung, hkids, prevIn_cons hnodup.2 hb, if_neg (hhead rfl)]
    · rw [hothers q hq] at hhead ⊢
      exact h.younger q b m hbq hm hhead
  · intro q b hb
    obtain ⟨m, hm, hmq⟩ := h.parent q b (hmem hb).2
    obtain ⟨n', hn'⟩ := Option.isSome_iff_exists.mp
      ((edit_isSome f loose b fun n => { n with child := rest.headD null }).trans (by simp [hm]))
    obtain ⟨m', hm', heq⟩ := edit_eq_some hn'
    rw [hm] at hm'
    obtain rfl := Option.some.inj hm'
    refine ⟨n', hn', ?_⟩
    rw [heq, ← hmq]
    split <;> rfl
  · intro q b hb
    rw [edit_isSome]
    exact h.live q b (hmem hb).2
  · intro b n' hb hbroot hba
    obtain ⟨m, hm, rfl⟩ := edit_eq_some hb
    have hbnull : b ≠ null := by
      rintro rfl
      rw [h.null_none] at hm
      simp at hm
    have hbin := h.mem b m hm hbroot hbnull
    have hsame : (if b = loose then { m with child := rest.headD null } else m).parent = m.parent := by
      split <;> rfl
    rw [hsame]
    by_cases hq : m.parent = loose
    · rw [hq] at hbin ⊢
      rw [hkids, List.mem_cons] at hbin
      rw [hself]
      exact hbin.resolve_left hba
    · rwa [hothers _ hq]
  · intro q hq
    exact (hmem hq).1 rfl
  · intro q
    by_cases hq : q = loose
    · subst hq
      rw [hself]
      exact hnodup.2
    · rw [hothers q hq]
      exact h.nodup q
  · intro q hq
    exact h.irrefl q (hmem hq).2
  · intro q hq
    exact h.rootless q (hmem hq).2
  · intro n' hn'
    obtain ⟨m, hm, rfl⟩ := edit_eq_some hn'
    rw [← h.orphan m hm]
    split <;> rfl

/-- The floating node may be told another parent. -/
theorem editFloating {a : α} (h : Forest null root loose a f kids) (hroot : a ≠ root) {g : Node α → Node α}
    (hg : ∀ n, (g n).child = n.child) : Forest null root loose a (edit f a g) kids := by
  have hne : ∀ {q b}, b ∈ kids q → b ≠ a := by
    rintro q b hb rfl
    exact h.out q hb
  refine ⟨?_, ?_, ?_, ?_, ?_, ?_, ?_, h.out, h.nodup, h.irrefl, h.rootless, ?_⟩
  · rw [← Option.not_isSome_iff_eq_none, edit_isSome, h.null_none]
    simp
  · intro y n' hy
    obtain ⟨m, hm, rfl⟩ := edit_eq_some hy
    rw [← h.child y m hm]
    split
    · exact hg m
    · rfl
  · intro q b n' hb hy
    rw [edit_of_ne f g (hne hb)] at hy
    exact h.older q b n' hb hy
  · intro q b n' hb hy
    rw [edit_of_ne f g (hne hb)] at hy
    exact h.younger q b n' hb hy
  · intro q b hb
    rw [edit_of_ne f g (hne hb)]
    exact h.parent q b hb
  · intro q b hb
    rw [edit_isSome]
    exact h.live q b hb
  · intro b n' hb hbroot hba
    rw [edit_of_ne f g hba] at hb
    exact h.mem b n' hb hbroot hba
  · intro n' hn'
    rw [edit_of_ne f g (Ne.symm hroot)] at hn'
    exact h.orphan n' hn'

/-- A new node, which floats. -/
theorem insert {a : α} {n : Node α} (h : Forest null root loose null f kids) (ha : f a = none) (hnull : a ≠ null)
    (hroot : a ≠ root) (hchild : n.child = null) : Forest null root loose a (Function.update f a (some n)) kids := by
  have hkids : kids a = [] := h.kids_of_none ha
  have hne : ∀ {q b}, b ∈ kids q → b ≠ a := by
    rintro q b hb rfl
    obtain ⟨m, hm, -⟩ := h.parent q b hb
    rw [ha] at hm
    simp at hm
  refine ⟨?_, ?_, ?_, ?_, ?_, ?_, ?_, fun q hq => hne hq rfl, h.nodup, h.irrefl, h.rootless, ?_⟩
  · rw [Function.update_of_ne hnull.symm]
    exact h.null_none
  · intro y m hy
    by_cases hya : y = a
    · subst hya
      rw [Function.update_self] at hy
      rw [← Option.some.inj hy, hchild, hkids]
      rfl
    · rw [Function.update_of_ne hya] at hy
      exact h.child y m hy
  · intro q b m hb hy
    rw [Function.update_of_ne (hne hb)] at hy
    exact h.older q b m hb hy
  · intro q b m hb hy
    rw [Function.update_of_ne (hne hb)] at hy
    exact h.younger q b m hb hy
  · intro q b hb
    rw [Function.update_of_ne (hne hb)]
    exact h.parent q b hb
  · intro q b hb
    by_cases hqa : q = a
    · simp [hqa]
    · rw [Function.update_of_ne hqa]
      exact h.live q b hb
  · intro b m hb hbroot hba
    rw [Function.update_of_ne hba] at hb
    refine h.mem b m hb hbroot ?_
    rintro rfl
    rw [h.null_none] at hb
    simp at hb
  · intro m hm
    rw [Function.update_of_ne (Ne.symm hroot)] at hm
    exact h.orphan m hm

/-- The floating node goes away. -/
theorem remove {a : α} (h : Forest null root loose a f kids) (hkids : kids a = []) :
    Forest null root loose null (Function.update f a none) kids := by
  have hne : ∀ {q b}, b ∈ kids q → b ≠ a := by
    rintro q b hb rfl
    exact h.out q hb
  refine ⟨?_, ?_, ?_, ?_, ?_, ?_, ?_, h.null_not_mem, h.nodup, h.irrefl, h.rootless, ?_⟩
  · by_cases hnull : null = a
    · simp [hnull]
    · rw [Function.update_of_ne hnull]
      exact h.null_none
  · intro y m hy
    have hya : y ≠ a := by
      rintro rfl
      simp at hy
    rw [Function.update_of_ne hya] at hy
    exact h.child y m hy
  · intro q b m hb hy
    rw [Function.update_of_ne (hne hb)] at hy
    exact h.older q b m hb hy
  · intro q b m hb hy
    rw [Function.update_of_ne (hne hb)] at hy
    exact h.younger q b m hb hy
  · intro q b hb
    rw [Function.update_of_ne (hne hb)]
    exact h.parent q b hb
  · intro q b hb
    have hqa : q ≠ a := by
      rintro rfl
      simp [hkids] at hb
    rw [Function.update_of_ne hqa]
    exact h.live q b hb
  · intro b m hb hbroot _
    have hba : b ≠ a := by
      rintro rfl
      simp at hb
    rw [Function.update_of_ne hba] at hb
    exact h.mem b m hb hbroot hba
  · intro m hm
    have hne : root ≠ a := by
      rintro rfl
      simp at hm
    rw [Function.update_of_ne hne] at hm
    exact h.orphan m hm

theorem loosen (h : Forest null root null floating f kids) (c : α) : Forest null root c floating f kids := by
  refine ⟨h.null_none, h.child, h.older, ?_, h.parent, h.live, h.mem, h.out, h.nodup, h.irrefl, h.rootless,
    h.orphan⟩
  intro q b n hb hn _
  refine h.younger q b n hb hn ?_
  rintro rfl
  have := h.live q b hb
  simp [h.null_none] at this

theorem tighten (h : Forest null root loose floating f kids) (hkids : kids loose = []) :
    Forest null root null floating f kids := by
  refine ⟨h.null_none, h.child, h.older, ?_, h.parent, h.live, h.mem, h.out, h.nodup, h.irrefl, h.rootless,
    h.orphan⟩
  intro q b n hb hn _
  refine h.younger q b n hb hn ?_
  rintro rfl
  simp [hkids] at hb

end Forest

/-- Following `older` from `a` gives the list `l` and ends at `null`; `younger` leads back, from `a` to `prev`. -/
def Chain {α : Type} (null : α) (f : α → Option (Node α)) : α → α → List α → Prop
  | _, a, [] => a = null
  | prev, a, x :: xs => a = x ∧ x ≠ null ∧ ∃ n, f x = some n ∧ n.younger = prev ∧ Chain null f x n.older xs

/-- The children of a node, from its first child on. -/
theorem Forest.chain {α : Type} [DecidableEq α] {null root floating : α} {f : α → Option (Node α)}
    {kids : α → List α} (h : Forest null root null floating f kids) (p : α) :
    Chain null f null ((kids p).headD null) (kids p) := by
  have hsuffix : ∀ pre suf, kids p = pre ++ suf → Chain null f (pre.reverse.headD null) (suf.headD null) suf := by
    intro pre suf
    induction suf generalizing pre with
    | nil =>
        intro _
        rfl
    | cons x xs ih =>
        intro hcut
        have hin : x ∈ kids p := by
          rw [hcut]
          simp
        have hnodup := h.nodup p
        rw [hcut, List.nodup_append, List.nodup_cons] at hnodup
        have hpre : x ∉ pre := fun hmem => hnodup.2.2 x hmem x (List.mem_cons_self ..) rfl
        obtain ⟨n, hn, -⟩ := h.parent p x hin
        have hp : p ≠ null := by
          rintro rfl
          have := h.live p x hin
          simp [h.null_none] at this
        refine ⟨rfl, fun heq => h.null_not_mem p (heq ▸ hin), n, hn, ?_, ?_⟩
        · rw [h.younger p x n hin hn fun heq => absurd heq hp, hcut, prevIn_split hnodup.2.1.1]
        · have hnext : n.older = xs.headD null := by
            rw [h.older p x n hin hn, hcut, nextIn_split hpre]
          have htail := ih (pre ++ [x]) (by rw [hcut]; simp)
          rw [hnext]
          simpa using htail
  exact hsuffix [] (kids p) rfl

/-- A chain has one list. -/
theorem Chain.unique {α : Type} {null : α} {f : α → Option (Node α)} {prev a : α} {l l' : List α}
    (h : Chain null f prev a l) (h' : Chain null f prev a l') : l = l' := by
  induction l generalizing prev a l' with
  | nil =>
      cases l' with
      | nil => rfl
      | cons x xs => exact absurd (h'.1.symm.trans h) h'.2.1
  | cons x xs ih =>
      obtain ⟨rfl, hx, n, hn, -, hrest⟩ := h
      cases l' with
      | nil => exact absurd h' hx
      | cons y ys =>
          obtain ⟨rfl, -, n', hn', -, hrest'⟩ := h'
          obtain rfl := Option.some.inj (hn.symm.trans hn')
          rw [ih hrest hrest']

/-- The store decides what the children of a node are. -/
theorem Forest.unique {α : Type} [DecidableEq α] {null root floating root' floating' : α} {f : α → Option (Node α)}
    {kids kids' : α → List α} (h : Forest null root null floating f kids)
    (h' : Forest null root' null floating' f kids') : kids = kids' := by
  funext p
  cases hp : f p with
  | none => rw [h.kids_of_none hp, h'.kids_of_none hp]
  | some n =>
      have hchain := h.chain p
      rw [← h.child p n hp] at hchain
      have hchain' := h'.chain p
      rw [← h'.child p n hp] at hchain'
      exact hchain.unique hchain'

end Lib
end FreakOS
