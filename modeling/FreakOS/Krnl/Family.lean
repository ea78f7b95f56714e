import FreakOS.Lib.Forest
import FreakOS.Krnl.Status

/-!
# The process tree

The four pointers of a task, seen as a forest (`Lib.Forest`).

* `addTask_nodes`, `delTask_nodes`, `reparentOne_nodes` — `add_task`, `del_task` and a round of the loop of `do_exit`
  are the operations of `Lib.Forest`.
* `Family` — the tree, with the number of tasks that `TaskCount` counts.
* `Family.fork`, `Family.reparent`, `Family.reap` — the three calls that change it.  The loop of `do_exit` ends, as long as
  it is not `init_task` that exits.
-/

namespace FreakOS
namespace Krnl

open Lib
open Memory

/-- The place of a task in the tree. -/
def Task.node (t : Task) : Node U32 := ⟨t.parent, t.cptr, t.yptr, t.optr⟩

/-- The tree as it is stored. -/
def Kernel.nodes (k : Kernel) (a : U32) : Option (Node U32) := (k.tasks a).map Task.node

section Nodes

variable {k k' : Kernel} {a : U32}

theorem nodes_eq_some {t : Task} (ht : k.tasks a = some t) : k.nodes a = some t.node := by
  unfold Kernel.nodes
  rw [ht]
  rfl

theorem nodes_isSome : (k.nodes a).isSome = (k.tasks a).isSome := by
  unfold Kernel.nodes
  cases k.tasks a <;> rfl

theorem Kept.nodes {β : Type} {f : Task → β} (h : Kept f k k') (g : β → Node U32) (hg : ∀ t, g (f t) = t.node) :
    k'.nodes = k.nodes := by
  funext a
  have hcomp := (h.comp g).tasks a
  have heq : g ∘ f = Task.node := funext hg
  rw [heq] at hcomp
  exact hcomp

theorem wakeupTask_nodes (hcall : wakeupTask k a = .ok k') : k'.nodes = k.nodes :=
  (wakeupTask_kept hcall).nodes Task.node fun _ => rfl

theorem setTask_nodes {t : Task} (ht : k.tasks a = some t) {t' : Task} {g : Node U32 → Node U32}
    (hg : t'.node = g t.node) : (k.setTask a t').nodes = edit k.nodes a g := by
  funext x
  by_cases hx : x = a
  · subst hx
    rw [edit_self, nodes_eq_some ht]
    simp [Kernel.nodes, Kernel.setTask, hg]
  · rw [edit_of_ne _ _ hx]
    simp [Kernel.nodes, Kernel.setTask, hx]

/-- A write to a task, as a write to its node. -/
theorem modifyTask_nodes {e : Task → Task} (hcall : k.modifyTask a e = .ok k') (g : Node U32 → Node U32)
    (hg : ∀ t, (e t).node = g t.node) : k'.nodes = edit k.nodes a g := by
  obtain ⟨t, ht, rfl⟩ := modifyTask_eq_ok.mp hcall
  exact setTask_nodes ht (hg t)

theorem doIf_nodes {c : Prop} [Decidable c] {e : Task → Task} (hcall : (k.doIf c fun k => k.modifyTask a e) = .ok k')
    (g : Node U32 → Node U32) (hg : ∀ t, (e t).node = g t.node) :
    k'.nodes = if c then edit k.nodes a g else k.nodes := by
  unfold Kernel.doIf at hcall
  split at hcall
  · rename_i hc
    rw [if_pos hc]
    exact modifyTask_nodes hcall g hg
  · rename_i hc
    obtain rfl := Except.ok.inj hcall
    rw [if_neg hc]

/-- A write that is not to the tree. -/
theorem modifyTask_nodes_eq {e : Task → Task} (hcall : k.modifyTask a e = .ok k') (he : ∀ t, (e t).node = t.node) :
    k'.nodes = k.nodes :=
  (Kept.modifyTask (f := Task.node) hcall he).nodes id fun _ => rfl

/-- `add_task`. -/
theorem addTask_nodes (hcall : addTask k a = .ok k') :
    ∃ t p, k.tasks a = some t ∧ k.tasks t.parent = some p ∧ k'.nodes = attach NULL k.nodes t.parent a p.cptr := by
  unfold addTask at hcall
  obtain ⟨t, ht, hcall⟩ := Res.bind_eq_ok.mp hcall
  obtain ⟨p, hp, hcall⟩ := Res.bind_eq_ok.mp hcall
  obtain ⟨k₁, holder, hcall⟩ := Res.bind_eq_ok.mp hcall
  obtain ⟨k₂, hparent, hcall⟩ := Res.bind_eq_ok.mp hcall
  obtain rfl := Except.ok.inj hcall
  have h₀ : (({ k with taskList := listAdd a k.taskList } : Kernel).setTask a
      { t with yptr := NULL, optr := p.cptr }).nodes =
      edit k.nodes a fun n => { n with younger := NULL, older := p.cptr } := setTask_nodes (task_eq_ok.mp ht) rfl
  have h₁ := doIf_nodes holder (fun n => { n with younger := a }) fun _ => rfl
  have h₂ := modifyTask_nodes hparent (fun n => { n with child := a }) fun _ => rfl
  refine ⟨t, p, task_eq_ok.mp ht, task_eq_ok.mp hp, ?_⟩
  have hfinal : Kernel.nodes { k₂ with taskCount := k₂.taskCount + 1 } = k₂.nodes := rfl
  rw [hfinal, h₂, h₁, h₀]
  rfl

/-- `del_task`, of a task that is not its own sibling. -/
theorem delTask_nodes {t : Task} (ht : k.tasks a = some t) (hne : t.optr ≠ a) (hcall : delTask k a = .ok k') :
    k'.nodes = detach NULL k.nodes t.node := by
  unfold delTask at hcall
  obtain ⟨t₀, ht₀, hcall⟩ := Res.bind_eq_ok.mp hcall
  obtain ⟨k₁, holder, hcall⟩ := Res.bind_eq_ok.mp hcall
  obtain ⟨t₁, ht₁, hcall⟩ := Res.bind_eq_ok.mp hcall
  obtain ⟨k₂, hyounger, hcall⟩ := Res.bind_eq_ok.mp hcall
  obtain ⟨k₃, hparent, hcall⟩ := Res.bind_eq_ok.mp hcall
  obtain rfl := Except.ok.inj hcall
  obtain rfl := Option.some.inj (ht.symm.trans (task_eq_ok.mp ht₀))
  have hsame : t₁ = t := by
    have hread : k₁.tasks a = k.tasks a := by
      unfold Kernel.doIf at holder
      split at holder
      · obtain ⟨o, -, rfl⟩ := modifyTask_eq_ok.mp holder
        exact Function.update_of_ne (Ne.symm hne) _ _
      · obtain rfl := Except.ok.inj holder
        rfl
    exact Option.some.inj ((task_eq_ok.mp ht₁).symm.trans (hread.trans ht))
  subst hsame
  have h₁ := doIf_nodes holder (fun n => { n with younger := t₁.yptr }) fun _ => rfl
  have h₂ := doIf_nodes hyounger (fun n => { n with older := t₁.optr }) fun _ => rfl
  have h₃ := doIf_nodes hparent (fun n => { n with child := t₁.optr }) fun _ => rfl
  have hfinal : Kernel.nodes { k₃ with taskCount := k₃.taskCount - 1 } = k₃.nodes := rfl
  have hstart : Kernel.nodes { k with taskList := listDel a k.taskList } = k.nodes := rfl
  rw [hfinal, h₃, h₂, h₁, hstart]
  unfold detach
  by_cases hy : t₁.yptr = NULL
  · rw [if_pos hy, if_neg (not_not.mpr hy)]
    exact (if_neg (not_not.mpr hy)).symm
  · rw [if_neg hy, if_pos hy]
    exact (if_pos hy).symm

/-- A round of the loop of `do_exit`: the child leaves the running task and joins `init_task`. -/
theorem reparentOne_nodes (hne : k.currentTask ≠ k.initTask) (hcall : reparentOne k a = .ok k') :
    ∃ c init, k.tasks a = some c ∧ k.tasks k.initTask = some init ∧
      k'.nodes = attach NULL (edit (edit k.nodes k.currentTask fun n => { n with child := c.optr }) a
        fun n => { n with parent := k.initTask }) k.initTask a init.cptr := by
  unfold reparentOne at hcall
  obtain ⟨c, hc, hcall⟩ := Res.bind_eq_ok.mp hcall
  obtain ⟨k₁, hcurrent, hcall⟩ := Res.bind_eq_ok.mp hcall
  obtain ⟨init, hinit, hcall⟩ := Res.bind_eq_ok.mp hcall
  obtain ⟨k₂, hchild, hcall⟩ := Res.bind_eq_ok.mp hcall
  obtain ⟨k₃, hsibling, hcall⟩ := Res.bind_eq_ok.mp hcall
  obtain ⟨k₄, hparent, hcall⟩ := Res.bind_eq_ok.mp hcall
  obtain ⟨k₅, hlast, hcall⟩ := Res.bind_eq_ok.mp hcall
  obtain ⟨c', -, hcall⟩ := Res.bind_eq_ok.mp hcall
  obtain ⟨init', -, hcall⟩ := Res.bind_eq_ok.mp hcall
  have hinit₁ : k₁.initTask = k.initTask := (Kept.modifyTask (f := fun _ => ()) hcurrent fun _ => rfl).initTask
  have hinit₂ : k₂.initTask = k₁.initTask := (Kept.modifyTask (f := fun _ => ()) hchild fun _ => rfl).initTask
  have hinit₃ : k₃.initTask = k₂.initTask :=
    (Kept.doIf (f := fun _ => ()) hsibling fun _ hmod => Kept.modifyTask hmod fun _ => rfl).initTask
  have hinit₄ : k₄.initTask = k₃.initTask := (Kept.modifyTask (f := fun _ => ()) hparent fun _ => rfl).initTask
  have h₁ := modifyTask_nodes hcurrent (fun n => { n with child := c.optr }) fun _ => rfl
  have h₂ := modifyTask_nodes hchild (fun n => { n with younger := NULL, older := init.cptr }) fun _ => rfl
  have h₃ := doIf_nodes hsibling (fun n => { n with younger := a }) fun _ => rfl
  have h₄ := modifyTask_nodes hparent (fun n => { n with parent := k₃.initTask }) fun _ => rfl
  have h₅ := modifyTask_nodes hlast (fun n => { n with child := a }) fun _ => rfl
  have h₆ : k'.nodes = k₅.nodes :=
    (Kept.doIf hcall fun _ hwake => (wakeupTask_kept hwake).comp Task.node).nodes id fun _ => rfl
  rw [hinit₄, hinit₃, hinit₂, hinit₁] at h₅
  rw [hinit₃, hinit₂, hinit₁] at h₄
  refine ⟨c, init, task_eq_ok.mp hc, ?_, ?_⟩
  · obtain ⟨t, -, rfl⟩ := modifyTask_eq_ok.mp hcurrent
    have hread : Function.update k.tasks k.currentTask _ k.initTask = some init := task_eq_ok.mp hinit
    rwa [Function.update_of_ne (Ne.symm hne)] at hread
  · -- The code writes the new parent last; nothing in between reads it.
    rw [h₆, h₅, h₄, h₃, h₂, h₁]
    exact attach_edit_parent ..

/-! ### The loop does not fail -/

theorem exists_modifyTask (e : Task → Task) (ha : (k.tasks a).isSome) : ∃ k', k.modifyTask a e = .ok k' := by
  obtain ⟨t, ht⟩ := Option.isSome_iff_exists.mp ha
  exact ⟨k.setTask a (e t), modifyTask_eq_ok.mpr ⟨t, ht, rfl⟩⟩

theorem exists_doIf {c : Prop} [Decidable c] {g : Kernel → Res Kernel} (h : c → ∃ k', g k = .ok k') :
    ∃ k', k.doIf c g = .ok k' := by
  unfold Kernel.doIf
  split
  · rename_i hc
    exact h hc
  · exact ⟨k, rfl⟩

/-- `wakeupTask` fails on a zombie only. -/
theorem exists_wakeupTask {t : Task} (ht : k.tasks a = some t) (hne : a ≠ NULL) (hzombie : t.state ≠ .zombie) :
    ∃ k', wakeupTask k a = .ok k' := by
  unfold wakeupTask
  simp only [task_eq_ok.mpr ht, Res.ok_bind, panicIf, if_neg hzombie]
  refine exists_doIf fun _ => exists_doIf fun _ => ?_
  obtain ⟨k₁, h₁⟩ := exists_modifyTask (a := a)
    (k := { k.setTask a { t with state := .runnable, waitState := WT_NOTWAIT } with
      runList := listAddTail a (k.setTask a { t with state := .runnable, waitState := WT_NOTWAIT }).runList })
    (fun t => if t.timeSlice = 0 ∨ t.timeSlice > MAX_TIME_SLICES then { t with timeSlice := MAX_TIME_SLICES } else t)
    (by simp [Kernel.setTask])
  refine ⟨{ k₁ with taskNum := k₁.taskNum + 1 }, ?_⟩
  unfold enqueueRunQueue
  simp only [panicIf, if_neg hne, Res.ok_bind, h₁]
  rfl

/-- A round of the loop does not fail, when the pointers are good and `init_task` can be woken up. -/
theorem exists_reparentOne (ha : (k.tasks a).isSome) (hcurrent : (k.tasks k.currentTask).isSome)
    (hne : k.currentTask ≠ k.initTask) (hnull : k.initTask ≠ NULL) {init : Task}
    (hinit : k.tasks k.initTask = some init) (hcptr : init.cptr ≠ NULL → (k.tasks init.cptr).isSome)
    (hwake : init.waitState = WT_CHILD → init.state ≠ .zombie) : ∃ k', reparentOne k a = .ok k' := by
  obtain ⟨c, hc⟩ := Option.isSome_iff_exists.mp ha
  obtain ⟨k₁, h₁⟩ := exists_modifyTask (k := k) (fun t => { t with cptr := c.optr }) hcurrent
  have hkept₁ : Kept (fun _ => ()) k k₁ := Kept.modifyTask h₁ fun _ => rfl
  have hread₁ : k₁.tasks k₁.initTask = some init := by
    obtain ⟨t, -, rfl⟩ := modifyTask_eq_ok.mp h₁
    exact (Function.update_of_ne (Ne.symm hne) _ _).trans hinit
  obtain ⟨k₂, h₂⟩ := exists_modifyTask (k := k₁) (fun t => { t with yptr := NULL, optr := init.cptr })
    ((hkept₁.isSome a).trans ha)
  have hkept₂ : Kept (fun _ => ()) k k₂ := hkept₁.trans (Kept.modifyTask h₂ fun _ => rfl)
  obtain ⟨k₃, h₃⟩ := exists_doIf (k := k₂) (c := init.cptr ≠ NULL)
    (g := fun k => k.modifyTask init.cptr fun t => { t with yptr := a })
    fun hc => exists_modifyTask _ ((hkept₂.isSome _).trans (hcptr hc))
  have hkept₃ : Kept (fun _ => ()) k k₃ := hkept₂.trans (Kept.doIf h₃ fun _ hmod => Kept.modifyTask hmod fun _ => rfl)
  obtain ⟨k₄, h₄⟩ := exists_modifyTask (k := k₃) (fun t => { t with parent := k₃.initTask })
    ((hkept₃.isSome a).trans ha)
  have hkept₄ : Kept (fun _ => ()) k k₄ := hkept₃.trans (Kept.modifyTask h₄ fun _ => rfl)
  have hinit₄ : (k₄.tasks k₄.initTask).isSome := by
    rw [hkept₄.initTask, hkept₄.isSome, hinit]
    rfl
  obtain ⟨k₅, h₅⟩ := exists_modifyTask (k := k₄) (fun t => { t with cptr := a }) hinit₄
  have hkept₅ : Kept (fun _ => ()) k k₅ := hkept₄.trans (Kept.modifyTask h₅ fun _ => rfl)
  have hinit₅ : (k₅.tasks k₅.initTask).isSome := by
    rw [hkept₅.initTask, hkept₅.isSome, hinit]
    rfl
  obtain ⟨c', hc'⟩ := Option.isSome_iff_exists.mp ((hkept₅.isSome a).trans ha)
  obtain ⟨init', hinit'⟩ := Option.isSome_iff_exists.mp hinit₅
  -- None of the writes is to the status of `init_task`.
  have hstatus : init'.status = init.status := by
    have hsame : k₅.status k.initTask = k.status k.initTask := by
      rw [modifyTask_status h₅ (fun _ => rfl), modifyTask_status h₄ (fun _ => rfl),
        (Kept.doIf (f := Task.status) h₃ fun _ hmod => Kept.modifyTask hmod fun _ => rfl).status id (fun _ => rfl),
        modifyTask_status h₂ (fun _ => rfl), modifyTask_status h₁ (fun _ => rfl)]
    rw [hkept₅.initTask] at hinit'
    rw [status_eq_some hinit', status_eq_some hinit] at hsame
    exact Option.some.inj hsame
  obtain ⟨hstate, hwait⟩ := Prod.mk.inj hstatus
  obtain ⟨k₆, h₆⟩ := exists_doIf (k := k₅) (c := c'.state = .zombie ∧ init'.waitState = WT_CHILD)
    (g := fun k => wakeupTask k k.initTask) fun hcond => by
      refine exists_wakeupTask hinit' ?_ ?_
      · rw [hkept₅.initTask]
        exact hnull
      · rw [hstate]
        exact hwake (hwait.symm.trans hcond.2)
  refine ⟨k₆, ?_⟩
  unfold reparentOne
  simp only [task_eq_ok.mpr hc, Res.ok_bind, h₁, task_eq_ok.mpr hread₁, h₂, h₃, h₄, h₅, task_eq_ok.mpr hc',
    task_eq_ok.mpr hinit', h₆]

end Nodes

/-! ### The loop of `do_exit` -/

section Reparent

variable {k k' : Kernel} {kids : U32 → List U32}

/-- The children after the loop: those of `current`, last one first, have come before those of `init`. -/
def adopted (kids : U32 → List U32) (current init : U32) : U32 → List U32 :=
  Function.update (Function.update kids current []) init ((kids current).reverse ++ kids init)

theorem adopted_nil {current init : U32} (hnil : kids current = []) : adopted kids current init = kids := by
  unfold adopted
  rw [hnil, List.reverse_nil, List.nil_append, ← hnil, Function.update_eq_self, Function.update_eq_self]

theorem adopted_self {current init : U32} (hne : current ≠ init) : adopted kids current init current = [] := by
  unfold adopted
  rw [Function.update_of_ne hne, Function.update_self]

theorem adopted_init (current init : U32) : adopted kids current init init = (kids current).reverse ++ kids init :=
  Function.update_self ..

theorem adopted_of_ne {current init p : U32} (hcurrent : p ≠ current) (hinit : p ≠ init) :
    adopted kids current init p = kids p := by
  unfold adopted
  rw [Function.update_of_ne hinit, Function.update_of_ne hcurrent]

/-- Only `init` has new children. -/
theorem mem_adopted {current init p a : U32} (ha : a ∈ adopted kids current init p) :
    a ∈ kids p ∨ p = init ∧ a ∈ kids current := by
  by_cases hinit : p = init
  · rw [hinit, adopted_init, List.mem_append, List.mem_reverse] at ha
    exact ha.elim (fun hin => Or.inr ⟨hinit, hin⟩) fun hin => Or.inl (hinit ▸ hin)
  · by_cases hcurrent : p = current
    · subst hcurrent
      rw [adopted_self hinit] at ha
      simp at ha
    · rw [adopted_of_ne hcurrent hinit] at ha
      exact Or.inl ha

theorem adopted_cons {current init a : U32} {rest : List U32} (hne : current ≠ init) (hkids : kids current = a :: rest) :
    adopted (Function.update (Function.update kids current rest) init (a :: kids init)) current init =
      adopted kids current init := by
  funext q
  unfold adopted
  by_cases hq : q = init
  · subst hq
    simp [hkids, hne]
  · by_cases hqc : q = current
    · subst hqc
      simp [hq]
    · simp [hq, hqc]

/-- What the loop relies on. -/
structure Adopting (k : Kernel) (kids : U32 → List U32) : Prop where
  forest : Forest NULL k.idleTask k.currentTask NULL k.nodes kids
  current : (k.tasks k.currentTask).isSome
  init : (k.tasks k.initTask).isSome
  ne : k.currentTask ≠ k.initTask
  apart : k.initTask ∉ kids k.currentTask
  wake : ∀ st ws, k.status k.initTask = some (st, ws) → ws = WT_CHILD → st ≠ .zombie

theorem Adopting.null (h : Adopting k kids) : k.initTask ≠ NULL := by
  intro heq
  have hsome := h.init
  rw [heq, ← nodes_isSome, h.forest.null_none] at hsome
  simp at hsome

/-- One round. -/
theorem Adopting.round (h : Adopting k kids) {a : U32} {rest : List U32} (hkids : kids k.currentTask = a :: rest) :
    ∃ k', reparentOne k a = .ok k' ∧ k'.currentTask = k.currentTask ∧ k'.initTask = k.initTask ∧
      k'.idleTask = k.idleTask ∧
      Adopting k' (Function.update (Function.update kids k.currentTask rest) k.initTask (a :: kids k.initTask)) := by
  have hin : a ∈ kids k.currentTask := by
    rw [hkids]
    exact List.mem_cons_self ..
  obtain ⟨n, hn, hparent⟩ := h.forest.parent _ a hin
  obtain ⟨c, hc, rfl⟩ := Option.map_eq_some_iff.mp hn
  obtain ⟨init, hinit⟩ := Option.isSome_iff_exists.mp h.init
  have hhead : init.cptr = (kids k.initTask).headD NULL := h.forest.child _ _ (nodes_eq_some hinit)
  have hnext : c.optr = rest.headD NULL := by
    have holder : c.optr = nextIn NULL (kids k.currentTask) a := h.forest.older _ a _ hin hn
    rw [hkids] at holder
    simpa [nextIn] using holder
  have hcptr : init.cptr ≠ NULL → (k.tasks init.cptr).isSome := by
    intro hnull
    rw [hhead] at hnull ⊢
    obtain ⟨m, hm, -⟩ := h.forest.parent _ _ (headD_mem hnull)
    rw [← nodes_isSome, hm]
    rfl
  obtain ⟨k', hcall⟩ := exists_reparentOne (a := a) (by simp [hc]) h.current h.ne h.null hinit hcptr
    (h.wake _ _ (status_eq_some hinit))
  obtain ⟨c', init', hc', hinit', hnodes⟩ := reparentOne_nodes h.ne hcall
  obtain rfl := Option.some.inj (hc.symm.trans hc')
  obtain rfl := Option.some.inj (hinit.symm.trans hinit')
  have hkept := reparentOne_kept hcall
  have hroused := Roused.reparentOne hcall
  have hai : a ≠ k.initTask := fun heq => h.apart (heq ▸ hin)
  have hac : a ≠ k.currentTask := fun heq => h.forest.irrefl _ (heq ▸ hin)
  refine ⟨k', hcall, hroused.current, hkept.initTask, hkept.idleTask, ?_⟩
  have hforest : Forest NULL k.idleTask k.currentTask NULL k'.nodes
      (Function.update (Function.update kids k.currentTask rest) k.initTask (a :: kids k.initTask)) := by
    have h₁ := h.forest.detachFirst hkids
    have h₂ := h₁.editFloating (fun heq => h.forest.rootless _ (heq ▸ hin)) (g := fun n => { n with parent := k.initTask })
      fun _ => rfl
    have hself : edit (edit k.nodes k.currentTask fun n => { n with child := rest.headD NULL }) a
        (fun n => { n with parent := k.initTask }) a = some { c.node with parent := k.initTask } := by
      rw [edit_self, edit_of_ne _ _ hac, nodes_eq_some hc]
      rfl
    have hsome : (edit (edit k.nodes k.currentTask fun n => { n with child := rest.headD NULL }) a
        (fun n => { n with parent := k.initTask }) k.initTask).isSome := by
      rw [edit_isSome, edit_isSome, nodes_isSome]
      exact h.init
    have h₃ := h₂.attach hself rfl hsome (Ne.symm hai) (fun heq => h.forest.rootless _ (heq ▸ hin)) (Ne.symm h.ne)
    rw [Function.update_of_ne (Ne.symm h.ne), ← hhead] at h₃
    rw [hnodes, hnext]
    exact h₃
  refine ⟨?_, ?_, ?_, ?_, ?_, ?_⟩
  · rw [hkept.idleTask, hroused.current]
    exact hforest
  · rw [hroused.current, hkept.isSome]
    exact h.current
  · rw [hkept.initTask, hkept.isSome]
    exact h.init
  · rw [hroused.current, hkept.initTask]
    exact h.ne
  · rw [hroused.current, hkept.initTask, Function.update_of_ne h.ne, Function.update_self]
    intro hmem
    exact h.apart (hkids ▸ List.mem_cons_of_mem _ hmem)
  · intro st ws hstatus hws
    rw [hkept.initTask] at hstatus
    have hwake := hroused.status k.initTask
    rw [hstatus] at hwake
    exact h.wake st ws (hwake.reason (hws ▸ by decide)) hws

/-- The loop ends when there is fuel for each child, and `init_task` has all the children then. -/
theorem Adopting.reparent (h : Adopting k kids) {fuel : Nat} (hfuel : (kids k.currentTask).length < fuel) :
    ∃ k', reparent fuel k = .ok k' ∧
      Forest NULL k.idleTask NULL NULL k'.nodes (adopted kids k.currentTask k.initTask) := by
  induction fuel generalizing k kids with
  | zero => simp at hfuel
  | succ fuel ih =>
      obtain ⟨current, hcurrent⟩ := Option.isSome_iff_exists.mp h.current
      have hcptr : current.cptr = (kids k.currentTask).headD NULL := h.forest.child _ _ (nodes_eq_some hcurrent)
      cases hkids : kids k.currentTask with
      | nil =>
          rw [hkids, List.headD_nil] at hcptr
          refine ⟨k, ?_, ?_⟩
          · unfold Krnl.reparent
            simp only [task_eq_ok.mpr hcurrent, Res.ok_bind, if_pos hcptr]
            rfl
          · rw [adopted_nil hkids]
            exact h.forest.tighten hkids
      | cons a rest =>
          obtain ⟨k₁, hone, hcur₁, hinit₁, hidle₁, h₁⟩ := h.round hkids
          have hlist : Function.update (Function.update kids k.currentTask rest) k.initTask (a :: kids k.initTask)
              k.currentTask = rest := by
            rw [Function.update_of_ne h.ne, Function.update_self]
          obtain ⟨k', hrest, hforest⟩ := ih h₁ (by
            rw [hcur₁, hlist]
            rw [hkids, List.length_cons] at hfuel
            omega)
          rw [hcur₁, hinit₁, hidle₁, adopted_cons h.ne hkids] at hforest
          refine ⟨k', ?_, hforest⟩
          have ha : a ≠ NULL := by
            rintro rfl
            exact h.forest.null_not_mem k.currentTask (by simp [hkids])
          rw [hkids, List.headD_cons] at hcptr
          unfold Krnl.reparent
          simp only [task_eq_ok.mpr hcurrent, Res.ok_bind, hcptr, if_neg ha, hone, hrest]

end Reparent

/-! ### The tree -/

/-- The tree of processes, with `kids` as the children of each task, and the number of tasks. -/
structure Kin (k : Kernel) (kids : U32 → List U32) : Prop where
  forest : Forest NULL k.idleTask NULL NULL k.nodes kids
  count : k.taskCount = BitVec.ofNat 32 k.taskList.length
  bound : k.taskList.length ≤ MAX_TASKS.toNat
  current : (k.tasks k.currentTask).isSome

/-- The same, with `init_task` as a child of `idle_task`. -/
structure Family (k : Kernel) (kids : U32 → List U32) : Prop extends Kin k kids where
  init : k.initTask ∈ kids k.idleTask

/-- The list of tasks and its two first tasks are as before. -/
structure SameList (k k' : Kernel) : Prop where
  taskList : k'.taskList = k.taskList
  taskCount : k'.taskCount = k.taskCount
  idleTask : k'.idleTask = k.idleTask
  initTask : k'.initTask = k.initTask

theorem Kept.sameList {β : Type} {f : Task → β} {k k' : Kernel} (h : Kept f k k') : SameList k k' :=
  ⟨h.taskList, h.taskCount, h.idleTask, h.initTask⟩

section Tree

variable {k k' : Kernel} {kids : U32 → List U32} {lo hi : Nat} {m₀ : Pmm} {used : List Extent}

/-- A new task is put in front of the children of the running one. -/
theorem Kin.publish (h : Kin k kids) (hk : TaskInv lo hi m₀ k used) {a : U32} {t : Task} {k₁ : Kernel}
    {used₁ : List Extent} {ret : Int} (hcount : k.taskCount < MAX_TASKS)
    (hforking : Forking lo hi m₀ k used a t k₁ used₁) (hcall : publish k₁ a = .ok (ret, k')) :
    Kin k' (Function.update kids k.currentTask (a :: kids k.currentTask)) := by
  have hfresh : k.nodes a = none := congrArg (Option.map Task.node) hforking.fresh
  have hseed : t.cptr = NULL ∧ t.parent = k.currentTask := by
    have hseed := hforking.seed
    exact ⟨congrArg (fun x => x.2.2.2.1) hseed, congrArg (fun x => x.2.2.2.2.2.2) hseed⟩
  have hidle : a ≠ k.idleTask := by
    rintro rfl
    have hlive := (hk.live _).mp hk.idle
    simp [hforking.fresh] at hlive
  have hcur : k.currentTask ≠ a := by
    rintro rfl
    have hlive := h.current
    simp [hforking.fresh] at hlive
  have hnodes₁ : k₁.nodes = Function.update k.nodes a (some t.node) := by
    funext x
    by_cases hx : x = a
    · subst hx
      rw [Function.update_self]
      exact nodes_eq_some hforking.self
    · rw [Function.update_of_ne hx]
      exact congrArg (Option.map Task.node) (hforking.others x hx)
  have hkept := publish_kept hcall
  obtain ⟨u, -, -, hkept⟩ := hkept
  unfold Krnl.publish at hcall
  obtain ⟨k₂, hmod, hcall⟩ := Res.bind_eq_ok.mp hcall
  obtain ⟨k₃, hadd, hcall⟩ := Res.bind_eq_ok.mp hcall
  obtain ⟨k₄, hwake, hcall⟩ := Res.bind_eq_ok.mp hcall
  obtain ⟨t', -, hcall⟩ := Res.bind_eq_ok.mp hcall
  obtain ⟨-, rfl⟩ := Prod.mk.inj (Except.ok.inj hcall)
  have hnodes₂ : k₂.nodes = Function.update k.nodes a (some t.node) :=
    (modifyTask_nodes_eq hmod fun _ => rfl).trans hnodes₁
  obtain ⟨t₂, p, ht₂, hp, hnodes₃⟩ := addTask_nodes hadd
  have hnode₂ : t₂.node = t.node := by
    have hself := nodes_eq_some ht₂
    rw [hnodes₂, Function.update_self] at hself
    exact (Option.some.inj hself).symm
  have hparent : t₂.parent = k.currentTask := (congrArg Node.parent hnode₂).trans hseed.2
  rw [hparent] at hp hnodes₃
  have hcptr : p.cptr = (kids k.currentTask).headD NULL := by
    have hread := nodes_eq_some hp
    rw [hnodes₂, Function.update_of_ne hcur] at hread
    exact h.forest.child _ _ hread
  have hforest₁ := h.forest.insert (n := t.node) hfresh hforking.ne_null hidle hseed.1
  have hsome : (Function.update k.nodes a (some t.node) k.currentTask).isSome := by
    rw [Function.update_of_ne hcur, nodes_isSome]
    exact h.current
  have hforest := hforest₁.attach (Function.update_self ..) hseed.2 hsome hcur hidle
    (fun heq => by
      have hlive := h.current
      rw [heq, hk.null] at hlive
      simp at hlive)
  have hlen : k.taskList.length < MAX_TASKS.toNat := by
    have hlt : k.taskCount.toNat < MAX_TASKS.toNat := hcount
    have hmod : k.taskList.length % 2 ^ 32 < MAX_TASKS.toNat := by
      rwa [h.count, BitVec.toNat_ofNat] at hlt
    have hmax : MAX_TASKS.toNat < 2 ^ 32 := by decide
    have hbound := h.bound
    rwa [Nat.mod_eq_of_lt (by omega)] at hmod
  have hlist : k₄.taskList = a :: k.taskList := hkept.taskList.trans (congrArg (a :: ·) hforking.taskList)
  have hnum : k₄.taskCount = k.taskCount + 1 := hkept.taskCount.trans (congrArg (· + 1) hforking.taskCount)
  have hidle₄ : k₄.idleTask = k.idleTask := hkept.idleTask.trans hforking.idleTask
  refine ⟨?_, ?_, ?_, ?_⟩
  · rw [wakeupTask_nodes hwake, hnodes₃, hnodes₂, hidle₄, hcptr]
    exact hforest
  · rw [hnum, hlist, h.count, List.length_cons, BitVec.ofNat_add]
    rfl
  · rw [hlist, List.length_cons]
    omega
  · have hcurrent : k₄.currentTask = k.currentTask := by
      rw [(wakeupTask_status hwake).1, addTask_current hadd, modifyTask_current hmod]
      exact hforking.currentTask
    rw [hcurrent, ← nodes_isSome, wakeupTask_nodes hwake, hnodes₃, attach_isSome, hnodes₂,
      Function.update_of_ne hcur, nodes_isSome]
    exact h.current

namespace Family

theorem frame (h : Family k kids) (hkept : SameList k k') (hnodes : k'.nodes = k.nodes)
    (hcurrent : (k'.tasks k'.currentTask).isSome) : Family k' kids := by
  refine ⟨⟨?_, ?_, ?_, hcurrent⟩, ?_⟩
  · rw [hnodes, hkept.idleTask]
    exact h.forest
  · rw [hkept.taskCount, hkept.taskList]
    exact h.count
  · rw [hkept.taskList]
    exact h.bound
  · rw [hkept.initTask, hkept.idleTask]
    exact h.init

theorem init_ne_idle (h : Family k kids) : k.initTask ≠ k.idleTask := by
  intro heq
  have hin := h.init
  rw [heq] at hin
  exact h.forest.rootless _ hin

theorem init_isSome (h : Family k kids) : (k.tasks k.initTask).isSome := by
  obtain ⟨n, hn, -⟩ := h.forest.parent _ _ h.init
  rw [← nodes_isSome, hn]
  rfl

/-- A task and its parent. -/
theorem mem_kids_iff (h : Family k kids) {a p : U32} (hp : (k.tasks p).isSome) :
    a ∈ kids p ↔ ∃ t, k.tasks a = some t ∧ t.parent = p := by
  constructor
  · intro ha
    obtain ⟨n, hn, hparent⟩ := h.forest.parent p a ha
    obtain ⟨t, ht, rfl⟩ := Option.map_eq_some_iff.mp hn
    exact ⟨t, ht, hparent⟩
  · rintro ⟨t, ht, rfl⟩
    have hnode := nodes_eq_some ht
    by_cases hidle : a = k.idleTask
    · subst hidle
      have hnull : t.parent = NULL := h.forest.orphan _ hnode
      rw [hnull, ← nodes_isSome, h.forest.null_none] at hp
      simp at hp
    · refine h.forest.mem a _ hnode hidle ?_
      rintro rfl
      rw [h.forest.null_none] at hnode
      simp at hnode

/-- The children of a task are tasks on the list, without the task itself. -/
theorem length_kids_lt (h : Family k kids) (hk : TaskInv lo hi m₀ k used) {p : U32} (hp : (k.tasks p).isSome) :
    (kids p).length < k.taskList.length := by
  have hnodup : (p :: kids p).Nodup := List.nodup_cons.mpr ⟨h.forest.irrefl p, h.forest.nodup p⟩
  have hsub : p :: kids p ⊆ k.taskList := by
    intro a ha
    rw [hk.live]
    rcases List.mem_cons.mp ha with rfl | ha
    · exact hp
    · obtain ⟨n, hn, -⟩ := h.forest.parent p a ha
      rw [← nodes_isSome, hn]
      rfl
  have hle := (hnodup.subperm hsub).length_le
  rw [List.length_cons] at hle
  omega

/-- The child of a `do_fork` is the first one of the running task. -/
theorem publish (h : Family k kids) (hk : TaskInv lo hi m₀ k used) {a : U32} {t : Task} {k₁ : Kernel}
    {used₁ : List Extent} {ret : Int} (hcount : k.taskCount < MAX_TASKS)
    (hforking : Forking lo hi m₀ k used a t k₁ used₁) (hcall : publish k₁ a = .ok (ret, k')) :
    Family k' (Function.update kids k.currentTask (a :: kids k.currentTask)) := by
  obtain ⟨u, -, -, hkept⟩ := publish_kept hcall
  have hidle : k'.idleTask = k.idleTask := hkept.idleTask.trans hforking.idleTask
  have hinit : k'.initTask = k.initTask := by
    refine hkept.initTask.trans ?_
    obtain ⟨s, ts, mm, f, i, tf, rfl⟩ := hforking.frame
    rfl
  refine ⟨h.toKin.publish hk hcount hforking hcall, ?_⟩
  rw [hinit, hidle]
  by_cases hci : k.idleTask = k.currentTask
  · rw [hci, Function.update_self]
    exact List.mem_cons_of_mem _ (hci ▸ h.init)
  · rw [Function.update_of_ne hci]
    exact h.init

/-- A task without children leaves the tree. -/
theorem reap (h : Family k kids) (hk : TaskInv lo hi m₀ k used) {a codeStore : U32} {t : Task} {res : WaitResult}
    (ht : k.tasks a = some t) (hkids : kids a = []) (hcurrent : a ≠ k.currentTask)
    (hcall : reap k a codeStore = .ok (res, k')) :
    Family k' (Function.update kids t.parent ((kids t.parent).erase a)) := by
  obtain ⟨t', k₁, s₂, s₄, hidle, hinit, ht', hdel, -, -, -, rfl⟩ := reap_eq hcall
  obtain rfl := Option.some.inj (ht.symm.trans ht')
  have hnode := nodes_eq_some ht
  have hnull : a ≠ NULL := by
    rintro rfl
    rw [hk.null] at ht
    simp at ht
  have hin : a ∈ kids t.parent := h.forest.mem a _ hnode hidle hnull
  have hparent : t.parent ≠ NULL := by
    intro heq
    have hlive := h.forest.live _ a hin
    rw [heq, h.forest.null_none] at hlive
    simp at hlive
  have holder : t.optr ≠ a := by
    have heq : t.optr = nextIn NULL (kids t.parent) a := h.forest.older _ a _ hin hnode
    rw [heq]
    exact nextIn_ne_self (h.forest.nodup _) (h.forest.null_not_mem _) hin
  have hnodes := delTask_nodes ht holder hdel
  have hkept := delTask_kept hdel
  have hself : a ≠ t.parent := by
    rintro heq
    exact h.forest.irrefl _ (heq ▸ hin)
  have hforest := (h.forest.detach hnode hidle hparent).remove (by
    have hne : Function.update kids t.parent ((kids t.parent).erase a) a = kids a :=
      Function.update_of_ne hself _ _
    exact hne.trans hkids)
  have hlist : k₁.taskList = k.taskList.erase a := hkept.taskList
  have hmem : a ∈ k.taskList := (hk.live a).mpr (by simp [ht])
  have hpos := List.length_pos_of_mem hmem
  refine ⟨⟨?_, ?_, ?_, ?_⟩, ?_⟩
  · have hstore : Kernel.nodes { k₁ with machine := s₄, tasks := Function.update k₁.tasks a none } =
        Function.update k₁.nodes a none := by
      funext x
      by_cases hx : x = a
      · subst hx
        simp [Kernel.nodes]
      · simp [Kernel.nodes, hx]
    have hidle₁ : k₁.idleTask = k.idleTask := hkept.idleTask
    rw [hstore, hnodes]
    exact hidle₁ ▸ hforest
  · have hnum : k₁.taskCount = k.taskCount - 1 := hkept.taskCount
    change k₁.taskCount = BitVec.ofNat 32 k₁.taskList.length
    rw [hnum, hlist, h.count, List.length_erase_of_mem hmem]
    obtain ⟨n, hn⟩ : ∃ n, k.taskList.length = n + 1 := ⟨k.taskList.length - 1, by omega⟩
    rw [hn, BitVec.ofNat_add]
    exact BitVec.add_sub_cancel ..
  · change k₁.taskList.length ≤ _
    rw [hlist]
    exact (List.length_erase_le ..).trans h.bound
  · have hcur₁ : k₁.currentTask = k.currentTask := delTask_current hdel
    change (Function.update k₁.tasks a none k₁.currentTask).isSome
    rw [hcur₁, Function.update_of_ne (Ne.symm hcurrent), hkept.isSome]
    exact h.current
  · have hidle₁ : k₁.idleTask = k.idleTask := hkept.idleTask
    have hinit₁ : k₁.initTask = k.initTask := hkept.initTask
    change k₁.initTask ∈ Function.update kids t.parent ((kids t.parent).erase a) k₁.idleTask
    rw [hidle₁, hinit₁]
    by_cases hp : k.idleTask = t.parent
    · rw [hp, Function.update_self]
      exact (List.mem_erase_of_ne (Ne.symm hinit)).mpr (hp ▸ h.init)
    · rw [Function.update_of_ne hp]
      exact h.init

/-- What the loop of `do_exit` relies on, and that it ends. -/
theorem adopting (h : Family k kids) (hne : k.currentTask ≠ k.initTask) (hidle : k.currentTask ≠ k.idleTask)
    (hwake : ∀ st ws, k.status k.initTask = some (st, ws) → ws = WT_CHILD → st ≠ .zombie) : Adopting k kids :=
  ⟨h.forest.loosen _, h.current, h.init_isSome, hne, fun hmem => hidle (h.forest.parent_unique hmem h.init), hwake⟩

theorem reparent (h : Family k kids) (hk : TaskInv lo hi m₀ k used) (hne : k.currentTask ≠ k.initTask)
    (hidle : k.currentTask ≠ k.idleTask)
    (hwake : ∀ st ws, k.status k.initTask = some (st, ws) → ws = WT_CHILD → st ≠ .zombie) :
    ∃ k', reparent reparentFuel k = .ok k' ∧ Family k' (adopted kids k.currentTask k.initTask) := by
  have hlt := h.length_kids_lt hk h.current
  have hbound := h.bound
  have hfuel : (kids k.currentTask).length < reparentFuel := by
    unfold reparentFuel
    omega
  obtain ⟨k', hcall, hforest⟩ := (h.adopting hne hidle hwake).reparent hfuel
  have hkept := reparent_kept hcall
  refine ⟨k', hcall, ⟨?_, ?_, ?_, ?_⟩, ?_⟩
  · rw [hkept.idleTask]
    exact hforest
  · rw [hkept.taskCount, hkept.taskList]
    exact h.count
  · rw [hkept.taskList]
    exact h.bound
  · rw [(Roused.reparent hcall).current, hkept.isSome]
    exact h.current
  · rw [hkept.initTask, hkept.idleTask]
    unfold adopted
    rw [Function.update_of_ne (Ne.symm h.init_ne_idle), Function.update_of_ne (Ne.symm hidle)]
    exact h.init

/-- The section of `do_exit` without interrupts, for a task other than `init_task`: it does not fail, a parent that waits
for a child is woken up, and `init_task` gets the children. -/
theorem handOver (h : Family k kids) (hk : TaskInv lo hi m₀ k used) (hne : k.currentTask ≠ k.initTask)
    (hidle : k.currentTask ≠ k.idleTask)
    (hwake : ∀ a st ws, k.status a = some (st, ws) → ws = WT_CHILD → st ≠ .zombie) :
    ∃ k' t, handOver k = .ok k' ∧ Family k' (adopted kids k.currentTask k.initTask) ∧
      k.tasks k.currentTask = some t ∧
      (k.status t.parent = some (.sleeping, WT_CHILD) → k'.status t.parent = some (.runnable, WT_NOTWAIT)) := by
  obtain ⟨t, ht⟩ := Option.isSome_iff_exists.mp h.current
  have hnull : k.currentTask ≠ NULL := by
    intro heq
    rw [heq, hk.null] at ht
    simp at ht
  have hmem := h.forest.mem _ _ (nodes_eq_some ht) hidle hnull
  have hlive := h.forest.live _ _ hmem
  rw [nodes_isSome] at hlive
  obtain ⟨parent, hparent⟩ := Option.isSome_iff_exists.mp hlive
  change k.tasks t.parent = some parent at hparent
  have hpnull : t.parent ≠ NULL := by
    intro heq
    rw [heq, hk.null] at hparent
    simp at hparent
  obtain ⟨k₁, h₁⟩ := exists_doIf (k := k) (c := parent.waitState = WT_CHILD)
    (g := fun k => wakeupTask k t.parent)
    fun hc => exists_wakeupTask hparent hpnull (hwake _ _ _ (status_eq_some hparent) hc)
  have hroused : Roused k k₁ := Roused.doIf h₁ fun hc _ hcall => Roused.wakeupTask hparent hc hcall
  have hkept : Kept Task.rest k k₁ := Kept.doIf h₁ fun _ hcall => wakeupTask_kept hcall
  have hfamily : Family k₁ kids := by
    refine h.frame hkept.sameList (hkept.nodes Task.node fun _ => rfl) ?_
    rw [hroused.current, hkept.isSome]
    exact h.current
  obtain ⟨k', hcall, hfamily'⟩ := hfamily.reparent (hk.kept (hkept.comp Task.core))
    (by rw [hroused.current, hkept.initTask]; exact hne) (by rw [hroused.current, hkept.idleTask]; exact hidle) (by
      intro st ws hstatus hws
      have hwaked := hroused.status k₁.initTask
      rw [hstatus] at hwaked
      exact hwake _ _ _ (hwaked.reason (hws ▸ by decide)) hws)
  rw [hroused.current, hkept.initTask] at hfamily'
  refine ⟨k', t, ?_, hfamily', ht, ?_⟩
  · unfold Krnl.handOver
    simp only [task_eq_ok.mpr ht, Res.ok_bind, task_eq_ok.mpr hparent, h₁, hcall]
  · intro hstatus
    have hwaits : parent.waitState = WT_CHILD := by
      rw [status_eq_some hparent] at hstatus
      exact congrArg Prod.snd (Option.some.inj hstatus)
    unfold Kernel.doIf at h₁
    rw [if_pos hwaits] at h₁
    obtain ⟨-, -, ws, hcases⟩ := wakeupTask_status h₁
    have hwoken : k₁.status t.parent = some (.runnable, WT_NOTWAIT) := by
      rcases hcases with ⟨hbefore, -⟩ | ⟨-, hafter⟩
      · rw [hstatus] at hbefore
        simp at hbefore
      · exact hafter
    have hlast := (Roused.reparent hcall).status t.parent
    rw [hwoken] at hlast
    exact hlast.eq_of_ne (Or.inr (by decide))

end Family

/-- After a round the child is the first one of `init_task`. -/
theorem reparentOne_child {a : U32} (hcall : reparentOne k a = .ok k') :
    ∃ t, k'.tasks k.initTask = some t ∧ t.cptr = a := by
  unfold reparentOne at hcall
  obtain ⟨c, -, hcall⟩ := Res.bind_eq_ok.mp hcall
  obtain ⟨k₁, hcurrent, hcall⟩ := Res.bind_eq_ok.mp hcall
  obtain ⟨init, -, hcall⟩ := Res.bind_eq_ok.mp hcall
  obtain ⟨k₂, hchild, hcall⟩ := Res.bind_eq_ok.mp hcall
  obtain ⟨k₃, hsibling, hcall⟩ := Res.bind_eq_ok.mp hcall
  obtain ⟨k₄, hparent, hcall⟩ := Res.bind_eq_ok.mp hcall
  obtain ⟨k₅, hlast, hcall⟩ := Res.bind_eq_ok.mp hcall
  obtain ⟨c', -, hcall⟩ := Res.bind_eq_ok.mp hcall
  obtain ⟨init', -, hcall⟩ := Res.bind_eq_ok.mp hcall
  have h₁ : Kept (fun _ => ()) k k₁ := Kept.modifyTask hcurrent fun _ => rfl
  have h₂ := h₁.trans (Kept.modifyTask hchild fun _ => rfl)
  have h₃ := h₂.trans (Kept.doIf hsibling fun _ hmod => Kept.modifyTask hmod fun _ => rfl)
  have h₄ := h₃.trans (Kept.modifyTask hparent fun _ => rfl)
  rw [h₄.initTask] at hlast
  have hnodes : k'.nodes = k₅.nodes :=
    (Kept.doIf hcall fun _ hwake => (wakeupTask_kept hwake).comp Task.node).nodes id fun _ => rfl
  obtain ⟨t, ht, rfl⟩ := modifyTask_eq_ok.mp hlast
  have hread : k'.nodes k.initTask = some { t.node with child := a } := by
    rw [hnodes, setTask_nodes ht (g := fun n => { n with child := a }) rfl, edit_self, nodes_eq_some ht]
    rfl
  obtain ⟨t', ht', heq⟩ := Option.map_eq_some_iff.mp hread
  exact ⟨t', ht', congrArg Node.child heq⟩

/-- A round that hands a zombie over wakes `init_task` up if it waits for a child. -/
theorem reparentOne_wakes {a : U32} (hcall : reparentOne k a = .ok k') (hzombie : k.Zombie a)
    (hsleep : ∀ st, k.status k.initTask = some (st, WT_CHILD) → st = .sleeping) (st : TaskState) :
    k'.status k.initTask ≠ some (st, WT_CHILD) := by
  unfold reparentOne at hcall
  obtain ⟨c, -, hcall⟩ := Res.bind_eq_ok.mp hcall
  obtain ⟨k₁, hcurrent, hcall⟩ := Res.bind_eq_ok.mp hcall
  obtain ⟨init, -, hcall⟩ := Res.bind_eq_ok.mp hcall
  obtain ⟨k₂, hchild, hcall⟩ := Res.bind_eq_ok.mp hcall
  obtain ⟨k₃, hsibling, hcall⟩ := Res.bind_eq_ok.mp hcall
  obtain ⟨k₄, hparent, hcall⟩ := Res.bind_eq_ok.mp hcall
  obtain ⟨k₅, hlast, hcall⟩ := Res.bind_eq_ok.mp hcall
  obtain ⟨c', hc', hcall⟩ := Res.bind_eq_ok.mp hcall
  obtain ⟨init', hinit', hcall⟩ := Res.bind_eq_ok.mp hcall
  have h₁ : Roused k k₁ := .modifyTask hcurrent fun _ => rfl
  have h₂ := h₁.trans (.modifyTask hchild fun _ => rfl)
  have h₃ := h₂.trans (.doIf hsibling fun _ _ hmod => .modifyTask hmod fun _ => rfl)
  have h₄ := h₃.trans (.modifyTask hparent fun _ => rfl)
  have h₅ := h₄.trans (.modifyTask hlast fun _ => rfl)
  have hkept : Kept (fun _ => ()) k k₅ :=
    ((((Kept.modifyTask hcurrent fun _ => rfl).trans (Kept.modifyTask hchild fun _ => rfl)).trans
      (Kept.doIf hsibling fun _ hmod => Kept.modifyTask hmod fun _ => rfl)).trans
      (Kept.modifyTask hparent fun _ => rfl)).trans (Kept.modifyTask hlast fun _ => rfl)
  rw [hkept.initTask] at hinit'
  have hstate : c'.state = .zombie := by
    obtain ⟨ws, hz⟩ := h₅.zombie_iff.mpr hzombie
    rw [status_eq_some (task_eq_ok.mp hc')] at hz
    exact congrArg Prod.fst (Option.some.inj hz)
  unfold Kernel.doIf at hcall
  split at hcall
  · rename_i hwaits
    have hwake : wakeupTask k₅ k.initTask = .ok k' := hkept.initTask ▸ hcall
    -- It sleeps, so `wakeupTask` changes its status.
    have hwas := status_eq_some (task_eq_ok.mp hinit')
    rw [hwaits.2] at hwas
    obtain ⟨-, -, ws, ⟨hbefore, -⟩ | ⟨-, hafter⟩⟩ := wakeupTask_status hwake
    · have hmay := h₅.status k.initTask
      rw [hwas] at hmay
      have hasleep := hsleep _ (hmay.reason (by decide))
      rw [hwas, hasleep] at hbefore
      simp at hbefore
    · rw [hafter]
      intro heq
      have hws : WT_NOTWAIT = WT_CHILD := congrArg Prod.snd (Option.some.inj heq)
      exact absurd hws (by decide)
  · rename_i hwaits
    obtain rfl := Except.ok.inj hcall
    rw [status_eq_some (task_eq_ok.mp hinit')]
    intro heq
    exact hwaits ⟨hstate, congrArg Prod.snd (Option.some.inj heq)⟩

/-- So does the loop. -/
theorem Adopting.wakes (h : Adopting k kids) {fuel : Nat} (hcall : Krnl.reparent fuel k = .ok k')
    (hsleep : ∀ st, k.status k.initTask = some (st, WT_CHILD) → st = .sleeping) {z : U32}
    (hz : z ∈ kids k.currentTask) (hzombie : k.Zombie z) (st : TaskState) :
    k'.status k.initTask ≠ some (st, WT_CHILD) := by
  induction fuel generalizing k kids with
  | zero => simp [Krnl.reparent] at hcall
  | succ fuel ih =>
      obtain ⟨current, hcurrent⟩ := Option.isSome_iff_exists.mp h.current
      have hcptr : current.cptr = (kids k.currentTask).headD NULL := h.forest.child _ _ (nodes_eq_some hcurrent)
      cases hkids : kids k.currentTask with
      | nil =>
          rw [hkids] at hz
          simp at hz
      | cons a rest =>
          obtain ⟨k₁, hone, hcur₁, hinit₁, -, h₁⟩ := h.round hkids
          have ha : a ≠ NULL := by
            rintro rfl
            exact h.forest.null_not_mem k.currentTask (by simp [hkids])
          rw [hkids, List.headD_cons] at hcptr
          unfold Krnl.reparent at hcall
          simp only [task_eq_ok.mpr hcurrent, Res.ok_bind, hcptr, if_neg ha, hone] at hcall
          have hroused := Roused.reparentOne hone
          intro hst
          have hsleep₁ : ∀ st, k₁.status k₁.initTask = some (st, WT_CHILD) → st = .sleeping := by
            intro st₁ hst₁
            rw [hinit₁] at hst₁
            have hmay := hroused.status k.initTask
            rw [hst₁] at hmay
            exact hsleep st₁ (hmay.reason (by decide))
          rw [hkids, List.mem_cons] at hz
          rcases hz with rfl | hz
          · have hmay := (Roused.reparent hcall).status k.initTask
            rw [hst] at hmay
            exact reparentOne_wakes hone hzombie hsleep st (hmay.reason (by decide))
          · rw [← hinit₁] at hst
            refine ih h₁ hcall hsleep₁ ?_ (hroused.zombie_iff.mpr hzombie) hst
            rw [hcur₁, Function.update_of_ne h.ne, Function.update_self]
            exact hz

/-- `init_task` with a child cannot exit: its loop does not end. -/
theorem not_reparent_init {fuel : Nat} {t : Task} (hinit : k.currentTask = k.initTask)
    (ht : k.tasks k.currentTask = some t) (hcptr : t.cptr ≠ NULL) : reparent fuel k ≠ .ok k' := by
  induction fuel generalizing k t with
  | zero => simp [Krnl.reparent]
  | succ fuel ih =>
      intro hcall
      unfold Krnl.reparent at hcall
      simp only [task_eq_ok.mpr ht, Res.ok_bind, if_neg hcptr] at hcall
      obtain ⟨k₁, hone, hcall⟩ := Res.bind_eq_ok.mp hcall
      have hkept := reparentOne_kept hone
      have hcurrent := (Roused.reparentOne hone).current
      obtain ⟨t₁, ht₁, heq⟩ := reparentOne_child hone
      rw [← hinit, ← hcurrent] at ht₁
      exact ih (by rw [hcurrent, hkept.initTask, hinit]) ht₁ (heq ▸ hcptr) hcall

/-- A parent that sleeps until a child exits does not wait any more after the hand-over. -/
theorem handOver_wakes_parent (hcall : Krnl.handOver k = .ok k') {t : Task} (ht : k.tasks k.currentTask = some t)
    (hsleep : ∀ st, k.status t.parent = some (st, WT_CHILD) → st = .sleeping) (st : TaskState) :
    k'.status t.parent ≠ some (st, WT_CHILD) := by
  unfold Krnl.handOver at hcall
  obtain ⟨t', ht', hcall⟩ := Res.bind_eq_ok.mp hcall
  obtain rfl := Option.some.inj (ht.symm.trans (task_eq_ok.mp ht'))
  obtain ⟨parent, hparent, hcall⟩ := Res.bind_eq_ok.mp hcall
  obtain ⟨k₁, hwake, hcall⟩ := Res.bind_eq_ok.mp hcall
  intro hst
  obtain ⟨st₁, hst₁⟩ := (Roused.reparent hcall).child st hst
  have hstatus := status_eq_some (task_eq_ok.mp hparent)
  unfold Kernel.doIf at hwake
  split at hwake
  · rename_i hwaits
    rw [hwaits] at hstatus
    obtain ⟨-, -, ws, ⟨hbefore, -⟩ | ⟨-, hafter⟩⟩ := wakeupTask_status hwake
    · rw [hstatus, hsleep _ hstatus] at hbefore
      simp at hbefore
    · rw [hafter] at hst₁
      have hws : WT_NOTWAIT = WT_CHILD := congrArg Prod.snd (Option.some.inj hst₁)
      exact absurd hws (by decide)
  · rename_i hwaits
    obtain rfl := Except.ok.inj hwake
    rw [hstatus] at hst₁
    exact hwaits (congrArg Prod.snd (Option.some.inj hst₁))

/-- Nor does `init_task`, if it is given a zombie. -/
theorem Family.handOver_wakes_init (h : Family k kids) (hne : k.currentTask ≠ k.initTask)
    (hidle : k.currentTask ≠ k.idleTask) (hcall : Krnl.handOver k = .ok k')
    (hsleep : ∀ st, k.status k.initTask = some (st, WT_CHILD) → st = .sleeping) {z : U32}
    (hz : z ∈ kids k.currentTask) (hzombie : k.Zombie z) (st : TaskState) :
    k'.status k.initTask ≠ some (st, WT_CHILD) := by
  unfold Krnl.handOver at hcall
  obtain ⟨current, -, hcall⟩ := Res.bind_eq_ok.mp hcall
  obtain ⟨parent, hparent, hcall⟩ := Res.bind_eq_ok.mp hcall
  obtain ⟨k₁, hwake, hcall⟩ := Res.bind_eq_ok.mp hcall
  have hroused : Roused k k₁ := Roused.doIf hwake fun hc _ hwake => Roused.wakeupTask (task_eq_ok.mp hparent) hc hwake
  have hkept : Kept Task.rest k k₁ := Kept.doIf hwake fun _ hwake => wakeupTask_kept hwake
  have hfamily : Family k₁ kids := by
    refine h.frame hkept.sameList (hkept.nodes Task.node fun _ => rfl) ?_
    rw [hroused.current, hkept.isSome]
    exact h.current
  have hsleep₁ : ∀ st, k₁.status k₁.initTask = some (st, WT_CHILD) → st = .sleeping := by
    intro st₁ hst₁
    rw [hkept.initTask] at hst₁
    have hmay := hroused.status k.initTask
    rw [hst₁] at hmay
    exact hsleep st₁ (hmay.reason (by decide))
  have hadopting := hfamily.adopting (by rw [hroused.current, hkept.initTask]; exact hne)
    (by rw [hroused.current, hkept.idleTask]; exact hidle) (by
      rintro st₁ ws hst₁ rfl
      rw [hsleep₁ st₁ hst₁]
      simp)
  rw [← hkept.initTask]
  exact hadopting.wakes hcall hsleep₁ (hroused.current ▸ hz) (hroused.zombie_iff.mpr hzombie) st

/-- If `init_task` gets through its hand-over, it had no child, and the tree is as before. -/
theorem Family.handOver_init (h : Family k kids) (hinit : k.currentTask = k.initTask) (hcall : Krnl.handOver k = .ok k') :
    kids k.currentTask = [] ∧ Family k' kids := by
  unfold Krnl.handOver at hcall
  obtain ⟨current, -, hcall⟩ := Res.bind_eq_ok.mp hcall
  obtain ⟨parent, hparent, hcall⟩ := Res.bind_eq_ok.mp hcall
  obtain ⟨k₁, hwake, hcall⟩ := Res.bind_eq_ok.mp hcall
  have hroused : Roused k k₁ := Roused.doIf hwake fun hc _ hwake => Roused.wakeupTask (task_eq_ok.mp hparent) hc hwake
  have hkept : Kept Task.rest k k₁ := Kept.doIf hwake fun _ hwake => wakeupTask_kept hwake
  have hfamily : Family k₁ kids := by
    refine h.frame hkept.sameList (hkept.nodes Task.node fun _ => rfl) ?_
    rw [hroused.current, hkept.isSome]
    exact h.current
  obtain ⟨t, ht⟩ := Option.isSome_iff_exists.mp hfamily.current
  have hcptr : t.cptr = (kids k.currentTask).headD NULL := by
    rw [← hroused.current]
    exact hfamily.forest.child _ _ (nodes_eq_some ht)
  have hzero : t.cptr = NULL := by
    by_contra hne
    exact not_reparent_init (by rw [hroused.current, hkept.initTask, hinit]) ht hne hcall
  have hnil : kids k.currentTask = [] := by
    cases hkids : kids k.currentTask with
    | nil => rfl
    | cons a rest =>
        rw [hkids, List.headD_cons, hzero] at hcptr
        exact absurd (by simp [hkids, hcptr]) (h.forest.null_not_mem k.currentTask)
  refine ⟨hnil, ?_⟩
  unfold reparentFuel Krnl.reparent at hcall
  simp only [task_eq_ok.mpr ht, Res.ok_bind, if_pos hzero] at hcall
  obtain rfl := Except.ok.inj hcall
  exact hfamily

/-- The tree when `initTask` is done. -/
theorem initTask_family {image : KernelImage} {m : Machine} {arg : U32} (hledger : Ledger lo hi m₀ m used)
    (hcall : initTask image m arg = .ok k) :
    ∃ init, k.initTask = init ∧ k.taskList = [init, k.idleTask] ∧ k.currentTask = k.idleTask ∧
      Family k (Function.update (fun _ => []) k.idleTask [init]) := by
  obtain ⟨idle, files, k₁, k₂, ret, init, halone, hfork, hret, hfind, rfl⟩ := initTask_cases hledger hcall
  obtain ⟨used₁, hinv⟩ := halone.inv
  have hkin : Kin k₁ fun _ => [] := by
    have hnodes : k₁.nodes = Function.update (fun _ => none) idle (some (idleRecord image files).node) := by
      funext x
      unfold Kernel.nodes
      rw [halone.tasks]
      by_cases hx : x = idle
      · simp [hx]
      · simp [hx]
    refine ⟨?_, ?_, ?_, ?_⟩
    · rw [halone.idleTask, hnodes]
      refine ⟨?_, ?_, ?_, ?_, ?_, ?_, ?_, ?_, ?_, ?_, ?_, ?_⟩
      · rw [Function.update_of_ne halone.ne_null.symm]
      · intro p n hn
        by_cases hp : p = idle
        · subst hp
          rw [Function.update_self] at hn
          rw [← Option.some.inj hn]
          rfl
        · rw [Function.update_of_ne hp] at hn
          simp at hn
      · simp
      · simp
      · simp
      · simp
      · intro a n hn ha _
        rw [Function.update_of_ne ha] at hn
        simp at hn
      · simp
      · simp
      · simp
      · simp
      · intro n hn
        rw [Function.update_self] at hn
        rw [← Option.some.inj hn]
        rfl
    · rw [halone.taskCount, halone.taskList]
      rfl
    · rw [halone.taskList]
      exact (by decide : 1 ≤ MAX_TASKS.toNat)
    · rw [halone.currentTask, halone.tasks]
      simp
  unfold createKernelThread at hfork
  rcases doFork_forking hinv hfork with ⟨hneg, -⟩ | ⟨hcount, a, t, k₃, used₃, hforking, hstack, hpub⟩
  · exact absurd hneg hret
  · have hkin₂ := hkin.publish hinv hcount hforking hpub
    obtain ⟨t', hret', hforked⟩ := hforking.publish hinv hstack hpub
    have hidle₂ : k₂.idleTask = k₁.idleTask := (doFork_status hinv hfork).2.1
    have hcur₂ : k₂.currentTask = k₁.currentTask := (doFork_status hinv hfork).1
    -- The list starts with the new task, so that is what `find_task` finds.
    have hinit : init = a := by
      unfold findTask at hfind
      rw [hforked.taskList] at hfind
      unfold findTaskIn at hfind
      rw [task_eq_ok.mpr hforked.self, Res.ok_bind, hret', BitVec.ofInt_toInt, if_pos rfl] at hfind
      exact (Except.ok.inj hfind).symm
    subst hinit
    refine ⟨init, rfl, ?_, ?_, ?_, ?_⟩
    · change k₂.taskList = [init, k₂.idleTask]
      rw [hforked.taskList, halone.taskList, hidle₂, halone.idleTask]
    · change k₂.currentTask = k₂.idleTask
      rw [hcur₂, hidle₂, halone.currentTask, halone.idleTask]
    · rw [halone.currentTask, ← halone.idleTask, ← hidle₂] at hkin₂
      exact ⟨hkin₂.forest, hkin₂.count, hkin₂.bound, hkin₂.current⟩
    · simp

end Tree

end Krnl
end FreakOS
