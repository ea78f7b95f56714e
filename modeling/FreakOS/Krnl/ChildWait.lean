import FreakOS.Krnl.ProcessTree
import FreakOS.Krnl.TaskIds

/-!
# A parent that sleeps in `do_wait`

`do_wait` looks at the children, then goes to sleep; `do_exit` wakes a parent up that sleeps already.  A child that exits
in between is lost.

* `System.ExitNoticed` — the task that exits is seen by its parent, and its zombies by `init_task`.
* `TimelyStep` — a step in which that is so, the timer keeps away from the end of `do_exit`, and a new task gets a new id.
* `ChildInv` — in runs of such steps: the search of `do_wait` does not run past the last zombie, and who sleeps has no
  zombie to wait for.
* `no_lost_wakeup` — the result; `wakeup_lost` is a run in which a child exits right before its parent sleeps.
-/

namespace FreakOS
namespace Krnl

open Lib
open Memory
open FreakOS.Krnl.System

/-- The id of the task at an address. -/
def Kernel.tidAt (k : Kernel) (a : U32) : Option U32 := (k.tasks a).map Task.tid

/-- Following `optr` leads from one task to another one. -/
def Kernel.Older (k : Kernel) : U32 → U32 → Prop :=
  Relation.ReflTransGen fun a b => ∃ t, k.tasks a = some t ∧ t.optr = b

namespace System

/-- The task at `p` does not miss a child with this id that is a zombie from now on: its search still comes to a zombie,
or it is about to sleep but for another child. -/
def Notices (s : System) (p tid : U32) : Prop :=
  match s.pc p with
  | .waitLoop _ task _ => ∃ y, s.kernel.Older task y ∧ (y = s.current ∨ s.kernel.Zombie y)
  | .waitMark pid _ => pid ≠ 0 ∧ tid ≠ pid
  | .waitReason pid _ => pid ≠ 0 ∧ tid ≠ pid
  | _ => True

/-- If the running task exits now, nobody misses it or a zombie that it hands over. -/
def ExitNoticed (s : System) : Prop :=
  ∀ errCode t, s.pc s.current = .exitMark errCode → s.kernel.tasks s.current = some t →
    s.Notices t.parent t.tid ∧
      ∀ z u, s.kernel.tasks z = some u → u.parent = s.current → u.state = .zombie →
        s.Notices s.kernel.initTask u.tid

/-- The task at `p` is on its way to sleep in `do_wait(pid)`, or it sleeps there. -/
def Committed (s : System) (p pid : U32) : Prop :=
  (∃ codeStore, s.pc p = .waitMark pid codeStore ∨ s.pc p = .waitReason pid codeStore) ∨
    ∃ codeStore st, (s.pc p = .waitSched pid codeStore ∨ s.pc p = .waitWoken pid codeStore) ∧
      s.kernel.status p = some (st, WT_CHILD)

end System

/-- A step in which no exit is missed. -/
def TimelyStep (s s' : System) : Prop :=
  ∃ saved act, s.step saved act = some (.ok s') ∧ ¬ act.InExit ∧
    (∀ flags stack frame, act = .call (.fork flags stack frame) → FreshTid s.kernel) ∧
    (act = .next → s.ExitNoticed)

/-- What the steps of `do_wait` rely on. -/
structure ChildInv (s : System) (kids : U32 → List U32) : Prop where
  unique : UniqueTids s.kernel
  search : ∀ p codeStore task haskid, s.pc p = .waitLoop codeStore task haskid →
    ∃ seen rest, kids p = seen ++ rest ∧ task = rest.headD NULL ∧
      ∀ z ∈ seen, s.kernel.Zombie z → ∃ y ∈ rest, s.kernel.Zombie y
  quiet : ∀ p pid, s.Committed p pid → ∀ z ∈ kids p, s.kernel.Zombie z → pid ≠ 0 ∧ s.kernel.tidAt z ≠ some pid

/-! ### Steps that change no zombie -/

/-- The tree, the zombies and the ids are as before. -/
structure SameKin (k k' : Kernel) : Prop where
  nodes : k'.nodes = k.nodes
  zombie : ∀ a, k'.Zombie a ↔ k.Zombie a
  tidAt : ∀ a, k'.tidAt a = k.tidAt a
  taskList : k'.taskList = k.taskList

namespace SameKin

variable {k k' k'' : Kernel}

theorem refl (k : Kernel) : SameKin k k := ⟨rfl, fun _ => Iff.rfl, fun _ => rfl, rfl⟩

theorem trans (h₁ : SameKin k k') (h₂ : SameKin k' k'') : SameKin k k'' :=
  ⟨h₂.nodes.trans h₁.nodes, fun a => (h₂.zombie a).trans (h₁.zombie a),
    fun a => (h₂.tidAt a).trans (h₁.tidAt a), h₂.taskList.trans h₁.taskList⟩

theorem of_still (h : Kept Task.still k k') : SameKin k k' := by
  refine ⟨h.nodes Task.node fun _ => rfl, fun a => ?_, fun a => (h.comp Task.tid).tasks a, h.taskList⟩
  unfold Kernel.Zombie
  rw [still_status h a]

theorem wakeupTask {a : U32} (hcall : wakeupTask k a = .ok k') : SameKin k k' := by
  have hkept := wakeupTask_kept hcall
  refine ⟨wakeupTask_nodes hcall, fun b => ⟨?_, ?_⟩, fun b => (hkept.comp Task.tid).tasks b, hkept.taskList⟩
  · rintro ⟨ws, hz⟩
    exact (Calm.wakeupTask hcall).zombie b ws hz
  · rintro ⟨ws, hz⟩
    obtain ⟨-, hothers, ws', hcases⟩ := wakeupTask_status hcall
    by_cases hb : b = a
    · -- A zombie is not woken up.
      subst hb
      rw [hz] at hcases
      simp at hcases
    · exact ⟨ws, (hothers b hb).trans hz⟩

/-- The task at `a` writes to its structure, and is no zombie before and after. -/
theorem modifyTask {a : U32} {g : Task → Task} (hcall : k.modifyTask a g = .ok k') (hnode : ∀ t, (g t).node = t.node)
    (htid : ∀ t, (g t).tid = t.tid) (hstate : ∀ t, (g t).state = .zombie → t.state = .zombie)
    (hlive : ¬ k.Zombie a) : SameKin k k' := by
  have hkept : Kept Task.tid k k' := Kept.modifyTask hcall htid
  refine ⟨modifyTask_nodes_eq hcall hnode, fun b => ⟨?_, ?_⟩, hkept.tasks, hkept.taskList⟩
  · rintro ⟨ws, hz⟩
    exact (Calm.modifyTask hcall hnode hstate).zombie b ws hz
  · rintro ⟨ws, hz⟩
    have hb : b ≠ a := by
      rintro rfl
      exact hlive ⟨ws, hz⟩
    exact ⟨ws, (modifyTask_status_of_ne hcall hb).trans hz⟩

theorem wakeupLoop {flags : U32} {queue : List U32} {s s' : System} (hcall : wakeupLoop flags queue s = .ok s') :
    SameKin s.kernel s'.kernel := by
  induction queue generalizing s with
  | nil =>
      obtain rfl := Except.ok.inj hcall
      exact refl _
  | cons a rest ih =>
      obtain ⟨s₁, hwait, hcall⟩ := Res.bind_eq_ok.mp hcall
      obtain ⟨k, hwake, rfl⟩ := wakeupWait_eq_ok hwait
      exact (wakeupTask hwake).trans (ih hcall)

theorem unique (h : SameKin k k') (hids : UniqueTids k) : UniqueTids k' := by
  intro a b t u ha hb ht hu htid
  rw [h.taskList] at ha hb
  obtain ⟨t₀, ht₀, hid⟩ := exists_of_map_eq (h.tidAt a) ht
  obtain ⟨u₀, hu₀, hid'⟩ := exists_of_map_eq (h.tidAt b) hu
  exact hids a b t₀ u₀ ha hb ht₀ hu₀ (hid.trans (htid.trans hid'.symm))

end SameKin

/-! ### The steps of `do_wait` -/

/-- The child that a task at a place after the search of `do_wait` waits for. -/
def Pc.waitsFor : Pc → Option U32
  | .waitMark pid _ => some pid
  | .waitReason pid _ => some pid
  | .waitSched pid _ => some pid
  | .waitWoken pid _ => some pid
  | _ => none

/-- A place at which `ChildInv` says nothing about a task. -/
def Pc.Carefree : Pc → Prop
  | .waitLoop .. => False
  | pc => pc.waitsFor = none

theorem Pc.Carefree.waitsFor {pc : Pc} (h : pc.Carefree) : pc.waitsFor = none := by
  cases pc <;> first | exact h | rfl

theorem tidAt_of_core {k k' : Kernel} {a : U32} (h : (k'.tasks a).map Task.core = (k.tasks a).map Task.core) :
    k'.tidAt a = k.tidAt a := by
  have hmap := congrArg (Option.map Prod.fst) h
  rw [Option.map_map, Option.map_map] at hmap
  exact hmap

section Child

variable {s s' : System} {saved : Context} {kids : U32 → List U32} {rank : U32 → Nat}

theorem waitsFor_of_committed {p pid : U32} (h : s.Committed p pid) : (s.pc p).waitsFor = some pid := by
  rcases h with ⟨codeStore, hpc | hpc⟩ | ⟨codeStore, st, hpc | hpc, -⟩
  all_goals
    rw [hpc]
    rfl

/-- A task keeps its place; so if it is committed, it was before. -/
theorem committed_before {p pid : U32} (hpc : s'.pc p = s.pc p)
    (hstatus : ∀ st, s'.kernel.status p = some (st, WT_CHILD) → ∃ st', s.kernel.status p = some (st', WT_CHILD))
    (h : s'.Committed p pid) : s.Committed p pid := by
  unfold System.Committed at h ⊢
  rw [hpc] at h
  refine h.imp_right ?_
  rintro ⟨codeStore, st, hplace, hst⟩
  obtain ⟨st', hst'⟩ := hstatus st hst
  exact ⟨codeStore, st', hplace, hst'⟩

namespace ChildInv

/-- A step that changes no zombie: what is left to show is about the running task. -/
theorem calm (h : ChildInv s kids) (hk : SameKin s.kernel s'.kernel)
    (hothers : ∀ a, a ≠ s.current → s'.pc a = s.pc a ∧
      ∀ st, s'.kernel.status a = some (st, WT_CHILD) → ∃ st', s.kernel.status a = some (st', WT_CHILD))
    (hsearch : ∀ codeStore task haskid, s'.pc s.current = .waitLoop codeStore task haskid →
      ∃ seen rest, kids s.current = seen ++ rest ∧ task = rest.headD NULL ∧
        ∀ z ∈ seen, s.kernel.Zombie z → ∃ y ∈ rest, s.kernel.Zombie y)
    (hquiet : ∀ pid, s'.Committed s.current pid → ∀ z ∈ kids s.current, s.kernel.Zombie z →
      pid ≠ 0 ∧ s.kernel.tidAt z ≠ some pid) : ChildInv s' kids := by
  refine ⟨hk.unique h.unique, ?_, ?_⟩
  · intro p codeStore task haskid hpc
    have hbefore : ∃ seen rest, kids p = seen ++ rest ∧ task = rest.headD NULL ∧
        ∀ z ∈ seen, s.kernel.Zombie z → ∃ y ∈ rest, s.kernel.Zombie y := by
      by_cases hp : p = s.current
      · subst hp
        exact hsearch codeStore task haskid hpc
      · rw [(hothers p hp).1] at hpc
        exact h.search p codeStore task haskid hpc
    simpa only [hk.zombie] using hbefore
  · intro p pid hcom z hz hzombie
    rw [hk.zombie] at hzombie
    rw [hk.tidAt]
    by_cases hp : p = s.current
    · subst hp
      exact hquiet pid hcom z hz hzombie
    · obtain ⟨hpc, hstatus⟩ := hothers p hp
      exact h.quiet p pid (committed_before hpc hstatus hcom) z hz hzombie

/-- The same, when no task has moved. -/
theorem stay (h : ChildInv s kids) (hk : SameKin s.kernel s'.kernel) (hpc : s'.pc = s.pc)
    (hstatus : ∀ a st, s'.kernel.status a = some (st, WT_CHILD) → ∃ st', s.kernel.status a = some (st', WT_CHILD)) :
    ChildInv s' kids := by
  refine h.calm hk (fun a _ => ⟨congrFun hpc a, hstatus a⟩) ?_ ?_
  · intro codeStore task haskid hplace
    rw [hpc] at hplace
    exact h.search _ codeStore task haskid hplace
  · intro pid hcom
    exact h.quiet _ pid (committed_before (congrFun hpc _) (hstatus _) hcom)

/-- The same, when the running task goes on outside of the search and the sleep of `do_wait`. -/
theorem leave (h : ChildInv s kids) (hk : SameKin s.kernel s'.kernel)
    (hothers : ∀ a, a ≠ s.current → s'.pc a = s.pc a ∧
      ∀ st, s'.kernel.status a = some (st, WT_CHILD) → ∃ st', s.kernel.status a = some (st', WT_CHILD))
    {pc' : Pc} (hpc : s'.pc s.current = pc') (hfree : pc'.Carefree) : ChildInv s' kids := by
  refine h.calm hk hothers ?_ ?_
  · intro codeStore task haskid hplace
    rw [hpc] at hplace
    subst hplace
    exact absurd hfree id
  · intro pid hcom
    have hnone := waitsFor_of_committed hcom
    rw [hpc, hfree.waitsFor] at hnone
    simp at hnone

/-- The search starts at the first child. -/
theorem waitFirst (h : ChildInv s kids) (htree : TreeInv s kids rank) {codeStore : U32} {t : Task}
    (ht : s.kernel.tasks s.current = some t) : ChildInv (s.goto s.current (.waitLoop codeStore t.cptr false)) kids := by
  refine h.calm (.refl _) (fun a ha => ⟨goto_pc_of_ne _ _ ha, fun st hst => ⟨st, hst⟩⟩) ?_ ?_
  · intro codeStore' task haskid hpc
    rw [goto_pc_self] at hpc
    obtain ⟨-, rfl, -⟩ := Pc.waitLoop.inj hpc
    refine ⟨[], kids s.current, rfl, ?_, by simp⟩
    exact htree.family.forest.child _ _ (nodes_eq_some ht)
  · intro pid hcom
    have hnone := waitsFor_of_committed hcom
    rw [goto_pc_self] at hnone
    simp [Pc.waitsFor] at hnone

/-- The search goes on to the next child. -/
theorem waitRound (h : ChildInv s kids) (htree : TreeInv s kids rank) {codeStore task : U32} {haskid : Bool} {t : Task}
    (hpc : s.pc s.current = .waitLoop codeStore task haskid) (ht : s.kernel.tasks task = some t)
    (hstate : t.state ≠ .zombie) : ChildInv (s.goto s.current (.waitLoop codeStore t.optr true)) kids := by
  have hlive : ¬ s.kernel.Zombie task := by
    rintro ⟨ws, hz⟩
    rw [status_eq_some ht] at hz
    exact hstate (congrArg Prod.fst (Option.some.inj hz))
  refine h.calm (.refl _) (fun a ha => ⟨goto_pc_of_ne _ _ ha, fun st hst => ⟨st, hst⟩⟩) ?_ ?_
  · intro codeStore' task' haskid' hpc'
    rw [goto_pc_self] at hpc'
    obtain ⟨-, rfl, -⟩ := Pc.waitLoop.inj hpc'
    obtain ⟨seen, rest, hkids, htask, hseen⟩ := h.search _ _ _ _ hpc
    cases rest with
    | nil =>
        -- There is no task at `NULL`.
        rw [htask, List.headD_nil] at ht
        have hnone := htree.family.forest.null_none
        rw [nodes_eq_some ht] at hnone
        simp at hnone
    | cons x rest =>
        rw [List.headD_cons] at htask
        subst htask
        have hin : task ∈ kids s.current := by
          rw [hkids]
          simp
        have hnodup := htree.family.forest.nodup s.current
        rw [hkids, List.nodup_append, List.nodup_cons] at hnodup
        have hout : task ∉ seen := fun hmem => hnodup.2.2 task hmem task (List.mem_cons_self ..) rfl
        have hnext : t.optr = nextIn NULL (kids s.current) task :=
          htree.family.forest.older _ task t.node hin (nodes_eq_some ht)
        refine ⟨seen ++ [task], rest, by simp [hkids], ?_, ?_⟩
        · rw [hnext, hkids, nextIn_split hout]
        · intro z hz hzombie
          rw [List.mem_append, List.mem_singleton] at hz
          rcases hz with hz | rfl
          · obtain ⟨y, hy, hyzombie⟩ := hseen z hz hzombie
            rcases List.mem_cons.mp hy with rfl | hy
            · exact absurd hyzombie hlive
            · exact ⟨y, hy, hyzombie⟩
          · exact absurd hzombie hlive
  · intro pid hcom
    have hnone := waitsFor_of_committed hcom
    rw [goto_pc_self] at hnone
    simp [Pc.waitsFor] at hnone

/-- The running task goes on to a place where it is about to sleep, and there is no zombie that it waits for. -/
theorem commit (h : ChildInv s kids) (hk : SameKin s.kernel s'.kernel)
    (hothers : ∀ a, a ≠ s.current → s'.pc a = s.pc a ∧
      ∀ st, s'.kernel.status a = some (st, WT_CHILD) → ∃ st', s.kernel.status a = some (st', WT_CHILD))
    {pc' : Pc} {pid : U32} (hpc : s'.pc s.current = pc') (hpid : pc'.waitsFor = some pid)
    (hquiet : ∀ z ∈ kids s.current, s.kernel.Zombie z → pid ≠ 0 ∧ s.kernel.tidAt z ≠ some pid) : ChildInv s' kids := by
  refine h.calm hk hothers ?_ ?_
  · intro codeStore task haskid hplace
    rw [hpc] at hplace
    subst hplace
    simp [Pc.waitsFor] at hpid
  · intro pid' hcom
    have hsame := waitsFor_of_committed hcom
    rw [hpc, hpid] at hsame
    rw [← Option.some.inj hsame]
    exact hquiet

/-- The end of a search: the task is about to sleep, or it returns. -/
theorem waitNone (h : ChildInv s kids) {pid codeStore : U32} {haskid : Bool}
    (hquiet : haskid = true → ∀ z ∈ kids s.current, s.kernel.Zombie z → pid ≠ 0 ∧ s.kernel.tidAt z ≠ some pid) :
    ChildInv (s.waitNone pid codeStore haskid) kids := by
  have hothers : ∀ a, a ≠ s.current → (s.waitNone pid codeStore haskid).pc a = s.pc a ∧
      ∀ st, (s.waitNone pid codeStore haskid).kernel.status a = some (st, WT_CHILD) →
        ∃ st', s.kernel.status a = some (st', WT_CHILD) := fun a ha => ⟨goto_pc_of_ne _ _ ha, fun st hst => ⟨st, hst⟩⟩
  cases haskid with
  | false => exact h.leave (.refl _) hothers (goto_pc_self ..) rfl
  | true => exact h.commit (.refl _) hothers (goto_pc_self ..) rfl (hquiet rfl)

/-- The loop has come to the end of the children: none of them is a zombie. -/
theorem waitEnd (h : ChildInv s kids) (htree : TreeInv s kids rank) {codeStore : U32} {haskid : Bool}
    (hpc : s.pc s.current = .waitLoop codeStore NULL haskid) : ChildInv (s.waitNone 0 codeStore haskid) kids := by
  refine h.waitNone fun _ z hz hzombie => ?_
  obtain ⟨seen, rest, hkids, hnull, hseen⟩ := h.search _ _ _ _ hpc
  cases rest with
  | nil =>
      rw [hkids, List.append_nil] at hz
      obtain ⟨y, hy, -⟩ := hseen z hz hzombie
      simp at hy
  | cons x rest =>
      rw [List.headD_cons] at hnull
      refine absurd ?_ (htree.family.forest.null_not_mem s.current)
      rw [hkids, hnull]
      simp

/-- `waitpid` has found no zombie. -/
theorem waitChild {lo hi : Nat} {m₀ : Pmm} {used : List Extent} (h : ChildInv s kids) (htree : TreeInv s kids rank)
    (hk : TaskInv lo hi m₀ s.kernel used) {pid codeStore : U32} {haskid : Bool} (hpid : pid ≠ 0)
    (hcall : findChild s.kernel pid = .ok (NULL, haskid)) : ChildInv (s.waitNone pid codeStore haskid) kids := by
  refine h.waitNone fun _ z hz hzombie => ⟨hpid, fun htid => ?_⟩
  obtain ⟨t, ht, rfl⟩ := Option.map_eq_some_iff.mp htid
  obtain ⟨ws, hzombie⟩ := hzombie
  rw [status_eq_some ht] at hzombie
  have hstate : t.state = .zombie := congrArg Prod.fst (Option.some.inj hzombie)
  obtain ⟨t', ht', hparent⟩ := (htree.family.mem_kids_iff htree.family.current).mp hz
  obtain rfl := Option.some.inj (ht.symm.trans ht')
  have hnull : z ≠ NULL := fun heq => htree.family.forest.null_not_mem _ (heq ▸ hz)
  -- The search by id finds this task, and would have returned it.
  have hfind := h.unique.findTask hk ((hk.live z).mpr (by simp [ht])) ht
  unfold findChild at hcall
  rw [hfind, Res.ok_bind, if_neg hnull, task_eq_ok.mpr ht, Res.ok_bind, if_pos hparent, if_pos hstate] at hcall
  exact hnull (Prod.mk.inj (Except.ok.inj hcall)).1

/-! ### `do_fork`, `do_exit` and the end of `do_wait` -/

/-- A new task. -/
theorem fork {lo hi : Nat} {m₀ : Pmm} {used : List Extent} (h : ChildInv s kids) (htree : TreeInv s kids rank)
    (hk : TaskInv lo hi m₀ s.kernel used) (hpc : s.pc s.current = .run) (hfresh : FreshTid s.kernel)
    {flags stack : U32} {frame : InterruptFrame} {ret : Int} {k : Kernel}
    (hcall : doFork s.kernel flags stack frame = .ok (ret, k)) :
    ∃ kids', Family k kids' ∧ ChildInv (s.setKernel k) kids' := by
  obtain ⟨hcurrent, -, hstatus⟩ := doFork_status hk hcall
  rcases doFork_forking hk hcall with ⟨-, ⟨m, mm, f, i, tf, rfl⟩, -⟩ | ⟨hcount, a, t, k₁, used₁, hforking, hstack, hpub⟩
  · exact ⟨kids, htree.family.frame ⟨rfl, rfl, rfl, rfl⟩ rfl htree.family.current,
      h.stay ⟨rfl, fun _ => Iff.rfl, fun _ => rfl, rfl⟩ rfl fun _ st hst => ⟨st, hst⟩⟩
  · obtain ⟨t', -, hforked⟩ := hforking.publish hk hstack hpub
    have hothers : ∀ b, b ≠ a → k.status b = s.kernel.status b := by
      rcases hstatus with hsame | ⟨c, -, -, hothers⟩
      · exact fun b _ => hsame b
      · have hca : a = c := by
          by_contra hne
          have hsome := hothers a hne
          rw [status_eq_some hforked.self] at hsome
          simp [Kernel.status, hforking.fresh] at hsome
        rw [hca]
        exact hothers
    have hnew : ∀ st ws, k.status a = some (st, ws) → st ≠ .zombie ∧ ws ≠ WT_CHILD := by
      rcases hstatus with hsame | ⟨c, hnone, hnew, hothers⟩
      · intro st ws hst
        rw [hsame a] at hst
        simp [Kernel.status, hforking.fresh] at hst
      · intro st ws hst
        by_cases hca : a = c
        · rw [hca, hnew] at hst
          obtain ⟨rfl, rfl⟩ := Prod.mk.inj (Option.some.inj hst)
          exact ⟨by simp, by decide⟩
        · rw [hothers a hca] at hst
          simp [Kernel.status, hforking.fresh] at hst
    have hzombie : ∀ z, k.Zombie z ↔ s.kernel.Zombie z := by
      intro z
      unfold Kernel.Zombie
      by_cases hza : z = a
      · subst hza
        constructor
        · rintro ⟨ws, hz⟩
          exact absurd rfl (hnew _ ws hz).1
        · rintro ⟨ws, hz⟩
          simp [Kernel.status, hforking.fresh] at hz
      · rw [hothers z hza]
    have hold : ∀ p z, z ∈ kids p → z ≠ a := by
      rintro p z hz rfl
      obtain ⟨n, hn, -⟩ := htree.family.forest.parent p z hz
      simp [Kernel.nodes, hforking.fresh] at hn
    refine ⟨_, htree.family.publish hk hcount hforking hpub, h.unique.forked hforked (hfresh hcount), ?_, ?_⟩
    · intro p codeStore task haskid hplace
      have hp : p ≠ s.kernel.currentTask := by
        rintro rfl
        exact absurd (hpc.symm.trans hplace) (by simp)
      rw [Function.update_of_ne hp]
      have hsearch := h.search p codeStore task haskid hplace
      simpa only [setKernel_kernel, hzombie] using hsearch
    · intro p pid hcom z hz hz'
      have hp : p ≠ s.kernel.currentTask := by
        rintro rfl
        have hnone := waitsFor_of_committed hcom
        rw [setKernel_pc, show s.pc s.kernel.currentTask = .run from hpc] at hnone
        simp [Pc.waitsFor] at hnone
      rw [Function.update_of_ne hp] at hz
      have hbefore : s.Committed p pid := by
        refine committed_before (show (s.setKernel k).pc p = s.pc p from rfl) (fun st hst => ?_) hcom
        by_cases hpa : p = a
        · subst hpa
          exact absurd rfl (hnew st _ hst).2
        · exact ⟨st, (hothers p hpa).symm.trans hst⟩
      rw [setKernel_kernel, tidAt_of_core (hforked.others z (hold p z hz))]
      exact h.quiet p pid hbefore z hz ((hzombie z).mp hz')

/-- A zombie is freed by its parent. -/
theorem reap {lo hi : Nat} {m₀ : Pmm} {used : List Extent} (h : ChildInv s kids) (htree : TreeInv s kids rank)
    (hk : TaskInv lo hi m₀ s.kernel used) {a codeStore : U32} {t : Task} {res : WaitResult} {k : Kernel}
    (ht : s.kernel.tasks a = some t) (hstate : t.state = .zombie) (hparent : t.parent = s.current) (hne : a ≠ s.current)
    (hcall : reap s.kernel a codeStore = .ok (res, k)) :
    ∃ kids', Family k kids' ∧ ChildInv (((s.setKernel k).goto a .run).goto s.current .run) kids' := by
  have hnil : kids a = [] := by
    refine (htree.zombie a t.waitState ?_).1
    rw [status_eq_some ht, hstate]
  obtain ⟨hcurrent, -, -, hgone, hothers⟩ := reap_status hcall
  have hshrunk := reap_shrunk hk hcall
  have hplace : ∀ p pc, (((s.setKernel k).goto a .run).goto s.current .run).pc p = pc → pc ≠ .run →
      p ≠ a ∧ p ≠ s.current ∧ s.pc p = pc := by
    intro p pc hpc hrun
    have hpc' : p ≠ s.current := by
      rintro rfl
      rw [goto_pc_self] at hpc
      exact hrun hpc.symm
    rw [goto_pc_of_ne _ _ hpc'] at hpc
    have hpa : p ≠ a := by
      rintro rfl
      rw [goto_pc_self] at hpc
      exact hrun hpc.symm
    rw [goto_pc_of_ne _ _ hpa] at hpc
    exact ⟨hpa, hpc', hpc⟩
  -- The children of another task are as before.
  have hold : ∀ p z, p ≠ s.current → z ∈ kids p → z ≠ a := by
    rintro p z hp hz rfl
    have hlive : (s.kernel.tasks p).isSome := by
      have hlive := htree.family.forest.live p z hz
      rwa [nodes_isSome] at hlive
    obtain ⟨t', ht', hparent'⟩ := (htree.family.mem_kids_iff hlive).mp hz
    obtain rfl := Option.some.inj (ht.symm.trans ht')
    exact hp (hparent'.symm.trans hparent)
  have hzombie : ∀ z, z ≠ a → (k.Zombie z ↔ s.kernel.Zombie z) := by
    intro z hz
    unfold Kernel.Zombie
    rw [hothers z hz]
  refine ⟨_, htree.family.reap hk ht hnil hne hcall, h.unique.shrunk hk hshrunk, ?_, ?_⟩
  · intro p codeStore' task haskid hpc
    obtain ⟨-, hp, hpc'⟩ := hplace p _ hpc (by simp)
    rw [hparent, Function.update_of_ne hp]
    obtain ⟨seen, rest, hkids, htask, hseen⟩ := h.search p codeStore' task haskid hpc'
    refine ⟨seen, rest, hkids, htask, fun z hz hz' => ?_⟩
    have hza : z ≠ a := hold p z hp (by rw [hkids]; exact List.mem_append_left _ hz)
    obtain ⟨y, hy, hy'⟩ := hseen z hz ((hzombie z hza).mp hz')
    have hya : y ≠ a := hold p y hp (by rw [hkids]; exact List.mem_append_right _ hy)
    exact ⟨y, hy, (hzombie y hya).mpr hy'⟩
  · intro p pid hcom z hz hz'
    have hrun : (((s.setKernel k).goto a .run).goto s.current .run).pc p ≠ .run := by
      intro heq
      have hnone := waitsFor_of_committed hcom
      rw [heq] at hnone
      simp [Pc.waitsFor] at hnone
    obtain ⟨hpa, hp, hpc⟩ := hplace p _ rfl hrun
    rw [hparent, Function.update_of_ne hp] at hz
    have hza := hold p z hp hz
    have hbefore : s.Committed p pid :=
      committed_before hpc.symm (fun st hst => ⟨st, (hothers p hpa).symm.trans hst⟩) hcom
    obtain ⟨hpid, htid⟩ := h.quiet p pid hbefore z hz ((hzombie z hza).mp hz')
    refine ⟨hpid, fun heq => htid ?_⟩
    obtain ⟨u, hu, rfl⟩ := Option.map_eq_some_iff.mp heq
    obtain ⟨u', hu', hcore⟩ := hshrunk.tasks z u hu
    unfold Kernel.tidAt
    rw [hu', Option.map_some, (Task.core_inj hcore).1]

/-- What is left of a search is what `optr` leads to. -/
theorem mem_rest_of_older (htree : TreeInv s kids rank) {p task y : U32} {seen rest : List U32}
    (hkids : kids p = seen ++ rest) (htask : task = rest.headD NULL) (holder : s.kernel.Older task y)
    (hy : (s.kernel.tasks y).isSome) : y ∈ rest := by
  have hnull : ∀ {x}, (s.kernel.tasks x).isSome → x ≠ NULL := by
    rintro x hx rfl
    rw [← nodes_isSome, htree.family.forest.null_none] at hx
    simp at hx
  have hin : (s.kernel.tasks y).isSome → y ∈ rest := by
    clear hy
    induction holder with
    | refl =>
        intro hy
        have hne := hnull hy
        rw [htask] at hne ⊢
        exact headD_mem hne
    | @tail x y _ hstep ih =>
        obtain ⟨t, ht, rfl⟩ := hstep
        intro hy
        have hx : x ∈ rest := ih (by simp [ht])
        -- The next one after `x` is in the same part of the list.
        obtain ⟨pre, post, hcut⟩ := List.append_of_mem hx
        have hlist : kids p = (seen ++ pre) ++ x :: post := by rw [hkids, hcut, List.append_assoc]
        have hnodup := htree.family.forest.nodup p
        rw [hlist, List.nodup_append, List.nodup_cons] at hnodup
        have hout : x ∉ seen ++ pre := fun hmem => hnodup.2.2 x hmem x (List.mem_cons_self ..) rfl
        have hmem : x ∈ kids p := by
          rw [hlist]
          simp
        have hnext : t.optr = nextIn NULL (kids p) x := htree.family.forest.older p x t.node hmem (nodes_eq_some ht)
        rw [hlist, nextIn_split hout] at hnext
        have hne := hnull hy
        rw [hnext] at hne ⊢
        rw [hcut]
        exact List.mem_append_right _ (List.mem_cons_of_mem _ (headD_mem hne))
  exact hin hy

/-- The zombies after an exit: a child of a task that is new is noticed by it, and the task does not sleep any more. -/
theorem exit_zombies {lo hi : Nat} {m₀ : Pmm} {used : List Extent} (htree : TreeInv s kids rank) (hwait : WaitInv s)
    (hk : TaskInv lo hi m₀ s.kernel used) {errCode : Int} {k₁ k₂ k : Kernel}
    (hpc : s.pc s.current = .exitMark errCode) (hidle : s.current ≠ s.kernel.idleTask)
    (hmark : (s.kernel.modifyTask s.current fun t => { t with state := .zombie }) = .ok k₁)
    (hcode : (k₁.modifyTask k₁.currentTask fun t => { t with exitCode := errCode }) = .ok k₂)
    (hcall : handOver k₂ = .ok k) (hnotice : s.ExitNoticed) :
    (∀ z, k.Zombie z ↔ z = s.current ∨ s.kernel.Zombie z) ∧
      ∀ p z, z ∈ adopted kids s.current s.kernel.initTask p → k.Zombie z →
        (z ∈ kids p ∧ s.kernel.Zombie z) ∨
          ∃ tid, s.kernel.tidAt z = some tid ∧ s.Notices p tid ∧ ∀ st, k.status p ≠ some (st, WT_CHILD) := by
  obtain ⟨hfamily, hlist, hcur, hothers, -⟩ := htree.marked hwait hpc hmark hcode
  obtain ⟨-, hinit⟩ := htree.exit_family hwait hk hpc hidle hmark hcode hcall
  obtain ⟨t, ht : s.kernel.tasks s.current = some t⟩ := Option.isSome_iff_exists.mp htree.family.current
  obtain ⟨hself, hhanded⟩ := hnotice errCode t hpc ht
  have hzombie₂ : ∀ z, k₂.Zombie z ↔ z = s.current ∨ s.kernel.Zombie z := by
    intro z
    by_cases hz : z = s.current
    · subst hz
      refine iff_of_true ?_ (Or.inl rfl)
      have hsame := modifyTask_status hcode (fun _ => rfl) s.current
      obtain ⟨t', ht', rfl⟩ := modifyTask_eq_ok.mp hmark
      exact ⟨t'.waitState, hsame.trans setTask_status_self⟩
    · unfold Kernel.Zombie
      rw [hothers z hz]
      simp [hz]
  have hzombie : ∀ z, k.Zombie z ↔ z = s.current ∨ s.kernel.Zombie z := fun z =>
    (Roused.handOver hcall).zombie_iff.trans (hzombie₂ z)
  have hsleep : ∀ a, a ≠ s.current → ∀ st, k₂.status a = some (st, WT_CHILD) → st = .sleeping := by
    intro a ha st hst
    rw [hothers a ha] at hst
    exact ((hwait a).1 st hst).1
  refine ⟨hzombie, fun p z hz hz' => ?_⟩
  rcases mem_adopted hz with hin | ⟨rfl, hin⟩
  · rcases (hzombie z).mp hz' with rfl | hz'
    · -- The running task is a child of `p`, which has been woken up.
      right
      have hlive : (s.kernel.tasks p).isSome := by
        have hlive := htree.family.forest.live p _ hin
        rwa [nodes_isSome] at hlive
      obtain ⟨t', ht', rfl⟩ := (htree.family.mem_kids_iff hlive).mp hin
      obtain rfl := Option.some.inj (ht.symm.trans ht')
      refine ⟨t.tid, congrArg (Option.map Task.tid) ht, hself, ?_⟩
      obtain ⟨t₂, ht₂⟩ := Option.isSome_iff_exists.mp hfamily.current
      have hnodes : k₂.nodes = s.kernel.nodes :=
        (modifyTask_nodes_eq hcode fun _ => rfl).trans (modifyTask_nodes_eq hmark fun _ => rfl)
      have hread := congrFun hnodes s.current
      rw [nodes_eq_some (hcur ▸ ht₂), nodes_eq_some ht] at hread
      have hparent : t₂.parent = t.parent := congrArg Node.parent (Option.some.inj hread)
      have hapart : t.parent ≠ s.current := by
        intro heq
        rw [heq] at hin
        exact htree.family.forest.irrefl _ hin
      rw [← hparent]
      exact handOver_wakes_parent hcall ht₂ (hsleep _ (hparent.symm ▸ hapart))
    · exact Or.inl ⟨hin, hz'⟩
  · -- `init_task` gets a child of the running task, and has been woken up if that is a zombie.
    right
    have hne : s.current ≠ s.kernel.initTask := by
      intro heq
      rw [hinit heq] at hin
      simp at hin
    have hother : z ≠ s.current := by
      rintro rfl
      exact htree.family.forest.irrefl _ hin
    have hbefore := ((hzombie z).mp hz').resolve_left hother
    obtain ⟨u, hu, hparent⟩ := (htree.family.mem_kids_iff htree.family.current).mp hin
    have hstate : u.state = .zombie := by
      obtain ⟨ws, hws⟩ := hbefore
      rw [status_eq_some hu] at hws
      exact congrArg Prod.fst (Option.some.inj hws)
    refine ⟨u.tid, congrArg (Option.map Task.tid) hu, hhanded z u hu hparent hstate, ?_⟩
    rw [← hlist.initTask]
    refine hfamily.handOver_wakes_init (by rw [hcur, hlist.initTask]; exact hne)
      (by rw [hcur, hlist.idleTask]; exact hidle) hcall ?_ (hcur.symm ▸ hin) ((hzombie₂ z).mpr (Or.inr hbefore))
    rw [hlist.initTask]
    exact hsleep _ (Ne.symm hne)

/-- A task exits, and nobody misses it. -/
theorem exit {lo hi : Nat} {m₀ : Pmm} {used : List Extent} (h : ChildInv s kids) (htree : TreeInv s kids rank)
    (hwait : WaitInv s) (hk : TaskInv lo hi m₀ s.kernel used) {errCode : Int} {k₁ k₂ k : Kernel}
    (hpc : s.pc s.current = .exitMark errCode) (hidle : s.current ≠ s.kernel.idleTask)
    (hmark : (s.kernel.modifyTask s.current fun t => { t with state := .zombie }) = .ok k₁)
    (hcode : (k₁.modifyTask k₁.currentTask fun t => { t with exitCode := errCode }) = .ok k₂)
    (hcall : handOver k₂ = .ok k) (hnotice : s.ExitNoticed) :
    ∃ kids', Family k kids' ∧ ChildInv ((s.setKernel k).goto k.currentTask .exitSched) kids' := by
  obtain ⟨-, -, hcur, hothers, -⟩ := htree.marked hwait hpc hmark hcode
  obtain ⟨hfamily, -⟩ := htree.exit_family hwait hk hpc hidle hmark hcode hcall
  obtain ⟨hzombie, hnew⟩ := exit_zombies htree hwait hk hpc hidle hmark hcode hcall hnotice
  have hroused := Roused.handOver hcall
  have hkept₁ : Kept Task.core s.kernel k₁ := Kept.modifyTask hmark fun _ => rfl
  have hkept := (hkept₁.trans (Kept.modifyTask hcode fun _ => rfl)).trans (handOver_kept hcall)
  have htid : ∀ z, k.tidAt z = s.kernel.tidAt z := fun z => tidAt_of_core (hkept.tasks z)
  rw [hroused.current.trans hcur]
  refine ⟨_, hfamily, h.unique.shrunk hk (hk.shrunk hkept), ?_, ?_⟩
  · intro p codeStore task haskid hplace
    have hp : p ≠ s.current := by
      rintro rfl
      rw [goto_pc_self] at hplace
      simp at hplace
    rw [goto_pc_of_ne _ _ hp] at hplace
    obtain ⟨seen, rest, hkids, htask, hseen⟩ := h.search p codeStore task haskid hplace
    obtain ⟨seen', hkids'⟩ : ∃ seen', adopted kids s.current s.kernel.initTask p = seen' ++ rest := by
      by_cases hpi : p = s.kernel.initTask
      · subst hpi
        exact ⟨(kids s.current).reverse ++ seen, by rw [adopted_init, hkids, List.append_assoc]⟩
      · exact ⟨seen, by rw [adopted_of_ne hp hpi, hkids]⟩
    refine ⟨seen', rest, hkids', htask, fun z hz hz' => ?_⟩
    have hin : z ∈ adopted kids s.current s.kernel.initTask p := by
      rw [hkids']
      exact List.mem_append_left _ hz
    rcases hnew p z hin hz' with ⟨hold, hbefore⟩ | ⟨tid, -, hsees, -⟩
    · rw [hkids, List.mem_append] at hold
      rcases hold with hold | hold
      · obtain ⟨y, hy, hy'⟩ := hseen z hold hbefore
        exact ⟨y, hy, (hzombie y).mpr (Or.inr hy')⟩
      · exact ⟨z, hold, hz'⟩
    · have hplace' : s.pc p = .waitLoop codeStore task haskid := hplace
      unfold System.Notices at hsees
      rw [hplace'] at hsees
      obtain ⟨y, holder, hy⟩ := hsees
      refine ⟨y, mem_rest_of_older htree hkids htask holder ?_, (hzombie y).mpr hy⟩
      rcases hy with rfl | ⟨ws, hy⟩
      · exact htree.family.current
      · obtain ⟨u, hu, -⟩ := Option.map_eq_some_iff.mp hy
        simp [hu]
  · intro p pid hcom z hz hz'
    have hp : p ≠ s.current := by
      rintro rfl
      have hnone := waitsFor_of_committed hcom
      rw [goto_pc_self] at hnone
      simp [Pc.waitsFor] at hnone
    have hpc' : ((s.setKernel k).goto s.current .exitSched).pc p = s.pc p := goto_pc_of_ne _ _ hp
    have hstatus : ∀ st, k.status p = some (st, WT_CHILD) → ∃ st', s.kernel.status p = some (st', WT_CHILD) := by
      intro st hst
      obtain ⟨st', hst'⟩ := hroused.child st hst
      exact ⟨st', (hothers p hp).symm.trans hst'⟩
    rw [goto_kernel, setKernel_kernel, htid]
    rcases hnew p z hz hz' with ⟨hold, hbefore⟩ | ⟨tid, hid, hsees, hawake⟩
    · exact h.quiet p pid (committed_before hpc' hstatus hcom) z hold hbefore
    · rw [hid]
      unfold System.Notices at hsees
      rcases hcom with ⟨codeStore, hmarks | hreason⟩ | ⟨codeStore, st, -, hst⟩
      · rw [← hpc', hmarks] at hsees
        exact ⟨hsees.1, fun heq => hsees.2 (Option.some.inj heq)⟩
      · rw [← hpc', hreason] at hsees
        exact ⟨hsees.1, fun heq => hsees.2 (Option.some.inj heq)⟩
      · exact absurd hst (hawake st)

/-- A step changes no zombie, or it is a `do_fork`, an exit, or the end of a `do_wait`. -/
theorem step_cases {lo hi : Nat} {m₀ : Pmm} {act : Act} (h : ChildInv s kids) (htree : TreeInv s kids rank)
    (hwait : WaitInv s) (hbase : SysBase lo hi m₀ s) (hqueues : QueuesInv s) (hstep : Stepped s saved act s')
    (hsafe : ¬ act.InExit) (hfresh : ∀ flags stack frame, act = .call (.fork flags stack frame) → FreshTid s.kernel)
    (hnotice : act = .next → s.ExitNoticed) :
    (SameKin s.kernel s'.kernel ∧ ChildInv s' kids) ∨ ∃ kids', Family s'.kernel kids' ∧ ChildInv s' kids' := by
  obtain ⟨⟨used, hk⟩, hrun⟩ := hbase
  have hself : ∀ {pc : Pc}, s.pc s.current = pc → pc ≠ .run → s.current ≠ s.kernel.idleTask := by
    rintro pc rfl hne heq
    exact hne ((congrArg s.pc heq).trans hqueues.idle)
  have hlive : ∀ {pc : Pc}, s.pc s.current = pc → pc ≠ .exitSched → pc ≠ .exited → ¬ s.kernel.Zombie s.current := by
    rintro pc hpc hsched hexited ⟨ws, hz⟩
    exact htree.not_zombie hpc hsched hexited ws hz
  have hswitch : ∀ {k : Kernel}, SameKin s.kernel k → Switched s.kernel k →
      SameKin s.kernel k ∧ ChildInv (s.setKernel k) kids := by
    intro k hkin hswitched
    exact ⟨hkin, h.stay hkin rfl fun a st hst => ⟨st, (hswitched.status a).symm.trans hst⟩⟩
  -- The running task does something that changes neither the tree nor a status.
  have hgo : ∀ {pc' : Pc} {s' : System}, s'.kernel = s.kernel → s'.pc = Function.update s.pc s.current pc' →
      pc'.Carefree → SameKin s.kernel s'.kernel ∧ ChildInv s' kids := by
    intro pc' s' hkernel hpc' hfree
    have hkin : SameKin s.kernel s'.kernel := hkernel ▸ .refl _
    have hself : s'.pc s.current = pc' := by rw [hpc', Function.update_self]
    refine ⟨hkin, h.leave hkin (fun a ha => ⟨?_, fun st hst => ⟨st, hkernel ▸ hst⟩⟩) hself hfree⟩
    rw [hpc', Function.update_of_ne ha]
  -- It calls `schedule`.
  have hsleep : ∀ {pc' : Pc} {k : Kernel}, schedule s.kernel saved = .ok k → pc'.Carefree →
      SameKin s.kernel k ∧ ChildInv ((s.goto s.current pc').setKernel k) kids := by
    intro pc' k hcall hfree
    have hkin : SameKin s.kernel k := .of_still (schedule_kept hcall)
    have hstatus := (switched_of_schedule hrun hk.null hcall).status
    exact ⟨hkin, h.leave hkin (fun a ha => ⟨goto_pc_of_ne _ _ ha, fun st hst => ⟨st, (hstatus a).symm.trans hst⟩⟩)
      (goto_pc_self ..) hfree⟩
  -- It goes to sleep in a queue.
  have hqueue : ∀ {pc' : Pc} {g : Task → Task} {s' : System}, s.pc s.current = .run →
      s.kernel.modifyTask s.current g = .ok s'.kernel → (∀ t, (g t).node = t.node) → (∀ t, (g t).tid = t.tid) →
      (∀ t, (g t).state = .sleeping) → s'.pc = Function.update s.pc s'.kernel.currentTask pc' → pc'.Carefree →
      SameKin s.kernel s'.kernel ∧ ChildInv s' kids := by
    intro pc' g s' hpc hmod hnode htid hstate hpc' hfree
    have hkin : SameKin s.kernel s'.kernel := .modifyTask hmod hnode htid
      (fun t hz => absurd ((hstate t).symm.trans hz) (by simp)) (hlive hpc (by simp) (by simp))
    have hcurrent : s'.kernel.currentTask = s.current := modifyTask_current hmod
    rw [hcurrent] at hpc'
    have hself : s'.pc s.current = pc' := by rw [hpc', Function.update_self]
    refine ⟨hkin, h.leave hkin (fun a ha => ⟨?_, fun st hst => ⟨st, ?_⟩⟩) hself hfree⟩
    · rw [hpc', Function.update_of_ne ha]
    · exact (modifyTask_status_of_ne hmod ha).symm.trans hst
  -- It goes on to sleep in `do_wait`.
  have hcommit : ∀ {pc pc' : Pc} {pid : U32} {k : Kernel}, s.pc s.current = pc → s.Committed s.current pid →
      SameKin s.kernel k → k.currentTask = s.current →
      (∀ a, a ≠ s.current → k.status a = s.kernel.status a) → pc'.waitsFor = some pid →
      SameKin s.kernel k ∧ ChildInv ((s.setKernel k).goto k.currentTask pc') kids := by
    intro pc pc' pid k hpc hcom hkin hcurrent hothers hpid
    rw [hcurrent]
    exact ⟨hkin, h.commit hkin (fun a ha => ⟨goto_pc_of_ne _ _ ha, fun st hst => ⟨st, (hothers a ha).symm.trans hst⟩⟩)
      (goto_pc_self ..) hpid (h.quiet _ _ hcom)⟩
  cases hstep with
  | tick hcall =>
      exact Or.inl (hswitch (.of_still (timerCallBack_kept hcall)) (switched_of_timer hrun hk.null hcall))
  | keyboard hcall =>
      have hkin := SameKin.wakeupLoop hcall
      obtain ⟨⟨k, flags, rfl⟩, -, -, -, hstatus⟩ := wakeupLoop_spec hcall
      refine Or.inl ⟨hkin, h.stay hkin rfl fun a st hst => ?_⟩
      rcases hstatus a with hsame | hwoken
      · exact ⟨st, hsame.symm.trans hst⟩
      · have hws : WT_NOTWAIT = WT_CHILD := congrArg Prod.snd (Option.some.inj (hwoken.symm.trans hst))
        exact absurd hws (by decide)
  | yield hpc hcall =>
      exact Or.inl (hswitch (.of_still (schedule_kept hcall)) (switched_of_schedule hrun hk.null hcall))
  | fork hpc hcur hcall => exact Or.inr (h.fork htree hk hpc (hfresh _ _ _ rfl) hcall)
  | exit hpc hcur hcall =>
      obtain rfl := hk.exitMm hcall
      exact Or.inl (hgo rfl rfl rfl)
  | wait hpc hcur =>
      unfold System.waitStart
      split
      · exact Or.inl ⟨.refl _, h⟩
      · exact Or.inl (hgo rfl rfl rfl)
  | acquire hpc hcur hvalue => exact Or.inl ⟨.refl _, h.stay (.refl _) rfl fun _ st hst => ⟨st, hst⟩⟩
  | acquireSleep hpc hcur hvalue hcall =>
      obtain ⟨k, hmod, rfl⟩ := down_eq_ok hvalue hcall
      exact Or.inl (hqueue hpc hmod (fun _ => rfl) (fun _ => rfl) (fun _ => rfl) rfl rfl)
  | release hpc hcur hcall =>
      rcases up_eq_ok hcall with ⟨-, rfl⟩ | ⟨a, rest, k, -, hwake, rfl⟩
      · exact Or.inl ⟨.refl _, h.stay (.refl _) rfl fun _ st hst => ⟨st, hst⟩⟩
      · refine Or.inl ⟨.wakeupTask hwake, h.stay (.wakeupTask hwake) rfl fun b st hst => ?_⟩
        obtain ⟨-, hothers, ws, ⟨hbefore, hafter⟩ | ⟨-, hafter⟩⟩ := wakeupTask_status hwake
        · by_cases hba : b = a
          · subst hba
            exact ⟨st, hbefore.trans (hafter.symm.trans hst)⟩
          · exact ⟨st, (hothers b hba).symm.trans hst⟩
        · by_cases hba : b = a
          · subst hba
            have hws : WT_NOTWAIT = WT_CHILD := congrArg Prod.snd (Option.some.inj (hafter.symm.trans hst))
            exact absurd hws (by decide)
          · exact ⟨st, (hothers b hba).symm.trans hst⟩
  | readStdin hpc hcur hcall =>
      obtain ⟨k, hmod, rfl⟩ := stdinSleep_eq_ok hcall
      exact Or.inl (hqueue hpc hmod (fun _ => rfl) (fun _ => rfl) (fun _ => rfl) rfl rfl)
  | downSched hpc hcall => exact Or.inl (hsleep hcall rfl)
  | downWoken hpc hcall =>
      obtain ⟨-, rfl⟩ := downWoken_eq_ok hcall
      exact Or.inl (hgo rfl rfl rfl)
  | stdinSched hpc hcall => exact Or.inl (hsleep hcall rfl)
  | stdinWoken hpc => exact Or.inl (hgo rfl rfl rfl)
  | exitMark hpc hmark hcode hcall =>
      exact Or.inr (h.exit htree hwait hk hpc (hself hpc (by simp)) hmark hcode hcall (hnotice rfl))
  | exitCode hpc hcode hcall => exact absurd hpc ((htree.place _).1 _)
  | exitSection hpc hcall => exact absurd hpc (htree.place _).2
  | exitSched hpc hcall hreturn => exact Or.inl (hsleep hcall rfl)
  | waitChild hpc hpid hcall => exact Or.inl ⟨.refl _, h.waitChild htree hk hpid hcall⟩
  | waitFirst hpc ht => exact Or.inl ⟨.refl _, h.waitFirst htree ht⟩
  | waitEnd hpc => exact Or.inl ⟨.refl _, h.waitEnd htree hpc⟩
  | waitRound hpc ht hstate => exact Or.inl ⟨.refl _, h.waitRound htree hpc ht hstate⟩
  | @reap codeStore task t res k hpc ht hstate hcall =>
      have hne : task ≠ s.current := by
        rintro rfl
        have hz : s.kernel.Zombie s.current := ⟨t.waitState, by rw [status_eq_some ht, hstate]⟩
        rcases hpc with ⟨pid, haskid, hpc, -⟩ | ⟨haskid, hpc⟩
        · exact hlive hpc (by simp) (by simp) hz
        · exact hlive hpc (by simp) (by simp) hz
      have hparent : t.parent = s.current := by
        rcases hpc with ⟨pid, haskid, hpc, -, hfind, hnull⟩ | ⟨haskid, hpc⟩
        · obtain ⟨t', ht', -, hparent⟩ := findChild_zombie hfind hnull
          obtain rfl := Option.some.inj (ht.symm.trans ht')
          exact hparent
        · obtain ⟨seen, rest, hkids, htask, -⟩ := h.search _ _ _ _ hpc
          have hnull : task ≠ NULL := by
            rintro rfl
            rw [hk.null] at ht
            simp at ht
          rw [htask] at hnull
          have hin : task ∈ kids s.current := by
            rw [hkids, htask]
            exact List.mem_append_right _ (headD_mem hnull)
          obtain ⟨t', ht', hparent⟩ := (htree.family.mem_kids_iff htree.family.current).mp hin
          obtain rfl := Option.some.inj (ht.symm.trans ht')
          exact hparent
      exact Or.inr (h.reap htree hk ht hstate hparent hne hcall)
  | @waitMark pid codeStore k₁ k hpc hmark hcall =>
      have hcur : k₁.currentTask = s.current := modifyTask_current hmark
      rw [hcur] at hcall
      have hkin₁ : SameKin s.kernel k₁ := .modifyTask hmark (fun _ => rfl) (fun _ => rfl) (fun _ hz => by simp at hz)
        (hlive hpc (by simp) (by simp))
      have hkin := hkin₁.trans (.modifyTask hcall (fun _ => rfl) (fun _ => rfl) (fun _ hz => hz)
        fun hz => hlive hpc (by simp) (by simp) ((hkin₁.zombie _).mp hz))
      exact Or.inl (hcommit hpc (Or.inl ⟨codeStore, Or.inl hpc⟩) hkin ((modifyTask_current hcall).trans hcur)
        (fun a ha => (modifyTask_status_of_ne hcall ha).trans (modifyTask_status_of_ne hmark ha)) rfl)
  | @waitReason pid codeStore k hpc hcall =>
      have hkin : SameKin s.kernel k := .modifyTask hcall (fun _ => rfl) (fun _ => rfl) (fun _ hz => hz)
        (hlive hpc (by simp) (by simp))
      exact Or.inl (hcommit hpc (Or.inl ⟨codeStore, Or.inr hpc⟩) hkin (modifyTask_current hcall)
        (fun a ha => modifyTask_status_of_ne hcall ha) rfl)
  | @waitSched pid codeStore k hpc hcall =>
      have hkin : SameKin s.kernel k := .of_still (schedule_kept hcall)
      have hstatus := (switched_of_schedule hrun hk.null hcall).status
      refine Or.inl ⟨hkin, h.calm hkin
        (fun a ha => ⟨goto_pc_of_ne _ _ ha, fun st hst => ⟨st, (hstatus a).symm.trans hst⟩⟩) ?_ ?_⟩
      · intro codeStore' task haskid hplace
        rw [setKernel_pc, goto_pc_self] at hplace
        simp at hplace
      · intro pid' hcom
        have hpid := waitsFor_of_committed hcom
        rw [setKernel_pc, goto_pc_self] at hpid
        obtain rfl : pid = pid' := Option.some.inj hpid
        refine h.quiet _ pid ?_
        rcases hcom with ⟨codeStore', hplace | hplace⟩ | ⟨codeStore', st, -, hst⟩
        · rw [setKernel_pc, goto_pc_self] at hplace
          simp at hplace
        · rw [setKernel_pc, goto_pc_self] at hplace
          simp at hplace
        · exact Or.inr ⟨codeStore, st, Or.inl hpc, (hstatus _).symm.trans hst⟩
  | waitWoken hpc ht hflags => exact Or.inl (hgo rfl rfl rfl)
  | waitKilled hpc ht hflags hcur hcall =>
      obtain rfl := hk.exitMm hcall
      exact Or.inl (hgo rfl rfl rfl)
  | tickInExit hpc hmark hcall => exact absurd trivial hsafe
  | tickBeforeSection hpc hmark hcode hcall => exact absurd trivial hsafe
  | @tickInWait pid codeStore k₁ k hpc hmark hcall =>
      obtain ⟨⟨used₁, hk₁⟩, hrun₁⟩ := queueSteps_inv (.single (.markSleeping hmark)) ⟨⟨used, hk⟩, hrun⟩
      have hkin₁ : SameKin s.kernel k₁ := .modifyTask hmark (fun _ => rfl) (fun _ => rfl) (fun _ hz => by simp at hz)
        (hlive hpc (by simp) (by simp))
      have hkin := hkin₁.trans (.of_still (timerCallBack_kept hcall))
      have hstatus := (switched_of_timer hrun₁ hk₁.null hcall).status
      have hcur : k₁.currentTask = s.current := modifyTask_current hmark
      rw [hcur]
      exact Or.inl ⟨hkin, h.commit hkin (fun a ha => ⟨goto_pc_of_ne _ _ ha, fun st hst =>
        ⟨st, (modifyTask_status_of_ne hmark ha).symm.trans ((hstatus a).symm.trans hst)⟩⟩) (goto_pc_self ..) rfl
        (h.quiet _ _ (Or.inl ⟨codeStore, Or.inl hpc⟩))⟩

/-- One step. -/
theorem step {lo hi : Nat} {m₀ : Pmm} {act : Act} (h : ChildInv s kids) (htree : TreeInv s kids rank)
    (hwait : WaitInv s) (hbase : SysBase lo hi m₀ s) (hqueues : QueuesInv s) (hstep : Stepped s saved act s')
    (hsafe : ¬ act.InExit) (hfresh : ∀ flags stack frame, act = .call (.fork flags stack frame) → FreshTid s.kernel)
    (hnotice : act = .next → s.ExitNoticed) {kids' : U32 → List U32} {rank' : U32 → Nat}
    (htree' : TreeInv s' kids' rank') : ChildInv s' kids' := by
  rcases h.step_cases htree hwait hbase hqueues hstep hsafe hfresh hnotice with ⟨hkin, h'⟩ | ⟨kids₁, hfamily, h'⟩
  · have hforest := htree'.family.forest
    rw [hkin.nodes] at hforest
    rw [← htree.family.forest.unique hforest]
    exact h'
  · rw [← hfamily.forest.unique htree'.family.forest]
    exact h'

end ChildInv

/-! ### Runs -/

/-- All that holds in every run of timely steps. -/
structure TimelyInv (lo hi : Nat) (m₀ : Pmm) (v : Nat → Int) (s : System) : Prop where
  safe : SafeInv lo hi m₀ v s
  child : ∀ kids rank, TreeInv s kids rank → ChildInv s kids

theorem timelyInv_of_run {lo hi : Nat} {m₀ : Pmm} {used : List Extent} {image : KernelImage} {m : Machine}
    {arg : U32} {k₀ : Kernel} {v : Nat → Int} (hledger : Ledger lo hi m₀ m used)
    (hinit : initTask image m arg = .ok k₀) (hrun : Relation.ReflTransGen TimelyStep (bootSystem k₀ v) s) :
    TimelyInv lo hi m₀ v s := by
  induction hrun with
  | refl =>
      refine ⟨bootSystem_safe hledger hinit v, fun kids rank _ => ⟨(initTask_unique hledger hinit).2, ?_, ?_⟩⟩
      · intro p codeStore task haskid hpc
        simp [bootSystem] at hpc
      · intro p pid hcom
        have hnone := waitsFor_of_committed hcom
        simp [bootSystem, Pc.waitsFor] at hnone
  | tail _ hstep ih =>
      obtain ⟨saved, act, hstep, hsafe, hfresh, hnotice⟩ := hstep
      refine ⟨ih.safe.step hstep hsafe, fun kids' rank' htree' => ?_⟩
      obtain ⟨kids, rank, htree⟩ := ih.safe.tree
      exact (ih.child kids rank htree).step htree ih.safe.wait ih.safe.base ih.safe.queues (stepped_of_step hstep) hsafe
        hfresh hnotice htree'

/-- In every run in which no exit is missed: a task that sleeps until a child exits is in `do_wait`, and no child that it
waits for is a zombie. -/
theorem no_lost_wakeup {lo hi : Nat} {m₀ : Pmm} {used : List Extent} (image : KernelImage) (m : Machine) (arg : U32)
    (k₀ : Kernel) (hledger : Ledger lo hi m₀ m used) (hinit : initTask image m arg = .ok k₀) (v : Nat → Int)
    (hrun : Relation.ReflTransGen TimelyStep (bootSystem k₀ v) s) (p : U32)
    (hasleep : s.kernel.status p = some (.sleeping, WT_CHILD)) :
    ∃ pid codeStore, (s.pc p = .waitSched pid codeStore ∨ s.pc p = .waitWoken pid codeStore) ∧
      ∀ z t, s.kernel.tasks z = some t → t.parent = p → pid = 0 ∨ t.tid = pid → t.state ≠ .zombie := by
  have h := timelyInv_of_run hledger hinit hrun
  obtain ⟨kids, rank, htree⟩ := h.safe.tree
  have hchild := h.child kids rank htree
  obtain ⟨-, pid, codeStore, hplace⟩ := (h.safe.wait p).1 _ hasleep
  have hplace' : s.pc p = .waitSched pid codeStore ∨ s.pc p = .waitWoken pid codeStore := hplace.imp_right And.left
  refine ⟨pid, codeStore, hplace', ?_⟩
  intro z t ht hparent hmatch hstate
  have hlive : (s.kernel.tasks p).isSome := by
    obtain ⟨u, hu, -⟩ := Option.map_eq_some_iff.mp hasleep
    simp [hu]
  have hin := (htree.family.mem_kids_iff hlive).mpr ⟨t, ht, hparent⟩
  have hzombie : s.kernel.Zombie z := ⟨t.waitState, by rw [status_eq_some ht, hstate]⟩
  obtain ⟨hpid, htid⟩ := hchild.quiet p pid (Or.inr ⟨codeStore, _, hplace', hasleep⟩) z hin hzombie
  rcases hmatch with hzero | hsame
  · exact hpid hzero
  · refine htid ?_
    unfold Kernel.tidAt
    rw [ht, Option.map_some, hsame]

end Child

/-- The task at `p` is not between its search for a zombie and its sleep. -/
def System.attentive (s : System) (p : U32) : Bool :=
  match s.pc p with
  | .waitLoop .. | .waitMark .. | .waitReason .. => false
  | _ => true

theorem System.notices_of_attentive {s : System} {p : U32} (h : s.attentive p = true) (tid : U32) : s.Notices p tid := by
  unfold System.attentive at h
  unfold System.Notices
  cases hpc : s.pc p with
  | waitLoop codeStore task haskid => simp [hpc] at h
  | waitMark pid codeStore => simp [hpc] at h
  | waitReason pid codeStore => simp [hpc] at h
  | _ => trivial

/-- A step that is timely because a new task gets a new id, and a task exits while those who wait for it are attentive. -/
def System.plain (s : System) : Act → Bool
  | .tickInExit => false
  | .tickBeforeSection => false
  | .call (.fork ..) => !s.kernel.tids.contains (some s.kernel.taskCount)
  | .next =>
      match s.pc s.current with
      | .exitMark _ =>
          (s.kernel.tasks s.current).elim true fun t => s.attentive t.parent && s.attentive s.kernel.initTask
      | _ => true
  | _ => true

/-- Run a sequence of such steps. -/
def System.plainSteps (saved : Context) : List Act → System → Option System
  | [], s => some s
  | act :: acts, s =>
      match s.plain act, s.step saved act with
      | true, some (.ok s') => s'.plainSteps saved acts
      | _, _ => none

theorem timelyStep_of_plain {s s' : System} {saved : Context} {act : Act} (hplain : s.plain act = true)
    (hstep : s.step saved act = some (.ok s')) : TimelyStep s s' := by
  refine ⟨saved, act, hstep, ?_, ?_, ?_⟩
  · cases act <;> first | exact id | simp [System.plain] at hplain
  · rintro flags stack frame rfl _ a t ha ht htid
    have hnew : some s.kernel.taskCount ∉ s.kernel.tids := by simpa [System.plain] using hplain
    refine hnew (List.mem_map.mpr ⟨a, ha, ?_⟩)
    rw [ht, Option.map_some, htid]
  · rintro rfl errCode t hpc ht
    simp only [System.plain, hpc, ht, Option.elim_some, Bool.and_eq_true] at hplain
    exact ⟨System.notices_of_attentive hplain.1 t.tid, fun z u _ _ _ => System.notices_of_attentive hplain.2 u.tid⟩

theorem timelySteps_of_plain {s s' : System} {saved : Context} {acts : List Act}
    (hsteps : s.plainSteps saved acts = some s') : Relation.ReflTransGen TimelyStep s s' := by
  induction acts generalizing s with
  | nil =>
      obtain rfl := Option.some.inj hsteps
      exact .refl
  | cons act acts ih =>
      unfold System.plainSteps at hsteps
      split at hsteps
      · rename_i hplain hstep
        exact .head (timelyStep_of_plain hplain hstep) (ih hsteps)
      · simp at hsteps

/-- `init_task` sleeps in `do_wait`, a child exits and is reaped, and `init_task` sleeps again while the other child runs. -/
theorem no_lost_wakeup_child_runs : ∃ k₀ s, initTask smallImage fortyFrames 0 = .ok k₀ ∧
    Relation.ReflTransGen TimelyStep (bootSystem k₀ fun _ => 1) s ∧ s.kernel.tids = [some 3, some 1, some 0] ∧
    s.kernel.status s.kernel.initTask = some (.sleeping, WT_CHILD) ∧
    ∃ t, s.kernel.tasks s.current = some t ∧ t.parent = s.kernel.initTask ∧ t.state ≠ .zombie := by
  have heval : (do
      let k₀ ← (initTask smallImage fortyFrames 0).toOption
      let s ← (bootSystem k₀ fun _ => 1).plainSteps noContext ([.call .yield, .call (.fork 0 0 noFrame),
        .call (.fork 0 0 noFrame), .call (.wait 0 0)] ++ List.replicate 6 .next ++ [.call (.exit 0), .next, .next,
        .call .yield, .next, .next, .next, .next, .call (.wait 0 0)] ++ List.replicate 5 .next)
      let t ← s.kernel.tasks s.current
      return decide (s.kernel.tids = [some 3, some 1, some 0] ∧
        s.kernel.status s.kernel.initTask = some (.sleeping, WT_CHILD) ∧
        s.pc s.kernel.initTask = .waitWoken 0 0 ∧ t.parent = s.kernel.initTask)) = some true := by
    decide +kernel
  obtain ⟨k₀, hinit, heval⟩ := Option.bind_eq_some_iff.mp heval
  obtain ⟨s, hsteps, heval⟩ := Option.bind_eq_some_iff.mp heval
  obtain ⟨t, ht, heval⟩ := Option.bind_eq_some_iff.mp heval
  obtain ⟨htids, hasleep, hpc, hparent⟩ := of_decide_eq_true (Option.some.inj heval)
  have hboot : initTask smallImage fortyFrames 0 = .ok k₀ := Res.toOption_eq_some.mp hinit
  have hrun := timelySteps_of_plain hsteps
  obtain ⟨pid, codeStore, hplace, hquiet⟩ :=
    no_lost_wakeup smallImage fortyFrames 0 k₀ fortyFrames_ledger hboot _ hrun _ hasleep
  rw [hpc] at hplace
  obtain ⟨rfl, -⟩ := Pc.waitWoken.inj (hplace.resolve_left (by simp))
  exact ⟨k₀, s, hboot, hrun, htids, hasleep, t, ht, hparent, hquiet _ t ht hparent (Or.inl rfl)⟩

/-- The timer comes when `init_task` has found no zombie and does not sleep yet, and its child exits: `init_task` then
sleeps, and the child is a zombie. -/
theorem wakeup_lost : ∃ k₀ s, initTask smallImage fortyFrames 0 = .ok k₀ ∧
    Relation.ReflTransGen SysStep (bootSystem k₀ fun _ => 1) s ∧
    ∃ p z t, p ≠ s.current ∧ s.kernel.status p = some (.sleeping, WT_CHILD) ∧ s.pc p = .waitWoken 0 NULL ∧
      s.kernel.tasks z = some t ∧ t.parent = p ∧ t.state = .zombie := by
  have heval : (bootSteps (fun _ => 1) [.call .yield, .call (.fork 0 0 noFrame), .call (.wait 0 0), .next, .next, .next,
      .tick, .call (.exit 0), .next, .next, .next, .next]).map (fun x =>
        (x.2.kernel.tasks 0xC0008000#32).map fun t => decide (t.parent ≠ x.2.current ∧
          x.2.kernel.status t.parent = some (.sleeping, WT_CHILD) ∧ x.2.pc t.parent = .waitWoken 0 NULL ∧
          t.state = .zombie)) = some (some true) := by
    decide +kernel
  obtain ⟨⟨k₀, s⟩, hsteps, heval⟩ := Option.map_eq_some_iff.mp heval
  obtain ⟨t, ht, htask⟩ := Option.map_eq_some_iff.mp heval
  obtain ⟨hne, hasleep, hpc, hstate⟩ := of_decide_eq_true htask
  obtain ⟨hinit, hsteps⟩ := bootSteps_eq_some hsteps
  exact ⟨k₀, s, hinit, sysSteps_of_steps hsteps, t.parent, _, t, hne, hasleep, hpc, ht, rfl, hstate⟩

end Krnl
end FreakOS
