import FreakOS.Lib.Fifo
import FreakOS.Krnl.SystemSteps

/-!
# In which order tasks run

The run queue is joined at its end, by `wakeupTask` and by the running task in `schedule`, and is left at its head, in
`schedule` only.

* `OtherStep`, `SchedRun` — runs cut at each call of `schedule`, with the tasks that have joined the queue and the tasks
  that `schedule` has made the running one.
* `schedule_queue`, `OtherStep.joined` — what a step does to the queue.
* `Stepped.schedRun` — the steps under preemption are such runs.
* `dispatch_fifo` — each call of `schedule` moves a task in the queue forward by one place, until it runs.
-/

namespace FreakOS
namespace Krnl

open Lib
open Memory

/-- A step in which `schedule` is not called. -/
inductive OtherStep (k k' : Kernel) : Prop
  /-- The timer, up to its call of `schedule`. -/
  | tick (hcall : tickTask k k.currentTask = .ok k')
  | wakeup {a : U32} (hcall : wakeupTask k a = .ok k')
  | fork {flags stack : U32} {frame : InterruptFrame} {ret : Int}
      (hcall : doFork k flags stack frame = .ok (ret, k'))
  | exitMm (hcall : exitMm k = .ok k')
  | waitAddCurrent {waitState : U32} (hcall : (k.modifyTask k.currentTask fun t =>
      { t with state := .sleeping, waitState := waitState }) = .ok k')
  | markSleeping (hcall : (k.modifyTask k.currentTask fun t => { t with state := .sleeping }) = .ok k')
  | waitReason (hcall : (k.modifyTask k.currentTask fun t => { t with waitState := WT_CHILD }) = .ok k')
  | markZombie (hcall : (k.modifyTask k.currentTask fun t => { t with state := .zombie }) = .ok k')
  | storeExitCode {errCode : Int}
      (hcall : (k.modifyTask k.currentTask fun t => { t with exitCode := errCode }) = .ok k')
  | handOver (hcall : handOver k = .ok k')
  | reap {a codeStore : U32} {t : Task} {res : WaitResult} (ht : k.tasks a = some t)
      (hzombie : t.state = .zombie) (hcall : reap k a codeStore = .ok (res, k'))

/-- The running task, if `schedule` puts it into the queue. -/
def requeued (k : Kernel) : List U32 :=
  if (k.ready k.currentTask).isSome ∧ k.currentTask ≠ k.idleTask then [k.currentTask] else []

/-- A run from `k₀` on: who has joined the run queue, and who runs after each call of `schedule`. -/
inductive SchedRun (k₀ : Kernel) : List U32 → List U32 → Kernel → Prop
  | refl : SchedRun k₀ [] [] k₀
  | schedule {ins outs : List U32} {k k' : Kernel} {saved : Context} (hrun : SchedRun k₀ ins outs k)
      (hcall : schedule k saved = .ok k') : SchedRun k₀ (ins ++ requeued k) (outs ++ [k'.currentTask]) k'
  | other {ins outs : List U32} {k k' : Kernel} (hrun : SchedRun k₀ ins outs k) (hstep : OtherStep k k') :
      SchedRun k₀ (ins ++ k'.runList.drop k.runList.length) outs k'

section Dispatch

variable {k k' k'' k₀ : Kernel} {saved : Context} {a : U32}

/-! ### Steps in which `schedule` is not called -/

/-- Some tasks may have joined the queue. -/
structure Joined (k k' : Kernel) : Prop where
  queue : k.runList <+: k'.runList
  idle : k'.idleTask = k.idleTask

namespace Joined

theorem of_same (hrun : k'.runList = k.runList) (hidle : k'.idleTask = k.idleTask) : Joined k k' :=
  ⟨hrun ▸ List.prefix_refl _, hidle⟩

theorem trans (h₁ : Joined k k') (h₂ : Joined k' k'') : Joined k k'' :=
  ⟨h₁.queue.trans h₂.queue, h₂.idle.trans h₁.idle⟩

theorem modifyTask {g : Task → Task} (hcall : k.modifyTask a g = .ok k') : Joined k k' := by
  obtain ⟨t, -, rfl⟩ := modifyTask_eq_ok.mp hcall
  exact of_same rfl rfl

theorem doIf {c : Prop} [Decidable c] {step : Kernel → Res Kernel} (hcall : k.doIf c step = .ok k')
    (hstep : ∀ k'', step k = .ok k'' → Joined k k'') : Joined k k' := by
  unfold Kernel.doIf at hcall
  split at hcall
  · exact hstep k' hcall
  · obtain rfl := Except.ok.inj hcall
    exact of_same rfl rfl

theorem wakeupTask (hcall : wakeupTask k a = .ok k') : Joined k k' := by
  obtain ⟨t, -, -, ⟨-, rfl⟩ | ⟨-, ts, ⟨-, rfl⟩ | ⟨-, -, -, -, rfl⟩⟩⟩ := wakeupTask_cases hcall
  · exact of_same rfl rfl
  · exact of_same rfl rfl
  · exact ⟨List.prefix_append k.runList [a], rfl⟩

theorem reparentOne (hcall : reparentOne k a = .ok k') : Joined k k' := by
  unfold Krnl.reparentOne at hcall
  obtain ⟨c, -, hcall⟩ := Res.bind_eq_ok.mp hcall
  obtain ⟨k₁, hcurrent, hcall⟩ := Res.bind_eq_ok.mp hcall
  obtain ⟨init, -, hcall⟩ := Res.bind_eq_ok.mp hcall
  obtain ⟨k₂, hchild, hcall⟩ := Res.bind_eq_ok.mp hcall
  obtain ⟨k₃, hsibling, hcall⟩ := Res.bind_eq_ok.mp hcall
  obtain ⟨k₄, hparent, hcall⟩ := Res.bind_eq_ok.mp hcall
  obtain ⟨k₅, hinit, hcall⟩ := Res.bind_eq_ok.mp hcall
  obtain ⟨c', -, hcall⟩ := Res.bind_eq_ok.mp hcall
  obtain ⟨init', -, hcall⟩ := Res.bind_eq_ok.mp hcall
  have h₂ := (modifyTask hcurrent).trans (modifyTask hchild)
  have h₃ := h₂.trans (doIf hsibling fun _ hmod => modifyTask hmod)
  have h₅ := (h₃.trans (modifyTask hparent)).trans (modifyTask hinit)
  exact h₅.trans (doIf hcall fun _ hwake => wakeupTask hwake)

theorem reparent {fuel : Nat} (hcall : reparent fuel k = .ok k') : Joined k k' := by
  induction fuel generalizing k with
  | zero => simp [Krnl.reparent] at hcall
  | succ fuel ih =>
      unfold Krnl.reparent at hcall
      obtain ⟨current, -, hcall⟩ := Res.bind_eq_ok.mp hcall
      split at hcall
      · obtain rfl := Except.ok.inj hcall
        exact of_same rfl rfl
      · obtain ⟨k₁, hone, hcall⟩ := Res.bind_eq_ok.mp hcall
        exact (reparentOne hone).trans (ih hcall)

theorem handOver (hcall : handOver k = .ok k') : Joined k k' := by
  unfold Krnl.handOver at hcall
  obtain ⟨current, -, hcall⟩ := Res.bind_eq_ok.mp hcall
  obtain ⟨parent, -, hcall⟩ := Res.bind_eq_ok.mp hcall
  obtain ⟨k₁, hwake, hcall⟩ := Res.bind_eq_ok.mp hcall
  exact (doIf hwake fun _ hwake => wakeupTask hwake).trans (reparent hcall)

theorem addTask (hcall : addTask k a = .ok k') : Joined k k' := by
  unfold Krnl.addTask at hcall
  obtain ⟨t, -, hcall⟩ := Res.bind_eq_ok.mp hcall
  obtain ⟨p, -, hcall⟩ := Res.bind_eq_ok.mp hcall
  obtain ⟨k₁, holder, hcall⟩ := Res.bind_eq_ok.mp hcall
  obtain ⟨k₂, hparent, hcall⟩ := Res.bind_eq_ok.mp hcall
  obtain rfl := Except.ok.inj hcall
  have h₁ := doIf holder fun _ hmod => modifyTask hmod
  have h₂ := h₁.trans (modifyTask hparent)
  exact ⟨h₂.queue, h₂.idle⟩

theorem delTask (hcall : delTask k a = .ok k') : Joined k k' := by
  unfold Krnl.delTask at hcall
  obtain ⟨t, -, hcall⟩ := Res.bind_eq_ok.mp hcall
  obtain ⟨k₁, holder, hcall⟩ := Res.bind_eq_ok.mp hcall
  obtain ⟨t', -, hcall⟩ := Res.bind_eq_ok.mp hcall
  obtain ⟨k₂, hyounger, hcall⟩ := Res.bind_eq_ok.mp hcall
  obtain ⟨k₃, hparent, hcall⟩ := Res.bind_eq_ok.mp hcall
  obtain rfl := Except.ok.inj hcall
  have h₁ := doIf holder fun _ hmod => modifyTask hmod
  have h₂ := h₁.trans (doIf hyounger fun _ hmod => modifyTask hmod)
  have h₃ := h₂.trans (doIf hparent fun _ hmod => modifyTask hmod)
  exact ⟨h₃.queue, h₃.idle⟩

theorem publish {ret : Int} (hcall : publish k a = .ok (ret, k')) : Joined k k' := by
  unfold Krnl.publish at hcall
  obtain ⟨k₁, hmod, hcall⟩ := Res.bind_eq_ok.mp hcall
  obtain ⟨k₂, hadd, hcall⟩ := Res.bind_eq_ok.mp hcall
  obtain ⟨k₃, hwake, hcall⟩ := Res.bind_eq_ok.mp hcall
  obtain ⟨t', -, hcall⟩ := Res.bind_eq_ok.mp hcall
  obtain ⟨-, rfl⟩ := Prod.mk.inj (Except.ok.inj hcall)
  exact ((modifyTask hmod).trans (addTask hadd)).trans (wakeupTask hwake)

end Joined

/-- Tasks join the queue at its end, and none leaves it. -/
theorem OtherStep.joined {lo hi : Nat} {m₀ : Pmm} {used : List Extent} (hk : TaskInv lo hi m₀ k used)
    (hstep : OtherStep k k') : Joined k k' := by
  cases hstep with
  | tick hcall => exact .modifyTask hcall
  | wakeup hcall => exact .wakeupTask hcall
  | fork hcall =>
      rcases doFork_forking hk hcall with ⟨-, ⟨s, mm, f, i, tf, rfl⟩, -⟩ | ⟨-, a, t, k₁, used₁, hforking, -, hpub⟩
      · exact .of_same rfl rfl
      · obtain ⟨s, ts, mm, f, i, tf, rfl⟩ := hforking.frame
        have hnew := Joined.publish hpub
        exact ⟨hnew.queue, hnew.idle⟩
  | exitMm hcall =>
      rw [hk.exitMm hcall]
      exact .of_same rfl rfl
  | waitAddCurrent hcall => exact .modifyTask hcall
  | markSleeping hcall => exact .modifyTask hcall
  | waitReason hcall => exact .modifyTask hcall
  | markZombie hcall => exact .modifyTask hcall
  | storeExitCode hcall => exact .modifyTask hcall
  | handOver hcall => exact .handOver hcall
  | reap ht hzombie hcall =>
      obtain ⟨t', k₁, s₂, s₄, -, -, -, hdel, -, -, -, rfl⟩ := reap_eq hcall
      have hgone := Joined.delTask hdel
      exact ⟨hgone.queue, hgone.idle⟩

theorem tickTask_inv {lo hi : Nat} {m₀ : Pmm} {used : List Extent} (hk : TaskInv lo hi m₀ k used) (h : RunInv k)
    (hcall : tickTask k k.currentTask = .ok k') : TaskInv lo hi m₀ k' used ∧ RunInv k' := by
  refine ⟨hk.kept (Kept.modifyTask hcall fun t => ?_), h.modifyTask hcall (Or.inl rfl)⟩
  dsimp only
  split <;> split <;> rfl

theorem OtherStep.inv {lo hi : Nat} {m₀ : Pmm} (hstep : OtherStep k k')
    (h : (∃ used, TaskInv lo hi m₀ k used) ∧ RunInv k) : (∃ used, TaskInv lo hi m₀ k' used) ∧ RunInv k' := by
  obtain ⟨⟨used, hk⟩, hrun⟩ := h
  cases hstep with
  | tick hcall =>
      obtain ⟨hk', hrun'⟩ := tickTask_inv hk hrun hcall
      exact ⟨⟨used, hk'⟩, hrun'⟩
  | wakeup hcall => exact (QueueStep.wakeup hcall).inv hk hrun
  | fork hcall => exact (QueueStep.fork hcall).inv hk hrun
  | exitMm hcall =>
      rw [hk.exitMm hcall]
      exact ⟨⟨used, hk⟩, hrun⟩
  | waitAddCurrent hcall => exact (QueueStep.waitAddCurrent hcall).inv hk hrun
  | markSleeping hcall => exact (QueueStep.markSleeping hcall).inv hk hrun
  | waitReason hcall => exact (QueueStep.waitReason hcall).inv hk hrun
  | markZombie hcall => exact (QueueStep.markZombie hcall).inv hk hrun
  | storeExitCode hcall => exact (QueueStep.storeExitCode hcall).inv hk hrun
  | handOver hcall => exact (QueueStep.handOver hcall).inv hk hrun
  | reap ht hzombie hcall => exact (QueueStep.reap ht hzombie hcall).inv hk hrun

/-! ### `schedule` -/

/-- The first half of `schedule`. -/
theorem enqueueCurrent_queue {k₁ : Kernel} {t : Task} {g : Task → Task} (hmod : k.modifyTask k.currentTask g = .ok k₁)
    (hg : ∀ t, (g t).state = t.state) (ht : k₁.tasks k₁.currentTask = some t)
    (hcall : k₁.doIf (t.state = .runnable ∧ k₁.currentTask ≠ k₁.idleTask)
      (fun k => enqueueRunQueue k k.currentTask) = .ok k') : k'.runList = k.runList ++ requeued k := by
  obtain ⟨u, hu, rfl⟩ := modifyTask_eq_ok.mp hmod
  have hread : Function.update k.tasks k.currentTask (some (g u)) k.currentTask = some t := ht
  rw [Function.update_self] at hread
  obtain rfl := Option.some.inj hread
  have hready : (k.ready k.currentTask).isSome ↔ (g u).state = .runnable := by
    rw [hg u]
    by_cases hstate : u.state = .runnable <;> simp [Kernel.ready, hu, hstate]
  unfold Kernel.doIf at hcall
  unfold requeued
  split at hcall
  · rename_i hrunnable
    obtain ⟨t', ts, -, -, -, rfl⟩ := enqueueRunQueue_eq hcall
    rw [if_pos ⟨hready.mpr hrunnable.1, hrunnable.2⟩]
    rfl
  · rename_i hnot
    obtain rfl := Except.ok.inj hcall
    rw [if_neg fun hc => hnot ⟨hready.mp hc.1, hc.2⟩, List.append_nil]
    rfl

/-- `schedule` puts the running task at the end of the queue, if it is still runnable, and takes the head. -/
theorem schedule_queue (h : RunInv k) (hnull : k.tasks NULL = none) (hcall : schedule k saved = .ok k') :
    k'.idleTask = k.idleTask ∧
      (k.runList ++ requeued k = [] ∧ k'.runList = [] ∧ k'.currentTask = k.idleTask ∨
        k.runList ++ requeued k = k'.currentTask :: k'.runList ∧ k'.currentTask ≠ k.idleTask) := by
  have hidle := (schedule_kept hcall).idleTask
  refine ⟨hidle, ?_⟩
  unfold schedule at hcall
  obtain ⟨k₁, hmod, hcall⟩ := Res.bind_eq_ok.mp hcall
  obtain ⟨t, ht, hcall⟩ := Res.bind_eq_ok.mp hcall
  obtain ⟨k₂, henq, hcall⟩ := Res.bind_eq_ok.mp hcall
  obtain ⟨k₃, hdeq, hcall⟩ := Res.bind_eq_ok.mp hcall
  have h₁ : RunInv k₁ := h.modifyTask hmod (Or.inl rfl)
  have hjoin : k₂.runList = k.runList ++ requeued k := enqueueCurrent_queue hmod (fun _ => rfl) (task_eq_ok.mp ht) henq
  have hkept₁ : Kept Task.still k k₁ := Kept.modifyTask hmod fun _ => rfl
  have hkept₂ : Kept Task.still k₁ k₂ :=
    Kept.doIf henq fun _ henq => (enqueueRunQueue_kept henq).comp Task.still
  have hkept := hkept₁.trans hkept₂
  have hidle₃ : k₃.idleTask = k₂.idleTask :=
    (Kept.doIf hdeq fun _ hdeq => dequeueRunQueue_kept Task.still hdeq).idleTask
  obtain ⟨h₂, -⟩ := enqueueCurrent h₁ (task_eq_ok.mp ht) henq
  obtain ⟨hcur, hlist, -, -⟩ := runTask_currentTask hcall
  have hhead : ∀ b ∈ k₂.runList, b ≠ NULL ∧ b ≠ k.idleTask := by
    intro b hb
    obtain ⟨hbi, -, hready⟩ := (h₂.mem b).mp hb
    refine ⟨?_, ?_⟩
    · rintro rfl
      rw [hkept.ready_isSome] at hready
      simp [Kernel.ready, hnull] at hready
    · rwa [← hkept₁.idleTask]
  rw [← hjoin, hlist]
  unfold Kernel.doIf at hdeq
  cases hqueue : k₂.runList with
  | nil =>
      have hnone : getHeadRunQueue k₂ = NULL := by simp [getHeadRunQueue, hqueue]
      rw [hnone] at hdeq hcur
      rw [if_neg (not_not.mpr rfl)] at hdeq
      obtain rfl := Except.ok.inj hdeq
      rw [if_pos rfl] at hcur
      exact Or.inl ⟨rfl, hqueue, hcur.trans hkept.idleTask⟩
  | cons b rest =>
      have hfirst : getHeadRunQueue k₂ = b := by simp [getHeadRunQueue, hqueue]
      obtain ⟨hne, hbi⟩ := hhead b (by simp [hqueue])
      rw [hfirst] at hdeq hcur
      rw [if_pos hne] at hdeq
      rw [if_neg hne] at hcur
      obtain ⟨-, -, hdeq⟩ := Res.bind_eq_ok.mp hdeq
      obtain rfl := Except.ok.inj hdeq
      refine Or.inr ⟨?_, hcur ▸ hbi⟩
      simp [hcur, listDel, hqueue]

/-- The queue in a call of `schedule`; `idle_task` is never in it. -/
theorem schedule_fifo (h : RunInv k) (hnull : k.tasks NULL = none) (hcall : schedule k saved = .ok k') :
    Fifo k.runList (requeued k) ([k'.currentTask].filter (· ≠ k.idleTask)) k'.runList := by
  obtain ⟨-, ⟨hnil, hnil', hcur⟩ | ⟨hcons, hcur⟩⟩ := schedule_queue h hnull hcall
  · show k.runList ++ requeued k = _
    simp [hnil, hnil', hcur]
  · show k.runList ++ requeued k = _
    simp [hcons, hcur]

theorem OtherStep.fifo {lo hi : Nat} {m₀ : Pmm} {used : List Extent} (hk : TaskInv lo hi m₀ k used)
    (hstep : OtherStep k k') : Fifo k.runList (k'.runList.drop k.runList.length) [] k'.runList := by
  obtain ⟨new, hnew⟩ := (hstep.joined hk).queue
  show k.runList ++ k'.runList.drop k.runList.length = k'.runList
  rw [← hnew, List.drop_left]

/-! ### Runs -/

/-- The invariants of the task list and of the run queue in a run. -/
theorem SchedRun.inv {lo hi : Nat} {m₀ : Pmm} {ins outs : List U32} (hrun : SchedRun k₀ ins outs k)
    (h : (∃ used, TaskInv lo hi m₀ k₀ used) ∧ RunInv k₀) : (∃ used, TaskInv lo hi m₀ k used) ∧ RunInv k := by
  induction hrun with
  | refl => exact h
  | schedule _ hcall ih =>
      obtain ⟨⟨used, hk⟩, hq⟩ := ih
      exact (QueueStep.schedule hcall).inv hk hq
  | other _ hstep ih => exact hstep.inv ih

/-- Who joins the queue runs in the order of arrival. -/
theorem SchedRun.fifo {lo hi : Nat} {m₀ : Pmm} {ins outs : List U32} (hrun : SchedRun k₀ ins outs k)
    (h : (∃ used, TaskInv lo hi m₀ k₀ used) ∧ RunInv k₀) :
    k.idleTask = k₀.idleTask ∧ Fifo k₀.runList ins (outs.filter (· ≠ k₀.idleTask)) k.runList := by
  induction hrun with
  | refl => exact ⟨rfl, Fifo.refl _⟩
  | schedule hrun hcall ih =>
      obtain ⟨⟨used, hk⟩, hq⟩ := hrun.inv h
      obtain ⟨hidle, hfifo⟩ := ih
      have hlast := schedule_fifo hq hk.null hcall
      rw [hidle] at hlast
      rw [List.filter_append]
      exact ⟨(schedule_queue hq hk.null hcall).1.trans hidle, hfifo.trans hlast⟩
  | other hrun hstep ih =>
      obtain ⟨⟨used, hk⟩, hq⟩ := hrun.inv h
      obtain ⟨hidle, hfifo⟩ := ih
      have hlast := hfifo.trans (hstep.fifo hk)
      rw [List.append_nil] at hlast
      exact ⟨(hstep.joined hk).idle.trans hidle, hlast⟩

/-- While a task waits in the queue, `idle_task` does not run. -/
theorem SchedRun.busy {lo hi : Nat} {m₀ : Pmm} {ins outs : List U32} (hrun : SchedRun k₀ ins outs k)
    (h : (∃ used, TaskInv lo hi m₀ k₀ used) ∧ RunInv k₀) {i : Nat} (hlen : outs.length ≤ i)
    (hi : i ≤ k₀.runList.length) : outs.filter (· ≠ k₀.idleTask) = outs := by
  induction hrun with
  | refl => rfl
  | @schedule ins outs k k' saved hrun hcall ih =>
      rw [List.length_append, List.length_singleton] at hlen
      have hbefore := ih (by omega)
      obtain ⟨⟨used, hk⟩, hq⟩ := hrun.inv h
      obtain ⟨hidle, hfifo⟩ := hrun.fifo h
      rw [hbefore] at hfifo
      obtain ⟨-, ⟨hnil, -⟩ | ⟨-, hcur⟩⟩ := schedule_queue hq hk.null hcall
      · -- The queue cannot be empty: fewer have left it than were in it at the start.
        have hsize : (k₀.runList ++ ins).length = (outs ++ k.runList).length := congrArg List.length hfifo
        rw [(List.append_eq_nil_iff.mp hnil).1, List.length_append, List.length_append, List.length_nil] at hsize
        omega
      · rw [List.filter_append, hbefore]
        simp [← hidle, hcur]
  | other _ _ ih => exact ih hlen

/-- Each call of `schedule` moves a task in the queue forward by one place. -/
theorem SchedRun.position {lo hi : Nat} {m₀ : Pmm} {ins outs : List U32} (hrun : SchedRun k₀ ins outs k)
    (h : (∃ used, TaskInv lo hi m₀ k₀ used) ∧ RunInv k₀) {i : Nat} (ha : k₀.runList[i]? = some a)
    (hlen : outs.length ≤ i) : k.runList[i - outs.length]? = some a := by
  have hlt := (List.getElem?_eq_some_iff.mp ha).1
  obtain ⟨-, hfifo⟩ := hrun.fifo h
  rw [hrun.busy h hlen (le_of_lt hlt)] at hfifo
  exact hfifo.position ha hlen

/-- The task at the head is the one that runs next. -/
theorem schedule_head (h : RunInv k) (hnull : k.tasks NULL = none) (hcall : schedule k saved = .ok k')
    (ha : k.runList[0]? = some a) : k'.currentTask = a := by
  obtain ⟨rest, hqueue⟩ : ∃ rest, k.runList = a :: rest := by
    cases hlist : k.runList with
    | nil => simp [hlist] at ha
    | cons b rest => exact ⟨rest, by simpa [hlist] using ha⟩
  obtain ⟨-, ⟨hnil, -⟩ | ⟨hcons, -⟩⟩ := schedule_queue h hnull hcall
  · simp [hqueue] at hnil
  · rw [hqueue, List.cons_append] at hcons
    exact (List.head_eq_of_cons_eq hcons).symm

/-- A task at place `i` is the one that runs after the call number `i + 1` of `schedule`. -/
theorem SchedRun.served {lo hi : Nat} {m₀ : Pmm} {ins outs : List U32} (hrun : SchedRun k₀ ins outs k)
    (h : (∃ used, TaskInv lo hi m₀ k₀ used) ∧ RunInv k₀) {i : Nat} (ha : k₀.runList[i]? = some a)
    (hlen : i < outs.length) : outs[i]? = some a := by
  induction hrun with
  | refl => simp at hlen
  | @schedule ins outs k k' saved hrun hcall ih =>
      by_cases hbefore : i < outs.length
      · rw [List.getElem?_append_left hbefore]
        exact ih hbefore
      · rw [List.length_append, List.length_singleton] at hlen
        obtain rfl : i = outs.length := by omega
        obtain ⟨⟨used, hk⟩, hq⟩ := hrun.inv h
        have hhead := hrun.position h ha (le_refl _)
        rw [Nat.sub_self] at hhead
        simp [schedule_head hq hk.null hcall hhead]
  | other _ _ ih => exact ih hlen

/-- **Round robin is first come, first served.**  In every run from `initTask` on, whatever happens between two of its
states: who has joined the run queue runs in the order of arrival; a task at place `i` moves forward by one place with
each call of `schedule`, and the call number `i + 1` makes it the running task; and until then no task is made the
running one twice. -/
theorem dispatch_fifo {lo hi : Nat} {m₀ : Pmm} {used : List Extent} (image : KernelImage) (s : Machine) (arg : U32)
    (k₀ : Kernel) (hledger : Ledger lo hi m₀ s used) (hinit : initTask image s arg = .ok k₀) {ins₀ outs₀ : List U32}
    (hboot : SchedRun k₀ ins₀ outs₀ k) {ins outs : List U32} (hrun : SchedRun k ins outs k') :
    k.runList ++ ins = outs.filter (· ≠ k.idleTask) ++ k'.runList ∧
      ∀ i a, k.runList[i]? = some a →
        (outs.length ≤ i → k'.runList[i - outs.length]? = some a ∧ outs.Nodup ∧ k.idleTask ∉ outs) ∧
        (i < outs.length → outs[i]? = some a) ∧
        (outs.length = i → ∀ saved k'', schedule k' saved = .ok k'' → k''.currentTask = a) := by
  have h := hboot.inv (initTask_queue hledger hinit)
  obtain ⟨hidle, hfifo⟩ := hrun.fifo h
  refine ⟨hfifo, fun i a ha => ⟨fun hlen => ?_, hrun.served h ha, ?_⟩⟩
  · have hlt := (List.getElem?_eq_some_iff.mp ha).1
    have hbusy := hrun.busy h hlen (le_of_lt hlt)
    refine ⟨hrun.position h ha hlen, ?_, ?_⟩
    · rw [hbusy] at hfifo
      exact hfifo.nodup_outs h.2.nodup (by omega)
    · rw [← hbusy]
      simp
  · rintro rfl saved k'' hcall
    obtain ⟨⟨used', hk⟩, hq⟩ := hrun.inv h
    have hhead := hrun.position h ha (le_refl _)
    rw [Nat.sub_self] at hhead
    exact schedule_head hq hk.null hcall hhead

/-! ### The steps under preemption -/

theorem SchedRun.trans {ins outs ins' outs' : List U32} (hrun : SchedRun k₀ ins outs k)
    (hrest : SchedRun k ins' outs' k') : SchedRun k₀ (ins ++ ins') (outs ++ outs') k' := by
  induction hrest with
  | refl =>
      rw [List.append_nil, List.append_nil]
      exact hrun
  | schedule _ hcall ih =>
      rw [← List.append_assoc, ← List.append_assoc]
      exact .schedule ih hcall
  | other _ hstep ih =>
      rw [← List.append_assoc]
      exact .other ih hstep

/-- Some run of these steps leads from `k` to `k'`. -/
def SchedReaches (k k' : Kernel) : Prop := ∃ ins outs, SchedRun k ins outs k'

namespace SchedReaches

theorem refl (k : Kernel) : SchedReaches k k := ⟨[], [], .refl⟩

theorem trans (h : SchedReaches k k') (h' : SchedReaches k' k'') : SchedReaches k k'' := by
  obtain ⟨ins, outs, hrun⟩ := h
  obtain ⟨ins', outs', hrun'⟩ := h'
  exact ⟨_, _, hrun.trans hrun'⟩

theorem other (hstep : OtherStep k k') : SchedReaches k k' := ⟨_, _, .other .refl hstep⟩

theorem schedule (hcall : schedule k saved = .ok k') : SchedReaches k k' := ⟨_, _, .schedule .refl hcall⟩

theorem timer (hcall : timerCallBack k saved = .ok k') : SchedReaches k k' := by
  unfold timerCallBack at hcall
  obtain ⟨k₁, htick, hcall⟩ := Res.bind_eq_ok.mp hcall
  obtain ⟨t, -, hcall⟩ := Res.bind_eq_ok.mp hcall
  unfold Kernel.doIf at hcall
  split at hcall
  · exact (other (.tick htick)).trans (schedule hcall)
  · obtain rfl := Except.ok.inj hcall
    exact other (.tick htick)

theorem wakeupLoop {flags : U32} {queue : List U32} {s s' : System}
    (hcall : System.wakeupLoop flags queue s = .ok s') : SchedReaches s.kernel s'.kernel := by
  induction queue generalizing s with
  | nil =>
      obtain rfl := Except.ok.inj hcall
      exact refl _
  | cons a rest ih =>
      obtain ⟨s₁, hwait, hcall⟩ := Res.bind_eq_ok.mp hcall
      obtain ⟨k, hwake, rfl⟩ := wakeupWait_eq_ok hwait
      exact (other (.wakeup hwake)).trans (ih hcall)

end SchedReaches

/-- On the kernel, a step under preemption is a run of these steps. -/
theorem Stepped.schedReaches {s s' : System} {act : System.Act} (hstep : Stepped s saved act s') :
    SchedReaches s.kernel s'.kernel := by
  cases hstep with
  | tick hcall => exact .timer hcall
  | keyboard hcall =>
      have hwake := SchedReaches.wakeupLoop hcall
      exact hwake
  | yield hpc hcall => exact .schedule hcall
  | fork hpc hidle hcall => exact .other (.fork hcall)
  | exit hpc hidle hcall => exact .other (.exitMm hcall)
  | wait hpc hidle =>
      unfold System.waitStart
      split <;> exact .refl _
  | acquire hpc hidle hvalue => exact .refl _
  | acquireSleep hpc hidle hvalue hcall =>
      obtain ⟨k, hmod, rfl⟩ := down_eq_ok hvalue hcall
      exact .other (.waitAddCurrent hmod)
  | release hpc hidle hcall =>
      rcases up_eq_ok hcall with ⟨-, rfl⟩ | ⟨a, rest, k, -, hwake, rfl⟩
      · exact .refl _
      · exact .other (.wakeup hwake)
  | readStdin hpc hidle hcall =>
      obtain ⟨k, hmod, rfl⟩ := stdinSleep_eq_ok hcall
      exact .other (.waitAddCurrent hmod)
  | downSched hpc hcall => exact .schedule hcall
  | downWoken hpc hcall =>
      obtain ⟨-, rfl⟩ := downWoken_eq_ok hcall
      exact .refl _
  | stdinSched hpc hcall => exact .schedule hcall
  | stdinWoken hpc => exact .refl _
  | exitMark hpc hmark hcode hcall =>
      exact ((SchedReaches.other (.markZombie hmark)).trans (.other (.storeExitCode hcode))).trans (.other (.handOver hcall))
  | exitCode hpc hcode hcall => exact (SchedReaches.other (.storeExitCode hcode)).trans (.other (.handOver hcall))
  | exitSection hpc hcall => exact .other (.handOver hcall)
  | exitSched hpc hcall hreturn => exact .schedule hcall
  | waitChild hpc hpid hcall => exact .refl _
  | waitFirst hpc ht => exact .refl _
  | waitEnd hpc => exact .refl _
  | waitRound hpc ht hstate => exact .refl _
  | reap hpc ht hstate hcall => exact .other (.reap ht hstate hcall)
  | waitMark hpc hmark hcall => exact (SchedReaches.other (.markSleeping hmark)).trans (.other (.waitReason hcall))
  | waitReason hpc hcall => exact .other (.waitReason hcall)
  | waitSched hpc hcall => exact .schedule hcall
  | waitWoken hpc ht hflags => exact .refl _
  | waitKilled hpc ht hflags hidle hcall => exact .other (.exitMm hcall)
  | tickInExit hpc hmark hcall => exact (SchedReaches.other (.markZombie hmark)).trans (.timer hcall)
  | tickBeforeSection hpc hmark hcode hcall =>
      exact ((SchedReaches.other (.markZombie hmark)).trans (.other (.storeExitCode hcode))).trans (.timer hcall)
  | tickInWait hpc hmark hcall => exact (SchedReaches.other (.markSleeping hmark)).trans (.timer hcall)

/-- The runs under preemption are runs of these steps. -/
theorem sysSteps_schedReaches {s s' : System} (hrun : Relation.ReflTransGen SysStep s s') :
    SchedReaches s.kernel s'.kernel := by
  induction hrun with
  | refl => exact .refl _
  | tail _ hstep ih =>
      obtain ⟨saved, act, hstep⟩ := hstep
      exact ih.trans (stepped_of_step hstep).schedReaches

end Dispatch

/-- `idle_task` forks a second child.  It is at the second place, and runs after the first one. -/
theorem dispatch_fifo_two_children : ∃ k₀ ins₀ k ins outs k' k'' a, initTask smallImage fortyFrames 0 = .ok k₀ ∧
    SchedRun k₀ ins₀ [] k ∧ k.runList[1]? = some a ∧ SchedRun k ins outs k' ∧ outs.length = 1 ∧
    schedule k' noContext = .ok k'' ∧ k''.currentTask = a := by
  have heval : (do
      let k₀ ← initTask smallImage fortyFrames 0
      let r ← doFork k₀ 0 0 noFrame
      let k' ← schedule r.2 noContext
      let k'' ← schedule k' noContext
      return (r.2.runList[1]?, k''.runList.length) : Res _) = .ok (some 0xC0008000#32, 1) := by
    decide +kernel
  obtain ⟨k₀, hinit, heval⟩ := Res.bind_eq_ok.mp heval
  obtain ⟨⟨ret, k⟩, hfork, heval⟩ := Res.bind_eq_ok.mp heval
  obtain ⟨k', hcall, heval⟩ := Res.bind_eq_ok.mp heval
  obtain ⟨k'', hcall', heval⟩ := Res.bind_eq_ok.mp heval
  obtain ⟨hsecond, -⟩ := Prod.mk.inj (Except.ok.inj heval)
  have hboot := SchedRun.refl.other (.fork hfork)
  have hrun := SchedRun.refl.schedule hcall
  obtain ⟨-, hplace⟩ := dispatch_fifo smallImage fortyFrames 0 k₀ fortyFrames_ledger hinit hboot hrun
  exact ⟨k₀, _, k, _, _, k', k'', _, hinit, hboot, hsecond, hrun, rfl, hcall',
    (hplace 1 _ hsecond).2.2 rfl noContext k'' hcall'⟩

end Krnl
end FreakOS
