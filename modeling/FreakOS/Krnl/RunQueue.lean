import FreakOS.Krnl.TaskIds

/-!
# The run queue

* `QueueInv k x` — the run queue has the runnable tasks other than `x` and `idle_task`, each once.
* `RunInv` — the same for the running task, which is what holds between the functions of `sched.c`.
* `RunInv.wakeupTask`, `RunInv.schedule`, `RunInv.timerCallBack` — the functions that change the queue.
* `RunInv.of_ready` — everything else.
-/

namespace FreakOS
namespace Krnl

open Lib
open Memory

/-- The time slice of a task in state `TASK_RUNNABLE`. -/
def Kernel.ready (k : Kernel) (a : U32) : Option U32 :=
  (k.tasks a).bind fun t => if t.state = .runnable then some t.timeSlice else none

theorem ready_eq_some_iff {k : Kernel} {a ts : U32} :
    k.ready a = some ts ↔ ∃ t, k.tasks a = some t ∧ t.state = .runnable ∧ t.timeSlice = ts := by
  unfold Kernel.ready
  cases ht : k.tasks a with
  | none => simp
  | some t =>
      by_cases hstate : t.state = .runnable <;> simp [hstate]

/-- The run queue, with one task left out. -/
structure QueueInv (k : Kernel) (x : U32) : Prop where
  nodup : k.runList.Nodup
  mem : ∀ a, a ∈ k.runList ↔ a ≠ x ∧ a ≠ k.idleTask ∧ (k.ready a).isSome
  count : k.taskNum = BitVec.ofNat 32 k.runList.length
  slice : ∀ a ts, a ∈ k.runList → k.ready a = some ts → 0 < ts ∧ ts ≤ MAX_TIME_SLICES

/-- The invariant of the run queue. -/
def RunInv (k : Kernel) : Prop := QueueInv k k.currentTask

section Queue

variable {k k' : Kernel} {x : U32}

namespace QueueInv

/-- The queue is as before, and so is every task in it or out of it. -/
theorem of_ready (h : QueueInv k x) (hrun : k'.runList = k.runList) (hnum : k'.taskNum = k.taskNum)
    (hidle : k'.idleTask = k.idleTask) (hready : ∀ a, a ≠ x → a ≠ k.idleTask → k'.ready a = k.ready a) :
    QueueInv k' x := by
  refine ⟨hrun ▸ h.nodup, ?_, ?_, ?_⟩
  · intro a
    rw [hrun, hidle, h.mem a]
    by_cases hx : a = x
    · simp [hx]
    · by_cases ha : a = k.idleTask
      · simp [ha]
      · rw [hready a hx ha]
  · rw [hnum, hrun]
    exact h.count
  · intro a ts ha hts
    rw [hrun] at ha
    obtain ⟨hx, hidle', -⟩ := (h.mem a).mp ha
    exact h.slice a ts ha (hready a hx hidle' ▸ hts)

/-- A task that is not runnable, or is `idle_task`, need not be left out. -/
theorem widen (h : QueueInv k x) (hx : x = k.idleTask ∨ k.ready x = none) : QueueInv k k.idleTask := by
  refine ⟨h.nodup, ?_, h.count, h.slice⟩
  intro a
  rw [h.mem a]
  constructor
  · rintro ⟨-, ha, hready⟩
    exact ⟨ha, ha, hready⟩
  · rintro ⟨ha, -, hready⟩
    refine ⟨?_, ha, hready⟩
    rintro rfl
    rcases hx with hx | hx
    · exact ha hx
    · simp [hx] at hready

/-- A task joins the queue; another one, `y`, may be left out from now on. -/
theorem push (h : QueueInv k x) {a ts y : U32} (ha : a ≠ k.idleTask) (hnew : a = x ∨ k.ready a = none)
    (hself : k'.ready a = some ts) (hts : 0 < ts ∧ ts ≤ MAX_TIME_SLICES)
    (hready : ∀ b, b ≠ a → k'.ready b = k.ready b) (hrun : k'.runList = k.runList ++ [a])
    (hnum : k'.taskNum = k.taskNum + 1) (hidle : k'.idleTask = k.idleTask) (hay : a ≠ y)
    (hy : ∀ b, b ≠ a → b ≠ k.idleTask → (b ≠ x ↔ b ≠ y)) : QueueInv k' y := by
  have hout : a ∉ k.runList := by
    intro hmem
    obtain ⟨hx, -, hsome⟩ := (h.mem a).mp hmem
    rcases hnew with hnew | hnew
    · exact hx hnew
    · simp [hnew] at hsome
  refine ⟨?_, ?_, ?_, ?_⟩
  · rw [hrun]
    refine List.nodup_append.mpr ⟨h.nodup, List.nodup_singleton a, ?_⟩
    intro b hb c hc hbc
    rw [List.mem_singleton] at hc
    rw [hbc, hc] at hb
    exact hout hb
  · intro b
    rw [hrun, List.mem_append, List.mem_singleton, hidle]
    by_cases hb : b = a
    · subst hb
      simp [hay, ha, hself]
    · rw [hready b hb, h.mem b]
      by_cases hbi : b = k.idleTask
      · simp [hbi, Ne.symm ha]
      · simp [hb, hbi, hy b hb hbi]
  · rw [hnum, hrun, h.count, List.length_append, BitVec.ofNat_add]
    rfl
  · intro b us hb hus
    rw [hrun, List.mem_append, List.mem_singleton] at hb
    by_cases hba : b = a
    · subst hba
      obtain rfl := Option.some.inj (hself.symm.trans hus)
      exact hts
    · rw [hready b hba] at hus
      exact h.slice b us (hb.resolve_right hba) hus

/-- The first task of the queue leaves it. -/
theorem pop (h : QueueInv k k.idleTask) {a : U32} {rest : List U32} (hrun : k.runList = a :: rest)
    (hrun' : k'.runList = k.runList.erase a) (hnum : k'.taskNum = k.taskNum - 1)
    (hidle : k'.idleTask = k.idleTask) (hready : ∀ b, k'.ready b = k.ready b) : QueueInv k' a := by
  have hnodup := h.nodup
  rw [hrun, List.nodup_cons] at hnodup
  have hrest : k'.runList = rest := by
    rw [hrun', hrun, List.erase_cons_head]
  refine ⟨hrest ▸ hnodup.2, ?_, ?_, ?_⟩
  · intro b
    rw [hrest, hidle, hready b]
    have hmem := h.mem b
    rw [hrun, List.mem_cons] at hmem
    constructor
    · intro hb
      obtain ⟨hbi, -, hsome⟩ := hmem.mp (Or.inr hb)
      refine ⟨?_, hbi, hsome⟩
      rintro rfl
      exact hnodup.1 hb
    · rintro ⟨hba, hbi, hsome⟩
      exact (hmem.mpr ⟨hbi, hbi, hsome⟩).resolve_left hba
  · rw [hnum, hrest, h.count, hrun, List.length_cons, BitVec.ofNat_add]
    exact BitVec.add_sub_cancel ..
  · intro b ts hb hts
    rw [hready b] at hts
    rw [hrest] at hb
    exact h.slice b ts (by simp [hrun, hb]) hts

end QueueInv

/-- What `enqueueRunQueue` does. -/
theorem enqueueRunQueue_eq {a : U32} (hcall : enqueueRunQueue k a = .ok k') :
    ∃ t ts, k.tasks a = some t ∧ 0 < ts ∧ ts ≤ MAX_TIME_SLICES ∧
      k' = { k.setTask a { t with timeSlice := ts } with
        runList := k.runList ++ [a], taskNum := k.taskNum + 1 } := by
  unfold enqueueRunQueue at hcall
  obtain ⟨-, -, hcall⟩ := Res.bind_eq_ok.mp hcall
  obtain ⟨k₁, hmod, hcall⟩ := Res.bind_eq_ok.mp hcall
  obtain rfl := Except.ok.inj hcall
  obtain ⟨t, ht, rfl⟩ := modifyTask_eq_ok.mp hmod
  by_cases hslice : t.timeSlice = 0 ∨ t.timeSlice > MAX_TIME_SLICES
  · refine ⟨t, MAX_TIME_SLICES, ht, by decide, by decide, ?_⟩
    rw [if_pos hslice]
    rfl
  · refine ⟨t, t.timeSlice, ht, ?_, ?_, ?_⟩
    · have hne : t.timeSlice.toNat ≠ 0 := fun h => hslice (Or.inl (BitVec.eq_of_toNat_eq h))
      exact BitVec.lt_def.mpr (Nat.pos_of_ne_zero hne)
    · exact BitVec.not_lt.mp fun h => hslice (Or.inr h)
    · rw [if_neg hslice]
      rfl

theorem ready_setTask (a : U32) (t : Task) (b : U32) :
    (k.setTask a t).ready b =
      if b = a then (if t.state = .runnable then some t.timeSlice else none) else k.ready b := by
  unfold Kernel.ready Kernel.setTask
  by_cases hb : b = a
  · subst hb
    simp
  · simp [hb]

/-- What `wakeupTask` does. -/
theorem wakeupTask_cases {a : U32} (hcall : wakeupTask k a = .ok k') :
    ∃ t, k.tasks a = some t ∧ t.state ≠ .zombie ∧ ((t.state = .runnable ∧ k' = k) ∨
      (t.state ≠ .runnable ∧ ∃ ts,
        ((a = k.currentTask ∨ a = k.idleTask) ∧
          k' = k.setTask a { t with state := .runnable, waitState := WT_NOTWAIT, timeSlice := ts }) ∨
        (a ≠ k.currentTask ∧ a ≠ k.idleTask ∧ 0 < ts ∧ ts ≤ MAX_TIME_SLICES ∧
          k' = { k.setTask a { t with state := .runnable, waitState := WT_NOTWAIT, timeSlice := ts } with
            runList := k.runList ++ [a], taskNum := k.taskNum + 1 }))) := by
  unfold wakeupTask at hcall
  obtain ⟨t, ht, hcall⟩ := Res.bind_eq_ok.mp hcall
  obtain ⟨_, hzombie, hcall⟩ := Res.bind_eq_ok.mp hcall
  refine ⟨t, task_eq_ok.mp ht, panicIf_eq_ok.mp hzombie, ?_⟩
  unfold Kernel.doIf at hcall
  split at hcall
  · rename_i hstate
    refine Or.inr ⟨hstate, ?_⟩
    dsimp only at hcall
    split at hcall
    · rename_i hother
      obtain ⟨t', ts, ht', hpos, hle, rfl⟩ := enqueueRunQueue_eq hcall
      have hread : Function.update k.tasks a (some { t with state := .runnable, waitState := WT_NOTWAIT }) a =
          some t' := ht'
      rw [Function.update_self] at hread
      obtain rfl := Option.some.inj hread
      refine ⟨ts, Or.inr ⟨hother.1, hother.2, hpos, hle, ?_⟩⟩
      simp [Kernel.setTask]
    · rename_i hother
      obtain rfl := Except.ok.inj hcall
      refine ⟨t.timeSlice, Or.inl ⟨?_, rfl⟩⟩
      by_contra hc
      exact hother (not_or.mp hc)
  · rename_i hstate
    exact Or.inl ⟨not_not.mp hstate, (Except.ok.inj hcall).symm⟩

theorem Kept.ready_isSome (h : Kept Task.still k k') (a : U32) : (k'.ready a).isSome = (k.ready a).isSome := by
  have hstate := (h.comp Task.state).tasks a
  unfold Kernel.ready
  cases ht' : k'.tasks a with
  | none =>
      rw [ht'] at hstate
      cases ht : k.tasks a with
      | none => rfl
      | some t => simp [ht] at hstate
  | some t' =>
      obtain ⟨t, ht, heq⟩ := exists_of_map_eq hstate ht'
      have heq' : t.state = t'.state := heq
      by_cases hrun : t'.state = .runnable <;> simp [ht, heq', hrun]

namespace RunInv

theorem wakeupTask (h : RunInv k) {a : U32} (hcall : wakeupTask k a = .ok k') : RunInv k' := by
  obtain ⟨t, ht, -, hcase⟩ := wakeupTask_cases hcall
  rcases hcase with ⟨-, rfl⟩ | ⟨hstate, ts, ⟨hself, rfl⟩ | ⟨hcur, hidle, hpos, hle, rfl⟩⟩
  · exact h
  · refine QueueInv.of_ready h rfl rfl rfl ?_
    intro b hb hbi
    rw [ready_setTask, if_neg]
    rintro rfl
    exact hself.elim hb hbi
  · have hnone : k.ready a = none := by
      simp [Kernel.ready, ht, hstate]
    refine QueueInv.push h hidle (Or.inr hnone) ?_ ⟨hpos, hle⟩ ?_ rfl rfl rfl hcur ?_
    · exact (ready_setTask a _ a).trans (by simp)
    · intro b hb
      exact (ready_setTask a _ b).trans (by simp [hb])
    · intro b _ _
      exact Iff.rfl

/-- The tasks are as ready as before, and the queue has not changed. -/
theorem of_ready (h : RunInv k) (hrun : k'.runList = k.runList) (hnum : k'.taskNum = k.taskNum)
    (hidle : k'.idleTask = k.idleTask) (hcur : k'.currentTask = k.currentTask)
    (hready : ∀ a, a ≠ k.currentTask → a ≠ k.idleTask → k'.ready a = k.ready a) : RunInv k' := by
  unfold RunInv
  rw [hcur]
  exact QueueInv.of_ready h hrun hnum hidle hready

/-- A field of a task that the queue does not depend on is written. -/
theorem modifyTask (h : RunInv k) {a : U32} {g : Task → Task} (hcall : k.modifyTask a g = .ok k')
    (hg : a = k.currentTask ∨ ∀ t, (g t).state = t.state ∧ (g t).timeSlice = t.timeSlice) : RunInv k' := by
  obtain ⟨t, ht, rfl⟩ := modifyTask_eq_ok.mp hcall
  refine h.of_ready rfl rfl rfl rfl ?_
  intro b hb _
  rw [ready_setTask]
  by_cases hba : b = a
  · subst hba
    obtain ⟨hstate, hslice⟩ := hg.resolve_left hb t
    simp [Kernel.ready, ht, hstate, hslice]
  · rw [if_neg hba]

end RunInv

/-- The running task joins the queue if it is runnable; `idle_task` does not. -/
theorem enqueueCurrent {t : Task} (h : RunInv k) (ht : k.tasks k.currentTask = some t)
    (hcall : k.doIf (t.state = .runnable ∧ k.currentTask ≠ k.idleTask)
      (fun k => enqueueRunQueue k k.currentTask) = .ok k') :
    QueueInv k' k.idleTask ∧ k'.currentTask = k.currentTask := by
  unfold Kernel.doIf at hcall
  split at hcall
  · rename_i hrunnable
    obtain ⟨t', ts, ht', hpos, hle, rfl⟩ := enqueueRunQueue_eq hcall
    obtain rfl := Option.some.inj (ht.symm.trans ht')
    refine ⟨?_, rfl⟩
    refine QueueInv.push h hrunnable.2 (Or.inl rfl) ?_ ⟨hpos, hle⟩ ?_ rfl rfl rfl hrunnable.2 ?_
    · exact (ready_setTask k.currentTask _ k.currentTask).trans (by simp [hrunnable.1])
    · intro b hb
      exact (ready_setTask k.currentTask _ b).trans (by simp [hb])
    · intro b hb hbi
      simp [hb, hbi]
  · rename_i hnot
    obtain rfl := Except.ok.inj hcall
    refine ⟨QueueInv.widen h ?_, rfl⟩
    by_cases hidle : k.currentTask = k.idleTask
    · exact Or.inl hidle
    · have hstate : t.state ≠ .runnable := fun hs => hnot ⟨hs, hidle⟩
      exact Or.inr (by simp [Kernel.ready, ht, hstate])

/-- The first task of the queue is taken; without one it is `idle_task`. -/
theorem takeHead (h : QueueInv k k.idleTask) (hnull : k.tasks NULL = none)
    (hcall : k.doIf (getHeadRunQueue k ≠ NULL) (fun k' => dequeueRunQueue k' (getHeadRunQueue k)) = .ok k') :
    QueueInv k' (if getHeadRunQueue k = NULL then k.idleTask else getHeadRunQueue k) ∧
      (getHeadRunQueue k ≠ NULL → (k.ready (getHeadRunQueue k)).isSome) := by
  have hready : ∀ a ∈ k.runList, (k.ready a).isSome := fun a ha => ((h.mem a).mp ha).2.2
  unfold Kernel.doIf at hcall
  cases hlist : k.runList with
  | nil =>
      have hhead : getHeadRunQueue k = NULL := by simp [getHeadRunQueue, hlist]
      rw [hhead] at hcall ⊢
      rw [if_neg (not_not.mpr rfl)] at hcall
      obtain rfl := Except.ok.inj hcall
      simp [h]
  | cons a rest =>
      have hhead : getHeadRunQueue k = a := by simp [getHeadRunQueue, hlist]
      have hsome := hready a (by simp [hlist])
      have hne : a ≠ NULL := by
        rintro rfl
        simp [Kernel.ready, hnull] at hsome
      rw [hhead] at hcall ⊢
      rw [if_pos hne] at hcall
      unfold dequeueRunQueue at hcall
      obtain ⟨-, -, hcall⟩ := Res.bind_eq_ok.mp hcall
      obtain rfl := Except.ok.inj hcall
      rw [if_neg hne]
      exact ⟨h.pop hlist rfl rfl rfl fun _ => rfl, fun _ => hsome⟩

/-- `runTask` makes the task it got the running one. -/
theorem runTask_currentTask {a : U32} {saved : Context}
    (hcall : (k.doIf (a ≠ k.currentTask) fun k => runTask k a saved) = .ok k') :
    k'.currentTask = a ∧ k'.runList = k.runList ∧ k'.taskNum = k.taskNum ∧ ∀ b, k'.ready b = k.ready b := by
  unfold runTask Kernel.doIf at hcall
  by_cases ha : a = k.currentTask
  · simp only [ha, ne_eq, not_true_eq_false, if_false, Except.ok.injEq] at hcall
    subst hcall
    exact ⟨ha.symm, rfl, rfl, fun _ => rfl⟩
  · rw [if_pos ha] at hcall
    dsimp only at hcall
    rw [if_pos ha] at hcall
    obtain ⟨next, -, hcall⟩ := Res.bind_eq_ok.mp hcall
    obtain ⟨t, ht, rfl⟩ := modifyTask_eq_ok.mp hcall
    refine ⟨rfl, rfl, rfl, ?_⟩
    intro b
    rw [ready_setTask]
    by_cases hb : b = k.currentTask
    · rw [if_pos hb, hb]
      have ht' : k.tasks k.currentTask = some t := ht
      simp [Kernel.ready, ht']
    · rw [if_neg hb]
      rfl

/-- `schedule` keeps the queue, and the task that runs then is runnable or is `idle_task`. -/
theorem RunInv.schedule (h : RunInv k) (hnull : k.tasks NULL = none) {saved : Context}
    (hcall : schedule k saved = .ok k') :
    RunInv k' ∧ (k'.currentTask = k.idleTask ∨ (k.ready k'.currentTask).isSome) := by
  unfold Krnl.schedule at hcall
  obtain ⟨k₁, hmod, hcall⟩ := Res.bind_eq_ok.mp hcall
  obtain ⟨t, ht, hcall⟩ := Res.bind_eq_ok.mp hcall
  obtain ⟨k₂, henq, hcall⟩ := Res.bind_eq_ok.mp hcall
  obtain ⟨k₃, hdeq, hcall⟩ := Res.bind_eq_ok.mp hcall
  have h₁ : RunInv k₁ := h.modifyTask hmod (Or.inl rfl)
  have hkept₁ : Kept Task.still k k₁ := Kept.modifyTask hmod fun _ => rfl
  have hkept₂ : Kept Task.still k₁ k₂ :=
    Kept.doIf henq fun _ henq => (enqueueRunQueue_kept henq).comp Task.still
  have hkept₃ : Kept Task.still k₂ k₃ := Kept.doIf hdeq fun _ hdeq => dequeueRunQueue_kept Task.still hdeq
  obtain ⟨h₂, hcur₂⟩ := enqueueCurrent h₁ (task_eq_ok.mp ht) henq
  rw [← hkept₂.idleTask] at h₂
  have hnull₂ : k₂.tasks NULL = none := by
    have := (hkept₁.trans hkept₂).isSome NULL
    rw [hnull] at this
    simpa using this
  obtain ⟨h₃, hhead⟩ := takeHead h₂ hnull₂ hdeq
  obtain ⟨hcur, hrun, hnum, hready⟩ := runTask_currentTask hcall
  have hidle : k₂.idleTask = k.idleTask := (hkept₁.trans hkept₂).idleTask
  have hidle₃ : k₃.idleTask = k₂.idleTask := hkept₃.idleTask
  rw [hidle₃] at hcur
  refine ⟨?_, ?_⟩
  · unfold RunInv
    rw [hcur]
    refine QueueInv.of_ready h₃ hrun hnum ?_ fun a _ _ => hready a
    exact (Kept.doIf hcall fun _ hcall => runTask_kept hcall).idleTask
  · rw [hcur]
    by_cases hnone : getHeadRunQueue k₂ = NULL
    · rw [if_pos hnone]
      exact Or.inl hidle
    · rw [if_neg hnone]
      refine Or.inr ?_
      rw [← (hkept₁.trans hkept₂).ready_isSome]
      exact hhead hnone

/-! ### Calls -/

namespace RunInv

theorem doIf (h : RunInv k) {c : Prop} [Decidable c] {step : Kernel → Res Kernel}
    (hcall : k.doIf c step = .ok k') (hstep : ∀ k'', step k = .ok k'' → RunInv k'') : RunInv k' := by
  unfold Kernel.doIf at hcall
  split at hcall
  · exact hstep k' hcall
  · obtain rfl := Except.ok.inj hcall
    exact h

theorem timerCallBack (h : RunInv k) (hnull : k.tasks NULL = none) {saved : Context}
    (hcall : timerCallBack k saved = .ok k') :
    RunInv k' ∧ (k'.currentTask = k.currentTask ∨ k'.currentTask = k.idleTask ∨
      (k.ready k'.currentTask).isSome) := by
  unfold Krnl.timerCallBack tickTask at hcall
  obtain ⟨k₁, htick, hcall⟩ := Res.bind_eq_ok.mp hcall
  obtain ⟨t, -, hcall⟩ := Res.bind_eq_ok.mp hcall
  have h₁ : RunInv k₁ := h.modifyTask htick (Or.inl rfl)
  have hkept : Kept Task.still k k₁ := by
    refine Kept.modifyTask htick fun t => ?_
    dsimp only
    split <;> split <;> rfl
  have hcur : k₁.currentTask = k.currentTask := by
    obtain ⟨_, -, rfl⟩ := modifyTask_eq_ok.mp htick
    rfl
  have hnull₁ : k₁.tasks NULL = none := by
    have := hkept.isSome NULL
    rw [hnull] at this
    simpa using this
  unfold Kernel.doIf at hcall
  split at hcall
  · obtain ⟨h', hnext⟩ := h₁.schedule hnull₁ hcall
    rw [hkept.idleTask, hkept.ready_isSome] at hnext
    exact ⟨h', Or.inr hnext⟩
  · obtain rfl := Except.ok.inj hcall
    exact ⟨h₁, Or.inl hcur⟩

/-- A link of a task is written. -/
theorem modifyLink (h : RunInv k) {a : U32} {g : Task → Task} (hcall : k.modifyTask a g = .ok k')
    (hg : ∀ t, (g t).state = t.state ∧ (g t).timeSlice = t.timeSlice) : RunInv k' :=
  h.modifyTask hcall (Or.inr hg)

theorem reparentOne (h : RunInv k) {a : U32} (hcall : reparentOne k a = .ok k') : RunInv k' := by
  unfold Krnl.reparentOne at hcall
  obtain ⟨c, -, hcall⟩ := Res.bind_eq_ok.mp hcall
  obtain ⟨k₁, hcurrent, hcall⟩ := Res.bind_eq_ok.mp hcall
  obtain ⟨init, -, hcall⟩ := Res.bind_eq_ok.mp hcall
  obtain ⟨k₂, hchild, hcall⟩ := Res.bind_eq_ok.mp hcall
  obtain ⟨k₃, hsibling, hcall⟩ := Res.bind_eq_ok.mp hcall
  obtain ⟨k₄, hparent, hcall⟩ := Res.bind_eq_ok.mp hcall
  obtain ⟨k₅, hinit, hcall⟩ := Res.bind_eq_ok.mp hcall
  obtain ⟨c', -, hcall⟩ := Res.bind_eq_ok.mp hcall
  obtain ⟨init', -, hcall⟩ := Res.bind_eq_ok.mp hcall
  have h₁ := h.modifyLink hcurrent fun _ => ⟨rfl, rfl⟩
  have h₂ := h₁.modifyLink hchild fun _ => ⟨rfl, rfl⟩
  have h₃ := h₂.doIf hsibling fun _ hmod => h₂.modifyLink hmod fun _ => ⟨rfl, rfl⟩
  have h₄ := h₃.modifyLink hparent fun _ => ⟨rfl, rfl⟩
  have h₅ := h₄.modifyLink hinit fun _ => ⟨rfl, rfl⟩
  exact h₅.doIf hcall fun _ hwake => h₅.wakeupTask hwake

theorem reparent (h : RunInv k) {fuel : Nat} (hcall : reparent fuel k = .ok k') : RunInv k' := by
  induction fuel generalizing k with
  | zero => simp [Krnl.reparent] at hcall
  | succ fuel ih =>
      unfold Krnl.reparent at hcall
      obtain ⟨current, -, hcall⟩ := Res.bind_eq_ok.mp hcall
      split at hcall
      · obtain rfl := Except.ok.inj hcall
        exact h
      · obtain ⟨k₁, hone, hcall⟩ := Res.bind_eq_ok.mp hcall
        exact ih (h.reparentOne hone) hcall

theorem handOver (h : RunInv k) (hcall : handOver k = .ok k') : RunInv k' := by
  unfold Krnl.handOver at hcall
  obtain ⟨current, -, hcall⟩ := Res.bind_eq_ok.mp hcall
  obtain ⟨parent, -, hcall⟩ := Res.bind_eq_ok.mp hcall
  obtain ⟨k₁, hwake, hcall⟩ := Res.bind_eq_ok.mp hcall
  exact (h.doIf hwake fun _ hwake => h.wakeupTask hwake).reparent hcall

theorem addTask (h : RunInv k) {a : U32} (hcall : addTask k a = .ok k') : RunInv k' := by
  unfold Krnl.addTask at hcall
  obtain ⟨t, ht, hcall⟩ := Res.bind_eq_ok.mp hcall
  obtain ⟨p, -, hcall⟩ := Res.bind_eq_ok.mp hcall
  obtain ⟨k₁, holder, hcall⟩ := Res.bind_eq_ok.mp hcall
  obtain ⟨k₂, hparent, hcall⟩ := Res.bind_eq_ok.mp hcall
  obtain rfl := Except.ok.inj hcall
  have hset : ({ k with taskList := listAdd a k.taskList } : Kernel).modifyTask a
      (fun t => { t with yptr := NULL, optr := p.cptr }) =
      .ok (({ k with taskList := listAdd a k.taskList } : Kernel).setTask a
        { t with yptr := NULL, optr := p.cptr }) :=
    modifyTask_eq_ok.mpr ⟨t, task_eq_ok.mp ht, rfl⟩
  have h₀ : RunInv { k with taskList := listAdd a k.taskList } := h.of_ready rfl rfl rfl rfl fun _ _ _ => rfl
  have h₁ := h₀.modifyLink hset fun _ => ⟨rfl, rfl⟩
  have h₂ := h₁.doIf holder fun _ hmod => h₁.modifyLink hmod fun _ => ⟨rfl, rfl⟩
  have h₃ := h₂.modifyLink hparent fun _ => ⟨rfl, rfl⟩
  exact h₃.of_ready rfl rfl rfl rfl fun _ _ _ => rfl

theorem delTask (h : RunInv k) {a : U32} (hcall : delTask k a = .ok k') : RunInv k' := by
  unfold Krnl.delTask at hcall
  obtain ⟨t, -, hcall⟩ := Res.bind_eq_ok.mp hcall
  obtain ⟨k₁, holder, hcall⟩ := Res.bind_eq_ok.mp hcall
  obtain ⟨t', -, hcall⟩ := Res.bind_eq_ok.mp hcall
  obtain ⟨k₂, hyounger, hcall⟩ := Res.bind_eq_ok.mp hcall
  obtain ⟨k₃, hparent, hcall⟩ := Res.bind_eq_ok.mp hcall
  obtain rfl := Except.ok.inj hcall
  have h₀ : RunInv { k with taskList := listDel a k.taskList } := h.of_ready rfl rfl rfl rfl fun _ _ _ => rfl
  have h₁ := h₀.doIf holder fun _ hmod => h₀.modifyLink hmod fun _ => ⟨rfl, rfl⟩
  have h₂ := h₁.doIf hyounger fun _ hmod => h₁.modifyLink hmod fun _ => ⟨rfl, rfl⟩
  have h₃ := h₂.doIf hparent fun _ hmod => h₂.modifyLink hmod fun _ => ⟨rfl, rfl⟩
  exact h₃.of_ready rfl rfl rfl rfl fun _ _ _ => rfl

theorem publish (h : RunInv k) {a : U32} {ret : Int} (hcall : publish k a = .ok (ret, k')) : RunInv k' := by
  unfold Krnl.publish at hcall
  obtain ⟨k₁, hmod, hcall⟩ := Res.bind_eq_ok.mp hcall
  obtain ⟨k₂, hadd, hcall⟩ := Res.bind_eq_ok.mp hcall
  obtain ⟨k₃, hwake, hcall⟩ := Res.bind_eq_ok.mp hcall
  obtain ⟨t', -, hcall⟩ := Res.bind_eq_ok.mp hcall
  obtain ⟨-, rfl⟩ := Prod.mk.inj (Except.ok.inj hcall)
  exact ((h.modifyLink hmod fun _ => ⟨rfl, rfl⟩).addTask hadd).wakeupTask hwake

/-- A task that has not been published is not runnable. -/
theorem forking (h : RunInv k) {lo hi : Nat} {m₀ : Pmm} {used used' : List Extent} {a : U32} {t : Task}
    (hforking : Forking lo hi m₀ k used a t k' used') : RunInv k' := by
  have hready : ∀ b, k'.ready b = k.ready b := by
    intro b
    by_cases hb : b = a
    · have hstate : t.state = .uninit := (Prod.mk.inj (Prod.mk.inj hforking.seed).2).1
      simp [Kernel.ready, hb, hforking.self, hforking.fresh, hstate]
    · simp [Kernel.ready, hforking.others b hb]
  obtain ⟨s, ts, mm, f, i, tf, rfl⟩ := hforking.frame
  exact h.of_ready rfl rfl rfl rfl fun b _ _ => hready b

theorem doFork (h : RunInv k) {lo hi : Nat} {m₀ : Pmm} {used : List Extent} (hk : TaskInv lo hi m₀ k used)
    {flags stack : U32} {frame : InterruptFrame} {ret : Int}
    (hcall : doFork k flags stack frame = .ok (ret, k')) : RunInv k' := by
  rcases doFork_forking hk hcall with ⟨-, ⟨s, mm, f, i, tf, rfl⟩, -⟩ | ⟨-, a, t, k₁, used₁, hforking, -, hpub⟩
  · exact h.of_ready rfl rfl rfl rfl fun _ _ _ => rfl
  · exact (h.forking hforking).publish hpub

/-- The task that `do_wait` frees is a zombie. -/
theorem reap (h : RunInv k) {a codeStore : U32} {t : Task} {res : WaitResult} (ht : k.tasks a = some t)
    (hzombie : t.state = .zombie) (hcall : reap k a codeStore = .ok (res, k')) : RunInv k' := by
  obtain ⟨t', k₁, s₂, s₄, -, -, -, hdel, -, -, -, rfl⟩ := reap_eq hcall
  refine (h.delTask hdel).of_ready rfl rfl rfl rfl ?_
  intro b _ _
  by_cases hb : b = a
  · obtain ⟨u, hu, hkept⟩ := exists_of_map_eq ((delTask_kept hdel).tasks a).symm ht
    have hstate : u.state = .zombie := (congrArg Task.state hkept).trans hzombie
    simp [Kernel.ready, hb, hu, hstate]
  · simp [Kernel.ready, hb]

theorem doExit (h : RunInv k) {lo hi : Nat} {m₀ : Pmm} {used : List Extent} (hk : TaskInv lo hi m₀ k used)
    {errCode : Int} {saved : Context} (hcall : doExit k errCode saved = .ok k') : RunInv k' := by
  unfold Krnl.doExit at hcall
  obtain ⟨-, -, hcall⟩ := Res.bind_eq_ok.mp hcall
  obtain ⟨k₁, hexit, hcall⟩ := Res.bind_eq_ok.mp hcall
  obtain ⟨k₂, hzombie, hcall⟩ := Res.bind_eq_ok.mp hcall
  obtain ⟨k₃, hhand, hcall⟩ := Res.bind_eq_ok.mp hcall
  obtain ⟨k₄, hschedule, hcall⟩ := Res.bind_eq_ok.mp hcall
  obtain ⟨-, -, hcall⟩ := Res.bind_eq_ok.mp hcall
  obtain rfl := Except.ok.inj hcall
  rw [hk.exitMm hexit] at hzombie
  have h₃ : RunInv k₃ := (h.modifyTask hzombie (Or.inl rfl)).handOver hhand
  have hkept : Kept Task.core k k₂ := Kept.modifyTask hzombie fun _ => rfl
  exact (h₃.schedule (hk.kept (hkept.trans (handOver_kept hhand))).null hschedule).1

end RunInv

/-- The task that `waitpid` finds is a zombie and a child of the running task. -/
theorem findChild_zombie {pid a : U32} {haskid : Bool} (hcall : findChild k pid = .ok (a, haskid))
    (hne : a ≠ NULL) : ∃ t, k.tasks a = some t ∧ t.state = .zombie ∧ t.parent = k.currentTask := by
  unfold findChild at hcall
  obtain ⟨b, -, hcall⟩ := Res.bind_eq_ok.mp hcall
  split at hcall
  · exact absurd (Prod.mk.inj (Except.ok.inj hcall)).1.symm hne
  · obtain ⟨t, ht, hcall⟩ := Res.bind_eq_ok.mp hcall
    split at hcall
    · rename_i hparent
      have ha := (Prod.mk.inj (Except.ok.inj hcall)).1
      by_cases hstate : t.state = .zombie
      · rw [if_pos hstate] at ha
        exact ⟨t, ha ▸ task_eq_ok.mp ht, hstate, hparent⟩
      · rw [if_neg hstate] at ha
        exact absurd ha.symm hne
    · exact absurd (Prod.mk.inj (Except.ok.inj hcall)).1.symm hne

/-- The task that `wait` finds is a zombie. -/
theorem findZombie_zombie {fuel : Nat} {p a : U32} {haskid haskid' : Bool}
    (hcall : findZombie k fuel p haskid = .ok (a, haskid')) (hne : a ≠ NULL) :
    ∃ t, k.tasks a = some t ∧ t.state = .zombie := by
  induction fuel generalizing p haskid with
  | zero => simp [findZombie] at hcall
  | succ fuel ih =>
      unfold findZombie at hcall
      split at hcall
      · exact absurd (Prod.mk.inj (Except.ok.inj hcall)).1.symm hne
      · obtain ⟨t, ht, hcall⟩ := Res.bind_eq_ok.mp hcall
        split at hcall
        · rename_i hstate
          obtain ⟨rfl, -⟩ := Prod.mk.inj (Except.ok.inj hcall)
          exact ⟨t, task_eq_ok.mp ht, hstate⟩
        · exact ih hcall

theorem RunInv.waitPass (h : RunInv k) (hnull : k.tasks NULL = none) {pid codeStore : U32} {saved : Context}
    {res : WaitResult} (hcall : waitPass k pid codeStore saved = .ok (res, k')) : RunInv k' := by
  unfold Krnl.waitPass at hcall
  obtain ⟨⟨a, haskid⟩, hsearch, hcall⟩ := Res.bind_eq_ok.mp hcall
  dsimp only at hcall
  split at hcall
  · rename_i hne
    have hzombie : ∃ t, k.tasks a = some t ∧ t.state = .zombie := by
      split at hsearch
      · obtain ⟨t, ht, hstate, -⟩ := findChild_zombie hsearch hne
        exact ⟨t, ht, hstate⟩
      · unfold findAnyChild at hsearch
        obtain ⟨current, -, hsearch⟩ := Res.bind_eq_ok.mp hsearch
        exact findZombie_zombie hsearch hne
    obtain ⟨t, ht, hstate⟩ := hzombie
    exact h.reap ht hstate hcall
  · split at hcall
    · obtain ⟨k₁, hsleep, hcall⟩ := Res.bind_eq_ok.mp hcall
      obtain ⟨k₂, hschedule, hcall⟩ := Res.bind_eq_ok.mp hcall
      obtain ⟨-, rfl⟩ := Prod.mk.inj (Except.ok.inj hcall)
      have hnull₁ : k₁.tasks NULL = none := by
        have hkept : Kept Task.core k k₁ := Kept.modifyTask hsleep fun _ => rfl
        have := hkept.isSome NULL
        rw [hnull] at this
        simpa using this
      exact ((h.modifyTask hsleep (Or.inl rfl)).schedule hnull₁ hschedule).1
    · obtain ⟨-, rfl⟩ := Prod.mk.inj (Except.ok.inj hcall)
      exact h

/-! ### Runs -/

/-- What may happen, in any order: the functions of `sched.c`, the calls of a task, and the statements with
which a task marks itself as a zombie or as sleeping before it calls `schedule`. -/
inductive QueueStep (k k' : Kernel) : Prop
  | schedule {saved : Context} (hcall : schedule k saved = .ok k')
  | tick {saved : Context} (hcall : timerCallBack k saved = .ok k')
  | wakeup {a : U32} (hcall : wakeupTask k a = .ok k')
  | fork {flags stack : U32} {frame : InterruptFrame} {ret : Int}
      (hcall : doFork k flags stack frame = .ok (ret, k'))
  | exit {errCode : Int} {saved : Context} (hcall : doExit k errCode saved = .ok k')
  | wait {pid codeStore : U32} {saved : Context} {res : WaitResult}
      (hcall : doWait k pid codeStore saved = .ok (res, k'))
  | resumeWait {pid codeStore : U32} {saved : Context} {res : WaitResult}
      (hcall : resumeWait k pid codeStore saved = .ok (res, k'))
  /-- `state = TASK_SLEEPING; wait_state = …` of `waitAddCurrent`. -/
  | waitAddCurrent {waitState : U32} (hcall : (k.modifyTask k.currentTask fun t =>
      { t with state := .sleeping, waitState := waitState }) = .ok k')
  /-- `state = TASK_SLEEPING` of `do_wait`. -/
  | markSleeping (hcall : (k.modifyTask k.currentTask fun t => { t with state := .sleeping }) = .ok k')
  /-- `wait_state = WT_CHILD` of `do_wait`. -/
  | waitReason (hcall : (k.modifyTask k.currentTask fun t => { t with waitState := WT_CHILD }) = .ok k')
  /-- `state = TASK_ZOMBIE` of `do_exit`. -/
  | markZombie (hcall : (k.modifyTask k.currentTask fun t => { t with state := .zombie }) = .ok k')
  /-- `exit_code = err_code` of `do_exit`. -/
  | storeExitCode {errCode : Int}
      (hcall : (k.modifyTask k.currentTask fun t => { t with exitCode := errCode }) = .ok k')
  /-- The section of `do_exit` without interrupts. -/
  | handOver (hcall : handOver k = .ok k')
  /-- The end of `do_wait`, from a zombie on. -/
  | reap {a codeStore : U32} {t : Task} {res : WaitResult} (ht : k.tasks a = some t)
      (hzombie : t.state = .zombie) (hcall : reap k a codeStore = .ok (res, k'))

theorem doWait_queue {lo hi : Nat} {m₀ : Pmm} {used : List Extent} (hk : TaskInv lo hi m₀ k used) (h : RunInv k)
    {pid codeStore : U32} {saved : Context} {res : WaitResult}
    (hcall : doWait k pid codeStore saved = .ok (res, k')) : RunInv k' := by
  unfold doWait at hcall
  obtain ⟨current, hcurrent, hcall⟩ := Res.bind_eq_ok.mp hcall
  split at hcall
  · exact h.waitPass hk.null hcall
  · rw [if_pos (hk.noMm _ _ (task_eq_ok.mp hcurrent))] at hcall
    split at hcall
    · obtain ⟨-, rfl⟩ := Prod.mk.inj (Except.ok.inj hcall)
      exact h
    · exact h.waitPass hk.null hcall

theorem resumeWait_queue {lo hi : Nat} {m₀ : Pmm} {used : List Extent} (hk : TaskInv lo hi m₀ k used)
    (h : RunInv k) {pid codeStore : U32} {saved : Context} {res : WaitResult}
    (hcall : resumeWait k pid codeStore saved = .ok (res, k')) : RunInv k' := by
  unfold resumeWait at hcall
  obtain ⟨current, -, hcall⟩ := Res.bind_eq_ok.mp hcall
  split at hcall
  · obtain ⟨k₁, hexit, hcall⟩ := Res.bind_eq_ok.mp hcall
    obtain ⟨-, rfl⟩ := Prod.mk.inj (Except.ok.inj hcall)
    exact h.doExit hk hexit
  · exact h.waitPass hk.null hcall

theorem timerCallBack_kept {saved : Context} (hcall : timerCallBack k saved = .ok k') : Kept Task.still k k' := by
  unfold timerCallBack tickTask at hcall
  obtain ⟨k₁, htick, hcall⟩ := Res.bind_eq_ok.mp hcall
  obtain ⟨t, -, hcall⟩ := Res.bind_eq_ok.mp hcall
  have h₁ : Kept Task.still k k₁ := by
    refine Kept.modifyTask htick fun t => ?_
    dsimp only
    split <;> split <;> rfl
  exact h₁.trans (Kept.doIf hcall fun _ hcall => schedule_kept hcall)

/-- One step keeps the invariants of the task list and of the run queue. -/
theorem QueueStep.inv {lo hi : Nat} {m₀ : Pmm} {used : List Extent} (hstep : QueueStep k k')
    (hk : TaskInv lo hi m₀ k used) (h : RunInv k) : (∃ used', TaskInv lo hi m₀ k' used') ∧ RunInv k' := by
  have hself : ∀ {g : Task → Task}, k.modifyTask k.currentTask g = .ok k' → (∀ t, (g t).core = t.core) →
      (∃ used', TaskInv lo hi m₀ k' used') ∧ RunInv k' := by
    intro g hcall hg
    exact ⟨⟨used, hk.kept (Kept.modifyTask hcall hg)⟩, h.modifyTask hcall (Or.inl rfl)⟩
  cases hstep with
  | schedule hcall =>
      exact ⟨⟨used, hk.kept ((schedule_kept hcall).comp Task.core)⟩, (h.schedule hk.null hcall).1⟩
  | tick hcall =>
      exact ⟨⟨used, hk.kept ((timerCallBack_kept hcall).comp Task.core)⟩, (h.timerCallBack hk.null hcall).1⟩
  | wakeup hcall =>
      exact ⟨⟨used, hk.kept ((wakeupTask_kept hcall).comp Task.core)⟩, h.wakeupTask hcall⟩
  | fork hcall =>
      refine ⟨?_, h.doFork hk hcall⟩
      rcases doFork_cases hk hcall with ⟨-, -, hinv⟩ | ⟨-, a, t, -, hforked⟩
      · exact hinv
      · exact hforked.inv
  | exit hcall => exact ⟨⟨used, hk.kept (doExit_kept hk hcall)⟩, h.doExit hk hcall⟩
  | wait hcall => exact ⟨(doWait_shrunk hk hcall).inv, doWait_queue hk h hcall⟩
  | resumeWait hcall => exact ⟨(resumeWait_shrunk hk hcall).inv, resumeWait_queue hk h hcall⟩
  | waitAddCurrent hcall => exact hself hcall fun _ => rfl
  | markSleeping hcall => exact hself hcall fun _ => rfl
  | waitReason hcall => exact hself hcall fun _ => rfl
  | markZombie hcall => exact hself hcall fun _ => rfl
  | storeExitCode hcall => exact hself hcall fun _ => rfl
  | reap ht hzombie hcall => exact ⟨(reap_shrunk hk hcall).inv, h.reap ht hzombie hcall⟩
  | handOver hcall => exact ⟨⟨used, hk.kept (handOver_kept hcall)⟩, h.handOver hcall⟩

theorem initTask_queue {lo hi : Nat} {m₀ : Pmm} {used : List Extent} {image : KernelImage} {s : Machine}
    {arg : U32} (hledger : Ledger lo hi m₀ s used) (hcall : initTask image s arg = .ok k) :
    (∃ used', TaskInv lo hi m₀ k used') ∧ RunInv k := by
  obtain ⟨idle, files, k₁, k₂, ret, init, halone, hfork, hret, -, rfl⟩ := initTask_cases hledger hcall
  obtain ⟨used₁, hinv⟩ := halone.inv
  have hrun : RunInv k₁ := by
    refine ⟨?_, ?_, ?_, ?_⟩
    · simp [halone.runList]
    · intro a
      rw [halone.runList, halone.currentTask, halone.idleTask]
      by_cases ha : a = idle
      · simp [ha]
      · simp [Kernel.ready, halone.tasks, ha]
    · simp [halone.runList, halone.taskNum]
    · simp [halone.runList]
  have hrun₂ : RunInv k₂ := hrun.doFork hinv hfork
  refine ⟨?_, hrun₂.of_ready rfl rfl rfl rfl fun _ _ _ => rfl⟩
  rcases doFork_cases hinv hfork with ⟨hneg, -⟩ | ⟨-, a, t, -, hforked⟩
  · exact absurd hneg hret
  · obtain ⟨used₂, hinv₂⟩ := hforked.inv
    exact ⟨used₂, hinv₂.grow rfl rfl rfl (fun _ hu => hu) hinv₂.ledger⟩

/-- There are fewer addresses of tasks than `task_num` can count. -/
theorem length_lt_of_nodup {l : List U32} {a : U32} (hnodup : l.Nodup) (ha : a ∉ l) : l.length < 2 ^ 32 := by
  have hmap : ((a :: l).map BitVec.toNat).Nodup :=
    (List.nodup_cons.mpr ⟨ha, hnodup⟩).map fun _ _ h => BitVec.eq_of_toNat_eq h
  have hsub : (a :: l).map BitVec.toNat ⊆ List.range (2 ^ 32) := by
    intro n hn
    obtain ⟨b, -, rfl⟩ := List.mem_map.mp hn
    exact List.mem_range.mpr b.isLt
  have hle := (hmap.subperm hsub).length_le
  rw [List.length_map, List.length_cons, List.length_range] at hle
  exact hle

/-- In every run from `initTask` on, the run queue has exactly the tasks in state `TASK_RUNNABLE` other than the
running one and `idle_task`, each once and with a time slice, and `task_num` is its length. -/
theorem run_queue_exact {lo hi : Nat} {m₀ : Pmm} {used : List Extent} (image : KernelImage) (s : Machine)
    (arg : U32) (k₀ : Kernel) (hledger : Ledger lo hi m₀ s used) (hinit : initTask image s arg = .ok k₀)
    (hrun : Relation.ReflTransGen QueueStep k₀ k) :
    k.runList.Nodup ∧
      (∀ a, a ∈ k.runList ↔ a ∈ k.taskList ∧ a ≠ k.currentTask ∧ a ≠ k.idleTask ∧
        ∃ t, k.tasks a = some t ∧ t.state = .runnable) ∧
      k.taskNum.toNat = k.runList.length ∧
      k.idleTask ∉ k.runList ∧
      (∀ a ∈ k.runList, ∃ t, k.tasks a = some t ∧ 0 < t.timeSlice ∧ t.timeSlice ≤ MAX_TIME_SLICES) := by
  have hinv : (∃ used', TaskInv lo hi m₀ k used') ∧ RunInv k := by
    induction hrun with
    | refl => exact initTask_queue hledger hinit
    | tail _ hstep ih =>
        obtain ⟨⟨used', hk⟩, h⟩ := ih
        exact hstep.inv hk h
  obtain ⟨⟨used', hk⟩, h⟩ := hinv
  have hidle : k.idleTask ∉ k.runList := fun hmem => ((h.mem _).mp hmem).2.1 rfl
  refine ⟨h.nodup, ?_, ?_, hidle, ?_⟩
  · intro a
    rw [h.mem a, Option.isSome_iff_exists]
    simp only [ready_eq_some_iff]
    constructor
    · rintro ⟨hcur, hne, ts, t, ht, hstate, -⟩
      exact ⟨(hk.live a).mpr (by simp [ht]), hcur, hne, t, ht, hstate⟩
    · rintro ⟨-, hcur, hne, t, ht, hstate⟩
      exact ⟨hcur, hne, t.timeSlice, t, ht, hstate, rfl⟩
  · rw [h.count, BitVec.toNat_ofNat]
    exact Nat.mod_eq_of_lt (length_lt_of_nodup h.nodup hidle)
  · intro a ha
    obtain ⟨ts, hts⟩ := Option.isSome_iff_exists.mp ((h.mem a).mp ha).2.2
    obtain ⟨t, ht, -, rfl⟩ := ready_eq_some_iff.mp hts
    exact ⟨t, ht, h.slice a t.timeSlice ha hts⟩

end Queue

/-- `idle_task` forks a second child. -/
theorem run_queue_exact_two_children : ∃ k₀ k, initTask smallImage fortyFrames 0 = .ok k₀ ∧
    Relation.ReflTransGen QueueStep k₀ k ∧ k.runList.length = 2 ∧ k.taskNum.toNat = k.runList.length := by
  have heval : (do
      let k₀ ← initTask smallImage fortyFrames 0
      let r ← doFork k₀ 0 0 noFrame
      return r.2.runList.length : Res _) = .ok 2 := by
    decide +kernel
  obtain ⟨k₀, hinit, heval⟩ := Res.bind_eq_ok.mp heval
  obtain ⟨⟨ret, k⟩, hfork, heval⟩ := Res.bind_eq_ok.mp heval
  have hrun : Relation.ReflTransGen QueueStep k₀ k := .single (.fork hfork)
  exact ⟨k₀, k, hinit, hrun, Except.ok.inj heval,
    (run_queue_exact smallImage fortyFrames 0 k₀ fortyFrames_ledger hinit hrun).2.2.1⟩

end Krnl
end FreakOS
