import FreakOS.Krnl.RunQueue

/-!
# The states of tasks and what they wait for

`Kernel.status` is the part of a task that decides if it can run and who may wake it up.  For each function that
a task can call, the lemmas say whose status it changes and that the running task is the same.

* `Switched` — `schedule` and the timer: no status changes, another task may run.
* `Roused` — `do_exit` up to its `schedule`: tasks that wait for a child have become runnable.
* `doFork_status`, `reap_status` — one task more, one task less.
-/

namespace FreakOS
namespace Krnl

open Lib
open Memory

/-- The state of a task, and what it waits for. -/
def Task.status (t : Task) : TaskState × U32 := (t.state, t.waitState)

/-- The status of the task at an address. -/
def Kernel.status (k : Kernel) (a : U32) : Option (TaskState × U32) := (k.tasks a).map Task.status

/-- There is a zombie at an address. -/
def Kernel.Zombie (k : Kernel) (a : U32) : Prop := ∃ ws, k.status a = some (.zombie, ws)

section Status

variable {k k' k'' : Kernel} {a b : U32}

theorem status_eq_some {t : Task} (ht : k.tasks a = some t) : k.status a = some (t.state, t.waitState) := by
  unfold Kernel.status
  rw [ht]
  rfl

theorem Kept.status {β : Type} {f : Task → β} (h : Kept f k k') (g : β → TaskState × U32)
    (hg : ∀ t, g (f t) = t.status) (a : U32) : k'.status a = k.status a := by
  have hcomp := (h.comp g).tasks a
  have heq : g ∘ f = Task.status := funext hg
  rw [heq] at hcomp
  exact hcomp

theorem ready_isSome_iff : (k.ready a).isSome ↔ ∃ ws, k.status a = some (.runnable, ws) := by
  unfold Kernel.ready Kernel.status
  cases ht : k.tasks a with
  | none => simp
  | some t => by_cases hstate : t.state = .runnable <;> simp [hstate, Task.status]

theorem setTask_status_of_ne {t : Task} (hb : b ≠ a) : (k.setTask a t).status b = k.status b := by
  simp [Kernel.status, Kernel.setTask, hb]

theorem setTask_status_self {t : Task} : (k.setTask a t).status a = some t.status := by
  simp [Kernel.status, Kernel.setTask]

/-! ### One task changes itself -/

theorem modifyTask_status_of_ne {g : Task → Task} (hcall : k.modifyTask a g = .ok k') (hb : b ≠ a) :
    k'.status b = k.status b := by
  obtain ⟨t, -, rfl⟩ := modifyTask_eq_ok.mp hcall
  exact setTask_status_of_ne hb

theorem modifyTask_status {g : Task → Task} (hcall : k.modifyTask a g = .ok k')
    (hg : ∀ t, (g t).status = t.status) (b : U32) : k'.status b = k.status b := by
  obtain ⟨t, ht, rfl⟩ := modifyTask_eq_ok.mp hcall
  by_cases hb : b = a
  · rw [hb, setTask_status_self, hg t, status_eq_some ht]
    rfl
  · exact setTask_status_of_ne hb

/-- A write that is not to `wait_state`. -/
theorem modifyTask_child {g : Task → Task} (hcall : k.modifyTask a g = .ok k')
    (hg : ∀ t, (g t).waitState = t.waitState) {ws : U32} (st : TaskState) (hst : k'.status a = some (st, ws)) :
    ∃ st', k.status a = some (st', ws) := by
  obtain ⟨t, ht, rfl⟩ := modifyTask_eq_ok.mp hcall
  rw [setTask_status_self] at hst
  have hws : (g t).waitState = ws := congrArg Prod.snd (Option.some.inj hst)
  exact ⟨t.state, by rw [status_eq_some ht, ← hg t, hws]⟩

/-- `wait_state = WT_CHILD`. -/
theorem waitReason_status (hcall : (k.modifyTask a fun t => { t with waitState := WT_CHILD }) = .ok k') {ws : U32}
    {st : TaskState} (hst : k.status a = some (st, ws)) : k'.status a = some (st, WT_CHILD) := by
  obtain ⟨t, ht, rfl⟩ := modifyTask_eq_ok.mp hcall
  rw [status_eq_some ht] at hst
  have hstate : t.state = st := congrArg Prod.fst (Option.some.inj hst)
  rw [setTask_status_self]
  simp [Task.status, hstate]

theorem modifyTask_current {g : Task → Task} (hcall : k.modifyTask a g = .ok k') :
    k'.currentTask = k.currentTask := by
  obtain ⟨t, -, rfl⟩ := modifyTask_eq_ok.mp hcall
  rfl

/-! ### `sched.c` -/

/-- The scheduler may have given the CPU to another task, and has changed the status of none. -/
structure Switched (k k' : Kernel) : Prop where
  status : ∀ a, k'.status a = k.status a
  idle : k'.idleTask = k.idleTask
  init : k'.initTask = k.initTask
  current : k'.currentTask = k.currentTask ∨ k'.currentTask = k.idleTask ∨ (k.ready k'.currentTask).isSome

theorem still_status (h : Kept Task.still k k') (a : U32) : k'.status a = k.status a :=
  h.status Task.status (fun _ => rfl) a

theorem switched_of_schedule (hrun : RunInv k) (hnull : k.tasks NULL = none) {saved : Context}
    (hcall : schedule k saved = .ok k') : Switched k k' := by
  have hkept := schedule_kept hcall
  exact ⟨still_status hkept, hkept.idleTask, hkept.initTask, Or.inr (hrun.schedule hnull hcall).2⟩

theorem switched_of_timer (hrun : RunInv k) (hnull : k.tasks NULL = none) {saved : Context}
    (hcall : timerCallBack k saved = .ok k') : Switched k k' := by
  have hkept := timerCallBack_kept hcall
  exact ⟨still_status hkept, hkept.idleTask, hkept.initTask, (hrun.timerCallBack hnull hcall).2⟩

/-- The task that runs next is on the list. -/
theorem Switched.live {lo hi : Nat} {m₀ : Pmm} {used : List Extent} (h : Switched k k')
    (hk : TaskInv lo hi m₀ k used) (hcurrent : (k.tasks k.currentTask).isSome) : (k'.tasks k'.currentTask).isSome := by
  have hsame : (k'.tasks k'.currentTask).isSome = (k.tasks k'.currentTask).isSome := by
    have hstatus := congrArg Option.isSome (h.status k'.currentTask)
    simpa [Kernel.status] using hstatus
  rw [hsame]
  rcases h.current with heq | heq | hready
  · rw [heq]
    exact hcurrent
  · rw [heq]
    exact (hk.live _).mp hk.idle
  · obtain ⟨ws, hws⟩ := ready_isSome_iff.mp hready
    obtain ⟨t, ht, -⟩ := Option.map_eq_some_iff.mp hws
    simp [ht]

/-- A task that is not runnable gets the CPU back from nobody. -/
theorem Switched.ne_current (h : Switched k k') (hne : a ≠ k.currentTask) (hidle : a ≠ k.idleTask)
    (hready : ∀ ws, k.status a ≠ some (.runnable, ws)) : a ≠ k'.currentTask := by
  rintro rfl
  rcases h.current with hcurrent | hcurrent | hcurrent
  · exact hne hcurrent
  · exact hidle hcurrent
  · obtain ⟨ws, hws⟩ := ready_isSome_iff.mp hcurrent
    exact hready ws hws

/-- A task that is not runnable loses the CPU in `schedule`. -/
theorem schedule_ne_current (hrun : RunInv k) (hnull : k.tasks NULL = none) {saved : Context}
    (hcall : schedule k saved = .ok k') (hidle : a ≠ k.idleTask)
    (hready : ∀ ws, k.status a ≠ some (.runnable, ws)) : a ≠ k'.currentTask := by
  rintro rfl
  rcases (hrun.schedule hnull hcall).2 with hcurrent | hcurrent
  · exact hidle hcurrent
  · obtain ⟨ws, hws⟩ := ready_isSome_iff.mp hcurrent
    exact hready ws hws

/-- What `wakeupTask` does to the task that it wakes up, and to nothing else. -/
theorem wakeupTask_status (hcall : wakeupTask k a = .ok k') :
    k'.currentTask = k.currentTask ∧ (∀ b, b ≠ a → k'.status b = k.status b) ∧
      ∃ ws, (k.status a = some (.runnable, ws) ∧ k'.status a = some (.runnable, ws)) ∨
        (k.status a = some (.sleeping, ws) ∨ k.status a = some (.uninit, ws)) ∧
          k'.status a = some (.runnable, WT_NOTWAIT) := by
  obtain ⟨t, ht, hzombie, ⟨hstate, rfl⟩ | ⟨hstate, ts, ⟨-, rfl⟩ | ⟨-, -, -, -, rfl⟩⟩⟩ := wakeupTask_cases hcall
  · have hstatus := status_eq_some ht
    rw [hstate] at hstatus
    exact ⟨rfl, fun _ _ => rfl, t.waitState, Or.inl ⟨hstatus, hstatus⟩⟩
  all_goals
    refine ⟨rfl, fun b hb => setTask_status_of_ne hb, t.waitState, Or.inr ⟨?_, setTask_status_self⟩⟩
    rw [status_eq_some ht]
    cases hs : t.state with
    | uninit => exact Or.inr rfl
    | sleeping => exact Or.inl rfl
    | runnable => exact absurd hs hstate
    | zombie => exact absurd hs hzombie

/-! ### `do_exit` -/

/-- The status of a task that may have been woken up while it waited for a child. -/
def MayWake (before after : Option (TaskState × U32)) : Prop :=
  after = before ∨ (∃ st, st ≠ .zombie ∧ before = some (st, WT_CHILD)) ∧ after = some (.runnable, WT_NOTWAIT)

theorem MayWake.trans {x y z : Option (TaskState × U32)} (h₁ : MayWake x y) (h₂ : MayWake y z) : MayWake x z := by
  rcases h₂ with hsame | ⟨⟨st, hst, hchild⟩, hwoken⟩
  · rw [hsame]
    exact h₁
  · refine Or.inr ⟨?_, hwoken⟩
    rcases h₁ with hsame | ⟨-, hwoken'⟩
    · exact ⟨st, hst, hsame.symm.trans hchild⟩
    · -- A task that has been woken up does not wait for a child any more.
      rw [hwoken'] at hchild
      have hws : WT_NOTWAIT = WT_CHILD := congrArg Prod.snd (Option.some.inj hchild)
      exact absurd hws (by decide)

/-- A task that waits for something else than a child is left alone. -/
theorem MayWake.eq_of_ne {y : Option (TaskState × U32)} {st : TaskState} {ws : U32} (h : MayWake (some (st, ws)) y)
    (hne : st = .zombie ∨ ws ≠ WT_CHILD) : y = some (st, ws) := by
  rcases h with hsame | ⟨⟨st', hst', hchild⟩, -⟩
  · exact hsame
  · obtain ⟨rfl, rfl⟩ := Prod.mk.inj (Option.some.inj hchild)
    rcases hne with hne | hne
    · exact absurd hne hst'
    · exact absurd rfl hne

/-- What a task waits for after it may have been woken up. -/
theorem MayWake.reason {x : Option (TaskState × U32)} {st : TaskState} {ws : U32} (h : MayWake x (some (st, ws)))
    (hne : ws ≠ WT_NOTWAIT) : x = some (st, ws) := by
  rcases h with hsame | ⟨-, hwoken⟩
  · exact hsame.symm
  · obtain ⟨-, hws⟩ := Prod.mk.inj (Option.some.inj hwoken)
    exact absurd hws hne

/-- Who is a zombie was one before. -/
theorem MayWake.zombie {x : Option (TaskState × U32)} {ws : U32} (h : MayWake x (some (.zombie, ws))) :
    x = some (.zombie, ws) := by
  rcases h with hsame | ⟨-, hwoken⟩
  · exact hsame.symm
  · simp at hwoken

/-- Tasks that wait for a child may have been woken up, and nothing else has happened to the status of a task. -/
structure Roused (k k' : Kernel) : Prop where
  current : k'.currentTask = k.currentTask
  idle : k'.idleTask = k.idleTask
  status : ∀ a, MayWake (k.status a) (k'.status a)

namespace Roused

theorem refl (k : Kernel) : Roused k k := ⟨rfl, rfl, fun _ => Or.inl rfl⟩

theorem trans (h₁ : Roused k k') (h₂ : Roused k' k'') : Roused k k'' :=
  ⟨h₂.current.trans h₁.current, h₂.idle.trans h₁.idle, fun a => (h₁.status a).trans (h₂.status a)⟩

theorem modifyTask {g : Task → Task} (hcall : k.modifyTask a g = .ok k') (hg : ∀ t, (g t).status = t.status) :
    Roused k k' :=
  ⟨modifyTask_current hcall, (Kept.modifyTask (f := fun _ => ()) hcall fun _ => rfl).idleTask,
    fun b => Or.inl (modifyTask_status hcall hg b)⟩

theorem doIf {c : Prop} [Decidable c] {step : Kernel → Res Kernel} (hcall : k.doIf c step = .ok k')
    (hstep : c → ∀ k'', step k = .ok k'' → Roused k k'') : Roused k k' := by
  unfold Kernel.doIf at hcall
  split at hcall
  · rename_i hc
    exact hstep hc k' hcall
  · obtain rfl := Except.ok.inj hcall
    exact refl k

theorem wakeupTask {t : Task} (ht : k.tasks a = some t) (hwait : t.waitState = WT_CHILD)
    (hcall : wakeupTask k a = .ok k') : Roused k k' := by
  obtain ⟨hcurrent, hothers, ws, hcases⟩ := wakeupTask_status hcall
  refine ⟨hcurrent, (wakeupTask_kept hcall).idleTask, ?_⟩
  intro b
  by_cases hb : b = a
  · subst hb
    have hstatus := status_eq_some ht
    rw [hwait] at hstatus
    rcases hcases with ⟨hbefore, hafter⟩ | ⟨hbefore, hafter⟩
    · exact Or.inl (hafter.trans hbefore.symm)
    · refine Or.inr ⟨⟨t.state, ?_, hstatus⟩, hafter⟩
      intro hzombie
      rw [hzombie] at hstatus
      rw [hstatus] at hbefore
      simp at hbefore
  · exact Or.inl (hothers b hb)

theorem reparentOne (hcall : reparentOne k a = .ok k') : Roused k k' := by
  unfold Krnl.reparentOne at hcall
  obtain ⟨c, -, hcall⟩ := Res.bind_eq_ok.mp hcall
  obtain ⟨k₁, hcurrent, hcall⟩ := Res.bind_eq_ok.mp hcall
  obtain ⟨init, -, hcall⟩ := Res.bind_eq_ok.mp hcall
  obtain ⟨k₂, hchild, hcall⟩ := Res.bind_eq_ok.mp hcall
  obtain ⟨k₃, hsibling, hcall⟩ := Res.bind_eq_ok.mp hcall
  obtain ⟨k₄, hparent, hcall⟩ := Res.bind_eq_ok.mp hcall
  obtain ⟨k₅, hinit, hcall⟩ := Res.bind_eq_ok.mp hcall
  obtain ⟨c', -, hcall⟩ := Res.bind_eq_ok.mp hcall
  obtain ⟨init', hinit', hcall⟩ := Res.bind_eq_ok.mp hcall
  have h₁ : Roused k k₁ := modifyTask hcurrent fun _ => rfl
  have h₂ : Roused k₁ k₂ := modifyTask hchild fun _ => rfl
  have h₃ : Roused k₂ k₃ := doIf hsibling fun _ _ hmod => modifyTask hmod fun _ => rfl
  have h₄ : Roused k₃ k₄ := modifyTask hparent fun _ => rfl
  have h₅ : Roused k₄ k₅ := modifyTask hinit fun _ => rfl
  have h₆ : Roused k₅ k' := doIf hcall fun hc _ hwake => wakeupTask (task_eq_ok.mp hinit') hc.2 hwake
  exact ((((h₁.trans h₂).trans h₃).trans h₄).trans h₅).trans h₆

theorem reparent {fuel : Nat} (hcall : reparent fuel k = .ok k') : Roused k k' := by
  induction fuel generalizing k with
  | zero => simp [Krnl.reparent] at hcall
  | succ fuel ih =>
      unfold Krnl.reparent at hcall
      obtain ⟨current, -, hcall⟩ := Res.bind_eq_ok.mp hcall
      split at hcall
      · obtain rfl := Except.ok.inj hcall
        exact refl k
      · obtain ⟨k₁, hone, hcall⟩ := Res.bind_eq_ok.mp hcall
        exact (reparentOne hone).trans (ih hcall)

theorem handOver (hcall : handOver k = .ok k') : Roused k k' := by
  unfold Krnl.handOver at hcall
  obtain ⟨current, -, hcall⟩ := Res.bind_eq_ok.mp hcall
  obtain ⟨parent, hparent, hcall⟩ := Res.bind_eq_ok.mp hcall
  obtain ⟨k₁, hwake, hcall⟩ := Res.bind_eq_ok.mp hcall
  have h₁ : Roused k k₁ := doIf hwake fun hc _ hwake => wakeupTask (task_eq_ok.mp hparent) hc hwake
  exact h₁.trans (reparent hcall)

theorem zombie_iff (h : Roused k k') : k'.Zombie a ↔ k.Zombie a := by
  have hwake := h.status a
  constructor
  · rintro ⟨ws, hz⟩
    rw [hz] at hwake
    exact ⟨ws, hwake.zombie⟩
  · rintro ⟨ws, hz⟩
    rw [hz] at hwake
    exact ⟨ws, hwake.eq_of_ne (Or.inl rfl)⟩

/-- Nobody has started to wait. -/
theorem child (h : Roused k k') (st : TaskState) (hst : k'.status a = some (st, WT_CHILD)) :
    ∃ st', k.status a = some (st', WT_CHILD) := by
  have hwake := h.status a
  rw [hst] at hwake
  exact ⟨st, hwake.reason (by decide)⟩

end Roused

/-- What the running task may do to its own status and to that of others, outside of `wait.c`. -/
structure Acted (k k' : Kernel) : Prop where
  current : k'.currentTask = k.currentTask
  idle : k'.idleTask = k.idleTask
  others : ∀ a, a ≠ k.currentTask → MayWake (k.status a) (k'.status a)
  self : ∀ st ws, k'.status k.currentTask = some (st, ws) →
    ws = WT_CHILD ∨ ws = WT_NOTWAIT ∨ ∃ st', k.status k.currentTask = some (st', ws)

namespace Acted

theorem of_roused (h : Roused k k') : Acted k k' := by
  refine ⟨h.current, h.idle, fun a _ => h.status a, ?_⟩
  intro st ws hstatus
  have hwake := h.status k.currentTask
  rw [hstatus] at hwake
  by_cases hws : ws = WT_NOTWAIT
  · exact Or.inr (Or.inl hws)
  · exact Or.inr (Or.inr ⟨st, hwake.reason hws⟩)

theorem trans (h₁ : Acted k k') (h₂ : Acted k' k'') : Acted k k'' := by
  refine ⟨h₂.current.trans h₁.current, h₂.idle.trans h₁.idle, ?_, ?_⟩
  · intro a ha
    exact (h₁.others a ha).trans (h₂.others a (h₁.current ▸ ha))
  · intro st ws hstatus
    rw [← h₁.current] at hstatus
    rcases h₂.self st ws hstatus with hchild | hnot | ⟨st', hst'⟩
    · exact Or.inl hchild
    · exact Or.inr (Or.inl hnot)
    · rw [h₁.current] at hst'
      exact h₁.self st' ws hst'

/-- The running task writes to its own structure. -/
theorem modifyTask {g : Task → Task} (hcall : k.modifyTask k.currentTask g = .ok k')
    (hg : ∀ t, (g t).waitState = WT_CHILD ∨ (g t).waitState = t.waitState) : Acted k k' := by
  refine ⟨modifyTask_current hcall, (Kept.modifyTask (f := fun _ => ()) hcall fun _ => rfl).idleTask,
    fun a ha => Or.inl (modifyTask_status_of_ne hcall ha), ?_⟩
  intro st ws hstatus
  obtain ⟨t, ht, rfl⟩ := modifyTask_eq_ok.mp hcall
  rw [setTask_status_self] at hstatus
  have hws : (g t).waitState = ws := congrArg Prod.snd (Option.some.inj hstatus)
  rcases hg t with hchild | hsame
  · exact Or.inl (hws.symm.trans hchild)
  · refine Or.inr (Or.inr ⟨t.state, ?_⟩)
    rw [status_eq_some ht, ← hws, hsame]

end Acted

/-! ### `do_fork` and `do_wait` -/

theorem addTask_current (hcall : addTask k a = .ok k') : k'.currentTask = k.currentTask := by
  unfold addTask at hcall
  obtain ⟨t, -, hcall⟩ := Res.bind_eq_ok.mp hcall
  obtain ⟨p, -, hcall⟩ := Res.bind_eq_ok.mp hcall
  obtain ⟨k₁, holder, hcall⟩ := Res.bind_eq_ok.mp hcall
  obtain ⟨k₂, hparent, hcall⟩ := Res.bind_eq_ok.mp hcall
  obtain rfl := Except.ok.inj hcall
  have h₁ : k₁.currentTask = k.currentTask :=
    (Roused.doIf holder fun _ _ hmod => Roused.modifyTask hmod fun _ => rfl).current
  exact (modifyTask_current hparent).trans h₁

theorem delTask_current (hcall : delTask k a = .ok k') : k'.currentTask = k.currentTask := by
  unfold delTask at hcall
  obtain ⟨t, -, hcall⟩ := Res.bind_eq_ok.mp hcall
  obtain ⟨k₁, holder, hcall⟩ := Res.bind_eq_ok.mp hcall
  obtain ⟨t', -, hcall⟩ := Res.bind_eq_ok.mp hcall
  obtain ⟨k₂, hyounger, hcall⟩ := Res.bind_eq_ok.mp hcall
  obtain ⟨k₃, hparent, hcall⟩ := Res.bind_eq_ok.mp hcall
  obtain rfl := Except.ok.inj hcall
  have h₁ : k₁.currentTask = k.currentTask :=
    (Roused.doIf holder fun _ _ hmod => Roused.modifyTask hmod fun _ => rfl).current
  have h₂ := (Roused.doIf hyounger fun _ _ hmod => Roused.modifyTask hmod fun _ => rfl).current
  have h₃ := (Roused.doIf hparent fun _ _ hmod => Roused.modifyTask hmod fun _ => rfl).current
  exact h₃.trans (h₂.trans h₁)

/-- `do_fork` fails and changes no status, or there is one task more, which can run. -/
theorem doFork_status {lo hi : Nat} {m₀ : Pmm} {used : List Extent} (hk : TaskInv lo hi m₀ k used)
    {flags stack : U32} {frame : InterruptFrame} {ret : Int}
    (hcall : doFork k flags stack frame = .ok (ret, k')) :
    k'.currentTask = k.currentTask ∧ k'.idleTask = k.idleTask ∧
      ((∀ a, k'.status a = k.status a) ∨
        ∃ a, k.tasks a = none ∧ k'.status a = some (.runnable, WT_NOTWAIT) ∧
          ∀ b, b ≠ a → k'.status b = k.status b) := by
  rcases doFork_forking hk hcall with ⟨-, ⟨s, mm, f, i, tf, rfl⟩, -⟩ | ⟨-, a, t, k₁, used₁, hforking, -, hpub⟩
  · exact ⟨rfl, rfl, Or.inl fun _ => rfl⟩
  · unfold publish at hpub
    obtain ⟨k₂, hmod, hpub⟩ := Res.bind_eq_ok.mp hpub
    obtain ⟨k₃, hadd, hpub⟩ := Res.bind_eq_ok.mp hpub
    obtain ⟨k₄, hwake, hpub⟩ := Res.bind_eq_ok.mp hpub
    obtain ⟨t', -, hpub⟩ := Res.bind_eq_ok.mp hpub
    obtain ⟨-, rfl⟩ := Prod.mk.inj (Except.ok.inj hpub)
    obtain ⟨hcurrent, hothers, ws, hcases⟩ := wakeupTask_status hwake
    have hadded := addTask_kept hadd
    have hmodified : Kept (fun _ => ()) k₁ k₂ := Kept.modifyTask hmod fun _ => rfl
    have hstatus : ∀ b, k₃.status b = k₁.status b := fun b =>
      (hadded.status Task.status (fun _ => rfl) b).trans (modifyTask_status hmod (fun _ => rfl) b)
    have hseed : (t.state, t.waitState) = (.uninit, WT_NOTWAIT) :=
      congrArg (fun x => (x.2.1, x.2.2.1)) hforking.seed
    have hself : k₃.status a = some (.uninit, WT_NOTWAIT) := by
      rw [hstatus a, status_eq_some hforking.self, hseed]
    refine ⟨?_, ?_, Or.inr ⟨a, hforking.fresh, ?_, ?_⟩⟩
    · rw [hcurrent, addTask_current hadd, modifyTask_current hmod]
      exact hforking.currentTask
    · rw [(wakeupTask_kept hwake).idleTask, hadded.idleTask]
      exact hmodified.idleTask.trans hforking.idleTask
    · rcases hcases with ⟨hbefore, -⟩ | ⟨-, hafter⟩
      · rw [hself] at hbefore
        simp at hbefore
      · exact hafter
    · intro b hb
      rw [hothers b hb, hstatus b]
      exact congrArg (Option.map Task.status) (hforking.others b hb)

/-- The end of `do_wait`: one task less. -/
theorem reap_status {codeStore : U32} {res : WaitResult} (hcall : reap k a codeStore = .ok (res, k')) :
    k'.currentTask = k.currentTask ∧ k'.idleTask = k.idleTask ∧ a ≠ k.idleTask ∧ k'.tasks a = none ∧
      ∀ b, b ≠ a → k'.status b = k.status b := by
  obtain ⟨t, k₁, s₂, s₄, hidle, -, -, hdel, -, -, -, rfl⟩ := reap_eq hcall
  have hkept := delTask_kept hdel
  have hcurrent : k₁.currentTask = k.currentTask := delTask_current hdel
  refine ⟨hcurrent, hkept.idleTask, hidle, Function.update_self .., ?_⟩
  intro b hb
  calc
    Kernel.status { k₁ with machine := s₄, tasks := Function.update k₁.tasks a none } b = k₁.status b :=
      congrArg (Option.map Task.status) (Function.update_of_ne hb _ _)
    _ = k.status b := hkept.status Task.status (fun _ => rfl) b

/-- When `initTask` is done, every task can run. -/
theorem initTask_status {lo hi : Nat} {m₀ : Pmm} {used : List Extent} {image : KernelImage} {m : Machine}
    {arg : U32} (hledger : Ledger lo hi m₀ m used) (hcall : initTask image m arg = .ok k) {x : TaskState × U32}
    (hx : k.status a = some x) : x = (.runnable, WT_NOTWAIT) := by
  obtain ⟨idle, files, k₁, k₂, ret, init, halone, hfork, -, -, rfl⟩ := initTask_cases hledger hcall
  obtain ⟨used₁, hinv⟩ := halone.inv
  have halone' : ∀ b x, k₁.status b = some x → x = (.runnable, WT_NOTWAIT) := by
    intro b x hb
    unfold Kernel.status at hb
    rw [halone.tasks] at hb
    by_cases hidle : b = idle
    · rw [hidle, Function.update_self] at hb
      exact (Option.some.inj hb).symm
    · rw [Function.update_of_ne hidle] at hb
      simp at hb
  have hx₂ : k₂.status a = some x := hx
  obtain ⟨-, -, hsame | ⟨b, -, hnew, hothers⟩⟩ := doFork_status hinv hfork
  · exact halone' a x ((hsame a).symm.trans hx₂)
  · by_cases hab : a = b
    · rw [hab, hnew] at hx₂
      exact (Option.some.inj hx₂).symm
    · exact halone' a x ((hothers a hab).symm.trans hx₂)

end Status

end Krnl
end FreakOS
