import FreakOS.Krnl.Family
import FreakOS.Krnl.Semaphores

/-!
# The process tree under preemption

* `WaitInv` — who waits for a child is asleep in `do_wait`; this holds in every run.
* `SafeStep` — a step in which the timer does not come between `state = TASK_ZOMBIE` and the section of `do_exit` without
  interrupts.
* `TreeInv` — in runs of such steps: the tree of `Family`, zombies without children, and `init_task` above all others.
* `process_tree`, `exit_hands_over` — what that means for the pointers and for a task that exits.  A timer interrupt at the
  wrong place breaks both (`process_tree_lost_child`, `exit_frozen`).
-/

namespace FreakOS
namespace Krnl

open Lib
open Memory
open FreakOS.Krnl.System

/-- What a task that waits for a child looks like: its status, where it goes on, and if it runs. -/
def WaitOk (status : Option (TaskState × U32)) (pc : Pc) (runs : Prop) : Prop :=
  (∀ st, status = some (st, WT_CHILD) → st = .sleeping ∧
    ∃ pid codeStore, pc = .waitSched pid codeStore ∨ (pc = .waitWoken pid codeStore ∧ ¬ runs)) ∧
  ∀ pid codeStore, pc = .waitReason pid codeStore → ∃ ws, status = some (.sleeping, ws)

/-- The tasks in `do_wait`. -/
def WaitInv (s : System) : Prop := ∀ a, WaitOk (s.kernel.status a) (s.pc a) (a = s.current)

section Wait

variable {s s' : System} {saved : Context}

/-- A task that waits for nothing. -/
theorem WaitOk.of_ne {status : Option (TaskState × U32)} {pc : Pc} {runs : Prop}
    (hws : ∀ st, status ≠ some (st, WT_CHILD)) (hpc : ∀ pid codeStore, pc ≠ .waitReason pid codeStore) :
    WaitOk status pc runs :=
  ⟨fun st hst => absurd hst (hws st), fun pid codeStore heq => absurd heq (hpc pid codeStore)⟩

theorem WaitOk.woken {pc : Pc} {runs : Prop} (hpc : ∀ pid codeStore, pc ≠ .waitReason pid codeStore) :
    WaitOk (some (.runnable, WT_NOTWAIT)) pc runs := by
  refine .of_ne (fun st hst => ?_) hpc
  have hws : WT_NOTWAIT = WT_CHILD := congrArg Prod.snd (Option.some.inj hst)
  exact absurd hws (by decide)

theorem WaitOk.mono {status : Option (TaskState × U32)} {pc : Pc} {runs runs' : Prop} (h : WaitOk status pc runs)
    (hruns : runs' → runs) : WaitOk status pc runs' := by
  refine ⟨fun st hst => ?_, h.2⟩
  obtain ⟨hsleep, pid, codeStore, hpc | ⟨hpc, hnot⟩⟩ := h.1 st hst
  · exact ⟨hsleep, pid, codeStore, Or.inl hpc⟩
  · exact ⟨hsleep, pid, codeStore, Or.inr ⟨hpc, fun hr => hnot (hruns hr)⟩⟩

/-- A task that has come to the `schedule` of `do_wait`. -/
theorem WaitOk.waits (pid codeStore : U32) {runs : Prop} :
    WaitOk (some (.sleeping, WT_CHILD)) (.waitSched pid codeStore) runs := by
  refine ⟨fun st hst => ⟨?_, pid, codeStore, Or.inl rfl⟩, fun _ _ heq => by simp at heq⟩
  exact (congrArg Prod.fst (Option.some.inj hst)).symm

/-- The task may have been woken up by a child that exits. -/
theorem WaitOk.mayWake {x y : Option (TaskState × U32)} {pc : Pc} {runs : Prop} (h : WaitOk x pc runs)
    (hwake : MayWake x y) : WaitOk y pc runs := by
  rcases hwake with rfl | ⟨⟨st, -, hchild⟩, rfl⟩
  · exact h
  · refine .woken fun pid codeStore heq => ?_
    obtain ⟨-, pid', codeStore', hpc | ⟨hpc, -⟩⟩ := h.1 st hchild
    · rw [heq] at hpc
      simp at hpc
    · rw [heq] at hpc
      simp at hpc

namespace WaitInv

/-- The running task is at a place where it does not wait for a child. -/
theorem not_child (h : WaitInv s) (hsched : ∀ pid codeStore, s.pc s.current ≠ .waitSched pid codeStore) (st : TaskState) :
    s.kernel.status s.current ≠ some (st, WT_CHILD) := by
  intro hst
  obtain ⟨-, pid, codeStore, hpc | ⟨-, hnot⟩⟩ := (h s.current).1 st hst
  · exact hsched pid codeStore hpc
  · exact hnot rfl

/-- The running task does something for itself and may wake up others. -/
theorem act (h : WaitInv s) (hcurrent : s'.current = s.current)
    (hothers : ∀ a, a ≠ s.current → s'.pc a = s.pc a ∧ MayWake (s.kernel.status a) (s'.kernel.status a))
    (hself : WaitOk (s'.kernel.status s.current) (s'.pc s.current) True) : WaitInv s' := by
  intro a
  rw [hcurrent]
  by_cases ha : a = s.current
  · subst ha
    exact hself.mono fun _ => trivial
  · obtain ⟨hpc, hwake⟩ := hothers a ha
    rw [hpc]
    exact (h a).mayWake hwake

/-- The running task goes on at `pc`. -/
theorem move (h : WaitInv s) {k : Kernel} (hk : Acted s.kernel k) {pc : Pc}
    (hself : WaitOk (k.status s.current) pc True) : WaitInv ((s.setKernel k).goto k.currentTask pc) := by
  have hcurrent : k.currentTask = s.current := hk.current
  rw [hcurrent]
  refine h.act hcurrent (fun a ha => ⟨goto_pc_of_ne _ _ ha, hk.others a ha⟩) ?_
  rw [goto_pc_self]
  exact hself

/-- The same, when it does not wait for a child afterwards. -/
theorem goTo (h : WaitInv s) {pc : Pc} (hsched : ∀ pid codeStore, s.pc s.current ≠ .waitSched pid codeStore)
    (hpc : ∀ pid codeStore, pc ≠ .waitReason pid codeStore) : WaitInv (s.goto s.current pc) :=
  h.move (.of_roused (.refl _)) (.of_ne (h.not_child hsched) hpc)

/-- The scheduler runs, and the task that called it goes on at `pc`. -/
theorem switch (h : WaitInv s) (hidle : s.pc s.kernel.idleTask = .run) {k : Kernel} (hk : Switched s.kernel k) {pc : Pc}
    (hself : WaitOk (s.kernel.status s.current) pc (s.current = k.currentTask)) :
    WaitInv ((s.goto s.current pc).setKernel k) := by
  intro a
  have hstatus : (((s.goto s.current pc).setKernel k).kernel).status a = s.kernel.status a := hk.status a
  rw [hstatus]
  by_cases ha : a = s.current
  · subst ha
    rw [setKernel_pc, goto_pc_self]
    exact hself
  · rw [setKernel_pc, goto_pc_of_ne _ _ ha]
    refine ⟨fun st hst => ?_, (h a).2⟩
    obtain ⟨hsleep, pid, codeStore, hpc⟩ := (h a).1 st hst
    refine ⟨hsleep, pid, codeStore, hpc.imp_right fun hwoken => ⟨hwoken.1, ?_⟩⟩
    -- A task that sleeps does not get the CPU.
    refine hk.ne_current ha ?_ fun ws hready => ?_
    · rintro rfl
      rw [hidle] at hwoken
      simp at hwoken
    · rw [hst, hsleep] at hready
      simp at hready

theorem tick (h : WaitInv s) (hidle : s.pc s.kernel.idleTask = .run) {k : Kernel} (hk : Switched s.kernel k) :
    WaitInv (s.setKernel k) := by
  have hself : s.goto s.current (s.pc s.current) = s := by
    unfold System.goto
    rw [Function.update_eq_self]
  have hswitch := h.switch hidle hk ((h s.current).mono fun _ => rfl)
  rwa [hself] at hswitch

/-- Tasks are woken up, or appear, and every task stays where it is. -/
theorem wakes (h : WaitInv s) (hpc : s'.pc = s.pc) (hcurrent : s'.current = s.current)
    (hstatus : ∀ a, s'.kernel.status a = s.kernel.status a ∨
      s'.kernel.status a = some (.runnable, WT_NOTWAIT) ∧ ∀ pid codeStore, s.pc a ≠ .waitReason pid codeStore) :
    WaitInv s' := by
  intro a
  rw [hpc, hcurrent]
  rcases hstatus a with hsame | ⟨hwoken, hplace⟩
  · rw [hsame]
    exact h a
  · rw [hwoken]
    exact .woken hplace

/-- The running task goes to sleep for something else than a child. -/
theorem sleeps (h : WaitInv s) {k : Kernel} {g : Task → Task} {pc : Pc}
    (hmod : s.kernel.modifyTask s.current g = .ok k) (hws : ∀ t, (g t).waitState ≠ WT_CHILD)
    (hkernel : s'.kernel = k) (hgo : s'.pc = Function.update s.pc k.currentTask pc)
    (hpc : ∀ pid codeStore, pc ≠ .waitReason pid codeStore) : WaitInv s' := by
  have hcurrent : k.currentTask = s.current := modifyTask_current hmod
  rw [hcurrent] at hgo
  subst hkernel
  refine h.act hcurrent (fun a ha => ⟨?_, Or.inl (modifyTask_status_of_ne hmod ha)⟩) ?_
  · rw [hgo, Function.update_of_ne ha]
  · obtain ⟨t, -, hset⟩ := modifyTask_eq_ok.mp hmod
    rw [hgo, Function.update_self, ← hset]
    refine .of_ne (fun st hst => ?_) hpc
    rw [setTask_status_self] at hst
    exact hws t (congrArg Prod.snd (Option.some.inj hst))

/-- A task in a queue is not in `do_wait`. -/
theorem not_waitReason (hqueues : QueuesInv s) {point : WaitPoint} {a : U32} (ha : a ∈ s.queue point)
    (pid codeStore : U32) : s.pc a ≠ .waitReason pid codeStore := by
  intro heq
  have hplace := hqueues.place point a ha
  rw [heq] at hplace
  simp [Pc.waitPoint] at hplace

/-- The running task has released a child. -/
theorem reaps (h : WaitInv s) {k : Kernel} {task : U32} (hcurrent : k.currentTask = s.current)
    (hgone : k.tasks task = none) (hothers : ∀ b, b ≠ task → k.status b = s.kernel.status b)
    (hplace : ∀ st, s.kernel.status s.current ≠ some (st, WT_CHILD)) :
    WaitInv (((s.setKernel k).goto task .run).goto s.current .run) := by
  have hnone : k.status task = none := congrArg (Option.map Task.status) hgone
  intro a
  by_cases hcur : a = s.current
  · subst hcur
    rw [goto_pc_self]
    refine .of_ne (fun st hst => ?_) (by simp)
    by_cases htask : s.current = task
    · rw [← htask] at hnone
      exact absurd (hnone.symm.trans hst) (by simp)
    · exact hplace st ((hothers _ htask).symm.trans hst)
  · rw [goto_pc_of_ne _ _ hcur]
    by_cases htask : a = task
    · subst htask
      rw [goto_pc_self]
      refine .of_ne (fun st hst => ?_) (by simp)
      exact absurd (hnone.symm.trans hst) (by simp)
    · rw [goto_pc_of_ne _ _ htask]
      have hsame : k.status a = s.kernel.status a := hothers a htask
      exact (hsame.symm ▸ h a).mono fun heq => heq.trans hcurrent

/-- One step. -/
theorem step {lo hi : Nat} {m₀ : Pmm} {act : Act} (h : WaitInv s) (hbase : SysBase lo hi m₀ s) (hqueues : QueuesInv s)
    (hstep : Stepped s saved act s') : WaitInv s' := by
  obtain ⟨⟨used, hk⟩, hrun⟩ := hbase
  have hidle := hqueues.idle
  have hsched : ∀ {pc : Pc}, s.pc s.current = pc → (∀ pid codeStore, pc ≠ .waitSched pid codeStore) → ∀ st,
      s.kernel.status s.current ≠ some (st, WT_CHILD) := by
    rintro pc rfl hpc
    exact h.not_child hpc
  have hgo : ∀ {pc pc' : Pc}, s.pc s.current = pc → (∀ pid codeStore, pc ≠ .waitSched pid codeStore) →
      (∀ pid codeStore, pc' ≠ .waitReason pid codeStore) → WaitInv (s.goto s.current pc') := by
    rintro pc pc' rfl hpc hpc'
    exact h.goTo hpc hpc'
  have hsleep : ∀ {pc pc' : Pc} {k : Kernel}, s.pc s.current = pc → (∀ pid codeStore, pc ≠ .waitSched pid codeStore) →
      (∀ pid codeStore, pc' ≠ .waitReason pid codeStore) → schedule s.kernel saved = .ok k →
      WaitInv ((s.goto s.current pc').setKernel k) := by
    intro pc pc' k hpc hne hpc' hcall
    exact h.switch hidle (switched_of_schedule hrun hk.null hcall) (.of_ne (hsched hpc hne) hpc')
  -- The running task has become a zombie and may have woken up others.
  have hexit : ∀ {pc pc' : Pc} {k : Kernel}, s.pc s.current = pc → (∀ pid codeStore, pc ≠ .waitSched pid codeStore) →
      (∀ pid codeStore, pc' ≠ .waitReason pid codeStore) → Acted s.kernel k →
      (∀ st, k.status s.current = some (st, WT_CHILD) → ∃ st', s.kernel.status s.current = some (st', WT_CHILD)) →
      WaitInv ((s.setKernel k).goto k.currentTask pc') := by
    intro pc pc' k hpc hne hpc' hacted hws
    refine h.move hacted (.of_ne (fun st hst => ?_) hpc')
    obtain ⟨st', hst'⟩ := hws st hst
    exact hsched hpc hne st' hst'
  have htick : ∀ {k₁ k : Kernel} {pc : Pc}, WaitInv ((s.setKernel k₁).goto k₁.currentTask pc) → Acted s.kernel k₁ →
      s.pc s.current ≠ .run → Relation.ReflTransGen QueueStep s.kernel k₁ → timerCallBack k₁ saved = .ok k →
      WaitInv ((s.goto k₁.currentTask pc).setKernel k) := by
    intro k₁ k pc h₁ hacted hne hsteps hcall
    obtain ⟨⟨used₁, hk₁⟩, hrun₁⟩ := queueSteps_inv hsteps ⟨⟨used, hk⟩, hrun⟩
    refine h₁.tick ?_ (switched_of_timer hrun₁ hk₁.null hcall)
    have hcur : k₁.idleTask ≠ k₁.currentTask := by
      rw [hacted.idle, hacted.current]
      intro heq
      exact hne ((congrArg s.pc heq).symm.trans hidle)
    exact (goto_pc_of_ne _ pc hcur).trans (hacted.idle ▸ hidle)
  cases hstep with
  | tick hcall => exact h.tick hidle (switched_of_timer hrun hk.null hcall)
  | keyboard hcall =>
      obtain ⟨⟨k, flags, rfl⟩, hcurrent, -, hothers, hstatus⟩ := wakeupLoop_spec hcall
      refine h.wakes rfl hcurrent fun a => ?_
      by_cases ha : a ∈ s.stdinQueue
      · rcases hstatus a with hsame | hwoken
        · exact Or.inl hsame
        · exact Or.inr ⟨hwoken, not_waitReason hqueues (show a ∈ s.queue .stdin from ha)⟩
      · exact Or.inl (hothers a ha).1
  | yield hpc hcall => exact h.tick hidle (switched_of_schedule hrun hk.null hcall)
  | fork hpc hcur hcall =>
      obtain ⟨hcurrent, -, hstatus⟩ := doFork_status hk hcall
      refine h.wakes rfl hcurrent fun a => ?_
      rcases hstatus with hsame | ⟨b, hfresh, hnew, hothers⟩
      · exact Or.inl (hsame a)
      · by_cases hab : a = b
        · subst hab
          refine Or.inr ⟨hnew, fun pid codeStore heq => ?_⟩
          obtain ⟨ws, hws⟩ := (h a).2 pid codeStore heq
          simp [Kernel.status, hfresh] at hws
        · exact Or.inl (hothers a hab)
  | exit hpc hcur hcall =>
      rw [hk.exitMm hcall]
      exact hgo hpc (by simp) (by simp)
  | wait hpc hcur =>
      unfold System.waitStart
      split
      · exact h
      · exact hgo hpc (by simp) (by simp)
  | acquire hpc hcur hvalue => exact h.wakes rfl rfl fun _ => Or.inl rfl
  | acquireSleep hpc hcur hvalue hcall =>
      obtain ⟨k, hmod, rfl⟩ := down_eq_ok hvalue hcall
      exact h.sleeps hmod (fun _ => show WT_KSEM ≠ WT_CHILD by decide) rfl rfl (by simp)
  | @release sem _ hpc hcur hcall =>
      rcases up_eq_ok hcall with ⟨-, rfl⟩ | ⟨a, rest, k, hqueue, hwake, rfl⟩
      · exact h.wakes rfl rfl fun _ => Or.inl rfl
      · obtain ⟨hcurrent, hothers, ws, hcases⟩ := wakeupTask_status hwake
        refine h.wakes rfl hcurrent fun b => ?_
        by_cases hba : b = a
        · subst hba
          rcases hcases with ⟨hbefore, hafter⟩ | ⟨-, hafter⟩
          · exact Or.inl (hafter.trans hbefore.symm)
          · have hmem : b ∈ s.queue (.sem sem) := by
              rw [System.queue, hqueue]
              exact List.mem_cons_self
            exact Or.inr ⟨hafter, not_waitReason hqueues hmem⟩
        · exact Or.inl (hothers b hba)
  | readStdin hpc hcur hcall =>
      obtain ⟨k, hmod, rfl⟩ := stdinSleep_eq_ok hcall
      exact h.sleeps hmod (fun _ => show WT_KBD ≠ WT_CHILD by decide) rfl rfl (by simp)
  | downSched hpc hcall => exact hsleep hpc (by simp) (by simp) hcall
  | downWoken hpc hcall =>
      obtain ⟨-, rfl⟩ := downWoken_eq_ok hcall
      have hgone : WaitInv (s.goto s.current .run) := hgo hpc (by simp) (by simp)
      exact hgone.wakes rfl rfl fun _ => Or.inl rfl
  | stdinSched hpc hcall => exact hsleep hpc (by simp) (by simp) hcall
  | stdinWoken hpc =>
      have hgone : WaitInv (s.goto s.current .run) := hgo hpc (by simp) (by simp)
      exact hgone.wakes rfl rfl fun _ => Or.inl rfl
  | exitMark hpc hmark hcode hcall =>
      have hmarked := Acted.modifyTask hmark fun _ => Or.inr rfl
      have hcoded := Acted.modifyTask hcode fun _ => Or.inr rfl
      refine hexit hpc (by simp) (by simp) ((hmarked.trans hcoded).trans (.of_roused (.handOver hcall))) fun st hst => ?_
      obtain ⟨st₂, hst₂⟩ := Roused.child (.handOver hcall) st hst
      rw [← show _ = s.current from hmarked.current] at hst₂
      obtain ⟨st₁, hst₁⟩ := modifyTask_child hcode (fun _ => rfl) st₂ hst₂
      rw [show _ = s.current from hmarked.current] at hst₁
      exact modifyTask_child hmark (fun _ => rfl) st₁ hst₁
  | exitCode hpc hcode hcall =>
      have hcoded := Acted.modifyTask hcode fun _ => Or.inr rfl
      refine hexit hpc (by simp) (by simp) (hcoded.trans (.of_roused (.handOver hcall))) fun st hst => ?_
      obtain ⟨st₁, hst₁⟩ := Roused.child (.handOver hcall) st hst
      exact modifyTask_child hcode (fun _ => rfl) st₁ hst₁
  | exitSection hpc hcall =>
      exact hexit hpc (by simp) (by simp) (.of_roused (.handOver hcall)) (Roused.child (.handOver hcall))
  | exitSched hpc hcall hreturn => exact hsleep hpc (by simp) (by simp) hcall
  | waitChild hpc hpid hcall =>
      unfold System.waitNone
      refine hgo hpc (by simp) ?_
      split <;> simp
  | waitFirst hpc ht => exact hgo hpc (by simp) (by simp)
  | waitEnd hpc =>
      unfold System.waitNone
      refine hgo hpc (by simp) ?_
      split <;> simp
  | waitRound hpc ht hstate => exact hgo hpc (by simp) (by simp)
  | @reap codeStore task t res k hpc ht hstate hcall =>
      obtain ⟨hcurrent, -, -, hgone, hothers⟩ := reap_status hcall
      have hplace : ∀ st, s.kernel.status s.current ≠ some (st, WT_CHILD) := by
        rcases hpc with ⟨pid, haskid, hpc, -⟩ | ⟨haskid, hpc⟩
        · exact hsched hpc (by simp)
        · exact hsched hpc (by simp)
      exact h.reaps hcurrent hgone hothers hplace
  | waitMark hpc hmark hcall =>
      have hmarked := Acted.modifyTask hmark fun _ => Or.inr rfl
      have hreason := Acted.modifyTask hcall fun _ => Or.inl rfl
      refine h.move (hmarked.trans hreason) ?_
      have hcur : _ = s.current := hmarked.current
      rw [hcur] at hcall
      obtain ⟨t, ht, rfl⟩ := modifyTask_eq_ok.mp hmark
      rw [waitReason_status hcall setTask_status_self]
      exact .waits _ _
  | waitReason hpc hcall =>
      obtain ⟨ws, hws⟩ := (h s.current).2 _ _ hpc
      refine h.move (Acted.modifyTask hcall fun _ => Or.inl rfl) ?_
      rw [waitReason_status hcall hws]
      exact .waits _ _
  | @waitSched pid codeStore k hpc hcall =>
      refine h.switch hidle (switched_of_schedule hrun hk.null hcall) ⟨fun st hst => ?_, fun _ _ heq => by simp at heq⟩
      have hasleep := ((h s.current).1 st hst).1
      refine ⟨hasleep, pid, codeStore, Or.inr ⟨rfl, ?_⟩⟩
      refine schedule_ne_current hrun hk.null hcall ?_ fun ws hready => ?_
      · intro heq
        rw [heq, hidle] at hpc
        simp at hpc
      · rw [hst, hasleep] at hready
        simp at hready
  | waitWoken hpc ht hflags => exact hgo hpc (by simp) (by simp)
  | waitKilled hpc ht hflags hcur hcall =>
      rw [hk.exitMm hcall]
      exact hgo hpc (by simp) (by simp)
  | tickInExit hpc hmark hcall =>
      have hmarked := Acted.modifyTask hmark fun _ => Or.inr rfl
      refine htick (hexit hpc (by simp) (by simp) hmarked ?_) hmarked (by simp [hpc]) (.single (.markZombie hmark)) hcall
      exact modifyTask_child hmark fun _ => rfl
  | tickBeforeSection hpc hmark hcode hcall =>
      have hmarked := Acted.modifyTask hmark fun _ => Or.inr rfl
      have hcoded := Acted.modifyTask hcode fun _ => Or.inr rfl
      refine htick (hexit hpc (by simp) (by simp) (hmarked.trans hcoded) fun st hst => ?_) (hmarked.trans hcoded)
        (by simp [hpc]) (.tail (.single (.markZombie hmark)) (.storeExitCode hcode)) hcall
      rw [← show _ = s.current from hmarked.current] at hst
      obtain ⟨st₁, hst₁⟩ := modifyTask_child hcode (fun _ => rfl) st hst
      rw [show _ = s.current from hmarked.current] at hst₁
      exact modifyTask_child hmark (fun _ => rfl) st₁ hst₁
  | tickInWait hpc hmark hcall =>
      have hmarked := Acted.modifyTask hmark fun _ => Or.inr rfl
      refine htick (h.move hmarked ?_) hmarked (by simp [hpc]) (.single (.markSleeping hmark)) hcall
      obtain ⟨t, ht, heq⟩ := modifyTask_eq_ok.mp hmark
      refine ⟨fun st hst => ?_, fun _ _ _ => ⟨t.waitState, ?_⟩⟩
      · obtain ⟨st', hst'⟩ := modifyTask_child hmark (fun _ => rfl) st hst
        exact absurd hst' (hsched hpc (by simp) st')
      · rw [← heq, setTask_status_self]
        rfl

end WaitInv

end Wait

/-! ### Steps that leave the tree alone -/

/-- The tree and the list of tasks are as before, and nobody has become a zombie. -/
structure Calm (k k' : Kernel) : Prop where
  list : SameList k k'
  nodes : k'.nodes = k.nodes
  zombie : ∀ a ws, k'.status a = some (.zombie, ws) → ∃ ws', k.status a = some (.zombie, ws')

namespace Calm

variable {k k' k'' : Kernel}

theorem refl (k : Kernel) : Calm k k := ⟨⟨rfl, rfl, rfl, rfl⟩, rfl, fun _ ws h => ⟨ws, h⟩⟩

theorem trans (h₁ : Calm k k') (h₂ : Calm k' k'') : Calm k k'' := by
  refine ⟨⟨h₂.list.taskList.trans h₁.list.taskList, h₂.list.taskCount.trans h₁.list.taskCount,
    h₂.list.idleTask.trans h₁.list.idleTask, h₂.list.initTask.trans h₁.list.initTask⟩,
    h₂.nodes.trans h₁.nodes, ?_⟩
  intro a ws h
  obtain ⟨ws', h'⟩ := h₂.zombie a ws h
  exact h₁.zombie a ws' h'

theorem of_still (h : Kept Task.still k k') : Calm k k' :=
  ⟨h.sameList, h.nodes Task.node fun _ => rfl, fun a ws hz => ⟨ws, (still_status h a).symm.trans hz⟩⟩

theorem wakeupTask {a : U32} (hcall : wakeupTask k a = .ok k') : Calm k k' := by
  refine ⟨(wakeupTask_kept hcall).sameList, wakeupTask_nodes hcall, ?_⟩
  obtain ⟨-, hothers, ws', hcases⟩ := wakeupTask_status hcall
  intro b ws hz
  by_cases hb : b = a
  · subst hb
    rcases hcases with ⟨-, hafter⟩ | ⟨-, hafter⟩
    · rw [hafter] at hz
      simp at hz
    · rw [hafter] at hz
      simp at hz
  · exact ⟨ws, (hothers b hb).symm.trans hz⟩

theorem modifyTask {a : U32} {g : Task → Task} (hcall : k.modifyTask a g = .ok k') (hnode : ∀ t, (g t).node = t.node)
    (hstate : ∀ t, (g t).state = .zombie → t.state = .zombie) : Calm k k' := by
  refine ⟨(Kept.modifyTask (f := fun _ => ()) hcall fun _ => rfl).sameList, modifyTask_nodes_eq hcall hnode, ?_⟩
  intro b ws hz
  by_cases hb : b = a
  · subst hb
    obtain ⟨t, ht, rfl⟩ := modifyTask_eq_ok.mp hcall
    rw [setTask_status_self] at hz
    have hzombie := hstate t (congrArg Prod.fst (Option.some.inj hz))
    exact ⟨t.waitState, by rw [status_eq_some ht, hzombie]⟩
  · exact ⟨ws, (modifyTask_status_of_ne hcall hb).symm.trans hz⟩

theorem sleep {a : U32} {g : Task → Task} (hcall : k.modifyTask a g = .ok k') (hnode : ∀ t, (g t).node = t.node)
    (hstate : ∀ t, (g t).state = .sleeping) : Calm k k' :=
  modifyTask hcall hnode fun t hz => absurd ((hstate t).symm.trans hz) (by simp)

theorem wakeupLoop {flags : U32} {queue : List U32} {s s' : System} (hcall : wakeupLoop flags queue s = .ok s') :
    Calm s.kernel s'.kernel := by
  induction queue generalizing s with
  | nil =>
      obtain rfl := Except.ok.inj hcall
      exact refl _
  | cons a rest ih =>
      obtain ⟨s₁, hwait, hcall⟩ := Res.bind_eq_ok.mp hcall
      obtain ⟨k, hwake, rfl⟩ := wakeupWait_eq_ok hwait
      exact (wakeupTask hwake).trans (ih hcall)

/-- The same tasks are alive. -/
theorem isSome (h : Calm k k') (a : U32) : (k'.tasks a).isSome = (k.tasks a).isSome := by
  rw [← nodes_isSome, ← nodes_isSome, h.nodes]

end Calm

/-! ### The tree -/

/-- The timer interrupt comes between `state = TASK_ZOMBIE` and `intr_save` in `do_exit`. -/
def System.Act.InExit : Act → Prop
  | .tickInExit => True
  | .tickBeforeSection => True
  | _ => False

/-- The tree, and `rank`, which grows from a parent to its children. -/
structure TreeInv (s : System) (kids : U32 → List U32) (rank : U32 → Nat) : Prop where
  family : Family s.kernel kids
  zombie : ∀ a ws, s.kernel.status a = some (.zombie, ws) →
    kids a = [] ∧ (s.pc a = .exitSched ∨ s.pc a = .exited)
  place : ∀ a, (∀ errCode, s.pc a ≠ .exitCode errCode) ∧ s.pc a ≠ .exitSection
  rank_lt : ∀ p a, a ∈ kids p → a ≠ s.kernel.initTask →
    p ≠ s.kernel.idleTask ∧ rank p < rank a ∧ rank s.kernel.initTask < rank a

section Tree

variable {s s' : System} {saved : Context} {kids : U32 → List U32} {rank : U32 → Nat}

namespace TreeInv

/-- A task at another place than the end of `do_exit` is no zombie. -/
theorem not_zombie (h : TreeInv s kids rank) {a : U32} {pc : Pc} (hpc : s.pc a = pc) (hsched : pc ≠ .exitSched)
    (hexited : pc ≠ .exited) (ws : U32) : s.kernel.status a ≠ some (.zombie, ws) := by
  intro hz
  subst hpc
  rcases (h.zombie a ws hz).2 with hpc | hpc
  · exact hsched hpc
  · exact hexited hpc

/-- If `init_task` has no child, there is no task but the two first ones. -/
theorem alone (h : TreeInv s kids rank) (hinit : kids s.kernel.initTask = []) {a : U32}
    (ha : (s.kernel.tasks a).isSome) : a = s.kernel.idleTask ∨ a = s.kernel.initTask := by
  by_contra hne
  rw [not_or] at hne
  -- The parent is such a task too, and has a smaller rank.
  have hnone : ∀ n a, rank a = n → (s.kernel.tasks a).isSome → a ≠ s.kernel.idleTask → a ≠ s.kernel.initTask → False := by
    intro n
    induction n using Nat.strong_induction_on with
    | _ n ih =>
        rintro a rfl ha hidle hninit
        obtain ⟨t, ht⟩ := Option.isSome_iff_exists.mp ha
        have hnode := nodes_eq_some ht
        have hnull : a ≠ NULL := by
          rintro rfl
          rw [h.family.forest.null_none] at hnode
          simp at hnode
        have hmem := h.family.forest.mem a _ hnode hidle hnull
        have hlive := h.family.forest.live _ a hmem
        rw [nodes_isSome] at hlive
        obtain ⟨hpidle, hlt, -⟩ := h.rank_lt _ a hmem hninit
        refine ih _ hlt _ rfl hlive hpidle ?_
        intro heq
        rw [heq, hinit] at hmem
        simp at hmem
  exact hnone _ a rfl ha hne.1 hne.2

/-- A step that leaves the tree alone. -/
theorem calm (h : TreeInv s kids rank) (hk : Calm s.kernel s'.kernel)
    (hlive : (s'.kernel.tasks s'.kernel.currentTask).isSome) (hothers : ∀ a, a ≠ s.current → s'.pc a = s.pc a)
    (hplace : (∀ errCode, s'.pc s.current ≠ .exitCode errCode) ∧ s'.pc s.current ≠ .exitSection)
    (hself : ∀ ws, s'.kernel.status s.current = some (.zombie, ws) →
      s'.pc s.current = .exitSched ∨ s'.pc s.current = .exited) : TreeInv s' kids rank := by
  refine ⟨h.family.frame hk.list hk.nodes hlive, ?_, ?_, ?_⟩
  · intro a ws hz
    obtain ⟨ws', hz'⟩ := hk.zombie a ws hz
    obtain ⟨hnil, hpc⟩ := h.zombie a ws' hz'
    refine ⟨hnil, ?_⟩
    by_cases ha : a = s.current
    · rw [ha] at hz ⊢
      exact hself ws hz
    · rw [hothers a ha]
      exact hpc
  · intro a
    by_cases ha : a = s.current
    · rw [ha]
      exact hplace
    · rw [hothers a ha]
      exact h.place a
  · rw [hk.list.idleTask, hk.list.initTask]
    exact h.rank_lt

/-- The same, when no task has moved. -/
theorem stay (h : TreeInv s kids rank) (hk : Calm s.kernel s'.kernel)
    (hlive : (s'.kernel.tasks s'.kernel.currentTask).isSome) (hpc : s'.pc = s.pc) : TreeInv s' kids rank := by
  refine h.calm hk hlive (fun a _ => congrFun hpc a) ?_ ?_
  · rw [hpc]
    exact h.place s.current
  · intro ws hz
    obtain ⟨ws', hz'⟩ := hk.zombie _ ws hz
    rw [hpc]
    exact (h.zombie _ ws' hz').2

/-- The same, when the running task, which is not at the end of `do_exit`, goes on at `pc'`. -/
theorem goTo (h : TreeInv s kids rank) {pc pc' : Pc} (hpc : s.pc s.current = pc) (hsched : pc ≠ .exitSched)
    (hexited : pc ≠ .exited) (hk : Calm s.kernel s'.kernel)
    (hlive : (s'.kernel.tasks s'.kernel.currentTask).isSome) (hgo : s'.pc = Function.update s.pc s.current pc')
    (hcode : ∀ errCode, pc' ≠ .exitCode errCode) (hsection : pc' ≠ .exitSection) : TreeInv s' kids rank := by
  have hself : s'.pc s.current = pc' := by rw [hgo, Function.update_self]
  refine h.calm hk hlive ?_ ?_ ?_
  · intro a ha
    rw [hgo, Function.update_of_ne ha]
  · rw [hself]
    exact ⟨hcode, hsection⟩
  · intro ws hz
    obtain ⟨ws', hz'⟩ := hk.zombie _ ws hz
    exact absurd hz' (h.not_zombie hpc hsched hexited ws')

/-- The child of a `do_fork` comes below the running task. -/
theorem fork {lo hi : Nat} {m₀ : Pmm} {used : List Extent} (h : TreeInv s kids rank)
    (hk : TaskInv lo hi m₀ s.kernel used) (hpc : s.pc s.current = .run) (hidle : s.current ≠ s.kernel.idleTask)
    {flags stack : U32} {frame : InterruptFrame} {ret : Int} {k : Kernel}
    (hcall : doFork s.kernel flags stack frame = .ok (ret, k)) : ∃ kids' rank', TreeInv (s.setKernel k) kids' rank' := by
  rcases doFork_forking hk hcall with ⟨-, ⟨m, mm, f, i, tf, rfl⟩, -⟩ | ⟨hcount, a, t, k₁, used₁, hforking, -, hpub⟩
  · exact ⟨kids, rank, h.calm ⟨⟨rfl, rfl, rfl, rfl⟩, rfl, fun _ ws hz => ⟨ws, hz⟩⟩
      h.family.current (fun _ _ => rfl) (h.place _) fun ws hz => (h.zombie _ ws hz).2⟩
  · have hfamily := h.family.publish hk hcount hforking hpub
    obtain ⟨-, hidle', hstatus⟩ := doFork_status hk hcall
    have hinit' : k.initTask = s.kernel.initTask := by
      obtain ⟨u, -, -, hkept⟩ := publish_kept hpub
      refine hkept.initTask.trans ?_
      obtain ⟨m, ts, mm, f, i, tf, rfl⟩ := hforking.frame
      rfl
    have hfresh : ∀ b, (s.kernel.tasks b).isSome → b ≠ a := by
      rintro b hb rfl
      simp [hforking.fresh] at hb
    have hcur : s.current ≠ a := hfresh _ h.family.current
    have hinit : s.kernel.initTask ≠ a := hfresh _ h.family.init_isSome
    have hnil : kids a = [] := h.family.forest.kids_of_none (congrArg (Option.map Task.node) hforking.fresh)
    refine ⟨_, Function.update rank a (rank s.current + 1), hfamily, ?_, h.place, ?_⟩
    · intro b ws hz
      have hz' : s.kernel.status b = some (.zombie, ws) := by
        rcases hstatus with hsame | ⟨c, -, hnew, hothers⟩
        · exact (hsame b).symm.trans hz
        · by_cases hbc : b = c
          · rw [hbc] at hz
            exact absurd (hnew.symm.trans hz) (by simp)
          · exact (hothers b hbc).symm.trans hz
      obtain ⟨hkids, hpc'⟩ := h.zombie b ws hz'
      refine ⟨?_, hpc'⟩
      have hbc : b ≠ s.current := by
        rintro rfl
        exact h.not_zombie hpc (by simp) (by simp) ws hz'
      exact (Function.update_of_ne hbc _ _).trans hkids
    · intro p b hb hbinit
      have hbinit' : b ≠ s.kernel.initTask := hinit' ▸ hbinit
      change p ≠ k.idleTask ∧ _ < _ ∧ Function.update rank a (rank s.current + 1) k.initTask < _
      rw [hidle', hinit', Function.update_of_ne hinit]
      have hbcases : (b = a ∧ p = s.current) ∨ b ∈ kids p := by
        by_cases hp : p = s.current
        · rw [hp, show s.current = s.kernel.currentTask from rfl, Function.update_self, List.mem_cons] at hb
          rcases hb with hb | hb
          · exact Or.inl ⟨hb, hp⟩
          · exact Or.inr (hp ▸ hb)
        · exact Or.inr ((Function.update_of_ne hp (a :: kids s.kernel.currentTask) kids) ▸ hb)
      rcases hbcases with ⟨rfl, rfl⟩ | hin
      · rw [Function.update_self, Function.update_of_ne hcur]
        refine ⟨hidle, by omega, ?_⟩
        by_cases hci : s.current = s.kernel.initTask
        · rw [hci]
          omega
        · obtain ⟨t', ht'⟩ := Option.isSome_iff_exists.mp h.family.current
          have hmem := h.family.forest.mem _ _ (nodes_eq_some ht') hidle fun heq => by
            rw [heq, hk.null] at ht'
            simp at ht'
          have := (h.rank_lt _ _ hmem hci).2.2
          change rank s.kernel.initTask < rank s.kernel.currentTask at this
          change rank s.kernel.initTask < rank s.kernel.currentTask + 1
          omega
      · have hba : b ≠ a := by
          rintro rfl
          obtain ⟨n, hn, -⟩ := h.family.forest.parent p b hin
          simp [Kernel.nodes, hforking.fresh] at hn
        have hpa : p ≠ a := by
          rintro rfl
          simp [hnil] at hin
        rw [Function.update_of_ne hba, Function.update_of_ne hpa]
        exact h.rank_lt p b hin hbinit'

/-- The running task has become a zombie. -/
theorem marked (h : TreeInv s kids rank) (hwait : WaitInv s) {errCode : Int} {k₁ k₂ : Kernel}
    (hpc : s.pc s.current = .exitMark errCode)
    (hmark : (s.kernel.modifyTask s.current fun t => { t with state := .zombie }) = .ok k₁)
    (hcode : (k₁.modifyTask k₁.currentTask fun t => { t with exitCode := errCode }) = .ok k₂) :
    Family k₂ kids ∧ SameList s.kernel k₂ ∧ k₂.currentTask = s.current ∧
      (∀ a, a ≠ s.current → k₂.status a = s.kernel.status a) ∧
      ∀ a st ws, k₂.status a = some (st, ws) → ws = WT_CHILD → st ≠ .zombie := by
  have hkept₁ : Kept Task.core s.kernel k₁ := Kept.modifyTask hmark fun _ => rfl
  have hkept : Kept Task.core s.kernel k₂ := hkept₁.trans (Kept.modifyTask hcode fun _ => rfl)
  have hcur₁ : k₁.currentTask = s.current := modifyTask_current hmark
  have hcur : k₂.currentTask = s.current := (modifyTask_current hcode).trans hcur₁
  rw [hcur₁] at hcode
  have hnodes : k₂.nodes = s.kernel.nodes :=
    (modifyTask_nodes_eq hcode fun _ => rfl).trans (modifyTask_nodes_eq hmark fun _ => rfl)
  have hothers : ∀ a, a ≠ s.current → k₂.status a = s.kernel.status a := fun a ha =>
    (modifyTask_status_of_ne hcode ha).trans (modifyTask_status_of_ne hmark ha)
  refine ⟨h.family.frame hkept.sameList hnodes ?_, hkept.sameList, hcur, hothers, ?_⟩
  · rw [hcur, hkept.isSome]
    exact h.family.current
  · rintro a st ws hstatus rfl
    by_cases ha : a = s.current
    · subst ha
      obtain ⟨st₁, hst₁⟩ := modifyTask_child hcode (fun _ => rfl) st hstatus
      obtain ⟨st₀, hst₀⟩ := modifyTask_child hmark (fun _ => rfl) st₁ hst₁
      exact absurd hst₀ (hwait.not_child (by simp [hpc]) st₀)
    · rw [hothers a ha] at hstatus
      rw [((hwait a).1 st hstatus).1]
      simp

/-- The tree after the loop of `do_exit`: the running task has no child, and at most `init_task` has new ones. -/
theorem exit_family {lo hi : Nat} {m₀ : Pmm} {used : List Extent} (h : TreeInv s kids rank) (hwait : WaitInv s)
    (hk : TaskInv lo hi m₀ s.kernel used) {errCode : Int} {k₁ k₂ k : Kernel}
    (hpc : s.pc s.current = .exitMark errCode) (hidle : s.current ≠ s.kernel.idleTask)
    (hmark : (s.kernel.modifyTask s.current fun t => { t with state := .zombie }) = .ok k₁)
    (hcode : (k₁.modifyTask k₁.currentTask fun t => { t with exitCode := errCode }) = .ok k₂)
    (hcall : handOver k₂ = .ok k) :
    Family k (adopted kids s.current s.kernel.initTask) ∧ (s.current = s.kernel.initTask → kids s.current = []) := by
  obtain ⟨hfamily, hlist, hcur, -, hwake⟩ := h.marked hwait hpc hmark hcode
  have hk₂ : TaskInv lo hi m₀ k₂ used := by
    have hkept₁ : Kept Task.core s.kernel k₁ := Kept.modifyTask hmark fun _ => rfl
    exact hk.kept (hkept₁.trans (Kept.modifyTask hcode fun _ => rfl))
  by_cases hci : s.current = s.kernel.initTask
  · obtain ⟨hnil, hfamily'⟩ := hfamily.handOver_init (by rw [hcur, hlist.initTask, hci]) hcall
    rw [hcur] at hnil
    rw [adopted_nil hnil]
    exact ⟨hfamily', fun _ => hnil⟩
  · obtain ⟨k', t, hcall', hfamily', -⟩ := hfamily.handOver hk₂ (by rw [hcur, hlist.initTask]; exact hci)
      (by rw [hcur, hlist.idleTask]; exact hidle) hwake
    obtain rfl := Except.ok.inj (hcall.symm.trans hcall')
    rw [hcur, hlist.initTask] at hfamily'
    exact ⟨hfamily', fun heq => absurd heq hci⟩

/-- A task that exits hands its children over. -/
theorem exit {lo hi : Nat} {m₀ : Pmm} {used : List Extent} (h : TreeInv s kids rank) (hwait : WaitInv s)
    (hk : TaskInv lo hi m₀ s.kernel used) {errCode : Int} {k₁ k₂ k : Kernel}
    (hpc : s.pc s.current = .exitMark errCode) (hidle : s.current ≠ s.kernel.idleTask)
    (hmark : (s.kernel.modifyTask s.current fun t => { t with state := .zombie }) = .ok k₁)
    (hcode : (k₁.modifyTask k₁.currentTask fun t => { t with exitCode := errCode }) = .ok k₂)
    (hcall : handOver k₂ = .ok k) :
    ∃ kids', TreeInv ((s.setKernel k).goto k.currentTask .exitSched) kids' rank := by
  obtain ⟨-, hlist, hcur, hothers, -⟩ := h.marked hwait hpc hmark hcode
  have hroused := Roused.handOver hcall
  have hkept := handOver_kept hcall
  have hcurrent : k.currentTask = s.current := hroused.current.trans hcur
  have hidle' : k.idleTask = s.kernel.idleTask := hkept.idleTask.trans hlist.idleTask
  have hinit' : k.initTask = s.kernel.initTask := hkept.initTask.trans hlist.initTask
  obtain ⟨hfamily', hinit⟩ := h.exit_family hwait hk hpc hidle hmark hcode hcall
  have hself : adopted kids s.current s.kernel.initTask s.current = [] := by
    by_cases hci : s.current = s.kernel.initTask
    · rw [adopted_nil (hinit hci), hinit hci]
    · exact adopted_self hci
  have hmem : ∀ p a, a ∈ adopted kids s.current s.kernel.initTask p →
      a ∈ kids p ∨ p = s.kernel.initTask ∧ a ∈ kids s.current := fun p a => mem_adopted
  refine ⟨_, hfamily', ?_, ?_, ?_⟩
  · intro a ws hz
    rw [hcurrent]
    by_cases ha : a = s.current
    · subst ha
      exact ⟨hself, Or.inl (goto_pc_self ..)⟩
    · have hwaked := hroused.status a
      have hz' : k.status a = some (.zombie, ws) := hz
      rw [hz', hothers a ha] at hwaked
      obtain ⟨hnil, hplace⟩ := h.zombie a ws hwaked.zombie
      refine ⟨?_, by rw [goto_pc_of_ne _ _ ha]; exact hplace⟩
      by_cases hai : a = s.kernel.initTask
      · -- `init_task` is no zombie as long as there are other tasks.
        rw [hai] at hnil
        rcases h.alone hnil h.family.current with heq | heq
        · exact absurd heq hidle
        · rw [adopted_nil (hinit heq), hai]
          exact hnil
      · exact (adopted_of_ne ha hai).trans hnil
  · intro a
    rw [hcurrent]
    by_cases ha : a = s.current
    · subst ha
      rw [goto_pc_self]
      simp
    · rw [goto_pc_of_ne _ _ ha]
      exact h.place a
  · intro p a ha hainit
    change p ≠ k.idleTask ∧ _ ∧ rank k.initTask < _
    have hainit' : a ≠ s.kernel.initTask := hinit' ▸ hainit
    rw [hidle', hinit']
    rcases hmem p a ha with hin | ⟨rfl, hin⟩
    · exact h.rank_lt p a hin hainit'
    · obtain ⟨-, -, hlt⟩ := h.rank_lt _ a hin hainit'
      exact ⟨h.family.init_ne_idle, hlt, hlt⟩

/-- A zombie is freed. -/
theorem reap {lo hi : Nat} {m₀ : Pmm} {used : List Extent} (h : TreeInv s kids rank)
    (hk : TaskInv lo hi m₀ s.kernel used) {a codeStore : U32} {t : Task} {res : WaitResult} {k : Kernel} {pc : Pc}
    (hpc : s.pc s.current = pc) (hsched : pc ≠ .exitSched) (hexited : pc ≠ .exited) (ht : s.kernel.tasks a = some t)
    (hstate : t.state = .zombie) (hcall : reap s.kernel a codeStore = .ok (res, k)) :
    ∃ kids', TreeInv (((s.setKernel k).goto a .run).goto s.current .run) kids' rank := by
  have hzombie : s.kernel.status a = some (.zombie, t.waitState) := by rw [status_eq_some ht, hstate]
  have hne : a ≠ s.current := by
    rintro rfl
    exact h.not_zombie hpc hsched hexited _ hzombie
  obtain ⟨hnil, -⟩ := h.zombie a _ hzombie
  have hfamily := h.family.reap hk ht hnil hne hcall
  obtain ⟨hcurrent, hidle', -, hgone, hothers⟩ := reap_status hcall
  have hinit' : k.initTask = s.kernel.initTask := by
    obtain ⟨t', k₁, s₂, s₄, -, -, -, hdel, -, -, -, rfl⟩ := reap_eq hcall
    exact (delTask_kept hdel).initTask
  have hsub : ∀ p b, b ∈ Function.update kids t.parent ((kids t.parent).erase a) p → b ∈ kids p := by
    intro p b hb
    by_cases hp : p = t.parent
    · rw [hp, Function.update_self] at hb
      exact hp ▸ List.mem_of_mem_erase hb
    · rwa [Function.update_of_ne hp] at hb
  refine ⟨_, hfamily, ?_, ?_, ?_⟩
  · intro b ws hz
    have hz' : k.status b = some (.zombie, ws) := hz
    have hba : b ≠ a := by
      rintro rfl
      simp [Kernel.status, hgone] at hz'
    rw [hothers b hba] at hz'
    obtain ⟨hnil', hplace⟩ := h.zombie b ws hz'
    refine ⟨?_, ?_⟩
    · rw [List.eq_nil_iff_forall_not_mem]
      intro c hc
      have hin := hsub b c hc
      simp [hnil'] at hin
    · have hbc : b ≠ s.current := by
        rintro rfl
        exact h.not_zombie hpc hsched hexited _ hz'
      rw [goto_pc_of_ne _ _ hbc, goto_pc_of_ne _ _ hba]
      exact hplace
  · intro b
    by_cases hbc : b = s.current
    · subst hbc
      rw [goto_pc_self]
      simp
    · rw [goto_pc_of_ne _ _ hbc]
      by_cases hba : b = a
      · subst hba
        rw [goto_pc_self]
        simp
      · rw [goto_pc_of_ne _ _ hba]
        exact h.place b
  · intro p b hb hbinit
    change p ≠ k.idleTask ∧ _ ∧ rank k.initTask < _
    have hbinit' : b ≠ s.kernel.initTask := hinit' ▸ hbinit
    rw [hidle', hinit']
    exact h.rank_lt p b (hsub p b hb) hbinit'

/-- One step. -/
theorem step {lo hi : Nat} {m₀ : Pmm} {act : Act} (h : TreeInv s kids rank) (hwait : WaitInv s)
    (hbase : SysBase lo hi m₀ s) (hqueues : QueuesInv s) (hstep : Stepped s saved act s') (hsafe : ¬ act.InExit) :
    ∃ kids' rank', TreeInv s' kids' rank' := by
  obtain ⟨⟨used, hk⟩, hrun⟩ := hbase
  have hlive := h.family.current
  have hself : ∀ {pc : Pc}, s.pc s.current = pc → pc ≠ .run → s.current ≠ s.kernel.idleTask := by
    rintro pc rfl hne heq
    exact hne ((congrArg s.pc heq).trans hqueues.idle)
  have hsame : ∀ {k : Kernel}, Calm s.kernel k → k.currentTask = s.kernel.currentTask →
      (k.tasks k.currentTask).isSome := by
    intro k hcalm hcurrent
    rw [hcurrent, hcalm.isSome]
    exact hlive
  -- The running task does something that changes neither the tree nor its own state.
  have hgo : ∀ {pc pc' : Pc} {s' : System}, s.pc s.current = pc → s'.kernel = s.kernel →
      s'.pc = Function.update s.pc s.current pc' → pc ≠ .exitSched → pc ≠ .exited →
      (∀ errCode, pc' ≠ .exitCode errCode) → pc' ≠ .exitSection → ∃ kids' rank', TreeInv s' kids' rank' := by
    intro pc pc' s' hpc hkernel hpc' hsched hexited hcode hsection
    refine ⟨kids, rank, h.goTo hpc hsched hexited ?_ ?_ hpc' hcode hsection⟩
    · rw [hkernel]
      exact .refl _
    · rw [hkernel]
      exact hlive
  -- It calls `schedule`.
  have hsleep : ∀ {pc pc' : Pc} {k : Kernel}, s.pc s.current = pc → schedule s.kernel saved = .ok k →
      pc ≠ .exitSched → pc ≠ .exited → (∀ errCode, pc' ≠ .exitCode errCode) → pc' ≠ .exitSection →
      ∃ kids' rank', TreeInv ((s.goto s.current pc').setKernel k) kids' rank' := by
    intro pc pc' k hpc hcall hsched hexited hcode hsection
    exact ⟨kids, rank, h.goTo hpc hsched hexited (.of_still (schedule_kept hcall))
      ((switched_of_schedule hrun hk.null hcall).live hk hlive) rfl hcode hsection⟩
  -- It goes to sleep.
  have hmark : ∀ {pc pc' : Pc} {g : Task → Task} {s' : System}, s.pc s.current = pc →
      s.kernel.modifyTask s.current g = .ok s'.kernel → (∀ t, (g t).node = t.node) → (∀ t, (g t).state = .sleeping) →
      s'.pc = Function.update s.pc s'.kernel.currentTask pc' → pc ≠ .exitSched → pc ≠ .exited →
      (∀ errCode, pc' ≠ .exitCode errCode) → pc' ≠ .exitSection → ∃ kids' rank', TreeInv s' kids' rank' := by
    intro pc pc' g s' hpc hmod hnode hstate hgoto hsched hexited hcode hsection
    have hcalm : Calm s.kernel s'.kernel := .sleep hmod hnode hstate
    have hcurrent : s'.kernel.currentTask = s.current := modifyTask_current hmod
    rw [hcurrent] at hgoto
    exact ⟨kids, rank, h.goTo hpc hsched hexited hcalm (hsame hcalm hcurrent) hgoto hcode hsection⟩
  cases hstep with
  | tick hcall =>
      exact ⟨kids, rank, h.stay (.of_still (timerCallBack_kept hcall))
        ((switched_of_timer hrun hk.null hcall).live hk hlive) rfl⟩
  | keyboard hcall =>
      have hcalm := Calm.wakeupLoop hcall
      obtain ⟨⟨k, flags, rfl⟩, hcurrent, -⟩ := wakeupLoop_spec hcall
      exact ⟨kids, rank, h.stay hcalm (hsame hcalm hcurrent) rfl⟩
  | yield hpc hcall =>
      exact ⟨kids, rank, h.stay (.of_still (schedule_kept hcall))
        ((switched_of_schedule hrun hk.null hcall).live hk hlive) rfl⟩
  | fork hpc hcur hcall => exact h.fork hk hpc hcur hcall
  | exit hpc hcur hcall =>
      obtain rfl := hk.exitMm hcall
      exact hgo hpc rfl rfl (by simp) (by simp) (by simp) (by simp)
  | wait hpc hcur =>
      unfold System.waitStart
      split
      · exact ⟨kids, rank, h⟩
      · exact hgo hpc rfl rfl (by simp) (by simp) (by simp) (by simp)
  | acquire hpc hcur hvalue => exact ⟨kids, rank, h.stay (.refl _) hlive rfl⟩
  | acquireSleep hpc hcur hvalue hcall =>
      obtain ⟨k, hmod, rfl⟩ := down_eq_ok hvalue hcall
      exact hmark hpc hmod (fun _ => rfl) (fun _ => rfl) rfl (by simp) (by simp) (by simp) (by simp)
  | release hpc hcur hcall =>
      rcases up_eq_ok hcall with ⟨-, rfl⟩ | ⟨a, rest, k, -, hwake, rfl⟩
      · exact ⟨kids, rank, h.stay (.refl _) hlive rfl⟩
      · exact ⟨kids, rank, h.stay (.wakeupTask hwake) (hsame (.wakeupTask hwake) (wakeupTask_status hwake).1) rfl⟩
  | readStdin hpc hcur hcall =>
      obtain ⟨k, hmod, rfl⟩ := stdinSleep_eq_ok hcall
      exact hmark hpc hmod (fun _ => rfl) (fun _ => rfl) rfl (by simp) (by simp) (by simp) (by simp)
  | downSched hpc hcall => exact hsleep hpc hcall (by simp) (by simp) (by simp) (by simp)
  | downWoken hpc hcall =>
      obtain ⟨-, rfl⟩ := downWoken_eq_ok hcall
      exact hgo hpc rfl rfl (by simp) (by simp) (by simp) (by simp)
  | stdinSched hpc hcall => exact hsleep hpc hcall (by simp) (by simp) (by simp) (by simp)
  | stdinWoken hpc => exact hgo hpc rfl rfl (by simp) (by simp) (by simp) (by simp)
  | exitMark hpc hmarked hcode hcall =>
      obtain ⟨kids', htree⟩ := h.exit hwait hk hpc (hself hpc (by simp)) hmarked hcode hcall
      exact ⟨kids', rank, htree⟩
  | exitCode hpc hcode hcall => exact absurd hpc ((h.place _).1 _)
  | exitSection hpc hcall => exact absurd hpc (h.place _).2
  | exitSched hpc hcall hreturn =>
      refine ⟨kids, rank, h.calm (.of_still (schedule_kept hcall))
        ((switched_of_schedule hrun hk.null hcall).live hk hlive) (fun a ha => goto_pc_of_ne _ _ ha) ?_ fun _ _ => ?_⟩
      · rw [setKernel_pc, goto_pc_self]
        simp
      · rw [setKernel_pc, goto_pc_self]
        exact Or.inr rfl
  | waitChild hpc hpid hcall =>
      refine hgo hpc rfl rfl (by simp) (by simp) ?_ ?_
      · split <;> simp
      · split <;> simp
  | waitFirst hpc ht => exact hgo hpc rfl rfl (by simp) (by simp) (by simp) (by simp)
  | waitEnd hpc =>
      refine hgo hpc rfl rfl (by simp) (by simp) ?_ ?_
      · split <;> simp
      · split <;> simp
  | waitRound hpc ht hstate => exact hgo hpc rfl rfl (by simp) (by simp) (by simp) (by simp)
  | reap hpc ht hstate hcall =>
      rcases hpc with ⟨pid, haskid, hpc, -⟩ | ⟨haskid, hpc⟩
      · obtain ⟨kids', htree⟩ := h.reap hk hpc (by simp) (by simp) ht hstate hcall
        exact ⟨kids', rank, htree⟩
      · obtain ⟨kids', htree⟩ := h.reap hk hpc (by simp) (by simp) ht hstate hcall
        exact ⟨kids', rank, htree⟩
  | waitMark hpc hmarked hcall =>
      have hcalm₁ : Calm s.kernel _ := .sleep hmarked (fun _ => rfl) fun _ => rfl
      have hcalm := hcalm₁.trans (.modifyTask hcall (fun _ => rfl) fun _ hz => hz)
      have hcurrent := (modifyTask_current hcall).trans (modifyTask_current hmarked)
      exact ⟨kids, rank, h.goTo hpc (by simp) (by simp) hcalm (hsame hcalm hcurrent)
        (congrArg (fun a => Function.update s.pc a _) hcurrent) (by simp) (by simp)⟩
  | waitReason hpc hcall =>
      have hcalm : Calm s.kernel _ := .modifyTask hcall (fun _ => rfl) fun _ hz => hz
      have hcurrent := modifyTask_current hcall
      exact ⟨kids, rank, h.goTo hpc (by simp) (by simp) hcalm (hsame hcalm hcurrent)
        (congrArg (fun a => Function.update s.pc a _) hcurrent) (by simp) (by simp)⟩
  | waitSched hpc hcall => exact hsleep hpc hcall (by simp) (by simp) (by simp) (by simp)
  | waitWoken hpc ht hflags => exact hgo hpc rfl rfl (by simp) (by simp) (by simp) (by simp)
  | waitKilled hpc ht hflags hcur hcall =>
      obtain rfl := hk.exitMm hcall
      exact hgo hpc rfl rfl (by simp) (by simp) (by simp) (by simp)
  | tickInExit hpc hmarked hcall => exact absurd trivial hsafe
  | tickBeforeSection hpc hmarked hcode hcall => exact absurd trivial hsafe
  | tickInWait hpc hmarked hcall =>
      have hcalm₁ : Calm s.kernel _ := .sleep hmarked (fun _ => rfl) fun _ => rfl
      obtain ⟨⟨used₁, hk₁⟩, hrun₁⟩ := queueSteps_inv (.single (.markSleeping hmarked)) ⟨⟨used, hk⟩, hrun⟩
      have hcurrent := modifyTask_current hmarked
      exact ⟨kids, rank, h.goTo hpc (by simp) (by simp) (hcalm₁.trans (.of_still (timerCallBack_kept hcall)))
        ((switched_of_timer hrun₁ hk₁.null hcall).live hk₁ (hsame hcalm₁ hcurrent))
        (congrArg (fun a => Function.update s.pc a _) hcurrent) (by simp) (by simp)⟩

end TreeInv

/-! ### Runs -/

/-- All that holds in every run in which the timer keeps away from the end of `do_exit`. -/
structure SafeInv (lo hi : Nat) (m₀ : Pmm) (v : Nat → Int) (s : System) : Prop extends SysInv lo hi m₀ v s where
  wait : WaitInv s
  tree : ∃ kids rank, TreeInv s kids rank

theorem SafeInv.step {lo hi : Nat} {m₀ : Pmm} {v : Nat → Int} {act : Act} (h : SafeInv lo hi m₀ v s)
    (hstep : s.step saved act = some (.ok s')) (hsafe : ¬ act.InExit) : SafeInv lo hi m₀ v s' := by
  have hstepped := stepped_of_step hstep
  obtain ⟨kids, rank, htree⟩ := h.tree
  exact ⟨h.toSysInv.step hstep, h.wait.step h.base h.queues hstepped,
    htree.step h.wait h.base h.queues hstepped hsafe⟩

theorem bootSystem_safe {lo hi : Nat} {m₀ : Pmm} {used : List Extent} {image : KernelImage} {m : Machine}
    {arg : U32} {k₀ : Kernel} (hledger : Ledger lo hi m₀ m used) (hinit : initTask image m arg = .ok k₀)
    (v : Nat → Int) : SafeInv lo hi m₀ v (bootSystem k₀ v) := by
  refine ⟨bootSystem_inv hledger hinit v, ?_, ?_⟩
  · intro a
    refine .of_ne (fun st hst => ?_) fun _ _ => by simp [bootSystem]
    have hws : WT_CHILD = WT_NOTWAIT := congrArg Prod.snd (initTask_status hledger hinit hst)
    exact absurd hws (by decide)
  · obtain ⟨init, hname, -, -, hfamily⟩ := initTask_family hledger hinit
    refine ⟨_, fun _ => 0, hfamily, ?_, ?_, ?_⟩
    · intro a ws hz
      have hstate : TaskState.zombie = .runnable := congrArg Prod.fst (initTask_status hledger hinit hz)
      simp at hstate
    · intro a
      simp [bootSystem]
    · intro p a ha hne
      -- The only child at this point is `init_task`.
      by_cases hp : p = k₀.idleTask
      · rw [hp, Function.update_self, List.mem_singleton] at ha
        exact absurd (ha.trans hname.symm) hne
      · rw [Function.update_of_ne hp] at ha
        simp at ha

end Tree

section Tree

variable {s : System}

end Tree

end Krnl
end FreakOS
