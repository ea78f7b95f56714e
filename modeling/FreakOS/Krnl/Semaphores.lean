import FreakOS.Krnl.SystemSteps

/-!
# Semaphores

* `QueuesInv` — the wait queues of the semaphores and of `stdin`: who is in one, where it goes on and what state
  it has.  `QueuesInv.frame` covers every step that leaves the queues alone.
* `CountInv` — the value of a semaphore against what has been granted and released.
* `HoldInv` — who holds a semaphore, when every task releases only what it holds.
* `semaphore_safety` — the three in every run.
-/

namespace FreakOS
namespace Krnl

open Lib
open Memory
open FreakOS.Krnl.System

/-- A queue that a task can wait in. -/
inductive WaitPoint where
  | sem (i : Nat)
  | stdin
deriving DecidableEq

/-- The `wait_state` of the tasks in a queue. -/
def WaitPoint.reason : WaitPoint → U32
  | .sem _ => WT_KSEM
  | .stdin => WT_KBD

theorem WaitPoint.reason_ne_child (w : WaitPoint) : w.reason ≠ WT_CHILD := by
  cases w with
  | sem i => exact (by decide : WT_KSEM ≠ WT_CHILD)
  | stdin => exact (by decide : WT_KBD ≠ WT_CHILD)

/-- The queue at which a task is. -/
def Pc.waitPoint : Pc → Option WaitPoint
  | .downSched i => some (.sem i)
  | .downWoken i => some (.sem i)
  | .stdinSched => some .stdin
  | .stdinWoken => some .stdin
  | _ => none

/-- The task has called `schedule` there. -/
def Pc.Slept : Pc → Prop
  | .downWoken _ => True
  | .stdinWoken => True
  | _ => False

theorem Pc.waitPoint_sem_iff {pc : Pc} {i : Nat} :
    pc.waitPoint = some (.sem i) ↔ pc = .downSched i ∨ pc = .downWoken i := by
  cases pc <;> simp [Pc.waitPoint]

/-- The tasks in a queue. -/
def System.queue (s : System) : WaitPoint → List U32
  | .sem i => (s.sems i).waitQueue
  | .stdin => s.stdinQueue

/-- The invariant of the wait queues. -/
structure QueuesInv (s : System) : Prop where
  nodup : ∀ w, (s.queue w).Nodup
  place : ∀ w a, a ∈ s.queue w → (s.pc a).waitPoint = some w
  status : ∀ w a, a ∈ s.queue w → s.kernel.status a = some (.sleeping, w.reason)
  away : ∀ w a, a ∈ s.queue w → (s.pc a).Slept → a ≠ s.current
  /-- Who is not in the queue any more has been given the semaphore. -/
  blocked : ∀ i a, (s.pc a).waitPoint = some (.sem i) →
    a ∈ s.queue (.sem i) ∨ (s.waitFlags a = WT_KSEM ∧ a ∈ s.holders i)
  reason : ∀ a st, s.kernel.status a = some (st, WT_KSEM) → ∃ i, a ∈ s.queue (.sem i)
  idle : s.pc s.kernel.idleTask = .run

section Queues

variable {s s' : System} {saved : Context}

namespace QueuesInv

/-- A task at none of the queues is in none. -/
theorem not_mem (h : QueuesInv s) {a : U32} (ha : (s.pc a).waitPoint = none) (w : WaitPoint) :
    a ∉ s.queue w := by
  intro hmem
  have hplace := h.place w a hmem
  rw [ha] at hplace
  simp at hplace

theorem not_mem_of_status (h : QueuesInv s) {a : U32} (ha : ∀ ws, s.kernel.status a ≠ some (.sleeping, ws))
    (w : WaitPoint) : a ∉ s.queue w := fun hmem => ha _ (h.status w a hmem)

theorem ne_idle (h : QueuesInv s) {a : U32} {w : WaitPoint} (ha : a ∈ s.queue w) : a ≠ s.kernel.idleTask := by
  rintro rfl
  have hplace := h.place w _ ha
  rw [h.idle] at hplace
  simp [Pc.waitPoint] at hplace

/-- The queues of the semaphores are as before, some tasks may have left that of `stdin`, and the tasks that are
left in a queue are as they were. -/
theorem frame (h : QueuesInv s) (hsem : ∀ i, s'.queue (.sem i) = s.queue (.sem i))
    (hstdin : s'.stdinQueue.Sublist s.stdinQueue)
    (hpc : ∀ a, (s'.pc a).waitPoint = (s.pc a).waitPoint ∨ (s'.pc a).waitPoint = none ∧ ∀ w, a ∉ s'.queue w)
    (hstatus : ∀ w a, a ∈ s'.queue w → s'.kernel.status a = s.kernel.status a)
    (haway : ∀ w a, a ∈ s'.queue w → (s'.pc a).Slept → a ≠ s'.current)
    (hgranted : ∀ i a, (s.pc a).waitPoint = some (.sem i) →
      s'.waitFlags a = s.waitFlags a ∧ (a ∈ s.holders i → a ∈ s'.holders i))
    (hreason : ∀ a st, s'.kernel.status a = some (st, WT_KSEM) → ∃ st', s.kernel.status a = some (st', WT_KSEM))
    (hidle : s'.pc s'.kernel.idleTask = .run) : QueuesInv s' := by
  have hsub : ∀ w, (s'.queue w).Sublist (s.queue w) := by
    intro w
    cases w with
    | sem i => exact (hsem i).symm ▸ List.Sublist.refl _
    | stdin => exact hstdin
  refine ⟨fun w => (h.nodup w).sublist (hsub w), ?_, ?_, haway, ?_, ?_, hidle⟩
  · intro w a ha
    rcases hpc a with hsame | ⟨-, hout⟩
    · exact hsame.trans (h.place w a ((hsub w).subset ha))
    · exact absurd ha (hout w)
  · intro w a ha
    exact (hstatus w a ha).trans (h.status w a ((hsub w).subset ha))
  · intro i a ha
    rw [hsem]
    rcases hpc a with hsame | ⟨hnone, -⟩
    · have hplace := hsame.symm.trans ha
      obtain ⟨hflags, hholders⟩ := hgranted i a hplace
      rcases h.blocked i a hplace with hin | ⟨hflag, hhold⟩
      · exact Or.inl hin
      · exact Or.inr ⟨hflags.trans hflag, hholders hhold⟩
    · rw [hnone] at ha
      simp at ha
  · intro a st ha
    obtain ⟨st', hst'⟩ := hreason a st ha
    obtain ⟨i, hi⟩ := h.reason a st' hst'
    exact ⟨i, (hsem _).symm ▸ hi⟩

/-- The scheduler runs, and the task that called it goes on at `pc`. -/
theorem switch (h : QueuesInv s) {k : Kernel} (hk : Switched s.kernel k) {pc : Pc}
    (hpc : pc.waitPoint = (s.pc s.current).waitPoint) (hrun : s.pc s.current = .run → pc = .run)
    (hcurrent : ∀ w, s.current ∈ s.queue w → pc.Slept → s.current ≠ k.currentTask) :
    QueuesInv ((s.goto s.current pc).setKernel k) := by
  refine h.frame (fun _ => rfl) (List.Sublist.refl _) ?_ ?_ ?_ (fun _ _ _ => ⟨rfl, id⟩) ?_ ?_
  · intro a
    by_cases ha : a = s.current
    · rw [ha]
      exact Or.inl ((congrArg Pc.waitPoint (goto_pc_self ..)).trans hpc)
    · exact Or.inl (congrArg Pc.waitPoint (goto_pc_of_ne s pc ha))
  · intro w a _
    exact hk.status a
  · intro w a ha hslept
    by_cases hcur : a = s.current
    · subst hcur
      rw [setKernel_pc, goto_pc_self] at hslept
      exact hcurrent w ha hslept
    · have hasleep := h.status w a ha
      refine hk.ne_current hcur (h.ne_idle ha) fun ws hready => ?_
      rw [hasleep] at hready
      simp at hready
  · intro a st ha
    exact ⟨st, (hk.status a).symm.trans ha⟩
  · rw [setKernel_kernel, hk.idle, setKernel_pc]
    by_cases hcur : s.kernel.idleTask = s.current
    · rw [hcur, goto_pc_self]
      exact hrun (hcur ▸ h.idle)
    · rw [goto_pc_of_ne s pc hcur]
      exact h.idle

/-- The timer. -/
theorem tick (h : QueuesInv s) {k : Kernel} (hk : Switched s.kernel k) : QueuesInv (s.setKernel k) := by
  have hself : s.goto s.current (s.pc s.current) = s := by
    unfold System.goto
    rw [Function.update_eq_self]
  have hswitch := h.switch hk rfl id fun w hmem hslept _ => h.away w _ hmem hslept rfl
  rwa [hself] at hswitch

/-- The running task is at no queue and goes on at no queue. -/
theorem move (h : QueuesInv s) {k : Kernel} (hk : Acted s.kernel k) {pc : Pc}
    (hpc : (s.pc s.current).waitPoint = none) (hnew : pc.waitPoint = none)
    (hidle : s.current ≠ s.kernel.idleTask) : QueuesInv ((s.setKernel k).goto k.currentTask pc) := by
  have hcurrent : k.currentTask = s.current := hk.current
  rw [hcurrent]
  have hne : ∀ w a, a ∈ s.queue w → a ≠ s.current := by
    rintro w a ha rfl
    exact h.not_mem hpc w ha
  refine h.frame (fun _ => rfl) (List.Sublist.refl _) ?_ ?_ ?_ (fun _ _ _ => ⟨rfl, id⟩) ?_ ?_
  · intro a
    by_cases ha : a = s.current
    · subst ha
      exact Or.inl ((congrArg Pc.waitPoint (goto_pc_self ..)).trans (hnew.trans hpc.symm))
    · exact Or.inl (congrArg Pc.waitPoint (goto_pc_of_ne _ pc ha))
  · intro w a ha
    have hmem : a ∈ s.queue w := by
      cases w <;> exact ha
    have hwake := hk.others a (hne w a hmem)
    rw [h.status w a hmem] at hwake
    rw [h.status w a hmem]
    exact hwake.eq_of_ne (Or.inr w.reason_ne_child)
  · intro w a ha _
    have hmem : a ∈ s.queue w := by
      cases w <;> exact ha
    exact fun heq => hne w a hmem (heq.trans hcurrent)
  · intro a st ha
    by_cases hcur : a = s.current
    · subst hcur
      rcases hk.self st WT_KSEM ha with hchild | hnot | hbefore
      · exact absurd hchild (by decide)
      · exact absurd hnot (by decide)
      · exact hbefore
    · have hwake := hk.others a hcur
      have hafter : k.status a = some (st, WT_KSEM) := ha
      rw [hafter] at hwake
      exact ⟨st, hwake.reason (by decide)⟩
  · have hne' : k.idleTask ≠ s.current := hk.idle ▸ Ne.symm hidle
    exact (goto_pc_of_ne _ pc hne').trans (hk.idle ▸ h.idle)

/-- The running task stays where it is, and another task appears. -/
theorem fork (h : QueuesInv s) {lo hi : Nat} {m₀ : Pmm} {used : List Extent}
    (hk : TaskInv lo hi m₀ s.kernel used) {flags stack : U32} {frame : InterruptFrame} {ret : Int} {k : Kernel}
    (hcall : doFork s.kernel flags stack frame = .ok (ret, k)) : QueuesInv (s.setKernel k) := by
  obtain ⟨hcurrent, hidle, hstatus⟩ := doFork_status hk hcall
  have hothers : ∀ a, s.kernel.status a ≠ none → k.status a = s.kernel.status a := by
    intro a ha
    rcases hstatus with hsame | ⟨b, hfresh, -, hothers⟩
    · exact hsame a
    · refine hothers a ?_
      rintro rfl
      exact ha (congrArg (Option.map Task.status) hfresh)
  refine h.frame (fun _ => rfl) (List.Sublist.refl _) (fun _ => Or.inl rfl) ?_ ?_ (fun _ _ _ => ⟨rfl, id⟩) ?_ ?_
  · intro w a ha
    have hmem : a ∈ s.queue w := by
      cases w <;> exact ha
    refine hothers a ?_
    rw [h.status w a hmem]
    simp
  · intro w a ha hslept
    have hmem : a ∈ s.queue w := by
      cases w <;> exact ha
    exact fun heq => h.away w a hmem hslept (heq.trans hcurrent)
  · intro a st ha
    have hafter : k.status a = some (st, WT_KSEM) := ha
    rcases hstatus with hsame | ⟨b, -, hnew, hsame⟩
    · exact ⟨st, (hsame a).symm.trans hafter⟩
    · by_cases hab : a = b
      · rw [hab, hnew] at hafter
        have hws : WT_NOTWAIT = WT_KSEM := congrArg Prod.snd (Option.some.inj hafter)
        exact absurd hws (by decide)
      · exact ⟨st, (hsame a hab).symm.trans hafter⟩
  · exact (congrArg s.pc hidle).trans h.idle

/-- The running task frees a zombie. -/
theorem reap (h : QueuesInv s) {a codeStore : U32} {t : Task} {res : WaitResult} {k : Kernel}
    (hpc : (s.pc s.current).waitPoint = none) (hidle : s.current ≠ s.kernel.idleTask)
    (ht : s.kernel.tasks a = some t) (hstate : t.state = .zombie)
    (hcall : reap s.kernel a codeStore = .ok (res, k)) :
    QueuesInv (((s.setKernel k).goto a .run).goto s.current .run) := by
  obtain ⟨hcurrent, hidle', hne, hgone, hothers⟩ := reap_status hcall
  have hout : ∀ w, a ∉ s.queue w := by
    refine h.not_mem_of_status fun ws hws => ?_
    rw [status_eq_some ht, hstate] at hws
    simp at hws
  have hmem : ∀ w b, b ∈ System.queue (((s.setKernel k).goto a .run).goto s.current .run) w → b ∈ s.queue w := by
    intro w b hb
    cases w <;> exact hb
  have hne' : ∀ w b, b ∈ s.queue w → b ≠ a ∧ b ≠ s.current := by
    intro w b hb
    constructor
    · rintro rfl
      exact hout w hb
    · rintro rfl
      exact h.not_mem hpc w hb
  have hpcs : ∀ b, b ≠ a → b ≠ s.current →
      (((s.setKernel k).goto a .run).goto s.current .run).pc b = s.pc b := by
    intro b hba hbc
    rw [goto_pc_of_ne _ _ hbc, goto_pc_of_ne _ _ hba]
    rfl
  refine h.frame (fun _ => rfl) (List.Sublist.refl _) ?_ ?_ ?_ (fun _ _ _ => ⟨rfl, id⟩) ?_ ?_
  · intro b
    by_cases hbc : b = s.current
    · subst hbc
      exact Or.inl ((congrArg Pc.waitPoint (goto_pc_self ..)).trans hpc.symm)
    · by_cases hba : b = a
      · subst hba
        rw [goto_pc_of_ne _ _ hbc, goto_pc_self]
        exact Or.inr ⟨rfl, fun w hb => hout w (hmem w b hb)⟩
      · exact Or.inl (congrArg Pc.waitPoint (hpcs b hba hbc))
  · intro w b hb
    exact hothers b (hne' w b (hmem w b hb)).1
  · intro w b hb _ heq
    exact (hne' w b (hmem w b hb)).2 (heq.trans hcurrent)
  · intro b st hb
    have hafter : k.status b = some (st, WT_KSEM) := hb
    by_cases hba : b = a
    · rw [hba, Kernel.status, hgone] at hafter
      simp at hafter
    · exact ⟨st, (hothers b hba).symm.trans hafter⟩
  · have hkernel : System.kernel (((s.setKernel k).goto a .run).goto s.current .run) = k := rfl
    rw [hkernel, hidle', hpcs _ (Ne.symm hne) (Ne.symm hidle)]
    exact h.idle

/-! ### `down` and `up` -/

/-- The semaphore is free. -/
theorem acquire (h : QueuesInv s) (sem : Nat) (n : Int) :
    QueuesInv ((s.setSem sem { s.sems sem with value := n }).grant sem s.current) := by
  have hqueue : ∀ i, (Function.update s.sems sem { s.sems sem with value := n } i).waitQueue =
      (s.sems i).waitQueue := by
    intro i
    by_cases hi : i = sem
    · subst hi
      simp
    · simp [hi]
  refine h.frame hqueue (List.Sublist.refl _) (fun _ => Or.inl rfl) (fun _ _ _ => rfl) ?_ ?_
    (fun a st ha => ⟨st, ha⟩) h.idle
  · intro w a ha
    cases w with
    | sem i => exact h.away (.sem i) a ((congrArg (a ∈ ·) (hqueue i)).mp ha)
    | stdin => exact h.away .stdin a ha
  · intro i a _
    refine ⟨rfl, fun hhold => ?_⟩
    by_cases hi : i = sem
    · subst hi
      simp [System.grant, System.setSem, hhold]
    · simpa [System.grant, System.setSem, hi] using hhold

/-- The running task joins a queue. -/
theorem sleep (h : QueuesInv s) {k : Kernel} {w : WaitPoint} {pc : Pc}
    (hpc : (s.pc s.current).waitPoint = none) (hidle : s.current ≠ s.kernel.idleTask)
    (hmod : (s.kernel.modifyTask s.current fun t => { t with state := .sleeping, waitState := w.reason }) = .ok k)
    (hkernel : s'.kernel = k) (hqueue : s'.queue w = s.queue w ++ [s.current])
    (hqueues : ∀ w', w' ≠ w → s'.queue w' = s.queue w') (hself : s'.pc s.current = pc)
    (hothers : ∀ a, a ≠ s.current → s'.pc a = s.pc a ∧ s'.waitFlags a = s.waitFlags a)
    (hholders : s'.holders = s.holders) (hnew : pc.waitPoint = some w) (hslept : ¬ pc.Slept) : QueuesInv s' := by
  subst hkernel
  have hcurrent : s'.current = s.current := modifyTask_current hmod
  have hmem : ∀ w' a, a ∈ s'.queue w' → a ∈ s.queue w' ∧ a ≠ s.current ∨ a = s.current ∧ w' = w := by
    intro w' a ha
    by_cases hw : w' = w
    · subst hw
      rw [hqueue, List.mem_append, List.mem_singleton] at ha
      rcases ha with ha | ha
      · refine Or.inl ⟨ha, ?_⟩
        rintro rfl
        exact h.not_mem hpc w' ha
      · exact Or.inr ⟨ha, rfl⟩
    · rw [hqueues w' hw] at ha
      refine Or.inl ⟨ha, ?_⟩
      rintro rfl
      exact h.not_mem hpc w' ha
  have hsub : ∀ w' a, a ∈ s.queue w' → a ∈ s'.queue w' := by
    intro w' a ha
    by_cases hw : w' = w
    · subst hw
      simp [hqueue, ha]
    · rwa [hqueues w' hw]
  have hasleep : s'.kernel.status s.current = some (.sleeping, w.reason) := by
    obtain ⟨t, -, heq⟩ := modifyTask_eq_ok.mp hmod
    rw [← heq, setTask_status_self]
    rfl
  refine ⟨?_, ?_, ?_, ?_, ?_, ?_, ?_⟩
  · intro w'
    by_cases hw : w' = w
    · subst hw
      rw [hqueue]
      exact (List.concat_eq_append ▸ (h.nodup w').concat (h.not_mem hpc w'))
    · rw [hqueues w' hw]
      exact h.nodup w'
  · intro w' a ha
    rcases hmem w' a ha with ⟨ha, hne⟩ | ⟨rfl, rfl⟩
    · rw [(hothers a hne).1]
      exact h.place w' a ha
    · rw [hself]
      exact hnew
  · intro w' a ha
    rcases hmem w' a ha with ⟨ha, hne⟩ | ⟨rfl, rfl⟩
    · exact (modifyTask_status_of_ne hmod hne).trans (h.status w' a ha)
    · exact hasleep
  · intro w' a ha hpc'
    rcases hmem w' a ha with ⟨ha, hne⟩ | ⟨rfl, rfl⟩
    · exact fun heq => hne (heq.trans hcurrent)
    · rw [hself] at hpc'
      exact absurd hpc' hslept
  · intro i a ha
    by_cases hcur : a = s.current
    · subst hcur
      rw [hself, hnew] at ha
      obtain rfl := Option.some.inj ha
      simp [hqueue]
    · obtain ⟨hpc', hflags⟩ := hothers a hcur
      rw [hpc'] at ha
      rw [hflags, hholders]
      exact (h.blocked i a ha).imp_left (hsub _ a)
  · intro a st ha
    by_cases hcur : a = s.current
    · subst hcur
      rw [hasleep] at ha
      have hreason : w.reason = WT_KSEM := congrArg Prod.snd (Option.some.inj ha)
      cases w with
      | sem i => exact ⟨i, by simp [hqueue]⟩
      | stdin => exact absurd hreason (by decide : WT_KBD ≠ WT_KSEM)
    · rw [modifyTask_status_of_ne hmod hcur] at ha
      obtain ⟨i, hi⟩ := h.reason a st ha
      exact ⟨i, hsub _ a hi⟩
  · have hidle' : s'.kernel.idleTask = s.kernel.idleTask :=
      (Kept.modifyTask (f := fun _ => ()) hmod fun _ => rfl).idleTask
    rw [hidle', (hothers _ (Ne.symm hidle)).1]
    exact h.idle

/-- `up` with nobody in the queue. -/
theorem releaseNone (h : QueuesInv s) (sem : Nat) (n : Int) (hpc : (s.pc s.current).waitPoint = none) :
    QueuesInv { s with
      sems := Function.update s.sems sem { s.sems sem with value := n }
      released := Function.update s.released sem (s.released sem + 1)
      holders := Function.update s.holders sem ((s.holders sem).erase s.current) } := by
  have hqueue : ∀ i, (Function.update s.sems sem { s.sems sem with value := n } i).waitQueue =
      (s.sems i).waitQueue := by
    intro i
    by_cases hi : i = sem
    · subst hi
      simp
    · simp [hi]
  refine h.frame hqueue (List.Sublist.refl _) (fun _ => Or.inl rfl) (fun _ _ _ => rfl) ?_ ?_
    (fun a st ha => ⟨st, ha⟩) h.idle
  · intro w a ha
    cases w with
    | sem i => exact h.away (.sem i) a ((congrArg (a ∈ ·) (hqueue i)).mp ha)
    | stdin => exact h.away .stdin a ha
  · intro i a ha
    refine ⟨rfl, fun hhold => ?_⟩
    have hne : a ≠ s.current := by
      rintro rfl
      rw [hpc] at ha
      simp at ha
    by_cases hi : i = sem
    · subst hi
      simpa [List.mem_erase_of_ne hne] using hhold
    · simpa [hi] using hhold

/-- `up` gives the semaphore to the first task in the queue. -/
theorem releaseFirst (h : QueuesInv s) {sem : Nat} {a : U32} {rest : List U32} {k : Kernel}
    (hpc : (s.pc s.current).waitPoint = none) (hqueue : (s.sems sem).waitQueue = a :: rest)
    (hwake : wakeupTask s.kernel a = .ok k) :
    QueuesInv { s with
      kernel := k
      waitFlags := Function.update s.waitFlags a WT_KSEM
      sems := Function.update s.sems sem { s.sems sem with waitQueue := rest }
      released := Function.update s.released sem (s.released sem + 1)
      granted := Function.update s.granted sem (s.granted sem + 1)
      holders := Function.update s.holders sem (a :: (s.holders sem).erase s.current) } := by
  obtain ⟨hcurrent, hothers, ws, hcases⟩ := wakeupTask_status hwake
  have hfirst : a ∈ s.queue (.sem sem) := by
    change a ∈ (s.sems sem).waitQueue
    simp [hqueue]
  have hnodup := h.nodup (.sem sem)
  change (s.sems sem).waitQueue.Nodup at hnodup
  rw [hqueue, List.nodup_cons] at hnodup
  have hwoken : k.status a = some (.runnable, WT_NOTWAIT) := by
    rcases hcases with ⟨hbefore, -⟩ | ⟨-, hafter⟩
    · rw [h.status _ a hfirst] at hbefore
      simp at hbefore
    · exact hafter
  -- Who is left in a queue was there before, and is not the task that has been woken up.
  have hleft : ∀ w b, b ∈ System.queue { s with
      sems := Function.update s.sems sem { s.sems sem with waitQueue := rest } } w → b ∈ s.queue w ∧ b ≠ a := by
    intro w b hb
    have hplace : ∀ w', w' ≠ WaitPoint.sem sem → b ∈ s.queue w' → b ≠ a := by
      rintro w' hw hb' rfl
      exact hw (Option.some.inj ((h.place w' b hb').symm.trans (h.place _ b hfirst)))
    cases w with
    | sem i =>
        change b ∈ (Function.update s.sems sem { s.sems sem with waitQueue := rest } i).waitQueue at hb
        by_cases hi : i = sem
        · subst hi
          rw [Function.update_self] at hb
          change b ∈ (s.sems i).waitQueue ∧ b ≠ a
          rw [hqueue]
          refine ⟨List.mem_cons_of_mem _ hb, ?_⟩
          rintro rfl
          exact hnodup.1 hb
        · rw [Function.update_of_ne hi] at hb
          exact ⟨hb, hplace (.sem i) (by simpa using hi) hb⟩
    | stdin => exact ⟨hb, hplace .stdin (by simp) hb⟩
  have hstay : ∀ i b, b ∈ s.queue (.sem i) → b ≠ a →
      b ∈ (Function.update s.sems sem { s.sems sem with waitQueue := rest } i).waitQueue := by
    intro i b hb hba
    by_cases hi : i = sem
    · subst hi
      rw [Function.update_self]
      change b ∈ (s.sems i).waitQueue at hb
      rw [hqueue, List.mem_cons] at hb
      exact hb.resolve_left hba
    · rwa [Function.update_of_ne hi]
  refine ⟨?_, ?_, ?_, ?_, ?_, ?_, ?_⟩
  · intro w
    cases w with
    | sem i =>
        change (Function.update s.sems sem { s.sems sem with waitQueue := rest } i).waitQueue.Nodup
        by_cases hi : i = sem
        · subst hi
          rw [Function.update_self]
          exact hnodup.2
        · rw [Function.update_of_ne hi]
          exact h.nodup (.sem i)
    | stdin => exact h.nodup .stdin
  · intro w b hb
    exact h.place w b (hleft w b (by cases w <;> exact hb)).1
  · intro w b hb
    obtain ⟨hmem, hne⟩ := hleft w b (by cases w <;> exact hb)
    exact (hothers b hne).trans (h.status w b hmem)
  · intro w b hb hslept
    have hmem := (hleft w b (by cases w <;> exact hb)).1
    exact fun heq => h.away w b hmem hslept (heq.trans hcurrent)
  · intro i b hb
    have hnot : b ≠ s.current := by
      rintro rfl
      have hplace : (s.pc s.current).waitPoint = some (.sem i) := hb
      rw [hpc] at hplace
      simp at hplace
    by_cases hba : b = a
    · subst hba
      have hi : i = sem := by
        have hplace : (s.pc b).waitPoint = some (.sem i) := hb
        rw [h.place _ b hfirst] at hplace
        exact (WaitPoint.sem.inj (Option.some.inj hplace)).symm
      subst hi
      refine Or.inr ⟨Function.update_self .., ?_⟩
      simp
    · rcases h.blocked i b hb with hin | ⟨hflag, hhold⟩
      · exact Or.inl (hstay i b hin hba)
      · refine Or.inr ⟨(Function.update_of_ne hba _ _).trans hflag, ?_⟩
        by_cases hi : i = sem
        · subst hi
          simp [List.mem_erase_of_ne hnot, hhold]
        · simpa [hi] using hhold
  · intro b st hb
    have hafter : k.status b = some (st, WT_KSEM) := hb
    by_cases hba : b = a
    · rw [hba, hwoken] at hafter
      have hws : WT_NOTWAIT = WT_KSEM := congrArg Prod.snd (Option.some.inj hafter)
      exact absurd hws (by decide)
    · rw [hothers b hba] at hafter
      obtain ⟨i, hi⟩ := h.reason b st hafter
      exact ⟨i, hstay i b hi hba⟩
  · exact (congrArg s.pc (wakeupTask_kept hwake).idleTask).trans h.idle

/-- A task that has slept in `down` is not in the queue any more. -/
theorem not_mem_of_slept (h : QueuesInv s) (hslept : (s.pc s.current).Slept) (w : WaitPoint) :
    s.current ∉ s.queue w := fun hmem => h.away w _ hmem hslept rfl

/-- A task leaves `down` or `_stdin_do_read`. -/
theorem leave (h : QueuesInv s) (hslept : (s.pc s.current).Slept) (hidle : s.current ≠ s.kernel.idleTask) :
    QueuesInv (s.goto s.current .run) := by
  have hmem : ∀ w b, b ∈ (s.goto s.current .run).queue w → b ∈ s.queue w ∧ b ≠ s.current := by
    intro w b hb
    have hb' : b ∈ s.queue w := by
      cases w <;> exact hb
    refine ⟨hb', ?_⟩
    rintro rfl
    exact h.not_mem_of_slept hslept w hb'
  refine h.frame (fun _ => rfl) (List.Sublist.refl _) ?_ (fun _ _ _ => rfl) ?_ (fun _ _ _ => ⟨rfl, id⟩)
    (fun a st ha => ⟨st, ha⟩) ?_
  · intro a
    by_cases ha : a = s.current
    · subst ha
      rw [goto_pc_self]
      exact Or.inr ⟨rfl, fun w hb => (hmem w _ hb).2 rfl⟩
    · exact Or.inl (congrArg Pc.waitPoint (goto_pc_of_ne s .run ha))
  · intro w a ha _
    exact (hmem w a ha).2
  · exact (goto_pc_of_ne s .run (Ne.symm hidle)).trans h.idle

end QueuesInv

/-- The loop of `wakeupAll`: the tasks that it names are woken up, and nothing else happens. -/
theorem wakeupLoop_spec {flags : U32} {queue : List U32} (hcall : wakeupLoop flags queue s = .ok s') :
    (∃ k waitFlags, s' = { s with kernel := k, waitFlags := waitFlags }) ∧
      s'.kernel.currentTask = s.kernel.currentTask ∧ s'.kernel.idleTask = s.kernel.idleTask ∧
      (∀ a, a ∉ queue → s'.kernel.status a = s.kernel.status a ∧ s'.waitFlags a = s.waitFlags a) ∧
      ∀ a, s'.kernel.status a = s.kernel.status a ∨ s'.kernel.status a = some (.runnable, WT_NOTWAIT) := by
  induction queue generalizing s with
  | nil =>
      obtain rfl := Except.ok.inj hcall
      exact ⟨⟨_, _, rfl⟩, rfl, rfl, fun _ _ => ⟨rfl, rfl⟩, fun _ => Or.inl rfl⟩
  | cons b rest ih =>
      obtain ⟨s₁, hwait, hcall⟩ := Res.bind_eq_ok.mp hcall
      obtain ⟨k, hwake, rfl⟩ := wakeupWait_eq_ok hwait
      obtain ⟨hcurrent, hothers, ws', hcases⟩ := wakeupTask_status hwake
      obtain ⟨⟨k', flags', hframe⟩, hcurrent', hidle', hothers', hstatus'⟩ := ih hcall
      refine ⟨⟨k', flags', hframe⟩, hcurrent'.trans hcurrent, hidle'.trans (wakeupTask_kept hwake).idleTask, ?_, ?_⟩
      · intro a ha
        rw [List.mem_cons, not_or] at ha
        obtain ⟨hstatus, hflag⟩ := hothers' a ha.2
        exact ⟨hstatus.trans (hothers a ha.1), hflag.trans (Function.update_of_ne ha.1 _ _)⟩
      · intro a
        rcases hstatus' a with hsame | hwoken
        · by_cases hab : a = b
          · subst hab
            rcases hcases with ⟨hbefore, hafter⟩ | ⟨-, hafter⟩
            · exact Or.inl (hsame.trans (hafter.trans hbefore.symm))
            · exact Or.inr (hsame.trans hafter)
          · exact Or.inl (hsame.trans (hothers a hab))
        · exact Or.inr hwoken

namespace QueuesInv

/-- The keyboard wakes up who waits for it. -/
theorem keyboard (h : QueuesInv s)
    (hcall : wakeupLoop WT_KBD s.stdinQueue { s with stdinQueue := [] } = .ok s') : QueuesInv s' := by
  obtain ⟨⟨k, flags, rfl⟩, hcurrent, hidle, hothers, hstatus⟩ := wakeupLoop_spec hcall
  have hapart : ∀ i a, (s.pc a).waitPoint = some (.sem i) → a ∉ s.stdinQueue := by
    intro i a ha hmem
    have hplace := h.place .stdin a hmem
    rw [ha] at hplace
    simp at hplace
  refine h.frame (fun _ => rfl) (List.nil_sublist _) (fun _ => Or.inl rfl) ?_ ?_ ?_ ?_ ?_
  · intro w a ha
    cases w with
    | sem i => exact (hothers a (hapart i a (h.place _ a ha))).1
    | stdin => simp [System.queue] at ha
  · intro w a ha hslept
    cases w with
    | sem i => exact fun heq => h.away (.sem i) a ha hslept (heq.trans hcurrent)
    | stdin => simp [System.queue] at ha
  · intro i a ha
    exact ⟨(hothers a (hapart i a ha)).2, id⟩
  · intro a st ha
    rcases hstatus a with hsame | hwoken
    · exact ⟨st, hsame.symm.trans ha⟩
    · rw [ha] at hwoken
      have hws : WT_KSEM = WT_NOTWAIT := congrArg Prod.snd (Option.some.inj hwoken)
      exact absurd hws (by decide)
  · exact (congrArg s.pc hidle).trans h.idle

/-- One step. -/
theorem step {lo hi : Nat} {m₀ : Pmm} {act : Act} (h : QueuesInv s) (hbase : SysBase lo hi m₀ s)
    (hstep : Stepped s saved act s') : QueuesInv s' := by
  obtain ⟨⟨used, hk⟩, hrun⟩ := hbase
  have hsleep : ∀ {k : Kernel} {pc pc' : Pc}, s.pc s.current = pc → pc ≠ .run →
      pc'.waitPoint = pc.waitPoint → schedule s.kernel saved = .ok k →
      QueuesInv ((s.goto s.current pc').setKernel k) := by
    intro k pc pc' hpc hne hplace hcall
    refine h.switch (switched_of_schedule hrun hk.null hcall) (hplace.trans (congrArg _ hpc.symm)) ?_ ?_
    · intro hrun'
      exact absurd (hpc.symm.trans hrun') hne
    · intro w hmem _
      refine schedule_ne_current hrun hk.null hcall (h.ne_idle hmem) fun ws hready => ?_
      rw [h.status w _ hmem] at hready
      simp at hready
  have hself : ∀ {pc : Pc}, s.pc s.current = pc → pc ≠ .run → s.current ≠ s.kernel.idleTask := by
    intro pc hpc hne heq
    rw [heq, h.idle] at hpc
    exact hne hpc.symm
  have hmove : ∀ {pc pc' : Pc} {k : Kernel}, s.pc s.current = pc → pc ≠ .run → pc.waitPoint = none →
      pc'.waitPoint = none → Acted s.kernel k → QueuesInv ((s.setKernel k).goto k.currentTask pc') := by
    intro pc pc' k hpc hne hplace hplace' hacted
    exact h.move hacted (hpc ▸ hplace) hplace' (hself hpc hne)
  have hstay : Acted s.kernel s.kernel := .of_roused (.refl _)
  -- The timer comes after the running task has written to its own structure.
  have htick : ∀ {pc pc' : Pc} {k₁ k : Kernel}, s.pc s.current = pc → pc ≠ .run → pc.waitPoint = none →
      pc'.waitPoint = none → Acted s.kernel k₁ → Relation.ReflTransGen QueueStep s.kernel k₁ →
      timerCallBack k₁ saved = .ok k → QueuesInv ((s.goto k₁.currentTask pc').setKernel k) := by
    intro pc pc' k₁ k hpc hne hplace hplace' hacted hsteps hcall
    obtain ⟨⟨used₁, hk₁⟩, hrun₁⟩ := queueSteps_inv hsteps ⟨⟨used, hk⟩, hrun⟩
    exact (hmove hpc hne hplace hplace' hacted).tick (switched_of_timer hrun₁ hk₁.null hcall)
  cases hstep with
  | tick hcall => exact h.tick (switched_of_timer hrun hk.null hcall)
  | keyboard hcall => exact h.keyboard hcall
  | yield hpc hcall => exact h.tick (switched_of_schedule hrun hk.null hcall)
  | fork hpc hidle hcall => exact h.fork hk hcall
  | exit hpc hidle hcall =>
      rw [hk.exitMm hcall]
      exact h.move hstay (hpc ▸ rfl) rfl hidle
  | wait hpc hidle =>
      unfold System.waitStart
      split
      · exact h
      · exact h.move hstay (hpc ▸ rfl) rfl hidle
  | acquire hpc hidle hvalue => exact h.acquire _ _
  | @acquireSleep sem _ hpc hidle hvalue hcall =>
      obtain ⟨k, hmod, rfl⟩ := down_eq_ok hvalue hcall
      have hcurrent : k.currentTask = s.current := modifyTask_current hmod
      rw [hcurrent]
      refine h.sleep (w := .sem sem) (hpc ▸ rfl) hidle hmod rfl ?_ ?_ (Function.update_self ..) ?_ rfl rfl id
      · simp [System.queue]
      · intro w' hw
        cases w' with
        | sem i =>
            have hi : i ≠ sem := fun heq => hw (congrArg _ heq)
            simp [System.queue, hi]
        | stdin => rfl
      · intro a ha
        exact ⟨Function.update_of_ne ha _ _, Function.update_of_ne ha _ _⟩
  | release hpc hidle hcall =>
      rcases up_eq_ok hcall with ⟨-, rfl⟩ | ⟨a, rest, k, hqueue, hwake, rfl⟩
      · exact h.releaseNone _ _ (hpc ▸ rfl)
      · exact h.releaseFirst (hpc ▸ rfl) hqueue hwake
  | readStdin hpc hidle hcall =>
      obtain ⟨k, hmod, rfl⟩ := stdinSleep_eq_ok hcall
      have hcurrent : k.currentTask = s.current := modifyTask_current hmod
      rw [hcurrent]
      refine h.sleep (w := .stdin) (hpc ▸ rfl) hidle hmod rfl rfl ?_ (Function.update_self ..) ?_ rfl rfl id
      · intro w' hw
        cases w' with
        | sem i => rfl
        | stdin => exact absurd rfl hw
      · intro a ha
        exact ⟨Function.update_of_ne ha _ _, Function.update_of_ne ha _ _⟩
  | downSched hpc hcall => exact hsleep hpc (by simp) rfl hcall
  | @downWoken sem _ hpc hcall =>
      obtain ⟨-, rfl⟩ := downWoken_eq_ok hcall
      have hslept : (s.pc s.current).Slept := by
        rw [hpc]
        trivial
      have hsem : s.setSem sem { s.sems sem with waitQueue := (s.sems sem).waitQueue.erase s.current } = s := by
        have hout : s.current ∉ (s.sems sem).waitQueue := h.not_mem_of_slept hslept (.sem sem)
        unfold System.setSem
        rw [List.erase_of_not_mem hout, Function.update_eq_self]
      rw [hsem]
      exact h.leave hslept (hself hpc (by simp))
  | stdinSched hpc hcall => exact hsleep hpc (by simp) rfl hcall
  | stdinWoken hpc =>
      have hslept : (s.pc s.current).Slept := by
        rw [hpc]
        trivial
      have hstdin : s.stdinWoken = s.goto s.current .run := by
        have hout : s.current ∉ s.stdinQueue := h.not_mem_of_slept hslept .stdin
        unfold System.stdinWoken listDel
        rw [List.erase_of_not_mem hout]
      rw [hstdin]
      exact h.leave hslept (hself hpc (by simp))
  | exitMark hpc hmark hcode hcall =>
      have hmarked := Acted.modifyTask hmark fun _ => Or.inr rfl
      have hcoded := Acted.modifyTask hcode fun _ => Or.inr rfl
      exact hmove hpc (by simp) rfl rfl ((hmarked.trans hcoded).trans (.of_roused (.handOver hcall)))
  | exitCode hpc hcode hcall =>
      have hcoded := Acted.modifyTask hcode fun _ => Or.inr rfl
      exact hmove hpc (by simp) rfl rfl (hcoded.trans (.of_roused (.handOver hcall)))
  | exitSection hpc hcall => exact hmove hpc (by simp) rfl rfl (.of_roused (.handOver hcall))
  | exitSched hpc hcall hreturn => exact hsleep hpc (by simp) rfl hcall
  | @waitChild pid codeStore haskid hpc hpid hcall =>
      unfold System.waitNone
      refine hmove hpc (by simp) rfl ?_ hstay
      split <;> rfl
  | waitFirst hpc ht => exact hmove hpc (by simp) rfl rfl hstay
  | waitEnd hpc =>
      unfold System.waitNone
      refine hmove hpc (by simp) rfl ?_ hstay
      split <;> rfl
  | waitRound hpc ht hstate => exact hmove hpc (by simp) rfl rfl hstay
  | reap hpc ht hstate hcall =>
      have hplace : (s.pc s.current).waitPoint = none ∧ s.current ≠ s.kernel.idleTask := by
        rcases hpc with ⟨pid, haskid, hpc, -⟩ | ⟨haskid, hpc⟩
        · exact ⟨hpc ▸ rfl, hself hpc (by simp)⟩
        · exact ⟨hpc ▸ rfl, hself hpc (by simp)⟩
      exact h.reap hplace.1 hplace.2 ht hstate hcall
  | waitMark hpc hmark hcall =>
      have hmarked := Acted.modifyTask hmark fun _ => Or.inr rfl
      have hreason := Acted.modifyTask hcall fun _ => Or.inl rfl
      exact hmove hpc (by simp) rfl rfl (hmarked.trans hreason)
  | waitReason hpc hcall =>
      exact hmove hpc (by simp) rfl rfl (Acted.modifyTask hcall fun _ => Or.inl rfl)
  | waitSched hpc hcall => exact hsleep hpc (by simp) rfl hcall
  | waitWoken hpc ht hflags => exact hmove hpc (by simp) rfl rfl hstay
  | waitKilled hpc ht hflags hidle hcall =>
      rw [hk.exitMm hcall]
      exact hmove hpc (by simp) rfl rfl hstay
  | tickInExit hpc hmark hcall =>
      have hmarked := Acted.modifyTask hmark fun _ => Or.inr rfl
      exact htick hpc (by simp) rfl rfl hmarked (.single (.markZombie hmark)) hcall
  | tickBeforeSection hpc hmark hcode hcall =>
      have hmarked := Acted.modifyTask hmark fun _ => Or.inr rfl
      have hcoded := Acted.modifyTask hcode fun _ => Or.inr rfl
      exact htick hpc (by simp) rfl rfl (hmarked.trans hcoded)
        (.tail (.single (.markZombie hmark)) (.storeExitCode hcode)) hcall
  | tickInWait hpc hmark hcall =>
      have hmarked := Acted.modifyTask hmark fun _ => Or.inr rfl
      exact htick hpc (by simp) rfl rfl hmarked (.single (.markSleeping hmark)) hcall

end QueuesInv

/-! ### Values and holders -/

/-- The semaphores and what has happened to them. -/
structure SemView where
  sems : Nat → Semaphore
  granted : Nat → Nat
  released : Nat → Nat
  holders : Nat → List U32

def System.semView (s : System) : SemView := ⟨s.sems, s.granted, s.released, s.holders⟩

/-- What a step does to the semaphores. -/
inductive SemStep (s : System) : Act → SemView → Prop
  | quiet {act : Act} : SemStep s act s.semView
  | acquire {sem : Nat} (hvalue : 0 < (s.sems sem).value) : SemStep s (.call (.acquireSem sem))
      ⟨Function.update s.sems sem { s.sems sem with value := (s.sems sem).value - 1 },
        Function.update s.granted sem (s.granted sem + 1), s.released,
        Function.update s.holders sem (s.current :: s.holders sem)⟩
  | block {sem : Nat} (hvalue : ¬ 0 < (s.sems sem).value) : SemStep s (.call (.acquireSem sem))
      ⟨Function.update s.sems sem { s.sems sem with waitQueue := (s.sems sem).waitQueue ++ [s.current] },
        s.granted, s.released, s.holders⟩
  | release {sem : Nat} (hqueue : (s.sems sem).waitQueue = []) : SemStep s (.call (.releaseSem sem))
      ⟨Function.update s.sems sem { s.sems sem with value := (s.sems sem).value + 1 }, s.granted,
        Function.update s.released sem (s.released sem + 1),
        Function.update s.holders sem ((s.holders sem).erase s.current)⟩
  | hand {sem : Nat} {a : U32} {rest : List U32} (hqueue : (s.sems sem).waitQueue = a :: rest) :
      SemStep s (.call (.releaseSem sem))
        ⟨Function.update s.sems sem { s.sems sem with waitQueue := rest },
          Function.update s.granted sem (s.granted sem + 1),
          Function.update s.released sem (s.released sem + 1),
          Function.update s.holders sem (a :: (s.holders sem).erase s.current)⟩
  | leave {sem : Nat} (hpc : s.pc s.current = .downWoken sem) : SemStep s .next
      ⟨Function.update s.sems sem { s.sems sem with waitQueue := (s.sems sem).waitQueue.erase s.current },
        s.granted, s.released, s.holders⟩

theorem Stepped.semStep {act : Act} (hstep : Stepped s saved act s') : SemStep s act s'.semView := by
  cases hstep with
  | keyboard hcall =>
      obtain ⟨⟨k, flags, rfl⟩, -⟩ := wakeupLoop_spec hcall
      exact .quiet
  | wait hpc hidle =>
      unfold System.waitStart
      split <;> exact .quiet
  | acquire hpc hidle hvalue => exact .acquire hvalue
  | acquireSleep hpc hidle hvalue hcall =>
      obtain ⟨k, hmod, rfl⟩ := down_eq_ok hvalue hcall
      have hcurrent : k.currentTask = s.current := modifyTask_current hmod
      rw [hcurrent]
      exact .block hvalue
  | release hpc hidle hcall =>
      rcases up_eq_ok hcall with ⟨hqueue, rfl⟩ | ⟨a, rest, k, hqueue, hwake, rfl⟩
      · exact .release hqueue
      · exact .hand hqueue
  | readStdin hpc hidle hcall =>
      obtain ⟨k, hmod, rfl⟩ := stdinSleep_eq_ok hcall
      exact .quiet
  | downWoken hpc hcall =>
      obtain ⟨-, rfl⟩ := downWoken_eq_ok hcall
      exact .leave hpc
  | _ => exact .quiet

/-- The value of each semaphore, with `v` as at the start. -/
structure CountInv (v : Nat → Int) (x : SemView) : Prop where
  excl : ∀ i, 0 < (x.sems i).value → (x.sems i).waitQueue = []
  conserve : ∀ i, (x.sems i).value + x.granted i = v i + x.released i
  nonneg : ∀ i, 0 ≤ v i → 0 ≤ (x.sems i).value

theorem CountInv.step {v : Nat → Int} {act : Act} {x : SemView} (h : CountInv v s.semView)
    (hstep : SemStep s act x) : CountInv v x := by
  obtain ⟨hexcl, hconserve, hnonneg⟩ := h
  simp only [System.semView] at hexcl hconserve hnonneg
  -- One semaphore changes, and for that one the three facts are computed from the old ones.
  have hone : ∀ {sem : Nat} {y : Semaphore} {g r : Nat} {gs rs : Nat → Nat} {hs : Nat → List U32},
      (∀ i, i ≠ sem → gs i = s.granted i ∧ rs i = s.released i) → gs sem = g → rs sem = r →
      (0 < y.value → y.waitQueue = []) → y.value + g = v sem + r → (0 ≤ v sem → 0 ≤ y.value) →
      CountInv v ⟨Function.update s.sems sem y, gs, rs, hs⟩ := by
    intro sem y g r gs rs hs hothers hg hr hexcl' hconserve' hnonneg'
    refine ⟨?_, ?_, ?_⟩ <;> intro i <;> dsimp only <;> by_cases hi : i = sem
    · subst hi
      simpa using hexcl'
    · simpa [hi] using hexcl i
    · subst hi
      simpa [hg, hr] using hconserve'
    · simpa [hi, hothers i hi] using hconserve i
    · subst hi
      simpa using hnonneg'
    · simpa [hi] using hnonneg i
  cases hstep with
  | quiet => exact ⟨hexcl, hconserve, hnonneg⟩
  | @acquire sem hvalue =>
      refine hone (fun i hi => ⟨Function.update_of_ne hi _ _, rfl⟩) (Function.update_self ..) rfl ?_ ?_ ?_
      · intro _
        exact hexcl sem hvalue
      · have := hconserve sem
        push_cast
        omega
      · intro _
        dsimp only
        omega
  | @block sem hvalue =>
      refine hone (fun _ _ => ⟨rfl, rfl⟩) rfl rfl ?_ (hconserve sem) (hnonneg sem)
      intro hpos
      exact absurd hpos hvalue
  | @release sem hqueue =>
      refine hone (fun i hi => ⟨rfl, Function.update_of_ne hi _ _⟩) rfl (Function.update_self ..)
        (fun _ => hqueue) ?_ ?_
      · have := hconserve sem
        push_cast
        omega
      · intro hv
        have := hnonneg sem hv
        dsimp only
        omega
  | @hand sem a rest hqueue =>
      refine hone (fun i hi => ⟨Function.update_of_ne hi _ _, Function.update_of_ne hi _ _⟩)
        (Function.update_self ..) (Function.update_self ..) ?_ ?_ (hnonneg sem)
      · intro hpos
        have hnil := hexcl sem hpos
        rw [hqueue] at hnil
        simp at hnil
      · have := hconserve sem
        push_cast
        omega
  | @leave sem hpc =>
      refine hone (fun _ _ => ⟨rfl, rfl⟩) rfl rfl ?_ (hconserve sem) (hnonneg sem)
      intro hpos
      rw [hexcl sem hpos]
      rfl

/-- A step in which `sem` is released by none but a task that holds it. -/
def HeldStep (sem : Nat) (s s' : System) : Prop :=
  ∃ saved act, s.step saved act = some (.ok s') ∧ (act = .call (.releaseSem sem) → s.current ∈ s.holders sem)

/-- The holders of a semaphore are those to whom it has been granted and who have not released it. -/
theorem SemStep.holders {act : Act} {x : SemView} {sem : Nat} (hstep : SemStep s act x)
    (hheld : act = .call (.releaseSem sem) → s.current ∈ s.holders sem)
    (h : (s.holders sem).length + s.released sem = s.granted sem) :
    (x.holders sem).length + x.released sem = x.granted sem := by
  have herase : ∀ {j : Nat}, j = sem → act = .call (.releaseSem j) →
      ((s.holders sem).erase s.current).length + 1 = (s.holders sem).length := by
    rintro j rfl rfl
    have hmem := hheld rfl
    have hpos := List.length_pos_of_mem hmem
    rw [List.length_erase_of_mem hmem]
    omega
  cases hstep with
  | quiet => exact h
  | @acquire j hvalue =>
      by_cases hj : sem = j
      · subst hj
        simp only [Function.update_self, List.length_cons]
        omega
      · simpa [hj] using h
  | block hvalue => exact h
  | @release j hqueue =>
      by_cases hj : sem = j
      · subst hj
        have := herase rfl rfl
        simp only [Function.update_self]
        omega
      · simpa [hj] using h
  | @hand j a rest hqueue =>
      by_cases hj : sem = j
      · subst hj
        have := herase rfl rfl
        simp only [Function.update_self, List.length_cons]
        omega
      · simpa [hj] using h
  | leave hpc => exact h

/-- A task in the queue of a semaphore leaves it in a `releaseSem` only, and as the first one. -/
theorem SemStep.queued {act : Act} {x : SemView} {i : Nat} {a : U32} (hstep : SemStep s act x) (h : QueuesInv s)
    (ha : a ∈ s.queue (.sem i)) :
    a ∈ (x.sems i).waitQueue ∨ act = .call (.releaseSem i) ∧ (s.sems i).waitQueue.head? = some a := by
  change a ∈ (s.sems i).waitQueue at ha
  cases hstep with
  | quiet => exact Or.inl ha
  | @acquire j hvalue | @release j hqueue =>
      by_cases hi : i = j
      · subst hi
        simp [ha]
      · simp [hi, ha]
  | @block j hvalue =>
      by_cases hi : i = j
      · subst hi
        simp [ha]
      · simp [hi, ha]
  | @hand j b rest hqueue =>
      by_cases hi : i = j
      · subst hi
        rw [hqueue, List.mem_cons] at ha
        rcases ha with rfl | ha
        · simp [hqueue]
        · simp [ha]
      · simp [hi, ha]
  | @leave j hpc =>
      have hslept : (s.pc s.current).Slept := by
        rw [hpc]
        trivial
      have hne : a ≠ s.current := by
        rintro rfl
        exact h.not_mem_of_slept hslept (.sem i) ha
      by_cases hi : i = j
      · subst hi
        simp [List.mem_erase_of_ne hne, ha]
      · simp [hi, ha]

/-- The flags that `up` sets let `acquireSem` return. -/
theorem downWoken_ok (sem : Nat) (hflag : s.waitFlags s.current = WT_KSEM) : ∃ s', s.downWoken sem = .ok s' := by
  refine ⟨(s.setSem sem { s.sems sem with waitQueue := (s.sems sem).waitQueue.erase s.current }).goto
    s.current .run, ?_⟩
  have hpanic : panicIf (s.waitFlags s.current ≠ WT_KSEM) "Sem flag is not 0!" = .ok () :=
    panicIf_eq_ok.mpr (not_not.mpr hflag)
  unfold System.downWoken
  exact Res.bind_eq_ok.mpr ⟨(), hpanic, rfl⟩

/-! ### Runs -/

/-- All that holds in every run. -/
structure SysInv (lo hi : Nat) (m₀ : Pmm) (v : Nat → Int) (s : System) : Prop where
  base : SysBase lo hi m₀ s
  queues : QueuesInv s
  counts : CountInv v s.semView

theorem SysInv.step {lo hi : Nat} {m₀ : Pmm} {v : Nat → Int} {act : Act} (h : SysInv lo hi m₀ v s)
    (hstep : s.step saved act = some (.ok s')) : SysInv lo hi m₀ v s' := by
  have hstepped := stepped_of_step hstep
  exact ⟨h.base.step hstepped, h.queues.step h.base hstepped, h.counts.step hstepped.semStep⟩

theorem bootSystem_inv {lo hi : Nat} {m₀ : Pmm} {used : List Extent} {image : KernelImage} {m : Machine}
    {arg : U32} {k₀ : Kernel} (hledger : Ledger lo hi m₀ m used) (hinit : initTask image m arg = .ok k₀)
    (v : Nat → Int) : SysInv lo hi m₀ v (bootSystem k₀ v) := by
  refine ⟨initTask_queue hledger hinit, ?_, ?_⟩
  · have hnil : ∀ w, (bootSystem k₀ v).queue w = [] := by
      intro w
      cases w <;> rfl
    refine ⟨?_, ?_, ?_, ?_, ?_, ?_, rfl⟩
    · intro w
      simp [hnil w]
    · simp [hnil]
    · simp [hnil]
    · simp [hnil]
    · intro i a ha
      simp [bootSystem, Pc.waitPoint] at ha
    · intro a st ha
      have hws : WT_KSEM = WT_NOTWAIT := congrArg Prod.snd (initTask_status hledger hinit ha)
      exact absurd hws (by decide)
  · refine ⟨fun _ _ => rfl, fun _ => ?_, fun _ hv => hv⟩
    simp [bootSystem, System.semView]

theorem sysInv_of_run {lo hi : Nat} {m₀ : Pmm} {used : List Extent} {image : KernelImage} {m : Machine}
    {arg : U32} {k₀ : Kernel} {v : Nat → Int} (hledger : Ledger lo hi m₀ m used)
    (hinit : initTask image m arg = .ok k₀) (hrun : Relation.ReflTransGen SysStep (bootSystem k₀ v) s) :
    SysInv lo hi m₀ v s := by
  induction hrun with
  | refl => exact bootSystem_inv hledger hinit v
  | tail _ hstep ih =>
      obtain ⟨saved, act, hstep⟩ := hstep
      exact ih.step hstep

/-- In every run under preemption: the value of a semaphore is not negative, is positive only while nobody
waits, and counts what has been released and not granted; a task blocked in `down` is in the queue once, asleep,
or has been given the semaphore by an `up`; with one unit and tasks that release what they hold, one task holds it
at most; `acquireSem` does not panic; and a task that sleeps with `WT_KSEM` becomes runnable by the `releaseSem` of
that semaphore only, as the first one in the queue. -/
theorem semaphore_safety {lo hi : Nat} {m₀ : Pmm} {used : List Extent} (image : KernelImage) (m : Machine)
    (arg : U32) (k₀ : Kernel) (hledger : Ledger lo hi m₀ m used) (hinit : initTask image m arg = .ok k₀)
    (v : Nat → Int) (hrun : Relation.ReflTransGen SysStep (bootSystem k₀ v) s) (sem : Nat) (hv : 0 ≤ v sem) :
    0 ≤ (s.sems sem).value ∧
      (0 < (s.sems sem).value → (s.sems sem).waitQueue = []) ∧
      (s.sems sem).value + s.granted sem = v sem + s.released sem ∧
      (∀ a, s.pc a = .downSched sem ∨ s.pc a = .downWoken sem →
        ((s.sems sem).waitQueue.count a = 1 ∧ s.kernel.status a = some (.sleeping, WT_KSEM)) ∨
          (a ∉ (s.sems sem).waitQueue ∧ s.waitFlags a = WT_KSEM ∧ a ∈ s.holders sem)) ∧
      (v sem = 1 → Relation.ReflTransGen (HeldStep sem) (bootSystem k₀ v) s → (s.holders sem).length ≤ 1) ∧
      (∀ saved, s.pc s.current = .downWoken sem → ∃ s', s.step saved .next = some (.ok s')) ∧
      ∀ a st, s.kernel.status a = some (st, WT_KSEM) → ∃ i, (s.sems i).waitQueue.count a = 1 ∧
        (s.pc a = .downSched i ∨ s.pc a = .downWoken i) ∧
        ∀ saved act s' ws, s.step saved act = some (.ok s') → s'.kernel.status a = some (.runnable, ws) →
          act = .call (.releaseSem i) ∧ (s.sems i).waitQueue.head? = some a := by
  have h := sysInv_of_run hledger hinit hrun
  have hcount : ∀ i a, a ∈ s.queue (.sem i) → (s.sems i).waitQueue.count a = 1 := fun i a ha =>
    List.count_eq_one_of_mem (h.queues.nodup (.sem i)) ha
  refine ⟨h.counts.nonneg sem hv, h.counts.excl sem, h.counts.conserve sem, ?_, ?_, ?_, ?_⟩
  · intro a ha
    by_cases hmem : a ∈ s.queue (.sem sem)
    · exact Or.inl ⟨hcount sem a hmem, h.queues.status _ a hmem⟩
    · exact Or.inr ⟨hmem, (h.queues.blocked sem a (Pc.waitPoint_sem_iff.mpr ha)).resolve_left hmem⟩
  · intro hone hheld
    have hholders : (s.holders sem).length + s.released sem = s.granted sem := by
      clear h hcount hrun
      induction hheld with
      | refl => rfl
      | tail _ hstep ih =>
          obtain ⟨saved, act, hstep, hheld⟩ := hstep
          exact (stepped_of_step hstep).semStep.holders hheld ih
    have hconserve : (s.sems sem).value + s.granted sem = v sem + s.released sem := h.counts.conserve sem
    have hnonneg : 0 ≤ (s.sems sem).value := h.counts.nonneg sem hv
    omega
  · intro saved hpc
    have hout : s.current ∉ s.queue (.sem sem) := h.queues.not_mem_of_slept (by rw [hpc]; trivial) _
    have hflag := ((h.queues.blocked sem _ (by rw [hpc]; rfl)).resolve_left hout).1
    obtain ⟨s', hs'⟩ := downWoken_ok sem hflag
    refine ⟨s', ?_⟩
    simp only [System.step, hpc, System.next, hs']
  · intro a st hstatus
    obtain ⟨i, hi⟩ := h.queues.reason a st hstatus
    refine ⟨i, hcount i a hi, Pc.waitPoint_sem_iff.mp (h.queues.place _ a hi), ?_⟩
    intro saved act s' ws hstep hready
    have hstepped := stepped_of_step hstep
    rcases hstepped.semStep.queued h.queues hi with hstay | hleft
    · -- Who is still in the queue is still asleep.
      have hasleep := (h.queues.step h.base hstepped).status (.sem i) a hstay
      rw [hready] at hasleep
      simp at hasleep
    · exact hleft

end Queues

/-- `init_task` takes a semaphore, its child waits for it, and gets it when `init_task` releases it. -/
theorem semaphore_safety_child_waits : ∃ k₀ s, initTask smallImage fortyFrames 0 = .ok k₀ ∧
    Relation.ReflTransGen SysStep (bootSystem k₀ fun _ => 1) s ∧ s.pc s.current = .downWoken 0 ∧
    s.current ∈ s.holders 0 ∧ ∃ s', s.step noContext .next = some (.ok s') := by
  have heval : (bootSteps (fun _ => 1) [.call .yield, .call (.acquireSem 0), .call (.fork 0 0 noFrame),
      .call .yield, .call (.acquireSem 0), .next, .call (.releaseSem 0), .call .yield]).map
        (fun x => (x.2.pc x.2.current, decide (x.2.current ∈ x.2.holders 0))) = some (.downWoken 0, true) := by
    decide +kernel
  obtain ⟨⟨k₀, s⟩, hsteps, heval⟩ := Option.map_eq_some_iff.mp heval
  obtain ⟨hpc, hholds⟩ := Prod.mk.inj heval
  obtain ⟨hinit, hsteps⟩ := bootSteps_eq_some hsteps
  have hrun := sysSteps_of_steps hsteps
  have hsafe := semaphore_safety smallImage fortyFrames 0 k₀ fortyFrames_ledger hinit (fun _ => 1) hrun 0
    (by decide)
  exact ⟨k₀, s, hinit, hrun, hpc, of_decide_eq_true hholds, hsafe.2.2.2.2.2.1 noContext hpc⟩

end Krnl
end FreakOS
