import FreakOS.Lib.HandOff
import FreakOS.Krnl.Semaphores

/-!
# In which order a semaphore is granted

`up` does not increment `value` while somebody waits: the unit goes to the first in the queue, who is only made runnable.
This is a semaphore that hands over, in the sense of `Lib.HandOff`.

* `semEvents`, `SemRun` — a run, with what happens to one semaphore.
* `SemRun.handOff` — every run is one of `Lib.HandOff`.
* `Handed` — a task to which the semaphore has been handed, until its `acquireSem` returns.
* `semaphore_grants_in_order` — the order of arrival, and that nobody gets in between.
-/

namespace FreakOS
namespace Krnl

open Lib
open Memory
open FreakOS.Krnl.System

/-! ### Runs -/

/-- Value and queue. -/
def Semaphore.handOff (x : Semaphore) : HandOff U32 := ⟨x.value, x.waitQueue⟩

/-- What `acquireSem(sem)` and `releaseSem(sem)` are about to do to `sem`. -/
def semEvents (sem : Nat) (s : System) : Act → List (HandOff.Event U32)
  | .call (.acquireSem i) =>
      if i ≠ sem then []
      else if (s.sems sem).value > 0 then [.take s.current]
      else [.wait s.current]
  | .call (.releaseSem i) =>
      if i ≠ sem then []
      else
        match (s.sems sem).waitQueue with
        | [] => [.deposit]
        | a :: _ => [.hand a]
  | _ => []

/-- A run from `s₀` on, with what has happened to `sem`. -/
inductive SemRun (sem : Nat) (s₀ : System) : List (HandOff.Event U32) → System → Prop
  | refl : SemRun sem s₀ [] s₀
  | step {es : List (HandOff.Event U32)} {s s' : System} {saved : Context} {act : Act} (hrun : SemRun sem s₀ es s)
      (hstep : s.step saved act = some (.ok s')) : SemRun sem s₀ (es ++ semEvents sem s act) s'

section Fifo

variable {s s' s₀ : System} {saved : Context} {act : Act} {sem : Nat} {a : U32}

theorem SemRun.sysSteps {es : List (HandOff.Event U32)} (hrun : SemRun sem s₀ es s) :
    Relation.ReflTransGen SysStep s₀ s := by
  induction hrun with
  | refl => exact .refl
  | step hrun hstep ih => exact ih.tail ⟨_, _, hstep⟩

/-- A step does to a semaphore what its events say. -/
theorem Stepped.handOff (h : QueuesInv s) (hstep : Stepped s saved act s') :
    HandOff.Run (s.sems sem).handOff (semEvents sem s act) (s'.sems sem).handOff := by
  have hone : ∀ {e : HandOff.Event U32} {x y : HandOff U32}, HandOff.Step x e y → HandOff.Run x [e] y :=
    fun hstep => .snoc .nil hstep
  cases hstep with
  | keyboard hcall =>
      obtain ⟨⟨k, flags, rfl⟩, -⟩ := wakeupLoop_spec hcall
      exact .nil
  | wait hpc hidle =>
      unfold System.waitStart
      split <;> exact .nil
  | @acquire i hpc hidle hvalue =>
      by_cases hi : i = sem
      · subst hi
        simp only [semEvents, ne_eq, not_true_eq_false, if_false, gt_iff_lt, if_pos hvalue, System.setSem, System.grant,
          Function.update_self]
        exact hone (.take _ hvalue)
      · simp only [semEvents, if_pos hi, System.setSem, System.grant, Function.update_of_ne (Ne.symm hi)]
        exact .nil
  | @acquireSleep i _ hpc hidle hvalue hcall =>
      obtain ⟨k, hmod, rfl⟩ := down_eq_ok hvalue hcall
      have hcurrent : k.currentTask = s.current := modifyTask_current hmod
      by_cases hi : i = sem
      · subst hi
        simp only [semEvents, ne_eq, not_true_eq_false, if_false, gt_iff_lt, if_neg hvalue, Function.update_self, hcurrent]
        exact hone (.wait _ hvalue)
      · simp only [semEvents, if_pos hi, Function.update_of_ne (Ne.symm hi)]
        exact .nil
  | @release i _ hpc hidle hcall =>
      by_cases hi : i = sem
      · subst hi
        rcases up_eq_ok hcall with ⟨hqueue, rfl⟩ | ⟨b, rest, k, hqueue, hwake, rfl⟩
        · have hevent : semEvents i s (.call (.releaseSem i)) = [.deposit] := by simp [semEvents, hqueue]
          rw [hevent]
          simp only [Function.update_self]
          exact hone (.deposit hqueue)
        · have hevent : semEvents i s (.call (.releaseSem i)) = [.hand b] := by simp [semEvents, hqueue]
          rw [hevent]
          simp only [Function.update_self]
          exact hone (.hand hqueue)
      · simp only [semEvents, if_pos hi]
        rcases up_eq_ok hcall with ⟨hqueue, rfl⟩ | ⟨b, rest, k, hqueue, hwake, rfl⟩
        · simp only [Function.update_of_ne (Ne.symm hi)]
          exact .nil
        · simp only [Function.update_of_ne (Ne.symm hi)]
          exact .nil
  | readStdin hpc hidle hcall =>
      obtain ⟨k, hmod, rfl⟩ := stdinSleep_eq_ok hcall
      exact .nil
  | @downWoken i _ hpc hcall =>
      -- Who has slept is in no queue, so that nothing is removed.
      obtain ⟨-, rfl⟩ := downWoken_eq_ok hcall
      have hout : s.current ∉ (s.sems i).waitQueue := h.not_mem_of_slept (by rw [hpc]; trivial) (.sem i)
      have hsame : s.setSem i { s.sems i with waitQueue := (s.sems i).waitQueue.erase s.current } = s := by
        unfold System.setSem
        rw [List.erase_of_not_mem hout, Function.update_eq_self]
      rw [hsame]
      exact .nil
  | _ => exact .nil

/-- Every run does to a semaphore what its events say. -/
theorem SemRun.handOff {lo hi : Nat} {m₀ : Pmm} {v : Nat → Int} {es : List (HandOff.Event U32)}
    (h : SysInv lo hi m₀ v s₀) (hrun : SemRun sem s₀ es s) :
    SysInv lo hi m₀ v s ∧ HandOff.Run (s₀.sems sem).handOff es (s.sems sem).handOff := by
  induction hrun with
  | refl => exact ⟨h, .nil⟩
  | step hrun hstep ih =>
      obtain ⟨hinv, hevents⟩ := ih
      exact ⟨hinv.step hstep, hevents.append ((stepped_of_step hstep).handOff hinv.queues)⟩

/-! ### Who has been handed the semaphore -/

/-- The semaphore has been handed to the task at `a`, whose `acquireSem` has not returned yet. -/
structure Handed (sem : Nat) (s : System) (a : U32) : Prop where
  place : s.pc a = .downSched sem ∨ s.pc a = .downWoken sem
  awake : s.kernel.status a = some (.runnable, WT_NOTWAIT)
  flags : s.waitFlags a = WT_KSEM
  holds : a ∈ s.holders sem

namespace Handed

/-- Nothing has happened to the task. -/
theorem frame (h : Handed sem s a) (hpc : s'.pc a = s.pc a) (hstatus : s'.kernel.status a = s.kernel.status a)
    (hflags : s'.waitFlags a = s.waitFlags a) (hholds : a ∈ s.holders sem → a ∈ s'.holders sem) : Handed sem s' a :=
  ⟨hpc ▸ h.place, hstatus.trans h.awake, hflags.trans h.flags, hholds h.holds⟩

/-- A task that is somewhere else is another task. -/
theorem ne_current (h : Handed sem s a) (hsched : s.pc s.current ≠ .downSched sem)
    (hwoken : s.pc s.current ≠ .downWoken sem) : a ≠ s.current := by
  rintro rfl
  exact h.place.elim hsched hwoken

/-- It is in no queue. -/
theorem not_queued (h : Handed sem s a) (hq : QueuesInv s) (w : WaitPoint) : a ∉ s.queue w := by
  refine hq.not_mem_of_status (fun ws hws => ?_) w
  rw [h.awake] at hws
  simp at hws

/-- The scheduler runs, and the task that called it goes on at `pc`. -/
theorem switch (h : Handed sem s a) {k : Kernel} (hk : Switched s.kernel k) {pc : Pc}
    (hpc : a = s.current → pc = .downSched sem ∨ pc = .downWoken sem) :
    Handed sem ((s.goto s.current pc).setKernel k) a := by
  refine ⟨?_, (hk.status a).trans h.awake, h.flags, h.holds⟩
  rw [setKernel_pc]
  by_cases ha : a = s.current
  · rw [ha, goto_pc_self]
    exact hpc ha
  · rw [goto_pc_of_ne _ _ ha]
    exact h.place

/-- Another task does something for itself. -/
theorem move (h : Handed sem s a) (ha : a ≠ s.current) {k : Kernel} (hk : Acted s.kernel k) (pc : Pc) :
    Handed sem ((s.setKernel k).goto k.currentTask pc) a := by
  have hcurrent : k.currentTask = s.current := hk.current
  refine h.frame ?_ ?_ rfl id
  · exact goto_pc_of_ne _ _ (hcurrent ▸ ha)
  · have hwake := hk.others a ha
    rw [h.awake] at hwake
    exact (hwake.eq_of_ne (Or.inr (by decide))).trans h.awake.symm

/-- What is handed to it stays its own until its `acquireSem` returns. -/
theorem step {lo hi : Nat} {m₀ : Pmm} (h : Handed sem s a) (hq : QueuesInv s) (hbase : SysBase lo hi m₀ s)
    (hstep : Stepped s saved act s') :
    Handed sem s' a ∨ (act = .next ∧ s.current = a ∧ s.pc a = .downWoken sem ∧ s'.pc a = .run ∧ a ∈ s'.holders sem) := by
  obtain ⟨⟨used, hk⟩, hrun⟩ := hbase
  have hother : ∀ {pc : Pc}, s.pc s.current = pc → pc ≠ .downSched sem → pc ≠ .downWoken sem → a ≠ s.current := by
    intro pc hpc hsched hwoken
    exact h.ne_current (hpc ▸ hsched) (hpc ▸ hwoken)
  have hmove : ∀ {pc : Pc} {k : Kernel} (pc' : Pc), s.pc s.current = pc → pc.waitPoint = none → Acted s.kernel k →
      Handed sem ((s.setKernel k).goto k.currentTask pc') a := by
    intro pc k pc' hpc hplace hacted
    refine h.move (h.ne_current ?_ ?_) hacted pc'
    · intro heq
      rw [← hpc, heq] at hplace
      simp [Pc.waitPoint] at hplace
    · intro heq
      rw [← hpc, heq] at hplace
      simp [Pc.waitPoint] at hplace
  have hstay : Acted s.kernel s.kernel := .of_roused (.refl _)
  have hself : s.goto s.current (s.pc s.current) = s := by
    unfold System.goto
    rw [Function.update_eq_self]
  have htick : ∀ {k : Kernel}, Switched s.kernel k → Handed sem (s.setKernel k) a := by
    intro k hswitch
    have hafter : Handed sem ((s.goto s.current (s.pc s.current)).setKernel k) a :=
      h.switch hswitch fun ha => ha ▸ h.place
    rwa [hself] at hafter
  have hsched : ∀ {k : Kernel} {pc : Pc} (pc' : Pc), s.pc s.current = pc → pc ≠ .downSched sem → pc ≠ .downWoken sem →
      schedule s.kernel saved = .ok k → Handed sem ((s.goto s.current pc').setKernel k) a := by
    intro k pc pc' hpc hne hne' hcall
    exact h.switch (switched_of_schedule hrun hk.null hcall) fun ha => absurd ha (hother hpc hne hne')
  -- The timer comes after the running task has written to its own structure.
  have hticked : ∀ {pc : Pc} {k₁ k : Kernel} (pc' : Pc), s.pc s.current = pc → pc.waitPoint = none →
      Acted s.kernel k₁ → Relation.ReflTransGen QueueStep s.kernel k₁ → timerCallBack k₁ saved = .ok k →
      Handed sem ((s.goto k₁.currentTask pc').setKernel k) a := by
    intro pc k₁ k pc' hpc hplace hacted hsteps hcall
    obtain ⟨⟨used₁, hk₁⟩, hrun₁⟩ := queueSteps_inv hsteps ⟨⟨used, hk⟩, hrun⟩
    have hswitch := switched_of_timer hrun₁ hk₁.null hcall
    exact (hmove pc' hpc hplace hacted).frame rfl (hswitch.status a) rfl id
  cases hstep with
  | tick hcall => exact Or.inl (htick (switched_of_timer hrun hk.null hcall))
  | keyboard hcall =>
      obtain ⟨⟨k, flags, rfl⟩, -, -, hothers, -⟩ := wakeupLoop_spec hcall
      obtain ⟨hstatus, hflags⟩ := hothers a (h.not_queued hq .stdin)
      exact Or.inl (h.frame rfl hstatus hflags id)
  | yield hpc hcall => exact Or.inl (htick (switched_of_schedule hrun hk.null hcall))
  | fork hpc hidle hcall =>
      obtain ⟨-, -, hstatus⟩ := doFork_status hk hcall
      refine Or.inl (h.frame rfl ?_ rfl id)
      rcases hstatus with hsame | ⟨b, hfresh, -, hothers⟩
      · exact hsame a
      · refine hothers a ?_
        rintro rfl
        have hnone : s.kernel.status a = none := congrArg (Option.map Task.status) hfresh
        rw [h.awake] at hnone
        simp at hnone
  | exit hpc hidle hcall =>
      rw [hk.exitMm hcall]
      exact Or.inl (hmove _ hpc rfl hstay)
  | wait hpc hidle =>
      unfold System.waitStart
      split
      · exact Or.inl h
      · exact Or.inl (hmove _ hpc rfl hstay)
  | @acquire i hpc hidle hvalue =>
      refine Or.inl (h.frame rfl rfl rfl fun hmem => ?_)
      by_cases hi : sem = i
      · subst hi
        simp [System.grant, System.setSem, hmem]
      · simpa [System.grant, System.setSem, hi] using hmem
  | acquireSleep hpc hidle hvalue hcall =>
      obtain ⟨k, hmod, rfl⟩ := down_eq_ok hvalue hcall
      have hcurrent : k.currentTask = s.current := modifyTask_current hmod
      have ha : a ≠ s.current := hother hpc (by simp) (by simp)
      rw [hcurrent]
      exact Or.inl (h.frame (Function.update_of_ne ha _ _) (modifyTask_status_of_ne hmod ha)
        (Function.update_of_ne ha _ _) id)
  | @release i _ hpc hidle hcall =>
      have ha : a ≠ s.current := hother hpc (by simp) (by simp)
      rcases up_eq_ok hcall with ⟨hqueue, rfl⟩ | ⟨b, rest, k, hqueue, hwake, rfl⟩
      · refine Or.inl (h.frame rfl rfl rfl fun hmem => ?_)
        by_cases hi : sem = i
        · subst hi
          simp [List.mem_erase_of_ne ha, hmem]
        · simpa [hi] using hmem
      · have hb : a ≠ b := by
          rintro rfl
          exact h.not_queued hq (.sem i) (show a ∈ (s.sems i).waitQueue by simp [hqueue])
        refine Or.inl (h.frame rfl ((wakeupTask_status hwake).2.1 a hb) (Function.update_of_ne hb _ _) fun hmem => ?_)
        by_cases hi : sem = i
        · subst hi
          simp [List.mem_erase_of_ne ha, hmem]
        · simpa [hi] using hmem
  | readStdin hpc hidle hcall =>
      obtain ⟨k, hmod, rfl⟩ := stdinSleep_eq_ok hcall
      have hcurrent : k.currentTask = s.current := modifyTask_current hmod
      have ha : a ≠ s.current := hother hpc (by simp) (by simp)
      rw [hcurrent]
      exact Or.inl (h.frame (Function.update_of_ne ha _ _) (modifyTask_status_of_ne hmod ha)
        (Function.update_of_ne ha _ _) id)
  | @downSched i k hpc hcall =>
      refine Or.inl (h.switch (switched_of_schedule hrun hk.null hcall) fun ha => Or.inr ?_)
      -- It waits for `sem` and for nothing else.
      rcases h.place with hplace | hplace
      · rw [ha, hpc] at hplace
        rw [Pc.downSched.inj hplace]
      · rw [ha, hpc] at hplace
        simp at hplace
  | @downWoken i _ hpc hcall =>
      obtain ⟨-, rfl⟩ := downWoken_eq_ok hcall
      by_cases ha : a = s.current
      · subst ha
        refine Or.inr ⟨rfl, rfl, ?_, goto_pc_self .., h.holds⟩
        exact h.place.resolve_left (by simp [hpc])
      · exact Or.inl (h.frame (goto_pc_of_ne _ _ ha) rfl rfl id)
  | stdinSched hpc hcall => exact Or.inl (hsched _ hpc (by simp) (by simp) hcall)
  | stdinWoken hpc =>
      have ha : a ≠ s.current := hother hpc (by simp) (by simp)
      exact Or.inl (h.frame (goto_pc_of_ne _ _ ha) rfl rfl id)
  | exitMark hpc hmark hcode hcall =>
      have hmarked := Acted.modifyTask hmark fun _ => Or.inr rfl
      have hcoded := Acted.modifyTask hcode fun _ => Or.inr rfl
      exact Or.inl (hmove _ hpc rfl ((hmarked.trans hcoded).trans (.of_roused (.handOver hcall))))
  | exitCode hpc hcode hcall =>
      have hcoded := Acted.modifyTask hcode fun _ => Or.inr rfl
      exact Or.inl (hmove _ hpc rfl (hcoded.trans (.of_roused (.handOver hcall))))
  | exitSection hpc hcall => exact Or.inl (hmove _ hpc rfl (.of_roused (.handOver hcall)))
  | exitSched hpc hcall hreturn => exact Or.inl (hsched _ hpc (by simp) (by simp) hcall)
  | waitChild hpc hpid hcall => exact Or.inl (hmove _ hpc rfl hstay)
  | waitFirst hpc ht => exact Or.inl (hmove _ hpc rfl hstay)
  | waitEnd hpc => exact Or.inl (hmove _ hpc rfl hstay)
  | waitRound hpc ht hstate => exact Or.inl (hmove _ hpc rfl hstay)
  | @reap codeStore task t res k hpc ht hstate hcall =>
      obtain ⟨hcurrent, -, hne, -, hothers⟩ := reap_status hcall
      have ha : a ≠ s.current := by
        rcases hpc with ⟨pid, haskid, hpc, -⟩ | ⟨haskid, hpc⟩
        · exact hother hpc (by simp) (by simp)
        · exact hother hpc (by simp) (by simp)
      -- The task that is freed is a zombie.
      have htask : a ≠ task := by
        rintro rfl
        have hzombie := status_eq_some ht
        rw [h.awake, hstate] at hzombie
        simp at hzombie
      refine Or.inl (h.frame ?_ (hothers a htask) rfl id)
      rw [goto_pc_of_ne _ _ ha, goto_pc_of_ne _ _ htask]
      rfl
  | waitMark hpc hmark hcall =>
      have hmarked := Acted.modifyTask hmark fun _ => Or.inr rfl
      have hreason := Acted.modifyTask hcall fun _ => Or.inl rfl
      exact Or.inl (hmove _ hpc rfl (hmarked.trans hreason))
  | waitReason hpc hcall => exact Or.inl (hmove _ hpc rfl (Acted.modifyTask hcall fun _ => Or.inl rfl))
  | waitSched hpc hcall => exact Or.inl (hsched _ hpc (by simp) (by simp) hcall)
  | waitWoken hpc ht hflags => exact Or.inl (hmove _ hpc rfl hstay)
  | waitKilled hpc ht hflags hidle hcall =>
      rw [hk.exitMm hcall]
      exact Or.inl (hmove _ hpc rfl hstay)
  | tickInExit hpc hmark hcall =>
      have hmarked := Acted.modifyTask hmark fun _ => Or.inr rfl
      exact Or.inl (hticked _ hpc rfl hmarked (.single (.markZombie hmark)) hcall)
  | tickBeforeSection hpc hmark hcode hcall =>
      have hmarked := Acted.modifyTask hmark fun _ => Or.inr rfl
      have hcoded := Acted.modifyTask hcode fun _ => Or.inr rfl
      exact Or.inl (hticked _ hpc rfl (hmarked.trans hcoded)
        (.tail (.single (.markZombie hmark)) (.storeExitCode hcode)) hcall)
  | tickInWait hpc hmark hcall =>
      have hmarked := Acted.modifyTask hmark fun _ => Or.inr rfl
      exact Or.inl (hticked _ hpc rfl hmarked (.single (.markSleeping hmark)) hcall)

/-- `releaseSem` hands the semaphore to the first in the queue. -/
theorem of_hand (hq : QueuesInv s) (hstep : Stepped s saved act s')
    (hhand : HandOff.Event.hand a ∈ semEvents sem s act) : Handed sem s' a := by
  cases hstep with
  | @acquire i | @acquireSleep i =>
      simp only [semEvents] at hhand
      split at hhand
      · simp at hhand
      · split at hhand <;> simp at hhand
  | @release i _ hpc hidle hcall =>
      simp only [semEvents] at hhand
      split at hhand
      · simp at hhand
      · rename_i hi
        obtain rfl : i = sem := not_not.mp hi
        rcases up_eq_ok hcall with ⟨hqueue, rfl⟩ | ⟨b, rest, k, hqueue, hwake, rfl⟩
        · simp [hqueue] at hhand
        · obtain rfl : a = b := by simpa [hqueue] using hhand
          have hfirst : a ∈ s.queue (.sem i) := show a ∈ (s.sems i).waitQueue by simp [hqueue]
          refine ⟨Pc.waitPoint_sem_iff.mp (hq.place _ a hfirst), ?_, Function.update_self .., ?_⟩
          · obtain ⟨-, -, ws, ⟨hbefore, -⟩ | ⟨-, hafter⟩⟩ := wakeupTask_status hwake
            · rw [hq.status _ a hfirst] at hbefore
              simp at hbefore
            · exact hafter
          · simp
  | _ => simp [semEvents] at hhand

end Handed

/-- **Semaphores are granted in the order of arrival.**  In every run under preemption: the tasks that had to wait for a
semaphore are, in this order, those to which it has been handed and those that are in its queue; after it has been handed
over, `acquireSem` gets at once no more units than `releaseSem` has put back since; the task to which it has been handed
holds it from then on until its `acquireSem` returns, whatever the others do; and its `acquireSem` does return when it
goes on. -/
theorem semaphore_grants_in_order {lo hi : Nat} {m₀ : Pmm} {used : List Extent} (image : KernelImage) (m : Machine)
    (arg : U32) (k₀ : Kernel) (hledger : Ledger lo hi m₀ m used) (hinit : initTask image m arg = .ok k₀)
    (v : Nat → Int) (sem : Nat) {es : List (HandOff.Event U32)} (hrun : SemRun sem (bootSystem k₀ v) es s) :
    HandOff.waits es = HandOff.hands es ++ (s.sems sem).waitQueue ∧
      (∀ before a after, es = before ++ .hand a :: after →
        (HandOff.takes after).length ≤ HandOff.deposits after) ∧
      (∀ saved act s' a, s.step saved act = some (.ok s') → .hand a ∈ semEvents sem s act → Handed sem s' a) ∧
      (∀ saved act s' a, s.step saved act = some (.ok s') → Handed sem s a → Handed sem s' a ∨
        (act = .next ∧ s.current = a ∧ s.pc a = .downWoken sem ∧ s'.pc a = .run ∧ a ∈ s'.holders sem)) ∧
      (∀ saved, Handed sem s s.current → s.pc s.current = .downWoken sem → ∃ s', s.step saved .next = some (.ok s')) := by
  obtain ⟨hinv, hevents⟩ := hrun.handOff (bootSystem_inv hledger hinit v)
  have hfifo : HandOff.waits es = HandOff.hands es ++ (s.sems sem).waitQueue := hevents.fifo
  have hexcl : HandOff.Excl ((bootSystem k₀ v).sems sem).handOff := fun _ => rfl
  refine ⟨hfifo, ?_, ?_, ?_, ?_⟩
  · rintro before a after rfl
    exact hevents.takes_le_of_hand hexcl
  · intro saved act s' a hstep hhand
    exact Handed.of_hand hinv.queues (stepped_of_step hstep) hhand
  · intro saved act s' a hstep hhanded
    exact hhanded.step hinv.queues hinv.base (stepped_of_step hstep)
  · intro saved hhanded hpc
    obtain ⟨s', hs'⟩ := downWoken_ok sem hhanded.flags
    refine ⟨s', ?_⟩
    simp only [System.step, hpc, System.next, hs']

/-- What a sequence of steps does to `sem`. -/
def semLog (sem : Nat) (saved : Context) : List Act → System → List (HandOff.Event U32)
  | [], _ => []
  | act :: acts, s => semEvents sem s act ++
      match s.step saved act with
      | some (.ok s') => semLog sem saved acts s'
      | _ => []

theorem SemRun.of_steps {es : List (HandOff.Event U32)} {acts : List Act} (hrun : SemRun sem s₀ es s)
    (hsteps : s.steps saved acts = some s') : SemRun sem s₀ (es ++ semLog sem saved acts s) s' := by
  induction acts generalizing s es with
  | nil =>
      obtain rfl := Option.some.inj hsteps
      exact (List.append_nil es).symm ▸ hrun
  | cons act acts ih =>
      unfold System.steps at hsteps
      split at hsteps
      · rename_i hstep
        have hrest := ih (hrun.step hstep) hsteps
        rw [List.append_assoc] at hrest
        simpa only [semLog, hstep] using hrest
      · simp at hsteps

end Fifo

/-- `init_task` takes a semaphore, its child has to wait for it, and `init_task` releases it. -/
def childHasToWait : List Act := [.call .yield, .call (.acquireSem 0), .call (.fork 0 0 noFrame), .call .yield,
  .call (.acquireSem 0), .next, .call (.releaseSem 0)]

/-- The child is handed the semaphore. -/
theorem semaphore_grants_in_order_child_waits : ∃ k₀ es s, initTask smallImage fortyFrames 0 = .ok k₀ ∧
    SemRun 0 (bootSystem k₀ fun _ => 1) es s ∧ (HandOff.hands es).length = 1 ∧
    HandOff.waits es = HandOff.hands es ++ (s.sems 0).waitQueue := by
  have heval : (bootSteps (fun _ => 1) childHasToWait).map (fun x =>
      (HandOff.hands (semLog 0 noContext childHasToWait (bootSystem x.1 fun _ => 1))).length) = some 1 := by
    decide +kernel
  obtain ⟨⟨k₀, s⟩, hsteps, heval⟩ := Option.map_eq_some_iff.mp heval
  obtain ⟨hinit, hsteps⟩ := bootSteps_eq_some hsteps
  have hrun := (SemRun.refl : SemRun 0 (bootSystem k₀ fun _ => 1) [] _).of_steps hsteps
  exact ⟨k₀, _, s, hinit, hrun, heval,
    (semaphore_grants_in_order smallImage fortyFrames 0 k₀ fortyFrames_ledger hinit (fun _ => 1) 0 hrun).1⟩

end Krnl
end FreakOS
