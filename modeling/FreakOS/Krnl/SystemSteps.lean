import FreakOS.Krnl.System
import FreakOS.Krnl.Status

/-!
# What a step under preemption does

* `Stepped` — the cases of `System.step`, with the system after the step written out.
* `stepped_of_step` — every step is one of them.
* `Stepped.queueSteps` — on the kernel a step is a sequence of the steps of the run queue, so the invariants of
  the task list and of the run queue hold in every run (`SysBase`).
-/

namespace FreakOS
namespace Krnl

open Lib
open Memory

namespace System

@[simp] theorem setKernel_kernel (s : System) (k : Kernel) : (s.setKernel k).kernel = k := rfl
@[simp] theorem goto_kernel (s : System) (a : U32) (pc : Pc) : (s.goto a pc).kernel = s.kernel := rfl
@[simp] theorem setKernel_pc (s : System) (k : Kernel) : (s.setKernel k).pc = s.pc := rfl
@[simp] theorem goto_pc_self (s : System) (a : U32) (pc : Pc) : (s.goto a pc).pc a = pc := Function.update_self ..

theorem goto_pc_of_ne (s : System) {a b : U32} (pc : Pc) (hb : b ≠ a) : (s.goto a pc).pc b = s.pc b :=
  Function.update_of_ne hb _ _

theorem lift_eq_ok {s s' : System} {f : Kernel → Res Kernel} :
    s.lift f = .ok s' ↔ ∃ k, f s.kernel = .ok k ∧ s' = s.setKernel k := by
  unfold lift
  rw [Res.bind_eq_ok]
  simp only [pure, Except.pure, Except.ok.injEq, eq_comm]

end System

open FreakOS.Krnl.System

/-- The system after a step. -/
inductive Stepped (s : System) (saved : Context) : Act → System → Prop
  | tick {k : Kernel} (hcall : timerCallBack s.kernel saved = .ok k) : Stepped s saved .tick (s.setKernel k)
  | keyboard {s' : System} (hcall : wakeupLoop WT_KBD s.stdinQueue { s with stdinQueue := [] } = .ok s') :
      Stepped s saved .keyboard s'
  | yield {k : Kernel} (hpc : s.pc s.current = .run) (hcall : schedule s.kernel saved = .ok k) :
      Stepped s saved (.call .yield) (s.setKernel k)
  | fork {flags stack : U32} {frame : InterruptFrame} {ret : Int} {k : Kernel} (hpc : s.pc s.current = .run)
      (hidle : s.current ≠ s.kernel.idleTask) (hcall : doFork s.kernel flags stack frame = .ok (ret, k)) :
      Stepped s saved (.call (.fork flags stack frame)) (s.setKernel k)
  | exit {errCode : Int} {k : Kernel} (hpc : s.pc s.current = .run) (hidle : s.current ≠ s.kernel.idleTask)
      (hcall : exitMm s.kernel = .ok k) :
      Stepped s saved (.call (.exit errCode)) ((s.setKernel k).goto k.currentTask (.exitMark errCode))
  | wait {pid codeStore : U32} (hpc : s.pc s.current = .run) (hidle : s.current ≠ s.kernel.idleTask) :
      Stepped s saved (.call (.wait pid codeStore)) (s.waitStart pid codeStore)
  | acquire {sem : Nat} (hpc : s.pc s.current = .run) (hidle : s.current ≠ s.kernel.idleTask)
      (hvalue : 0 < (s.sems sem).value) :
      Stepped s saved (.call (.acquireSem sem))
        ((s.setSem sem { s.sems sem with value := (s.sems sem).value - 1 }).grant sem s.current)
  | acquireSleep {sem : Nat} {s' : System} (hpc : s.pc s.current = .run)
      (hidle : s.current ≠ s.kernel.idleTask) (hvalue : ¬ 0 < (s.sems sem).value)
      (hcall : s.down sem = .ok s') : Stepped s saved (.call (.acquireSem sem)) s'
  | release {sem : Nat} {s' : System} (hpc : s.pc s.current = .run) (hidle : s.current ≠ s.kernel.idleTask)
      (hcall : s.up sem = .ok s') : Stepped s saved (.call (.releaseSem sem)) s'
  | readStdin {s' : System} (hpc : s.pc s.current = .run) (hidle : s.current ≠ s.kernel.idleTask)
      (hcall : s.stdinSleep = .ok s') : Stepped s saved (.call .readStdin) s'
  | downSched {sem : Nat} {k : Kernel} (hpc : s.pc s.current = .downSched sem)
      (hcall : schedule s.kernel saved = .ok k) :
      Stepped s saved .next ((s.goto s.current (.downWoken sem)).setKernel k)
  | downWoken {sem : Nat} {s' : System} (hpc : s.pc s.current = .downWoken sem)
      (hcall : s.downWoken sem = .ok s') : Stepped s saved .next s'
  | stdinSched {k : Kernel} (hpc : s.pc s.current = .stdinSched) (hcall : schedule s.kernel saved = .ok k) :
      Stepped s saved .next ((s.goto s.current .stdinWoken).setKernel k)
  | stdinWoken (hpc : s.pc s.current = .stdinWoken) : Stepped s saved .next s.stdinWoken
  | exitMark {errCode : Int} {k₁ k₂ k : Kernel} (hpc : s.pc s.current = .exitMark errCode)
      (hmark : (s.kernel.modifyTask s.current fun t => { t with state := .zombie }) = .ok k₁)
      (hcode : (k₁.modifyTask k₁.currentTask fun t => { t with exitCode := errCode }) = .ok k₂)
      (hcall : handOver k₂ = .ok k) : Stepped s saved .next ((s.setKernel k).goto k.currentTask .exitSched)
  | exitCode {errCode : Int} {k₁ k : Kernel} (hpc : s.pc s.current = .exitCode errCode)
      (hcode : (s.kernel.modifyTask s.current fun t => { t with exitCode := errCode }) = .ok k₁)
      (hcall : handOver k₁ = .ok k) : Stepped s saved .next ((s.setKernel k).goto k.currentTask .exitSched)
  | exitSection {k : Kernel} (hpc : s.pc s.current = .exitSection) (hcall : handOver s.kernel = .ok k) :
      Stepped s saved .next ((s.setKernel k).goto k.currentTask .exitSched)
  | exitSched {k : Kernel} (hpc : s.pc s.current = .exitSched) (hcall : schedule s.kernel saved = .ok k)
      (hreturn : k.currentTask ≠ s.current) :
      Stepped s saved .next ((s.goto s.current .exited).setKernel k)
  | waitChild {pid codeStore : U32} {haskid : Bool} (hpc : s.pc s.current = .waitScan pid codeStore)
      (hpid : pid ≠ 0) (hcall : findChild s.kernel pid = .ok (NULL, haskid)) :
      Stepped s saved .next (s.waitNone pid codeStore haskid)
  | waitFirst {codeStore : U32} {t : Task} (hpc : s.pc s.current = .waitScan 0 codeStore)
      (ht : s.kernel.tasks s.current = some t) :
      Stepped s saved .next (s.goto s.current (.waitLoop codeStore t.cptr false))
  | waitEnd {codeStore : U32} {haskid : Bool} (hpc : s.pc s.current = .waitLoop codeStore NULL haskid) :
      Stepped s saved .next (s.waitNone 0 codeStore haskid)
  | waitRound {codeStore task : U32} {haskid : Bool} {t : Task}
      (hpc : s.pc s.current = .waitLoop codeStore task haskid) (ht : s.kernel.tasks task = some t)
      (hstate : t.state ≠ .zombie) :
      Stepped s saved .next (s.goto s.current (.waitLoop codeStore t.optr true))
  | reap {codeStore task : U32} {t : Task} {res : WaitResult} {k : Kernel}
      (hpc : (∃ pid haskid, s.pc s.current = .waitScan pid codeStore ∧ pid ≠ 0 ∧
          findChild s.kernel pid = .ok (task, haskid) ∧ task ≠ NULL) ∨
        ∃ haskid, s.pc s.current = .waitLoop codeStore task haskid)
      (ht : s.kernel.tasks task = some t) (hstate : t.state = .zombie)
      (hcall : reap s.kernel task codeStore = .ok (res, k)) :
      Stepped s saved .next (((s.setKernel k).goto task .run).goto s.current .run)
  | waitMark {pid codeStore : U32} {k₁ k : Kernel} (hpc : s.pc s.current = .waitMark pid codeStore)
      (hmark : (s.kernel.modifyTask s.current fun t => { t with state := .sleeping }) = .ok k₁)
      (hcall : (k₁.modifyTask k₁.currentTask fun t => { t with waitState := WT_CHILD }) = .ok k) :
      Stepped s saved .next ((s.setKernel k).goto k.currentTask (.waitSched pid codeStore))
  | waitReason {pid codeStore : U32} {k : Kernel} (hpc : s.pc s.current = .waitReason pid codeStore)
      (hcall : (s.kernel.modifyTask s.current fun t => { t with waitState := WT_CHILD }) = .ok k) :
      Stepped s saved .next ((s.setKernel k).goto k.currentTask (.waitSched pid codeStore))
  | waitSched {pid codeStore : U32} {k : Kernel} (hpc : s.pc s.current = .waitSched pid codeStore)
      (hcall : schedule s.kernel saved = .ok k) :
      Stepped s saved .next ((s.goto s.current (.waitWoken pid codeStore)).setKernel k)
  | waitWoken {pid codeStore : U32} {t : Task} (hpc : s.pc s.current = .waitWoken pid codeStore)
      (ht : s.kernel.tasks s.current = some t) (hflags : t.flags &&& PF_EXITING = 0) :
      Stepped s saved .next (s.goto s.current (.waitScan pid codeStore))
  | waitKilled {pid codeStore : U32} {t : Task} {k : Kernel} (hpc : s.pc s.current = .waitWoken pid codeStore)
      (ht : s.kernel.tasks s.current = some t) (hflags : t.flags &&& PF_EXITING ≠ 0)
      (hidle : s.current ≠ s.kernel.idleTask) (hcall : exitMm s.kernel = .ok k) :
      Stepped s saved .next ((s.setKernel k).goto k.currentTask (.exitMark (-E_KILLED)))
  | tickInExit {errCode : Int} {k₁ k : Kernel} (hpc : s.pc s.current = .exitMark errCode)
      (hmark : (s.kernel.modifyTask s.current fun t => { t with state := .zombie }) = .ok k₁)
      (hcall : timerCallBack k₁ saved = .ok k) :
      Stepped s saved .tickInExit ((s.goto k₁.currentTask (.exitCode errCode)).setKernel k)
  | tickBeforeSection {errCode : Int} {k₁ k₂ k : Kernel} (hpc : s.pc s.current = .exitMark errCode)
      (hmark : (s.kernel.modifyTask s.current fun t => { t with state := .zombie }) = .ok k₁)
      (hcode : (k₁.modifyTask k₁.currentTask fun t => { t with exitCode := errCode }) = .ok k₂)
      (hcall : timerCallBack k₂ saved = .ok k) :
      Stepped s saved .tickBeforeSection ((s.goto k₂.currentTask .exitSection).setKernel k)
  | tickInWait {pid codeStore : U32} {k₁ k : Kernel} (hpc : s.pc s.current = .waitMark pid codeStore)
      (hmark : (s.kernel.modifyTask s.current fun t => { t with state := .sleeping }) = .ok k₁)
      (hcall : timerCallBack k₁ saved = .ok k) :
      Stepped s saved .tickInWait ((s.goto k₁.currentTask (.waitReason pid codeStore)).setKernel k)

section Steps

variable {s s' : System} {saved : Context}

theorem scheduleTo_eq_ok {pc : Pc} (hcall : s.scheduleTo pc saved = .ok s') :
    ∃ k, schedule s.kernel saved = .ok k ∧ s' = (s.goto s.current pc).setKernel k := lift_eq_ok.mp hcall

theorem exitStart_eq_ok {errCode : Int} (hcall : s.exitStart errCode = .ok s') :
    ∃ k, s.current ≠ s.kernel.idleTask ∧ exitMm s.kernel = .ok k ∧
      s' = (s.setKernel k).goto k.currentTask (.exitMark errCode) := by
  unfold System.exitStart at hcall
  obtain ⟨_, hpanic, hcall⟩ := Res.bind_eq_ok.mp hcall
  obtain ⟨s₁, hlift, hcall⟩ := Res.bind_eq_ok.mp hcall
  obtain ⟨k, hexit, rfl⟩ := lift_eq_ok.mp hlift
  obtain rfl := Except.ok.inj hcall
  exact ⟨k, panicIf_eq_ok.mp hpanic, hexit, rfl⟩

theorem exitSection_eq_ok (hcall : s.exitSection = .ok s') :
    ∃ k, handOver s.kernel = .ok k ∧ s' = (s.setKernel k).goto k.currentTask .exitSched := by
  unfold System.exitSection at hcall
  obtain ⟨s₁, hlift, hcall⟩ := Res.bind_eq_ok.mp hcall
  obtain ⟨k, hhand, rfl⟩ := lift_eq_ok.mp hlift
  obtain rfl := Except.ok.inj hcall
  exact ⟨k, hhand, rfl⟩

theorem waitReason_eq_ok {pid codeStore : U32} (hcall : s.waitReason pid codeStore = .ok s') :
    ∃ k, (s.kernel.modifyTask s.current fun t => { t with waitState := WT_CHILD }) = .ok k ∧
      s' = (s.setKernel k).goto k.currentTask (.waitSched pid codeStore) := by
  unfold System.waitReason at hcall
  obtain ⟨s₁, hlift, hcall⟩ := Res.bind_eq_ok.mp hcall
  obtain ⟨k, hmod, rfl⟩ := lift_eq_ok.mp hlift
  obtain rfl := Except.ok.inj hcall
  exact ⟨k, hmod, rfl⟩

/-- The calls of a task. -/
theorem stepped_of_call {c : Call} (hpc : s.pc s.current = .run)
    (hidle : c = .yield ∨ s.current ≠ s.kernel.idleTask) (hcall : s.call saved c = .ok s') :
    Stepped s saved (.call c) s' := by
  cases c with
  | yield =>
      have hlift : s.lift (fun k => schedule k saved) = .ok s' := hcall
      obtain ⟨k, hschedule, rfl⟩ := lift_eq_ok.mp hlift
      exact .yield hpc hschedule
  | fork flags stack frame =>
      obtain ⟨⟨ret, k⟩, hfork, hcall⟩ := Res.bind_eq_ok.mp hcall
      obtain rfl := Except.ok.inj hcall
      exact .fork hpc (hidle.resolve_left (by simp)) hfork
  | exit errCode =>
      obtain ⟨k, hne, hexit, rfl⟩ := exitStart_eq_ok hcall
      exact .exit hpc hne hexit
  | wait pid codeStore =>
      obtain rfl := Except.ok.inj hcall
      exact .wait hpc (hidle.resolve_left (by simp))
  | acquireSem sem =>
      have hne := hidle.resolve_left (by simp)
      by_cases hvalue : 0 < (s.sems sem).value
      · have hdown := hcall
        simp only [System.call, System.down, gt_iff_lt, if_pos hvalue] at hdown
        obtain rfl := Except.ok.inj hdown
        exact .acquire hpc hne hvalue
      · exact .acquireSleep hpc hne hvalue hcall
  | releaseSem sem => exact .release hpc (hidle.resolve_left (by simp)) hcall
  | readStdin => exact .readStdin hpc (hidle.resolve_left (by simp)) hcall

/-- The search of `do_wait`. -/
theorem stepped_of_waitScan {pid codeStore : U32} (hpc : s.pc s.current = .waitScan pid codeStore)
    (hcall : s.waitScan pid codeStore = .ok s') : Stepped s saved .next s' := by
  unfold System.waitScan at hcall
  split at hcall
  · rename_i hpid
    obtain ⟨⟨task, haskid⟩, hfind, hcall⟩ := Res.bind_eq_ok.mp hcall
    dsimp only at hcall
    split at hcall
    · rename_i hne
      obtain ⟨⟨res, k⟩, hreap, hcall⟩ := Res.bind_eq_ok.mp hcall
      obtain rfl := Except.ok.inj hcall
      obtain ⟨t, ht, hstate, -⟩ := findChild_zombie hfind hne
      exact .reap (Or.inl ⟨pid, haskid, hpc, hpid, hfind, hne⟩) ht hstate hreap
    · rename_i htask
      obtain rfl := not_not.mp htask
      obtain rfl := Except.ok.inj hcall
      exact .waitChild hpc hpid hfind
  · rename_i hpid
    obtain rfl : pid = 0 := not_not.mp hpid
    obtain ⟨t, ht, hcall⟩ := Res.bind_eq_ok.mp hcall
    obtain rfl := Except.ok.inj hcall
    exact .waitFirst hpc (task_eq_ok.mp ht)

theorem stepped_of_waitLoop {codeStore task : U32} {haskid : Bool}
    (hpc : s.pc s.current = .waitLoop codeStore task haskid)
    (hcall : s.waitLoop codeStore task haskid = .ok s') : Stepped s saved .next s' := by
  unfold System.waitLoop at hcall
  split at hcall
  · rename_i htask
    obtain rfl := htask
    obtain rfl := Except.ok.inj hcall
    exact .waitEnd hpc
  · obtain ⟨t, ht, hcall⟩ := Res.bind_eq_ok.mp hcall
    split at hcall
    · rename_i hstate
      obtain ⟨⟨res, k⟩, hreap, hcall⟩ := Res.bind_eq_ok.mp hcall
      obtain rfl := Except.ok.inj hcall
      exact .reap (Or.inr ⟨haskid, hpc⟩) (task_eq_ok.mp ht) hstate hreap
    · rename_i hstate
      obtain rfl := Except.ok.inj hcall
      exact .waitRound hpc (task_eq_ok.mp ht) hstate

/-- The running task goes on with its call. -/
theorem stepped_of_next (hcall : s.next saved (s.pc s.current) = some (.ok s')) : Stepped s saved .next s' := by
  cases hpc : s.pc s.current with
  | run => simp [hpc, System.next] at hcall
  | downSched sem =>
      rw [hpc] at hcall
      obtain ⟨k, hschedule, rfl⟩ := scheduleTo_eq_ok (Option.some.inj hcall)
      exact .downSched hpc hschedule
  | downWoken sem =>
      rw [hpc] at hcall
      exact .downWoken hpc (Option.some.inj hcall)
  | stdinSched =>
      rw [hpc] at hcall
      obtain ⟨k, hschedule, rfl⟩ := scheduleTo_eq_ok (Option.some.inj hcall)
      exact .stdinSched hpc hschedule
  | stdinWoken =>
      rw [hpc] at hcall
      obtain rfl := Except.ok.inj (Option.some.inj hcall)
      exact .stdinWoken hpc
  | exitMark errCode =>
      rw [hpc] at hcall
      obtain ⟨s₁, hmarked, hcall⟩ := Res.bind_eq_ok.mp (Option.some.inj hcall)
      obtain ⟨s₂, hcoded, hcall⟩ := Res.bind_eq_ok.mp hcall
      obtain ⟨k₁, hmark, rfl⟩ := lift_eq_ok.mp hmarked
      obtain ⟨k₂, hcode, rfl⟩ := lift_eq_ok.mp hcoded
      obtain ⟨k, hhand, rfl⟩ := exitSection_eq_ok hcall
      exact .exitMark hpc hmark hcode hhand
  | exitCode errCode =>
      rw [hpc] at hcall
      obtain ⟨s₁, hcoded, hcall⟩ := Res.bind_eq_ok.mp (Option.some.inj hcall)
      obtain ⟨k₁, hcode, rfl⟩ := lift_eq_ok.mp hcoded
      obtain ⟨k, hhand, rfl⟩ := exitSection_eq_ok hcall
      exact .exitCode hpc hcode hhand
  | exitSection =>
      rw [hpc] at hcall
      obtain ⟨k, hhand, rfl⟩ := exitSection_eq_ok (Option.some.inj hcall)
      exact .exitSection hpc hhand
  | exitSched =>
      rw [hpc] at hcall
      obtain ⟨s₁, hscheduled, hcall⟩ := Res.bind_eq_ok.mp (Option.some.inj hcall)
      obtain ⟨_, hpanic, hcall⟩ := Res.bind_eq_ok.mp hcall
      obtain rfl := Except.ok.inj hcall
      obtain ⟨k, hschedule, rfl⟩ := scheduleTo_eq_ok hscheduled
      exact .exitSched hpc hschedule (panicIf_eq_ok.mp hpanic)
  | exited => simp [hpc, System.next] at hcall
  | waitScan pid codeStore =>
      rw [hpc] at hcall
      exact stepped_of_waitScan hpc (Option.some.inj hcall)
  | waitLoop codeStore task haskid =>
      rw [hpc] at hcall
      exact stepped_of_waitLoop hpc (Option.some.inj hcall)
  | waitMark pid codeStore =>
      rw [hpc] at hcall
      obtain ⟨s₁, hmarked, hcall⟩ := Res.bind_eq_ok.mp (Option.some.inj hcall)
      obtain ⟨k₁, hmark, rfl⟩ := lift_eq_ok.mp hmarked
      obtain ⟨k, hreason, rfl⟩ := waitReason_eq_ok hcall
      exact .waitMark hpc hmark hreason
  | waitReason pid codeStore =>
      rw [hpc] at hcall
      obtain ⟨k, hreason, rfl⟩ := waitReason_eq_ok (Option.some.inj hcall)
      exact .waitReason hpc hreason
  | waitSched pid codeStore =>
      rw [hpc] at hcall
      obtain ⟨k, hschedule, rfl⟩ := scheduleTo_eq_ok (Option.some.inj hcall)
      exact .waitSched hpc hschedule
  | waitWoken pid codeStore =>
      rw [hpc] at hcall
      obtain ⟨t, ht, hcall⟩ := Res.bind_eq_ok.mp (Option.some.inj hcall)
      split at hcall
      · rename_i hflags
        obtain ⟨k, hidle, hexit, rfl⟩ := exitStart_eq_ok hcall
        exact .waitKilled hpc (task_eq_ok.mp ht) hflags hidle hexit
      · rename_i hflags
        obtain rfl := Except.ok.inj hcall
        exact .waitWoken hpc (task_eq_ok.mp ht) (not_not.mp hflags)

/-- Every step is one of the cases. -/
theorem stepped_of_step {act : Act} (hstep : s.step saved act = some (.ok s')) : Stepped s saved act s' := by
  cases act with
  | tick =>
      obtain ⟨k, htick, rfl⟩ := lift_eq_ok.mp (Option.some.inj hstep)
      exact .tick htick
  | keyboard => exact .keyboard (Option.some.inj hstep)
  | call c =>
      simp only [System.step] at hstep
      split at hstep
      · rename_i hpc
        exact stepped_of_call hpc (Or.inl rfl) (Option.some.inj hstep)
      · rename_i hpc _
        split at hstep
        · simp at hstep
        · rename_i hidle
          exact stepped_of_call hpc (Or.inr hidle) (Option.some.inj hstep)
      · simp at hstep
  | next => exact stepped_of_next hstep
  | tickInExit =>
      simp only [System.step] at hstep
      split at hstep
      · rename_i hpc
        obtain ⟨s₁, hmarked, hcall⟩ := Res.bind_eq_ok.mp (Option.some.inj hstep)
        obtain ⟨k₁, hmark, rfl⟩ := lift_eq_ok.mp hmarked
        obtain ⟨k, htick, rfl⟩ := lift_eq_ok.mp hcall
        exact .tickInExit hpc hmark htick
      · simp at hstep
  | tickBeforeSection =>
      simp only [System.step] at hstep
      split at hstep
      · rename_i hpc
        obtain ⟨s₁, hmarked, hcall⟩ := Res.bind_eq_ok.mp (Option.some.inj hstep)
        obtain ⟨s₂, hcoded, hcall⟩ := Res.bind_eq_ok.mp hcall
        obtain ⟨k₁, hmark, rfl⟩ := lift_eq_ok.mp hmarked
        obtain ⟨k₂, hcode, rfl⟩ := lift_eq_ok.mp hcoded
        obtain ⟨k, htick, rfl⟩ := lift_eq_ok.mp hcall
        exact .tickBeforeSection hpc hmark hcode htick
      · simp at hstep
  | tickInWait =>
      simp only [System.step] at hstep
      split at hstep
      · rename_i hpc
        obtain ⟨s₁, hmarked, hcall⟩ := Res.bind_eq_ok.mp (Option.some.inj hstep)
        obtain ⟨k₁, hmark, rfl⟩ := lift_eq_ok.mp hmarked
        obtain ⟨k, htick, rfl⟩ := lift_eq_ok.mp hcall
        exact .tickInWait hpc hmark htick
      · simp at hstep

/-! ### The kernel in a step -/

theorem waitAddCurrent_eq_ok {waitState : U32} (hcall : s.waitAddCurrent waitState = .ok s') :
    ∃ k, (s.kernel.modifyTask s.current fun t => { t with state := .sleeping, waitState := waitState }) = .ok k ∧
      s' = { s with kernel := k, waitFlags := Function.update s.waitFlags k.currentTask WT_INTERRUPTED } := by
  unfold System.waitAddCurrent at hcall
  obtain ⟨s₁, hlift, hcall⟩ := Res.bind_eq_ok.mp hcall
  obtain ⟨k, hmod, rfl⟩ := lift_eq_ok.mp hlift
  obtain rfl := Except.ok.inj hcall
  exact ⟨k, hmod, rfl⟩

theorem wakeupWait_eq_ok {a flags : U32} (hcall : s.wakeupWait a flags = .ok s') :
    ∃ k, wakeupTask s.kernel a = .ok k ∧
      s' = { s with kernel := k, waitFlags := Function.update s.waitFlags a flags } := by
  obtain ⟨k, hwake, rfl⟩ := lift_eq_ok.mp hcall
  exact ⟨k, hwake, rfl⟩

/-- The part of `down` that sleeps. -/
theorem down_eq_ok {sem : Nat} (hvalue : ¬ 0 < (s.sems sem).value) (hcall : s.down sem = .ok s') :
    ∃ k, (s.kernel.modifyTask s.current fun t => { t with state := .sleeping, waitState := WT_KSEM }) = .ok k ∧
      s' = { s with
        kernel := k
        waitFlags := Function.update s.waitFlags k.currentTask WT_INTERRUPTED
        sems := Function.update s.sems sem
          { s.sems sem with waitQueue := (s.sems sem).waitQueue ++ [k.currentTask] }
        pc := Function.update s.pc k.currentTask (.downSched sem) } := by
  simp only [System.down, gt_iff_lt, if_neg hvalue] at hcall
  obtain ⟨s₁, hadd, hcall⟩ := Res.bind_eq_ok.mp hcall
  obtain ⟨k, hmod, rfl⟩ := waitAddCurrent_eq_ok hadd
  obtain rfl := Except.ok.inj hcall
  exact ⟨k, hmod, rfl⟩

theorem stdinSleep_eq_ok (hcall : s.stdinSleep = .ok s') :
    ∃ k, (s.kernel.modifyTask s.current fun t => { t with state := .sleeping, waitState := WT_KBD }) = .ok k ∧
      s' = { s with
        kernel := k
        waitFlags := Function.update s.waitFlags k.currentTask WT_INTERRUPTED
        stdinQueue := s.stdinQueue ++ [k.currentTask]
        pc := Function.update s.pc k.currentTask .stdinSched } := by
  unfold System.stdinSleep at hcall
  obtain ⟨s₁, hadd, hcall⟩ := Res.bind_eq_ok.mp hcall
  obtain ⟨k, hmod, rfl⟩ := waitAddCurrent_eq_ok hadd
  obtain rfl := Except.ok.inj hcall
  exact ⟨k, hmod, rfl⟩

theorem downWoken_eq_ok {sem : Nat} (hcall : s.downWoken sem = .ok s') :
    s.waitFlags s.current = WT_KSEM ∧ s' = (s.setSem sem { s.sems sem with
      waitQueue := (s.sems sem).waitQueue.erase s.current }).goto s.current .run := by
  unfold System.downWoken at hcall
  obtain ⟨_, hpanic, hcall⟩ := Res.bind_eq_ok.mp hcall
  obtain rfl := Except.ok.inj hcall
  exact ⟨not_not.mp (panicIf_eq_ok.mp hpanic), rfl⟩

/-- `up`: nobody waits, or the first task that waits is woken. -/
theorem up_eq_ok {sem : Nat} (hcall : s.up sem = .ok s') :
    ((s.sems sem).waitQueue = [] ∧ s' = { s with
        sems := Function.update s.sems sem { s.sems sem with value := (s.sems sem).value + 1 }
        released := Function.update s.released sem (s.released sem + 1)
        holders := Function.update s.holders sem ((s.holders sem).erase s.current) }) ∨
    ∃ a rest k, (s.sems sem).waitQueue = a :: rest ∧ wakeupTask s.kernel a = .ok k ∧ s' = { s with
        kernel := k
        waitFlags := Function.update s.waitFlags a WT_KSEM
        sems := Function.update s.sems sem { s.sems sem with waitQueue := rest }
        released := Function.update s.released sem (s.released sem + 1)
        granted := Function.update s.granted sem (s.granted sem + 1)
        holders := Function.update s.holders sem (a :: (s.holders sem).erase s.current) } := by
  unfold System.up at hcall
  dsimp only at hcall
  split at hcall
  · rename_i hqueue
    split at hcall
    · simp at hcall
    · obtain rfl := Except.ok.inj hcall
      exact Or.inl ⟨hqueue, rfl⟩
  · rename_i a rest hqueue
    obtain ⟨k, hwake, rfl⟩ := wakeupWait_eq_ok hcall
    refine Or.inr ⟨a, rest, k, hqueue, hwake, ?_⟩
    simp [System.setSem, System.grant]

theorem wakeupLoop_queueSteps {flags : U32} {queue : List U32} (hcall : wakeupLoop flags queue s = .ok s')
    {k : Kernel} (hkernel : s.kernel = k) : Relation.ReflTransGen QueueStep k s'.kernel := by
  subst hkernel
  induction queue generalizing s with
  | nil =>
      obtain rfl := Except.ok.inj hcall
      exact .refl
  | cons a rest ih =>
      obtain ⟨s₁, hwait, hcall⟩ := Res.bind_eq_ok.mp hcall
      obtain ⟨k, hwake, rfl⟩ := wakeupWait_eq_ok hwait
      exact .head (.wakeup hwake) (ih hcall)

/-- On the kernel, a step is a sequence of steps of the run queue. -/
theorem Stepped.queueSteps {lo hi : Nat} {m₀ : Pmm} {used : List Extent} {act : Act}
    (hk : TaskInv lo hi m₀ s.kernel used) (hstep : Stepped s saved act s') :
    Relation.ReflTransGen QueueStep s.kernel s'.kernel := by
  cases hstep with
  | tick hcall => exact .single (.tick hcall)
  | keyboard hcall => exact wakeupLoop_queueSteps hcall rfl
  | yield hpc hcall => exact .single (.schedule hcall)
  | fork hpc hidle hcall => exact .single (.fork hcall)
  | exit hpc hidle hcall =>
      rw [hk.exitMm hcall]
      exact .refl
  | wait hpc hidle =>
      unfold System.waitStart
      split <;> exact .refl
  | acquire hpc hidle hvalue => exact .refl
  | acquireSleep hpc hidle hvalue hcall =>
      obtain ⟨k, hmod, rfl⟩ := down_eq_ok hvalue hcall
      exact .single (.waitAddCurrent hmod)
  | release hpc hidle hcall =>
      rcases up_eq_ok hcall with ⟨-, rfl⟩ | ⟨a, rest, k, -, hwake, rfl⟩
      · exact .refl
      · exact .single (.wakeup hwake)
  | readStdin hpc hidle hcall =>
      obtain ⟨k, hmod, rfl⟩ := stdinSleep_eq_ok hcall
      exact .single (.waitAddCurrent hmod)
  | downSched hpc hcall => exact .single (.schedule hcall)
  | downWoken hpc hcall =>
      obtain ⟨-, rfl⟩ := downWoken_eq_ok hcall
      exact .refl
  | stdinSched hpc hcall => exact .single (.schedule hcall)
  | stdinWoken hpc => exact .refl
  | exitMark hpc hmark hcode hcall =>
      exact .tail (.tail (.single (.markZombie hmark)) (.storeExitCode hcode)) (.handOver hcall)
  | exitCode hpc hcode hcall => exact .tail (.single (.storeExitCode hcode)) (.handOver hcall)
  | exitSection hpc hcall => exact .single (.handOver hcall)
  | exitSched hpc hcall hreturn => exact .single (.schedule hcall)
  | waitChild hpc hpid hcall => exact .refl
  | waitFirst hpc ht => exact .refl
  | waitEnd hpc => exact .refl
  | waitRound hpc ht hstate => exact .refl
  | reap hpc ht hstate hcall => exact .single (.reap ht hstate hcall)
  | waitMark hpc hmark hcall => exact .tail (.single (.markSleeping hmark)) (.waitReason hcall)
  | waitReason hpc hcall => exact .single (.waitReason hcall)
  | waitSched hpc hcall => exact .single (.schedule hcall)
  | waitWoken hpc ht hflags => exact .refl
  | waitKilled hpc ht hflags hidle hcall =>
      rw [hk.exitMm hcall]
      exact .refl
  | tickInExit hpc hmark hcall => exact .tail (.single (.markZombie hmark)) (.tick hcall)
  | tickBeforeSection hpc hmark hcode hcall =>
      exact .tail (.tail (.single (.markZombie hmark)) (.storeExitCode hcode)) (.tick hcall)
  | tickInWait hpc hmark hcall => exact .tail (.single (.markSleeping hmark)) (.tick hcall)

/-- The invariants of the task list and of the run queue. -/
def SysBase (lo hi : Nat) (m₀ : Pmm) (s : System) : Prop :=
  (∃ used, TaskInv lo hi m₀ s.kernel used) ∧ RunInv s.kernel

theorem queueSteps_inv {lo hi : Nat} {m₀ : Pmm} {k k' : Kernel} (hrun : Relation.ReflTransGen QueueStep k k')
    (h : (∃ used, TaskInv lo hi m₀ k used) ∧ RunInv k) : (∃ used, TaskInv lo hi m₀ k' used) ∧ RunInv k' := by
  induction hrun with
  | refl => exact h
  | tail _ hstep ih =>
      obtain ⟨⟨used, hk⟩, hrun⟩ := ih
      exact hstep.inv hk hrun

theorem SysBase.step {lo hi : Nat} {m₀ : Pmm} {act : Act} (h : SysBase lo hi m₀ s)
    (hstep : Stepped s saved act s') : SysBase lo hi m₀ s' := by
  obtain ⟨used, hk⟩ := h.1
  exact queueSteps_inv (hstep.queueSteps hk) h

/-- Run a sequence of steps. -/
def System.steps (saved : Context) : List Act → System → Option System
  | [], s => some s
  | act :: acts, s =>
      match s.step saved act with
      | some (.ok s') => s'.steps saved acts
      | _ => none

/-- A sequence of steps is a run of every relation that holds of each of them. -/
theorem run_of_steps {r : System → System → Prop} {acts : List Act}
    (hr : ∀ {s s' act}, act ∈ acts → s.step saved act = some (.ok s') → r s s')
    (hsteps : s.steps saved acts = some s') : Relation.ReflTransGen r s s' := by
  induction acts generalizing s with
  | nil =>
      obtain rfl := Option.some.inj hsteps
      exact .refl
  | cons act acts ih =>
      unfold System.steps at hsteps
      split at hsteps
      · rename_i hstep
        exact .head (hr (List.mem_cons_self ..) hstep) (ih (fun hact => hr (List.mem_cons_of_mem _ hact)) hsteps)
      · simp at hsteps

theorem sysSteps_of_steps {acts : List Act} (hsteps : s.steps saved acts = some s') :
    Relation.ReflTransGen SysStep s s' :=
  run_of_steps (fun _ hstep => ⟨saved, _, hstep⟩) hsteps

end Steps

/-- Boot, then run a sequence of steps. -/
def bootSteps (v : Nat → Int) (acts : List Act) : Option (Kernel × System) := do
  let k₀ ← (initTask smallImage fortyFrames 0).toOption
  let s ← (bootSystem k₀ v).steps noContext acts
  return (k₀, s)

theorem bootSteps_eq_some {v : Nat → Int} {acts : List Act} {k₀ : Kernel} {s : System}
    (h : bootSteps v acts = some (k₀, s)) : initTask smallImage fortyFrames 0 = .ok k₀ ∧
      (bootSystem k₀ v).steps noContext acts = some s := by
  unfold bootSteps at h
  obtain ⟨k, hinit, h⟩ := Option.bind_eq_some_iff.mp h
  obtain ⟨s', hsteps, h⟩ := Option.bind_eq_some_iff.mp h
  obtain ⟨rfl, rfl⟩ := Prod.mk.inj (Option.some.inj h)
  exact ⟨Res.toOption_eq_some.mp hinit, hsteps⟩

end Krnl
end FreakOS
