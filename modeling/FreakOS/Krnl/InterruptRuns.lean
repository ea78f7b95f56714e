import FreakOS.Krnl.TrapFrames

/-!
# Runs with interrupts

What holds in every run of `Interrupts`, with any number of tasks that are switched and interrupted in any order.

* `inv_of_run` — all tasks keep to the discipline, the ones that sleep in a handler or in a system call too.
* `interrupt_flag_kept` — the interrupt flag is off at every switch, and the functions give it back as they got it.
* `trap_frames_nest` — `IntrHandlerCall` restores `_if`, and the results of system calls are stored where they belong.
-/

namespace FreakOS
namespace Krnl
namespace Interrupts

open Lib
open Lib.Coroutine

section Runs

variable {T : Type} [DecidableEq T] {m₀ m : Processor T (Cpu T) (TaskFrames T) (Event T)}

theorem Boot.inv (h : Boot m₀) : m₀.Inv (discipline T) := by
  constructor
  · exact ⟨_, h.main, main_safe h.currentTask h.cs h.intr⟩
  · intro t rest ht hcode
    rw [h.others t ht] at hcode
    cases hcode
  · rw [h.log]
    simp

/-- In every state of a run, each task is safe where it is. -/
theorem inv_of_run (hboot : Boot m₀) (hrun : Processor.Steps (rules T) m₀ m) : m.Inv (discipline T) :=
  hboot.inv.of_steps rules_follow hrun

/-- The interrupt flag is off whenever a task is about to switch, and `schedule`, `wakeupTask`, `acquireSem`, `releaseSem`,
`_stdin_do_read` and `_stdin_do_write` return with the flag with which they were called. -/
theorem interrupt_flag_kept (hboot : Boot m₀) (hrun : Processor.Steps (rules T) m₀ m) :
    (∀ u next, m.code m.running = some (.switch u next) → m.shared.pub.intr = false) ∧
      ∀ fn entry exit, .returned fn entry exit ∈ m.log → exit = entry := by
  have hinv := inv_of_run hboot hrun
  constructor
  · intro u next hswitch
    exact (hinv.ready hswitch).1
  · intro fn entry exit hreturned
    exact hinv.log _ hreturned

/-- When `IntrHandlerCall` ends, `CurrentTask` is the task for which it was called, and its `_if` is what it was.  Where a
system call reads its arguments and stores its result, `_if` is the frame of this call, and so is the frame that
`load_icode` overwrites; and the code behind the call goes on with the result of this call. -/
theorem trap_frames_nest (hboot : Boot m₀) (hrun : Processor.Steps (rules T) m₀ m) :
    (∀ task oldIf task' newIf, .completed task oldIf task' newIf ∈ m.log → task' = some task ∧ newIf = oldIf) ∧
      (∀ call tf current, .argsRead call tf current ∈ m.log → tf = some call ∧ current = some call) ∧
      (∀ call tf current, .stored call tf current ∈ m.log → tf = some call ∧ current = some call) ∧
      (∀ call tf, .overwritten call tf ∈ m.log → tf = some call) ∧
      ∀ call result eax, .resumed call result eax ∈ m.log → eax = result := by
  have hinv := inv_of_run hboot hrun
  refine ⟨?_, ?_, ?_, ?_, ?_⟩
  · intro task oldIf task' newIf hend
    exact hinv.log _ hend
  · intro call tf current hread
    exact hinv.log _ hread
  · intro call tf current hstored
    exact hinv.log _ hstored
  · intro call tf hover
    exact hinv.log _ hover
  · intro call result eax hresumed
    exact hinv.log _ hresumed

end Runs

/-! ### A run -/

/-- The machine at `main`, with numbers as tasks. -/
def bootProcessor : Processor Nat (Cpu Nat) (TaskFrames Nat) (Event Nat) where
  shared := ⟨⟨false, KERNEL_CS, none⟩, fun _ => ⟨none, []⟩⟩
  running := 0
  code t := if t = 0 then some main else none
  log := []

theorem boot_bootProcessor : Boot bootProcessor where
  intr := rfl
  cs := rfl
  currentTask := rfl
  stack := rfl
  main := rfl
  others := fun _ ht => if_neg ht
  log := rfl

/-- What is reported when `init_task` has made a system call with a page fault and a wait on its way. -/
def getpidLog : List (Event Nat) :=
  [.resumed ⟨1, 0⟩ 1 1, .completed 1 (some ⟨1, 0⟩) (some 1) (some ⟨1, 0⟩), .stored ⟨1, 0⟩ (some ⟨1, 0⟩) (some ⟨1, 0⟩),
    .returned .acquireSem false false, .returned .schedule false false, .returned .schedule true true,
    .resumed ⟨1, 1⟩ 0 0, .completed 1 (some ⟨1, 0⟩) (some 1) (some ⟨1, 0⟩),
    .argsRead ⟨1, 0⟩ (some ⟨1, 0⟩) (some ⟨1, 0⟩), .returned .wakeupTask false false]

/-- `main` makes `init_task` and switches to it, and `init_task` makes the system call with the number 18.  There a page
fault comes, and `init_task` waits for a semaphore while the idle task runs. -/
theorem getpid_run : ∃ m, Processor.Steps (rules Nat) bootProcessor m ∧ m.log = getpidLog := by
  -- `main` and `initTask` up to `createKernelThread`
  refine Processor.Step.exists_steps (.choose (0 : Nat) rfl) ?_
  refine Processor.Step.exists_steps (.choose (0 : Nat) rfl) ?_
  repeat refine Processor.Step.exists_steps (.op rfl) ?_
  refine Processor.Step.exists_steps (.choose (0 : Nat) rfl) ?_
  repeat refine Processor.Step.exists_steps (.op rfl) ?_
  refine Processor.Step.exists_steps (.choose (0 : U32) rfl) ?_
  refine Processor.Step.exists_steps (.choose (0 : U32) rfl) ?_
  refine Processor.Step.exists_steps (.choose (0 : U32) rfl) ?_
  -- `do_fork`
  refine Processor.Step.exists_steps (.choose false rfl) ?_
  refine Processor.Step.exists_steps (.choose (0 : Nat) rfl) ?_
  refine Processor.Step.exists_steps (.choose false rfl) ?_
  refine Processor.Step.exists_steps (.spawn 1 rfl rfl) ?_
  repeat refine Processor.Step.exists_steps (.op rfl) ?_
  refine Processor.Step.exists_steps (.choose false rfl) ?_
  repeat refine Processor.Step.exists_steps (.op rfl) ?_
  refine Processor.Step.exists_steps (.emit rfl) ?_
  refine Processor.Step.exists_steps (.choose (1 : Int) rfl) ?_
  -- `sti`, and `schedule` in `cpu_idle`
  refine Processor.Step.exists_steps (.choose (0 : Nat) rfl) ?_
  repeat refine Processor.Step.exists_steps (.op rfl) ?_
  refine Processor.Step.exists_steps (.choose (2 : Nat) rfl) ?_
  refine Processor.Step.exists_steps (.choose true rfl) ?_
  repeat refine Processor.Step.exists_steps (.op rfl) ?_
  refine Processor.Step.exists_steps (.choose (1 : Nat) rfl) ?_
  repeat refine Processor.Step.exists_steps (.op rfl) ?_
  refine Processor.Step.exists_steps (.switch rfl (Option.some_ne_none (rules Nat).start)) ?_
  -- `forkret`, and the system call
  repeat refine Processor.Step.exists_steps (.op rfl) ?_
  refine Processor.Step.exists_steps (.choose (1 : Nat) rfl) ?_
  refine Processor.Step.exists_steps (.choose ThreadWork.intSyscall rfl) ?_
  refine Processor.Step.exists_steps (.choose { noFrame with eax := 18 } rfl) ?_
  repeat refine Processor.Step.exists_steps (.op rfl) ?_
  refine Processor.Step.exists_steps (.emit rfl) ?_
  -- the page fault, for which the handler maps a page
  refine Processor.Step.exists_steps (.interrupt (Interrupt.exception 14) rfl (Or.inr rfl)) ?_
  refine Processor.Step.exists_steps (.choose noFrame rfl) ?_
  repeat refine Processor.Step.exists_steps (.op rfl) ?_
  refine Processor.Step.exists_steps (.choose (0 : Nat) rfl) ?_
  refine Processor.Step.exists_steps (.choose true rfl) ?_
  repeat refine Processor.Step.exists_steps (.op rfl) ?_
  refine Processor.Step.exists_steps (.emit rfl) ?_
  repeat refine Processor.Step.exists_steps (.op rfl) ?_
  refine Processor.Step.exists_steps (.emit rfl) ?_
  -- `acquireSem`, which switches to the idle task
  refine Processor.Step.exists_steps (.choose (1 : Nat) rfl) ?_
  refine Processor.Step.exists_steps (.choose Work.acquireSem rfl) ?_
  repeat refine Processor.Step.exists_steps (.op rfl) ?_
  refine Processor.Step.exists_steps (.choose false rfl) ?_
  repeat refine Processor.Step.exists_steps (.op rfl) ?_
  refine Processor.Step.exists_steps (.choose (0 : Nat) rfl) ?_
  repeat refine Processor.Step.exists_steps (.op rfl) ?_
  refine Processor.Step.exists_steps (.switch rfl (Option.some_ne_none _)) ?_
  -- `cpu_idle` goes on, and switches back
  repeat refine Processor.Step.exists_steps (.op rfl) ?_
  refine Processor.Step.exists_steps (.emit rfl) ?_
  refine Processor.Step.exists_steps (.choose true rfl) ?_
  repeat refine Processor.Step.exists_steps (.op rfl) ?_
  refine Processor.Step.exists_steps (.choose (1 : Nat) rfl) ?_
  repeat refine Processor.Step.exists_steps (.op rfl) ?_
  refine Processor.Step.exists_steps (.switch rfl (Option.some_ne_none _)) ?_
  -- the rest of `acquireSem`, and of the system call
  repeat refine Processor.Step.exists_steps (.op rfl) ?_
  refine Processor.Step.exists_steps (.emit rfl) ?_
  repeat refine Processor.Step.exists_steps (.op rfl) ?_
  refine Processor.Step.exists_steps (.choose (0 : U32) rfl) ?_
  repeat refine Processor.Step.exists_steps (.op rfl) ?_
  refine Processor.Step.exists_steps (.emit rfl) ?_
  refine Processor.Step.exists_steps (.choose (1 : Int) rfl) ?_
  repeat refine Processor.Step.exists_steps (.op rfl) ?_
  refine Processor.Step.exists_steps (.emit rfl) ?_
  repeat refine Processor.Step.exists_steps (.op rfl) ?_
  refine Processor.Step.exists_steps (.emit rfl) ?_
  repeat refine Processor.Step.exists_steps (.op rfl) ?_
  refine Processor.Step.exists_steps (.emit rfl) ?_
  exact ⟨_, .refl, rfl⟩

theorem interrupt_flag_kept_getpid : ∃ m : Processor Nat (Cpu Nat) (TaskFrames Nat) (Event Nat),
    m.log = getpidLog ∧
      (∀ u next, m.code m.running = some (.switch u next) → m.shared.pub.intr = false) ∧
      ∀ fn entry exit, .returned fn entry exit ∈ m.log → exit = entry := by
  obtain ⟨m, hrun, hlog⟩ := getpid_run
  exact ⟨m, hlog, interrupt_flag_kept boot_bootProcessor hrun⟩

theorem trap_frames_nest_getpid : ∃ m : Processor Nat (Cpu Nat) (TaskFrames Nat) (Event Nat),
    m.log = getpidLog ∧
      (∀ task oldIf task' newIf, .completed task oldIf task' newIf ∈ m.log → task' = some task ∧ newIf = oldIf) ∧
      (∀ call tf current, .argsRead call tf current ∈ m.log → tf = some call ∧ current = some call) ∧
      (∀ call tf current, .stored call tf current ∈ m.log → tf = some call ∧ current = some call) ∧
      (∀ call tf, .overwritten call tf ∈ m.log → tf = some call) ∧
      ∀ call result eax, .resumed call result eax ∈ m.log → eax = result := by
  obtain ⟨m, hrun, hlog⟩ := getpid_run
  exact ⟨m, hlog, trap_frames_nest boot_bootProcessor hrun⟩

end Interrupts
end Krnl
end FreakOS
