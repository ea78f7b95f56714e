import FreakOS.Lib.Ring
import FreakOS.Krnl.Semaphores

/-!
# `stdin`

`stdin_inode.c` with its buffer, on top of the tasks that run under preemption: in `System` a task may find the buffer
empty at any time, here the positions decide.

* `StdinSystem` — the system with the buffer, and how far every reader has come.
* `StdinSystem.doWrite`, `StdinSystem.doRead`, `StdinSystem.doReadWoken` — the two functions of the source; the read is
  cut before and after its `schedule()`.
* `StdinSystem.step` — one step.
* `tryAgain_cases` — what the loop of the read does.
* `sysSteps_of_stdin` — every step is a sequence of steps of `System`.

The buffers that readers hand over are in the kernel, and are taken as lists.  The positions are never negative, and an
`int32_t` that overflows stops the model.
-/

namespace FreakOS
namespace Krnl

open Lib
open Memory
open FreakOS.Krnl.System

/-- `STDIN_BUF_LEN`. -/
def STDIN_BUF_LEN : Nat := 2048

/-- The locals of `_stdin_do_read`: `len`, and what is in `buf`.  The length of `chars` is `ret`. -/
structure Read where
  len : U32
  chars : List (BitVec 8)
deriving DecidableEq, Repr

/-- The system with `stdin`.  The last three fields are not in the source, they record what has happened. -/
structure StdinSystem where
  sys : System
  /-- `stdin_buffer`. -/
  buffer : Nat → BitVec 8
  /-- `p_rpos`. -/
  rpos : Nat
  /-- `p_wpos`. -/
  wpos : Nat
  /-- The read in which a task is. -/
  reads : U32 → Read
  /-- What has arrived while less than `STDIN_BUF_LEN` characters were unread. -/
  accepted : List (BitVec 8)
  /-- What has been put into the buffers of readers, and by whom it was read. -/
  taken : List (U32 × BitVec 8)
  /-- The reads that have returned. -/
  finished : List Read

namespace StdinSystem

def current (s : StdinSystem) : U32 := s.sys.current

/-- What has not been read. -/
def unread (s : StdinSystem) : List (BitVec 8) := ringList STDIN_BUF_LEN s.buffer s.rpos s.wpos

/-- `STDIN_BUF_LEN` characters are unread. -/
def Full (s : StdinSystem) : Prop := ¬ s.wpos - s.rpos < STDIN_BUF_LEN

/-- The first two statements of `_stdin_do_write(c)`. -/
def store (s : StdinSystem) (c : BitVec 8) : Res StdinSystem :=
  let s := { s with buffer := Function.update s.buffer (s.wpos % STDIN_BUF_LEN) c }
  if s.wpos - s.rpos < STDIN_BUF_LEN then
    if (s.wpos : Int) = INT_MAX then .error .overflow
    else .ok { s with wpos := s.wpos + 1, accepted := s.accepted ++ [c] }
  else .ok s

/-- `_stdin_do_write(c)`. -/
def doWrite (s : StdinSystem) (c : BitVec 8) : Res StdinSystem :=
  if c ≠ 0 then do
    let s ← s.store c
    if s.sys.stdinQueue ≠ [] then do
      let sys ← s.sys.keyboard
      return { s with sys := sys }
    else return s
  else .ok s

/-- One round of the loop of `_stdin_do_read`: a character is read. -/
def take (s : StdinSystem) : Res StdinSystem :=
  if (s.rpos : Int) = INT_MAX then .error .overflow
  else
    let c := s.buffer (s.rpos % STDIN_BUF_LEN)
    let r := s.reads s.current
    .ok { s with
      rpos := s.rpos + 1
      reads := Function.update s.reads s.current { r with chars := r.chars ++ [c] }
      taken := s.taken ++ [(s.current, c)] }

/-- `_stdin_do_read` returns. -/
def finish (s : StdinSystem) : StdinSystem := { s with finished := s.finished ++ [s.reads s.current] }

/-- There is no character: the running task joins the queue. -/
def sleep (s : StdinSystem) : Res StdinSystem := do
  let sys ← s.sys.stdinSleep
  return { s with sys := sys }

/-- `_stdin_do_read` from the label `try_again` on, with `n` characters to be read behind this one. -/
def tryAgain (s : StdinSystem) : Nat → Res StdinSystem
  | 0 =>
      if s.rpos < s.wpos then do
        let s ← s.take
        return s.finish
      else s.sleep
  | n + 1 =>
      if s.rpos < s.wpos then do
        let s ← s.take
        s.tryAgain n
      else s.sleep

/-- `_stdin_do_read(buf, len)`, up to its end or to `schedule()`. -/
def doRead (s : StdinSystem) (len : U32) : Res StdinSystem :=
  let s := { s with reads := Function.update s.reads s.current ⟨len, []⟩ }
  match len.toNat with
  | 0 => .ok s.finish
  | n + 1 => s.tryAgain n

/-- `_stdin_do_read` after `schedule()`. -/
def doReadWoken (s : StdinSystem) : Res StdinSystem :=
  let s := { s with sys := s.sys.stdinWoken }
  let r := s.reads s.current
  if s.sys.waitFlags s.current = WT_KBD then s.tryAgain (r.len.toNat - r.chars.length - 1)
  else .ok s.finish

/-- What happens next. -/
inductive StdinAct where
  /-- The keyboard interrupt with a character. -/
  | write (c : BitVec 8)
  /-- The running task calls `_stdin_do_read`. -/
  | read (len : U32)
  /-- The running task goes on with `_stdin_do_read`. -/
  | woken
  /-- Anything else. -/
  | other (act : Act)

/-- The steps of `System` that have steps of their own here, for a task at `pc`. -/
def ofStdin (pc : Pc) : Act → Bool
  | .keyboard => true
  | .call .readStdin => true
  | .next => pc = .stdinWoken
  | _ => false

/-- One step; `none` where the running task is somewhere else. -/
def step (s : StdinSystem) (saved : Context) : StdinAct → Option (Res StdinSystem)
  | .write c => some (s.doWrite c)
  | .read len =>
      if s.sys.pc s.current = .run ∧ s.current ≠ s.sys.kernel.idleTask then some (s.doRead len) else none
  | .woken => if s.sys.pc s.current = .stdinWoken then some s.doReadWoken else none
  | .other act =>
      if ofStdin (s.sys.pc s.current) act then none
      else (s.sys.step saved act).map fun r => r >>= fun sys => .ok { s with sys := sys }

end StdinSystem

/-- The system when `initTask` and `stdin_init_vdev` are done. -/
def bootStdin (k : Kernel) (v : Nat → Int) (buffer : Nat → BitVec 8) : StdinSystem where
  sys := bootSystem k v
  buffer := buffer
  rpos := 0
  wpos := 0
  reads := fun _ => ⟨0, []⟩
  accepted := []
  taken := []
  finished := []

/-- One step of a run. -/
def StdinStep (s s' : StdinSystem) : Prop := ∃ saved act, s.step saved act = some (.ok s')

/-! ### The functions -/

namespace StdinSystem

section Calls

variable {s s' : StdinSystem}

/-- A character is stored at the write position; it counts only where there was room. -/
theorem store_eq_ok {c : BitVec 8} (hcall : s.store c = .ok s') :
    (¬ s.Full ∧ s' = { s with
      buffer := Function.update s.buffer (s.wpos % STDIN_BUF_LEN) c
      wpos := s.wpos + 1
      accepted := s.accepted ++ [c] }) ∨
    (s.Full ∧ s' = { s with buffer := Function.update s.buffer (s.wpos % STDIN_BUF_LEN) c }) := by
  unfold store at hcall
  dsimp only at hcall
  split at hcall
  · rename_i hroom
    split at hcall
    · cases hcall
    · obtain rfl := Except.ok.inj hcall
      exact Or.inl ⟨not_not.mpr hroom, rfl⟩
  · rename_i hfull
    obtain rfl := Except.ok.inj hcall
    exact Or.inr ⟨hfull, rfl⟩

/-- `_stdin_do_write`: nothing for `'\0'`, otherwise the character is stored, and who waits is woken up. -/
theorem doWrite_eq_ok {c : BitVec 8} (hcall : s.doWrite c = .ok s') :
    (c = 0 ∧ s' = s) ∨
    ∃ s₁ sys, c ≠ 0 ∧ s.store c = .ok s₁ ∧ s.sys.keyboard = .ok sys ∧ s' = { s₁ with sys := sys } := by
  unfold doWrite at hcall
  split at hcall
  · rename_i hc
    obtain ⟨s₁, hstore, hcall⟩ := Res.bind_eq_ok.mp hcall
    have hsys : s₁.sys = s.sys := by
      rcases store_eq_ok hstore with ⟨-, rfl⟩ | ⟨-, rfl⟩ <;> rfl
    split at hcall
    · obtain ⟨sys, hkeyboard, hcall⟩ := Res.bind_eq_ok.mp hcall
      obtain rfl := Except.ok.inj hcall
      exact Or.inr ⟨s₁, sys, hc, hstore, hsys ▸ hkeyboard, rfl⟩
    · rename_i hempty
      obtain rfl := Except.ok.inj hcall
      have hnil : s.sys.stdinQueue = [] := hsys ▸ not_not.mp hempty
      have hkeyboard : s.sys.keyboard = .ok s.sys := by
        unfold System.keyboard
        rw [hnil]
        exact congrArg _ (hnil ▸ rfl)
      exact Or.inr ⟨s₁, s₁.sys, hc, hstore, hsys ▸ hkeyboard, rfl⟩
  · rename_i hc
    obtain rfl := Except.ok.inj hcall
    exact Or.inl ⟨not_not.mp hc, rfl⟩

theorem sleep_eq_ok (hcall : s.sleep = .ok s') : ∃ sys, s.sys.stdinSleep = .ok sys ∧ s' = { s with sys := sys } := by
  obtain ⟨sys, hsleep, hcall⟩ := Res.bind_eq_ok.mp hcall
  obtain rfl := Except.ok.inj hcall
  exact ⟨sys, hsleep, rfl⟩

theorem take_eq_ok (hcall : s.take = .ok s') : s' = { s with
    rpos := s.rpos + 1
    reads := Function.update s.reads s.current { s.reads s.current with
      chars := (s.reads s.current).chars ++ [s.buffer (s.rpos % STDIN_BUF_LEN)] }
    taken := s.taken ++ [(s.current, s.buffer (s.rpos % STDIN_BUF_LEN))] } := by
  unfold take at hcall
  split at hcall
  · cases hcall
  · exact (Except.ok.inj hcall).symm

/-- A round of the loop. -/
def TakeStep (s s' : StdinSystem) : Prop := s.rpos < s.wpos ∧ s.take = .ok s'

/-- `ret` and `len` of the running task. -/
def ret (s : StdinSystem) : Nat := (s.reads s.current).chars.length

def len (s : StdinSystem) : U32 := (s.reads s.current).len

/-- A round keeps everything but the read of the running task. -/
theorem TakeStep.kept (h : TakeStep s s') : s'.sys = s.sys ∧ s'.wpos = s.wpos ∧ s'.finished = s.finished ∧
    s'.len = s.len ∧ s'.ret = s.ret + 1 ∧ ∀ a, a ≠ s.current → s'.reads a = s.reads a := by
  obtain rfl := take_eq_ok h.2
  refine ⟨rfl, rfl, rfl, ?_, ?_, fun a ha => Function.update_of_ne ha _ _⟩
  · simp [len, current]
  · simp [ret, current]

theorem takes_kept (h : Relation.ReflTransGen TakeStep s s') : s'.sys = s.sys ∧ s'.wpos = s.wpos ∧
    s'.finished = s.finished ∧ s'.len = s.len ∧ ∀ a, a ≠ s.current → s'.reads a = s.reads a := by
  induction h with
  | refl => exact ⟨rfl, rfl, rfl, rfl, fun _ _ => rfl⟩
  | tail _ hstep ih =>
      obtain ⟨hsys, hwpos, hfinished, hlen, -, hreads⟩ := hstep.kept
      obtain ⟨hsys', hwpos', hfinished', hlen', hreads'⟩ := ih
      refine ⟨hsys.trans hsys', hwpos.trans hwpos', hfinished.trans hfinished', hlen.trans hlen', fun a ha => ?_⟩
      rw [hreads a (by rw [current, hsys']; exact ha), hreads' a ha]

/-- The loop of `_stdin_do_read` reads characters and then either has all that it was asked for, or finds the buffer
empty and goes to sleep with some still to be read. -/
theorem tryAgain_cases {n : Nat} (hcall : s.tryAgain n = .ok s') :
    ∃ s₁, Relation.ReflTransGen TakeStep s s₁ ∧ ((s₁.ret = s.ret + n + 1 ∧ s' = s₁.finish) ∨
      (s₁.ret ≤ s.ret + n ∧ ¬ s₁.rpos < s₁.wpos ∧ s₁.sleep = .ok s')) := by
  induction n generalizing s with
  | zero =>
      unfold tryAgain at hcall
      split at hcall
      · rename_i hsome
        obtain ⟨s₁, htake, hcall⟩ := Res.bind_eq_ok.mp hcall
        obtain rfl := Except.ok.inj hcall
        have hstep : TakeStep s s₁ := ⟨hsome, htake⟩
        exact ⟨s₁, .single hstep, Or.inl ⟨hstep.kept.2.2.2.2.1, rfl⟩⟩
      · rename_i hnone
        exact ⟨s, .refl, Or.inr ⟨le_rfl, hnone, hcall⟩⟩
  | succ n ih =>
      unfold tryAgain at hcall
      split at hcall
      · rename_i hsome
        obtain ⟨s₁, htake, hcall⟩ := Res.bind_eq_ok.mp hcall
        have hstep : TakeStep s s₁ := ⟨hsome, htake⟩
        have hret : s₁.ret = s.ret + 1 := hstep.kept.2.2.2.2.1
        obtain ⟨s₂, htakes, hend⟩ := ih hcall
        refine ⟨s₂, .head hstep htakes, ?_⟩
        rcases hend with ⟨hall, hfinish⟩ | ⟨hsome', hnone, hsleep⟩
        · exact Or.inl ⟨by omega, hfinish⟩
        · exact Or.inr ⟨by omega, hnone, hsleep⟩
      · rename_i hnone
        exact ⟨s, .refl, Or.inr ⟨Nat.le_add_right _ _, hnone, hcall⟩⟩

/-! ### The cases of a step -/

/-- The call of `_stdin_do_read`, with nothing read. -/
def start (s : StdinSystem) (len : U32) : StdinSystem :=
  { s with reads := Function.update s.reads s.current ⟨len, []⟩ }

/-- `waitDelCurrent` after `schedule()`. -/
def leave (s : StdinSystem) : StdinSystem := { s with sys := s.sys.stdinWoken }

/-- The system after a step. -/
inductive Stepped (s : StdinSystem) (saved : Context) : StdinAct → StdinSystem → Prop
  | writeNul : Stepped s saved (.write 0) s
  | write {c : BitVec 8} {s₁ : StdinSystem} {sys : System} (hc : c ≠ 0) (hstore : s.store c = .ok s₁)
      (hkeyboard : s.sys.keyboard = .ok sys) : Stepped s saved (.write c) { s₁ with sys := sys }
  | readAll {len : U32} {s₁ : StdinSystem} (hpc : s.sys.pc s.current = .run)
      (hidle : s.current ≠ s.sys.kernel.idleTask) (htakes : Relation.ReflTransGen TakeStep (s.start len) s₁)
      (hret : s₁.ret = len.toNat) : Stepped s saved (.read len) s₁.finish
  | readSleep {len : U32} {s₁ s' : StdinSystem} (hpc : s.sys.pc s.current = .run)
      (hidle : s.current ≠ s.sys.kernel.idleTask) (htakes : Relation.ReflTransGen TakeStep (s.start len) s₁)
      (hret : s₁.ret < len.toNat) (hnone : ¬ s₁.rpos < s₁.wpos) (hsleep : s₁.sleep = .ok s') :
      Stepped s saved (.read len) s'
  | wokenAll {s₁ : StdinSystem} (hpc : s.sys.pc s.current = .stdinWoken)
      (hflags : s.sys.waitFlags s.current = WT_KBD) (htakes : Relation.ReflTransGen TakeStep s.leave s₁)
      (hret : s₁.ret = s.ret + (s.len.toNat - s.ret - 1) + 1) : Stepped s saved .woken s₁.finish
  | wokenSleep {s₁ s' : StdinSystem} (hpc : s.sys.pc s.current = .stdinWoken)
      (hflags : s.sys.waitFlags s.current = WT_KBD) (htakes : Relation.ReflTransGen TakeStep s.leave s₁)
      (hret : s₁.ret ≤ s.ret + (s.len.toNat - s.ret - 1)) (hnone : ¬ s₁.rpos < s₁.wpos)
      (hsleep : s₁.sleep = .ok s') : Stepped s saved .woken s'
  | wokenBreak (hpc : s.sys.pc s.current = .stdinWoken) (hflags : s.sys.waitFlags s.current ≠ WT_KBD) :
      Stepped s saved .woken s.leave.finish
  | other {act : Act} {sys : System} (hact : ofStdin (s.sys.pc s.current) act = false)
      (hstep : s.sys.step saved act = some (.ok sys)) : Stepped s saved (.other act) { s with sys := sys }

variable {saved : Context}

theorem stepped_of_read {len : U32} (hpc : s.sys.pc s.current = .run) (hidle : s.current ≠ s.sys.kernel.idleTask)
    (hcall : s.doRead len = .ok s') : Stepped s saved (.read len) s' := by
  unfold doRead at hcall
  dsimp only at hcall
  have hzero : (s.start len).ret = 0 := by simp [ret, start, current]
  split at hcall
  · rename_i hlen
    obtain rfl := Except.ok.inj hcall
    exact .readAll hpc hidle .refl (hzero.trans hlen.symm)
  · rename_i n hlen
    obtain ⟨s₁, htakes, ⟨hret, rfl⟩ | ⟨hret, hnone, hsleep⟩⟩ := tryAgain_cases (s := s.start len) hcall
    · exact .readAll hpc hidle htakes (by omega)
    · exact .readSleep hpc hidle htakes (by omega) hnone hsleep

theorem stepped_of_woken (hpc : s.sys.pc s.current = .stdinWoken) (hcall : s.doReadWoken = .ok s') :
    Stepped s saved .woken s' := by
  unfold doReadWoken at hcall
  dsimp only at hcall
  split at hcall
  · rename_i hflags
    obtain ⟨s₁, htakes, ⟨hret, rfl⟩ | ⟨hret, hnone, hsleep⟩⟩ := tryAgain_cases (s := s.leave) hcall
    · exact .wokenAll hpc hflags htakes hret
    · exact .wokenSleep hpc hflags htakes hret hnone hsleep
  · rename_i hflags
    obtain rfl := Except.ok.inj hcall
    exact .wokenBreak hpc hflags

/-- Every step is one of the cases. -/
theorem stepped_of_step {act : StdinAct} (hstep : s.step saved act = some (.ok s')) : Stepped s saved act s' := by
  cases act with
  | write c =>
      rcases doWrite_eq_ok (Option.some.inj hstep) with ⟨rfl, rfl⟩ | ⟨s₁, sys, hc, hstore, hkeyboard, rfl⟩
      · exact .writeNul
      · exact .write hc hstore hkeyboard
  | read len =>
      simp only [step] at hstep
      split at hstep
      · rename_i hrun
        exact stepped_of_read hrun.1 hrun.2 (Option.some.inj hstep)
      · cases hstep
  | woken =>
      simp only [step] at hstep
      split at hstep
      · rename_i hpc
        exact stepped_of_woken hpc (Option.some.inj hstep)
      · cases hstep
  | other act =>
      simp only [step] at hstep
      split at hstep
      · cases hstep
      · rename_i hact
        obtain ⟨r, hsys, hcall⟩ := Option.map_eq_some_iff.mp hstep
        obtain ⟨sys, rfl, hcall⟩ := Res.bind_eq_ok.mp hcall
        obtain rfl := Except.ok.inj hcall
        exact .other (Bool.eq_false_of_not_eq_true hact) hsys

/-! ### Steps of the system -/

/-- A reader that finds nothing goes to sleep, as it may in `System`. -/
theorem sysSteps_of_sleep (hpc : s.sys.pc s.current = .run) (hidle : s.current ≠ s.sys.kernel.idleTask)
    (hsleep : s.sleep = .ok s') : SysStep s.sys s'.sys := by
  obtain ⟨sys, hcall, rfl⟩ := sleep_eq_ok hsleep
  refine ⟨noContext, .call .readStdin, ?_⟩
  have hrun : s.sys.pc s.sys.current = .run := hpc
  have hne : s.sys.current ≠ s.sys.kernel.idleTask := hidle
  simp only [System.step, hrun, hne, if_false]
  exact congrArg some hcall

theorem leave_step (hpc : s.sys.pc s.current = .stdinWoken) : SysStep s.sys s.leave.sys := by
  refine ⟨noContext, .next, ?_⟩
  have hwoken : s.sys.pc s.sys.current = .stdinWoken := hpc
  simp only [System.step, System.next, hwoken]
  rfl

theorem leave_pc : s.leave.sys.pc s.leave.current = .run := goto_pc_self ..

/-- On the tasks every step is a sequence of steps of `System`. -/
theorem sysSteps_of_stdin {act : StdinAct} (hidle : s.sys.pc s.sys.kernel.idleTask = .run)
    (hstep : Stepped s saved act s') : Relation.ReflTransGen SysStep s.sys s'.sys := by
  have hawake : s.sys.pc s.current = .stdinWoken → s.leave.current ≠ s.leave.sys.kernel.idleTask := by
    intro hpc heq
    have hrun : s.sys.pc s.current = .run := (congrArg s.sys.pc heq).trans hidle
    rw [hpc] at hrun
    cases hrun
  cases hstep with
  | writeNul => exact .refl
  | write hc hstore hkeyboard => exact .single ⟨noContext, .keyboard, congrArg some hkeyboard⟩
  | readAll hpc hne htakes hret =>
      have hsys := (takes_kept htakes).1
      exact hsys ▸ .refl
  | @readSleep _ s₁ _ hpc hne htakes hret hnone hsleep =>
      have hsys : s₁.sys = s.sys := (takes_kept htakes).1
      have hstep := sysSteps_of_sleep (by rw [current, hsys]; exact hpc) (by rw [current, hsys]; exact hne) hsleep
      exact .single (hsys ▸ hstep)
  | wokenAll hpc hflags htakes hret =>
      have hsys := (takes_kept htakes).1
      exact hsys ▸ .single (leave_step hpc)
  | @wokenSleep s₁ _ hpc hflags htakes hret hnone hsleep =>
      have hsys : s₁.sys = s.leave.sys := (takes_kept htakes).1
      have hstep := sysSteps_of_sleep (by rw [current, hsys]; exact leave_pc) (by rw [current, hsys]; exact hawake hpc)
        hsleep
      exact .head (leave_step hpc) (.single (hsys ▸ hstep))
  | wokenBreak hpc hflags => exact .single (leave_step hpc)
  | other hact hstep => exact .single ⟨saved, _, hstep⟩

end Calls

/-! ### Runs of given steps -/

/-- Run a sequence of steps that all pass a test. -/
def steps (ok : StdinSystem → StdinAct → Bool) (saved : Context) : List StdinAct → StdinSystem → Option StdinSystem
  | [], s => some s
  | act :: acts, s =>
      if ok s act then
        match s.step saved act with
        | some (.ok s') => s'.steps ok saved acts
        | _ => none
      else none

theorem run_of_steps {ok : StdinSystem → StdinAct → Bool} {saved : Context} {acts : List StdinAct}
    {s s' : StdinSystem} (hsteps : s.steps ok saved acts = some s') :
    Relation.ReflTransGen (fun s s' => ∃ saved act, s.step saved act = some (.ok s') ∧ ok s act = true) s s' := by
  induction acts generalizing s with
  | nil =>
      obtain rfl := Option.some.inj hsteps
      exact .refl
  | cons act acts ih =>
      unfold steps at hsteps
      split at hsteps
      · rename_i hok
        split at hsteps
        · rename_i hstep
          exact .head ⟨saved, act, hstep, hok⟩ (ih hsteps)
        · cases hsteps
      · cases hsteps

/-- Boot, then run a sequence of steps. -/
def bootSteps (ok : StdinSystem → StdinAct → Bool) (acts : List StdinAct) : Option (Kernel × StdinSystem) := do
  let k₀ ← (initTask smallImage fortyFrames 0).toOption
  let s ← (bootStdin k₀ (fun _ => 0) fun _ => 0).steps ok noContext acts
  return (k₀, s)

theorem bootSteps_eq_some {ok : StdinSystem → StdinAct → Bool} {acts : List StdinAct} {k₀ : Kernel} {s : StdinSystem}
    (h : bootSteps ok acts = some (k₀, s)) : initTask smallImage fortyFrames 0 = .ok k₀ ∧
      (bootStdin k₀ (fun _ => 0) fun _ => 0).steps ok noContext acts = some s := by
  unfold bootSteps at h
  obtain ⟨k, hinit, h⟩ := Option.bind_eq_some_iff.mp h
  obtain ⟨s', hsteps, h⟩ := Option.bind_eq_some_iff.mp h
  obtain ⟨rfl, rfl⟩ := Prod.mk.inj (Option.some.inj h)
  exact ⟨Res.toOption_eq_some.mp hinit, hsteps⟩

theorem stdinSteps_of_steps {ok : StdinSystem → StdinAct → Bool} {saved : Context} {acts : List StdinAct}
    {s s' : StdinSystem} (hsteps : s.steps ok saved acts = some s') : Relation.ReflTransGen StdinStep s s' :=
  Relation.ReflTransGen.mono (fun _ _ ⟨saved, act, hstep, _⟩ => ⟨saved, act, hstep⟩) _ _ (run_of_steps hsteps)

end StdinSystem

end Krnl
end FreakOS
