import FreakOS.Krnl.Stdin

/-!
# Readers of `stdin` do not sleep on input

A reader joins the queue, turns interrupts on, and only then calls `schedule()`.  The keyboard may come before that, and
then wakes up the running task.

* `StdinFrame` — the steps that leave the queue of `stdin` and its readers alone.
* `ReadersInv` — the queue, the positions and the flags of the readers together.
* `stdin_readers_run` — what holds in every run.
-/

namespace FreakOS
namespace Krnl

open Lib
open Memory
open FreakOS.Krnl.System

/-! ### Other steps -/

/-- The queue of `stdin` is as it was, and who is at `stdin` was there before, with the same flags. -/
structure StdinFrame (s s' : System) : Prop where
  queue : s'.stdinQueue = s.stdinQueue
  flags : ∀ a, (s'.pc a).waitPoint = some .stdin → (s.pc a).waitPoint = some .stdin ∧ s'.waitFlags a = s.waitFlags a

namespace StdinFrame

variable {s s' : System} {saved : Context}

theorem of_pc (hqueue : s'.stdinQueue = s.stdinQueue) (hflags : s'.waitFlags = s.waitFlags)
    (hpc : ∀ a, s'.pc a = s.pc a ∨ (s'.pc a).waitPoint ≠ some .stdin) : StdinFrame s s' := by
  refine ⟨hqueue, fun a ha => ?_⟩
  rcases hpc a with hsame | hne
  · exact ⟨hsame ▸ ha, congrFun hflags a⟩
  · exact absurd ha hne

/-- A task goes on at a place that is not in `stdin`. -/
theorem goto (s : System) (b : U32) {pc : Pc} (hpc : pc.waitPoint ≠ some .stdin) (a : U32) :
    (s.goto b pc).pc a = s.pc a ∨ ((s.goto b pc).pc a).waitPoint ≠ some .stdin := by
  by_cases ha : a = b
  · subst ha
    rw [goto_pc_self]
    exact Or.inr hpc
  · exact Or.inl (goto_pc_of_ne s pc ha)

/-- The step of a task that goes on somewhere else. -/
theorem move (s : System) (k : Kernel) (b : U32) {pc : Pc} (hpc : pc.waitPoint ≠ some .stdin) :
    StdinFrame s ((s.goto b pc).setKernel k) :=
  of_pc rfl rfl (goto s b hpc)

theorem waitNone (s : System) (pid codeStore : U32) (haskid : Bool) : StdinFrame s (s.waitNone pid codeStore haskid) := by
  unfold System.waitNone
  cases haskid with
  | true => exact move s s.kernel _ (by simp [Pc.waitPoint])
  | false => exact move s s.kernel _ (by simp [Pc.waitPoint])

theorem waitStart (s : System) (pid codeStore : U32) : StdinFrame s (s.waitStart pid codeStore) := by
  unfold System.waitStart
  split
  · exact of_pc rfl rfl fun _ => Or.inl rfl
  · exact move s s.kernel _ (by simp [Pc.waitPoint])

/-- Every step that is not one of the keyboard or of a reader. -/
theorem of_stepped {act : Act} (h : QueuesInv s) (hact : StdinSystem.ofStdin (s.pc s.current) act = false)
    (hstep : Stepped s saved act s') : StdinFrame s s' := by
  cases hstep with
  | tick hcall => exact of_pc rfl rfl fun _ => Or.inl rfl
  | keyboard hcall => cases hact
  | yield hpc hcall => exact of_pc rfl rfl fun _ => Or.inl rfl
  | fork hpc hidle hcall => exact of_pc rfl rfl fun _ => Or.inl rfl
  | exit hpc hidle hcall => exact move s _ _ (by simp [Pc.waitPoint])
  | wait hpc hidle => exact waitStart s _ _
  | acquire hpc hidle hvalue => exact of_pc rfl rfl fun _ => Or.inl rfl
  | acquireSleep hpc hidle hvalue hcall =>
      obtain ⟨k, hmod, rfl⟩ := down_eq_ok hvalue hcall
      refine ⟨rfl, fun a ha => ?_⟩
      dsimp only at ha ⊢
      by_cases hcur : a = k.currentTask
      · subst hcur
        simp [Pc.waitPoint] at ha
      · rw [Function.update_of_ne hcur] at ha
        exact ⟨ha, Function.update_of_ne hcur _ _⟩
  | release hpc hidle hcall =>
      rcases up_eq_ok hcall with ⟨-, rfl⟩ | ⟨b, rest, k, hqueue, hwake, rfl⟩
      · exact of_pc rfl rfl fun _ => Or.inl rfl
      · refine ⟨rfl, fun a ha => ⟨ha, Function.update_of_ne ?_ _ _⟩⟩
        -- The task that is woken up is at the semaphore.
        rintro rfl
        have hplace := h.place (.sem _) a (by rw [System.queue, hqueue]; exact List.mem_cons_self ..)
        exact absurd (ha.symm.trans hplace) (by simp)
  | readStdin hpc hidle hcall => cases hact
  | downSched hpc hcall => exact move s _ _ (by simp [Pc.waitPoint])
  | downWoken hpc hcall =>
      obtain ⟨-, rfl⟩ := downWoken_eq_ok hcall
      exact of_pc rfl rfl (goto s _ (by simp [Pc.waitPoint]))
  | stdinSched hpc hcall =>
      refine ⟨rfl, fun a ha => ⟨?_, rfl⟩⟩
      by_cases hcur : a = s.current
      · subst hcur
        rw [hpc]
        rfl
      · rw [setKernel_pc, goto_pc_of_ne s _ hcur] at ha
        exact ha
  | stdinWoken hpc => simp [StdinSystem.ofStdin, hpc] at hact
  | exitMark hpc hmark hcode hcall => exact move s _ _ (by simp [Pc.waitPoint])
  | exitCode hpc hcode hcall => exact move s _ _ (by simp [Pc.waitPoint])
  | exitSection hpc hcall => exact move s _ _ (by simp [Pc.waitPoint])
  | exitSched hpc hcall hreturn => exact move s _ _ (by simp [Pc.waitPoint])
  | waitChild hpc hpid hcall => exact waitNone s _ _ _
  | waitFirst hpc ht => exact move s s.kernel _ (by simp [Pc.waitPoint])
  | waitEnd hpc => exact waitNone s _ _ _
  | waitRound hpc ht hstate => exact move s s.kernel _ (by simp [Pc.waitPoint])
  | reap hpc ht hstate hcall =>
      refine of_pc rfl rfl fun a => ?_
      have hrun : Pc.waitPoint .run ≠ some .stdin := by simp [Pc.waitPoint]
      rcases goto ((s.setKernel _).goto _ .run) s.current hrun a with hsame | hne
      · rcases goto (s.setKernel _) _ hrun a with hsame' | hne'
        · exact Or.inl (hsame.trans hsame')
        · exact Or.inr (hsame ▸ hne')
      · exact Or.inr hne
  | waitMark hpc hmark hcall => exact move s _ _ (by simp [Pc.waitPoint])
  | waitReason hpc hcall => exact move s _ _ (by simp [Pc.waitPoint])
  | waitSched hpc hcall => exact move s _ _ (by simp [Pc.waitPoint])
  | waitWoken hpc ht hflags => exact move s s.kernel _ (by simp [Pc.waitPoint])
  | waitKilled hpc ht hflags hidle hcall => exact move s _ _ (by simp [Pc.waitPoint])
  | tickInExit hpc hmark hcall => exact move s _ _ (by simp [Pc.waitPoint])
  | tickBeforeSection hpc hmark hcode hcall => exact move s _ _ (by simp [Pc.waitPoint])
  | tickInWait hpc hmark hcall => exact move s _ _ (by simp [Pc.waitPoint])

end StdinFrame

/-- `wakeupAll` sets the flags of all that it names. -/
theorem wakeupLoop_flags {s s' : System} {flags : U32} {queue : List U32} (hcall : wakeupLoop flags queue s = .ok s')
    {a : U32} (ha : a ∈ queue ∨ s.waitFlags a = flags) : s'.waitFlags a = flags := by
  induction queue generalizing s with
  | nil =>
      obtain rfl := Except.ok.inj hcall
      exact ha.resolve_left (List.not_mem_nil)
  | cons b rest ih =>
      obtain ⟨s₁, hwait, hcall⟩ := Res.bind_eq_ok.mp hcall
      obtain ⟨k, hwake, rfl⟩ := wakeupWait_eq_ok hwait
      -- The flags of `a` are set now, or `a` is among the rest.
      refine ih hcall ?_
      by_cases hab : a = b
      · subst hab
        exact Or.inr (Function.update_self ..)
      · rcases ha with hmem | hflags
        · exact Or.inl ((List.mem_cons.mp hmem).resolve_left hab)
        · exact Or.inr ((Function.update_of_ne hab _ _).trans hflags)

/-! ### Readers -/

namespace StdinSystem

/-- Somebody waits only while there is no character, who has left the queue was woken up by the keyboard, a reader that
waits has not got all that it was asked for, and one that has returned has. -/
structure ReadersInv (lo hi : Nat) (m₀ : Pmm) (v : Nat → Int) (s : StdinSystem) : Prop where
  sys : SysInv lo hi m₀ v s.sys
  le : s.rpos ≤ s.wpos
  empty : s.sys.stdinQueue ≠ [] → s.rpos = s.wpos
  woken : ∀ a, (s.sys.pc a).waitPoint = some .stdin → a ∈ s.sys.stdinQueue ∨ s.sys.waitFlags a = WT_KBD
  more : ∀ a, (s.sys.pc a).waitPoint = some .stdin → (s.reads a).chars.length < (s.reads a).len.toNat
  finished : ∀ r ∈ s.finished, r.chars.length = r.len.toNat

section Readers

variable {s s' : StdinSystem} {saved : Context} {lo hi : Nat} {m₀ : Pmm} {v : Nat → Int}

/-- What a reader has got is what the read position has moved by. -/
theorem takes_pos (h : Relation.ReflTransGen TakeStep s s') :
    s'.rpos + s.ret = s.rpos + s'.ret ∧ s.ret ≤ s'.ret ∧ (s.rpos ≤ s.wpos → s'.rpos ≤ s'.wpos) := by
  induction h with
  | refl => exact ⟨rfl, le_rfl, id⟩
  | tail _ hstep ih =>
      obtain ⟨-, hwpos, -, -, hret, -⟩ := hstep.kept
      obtain ⟨hpos, hle, hfits⟩ := ih
      obtain ⟨hlt, htake⟩ := hstep
      have hrpos : StdinSystem.rpos _ = _ := congrArg StdinSystem.rpos (take_eq_ok htake)
      dsimp only at hrpos
      exact ⟨by omega, by omega, fun _ => by omega⟩

namespace ReadersInv

/-- The running task has no read that waits. -/
theorem start (h : ReadersInv lo hi m₀ v s) (hpc : s.sys.pc s.current = .run) (len : U32) :
    ReadersInv lo hi m₀ v (s.start len) := by
  refine ⟨h.sys, h.le, h.empty, h.woken, fun a ha => ?_, h.finished⟩
  have hne : a ≠ s.current := by
    rintro rfl
    rw [show (s.start len).sys.pc s.current = .run from hpc] at ha
    cases ha
  have hsame : (s.start len).reads a = s.reads a := Function.update_of_ne hne _ _
  rw [hsame]
  exact h.more a ha

/-- Characters are read. -/
theorem takes (h : ReadersInv lo hi m₀ v s) (hpc : s.sys.pc s.current = .run)
    (hsteps : Relation.ReflTransGen TakeStep s s') : ReadersInv lo hi m₀ v s' := by
  obtain ⟨hsys, hwpos, hfinished, -, hreads⟩ := takes_kept hsteps
  obtain ⟨hpos, hret, hle⟩ := takes_pos hsteps
  have hfits := hle h.le
  refine ⟨hsys ▸ h.sys, hfits, fun hqueue => ?_, ?_, fun a ha => ?_, hfinished ▸ h.finished⟩
  · have heq := h.empty (hsys ▸ hqueue)
    omega
  · rw [hsys]
    exact h.woken
  · rw [hsys] at ha
    have hne : a ≠ s.current := by
      rintro rfl
      rw [hpc] at ha
      cases ha
    rw [hreads a hne]
    exact h.more a ha

/-- The read returns with all that it was asked for. -/
theorem finish (h : ReadersInv lo hi m₀ v s) (hret : s.ret = s.len.toNat) : ReadersInv lo hi m₀ v s.finish := by
  refine ⟨h.sys, h.le, h.empty, h.woken, h.more, fun r hr => ?_⟩
  rcases List.mem_append.mp hr with hr | hr
  · exact h.finished r hr
  · rw [List.mem_singleton.mp hr]
    exact hret

/-- The buffer is empty, and the reader joins the queue. -/
theorem sleep (h : ReadersInv lo hi m₀ v s) (hpc : s.sys.pc s.current = .run)
    (hidle : s.current ≠ s.sys.kernel.idleTask) (hret : s.ret < s.len.toNat) (hnone : ¬ s.rpos < s.wpos)
    (hcall : s.sleep = .ok s') : ReadersInv lo hi m₀ v s' ∧ s.current ∈ s'.sys.stdinQueue ∧ s'.rpos = s.rpos := by
  have hinv : SysInv lo hi m₀ v s'.sys := by
    obtain ⟨saved, act, hstep⟩ := sysSteps_of_sleep hpc hidle hcall
    exact h.sys.step hstep
  -- `WT_KBD` is set only when the reader is woken up; until then it is in the queue.
  obtain ⟨sys, hsleep, rfl⟩ := sleep_eq_ok hcall
  obtain ⟨k, hmod, rfl⟩ := stdinSleep_eq_ok hsleep
  have hcurrent : k.currentTask = s.current := modifyTask_current hmod
  have hle := h.le
  dsimp only at hinv ⊢
  rw [hcurrent] at hinv ⊢
  refine ⟨⟨hinv, h.le, fun _ => by dsimp only; omega, fun a ha => ?_, fun a ha => ?_, h.finished⟩, by simp, rfl⟩
  · dsimp only at ha ⊢
    by_cases hcur : a = s.current
    · exact Or.inl (by simp [hcur])
    · rw [Function.update_of_ne hcur] at ha ⊢
      exact (h.woken a ha).imp_left (List.mem_append_left _)
  · dsimp only at ha ⊢
    by_cases hcur : a = s.current
    · exact hcur ▸ hret
    · rw [Function.update_of_ne hcur] at ha
      exact h.more a ha

/-- The reader that runs again is not in the queue. -/
theorem leave (h : ReadersInv lo hi m₀ v s) (hpc : s.sys.pc s.current = .stdinWoken) :
    ReadersInv lo hi m₀ v s.leave := by
  have hinv : SysInv lo hi m₀ v s.leave.sys := by
    obtain ⟨saved, act, hstep⟩ := leave_step hpc
    exact h.sys.step hstep
  have hplace : ∀ a, (s.leave.sys.pc a).waitPoint = some .stdin → a ≠ s.current ∧ (s.sys.pc a).waitPoint = some .stdin := by
    intro a ha
    by_cases hcur : a = s.current
    · subst hcur
      rw [show s.leave.sys.pc s.current = .run from leave_pc] at ha
      cases ha
    · exact ⟨hcur, (congrArg Pc.waitPoint (goto_pc_of_ne _ .run hcur)).symm.trans ha⟩
  refine ⟨hinv, h.le, fun hqueue => h.empty ?_, fun a ha => ?_, fun a ha => h.more a (hplace a ha).2, h.finished⟩
  · rintro hnil
    refine hqueue ?_
    change s.sys.stdinQueue.erase s.sys.current = []
    rw [hnil]
    rfl
  · obtain ⟨hne, hbefore⟩ := hplace a ha
    exact (h.woken a hbefore).imp_left fun hmem => (List.mem_erase_of_ne hne).mpr hmem

/-- The keyboard. -/
theorem write (h : ReadersInv lo hi m₀ v s) {c : BitVec 8} {s₁ : StdinSystem} {sys : System}
    (hstore : s.store c = .ok s₁) (hkeyboard : s.sys.keyboard = .ok sys) :
    ReadersInv lo hi m₀ v { s₁ with sys := sys } := by
  have hstep : s.sys.step noContext .keyboard = some (.ok sys) := congrArg some hkeyboard
  have hinv : SysInv lo hi m₀ v sys := h.sys.step hstep
  have hle := h.le
  obtain ⟨⟨k, flags, hframe⟩, -, -, hothers, -⟩ := wakeupLoop_spec hkeyboard
  have hpc : sys.pc = s.sys.pc := by rw [hframe]
  have hqueue : sys.stdinQueue = [] := by rw [hframe]
  have hwoken : ∀ a, (sys.pc a).waitPoint = some .stdin → a ∈ sys.stdinQueue ∨ sys.waitFlags a = WT_KBD := by
    intro a ha
    rw [hpc] at ha
    exact Or.inr (wakeupLoop_flags hkeyboard (h.woken a ha))
  have hmore : ∀ a, (sys.pc a).waitPoint = some .stdin → (s.reads a).chars.length < (s.reads a).len.toNat := by
    intro a ha
    rw [hpc] at ha
    exact h.more a ha
  -- In a full buffer `p_wpos` stays where it is, and the readers are woken up all the same.
  rcases store_eq_ok hstore with ⟨-, rfl⟩ | ⟨-, rfl⟩
  · exact ⟨hinv, Nat.le_succ_of_le hle, fun hne => absurd hqueue hne, hwoken, hmore, h.finished⟩
  · exact ⟨hinv, hle, fun hne => absurd hqueue hne, hwoken, hmore, h.finished⟩

/-- Any other step. -/
theorem other (h : ReadersInv lo hi m₀ v s) {act : Act} {sys : System}
    (hact : ofStdin (s.sys.pc s.current) act = false) (hstep : s.sys.step saved act = some (.ok sys)) :
    ReadersInv lo hi m₀ v { s with sys := sys } := by
  have hframe := StdinFrame.of_stepped h.sys.queues hact (Krnl.stepped_of_step hstep)
  refine ⟨h.sys.step hstep, h.le, fun hqueue => h.empty (hframe.queue ▸ hqueue), fun a ha => ?_,
    fun a ha => h.more a (hframe.flags a ha).1, h.finished⟩
  obtain ⟨hbefore, hflags⟩ := hframe.flags a ha
  have hcase := h.woken a hbefore
  rw [← hframe.queue, ← hflags] at hcase
  exact hcase

/-- A reader that runs again was woken up by the keyboard. -/
theorem flags (h : ReadersInv lo hi m₀ v s) (hpc : s.sys.pc s.current = .stdinWoken) :
    s.sys.waitFlags s.current = WT_KBD := by
  refine (h.woken s.current (by rw [hpc]; rfl)).resolve_left ?_
  exact h.sys.queues.not_mem_of_slept (by rw [show s.sys.pc s.sys.current = .stdinWoken from hpc]; trivial) .stdin

/-- The reader that runs again is not `idle_task`. -/
theorem awake (h : ReadersInv lo hi m₀ v s) (hpc : s.sys.pc s.current = .stdinWoken) :
    s.current ≠ s.sys.kernel.idleTask := by
  intro heq
  have hrun := h.sys.queues.idle
  rw [← heq, hpc] at hrun
  cases hrun

/-- One step. -/
theorem step {act : StdinAct} (h : ReadersInv lo hi m₀ v s) (hstep : Stepped s saved act s') :
    ReadersInv lo hi m₀ v s' := by
  cases hstep with
  | writeNul => exact h
  | write hc hstore hkeyboard => exact h.write hstore hkeyboard
  | @readAll len s₁ hpc hidle htakes hret =>
      have hlen : s₁.len = len := (takes_kept htakes).2.2.2.1.trans (by simp [StdinSystem.len, StdinSystem.start, current])
      exact ((h.start hpc len).takes hpc htakes).finish (by rw [hlen]; exact hret)
  | @readSleep len s₁ s' hpc hidle htakes hret hnone hsleep =>
      have hsys : s₁.sys = s.sys := (takes_kept htakes).1
      have hlen : s₁.len = len := (takes_kept htakes).2.2.2.1.trans (by simp [StdinSystem.len, StdinSystem.start, current])
      refine (((h.start hpc len).takes hpc htakes).sleep ?_ ?_ (by rw [hlen]; exact hret) hnone hsleep).1
      · rw [current, hsys]
        exact hpc
      · rw [current, hsys]
        exact hidle
  | @wokenAll s₁ hpc hflags htakes hret =>
      have hlen : s₁.len = s.len := (takes_kept htakes).2.2.2.1
      have hmore : s.ret < s.len.toNat := h.more s.current (by rw [hpc]; rfl)
      exact ((h.leave hpc).takes leave_pc htakes).finish (by rw [hlen]; omega)
  | @wokenSleep s₁ s' hpc hflags htakes hret hnone hsleep =>
      have hsys : s₁.sys = s.leave.sys := (takes_kept htakes).1
      have hlen : s₁.len = s.len := (takes_kept htakes).2.2.2.1
      have hmore : s.ret < s.len.toNat := h.more s.current (by rw [hpc]; rfl)
      refine (((h.leave hpc).takes leave_pc htakes).sleep ?_ ?_ (by rw [hlen]; omega) hnone hsleep).1
      · rw [current, hsys]
        exact leave_pc
      · rw [current, hsys]
        exact h.awake hpc
  | wokenBreak hpc hflags => exact absurd (h.flags hpc) hflags
  | other hact hstep => exact h.other hact hstep

end ReadersInv

/-- A reader that runs again finds a character, or goes back to sleep on the empty buffer. -/
theorem woken_cases (h : ReadersInv lo hi m₀ v s) (hstep : Stepped s saved .woken s') :
    (s.rpos < s.wpos ∧ s.rpos < s'.rpos) ∨
      (s.rpos = s.wpos ∧ s'.rpos = s.rpos ∧ s.current ∈ s'.sys.stdinQueue) := by
  have hle := h.le
  cases hstep with
  | @wokenAll s₁ hpc hflags htakes hret =>
      obtain ⟨hpos, -, hfits⟩ := takes_pos htakes
      have hwpos : s₁.wpos = s.wpos := (takes_kept htakes).2.1
      have hret₀ : s.leave.ret = s.ret := rfl
      have hrpos₀ : s.leave.rpos = s.rpos := rfl
      have hend : s₁.rpos ≤ s₁.wpos := hfits hle
      refine Or.inl ?_
      change s.rpos < s.wpos ∧ s.rpos < s₁.rpos
      omega
  | @wokenSleep s₁ s' hpc hflags htakes hret hnone hsleep =>
      obtain ⟨hpos, -, hfits⟩ := takes_pos htakes
      have hwpos : s₁.wpos = s.wpos := (takes_kept htakes).2.1
      have hsys : s₁.sys = s.leave.sys := (takes_kept htakes).1
      have hend : s₁.rpos ≤ s₁.wpos := hfits hle
      have hlen : s₁.len = s.len := (takes_kept htakes).2.2.2.1
      have hmore : s.ret < s.len.toNat := h.more s.current (by rw [hpc]; rfl)
      obtain ⟨-, hmem, hrpos⟩ := ((h.leave hpc).takes leave_pc htakes).sleep (by rw [current, hsys]; exact leave_pc)
        (by rw [current, hsys]; exact h.awake hpc) (by rw [hlen]; omega) hnone hsleep
      have hcurrent : s₁.current = s.current := by
        rw [current, hsys]
        rfl
      by_cases hsome : s.rpos < s.wpos
      -- It has read all that there was, and asks for more.
      · exact Or.inl ⟨hsome, by omega⟩
      · have hmono : s.rpos ≤ s₁.rpos := by
          have := (takes_pos htakes).2.1
          have hrpos₀ : s.leave.rpos = s.rpos := rfl
          omega
        exact Or.inr ⟨by omega, by omega, hcurrent ▸ hmem⟩
  | wokenBreak hpc hflags => exact absurd (h.flags hpc) hflags

theorem bootStdin_inv {used : List Extent} {image : KernelImage} {m : Machine} {arg : U32} {k₀ : Kernel}
    (hledger : Ledger lo hi m₀ m used) (hinit : initTask image m arg = .ok k₀) (v : Nat → Int)
    (buffer : Nat → BitVec 8) : ReadersInv lo hi m₀ v (bootStdin k₀ v buffer) := by
  refine ⟨bootSystem_inv hledger hinit v, le_rfl, fun _ => rfl, ?_, ?_, ?_⟩
  · intro a ha
    cases ha
  · intro a ha
    cases ha
  · intro r hr
    cases hr

theorem readersInv_of_run {used : List Extent} {image : KernelImage} {m : Machine} {arg : U32} {k₀ : Kernel}
    (hledger : Ledger lo hi m₀ m used) (hinit : initTask image m arg = .ok k₀) {buffer : Nat → BitVec 8}
    (hrun : Relation.ReflTransGen StdinStep (bootStdin k₀ v buffer) s) : ReadersInv lo hi m₀ v s := by
  induction hrun with
  | refl => exact bootStdin_inv hledger hinit v buffer
  | tail _ hstep ih =>
      obtain ⟨saved, act, hstep⟩ := hstep
      exact ih.step (stepped_of_step hstep)

/-- **Readers do not sleep on input.**  In every run of any number of readers, with the keyboard at any place where
interrupts are on: if somebody waits, all characters have been read; who waits is in the queue once and asleep; a reader
that runs again finds a character or goes back to sleep; and a read that has returned has got all that it was asked
for. -/
theorem stdin_readers_run {used : List Extent} (image : KernelImage) (m : Machine) (arg : U32) (k₀ : Kernel)
    (hledger : Ledger lo hi m₀ m used) (hinit : initTask image m arg = .ok k₀) (v : Nat → Int)
    (buffer : Nat → BitVec 8) (hrun : Relation.ReflTransGen StdinStep (bootStdin k₀ v buffer) s) :
    (s.sys.stdinQueue ≠ [] → s.rpos = s.wpos) ∧
      (∀ a ∈ s.sys.stdinQueue, s.sys.stdinQueue.count a = 1 ∧ s.sys.kernel.status a = some (.sleeping, WT_KBD)) ∧
      (∀ saved s', s.step saved .woken = some (.ok s') → (s.rpos < s.wpos ∧ s.rpos < s'.rpos) ∨
        (s.rpos = s.wpos ∧ s'.rpos = s.rpos ∧ s.current ∈ s'.sys.stdinQueue)) ∧
      ∀ r ∈ s.finished, r.chars.length = r.len.toNat := by
  have h := readersInv_of_run hledger hinit hrun
  refine ⟨h.empty, fun a ha => ?_, fun saved s' hstep => woken_cases h (stepped_of_step hstep), h.finished⟩
  exact ⟨List.count_eq_one_of_mem (h.sys.queues.nodup .stdin) ha, h.sys.queues.status .stdin a ha⟩

end Readers

/-- `init_task` asks for two characters while there is none, and gets them. -/
theorem stdin_readers_two_chars : ∃ k₀ s, initTask smallImage fortyFrames 0 = .ok k₀ ∧
    Relation.ReflTransGen StdinStep (bootStdin k₀ (fun _ => 0) fun _ => 0) s ∧ s.finished = [⟨2, [97, 98]⟩] ∧
    ∀ r ∈ s.finished, r.chars.length = r.len.toNat := by
  have heval : (bootSteps (fun _ _ => true) [.other (.call .yield), .read 2, .other .next, .write 97, .write 98,
      .other (.call .yield), .woken]).map (fun x => x.2.finished) = some [⟨2, [97, 98]⟩] := by
    decide +kernel
  obtain ⟨⟨k₀, s⟩, hboot, hfinished⟩ := Option.map_eq_some_iff.mp heval
  obtain ⟨hinit, hsteps⟩ := bootSteps_eq_some hboot
  have hrun := stdinSteps_of_steps hsteps
  exact ⟨k₀, s, hinit, hrun, hfinished,
    (stdin_readers_run smallImage fortyFrames 0 k₀ fortyFrames_ledger hinit _ _ hrun).2.2.2⟩

end StdinSystem

end Krnl
end FreakOS
