import FreakOS.Krnl.Family
import FreakOS.Krnl.TaskIds

/-!
# The exit status of a child

`do_fork`, `do_exit` and `do_wait` as wholes, one after the other.

* `findAnyChild_spec`, `findChild_spec` — the two searches of `do_wait` find a zombie if there is one.
* `Track` — the kernel, with the code that each task has passed to `do_exit` and the number of exits and of tasks freed.
* `StatusInv` — a zombie has no children, and has the code with which it exited.
* `exit_status` — what a `do_wait` that returns has done.
-/

namespace FreakOS
namespace Krnl

open Lib
open Memory

/-- A child that `do_wait(pid)` may return. -/
def Kernel.Awaits (k : Kernel) (pid a : U32) : Prop :=
  ∃ t, k.tasks a = some t ∧ t.parent = k.currentTask ∧ (pid ≠ 0 → t.tid = pid)

section Search

variable {k k' : Kernel} {kids : U32 → List U32} {lo hi : Nat} {m₀ : Pmm} {used : List Extent}

theorem zombie_iff {a : U32} {t : Task} (ht : k.tasks a = some t) : k.Zombie a ↔ t.state = .zombie := by
  unfold Kernel.Zombie
  rw [status_eq_some ht]
  constructor
  · rintro ⟨ws, heq⟩
    exact congrArg Prod.fst (Option.some.inj heq)
  · intro hstate
    exact ⟨t.waitState, by rw [hstate]⟩

/-- The loop of `wait`, from the part `rest` of the children on. -/
theorem findZombie_spec (h : Family k kids) {p : U32} {seen rest : List U32} (hkids : kids p = seen ++ rest) {fuel : Nat}
    (hfuel : rest.length < fuel) (haskid : Bool) :
    (∃ z ∈ rest, k.Zombie z ∧ findZombie k fuel (rest.headD NULL) haskid = .ok (z, true)) ∨
      (∀ z ∈ rest, ¬ k.Zombie z) ∧
        findZombie k fuel (rest.headD NULL) haskid = .ok (NULL, haskid || !rest.isEmpty) := by
  induction rest generalizing seen fuel haskid with
  | nil =>
      obtain ⟨n, rfl⟩ : ∃ n, fuel = n + 1 := ⟨fuel - 1, by simp at hfuel; omega⟩
      refine Or.inr ⟨by simp, ?_⟩
      simp [findZombie]
      rfl
  | cons x rest ih =>
      obtain ⟨n, rfl⟩ : ∃ n, fuel = n + 1 := ⟨fuel - 1, by simp at hfuel; omega⟩
      have hin : x ∈ kids p := by
        rw [hkids]
        simp
      have hnull : x ≠ NULL := fun heq => h.forest.null_not_mem p (heq ▸ hin)
      obtain ⟨node, hnode, -⟩ := h.forest.parent p x hin
      obtain ⟨t, ht, rfl⟩ := Option.map_eq_some_iff.mp hnode
      have hunfold : findZombie k (n + 1) x haskid =
          if t.state = .zombie then .ok (x, true) else findZombie k n t.optr true := by
        rw [findZombie, if_neg hnull, task_eq_ok.mpr ht]
        rfl
      rw [List.headD_cons, hunfold]
      by_cases hstate : t.state = .zombie
      · rw [if_pos hstate]
        exact Or.inl ⟨x, List.mem_cons_self .., (zombie_iff ht).mpr hstate, rfl⟩
      · -- The next child is the head of what is left.
        have hnodup := h.forest.nodup p
        rw [hkids, List.nodup_append, List.nodup_cons] at hnodup
        have hout : x ∉ seen := fun hmem => hnodup.2.2 x hmem x (List.mem_cons_self ..) rfl
        have hnext : t.optr = rest.headD NULL := by
          have holder : t.optr = nextIn NULL (kids p) x := h.forest.older p x t.node hin (nodes_eq_some ht)
          rw [holder, hkids, nextIn_split hout]
        rw [if_neg hstate, hnext]
        have hcut : kids p = (seen ++ [x]) ++ rest := by rw [hkids, List.append_assoc, List.singleton_append]
        have hfuel' : rest.length < n := by
          rw [List.length_cons] at hfuel
          omega
        rcases ih hcut hfuel' true with ⟨z, hz, hzombie, hcall⟩ | ⟨hnone, hcall⟩
        · exact Or.inl ⟨z, List.mem_cons_of_mem _ hz, hzombie, hcall⟩
        · refine Or.inr ⟨?_, by rw [hcall]; simp⟩
          intro z hz
          rcases List.mem_cons.mp hz with rfl | hz
          · exact fun hzombie => hstate ((zombie_iff ht).mp hzombie)
          · exact hnone z hz

/-- The search of `wait`. -/
theorem findAnyChild_spec (h : Family k kids) (hk : TaskInv lo hi m₀ k used) :
    (∃ z ∈ kids k.currentTask, k.Zombie z ∧ findAnyChild k = .ok (z, true)) ∨
      (∀ z ∈ kids k.currentTask, ¬ k.Zombie z) ∧ findAnyChild k = .ok (NULL, !(kids k.currentTask).isEmpty) := by
  obtain ⟨t, ht⟩ := Option.isSome_iff_exists.mp h.current
  have hcptr : t.cptr = (kids k.currentTask).headD NULL := h.forest.child _ _ (nodes_eq_some ht)
  have hfuel : (kids k.currentTask).length < reparentFuel := by
    have hlt := h.length_kids_lt hk h.current
    have hbound := h.bound
    unfold reparentFuel
    omega
  have hspec := findZombie_spec h (List.nil_append _).symm hfuel false
  unfold findAnyChild
  rw [task_eq_ok.mpr ht, Res.ok_bind, hcptr]
  simpa using hspec

/-- The loop of `find_task` comes to an end, and what it returns has the id. -/
theorem exists_findTaskIn (tid : U32) {list : List U32} (hlive : ∀ b ∈ list, ∃ u, k.tasks b = some u) :
    ∃ a, findTaskIn k tid list = .ok a ∧ (a ≠ NULL → ∃ t, k.tasks a = some t ∧ t.tid = tid) := by
  induction list with
  | nil => exact ⟨NULL, rfl, fun hne => absurd rfl hne⟩
  | cons b rest ih =>
      obtain ⟨u, hu⟩ := hlive b (List.mem_cons_self ..)
      unfold findTaskIn
      rw [task_eq_ok.mpr hu, Res.ok_bind]
      by_cases htid : tid = u.tid
      · rw [if_pos htid]
        exact ⟨b, rfl, fun _ => ⟨u, hu, htid.symm⟩⟩
      · rw [if_neg htid]
        exact ih fun c hc => hlive c (List.mem_cons_of_mem _ hc)

/-- The search of `waitpid`. -/
theorem findChild_spec (hids : UniqueTids k) (hk : TaskInv lo hi m₀ k used) {pid : U32} (hpid : pid ≠ 0) :
    (∃ z, k.Awaits pid z ∧ k.Zombie z ∧ findChild k pid = .ok (z, true)) ∨
      (∀ z, k.Awaits pid z → ¬ k.Zombie z) ∧
        ∃ haskid, findChild k pid = .ok (NULL, haskid) ∧ (haskid = true ↔ ∃ z, k.Awaits pid z) := by
  have hnull : ∀ {a t}, k.tasks a = some t → a ≠ NULL := by
    rintro a t ht rfl
    rw [hk.null] at ht
    simp at ht
  by_cases hex : ∃ z, k.Awaits pid z
  · obtain ⟨z, t, ht, hparent, htid⟩ := hex
    obtain rfl := htid hpid
    have hfind := hids.findTask hk ((hk.live z).mpr (by simp [ht])) ht
    have hunfold : findChild k t.tid = .ok (if t.state = .zombie then z else NULL, true) := by
      unfold findChild
      rw [hfind, Res.ok_bind, if_neg (hnull ht), task_eq_ok.mpr ht, Res.ok_bind, if_pos hparent]
      rfl
    by_cases hstate : t.state = .zombie
    · rw [if_pos hstate] at hunfold
      exact Or.inl ⟨z, ⟨t, ht, hparent, fun _ => rfl⟩, (zombie_iff ht).mpr hstate, hunfold⟩
    · rw [if_neg hstate] at hunfold
      refine Or.inr ⟨?_, true, hunfold, iff_of_true rfl ⟨z, t, ht, hparent, fun _ => rfl⟩⟩
      rintro y ⟨u, hu, -, htid'⟩ hzombie
      have hyz := hids y z u t ((hk.live y).mpr (by simp [hu])) ((hk.live z).mpr (by simp [ht])) hu ht (htid' hpid)
      subst hyz
      exact hstate ((zombie_iff ht).mp hzombie)
  · refine Or.inr ⟨fun z hz => absurd ⟨z, hz⟩ hex, false, ?_, iff_of_false (by simp) hex⟩
    obtain ⟨a, hfind, ha⟩ := exists_findTaskIn pid fun b hb =>
      Option.isSome_iff_exists.mp ((hk.live b).mp hb)
    unfold findChild findTask
    rw [hfind, Res.ok_bind]
    by_cases hne : a = NULL
    · rw [if_pos hne]
      rfl
    · obtain ⟨t, ht, htid⟩ := ha hne
      have hparent : t.parent ≠ k.currentTask := fun heq => hex ⟨a, t, ht, heq, fun _ => htid⟩
      rw [if_neg hne, task_eq_ok.mpr ht, Res.ok_bind, if_neg hparent]
      rfl

/-- The search of `do_wait`. -/
theorem search_spec (h : Family k kids) (hids : UniqueTids k) (hk : TaskInv lo hi m₀ k used) (pid : U32) :
    (∃ z, k.Awaits pid z ∧ k.Zombie z ∧ (if pid ≠ 0 then findChild k pid else findAnyChild k) = .ok (z, true)) ∨
      (∀ z, k.Awaits pid z → ¬ k.Zombie z) ∧
        ∃ haskid, (if pid ≠ 0 then findChild k pid else findAnyChild k) = .ok (NULL, haskid) ∧
          (haskid = true ↔ ∃ z, k.Awaits pid z) := by
  by_cases hpid : pid = 0
  · subst hpid
    have hmem : ∀ z, k.Awaits 0 z ↔ z ∈ kids k.currentTask := by
      intro z
      rw [h.mem_kids_iff h.current]
      simp [Kernel.Awaits]
    simp only [hmem, ne_eq, not_true, if_false]
    rcases findAnyChild_spec h hk with ⟨z, hz, hzombie, hcall⟩ | ⟨hnone, hcall⟩
    · exact Or.inl ⟨z, hz, hzombie, hcall⟩
    · refine Or.inr ⟨hnone, _, hcall, ?_⟩
      cases kids k.currentTask with
      | nil => simp
      | cons x rest => simp
  · rw [if_pos hpid]
    exact findChild_spec hids hk hpid

/-- How a pass of `do_wait` ends. -/
theorem waitPass_cases (h : Family k kids) (hids : UniqueTids k) (hk : TaskInv lo hi m₀ k used) {pid codeStore : U32}
    {saved : Context} {res : WaitResult} (hcall : waitPass k pid codeStore saved = .ok (res, k')) :
    (∃ z, k.Awaits pid z ∧ k.Zombie z ∧ reap k z codeStore = .ok (res, k')) ∨
      (∃ k₁, (k.modifyTask k.currentTask fun t => { t with state := .sleeping, waitState := WT_CHILD }) = .ok k₁ ∧
        schedule k₁ saved = .ok k' ∧ res = .slept ∧ ∃ z, k.Awaits pid z) ∨
      res = .returned (-E_BAD_PROC) none ∧ k' = k ∧ ∀ z, ¬ k.Awaits pid z := by
  unfold waitPass at hcall
  rcases search_spec h hids hk pid with ⟨z, hz, hzombie, hsearch⟩ | ⟨-, haskid, hsearch, hiff⟩
  · rw [hsearch, Res.ok_bind] at hcall
    have hnull : z ≠ NULL := by
      rintro rfl
      obtain ⟨t, ht, -⟩ := hz
      rw [hk.null] at ht
      simp at ht
    dsimp only at hcall
    rw [if_pos hnull] at hcall
    exact Or.inl ⟨z, hz, hzombie, hcall⟩
  · rw [hsearch, Res.ok_bind] at hcall
    dsimp only at hcall
    rw [if_neg (not_not.mpr rfl)] at hcall
    cases haskid with
    | true =>
        obtain ⟨k₁, hsleep, hcall⟩ := Res.bind_eq_ok.mp hcall
        obtain ⟨k₂, hschedule, hcall⟩ := Res.bind_eq_ok.mp hcall
        obtain ⟨rfl, rfl⟩ := Prod.mk.inj (Except.ok.inj hcall)
        exact Or.inr (Or.inl ⟨k₁, hsleep, hschedule, rfl, hiff.mp rfl⟩)
    | false =>
        obtain ⟨rfl, rfl⟩ := Prod.mk.inj (Except.ok.inj hcall)
        exact Or.inr (Or.inr ⟨rfl, rfl, fun z hz => absurd (hiff.mpr ⟨z, hz⟩) (by simp)⟩)

/-- Without a child to wait for, the pass returns at once. -/
theorem waitPass_none (h : Family k kids) (hids : UniqueTids k) (hk : TaskInv lo hi m₀ k used) {pid codeStore : U32}
    {saved : Context} (hnone : ∀ z, ¬ k.Awaits pid z) :
    waitPass k pid codeStore saved = .ok (.returned (-E_BAD_PROC) none, k) := by
  unfold waitPass
  rcases search_spec h hids hk pid with ⟨z, hz, -⟩ | ⟨-, haskid, hsearch, hiff⟩
  · exact absurd hz (hnone z)
  · have hfalse : haskid = false := by
      cases haskid with
      | false => rfl
      | true =>
          obtain ⟨z, hz⟩ := hiff.mp rfl
          exact absurd hz (hnone z)
    rw [hsearch, Res.ok_bind, hfalse]
    rfl

end Search

/-! ### What holds between the calls -/

/-- The tree, the zombies and the tasks that wait for a child. -/
structure Sound (k : Kernel) (kids : U32 → List U32) : Prop where
  family : Family k kids
  idle : ¬ k.Zombie k.idleTask
  waits : ∀ a st, k.status a = some (st, WT_CHILD) → st = .sleeping
  childless : ∀ a, k.Zombie a → a ≠ k.initTask → kids a = []

/-- The same, when the running task can run. -/
structure Settled (k : Kernel) (kids : U32 → List U32) : Prop extends Sound k kids where
  awake : ¬ k.Zombie k.currentTask
  active : ∀ st, k.status k.currentTask = some (st, WT_CHILD) → k.currentTask = k.idleTask

section Calls

variable {k k' : Kernel} {kids : U32 → List U32} {lo hi : Nat} {m₀ : Pmm} {used : List Extent} {saved : Context}

/-- After `schedule` the running task can run. -/
theorem Sound.schedule (h : Sound k kids) (hk : TaskInv lo hi m₀ k used) (hrun : RunInv k)
    (hcall : schedule k saved = .ok k') : Settled k' kids := by
  have hkept := schedule_kept hcall
  have hswitched := switched_of_schedule hrun hk.null hcall
  have hzombie : ∀ a, k'.Zombie a ↔ k.Zombie a := by
    intro a
    unfold Kernel.Zombie
    rw [hswitched.status a]
  have hcurrent : k'.currentTask = k.idleTask ∨ ∃ ws, k.status k'.currentTask = some (.runnable, ws) :=
    (hrun.schedule hk.null hcall).2.imp_right ready_isSome_iff.mp
  refine ⟨⟨h.family.frame hkept.sameList (hkept.nodes Task.node fun _ => rfl) (hswitched.live hk h.family.current),
    ?_, ?_, ?_⟩, ?_, ?_⟩
  · rw [hzombie, hkept.idleTask]
    exact h.idle
  · intro a st hst
    rw [hswitched.status a] at hst
    exact h.waits a st hst
  · intro a hz hne
    rw [hkept.initTask] at hne
    exact h.childless a ((hzombie a).mp hz) hne
  · rw [hzombie]
    rintro ⟨ws, hz⟩
    rcases hcurrent with heq | ⟨ws', hready⟩
    · rw [heq] at hz
      exact h.idle ⟨ws, hz⟩
    · rw [hz] at hready
      simp at hready
  · intro st hst
    rw [hkept.idleTask]
    rcases hcurrent with heq | ⟨ws', hready⟩
    · exact heq
    · rw [hswitched.status] at hst
      rw [hst, h.waits _ st hst] at hready
      simp at hready

/-- The exit code at an address. -/
def Kernel.codeAt (k : Kernel) (a : U32) : Option Int := (k.tasks a).map Task.exitCode

/-- The code with which the running task exits in a step. -/
def Op.exitCode (k : Kernel) : Op → Option Int
  | .exit errCode => some errCode
  | .resumeWait _ _ =>
      match k.tasks k.currentTask with
      | some t => if t.flags &&& PF_EXITING ≠ 0 then some (-E_KILLED) else none
      | none => none
  | _ => none

/-- What a step does to the zombies; `exit` is the code with which the running task exits, if it does. -/
structure Recorded (k k' : Kernel) (exit : Option Int) : Prop where
  idle : k'.idleTask = k.idleTask
  init : k'.initTask = k.initTask
  zombie : ∀ a, k'.Zombie a → (k.Zombie a ∧ k'.codeAt a = k.codeAt a) ∨ a = k.currentTask ∧ exit = k'.codeAt a
  stays : ∀ a, k.Zombie a → k'.Zombie a ∨ k'.tasks a = none
  gone : ∀ a, (k.tasks a).isSome → k'.tasks a = none → k.Zombie a
  exits : ∀ errCode, exit = some errCode → k'.Zombie k.currentTask

/-- A step that leaves zombies and the list alone. -/
theorem Recorded.of_same (hidle : k'.idleTask = k.idleTask) (hinit : k'.initTask = k.initTask)
    (hzombie : ∀ a, k'.Zombie a ↔ k.Zombie a) (hcode : ∀ a, k.Zombie a → k'.codeAt a = k.codeAt a)
    (hlive : ∀ a, (k.tasks a).isSome → (k'.tasks a).isSome) : Recorded k k' none := by
  refine ⟨hidle, hinit, fun a hz => Or.inl ⟨(hzombie a).mp hz, hcode a ((hzombie a).mp hz)⟩,
    fun a hz => Or.inl ((hzombie a).mpr hz), ?_, by simp⟩
  intro a hsome hnone
  have hlive' := hlive a hsome
  rw [hnone] at hlive'
  simp at hlive'

/-- `do_fork`. -/
theorem Settled.doFork (h : Settled k kids) (hk : TaskInv lo hi m₀ k used) {flags stack : U32} {frame : InterruptFrame}
    {ret : Int} (hcall : doFork k flags stack frame = .ok (ret, k')) :
    (∃ kids', Settled k' kids') ∧ Recorded k k' none := by
  obtain ⟨hcurrent, hidle, hstatus⟩ := doFork_status hk hcall
  rcases doFork_forking hk hcall with ⟨-, ⟨m, mm, f, i, tf, rfl⟩, -⟩ | ⟨hcount, a, t, k₁, used₁, hforking, hstack, hpub⟩
  · exact ⟨⟨kids, ⟨h.family.frame ⟨rfl, rfl, rfl, rfl⟩ rfl h.family.current, h.idle, h.waits, h.childless⟩, h.awake,
      h.active⟩, .of_same rfl rfl (fun _ => Iff.rfl) (fun _ _ => rfl) fun _ hsome => hsome⟩
  · have hfamily := h.family.publish hk hcount hforking hpub
    obtain ⟨t', -, hforked⟩ := hforking.publish hk hstack hpub
    have hinit : k'.initTask = k.initTask := by
      obtain ⟨u, -, -, hkept⟩ := publish_kept hpub
      refine hkept.initTask.trans ?_
      obtain ⟨m, ts, mm, f, i, tf, rfl⟩ := hforking.frame
      rfl
    have hnew : ∀ b x, k'.status b = some x → k.status b = some x ∨ b = a ∧ x = (.runnable, WT_NOTWAIT) := by
      intro b x hb
      rcases hstatus with hsame | ⟨c, hnone, hnew, hothers⟩
      · exact Or.inl ((hsame b).symm.trans hb)
      · by_cases hbc : b = c
        · subst hbc
          have hx := Option.some.inj (hnew.symm.trans hb)
          by_cases hba : b = a
          · exact Or.inr ⟨hba, hx.symm⟩
          · have hsome := congrArg Option.isSome (hforked.others b hba)
            simp only [Option.isSome_map, hnone] at hsome
            obtain ⟨u, hu, -⟩ := Option.map_eq_some_iff.mp hb
            simp [hu] at hsome
        · exact Or.inl ((hothers b hbc).symm.trans hb)
    have hold : ∀ b x, k.status b = some x → k'.status b = some x := by
      intro b x hb
      rcases hstatus with hsame | ⟨c, hnone, -, hothers⟩
      · exact (hsame b).trans hb
      · have hbc : b ≠ c := by
          rintro rfl
          simp [Kernel.status, hnone] at hb
        exact (hothers b hbc).trans hb
    have hzombie : ∀ b, k'.Zombie b ↔ k.Zombie b := by
      intro b
      constructor
      · rintro ⟨ws, hz⟩
        rcases hnew b _ hz with hz' | ⟨-, heq⟩
        · exact ⟨ws, hz'⟩
        · simp at heq
      · rintro ⟨ws, hz⟩
        exact ⟨ws, hold b _ hz⟩
    have hlive : ∀ b, (k.tasks b).isSome → b ≠ a := by
      rintro b hb rfl
      simp [hforking.fresh] at hb
    refine ⟨⟨_, ⟨hfamily, ?_, ?_, ?_⟩, ?_, ?_⟩, .of_same hidle hinit hzombie ?_ ?_⟩
    · rw [hzombie, hidle]
      exact h.idle
    · intro b st hst
      rcases hnew b _ hst with hst' | ⟨-, heq⟩
      · exact h.waits b st hst'
      · have hws : WT_CHILD = WT_NOTWAIT := congrArg Prod.snd heq
        exact absurd hws (by decide)
    · intro b hz hne
      rw [hinit] at hne
      have hb : b ≠ k.currentTask := by
        rintro rfl
        exact h.awake ((hzombie _).mp hz)
      rw [Function.update_of_ne hb]
      exact h.childless b ((hzombie b).mp hz) hne
    · rw [hzombie, hcurrent]
      exact h.awake
    · intro st hst
      rw [hcurrent] at hst ⊢
      rcases hnew _ _ hst with hst' | ⟨-, heq⟩
      · rw [hidle]
        exact h.active st hst'
      · have hws : WT_CHILD = WT_NOTWAIT := congrArg Prod.snd heq
        exact absurd hws (by decide)
    · rintro b ⟨ws, hz⟩
      obtain ⟨u, hu, -⟩ := Option.map_eq_some_iff.mp hz
      have hba := hlive b (by simp [hu])
      unfold Krnl.publish at hpub
      obtain ⟨k₂, hmod, hpub⟩ := Res.bind_eq_ok.mp hpub
      obtain ⟨k₃, hadd, hpub⟩ := Res.bind_eq_ok.mp hpub
      obtain ⟨k₄, hwake, hpub⟩ := Res.bind_eq_ok.mp hpub
      obtain ⟨t'', -, hpub⟩ := Res.bind_eq_ok.mp hpub
      obtain ⟨-, rfl⟩ := Prod.mk.inj (Except.ok.inj hpub)
      have hkept₂ : Kept Task.exitCode k₁ k₂ := Kept.modifyTask hmod fun _ => rfl
      calc
        k₄.codeAt b = k₃.codeAt b := ((wakeupTask_kept hwake).comp Task.exitCode).tasks b
        _ = k₂.codeAt b := ((addTask_kept hadd).comp Task.exitCode).tasks b
        _ = k₁.codeAt b := hkept₂.tasks b
        _ = k.codeAt b := congrArg (Option.map Task.exitCode) (hforking.others b hba)
    · intro b hb
      have hsome := congrArg Option.isSome (hforked.others b (hlive b hb))
      simpa [hb] using hsome

/-- The running task becomes a zombie and hands its children over. -/
theorem Settled.handOver (h : Settled k kids) (hk : TaskInv lo hi m₀ k used) {errCode : Int} {k₂ k₃ : Kernel}
    (hidle : k.currentTask ≠ k.idleTask)
    (hmark : (k.modifyTask k.currentTask fun t => { t with state := .zombie, exitCode := errCode }) = .ok k₂)
    (hcall : Krnl.handOver k₂ = .ok k₃) :
    Sound k₃ (adopted kids k.currentTask k.initTask) ∧ ∀ a, k₃.Zombie a ↔ a = k.currentTask ∨ k.Zombie a := by
  have hkept : Kept Task.core k k₂ := Kept.modifyTask hmark fun _ => rfl
  have hcur : k₂.currentTask = k.currentTask := modifyTask_current hmark
  have hfamily : Family k₂ kids := by
    refine h.family.frame hkept.sameList (modifyTask_nodes_eq hmark fun _ => rfl) ?_
    rw [hcur, hkept.isSome]
    exact h.family.current
  have hothers : ∀ a, a ≠ k.currentTask → k₂.status a = k.status a := fun a ha => modifyTask_status_of_ne hmark ha
  -- The running task does not wait for a child, and who waits is asleep.
  have hwaits : ∀ a st, k₂.status a = some (st, WT_CHILD) → a ≠ k.currentTask ∧ st = .sleeping := by
    intro a st hst
    have ha : a ≠ k.currentTask := by
      rintro rfl
      obtain ⟨st', hst'⟩ := modifyTask_child hmark (fun _ => rfl) st hst
      exact hidle (h.active st' hst')
    rw [hothers a ha] at hst
    exact ⟨ha, h.waits a st hst⟩
  have hroused := Roused.handOver hcall
  have hzombie : ∀ a, k₃.Zombie a ↔ a = k.currentTask ∨ k.Zombie a := by
    intro a
    rw [hroused.zombie_iff]
    by_cases ha : a = k.currentTask
    · subst ha
      refine iff_of_true ?_ (Or.inl rfl)
      obtain ⟨t, -, rfl⟩ := modifyTask_eq_ok.mp hmark
      exact ⟨t.waitState, setTask_status_self⟩
    · unfold Kernel.Zombie
      rw [hothers a ha]
      simp [ha]
  have hinit : k₃.initTask = k.initTask := (handOver_kept hcall).initTask.trans hkept.initTask
  have hlast : Family k₃ (adopted kids k.currentTask k.initTask) := by
    by_cases hci : k.currentTask = k.initTask
    · obtain ⟨hnil, hfamily'⟩ := hfamily.handOver_init (by rw [hcur, hkept.initTask, hci]) hcall
      rw [hcur] at hnil
      rw [adopted_nil hnil]
      exact hfamily'
    · obtain ⟨k', t, hcall', hfamily', -⟩ := hfamily.handOver (hk.kept hkept)
        (by rw [hcur, hkept.initTask]; exact hci) (by rw [hcur, hkept.idleTask]; exact hidle) (by
          rintro a st ws hst rfl
          rw [(hwaits a st hst).2]
          simp)
      obtain rfl := Except.ok.inj (hcall.symm.trans hcall')
      rw [hcur, hkept.initTask] at hfamily'
      exact hfamily'
  refine ⟨⟨hlast, ?_, ?_, ?_⟩, hzombie⟩
  · rw [hzombie, (handOver_kept hcall).idleTask, hkept.idleTask]
    rintro (heq | hz)
    · exact hidle heq.symm
    · exact h.idle hz
  · intro a st hst
    have hmay := hroused.status a
    rw [hst] at hmay
    exact (hwaits a st (hmay.reason (by decide))).2
  · intro a hz hne
    rw [hinit] at hne
    by_cases ha : a = k.currentTask
    · subst ha
      exact adopted_self hne
    · rw [adopted_of_ne ha hne]
      exact h.childless a (((hzombie a).mp hz).resolve_left ha) hne

/-- `do_exit`. -/
theorem Settled.doExit (h : Settled k kids) (hk : TaskInv lo hi m₀ k used) (hrun : RunInv k) {errCode : Int}
    (hcall : doExit k errCode saved = .ok k') : (∃ kids', Settled k' kids') ∧ Recorded k k' (some errCode) := by
  unfold Krnl.doExit at hcall
  obtain ⟨_, hpanic, hcall⟩ := Res.bind_eq_ok.mp hcall
  obtain ⟨k₁, hexit, hcall⟩ := Res.bind_eq_ok.mp hcall
  obtain ⟨k₂, hmark, hcall⟩ := Res.bind_eq_ok.mp hcall
  obtain ⟨k₃, hhand, hcall⟩ := Res.bind_eq_ok.mp hcall
  obtain ⟨k₄, hschedule, hcall⟩ := Res.bind_eq_ok.mp hcall
  obtain ⟨_, -, hcall⟩ := Res.bind_eq_ok.mp hcall
  obtain rfl := Except.ok.inj hcall
  obtain rfl := hk.exitMm hexit
  have hkept : Kept Task.core k₁ k₂ := Kept.modifyTask hmark fun _ => rfl
  obtain ⟨hsound, hzombie⟩ := h.handOver hk (panicIf_eq_ok.mp hpanic) hmark hhand
  have hk₃ : TaskInv lo hi m₀ k₃ used := hk.kept (hkept.trans (handOver_kept hhand))
  have hrun₃ : RunInv k₃ := (hrun.modifyTask hmark (Or.inl rfl)).handOver hhand
  have hsettled := hsound.schedule hk₃ hrun₃ hschedule
  have hzombie' : ∀ a, k₄.Zombie a ↔ a = k₁.currentTask ∨ k₁.Zombie a := by
    intro a
    rw [← hzombie a]
    unfold Kernel.Zombie
    rw [still_status (schedule_kept hschedule) a]
  have hcode : ∀ a, k₄.codeAt a = k₂.codeAt a := fun a =>
    (((schedule_kept hschedule).comp Task.exitCode).tasks a).trans (((handOver_bare hhand).comp Task.exitCode).tasks a)
  have hlive : ∀ a, (k₄.tasks a).isSome = (k₁.tasks a).isSome := fun a => by
    rw [(schedule_kept hschedule).isSome, (handOver_kept hhand).isSome, hkept.isSome]
  refine ⟨⟨_, hsettled⟩, ?_, ?_, ?_, ?_, ?_, ?_⟩
  · rw [(schedule_kept hschedule).idleTask, (handOver_kept hhand).idleTask, hkept.idleTask]
  · rw [(schedule_kept hschedule).initTask, (handOver_kept hhand).initTask, hkept.initTask]
  · intro a hz
    by_cases ha : a = k₁.currentTask
    · subst ha
      refine Or.inr ⟨rfl, ?_⟩
      rw [hcode]
      obtain ⟨t, ht, rfl⟩ := modifyTask_eq_ok.mp hmark
      simp [Kernel.codeAt, Kernel.setTask]
    · refine Or.inl ⟨((hzombie' a).mp hz).resolve_left ha, ?_⟩
      rw [hcode]
      obtain ⟨t, ht, rfl⟩ := modifyTask_eq_ok.mp hmark
      simp [Kernel.codeAt, Kernel.setTask, ha]
  · intro a hz
    exact Or.inl ((hzombie' a).mpr (Or.inr hz))
  · intro a hsome hnone
    rw [← hlive a, hnone] at hsome
    simp at hsome
  · intro e _
    exact (hzombie' _).mpr (Or.inl rfl)

/-- The end of a `do_wait` that has found a zombie. -/
theorem Settled.reap (h : Settled k kids) (hk : TaskInv lo hi m₀ k used) {z codeStore : U32} {res : WaitResult}
    (hz : k.Zombie z) (hcall : reap k z codeStore = .ok (res, k')) :
    (∃ kids', Settled k' kids') ∧ Recorded k k' none := by
  obtain ⟨hcurrent, hidle, -, hgone, hothers⟩ := reap_status hcall
  obtain ⟨t, k₁, s₂, s₄, -, hne, ht, hdel, -, -, -, hk'⟩ := reap_eq hcall
  have hinit : k'.initTask = k.initTask := by
    rw [hk']
    exact (delTask_kept hdel).initTask
  have hzc : z ≠ k.currentTask := by
    rintro rfl
    exact h.awake hz
  have hfamily := h.family.reap hk ht (h.childless z hz hne) hzc hcall
  have hnone : ¬ k'.Zombie z := by
    rintro ⟨ws, heq⟩
    simp [Kernel.status, hgone] at heq
  have hzombie : ∀ a, a ≠ z → (k'.Zombie a ↔ k.Zombie a) := by
    intro a ha
    unfold Kernel.Zombie
    rw [hothers a ha]
  have hback : ∀ a x, k'.status a = some x → a ≠ z ∧ k.status a = some x := by
    intro a x hx
    have ha : a ≠ z := by
      rintro rfl
      simp [Kernel.status, hgone] at hx
    exact ⟨ha, (hothers a ha).symm.trans hx⟩
  have hcode : ∀ a, a ≠ z → k'.codeAt a = k.codeAt a := by
    intro a ha
    rw [hk']
    have hkept := ((delTask_kept hdel).comp Task.exitCode).tasks a
    refine Eq.trans ?_ hkept
    exact congrArg (Option.map Task.exitCode) (Function.update_of_ne ha _ _)
  refine ⟨⟨_, ⟨hfamily, ?_, ?_, ?_⟩, ?_, ?_⟩, hidle, hinit, ?_, ?_, ?_, by simp⟩
  · rw [hidle]
    rintro ⟨ws, hws⟩
    exact h.idle ⟨ws, (hback _ _ hws).2⟩
  · intro a st hst
    exact h.waits a st (hback a _ hst).2
  · rintro a ⟨ws, hws⟩ hna
    rw [hinit] at hna
    have hnil := h.childless a ⟨ws, (hback a _ hws).2⟩ hna
    by_cases hp : a = t.parent
    · rw [hp, Function.update_self, ← hp, hnil]
      rfl
    · rw [Function.update_of_ne hp]
      exact hnil
  · rw [hcurrent]
    rintro ⟨ws, hws⟩
    exact h.awake ⟨ws, (hback _ _ hws).2⟩
  · intro st hst
    rw [hcurrent] at hst ⊢
    rw [hidle]
    exact h.active st (hback _ _ hst).2
  · intro a hza
    have ha : a ≠ z := by
      rintro rfl
      exact hnone hza
    exact Or.inl ⟨(hzombie a ha).mp hza, hcode a ha⟩
  · intro a hza
    by_cases ha : a = z
    · exact Or.inr (ha ▸ hgone)
    · exact Or.inl ((hzombie a ha).mpr hza)
  · intro a hsome hna
    by_cases ha : a = z
    · exact ha ▸ hz
    · have hstatus := hothers a ha
      obtain ⟨u, hu⟩ := Option.isSome_iff_exists.mp hsome
      rw [status_eq_some hu] at hstatus
      simp [Kernel.status, hna] at hstatus

/-- A pass of `do_wait`. -/
theorem Settled.waitPass (h : Settled k kids) (hids : UniqueTids k) (hk : TaskInv lo hi m₀ k used) (hrun : RunInv k)
    {pid codeStore : U32} {res : WaitResult} (hcall : waitPass k pid codeStore saved = .ok (res, k')) :
    (∃ kids', Settled k' kids') ∧ Recorded k k' none := by
  rcases waitPass_cases h.family hids hk hcall with ⟨z, -, hz, hreap⟩ | ⟨k₁, hsleep, hschedule, -⟩ | ⟨-, rfl, -⟩
  · exact h.reap hk hz hreap
  · have hkept : Kept Task.core k k₁ := Kept.modifyTask hsleep fun _ => rfl
    have hcur : k₁.currentTask = k.currentTask := modifyTask_current hsleep
    have hself : ∀ x, k₁.status k.currentTask = some x → x = (.sleeping, WT_CHILD) := by
      intro x hx
      obtain ⟨t, -, rfl⟩ := modifyTask_eq_ok.mp hsleep
      rw [setTask_status_self] at hx
      exact (Option.some.inj hx).symm
    have hzombie : ∀ a, k₁.Zombie a ↔ k.Zombie a := by
      intro a
      by_cases ha : a = k.currentTask
      · subst ha
        refine iff_of_false ?_ h.awake
        rintro ⟨ws, hz⟩
        have heq := hself _ hz
        simp at heq
      · unfold Kernel.Zombie
        rw [modifyTask_status_of_ne hsleep ha]
    have hsound : Sound k₁ kids := by
      refine ⟨h.family.frame hkept.sameList (modifyTask_nodes_eq hsleep fun _ => rfl) ?_, ?_, ?_, ?_⟩
      · rw [hcur, hkept.isSome]
        exact h.family.current
      · rw [hzombie, hkept.idleTask]
        exact h.idle
      · intro a st hst
        by_cases ha : a = k.currentTask
        · subst ha
          exact congrArg Prod.fst (hself _ hst)
        · rw [modifyTask_status_of_ne hsleep ha] at hst
          exact h.waits a st hst
      · intro a hz hne
        rw [hkept.initTask] at hne
        exact h.childless a ((hzombie a).mp hz) hne
    have hkeptCode : Kept Task.exitCode k k₁ := Kept.modifyTask hsleep fun _ => rfl
    refine ⟨⟨kids, hsound.schedule (hk.kept hkept) (hrun.modifyTask hsleep (Or.inl rfl)) hschedule⟩,
      .of_same ((schedule_kept hschedule).idleTask.trans hkept.idleTask)
        ((schedule_kept hschedule).initTask.trans hkept.initTask) ?_ ?_ ?_⟩
    · intro a
      rw [← hzombie a]
      unfold Kernel.Zombie
      rw [still_status (schedule_kept hschedule) a]
    · intro a _
      exact (((schedule_kept hschedule).comp Task.exitCode).tasks a).trans (hkeptCode.tasks a)
    · intro a hsome
      rw [(schedule_kept hschedule).isSome, hkept.isSome]
      exact hsome
  · exact ⟨⟨kids, h⟩, .of_same rfl rfl (fun _ => Iff.rfl) (fun _ _ => rfl) fun _ hsome => hsome⟩

/-- `do_wait` checks its pointer, then makes a pass. -/
theorem doWait_eq (hk : TaskInv lo hi m₀ k used) (hlive : (k.tasks k.currentTask).isSome) (pid codeStore : U32)
    (saved : Context) : doWait k pid codeStore saved =
      if codeStore ≠ NULL ∧ (checkUserMem none codeStore 4 true).1 = false then .ok (.returned (-E_INVAL) none, k)
      else waitPass k pid codeStore saved := by
  obtain ⟨t, ht⟩ := Option.isSome_iff_exists.mp hlive
  unfold doWait
  rw [task_eq_ok.mpr ht, Res.ok_bind, if_pos (hk.noMm _ _ ht)]
  by_cases hnull : codeStore = NULL
  · simp [hnull]
  · simp [hnull]
    rfl

/-- One step of a run. -/
theorem Settled.exec (h : Settled k kids) (hids : UniqueTids k) (hk : TaskInv lo hi m₀ k used) (hrun : RunInv k) {op : Op}
    {ret : Option Int} (hcall : k.exec saved op = .ok (ret, k')) :
    (∃ kids', Settled k' kids') ∧ Recorded k k' (op.exitCode k) := by
  cases op with
  | fork flags stack frame =>
      obtain ⟨⟨ret', k₁⟩, hfork, hcall⟩ := Res.bind_eq_ok.mp hcall
      obtain ⟨-, rfl⟩ := Prod.mk.inj (Except.ok.inj hcall)
      exact h.doFork hk hfork
  | exit errCode =>
      obtain ⟨k₁, hexit, hcall⟩ := Res.bind_eq_ok.mp hcall
      obtain ⟨-, rfl⟩ := Prod.mk.inj (Except.ok.inj hcall)
      exact h.doExit hk hrun hexit
  | wait pid codeStore =>
      obtain ⟨⟨res, k₁⟩, hwait, hcall⟩ := Res.bind_eq_ok.mp hcall
      obtain ⟨-, rfl⟩ := Prod.mk.inj (Except.ok.inj hcall)
      rw [doWait_eq hk h.family.current] at hwait
      split at hwait
      · obtain ⟨-, rfl⟩ := Prod.mk.inj (Except.ok.inj hwait)
        exact ⟨⟨kids, h⟩, .of_same rfl rfl (fun _ => Iff.rfl) (fun _ _ => rfl) fun _ hsome => hsome⟩
      · exact h.waitPass hids hk hrun hwait
  | resumeWait pid codeStore =>
      obtain ⟨⟨res, k₁⟩, hwait, hcall⟩ := Res.bind_eq_ok.mp hcall
      obtain ⟨-, rfl⟩ := Prod.mk.inj (Except.ok.inj hcall)
      unfold Krnl.resumeWait at hwait
      obtain ⟨t, ht, hwait⟩ := Res.bind_eq_ok.mp hwait
      unfold Op.exitCode
      rw [task_eq_ok.mp ht]
      dsimp only
      split at hwait
      · rename_i hflags
        obtain ⟨k₂, hexit, hwait⟩ := Res.bind_eq_ok.mp hwait
        obtain ⟨-, rfl⟩ := Prod.mk.inj (Except.ok.inj hwait)
        rw [if_pos hflags]
        exact h.doExit hk hrun hexit
      · rename_i hflags
        rw [if_neg hflags]
        exact h.waitPass hids hk hrun hwait
  | schedule =>
      obtain ⟨k₁, hschedule, hcall⟩ := Res.bind_eq_ok.mp hcall
      obtain ⟨-, rfl⟩ := Prod.mk.inj (Except.ok.inj hcall)
      have hkept := schedule_kept hschedule
      refine ⟨⟨kids, h.toSound.schedule hk hrun hschedule⟩, .of_same hkept.idleTask hkept.initTask ?_ ?_ ?_⟩
      · intro a
        unfold Kernel.Zombie
        rw [still_status hkept a]
      · intro a _
        exact (hkept.comp Task.exitCode).tasks a
      · intro a hsome
        rw [hkept.isSome]
        exact hsome

theorem queueStep_of_exec {op : Op} {ret : Option Int} (hcall : k.exec saved op = .ok (ret, k')) : QueueStep k k' := by
  cases op with
  | fork flags stack frame =>
      obtain ⟨⟨ret', k₁⟩, hfork, hcall⟩ := Res.bind_eq_ok.mp hcall
      obtain ⟨-, rfl⟩ := Prod.mk.inj (Except.ok.inj hcall)
      exact .fork hfork
  | exit errCode =>
      obtain ⟨k₁, hexit, hcall⟩ := Res.bind_eq_ok.mp hcall
      obtain ⟨-, rfl⟩ := Prod.mk.inj (Except.ok.inj hcall)
      exact .exit hexit
  | wait pid codeStore =>
      obtain ⟨⟨res, k₁⟩, hwait, hcall⟩ := Res.bind_eq_ok.mp hcall
      obtain ⟨-, rfl⟩ := Prod.mk.inj (Except.ok.inj hcall)
      exact .wait hwait
  | resumeWait pid codeStore =>
      obtain ⟨⟨res, k₁⟩, hwait, hcall⟩ := Res.bind_eq_ok.mp hcall
      obtain ⟨-, rfl⟩ := Prod.mk.inj (Except.ok.inj hcall)
      exact .resumeWait hwait
  | schedule =>
      obtain ⟨k₁, hschedule, hcall⟩ := Res.bind_eq_ok.mp hcall
      obtain ⟨-, rfl⟩ := Prod.mk.inj (Except.ok.inj hcall)
      exact .schedule hschedule

end Calls

/-! ### Runs -/

/-- The kernel, with what has happened to the tasks at each address. -/
structure Track where
  kernel : Kernel
  /-- What the task at an address has passed to `do_exit`. -/
  code : U32 → Option Int
  /-- The number of times that a task at an address has exited. -/
  exits : U32 → Nat
  /-- The number of times that a task at an address has been freed. -/
  reaps : U32 → Nat

/-- The record after the step `op` to the kernel `k`. -/
def Track.next (x : Track) (op : Op) (k : Kernel) : Track where
  kernel := k
  code := fun a =>
    if (x.kernel.tasks a).isNone then none
    else if a = x.kernel.currentTask then (op.exitCode x.kernel).or (x.code a) else x.code a
  exits := fun a =>
    if a = x.kernel.currentTask ∧ (op.exitCode x.kernel).isSome then x.exits a + 1 else x.exits a
  reaps := fun a => if (x.kernel.tasks a).isSome ∧ (k.tasks a).isNone then x.reaps a + 1 else x.reaps a

/-- The record when `initTask` is done. -/
def bootTrack (k : Kernel) : Track := ⟨k, fun _ => none, fun _ => 0, fun _ => 0⟩

/-- One step, after which the ids of the tasks on the list differ. -/
def TrackStep (x x' : Track) : Prop :=
  ∃ saved op ret k, x.kernel.exec saved op = .ok (ret, k) ∧ UniqueTids k ∧ x' = x.next op k

/-- What holds of a record. -/
structure StatusInv (lo hi : Nat) (m₀ : Pmm) (x : Track) : Prop where
  base : (∃ used, TaskInv lo hi m₀ x.kernel used) ∧ RunInv x.kernel
  ids : UniqueTids x.kernel
  settled : ∃ kids, Settled x.kernel kids
  code : ∀ a, x.kernel.Zombie a → x.code a = x.kernel.codeAt a
  dead : ∀ a, x.kernel.Zombie a → x.exits a = x.reaps a + 1
  alive : ∀ a, ¬ x.kernel.Zombie a → x.exits a = x.reaps a
  first : x.reaps x.kernel.idleTask = 0 ∧ x.reaps x.kernel.initTask = 0

section Runs

variable {lo hi : Nat} {m₀ : Pmm} {used : List Extent} {x x' : Track}

theorem StatusInv.step (h : StatusInv lo hi m₀ x) (hstep : TrackStep x x') : StatusInv lo hi m₀ x' := by
  obtain ⟨saved, op, ret, k, hcall, hids, rfl⟩ := hstep
  obtain ⟨⟨used, hk⟩, hrun⟩ := h.base
  obtain ⟨kids, hsettled⟩ := h.settled
  obtain ⟨⟨kids', hsettled'⟩, hrec⟩ := hsettled.exec h.ids hk hrun hcall
  obtain ⟨⟨used', hk'⟩, hrun'⟩ := (queueStep_of_exec hcall).inv hk hrun
  have hstays : ∀ a, (k.tasks a).isSome → (x.next op k).reaps a = x.reaps a := by
    intro a hsome
    refine if_neg ?_
    rintro ⟨-, hnone⟩
    rw [Option.isNone_iff_eq_none.mp hnone] at hsome
    simp at hsome
  have hapart : ∀ a, x.kernel.Zombie a → a ≠ x.kernel.currentTask := by
    rintro a hz rfl
    exact hsettled.awake hz
  have hlive : ∀ {k : Kernel} {a : U32}, k.Zombie a → (k.tasks a).isSome := by
    rintro k a ⟨ws, hz⟩
    obtain ⟨t, ht, -⟩ := Option.map_eq_some_iff.mp hz
    simp [ht]
  refine ⟨⟨⟨used', hk'⟩, hrun'⟩, hids, ⟨kids', hsettled'⟩, ?_, ?_, ?_, ?_⟩
  · intro a (hz : k.Zombie a)
    rcases hrec.zombie a hz with ⟨hbefore, hsame⟩ | ⟨rfl, hexit⟩
    · have hcode : (x.next op k).code a = x.code a := by
        have hsome := hlive hbefore
        simp [Track.next, hapart a hbefore, Option.isNone_iff_eq_none, Option.isSome_iff_ne_none.mp hsome]
      rw [hcode, h.code a hbefore]
      exact hsame.symm
    · have hsome := hsettled.family.current
      have hcode : (k.codeAt x.kernel.currentTask).isSome := by
        have hsome' := hlive hz
        simpa [Kernel.codeAt] using hsome'
      obtain ⟨e, he⟩ := Option.isSome_iff_exists.mp hcode
      change (x.next op k).code x.kernel.currentTask = k.codeAt x.kernel.currentTask
      simp [Track.next, Option.isSome_iff_ne_none.mp hsome, hexit, he]
  · intro a (hz : k.Zombie a)
    rw [hstays a (hlive hz)]
    rcases hrec.zombie a hz with ⟨hbefore, -⟩ | ⟨rfl, hexit⟩
    · have hsame : (x.next op k).exits a = x.exits a := by simp [Track.next, hapart a hbefore]
      rw [hsame]
      exact h.dead a hbefore
    · have hsome : (op.exitCode x.kernel).isSome := by
        rw [hexit]
        have hsome' := hlive hz
        simpa [Kernel.codeAt] using hsome'
      have hcount : (x.next op k).exits x.kernel.currentTask = x.exits x.kernel.currentTask + 1 := by
        simp [Track.next, hsome]
      rw [hcount, h.alive _ hsettled.awake]
  · intro a (hz : ¬ k.Zombie a)
    by_cases hbefore : x.kernel.Zombie a
    · -- The zombie has been freed.
      have hgone := (hrec.stays a hbefore).resolve_left hz
      have hreaps : (x.next op k).reaps a = x.reaps a + 1 := by simp [Track.next, hgone, hlive hbefore]
      have hexits : (x.next op k).exits a = x.exits a := by simp [Track.next, hapart a hbefore]
      rw [hreaps, hexits]
      exact h.dead a hbefore
    · have hreaps : (x.next op k).reaps a = x.reaps a := by
        unfold Track.next
        dsimp only
        rw [if_neg]
        rintro ⟨hsome, hnone⟩
        exact hbefore (hrec.gone a hsome (Option.isNone_iff_eq_none.mp hnone))
      have hexits : (x.next op k).exits a = x.exits a := by
        unfold Track.next
        dsimp only
        rw [if_neg]
        rintro ⟨rfl, hsome⟩
        obtain ⟨e, he⟩ := Option.isSome_iff_exists.mp hsome
        exact hz (hrec.exits e he)
      rw [hreaps, hexits]
      exact h.alive a hbefore
  · have hidle := (hk'.live _).mp hk'.idle
    have hinit := hsettled'.family.init_isSome
    change (x.next op k).reaps k.idleTask = 0 ∧ (x.next op k).reaps k.initTask = 0
    rw [hstays _ hidle, hstays _ hinit, hrec.idle, hrec.init]
    exact h.first

theorem statusInv_of_run {image : KernelImage} {m : Machine} {arg : U32} {k₀ : Kernel}
    (hledger : Ledger lo hi m₀ m used) (hinit : initTask image m arg = .ok k₀)
    (hrun : Relation.ReflTransGen TrackStep (bootTrack k₀) x) : StatusInv lo hi m₀ x := by
  induction hrun with
  | refl =>
      obtain ⟨init, hname, -, hcurrent, hfamily⟩ := initTask_family hledger hinit
      have hzombie : ∀ a, ¬ k₀.Zombie a := by
        rintro a ⟨ws, hz⟩
        have hstate : TaskState.zombie = .runnable := congrArg Prod.fst (initTask_status hledger hinit hz)
        simp at hstate
      have hwaits : ∀ a st, k₀.status a ≠ some (st, WT_CHILD) := by
        intro a st hst
        have hws : WT_CHILD = WT_NOTWAIT := congrArg Prod.snd (initTask_status hledger hinit hst)
        exact absurd hws (by decide)
      exact ⟨initTask_queue hledger hinit, (initTask_unique hledger hinit).2,
        ⟨_, ⟨hfamily, hzombie _, fun a st hst => absurd hst (hwaits a st), fun a hz => absurd hz (hzombie a)⟩,
          hzombie _, fun _ _ => hcurrent⟩,
        fun a hz => absurd hz (hzombie a), fun a hz => absurd hz (hzombie a), fun _ _ => rfl, rfl, rfl⟩
  | tail _ hstep ih => exact ih.step hstep

/-- A pass of `do_wait` that returns 0. -/
theorem StatusInv.reaped (h : StatusInv lo hi m₀ x) {pid codeStore : U32} {saved : Context} {stored : Option Int}
    {k' : Kernel} (hcall : waitPass x.kernel pid codeStore saved = .ok (.returned 0 stored, k')) :
    ∃ z t, x.kernel.tasks z = some t ∧ t.state = .zombie ∧ t.parent = x.kernel.currentTask ∧ (pid ≠ 0 → t.tid = pid) ∧
      z ≠ x.kernel.idleTask ∧ z ≠ x.kernel.initTask ∧
      stored = (if codeStore ≠ NULL then x.code z else none) ∧
      k'.taskList = x.kernel.taskList.erase z ∧ k'.tasks z = none ∧
      (∀ a, a ≠ z → (k'.tasks a).isSome = (x.kernel.tasks a).isSome) ∧
      ∃ held held', Ledger lo hi m₀ x.kernel.machine held ∧ Ledger lo hi m₀ k'.machine held' ∧
        held.Perm (blockOf t.kstack KSTACKSIZE :: blockOf z sizeofTask :: held') := by
  obtain ⟨⟨used, hk⟩, -⟩ := h.base
  obtain ⟨kids, hsettled⟩ := h.settled
  rcases waitPass_cases hsettled.family h.ids hk hcall with ⟨z, ⟨t, ht, hparent, htid⟩, hz, hreap⟩ | ⟨_, -, -, heq, -⟩ |
    ⟨heq, -⟩
  · obtain ⟨t', k₁, s₂, s₄, hidle, hinit, ht', hdel, -, -, hres, hk'⟩ := reap_eq hreap
    obtain rfl := Option.some.inj (ht.symm.trans ht')
    obtain ⟨-, -, -, hgone, hothers⟩ := reap_status hreap
    obtain ⟨hstack, hblock, hledger⟩ := reap_ledger hk ht hreap
    refine ⟨z, t, ht, (zombie_iff ht).mp hz, hparent, htid, hidle, hinit, ?_, ?_, hgone, ?_, used, _, hk.ledger, hledger,
      ?_⟩
    · rw [(WaitResult.returned.inj hres).2, h.code z hz]
      simp [Kernel.codeAt, ht]
    · rw [hk']
      exact (delTask_kept hdel).taskList
    · intro a ha
      have hsome := congrArg Option.isSome (hothers a ha)
      simpa [Kernel.status] using hsome
    · exact (List.perm_cons_erase hstack).trans ((List.perm_cons_erase hblock).cons _)
  · simp at heq
  · exact absurd (WaitResult.returned.inj heq).1 (by decide)

/-- A pass that returns `-E_BAD_PROC`. -/
theorem StatusInv.badProc_iff (h : StatusInv lo hi m₀ x) {pid codeStore : U32} {saved : Context} :
    (∃ stored k', waitPass x.kernel pid codeStore saved = .ok (.returned (-E_BAD_PROC) stored, k')) ↔
      ∀ z, ¬ x.kernel.Awaits pid z := by
  obtain ⟨⟨used, hk⟩, -⟩ := h.base
  obtain ⟨kids, hsettled⟩ := h.settled
  constructor
  · rintro ⟨stored, k', hcall⟩
    rcases waitPass_cases hsettled.family h.ids hk hcall with ⟨z, -, -, hreap⟩ | ⟨_, -, -, heq, -⟩ | ⟨-, -, hnone⟩
    · obtain ⟨t, k₁, s₂, s₄, -, -, -, -, -, -, hres, -⟩ := reap_eq hreap
      exact absurd (WaitResult.returned.inj hres).1 (by decide)
    · simp at heq
    · exact hnone
  · intro hnone
    exact ⟨none, x.kernel, waitPass_none hsettled.family h.ids hk hnone⟩

/-- What a `do_wait` that returns in the state `x` with `res` has called last. -/
def Track.Waits (x : Track) (pid codeStore : U32) (saved : Context) (res : WaitResult) (k : Kernel) : Prop :=
  doWait x.kernel pid codeStore saved = .ok (res, k) ∨ resumeWait x.kernel pid codeStore saved = .ok (res, k)

/-- In every run of whole calls with different ids: at each address one exit at most is ahead of the tasks freed there, and
that is so while the task is a zombie; `idle_task` and `init_task` are not freed.  A `do_wait` that returns 0 has freed one
task, a zombie child with the id asked for, has stored the code with which it exited, and has given its structure and its
stack back.  With a pointer that it accepts, `do_wait` returns `-E_BAD_PROC` exactly if there is no child with the id. -/
theorem exit_status (image : KernelImage) (m : Machine) (arg : U32) (k₀ : Kernel) (hledger : Ledger lo hi m₀ m used)
    (hinit : initTask image m arg = .ok k₀) (hrun : Relation.ReflTransGen TrackStep (bootTrack k₀) x) :
    (∀ a, (x.kernel.Zombie a ∧ x.exits a = x.reaps a + 1) ∨ (¬ x.kernel.Zombie a ∧ x.exits a = x.reaps a)) ∧
      (x.reaps x.kernel.idleTask = 0 ∧ x.reaps x.kernel.initTask = 0) ∧
      (∀ pid codeStore saved stored k', x.Waits pid codeStore saved (.returned 0 stored) k' →
        ∃ z t, x.kernel.tasks z = some t ∧ t.state = .zombie ∧ t.parent = x.kernel.currentTask ∧
          (pid ≠ 0 → t.tid = pid) ∧ z ≠ x.kernel.idleTask ∧ z ≠ x.kernel.initTask ∧
          stored = (if codeStore ≠ NULL then x.code z else none) ∧
          k'.taskList = x.kernel.taskList.erase z ∧ k'.tasks z = none ∧
          (∀ a, a ≠ z → (k'.tasks a).isSome = (x.kernel.tasks a).isSome) ∧
          ∃ held held', Ledger lo hi m₀ x.kernel.machine held ∧ Ledger lo hi m₀ k'.machine held' ∧
            held.Perm (blockOf t.kstack KSTACKSIZE :: blockOf z sizeofTask :: held')) ∧
      (∀ pid codeStore saved, codeStore = NULL ∨ (checkUserMem none codeStore 4 true).1 = true →
        ((∃ stored k', doWait x.kernel pid codeStore saved = .ok (.returned (-E_BAD_PROC) stored, k')) ↔
          ∀ z, ¬ x.kernel.Awaits pid z)) ∧
      ∀ pid codeStore saved t, x.kernel.tasks x.kernel.currentTask = some t → t.flags &&& PF_EXITING = 0 →
        ((∃ stored k', resumeWait x.kernel pid codeStore saved = .ok (.returned (-E_BAD_PROC) stored, k')) ↔
          ∀ z, ¬ x.kernel.Awaits pid z) := by
  have h := statusInv_of_run hledger hinit hrun
  obtain ⟨⟨used', hk⟩, -⟩ := h.base
  obtain ⟨kids, hsettled⟩ := h.settled
  refine ⟨?_, h.first, ?_, ?_, ?_⟩
  · intro a
    by_cases hz : x.kernel.Zombie a
    · exact Or.inl ⟨hz, h.dead a hz⟩
    · exact Or.inr ⟨hz, h.alive a hz⟩
  · rintro pid codeStore saved stored k' (hcall | hcall)
    · rw [doWait_eq hk hsettled.family.current] at hcall
      split at hcall
      · have hret := (WaitResult.returned.inj (Prod.mk.inj (Except.ok.inj hcall)).1).1
        exact absurd hret (by decide)
      · exact h.reaped hcall
    · unfold resumeWait at hcall
      obtain ⟨t, -, hcall⟩ := Res.bind_eq_ok.mp hcall
      split at hcall
      · obtain ⟨k₁, -, hcall⟩ := Res.bind_eq_ok.mp hcall
        simp [pure, Except.pure] at hcall
      · exact h.reaped hcall
  · intro pid codeStore saved hlegal
    have hpass : ¬ (codeStore ≠ NULL ∧ (checkUserMem none codeStore 4 true).1 = false) := by
      rintro ⟨hne, hbad⟩
      rw [hlegal.resolve_left hne] at hbad
      simp at hbad
    rw [doWait_eq hk hsettled.family.current, if_neg hpass]
    exact h.badProc_iff
  · intro pid codeStore saved t ht hflags
    have hpass : resumeWait x.kernel pid codeStore saved = waitPass x.kernel pid codeStore saved := by
      unfold resumeWait
      rw [task_eq_ok.mpr ht, Res.ok_bind, if_neg (not_not.mpr hflags)]
    rw [hpass]
    exact h.badProc_iff

end Runs

/-- Take a sequence of steps and keep the record, as long as the ids on the list differ. -/
def Track.execAll (saved : Context) : List Op → Track → Option Track
  | [], x => some x
  | op :: ops, x => do
      let (_, k) ← (x.kernel.exec saved op).toOption
      if (k.tids).Nodup then (x.next op k).execAll saved ops else none

theorem uniqueTids_of_nodup {k : Kernel} (hnodup : k.tids.Nodup) : UniqueTids k := by
  intro a b t u ha hb ht hu htid
  refine List.inj_on_of_nodup_map hnodup ha hb ?_
  rw [ht, hu, Option.map_some, Option.map_some, htid]

theorem trackSteps_of_execAll {saved : Context} {ops : List Op} {x x' : Track}
    (hcall : x.execAll saved ops = some x') : Relation.ReflTransGen TrackStep x x' := by
  induction ops generalizing x with
  | nil =>
      obtain rfl := Option.some.inj hcall
      exact .refl
  | cons op ops ih =>
      obtain ⟨⟨ret, k⟩, hexec, hcall⟩ := Option.bind_eq_some_iff.mp hcall
      dsimp only at hcall
      split at hcall
      · rename_i hnodup
        exact (ih hcall).head ⟨saved, op, ret, k, Res.toOption_eq_some.mp hexec, uniqueTids_of_nodup hnodup, rfl⟩
      · simp at hcall

/-- The child of `init_task` exits with 7, and `init_task` waits for it with a place on its kernel stack for the code. -/
theorem exit_status_seven : ∃ k₀ x, initTask smallImage fortyFrames 0 = .ok k₀ ∧
    Relation.ReflTransGen TrackStep (bootTrack k₀) x ∧
    ∃ k', doWait x.kernel 2 0xC0006FF0#32 noContext = .ok (.returned 0 (some 7), k') ∧
      ∃ z, x.code z = some 7 ∧ k'.tasks z = none ∧ k'.taskList = x.kernel.taskList.erase z := by
  have heval : (do
      let k₀ ← (initTask smallImage fortyFrames 0).toOption
      let x ← (bootTrack k₀).execAll noContext [.schedule, .fork 0 0 noFrame, .schedule, .exit 7]
      let r ← (doWait x.kernel 2 0xC0006FF0#32 noContext).toOption
      return r.1) = some (.returned 0 (some 7)) := by
    decide +kernel
  obtain ⟨k₀, hinit, heval⟩ := Option.bind_eq_some_iff.mp heval
  obtain ⟨x, hsteps, heval⟩ := Option.bind_eq_some_iff.mp heval
  obtain ⟨⟨res, k'⟩, hwait, heval⟩ := Option.bind_eq_some_iff.mp heval
  obtain rfl : res = .returned 0 (some 7) := Option.some.inj heval
  have hboot : initTask smallImage fortyFrames 0 = .ok k₀ := Res.toOption_eq_some.mp hinit
  have hcall := Res.toOption_eq_some.mp hwait
  have hrun := trackSteps_of_execAll hsteps
  obtain ⟨-, -, hreturns, -⟩ := exit_status smallImage fortyFrames 0 k₀ fortyFrames_ledger hboot hrun
  obtain ⟨z, t, -, -, -, -, -, -, hstored, hlist, hgone, -⟩ := hreturns 2 0xC0006FF0#32 noContext _ k' (Or.inl hcall)
  exact ⟨k₀, x, hboot, hrun, k', hcall, z, hstored.symm, hgone, hlist⟩

/-- `init_task` has no child and calls `do_wait` with a pointer that is not a kernel address. -/
theorem exit_status_bad_pointer : ∃ k₀ x, initTask smallImage fortyFrames 0 = .ok k₀ ∧
    Relation.ReflTransGen TrackStep (bootTrack k₀) x ∧ (∀ z, ¬ x.kernel.Awaits 0 z) ∧
    doWait x.kernel 0 0x1000#32 noContext = .ok (.returned (-E_INVAL) none, x.kernel) ∧
    (-E_INVAL : Int) ≠ -E_BAD_PROC := by
  have heval : (do
      let k₀ ← (initTask smallImage fortyFrames 0).toOption
      let x ← (bootTrack k₀).execAll noContext [.schedule]
      return (x.kernel.tasks x.kernel.currentTask).map fun t => t.cptr) = some (some NULL) := by
    decide +kernel
  obtain ⟨k₀, hinit, heval⟩ := Option.bind_eq_some_iff.mp heval
  obtain ⟨x, hsteps, heval⟩ := Option.bind_eq_some_iff.mp heval
  obtain ⟨t, ht, hcptr⟩ := Option.map_eq_some_iff.mp (Option.some.inj heval)
  have hboot : initTask smallImage fortyFrames 0 = .ok k₀ := Res.toOption_eq_some.mp hinit
  have hrun := trackSteps_of_execAll hsteps
  have h := statusInv_of_run fortyFrames_ledger hboot hrun
  obtain ⟨⟨used, hk⟩, -⟩ := h.base
  obtain ⟨kids, hsettled⟩ := h.settled
  refine ⟨k₀, x, hboot, hrun, ?_, ?_, by decide⟩
  · rintro z ⟨u, hu, hparent, -⟩
    have hin := (hsettled.family.mem_kids_iff hsettled.family.current).mpr ⟨u, hu, hparent⟩
    have hhead : t.cptr = (kids x.kernel.currentTask).headD NULL := hsettled.family.forest.child _ _ (nodes_eq_some ht)
    rw [hcptr] at hhead
    cases hkids : kids x.kernel.currentTask with
    | nil => simp [hkids] at hin
    | cons c rest =>
        rw [hkids, List.headD_cons] at hhead
        refine hsettled.family.forest.null_not_mem x.kernel.currentTask ?_
        rw [hkids, hhead]
        exact List.mem_cons_self ..
  · rw [doWait_eq hk hsettled.family.current, if_pos (by decide)]

end Krnl
end FreakOS
