import FreakOS.Fs.LockOrder

/-!
# One task at a time in `fat_base.c`

* `FatOp.enters` — the arguments of an operation are such that it comes to use `fat_base.c`.
* `Shares` — a task may begin an operation while the others on the same volume hold the semaphore that it takes itself.
* `fat_exclusion` — then no two tasks are in functions of `fat_base.c` on one volume at the same time.
* `fat_exclusion_two_files` — two tasks that read two files of a volume are.
-/

namespace FreakOS
namespace Locks

open Lib
open Lib.Locking (Guard Runs Keeps)

namespace FatOp

/-- The operation passes its checks. -/
def enters : FatOp → Bool
  | read inode buf | write inode buf => inode.addr ≠ NULL && buf ≠ NULL && inode.isFile
  | lseek inode | truncate inode | sync inode => inode.addr ≠ NULL && inode.isFile
  | create inode name _ | mkdir inode name => inode.addr ≠ NULL && name ≠ NULL && !inode.isFile
  | readdir inode _ => inode.addr ≠ NULL && !inode.isFile
  | stat inode buf => inode.addr ≠ NULL && buf ≠ NULL
  | findInode fatfs path => fatfs ≠ NULL && path ≠ NULL

/-- What the task that runs an operation needs to be in a volume. -/
def guard (op : FatOp) (v : U32) : Guard Sem :=
  if v = op.volume ∧ op.enters then op.lock.elim .free .held else .never

/-- An operation that does not pass its checks is in no volume. -/
theorem keeps_of_not_enters {op : FatOp} (h : op.enters = false) (g : U32 → Guard Sem) : Keeps level g 0 op.program := by
  cases op
  case findInode fatfs path =>
    -- The semaphore is taken before the arguments are looked at.
    refine discard_keeps ((take_runs (.fatVolume fatfs)).bind fun _ => Runs.ite (fun _ => ?_) fun h₁ => ?_)
    · exact (give_runs (.fatVolume fatfs)).bind fun _ => Runs.pure _
    · simp_all [enters]
  case stat inode buf =>
    refine discard_keeps (Runs.ite (fun _ => Runs.pure _) fun h₁ => ?_)
    simp_all [enters]
  all_goals
    refine discard_keeps (Runs.ite (fun _ => Runs.pure _) fun h₁ => Runs.ite (fun _ => Runs.pure _) fun h₂ => ?_)
    simp_all [enters]

/-- An operation follows the discipline with what it needs. -/
theorem orderly (op : FatOp) : Tasks.Orderly level op.guard op.program [] [] := by
  have hkeeps : Keeps level op.guard 0 op.program := by
    cases henters : op.enters with
    | false => exact keeps_of_not_enters henters op.guard
    | true =>
        refine op.keeps ?_
        rw [guard, if_pos ⟨rfl, henters⟩]
        cases op.lock with
        | none => trivial
        | some x => exact List.mem_singleton_self x
  exact hkeeps [] [] (fun _ hy => by cases hy) fun _ hm => by cases hm

end FatOp

section Tasks

variable {T : Type}

/-- The other tasks that are in operations on the same volume hold, or wait for, the semaphore that this one takes. -/
def Shares (s : Tasks Sem U32 T FatOp) (t : T) (op : FatOp) : Prop :=
  op.enters → ∀ u op', u ≠ t → ¬ s.Idle u → s.job u = some op' → op'.enters → op'.volume = op.volume →
    ∃ x, op.lock = some x ∧ op'.lock = some x

/-- Any two operations on one volume take the same semaphore. -/
def Agree (s : Tasks Sem U32 T FatOp) : Prop :=
  ∀ t u op op', t ≠ u → ¬ s.Idle t → ¬ s.Idle u → s.job t = some op → s.job u = some op' → op.enters → op'.enters →
    op.volume = op'.volume → ∃ x, op.lock = some x ∧ op'.lock = some x

variable {s s' : Tasks Sem U32 T FatOp}

/-- A task that is in a volume does an operation on it. -/
theorem job_of_inside (h : Tasks.Inv level FatOp.guard s) {t : T} {v : U32} (ht : v ∈ s.inside t) :
    ∃ op, s.job t = some op ∧ op.enters ∧ op.volume = v ∧ ¬ s.Idle t := by
  have hbusy : ¬ s.Idle t := by
    intro hidle
    rw [(h.idle hidle).2] at ht
    cases ht
  have hmet := h.guarded t v ht
  cases hjob : s.job t with
  | none =>
      rw [hjob] at hmet
      exact hmet.elim
  | some op =>
      rw [hjob] at hmet
      by_cases hop : v = op.volume ∧ op.enters
      · exact ⟨op, rfl, hop.2, hop.1.symm, hbusy⟩
      · change (FatOp.guard op v).Met _ at hmet
        rw [FatOp.guard, if_neg hop] at hmet
        exact hmet.elim

variable [DecidableEq T]

theorem Agree.step (h : Agree s) (hstep : Tasks.Step FatOp.program Shares s s') : Agree s' := by
  rcases hstep.frame with ⟨t₀, op₀, hidle₀, hshares, hjob, hidle⟩ | ⟨hjob, hidle⟩
  · intro t u op op' hne ht hu hop hop' henters henters' hvolume
    rw [hjob] at hop hop'
    by_cases ht₀ : t = t₀
    · subst ht₀
      have hut : u ≠ t := Ne.symm hne
      rw [Function.update_self] at hop
      rw [Function.update_of_ne hut] at hop'
      obtain rfl := Option.some.inj hop
      exact hshares henters u op' hut (fun h => hu (hidle u hut h)) hop' henters' hvolume.symm
    · rw [Function.update_of_ne ht₀] at hop
      by_cases hu₀ : u = t₀
      · subst hu₀
        rw [Function.update_self] at hop'
        obtain rfl := Option.some.inj hop'
        obtain ⟨x, hx, hx'⟩ := hshares henters' t op ht₀ (fun h => ht (hidle t ht₀ h)) hop henters hvolume
        exact ⟨x, hx', hx⟩
      · rw [Function.update_of_ne hu₀] at hop'
        exact h t u op op' hne (fun h => ht (hidle t ht₀ h)) (fun h => hu (hidle u hu₀ h)) hop hop' henters henters'
          hvolume
  · intro t u op op' hne ht hu hop hop'
    rw [hjob] at hop hop'
    exact h t u op op' hne (fun h => ht (hidle t h)) (fun h => hu (hidle u h)) hop hop'

/-- In a run in which each operation begins while the others on its volume share its semaphore, two tasks are never in
functions of `fat_base.c` on the same volume. -/
theorem fat_exclusion {s₀ : Tasks Sem U32 T FatOp} (hinit : s₀.Initial)
    (hrun : Relation.ReflTransGen (Tasks.Step FatOp.program Shares) s₀ s) :
    ∀ t u v, v ∈ s.inside t → v ∈ s.inside u → t = u := by
  have hinv : Tasks.Inv level FatOp.guard s := Tasks.Inv.of_run FatOp.orderly hinit hrun
  have hagree : Agree s := by
    clear hinv
    induction hrun with
    | refl => exact fun t u op op' _ ht => absurd ⟨hinit.code t, fun x => by simp [hinit.queue]⟩ ht
    | tail _ hstep ih => exact ih.step hstep
  intro t u v ht hu
  by_contra hne
  obtain ⟨op, hop, henters, hvolume, hbusy⟩ := job_of_inside hinv ht
  obtain ⟨op', hop', henters', hvolume', hbusy'⟩ := job_of_inside hinv hu
  obtain ⟨x, hx, hx'⟩ := hagree t u op op' hne hbusy hbusy' hop hop' henters henters' (hvolume.trans hvolume'.symm)
  have hguard : ∀ p : FatOp, p.enters → p.volume = v → p.lock = some x → p.guard v = .held x := by
    intro p hp hpv hpx
    rw [FatOp.guard, if_pos ⟨hpv.symm, hp⟩, hpx]
    rfl
  refine hne (hinv.exclusive (x := x) ht hu ?_ ?_)
  · rw [hop]
    exact hguard op henters hvolume hx
  · rw [hop']
    exact hguard op' henters' hvolume' hx'

end Tasks

/-- The first read of a file on the volume 9, by the task `false`. -/
def firstRead : FatOp := .read ⟨1, true, 9⟩ 1

/-- One task reads a file, and another one has to wait before it reads the same file. -/
theorem fat_exclusion_one_file : ∃ s : Tasks Sem U32 Bool FatOp,
    Relation.ReflTransGen (Tasks.Step FatOp.program Shares) Tasks.quiet s ∧ 9 ∈ s.inside false ∧ ¬ s.Idle true ∧
      9 ∉ s.inside true := by
  have hnobody : ∀ (t : Bool) (x : Sem), t ∉ (fun _ : Sem => ([] : List Bool)) x := fun _ _ => List.not_mem_nil
  have hfirst : Tasks.Step FatOp.program Shares (Tasks.quiet : Tasks Sem U32 Bool FatOp) _ :=
    .start (t := false) (j := firstRead) ⟨rfl, hnobody false⟩ (fun _ u op' hne hbusy => (hbusy ⟨rfl, hnobody u⟩).elim)
  have hrun := (((Relation.ReflTransGen.single hfirst).tail
    (.acquire (t := false) (hnobody false) rfl Nat.one_pos)).tail (.enter (t := false) (hnobody false) rfl)).tail
      (.start (t := true) (j := firstRead) ⟨rfl, hnobody true⟩ ?_)
  · refine ⟨_, hrun, List.mem_singleton_self _, ?_, ?_⟩
    · rintro ⟨hcode, -⟩
      cases hcode
    · intro h
      exact absurd (fat_exclusion Tasks.quiet_initial hrun false true 9 (List.mem_singleton_self _) h) (by decide)
  · intro _ u op' hne _ hjob _ _
    cases u with
    | true => exact absurd rfl hne
    | false =>
        obtain rfl := Option.some.inj (hjob : some firstRead = some op')
        exact ⟨.fatInode 1, rfl, rfl⟩

/-- Two tasks that read two files of a volume are in `fatbase_read` at the same time. -/
theorem fat_exclusion_two_files : ∃ s : Tasks Sem U32 Bool FatOp,
    Relation.ReflTransGen (Tasks.Step FatOp.program fun _ _ _ => True) Tasks.quiet s ∧ 9 ∈ s.inside false ∧
      9 ∈ s.inside true := by
  have hnobody : ∀ (t : Bool) (x : Sem), t ∉ (fun _ : Sem => ([] : List Bool)) x := fun _ _ => List.not_mem_nil
  have hfirst : Tasks.Step FatOp.program (fun _ _ _ => True) (Tasks.quiet : Tasks Sem U32 Bool FatOp) _ :=
    .start (t := false) (j := firstRead) ⟨rfl, hnobody false⟩ trivial
  have hrun := (((((Relation.ReflTransGen.single hfirst).tail
    (.acquire (t := false) (hnobody false) rfl Nat.one_pos)).tail (.enter (t := false) (hnobody false) rfl)).tail
      (.start (t := true) (j := .read ⟨2, true, 9⟩ 1) ⟨rfl, hnobody true⟩ trivial)).tail
        (.acquire (t := true) (hnobody true) rfl (by exact Nat.one_pos))).tail (.enter (t := true) (hnobody true) rfl)
  exact ⟨_, hrun, List.mem_singleton_self _, List.mem_singleton_self _⟩

end Locks
end FreakOS
