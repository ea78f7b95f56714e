import FreakOS.Lib.Ledger
import FreakOS.Memory.Loader

/-!
# The argument buffers of `do_execve`

`do_execve` copies the argument strings into buffers of its own (`copy_kargv`) before the old address space
goes away, and gives them back (`put_kargv`) on every way out (`task.c`).

What the other functions do is left open: they are functions on a world `W` that answer as they like
(`ExecCalls`).  `kmalloc` answers `NULL` where it fails.  The state of the call is the world, the array
`kargv`, whose slots are empty until they are assigned, and the ledger of the buffers.

* `putKargv`, `copyKargv`, `doExecve` — the functions of the source.
* `Filled` — the buffers that the first slots of `kargv` hold.
* `doExecve_frees_buffers` — all ways out.
-/

namespace FreakOS
namespace Krnl

open Lib
open Lib.Ledger
open Memory (EXEC_MAX_ARG_NUM EXEC_MAX_ARG_LEN E_INVAL E_NOMEM)

/-- The functions that `do_execve` and `copy_kargv` call. -/
structure ExecCalls (W : Type) where
  lockMm : W → W
  unlockMm : W → W
  /-- `copyLegalStr(mm, local_name, name, sizeof(local_name))`. -/
  copyName : W → Bool × W
  /-- `checkUserMem(mm, argv, sizeof(const char *) * argc, 0)`. -/
  checkArgv : U32 → W → Bool × W
  kmalloc : U32 → W → U32 × W
  kfree : U32 → U32 → W → W
  /-- `copyLegalStr(mm, buffer, argv[i], EXEC_MAX_ARG_LEN + 1)`. -/
  copyArg : U32 → Nat → W → Bool × W
  filesCloseall : W → W
  /-- `sysfile_open(argv[0], OPEN_READ)`. -/
  sysfileOpen : W → Int × W
  /-- The old address space is given up, if there is one. -/
  releaseMm : W → W
  /-- `load_icode(fd, argc, kargv)`. -/
  loadIcode : Int → Nat → (Nat → Option U32) → W → Int × W
  setTaskName : W → W

/-- A buffer with the size that it is allocated or freed with. -/
abbrev Buffer := U32 × U32

/-- The world, the array `kargv`, and the ledger of the buffers. -/
structure ExecState (W : Type) where
  world : W
  kargv : Nat → Option U32
  log : List (Entry Buffer)

/-- `EXEC_MAX_ARG_LEN + 1`. -/
def argBytes : U32 := BitVec.ofNat 32 (EXEC_MAX_ARG_LEN + 1)

/-- How `do_execve` ends: it returns, or it calls `do_exit`. -/
inductive ExecEnd where
  | returns (ret : Int)
  | exits (ret : Int)
deriving DecidableEq, Repr

section Source

variable {W : Type} (c : ExecCalls W)

/-- A step of the world that has nothing to do with the buffers. -/
def ExecState.apply {α : Type} (f : W → α × W) (s : ExecState W) : α × ExecState W :=
  ((f s.world).1, { s with world := (f s.world).2 })

/-- `kmalloc(EXEC_MAX_ARG_LEN + 1)` in `copy_kargv`. -/
def kmallocArg (s : ExecState W) : U32 × ExecState W :=
  let r := c.kmalloc argBytes s.world
  (r.1, { s with
    world := r.2
    log := if r.1 = NULL then s.log else s.log ++ [.acquire (r.1, argBytes)] })

/-- `kfree(buffer, EXEC_MAX_ARG_LEN + 1)`. -/
def kfreeArg (buffer : U32) (s : ExecState W) : ExecState W :=
  { s with world := c.kfree buffer argBytes s.world, log := s.log ++ [.release (buffer, argBytes)] }

/-- `put_kargv(argc, kargv)`. -/
def putKargv : Nat → ExecState W → Res (ExecState W)
  | 0, s => .ok s
  | argc + 1, s =>
      match s.kargv argc with
      | none => .error .wildPointer
      | some buffer => putKargv argc (kfreeArg c buffer s)

/-- The loop of `copy_kargv` from index `i` on, with `left` strings to go. -/
def copyKargvLoop : Nat → Nat → ExecState W → Res (Int × ExecState W)
  | 0, _, s => .ok (0, s)
  | left + 1, i, s =>
      let r := kmallocArg c s
      if r.1 = NULL then do
        let s ← putKargv c i r.2
        return (-E_NOMEM, s)
      else
        let copied := r.2.apply (c.copyArg r.1 i)
        if !copied.1 then do
          let s ← putKargv c i (kfreeArg c r.1 copied.2)
          return (-E_INVAL, s)
        else
          copyKargvLoop left (i + 1) { copied.2 with kargv := Function.update copied.2.kargv i (some r.1) }

/-- `copy_kargv(mm, argc, kargv, argv)`. -/
def copyKargv (argc : Nat) (s : ExecState W) : Res (Int × ExecState W) :=
  let checked := s.apply (c.checkArgv (4 * BitVec.ofNat 32 argc))
  if !checked.1 then .ok (-E_INVAL, checked.2)
  else copyKargvLoop c argc 0 checked.2

/-- The label `execve_do_exit`. -/
def execveDoExit (argc : Nat) (ret : Int) (s : ExecState W) : Res (ExecEnd × ExecState W) := do
  let s ← putKargv c argc s
  return (.exits ret, s)

/-- `do_execve` once the arguments are copied and the map is unlocked. -/
def execveLoad (argc : Nat) (s : ExecState W) : Res (ExecEnd × ExecState W) :=
  let opened := (s.apply fun w => ((), c.filesCloseall w)).2.apply c.sysfileOpen
  if opened.1 < 0 then execveDoExit c argc opened.1 opened.2
  else
    let released := (opened.2.apply fun w => ((), c.releaseMm w)).2
    let loaded := released.apply (c.loadIcode opened.1 argc released.kargv)
    if loaded.1 ≠ 0 then execveDoExit c argc loaded.1 loaded.2
    else do
      let s ← putKargv c argc loaded.2
      return (.returns 0, (s.apply fun w => ((), c.setTaskName w)).2)

/-- `do_execve(name, argc, argv)`; `named` says that `name` is not `NULL`. -/
def doExecve (named : Bool) (argc : Int) (w : W) : Res (ExecEnd × ExecState W) :=
  let start : ExecState W := ⟨w, fun _ => none, []⟩
  if ¬ (argc ≥ 1 ∧ argc ≤ EXEC_MAX_ARG_NUM) then .ok (.returns (-E_INVAL), start)
  else
    let locked := (start.apply fun w => ((), c.lockMm w)).2
    let unlock := fun s : ExecState W => (s.apply fun w => ((), c.unlockMm w)).2
    let name := if named then locked.apply c.copyName else (true, locked)
    if !name.1 then .ok (.returns (-E_INVAL), unlock name.2)
    else do
      let r ← copyKargv c argc.toNat name.2
      if r.1 ≠ 0 then return (.returns r.1, unlock r.2)
      else execveLoad c argc.toNat (unlock r.2)

end Source

/-! ### What the slots hold -/

/-- The first `n` slots of `kargv` hold the buffers of the list, the last one first. -/
inductive Filled (kargv : Nat → Option U32) : Nat → List Buffer → Prop
  | nil : Filled kargv 0 []
  | cons {n : Nat} {buffer : U32} {held : List Buffer} (hslot : kargv n = some buffer)
      (hrest : Filled kargv n held) : Filled kargv (n + 1) ((buffer, argBytes) :: held)

theorem Filled.update {kargv : Nat → Option U32} {n : Nat} {held : List Buffer} (h : Filled kargv n held)
    {i : Nat} (hi : n ≤ i) (slot : Option U32) : Filled (Function.update kargv i slot) n held := by
  induction h with
  | nil => exact .nil
  | cons hslot hrest ih =>
      rename_i m buffer held
      refine .cons ?_ (ih (by omega))
      rw [Function.update_of_ne (by omega), hslot]

section Outcomes

variable {W : Type} (c : ExecCalls W) {s : ExecState W} {n : Nat}

/-- The buffers that are held are those of the first `n` slots. -/
def Holds (s : ExecState W) (n : Nat) : Prop := ∃ held, settle [] s.log = some held ∧ Filled s.kargv n held

/-- Every entry of the ledger is about a buffer of the one size. -/
def OneSize (s : ExecState W) : Prop :=
  ∀ b : Buffer, .acquire b ∈ s.log ∨ .release b ∈ s.log → b.2 = argBytes

theorem Holds.apply {α : Type} (h : Holds s n) (f : W → α × W) : Holds (s.apply f).2 n := h

theorem kfreeArg_settle {buffer : U32} {held : List Buffer}
    (h : settle [] s.log = some ((buffer, argBytes) :: held)) :
    settle [] (kfreeArg c buffer s).log = some held := settle_release h

theorem kfreeArg_oneSize (h : OneSize s) (buffer : U32) : OneSize (kfreeArg c buffer s) := by
  rintro b hb
  simp only [kfreeArg, List.mem_append, List.mem_singleton, reduceCtorEq, or_false, Entry.release.injEq] at hb
  rcases hb with hb | hb | rfl
  · exact h b (Or.inl hb)
  · exact h b (Or.inr hb)
  · rfl

theorem kmallocArg_null (hnull : (kmallocArg c s).1 = NULL) : (kmallocArg c s).2.log = s.log := by
  simp only [kmallocArg] at hnull
  simp [kmallocArg, hnull]

theorem kmallocArg_buffer (hbuffer : (kmallocArg c s).1 ≠ NULL) :
    (kmallocArg c s).2.log = s.log ++ [.acquire ((kmallocArg c s).1, argBytes)] := by
  simp only [kmallocArg] at hbuffer
  simp [kmallocArg, hbuffer]

theorem kmallocArg_oneSize (h : OneSize s) : OneSize (kmallocArg c s).2 := by
  by_cases hnull : (kmallocArg c s).1 = NULL
  · unfold OneSize
    rw [kmallocArg_null c hnull]
    exact h
  · rintro b hb
    rw [kmallocArg_buffer c hnull] at hb
    simp only [List.mem_append, List.mem_singleton, reduceCtorEq, or_false, Entry.acquire.injEq] at hb
    rcases hb with (hb | rfl) | hb
    · exact h b (Or.inl hb)
    · rfl
    · exact h b (Or.inr hb)

/-- `put_kargv` gives back what the slots hold, and reads no other slot. -/
theorem putKargv_spec (h : Holds s n) (hsize : OneSize s) :
    ∃ s', putKargv c n s = .ok s' ∧ Lib.Ledger.Settled s'.log ∧ OneSize s' := by
  obtain ⟨held, hlog, hfilled⟩ := h
  induction n generalizing s held with
  | zero =>
      cases hfilled
      exact ⟨s, rfl, hlog, hsize⟩
  | succ n ih =>
      cases hfilled with
      | cons hslot hrest =>
          unfold putKargv
          rw [hslot]
          exact ih (kfreeArg_oneSize c hsize _) _ (kfreeArg_settle c hlog) hrest

/-- `copy_kargv` fills the slots, or it fails and everything has been given back. -/
inductive CopyEnd (argc : Nat) : Int × ExecState W → Prop
  | copied {s : ExecState W} (hholds : Holds s argc) (hsize : OneSize s) : CopyEnd argc (0, s)
  | failed {ret : Int} {s : ExecState W} (hret : ret ≠ 0) (hsettled : Lib.Ledger.Settled s.log) (hsize : OneSize s) :
      CopyEnd argc (ret, s)

theorem copyKargvLoop_spec (left i : Nat) (h : Holds s i) (hsize : OneSize s) :
    ∃ r, copyKargvLoop c left i s = .ok r ∧ CopyEnd (i + left) r := by
  induction left generalizing i s with
  | zero => exact ⟨_, rfl, .copied h hsize⟩
  | succ left ih =>
      have hsize₁ := kmallocArg_oneSize c hsize
      unfold copyKargvLoop
      dsimp only
      by_cases hnull : (kmallocArg c s).1 = NULL
      · -- No buffer: those of the strings before are given back.
        rw [if_pos hnull]
        have hholds : Holds (kmallocArg c s).2 i := by
          obtain ⟨held, hlog, hfilled⟩ := h
          exact ⟨held, by rw [kmallocArg_null c hnull]; exact hlog, hfilled⟩
        obtain ⟨s', hput, hsettled, hone⟩ := putKargv_spec c hholds hsize₁
        rw [hput]
        exact ⟨_, rfl, .failed (by decide) hsettled hone⟩
      · rw [if_neg hnull]
        obtain ⟨held, hlog, hfilled⟩ := h
        have hacquired := settle_acquire hlog ((kmallocArg c s).1, argBytes)
        rw [← kmallocArg_buffer c hnull] at hacquired
        by_cases hcopied : ((kmallocArg c s).2.apply (c.copyArg (kmallocArg c s).1 i)).1 = true
        · rw [hcopied, if_neg (by decide), show i + (left + 1) = i + 1 + left by omega]
          refine ih (i + 1) ⟨_, hacquired, .cons ?_ ?_⟩ hsize₁
          · exact Function.update_self ..
          · exact hfilled.update le_rfl _
        · -- A string that is not legal: its buffer first, then those of the strings before.
          rw [Bool.not_eq_true] at hcopied
          rw [hcopied, if_pos (by decide)]
          have hholds : Holds (kfreeArg c (kmallocArg c s).1
              ((kmallocArg c s).2.apply (c.copyArg (kmallocArg c s).1 i)).2) i :=
            ⟨held, kfreeArg_settle c hacquired, hfilled⟩
          obtain ⟨s', hput, hsettled, hone⟩ := putKargv_spec c hholds (kfreeArg_oneSize c hsize₁ _)
          rw [hput]
          exact ⟨_, rfl, .failed (by decide) hsettled hone⟩

theorem copyKargv_spec (argc : Nat) (h : Holds s 0) (hsize : OneSize s) :
    ∃ r, copyKargv c argc s = .ok r ∧ CopyEnd argc r := by
  unfold copyKargv
  dsimp only
  split
  · obtain ⟨held, hlog, hfilled⟩ := h
    cases hfilled
    exact ⟨_, rfl, .failed (by decide) hlog hsize⟩
  · have hloop := copyKargvLoop_spec c argc 0 (h.apply (c.checkArgv (4 * BitVec.ofNat 32 argc))) hsize
    rwa [Nat.zero_add] at hloop

/-- `do_execve` gives every buffer back, whatever `sysfile_open` and `load_icode` answer. -/
theorem execveLoad_spec (argc : Nat) (h : Holds s argc) (hsize : OneSize s) :
    ∃ e s', execveLoad c argc s = .ok (e, s') ∧ Lib.Ledger.Settled s'.log ∧ OneSize s' := by
  have hput : ∀ s₁ : ExecState W, s₁.log = s.log → s₁.kargv = s.kargv →
      ∃ s', putKargv c argc s₁ = .ok s' ∧ Lib.Ledger.Settled s'.log ∧ OneSize s' := by
    intro s₁ hlog hkargv
    refine putKargv_spec c ?_ ?_
    · unfold Holds
      rw [hlog, hkargv]
      exact h
    · unfold OneSize
      rw [hlog]
      exact hsize
  unfold execveLoad execveDoExit
  dsimp only
  set opened := (s.apply fun w => ((), c.filesCloseall w)).2.apply c.sysfileOpen
  set released := (opened.2.apply fun w => ((), c.releaseMm w)).2
  set loaded := released.apply (c.loadIcode opened.1 argc released.kargv)
  split
  · obtain ⟨s', hcall, hdone⟩ := hput opened.2 rfl rfl
    rw [hcall]
    exact ⟨_, s', rfl, hdone⟩
  · obtain ⟨s', hcall, hdone⟩ := hput loaded.2 rfl rfl
    rw [hcall]
    split
    · exact ⟨_, s', rfl, hdone⟩
    · exact ⟨_, _, rfl, hdone⟩

end Outcomes

/-- **Argument buffers are freed exactly once.**  For every number of arguments and whatever the functions
that it calls answer, `do_execve` comes to its return or to `do_exit` without reading an empty slot of
`kargv`.  By then every buffer has been freed as often as it has been allocated, at no time more often, and
always with the size that it was allocated with. -/
theorem doExecve_frees_buffers {W : Type} (c : ExecCalls W) (named : Bool) (argc : Int) (w : W) :
    ∃ e s, doExecve c named argc w = .ok (e, s) ∧
      (∀ b, s.log.count (.acquire b) = s.log.count (.release b)) ∧
      (∀ pre, pre <+: s.log → ∀ b, pre.count (.release b) ≤ pre.count (.acquire b)) ∧
      (∀ b, .acquire b ∈ s.log ∨ .release b ∈ s.log → b.2 = argBytes) := by
  suffices h : ∃ e s, doExecve c named argc w = .ok (e, s) ∧ Lib.Ledger.Settled s.log ∧ OneSize s by
    obtain ⟨e, s, hcall, hsettled, hsize⟩ := h
    exact ⟨e, s, hcall, fun b => hsettled.count_eq b, fun pre hpre b => hsettled.prefix_le hpre b, hsize⟩
  have hsize : ∀ s : ExecState W, s.log = [] → OneSize s := by
    intro s hs b hb
    rw [hs] at hb
    simp at hb
  have hempty : ∀ s : ExecState W, s.log = [] → Holds s 0 := by
    intro s hs
    exact ⟨[], by rw [hs]; rfl, .nil⟩
  unfold doExecve
  dsimp only
  split
  · exact ⟨_, _, rfl, rfl, hsize _ rfl⟩
  · set name := if named then ExecState.apply c.copyName
      (ExecState.apply (fun w => ((), c.lockMm w)) ⟨w, fun _ => none, []⟩).2
      else (true, (ExecState.apply (fun w => ((), c.lockMm w)) ⟨w, fun _ => none, []⟩).2) with hname
    have hlog : name.2.log = [] := by
      rw [hname]
      split
      · rfl
      · rfl
    split
    · exact ⟨_, _, rfl, by show Lib.Ledger.Settled name.2.log; rw [hlog]; rfl, hsize _ hlog⟩
    · obtain ⟨r, hcall, hend⟩ := copyKargv_spec c argc.toNat (hempty _ hlog) (hsize _ hlog)
      rw [hcall, Res.ok_bind]
      cases hend with
      | copied hholds hone =>
          rw [if_neg (by simp)]
          exact execveLoad_spec c argc.toNat (hholds.apply _) hone
      | failed hret hsettled hone =>
          rw [if_pos hret]
          exact ⟨_, _, rfl, hsettled, hone⟩

end Krnl
end FreakOS
