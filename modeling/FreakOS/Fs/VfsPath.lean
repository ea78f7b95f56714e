import FreakOS.Fs.VfsOpen
import FreakOS.Krnl.TaskIds

/-!
# How paths are split

A path that begins with a `/` has the name of a device up to the next `/`, and the rest is a path on it.  The parser
overwrites the second `/`, and `vfs_open` puts it back.

* `IsAbsolute`, `devName`, `subPath` — the parts of a path.
* `vdevParsePath_absolute`, `vdevParsePath_relative` — what the parser does.
* `repairLoop_cutPath` — and what undoes it.
* `LooksUpTwice` — the lookups of `vfs_open` around the creation of a file.
* `path_split` — the parser, and each lookup of `vfs_open`.
-/

namespace FreakOS
namespace Vfs

open Lib
open Krnl (INodeCount bootKernel smallImage fortyFrames)
open Lib.CString (text text_carries)
open Lib.Prog (Answered answered_pure_iff answered_query_bind_iff answered_bind_iff answered_stop_iff
  answered_lift_bind_iff answered_lift_iff answered_map_iff)
open Fs (OPEN_EXIST OPEN_CREATE)
open Locks (VDEV_NOT_EXIST)

/-! ### The parts of a path -/

/-- The path begins with a `/`. -/
def IsAbsolute (p : CString) : Prop := p.bytes.head? = some slash

instance (p : CString) : Decidable (IsAbsolute p) := inferInstanceAs (Decidable (_ = _))

/-- The characters between the first and the second `/`, or the end. -/
def devName (p : CString) : CString where
  bytes := (p.bytes.drop 1).takeWhile fun c => c ≠ slash
  no_nul := fun h => p.no_nul (List.mem_of_mem_drop ((List.takeWhile_sublist _).subset h))

/-- What stands behind the second `/`, if there is one. -/
def subPath (p : CString) : CString where
  bytes := ((p.bytes.drop 1).dropWhile fun c => c ≠ slash).drop 1
  no_nul := fun h => p.no_nul (List.mem_of_mem_drop ((List.dropWhile_sublist _).subset (List.mem_of_mem_drop h)))

/-- The path that is looked up on the device, or in the current directory. -/
def target (p : CString) : CString := if IsAbsolute p then subPath p else p

/-- The index of the second `/`, or of the end. -/
def stopIndex (p : CString) : Nat := 1 + (devName p).bytes.length

/-- The index of the path on the device. -/
def subIndex (p : CString) : Nat := if stopIndex p < p.bytes.length then stopIndex p + 1 else stopIndex p

/-- The memory of the path with the second `/` overwritten. -/
def cutPath (p : CString) (rest : List Char8) : List Char8 := (p.bytes ++ 0 :: rest).set (stopIndex p) 0

section Parser

variable {p : CString} {rest : List Char8}

/-- A path with a device, with nothing behind its name or with a path behind it. -/
theorem absolute_cases (h : IsAbsolute p) :
    (p.bytes = slash :: (devName p).bytes ∧ (subPath p).bytes = []) ∨
      p.bytes = slash :: (devName p).bytes ++ slash :: (subPath p).bytes := by
  obtain ⟨body, hbody⟩ : ∃ body, p.bytes = slash :: body := by
    cases hp : p.bytes with
    | nil =>
        unfold IsAbsolute at h
        rw [hp] at h
        cases h
    | cons c body =>
        unfold IsAbsolute at h
        rw [hp] at h
        cases h
        exact ⟨body, rfl⟩
  have hsplit : (devName p).bytes ++ body.dropWhile (fun c => c ≠ slash) = body := by
    unfold devName
    simp only [hbody, List.drop_succ_cons, List.drop_zero]
    exact List.takeWhile_append_dropWhile
  have hsub : (subPath p).bytes = (body.dropWhile fun c => c ≠ slash).drop 1 := by
    unfold subPath
    simp only [hbody, List.drop_succ_cons, List.drop_zero]
  cases htail : body.dropWhile fun c => c ≠ slash with
  | nil =>
      rw [htail] at hsplit hsub
      rw [List.append_nil] at hsplit
      exact .inl ⟨by rw [hbody, hsplit], hsub⟩
  | cons d tail =>
      have hd : d = slash := by
        have hhead := List.head?_dropWhile_not (fun c => decide (c ≠ slash)) body
        rw [htail] at hhead
        simpa using hhead
      rw [htail] at hsplit hsub
      rw [List.drop_succ_cons, List.drop_zero] at hsub
      refine .inr ?_
      rw [hbody, List.cons_append, hsub, ← hd, hsplit]

theorem strlen_carries (p : CString) (rest : List Char8) : strlen (p.bytes ++ 0 :: rest) = .ok p.bytes.length := by
  have hloop : ∀ l : List Char8, 0 ∉ l → strlen (l ++ 0 :: rest) = .ok l.length := by
    intro l hl
    induction l with
    | nil => rfl
    | cons c l ih =>
        rw [List.mem_cons, not_or] at hl
        simp only [List.cons_append, strlen, if_neg (Ne.symm hl.1), ih hl.2]
        rfl
  exact hloop p.bytes p.no_nul

/-- A `/` that is found later is not the first character. -/
theorem scanSlash_pos {l : List Char8} (hl : 0 ∉ l) {i : Nat} (hi : 0 < i) :
    ∃ r, scanSlash (l ++ 0 :: rest) i = .ok r ∧ r.2 ≠ 0 := by
  induction l generalizing i with
  | nil => exact ⟨(i, -1), rfl, by simp⟩
  | cons c l ih =>
      rw [List.mem_cons, not_or] at hl
      unfold scanSlash
      rw [List.cons_append]
      simp only [if_neg (Ne.symm hl.1)]
      split
      · exact ⟨(i, i), rfl, by simpa using hi.ne'⟩
      · exact ih hl.2 (Nat.succ_pos i)

theorem scanSlash_relative (h : ¬ IsAbsolute p) : ∃ r, scanSlash (p.bytes ++ 0 :: rest) 0 = .ok r ∧ r.2 ≠ 0 := by
  have hnul := p.no_nul
  unfold IsAbsolute at h
  cases hp : p.bytes with
  | nil => exact ⟨(0, -1), rfl, by decide⟩
  | cons c l =>
      rw [hp] at h hnul
      rw [List.mem_cons, not_or] at hnul
      have hc : c ≠ slash := fun heq => h (by rw [heq]; rfl)
      unfold scanSlash
      simp only [List.cons_append, if_neg (Ne.symm hnul.1), if_neg hc]
      exact scanSlash_pos hnul.2 Nat.one_pos

theorem scanSlash_absolute (h : IsAbsolute p) : scanSlash (p.bytes ++ 0 :: rest) 0 = .ok (0, 0) := by
  have hslash : slash ≠ 0 := by decide
  cases absolute_cases h with
  | inl hp => simp only [hp.1, List.cons_append, scanSlash, if_neg hslash, if_true, Nat.cast_zero]
  | inr hp => simp only [hp, List.cons_append, scanSlash, if_neg hslash, if_true, Nat.cast_zero]

theorem scanStop_name {name : List Char8} (hslash : slash ∉ name) (hnul : 0 ∉ name) {d : Char8}
    (hd : d = slash ∨ d = 0) (i : Nat) : scanStop (name ++ d :: rest) i = .ok (i + name.length) := by
  induction name generalizing i with
  | nil =>
      unfold scanStop
      rw [List.nil_append]
      simp only
      rw [if_neg (by rintro ⟨h1, h2⟩; cases hd with
        | inl h => exact h1 h
        | inr h => exact h2 h)]
      rfl
  | cons c name ih =>
      rw [List.mem_cons, not_or] at hslash hnul
      unfold scanStop
      simp only [List.cons_append, if_pos (And.intro (Ne.symm hslash.1) (Ne.symm hnul.1))]
      rw [ih hslash.2 hnul.2, List.length_cons, Nat.add_right_comm, Nat.add_assoc]

theorem devName_no_slash (p : CString) : slash ∉ (devName p).bytes := by
  intro h
  simpa using List.mem_takeWhile_imp h

theorem stopIndex_eq (p : CString) : stopIndex p = (slash :: (devName p).bytes).length := Nat.add_comm 1 _

theorem stopIndex_le (h : IsAbsolute p) : stopIndex p ≤ p.bytes.length := by
  rw [stopIndex_eq]
  cases absolute_cases h with
  | inl hp => rw [hp.1]
  | inr hp =>
      rw [hp, List.length_append]
      exact Nat.le_add_right _ _

theorem set_stopIndex (p : CString) (d : Char8) (after : List Char8) :
    (slash :: (devName p).bytes ++ d :: after).set (stopIndex p) 0 = slash :: (devName p).bytes ++ 0 :: after := by
  rw [stopIndex_eq, List.set_append_right _ _ (Nat.le_refl _), Nat.sub_self, List.set_cons_zero]

/-- The second `/`, or the terminator, is overwritten. -/
theorem cutPath_eq (h : IsAbsolute p) : ∃ after,
    (p.bytes ++ 0 :: rest = slash :: (devName p).bytes ++ 0 :: after ∨
      p.bytes ++ 0 :: rest = slash :: (devName p).bytes ++ slash :: after) ∧
    cutPath p rest = slash :: (devName p).bytes ++ 0 :: after ∧
    (cutPath p rest).drop (subIndex p) = (subPath p).bytes ++ 0 :: rest := by
  have hstop := stopIndex_eq p
  have hset := set_stopIndex p
  unfold cutPath subIndex
  cases absolute_cases h with
  | inl hp =>
      have hlen : ¬ stopIndex p < p.bytes.length := by
        rw [hstop, hp.1]
        exact Nat.lt_irrefl _
      refine ⟨rest, .inl (by rw [hp.1]), by rw [hp.1, hset], ?_⟩
      rw [if_neg hlen, hp.1, hset, hp.2, hstop, List.drop_left, List.nil_append]
  | inr hp =>
      have hlen : stopIndex p < p.bytes.length := by
        rw [hstop, hp, List.length_append, @List.length_cons _ slash (subPath p).bytes]
        omega
      have hwhole : p.bytes ++ 0 :: rest =
          slash :: (devName p).bytes ++ slash :: ((subPath p).bytes ++ 0 :: rest) := by
        rw [hp, List.append_assoc]
        rfl
      refine ⟨(subPath p).bytes ++ 0 :: rest, .inr hwhole, by rw [hwhole, hset], ?_⟩
      rw [if_pos hlen, hwhole, hset, hstop, List.drop_append, List.drop_of_length_le (Nat.le_succ _), List.nil_append]
      simp

theorem vdevParsePath_absolute (h : IsAbsolute p) (files : U32) : vdevParsePath files (p.bytes ++ 0 :: rest) = do
    let found ← Prog.query (.vdevGetRootInode (devName p))
    return ⟨if found.inode.getD NULL = NULL then VDEV_NOT_EXIST else 0, subIndex p, found.inode.getD NULL,
      cutPath p rest⟩ := by
  obtain ⟨after, hmem, hcut, -⟩ := @cutPath_eq p rest h
  have hstop : scanStop ((p.bytes ++ 0 :: rest).drop 1) 1 = .ok (stopIndex p) := by
    have hname : ∀ d, d = slash ∨ d = 0 → scanStop ((devName p).bytes ++ d :: after) 1 = .ok (stopIndex p) := by
      intro d hd
      exact scanStop_name (devName_no_slash p) (devName p).no_nul hd 1
    cases hmem with
    | inl hmem =>
        rw [hmem]
        exact hname 0 (.inr rfl)
    | inr hmem =>
        rw [hmem]
        exact hname slash (.inl rfl)
  have htext : text ((cutPath p rest).drop 1) = devName p := by
    rw [hcut]
    exact text_carries ⟨after, rfl⟩
  unfold vdevParsePath
  rw [strlen_carries, scanSlash_absolute h]
  simp only [VfsOp.ofRes_ok_bind]
  rw [if_neg (not_not.mpr rfl)]
  unfold parseAbsolute
  rw [Nat.zero_add, hstop]
  simp only [VfsOp.ofRes_ok_bind]
  rw [show (p.bytes ++ 0 :: rest).set (stopIndex p) 0 = cutPath p rest from rfl, htext]
  rfl

theorem vdevParsePath_relative (h : ¬ IsAbsolute p) (files : U32) : vdevParsePath files (p.bytes ++ 0 :: rest) = do
    let cur ← vfsGetCurInode files
    return ⟨cur.1, 0, cur.2, p.bytes ++ 0 :: rest⟩ := by
  obtain ⟨r, hscan, hr⟩ := @scanSlash_relative p rest h
  unfold vdevParsePath
  rw [strlen_carries, hscan]
  simp only [VfsOp.ofRes_ok_bind]
  rw [if_pos hr]

/-! ### The repair -/

theorem repairLoop_append (l rest : List Char8) :
    repairLoop l.length (l ++ rest) = .ok (l.map (fun c => if c = 0 then slash else c) ++ rest) := by
  induction l with
  | nil => rfl
  | cons c l ih =>
      rw [List.length_cons, List.cons_append, repairLoop, ih]
      rfl

/-- The bytes of a string are left alone. -/
theorem map_repair {l : List Char8} (hl : 0 ∉ l) : l.map (fun c => if c = 0 then slash else c) = l := by
  have hfix : ∀ c ∈ l, (if c = 0 then slash else c) = id c := by
    intro c hc
    exact if_neg fun hzero : c = 0 => hl (hzero ▸ hc)
  rw [List.map_congr_left hfix, List.map_id]

theorem repairLoop_self (p : CString) (rest : List Char8) :
    repairLoop p.bytes.length (p.bytes ++ rest) = .ok (p.bytes ++ rest) := by
  rw [repairLoop_append, map_repair p.no_nul]

/-- What the parser overwrites is put back. -/
theorem repairLoop_cutPath (h : IsAbsolute p) :
    repairLoop p.bytes.length (cutPath p rest) = .ok (p.bytes ++ 0 :: rest) := by
  unfold cutPath
  cases absolute_cases h with
  | inl hp =>
      -- The terminator has been overwritten with itself.
      have hsame : (p.bytes ++ 0 :: rest).set (stopIndex p) 0 = p.bytes ++ 0 :: rest := by rw [hp.1, set_stopIndex]
      rw [hsame]
      exact repairLoop_self p (0 :: rest)
  | inr hp =>
      have hslash : slash :: (devName p).bytes = p.bytes.take (stopIndex p) := by
        rw [hp, stopIndex_eq, List.take_left]
      have hname : 0 ∉ slash :: (devName p).bytes := by
        rw [hslash]
        exact fun hmem => p.no_nul (List.mem_of_mem_take hmem)
      have hcut : (p.bytes ++ 0 :: rest).set (stopIndex p) 0 =
          slash :: (devName p).bytes ++ 0 :: (subPath p).bytes ++ 0 :: rest := by
        have hset := set_stopIndex p slash ((subPath p).bytes ++ 0 :: rest)
        simp only [hp, List.cons_append, List.append_assoc] at hset ⊢
        exact hset
      have hlen : p.bytes.length = (slash :: (devName p).bytes ++ 0 :: (subPath p).bytes).length := by
        rw [hp, List.length_append, List.length_append, List.length_cons, List.length_cons (a := (0 : Char8))]
        rfl
      rw [hcut, hlen, repairLoop_append, List.map_append, map_repair hname, List.map_cons, map_repair (subPath p).no_nul,
        if_pos rfl, hp]

end Parser

/-! ### What is looked up -/

/-- A call is about the device and the path that a path names. -/
def Resolves (p : CString) : VfsCall → Prop
  | .vdevGetRootInode name => IsAbsolute p ∧ name = devName p
  | .iopLookup _ path => path = target p
  | .iopCreate _ name _ => name = target p
  | .iopOpen _ _ => True
  | .iopTruncate _ _ => True

/-- All calls of a run are. -/
def AllResolve (p : CString) (log : List (VfsCall × VfsAnswer)) : Prop := ∀ e ∈ log, Resolves p e.1

/-- A call that creates a file. -/
def Creates : VfsCall → Prop
  | .iopCreate _ _ _ => True
  | _ => False

/-- The calls of a run resolve the path, and none creates a file. -/
def Plain (p : CString) (log : List (VfsCall × VfsAnswer)) : Prop := ∀ e ∈ log, Resolves p e.1 ∧ ¬ Creates e.1

/-- Before a file is created its path has been looked up without success, and the directory has been found.  Afterwards the
same path is looked up again, and the inode that is found then is opened. -/
def LooksUpTwice (ops : VfsOps) (files openFlag : U32) (path : List Char8) (before after : List (VfsCall × VfsAnswer))
    (r : Int × Option U32) : Prop :=
  ∃ first parent second opened s₀ found s₁ s₂ again s₃ s₄, before = first ++ parent ∧ after = second ++ opened ∧
    (vfsLookup ops files path).Answered s₀ first found s₁ ∧ found.1 ≠ 0 ∧
    (vfsLookup ops files path).Answered s₂ second again s₃ ∧
    (openFound ops openFlag true ((again.2.1 <|> found.2.1).getD NULL)).Answered s₃ opened r s₄

section Runs

variable {ops : VfsOps} {files : U32} {p : CString} {rest : List Char8} {s s' : VfsState}
  {log : List (VfsCall × VfsAnswer)}

theorem Plain.nil : Plain p [] := fun _ h => absurd h List.not_mem_nil

theorem Plain.cons {e : VfsCall × VfsAnswer} (he : Resolves p e.1) (hplain : ¬ Creates e.1) (h : Plain p log) :
    Plain p (e :: log) := List.forall_mem_cons.mpr ⟨⟨he, hplain⟩, h⟩

theorem Plain.append {log' : List (VfsCall × VfsAnswer)} (h : Plain p log) (h' : Plain p log') : Plain p (log ++ log') :=
  List.forall_mem_append.mpr ⟨h, h'⟩

theorem Plain.resolve (h : Plain p log) : AllResolve p log := fun e he => (h e he).1

theorem Plain.of_pure {α : Type} {c x : α} (h : (pure c : VfsOp α).Answered s log x s') : Plain p log := by
  rw [(answered_pure_iff.mp h).1]
  exact .nil

/-- The one call that creates a file divides a run in one way. -/
theorem creates_unique {before before' after after' : List (VfsCall × VfsAnswer)} {e e' : VfsCall × VfsAnswer}
    (hbefore : Plain p before) (hafter : Plain p after) (he' : Creates e'.1)
    (heq : before ++ e :: after = before' ++ e' :: after') : before' = before ∧ e' = e ∧ after' = after := by
  induction before generalizing before' with
  | nil =>
      cases before' with
      | nil =>
          obtain ⟨rfl, rfl⟩ := List.cons.inj heq
          exact ⟨rfl, rfl, rfl⟩
      | cons x before' =>
          obtain ⟨-, rfl⟩ := List.cons.inj heq
          exact absurd he' (hafter e' (by simp)).2
  | cons x before ih =>
      cases before' with
      | nil =>
          obtain ⟨rfl, -⟩ := List.cons.inj heq
          exact absurd he' (hbefore x List.mem_cons_self).2
      | cons y before' =>
          obtain ⟨rfl, hrest⟩ := List.cons.inj heq
          obtain ⟨rfl, rfl, rfl⟩ := ih (fun e he => hbefore e (List.mem_cons_of_mem _ he)) hrest
          exact ⟨rfl, rfl, rfl⟩

/-- What changes counters asks nothing. -/
theorem countInode_bind {α : Type} {inode : U32} {f : INodeCount → INodeCount} {k : Unit → VfsOp α} {x : α}
    (h : (countInode inode f >>= k).Answered s log x s') : ∃ s₁, (k ()).Answered s₁ log x s' := by
  unfold countInode at h
  rw [answered_lift_bind_iff] at h
  obtain ⟨_, s₁, _, h⟩ := h
  exact ⟨s₁, h⟩

theorem vfsGetCurInode_log {r : Int × U32} (h : (vfsGetCurInode files).Answered s log r s') : log = [] := by
  unfold vfsGetCurInode at h
  rw [answered_lift_bind_iff] at h
  obtain ⟨fs, s₁, _, h⟩ := h
  split at h
  · replace h := countInode_bind h
    obtain ⟨s₂, h⟩ := h
    exact (answered_pure_iff.mp h).1
  · exact (answered_pure_iff.mp h).1

/-- The parser asks for the device, leaves what can be undone, and finds the path. -/
theorem parse_answered {r : Parsed} (h : (vdevParsePath files (p.bytes ++ 0 :: rest)).Answered s log r s') :
    Plain p log ∧ repairLoop p.bytes.length r.path = .ok (p.bytes ++ 0 :: rest) ∧
      r.path.drop r.subpath = (target p).bytes ++ 0 :: rest := by
  by_cases habs : IsAbsolute p
  · rw [vdevParsePath_absolute habs, answered_query_bind_iff] at h
    obtain ⟨found, last, rfl, h⟩ := h
    obtain ⟨rfl, rfl, -⟩ := answered_pure_iff.mp h
    obtain ⟨_, -, -, hdrop⟩ := @cutPath_eq p rest habs
    refine ⟨.cons ⟨habs, rfl⟩ id .nil, repairLoop_cutPath habs, ?_⟩
    rw [hdrop, target, if_pos habs]
  · rw [vdevParsePath_relative habs, answered_map_iff] at h
    obtain ⟨cur, hcur, rfl⟩ := h
    rw [vfsGetCurInode_log hcur]
    refine ⟨.nil, repairLoop_self p (0 :: rest), ?_⟩
    rw [target, if_neg habs]
    rfl

theorem text_target {path : List Char8} (h : path = (target p).bytes ++ 0 :: rest) : text path = target p :=
  text_carries ⟨rest, h⟩

theorem lookup_answered {r : Int × Option U32 × List Char8}
    (h : (vfsLookup ops files (p.bytes ++ 0 :: rest)).Answered s log r s') :
    Plain p log ∧ repairLoop p.bytes.length r.2.2 = .ok (p.bytes ++ 0 :: rest) := by
  unfold vfsLookup at h
  rw [answered_bind_iff] at h
  obtain ⟨parsed, s₁, first, last, hparse, h, rfl⟩ := h
  obtain ⟨hfirst, hrepair, hsub⟩ := parse_answered hparse
  have hend : ∀ {r' : Int × Option U32 × List Char8}, (pure r' : VfsOp _).Answered s₁ last r s' →
      r'.2.2 = parsed.path → Plain p (first ++ last) ∧
        repairLoop p.bytes.length r.2.2 = .ok (p.bytes ++ 0 :: rest) := by
    intro r' hpure hpath
    obtain ⟨rfl, rfl, -⟩ := answered_pure_iff.mp hpure
    exact ⟨hfirst.append .nil, by rw [hpath, hrepair]⟩
  split at h
  · exact hend h rfl
  · split at h
    · exact absurd h answered_stop_iff.mp
    · split at h
      · split at h
        · exact hend h rfl
        · rw [answered_query_bind_iff] at h
          obtain ⟨found, last, rfl, h⟩ := h
          replace h := countInode_bind h
          obtain ⟨s₂, h⟩ := h
          obtain ⟨rfl, rfl, -⟩ := answered_pure_iff.mp h
          exact ⟨hfirst.append (.cons (text_target hsub) id .nil), hrepair⟩
      · exact hend h rfl

theorem openFound_answered {openFlag inode : U32} {create : Bool} {r : Int × Option U32}
    (h : (openFound ops openFlag create inode).Answered s log r s') : Plain p log := by
  unfold openFound at h
  split at h
  · exact .of_pure h
  split at h
  · exact .of_pure h
  rw [answered_query_bind_iff] at h
  obtain ⟨opened, last, rfl, h⟩ := h
  refine .cons trivial id ?_
  split at h
  · replace h := countInode_bind h
    obtain ⟨s₁, h⟩ := h
    exact .of_pure h
  · replace h := countInode_bind h
    obtain ⟨s₁, h⟩ := h
    split at h
    · split at h
      · exact .of_pure h
      · rw [answered_query_bind_iff] at h
        obtain ⟨cut, last, rfl, h⟩ := h
        refine .cons trivial id ?_
        split at h
        · replace h := countInode_bind h
          obtain ⟨s₂, h⟩ := h
          replace h := countInode_bind h
          obtain ⟨s₃, h⟩ := h
          exact .of_pure h
        · exact .of_pure h
    · exact .of_pure h

/-- What a run with at most one creation has asked. -/
structure OpenLog (ops : VfsOps) (files openFlag : U32) (p : CString) (rest : List Char8) (log : List (VfsCall × VfsAnswer))
    (r : Int × Option U32) : Prop where
  resolve : AllResolve p log
  created : ∀ before e after, log = before ++ e :: after → Creates e.1 → e.2.ret = 0 →
    LooksUpTwice ops files openFlag (p.bytes ++ 0 :: rest) before after r

theorem Plain.openLog {openFlag : U32} {r : Int × Option U32} (h : Plain p log) : OpenLog ops files openFlag p rest log r :=
  ⟨h.resolve, fun _ e _ heq hcreates => absurd hcreates (h e (by rw [heq]; simp)).2⟩

/-- A lookup that has failed, and what follows it. -/
theorem openCreate_answered {openFlag : U32} {found : Int × Option U32 × List Char8} {r : Int × Option U32} {s₀ s₁ : VfsState}
    {first : List (VfsCall × VfsAnswer)} (hlookup : (vfsLookup ops files (p.bytes ++ 0 :: rest)).Answered s₀ first found s₁)
    (hmissing : found.1 ≠ 0)
    (h : (openCreate ops files openFlag p.bytes.length found.2.1 (p.bytes ++ 0 :: rest)).Answered s log r s') :
    OpenLog ops files openFlag p rest (first ++ log) r := by
  have hfirst := (lookup_answered hlookup).1
  unfold openCreate vfsLookupParent at h
  rw [answered_bind_iff] at h
  obtain ⟨parsed, s₂, parent, last, hparse, h, rfl⟩ := h
  obtain ⟨hparent, hrepair, hsub⟩ := parse_answered hparse
  have hbefore : Plain p (first ++ parent) := hfirst.append hparent
  have hend : ∀ {c : Int × Option U32}, (pure c : VfsOp _).Answered s₂ last r s' →
      OpenLog ops files openFlag p rest (first ++ (parent ++ last)) r := by
    intro c hpure
    rw [← List.append_assoc]
    exact (hbefore.append (.of_pure hpure)).openLog
  split at h
  · exact hend h
  split at h
  · exact hend h
  rw [answered_query_bind_iff] at h
  obtain ⟨created, last, rfl, h⟩ := h
  rw [← List.append_assoc]
  have hname : Resolves p (.iopCreate parsed.inode (text (parsed.path.drop parsed.subpath)) INODE_CREATE_EXIST) :=
    text_target hsub
  split at h
  · rename_i hfailed
    have hafter : Plain p last := .of_pure h
    refine ⟨List.forall_mem_append.mpr ⟨hbefore.resolve, List.forall_mem_cons.mpr ⟨hname, hafter.resolve⟩⟩,
      fun before e after heq hcreates hret => ?_⟩
    obtain ⟨-, rfl, -⟩ := creates_unique hbefore hafter hcreates heq
    exact absurd hret hfailed
  -- The second lookup is that of the repaired path.
  rw [hrepair, VfsOp.ofRes_ok_bind, answered_bind_iff] at h
  obtain ⟨again, s₃, second, opened, hlookup', h, rfl⟩ := h
  have hafter : Plain p (second ++ opened) := (lookup_answered hlookup').1.append (openFound_answered h)
  refine ⟨List.forall_mem_append.mpr ⟨hbefore.resolve, List.forall_mem_cons.mpr ⟨hname, hafter.resolve⟩⟩,
    fun before e after heq hcreates hret => ?_⟩
  obtain ⟨rfl, -, rfl⟩ := creates_unique hbefore hafter hcreates heq
  exact ⟨first, parent, second, opened, s₀, found, s₁, _, again, s₃, _, rfl, rfl, hlookup, hmissing, hlookup', h⟩

theorem openCopy_answered {openFlag : U32} {r : Int × Option U32}
    (h : (openCopy ops files openFlag p.bytes.length (p.bytes ++ 0 :: rest)).Answered s log r s') :
    OpenLog ops files openFlag p rest log r := by
  unfold openCopy at h
  rw [answered_bind_iff] at h
  obtain ⟨found, s₁, first, last, hlookup, h, rfl⟩ := h
  obtain ⟨hfirst, hrepair⟩ := lookup_answered hlookup
  simp only [hrepair, VfsOp.ofRes_ok_bind] at h
  split at h
  · rename_i hmissing
    split at h
    · exact openCreate_answered hlookup hmissing h
    · exact (hfirst.append (.of_pure h)).openLog
  · split at h
    · exact (hfirst.append (.of_pure h)).openLog
    · exact (hfirst.append (openFound_answered h)).openLog

theorem strcpyPath_answered {dest r : List Char8} {bytes : U32} (h : (strcpyPath dest bytes p).Answered s log r s') :
    log = [] ∧ r = p.bytes ++ 0 :: dest.drop (p.bytes.length + 1) := by
  unfold strcpyPath at h
  rw [answered_lift_bind_iff] at h
  obtain ⟨_, s₁, _, h⟩ := h
  split at h
  · exact absurd h answered_stop_iff.mp
  · obtain ⟨hlog, hr, -⟩ := answered_pure_iff.mp h
    exact ⟨hlog, hr⟩

theorem vfsOpen_log {openFlag : U32} {dest : List Char8} {r : Int × Option U32}
    (h : (vfsOpen ops files p openFlag dest).Answered s log r s') :
    OpenLog ops files openFlag p (dest.drop (p.bytes.length + 1)) log r := by
  unfold vfsOpen kmalloc at h
  rw [answered_lift_bind_iff] at h
  obtain ⟨pathIn, s₁, _, h⟩ := h
  split at h
  · exact (Plain.of_pure h).openLog
  rw [answered_bind_iff] at h
  obtain ⟨mem, s₂, copy, log', hcopy, h, rfl⟩ := h
  obtain ⟨hlog, hmem⟩ := strcpyPath_answered hcopy
  rw [hlog, List.nil_append]
  rw [hmem, answered_bind_iff] at h
  obtain ⟨r', s₃, first, last, hopen, h, rfl⟩ := h
  unfold kfree at h
  rw [answered_lift_bind_iff] at h
  obtain ⟨_, s₄, _, h⟩ := h
  obtain ⟨rfl, rfl, -⟩ := answered_pure_iff.mp h
  rw [List.append_nil]
  exact openCopy_answered hopen

theorem vfsOpen_answered {openFlag : U32} {dest : List Char8} {r : Int × Option U32}
    (h : (vfsOpen ops files p openFlag dest).Answered s log r s') : AllResolve p log := (vfsOpen_log h).resolve

end Runs

/-- The parser, on a path with anything behind its terminator: the device and the path of an absolute one, with nothing
changed but the second `/`, and a relative one as it is.  After it, or after a lookup, the loop of `vfs_open` gives the
path again, and so each lookup of `vfs_open` is for the same device and path.  Once a file has been created, what is left of
`vfs_open` is a lookup of the path that was looked up at first, and the opening of what it finds. -/
theorem path_split (ops : VfsOps) (files : U32) (p : CString) (rest : List Char8) :
    (IsAbsolute p → (vdevParsePath files (p.bytes ++ 0 :: rest) = do
        let found ← Prog.query (.vdevGetRootInode (devName p))
        return ⟨if found.inode.getD NULL = NULL then VDEV_NOT_EXIST else 0, subIndex p, found.inode.getD NULL,
          cutPath p rest⟩) ∧ stopIndex p ≤ p.bytes.length ∧
        (cutPath p rest).drop (subIndex p) = (subPath p).bytes ++ 0 :: rest) ∧
    (¬ IsAbsolute p → vdevParsePath files (p.bytes ++ 0 :: rest) = do
        let cur ← vfsGetCurInode files
        return ⟨cur.1, 0, cur.2, p.bytes ++ 0 :: rest⟩) ∧
    (∀ s log r s', (vdevParsePath files (p.bytes ++ 0 :: rest)).Answered s log r s' →
      repairLoop p.bytes.length r.path = .ok (p.bytes ++ 0 :: rest)) ∧
    (∀ s log r s', (vfsLookup ops files (p.bytes ++ 0 :: rest)).Answered s log r s' →
      repairLoop p.bytes.length r.2.2 = .ok (p.bytes ++ 0 :: rest)) ∧
    ∀ openFlag dest s log r s', (vfsOpen ops files p openFlag dest).Answered s log r s' →
      AllResolve p log ∧ ∀ before e after, log = before ++ e :: after → Creates e.1 → e.2.ret = 0 →
        LooksUpTwice ops files openFlag (p.bytes ++ 0 :: dest.drop (p.bytes.length + 1)) before after r := by
  refine ⟨fun h => ⟨vdevParsePath_absolute h files, stopIndex_le h, ?_⟩, fun h => vdevParsePath_relative h files, ?_, ?_,
    ?_⟩
  · obtain ⟨_, -, -, hdrop⟩ := @cutPath_eq p rest h
    exact hdrop
  · exact fun s log r s' h => (parse_answered h).2.1
  · exact fun s log r s' h => (lookup_answered h).2
  · exact fun openFlag dest s log r s' h => ⟨(vfsOpen_log h).resolve, (vfsOpen_log h).created⟩

/-- `/fs0/a`. -/
def fs0Path : CString := ⟨[slash, 0x66, 0x73, 0x30, slash, 0x61], by decide⟩

/-- The operations of all inodes are there. -/
def allOps : VfsOps := ⟨fun _ => true, fun _ => true, fun _ => true, fun _ => true⟩

/-- The answers of a file system on which `a` is not found, created and found. -/
def fs0Answers : List VfsAnswer :=
  [⟨0, some 7⟩, ⟨1, none⟩, ⟨0, some 7⟩, ⟨0, none⟩, ⟨0, some 7⟩, ⟨0, some 9⟩, ⟨0, none⟩, ⟨0, none⟩]

/-- `fs0` and `a`.  The second lookup is for both of them again. -/
theorem path_split_fs0 : devName fs0Path = ⟨[0x66, 0x73, 0x30], by decide⟩ ∧ stopIndex fs0Path ≤ 6 ∧
    (cutPath fs0Path []).drop (subIndex fs0Path) = [0x61, 0] ∧
    ∃ before after r s', (vfsOpen allOps 0 fs0Path OPEN_CREATE (List.replicate 8 0)).Answered
        ⟨bootKernel smallImage fortyFrames, []⟩
        (before ++ (.iopCreate 7 ⟨[0x61], by decide⟩ INODE_CREATE_EXIST, ⟨0, none⟩) :: after) r s' ∧
      after.map Prod.fst = [.vdevGetRootInode ⟨[0x66, 0x73, 0x30], by decide⟩, .iopLookup 7 ⟨[0x61], by decide⟩,
        .iopOpen 9 OPEN_CREATE, .iopTruncate 9 0] ∧
      LooksUpTwice allOps 0 OPEN_CREATE (fs0Path.bytes ++ 0 :: [0]) before after r := by
  have hsplit := path_split allOps 0 fs0Path []
  refine ⟨by decide, (hsplit.1 (by decide)).2.1, (hsplit.1 (by decide)).2.2, ?_⟩
  have heval : ((vfsOpen allOps 0 fs0Path OPEN_CREATE (List.replicate 8 0)).play fs0Answers
      ⟨bootKernel smallImage fortyFrames, []⟩).map (fun x => (x.1[3]?.map fun e => (e.1, e.2.ret, e.2.inode),
        (x.1.drop 4).map Prod.fst)) =
      some (some (.iopCreate 7 ⟨[0x61], by decide⟩ INODE_CREATE_EXIST, 0, none),
        [.vdevGetRootInode ⟨[0x66, 0x73, 0x30], by decide⟩, .iopLookup 7 ⟨[0x61], by decide⟩, .iopOpen 9 OPEN_CREATE,
          .iopTruncate 9 0]) := by
    decide +kernel
  obtain ⟨x, hplay, heval⟩ := Option.map_eq_some_iff.mp heval
  obtain ⟨hcreate, hafter⟩ := Prod.mk.inj heval
  obtain ⟨e, he, hcreate⟩ := Option.map_eq_some_iff.mp hcreate
  obtain ⟨rfl⟩ : e = (.iopCreate 7 ⟨[0x61], by decide⟩ INODE_CREATE_EXIST, ⟨0, none⟩) := by
    obtain ⟨hcall, hrest⟩ := Prod.mk.inj hcreate
    obtain ⟨hret, hinode⟩ := Prod.mk.inj hrest
    exact Prod.ext hcall (by rw [← hret, ← hinode])
  have hlog : x.1 = x.1.take 3 ++ (.iopCreate 7 ⟨[0x61], by decide⟩ INODE_CREATE_EXIST, ⟨0, none⟩) :: x.1.drop 4 := by
    obtain ⟨hlt, he⟩ := List.getElem?_eq_some_iff.mp he
    rw [← he, List.getElem_cons_drop, List.take_append_drop]
  have hrun := Prog.Answered.of_play (show _ = some (x.1, x.2.1, x.2.2) from hplay)
  rw [hlog] at hrun
  exact ⟨x.1.take 3, x.1.drop 4, x.2.1, x.2.2, hrun, hafter,
    (hsplit.2.2.2.2 OPEN_CREATE (List.replicate 8 0) _ _ _ _ hrun).2 _ _ _ rfl trivial rfl⟩

end Vfs
end FreakOS
