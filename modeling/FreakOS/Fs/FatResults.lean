import FreakOS.Fs.FatPaths

/-!
# The codes of the FAT operations

Which codes the operations of FAT inodes return when calls of the driver fail.

* `Done` — the calls that an operation needs have succeeded.
* `Told` — no call fails whose code the operation drops.
* `ok_only_if_done_iff` — `INODE_OK` means that the operation is done, if and only if that is so.
* `create_hides_open` — a file that is not created, with `INODE_OK`.
-/

namespace FreakOS
namespace FatOps

open Lib
open Lib.Prog (Answered answered_pure_iff answered_query_bind_iff answered_bind_iff answered_stop_iff
  answered_lift_bind_iff answered_map_iff)
open Memory
open Fat
open Locks (FR_EXIST)

/-- A call of the driver has been made, with success. -/
def Succeeds (log : Log) (call : BaseCall) : Prop := ∃ r, (call, r) ∈ log ∧ r.ret = FR_OK

/-- No call of the driver has failed. -/
def NoneFails (log : Log) : Prop := ∀ e ∈ log, e.2.ret = FR_OK

/-- The mode with which `fat_create` opens the file. -/
def createMode (mode : U32) : U8 :=
  if mode &&& INODE_CREATE_MASK = INODE_CREATE_EXIST then FA_CREATE_ALWAYS else FA_CREATE_NEW

/-- The inode of an internal path is in memory, or the driver has opened the path. -/
def Found (s : Volume) (log : Log) (inpath : List U8) : Prop :=
  (∃ n ∈ s.inodeList, n.internalPath = inpath) ∨ Succeeds log (.fatbaseOpen inpath (FA_READ ||| FA_WRITE)) ∨
    Succeeds log (.fatbaseOpendir inpath)

/-- The calls of the driver that the operation needs have succeeded. -/
def Done (m : Mount) (s : Volume) (log : Log) : Op → Prop
  | .create inode name mode => ∃ n p opened, s.node inode = some n ∧ name = some p ∧
      (.fatbaseOpen (joinPath n.internalPath p) (createMode mode), opened) ∈ log ∧ opened.ret = FR_OK ∧
      Succeeds log (.fatbaseClose opened.file)
  | .mkdir inode dirName => ∃ n p, s.node inode = some n ∧ dirName = some p ∧
      Succeeds log (.fatbaseMkdir (joinPath n.internalPath p))
  | .truncate inode len => ∃ n fp, s.node inode = some n ∧ n.data = .file fp ∧ NoneFails log ∧
      (∃ told, Succeeds log (.fatbaseLseek told len)) ∧
      (¬ len > fp.fsize → ∃ sought, Succeeds log (.fatbaseTruncate sought))
  | .readdir inode out => ∃ n, s.node inode = some n ∧
      if out then ∃ dj read, (.fatbaseReaddir dj, read) ∈ log ∧ read.ret = FR_OK ∧
        (read.info.fname = [] ∨ Found s log (lookupInternalPath m n read.info.fname))
      else Succeeds log (.fatbaseOpendir n.internalPath)
  | .lookup inode path => ∃ n p, s.node inode = some n ∧ path = some p ∧ Found s log (lookupInternalPath m n p)
  | .lseek _ off => ∃ fp, Succeeds log (.fatbaseLseek fp off)
  | .sync _ => (∃ fp, Succeeds log (.fatbaseSync fp)) ∧ Succeeds log .syncAllBcache
  | .stat inode _ => ∃ n, s.node inode = some n ∧ Succeeds log (.fatbaseStat n.internalPath)
  | .read _ _ len => ∃ fp, Succeeds log (.fatbaseRead fp len)
  | .write _ _ bytes => ∃ fp, Succeeds log (.fatbaseWrite fp bytes)

/-- No call fails whose code the operation drops. -/
def Told (log : Log) : Op → Prop
  | .create _ _ mode =>
      if mode &&& INODE_CREATE_MASK = INODE_CREATE_EXIST then NoneFails log
      else ∀ fp r, (.fatbaseClose fp, r) ∈ log → r.ret = FR_OK
  | .truncate _ _ => NoneFails log
  | .sync _ => ∀ fp synced flushed, (.fatbaseSync fp, synced) ∈ log → synced.ret = FR_OK →
      (.syncAllBcache, flushed) ∈ log → flushed.ret = FR_OK
  | _ => True

section Results

variable {m : Mount} {a : Alloc} {s s' : Volume} {log : Log}

theorem NoneFails.nil : NoneFails [] := fun _ h => absurd h List.not_mem_nil

theorem noneFails_cons {e : BaseCall × Answer} : NoneFails (e :: log) ↔ e.2.ret = FR_OK ∧ NoneFails log :=
  List.forall_mem_cons

theorem succeeds_head {call : BaseCall} {r : Answer} (h : r.ret = FR_OK) : Succeeds ((call, r) :: log) call :=
  ⟨r, List.mem_cons_self, h⟩

theorem Succeeds.cons {call : BaseCall} (h : Succeeds log call) (e : BaseCall × Answer) : Succeeds (e :: log) call := by
  obtain ⟨r, hmem, hr⟩ := h
  exact ⟨r, List.mem_cons_of_mem e hmem, hr⟩

theorem setData_bind {α : Type} {inode : U32} {data : InodeData} {k : Unit → FatOp α} {x : α} :
    (setData inode data >>= k).Answered s log x s' ↔ (k ()).Answered (s.setData inode data) log x s' := by
  unfold setData
  rw [answered_lift_bind_iff]
  constructor
  · intro h
    obtain ⟨_, s₁, hset, h⟩ := h
    cases hset
    exact h
  · exact fun h => ⟨(), _, rfl, h⟩

/-- The driver is called, its object is stored, and the operation returns. -/
theorem answered_stored {α : Type} {inode : U32} {call : BaseCall} {data : Answer → InodeData} {f : Answer → α} {x : α}
    (h : (Prog.query call >>= fun r => setData inode (data r) >>= fun _ => pure (f r)).Answered s log x s') :
    ∃ r, log = [(call, r)] ∧ f r = x := by
  rw [answered_query_bind_iff] at h
  obtain ⟨r, rest, rfl, h⟩ := h
  rw [setData_bind] at h
  obtain ⟨rfl, hx, -⟩ := answered_pure_iff.mp h
  exact ⟨r, rfl, hx.symm⟩

/-- An operation that has returned an error before it calls the driver. -/
theorem of_early {ret c : Int} (h : (pure c : FatOp Int).Answered s log ret s') (hne : c ≠ INODE_OK) :
    log = [] ∧ ret ≠ INODE_OK := by
  obtain ⟨rfl, rfl, -⟩ := answered_pure_iff.mp h
  exact ⟨rfl, hne⟩

/-! ### Files -/

theorem fatFileRw_ok {inode buf : U32} {call : BaseFile → BaseCall} {r : Int × Option Answer}
    (h : (fatFileRw inode buf call).Answered s log r s') (hok : r.1 = INODE_OK) : ∃ fp, Succeeds log (call fp) := by
  unfold fatFileRw at h
  split at h
  · exact of_pure h hok (by decide)
  rw [inodeAt_bind] at h
  obtain ⟨n, hnode, h⟩ := h
  split at h
  · exact of_pure h hok (by decide)
  · next fp hdata =>
      obtain ⟨rw, rfl, rfl⟩ := answered_stored h
      exact ⟨fp, succeeds_head hok⟩

theorem fatLseek_ok {inode off : U32} {ret : Int} (h : (fatLseek inode off).Answered s log ret s')
    (hok : ret = INODE_OK) : ∃ fp, Succeeds log (.fatbaseLseek fp off) := by
  unfold fatLseek at h
  split at h
  · exact of_pure (f := id) h hok (by decide)
  rw [inodeAt_bind] at h
  obtain ⟨n, hnode, h⟩ := h
  split at h
  · exact of_pure (f := id) h hok (by decide)
  · next fp hdata =>
      obtain ⟨sought, rfl, rfl⟩ := answered_stored h
      exact ⟨fp, succeeds_head hok⟩

theorem fatStat_ok {inode stat : U32} {r : Int × Option (U32 × U32)} (h : (fatStat inode stat).Answered s log r s')
    (hok : r.1 = INODE_OK) : ∃ n, s.node inode = some n ∧ Succeeds log (.fatbaseStat n.internalPath) := by
  unfold fatStat at h
  split at h
  · exact of_pure h hok (by decide)
  rw [inodeAt_bind] at h
  obtain ⟨n, hnode, h⟩ := h
  rw [answered_query_bind_iff] at h
  obtain ⟨found, rest, rfl, h⟩ := h
  split at h
  · exact of_pure h hok (by decide)
  · next hfound => exact ⟨n, hnode, succeeds_head (not_not.mp hfound)⟩

/-- `fat_sync` returns the code of `fatbase_sync`, or an error before it. -/
theorem fatSync_cases {inode : U32} {ret : Int} (h : (fatSync inode).Answered s log ret s') :
    (log = [] ∧ ret ≠ INODE_OK) ∨
      ∃ fp synced flushed, log = [(.fatbaseSync fp, synced), (.syncAllBcache, flushed)] ∧ ret = synced.ret := by
  unfold fatSync at h
  split at h
  · exact .inl (of_early h (by decide))
  rw [inodeAt_bind] at h
  obtain ⟨n, hnode, h⟩ := h
  split at h
  · exact .inl (of_early h (by decide))
  · next fp hdata =>
      rw [answered_query_bind_iff] at h
      obtain ⟨synced, rest, rfl, h⟩ := h
      rw [answered_query_bind_iff] at h
      obtain ⟨flushed, rest, rfl, h⟩ := h
      rw [setData_bind] at h
      obtain ⟨rfl, rfl, -⟩ := answered_pure_iff.mp h
      exact .inr ⟨fp, synced, flushed, rfl, rfl⟩

/-- `fat_truncate` returns `0` whatever its calls give, or an error before them. -/
theorem fatTruncate_cases {inode len : U32} {ret : Int} (h : (fatTruncate inode len).Answered s log ret s') :
    (log = [] ∧ ret ≠ INODE_OK) ∨ (ret = INODE_OK ∧ ∃ n fp, s.node inode = some n ∧ n.data = .file fp ∧
      (∃ told sought, (.fatbaseLseek told len, sought) ∈ log) ∧
      (¬ len > fp.fsize → ∃ sought cut, (.fatbaseTruncate sought, cut) ∈ log)) := by
  unfold fatTruncate at h
  split at h
  · exact .inl (of_early h (by decide))
  rw [inodeAt_bind] at h
  obtain ⟨n, hnode, h⟩ := h
  split at h
  · exact .inl (of_early h (by decide))
  · next fp hdata =>
      rw [answered_query_bind_iff] at h
      obtain ⟨told, rest, rfl, h⟩ := h
      rw [answered_query_bind_iff] at h
      obtain ⟨sought, rest, rfl, h⟩ := h
      rw [answered_bind_iff] at h
      obtain ⟨cut, s₁, first, last, hcut, h, rfl⟩ := h
      rw [answered_query_bind_iff] at h
      obtain ⟨back, rest, rfl, h⟩ := h
      rw [setData_bind] at h
      obtain ⟨-, rfl, -⟩ := answered_pure_iff.mp h
      refine .inr ⟨rfl, n, fp, hnode, hdata, ⟨told.file, sought, by simp⟩, ?_⟩
      intro hlen
      rw [if_neg hlen] at hcut
      obtain ⟨rfl, -⟩ := Prog.answered_query_iff.mp hcut
      exact ⟨sought.file, cut, by simp⟩

/-! ### Directories -/

/-- `fat_create` that leaves an existing file alone: the new file is closed, or there is an error. -/
theorem createFile_new {path : List U8} {ret : Int} (h : (createFile path false).Answered s log ret s') :
    (ret = INODE_OK ∧ ∃ opened closed, opened.ret = FR_OK ∧
      log = [(.fatbaseOpen path FA_CREATE_NEW, opened), (.fatbaseClose opened.file, closed)]) ∨
    (ret ≠ INODE_OK ∧ ∃ opened, log = [(.fatbaseOpen path FA_CREATE_NEW, opened)]) := by
  simp only [createFile, Bool.false_eq_true, if_false] at h
  rw [answered_query_bind_iff] at h
  obtain ⟨opened, rest, rfl, h⟩ := h
  split at h
  · next hopened =>
      rw [answered_query_bind_iff] at h
      obtain ⟨closed, rest, rfl, h⟩ := h
      obtain ⟨rfl, rfl, -⟩ := answered_pure_iff.mp h
      exact .inl ⟨rfl, opened, closed, hopened, rfl⟩
  · next hopened =>
      split at h
      · obtain ⟨rfl, rfl, -⟩ := answered_pure_iff.mp h
        exact .inr ⟨by decide, opened, rfl⟩
      · obtain ⟨rfl, rfl, -⟩ := answered_pure_iff.mp h
        exact .inr ⟨hopened, opened, rfl⟩

/-- `fat_create` that replaces an existing file returns `INODE_OK` always. -/
theorem createFile_exist {path : List U8} {ret : Int} (h : (createFile path true).Answered s log ret s') :
    ret = INODE_OK ∧ ∃ opened, if opened.ret = FR_OK then ∃ closed,
      log = [(.fatbaseOpen path FA_CREATE_ALWAYS, opened), (.fatbaseClose opened.file, closed)]
      else log = [(.fatbaseOpen path FA_CREATE_ALWAYS, opened)] := by
  simp only [createFile, if_true] at h
  rw [answered_query_bind_iff] at h
  obtain ⟨opened, rest, rfl, h⟩ := h
  split at h
  · next hopened =>
      obtain ⟨rfl, rfl, -⟩ := answered_pure_iff.mp h
      exact ⟨rfl, opened, by rw [if_neg hopened]⟩
  · next hopened =>
      rw [answered_query_bind_iff] at h
      obtain ⟨closed, rest, rfl, h⟩ := h
      obtain ⟨rfl, rfl, -⟩ := answered_pure_iff.mp h
      have hopened : opened.ret = FR_OK := not_not.mp hopened
      exact ⟨hopened, opened, by rw [if_pos hopened]; exact ⟨closed, rfl⟩⟩

/-- `fat_create` calls the driver, or it returns an error before. -/
theorem fatCreate_cases {newFile : Bool} {inode mode : U32} {name : Option (List U8)} {ret : Int}
    (h : (fatCreate a newFile inode name mode).Answered s log ret s') :
    (log = [] ∧ ret ≠ INODE_OK) ∨ ∃ n p, s.node inode = some n ∧ name = some p ∧
      (createFile (joinPath n.internalPath p) (mode &&& INODE_CREATE_MASK = INODE_CREATE_EXIST)).Answered s log ret
        s' := by
  unfold fatCreate at h
  cases name with
  | none => exact .inl (of_early h (by decide))
  | some p =>
      simp only at h
      split at h
      · exact .inl (of_early h (by decide))
      rw [inodeAt_bind] at h
      obtain ⟨n, hnode, h⟩ := h
      split at h
      · exact .inl (of_early h (by decide))
      split at h
      · exact .inl (of_early h (by decide))
      split at h
      · exact .inl (of_early h (by decide))
      split at h
      · exact absurd h answered_stop_iff.mp
      · exact .inr ⟨n, p, hnode, rfl, h⟩

theorem fatMkdir_ok {inode : U32} {dirName : Option (List U8)} {ret : Int}
    (h : (fatMkdir a inode dirName).Answered s log ret s') (hok : ret = INODE_OK) :
    ∃ n p, s.node inode = some n ∧ dirName = some p ∧ Succeeds log (.fatbaseMkdir (joinPath n.internalPath p)) := by
  unfold fatMkdir at h
  cases dirName with
  | none => exact of_pure (f := id) h hok (by decide)
  | some p =>
      simp only at h
      split at h
      · exact of_pure (f := id) h hok (by decide)
      rw [inodeAt_bind] at h
      obtain ⟨n, hnode, h⟩ := h
      split at h
      · exact of_pure (f := id) h hok (by decide)
      split at h
      · exact of_pure (f := id) h hok (by decide)
      split at h
      · exact absurd h answered_stop_iff.mp
      unfold makeDir at h
      rw [answered_query_bind_iff] at h
      obtain ⟨made, rest, rfl, h⟩ := h
      split at h
      · next hmade => exact ⟨n, p, hnode, rfl, succeeds_head hmade⟩
      · split at h
        · exact of_pure (f := id) h hok (by decide)
        · exact of_pure (f := id) h hok (by decide)

theorem FindEnd.found {inpath : List U8} {out : U32} (hend : FindEnd a s inpath log out s') (hout : out ≠ NULL) :
    Found s log inpath := by
  cases hend with
  | cached hfind => exact .inl ⟨_, List.mem_of_find?_eq_some hfind, by simpa using List.find?_some hfind⟩
  | noMemory => exact absurd rfl hout
  | failed => exact absurd rfl hout
  | made hfind hinode hopen =>
      unfold openInode at hopen
      rw [answered_query_bind_iff] at hopen
      obtain ⟨file, rest, rfl, hopen⟩ := hopen
      split at hopen
      · next hfile => exact .inr (.inl (succeeds_head hfile))
      · rw [answered_query_bind_iff] at hopen
        obtain ⟨dir, rest, rfl, hopen⟩ := hopen
        obtain ⟨-, hdata, -⟩ := answered_pure_iff.mp hopen
        split at hdata
        · next hdir => exact .inr (.inr ((succeeds_head hdir).cons _))
        · cases hdata

/-- The object of a directory does not matter for what is found, nor do earlier calls. -/
theorem Found.of_setData {inode : U32} {data : InodeData} {inpath : List U8} {e : BaseCall × Answer}
    (h : Found (s.setData inode data) log inpath) : Found s (e :: log) inpath := by
  cases h with
  | inl h =>
      obtain ⟨n, hn, hpath⟩ := h
      obtain ⟨x, hx, rfl⟩ := List.mem_map.mp hn
      refine .inl ⟨x, hx, ?_⟩
      rw [← hpath]
      split <;> rfl
  | inr h => exact .inr (h.imp (fun h => h.cons e) fun h => h.cons e)

theorem node_setData {inode inode' : U32} {data : InodeData} {n' : FatInode}
    (h : (s.setData inode data).node inode' = some n') : ∃ n, s.node inode' = some n ∧ n'.internalPath = n.internalPath := by
  unfold Volume.node Volume.setData at *
  rw [List.find?_map] at h
  obtain ⟨n, hn, rfl⟩ := Option.map_eq_some_iff.mp h
  refine ⟨n, ?_, by split <;> rfl⟩
  rw [← hn]
  congr 1
  funext x
  simp only [Function.comp_apply]
  split <;> rfl

theorem fatReaddir_ok {inode : U32} {out : Bool} {r : Int × Option U32}
    (h : (fatReaddir m a inode out).Answered s log r s') (hok : r.1 = INODE_OK) : Done m s log (.readdir inode out) := by
  unfold fatReaddir at h
  split at h
  · exact of_pure h hok (by decide)
  rw [inodeAt_bind] at h
  obtain ⟨n, hnode, h⟩ := h
  split at h
  · exact of_pure h hok (by decide)
  · next dj hdata =>
      refine ⟨n, hnode, ?_⟩
      cases out with
      | false =>
          simp only [Bool.not_false, if_true] at h
          obtain ⟨opened, rfl, rfl⟩ := answered_stored h
          have hopened : opened.ret = FR_OK := by
            by_contra hne
            rw [if_pos hne] at hok
            exact absurd hok (by decide)
          exact succeeds_head hopened
      | true =>
          simp only [Bool.not_true, Bool.false_eq_true, if_false] at h
          rw [answered_query_bind_iff] at h
          obtain ⟨read, rest, rfl, h⟩ := h
          rw [setData_bind] at h
          unfold entryOut at h
          split at h
          · exact of_pure h hok (by decide)
          next hread =>
          refine ⟨dj, read, List.mem_cons_self, not_not.mp hread, ?_⟩
          split at h
          · next hname => exact .inl hname
          · obtain ⟨⟨ret, o⟩, hlookup, rfl⟩ := answered_map_iff.mp h
            have hret : ret = INODE_OK := by
              by_contra hne
              simp only [if_pos hne] at hok
              exact absurd hok (by decide)
            obtain ⟨n', name, out, hnode', hname, -, hout, hend⟩ := fatLookup_ok hlookup hret
            cases hname
            obtain ⟨n₀, hnode₀, hpath⟩ := node_setData hnode'
            obtain rfl := Option.some.inj (hnode.symm.trans hnode₀)
            have hfound := hend.found hout
            unfold lookupInternalPath at hfound ⊢
            rw [hpath] at hfound
            exact .inr hfound.of_setData

theorem create_done_iff {newFile : Bool} {inode mode : U32} {name : Option (List U8)} {ret : Int}
    (h : (fatCreate a newFile inode name mode).Answered s log ret s') :
    (ret = INODE_OK → Done m s log (.create inode name mode)) ↔ Told log (.create inode name mode) := by
  cases fatCreate_cases h with
  | inl hearly =>
      obtain ⟨rfl, hret⟩ := hearly
      refine iff_of_true (fun hok => absurd hok hret) ?_
      simp only [Told]
      split
      · exact NoneFails.nil
      · exact fun _ _ hmem => absurd hmem List.not_mem_nil
  | inr hcall =>
      obtain ⟨n, p, hnode, rfl, hrun⟩ := hcall
      by_cases hmode : mode &&& INODE_CREATE_MASK = INODE_CREATE_EXIST
      · rw [decide_eq_true hmode] at hrun
        obtain ⟨hok, opened, hlog⟩ := createFile_exist hrun
        simp only [hok, forall_const, Told, Done, createMode, if_pos hmode]
        by_cases hopened : opened.ret = FR_OK
        · rw [if_pos hopened] at hlog
          obtain ⟨closed, rfl⟩ := hlog
          constructor
          · intro hdone
            obtain ⟨n', p', opened', -, -, -, -, closed', hmem, hclosed⟩ := hdone
            have heq : opened'.file = opened.file ∧ closed' = closed := by simpa using hmem
            rw [noneFails_cons, noneFails_cons]
            exact ⟨hopened, heq.2 ▸ hclosed, .nil⟩
          · intro htold
            rw [noneFails_cons, noneFails_cons] at htold
            refine ⟨n, p, opened, hnode, rfl, List.mem_cons_self, hopened, ?_⟩
            exact (succeeds_head htold.2.1).cons _
        · rw [if_neg hopened] at hlog
          subst hlog
          constructor
          · intro hdone
            obtain ⟨n', p', opened', -, -, -, -, closed', hmem, -⟩ := hdone
            simp at hmem
          · intro htold
            exact absurd (noneFails_cons.mp htold).1 hopened
      · rw [decide_eq_false hmode] at hrun
        simp only [Told, Done, createMode, if_neg hmode]
        cases createFile_new hrun with
        | inl hok =>
            obtain ⟨rfl, opened, closed, hopened, rfl⟩ := hok
            constructor
            · intro hdone fp r hmem
              obtain ⟨n', p', opened', -, -, -, -, closed', hmem', hclosed⟩ := hdone rfl
              have heq : fp = opened.file ∧ r = closed := by simpa using hmem
              have heq' : opened'.file = opened.file ∧ closed' = closed := by simpa using hmem'
              rw [heq.2, ← heq'.2]
              exact hclosed
            · intro htold _
              refine ⟨n, p, opened, hnode, rfl, List.mem_cons_self, hopened, ?_⟩
              exact (succeeds_head (htold opened.file closed (by simp))).cons _
        | inr herr =>
            obtain ⟨hret, opened, rfl⟩ := herr
            refine iff_of_true (fun hok => absurd hok hret) fun fp r hmem => ?_
            simp at hmem

theorem truncate_done_iff {inode len : U32} {ret : Int} (h : (fatTruncate inode len).Answered s log ret s') :
    (ret = INODE_OK → Done m s log (.truncate inode len)) ↔ Told log (.truncate inode len) := by
  simp only [Told, Done]
  cases fatTruncate_cases h with
  | inl hearly =>
      obtain ⟨rfl, hret⟩ := hearly
      exact iff_of_true (fun hok => absurd hok hret) .nil
  | inr hcall =>
      obtain ⟨hok, n, fp, hnode, hdata, ⟨told, sought, hsought⟩, hcut⟩ := hcall
      simp only [hok, forall_const]
      constructor
      · intro hdone
        obtain ⟨_, _, -, -, hnone, -⟩ := hdone
        exact hnone
      · intro hnone
        refine ⟨n, fp, hnode, hdata, hnone, ⟨told, sought, hsought, hnone _ hsought⟩, fun hlen => ?_⟩
        obtain ⟨sought, cut, hmem⟩ := hcut hlen
        exact ⟨sought, cut, hmem, hnone _ hmem⟩

theorem sync_done_iff {inode : U32} {ret : Int} (h : (fatSync inode).Answered s log ret s') :
    (ret = INODE_OK → Done m s log (.sync inode)) ↔ Told log (.sync inode) := by
  simp only [Told, Done]
  cases fatSync_cases h with
  | inl hearly =>
      obtain ⟨rfl, hret⟩ := hearly
      exact iff_of_true (fun hok => absurd hok hret) fun _ _ _ hmem => absurd hmem List.not_mem_nil
  | inr hcall =>
      obtain ⟨fp, synced, flushed, rfl, rfl⟩ := hcall
      constructor
      · intro hdone fp' synced' flushed' hsynced hok hflushed
        have hs : fp' = fp ∧ synced' = synced := by simpa using hsynced
        have hf : flushed' = flushed := by simpa using hflushed
        obtain ⟨-, r, hmem, hr⟩ := hdone (hs.2 ▸ hok)
        have heq : r = flushed := by simpa using hmem
        rw [hf, ← heq]
        exact hr
      · intro htold hok
        refine ⟨⟨fp, succeeds_head hok⟩, ?_⟩
        have hflushed := htold fp synced flushed (by simp) hok (by simp)
        exact (succeeds_head hflushed).cons _

theorem fatRead_ok {inode buf len : U32} {r : Int × Option (List U8 × U32)}
    (h : (fatRead inode buf len).Answered s log r s') (hok : r.1 = INODE_OK) :
    ∃ fp, Succeeds log (.fatbaseRead fp len) := by
  unfold fatRead at h
  obtain ⟨rw, hrw, rfl⟩ := answered_map_iff.mp h
  exact fatFileRw_ok hrw hok

theorem fatWrite_ok {inode buf : U32} {bytes : List U8} {r : Int × Option U32}
    (h : (fatWrite inode buf bytes).Answered s log r s') (hok : r.1 = INODE_OK) :
    ∃ fp, Succeeds log (.fatbaseWrite fp bytes) := by
  unfold fatWrite at h
  obtain ⟨rw, hrw, rfl⟩ := answered_map_iff.mp h
  exact fatFileRw_ok hrw hok

end Results

/-- `INODE_OK` means that every call which the operation needs has succeeded, if and only if none of those fails whose
code the operation drops.  Apart from the flush of the block cache, `fat_sync` drops none. -/
theorem ok_only_if_done_iff (m : Mount) (a : Alloc) (newFile : Bool) (op : Op) (s s' : Volume) (log : Log) (ret : Int)
    (hrun : (op.code m a newFile).Answered s log ret s') :
    ((ret = INODE_OK → Done m s log op) ↔ Told log op) ∧
      (∀ inode, op = .sync inode → ret = INODE_OK → ∃ fp, Succeeds log (.fatbaseSync fp)) := by
  constructor
  · cases op with
    | create inode name mode => exact create_done_iff hrun
    | truncate inode len => exact truncate_done_iff hrun
    | sync inode => exact sync_done_iff hrun
    | mkdir inode dirName => exact iff_of_true (fatMkdir_ok hrun) trivial
    | lseek inode off => exact iff_of_true (fatLseek_ok hrun) trivial
    | readdir inode out =>
        obtain ⟨r, hpair, rfl⟩ := answered_map_iff.mp hrun
        exact iff_of_true (fatReaddir_ok hpair) trivial
    | lookup inode path =>
        obtain ⟨r, hpair, rfl⟩ := answered_map_iff.mp hrun
        refine iff_of_true (fun hok => ?_) trivial
        obtain ⟨n, name, out, hnode, hname, -, hout, hend⟩ := fatLookup_ok hpair hok
        exact ⟨n, name, hnode, hname, hend.found hout⟩
    | stat inode buf =>
        obtain ⟨r, hpair, rfl⟩ := answered_map_iff.mp hrun
        exact iff_of_true (fatStat_ok hpair) trivial
    | read inode buf len =>
        obtain ⟨r, hpair, rfl⟩ := answered_map_iff.mp hrun
        exact iff_of_true (fatRead_ok hpair) trivial
    | write inode buf bytes =>
        obtain ⟨r, hpair, rfl⟩ := answered_map_iff.mp hrun
        exact iff_of_true (fatWrite_ok hpair) trivial
  · intro inode hop hok
    subst hop
    cases fatSync_cases hrun with
    | inl hearly => exact absurd hok hearly.2
    | inr hcall =>
        obtain ⟨fp, synced, flushed, rfl, rfl⟩ := hcall
        exact ⟨fp, succeeds_head hok⟩

/-- The driver does not create a file, with `FR_DENIED`. -/
def deniedLog : Log :=
  [(.fatbaseOpen (bulidInternalPath smallMount [chr '/', chr 'a']) FA_CREATE_ALWAYS, .ofCode Fs.FR_DENIED)]

theorem deniedLog_run :
    ((Op.create 0xC0200000 (some [chr 'a']) INODE_CREATE_EXIST).code smallMount ⟨true, true, 0xC0201000⟩ true).Answered
      rootVolume deniedLog INODE_OK rootVolume :=
  .op rfl (.ask _ (.ret _ _))

/-- A file that is created and closed. -/
theorem ok_only_if_done_created :
    Done smallMount rootVolume
      [(.fatbaseOpen (bulidInternalPath smallMount [chr '/', chr 'a']) FA_CREATE_ALWAYS, .ofCode FR_OK),
        (.fatbaseClose (Answer.ofCode FR_OK).file, .ofCode FR_OK)]
      (.create 0xC0200000 (some [chr 'a']) INODE_CREATE_EXIST) := by
  have hrun : ((Op.create 0xC0200000 (some [chr 'a']) INODE_CREATE_EXIST).code smallMount ⟨true, true, 0xC0201000⟩
      true).Answered rootVolume
      [(.fatbaseOpen (bulidInternalPath smallMount [chr '/', chr 'a']) FA_CREATE_ALWAYS, .ofCode FR_OK),
        (.fatbaseClose (Answer.ofCode FR_OK).file, .ofCode FR_OK)] INODE_OK rootVolume :=
    .op rfl (.ask _ (.ask _ (.ret _ _)))
  refine (ok_only_if_done_iff _ _ _ _ _ _ _ _ hrun).1.mpr ?_ rfl
  show NoneFails _
  rw [noneFails_cons, noneFails_cons]
  exact ⟨rfl, rfl, .nil⟩

/-- `fat_create` that may replace a file returns `INODE_OK` when the driver does not create the file. -/
theorem create_hides_open : ∃ a newFile s', Reaches smallMount rootVolume ∧
    ((Op.create 0xC0200000 (some [chr 'a']) INODE_CREATE_EXIST).code smallMount a newFile).Answered rootVolume deniedLog
      INODE_OK s' ∧ ¬ Done smallMount rootVolume deniedLog (.create 0xC0200000 (some [chr 'a']) INODE_CREATE_EXIST) := by
  refine ⟨_, _, _, rootVolume_reaches, deniedLog_run, ?_⟩
  intro hdone
  obtain ⟨_, _, _, -, -, -, -, r, hmem, -⟩ := hdone
  simp [deniedLog] at hmem

end FatOps
end FreakOS
