import FreakOS.Fs.FatOps

/-!
# The paths of FAT inodes

`fat_lookup` strips the drive from the internal path of a directory, puts a name behind it and builds an internal path
again, while `fat_create` and `fat_mkdir` put the name behind the internal path as it is.

* `Inv` — each inode has an internal path that `bulid_internal_path` has built.
* `Agree` — creation and lookup use the same path.
* `Walk` — a path is looked up component by component.
* `create_lookup_agree` — creation and lookup agree, and when a walk leads to the path that one lookup leads to.
* `empty_component` — a component that is empty leads to another path.
-/

namespace FreakOS
namespace FatOps

open Lib
open Lib.Prog (Meets Answered)
open Memory
open Fat
open Locks (INODE_NOT_EXIST)

/-! ### Paths -/

/-- The internal path that `fat_lookup` of a name in a directory leads to. -/
def lookupInternalPath (m : Mount) (n : FatInode) (name : List U8) : List U8 :=
  bulidInternalPath m (lookupPath n.internalPath name)

section Paths

variable {m : Mount}

theorem slashed_eq_cons (path : List U8) : ∃ tail, slashed path = chr '/' :: tail := by
  unfold slashed
  split
  · next h =>
      cases path with
      | nil => cases h
      | cons c path =>
          cases h
          exact ⟨path, rfl⟩
  · exact ⟨path, rfl⟩

theorem lookupPath_eq (inodeInPath name : List U8) : lookupPath inodeInPath name = joinPath (inodeInPath.drop 2) name := by
  unfold lookupPath joinPath
  simp only
  split <;> rfl

/-- The `/` is put in at the same places with the drive in front of the path. -/
theorem joinPath_cons (c d : U8) (tail name : List U8) :
    joinPath (c :: d :: chr '/' :: tail) name = c :: d :: joinPath (chr '/' :: tail) name := by
  unfold joinPath
  simp only [List.getLast?_cons_cons]
  split <;> rfl

theorem slashed_joinPath (tail name : List U8) : slashed (joinPath (chr '/' :: tail) name) =
    joinPath (chr '/' :: tail) name := by
  unfold slashed joinPath
  split <;> split <;> simp_all

/-- The path of `fat_create` and `fat_mkdir` is that of `fat_lookup`. -/
theorem joinPath_bulid (path name : List U8) : joinPath (bulidInternalPath m path) name =
    bulidInternalPath m (lookupPath (bulidInternalPath m path) name) := by
  obtain ⟨tail, htail⟩ := slashed_eq_cons path
  rw [lookupPath_eq]
  unfold bulidInternalPath
  rw [htail, joinPath_cons, List.drop_succ_cons, List.drop_succ_cons, List.drop_zero, slashed_joinPath]

end Paths

/-! ### The invariant -/

/-- The inodes of a volume. -/
structure Inv (m : Mount) (s : Volume) : Prop where
  built : ∀ n ∈ s.inodeList, ∃ path, n.internalPath = bulidInternalPath m path
  addrs : (s.inodeList.map FatInode.addr).Nodup
  nonnull : ∀ n ∈ s.inodeList, n.addr ≠ NULL

namespace Volume

variable {s : Volume} {inode : U32} {n : FatInode}

theorem node_of_mem {m : Mount} (h : Inv m s) (hn : n ∈ s.inodeList) : s.node n.addr = some n := by
  unfold node
  cases hfind : s.inodeList.find? fun x => x.addr = n.addr with
  | none =>
      have hnone := List.find?_eq_none.mp hfind n hn
      simp at hnone
  | some x =>
      have haddr : x.addr = n.addr := by simpa using List.find?_some hfind
      rw [List.inj_on_of_nodup_map h.addrs (List.mem_of_find?_eq_some hfind) hn haddr]

theorem mem_of_node (h : s.node inode = some n) : n ∈ s.inodeList ∧ n.addr = inode :=
  ⟨List.mem_of_find?_eq_some h, by simpa using List.find?_some h⟩

theorem setData_addrs (data : InodeData) :
    (s.setData inode data).inodeList.map FatInode.addr = s.inodeList.map FatInode.addr := by
  unfold setData
  rw [List.map_map]
  apply List.map_congr_left
  intro x _
  simp only [Function.comp_apply]
  split <;> rfl

end Volume

section Steps

variable {m : Mount} {a : Alloc} {s : Volume}

theorem Inv.mounted : Inv m ⟨0, []⟩ where
  built := fun _ h => absurd h List.not_mem_nil
  addrs := List.nodup_nil
  nonnull := fun _ h => absurd h List.not_mem_nil

theorem Inv.setData (h : Inv m s) (inode : U32) (data : InodeData) : Inv m (s.setData inode data) := by
  constructor
  · intro n hn
    obtain ⟨x, hx, rfl⟩ := List.mem_map.mp hn
    split
    · exact h.built x hx
    · exact h.built x hx
  · rw [Volume.setData_addrs]
    exact h.addrs
  · intro n hn
    obtain ⟨x, hx, rfl⟩ := List.mem_map.mp hn
    split
    · exact h.nonnull x hx
    · exact h.nonnull x hx

theorem Inv.construct (h : Inv m s) (hfresh : FreshIn a s) (hinode : a.inode ≠ NULL) (path : List U8)
    (data : InodeData) : Inv m (s.construct a.inode (bulidInternalPath m path) data) := by
  constructor
  · intro n hn
    cases List.mem_cons.mp hn with
    | inl heq => exact ⟨path, by rw [heq]⟩
    | inr hn => exact h.built n hn
  · exact List.nodup_cons.mpr ⟨hfresh, h.addrs⟩
  · intro n hn
    cases List.mem_cons.mp hn with
    | inl heq => rwa [heq]
    | inr hn => exact h.nonnull n hn

theorem Inv.remove (h : Inv m s) (inode : U32) : Inv m (s.remove inode) where
  built := fun n hn => h.built n (List.mem_filter.mp hn).1
  addrs := h.addrs.sublist ((List.filter_sublist).map FatInode.addr)
  nonnull := fun n hn => h.nonnull n (List.mem_filter.mp hn).1

/-! ### What the operations keep -/

/-- The invariant, with the block for a new inode at hand. -/
def Ready (m : Mount) (a : Alloc) (s : Volume) : Prop := Inv m s ∧ FreshIn a s

/-- A part of an operation that adds no inode. -/
def Keeps {α : Type} (m : Mount) (a : Alloc) (p : FatOp α) : Prop := Meets (· = ·) (Ready m a) p fun _ => Ready m a

/-- An operation. -/
def Leaves {α : Type} (m : Mount) (a : Alloc) (p : FatOp α) : Prop := Meets (· = ·) (Ready m a) p fun _ => Inv m

theorem Leaves.pure {α : Type} (x : α) : Leaves m a (Pure.pure x : FatOp α) := Meets.pure fun _ h => h.1

theorem Leaves.stop {α : Type} (e : Fault) : Leaves m a (Prog.stop e : FatOp α) := Meets.stop e

theorem Leaves.ite {α : Type} {c : Prop} [Decidable c] {p q : FatOp α} (hp : c → Leaves m a p)
    (hq : ¬ c → Leaves m a q) : Leaves m a (if c then p else q) := Meets.ite hp hq

theorem Keeps.bind {α β : Type} {p : FatOp α} {k : α → FatOp β} (hp : Keeps m a p) (hk : ∀ x, Leaves m a (k x)) :
    Leaves m a (p >>= k) := Meets.bind hp hk

theorem keeps_query (question : BaseCall) : Keeps m a (Prog.query question) := Meets.query fun _ _ _ h henv => henv ▸ h

theorem keeps_inodeAt (inode : U32) : Keeps m a (inodeAt inode) := by
  apply Meets.lift
  intro s n s' h hat
  split at hat
  · cases hat
    exact h
  · cases hat

theorem keeps_searchList (inpath : List U8) : Keeps m a (searchList inpath) := by
  apply Meets.lift
  intro s n s' h hsearch
  cases hsearch
  exact h

theorem keeps_setData (inode : U32) (data : InodeData) : Keeps m a (setData inode data) := by
  apply Meets.lift
  intro s _ s' h hset
  cases hset
  unfold Ready FreshIn
  rw [Volume.setData_addrs]
  exact ⟨h.1.setData inode data, h.2⟩

theorem keeps_openInode (inpath : List U8) : Keeps m a (openInode inpath) := by
  refine Meets.bind (keeps_query _) fun file => ?_
  refine Meets.ite (fun _ => Meets.pure fun s h => h) fun _ => ?_
  exact Meets.bind (keeps_query _) fun dir => Meets.pure fun s h => h

theorem leaves_addInode (hinode : a.inode ≠ NULL) (path : List U8) (data : InodeData) :
    Leaves m a (addInode a.inode (bulidInternalPath m path) data) := by
  apply Meets.lift
  intro s _ s' h hadd
  cases hadd
  exact h.1.construct h.2 hinode path data

theorem leaves_findOrOpen (path : List U8) : Leaves m a (findOrOpen a (bulidInternalPath m path)) := by
  refine (keeps_searchList _).bind fun found => ?_
  cases found with
  | some inode => exact .pure inode.addr
  | none =>
      refine Leaves.ite (fun _ => .pure NULL) fun hinode => ?_
      refine (keeps_openInode _).bind fun data => ?_
      cases data with
      | none => exact .pure NULL
      | some data => exact Meets.bind (leaves_addInode hinode path data) fun _ => Meets.pure fun s h => h

theorem leaves_fatFindInode (path : Option (List U8)) : Leaves m a (fatFindInode m a path) := by
  cases path with
  | none => exact .pure NULL
  | some path =>
      refine Leaves.ite (fun _ => .pure NULL) fun _ => ?_
      exact Leaves.ite (fun _ => Leaves.stop _) fun _ => leaves_findOrOpen path

theorem leaves_fatLookup (inode : U32) (path : Option (List U8)) : Leaves m a (fatLookup m a inode path) := by
  cases path with
  | none => exact .pure _
  | some path =>
      refine Leaves.ite (fun _ => .pure _) fun _ => ?_
      refine (keeps_inodeAt inode).bind fun n => ?_
      split
      · exact .pure _
      · refine Leaves.ite (fun _ => .pure _) fun _ => ?_
        refine Leaves.ite (fun _ => Leaves.stop _) fun _ => ?_
        refine Meets.bind (leaves_fatFindInode _) fun out => ?_
        exact Meets.ite (fun _ => Meets.pure fun s h => h) fun _ => Meets.pure fun s h => h

theorem leaves_entryOut (inode : U32) (read : Answer) : Leaves m a (entryOut m a inode read) := by
  refine Leaves.ite (fun _ => .pure _) fun _ => ?_
  refine Leaves.ite (fun _ => .pure _) fun _ => ?_
  exact Meets.bind (leaves_fatLookup inode _) fun r => Meets.pure fun s h => h

theorem leaves_fatReaddir (inode : U32) (out : Bool) : Leaves m a (fatReaddir m a inode out) := by
  refine Leaves.ite (fun _ => .pure _) fun _ => ?_
  refine (keeps_inodeAt inode).bind fun n => ?_
  split
  · exact .pure _
  · refine Leaves.ite (fun _ => ?_) fun _ => ?_
    · exact (keeps_query _).bind fun _ => (keeps_setData inode _).bind fun _ => .pure _
    · exact (keeps_query _).bind fun _ => (keeps_setData inode _).bind fun _ => leaves_entryOut inode _

theorem leaves_createFile (path : List U8) (isExist : Bool) : Leaves m a (createFile path isExist) := by
  refine Leaves.ite (fun _ => ?_) fun _ => ?_
  · refine (keeps_query _).bind fun _ => ?_
    exact Leaves.ite (fun _ => .pure _) fun _ => (keeps_query _).bind fun _ => .pure _
  · refine (keeps_query _).bind fun _ => ?_
    refine Leaves.ite (fun _ => (keeps_query _).bind fun _ => .pure _) fun _ => ?_
    exact Leaves.ite (fun _ => .pure _) fun _ => .pure _

theorem leaves_fatCreate (newFile : Bool) (inode : U32) (name : Option (List U8)) (mode : U32) :
    Leaves m a (fatCreate a newFile inode name mode) := by
  cases name with
  | none => exact .pure _
  | some name =>
      refine Leaves.ite (fun _ => .pure _) fun _ => ?_
      refine (keeps_inodeAt inode).bind fun n => ?_
      split
      · exact .pure _
      · refine Leaves.ite (fun _ => .pure _) fun _ => ?_
        refine Leaves.ite (fun _ => .pure _) fun _ => ?_
        exact Leaves.ite (fun _ => Leaves.stop _) fun _ => leaves_createFile _ _

theorem leaves_fatMkdir (inode : U32) (dirName : Option (List U8)) : Leaves m a (fatMkdir a inode dirName) := by
  cases dirName with
  | none => exact .pure _
  | some dirName =>
      refine Leaves.ite (fun _ => .pure _) fun _ => ?_
      refine (keeps_inodeAt inode).bind fun n => ?_
      split
      · exact .pure _
      · refine Leaves.ite (fun _ => .pure _) fun _ => ?_
        refine Leaves.ite (fun _ => Leaves.stop _) fun _ => ?_
        refine (keeps_query _).bind fun _ => ?_
        exact Leaves.ite (fun _ => .pure _) fun _ => Leaves.ite (fun _ => .pure _) fun _ => .pure _

theorem leaves_fatFileRw (inode buf : U32) (call : BaseFile → BaseCall) : Leaves m a (fatFileRw inode buf call) := by
  refine Leaves.ite (fun _ => .pure _) fun _ => ?_
  refine (keeps_inodeAt inode).bind fun n => ?_
  split
  · exact .pure _
  · exact (keeps_query _).bind fun _ => (keeps_setData inode _).bind fun _ => .pure _

theorem leaves_fatLseek (inode off : U32) : Leaves m a (fatLseek inode off) := by
  refine Leaves.ite (fun _ => .pure _) fun _ => ?_
  refine (keeps_inodeAt inode).bind fun n => ?_
  split
  · exact .pure _
  · exact (keeps_query _).bind fun _ => (keeps_setData inode _).bind fun _ => .pure _

theorem leaves_fatSync (inode : U32) : Leaves m a (fatSync inode) := by
  refine Leaves.ite (fun _ => .pure _) fun _ => ?_
  refine (keeps_inodeAt inode).bind fun n => ?_
  split
  · exact .pure _
  · refine (keeps_query _).bind fun _ => (keeps_query _).bind fun _ => ?_
    exact (keeps_setData inode _).bind fun _ => .pure _

theorem leaves_fatTruncate (inode len : U32) : Leaves m a (fatTruncate inode len) := by
  refine Leaves.ite (fun _ => .pure _) fun _ => ?_
  refine (keeps_inodeAt inode).bind fun n => ?_
  split
  · exact .pure _
  · refine (keeps_query _).bind fun _ => (keeps_query _).bind fun sought => ?_
    refine Keeps.bind (Meets.ite (fun _ => Meets.pure fun s h => h) fun _ => keeps_query _) fun _ => ?_
    exact (keeps_query _).bind fun _ => (keeps_setData inode _).bind fun _ => .pure _

theorem leaves_fatStat (inode stat : U32) : Leaves m a (fatStat inode stat) := by
  refine Leaves.ite (fun _ => .pure _) fun _ => ?_
  refine (keeps_inodeAt inode).bind fun n => (keeps_query _).bind fun _ => ?_
  exact Leaves.ite (fun _ => .pure _) fun _ => .pure _

theorem leaves_code (newFile : Bool) (op : Op) : Leaves m a (op.code m a newFile) := by
  have hfst : ∀ {β : Type} {p : FatOp (Int × β)}, Leaves m a p → Leaves m a (p >>= fun r => Pure.pure r.1) :=
    fun hp => Meets.bind hp fun _ => Meets.pure fun s h => h
  have hout : ∀ {β γ : Type} {p : FatOp (Int × β)} {f : β → γ}, Leaves m a p →
      Leaves m a (p >>= fun r => Pure.pure (r.1, f r.2)) :=
    fun hp => Meets.bind hp fun _ => Meets.pure fun s h => h
  cases op with
  | create inode name mode => exact leaves_fatCreate newFile inode name mode
  | mkdir inode dirName => exact leaves_fatMkdir inode dirName
  | truncate inode len => exact leaves_fatTruncate inode len
  | readdir inode out => exact hfst (leaves_fatReaddir inode out)
  | lookup inode path => exact hfst (leaves_fatLookup inode path)
  | lseek inode off => exact leaves_fatLseek inode off
  | sync inode => exact leaves_fatSync inode
  | stat inode buf => exact hfst (leaves_fatStat inode buf)
  | read inode buf len => exact hfst (hout (leaves_fatFileRw inode buf _))
  | write inode buf bytes => exact hfst (hout (leaves_fatFileRw inode buf _))

theorem inv_removeInode (inode : U32) :
    Meets (· = ·) (Inv m) (removeInode inode >>= fun _ => Pure.pure INODE_OK) fun _ => Inv m := by
  refine Meets.bind (Q := fun _ => Inv m) (Meets.lift ?_) fun _ => Meets.pure fun s h => h
  intro s _ s' h hremove
  cases hremove
  exact h.remove inode

/-- `fat_release` keeps the invariant without a block for a new inode. -/
theorem inv_fatRelease (inode : U32) : Meets (· = ·) (Inv m) (fatRelease inode) fun _ => Inv m := by
  refine Meets.ite (fun _ => Meets.pure fun s h => h) fun _ => ?_
  refine Meets.bind (Q := fun _ => Inv m) (Meets.lift ?_) fun n => ?_
  · intro s n s' h hat
    split at hat
    · cases hat
      exact h
    · cases hat
  · split
    · exact Meets.bind (Q := fun _ => Inv m) (Meets.query fun _ _ _ h henv => henv ▸ h) fun _ => inv_removeInode inode
    · exact inv_removeInode inode

end Steps

theorem Leaves.inv {m : Mount} {a : Alloc} {α : Type} {p : FatOp α} {s s' : Volume} {log : Log} {x : α}
    (h : Leaves m a p) (hinv : Inv m s) (hfresh : FreshIn a s) (hrun : p.Answered s log x s') : Inv m s' :=
  h s x s' ⟨hinv, hfresh⟩ (hrun.ends fun _ => rfl)

theorem Reaches.inv {m : Mount} {s : Volume} (h : Reaches m s) : Inv m s := by
  induction h with
  | mounted => exact .mounted
  | find _ hfresh hrun ih => exact (leaves_fatFindInode _).inv ih hfresh hrun
  | call _ hfresh hrun ih => exact (leaves_code _ _).inv ih hfresh hrun
  | release _ hrun ih => exact inv_fatRelease _ _ _ _ ih (hrun.ends fun _ => rfl)

/-! ### Creation and lookup -/

/-- The paths that are handed to the driver. -/
def pathsOf (log : Log) : List (List U8) :=
  log.filterMap fun e =>
    match e.1 with
    | .fatbaseOpen path _ => some path
    | .fatbaseMkdir path => some path
    | .fatbaseOpendir path => some path
    | .fatbaseStat path => some path
    | _ => none

/-- The path of a name in a directory. -/
structure Agree (m : Mount) (s : Volume) (n : FatInode) (name : List U8) : Prop where
  /-- `fat_create` hands it to the driver. -/
  create : ∀ a newFile mode log ret s', a.newPath = true → newFile = true →
    (fatCreate a newFile n.addr (some name) mode).Answered s log ret s' → pathsOf log = [lookupInternalPath m n name]
  /-- `fat_mkdir` hands it to the driver. -/
  mkdir : ∀ a log ret s', a.newPath = true → (fatMkdir a n.addr (some name)).Answered s log ret s' →
    pathsOf log = [lookupInternalPath m n name]
  /-- `fat_lookup` finds the inode with this internal path. -/
  cached : ∀ a log r s' found, a.newPath = true → a.internalPath = true →
    (fatLookup m a n.addr (some name)).Answered s log r s' →
    s.findInternalPath (lookupInternalPath m n name) = some found →
      log = [] ∧ r = (INODE_OK, some found.addr) ∧ s' = s
  /-- Or it opens the path, as a file first, and makes an inode with it if the driver opens it. -/
  opened : ∀ a log r s', a.newPath = true → a.internalPath = true → a.inode ≠ NULL →
    (fatLookup m a n.addr (some name)).Answered s log r s' →
    s.findInternalPath (lookupInternalPath m n name) = none →
      (pathsOf log = [lookupInternalPath m n name] ∨
        pathsOf log = [lookupInternalPath m n name, lookupInternalPath m n name]) ∧
      (r = (-INODE_NOT_EXIST, none) ∧ s' = s ∨
        ∃ data, r = (INODE_OK, some a.inode) ∧ s' = s.construct a.inode (lookupInternalPath m n name) data)

section Agree

variable {m : Mount} {a : Alloc} {s s' : Volume} {n : FatInode} {dj : DirPos} {name : List U8} {log : Log}

/-- The inode of an operation on a directory. -/
theorem inodeAt_bind {α : Type} {k : FatInode → FatOp α} {x : α} {inode : U32} :
    (inodeAt inode >>= k).Answered s log x s' ↔ ∃ n, s.node inode = some n ∧ (k n).Answered s log x s' := by
  unfold inodeAt
  rw [Prog.answered_lift_bind_iff]
  constructor
  · intro h
    obtain ⟨n, s₁, hat, hrest⟩ := h
    split at hat
    · next hnode =>
        cases hat
        exact ⟨n, hnode, hrest⟩
    · cases hat
  · intro h
    obtain ⟨n, hnode, hrest⟩ := h
    exact ⟨n, s, by rw [hnode], hrest⟩

theorem inodeAt_bind_of_mem {α : Type} {k : FatInode → FatOp α} {x : α} (hinv : Inv m s) (hn : n ∈ s.inodeList) :
    (inodeAt n.addr >>= k).Answered s log x s' ↔ (k n).Answered s log x s' := by
  rw [inodeAt_bind]
  constructor
  · intro h
    obtain ⟨y, hy, hrest⟩ := h
    obtain rfl : n = y := Option.some.inj ((Volume.node_of_mem hinv hn).symm.trans hy)
    exact hrest
  · exact fun hrest => ⟨n, Volume.node_of_mem hinv hn, hrest⟩

/-- An operation that has returned an error has not returned `INODE_OK`. -/
theorem of_pure {α : Type} {ret : α} {f : α → Int} {c : α} {P : Prop}
    (h : (pure c : FatOp α).Answered s log ret s') (hok : f ret = INODE_OK) (hne : f c ≠ INODE_OK) : P := by
  obtain ⟨-, rfl, -⟩ := Prog.answered_pure_iff.mp h
  exact absurd hok hne

theorem createFile_paths {path : List U8} {isExist : Bool} {ret : Int}
    (h : (createFile path isExist).Answered s log ret s') : pathsOf log = [path] := by
  unfold createFile at h
  split at h
  · rw [Prog.answered_query_bind_iff] at h
    obtain ⟨opened, rest, rfl, h⟩ := h
    split at h
    · obtain ⟨rfl, -⟩ := Prog.answered_pure_iff.mp h
      rfl
    · rw [Prog.answered_query_bind_iff] at h
      obtain ⟨closed, rest, rfl, h⟩ := h
      obtain ⟨rfl, -⟩ := Prog.answered_pure_iff.mp h
      rfl
  · rw [Prog.answered_query_bind_iff] at h
    obtain ⟨opened, rest, rfl, h⟩ := h
    split at h
    · rw [Prog.answered_query_bind_iff] at h
      obtain ⟨closed, rest, rfl, h⟩ := h
      obtain ⟨rfl, -⟩ := Prog.answered_pure_iff.mp h
      rfl
    · split at h
      · obtain ⟨rfl, -⟩ := Prog.answered_pure_iff.mp h
        rfl
      · obtain ⟨rfl, -⟩ := Prog.answered_pure_iff.mp h
        rfl

theorem makeDir_paths {path : List U8} {ret : Int} (h : (makeDir path).Answered s log ret s') : pathsOf log = [path] := by
  unfold makeDir at h
  rw [Prog.answered_query_bind_iff] at h
  obtain ⟨made, rest, rfl, h⟩ := h
  have hrest : rest = [] := by
    split at h
    · exact (Prog.answered_pure_iff.mp h).1
    · split at h
      · exact (Prog.answered_pure_iff.mp h).1
      · exact (Prog.answered_pure_iff.mp h).1
  rw [hrest]
  rfl

theorem openInode_paths {path : List U8} {data : Option InodeData} (h : (openInode path).Answered s log data s') :
    (pathsOf log = [path] ∨ pathsOf log = [path, path]) ∧ s' = s := by
  unfold openInode at h
  rw [Prog.answered_query_bind_iff] at h
  obtain ⟨file, rest, rfl, h⟩ := h
  split at h
  · obtain ⟨rfl, -, hs⟩ := Prog.answered_pure_iff.mp h
    exact ⟨.inl rfl, hs⟩
  · rw [Prog.answered_query_bind_iff] at h
    obtain ⟨dir, rest, rfl, h⟩ := h
    obtain ⟨rfl, -, hs⟩ := Prog.answered_pure_iff.mp h
    exact ⟨.inr rfl, hs⟩

/-- The ends of `fat_find_inode` from the search on. -/
inductive FindEnd (a : Alloc) (s : Volume) (inpath : List U8) : Log → U32 → Volume → Prop
  /-- There is an inode with the internal path. -/
  | cached {n : FatInode} (hfind : s.findInternalPath inpath = some n) : FindEnd a s inpath [] n.addr s
  /-- There is no memory for an inode. -/
  | noMemory (hfind : s.findInternalPath inpath = none) (hinode : a.inode = NULL) : FindEnd a s inpath [] NULL s
  /-- The driver does not open the path. -/
  | failed {log : Log} (hfind : s.findInternalPath inpath = none) (hinode : a.inode ≠ NULL)
      (hopen : (openInode inpath).Answered s log none s) : FindEnd a s inpath log NULL s
  /-- A new inode is made. -/
  | made {log : Log} {data : InodeData} (hfind : s.findInternalPath inpath = none) (hinode : a.inode ≠ NULL)
      (hopen : (openInode inpath).Answered s log (some data) s) :
      FindEnd a s inpath log a.inode (s.construct a.inode inpath data)

theorem findOrOpen_end {inpath : List U8} {out : U32} (h : (findOrOpen a inpath).Answered s log out s') :
    FindEnd a s inpath log out s' := by
  unfold findOrOpen searchList at h
  rw [Prog.answered_lift_bind_iff] at h
  obtain ⟨found, s₁, hsearch, h⟩ := h
  cases hsearch
  split at h
  · next n hfind =>
      obtain ⟨rfl, rfl, rfl⟩ := Prog.answered_pure_iff.mp h
      exact .cached hfind
  · next hfind =>
      split at h
      · next hinode =>
          obtain ⟨rfl, rfl, rfl⟩ := Prog.answered_pure_iff.mp h
          exact .noMemory hfind hinode
      · next hinode =>
          rw [Prog.answered_bind_iff] at h
          obtain ⟨data, s₁, first, last, hopen, h, rfl⟩ := h
          obtain ⟨-, rfl⟩ := openInode_paths hopen
          cases data with
          | none =>
              obtain ⟨rfl, rfl, rfl⟩ := Prog.answered_pure_iff.mp h
              rw [List.append_nil]
              exact .failed hfind hinode hopen
          | some data =>
              simp only [addInode] at h
              rw [Prog.answered_lift_bind_iff] at h
              obtain ⟨_, s₂, hadd, h⟩ := h
              cases hadd
              obtain ⟨rfl, rfl, rfl⟩ := Prog.answered_pure_iff.mp h
              rw [List.append_nil]
              exact .made hfind hinode hopen

/-- `fat_lookup` in a directory goes on with the internal path. -/
theorem fatLookup_dir {r : Int × Option U32} (hinv : Inv m s) (hn : n ∈ s.inodeList) (hdir : n.data = .dir dj)
    (h : (fatLookup m a n.addr (some name)).Answered s log r s') (hpath : a.newPath = true)
    (hinpath : a.internalPath = true) :
    ∃ out, (findOrOpen a (lookupInternalPath m n name)).Answered s log out s' ∧
      r = if out = NULL then (-INODE_NOT_EXIST, none) else (INODE_OK, some out) := by
  simp only [fatLookup, if_neg (hinv.nonnull n hn)] at h
  rw [inodeAt_bind_of_mem hinv hn] at h
  simp only [hdir, hpath, Bool.not_true, Bool.false_eq_true, if_false] at h
  split at h
  · exact absurd h Prog.answered_stop_iff.mp
  · simp only [fatFindInode, hinpath, Bool.not_true, Bool.false_eq_true, if_false] at h
    split at h
    · rw [Prog.answered_bind_iff] at h
      obtain ⟨_, _, _, _, h, -⟩ := h
      exact absurd h Prog.answered_stop_iff.mp
    · rw [Prog.answered_bind_iff] at h
      obtain ⟨out, s₁, first, last, hfind, h, rfl⟩ := h
      refine ⟨out, ?_⟩
      split at h
      · next hout =>
          obtain ⟨rfl, rfl, rfl⟩ := Prog.answered_pure_iff.mp h
          rw [List.append_nil, if_pos hout]
          exact ⟨hfind, rfl⟩
      · next hout =>
          obtain ⟨rfl, rfl, rfl⟩ := Prog.answered_pure_iff.mp h
          rw [List.append_nil, if_neg hout]
          exact ⟨hfind, rfl⟩

theorem agree_of_dir (hinv : Inv m s) (hn : n ∈ s.inodeList) (hdir : n.data = .dir dj) (name : List U8) :
    Agree m s n name := by
  have haddr := hinv.nonnull n hn
  obtain ⟨path, hbuilt⟩ := hinv.built n hn
  have hjoin : joinPath n.internalPath name = lookupInternalPath m n name := by
    unfold lookupInternalPath
    rw [hbuilt, joinPath_bulid]
  constructor
  · intro a newFile mode log ret s' hpath hnew h
    simp only [fatCreate, if_neg haddr] at h
    rw [inodeAt_bind_of_mem hinv hn] at h
    simp only [hdir, hpath, hnew, hjoin, Bool.not_true, Bool.false_eq_true, if_false] at h
    split at h
    · exact absurd h Prog.answered_stop_iff.mp
    · exact createFile_paths h
  · intro a log ret s' hpath h
    simp only [fatMkdir, if_neg haddr] at h
    rw [inodeAt_bind_of_mem hinv hn] at h
    simp only [hdir, hpath, hjoin, Bool.not_true, Bool.false_eq_true, if_false] at h
    split at h
    · exact absurd h Prog.answered_stop_iff.mp
    · exact makeDir_paths h
  · intro a log r s' found hpath hinpath h hfound
    obtain ⟨out, hrun, rfl⟩ := fatLookup_dir hinv hn hdir h hpath hinpath
    cases findOrOpen_end hrun with
    | cached hfind =>
        obtain rfl := Option.some.inj (hfound.symm.trans hfind)
        exact ⟨rfl, if_neg (hinv.nonnull found (List.mem_of_find?_eq_some hfound)), rfl⟩
    | noMemory hfind hinode => cases hfound.symm.trans hfind
    | failed hfind hinode hopen => cases hfound.symm.trans hfind
    | made hfind hinode hopen => cases hfound.symm.trans hfind
  · intro a log r s' hpath hinpath hinode h hfound
    obtain ⟨out, hrun, rfl⟩ := fatLookup_dir hinv hn hdir h hpath hinpath
    cases findOrOpen_end hrun with
    | cached hfind => cases hfound.symm.trans hfind
    | noMemory hfind hnull => exact absurd hnull hinode
    | failed hfind _ hopen => exact ⟨(openInode_paths hopen).1, .inl ⟨if_pos rfl, rfl⟩⟩
    | @made _ data hfind _ hopen => exact ⟨(openInode_paths hopen).1, .inr ⟨data, if_neg hinode, rfl⟩⟩

/-- `fat_lookup` succeeds: it has found or made the inode of the internal path. -/
theorem fatLookup_ok {inode : U32} {path : Option (List U8)} {r : Int × Option U32}
    (h : (fatLookup m a inode path).Answered s log r s') (hok : r.1 = INODE_OK) :
    ∃ n name out, s.node inode = some n ∧ path = some name ∧ r.2 = some out ∧ out ≠ NULL ∧
      FindEnd a s (lookupInternalPath m n name) log out s' := by
  unfold fatLookup at h
  cases path with
  | none => exact of_pure h hok (by decide)
  | some name =>
      simp only at h
      split at h
      · exact of_pure h hok (by decide)
      rw [inodeAt_bind] at h
      obtain ⟨n, hnode, h⟩ := h
      cases hdata : n.data with
      | file fp =>
          simp only [hdata] at h
          exact of_pure h hok (by decide)
      | dir dj =>
          simp only [hdata, fatFindInode] at h
          split at h
          · exact of_pure h hok (by decide)
          split at h
          · exact absurd h Prog.answered_stop_iff.mp
          rw [Prog.answered_bind_iff] at h
          obtain ⟨out, s₁, first, last, hfind, h, rfl⟩ := h
          split at h
          · exact of_pure h hok (by decide)
          next hout =>
          obtain ⟨rfl, rfl, rfl⟩ := Prog.answered_pure_iff.mp h
          split at hfind
          · exact absurd (Prog.answered_pure_iff.mp hfind).2.1 hout
          split at hfind
          · exact absurd hfind Prog.answered_stop_iff.mp
          rw [List.append_nil]
          exact ⟨n, name, out, hnode, rfl, rfl, hout, findOrOpen_end hfind⟩

end Agree

/-! ### Components -/

/-- The components of a path, with a `/` between them. -/
def joinComponents (comps : List (List U8)) : List U8 := [chr '/'].intercalate comps

/-- No `/` at the begin or at the end. -/
def Plain (c : List U8) : Prop := c.head? ≠ some (chr '/') ∧ c.getLast? ≠ some (chr '/')

section Components

variable {p c : List U8} {comps : List (List U8)}

theorem joinComponents_cons (c d : List U8) (comps : List (List U8)) :
    joinComponents (c :: d :: comps) = c ++ [chr '/'] ++ joinComponents (d :: comps) := List.intercalate_cons_cons

/-- The length of the components, with a `/` for each. -/
def spanOf (comps : List (List U8)) : Nat := (comps.map fun c => c.length + 1).sum

theorem spanOf_cons (c : List U8) (comps : List (List U8)) : spanOf (c :: comps) = c.length + 1 + spanOf comps := by
  unfold spanOf
  rw [List.map_cons, List.sum_cons]

theorem joinComponents_length (h : comps ≠ []) : (joinComponents comps).length + 1 = spanOf comps := by
  induction comps with
  | nil => exact absurd rfl h
  | cons c comps ih =>
      cases comps with
      | nil => rw [joinComponents, List.intercalate_singleton, spanOf_cons, spanOf, List.map_nil, List.sum_nil,
          Nat.add_zero]
      | cons d comps =>
          have hrest := ih (List.cons_ne_nil d comps)
          rw [spanOf_cons, ← hrest, joinComponents_cons, List.length_append, List.length_append, List.length_singleton]
          omega

theorem joinPath_slash (h : p.getLast? = some (chr '/')) : joinPath p c = p ++ c := by
  unfold joinPath
  rw [if_neg fun hne => hne.1 h]

theorem joinPath_plain (h : p.getLast? ≠ some (chr '/')) (hc : Plain c) : joinPath p c = p ++ [chr '/'] ++ c := by
  unfold joinPath
  rw [if_pos ⟨h, hc.1⟩]

theorem getLast_append_plain (hc : Plain c) (hne : c ≠ []) : (p ++ c).getLast? ≠ some (chr '/') := by
  rw [List.getLast?_append_of_ne_nil p hne]
  exact hc.2

/-- Components behind a path, none of which is empty but perhaps the last. -/
theorem foldl_joinPath (hp : p.getLast? ≠ some (chr '/')) {init : List (List U8)} {last : List U8}
    (hplain : ∀ c ∈ init ++ [last], Plain c) (hne : ∀ c ∈ init, c ≠ []) :
    (init ++ [last]).foldl joinPath p = p ++ [chr '/'] ++ joinComponents (init ++ [last]) := by
  induction init generalizing p with
  | nil =>
      have hlast : Plain last := hplain last (List.mem_singleton_self last)
      rw [List.nil_append, List.foldl_cons, List.foldl_nil, joinPath_plain hp hlast, joinComponents,
        List.intercalate_singleton]
  | cons c init ih =>
      have hc : Plain c := hplain c List.mem_cons_self
      have hend : (p ++ [chr '/'] ++ c).getLast? ≠ some (chr '/') := getLast_append_plain hc (hne c List.mem_cons_self)
      have hrest := ih hend (fun d hd => hplain d (List.mem_cons_of_mem c hd)) fun d hd =>
        hne d (List.mem_cons_of_mem c hd)
      obtain ⟨d, rest, hsplit⟩ := List.exists_cons_of_ne_nil (List.append_ne_nil_of_right_ne_nil init
        (List.cons_ne_nil last []))
      rw [List.cons_append, List.foldl_cons, joinPath_plain hp hc, hrest, hsplit, joinComponents_cons]
      simp only [List.append_assoc]

/-- The same behind a path that ends with a `/`. -/
theorem foldl_joinPath_slash (hp : p.getLast? = some (chr '/')) {init : List (List U8)} {last : List U8}
    (hplain : ∀ c ∈ init ++ [last], Plain c) (hne : ∀ c ∈ init, c ≠ []) :
    (init ++ [last]).foldl joinPath p = p ++ joinComponents (init ++ [last]) := by
  cases init with
  | nil =>
      rw [List.nil_append, List.foldl_cons, List.foldl_nil, joinPath_slash hp, joinComponents,
        List.intercalate_singleton]
  | cons c init =>
      have hc : Plain c := hplain c List.mem_cons_self
      have hend : (p ++ c).getLast? ≠ some (chr '/') := getLast_append_plain hc (hne c List.mem_cons_self)
      have hrest := foldl_joinPath hend (fun d hd => hplain d (List.mem_cons_of_mem c hd)) fun d hd =>
        hne d (List.mem_cons_of_mem c hd)
      obtain ⟨d, rest, hsplit⟩ := List.exists_cons_of_ne_nil (List.append_ne_nil_of_right_ne_nil init
        (List.cons_ne_nil last []))
      rw [List.cons_append, List.foldl_cons, joinPath_slash hp, hrest, hsplit, joinComponents_cons]
      simp only [List.append_assoc]

/-- One for a path that ends with a `/`. -/
def slashAt (p : List U8) : Nat := if p.getLast? = some (chr '/') then 1 else 0

theorem joinPath_length (p c : List U8) : (joinPath p c).length + slashAt p ≤ p.length + c.length + 1 := by
  unfold joinPath slashAt
  split
  · next h =>
      rw [if_neg h.1, List.length_append, List.length_append, List.length_singleton]
      omega
  · rw [List.length_append]
    split <;> omega

/-- Behind an empty component there is a `/` already. -/
theorem joinPath_nil (p : List U8) : (joinPath p []).length + slashAt p = p.length + 1 ∧ slashAt (joinPath p []) = 1 := by
  by_cases h : p.getLast? = some (chr '/')
  · rw [joinPath_slash h, List.append_nil, slashAt, if_pos h]
    exact ⟨rfl, rfl⟩
  · have hplain : Plain [] := ⟨nofun, nofun⟩
    rw [joinPath_plain h hplain, List.append_nil, slashAt, slashAt, if_neg h, List.getLast?_concat, if_pos rfl,
      List.length_append]
    exact ⟨rfl, rfl⟩

theorem foldl_joinPath_le (p : List U8) {comps : List (List U8)} (h : comps ≠ []) :
    (comps.foldl joinPath p).length + slashAt p ≤ p.length + spanOf comps := by
  induction comps generalizing p with
  | nil => exact absurd rfl h
  | cons c comps ih =>
      have hfirst := joinPath_length p c
      rw [List.foldl_cons, spanOf_cons]
      by_cases hnil : comps = []
      · rw [hnil, List.foldl_nil]
        omega
      · have hrest := ih (joinPath p c) hnil
        omega

/-- A component that is empty, and not the last, makes the path shorter. -/
theorem foldl_joinPath_lt (p : List U8) {init : List (List U8)} (last : List U8) (h : [] ∈ init) :
    ((init ++ [last]).foldl joinPath p).length + slashAt p < p.length + spanOf (init ++ [last]) := by
  induction init generalizing p with
  | nil => exact absurd h List.not_mem_nil
  | cons c init ih =>
      rw [List.cons_append, List.foldl_cons, spanOf_cons]
      cases List.mem_cons.mp h with
      | inl heq =>
          obtain ⟨hlen, hslash⟩ := joinPath_nil p
          have hne : init ++ [last] ≠ [] := List.append_ne_nil_of_right_ne_nil init (List.cons_ne_nil last [])
          have hrest := foldl_joinPath_le (joinPath p []) hne
          rw [← heq, List.length_nil]
          omega
      | inr hmem =>
          have hfirst := joinPath_length p c
          have hrest := ih (joinPath p c) hmem
          omega

end Components

/-! ### Walks -/

/-- Lookups one after the other, each in the directory that the one before has found. -/
inductive Walk (m : Mount) : Volume → U32 → List (List U8) → Volume → U32 → Prop
  | here (s : Volume) (inode : U32) : Walk m s inode [] s inode
  | step {a : Alloc} {s s₁ s' : Volume} {inode next last : U32} {c : List U8} {comps : List (List U8)} {log : Log}
      (hfresh : FreshIn a s) (hlookup : (fatLookup m a inode (some c)).Answered s log (INODE_OK, some next) s₁)
      (hrest : Walk m s₁ next comps s' last) : Walk m s inode (c :: comps) s' last

section Walk

variable {m : Mount} {s s' : Volume}

/-- The inode that a lookup finds has the internal path of the lookup. -/
theorem fatLookup_found {a : Alloc} {inode next : U32} {name : List U8} {log : Log} (hinv : Inv m s)
    (h : (fatLookup m a inode (some name)).Answered s log (INODE_OK, some next) s') :
    ∃ n n', s.node inode = some n ∧ s'.node next = some n' ∧ n'.internalPath = joinPath n.internalPath name := by
  obtain ⟨n, name', out, hnode, hname, hr, hout, hend⟩ := fatLookup_ok h rfl
  cases hname
  cases hr
  obtain ⟨hn, -⟩ := Volume.mem_of_node hnode
  obtain ⟨path, hbuilt⟩ := hinv.built n hn
  have hjoin : lookupInternalPath m n name = joinPath n.internalPath name := by
    unfold lookupInternalPath
    rw [hbuilt, joinPath_bulid]
  rw [hjoin] at hend
  cases hend with
  | @cached n' hfind =>
      have hpath : n'.internalPath = joinPath n.internalPath name := by simpa using List.find?_some hfind
      exact ⟨n, n', hnode, Volume.node_of_mem hinv (List.mem_of_find?_eq_some hfind), hpath⟩
  | noMemory => exact absurd rfl hout
  | failed => exact absurd rfl hout
  | @made _ data hfind hinode hopen =>
      refine ⟨n, ⟨a.inode, s.nextId, joinPath n.internalPath name, data⟩, hnode, ?_, rfl⟩
      unfold Volume.node Volume.construct listAdd
      rw [List.find?_cons_of_pos (by simp)]

theorem walk_path {inode last : U32} {comps : List (List U8)} {n : FatInode} (hreach : Reaches m s)
    (hnode : s.node inode = some n) (h : Walk m s inode comps s' last) :
    ∃ n', s'.node last = some n' ∧ n'.internalPath = comps.foldl joinPath n.internalPath ∧ Reaches m s' := by
  induction h generalizing n with
  | here s inode => exact ⟨n, hnode, rfl, hreach⟩
  | @step a s s₁ s' inode next last c comps log hfresh hlookup hrest ih =>
      obtain ⟨n₀, n₁, hnode₀, hnode₁, hpath⟩ := fatLookup_found hreach.inv hlookup
      obtain rfl := Option.some.inj (hnode.symm.trans hnode₀)
      have hcode : ((Op.lookup inode (some c)).code m a false).Answered s (log ++ []) INODE_OK s₁ :=
        hlookup.bind (.ret INODE_OK s₁)
      have hreach₁ : Reaches m s₁ := .call hreach hfresh hcode
      obtain ⟨n', hnode', hpath', hreach'⟩ := ih hreach₁ hnode₁
      exact ⟨n', hnode', by rw [hpath', hpath, List.foldl_cons], hreach'⟩

/-- A walk leads to the path to which one lookup leads, if and only if no component but the last is empty. -/
theorem walk_eq_iff {root n' : FatInode} {last : U32} {init : List (List U8)} {name : List U8} (hreach : Reaches m s)
    (hmem : root ∈ s.inodeList) (hroot : root.internalPath = bulidInternalPath m [chr '/'])
    (hwalk : Walk m s root.addr init s' last) (hlast : s'.node last = some n')
    (hplain : ∀ c ∈ init ++ [name], Plain c) :
    lookupInternalPath m n' name = lookupInternalPath m root (joinComponents (init ++ [name])) ↔ ∀ c ∈ init, c ≠ [] := by
  have hslash : root.internalPath.getLast? = some (chr '/') := by
    rw [hroot]
    rfl
  obtain ⟨n, hnode, hpath, hreach'⟩ := walk_path hreach (Volume.node_of_mem hreach.inv hmem) hwalk
  obtain rfl := Option.some.inj (hlast.symm.trans hnode)
  obtain ⟨path, hbuilt⟩ := hreach'.inv.built n' (Volume.mem_of_node hnode).1
  have hwalked : lookupInternalPath m n' name = (init ++ [name]).foldl joinPath root.internalPath := by
    unfold lookupInternalPath
    rw [hbuilt, ← joinPath_bulid, ← hbuilt, hpath, List.foldl_append, List.foldl_cons, List.foldl_nil]
  have honce : lookupInternalPath m root (joinComponents (init ++ [name])) =
      root.internalPath ++ joinComponents (init ++ [name]) := by
    unfold lookupInternalPath
    rw [hroot, ← joinPath_bulid, ← hroot, joinPath_slash hslash]
  rw [hwalked, honce]
  constructor
  · intro heq c hc hnil
    have hlt := foldl_joinPath_lt root.internalPath name (hnil ▸ hc)
    have hlen := joinComponents_length (List.append_ne_nil_of_right_ne_nil init (List.cons_ne_nil name []))
    rw [heq, slashAt, if_pos hslash, List.length_append] at hlt
    omega
  · exact fun hne => foldl_joinPath_slash hslash hplain hne

end Walk

/-- Creation and lookup in a directory use the same internal path.  Components, without `/` at their ends, that are
looked up one after the other from the root directory lead to the path of one lookup, if and only if none of them but
the last is empty. -/
theorem create_lookup_agree (m : Mount) (s : Volume) (hreach : Reaches m s) :
    (∀ n ∈ s.inodeList, ∀ dj, n.data = .dir dj → ∀ name, Agree m s n name) ∧
      ∀ root ∈ s.inodeList, root.internalPath = bulidInternalPath m [chr '/'] →
        ∀ init name s' last n', Walk m s root.addr init s' last → s'.node last = some n' →
          (∀ c ∈ init ++ [name], Plain c) →
          (lookupInternalPath m n' name = lookupInternalPath m root (joinComponents (init ++ [name])) ↔
            ∀ c ∈ init, c ≠ []) := by
  constructor
  · intro n hn dj hdir name
    exact agree_of_dir hreach.inv hn hdir name
  · intro root hmem hroot init name s' last n' hwalk hlast hplain
    exact walk_eq_iff hreach hmem hroot hwalk hlast hplain

/-! ### A volume with its root directory -/

/-- The inode of the root directory. -/
def rootInode : FatInode := ⟨0xC0200000, 0, bulidInternalPath smallMount [chr '/'], .dir ⟨0, 0, 0⟩⟩

/-- After `get_fatfs_root_inode`. -/
def rootVolume : Volume := ⟨1, [rootInode]⟩

theorem rootVolume_reaches : Reaches smallMount rootVolume := by
  have hrun : (fatFindInode smallMount ⟨true, true, 0xC0200000⟩ (some [chr '/'])).Answered ⟨0, []⟩
      [(.fatbaseOpen (bulidInternalPath smallMount [chr '/']) (FA_READ ||| FA_WRITE), .ofCode FR_NO_FILE),
        (.fatbaseOpendir (bulidInternalPath smallMount [chr '/']), .ofCode FR_OK)] 0xC0200000 rootVolume :=
    .op rfl (.ask _ (.ask _ (.op rfl (.ret _ _))))
  exact .find .mounted List.not_mem_nil hrun

/-- A directory in the root directory. -/
def subInode : FatInode := ⟨0xC0201000, 1, bulidInternalPath smallMount ([chr '/', chr 'a']), .dir ⟨0, 0, 0⟩⟩

/-- `a` and then `b`, from the root directory. -/
theorem create_lookup_agree_two_components : Agree smallMount rootVolume rootInode [chr 'b'] ∧
    lookupInternalPath smallMount subInode [chr 'b'] =
      lookupInternalPath smallMount rootInode (joinComponents ([[chr 'a']] ++ [[chr 'b']])) := by
  have hlookup : (fatLookup smallMount ⟨true, true, 0xC0201000⟩ 0xC0200000 (some [chr 'a'])).Answered rootVolume
      [(.fatbaseOpen subInode.internalPath (FA_READ ||| FA_WRITE), .ofCode FR_NO_FILE),
        (.fatbaseOpendir subInode.internalPath, .ofCode FR_OK)] (INODE_OK, some 0xC0201000) ⟨2, [subInode, rootInode]⟩ :=
    .op rfl (.op rfl (.ask _ (.ask _ (.op rfl (.ret _ _)))))
  have hagree := create_lookup_agree smallMount rootVolume rootVolume_reaches
  refine ⟨hagree.1 rootInode List.mem_cons_self _ rfl _, ?_⟩
  have hwalk := Walk.step (a := ⟨true, true, 0xC0201000⟩) (by unfold FreshIn; decide) hlookup (.here _ _)
  exact (hagree.2 rootInode List.mem_cons_self rfl _ _ _ _ subInode hwalk rfl (by unfold Plain; decide)).mpr (by decide)

/-- The components of `/a` are the empty one and `a`.  Looked up one after the other they lead to `0:/a`, and the path
leads to `0://a`. -/
theorem empty_component : ∃ s root, Reaches smallMount s ∧ s.node root = some rootInode ∧
    Walk smallMount s root [[]] s root ∧ Plain [] ∧ Plain [chr 'a'] ∧
    joinComponents ([[]] ++ [[chr 'a']]) = [chr '/', chr 'a'] ∧
    lookupInternalPath smallMount rootInode [chr 'a'] ≠
      lookupInternalPath smallMount rootInode (joinComponents ([[]] ++ [[chr 'a']])) := by
  have hlookup : (fatLookup smallMount ⟨true, true, 0xC0201000⟩ 0xC0200000 (some [])).Answered rootVolume []
      (INODE_OK, some 0xC0200000) rootVolume :=
    .op rfl (.op rfl (.ret _ _))
  have hwalk := Walk.step (a := ⟨true, true, 0xC0201000⟩) (by unfold FreshIn; decide) hlookup (.here _ _)
  refine ⟨rootVolume, 0xC0200000, rootVolume_reaches, rfl, hwalk, ?_, ?_, ?_, ?_⟩
  · unfold Plain
    decide
  · unfold Plain
    decide
  · decide
  · decide

end FatOps
end FreakOS
