import FreakOS.Lib.CString
import FreakOS.Memory.AddressSpace

/-!
# The registry of devices

`vdev_add_dev`, `vdev_add_fs` and `vdev_get_root_inode` of `vdev.c`, with `strcmp` of `string.h`, for calls that come one
after the other.

Two values are not determined by the source: what `strcmp` returns for two empty strings, and what `vdev_add` returns
where it ends without `return`.  They are arguments.  `kmalloc` gives a block or `NULL`, and the model stops where a
name is longer than the block that it is copied to.

* `vdevAdd`, `vdevAddDev`, `vdevAddFs`, `vdevGetRootInode` — as in the source.
* `IsMap` — names are distinct, and each is found.
* `Sound` — what a call is to do with the registry.
* `Clean` — a call that is refused before the names are compared, or not at all.
* `registry_iff` — runs of such calls, and no other calls are sound.
-/

namespace FreakOS
namespace Vdev

open Lib
open Memory (pagesOf)

/-! ### Constants -/

/-- `VDEV_PNULL`. -/
def VDEV_PNULL : Int := 1
/-- `VDEV_TYPE_ERR`. -/
def VDEV_TYPE_ERR : Int := 2
/-- `VDEV_INTERNAL_ERR`. -/
def VDEV_INTERNAL_ERR : Int := 4
/-- `VDEV_NAME_LEN`. -/
def VDEV_NAME_LEN : U32 := 128
/-- `sizeof(vDev_t)`. -/
def sizeofVDev : U32 := 24

/-! ### `strcmp` -/

/-- The loop of `strcmp`; `ret` is the value of the variable. -/
def strcmpLoop : List Char8 → List Char8 → Int → Int
  | [], [], ret => ret
  | c :: _, [], _ => c.toInt
  | [], d :: _, _ => -d.toInt
  | c :: str1, d :: str2, _ => if c.toInt - d.toInt = 0 then strcmpLoop str1 str2 0 else c.toInt - d.toInt

/-- `strcmp(str1, str2)`; `unset` is what the variable holds before it is assigned. -/
def strcmp (unset : Int) (str1 str2 : CString) : Int := strcmpLoop str1.bytes str2.bytes unset

/-! ### State -/

/-- `vDev_t`. -/
structure VDev where
  name : CString
  inode : U32
  fs : U32
  mountable : Bool
deriving DecidableEq

/-- `vDevList`, `vDevListSem`, and the blocks that `vdev.c` has from `kmalloc`, with their pages. -/
structure Registry where
  list : List VDev
  sem : Int
  blocks : List (U32 × Nat)

/-- After `init_vDev` has initialised its variables. -/
def Registry.init : Registry := ⟨[], 1, []⟩

/-- What the source leaves open: the variable of `strcmp` in each comparison of a search, and the value of a function
that ends without `return`. -/
structure Unset where
  strcmpRet : Nat → Int
  noReturn : Int

namespace Registry

/-- `lock_vdevlist()`. -/
def lockVdevlist (s : Registry) : Registry := { s with sem := s.sem - 1 }

/-- `unlock_vdevlist()`. -/
def unlockVdevlist (s : Registry) : Registry := { s with sem := s.sem + 1 }

/-- `kmalloc(bytes)`, when it gives a block. -/
def kmalloc (s : Registry) (block bytes : U32) : Registry := { s with blocks := (block, pagesOf bytes) :: s.blocks }

/-- `kfree(block, bytes)`. -/
def kfree (s : Registry) (block bytes : U32) : Res Registry :=
  if s.blocks.contains (block, pagesOf bytes) then .ok { s with blocks := s.blocks.erase (block, pagesOf bytes) }
  else .error .wildPointer

/-- `vdev_add_list(vdev)`. -/
def vdevAddList (s : Registry) (vdev : VDev) : Registry := { s with list := listAdd vdev s.list }

end Registry

/-! ### The functions -/

/-- The loop of `check_vdev_name`, from entry `i` on. -/
def checkLoop (unset : Nat → Int) (name : CString) : Nat → List VDev → Int
  | _, [] => 0
  | i, vdev :: rest => if strcmp (unset i) name vdev.name = 0 then 1 else checkLoop unset name (i + 1) rest

/-- `check_vdev_name(name)`. -/
def checkVdevName (unset : Nat → Int) (name : CString) (s : Registry) : Int := checkLoop unset name 0 s.list

/-- The loop of `vdev_get_root_inode`, from entry `i` on; `getRootInode` is `get_root_inode(fs)` where that is not
`NULL`. -/
def rootLoop (getRootInode : U32 → Option U32) (unset : Nat → Int) (name : CString) : Nat → List VDev → U32
  | _, [] => NULL
  | i, vdev :: rest =>
      if strcmp (unset i) name vdev.name = 0 then
        if vdev.fs ≠ NULL then
          match getRootInode vdev.fs with
          | some root => root
          | none => rootLoop getRootInode unset name (i + 1) rest
        else if vdev.inode ≠ NULL then vdev.inode
        else rootLoop getRootInode unset name (i + 1) rest
      else rootLoop getRootInode unset name (i + 1) rest

/-- `vdev_get_root_inode(name)`. -/
def vdevGetRootInode (getRootInode : U32 → Option U32) (unset : Nat → Int) (name : CString) (s : Registry) : U32 :=
  rootLoop getRootInode unset name 0 s.list

/-- `vdev_add(vdev_name, dev_inode, fs, mountable)`.  `isDev` says that the inode is of `Dev_Type`; the last two
arguments are what `kmalloc` gives for the name and for the `vDev_t`. -/
def vdevAdd (unset : Unset) (s : Registry) (vdevName : Option CString) (devInode fs : U32) (mountable isDev : Bool)
    (newDevName newVdev : U32) : Res (Int × Registry) :=
  match vdevName with
  | none => .ok (VDEV_PNULL, s)
  | some vdevName =>
      if ¬ (devInode = NULL ∧ fs ≠ NULL ∧ mountable ≠ true ∨ devInode ≠ NULL ∧ isDev = true) then
        .ok (VDEV_TYPE_ERR, s)
      else if newDevName = NULL then .ok (VDEV_INTERNAL_ERR, s)
      else if vdevName.bytes.length ≥ PGSIZE.toNat * pagesOf VDEV_NAME_LEN then .error .wildPointer
      else
        let s := (s.kmalloc newDevName VDEV_NAME_LEN).lockVdevlist
        if checkVdevName unset.strcmpRet vdevName s ≠ 0 then do
          -- The function ends without `return` here.
          let s ← s.unlockVdevlist.kfree newDevName sizeofVDev
          return (unset.noReturn, s)
        else if newVdev = NULL then do
          let s ← s.unlockVdevlist.kfree newDevName sizeofVDev
          return (unset.noReturn, s)
        else
          let s := (s.kmalloc newVdev sizeofVDev).vdevAddList ⟨vdevName, devInode, fs, mountable⟩
          .ok (0, s.unlockVdevlist)

/-- `vdev_add_dev(name, inode, mountable)`. -/
def vdevAddDev (unset : Unset) (s : Registry) (name : Option CString) (inode : U32) (mountable isDev : Bool)
    (newDevName newVdev : U32) : Res (Int × Registry) :=
  vdevAdd unset s name inode NULL mountable isDev newDevName newVdev

/-- `vdev_add_fs(name, fs)`. -/
def vdevAddFs (unset : Unset) (s : Registry) (name : Option CString) (fs newDevName newVdev : U32) :
    Res (Int × Registry) :=
  vdevAdd unset s name NULL fs false false newDevName newVdev

/-! ### Calls -/

/-- A registration, with what `kmalloc` gives to it. -/
inductive Call where
  | addDev (name : Option CString) (inode : U32) (mountable isDev : Bool) (newDevName newVdev : U32)
  | addFs (name : Option CString) (fs newDevName newVdev : U32)
deriving DecidableEq

namespace Call

def name : Call → Option CString
  | addDev name _ _ _ _ _ => name
  | addFs name _ _ _ => name

def devInode : Call → U32
  | addDev _ inode _ _ _ _ => inode
  | addFs _ _ _ _ => NULL

def fs : Call → U32
  | addDev _ _ _ _ _ _ => NULL
  | addFs _ fs _ _ => fs

def mountable : Call → Bool
  | addDev _ _ mountable _ _ _ => mountable
  | addFs _ _ _ _ => false

def isDev : Call → Bool
  | addDev _ _ _ isDev _ _ => isDev
  | addFs _ _ _ _ => false

def newDevName : Call → U32
  | addDev _ _ _ _ newDevName _ => newDevName
  | addFs _ _ newDevName _ => newDevName

def newVdev : Call → U32
  | addDev _ _ _ _ _ newVdev => newVdev
  | addFs _ _ _ newVdev => newVdev

/-- Run the call. -/
def exec (unset : Unset) (s : Registry) : Call → Res (Int × Registry)
  | addDev name inode mountable isDev newDevName newVdev =>
      vdevAddDev unset s name inode mountable isDev newDevName newVdev
  | addFs name fs newDevName newVdev => vdevAddFs unset s name fs newDevName newVdev

theorem exec_eq (unset : Unset) (s : Registry) (c : Call) : c.exec unset s =
    vdevAdd unset s c.name c.devInode c.fs c.mountable c.isDev c.newDevName c.newVdev := by
  cases c <;> rfl

/-- A device or a file system. -/
def RightKind : Call → Prop
  | addDev _ inode _ isDev _ _ => inode ≠ NULL ∧ isDev = true
  | addFs _ fs _ _ => fs ≠ NULL

/-- The entry that the call is to make. -/
def entry (c : Call) (name : CString) : VDev := ⟨name, c.devInode, c.fs, c.mountable⟩

end Call

/-! ### What a registry is -/

/-- The names that are registered. -/
def Registry.names (s : Registry) : List CString := s.list.map VDev.name

/-- The inode that an entry stands for. -/
def VDev.root (getRootInode : U32 → Option U32) (v : VDev) : U32 :=
  if v.fs ≠ NULL then (getRootInode v.fs).getD NULL else v.inode

/-- A finite map from names to inodes. -/
structure IsMap (s : Registry) : Prop where
  names : s.names.Nodup
  found : ∀ v ∈ s.list, ∀ getRootInode unset, vdevGetRootInode getRootInode unset v.name s = v.root getRootInode
  absent : ∀ name, name ∉ s.names → ∀ getRootInode unset, vdevGetRootInode getRootInode unset name s = NULL

/-- A call that is not to register anything. -/
def Call.Refused (c : Call) (s : Registry) : Prop :=
  c.name = none ∨ ¬ c.RightKind ∨ (∃ name, c.name = some name ∧ name ∈ s.names) ∨ c.newDevName = NULL ∨
    c.newVdev = NULL

/-- What is to come of a call. -/
structure Sound (s : Registry) (c : Call) (ret : Int) (s' : Registry) : Prop where
  refused : c.Refused s → ret ≠ 0 ∧ s'.list = s.list ∧ s'.blocks = s.blocks
  registered : ¬ c.Refused s → ret = 0 ∧ ∃ name, c.name = some name ∧ s'.list = listAdd (c.entry name) s.list
  unlocked : s'.sem = 1
  map : IsMap s'

/-- A call that gets to the comparison of the names, with its name. -/
def Call.Passes (c : Call) (name : CString) : Prop := c.name = some name ∧ c.RightKind ∧ c.newDevName ≠ NULL

/-- A call that is refused before the names are compared, or else registers a name of its own. -/
def Clean (s : Registry) (c : Call) : Prop :=
  ∀ name, c.Passes name → name ≠ .empty ∧ name.bytes.length < PGSIZE.toNat * pagesOf VDEV_NAME_LEN ∧
    name ∉ s.names ∧ c.newVdev ≠ NULL

/-- Runs of clean calls. -/
inductive Runs : List Call → Registry → Prop
  | init : Runs [] .init
  | call {cs : List Call} {s s' : Registry} {c : Call} {unset : Unset} {ret : Int} (hruns : Runs cs s)
      (hclean : Clean s c) (hexec : c.exec unset s = .ok (ret, s')) : Runs (cs ++ [c]) s'

/-! ### `strcmp` -/

theorem strcmpLoop_eq_zero_iff {str1 str2 : List Char8} (h1 : 0 ∉ str1) (h2 : 0 ∉ str2) (ret : Int) :
    strcmpLoop str1 str2 ret = 0 ↔ str1 = str2 ∧ (str1 = [] → ret = 0) := by
  have hchar : ∀ c d : Char8, c.toInt - d.toInt = 0 ↔ c = d := by
    intro c d
    rw [sub_eq_zero, BitVec.toInt_inj]
  induction str1 generalizing str2 ret with
  | nil =>
      cases str2 with
      | nil => simp [strcmpLoop]
      | cons d str2 =>
          have hd : d ≠ 0 := fun h => h2 (h ▸ List.mem_cons_self)
          have hne : d.toInt ≠ 0 := fun h => hd ((hchar d 0).mp (by simpa using h))
          simp [strcmpLoop, hne]
  | cons c str1 ih =>
      cases str2 with
      | nil =>
          have hc : c ≠ 0 := fun h => h1 (h ▸ List.mem_cons_self)
          have hne : c.toInt ≠ 0 := fun h => hc ((hchar c 0).mp (by simpa using h))
          simp [strcmpLoop, hne]
      | cons d str2 =>
          have hrest := ih (fun h => h1 (List.mem_cons_of_mem c h)) (fun h => h2 (List.mem_cons_of_mem d h)) 0
          unfold strcmpLoop
          rw [List.cons.injEq, ← hchar c d]
          split
          · next heq => simp [heq, hrest]
          · next hne => simp [hne]

/-- `strcmp` tells strings apart, unless both are empty. -/
theorem strcmp_eq_zero_iff {str1 str2 : CString} (h : str2 ≠ .empty) (unset : Int) :
    strcmp unset str1 str2 = 0 ↔ str1 = str2 := by
  unfold strcmp
  rw [strcmpLoop_eq_zero_iff str1.no_nul str2.no_nul, ← CString.ext_iff]
  constructor
  · exact And.left
  · intro heq
    refine ⟨heq, fun hnil => absurd ?_ h⟩
    rw [← heq]
    exact CString.eq_empty_iff.mpr hnil

/-! ### Searches -/

/-- A registry without the empty name. -/
structure Good (s : Registry) : Prop where
  names : s.names.Nodup
  nonempty : ∀ v ∈ s.list, v.name ≠ .empty
  unlocked : s.sem = 1

theorem checkLoop_eq_zero_iff {list : List VDev} (h : ∀ v ∈ list, v.name ≠ .empty) (unset : Nat → Int) (name : CString)
    (i : Nat) : checkLoop unset name i list = 0 ↔ name ∉ list.map VDev.name := by
  induction list generalizing i with
  | nil => simp [checkLoop]
  | cons v list ih =>
      have hrest := ih (fun w hw => h w (List.mem_cons_of_mem v hw)) (i + 1)
      unfold checkLoop
      rw [List.map_cons, List.mem_cons, not_or, ← hrest]
      by_cases heq : name = v.name
      · rw [if_pos ((strcmp_eq_zero_iff (h v List.mem_cons_self) _).mpr heq)]
        simp [heq]
      · rw [if_neg fun hzero => heq ((strcmp_eq_zero_iff (h v List.mem_cons_self) _).mp hzero)]
        simp [heq]

theorem rootLoop_absent {list : List VDev} (h : ∀ v ∈ list, v.name ≠ .empty) (getRootInode : U32 → Option U32)
    (unset : Nat → Int) {name : CString} (hname : name ∉ list.map VDev.name) (i : Nat) :
    rootLoop getRootInode unset name i list = NULL := by
  induction list generalizing i with
  | nil => rfl
  | cons v list ih =>
      rw [List.map_cons, List.mem_cons, not_or] at hname
      unfold rootLoop
      rw [if_neg fun hzero => hname.1 ((strcmp_eq_zero_iff (h v List.mem_cons_self) _).mp hzero)]
      exact ih (fun w hw => h w (List.mem_cons_of_mem v hw)) hname.2 (i + 1)

theorem rootLoop_found {list : List VDev} (h : ∀ v ∈ list, v.name ≠ .empty) (hnames : (list.map VDev.name).Nodup)
    (getRootInode : U32 → Option U32) (unset : Nat → Int) {v : VDev} (hv : v ∈ list) (i : Nat) :
    rootLoop getRootInode unset v.name i list = v.root getRootInode := by
  induction list generalizing i with
  | nil => exact absurd hv List.not_mem_nil
  | cons w list ih =>
      have htail : ∀ x ∈ list, x.name ≠ .empty := fun x hx => h x (List.mem_cons_of_mem w hx)
      rw [List.map_cons, List.nodup_cons] at hnames
      unfold rootLoop
      cases List.mem_cons.mp hv with
      | inl heq =>
          subst heq
          have hnone := rootLoop_absent htail getRootInode unset hnames.1 (i + 1)
          rw [if_pos ((strcmp_eq_zero_iff (h v List.mem_cons_self) _).mpr rfl), hnone]
          unfold VDev.root
          by_cases hfs : v.fs ≠ NULL
          · rw [if_pos hfs, if_pos hfs]
            cases getRootInode v.fs <;> rfl
          · rw [if_neg hfs, if_neg hfs]
            split
            · rfl
            · next hnull => exact (not_not.mp hnull).symm
      | inr hmem =>
          have hne : v.name ≠ w.name := fun heq => hnames.1 (heq ▸ List.mem_map_of_mem hmem)
          rw [if_neg fun hzero => hne ((strcmp_eq_zero_iff (h w List.mem_cons_self) _).mp hzero)]
          exact ih htail hnames.2 hmem (i + 1)

theorem Good.isMap {s : Registry} (h : Good s) : IsMap s where
  names := h.names
  found := fun _ hv getRootInode unset => rootLoop_found h.nonempty h.names getRootInode unset hv 0
  absent := fun _ hname getRootInode unset => rootLoop_absent h.nonempty getRootInode unset hname 0

/-! ### What a call does -/

section Calls

variable {s s' : Registry} {c : Call} {name : CString} {unset : Unset} {ret : Int}

theorem Call.rightKind_iff (c : Call) : c.RightKind ↔
    (c.devInode = NULL ∧ c.fs ≠ NULL ∧ c.mountable ≠ true ∨ c.devInode ≠ NULL ∧ c.isDev = true) := by
  cases c with
  | addDev name inode mountable isDev newDevName newVdev => simp [RightKind, devInode, Call.fs, Call.isDev]
  | addFs name fs newDevName newVdev => simp [RightKind, devInode, Call.fs, mountable]

/-- The block of the name is given back, with the size of another structure but the same number of pages. -/
theorem kfree_kmalloc (s : Registry) (block : U32) :
    (s.kmalloc block VDEV_NAME_LEN).lockVdevlist.unlockVdevlist.kfree block sizeofVDev = .ok s := by
  have hpages : pagesOf sizeofVDev = pagesOf VDEV_NAME_LEN := by decide
  unfold Registry.kfree
  rw [hpages, if_pos (by simp [Registry.kmalloc, Registry.lockVdevlist, Registry.unlockVdevlist])]
  simp [Registry.kmalloc, Registry.lockVdevlist, Registry.unlockVdevlist]

/-- The registry with one more entry. -/
def Registry.register (s : Registry) (c : Call) (name : CString) : Registry :=
  ((((s.kmalloc c.newDevName VDEV_NAME_LEN).lockVdevlist).kmalloc c.newVdev sizeofVDev).vdevAddList
    (c.entry name)).unlockVdevlist

theorem exec_not_passes (h : ∀ name, ¬ c.Passes name) : ∃ ret, ret ≠ 0 ∧ c.exec unset s = .ok (ret, s) := by
  rw [Call.exec_eq]
  unfold vdevAdd
  cases hname : c.name with
  | none => exact ⟨VDEV_PNULL, by decide, rfl⟩
  | some name =>
      by_cases hkind : c.RightKind
      · have hnull : c.newDevName = NULL := by
          by_contra hnew
          exact h name ⟨hname, hkind, hnew⟩
        refine ⟨VDEV_INTERNAL_ERR, by decide, ?_⟩
        rw [c.rightKind_iff] at hkind
        simp only [hkind, hnull, not_true_eq_false, if_false, if_true]
      · refine ⟨VDEV_TYPE_ERR, by decide, ?_⟩
        rw [c.rightKind_iff] at hkind
        simp only [hkind, not_false_eq_true, if_true]

theorem exec_passes (h : c.Passes name) : c.exec unset s =
    if name.bytes.length ≥ PGSIZE.toNat * pagesOf VDEV_NAME_LEN then .error .wildPointer
    else if checkVdevName unset.strcmpRet name s ≠ 0 ∨ c.newVdev = NULL then .ok (unset.noReturn, s)
    else .ok (0, s.register c name) := by
  obtain ⟨hname, hkind, hnew⟩ := h
  rw [c.rightKind_iff] at hkind
  have hcheck : checkVdevName unset.strcmpRet name (s.kmalloc c.newDevName VDEV_NAME_LEN).lockVdevlist =
      checkVdevName unset.strcmpRet name s := rfl
  rw [Call.exec_eq]
  unfold vdevAdd
  simp only [hname, hkind, hnew, not_true_eq_false, if_false, hcheck, kfree_kmalloc, Res.ok_bind]
  split
  · rfl
  · by_cases hfound : checkVdevName unset.strcmpRet name s ≠ 0
    · rw [if_pos hfound, if_pos (.inl hfound)]
      rfl
    · rw [if_neg hfound]
      by_cases hnull : c.newVdev = NULL
      · rw [if_pos hnull, if_pos (.inr hnull)]
        rfl
      · rw [if_neg hnull, if_neg (not_or.mpr ⟨hfound, hnull⟩)]
        rfl

theorem Good.register (h : Good s) (hne : name ≠ .empty) (hnew : name ∉ s.names) : Good (s.register c name) where
  names := List.nodup_cons.mpr ⟨hnew, h.names⟩
  nonempty := by
    intro v hv
    cases List.mem_cons.mp hv with
    | inl heq => rwa [heq]
    | inr hmem => exact h.nonempty v hmem
  unlocked := by
    have hsem := h.unlocked
    show s.sem - 1 + 1 = 1
    omega

/-- A clean call does what it is to do. -/
theorem Clean.exec (hgood : Good s) (hclean : Clean s c) (unset : Unset) :
    (∃ ret, ret ≠ 0 ∧ (∀ name, ¬ c.Passes name) ∧ c.exec unset s = .ok (ret, s)) ∨
      ∃ name, c.Passes name ∧ ¬ c.Refused s ∧ c.exec unset s = .ok (0, s.register c name) ∧
        Good (s.register c name) := by
  by_cases hpasses : ∃ name, c.Passes name
  · obtain ⟨name, hpasses⟩ := hpasses
    obtain ⟨hne, hlen, hnew, hvdev⟩ := hclean name hpasses
    refine .inr ⟨name, hpasses, ?_, ?_, hgood.register hne hnew⟩
    · intro hrefused
      rcases hrefused with hnone | hkind | ⟨other, hname, hmem⟩ | hnull | hnull
      · cases hnone.symm.trans hpasses.1
      · exact hkind hpasses.2.1
      · cases hname.symm.trans hpasses.1
        exact hnew hmem
      · exact hpasses.2.2 hnull
      · exact hvdev hnull
    · have hcheck : checkVdevName unset.strcmpRet name s = 0 :=
        (checkLoop_eq_zero_iff hgood.nonempty _ _ _).mpr hnew
      rw [exec_passes hpasses, if_neg (Nat.not_le.mpr hlen), if_neg (not_or.mpr ⟨not_not.mpr hcheck, hvdev⟩)]
  · rw [not_exists] at hpasses
    obtain ⟨ret, hret, hexec⟩ := exec_not_passes hpasses
    exact .inl ⟨ret, hret, hpasses, hexec⟩

/-- A call that gets no further than its checks is refused. -/
theorem Call.refused_of_not_passes (h : ∀ name, ¬ c.Passes name) : c.Refused s := by
  by_contra hnot
  simp only [Refused, not_or, not_not] at hnot
  obtain ⟨hname, hkind, -, hnew, -⟩ := hnot
  obtain ⟨name, hname⟩ := Option.ne_none_iff_exists'.mp hname
  exact h name ⟨hname, hkind, hnew⟩

theorem Clean.sound (hgood : Good s) (hclean : Clean s c) (unset : Unset) :
    ∃ ret s', c.exec unset s = .ok (ret, s') ∧ Sound s c ret s' := by
  cases hclean.exec hgood unset with
  | inl hrefused =>
      obtain ⟨ret, hret, hpasses, hexec⟩ := hrefused
      refine ⟨ret, s, hexec, fun _ => ⟨hret, rfl, rfl⟩, fun hnot => ?_, hgood.unlocked, hgood.isMap⟩
      exact absurd (Call.refused_of_not_passes hpasses) hnot
  | inr hregistered =>
      obtain ⟨name, hpasses, hnot, hexec, hgood'⟩ := hregistered
      refine ⟨0, _, hexec, fun hrefused => absurd hrefused hnot, fun _ => ⟨rfl, name, hpasses.1, rfl⟩, ?_, ?_⟩
      · exact hgood'.unlocked
      · exact hgood'.isMap

/-- No other call is sound, whatever the source leaves open. -/
theorem clean_of_sound (hgood : Good s)
    (h : ∀ unset, ∃ ret s', c.exec unset s = .ok (ret, s') ∧ Sound s c ret s') : Clean s c := by
  intro name hpasses
  have hlen : name.bytes.length < PGSIZE.toNat * pagesOf VDEV_NAME_LEN := by
    obtain ⟨ret, s', hexec, -⟩ := h ⟨fun _ => 0, 0⟩
    by_contra hlong
    rw [exec_passes hpasses, if_pos (Nat.not_lt.mp hlong)] at hexec
    cases hexec
  -- The code that is returned without `return` may be zero.
  have hok : ¬ c.Refused s := by
    intro hrefused
    obtain ⟨ret, s', hexec, hsound⟩ := h ⟨fun _ => 0, 0⟩
    rw [exec_passes hpasses, if_neg (Nat.not_le.mpr hlen)] at hexec
    split at hexec
    · cases hexec
      exact (hsound.refused hrefused).1 rfl
    · cases hexec
      exact (hsound.refused hrefused).1 rfl
  have hnew : name ∉ s.names := fun hmem => hok (.inr (.inr (.inl ⟨name, hpasses.1, hmem⟩)))
  have hvdev : c.newVdev ≠ NULL := fun hnull => hok (.inr (.inr (.inr (.inr hnull))))
  refine ⟨?_, hlen, hnew, hvdev⟩
  intro hempty
  -- The empty name is registered, and `strcmp` does not find it again.
  obtain ⟨ret, s', hexec, hsound⟩ := h ⟨fun _ => 0, 0⟩
  have hcheck : checkVdevName (fun _ => 0) name s = 0 := (checkLoop_eq_zero_iff hgood.nonempty _ _ _).mpr hnew
  rw [exec_passes hpasses, if_neg (Nat.not_le.mpr hlen), if_neg (not_or.mpr ⟨not_not.mpr hcheck, hvdev⟩)] at hexec
  cases hexec
  have hfound := hsound.map.found (c.entry name) List.mem_cons_self (fun _ => some 1) fun _ => 1
  have hlost : vdevGetRootInode (fun _ => some 1) (fun _ => 1) name (s.register c name) = NULL := by
    show rootLoop _ _ name 0 (c.entry name :: s.list) = NULL
    have hone : strcmp 1 name (c.entry name).name ≠ 0 := by
      rw [show (c.entry name).name = name from rfl, hempty]
      decide
    unfold rootLoop
    rw [if_neg hone]
    exact rootLoop_absent hgood.nonempty _ _ hnew 1
  have hroot : (c.entry name).root (fun _ => some 1) ≠ NULL := by
    obtain ⟨-, hkind, -⟩ := hpasses
    cases c with
    | addDev name' inode mountable isDev newDevName newVdev =>
        simpa [VDev.root, Call.entry, Call.fs, Call.devInode] using hkind.1
    | addFs name' fs newDevName newVdev =>
        have hfs : fs ≠ NULL := hkind
        simp [VDev.root, Call.entry, Call.fs, hfs]
        decide
  exact hroot (hfound.symm.trans hlost)

end Calls

/-! ### Runs -/

section Runs

variable {cs cs' : List Call} {s s' : Registry}

theorem Runs.good (h : Runs cs s) : Good s := by
  induction h with
  | init => exact ⟨List.nodup_nil, fun _ h => absurd h List.not_mem_nil, rfl⟩
  | @call cs s s' c unset ret _ hclean hexec ih =>
      cases hclean.exec ih unset with
      | inl hrefused =>
          obtain ⟨_, _, _, hexec'⟩ := hrefused
          cases hexec.symm.trans hexec'
          exact ih
      | inr hregistered =>
          obtain ⟨name, _, _, hexec', hgood⟩ := hregistered
          cases hexec.symm.trans hexec'
          exact hgood

/-- The entries are those of the calls that have passed the checks. -/
theorem Runs.mem_list (h : Runs cs s) (v : VDev) : v ∈ s.list ↔ ∃ c ∈ cs, c.Passes v.name ∧ v = c.entry v.name := by
  induction h with
  | init => simp [Registry.init]
  | @call cs s s' c unset ret hruns hclean hexec ih =>
      simp only [List.mem_append, List.mem_singleton, or_and_right, exists_or, exists_eq_left]
      rw [← ih]
      cases hclean.exec hruns.good unset with
      | inl hrefused =>
          obtain ⟨_, _, hpasses, hexec'⟩ := hrefused
          cases hexec.symm.trans hexec'
          exact (or_iff_left fun hnot => hpasses _ hnot.1).symm
      | inr hregistered =>
          obtain ⟨name, hpasses, _, hexec', _⟩ := hregistered
          cases hexec.symm.trans hexec'
          have hname : ∀ other, c.Passes other → other = name := fun other hother =>
            Option.some.inj (hother.1.symm.trans hpasses.1)
          show v ∈ c.entry name :: s.list ↔ _
          rw [List.mem_cons, or_comm]
          apply or_congr_right
          constructor
          · intro heq
            rw [heq]
            exact ⟨hpasses, rfl⟩
          · intro h
            rw [hname _ h.1] at h
            exact h.2

/-- The order of the calls does not matter. -/
theorem Runs.order (h : Runs cs s) (h' : Runs cs' s') (hperm : cs.Perm cs') (getRootInode : U32 → Option U32)
    (unset unset' : Nat → Int) (name : CString) :
    vdevGetRootInode getRootInode unset name s = vdevGetRootInode getRootInode unset' name s' := by
  have hmem : ∀ v, v ∈ s.list ↔ v ∈ s'.list := by
    intro v
    rw [h.mem_list, h'.mem_list]
    simp only [hperm.mem_iff]
  have hmap := h.good.isMap
  have hmap' := h'.good.isMap
  by_cases hname : name ∈ s.names
  · obtain ⟨v, hv, rfl⟩ := List.mem_map.mp hname
    rw [hmap.found v hv, hmap'.found v ((hmem v).mp hv)]
  · have hname' : name ∉ s'.names := by
      intro hin
      obtain ⟨v, hv, rfl⟩ := List.mem_map.mp hin
      exact hname (List.mem_map_of_mem ((hmem v).mpr hv))
    rw [hmap.absent name hname, hmap'.absent name hname']

end Runs

/-- In every run of clean calls the registry is a finite map from the names of the calls to their inodes, which does
not depend on the order of the calls.  And the clean calls are those that are sound whatever the source leaves open. -/
theorem registry_iff (cs : List Call) (s : Registry) (hruns : Runs cs s) :
    IsMap s ∧ (∀ v, v ∈ s.list ↔ ∃ c ∈ cs, c.Passes v.name ∧ v = c.entry v.name) ∧
      (∀ cs' s', Runs cs' s' → cs.Perm cs' → ∀ getRootInode unset unset' name,
        vdevGetRootInode getRootInode unset name s = vdevGetRootInode getRootInode unset' name s') ∧
      ∀ c, Clean s c ↔ ∀ unset, ∃ ret s', c.exec unset s = .ok (ret, s') ∧ Sound s c ret s' := by
  have hgood := hruns.good
  refine ⟨hgood.isMap, hruns.mem_list, fun cs' s' hruns' hperm => hruns.order hruns' hperm, fun c => ?_⟩
  exact ⟨fun hclean => hclean.sound hgood, clean_of_sound hgood⟩

/-! ### A device with the name of another -/

/-- `hd`, as a string. -/
def hdName : CString := ⟨[0x68, 0x64], by decide⟩

/-- The first device of this name, and another one. -/
def hdCall : Call := .addDev (some hdName) 0xC0300000 true true 0xC0301000 0xC0302000
@[inherit_doc hdCall] def otherCall : Call := .addDev (some hdName) 0xC0310000 true true 0xC0311000 0xC0312000

/-- After the first call. -/
def hdRegistry : Registry := Registry.init.register hdCall hdName

theorem hdRegistry_runs : Runs [hdCall] hdRegistry := by
  have hclean : Clean .init hdCall := by
    intro name hpasses
    obtain rfl : hdName = name := Option.some.inj hpasses.1
    exact ⟨by decide, by decide, List.not_mem_nil, by decide⟩
  have hexec : hdCall.exec ⟨fun _ => 0, 0⟩ .init = .ok (0, hdRegistry) := rfl
  exact .call .init hclean hexec

/-- `stdin`, as a string. -/
def stdinName : CString := ⟨[0x73, 0x74, 0x64, 0x69, 0x6E], by decide⟩

/-- A call without an inode, and a device of another name. -/
def noInodeCall : Call := .addDev (some stdinName) NULL false true 0xC0321000 0xC0322000
@[inherit_doc noInodeCall] def stdinCall : Call := .addDev (some stdinName) 0xC0320000 false true 0xC0321000 0xC0322000

/-- After all three calls. -/
def twoDevices : Registry := hdRegistry.register stdinCall stdinName

theorem twoDevices_runs : Runs [hdCall, noInodeCall, stdinCall] twoDevices := by
  have hrefused : Clean hdRegistry noInodeCall := by
    intro name hpasses
    exact absurd rfl hpasses.2.1.1
  have hclean : Clean hdRegistry stdinCall := by
    intro name hpasses
    obtain rfl : stdinName = name := Option.some.inj hpasses.1
    exact ⟨by decide, by decide, by decide, by decide⟩
  have hexec : noInodeCall.exec ⟨fun _ => 0, 0⟩ hdRegistry = .ok (VDEV_TYPE_ERR, hdRegistry) := rfl
  have hexec' : stdinCall.exec ⟨fun _ => 0, 0⟩ hdRegistry = .ok (0, twoDevices) := rfl
  exact .call (.call hdRegistry_runs hrefused hexec) hclean hexec'

/-- Two devices are registered, with a call in between that is refused.  Both are found. -/
theorem registry_iff_two : IsMap twoDevices ∧
    vdevGetRootInode (fun _ => none) (fun _ => 0) hdName twoDevices = 0xC0300000 ∧
    vdevGetRootInode (fun _ => none) (fun _ => 0) stdinName twoDevices = 0xC0320000 ∧
    noInodeCall.entry stdinName ∉ twoDevices.list := by
  obtain ⟨hmap, hmem, -⟩ := registry_iff [hdCall, noInodeCall, stdinCall] twoDevices twoDevices_runs
  have hhd : hdCall.entry hdName ∈ twoDevices.list := (hmem _).mpr ⟨hdCall, by simp, ⟨rfl, ⟨by decide, rfl⟩, by decide⟩, rfl⟩
  have hstdin : stdinCall.entry stdinName ∈ twoDevices.list :=
    (hmem _).mpr ⟨stdinCall, by simp, ⟨rfl, ⟨by decide, rfl⟩, by decide⟩, rfl⟩
  refine ⟨hmap, hmap.found _ hhd (fun _ => none) fun _ => 0, hmap.found _ hstdin (fun _ => none) fun _ => 0, ?_⟩
  intro hlist
  obtain ⟨c, hc, hpasses, hentry⟩ := (hmem _).mp hlist
  have hinode : c.devInode = NULL := (congrArg VDev.inode hentry).symm
  simp only [List.mem_cons, List.not_mem_nil, or_false] at hc
  rcases hc with rfl | rfl | rfl
  · exact absurd hinode (by decide)
  · exact hpasses.2.1.1 rfl
  · exact absurd hinode (by decide)

/-- The second call is refused, and it may return `VDEV_OK`. -/
theorem same_name_returns_ok : ∃ unset s', Runs [hdCall] hdRegistry ∧ otherCall.Refused hdRegistry ∧
    otherCall.exec unset hdRegistry = .ok (0, s') ∧ ¬ Sound hdRegistry otherCall 0 s' := by
  have hrefused : otherCall.Refused hdRegistry := .inr (.inr (.inl ⟨hdName, rfl, List.mem_cons_self⟩))
  refine ⟨⟨fun _ => 1, 0⟩, hdRegistry, hdRegistry_runs, hrefused, rfl, ?_⟩
  intro hsound
  exact (hsound.refused hrefused).1 rfl

end Vdev
end FreakOS
