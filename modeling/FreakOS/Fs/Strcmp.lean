import FreakOS.Fs.FatInodes
import FreakOS.Fs.Vdev

/-!
# What `strcmp` tells

`strcmp` of `string.h` on memory, and the search for an internal path in `fat_inode.c`, which goes by it.  The variable
that `strcmp` returns has no value before its loop, so what it holds there is an argument.

* `strcmp` — it stops with a fault where it reads behind the memory that it is given.
* `Decides` — what `strcmp` is to do with two strings.
* `strcmp_decides_iff` — two strings of which one is not empty, and the searches that find the equal string.
-/

namespace FreakOS
namespace Strings

open Lib

/-- The loop of `strcmp`, from two places in memory on.  Each round reads a byte at both. -/
def strcmpLoop : List Char8 → List Char8 → Int → Res Int
  | c :: str1, d :: str2, ret =>
      if c ≠ 0 ∨ d ≠ 0 then
        if c.toInt - d.toInt = 0 then strcmpLoop str1 str2 0 else .ok (c.toInt - d.toInt)
      else .ok ret
  | _, _, _ => .error .wildPointer

/-- `strcmp(str1, str2)`. -/
def strcmp (unset : Int) (str1 str2 : List Char8) : Res Int := strcmpLoop str1 str2 unset

/-- A string in memory, with nothing behind it that may be read. -/
def inMemory (s : CString) : List Char8 := s.bytes ++ [0]

/-- What `strcmp` may return. -/
def Returns (str1 str2 : CString) (ret : Int) : Prop := ∃ unset, strcmp unset (inMemory str1) (inMemory str2) = .ok ret

/-- The first place at which two strings differ, their terminators among the bytes. -/
def FirstDiffer (str1 str2 : CString) (c d : Char8) : Prop :=
  c ≠ d ∧ ∃ begin rest1 rest2, inMemory str1 = begin ++ c :: rest1 ∧ inMemory str2 = begin ++ d :: rest2

/-- `strcmp` decides whether two strings are equal. -/
structure Decides (str1 str2 : CString) : Prop where
  /-- It returns without a byte behind the terminators, and does not depend on those. -/
  reads : ∀ unset rest1 rest2, ∃ ret, strcmp unset (inMemory str1) (inMemory str2) = .ok ret ∧
    strcmp unset (inMemory str1 ++ rest1) (inMemory str2 ++ rest2) = .ok ret
  zero : ∀ ret, Returns str1 str2 ret → (ret = 0 ↔ str1 = str2)
  sign : ∀ ret, Returns str1 str2 ret → str1 ≠ str2 →
    ∃ c d, FirstDiffer str1 str2 c d ∧ ret.sign = (c.toInt - d.toInt).sign
  antisymm : ∀ ret ret', Returns str1 str2 ret → Returns str2 str1 ret' → ret'.sign = -ret.sign

/-- The loop of `find_list_fatinode_with_internal_path_nolock`; `unset` has a value for each call of `strcmp`. -/
def findListLoop {α : Type} (internalPath : α → CString) (inpath : CString) (unset : Nat → Int) :
    Nat → List α → Res (Option α)
  | _, [] => .ok none
  | i, tempi :: rest => do
      let ret ← strcmp (unset i) (inMemory (internalPath tempi)) (inMemory inpath)
      if ret = 0 then return some tempi else findListLoop internalPath inpath unset (i + 1) rest

/-- `find_list_fatinode_with_internal_path_nolock(fatfs, inpath)`, on the list of `fatfs`. -/
def findListFatinodeWithInternalPath {α : Type} (internalPath : α → CString) (unset : Nat → Int)
    (inodeList : Option (List α)) (inpath : Option CString) : Res (Option α) :=
  match inodeList, inpath with
  | some inodeList, some inpath => findListLoop internalPath inpath unset 0 inodeList
  | _, _ => .ok none

/-- The search finds the first element with this path, and nothing if there is none. -/
def FindsEqual {α : Type} (internalPath : α → CString) (list : List α) (inpath : CString) : Prop :=
  ∀ unset, findListFatinodeWithInternalPath internalPath unset (some list) (some inpath) =
    .ok (list.find? fun x => internalPath x = inpath)

section Loop

variable {str1 str2 : List Char8}

theorem toInt_sub_eq_zero (c d : Char8) : c.toInt - d.toInt = 0 ↔ c = d := by
  rw [sub_eq_zero, BitVec.toInt_inj]

/-- The loop does not come to the bytes behind the terminators. -/
theorem strcmpLoop_terminated (h1 : 0 ∉ str1) (h2 : 0 ∉ str2) (rest1 rest2 : List Char8) (ret : Int) :
    strcmpLoop (str1 ++ 0 :: rest1) (str2 ++ 0 :: rest2) ret = .ok (Vdev.strcmpLoop str1 str2 ret) := by
  induction str1 generalizing str2 ret with
  | nil =>
      cases str2 with
      | nil => rfl
      | cons d str2 =>
          have hd : d ≠ 0 := fun h => h2 (h ▸ List.mem_cons_self)
          have hne : ¬ (0 : Char8).toInt - d.toInt = 0 := fun h => hd ((toInt_sub_eq_zero 0 d).mp h).symm
          simp only [List.nil_append, List.cons_append, strcmpLoop]
          rw [if_pos (.inr hd), if_neg hne]
          simp [Vdev.strcmpLoop]
  | cons c str1 ih =>
      have hc : c ≠ 0 := fun h => h1 (h ▸ List.mem_cons_self)
      have hrest1 : 0 ∉ str1 := fun h => h1 (List.mem_cons_of_mem c h)
      cases str2 with
      | nil =>
          have hne : ¬ c.toInt - (0 : Char8).toInt = 0 := fun h => hc ((toInt_sub_eq_zero c 0).mp h)
          simp only [List.nil_append, List.cons_append, strcmpLoop]
          rw [if_pos (.inl hc), if_neg hne]
          simp [Vdev.strcmpLoop]
      | cons d str2 =>
          have hrest2 : 0 ∉ str2 := fun h => h2 (List.mem_cons_of_mem d h)
          simp only [List.cons_append, strcmpLoop, Vdev.strcmpLoop]
          rw [if_pos (.inl hc)]
          by_cases heq : c.toInt - d.toInt = 0
          · rw [if_pos heq, if_pos heq]
            exact ih hrest1 hrest2 0
          · rw [if_neg heq, if_neg heq]

/-- Strings that differ: the loop returns the difference at the first place. -/
theorem strcmpLoop_differ (h1 : 0 ∉ str1) (h2 : 0 ∉ str2) (hne : str1 ≠ str2) (ret : Int) :
    ∃ c d begin rest1 rest2, c ≠ d ∧ str1 ++ [0] = begin ++ c :: rest1 ∧ str2 ++ [0] = begin ++ d :: rest2 ∧
      Vdev.strcmpLoop str1 str2 ret = c.toInt - d.toInt := by
  induction str1 generalizing str2 ret with
  | nil =>
      cases str2 with
      | nil => exact absurd rfl hne
      | cons d str2 =>
          have hd : 0 ≠ d := fun h => h2 (h ▸ List.mem_cons_self)
          exact ⟨0, d, [], [], str2 ++ [0], hd, rfl, rfl, by simp [Vdev.strcmpLoop]⟩
  | cons c str1 ih =>
      cases str2 with
      | nil =>
          have hc : c ≠ 0 := fun h => h1 (h ▸ List.mem_cons_self)
          exact ⟨c, 0, [], str1 ++ [0], [], hc, rfl, rfl, by simp [Vdev.strcmpLoop]⟩
      | cons d str2 =>
          by_cases heq : c = d
          · subst heq
            have hrest1 : 0 ∉ str1 := fun h => h1 (List.mem_cons_of_mem c h)
            have hrest2 : 0 ∉ str2 := fun h => h2 (List.mem_cons_of_mem c h)
            have hrest : str1 ≠ str2 := fun h => hne (h ▸ rfl)
            obtain ⟨x, y, begin, rest1, rest2, hxy, hfirst, hsecond, hloop⟩ := ih hrest1 hrest2 hrest 0
            refine ⟨x, y, c :: begin, rest1, rest2, hxy, ?_, ?_, ?_⟩
            · rw [List.cons_append, hfirst, List.cons_append]
            · rw [List.cons_append, hsecond, List.cons_append]
            · unfold Vdev.strcmpLoop
              rw [if_pos (sub_self _)]
              exact hloop
          · refine ⟨c, d, [], str1 ++ [0], str2 ++ [0], heq, rfl, rfl, ?_⟩
            unfold Vdev.strcmpLoop
            rw [if_neg fun h => heq ((toInt_sub_eq_zero c d).mp h)]

/-- The other way round, the loop returns the opposite. -/
theorem strcmpLoop_swap (h1 : 0 ∉ str1) (h2 : 0 ∉ str2) (hne : str1 ≠ str2) (ret ret' : Int) :
    Vdev.strcmpLoop str2 str1 ret' = -Vdev.strcmpLoop str1 str2 ret := by
  induction str1 generalizing str2 ret ret' with
  | nil =>
      cases str2 with
      | nil => exact absurd rfl hne
      | cons d str2 => simp [Vdev.strcmpLoop]
  | cons c str1 ih =>
      cases str2 with
      | nil => simp [Vdev.strcmpLoop]
      | cons d str2 =>
          unfold Vdev.strcmpLoop
          by_cases heq : c = d
          · subst heq
            rw [if_pos (sub_self _), if_pos (sub_self _)]
            exact ih (fun h => h1 (List.mem_cons_of_mem c h)) (fun h => h2 (List.mem_cons_of_mem c h))
              (fun h => hne (h ▸ rfl)) 0 0
          · rw [if_neg fun h => heq ((toInt_sub_eq_zero c d).mp h),
              if_neg fun h => heq ((toInt_sub_eq_zero d c).mp h).symm, neg_sub]

end Loop

section Strings

variable {s t : CString}

/-- On memory, `strcmp` is what it is on strings. -/
theorem strcmp_inMemory (s t : CString) (rest1 rest2 : List Char8) (unset : Int) :
    strcmp unset (inMemory s ++ rest1) (inMemory t ++ rest2) = .ok (Vdev.strcmp unset s t) := by
  unfold inMemory
  rw [List.append_assoc, List.append_assoc]
  exact strcmpLoop_terminated s.no_nul t.no_nul rest1 rest2 unset

theorem strcmp_eq (s t : CString) (unset : Int) :
    strcmp unset (inMemory s) (inMemory t) = .ok (Vdev.strcmp unset s t) :=
  strcmpLoop_terminated s.no_nul t.no_nul [] [] unset

theorem returns_iff {ret : Int} : Returns s t ret ↔ ∃ unset, ret = Vdev.strcmp unset s t := by
  unfold Returns
  simp only [strcmp_eq, Except.ok.injEq, eq_comm]

/-- Two empty strings: the variable is returned as it is. -/
theorem strcmp_empty (unset : Int) : Vdev.strcmp unset .empty .empty = unset := rfl

theorem strcmp_zero_iff (h : ¬ (s = .empty ∧ t = .empty)) (unset : Int) : Vdev.strcmp unset s t = 0 ↔ s = t := by
  unfold Vdev.strcmp
  rw [Vdev.strcmpLoop_eq_zero_iff s.no_nul t.no_nul, ← CString.ext_iff]
  constructor
  · exact And.left
  · intro heq
    subst heq
    exact ⟨rfl, fun hnil => absurd (CString.eq_empty_iff.mpr hnil) fun hempty => h ⟨hempty, hempty⟩⟩

theorem decides_of_nonempty (h : ¬ (s = .empty ∧ t = .empty)) : Decides s t := by
  have hne : s ≠ t → s.bytes ≠ t.bytes := fun hst heq => hst (CString.ext heq)
  constructor
  · exact fun unset rest1 rest2 => ⟨_, strcmp_eq s t unset, strcmp_inMemory s t rest1 rest2 unset⟩
  · intro ret hret
    obtain ⟨unset, rfl⟩ := returns_iff.mp hret
    exact strcmp_zero_iff h unset
  · intro ret hret hst
    obtain ⟨unset, rfl⟩ := returns_iff.mp hret
    obtain ⟨c, d, begin, rest1, rest2, hcd, hs, ht, hloop⟩ :=
      strcmpLoop_differ s.no_nul t.no_nul (hne hst) unset
    exact ⟨c, d, ⟨hcd, begin, rest1, rest2, hs, ht⟩, congrArg Int.sign hloop⟩
  · intro ret ret' hret hret'
    obtain ⟨unset, rfl⟩ := returns_iff.mp hret
    obtain ⟨unset', rfl⟩ := returns_iff.mp hret'
    by_cases hst : s = t
    · subst hst
      rw [(strcmp_zero_iff h unset).mpr rfl, (strcmp_zero_iff h unset').mpr rfl]
      rfl
    · have hswap : Vdev.strcmp unset' t s = -Vdev.strcmp unset s t :=
        strcmpLoop_swap s.no_nul t.no_nul (hne hst) unset unset'
      rw [hswap, Int.sign_neg]

theorem not_decides_empty : ¬ Decides .empty .empty := by
  intro h
  have hone : Returns .empty .empty 1 := returns_iff.mpr ⟨1, rfl⟩
  exact absurd ((h.zero 1 hone).mpr rfl) (by decide)

end Strings

section Search

variable {α : Type} {internalPath : α → CString} {inpath : CString} {list : List α}

theorem findListLoop_finds (h : ¬ (inpath = .empty ∧ ∃ x ∈ list, internalPath x = .empty)) (unset : Nat → Int) (i : Nat) :
    findListLoop internalPath inpath unset i list = .ok (list.find? fun x => internalPath x = inpath) := by
  induction list generalizing i with
  | nil => rfl
  | cons x rest ih =>
      have hx : ¬ (internalPath x = .empty ∧ inpath = .empty) :=
        fun hboth => h ⟨hboth.2, x, List.mem_cons_self, hboth.1⟩
      have hrest : ¬ (inpath = .empty ∧ ∃ y ∈ rest, internalPath y = .empty) := by
        intro hboth
        obtain ⟨y, hy, hempty⟩ := hboth.2
        exact h ⟨hboth.1, y, List.mem_cons_of_mem x hy, hempty⟩
      unfold findListLoop
      rw [strcmp_eq, Res.ok_bind]
      by_cases heq : internalPath x = inpath
      · rw [if_pos ((strcmp_zero_iff hx _).mpr heq), List.find?_cons_of_pos (by simpa using heq)]
        rfl
      · rw [if_neg fun hzero => heq ((strcmp_zero_iff hx _).mp hzero), List.find?_cons_of_neg (by simpa using heq)]
        exact ih hrest (i + 1)

/-- When each comparison of two empty strings gives 1, an empty path is not found. -/
theorem findListLoop_misses (i : Nat) : findListLoop internalPath .empty (fun _ => 1) i list = .ok none := by
  induction list generalizing i with
  | nil => rfl
  | cons x rest ih =>
      have hne : Vdev.strcmp 1 (internalPath x) .empty ≠ 0 := by
        by_cases hx : internalPath x = .empty
        · rw [hx, strcmp_empty]
          decide
        · exact fun hzero => hx ((strcmp_zero_iff (fun hboth => hx hboth.1) 1).mp hzero)
      unfold findListLoop
      rw [strcmp_eq, Res.ok_bind, if_neg hne]
      exact ih (i + 1)

theorem findsEqual_iff :
    FindsEqual internalPath list inpath ↔ ¬ (inpath = .empty ∧ ∃ x ∈ list, internalPath x = .empty) := by
  constructor
  · intro h hboth
    obtain ⟨rfl, x, hx, hempty⟩ := hboth
    have hnone := (findListLoop_misses 0).symm.trans (h fun _ => 1)
    rw [Except.ok.injEq, eq_comm, List.find?_eq_none] at hnone
    exact hnone x hx (by simpa using hempty)
  · exact fun h unset => findListLoop_finds h unset 0

/-- The search in the list of a volume, where the model compares paths. -/
theorem findInternalPath_eq (fs : Fat.FatFs) (path : Fat.FatInode → CString)
    (hpath : ∀ n ∈ fs.inodeList, (path n).bytes = n.internalPath) (hinpath : inpath ≠ .empty) (unset : Nat → Int) :
    findListFatinodeWithInternalPath path unset (some fs.inodeList) (some inpath) =
      .ok (fs.findInternalPath inpath.bytes) := by
  refine (findListLoop_finds (fun h => hinpath h.1) unset 0).trans (congrArg Except.ok ?_)
  unfold Fat.FatFs.findInternalPath
  refine List.find?_congr fun n hn => ?_
  rw [← hpath n hn]
  exact decide_eq_decide.mpr CString.ext_iff

end Search

/-- `strcmp` decides whether two strings are equal if and only if one of them is not empty, and a search by it finds
the equal string if and only if it does not compare two empty ones. -/
theorem strcmp_decides_iff {α : Type} (internalPath : α → CString) (list : List α) (str1 str2 : CString) :
    (Decides str1 str2 ↔ ¬ (str1 = .empty ∧ str2 = .empty)) ∧
      (FindsEqual internalPath list str2 ↔ ¬ (str2 = .empty ∧ ∃ x ∈ list, internalPath x = .empty)) := by
  refine ⟨⟨?_, decides_of_nonempty⟩, findsEqual_iff⟩
  intro h hboth
  obtain ⟨rfl, rfl⟩ := hboth
  exact not_decides_empty h

/-- Two empty strings may be told apart. -/
theorem strcmp_empty_unset : strcmp 1 [0] [0] = .ok 1 ∧ ¬ Decides .empty .empty := ⟨rfl, not_decides_empty⟩

end Strings
end FreakOS
