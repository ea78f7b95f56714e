import Mathlib.Data.List.TakeWhile
import Mathlib.Tactic

/-!
# Strings with a terminator

A string is a list of bytes without `0`.  In memory a `0` stands behind it.

* `CString` — strings.
* `text` — the string at the begin of some memory.
* `Carries` — some memory begins with a string and its terminator.
-/

namespace FreakOS
namespace Lib

/-- A byte of a string. -/
abbrev Char8 := BitVec 8

/-- A string, without its terminator. -/
structure CString where
  bytes : List Char8
  no_nul : 0 ∉ bytes
deriving DecidableEq

namespace CString

@[ext] theorem ext {s t : CString} (h : s.bytes = t.bytes) : s = t := by
  cases s
  cases t
  cases h
  rfl

/-- The empty string. -/
def empty : CString := ⟨[], List.not_mem_nil⟩

theorem eq_empty_iff {s : CString} : s = empty ↔ s.bytes = [] := by
  constructor
  · intro h
    rw [h]
    rfl
  · exact fun h => ext h

/-- The bytes before the first `0` of some memory. -/
def text (mem : List Char8) : CString where
  bytes := mem.takeWhile fun c => c ≠ 0
  no_nul := fun h => by simpa using List.mem_takeWhile_imp h

/-- Some memory begins with a string and its terminator. -/
def Carries (mem : List Char8) (s : CString) : Prop := ∃ rest, mem = s.bytes ++ 0 :: rest

theorem text_carries {mem : List Char8} {s : CString} (h : Carries mem s) : text mem = s := by
  obtain ⟨rest, rfl⟩ := h
  have hall : ∀ c ∈ s.bytes, decide (c ≠ 0) = true := by
    intro c hc
    refine decide_eq_true fun hzero => s.no_nul ?_
    rwa [← hzero]
  apply ext
  show (s.bytes ++ 0 :: rest).takeWhile _ = s.bytes
  rw [List.takeWhile_append_of_pos hall, List.takeWhile_cons_of_neg (by simp), List.append_nil]

end CString

end Lib
end FreakOS
