import Mathlib.Data.List.Count
import Mathlib.Data.List.Infix
import Mathlib.Tactic

/-!
# Ledgers of what is acquired and released

A ledger is the list of the entries that a program has made, each an acquisition or a release of something.
`settle held log` is what is held after the entries of `log`; it is `none` if something is released that is
not held.

* `settle_append` — a ledger is settled piece by piece.
* `settle_count` — what has been acquired is held or has been released.
* `Settled.count_eq`, `Settled.prefix_le` — nothing is left over, and nothing is released twice or too early.
-/

namespace FreakOS
namespace Lib

/-- An entry of a ledger. -/
inductive Entry (α : Type) where
  | acquire (a : α)
  | release (a : α)
deriving DecidableEq, Repr

namespace Ledger

variable {α : Type} [DecidableEq α]

/-- What is held after the entries of a ledger. -/
def settle : List α → List (Entry α) → Option (List α)
  | held, [] => some held
  | held, .acquire a :: rest => settle (a :: held) rest
  | held, .release a :: rest => if a ∈ held then settle (held.erase a) rest else none

/-- Everything that has been acquired has been released. -/
def Settled (log : List (Entry α)) : Prop := settle [] log = some []

@[simp] theorem settle_nil (held : List α) : settle held [] = some held := rfl

theorem settle_append (held : List α) (xs ys : List (Entry α)) :
    settle held (xs ++ ys) = (settle held xs).bind fun mid => settle mid ys := by
  induction xs generalizing held with
  | nil => rfl
  | cons e rest ih =>
      cases e with
      | acquire a => exact ih (a :: held)
      | release a =>
          simp only [List.cons_append, settle]
          split
          · exact ih (held.erase a)
          · rfl

/-- One more acquisition. -/
theorem settle_acquire {held mid : List α} {log : List (Entry α)} (h : settle held log = some mid) (a : α) :
    settle held (log ++ [.acquire a]) = some (a :: mid) := by
  rw [settle_append, h]
  rfl

/-- The last thing that was acquired can be released. -/
theorem settle_release {held mid : List α} {log : List (Entry α)} {a : α}
    (h : settle held log = some (a :: mid)) : settle held (log ++ [.release a]) = some mid := by
  rw [settle_append, h]
  show (if a ∈ a :: mid then settle ((a :: mid).erase a) [] else none) = some mid
  rw [if_pos (List.mem_cons_self ..), List.erase_cons_head]
  rfl

theorem settle_count {held held' : List α} {log : List (Entry α)} (h : settle held log = some held') (a : α) :
    held.count a + log.count (.acquire a) = held'.count a + log.count (.release a) := by
  induction log generalizing held with
  | nil =>
      obtain rfl := Option.some.inj h
      simp
  | cons e rest ih =>
      cases e with
      | acquire b =>
          have hrest := ih h
          by_cases hab : b = a
          · subst hab
            rw [List.count_cons_self] at hrest
            rw [List.count_cons_self, List.count_cons_of_ne (by simp)]
            omega
          · rw [List.count_cons_of_ne hab] at hrest
            rw [List.count_cons_of_ne (by simpa using hab), List.count_cons_of_ne (by simp)]
            exact hrest
      | release b =>
          unfold settle at h
          split at h
          · rename_i hmem
            have hrest := ih h
            by_cases hab : b = a
            · subst hab
              have hpos := List.count_pos_iff.mpr hmem
              rw [List.count_erase_self] at hrest
              rw [List.count_cons_self, List.count_cons_of_ne (by simp)]
              omega
            · rw [List.count_erase_of_ne (Ne.symm hab)] at hrest
              rw [List.count_cons_of_ne (by simp), List.count_cons_of_ne (by simpa using hab)]
              exact hrest
          · simp at h

theorem Settled.count_eq {log : List (Entry α)} (h : Settled log) (a : α) :
    log.count (.acquire a) = log.count (.release a) := by
  have := settle_count h a
  simpa using this

/-- At no time has something been released more often than acquired. -/
theorem Settled.prefix_le {log pre : List (Entry α)} (h : Settled log) (hpre : pre <+: log) (a : α) :
    pre.count (.release a) ≤ pre.count (.acquire a) := by
  obtain ⟨post, rfl⟩ := hpre
  unfold Settled at h
  rw [settle_append] at h
  obtain ⟨mid, hmid, -⟩ := Option.bind_eq_some_iff.mp h
  have := settle_count hmid a
  simp only [List.count_nil] at this
  omega

end Ledger

end Lib
end FreakOS
