import FreakOS.Lib.Fifo

/-!
# Counting semaphores that hand over

A semaphore whose release does not increment the count while somebody waits, but gives its unit to the first that waits.
Nobody can then take a unit that has been handed over: it is never in the count.

* `HandOff.Step`, `HandOff.Run` — the semaphore and what happens to it.
* `Run.fifo` — who has to wait is handed a unit in the order of arrival.
* `Run.takes_le` — after a unit has been handed over, only units that are put back later can be taken.
-/

namespace FreakOS
namespace Lib

/-- A count and who waits. -/
structure HandOff (α : Type*) where
  count : Int
  queue : List α

namespace HandOff

/-- What happens to the semaphore. -/
inductive Event (α : Type*) where
  /-- A unit is taken from the count. -/
  | take (a : α)
  /-- There is no unit, and `a` joins the queue. -/
  | wait (a : α)
  /-- A unit is released, and handed to the first in the queue. -/
  | hand (a : α)
  /-- A unit is released while nobody waits. -/
  | deposit
deriving DecidableEq

section Events

variable {α : Type*}

/-- Who has joined the queue. -/
def waits (es : List (Event α)) : List α := es.filterMap fun
  | .wait a => some a
  | _ => none

/-- Who has been handed a unit. -/
def hands (es : List (Event α)) : List α := es.filterMap fun
  | .hand a => some a
  | _ => none

/-- Who has taken a unit from the count. -/
def takes (es : List (Event α)) : List α := es.filterMap fun
  | .take a => some a
  | _ => none

/-- How many units have been put into the count. -/
def deposits (es : List (Event α)) : Nat := es.countP fun
  | .deposit => true
  | _ => false

@[simp] theorem waits_append (es fs : List (Event α)) : waits (es ++ fs) = waits es ++ waits fs :=
  List.filterMap_append

@[simp] theorem hands_append (es fs : List (Event α)) : hands (es ++ fs) = hands es ++ hands fs :=
  List.filterMap_append

@[simp] theorem takes_append (es fs : List (Event α)) : takes (es ++ fs) = takes es ++ takes fs :=
  List.filterMap_append

@[simp] theorem deposits_append (es fs : List (Event α)) : deposits (es ++ fs) = deposits es + deposits fs :=
  List.countP_append

/-- One event. -/
inductive Step (s : HandOff α) : Event α → HandOff α → Prop
  | take (a : α) (hcount : 0 < s.count) : Step s (.take a) { s with count := s.count - 1 }
  | wait (a : α) (hcount : ¬ 0 < s.count) : Step s (.wait a) { s with queue := s.queue ++ [a] }
  | hand {a : α} {rest : List α} (hqueue : s.queue = a :: rest) : Step s (.hand a) { s with queue := rest }
  | deposit (hqueue : s.queue = []) : Step s .deposit { s with count := s.count + 1 }

/-- A sequence of events. -/
inductive Run (s : HandOff α) : List (Event α) → HandOff α → Prop
  | nil : Run s [] s
  | snoc {es : List (Event α)} {e : Event α} {t u : HandOff α} (hrun : Run s es t) (hstep : Step t e u) :
      Run s (es ++ [e]) u

variable {s t u : HandOff α} {e : Event α} {es fs : List (Event α)} {a : α}

theorem Run.append (hrun : Run s es t) (hrest : Run t fs u) : Run s (es ++ fs) u := by
  induction hrest with
  | nil => rwa [List.append_nil]
  | snoc _ hstep ih =>
      rw [← List.append_assoc]
      exact .snoc ih hstep

theorem Step.fifo (hstep : Step s e t) : Fifo s.queue (waits [e]) (hands [e]) t.queue := by
  cases hstep with
  | take a hcount => exact Fifo.refl s.queue
  | wait a hcount => exact Fifo.push s.queue [a]
  | @hand a rest hqueue =>
      rw [hqueue]
      exact Fifo.pop a rest
  | deposit hqueue => exact Fifo.refl s.queue

/-- Who has to wait is handed a unit in the order of arrival. -/
theorem Run.fifo (hrun : Run s es t) : Fifo s.queue (waits es) (hands es) t.queue := by
  induction hrun with
  | nil => exact Fifo.refl s.queue
  | snoc hrun hstep ih =>
      rw [waits_append, hands_append]
      exact ih.trans hstep.fifo

/-- Nobody waits while there are units. -/
def Excl (s : HandOff α) : Prop := 0 < s.count → s.queue = []

theorem Step.excl (hstep : Step s e t) (h : s.Excl) : t.Excl := by
  intro hpos
  cases hstep with
  | take a hcount => exact h hcount
  | wait a hcount => exact absurd hpos hcount
  | hand hqueue =>
      have hnil := h hpos
      rw [hqueue] at hnil
      exact absurd hnil (List.cons_ne_nil _ _)
  | deposit hqueue => exact hqueue

theorem Run.excl (hrun : Run s es t) (h : s.Excl) : t.Excl := by
  induction hrun with
  | nil => exact h
  | snoc hrun hstep ih => exact hstep.excl ih

/-- There is no unit in the count when one is handed over, and it is not put there. -/
theorem Step.count_of_hand (hstep : Step s (.hand a) t) (h : s.Excl) : t.count ≤ 0 := by
  cases hstep with
  | hand hqueue =>
      by_contra hpos
      have hnil := h (not_le.mp hpos)
      rw [hqueue] at hnil
      exact List.cons_ne_nil _ _ hnil

theorem Step.takes_le (hstep : Step s e t) :
    ((takes [e]).length : Int) + max t.count 0 ≤ deposits [e] + max s.count 0 := by
  cases hstep with
  | take a hcount =>
      have htakes : (takes [Event.take a]).length = 1 := rfl
      dsimp only
      omega
  | wait a hcount => exact le_refl _
  | hand hqueue => exact le_refl _
  | deposit hqueue =>
      have htakes : (takes [Event.deposit (α := α)]).length = 0 := rfl
      have hdeposits : deposits [Event.deposit (α := α)] = 1 := rfl
      dsimp only
      omega

/-- With no unit in the count, only units that are put back later can be taken. -/
theorem Run.takes_le (hrun : Run s es t) (hcount : s.count ≤ 0) : (takes es).length ≤ deposits es := by
  have hall : ((takes es).length : Int) + max t.count 0 ≤ deposits es + max s.count 0 := by
    clear hcount
    induction hrun with
    | nil => exact le_refl _
    | snoc hrun hstep ih =>
        have hlast := hstep.takes_le
        rw [takes_append, deposits_append, List.length_append]
        push_cast
        omega
  omega

/-- A run is cut at each of its events. -/
theorem Run.cut (hrun : Run s (es ++ e :: fs) t) : ∃ u w, Run s es u ∧ Step u e w ∧ Run w fs t := by
  induction fs using List.reverseRecOn generalizing t with
  | nil =>
      generalize hall : es ++ [e] = all at hrun
      cases hrun with
      | nil => simp at hall
      | snoc hrun hstep =>
          obtain ⟨rfl, heq⟩ := List.append_inj' hall rfl
          obtain rfl := List.head_eq_of_cons_eq heq
          exact ⟨_, t, hrun, hstep, .nil⟩
  | append_singleton fs f ih =>
      generalize hall : es ++ e :: (fs ++ [f]) = all at hrun
      cases hrun with
      | nil => simp at hall
      | snoc hrun hstep =>
          rw [← List.cons_append, ← List.append_assoc] at hall
          obtain ⟨rfl, heq⟩ := List.append_inj' hall rfl
          obtain rfl := List.head_eq_of_cons_eq heq
          obtain ⟨x, y, hbefore, hcut, hafter⟩ := ih hrun
          exact ⟨x, y, hbefore, hcut, .snoc hafter hstep⟩

/-- **Nobody can take a unit that has been handed over.**  After it only units that are put back later are taken. -/
theorem Run.takes_le_of_hand (hrun : Run s (es ++ .hand a :: fs) t) (h : s.Excl) :
    (takes fs).length ≤ deposits fs := by
  obtain ⟨u, w, hbefore, hhand, hafter⟩ := hrun.cut
  exact hafter.takes_le (hhand.count_of_hand (hbefore.excl h))

end Events

end HandOff

end Lib
end FreakOS
