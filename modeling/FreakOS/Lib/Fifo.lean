import Mathlib.Data.List.Infix
import Mathlib.Data.List.Nodup
import Mathlib.Tactic

/-!
# First come, first served

A queue is joined at its end and left at its head.  `Fifo q ins outs q'` says that `q` has become `q'` while `ins` have
joined and `outs` have left, both in this order.

* `Fifo.push`, `Fifo.pop`, `Fifo.trans` — the two operations, and one after the other.
* `Fifo.position`, `Fifo.served` — an element moves forward by one place with each that leaves, and leaves in its turn.
* `Fifo.nodup_outs` — while an element waits, nobody leaves twice.
-/

namespace FreakOS
namespace Lib

/-- `q` has become `q'`; `ins` have joined at the end, `outs` have left at the head. -/
def Fifo {α : Type*} (q ins outs q' : List α) : Prop := q ++ ins = outs ++ q'

namespace Fifo

variable {α : Type*} {q q' q'' ins ins' outs outs' : List α} {a : α} {i : Nat}

theorem refl (q : List α) : Fifo q [] [] q := List.append_nil q

theorem push (q ins : List α) : Fifo q ins [] (q ++ ins) := rfl

theorem pop (a : α) (q : List α) : Fifo (a :: q) [] [a] q := List.append_nil (a :: q)

/-- One queue after the other. -/
theorem trans (h : Fifo q ins outs q') (h' : Fifo q' ins' outs' q'') : Fifo q (ins ++ ins') (outs ++ outs') q'' := by
  unfold Fifo at h h' ⊢
  calc q ++ (ins ++ ins') = (q ++ ins) ++ ins' := (List.append_assoc ..).symm
    _ = outs ++ (q' ++ ins') := by rw [h, List.append_assoc]
    _ = (outs ++ outs') ++ q'' := by rw [h', List.append_assoc]

/-- Who leaves was in the queue or has joined it, and leaves in this order. -/
theorem outs_prefix (h : Fifo q ins outs q') : outs <+: q ++ ins := ⟨q', h.symm⟩

/-- Each that leaves moves the others forward by one place. -/
theorem position (h : Fifo q ins outs q') (hi : q[i]? = some a) (hout : outs.length ≤ i) :
    q'[i - outs.length]? = some a := by
  have hlt := (List.getElem?_eq_some_iff.mp hi).1
  have hread : (q ++ ins)[i]? = some a := (List.getElem?_append_left hlt).trans hi
  rwa [show q ++ ins = outs ++ q' from h, List.getElem?_append_right hout] at hread

/-- An element leaves in its turn. -/
theorem served (h : Fifo q ins outs q') (hi : q[i]? = some a) (hout : i < outs.length) : outs[i]? = some a := by
  have hlt := (List.getElem?_eq_some_iff.mp hi).1
  have hread : (q ++ ins)[i]? = some a := (List.getElem?_append_left hlt).trans hi
  rwa [show q ++ ins = outs ++ q' from h, List.getElem?_append_left hout] at hread

/-- Until the queue has been served, only who was in it at the start leaves. -/
theorem outs_prefix_queue (h : Fifo q ins outs q') (hlen : outs.length ≤ q.length) : outs <+: q :=
  List.prefix_of_prefix_length_le h.outs_prefix (List.prefix_append q ins) hlen

theorem nodup_outs (h : Fifo q ins outs q') (hnodup : q.Nodup) (hlen : outs.length ≤ q.length) : outs.Nodup :=
  hnodup.sublist (h.outs_prefix_queue hlen).sublist

end Fifo

end Lib
end FreakOS
