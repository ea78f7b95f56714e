import Mathlib.Tactic
import Mathlib.Logic.Relation

/-!
# Coroutines on one processor

Tasks `T` run coroutines by turns.  A state has a part that all tasks share, of type `π`, and one part for each task, of
type `ω`.  Only one task runs; it goes on until its coroutine switches to another one, and it can be interrupted between
two of its operations: a handler is then put before the rest of its coroutine.

* `Coroutine` — coroutines; what does not matter for the shared state is a choice.
* `Processor.Step` — one step of the running task, or an interrupt.
* `Coroutine.Safe` — what a coroutine does while it runs and when it is switched to again.
* `Processor.Inv` — all coroutines are safe; `Processor.Inv.of_steps` is its run lemma.
-/

namespace FreakOS
namespace Lib

/-- The state of all tasks: what they share, and the part of each of them. -/
@[ext]
structure Shared (T π ω : Type) where
  pub : π
  part : T → ω

/-- A coroutine that ends with an `α`; `ε` are the events that it reports. -/
inductive Coroutine (T π ω ε α : Type) : Type 1
  | ret (a : α)
  /-- An operation of the running task. -/
  | op {β : Type} (f : T → Shared T π ω → β × Shared T π ω) (next : β → Coroutine T π ω ε α)
  | emit (e : ε) (next : Coroutine T π ω ε α)
  | choose {β : Type} (next : β → Coroutine T π ω ε α)
  /-- The processor goes to the task `u`; the coroutine goes on when it is switched to again. -/
  | switch (u : T) (next : Coroutine T π ω ε α)
  /-- A new task is made, and `init` is its part. -/
  | spawn (init : T → ω) (next : T → Coroutine T π ω ε α)

namespace Coroutine

variable {T π ω ε α β : Type}

/-- One coroutine after the other. -/
def seq : Coroutine T π ω ε α → (α → Coroutine T π ω ε β) → Coroutine T π ω ε β
  | .ret a, k => k a
  | .op f next, k => .op f fun b => (next b).seq k
  | .emit e next, k => .emit e (next.seq k)
  | .choose next, k => .choose fun b => (next b).seq k
  | .switch u next, k => .switch u (next.seq k)
  | .spawn init next, k => .spawn init fun u => (next u).seq k

instance : Monad (Coroutine T π ω ε) where
  pure := .ret
  bind := seq

/-- An operation. -/
def lift (f : T → Shared T π ω → α × Shared T π ω) : Coroutine T π ω ε α := .op f .ret

/-- A report. -/
def report (e : ε) : Coroutine T π ω ε Unit := .emit e (.ret ())

/-- Any value. -/
def any (α : Type) : Coroutine T π ω ε α := .choose .ret

/-- The coroutine does not go on. -/
def halt : Coroutine T π ω ε α := .choose (β := Empty) fun b => b.elim

/-- Switch to `u`, and come back. -/
def switchTo (u : T) : Coroutine T π ω ε Unit := .switch u (.ret ())

/-- `n` rounds. -/
def rounds (body : Coroutine T π ω ε Unit) : Nat → Coroutine T π ω ε Unit
  | 0 => pure ()
  | n + 1 => do
      body
      rounds body n

/-- Any number of rounds. -/
def loop (body : Coroutine T π ω ε Unit) : Coroutine T π ω ε Unit := do
  let n ← any Nat
  rounds body n

end Coroutine

/-! ### The processor -/

/-- Where tasks begin, and what interrupts them: an interrupt `i` may come while the task `t` runs if `allowed i t` holds
of what is shared. -/
structure Rules (T π ω ε ι : Type) where
  start : Coroutine T π ω ε Unit
  handler : ι → Coroutine T π ω ε Unit
  allowed : ι → T → π → Prop

/-- The tasks with the rest of their coroutines, the one that runs, and what has been reported, last first. -/
structure Processor (T π ω ε : Type) where
  shared : Shared T π ω
  running : T
  code : T → Option (Coroutine T π ω ε Unit)
  log : List ε

namespace Processor

variable {T π ω ε ι : Type} [DecidableEq T]

/-- `t` goes on with `rest`. -/
def goOn (m : Processor T π ω ε) (rest : Coroutine T π ω ε Unit) : T → Option (Coroutine T π ω ε Unit) :=
  Function.update m.code m.running (some rest)

/-- One step. -/
inductive Step (rules : Rules T π ω ε ι) : Processor T π ω ε → Processor T π ω ε → Prop
  | op {m : Processor T π ω ε} {β : Type} {f : T → Shared T π ω → β × Shared T π ω} {next : β → Coroutine T π ω ε Unit}
      (h : m.code m.running = some (.op f next)) :
      Step rules m { m with
        shared := (f m.running m.shared).2
        code := m.goOn (next (f m.running m.shared).1) }
  | emit {m : Processor T π ω ε} {e : ε} {next : Coroutine T π ω ε Unit} (h : m.code m.running = some (.emit e next)) :
      Step rules m { m with code := m.goOn next, log := e :: m.log }
  | choose {m : Processor T π ω ε} {β : Type} {next : β → Coroutine T π ω ε Unit} (b : β)
      (h : m.code m.running = some (.choose next)) :
      Step rules m { m with code := m.goOn (next b) }
  | switch {m : Processor T π ω ε} {u : T} {next : Coroutine T π ω ε Unit}
      (h : m.code m.running = some (.switch u next)) (hu : m.code u ≠ none) :
      Step rules m { m with running := u, code := m.goOn next }
  | spawn {m : Processor T π ω ε} {init : T → ω} {next : T → Coroutine T π ω ε Unit} (u : T)
      (h : m.code m.running = some (.spawn init next)) (hu : m.code u = none) :
      Step rules m { m with
        shared := { m.shared with part := Function.update m.shared.part u (init u) }
        code := Function.update (m.goOn (next u)) u (some rules.start) }
  | interrupt {m : Processor T π ω ε} {rest : Coroutine T π ω ε Unit} (i : ι) (h : m.code m.running = some rest)
      (hi : rules.allowed i m.running m.shared.pub) :
      Step rules m { m with code := m.goOn (rules.handler i >>= fun _ => rest) }

/-- Any number of steps. -/
abbrev Steps (rules : Rules T π ω ε ι) : Processor T π ω ε → Processor T π ω ε → Prop :=
  Relation.ReflTransGen (Step rules)

/-- A run to a state with `P` may begin with a step. -/
theorem Step.exists_steps {rules : Rules T π ω ε ι} {m m' : Processor T π ω ε} {P : Processor T π ω ε → Prop}
    (h : Step rules m m') (hrest : ∃ m'', Steps rules m' m'' ∧ P m'') : ∃ m'', Steps rules m m'' ∧ P m'' := by
  obtain ⟨m'', hsteps, hP⟩ := hrest
  exact ⟨m'', hsteps.head h, hP⟩

end Processor

/-! ### Safety -/

/-- What is kept of the shared state: `ready t` when the task `t` is switched to, `sane t` all the time that it runs.
The part of a new task is `fresh`, and all that is reported is `good`. -/
structure Discipline (T π ω ε : Type) where
  ready : T → π → Prop
  sane : T → ω → π → Prop
  fresh : T → ω → Prop
  good : ε → Prop

namespace Coroutine

variable {T π ω ε α β : Type} {d : Discipline T π ω ε}

/-- The coroutine, run by the task `t`, follows the discipline, and changes no part but that of `t`; `post` is what then
holds of the value, of the part of `t` and of what is shared.  After a switch nothing is known of what is shared
but that `t` is ready. -/
def Safe (d : Discipline T π ω ε) (t : T) {α : Type} (post : α → ω → π → Prop) :
    Coroutine T π ω ε α → ω → π → Prop
  | .ret a, o, p => post a o p
  | .op f next, o, p => d.sane t o p ∧ ∀ part : T → ω, part t = o →
      (∀ u, u ≠ t → (f t ⟨p, part⟩).2.part u = part u) ∧
        Safe d t post (next (f t ⟨p, part⟩).1) ((f t ⟨p, part⟩).2.part t) (f t ⟨p, part⟩).2.pub
  | .emit e next, o, p => d.sane t o p ∧ d.good e ∧ Safe d t post next o p
  | .choose next, o, p => d.sane t o p ∧ ∀ b, Safe d t post (next b) o p
  | .switch u next, o, p => d.sane t o p ∧ d.ready u p ∧ ∀ p', d.ready t p' → Safe d t post next o p'
  | .spawn init next, o, p => d.sane t o p ∧ ∀ u, u ≠ t → d.fresh u (init u) ∧ Safe d t post (next u) o p

variable {t : T} {post post' : α → ω → π → Prop} {x : Coroutine T π ω ε α} {o : ω} {p : π}

@[simp] theorem safe_pure {a : α} : (pure a : Coroutine T π ω ε α).Safe d t post o p ↔ post a o p := Iff.rfl

theorem Safe.mono (h : x.Safe d t post o p) (hpost : ∀ a o p, post a o p → post' a o p) : x.Safe d t post' o p := by
  induction x generalizing o p with
  | ret a => exact hpost _ _ _ h
  | op f next ih =>
      refine ⟨h.1, fun part hpart => ?_⟩
      exact ⟨(h.2 part hpart).1, ih _ (h.2 part hpart).2⟩
  | emit e next ih => exact ⟨h.1, h.2.1, ih h.2.2⟩
  | choose next ih => exact ⟨h.1, fun b => ih b (h.2 b)⟩
  | switch u next ih => exact ⟨h.1, h.2.1, fun p' hp' => ih (h.2.2 p' hp')⟩
  | spawn init next ih => exact ⟨h.1, fun u hu => ⟨(h.2 u hu).1, ih u (h.2 u hu).2⟩⟩

/-- The rule for one coroutine after the other. -/
theorem Safe.bind {k : α → Coroutine T π ω ε β} {goal : β → ω → π → Prop}
    (h : x.Safe d t (fun a o p => (k a).Safe d t goal o p) o p) : (x >>= k).Safe d t goal o p := by
  show (x.seq k).Safe d t goal o p
  induction x generalizing o p with
  | ret a => exact h
  | op f next ih =>
      refine ⟨h.1, fun part hpart => ?_⟩
      exact ⟨(h.2 part hpart).1, ih _ (h.2 part hpart).2⟩
  | emit e next ih => exact ⟨h.1, h.2.1, ih h.2.2⟩
  | choose next ih => exact ⟨h.1, fun b => ih b (h.2 b)⟩
  | switch u next ih => exact ⟨h.1, h.2.1, fun p' hp' => ih (h.2.2 p' hp')⟩
  | spawn init next ih => exact ⟨h.1, fun u hu => ⟨(h.2 u hu).1, ih u (h.2 u hu).2⟩⟩

/-- A safe coroutine is begun in a sane state, if what holds at its end says so. -/
theorem Safe.sane (h : x.Safe d t post o p) (hpost : ∀ a o p, post a o p → d.sane t o p) : d.sane t o p := by
  cases x with
  | ret a => exact hpost _ _ _ h
  | op f next => exact h.1
  | emit e next => exact h.1
  | choose next => exact h.1
  | switch u next => exact h.1
  | spawn init next => exact h.1

/-! ### Rules -/

theorem safe_any (hsane : d.sane t o p) {post : α → ω → π → Prop} (h : ∀ a, post a o p) :
    (any α : Coroutine T π ω ε α).Safe d t post o p := ⟨hsane, h⟩

theorem safe_halt (hsane : d.sane t o p) : (halt : Coroutine T π ω ε α).Safe d t post o p := ⟨hsane, fun b => b.elim⟩

theorem safe_report {e : ε} {post : Unit → ω → π → Prop} (hsane : d.sane t o p) (he : d.good e) (h : post () o p) :
    (report e : Coroutine T π ω ε Unit).Safe d t post o p := ⟨hsane, he, h⟩

/-- An operation that changes what is shared to `p'`, and the part of the task to `o'`. -/
theorem safe_lift {f : T → Shared T π ω → α × Shared T π ω} (hsane : d.sane t o p)
    (h : ∀ part : T → ω, part t = o → (∀ u, u ≠ t → (f t ⟨p, part⟩).2.part u = part u) ∧
      post (f t ⟨p, part⟩).1 ((f t ⟨p, part⟩).2.part t) (f t ⟨p, part⟩).2.pub) :
    (lift f : Coroutine T π ω ε α).Safe d t post o p := ⟨hsane, h⟩

/-- An operation that only reads. -/
theorem safe_read {g : T → Shared T π ω → α} {post : α → ω → π → Prop} (hsane : d.sane t o p)
    (h : ∀ part : T → ω, part t = o → post (g t ⟨p, part⟩) o p) :
    (lift (fun t s => (g t s, s)) : Coroutine T π ω ε α).Safe d t post o p := by
  apply safe_lift hsane
  intro part hpart
  subst hpart
  exact ⟨fun _ _ => rfl, h part rfl⟩

/-- An operation on what is shared. -/
theorem safe_pub {g : T → π → π} {post : Unit → ω → π → Prop} (hsane : d.sane t o p) (h : post () o (g t p)) :
    (lift (fun t s => ((), { s with pub := g t s.pub })) : Coroutine T π ω ε Unit).Safe d t post o p := by
  apply safe_lift hsane
  intro part hpart
  subst hpart
  exact ⟨fun _ _ => rfl, h⟩

theorem safe_switchTo {u : T} {post : Unit → ω → π → Prop} (hsane : d.sane t o p) (hready : d.ready u p)
    (h : ∀ p', d.ready t p' → post () o p') : (switchTo u : Coroutine T π ω ε Unit).Safe d t post o p :=
  ⟨hsane, hready, h⟩

/-- The rule for loops; `inv` is the invariant. -/
theorem safe_loop {body : Coroutine T π ω ε Unit} {inv : ω → π → Prop} (hsane : ∀ o p, inv o p → d.sane t o p)
    (hbody : ∀ o p, inv o p → body.Safe d t (fun _ => inv) o p) (h : inv o p) :
    (loop body).Safe d t (fun _ => inv) o p := by
  apply Safe.bind
  apply safe_any (hsane o p h)
  intro n
  induction n generalizing o p with
  | zero => exact h
  | succ n ih =>
      apply Safe.bind
      apply (hbody o p h).mono
      intro _ o' p' h'
      exact ih h'

end Coroutine

/-! ### What a stretch of a coroutine leaves as it was -/

section Keeps

open Coroutine

variable {T π ω ε α β : Type} {d : Discipline T π ω ε} {here : T → ω → π → Prop}

/-- Where the shared state is as `here` says, the coroutine leaves it and the part of its task as they were. -/
def Coroutine.Keeps (d : Discipline T π ω ε) (here : T → ω → π → Prop) (x : Coroutine T π ω ε α) : Prop :=
  ∀ t o p, here t o p → x.Safe d t (fun _ o' p' => o' = o ∧ p' = p) o p

namespace Coroutine

theorem Keeps.bind {x : Coroutine T π ω ε α} {k : α → Coroutine T π ω ε β} (hx : x.Keeps d here)
    (hk : ∀ a, (k a).Keeps d here) : (x >>= k).Keeps d here := by
  intro t o p hp
  apply Safe.bind
  apply (hx t o p hp).mono
  rintro a o' p' ⟨rfl, rfl⟩
  exact hk a t o' p' hp

theorem keeps_pure (a : α) : (pure a : Coroutine T π ω ε α).Keeps d here := fun _ _ _ _ => ⟨rfl, rfl⟩

variable (hsane : ∀ t o p, here t o p → d.sane t o p)

include hsane

theorem keeps_any : (any α : Coroutine T π ω ε α).Keeps d here :=
  fun t o p hp => safe_any (hsane t o p hp) fun _ => ⟨rfl, rfl⟩

theorem keeps_read {g : T → Shared T π ω → α} : (lift (fun t s => (g t s, s)) : Coroutine T π ω ε α).Keeps d here :=
  fun t o p hp => safe_read (hsane t o p hp) fun _ _ => ⟨rfl, rfl⟩

omit hsane

theorem Keeps.rounds {body : Coroutine T π ω ε Unit} (h : body.Keeps d here) (n : Nat) :
    (rounds body n).Keeps d here := by
  induction n with
  | zero => exact keeps_pure ()
  | succ n ih => exact h.bind fun _ => ih

include hsane

theorem Keeps.loop {body : Coroutine T π ω ε Unit} (h : body.Keeps d here) : (loop body).Keeps d here :=
  (keeps_any hsane).bind fun n => h.rounds n

end Coroutine

end Keeps

/-! ### All tasks -/

namespace Processor

variable {T π ω ε ι : Type}

/-- All that is known of the state of the processor: the task that runs is safe now, each other one is safe when it is
switched to, and what was reported is good. -/
structure Inv (d : Discipline T π ω ε) (m : Processor T π ω ε) : Prop where
  current : ∃ rest, m.code m.running = some rest ∧
    rest.Safe d m.running (fun _ o p => d.sane m.running o p) (m.shared.part m.running) m.shared.pub
  others : ∀ t rest, t ≠ m.running → m.code t = some rest → ∀ p, d.ready t p →
    rest.Safe d t (fun _ o p => d.sane t o p) (m.shared.part t) p
  log : ∀ e ∈ m.log, d.good e

variable [DecidableEq T]

/-- The rules keep to a discipline: a new task is safe, and a handler leaves all as it was. -/
structure Follows (d : Discipline T π ω ε) (rules : Rules T π ω ε ι) : Prop where
  start : ∀ t o p, d.fresh t o → d.ready t p → rules.start.Safe d t (fun _ o p => d.sane t o p) o p
  handler : ∀ i, (rules.handler i).Keeps d fun t o p => rules.allowed i t p ∧ d.sane t o p

variable {d : Discipline T π ω ε} {rules : Rules T π ω ε ι} {m m' : Processor T π ω ε}

/-- The running task goes on with `rest`, and all but its own part stays as it was. -/
theorem Inv.goOn (hinv : m.Inv d) {rest : Coroutine T π ω ε Unit} {shared : Shared T π ω} {log : List ε}
    (hothers : ∀ u, u ≠ m.running → shared.part u = m.shared.part u)
    (hsafe : rest.Safe d m.running (fun _ o p => d.sane m.running o p) (shared.part m.running) shared.pub)
    (hlog : ∀ e ∈ log, d.good e) :
    Inv d { shared := shared, running := m.running, code := m.goOn rest, log := log } := by
  constructor
  · exact ⟨rest, by simp [Processor.goOn], hsafe⟩
  · intro t rest' ht hcode p hp
    have hold : m.code t = some rest' := by simpa [Processor.goOn, ht] using hcode
    rw [hothers t ht]
    exact hinv.others t rest' ht hold p hp
  · exact hlog

/-- The step lemma. -/
theorem Inv.step (hinv : m.Inv d) (hrules : Follows d rules) (h : Step rules m m') : m'.Inv d := by
  obtain ⟨now, hnow, hsafe⟩ := hinv.current
  cases h with
  | op h =>
      obtain rfl := Option.some.inj (hnow.symm.trans h)
      obtain ⟨hothers, hnext⟩ := hsafe.2 m.shared.part rfl
      exact hinv.goOn hothers hnext hinv.log
  | emit h =>
      obtain rfl := Option.some.inj (hnow.symm.trans h)
      refine hinv.goOn (fun _ _ => rfl) hsafe.2.2 fun e he => ?_
      cases he with
      | head => exact hsafe.2.1
      | tail _ he => exact hinv.log e he
  | choose b h =>
      obtain rfl := Option.some.inj (hnow.symm.trans h)
      exact hinv.goOn (fun _ _ => rfl) (hsafe.2 b) hinv.log
  | @switch u next h hu =>
      obtain rfl := Option.some.inj (hnow.symm.trans h)
      obtain ⟨rest, hrest⟩ := Option.ne_none_iff_exists'.mp hu
      have hready : d.ready u m.shared.pub := hsafe.2.1
      constructor
      · by_cases heq : u = m.running
        · -- a task that switches to itself goes on
          subst heq
          exact ⟨next, by simp [Processor.goOn], hsafe.2.2 _ hready⟩
        · exact ⟨rest, by simpa [Processor.goOn, heq] using hrest, hinv.others u rest heq hrest _ hready⟩
      · intro t rest' ht hcode p hp
        by_cases heq : t = m.running
        · subst heq
          obtain rfl : next = rest' := by simpa [Processor.goOn] using hcode
          exact hsafe.2.2 p hp
        · exact hinv.others t rest' heq (by simpa [Processor.goOn, heq] using hcode) p hp
      · exact hinv.log
  | @spawn init next u h hu =>
      obtain rfl := Option.some.inj (hnow.symm.trans h)
      have hne : u ≠ m.running := by
        rintro rfl
        rw [hu] at h
        cases h
      obtain ⟨hfresh, hnext⟩ := hsafe.2 u hne
      constructor
      · refine ⟨next u, by simp [Processor.goOn, Function.update_of_ne hne.symm], ?_⟩
        simpa [Function.update_of_ne hne.symm] using hnext
      · intro t rest' ht hcode p hp
        by_cases heq : t = u
        · subst heq
          obtain rfl : rules.start = rest' := by simpa using hcode
          simpa using hrules.start t (init t) p hfresh hp
        · have hold : m.code t = some rest' := by
            simpa [Processor.goOn, heq, show t ≠ m.running from ht] using hcode
          simpa [heq] using hinv.others t rest' ht hold p hp
      · exact hinv.log
  | @interrupt rest i h hi =>
      obtain rfl := Option.some.inj (hnow.symm.trans h)
      refine hinv.goOn (fun _ _ => rfl) (Coroutine.Safe.bind ?_) hinv.log
      have hsane := hsafe.sane fun _ _ _ hp => hp
      apply (hrules.handler i m.running _ _ ⟨hi, hsane⟩).mono
      -- the handler leaves the state in which the rest is safe
      rintro _ o p ⟨rfl, rfl⟩
      exact hsafe

/-- The run lemma. -/
theorem Inv.of_steps (hrules : Follows d rules) (hinv : m.Inv d) (h : Steps rules m m') : m'.Inv d := by
  induction h with
  | refl => exact hinv
  | tail _ hstep ih => exact ih.step hrules hstep

omit [DecidableEq T] in
/-- When a task is about to switch, the other one is ready. -/
theorem Inv.ready (hinv : m.Inv d) {u : T} {next : Coroutine T π ω ε Unit}
    (h : m.code m.running = some (.switch u next)) : d.ready u m.shared.pub := by
  obtain ⟨now, hnow, hsafe⟩ := hinv.current
  obtain rfl := Option.some.inj (hnow.symm.trans h)
  exact hsafe.2.1

end Processor

end Lib
end FreakOS
