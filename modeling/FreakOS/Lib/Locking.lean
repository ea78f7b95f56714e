import Mathlib.Tactic
import Mathlib.Logic.Relation

/-!
# Programs that take semaphores

Programs over binary semaphores `S` and regions `M`, and tasks `T` that run them in any interleaving.  A task that
does not get a semaphore waits in a queue, and is given the semaphore when it comes to the head.

* `Locking` — programs; what does not matter for the semaphores is a choice.
* `Locking.Path` — the return paths of a program.
* `Locking.Follows` — semaphores are taken in the order of their levels, and regions are entered under their guard.
* `Tasks.Step`, `Tasks.Inv` — tasks, and what holds of them in any interleaving.
* `Tasks.Inv.acyclic` — no task waits for itself, around however many others.
* `Tasks.Inv.exclusive` — a region whose guard is a semaphore is entered by one task at a time.
-/

namespace FreakOS
namespace Lib

/-- A program that ends with an `α`. -/
inductive Locking (S M α : Type) : Type 1
  | ret (a : α)
  | acquire (sem : S) (next : Locking S M α)
  | release (sem : S) (next : Locking S M α)
  | enter (region : M) (next : Locking S M α)
  | leave (region : M) (next : Locking S M α)
  | choose {β : Type} (next : β → Locking S M α)

namespace Locking

variable {S M α β : Type}

/-- One program after the other. -/
def seq : Locking S M α → (α → Locking S M β) → Locking S M β
  | .ret a, k => k a
  | .acquire x next, k => .acquire x (next.seq k)
  | .release x next, k => .release x (next.seq k)
  | .enter m next, k => .enter m (next.seq k)
  | .leave m next, k => .leave m (next.seq k)
  | .choose next, k => .choose fun b => (next b).seq k

instance : Monad (Locking S M) where
  pure := .ret
  bind := seq

/-- `down`. -/
def down (x : S) : Locking S M Unit := .acquire x (.ret ())

/-- `up`. -/
def up (x : S) : Locking S M Unit := .release x (.ret ())

/-- The begin of a region. -/
def begin (m : M) : Locking S M Unit := .enter m (.ret ())

/-- The end of a region. -/
def done (m : M) : Locking S M Unit := .leave m (.ret ())

/-- Any value. -/
def any (α : Type) : Locking S M α := .choose .ret

/-- The program does not go on. -/
def halt : Locking S M α := .choose (β := Empty) fun b => b.elim

/-! ### Return paths -/

/-- What a program does with a semaphore. -/
inductive Event (S : Type)
  | acquired (sem : S)
  | released (sem : S)
deriving DecidableEq

/-- A program can return a value after these events. -/
inductive Path : Locking S M α → List (Event S) → α → Prop
  | ret {a : α} : Path (.ret a) [] a
  | acquire {x : S} {next : Locking S M α} {events : List (Event S)} {a : α} (h : Path next events a) :
      Path (.acquire x next) (.acquired x :: events) a
  | release {x : S} {next : Locking S M α} {events : List (Event S)} {a : α} (h : Path next events a) :
      Path (.release x next) (.released x :: events) a
  | enter {m : M} {next : Locking S M α} {events : List (Event S)} {a : α} (h : Path next events a) :
      Path (.enter m next) events a
  | leave {m : M} {next : Locking S M α} {events : List (Event S)} {a : α} (h : Path next events a) :
      Path (.leave m next) events a
  | choose {γ : Type} {next : γ → Locking S M α} {b : γ} {events : List (Event S)} {a : α}
      (h : Path (next b) events a) :
      Path (.choose next) events a

variable [DecidableEq S] [DecidableEq M]

/-- The semaphores that are held after some events. -/
def heldAfter (held : List S) : List (Event S) → List S
  | [] => held
  | .acquired x :: events => heldAfter (x :: held) events
  | .released x :: events => heldAfter (held.erase x) events

/-- In a sequence of events each semaphore is above all that are held, and only held ones are released. -/
def Ordered (level : S → Nat) (held : List S) : List (Event S) → Prop
  | [] => True
  | .acquired x :: events => (∀ y ∈ held, level y < level x) ∧ Ordered level (x :: held) events
  | .released x :: events => x ∈ held ∧ Ordered level (held.erase x) events

/-! ### The discipline -/

/-- What a task needs to be in a region. -/
inductive Guard (S : Type)
  | free
  /-- It has to hold a semaphore. -/
  | held (sem : S)
  /-- It may not be there. -/
  | never
deriving DecidableEq

/-- A task that holds these semaphores may be in the region. -/
def Guard.Met {S : Type} : Guard S → List S → Prop
  | free, _ => True
  | held x, semaphores => x ∈ semaphores
  | never, _ => False

theorem Guard.Met.mono {S : Type} {guard : Guard S} {held held' : List S} (h : guard.Met held)
    (hsub : ∀ x ∈ held, x ∈ held') : guard.Met held' := by
  cases guard with
  | free => trivial
  | held x => exact hsub x h
  | never => exact h.elim

/-- The program takes semaphores in the order of their levels, releases what it holds, and holds the guard of a region
as long as it is in it; `post` is what then holds of the value, of the semaphores and of the regions. -/
def Follows (level : S → Nat) (guard : M → Guard S) {α : Type} (post : α → List S → List M → Prop) :
    Locking S M α → List S → List M → Prop
  | .ret a, held, inside => post a held inside
  | .acquire x next, held, inside =>
      (∀ y ∈ held, level y < level x) ∧ Follows level guard post next (x :: held) inside
  | .release x next, held, inside =>
      x ∈ held ∧ (∀ m ∈ inside, guard m ≠ .held x) ∧ Follows level guard post next (held.erase x) inside
  | .enter m next, held, inside => (guard m).Met held ∧ Follows level guard post next held (m :: inside)
  | .leave m next, held, inside => m ∈ inside ∧ Follows level guard post next held (inside.erase m)
  | .choose next, held, inside => ∀ b, Follows level guard post (next b) held inside

section Follows

variable {level : S → Nat} {guard : M → Guard S} {post post' : α → List S → List M → Prop} {p : Locking S M α}
  {held : List S} {inside : List M}

theorem Follows.mono (h : Follows level guard post p held inside)
    (hpost : ∀ a held inside, post a held inside → post' a held inside) : Follows level guard post' p held inside := by
  induction p generalizing held inside with
  | ret a => exact hpost _ _ _ h
  | acquire x next ih => exact ⟨h.1, ih h.2⟩
  | release x next ih => exact ⟨h.1, h.2.1, ih h.2.2⟩
  | enter m next ih => exact ⟨h.1, ih h.2⟩
  | leave m next ih => exact ⟨h.1, ih h.2⟩
  | choose next ih => exact fun b => ih b (h b)

theorem Follows.bind {k : α → Locking S M β} {goal : β → List S → List M → Prop}
    (h : Follows level guard (fun a held inside => Follows level guard goal (k a) held inside) p held inside) :
    Follows level guard goal (p >>= k) held inside := by
  show Follows level guard goal (p.seq k) held inside
  induction p generalizing held inside with
  | ret a => exact h
  | acquire x next ih => exact ⟨h.1, ih h.2⟩
  | release x next ih => exact ⟨h.1, h.2.1, ih h.2.2⟩
  | enter m next ih => exact ⟨h.1, ih h.2⟩
  | leave m next ih => exact ⟨h.1, ih h.2⟩
  | choose next ih => exact fun b => ih b (h b)

/-- The events of a return path are in order, and leave what the discipline says. -/
theorem Follows.path (h : Follows level guard post p held inside) {events : List (Event S)} {a : α}
    (hpath : Path p events a) : Ordered level held events ∧ ∃ inside', post a (heldAfter held events) inside' := by
  induction hpath generalizing held inside with
  | ret => exact ⟨trivial, inside, h⟩
  | acquire _ ih =>
      obtain ⟨horder, hpost⟩ := ih h.2
      exact ⟨⟨h.1, horder⟩, hpost⟩
  | release _ ih =>
      obtain ⟨horder, hpost⟩ := ih h.2.2
      exact ⟨⟨h.1, horder⟩, hpost⟩
  | enter _ ih => exact ih h.2
  | leave _ ih => exact ih h.2
  | @choose _ next b _ _ _ ih => exact ih (h b)

end Follows

/-- What is taken is what is given back, and what is held at the end. -/
theorem Ordered.count {level : S → Nat} {held : List S} {events : List (Event S)} (h : Ordered level held events)
    (x : S) : events.count (.acquired x) + held.count x = events.count (.released x) + (heldAfter held events).count x := by
  induction events generalizing held with
  | nil => simp [heldAfter]
  | cons e events ih =>
      cases e with
      | acquired y =>
          have hrest := ih h.2
          simp only [heldAfter, List.count_cons, beq_iff_eq, Event.acquired.injEq, reduceCtorEq, if_false] at hrest ⊢
          omega
      | released y =>
          have hrest := ih h.2
          have hpos : y = x → 0 < held.count x := by
            rintro rfl
            exact List.count_pos_iff.mpr h.1
          simp only [heldAfter, List.count_cons, beq_iff_eq, Event.released.injEq, reduceCtorEq, if_false,
            List.count_erase] at hrest ⊢
          by_cases hy : y = x
          · subst hy
            simp only [if_true] at hrest ⊢
            have := hpos rfl
            omega
          · simp only [hy, if_false] at hrest ⊢
            omega

/-! ### Rules -/

/-- From `before` to `after`, on top of semaphores below level `k` that guard the regions that have been entered. -/
def Runs (level : S → Nat) (guard : M → Guard S) (k : Nat) (before after : List S) (p : Locking S M α) : Prop :=
  ∀ held inside, (∀ y ∈ held, level y < k) → (∀ m ∈ inside, (guard m).Met held) →
    Follows level guard (fun _ held' inside' => held' = after ++ held ∧ inside' = inside) p (before ++ held) inside

/-- All that is taken is released. -/
abbrev Keeps (level : S → Nat) (guard : M → Guard S) (k : Nat) (p : Locking S M α) : Prop :=
  Runs level guard k [] [] p

section Runs

variable {level : S → Nat} {guard : M → Guard S} {k j : Nat} {before middle after : List S} {p : Locking S M α}

theorem Runs.pure (a : α) : Runs level guard k before before (Pure.pure a : Locking S M α) := by
  intro held inside _ _
  exact ⟨rfl, rfl⟩

theorem Runs.halt : Runs level guard k before after (halt : Locking S M α) := by
  intro held inside _ _ b
  exact b.elim

theorem Runs.any : Runs level guard k before before (any α : Locking S M α) := by
  intro held inside _ _ b
  exact ⟨rfl, rfl⟩

theorem Runs.bind {f : α → Locking S M β} (hp : Runs level guard k before middle p)
    (hf : ∀ a, Runs level guard k middle after (f a)) : Runs level guard k before after (p >>= f) := by
  intro held inside hheld hinside
  apply Follows.bind
  refine (hp held inside hheld hinside).mono ?_
  intro a held' inside' hend
  rw [hend.1, hend.2]
  exact hf a held inside hheld hinside

theorem Runs.ite {c : Prop} [Decidable c] {q : Locking S M α} (hp : c → Runs level guard k before after p)
    (hq : ¬ c → Runs level guard k before after q) : Runs level guard k before after (if c then p else q) := by
  split
  · rename_i hc
    exact hp hc
  · rename_i hc
    exact hq hc

/-- A semaphore above the others is taken. -/
theorem Runs.down {x : S} (hk : k ≤ level x) (hbefore : ∀ y ∈ before, level y < level x) :
    Runs level guard k before (x :: before) (down x : Locking S M Unit) := by
  intro held inside hheld _
  refine ⟨?_, rfl, rfl⟩
  intro y hy
  rcases List.mem_append.mp hy with hy | hy
  · exact hbefore y hy
  · exact (hheld y hy).trans_le hk

theorem Runs.up {x : S} (hk : k ≤ level x) :
    Runs level guard k (x :: before) before (up x : Locking S M Unit) := by
  intro held inside hheld hinside
  refine ⟨List.mem_cons_self, ?_, ?_, rfl⟩
  · -- The guard of a region is below.
    intro m hm hguard
    have hmet := hinside m hm
    rw [hguard] at hmet
    exact absurd (hheld x hmet) (by omega)
  · exact List.erase_cons_head ..

/-- A program that leaves the semaphores alone runs on top of more of them. -/
theorem Runs.frame (hp : Keeps level guard j p) (hk : k ≤ j) (hbefore : ∀ y ∈ before, level y < j) :
    Runs level guard k before before p := by
  intro held inside hheld hinside
  refine hp (before ++ held) inside ?_ ?_
  · intro y hy
    rcases List.mem_append.mp hy with hy | hy
    · exact hbefore y hy
    · exact (hheld y hy).trans_le hk
  · intro m hm
    exact (hinside m hm).mono fun x hx => List.mem_append_right _ hx

/-- A region is entered and left. -/
theorem Runs.region {m : M} (hp : Keeps level guard j p) (hk : k ≤ j) (hbefore : ∀ y ∈ before, level y < j)
    (hguard : (guard m).Met before) :
    Runs level guard k before before (do begin m; let a ← p; done m; Pure.pure a) := by
  intro held inside hheld hinside
  refine ⟨hguard.mono fun x hx => List.mem_append_left _ hx, ?_⟩
  show Follows level guard _ (p >>= fun a => (done m >>= fun _ => Pure.pure a)) (before ++ held) (m :: inside)
  apply Follows.bind
  refine (hp (before ++ held) (m :: inside) ?_ ?_).mono ?_
  · intro y hy
    rcases List.mem_append.mp hy with hy | hy
    · exact hbefore y hy
    · exact (hheld y hy).trans_le hk
  · intro m' hm'
    rcases List.mem_cons.mp hm' with rfl | hm'
    · exact hguard.mono fun x hx => List.mem_append_left _ hx
    · exact (hinside m' hm').mono fun x hx => List.mem_append_right _ hx
  · rintro a held' inside' ⟨rfl, rfl⟩
    exact ⟨List.mem_cons_self, rfl, List.erase_cons_head ..⟩

end Runs

end Locking

/-! ### Tasks -/

/-- Tasks `T` that do the jobs `J`.  The last two fields record what has happened. -/
structure Tasks (S M T J : Type) where
  /-- What a task still has to do. -/
  code : T → Locking S M Unit
  job : T → Option J
  value : S → Nat
  queue : S → List T
  held : T → List S
  inside : T → List M

namespace Tasks

open Locking

variable {S M T J : Type}

/-- The task waits for no semaphore. -/
def Awake (s : Tasks S M T J) (t : T) : Prop := ∀ x, t ∉ s.queue x

/-- The task does no job. -/
def Idle (s : Tasks S M T J) (t : T) : Prop := s.code t = .ret () ∧ s.Awake t

/-- A task waits for another one, which holds the semaphore that it needs. -/
def WaitsFor (s : Tasks S M T J) (t u : T) : Prop := ∃ x, t ∈ s.queue x ∧ x ∈ s.held u

/-- No task does anything. -/
structure Initial (s : Tasks S M T J) : Prop where
  code : ∀ t, s.code t = .ret ()
  value : ∀ x, s.value x = 1
  queue : ∀ x, s.queue x = []
  held : ∀ t, s.held t = []
  inside : ∀ t, s.inside t = []

/-- Tasks of which none does anything. -/
def quiet : Tasks S M T J := ⟨fun _ => .ret (), fun _ => none, fun _ => 1, fun _ => [], fun _ => [], fun _ => []⟩

theorem quiet_initial : (quiet : Tasks S M T J).Initial :=
  ⟨fun _ => rfl, fun _ => rfl, fun _ => rfl, fun _ => rfl, fun _ => rfl⟩

variable [DecidableEq S] [DecidableEq M]

/-- One step of a task; `program` is what a job consists of, and `admits` when it may begin. -/
inductive Step [DecidableEq T] (program : J → Locking S M Unit) (admits : Tasks S M T J → T → J → Prop) :
    Tasks S M T J → Tasks S M T J → Prop
  | start {s : Tasks S M T J} {t : T} {j : J} (hidle : s.Idle t) (hadmits : admits s t j) :
      Step program admits s { s with
        code := Function.update s.code t (program j), job := Function.update s.job t (some j) }
  | acquire {s : Tasks S M T J} {t : T} {x : S} {next : Locking S M Unit} (hawake : s.Awake t)
      (hcode : s.code t = .acquire x next) (hvalue : 0 < s.value x) :
      Step program admits s { s with
        code := Function.update s.code t next
        value := Function.update s.value x (s.value x - 1)
        held := Function.update s.held t (x :: s.held t) }
  | wait {s : Tasks S M T J} {t : T} {x : S} {next : Locking S M Unit} (hawake : s.Awake t)
      (hcode : s.code t = .acquire x next) (hvalue : s.value x = 0) :
      Step program admits s { s with
        code := Function.update s.code t next, queue := Function.update s.queue x (s.queue x ++ [t]) }
  | release {s : Tasks S M T J} {t : T} {x : S} {next : Locking S M Unit} (hawake : s.Awake t)
      (hcode : s.code t = .release x next) (hqueue : s.queue x = []) :
      Step program admits s { s with
        code := Function.update s.code t next
        value := Function.update s.value x (s.value x + 1)
        held := Function.update s.held t ((s.held t).erase x) }
  | wake {s : Tasks S M T J} {t u : T} {x : S} {rest : List T} {next : Locking S M Unit} (hawake : s.Awake t)
      (hcode : s.code t = .release x next) (hqueue : s.queue x = u :: rest) :
      Step program admits s { s with
        code := Function.update s.code t next
        queue := Function.update s.queue x rest
        held := Function.update (Function.update s.held t ((s.held t).erase x)) u (x :: s.held u) }
  | enter {s : Tasks S M T J} {t : T} {m : M} {next : Locking S M Unit} (hawake : s.Awake t)
      (hcode : s.code t = .enter m next) :
      Step program admits s { s with
        code := Function.update s.code t next, inside := Function.update s.inside t (m :: s.inside t) }
  | leave {s : Tasks S M T J} {t : T} {m : M} {next : Locking S M Unit} (hawake : s.Awake t)
      (hcode : s.code t = .leave m next) :
      Step program admits s { s with
        code := Function.update s.code t next, inside := Function.update s.inside t ((s.inside t).erase m) }
  | choose {s : Tasks S M T J} {t : T} {β : Type} {next : β → Locking S M Unit} (b : β) (hawake : s.Awake t)
      (hcode : s.code t = .choose next) :
      Step program admits s { s with code := Function.update s.code t (next b) }

/-- A step begins a job, or no job begins and no task that does none starts to do something. -/
theorem Step.frame [DecidableEq T] {program : J → Locking S M Unit} {admits : Tasks S M T J → T → J → Prop}
    {s s' : Tasks S M T J} (hstep : Step program admits s s') :
    (∃ t j, s.Idle t ∧ admits s t j ∧ s'.job = Function.update s.job t (some j) ∧
      ∀ u, u ≠ t → s.Idle u → s'.Idle u) ∨ s'.job = s.job ∧ ∀ u, s.Idle u → s'.Idle u := by
  -- A task that has something to do is not an idle one.
  have hother : ∀ {t u : T} {code : Locking S M Unit}, s.code t = code → code ≠ .ret () → s.Idle u → u ≠ t := by
    rintro t u code hcode hne hidle rfl
    exact hne (hcode.symm.trans hidle.1)
  have hsame : ∀ {t u : T} {code next : Locking S M Unit}, s.code t = code → code ≠ .ret () → s.Idle u →
      Function.update s.code t next u = .ret () := by
    intro t u code next hcode hne hidle
    rw [Function.update_of_ne (hother hcode hne hidle)]
    exact hidle.1
  cases hstep with
  | @start t j hidle hadmits =>
      refine Or.inl ⟨t, j, hidle, hadmits, rfl, ?_⟩
      intro u hut hu
      exact ⟨(Function.update_of_ne hut ..).trans hu.1, hu.2⟩
  | acquire _ hcode _ => exact Or.inr ⟨rfl, fun u hu => ⟨hsame hcode (by simp) hu, hu.2⟩⟩
  | @wait t x next _ hcode _ =>
      refine Or.inr ⟨rfl, fun u hu => ⟨hsame hcode (by simp) hu, ?_⟩⟩
      intro y hy
      by_cases hyx : y = x
      · subst hyx
        simp only [Function.update_self, List.mem_append, List.mem_singleton] at hy
        exact hy.elim (hu.2 y) (hother hcode (by simp) hu)
      · simp only [Function.update_of_ne hyx] at hy
        exact hu.2 y hy
  | release _ hcode _ => exact Or.inr ⟨rfl, fun u hu => ⟨hsame hcode (by simp) hu, hu.2⟩⟩
  | @wake t v x rest next _ hcode hqueue =>
      refine Or.inr ⟨rfl, fun u hu => ⟨hsame hcode (by simp) hu, ?_⟩⟩
      intro y hy
      by_cases hyx : y = x
      · subst hyx
        simp only [Function.update_self] at hy
        refine hu.2 y ?_
        rw [hqueue]
        exact List.mem_cons_of_mem v hy
      · simp only [Function.update_of_ne hyx] at hy
        exact hu.2 y hy
  | enter _ hcode => exact Or.inr ⟨rfl, fun u hu => ⟨hsame hcode (by simp) hu, hu.2⟩⟩
  | leave _ hcode => exact Or.inr ⟨rfl, fun u hu => ⟨hsame hcode (by simp) hu, hu.2⟩⟩
  | choose b _ hcode => exact Or.inr ⟨rfl, fun u hu => ⟨hsame hcode (by simp) hu, hu.2⟩⟩

/-- The guard of a region for the job that a task does. -/
def guardOf (guard : J → M → Guard S) : Option J → M → Guard S
  | some j, m => guard j m
  | none, _ => .never

/-- The rest of a job follows the discipline, and at its end nothing is held. -/
abbrev Orderly (level : S → Nat) (guard : M → Guard S) : Locking S M Unit → List S → List M → Prop :=
  Follows level guard fun _ held inside => held = [] ∧ inside = []

/-- The invariant of tasks whose jobs follow the discipline. -/
structure Inv (level : S → Nat) (guard : J → M → Guard S) (s : Tasks S M T J) : Prop where
  /-- A semaphore has one holder. -/
  unique : ∀ t u x, x ∈ s.held t → x ∈ s.held u → t = u
  nodup : ∀ t, (s.held t).Nodup
  taken : ∀ t x, x ∈ s.held t → s.value x = 0
  free : ∀ x, (∀ t, x ∉ s.held t) → s.value x = 1 ∧ s.queue x = []
  /-- A task waits in one queue, once. -/
  once : ∀ x y t, t ∈ s.queue x → t ∈ s.queue y → x = y
  queueNodup : ∀ x, (s.queue x).Nodup
  runs : ∀ t, s.Awake t → Orderly level (guardOf guard (s.job t)) (s.code t) (s.held t) (s.inside t)
  waits : ∀ x t, t ∈ s.queue x → (∀ y ∈ s.held t, level y < level x) ∧
    Orderly level (guardOf guard (s.job t)) (s.code t) (x :: s.held t) (s.inside t)
  guarded : ∀ t, ∀ m ∈ s.inside t, (guardOf guard (s.job t) m).Met (s.held t)

section Inv

variable {level : S → Nat} {guard : J → M → Guard S} {s s' : Tasks S M T J}

theorem Initial.inv (h : s.Initial) : Inv level guard s where
  unique t u x hx _ := by simp [h.held] at hx
  nodup t := by simp [h.held]
  taken t x hx := by simp [h.held] at hx
  free x _ := ⟨h.value x, h.queue x⟩
  once x y t hx _ := by simp [h.queue] at hx
  queueNodup x := by simp [h.queue]
  runs t _ := by
    rw [h.code, h.held, h.inside]
    exact ⟨rfl, rfl⟩
  waits x t ht := by simp [h.queue] at ht
  guarded t m hm := by simp [h.inside] at hm

namespace Inv

/-- A semaphore with a value is held by nobody. -/
theorem not_held (h : Inv level guard s) {x : S} (hvalue : 0 < s.value x) (t : T) : x ∉ s.held t := by
  intro hx
  have hzero := h.taken t x hx
  omega

/-- A semaphore without a value is held by somebody. -/
theorem exists_holder (h : Inv level guard s) {x : S} (hvalue : s.value x = 0) : ∃ t, x ∈ s.held t := by
  by_contra hnone
  push Not at hnone
  have hone := (h.free x hnone).1
  omega

/-- An idle task holds nothing, and is in no region. -/
theorem idle (h : Inv level guard s) {t : T} (ht : s.Idle t) : s.held t = [] ∧ s.inside t = [] := by
  have hruns := h.runs t ht.2
  rw [ht.1] at hruns
  exact hruns

/-- A task that waits for a semaphore holds lower ones only. -/
theorem waitsFor_level (h : Inv level guard s) {u : T} {x y : S} (hu : x ∈ s.held u) (hy : u ∈ s.queue y) :
    level x < level y := (h.waits y u hy).1 x hu

/-- The tasks that wait for each other do not form a circle. -/
theorem acyclic (h : Inv level guard s) (t : T) : ¬ Relation.TransGen s.WaitsFor t t := by
  -- Along the chain the levels grow.
  have hgrow : ∀ u, Relation.TransGen s.WaitsFor t u → ∀ x, t ∈ s.queue x → ∀ y, u ∈ s.queue y → level x < level y := by
    intro u hchain
    induction hchain with
    | single hwaits =>
        obtain ⟨z, htz, hz⟩ := hwaits
        intro x hx y hy
        rw [h.once x z t hx htz]
        exact h.waitsFor_level hz hy
    | tail _ hwaits ih =>
        obtain ⟨z, hvz, hz⟩ := hwaits
        intro x hx y hy
        exact (ih x hx z hvz).trans (h.waitsFor_level hz hy)
  intro hcycle
  obtain ⟨u, ⟨x, hx, -⟩, -⟩ := Relation.TransGen.head'_iff.mp hcycle
  exact absurd (hgrow t hcycle x hx x hx) (lt_irrefl _)

/-- Two tasks whose jobs have the same guard for a region are not in it at the same time. -/
theorem exclusive (h : Inv level guard s) {t u : T} {m : M} {x : S} (ht : m ∈ s.inside t) (hu : m ∈ s.inside u)
    (hguard : guardOf guard (s.job t) m = .held x) (hguard' : guardOf guard (s.job u) m = .held x) : t = u := by
  have hmet := h.guarded t m ht
  have hmet' := h.guarded u m hu
  rw [hguard] at hmet
  rw [hguard'] at hmet'
  exact h.unique t u x hmet hmet'

/-- The semaphore that a task gives back guards no region in which a task is. -/
theorem met_of_ne (h : Inv level guard s) {t u : T} {x : S} {m : M} {held : List S} (hx : x ∈ s.held t)
    (hregions : ∀ m ∈ s.inside t, guardOf guard (s.job t) m ≠ .held x) (hm : m ∈ s.inside u)
    (hsub : ∀ y ∈ s.held u, y ≠ x → y ∈ held) : (guardOf guard (s.job u) m).Met held := by
  have hmet := h.guarded u m hm
  cases hguard : guardOf guard (s.job u) m with
  | free => trivial
  | held y =>
      rw [hguard] at hmet
      refine hsub y hmet ?_
      rintro rfl
      have hut : u = t := h.unique u t y hmet hx
      exact hregions m (hut ▸ hm) (hut ▸ hguard)
  | never =>
      rw [hguard] at hmet
      exact hmet.elim

variable [DecidableEq T]

theorem start (h : Inv level guard s) {t : T} {j : J} {program : Locking S M Unit} (hidle : s.Idle t)
    (hprogram : Orderly level (guard j) program [] []) :
    Inv level guard { s with
      code := Function.update s.code t program, job := Function.update s.job t (some j) } := by
  obtain ⟨hheld, hinside⟩ := h.idle hidle
  refine ⟨h.unique, h.nodup, h.taken, h.free, h.once, h.queueNodup, ?_, ?_, ?_⟩
  · intro u hu
    by_cases htu : u = t
    · subst htu
      simp only [Function.update_self, hheld, hinside]
      exact hprogram
    · simpa only [Function.update_of_ne htu] using h.runs u hu
  · intro x u hu
    have htu : u ≠ t := by
      rintro rfl
      exact hidle.2 x hu
    simpa only [Function.update_of_ne htu] using h.waits x u hu
  · intro u m hm
    by_cases htu : u = t
    · subst htu
      change m ∈ s.inside u at hm
      rw [hinside] at hm
      cases hm
    · simp only [Function.update_of_ne htu]
      exact h.guarded u m hm

/-- A step of a task that leaves the semaphores alone. -/
theorem local_step (h : Inv level guard s) {t : T} {code : Locking S M Unit} {inside : List M} (hawake : s.Awake t)
    (hruns : Orderly level (guardOf guard (s.job t)) code (s.held t) inside)
    (hguarded : ∀ m ∈ inside, (guardOf guard (s.job t) m).Met (s.held t)) :
    Inv level guard { s with
      code := Function.update s.code t code, inside := Function.update s.inside t inside } := by
  refine ⟨h.unique, h.nodup, h.taken, h.free, h.once, h.queueNodup, ?_, ?_, ?_⟩
  · intro u hu
    by_cases htu : u = t
    · subst htu
      simpa only [Function.update_self] using hruns
    · simpa only [Function.update_of_ne htu] using h.runs u hu
  · intro x u hu
    have htu : u ≠ t := by
      rintro rfl
      exact hawake x hu
    simpa only [Function.update_of_ne htu] using h.waits x u hu
  · intro u m hm
    by_cases htu : u = t
    · subst htu
      simp only [Function.update_self] at hm
      exact hguarded m hm
    · simp only [Function.update_of_ne htu] at hm
      exact h.guarded u m hm

theorem acquire (h : Inv level guard s) {t : T} {x : S} {next : Locking S M Unit} (hawake : s.Awake t)
    (hcode : s.code t = .acquire x next) (hvalue : 0 < s.value x) :
    Inv level guard { s with
      code := Function.update s.code t next
      value := Function.update s.value x (s.value x - 1)
      held := Function.update s.held t (x :: s.held t) } := by
  have hfree := h.not_held hvalue
  have hruns := h.runs t hawake
  rw [hcode] at hruns
  obtain ⟨hlevel, hruns⟩ := hruns
  -- What each task holds: its own, and `x` for this one.
  have hheld : ∀ u y, y ∈ Function.update s.held t (x :: s.held t) u ↔ y ∈ s.held u ∨ u = t ∧ y = x := by
    intro u y
    by_cases htu : u = t
    · subst htu
      simp [or_comm]
    · simp [htu]
  refine ⟨?_, ?_, ?_, ?_, h.once, h.queueNodup, ?_, ?_, ?_⟩
  · intro u v y hu hv
    rcases (hheld u y).mp hu with hu' | ⟨hut, rfl⟩
    · rcases (hheld v y).mp hv with hv' | ⟨-, rfl⟩
      · exact h.unique u v y hu' hv'
      · exact (hfree u hu').elim
    · rcases (hheld v y).mp hv with hv' | ⟨hvt, -⟩
      · exact (hfree v hv').elim
      · rw [hut, hvt]
  · intro u
    by_cases htu : u = t
    · subst htu
      simpa using ⟨hfree u, h.nodup u⟩
    · simpa [htu] using h.nodup u
  · intro u y hu
    by_cases hy : y = x
    · subst hy
      have hone := (h.free y hfree).1
      simp [hone]
    · have hold := ((hheld u y).mp hu).resolve_right fun hnew => hy hnew.2
      simpa [hy] using h.taken u y hold
  · intro y hnone
    have hold : ∀ u, y ∉ s.held u := fun u hu => hnone u ((hheld u y).mpr (Or.inl hu))
    have hy : y ≠ x := fun hyx => hnone t ((hheld t y).mpr (Or.inr ⟨rfl, hyx⟩))
    simpa [hy] using h.free y hold
  · intro u hu
    by_cases htu : u = t
    · subst htu
      simpa only [Function.update_self] using hruns
    · simpa only [Function.update_of_ne htu] using h.runs u hu
  · intro y u hu
    have htu : u ≠ t := by
      rintro rfl
      exact hawake y hu
    simpa only [Function.update_of_ne htu] using h.waits y u hu
  · intro u m hm
    exact (h.guarded u m hm).mono fun y hy => (hheld u y).mpr (Or.inl hy)

theorem wait (h : Inv level guard s) {t : T} {x : S} {next : Locking S M Unit} (hawake : s.Awake t)
    (hcode : s.code t = .acquire x next) (hvalue : s.value x = 0) :
    Inv level guard { s with
      code := Function.update s.code t next, queue := Function.update s.queue x (s.queue x ++ [t]) } := by
  have hruns := h.runs t hawake
  rw [hcode] at hruns
  obtain ⟨hlevel, hruns⟩ := hruns
  have hqueue : ∀ y u, u ∈ Function.update s.queue x (s.queue x ++ [t]) y ↔ u ∈ s.queue y ∨ y = x ∧ u = t := by
    intro y u
    by_cases hy : y = x
    · subst hy
      simp
    · simp [hy]
  refine ⟨h.unique, h.nodup, h.taken, ?_, ?_, ?_, ?_, ?_, h.guarded⟩
  · intro y hnone
    have hy : y ≠ x := by
      rintro rfl
      obtain ⟨u, hu⟩ := h.exists_holder hvalue
      exact hnone u hu
    simpa [hy] using h.free y hnone
  · intro y z u hy hz
    rcases (hqueue y u).mp hy with hy' | ⟨hyx, hut⟩
    · rcases (hqueue z u).mp hz with hz' | ⟨-, hut⟩
      · exact h.once y z u hy' hz'
      · exact (hawake y (hut ▸ hy')).elim
    · rcases (hqueue z u).mp hz with hz' | ⟨hzx, -⟩
      · exact (hawake z (hut ▸ hz')).elim
      · rw [hyx, hzx]
  · intro y
    by_cases hy : y = x
    · subst hy
      simpa [List.nodup_append] using ⟨h.queueNodup y, fun u hu heq => hawake y (heq ▸ hu)⟩
    · simpa [hy] using h.queueNodup y
  · intro u hu
    have htu : u ≠ t := by
      rintro rfl
      exact hu x ((hqueue x u).mpr (Or.inr ⟨rfl, rfl⟩))
    have hold : s.Awake u := fun y hy => hu y ((hqueue y u).mpr (Or.inl hy))
    simpa only [Function.update_of_ne htu] using h.runs u hold
  · intro y u hu
    rcases (hqueue y u).mp hu with hu' | ⟨hyx, hut⟩
    · have htu : u ≠ t := fun htu => hawake y (htu ▸ hu')
      simpa only [Function.update_of_ne htu] using h.waits y u hu'
    · rw [hyx, hut]
      simpa only [Function.update_self] using And.intro hlevel hruns

/-- What is held after the task at `t` has given back `x`. -/
theorem mem_erase (h : Inv level guard s) {t : T} {x : S} (hx : x ∈ s.held t) (u : T) (y : S) :
    y ∈ Function.update s.held t ((s.held t).erase x) u ↔ y ∈ s.held u ∧ y ≠ x := by
  by_cases htu : u = t
  · subst htu
    simp [(h.nodup u).mem_erase_iff, and_comm]
  · rw [Function.update_of_ne htu]
    constructor
    · intro hy
      refine ⟨hy, ?_⟩
      rintro rfl
      exact htu (h.unique u t y hy hx)
    · exact fun hy => hy.1

theorem release (h : Inv level guard s) {t : T} {x : S} {next : Locking S M Unit} (hawake : s.Awake t)
    (hcode : s.code t = .release x next) (hqueue : s.queue x = []) :
    Inv level guard { s with
      code := Function.update s.code t next
      value := Function.update s.value x (s.value x + 1)
      held := Function.update s.held t ((s.held t).erase x) } := by
  have hruns := h.runs t hawake
  rw [hcode] at hruns
  obtain ⟨hx, hregions, hruns⟩ := hruns
  have hheld := h.mem_erase hx
  refine ⟨?_, ?_, ?_, ?_, h.once, h.queueNodup, ?_, ?_, ?_⟩
  · intro u v y hu hv
    exact h.unique u v y ((hheld u y).mp hu).1 ((hheld v y).mp hv).1
  · intro u
    by_cases htu : u = t
    · subst htu
      simpa using (h.nodup u).erase x
    · simpa [htu] using h.nodup u
  · intro u y hu
    obtain ⟨hu, hy⟩ := (hheld u y).mp hu
    simpa [hy] using h.taken u y hu
  · intro y hnone
    by_cases hy : y = x
    · subst hy
      simpa [h.taken t y hx] using hqueue
    · have hold : ∀ u, y ∉ s.held u := fun u hu => hnone u ((hheld u y).mpr ⟨hu, hy⟩)
      simpa [hy] using h.free y hold
  · intro u hu
    by_cases htu : u = t
    · subst htu
      simpa only [Function.update_self] using hruns
    · simpa only [Function.update_of_ne htu] using h.runs u hu
  · intro y u hu
    have htu : u ≠ t := by
      rintro rfl
      exact hawake y hu
    simpa only [Function.update_of_ne htu] using h.waits y u hu
  · intro u m hm
    refine h.met_of_ne hx hregions hm fun y hy hne => (hheld u y).mpr ⟨hy, hne⟩

theorem wake (h : Inv level guard s) {t u : T} {x : S} {rest : List T} {next : Locking S M Unit} (hawake : s.Awake t)
    (hcode : s.code t = .release x next) (hqueue : s.queue x = u :: rest) :
    Inv level guard { s with
      code := Function.update s.code t next
      queue := Function.update s.queue x rest
      held := Function.update (Function.update s.held t ((s.held t).erase x)) u (x :: s.held u) } := by
  have hruns := h.runs t hawake
  rw [hcode] at hruns
  obtain ⟨hx, hregions, hruns⟩ := hruns
  have hu : u ∈ s.queue x := by simp [hqueue]
  have hut : u ≠ t := by
    rintro rfl
    exact hawake x hu
  have hnodup := h.queueNodup x
  rw [hqueue, List.nodup_cons] at hnodup
  have hheld : ∀ v y, y ∈ Function.update (Function.update s.held t ((s.held t).erase x)) u (x :: s.held u) v ↔
      y ∈ s.held v ∧ y ≠ x ∨ v = u ∧ y = x := by
    intro v y
    by_cases hvu : v = u
    · subst hvu
      have hother : x ∉ s.held v := fun hv => hut (h.unique v t x hv hx)
      have hne : y ∈ s.held v → y ≠ x := fun hy hyx => hother (hyx ▸ hy)
      simp only [Function.update_self, List.mem_cons, true_and]
      constructor
      · exact fun hy => hy.symm.imp (fun hy => ⟨hy, hne hy⟩) id
      · exact fun hy => hy.symm.imp id fun hy => hy.1
    · rw [Function.update_of_ne hvu, h.mem_erase hx]
      simp [hvu]
  have hqueues : ∀ y v, v ∈ Function.update s.queue x rest y ↔ v ∈ s.queue y ∧ ¬ (y = x ∧ v = u) := by
    intro y v
    by_cases hy : y = x
    · subst hy
      simp only [Function.update_self, hqueue, List.mem_cons, true_and]
      constructor
      · exact fun hv => ⟨Or.inr hv, fun hvu => hnodup.1 (hvu ▸ hv)⟩
      · exact fun hv => hv.1.resolve_left hv.2
    · simp [hy]
  refine ⟨?_, ?_, ?_, ?_, ?_, ?_, ?_, ?_, ?_⟩
  · intro v w y hv hw
    rcases (hheld v y).mp hv with ⟨hv, hy⟩ | ⟨rfl, rfl⟩
    · rcases (hheld w y).mp hw with ⟨hw, -⟩ | ⟨rfl, rfl⟩
      · exact h.unique v w y hv hw
      · exact absurd rfl hy
    · rcases (hheld w y).mp hw with ⟨-, hy⟩ | ⟨rfl, -⟩
      · exact absurd rfl hy
      · rfl
  · intro v
    by_cases hvu : v = u
    · subst hvu
      simpa using ⟨fun hv => hut (h.unique v t x hv hx), h.nodup v⟩
    · by_cases hvt : v = t
      · subst hvt
        simpa [hvu] using (h.nodup v).erase x
      · simpa [hvu, hvt] using h.nodup v
  · intro v y hv
    rcases (hheld v y).mp hv with ⟨hv, -⟩ | ⟨rfl, rfl⟩
    · exact h.taken v y hv
    · exact h.taken t y hx
  · intro y hnone
    have hy : y ≠ x := fun hyx => hnone u ((hheld u y).mpr (Or.inr ⟨rfl, hyx⟩))
    have hold : ∀ v, y ∉ s.held v := fun v hv => hnone v ((hheld v y).mpr (Or.inl ⟨hv, hy⟩))
    simpa [hy] using h.free y hold
  · intro y z v hy hz
    exact h.once y z v ((hqueues y v).mp hy).1 ((hqueues z v).mp hz).1
  · intro y
    by_cases hy : y = x
    · subst hy
      simpa using hnodup.2
    · simpa [hy] using h.queueNodup y
  · intro v hv
    by_cases hvu : v = u
    · subst hvu
      simpa only [Function.update_self, Function.update_of_ne hut] using (h.waits x v hu).2
    · have hold : s.Awake v := fun y hy => hv y ((hqueues y v).mpr ⟨hy, fun hyv => hvu hyv.2⟩)
      by_cases hvt : v = t
      · subst hvt
        simpa only [Function.update_self, Function.update_of_ne hvu] using hruns
      · simpa only [Function.update_of_ne hvu, Function.update_of_ne hvt] using h.runs v hold
  · intro y v hv
    obtain ⟨hv', hnot⟩ := (hqueues y v).mp hv
    have hvu : v ≠ u := fun hvu => hnot ⟨h.once y x u (hvu ▸ hv') hu, hvu⟩
    have hvt : v ≠ t := fun hvt => hawake y (hvt ▸ hv')
    simpa only [Function.update_of_ne hvu, Function.update_of_ne hvt] using h.waits y v hv'
  · intro v m hm
    refine h.met_of_ne hx hregions hm fun y hy hne => (hheld v y).mpr (Or.inl ⟨hy, hne⟩)

/-- Each step keeps the invariant, if all jobs follow the discipline. -/
theorem step {program : J → Locking S M Unit} {admits : Tasks S M T J → T → J → Prop}
    (hprogram : ∀ j, Orderly level (guard j) (program j) [] []) (h : Inv level guard s)
    (hstep : Step program admits s s') : Inv level guard s' := by
  cases hstep with
  | start hidle _ => exact h.start hidle (hprogram _)
  | acquire hawake hcode hvalue => exact h.acquire hawake hcode hvalue
  | wait hawake hcode hvalue => exact h.wait hawake hcode hvalue
  | release hawake hcode hqueue => exact h.release hawake hcode hqueue
  | wake hawake hcode hqueue => exact h.wake hawake hcode hqueue
  | @enter t m next hawake hcode =>
      have hruns := h.runs t hawake
      rw [hcode] at hruns
      refine h.local_step hawake hruns.2 ?_
      intro m' hm'
      rcases List.mem_cons.mp hm' with rfl | hm'
      · exact hruns.1
      · exact h.guarded t m' hm'
  | @leave t m next hawake hcode =>
      have hruns := h.runs t hawake
      rw [hcode] at hruns
      exact h.local_step hawake hruns.2 fun m' hm' => h.guarded t m' (List.mem_of_mem_erase hm')
  | @choose t β next b hawake hcode =>
      have hruns := h.runs t hawake
      rw [hcode] at hruns
      have hlocal := h.local_step hawake (hruns b) (h.guarded t)
      rwa [Function.update_eq_self] at hlocal

theorem of_run {program : J → Locking S M Unit} {admits : Tasks S M T J → T → J → Prop}
    (hprogram : ∀ j, Orderly level (guard j) (program j) [] []) {s₀ : Tasks S M T J} (hinit : s₀.Initial)
    (hrun : Relation.ReflTransGen (Step program admits) s₀ s) : Inv level guard s := by
  induction hrun with
  | refl => exact hinit.inv
  | tail _ hstep ih => exact ih.step hprogram hstep

end Inv

end Inv

end Tasks

end Lib
end FreakOS
