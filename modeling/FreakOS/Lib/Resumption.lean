import Mathlib.Tactic

/-!
# Programs that wait for answers

A program over states `σ` does operations, which may stop it with an `ε`, and asks questions `ι`, which are
answered by a `ρ` from outside.  While it waits for an answer the state may change.

* `Prog.run` — the run in which nothing else happens, with the answers given by a function.
* `Prog.run_bind` — runs are taken apart like the programs they are runs of.
* `Prog.Ends` — the runs with any answers, in which other steps are taken while the program waits.
* `Prog.Meets` — partial correctness over these runs, with one rule for each way to build a program.
* `Prog.Answered` — the runs that are left alone, with the questions and their answers, taken apart by one rule for
  each way to build a program; `Prog.play` is the run with a list of answers.
* `Prog.Leads` — how far such a run has come, and so the states it visits and the errors it stops with.
-/

namespace FreakOS
namespace Lib

/-- A program that ends with an `α`. -/
inductive Prog (σ ε ι ρ α : Type) : Type 1
  | ret (a : α)
  | op {β : Type} (f : σ → Except ε (β × σ)) (next : β → Prog σ ε ι ρ α)
  | ask (question : ι) (next : ρ → Prog σ ε ι ρ α)

namespace Prog

variable {σ ε ι ρ α β : Type}

/-- One program after the other. -/
def seq : Prog σ ε ι ρ α → (α → Prog σ ε ι ρ β) → Prog σ ε ι ρ β
  | .ret a, k => k a
  | .op f next, k => .op f fun b => (next b).seq k
  | .ask q next, k => .ask q fun r => (next r).seq k

instance : Monad (Prog σ ε ι ρ) where
  pure := .ret
  bind := seq

/-- An operation as a program. -/
def lift (f : σ → Except ε (α × σ)) : Prog σ ε ι ρ α := .op f .ret

/-- A question as a program. -/
def query (question : ι) : Prog σ ε ι ρ ρ := .ask question .ret

/-- Stop. -/
def stop (e : ε) : Prog σ ε ι ρ α := .op (β := Empty) (fun _ => .error e) fun b => b.elim

/-- The run of a program that is left alone. -/
def run (answer : ι → ρ) : Prog σ ε ι ρ α → σ → Except ε (α × σ)
  | .ret a, s => .ok (a, s)
  | .op f next, s =>
      match f s with
      | .ok (b, s') => (next b).run answer s'
      | .error e => .error e
  | .ask q next, s => (next (answer q)).run answer s

variable {answer : ι → ρ} {s s' : σ} {a : α} {b : β}

@[simp] theorem run_pure (answer : ι → ρ) (a : α) (s : σ) :
    (pure a : Prog σ ε ι ρ α).run answer s = .ok (a, s) := rfl

@[simp] theorem run_lift (answer : ι → ρ) (f : σ → Except ε (α × σ)) (s : σ) :
    (lift f : Prog σ ε ι ρ α).run answer s = f s := by
  unfold lift run
  cases f s with
  | error e => rfl
  | ok r => rfl

@[simp] theorem run_query (answer : ι → ρ) (question : ι) (s : σ) :
    (query question : Prog σ ε ι ρ ρ).run answer s = .ok (answer question, s) := rfl

@[simp] theorem run_stop (answer : ι → ρ) (e : ε) (s : σ) :
    (stop e : Prog σ ε ι ρ α).run answer s = .error e := rfl

theorem run_bind (answer : ι → ρ) (p : Prog σ ε ι ρ α) (k : α → Prog σ ε ι ρ β) (s : σ) :
    (p >>= k).run answer s =
      match p.run answer s with
      | .ok (a, s') => (k a).run answer s'
      | .error e => .error e := by
  show (p.seq k).run answer s = _
  induction p generalizing s with
  | ret a => rfl
  | op f next ih =>
      simp only [seq, run]
      cases f s with
      | error e => rfl
      | ok r => exact ih r.1 r.2
  | ask q next ih => exact ih (answer q) s

/-! ### Runs with interference -/

/-- A run of a program ends with a value.  The answers are arbitrary, and while the program waits for one, `env` says
what the others may do to the state. -/
inductive Ends (env : σ → σ → Prop) : Prog σ ε ι ρ α → σ → α → σ → Prop
  | ret (a : α) (s : σ) : Ends env (.ret a) s a s
  | op {β : Type} {f : σ → Except ε (β × σ)} {next : β → Prog σ ε ι ρ α} {s s₁ s' : σ} {b : β} {a : α}
      (hop : f s = .ok (b, s₁)) (hrest : Ends env (next b) s₁ a s') : Ends env (.op f next) s a s'
  | ask {question : ι} {next : ρ → Prog σ ε ι ρ α} {s s₁ s' : σ} {a : α} (r : ρ) (henv : env s s₁)
      (hrest : Ends env (next r) s₁ a s') : Ends env (.ask question next) s a s'

/-- The run that is left alone is one of them. -/
theorem Ends.of_run {env : σ → σ → Prop} (henv : ∀ s, env s s) {p : Prog σ ε ι ρ α}
    (hrun : p.run answer s = .ok (a, s')) : Ends env p s a s' := by
  induction p generalizing s with
  | ret b =>
      obtain ⟨rfl, rfl⟩ := Prod.mk.inj (Except.ok.inj hrun)
      exact .ret b s
  | op f next ih =>
      unfold run at hrun
      split at hrun
      · rename_i b s₁ hop
        exact .op hop (ih b hrun)
      · cases hrun
  | ask q next ih => exact .ask (answer q) (henv s) (ih (answer q) hrun)

/-- Every run of the program from a state with `P` that ends does so with `Q`. -/
def Meets (env : σ → σ → Prop) (P : σ → Prop) (p : Prog σ ε ι ρ α) (Q : α → σ → Prop) : Prop :=
  ∀ s a s', P s → Ends env p s a s' → Q a s'

namespace Meets

variable {env : σ → σ → Prop} {P P' : σ → Prop} {Q Q' : α → σ → Prop} {R : β → σ → Prop}

theorem imp {p : Prog σ ε ι ρ α} (h : Meets env P p Q) (hpre : ∀ s, P' s → P s) (hpost : ∀ a s, Q a s → Q' a s) :
    Meets env P' p Q' :=
  fun s a s' hs hend => hpost a s' (h s a s' (hpre s hs) hend)

/-- A fact that does not depend on the state. -/
theorem fact {c : Prop} {p : Prog σ ε ι ρ α} (h : c → Meets env P p Q) : Meets env (fun s => c ∧ P s) p Q :=
  fun s a s' hs hend => h hs.1 s a s' hs.2 hend

/-- A value that the condition on the state speaks of. -/
theorem forValue {κ : Type} {P : κ → σ → Prop} {p : Prog σ ε ι ρ α} (h : ∀ x, Meets env (P x) p Q) :
    Meets env (fun s => ∃ x, P x s) p Q := by
  rintro s a s' ⟨x, hs⟩ hend
  exact h x s a s' hs hend

protected theorem pure (h : ∀ s, P s → Q a s) : Meets env P (Pure.pure a : Prog σ ε ι ρ α) Q := by
  intro s b s' hs hend
  cases hend
  exact h s hs

/-- One program after the other. -/
protected theorem bind {p : Prog σ ε ι ρ α} {k : α → Prog σ ε ι ρ β} (hp : Meets env P p Q)
    (hk : ∀ a, Meets env (Q a) (k a) R) : Meets env P (p >>= k) R := by
  have hseq : ∀ (p : Prog σ ε ι ρ α) s b s', Ends env (p.seq k) s b s' →
      ∃ a s₁, Ends env p s a s₁ ∧ Ends env (k a) s₁ b s' := by
    intro p
    induction p with
    | ret a => exact fun s b s' h => ⟨a, s, .ret a s, h⟩
    | op f next ih =>
        intro s b s' h
        cases h with
        | op hop hrest =>
            obtain ⟨a, s₁, hfirst, hlast⟩ := ih _ _ _ _ hrest
            exact ⟨a, s₁, .op hop hfirst, hlast⟩
    | ask q next ih =>
        intro s b s' h
        cases h with
        | ask r henv hrest =>
            obtain ⟨a, s₁, hfirst, hlast⟩ := ih _ _ _ _ hrest
            exact ⟨a, s₁, .ask r henv hfirst, hlast⟩
  intro s b s' hs hend
  obtain ⟨a, s₁, hfirst, hlast⟩ := hseq p s b s' hend
  exact hk a s₁ b s' (hp s a s₁ hs hfirst) hlast

/-- An operation. -/
protected theorem lift {f : σ → Except ε (α × σ)} (h : ∀ s a s', P s → f s = .ok (a, s') → Q a s') :
    Meets env P (Prog.lift f : Prog σ ε ι ρ α) Q := by
  intro s b s' hs hend
  cases hend with
  | op hop hrest =>
      cases hrest
      exact h s b s' hs hop

/-- A question: `P` is to hold after what the others do. -/
protected theorem query {question : ι} {Q : ρ → σ → Prop} (h : ∀ s s₁ r, P s → env s s₁ → Q r s₁) :
    Meets env P (Prog.query question : Prog σ ε ι ρ ρ) Q := by
  intro s b s' hs hend
  cases hend with
  | ask r henv hrest =>
      cases hrest
      exact h s s' b hs henv

/-- A program that stops has no run that ends. -/
protected theorem stop (e : ε) : Meets env P (Prog.stop e : Prog σ ε ι ρ α) Q := by
  intro s a s' _ hend
  cases hend with
  | op hop hrest => cases hop

/-- Both branches. -/
protected theorem ite {c : Prop} [Decidable c] {p q : Prog σ ε ι ρ α} (hp : c → Meets env P p Q)
    (hq : ¬ c → Meets env P q Q) : Meets env P (if c then p else q) Q := by
  split
  · exact hp ‹c›
  · exact hq ‹¬ c›

end Meets

/-! ### Runs with their questions -/

/-- A run that is left alone ends with a value.  The list has its questions, with the answers it was given. -/
inductive Answered : Prog σ ε ι ρ α → σ → List (ι × ρ) → α → σ → Prop
  | ret (a : α) (s : σ) : Answered (.ret a) s [] a s
  | op {β : Type} {f : σ → Except ε (β × σ)} {next : β → Prog σ ε ι ρ α} {s s₁ s' : σ} {b : β} {a : α}
      {log : List (ι × ρ)} (hop : f s = .ok (b, s₁)) (hrest : Answered (next b) s₁ log a s') :
      Answered (.op f next) s log a s'
  | ask {question : ι} {next : ρ → Prog σ ε ι ρ α} {s s' : σ} {a : α} {log : List (ι × ρ)} (r : ρ)
      (hrest : Answered (next r) s log a s') : Answered (.ask question next) s ((question, r) :: log) a s'

section Answered

variable {log : List (ι × ρ)}

/-- It is a run in which the others do nothing. -/
theorem Answered.ends {env : σ → σ → Prop} (henv : ∀ s, env s s) {p : Prog σ ε ι ρ α} (h : p.Answered s log a s') :
    Ends env p s a s' := by
  induction h with
  | ret a s => exact .ret a s
  | op hop _ ih => exact .op hop ih
  | ask r _ ih => exact .ask r (henv _) ih

theorem answered_pure_iff {c : α} :
    (pure c : Prog σ ε ι ρ α).Answered s log a s' ↔ log = [] ∧ a = c ∧ s' = s := by
  constructor
  · intro h
    cases h
    exact ⟨rfl, rfl, rfl⟩
  · intro h
    obtain ⟨rfl, rfl, rfl⟩ := h
    exact .ret a s'

theorem answered_lift_iff {f : σ → Except ε (α × σ)} :
    (lift f : Prog σ ε ι ρ α).Answered s log a s' ↔ log = [] ∧ f s = .ok (a, s') := by
  constructor
  · intro h
    cases h with
    | op hop hrest =>
        cases hrest
        exact ⟨rfl, hop⟩
  · intro h
    rw [h.1]
    exact .op h.2 (.ret a s')

theorem answered_query_iff {question : ι} {r : ρ} :
    (query question : Prog σ ε ι ρ ρ).Answered s log r s' ↔ log = [(question, r)] ∧ s' = s := by
  constructor
  · intro h
    cases h with
    | ask r hrest =>
        cases hrest
        exact ⟨rfl, rfl⟩
  · intro h
    rw [h.1, h.2]
    exact .ask r (.ret r s)

theorem answered_stop_iff {e : ε} : (stop e : Prog σ ε ι ρ α).Answered s log a s' ↔ False := by
  constructor
  · intro h
    cases h with
    | op hop hrest => cases hop
  · exact False.elim

/-- A run of one program, and then one of another. -/
protected theorem Answered.bind {p : Prog σ ε ι ρ α} {k : α → Prog σ ε ι ρ β} {s₁ : σ} {last : List (ι × ρ)}
    (hfirst : p.Answered s log a s₁) (hlast : (k a).Answered s₁ last b s') :
    (p >>= k).Answered s (log ++ last) b s' := by
  show (p.seq k).Answered s (log ++ last) b s'
  induction hfirst with
  | ret a s => exact hlast
  | op hop _ ih => exact .op hop (ih hlast)
  | ask r _ ih => exact .ask r (ih hlast)

theorem Answered.exists_bind {p : Prog σ ε ι ρ α} {k : α → Prog σ ε ι ρ β} {s₁ : σ} (hfirst : p.Answered s log a s₁)
    (hlast : ∃ last, (k a).Answered s₁ last b s') : ∃ log, (p >>= k).Answered s log b s' := by
  obtain ⟨last, hlast⟩ := hlast
  exact ⟨log ++ last, hfirst.bind hlast⟩

/-- A run of one program after the other is a run of each, and the questions of the first come first. -/
theorem answered_bind_iff {p : Prog σ ε ι ρ α} {k : α → Prog σ ε ι ρ β} :
    (p >>= k).Answered s log b s' ↔
      ∃ a s₁ first last, p.Answered s first a s₁ ∧ (k a).Answered s₁ last b s' ∧ log = first ++ last := by
  constructor
  · intro h
    replace h : (p.seq k).Answered s log b s' := h
    induction p generalizing s log with
    | ret a => exact ⟨a, s, [], log, .ret a s, h, rfl⟩
    | op f next ih =>
        cases h with
        | op hop hrest =>
            obtain ⟨a, s₁, first, last, hfirst, hlast, hlog⟩ := ih _ hrest
            exact ⟨a, s₁, first, last, .op hop hfirst, hlast, hlog⟩
    | ask q next ih =>
        cases h with
        | ask r hrest =>
            obtain ⟨a, s₁, first, last, hfirst, hlast, hlog⟩ := ih _ hrest
            exact ⟨a, s₁, (q, r) :: first, last, .ask r hfirst, hlast, by rw [hlog, List.cons_append]⟩
  · intro h
    obtain ⟨a, s₁, first, last, hfirst, hlast, rfl⟩ := h
    exact hfirst.bind hlast

/-- A program whose value is only changed. -/
theorem answered_map_iff {p : Prog σ ε ι ρ α} {f : α → β} :
    (p >>= fun a => pure (f a)).Answered s log b s' ↔ ∃ a, p.Answered s log a s' ∧ f a = b := by
  rw [answered_bind_iff]
  constructor
  · intro h
    obtain ⟨a, s₁, first, last, hp, hpure, rfl⟩ := h
    obtain ⟨rfl, rfl, rfl⟩ := answered_pure_iff.mp hpure
    rw [List.append_nil]
    exact ⟨a, hp, rfl⟩
  · intro h
    obtain ⟨a, hp, rfl⟩ := h
    exact ⟨a, s', log, [], hp, .ret _ _, (List.append_nil log).symm⟩

/-- A question, and then a program. -/
theorem answered_query_bind_iff {question : ι} {k : ρ → Prog σ ε ι ρ β} :
    (query question >>= k).Answered s log b s' ↔ ∃ r rest, log = (question, r) :: rest ∧ (k r).Answered s rest b s' := by
  constructor
  · intro h
    cases (show (Prog.ask question k).Answered s log b s' from h) with
    | @ask _ _ _ _ _ rest r hrest => exact ⟨r, rest, rfl, hrest⟩
  · intro h
    obtain ⟨r, rest, rfl, hrest⟩ := h
    exact .ask r hrest

/-- An operation, and then a program. -/
theorem answered_lift_bind_iff {f : σ → Except ε (α × σ)} {k : α → Prog σ ε ι ρ β} :
    (lift f >>= k).Answered s log b s' ↔ ∃ a s₁, f s = .ok (a, s₁) ∧ (k a).Answered s₁ log b s' := by
  constructor
  · intro h
    cases (show (Prog.op f k).Answered s log b s' from h) with
    | @op _ _ _ _ s₁ _ a _ _ hop hrest => exact ⟨a, s₁, hop, hrest⟩
  · intro h
    obtain ⟨a, s₁, hop, hrest⟩ := h
    exact .op hop hrest

/-- The run with a list of answers; `none` when it stops, or needs more of them. -/
def play : List ρ → Prog σ ε ι ρ α → σ → Option (List (ι × ρ) × α × σ)
  | _, .ret a, s => some ([], a, s)
  | answers, .op f next, s =>
      match f s with
      | .ok (b, s') => (next b).play answers s'
      | .error _ => none
  | [], .ask _ _, _ => none
  | r :: answers, .ask q next, s => ((next r).play answers s).map fun x => ((q, r) :: x.1, x.2)

theorem Answered.of_play {answers : List ρ} {p : Prog σ ε ι ρ α} (h : p.play answers s = some (log, a, s')) :
    p.Answered s log a s' := by
  induction p generalizing answers s log with
  | ret b =>
      unfold play at h
      obtain ⟨rfl, hrest⟩ := Prod.mk.inj (Option.some.inj h)
      obtain ⟨rfl, rfl⟩ := Prod.mk.inj hrest
      exact .ret b s
  | op f next ih =>
      unfold play at h
      split at h
      · rename_i b s₁ hop
        exact .op hop (ih b h)
      · cases h
  | ask q next ih =>
      cases answers with
      | nil => cases h
      | cons r answers =>
          obtain ⟨x, hx, hlog⟩ := Option.map_eq_some_iff.mp h
          obtain ⟨rfl, hrest⟩ := Prod.mk.inj hlog
          exact .ask r (ih r (hx.trans (congrArg (fun y => some (x.1, y)) hrest)))

end Answered

/-! ### Runs that have not ended -/

/-- A run that is left alone has come to a program and a state. -/
inductive Leads : Prog σ ε ι ρ α → σ → List (ι × ρ) → Prog σ ε ι ρ α → σ → Prop
  | here (p : Prog σ ε ι ρ α) (s : σ) : Leads p s [] p s
  | op {β : Type} {f : σ → Except ε (β × σ)} {next : β → Prog σ ε ι ρ α} {q : Prog σ ε ι ρ α} {s s₁ s' : σ} {b : β}
      {log : List (ι × ρ)} (hop : f s = .ok (b, s₁)) (hrest : Leads (next b) s₁ log q s') :
      Leads (.op f next) s log q s'
  | ask {question : ι} {next : ρ → Prog σ ε ι ρ α} {q : Prog σ ε ι ρ α} {s s' : σ} {log : List (ι × ρ)} (r : ρ)
      (hrest : Leads (next r) s log q s') : Leads (.ask question next) s ((question, r) :: log) q s'

/-- A run comes through a state. -/
def Visits (p : Prog σ ε ι ρ α) (s : σ) (log : List (ι × ρ)) (s' : σ) : Prop := ∃ q, p.Leads s log q s'

/-- A run stops with an error. -/
def Stops (p : Prog σ ε ι ρ α) (s : σ) (log : List (ι × ρ)) (e : ε) : Prop :=
  ∃ (γ : Type) (f : σ → Except ε (γ × σ)) (next : γ → Prog σ ε ι ρ α) (s' : σ),
    p.Leads s log (.op f next) s' ∧ f s' = .error e

section Leads

variable {log last : List (ι × ρ)} {s₁ : σ}

/-- A run of one program, and then the begin of one of another. -/
theorem Answered.leads_bind {p : Prog σ ε ι ρ α} {k : α → Prog σ ε ι ρ β} {q : Prog σ ε ι ρ β}
    (hfirst : p.Answered s log a s₁) (hlast : (k a).Leads s₁ last q s') : (p >>= k).Leads s (log ++ last) q s' := by
  show (p.seq k).Leads s (log ++ last) q s'
  induction hfirst with
  | ret a s => exact hlast
  | op hop _ ih => exact .op hop (ih hlast)
  | ask r _ ih => exact .ask r (ih hlast)

/-- The begin of a run of the first of two programs. -/
theorem Leads.bind {p q : Prog σ ε ι ρ α} {k : α → Prog σ ε ι ρ β} (h : p.Leads s log q s') :
    (p >>= k).Leads s log (q >>= k) s' := by
  show (p.seq k).Leads s log (q.seq k) s'
  induction h with
  | here p s => exact .here _ s
  | op hop _ ih => exact .op hop ih
  | ask r _ ih => exact .ask r ih

theorem Visits.start (p : Prog σ ε ι ρ α) (s : σ) : p.Visits s [] s := ⟨p, .here p s⟩

theorem Visits.bind {p : Prog σ ε ι ρ α} {k : α → Prog σ ε ι ρ β} (h : p.Visits s log s') :
    (p >>= k).Visits s log s' := by
  obtain ⟨q, hleads⟩ := h
  exact ⟨q >>= k, hleads.bind⟩

theorem Answered.visits_bind {p : Prog σ ε ι ρ α} {k : α → Prog σ ε ι ρ β} (hfirst : p.Answered s log a s₁)
    (hlast : (k a).Visits s₁ last s') : (p >>= k).Visits s (log ++ last) s' := by
  obtain ⟨q, hleads⟩ := hlast
  exact ⟨q, hfirst.leads_bind hleads⟩

theorem stops_lift {f : σ → Except ε (α × σ)} {e : ε} (h : f s = .error e) :
    (lift f : Prog σ ε ι ρ α).Stops s [] e := ⟨α, f, .ret, s, .here _ s, h⟩

theorem Stops.bind {p : Prog σ ε ι ρ α} {k : α → Prog σ ε ι ρ β} {e : ε} (h : p.Stops s log e) :
    (p >>= k).Stops s log e := by
  obtain ⟨γ, f, next, s', hleads, herror⟩ := h
  exact ⟨γ, f, fun b => next b >>= k, s', hleads.bind, herror⟩

theorem Answered.stops_bind {p : Prog σ ε ι ρ α} {k : α → Prog σ ε ι ρ β} {e : ε} (hfirst : p.Answered s log a s₁)
    (hlast : (k a).Stops s₁ last e) : (p >>= k).Stops s (log ++ last) e := by
  obtain ⟨γ, f, next, s', hleads, herror⟩ := hlast
  exact ⟨γ, f, next, s', hfirst.leads_bind hleads, herror⟩

end Leads

end Prog

end Lib
end FreakOS
