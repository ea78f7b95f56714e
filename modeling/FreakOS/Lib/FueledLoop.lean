import Mathlib.Tactic

/-!
# Loops with fuel

A loop takes rounds until one of them leaves it with a result.  `runLoop` takes at most as many rounds as it has fuel.

* `Returns` — the loop ends with a result, and more fuel does not change that.
* `Returns.unique` — there is one result.
* `Returns.of_measure` — total correctness: an invariant, and a measure that every further round makes smaller.
* `Returns.guarded` — a loop that goes the same way, but stops with an error where a condition fails.
-/

namespace FreakOS
namespace Lib

/-- What a round decides: another round from a state, or a result. -/
inductive Next (σ ρ : Type) where
  | again (s : σ)
  | leave (r : ρ)

/-- Run a loop; `none` when the fuel is gone. -/
def runLoop {ε σ ρ : Type} (round : σ → Except ε (Next σ ρ)) : Nat → σ → Except ε (Option ρ)
  | 0, _ => .ok none
  | fuel + 1, s =>
      match round s with
      | .error e => .error e
      | .ok (.leave r) => .ok (some r)
      | .ok (.again s') => runLoop round fuel s'

/-- The loop ends with a result, given enough fuel. -/
def Returns {ε σ ρ : Type} (round : σ → Except ε (Next σ ρ)) (s : σ) (r : ρ) : Prop :=
  ∃ n, ∀ fuel, n ≤ fuel → runLoop round fuel s = .ok (some r)

/-- A second loop follows a round of the first one, from `s` to `n`, if `P` holds of `n`, and stops with an error if it
does not. -/
structure GuardedRound {ε σ ρ : Type} (round' : σ → Except ε (Next σ ρ)) (I : σ → Prop) (P : Next σ ρ → Prop) (s : σ)
    (n : Next σ ρ) : Prop where
  keeps : ∀ s', n = .again s' → I s'
  back : P n → P (.again s)
  same : P n → round' s = .ok n
  stops : P (.again s) → ¬ P n → ∃ e, round' s = .error e

namespace Returns

variable {ε σ ρ : Type} {round : σ → Except ε (Next σ ρ)} {s s' : σ} {r r' : ρ}

theorem of_leave (h : round s = .ok (.leave r)) : Returns round s r := by
  refine ⟨1, fun fuel hfuel => ?_⟩
  obtain ⟨fuel, rfl⟩ : ∃ k, fuel = k + 1 := ⟨fuel - 1, by omega⟩
  rw [runLoop, h]

theorem of_again (h : round s = .ok (.again s')) (hret : Returns round s' r) : Returns round s r := by
  obtain ⟨n, hn⟩ := hret
  refine ⟨n + 1, fun fuel hfuel => ?_⟩
  obtain ⟨fuel, rfl⟩ : ∃ k, fuel = k + 1 := ⟨fuel - 1, by omega⟩
  rw [runLoop, h]
  exact hn fuel (by omega)

/-- More fuel does not change the result. -/
theorem of_runLoop {n : Nat} (h : runLoop round n s = .ok (some r)) : Returns round s r := by
  refine ⟨n, fun fuel hfuel => ?_⟩
  induction n generalizing s fuel with
  | zero => cases h
  | succ n ih =>
      obtain ⟨fuel, rfl⟩ : ∃ k, fuel = k + 1 := ⟨fuel - 1, by omega⟩
      unfold runLoop at h ⊢
      split at h
      · cases h
      · exact h
      · exact ih h fuel (by omega)

theorem unique (h : Returns round s r) (h' : Returns round s r') : r = r' := by
  obtain ⟨n, hn⟩ := h
  obtain ⟨n', hn'⟩ := h'
  have heq := (hn (max n n') (by omega)).symm.trans (hn' (max n n') (by omega))
  exact Option.some.inj (Except.ok.inj heq)

/-- From every state of the invariant the loop ends as wanted, or takes a round that keeps the invariant and makes the
measure smaller. -/
theorem of_measure {I : σ → Prop} {Q : ρ → Prop} (μ : σ → Nat)
    (hround : ∀ s, I s → (∃ r, Returns round s r ∧ Q r) ∨ ∃ s', round s = .ok (.again s') ∧ I s' ∧ μ s' < μ s)
    (h : I s) : ∃ r, Returns round s r ∧ Q r := by
  induction hn : μ s using Nat.strong_induction_on generalizing s with
  | _ n ih =>
      rcases hround s h with hdone | ⟨s', hagain, hI, hlt⟩
      · exact hdone
      · obtain ⟨r, hret, hQ⟩ := ih (μ s') (hn ▸ hlt) hI rfl
        exact ⟨r, of_again hagain hret, hQ⟩

/-- Induction on the rounds of a loop that ends. -/
@[elab_as_elim]
theorem induct {motive : ∀ s, Returns round s r → Prop}
    (leave : ∀ s (hround : round s = .ok (.leave r)), motive s (of_leave hround))
    (again : ∀ s s' (hround : round s = .ok (.again s')) (hret : Returns round s' r), motive s' hret →
      motive s (of_again hround hret))
    (h : Returns round s r) : motive s h := by
  obtain ⟨n, hn⟩ := id h
  replace hn := hn n le_rfl
  induction n generalizing s with
  | zero => cases hn
  | succ n ih =>
      unfold runLoop at hn
      split at hn
      · cases hn
      · rename_i r' hround
        obtain rfl := Option.some.inj (Except.ok.inj hn)
        exact leave s hround
      · rename_i s' hround
        exact again s s' hround (of_runLoop hn) (ih (of_runLoop hn) hn)

theorem tail (h : round s = .ok (.again s')) (hret : Returns round s r) : Returns round s' r := by
  obtain ⟨n, hn⟩ := hret
  refine ⟨n, fun fuel hfuel => ?_⟩
  have hrun := hn (fuel + 1) (by omega)
  rwa [runLoop, h] at hrun

theorem not_of_error {e : ε} (h : round s = .error e) : ¬ Returns round s r := by
  rintro ⟨n, hn⟩
  have hrun := hn (n + 1) (Nat.le_succ n)
  rw [runLoop, h] at hrun
  cases hrun

/-- A second loop takes the same rounds as long as `P` holds of what comes out of them, and stops with an error at the
first round where it does not.  It ends, with the same result, exactly if `P` holds of the result. -/
theorem guarded {round' : σ → Except ε (Next σ ρ)} {I : σ → Prop} {P : Next σ ρ → Prop}
    (hround : ∀ s n, I s → round s = .ok n → GuardedRound round' I P s n)
    (hret : Returns round s r) (hI : I s) (hP : P (.again s)) :
    (P (.leave r) → Returns round' s r) ∧ (¬ P (.leave r) → ∀ r', ¬ Returns round' s r') := by
  have hfirst : ∀ {s}, Returns round s r → I s → P (.leave r) → P (.again s) := by
    intro s h
    induction h using induct with
    | leave s hstep => exact fun hI hend => (hround s _ hI hstep).back hend
    | again s s' hstep _ ih =>
        intro hI hend
        have hs := hround s _ hI hstep
        exact hs.back (ih (hs.keeps s' rfl) hend)
  induction hret using induct with
  | leave s hstep =>
      have hs := hround s _ hI hstep
      refine ⟨fun hend => of_leave (hs.same hend), fun hend r' => ?_⟩
      obtain ⟨e, he⟩ := hs.stops hP hend
      exact not_of_error he
  | again s s' hstep hrest ih =>
      have hs := hround s _ hI hstep
      have hI' := hs.keeps s' rfl
      by_cases hP' : P (.again s')
      · have hstep' := hs.same hP'
        obtain ⟨hyes, hno⟩ := ih hI' hP'
        exact ⟨fun hend => of_again hstep' (hyes hend), fun hend r' h => hno hend r' (tail hstep' h)⟩
      · refine ⟨fun hend => absurd (hfirst hrest hI' hend) hP', fun _ r' => ?_⟩
        obtain ⟨e, he⟩ := hs.stops hP hP'
        exact not_of_error he

end Returns

end Lib
end FreakOS
