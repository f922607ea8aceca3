/-
  TlsMigration.Lib.Simulation
  ───────────────────────────
  **FORWARD SIMULATION BETWEEN TRANSITION SYSTEMS.**

  A concrete system refines an abstract one when each of its steps is
  matched by some steps of the abstract system, possibly none, from every
  abstract state that is related to the concrete one.

    • `Simulation.reachable`  — every reachable state has a related one;
    • `Simulation.invariant`  — what holds of the abstract states holds of
      the concrete ones, read through the relation.
-/
import TlsMigration.Lib.Transition

namespace TlsMigration

namespace TransitionSystem

variable {σ τ α β : Type*}

/-- Some run leads from `s` to `t`. -/
def Steps (T : TransitionSystem σ α) (s t : σ) : Prop := ∃ as, T.Run s as t

variable {T : TransitionSystem σ α} {s t u : σ}

theorem Steps.refl (T : TransitionSystem σ α) (s : σ) : T.Steps s s := ⟨[], .nil s⟩

theorem Steps.single {a : α} (h : T.step s a t) : T.Steps s t := ⟨[a], .cons h (.nil t)⟩

theorem Run.append {as bs : List α} (h : T.Run s as t) (h' : T.Run t bs u) :
    T.Run s (as ++ bs) u := by
  induction h with
  | nil => exact h'
  | cons hst _ ih => exact .cons hst (ih h')

theorem Steps.trans (h : T.Steps s t) (h' : T.Steps t u) : T.Steps s u := by
  obtain ⟨as, has⟩ := h
  obtain ⟨bs, hbs⟩ := h'
  exact ⟨as ++ bs, has.append hbs⟩

theorem Reachable.steps (hs : T.Reachable s) (h : T.Steps s t) : T.Reachable t := by
  obtain ⟨as, has⟩ := h
  exact has.reachable hs

/-! ## §1. Simulations. -/

/-- `R` relates the states of `C` to states of `A` that do what they do.  The abstract state
of a step is a reachable one, so its invariants are at hand. -/
structure Simulation (C : TransitionSystem σ α) (A : TransitionSystem τ β)
    (R : σ → τ → Prop) : Prop where
  init : ∀ c, C.init c → ∃ a, A.init a ∧ R c a
  step : ∀ c l c' a, R c a → A.Reachable a → C.step c l c' → ∃ a', A.Steps a a' ∧ R c' a'

variable {C : TransitionSystem σ α} {A : TransitionSystem τ β} {R : σ → τ → Prop}

/-- **The run rule.** -/
theorem Simulation.reachable (h : Simulation C A R) {c : σ} (hc : C.Reachable c) :
    ∃ a, A.Reachable a ∧ R c a := by
  induction hc with
  | init hinit =>
      obtain ⟨a, ha, hR⟩ := h.init _ hinit
      exact ⟨a, .init ha, hR⟩
  | step _ hstep ih =>
      obtain ⟨a, ha, hR⟩ := ih
      obtain ⟨a', hsteps, hR'⟩ := h.step _ _ _ _ hR ha hstep
      exact ⟨a', ha.steps hsteps, hR'⟩

/-- **The transfer rule.** -/
theorem Simulation.invariant (h : Simulation C A R) {P : σ → Prop}
    (hP : ∀ c a, A.Reachable a → R c a → P c) {c : σ} (hc : C.Reachable c) : P c := by
  obtain ⟨a, ha, hR⟩ := h.reachable hc
  exact hP c a ha hR

end TransitionSystem

end TlsMigration
