/-
  TlsMigration.Lib.Transition
  ───────────────────────────
  **LABELLED TRANSITION SYSTEMS AND THEIR INVARIANT RULES.**

  A system is a set of initial states and a labelled step relation.  A run
  is a finite sequence of steps; the reachable states are the ends of runs.

  The rules the rest of the development uses:
    • `Reachable.invariant`   — holds initially, kept by every step;
    • `restrict`              — the runs whose steps all meet a condition;
    • `Run.reachable`         — a run from a reachable state stays in them;
    • `Reachable.stepAll`     — and so does a computed one.
-/
import Mathlib.Data.List.Basic

namespace TlsMigration

variable {σ α : Type*}

/-- Initial states and a labelled step relation. -/
structure TransitionSystem (σ α : Type*) where
  init : σ → Prop
  step : σ → α → σ → Prop

namespace TransitionSystem

/-- `T.Run s as t`: the labels `as`, in order, lead from `s` to `t`. -/
inductive Run (T : TransitionSystem σ α) : σ → List α → σ → Prop where
  | nil (s : σ) : Run T s [] s
  | cons {s t u : σ} {a : α} {as : List α} :
      T.step s a t → Run T t as u → Run T s (a :: as) u

/-- The states some run reaches from an initial state. -/
inductive Reachable (T : TransitionSystem σ α) : σ → Prop where
  | init {s : σ} : T.init s → Reachable T s
  | step {s t : σ} {a : α} : Reachable T s → T.step s a t → Reachable T t

/-- The runs all of whose steps meet `Good`, a condition on the state before
the step and on its label. -/
def restrict (T : TransitionSystem σ α) (Good : σ → α → Prop) : TransitionSystem σ α where
  init := T.init
  step s a t := T.step s a t ∧ Good s a

variable {T : TransitionSystem σ α}

/-- **The invariant rule.** -/
theorem Reachable.invariant (Inv : σ → Prop)
    (hinit : ∀ s, T.init s → Inv s)
    (hstep : ∀ s a t, Inv s → T.step s a t → Inv t)
    {s : σ} (h : T.Reachable s) : Inv s := by
  induction h with
  | init hs => exact hinit _ hs
  | step _ hst ih => exact hstep _ _ _ ih hst

theorem Reachable.of_restrict {Good : σ → α → Prop} {s : σ}
    (h : (T.restrict Good).Reachable s) : T.Reachable s := by
  induction h with
  | init hs => exact .init hs
  | step _ hst ih => exact .step ih hst.1

/-- A weaker condition allows more runs. -/
theorem Reachable.restrict_mono {P Q : σ → α → Prop}
    (hpq : ∀ s a t, T.step s a t → P s a → Q s a) {s : σ}
    (h : (T.restrict P).Reachable s) : (T.restrict Q).Reachable s := by
  induction h with
  | init hs => exact .init hs
  | step _ hst ih => exact .step ih ⟨hst.1, hpq _ _ _ hst.1 hst.2⟩

theorem Run.reachable {s t : σ} {as : List α} (h : T.Run s as t) (hs : T.Reachable s) :
    T.Reachable t := by
  induction h with
  | nil => exact hs
  | cons hst _ ih => exact ih (.step hs hst)

/-- One label after the other, by a step function that may refuse. -/
def stepAll (step : σ → α → Option σ) : σ → List α → Option σ
  | s, [] => some s
  | s, a :: as => (step s a).bind fun t => stepAll step t as

/-- **The run rule for a step function** that makes a step of every label that meets `P`. -/
theorem Reachable.stepAll {step : σ → α → Option σ} {P : α → Bool} {s t : σ} {as : List α}
    (h : T.Reachable s) (hstep : ∀ s a t, P a = true → step s a = some t → T.step s a t)
    (has : as.all P = true) (hrun : TransitionSystem.stepAll step s as = some t) :
    T.Reachable t := by
  induction as generalizing s with
  | nil =>
      obtain rfl := Option.some.inj hrun
      exact h
  | cons a as ih =>
      obtain ⟨u, hu, hrun⟩ := Option.bind_eq_some_iff.mp hrun
      rw [List.all_cons, Bool.and_eq_true] at has
      exact ih (.step h (hstep s a u has.1 hu)) has.2 hrun

end TransitionSystem

end TlsMigration
