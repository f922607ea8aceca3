/-
  TlsMigration.Lib.Threads
  ────────────────────────
  **THREADS OVER A SHARED STATE.**

  Any number of threads, each with locals of its own, take steps on one
  shared state, one at a time and in any order.

    • `Threads.system`        — the system;
    • `Outline.reachable`     — the rule of Owicki and Gries: each thread keeps
      what it says of itself, and what the others say of themselves;
    • `Threads.others_keep`   — what a thread finds unchanged when it goes on.
-/
import Mathlib.Logic.Function.Basic
import TlsMigration.Lib.Transition

namespace TlsMigration

/-- How the threads `ι` start, and what a step `α` of one of them does to the shared state and to
its locals; `none` where it cannot be taken. -/
structure Threads (ι σ L α : Type*) where
  init : σ → (ι → L) → Prop
  step : ι → σ → L → α → Option (σ × L)

namespace Threads

variable {ι σ L α : Type*} [DecidableEq ι]

/-- One thread takes a step. -/
def next (T : Threads ι σ L α) (s : σ × (ι → L)) (a : ι × α) : Option (σ × (ι → L)) :=
  (T.step a.1 s.1 (s.2 a.1) a.2).map fun r => (r.1, Function.update s.2 a.1 r.2)

def system (T : Threads ι σ L α) : TransitionSystem (σ × (ι → L)) (ι × α) where
  init s := T.init s.1 s.2
  step s a t := T.next s a = some t

variable {T : Threads ι σ L α} {s t : σ × (ι → L)}

/-- **What a step is**: one thread's, and the locals of the others stay. -/
theorem step_iff {a : ι × α} : T.system.step s a t ↔
    T.step a.1 s.1 (s.2 a.1) a.2 = some (t.1, t.2 a.1) ∧ ∀ j, j ≠ a.1 → t.2 j = s.2 j := by
  show T.next s a = some t ↔ _
  unfold next
  constructor
  · intro h
    obtain ⟨r, hr, rfl⟩ := Option.map_eq_some_iff.mp h
    refine ⟨?_, fun j hj => Function.update_of_ne hj _ _⟩
    show _ = some (r.1, Function.update s.2 a.1 r.2 a.1)
    rw [Function.update_self]
    exact hr
  · rintro ⟨hstep, hothers⟩
    have hlocals : Function.update s.2 a.1 (t.2 a.1) = t.2 := by
      funext j
      by_cases hj : j = a.1
      · rw [hj, Function.update_self]
      · rw [Function.update_of_ne hj, hothers j hj]
    rw [hstep, Option.map_some, hlocals]

/-- `I` is what always holds of the shared state, and `A i` what thread `i` may say of it and of
its own locals. -/
structure Outline (T : Threads ι σ L α) (I : σ → Prop) (A : ι → σ → L → Prop) : Prop where
  init : ∀ s ls, T.init s ls → I s ∧ ∀ i, A i s (ls i)
  own : ∀ i s l a r, I s → A i s l → T.step i s l a = some r → I r.1 ∧ A i r.1 r.2
  others : ∀ i j s l m a r, i ≠ j → I s → A i s l → A j s m → T.step i s l a = some r → A j r.1 m

/-- **The rule of Owicki and Gries.** -/
theorem Outline.reachable {I : σ → Prop} {A : ι → σ → L → Prop} (h : T.Outline I A)
    (hs : T.system.Reachable s) : I s.1 ∧ ∀ i, A i s.1 (s.2 i) := by
  induction hs with
  | init hinit => exact h.init _ _ hinit
  | @step s t a _ hstep ih =>
      obtain ⟨hI, hA⟩ := ih
      obtain ⟨hown, hothers⟩ := step_iff.mp hstep
      obtain ⟨hI', hA'⟩ := h.own a.1 _ _ a.2 _ hI (hA a.1) hown
      refine ⟨hI', fun j => ?_⟩
      by_cases hj : j = a.1
      · rw [hj]
        exact hA'
      · rw [hothers j hj]
        exact h.others a.1 j _ _ _ a.2 _ (Ne.symm hj) hI (hA a.1) (hA j) hown

/-- **While thread `i` takes no step**, what the others keep stays. -/
theorem others_keep {P : σ × (ι → L) → Prop} {i : ι} {as : List (ι × α)}
    (hstep : ∀ s a t, P s → a.1 ≠ i → T.system.step s a t → P t) (hrun : T.system.Run s as t)
    (hs : P s) (has : ∀ a ∈ as, a.1 ≠ i) : P t := by
  induction hrun with
  | nil => exact hs
  | @cons s t u a as hst _ ih =>
      exact ih (hstep s a t hs (has a (List.mem_cons_self)) hst)
        fun b hb => has b (List.mem_cons_of_mem a hb)

end Threads

end TlsMigration
