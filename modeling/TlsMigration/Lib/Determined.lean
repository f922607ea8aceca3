/-
  TlsMigration.Lib.Determined
  ───────────────────────────
  **RUNS THAT FOLLOW A DETERMINISTIC COURSE.**

  A system whose steps may come in many orders, and a machine that knows one
  next state at most.  Where every step of the system keeps the place it has
  reached on the machine's course, or moves it one on, all that the order of
  the steps decides is how far a run has come.

    • `Reachable.follows`  — a reachable state has a place on the course;
    • `Course.end_unique`  — a course has one end.
-/
import Mathlib.Logic.Relation
import TlsMigration.Lib.Transition

namespace TlsMigration

variable {σ α τ : Type*} {next : τ → Option τ} {start k k' : τ}

/-- The machine comes from `start` to `k`. -/
def Course (next : τ → Option τ) (start k : τ) : Prop :=
  Relation.ReflTransGen (fun k k' => next k = some k') start k

theorem Course.refl : Course next start start := Relation.ReflTransGen.refl

theorem Course.step (h : Course next start k) (hk : next k = some k') : Course next start k' :=
  Relation.ReflTransGen.tail h hk

/-- What holds at the start and is kept by `next` holds along the course. -/
theorem Course.invariant (Inv : τ → Prop) (hstart : Inv start)
    (hnext : ∀ k k', Inv k → next k = some k' → Inv k') (h : Course next start k) : Inv k := by
  induction h with
  | refl => exact hstart
  | tail _ hk ih => exact hnext _ _ ih hk

/-- **A course has one end.** -/
theorem Course.end_unique (h : Course next start k) (h' : Course next start k')
    (hk : next k = none) (hk' : next k' = none) : k = k' := by
  have hunique : Relator.RightUnique fun k k' : τ => next k = some k' := fun a b c hb hc =>
    Option.some.inj (hb.symm.trans hc)
  have hstuck : ∀ {a b : τ}, Course next a b → next a = none → a = b := by
    intro a b hab ha
    rcases Relation.ReflTransGen.cases_head hab with e | ⟨c, hc, -⟩
    · exact e
    · rw [ha] at hc
      cases hc
  rcases Relation.ReflTransGen.total_of_right_unique hunique h h' with hkk | hkk
  · exact hstuck hkk hk
  · exact (hstuck hkk hk').symm

/-- **Each reachable state has a place on the course**, when each step keeps the place or moves
it one on. -/
theorem TransitionSystem.Reachable.follows {T : TransitionSystem σ α} (At : σ → τ → Prop)
    (hinit : ∀ s, T.init s → At s start)
    (hstep : ∀ s a s' k, At s k → T.step s a s' → ∃ k', (k' = k ∨ next k = some k') ∧ At s' k')
    {s : σ} (h : T.Reachable s) : ∃ k, Course next start k ∧ At s k := by
  refine h.invariant (fun s => ∃ k, Course next start k ∧ At s k) ?_ ?_
  · exact fun s hs => ⟨start, .refl, hinit s hs⟩
  · intro s a s' hs hst
    obtain ⟨k, hk, hat⟩ := hs
    obtain ⟨k', hmove, hat'⟩ := hstep s a s' k hat hst
    rcases hmove with rfl | hmove
    · exact ⟨k', hk, hat'⟩
    · exact ⟨k', hk.step hmove, hat'⟩

end TlsMigration
