/-
  TlsMigration.Lib.Polling
  ────────────────────────
  **FUNCTIONS THAT ARE CALLED AGAIN UNTIL THEY ARE DONE.**

  A non-blocking function keeps its progress in a state, is handed one
  answer of its environment at a time, and says whether it wants to be
  called again.  `pollUntil` is the caller's loop: it stops at the first
  outcome that is not `again`, whatever answers are left.

  Two such functions whose single calls agree under a relation agree over
  every sequence of answers (`pollUntil_sim`).
-/
import Mathlib.Data.List.Basic

namespace TlsMigration

variable {σ τ ε ο : Type*}

/-- The states and outcomes of calling `call` with the answers in turn, while
`again` holds of its outcome. -/
def pollUntil (call : σ → ε → σ × ο) (again : ο → Bool) : σ → List ε → σ × List ο
  | s, [] => (s, [])
  | s, e :: es =>
      let r := call s e
      if again r.2 then
        let rest := pollUntil call again r.1 es
        (rest.1, r.2 :: rest.2)
      else (r.1, [r.2])

variable {call : σ → ε → σ × ο} {again : ο → Bool}

theorem pollUntil_again {s : σ} {e : ε} (es : List ε) (h : again (call s e).2 = true) :
    pollUntil call again s (e :: es)
      = ((pollUntil call again (call s e).1 es).1,
          (call s e).2 :: (pollUntil call again (call s e).1 es).2) := by
  simp only [pollUntil, h, if_true]

theorem pollUntil_done {s : σ} {e : ε} (es : List ε) (h : again (call s e).2 = false) :
    pollUntil call again s (e :: es) = ((call s e).1, [(call s e).2]) := by
  simp only [pollUntil, h, Bool.false_eq_true, if_false]

/-- Answers that are images of other events. -/
theorem pollUntil_map {δ : Type*} (f : δ → ε) (s : σ) (ds : List δ) :
    pollUntil call again s (ds.map f) = pollUntil (fun s d => call s (f d)) again s ds := by
  induction ds generalizing s with
  | nil => rfl
  | cons d ds ih => simp only [List.map_cons, pollUntil, ih]

/-- **The simulation rule**: while the calls agree on the outcome and keep `R`,
so do the loops; a call that is done leaves `Q`.  `R` may speak of the answers
that are still to come. -/
theorem pollUntil_sim {call' : τ → ε → τ × ο} (R : List ε → σ → τ → Prop)
    (Q : σ → τ → Prop)
    (hcall : ∀ e es s t, R (e :: es) s t →
      (call s e).2 = (call' t e).2
        ∧ (again (call s e).2 = true → R es (call s e).1 (call' t e).1)
        ∧ (again (call s e).2 = false → Q (call s e).1 (call' t e).1)) :
    ∀ (es : List ε) (s : σ) (t : τ), R es s t →
      (pollUntil call again s es).2 = (pollUntil call' again t es).2
        ∧ (R [] (pollUntil call again s es).1 (pollUntil call' again t es).1
          ∨ Q (pollUntil call again s es).1 (pollUntil call' again t es).1) := by
  intro es
  induction es with
  | nil =>
      intro s t hR
      exact ⟨rfl, Or.inl hR⟩
  | cons e es ih =>
      intro s t hR
      obtain ⟨hout, hnext, hdone⟩ := hcall e es s t hR
      cases ha : again (call s e).2 with
      | true =>
          obtain ⟨houts, hend⟩ := ih _ _ (hnext ha)
          rw [pollUntil_again es ha, pollUntil_again es (hout ▸ ha)]
          exact ⟨by rw [hout, houts], hend⟩
      | false =>
          rw [pollUntil_done es ha, pollUntil_done es (hout ▸ ha)]
          exact ⟨by rw [hout], Or.inr (hdone ha)⟩

end TlsMigration
