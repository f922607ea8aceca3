/-
  TlsMigration.Lib.Fifo
  ─────────────────────
  **STREAMS: FIRST IN, FIRST OUT.**

  A stream is what it holds, with the whole of what has gone in and out:

      in = out ++ held

  `Conserved` is that law.  A system whose steps are, seen through a view,
  pushes and pops of a stream obeys it in every reachable state.
-/
import TlsMigration.Lib.Transition

namespace TlsMigration

variable {σ ι α : Type*}

/-- What is held, and what has gone in and come out since the start. -/
structure Stream (α : Type*) where
  held : List α
  pushed : List α
  popped : List α

inductive StreamOp (α : Type*) where
  | push (xs : List α)
  | pop (n : Nat)

namespace Stream

def empty : Stream α := ⟨[], [], []⟩

def apply (s : Stream α) : StreamOp α → Stream α
  | .push xs => ⟨s.held ++ xs, s.pushed ++ xs, s.popped⟩
  | .pop n => ⟨s.held.drop n, s.pushed, s.popped ++ s.held.take n⟩

/-- All that has gone in has come out or is held, in order. -/
def Conserved (s : Stream α) : Prop := s.pushed = s.popped ++ s.held

theorem Conserved.apply {s : Stream α} (h : s.Conserved) (op : StreamOp α) :
    (s.apply op).Conserved := by
  cases op with
  | push xs =>
      show s.pushed ++ xs = s.popped ++ (s.held ++ xs)
      rw [h, List.append_assoc]
  | pop n =>
      show s.pushed = s.popped ++ s.held.take n ++ s.held.drop n
      rw [List.append_assoc, List.take_append_drop]
      exact h

theorem Conserved.popped_prefix {s : Stream α} (h : s.Conserved) : s.popped <+: s.pushed :=
  ⟨s.held, h.symm⟩

/-- A step that moves nothing. -/
theorem apply_push_nil (s : Stream α) : s.apply (.push []) = s := by
  show (⟨s.held ++ [], s.pushed ++ [], s.popped⟩ : Stream α) = s
  rw [List.append_nil, List.append_nil]

end Stream

/-- The steps of a system, as operations on a stream. -/
structure Streams (T : TransitionSystem σ ι) (Inv : σ → Prop) (view : σ → Stream α) : Prop where
  init : ∀ s, T.init s → Inv s ∧ view s = Stream.empty
  step : ∀ s a t, Inv s → T.step s a t → Inv t ∧ ∃ op, view t = (view s).apply op

/-- **The law holds in every reachable state.** -/
theorem Streams.conserved {T : TransitionSystem σ ι} {Inv : σ → Prop} {view : σ → Stream α}
    (h : Streams T Inv view) {s : σ} (hs : T.Reachable s) : Inv s ∧ (view s).Conserved := by
  refine hs.invariant (fun s => Inv s ∧ (view s).Conserved) ?_ ?_
  · intro s hinit
    obtain ⟨hinv, hview⟩ := h.init s hinit
    rw [hview]
    exact ⟨hinv, rfl⟩
  · intro s a t hpre hstep
    obtain ⟨hinv, op, hview⟩ := h.step s a t hpre.1 hstep
    rw [hview]
    exact ⟨hinv, hpre.2.apply op⟩

end TlsMigration
