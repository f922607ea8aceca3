/-
  TlsMigration.Lib.Doubling
  ─────────────────────────
  **BUFFERS THAT GROW BY DOUBLING.**

  A capacity of machine-word size is doubled until it holds what is needed.
  Without a guard the doubling can overflow to 0, where it stays; with one it
  gives up before that.

    • `doubleCap`, `growCap`           — the loop without a guard, and with one;
    • `growCap_spec`, `growCap_le`     — what it ends with is enough, a word,
      and less than twice what is needed;
    • `doubleCap_room`, `growCap_room` — up to half a word it does end so.
-/
import Mathlib.Algebra.Group.Nat.Defs

namespace TlsMigration

/-- What making room comes to. -/
inductive Room where
  | room (cap : Nat)
  /-- `-1` -/
  | failed
  /-- the capacity overflows to 0, and is doubled for ever -/
  | spins
  deriving DecidableEq

/-- `while (new_cap < needed) new_cap *= 2`, on a `size_t`; a capacity that is too small
after 64 turns is 0. -/
def doubleCap : Nat → Nat → Nat → Option Nat
  | 0, _, _ => none
  | turns + 1, needed, new_cap =>
      if new_cap < needed then doubleCap turns needed (new_cap * 2 % 2 ^ 64) else some new_cap

theorem le_doubleCap {needed cap' : Nat} : ∀ {turns cap : Nat},
    doubleCap turns needed cap = some cap' → needed ≤ cap' := by
  intro turns
  induction turns with
  | zero => exact fun h => by cases h
  | succ turns ih =>
      intro cap h
      unfold doubleCap at h
      split at h
      next => exact ih h
      next hle =>
        cases h
        omega

/-- **Up to half a word the doubling does not wrap, and it ends.** -/
theorem doubleCap_room (turns : Nat) {needed cap : Nat} (hsmall : needed ≤ 2 ^ 63) (hpos : 0 < cap)
    (hturns : needed ≤ cap * 2 ^ turns) :
    ∃ cap', doubleCap (turns + 1) needed cap = some cap' := by
  induction turns generalizing cap with
  | zero =>
      have hdone : ¬ cap < needed := by omega
      exact ⟨cap, if_neg hdone⟩
  | succ turns ih =>
      by_cases hmore : cap < needed
      · have hwrap : cap * 2 % 2 ^ 64 = cap * 2 := Nat.mod_eq_of_lt (by omega)
        unfold doubleCap
        rw [if_pos hmore, hwrap]
        refine ih (by omega) ?_
        rw [Nat.pow_succ] at hturns
        calc needed ≤ cap * (2 ^ turns * 2) := hturns
          _ = cap * 2 * 2 ^ turns := by rw [Nat.mul_comm (2 ^ turns), Nat.mul_assoc]
      · exact ⟨cap, if_neg hmore⟩

/-- The loop with the guard `if (new_cap > ((size_t)-1) / 2) return -1;`, which 64 turns from
above 0 come to. -/
def growCap : Nat → Nat → Nat → Room
  | 0, _, _ => .spins
  | turns + 1, needed, new_cap =>
      if new_cap < needed then
        if (2 ^ 64 - 1) / 2 < new_cap then .failed
        else growCap turns needed (new_cap * 2 % 2 ^ 64)
      else .room new_cap

section Guarded

variable {needed cap cap' turns : Nat}

/-- The guard keeps the doubling from wrapping. -/
theorem growCap_succ (hmore : cap < needed) (hguard : cap ≤ (2 ^ 64 - 1) / 2) :
    growCap (turns + 1) needed cap = growCap turns needed (cap * 2) := by
  have hwrap : cap * 2 % 2 ^ 64 = cap * 2 := Nat.mod_eq_of_lt (by omega)
  show (if cap < needed then _ else _) = _
  rw [if_pos hmore, if_neg (Nat.not_lt.mpr hguard), hwrap]

theorem growCap_done (hdone : needed ≤ cap) : growCap (turns + 1) needed cap = .room cap :=
  if_neg (Nat.not_lt.mpr hdone)

/-- What a turn that goes on or ends well comes to. -/
theorem growCap_cases (h : growCap (turns + 1) needed cap = .room cap') :
    (needed ≤ cap ∧ cap' = cap)
      ∨ (cap < needed ∧ cap ≤ (2 ^ 64 - 1) / 2 ∧ growCap turns needed (cap * 2) = .room cap') := by
  by_cases hmore : cap < needed
  · by_cases hguard : cap ≤ (2 ^ 64 - 1) / 2
    · rw [growCap_succ hmore hguard] at h
      exact Or.inr ⟨hmore, hguard, h⟩
    · rw [growCap, if_pos hmore, if_pos (Nat.not_le.mp hguard)] at h
      cases h
  · rw [growCap_done (Nat.not_lt.mp hmore)] at h
    cases h
    exact Or.inl ⟨Nat.not_lt.mp hmore, rfl⟩

theorem growCap_spec (hcap : cap < 2 ^ 64) (h : growCap turns needed cap = .room cap') :
    cap ≤ cap' ∧ needed ≤ cap' ∧ cap' < 2 ^ 64 := by
  induction turns generalizing cap with
  | zero => cases h
  | succ turns ih =>
      rcases growCap_cases h with ⟨hdone, rfl⟩ | ⟨hmore, hguard, hnext⟩
      · exact ⟨Nat.le_refl _, hdone, hcap⟩
      · obtain ⟨hge, hneeded, hlt⟩ := ih (by omega) hnext
        exact ⟨by omega, hneeded, hlt⟩

theorem le_growCap (h : growCap turns needed cap = .room cap') : needed ≤ cap' := by
  induction turns generalizing cap with
  | zero => cases h
  | succ turns ih =>
      rcases growCap_cases h with ⟨hdone, rfl⟩ | ⟨-, -, hnext⟩
      · exact hdone
      · exact ih hnext

/-- It less than doubles what is needed. -/
theorem growCap_le (h : growCap turns needed cap = .room cap') : cap' ≤ max cap (2 * needed) := by
  induction turns generalizing cap with
  | zero => cases h
  | succ turns ih =>
      rcases growCap_cases h with ⟨-, rfl⟩ | ⟨hmore, -, hnext⟩
      · exact Nat.le_max_left _ _
      · have hle := ih hnext
        omega

/-- **Up to half a word the guard is not met, and the loop ends.** -/
theorem growCap_room (turns : Nat) (hsmall : needed ≤ 2 ^ 63) (hpos : 0 < cap)
    (hturns : needed ≤ cap * 2 ^ turns) : ∃ cap', growCap (turns + 1) needed cap = .room cap' := by
  induction turns generalizing cap with
  | zero =>
      have hdone : needed ≤ cap := by omega
      exact ⟨cap, growCap_done hdone⟩
  | succ turns ih =>
      by_cases hmore : cap < needed
      · rw [growCap_succ hmore (by omega)]
        refine ih (by omega) ?_
        rw [Nat.pow_succ] at hturns
        calc needed ≤ cap * (2 ^ turns * 2) := hturns
          _ = cap * 2 * 2 ^ turns := by rw [Nat.mul_comm (2 ^ turns), Nat.mul_assoc]
      · exact ⟨cap, growCap_done (Nat.not_lt.mp hmore)⟩

end Guarded

end TlsMigration
