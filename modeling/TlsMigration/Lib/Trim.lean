/-
  TlsMigration.Lib.Trim
  ─────────────────────
  **CUTTING THE WORDS OF A CODE OFF THE ENDS OF A TEXT.**

  `W` is a finite code: a list of words, none of them a prefix or a suffix
  of another (`Bifix`).  White space in UTF-8 is such a code.  `trim` cuts
  words of `W` off both ends while there are any.

    • `trimLeft_eq`, `trimRight_eq` — what is cut off is spelled in `W`, and
                                      what is left does not start, or end,
                                      with a word: this determines both;
    • `Spelled.split`               — a letter that is a word of its own
                                      separates a spelled text.
-/
import Mathlib.Data.List.Basic
import Mathlib.Data.List.Infix

namespace TlsMigration

variable {α : Type*} {W : List (List α)} {s r b : List α}

/-! ## §1. Texts spelled in a code. -/

/-- A concatenation of words. -/
def Spelled (W : List (List α)) (s : List α) : Prop :=
  ∃ es : List (List α), (∀ e ∈ es, e ∈ W) ∧ s = es.flatten

/-- No word is empty, or starts or ends another. -/
structure Bifix (W : List (List α)) : Prop where
  nonempty : ∀ e ∈ W, e ≠ []
  prefix_free : ∀ e ∈ W, ∀ e' ∈ W, e <+: e' → e = e'
  suffix_free : ∀ e ∈ W, ∀ e' ∈ W, e <:+ e' → e = e'

namespace Spelled

theorem nil : Spelled W [] := ⟨[], by simp, rfl⟩

theorem cons {e : List α} (he : e ∈ W) (h : Spelled W s) : Spelled W (e ++ s) := by
  obtain ⟨es, hes, rfl⟩ := h
  exact ⟨e :: es, by simpa using ⟨he, hes⟩, rfl⟩

theorem append (h : Spelled W s) (h' : Spelled W r) : Spelled W (s ++ r) := by
  obtain ⟨es, hes, rfl⟩ := h
  obtain ⟨es', hes', rfl⟩ := h'
  refine ⟨es ++ es', fun e he => ?_, by simp⟩
  rcases List.mem_append.mp he with he | he
  · exact hes e he
  · exact hes' e he

theorem reverse (h : Spelled W s) : Spelled (W.map List.reverse) s.reverse := by
  obtain ⟨es, hes, rfl⟩ := h
  refine ⟨(es.map List.reverse).reverse, fun e he => ?_, by rw [List.reverse_flatten]⟩
  obtain ⟨e', he', rfl⟩ := List.mem_map.mp (List.mem_reverse.mp he)
  exact List.mem_map_of_mem (hes e' he')

/-- A spelled text that is not empty ends with a word. -/
theorem ends_with (h : Spelled W s) (hs : s ≠ []) : ∃ e ∈ W, e <:+ s := by
  obtain ⟨es, hes, rfl⟩ := h
  rcases List.eq_nil_or_concat es with rfl | ⟨es', e, rfl⟩
  · exact absurd rfl hs
  · exact ⟨e, hes e (by simp), ⟨es'.flatten, by simp⟩⟩

/-- A letter of a spelled text is a letter of a word. -/
theorem mem {c : α} (h : Spelled W s) (hc : c ∈ s) : ∃ e ∈ W, c ∈ e := by
  obtain ⟨es, hes, rfl⟩ := h
  obtain ⟨e, he, hce⟩ := List.mem_flatten.mp hc
  exact ⟨e, hes e he, hce⟩

/-- **A letter that is a word of its own, and in no other, separates.** -/
theorem split {c : α} (hc : ∀ e ∈ W, c ∈ e → e = [c]) {a b : List α}
    (h : Spelled W (a ++ c :: b)) : Spelled W a ∧ Spelled W b := by
  obtain ⟨es, hes, he⟩ := h
  induction es generalizing a with
  | nil => simp at he
  | cons e es ih =>
      rw [List.flatten_cons] at he
      rcases List.append_eq_append_iff.mp he with ⟨x, hx, hrest⟩ | ⟨x, hx, hrest⟩
      · -- the letter is not before the end of the first word
        cases x with
        | nil =>
            rw [List.nil_append] at hrest
            obtain ⟨ha, hb⟩ := ih (a := []) (fun e' h' => hes e' (by simp [h'])) hrest
            rw [List.append_nil] at hx
            rw [← hx]
            exact ⟨by simpa using cons (hes e (by simp)) nil, hb⟩
        | cons d x =>
            rw [List.cons_append] at hrest
            injection hrest with hd hrest
            subst hd
            have he' := hc e (hes e (by simp)) (by rw [hx]; simp)
            rw [hx] at he'
            cases a with
            | nil =>
                have hxnil : x = [] := by simpa using he'
                subst hxnil
                exact ⟨nil, es, fun e' h' => hes e' (by simp [h']), hrest⟩
            | cons y a => simp at he'
      · -- the first word lies before it
        subst hx
        obtain ⟨ha, hb⟩ := ih (fun e' h' => hes e' (by simp [h'])) hrest.symm
        exact ⟨cons (hes e (by simp)) ha, hb⟩

end Spelled

/-- In a prefix-free code a text is cut in one way. -/
theorem Spelled.cut_unique {s' r' : List α}
    (hfree : ∀ e ∈ W, ∀ e' ∈ W, e <+: e' → e = e') (hs : Spelled W s) (hs' : Spelled W s')
    (hr : ∀ e ∈ W, ¬ e <+: r) (hr' : ∀ e ∈ W, ¬ e <+: r') (h : s ++ r = s' ++ r') :
    r = r' := by
  obtain ⟨es, hes, rfl⟩ := hs
  obtain ⟨es', hes', rfl⟩ := hs'
  induction es generalizing es' with
  | nil =>
      cases es' with
      | nil => simpa using h
      | cons e' es' =>
          refine absurd ?_ (hr e' (hes' e' (by simp)))
          exact ⟨es'.flatten ++ r', by simpa using h.symm⟩
  | cons e es ih =>
      have he : e ∈ W := hes e (by simp)
      cases es' with
      | nil =>
          refine absurd ?_ (hr' e he)
          exact ⟨es.flatten ++ r, by simpa using h⟩
      | cons e' es' =>
          have he' : e' ∈ W := hes' e' (by simp)
          simp only [List.flatten_cons, List.append_assoc] at h
          -- both words are prefixes of one text
          have hee : e = e' := by
            rcases List.prefix_or_prefix_of_prefix ⟨_, h⟩ ⟨_, rfl⟩ with hp | hp
            · exact hfree e he e' he' hp
            · exact (hfree e' he' e he hp).symm
          subst hee
          exact ih (fun x hx => hes x (by simp [hx])) es' (fun x hx => hes' x (by simp [hx]))
            (List.append_cancel_left h)

theorem Bifix.reverse (hW : Bifix W) : Bifix (W.map List.reverse) where
  nonempty := by
    intro e he
    obtain ⟨x, hx, rfl⟩ := List.mem_map.mp he
    simpa using hW.nonempty x hx
  prefix_free := by
    intro e he e' he' hp
    obtain ⟨x, hx, rfl⟩ := List.mem_map.mp he
    obtain ⟨y, hy, rfl⟩ := List.mem_map.mp he'
    rw [hW.suffix_free x hx y hy (List.reverse_prefix.mp hp)]
  suffix_free := by
    intro e he e' he' hp
    obtain ⟨x, hx, rfl⟩ := List.mem_map.mp he
    obtain ⟨y, hy, rfl⟩ := List.mem_map.mp he'
    rw [hW.prefix_free x hx y hy (List.reverse_suffix.mp hp)]

/-! ## §2. Trimming. -/

variable [DecidableEq α]

/-- The loop of `trimLeft`. -/
def trimLeftLoop (W : List (List α)) : Nat → List α → List α
  | 0, b => b
  | k + 1, b =>
      match W.find? (·.isPrefixOf b) with
      | none => b
      | some e => trimLeftLoop W k (b.drop e.length)

/-- Words are cut off the front while there are any. -/
def trimLeft (W : List (List α)) (b : List α) : List α := trimLeftLoop W b.length b

/-- Words are cut off the end while there are any. -/
def trimRight (W : List (List α)) (b : List α) : List α :=
  (trimLeft (W.map List.reverse) b.reverse).reverse

/-- Both ends. -/
def trim (W : List (List α)) (b : List α) : List α := trimRight W (trimLeft W b)

theorem trimLeftLoop_spec (hW : ∀ e ∈ W, e ≠ []) (k : Nat) (b : List α) (hk : b.length ≤ k) :
    ∃ s, Spelled W s ∧ b = s ++ trimLeftLoop W k b ∧ ∀ e ∈ W, ¬ e <+: trimLeftLoop W k b := by
  induction k generalizing b with
  | zero =>
      have hb : b = [] := List.length_eq_zero_iff.mp (Nat.le_zero.mp hk)
      subst hb
      refine ⟨[], .nil, rfl, fun e he hpre => hW e he ?_⟩
      exact List.prefix_nil.mp hpre
  | succ k ih =>
      unfold trimLeftLoop
      cases hf : W.find? (·.isPrefixOf b) with
      | none =>
          refine ⟨[], .nil, rfl, fun e he hpre => ?_⟩
          have := List.find?_eq_none.mp hf e he
          exact this (List.isPrefixOf_iff_prefix.mpr hpre)
      | some e =>
          have he : e ∈ W := List.mem_of_find?_eq_some hf
          have hfound : e.isPrefixOf b = true := List.find?_some (p := fun x : List α => x.isPrefixOf b) hf
          obtain ⟨t, rfl⟩ := List.isPrefixOf_iff_prefix.mp hfound
          have hpos : 0 < e.length := List.length_pos_iff.mpr (hW e he)
          have hlen : ((e ++ t).drop e.length).length ≤ k := by
            rw [List.drop_left]
            rw [List.length_append] at hk
            omega
          obtain ⟨s, hs, heq, hno⟩ := ih _ hlen
          refine ⟨e ++ s, .cons he hs, ?_, hno⟩
          rw [List.append_assoc, ← heq, List.drop_left]

/-- What `trimLeft` cuts off is spelled in the code, and no word is left in front. -/
theorem trimLeft_spec (hW : ∀ e ∈ W, e ≠ []) (b : List α) :
    ∃ s, Spelled W s ∧ b = s ++ trimLeft W b ∧ ∀ e ∈ W, ¬ e <+: trimLeft W b :=
  trimLeftLoop_spec hW b.length b (Nat.le_refl _)

/-- **The text that is left is determined.** -/
theorem trimLeft_eq (hW : Bifix W) (hs : Spelled W s) (hr : ∀ e ∈ W, ¬ e <+: r) :
    trimLeft W (s ++ r) = r := by
  obtain ⟨s', hs', heq, hno⟩ := trimLeft_spec hW.nonempty (s ++ r)
  exact (hs.cut_unique hW.prefix_free hs' hr hno heq).symm

/-- Enough text in front stays in front. -/
theorem trimLeft_append (hW : Bifix W) {n : Nat} (hn : ∀ e ∈ W, e.length ≤ n)
    (hlen : n ≤ (trimLeft W b).length) (q : List α) :
    trimLeft W (b ++ q) = trimLeft W b ++ q := by
  obtain ⟨s, hs, heq, hno⟩ := trimLeft_spec hW.nonempty b
  have hcut : trimLeft W (s ++ (trimLeft W b ++ q)) = trimLeft W b ++ q := by
    apply trimLeft_eq hW hs
    intro e he hpre
    exact hno e he (List.prefix_of_prefix_length_le hpre (List.prefix_append _ _)
      (Nat.le_trans (hn e he) hlen))
  rw [← List.append_assoc, ← heq] at hcut
  exact hcut

/-- What `trimRight` cuts off is spelled in the code, and no word is left at the end. -/
theorem trimRight_spec (hW : Bifix W) (b : List α) :
    ∃ s, Spelled W s ∧ b = trimRight W b ++ s ∧ ∀ e ∈ W, ¬ e <:+ trimRight W b := by
  obtain ⟨s, hs, heq, hno⟩ := trimLeft_spec hW.reverse.nonempty b.reverse
  have hrev : (W.map List.reverse).map List.reverse = W := by simp
  refine ⟨s.reverse, hrev ▸ hs.reverse, ?_, fun e he hsuf => ?_⟩
  · have := congrArg List.reverse heq
    rw [List.reverse_reverse, List.reverse_append] at this
    exact this
  · refine hno e.reverse (List.mem_map_of_mem he) ?_
    rw [← List.reverse_suffix, List.reverse_reverse]
    exact hsuf

theorem trimRight_eq (hW : Bifix W) (hs : Spelled W s) (hr : ∀ e ∈ W, ¬ e <:+ r) :
    trimRight W (r ++ s) = r := by
  unfold trimRight
  rw [List.reverse_append, trimLeft_eq hW.reverse hs.reverse, List.reverse_reverse]
  intro e he hp
  obtain ⟨x, hx, rfl⟩ := List.mem_map.mp he
  exact hr x hx (List.reverse_prefix.mp hp)

/-- Words behind a text make no difference. -/
theorem trimRight_append_spelled (hW : Bifix W) (hs : Spelled W s) (r : List α) :
    trimRight W (r ++ s) = trimRight W r := by
  obtain ⟨s', hs', heq, hno⟩ := trimRight_spec hW r
  have hcut := trimRight_eq hW (hs'.append hs) hno
  rw [← List.append_assoc, ← heq] at hcut
  exact hcut

end TlsMigration
