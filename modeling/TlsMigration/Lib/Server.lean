/-
  TlsMigration.Lib.Server
  ───────────────────────
  **A SEQUENTIAL SERVER ON A BYTE STREAM.**

  The specification of a server with one connection: requests come in, and
  are answered one after the other, each with one of the responses that are
  right for it; a response is written in pieces, and whole before the next.

    • `server`             — the system;
    • `Server.transcript`  — what has been written, in closed form;
    • `SelfDelimiting.parts_prefix` — a reader who can tell where a response
      ends knows how many there are;
    • `Server.settled`     — and so nothing is left, once it has all.
-/
import TlsMigration.Lib.Transition

namespace TlsMigration

variable {β : Type*}

/-! ## §1. The server. -/

structure Server (β : Type*) where
  /-- requests that have come -/
  sent : Nat
  /-- requests that have been answered, the one being answered included -/
  answered : Nat
  /-- what is still to be written of the last answer -/
  rest : List β
  /-- what has been written -/
  out : List β

def Server.start : Server β := ⟨0, 0, [], []⟩

/-- Items, with the one that wrote them. -/
def tagged {ι α : Type*} (i : ι) (xs : List α) : List (ι × α) := xs.map fun x => (i, x)

section Tagged

variable {ι α : Type*} (i : ι) (xs : List α)

@[simp] theorem tagged_snd : (tagged i xs).map Prod.snd = xs := by
  unfold tagged
  rw [List.map_map]
  exact List.map_id' _

@[simp] theorem length_tagged : (tagged i xs).length = xs.length := List.length_map _

theorem tagged_take (n : Nat) : (tagged i xs).take n = tagged i (xs.take n) := List.map_take.symm

theorem tagged_drop (n : Nat) : (tagged i xs).drop n = tagged i (xs.drop n) := List.map_drop.symm

theorem tagged_eq_nil {i : ι} {xs : List α} : tagged i xs = [] ↔ xs = [] := List.map_eq_nil_iff

end Tagged

/-- What a right answer is, and which request is the last one that is answered. -/
structure Service (β : Type*) where
  Answer : Nat → List β → Prop
  Last : Nat → Prop

inductive ServerStep (S : Service β) : Server β → Unit → Server β → Prop where
  | receive (s : Server β) : ServerStep S s () { s with sent := s.sent + 1 }
  | answer {s : Server β} {response : List β} : s.rest = [] → s.answered < s.sent →
      S.Answer s.answered response → (∀ k, k + 1 = s.answered → ¬ S.Last k) →
      ServerStep S s () { s with answered := s.answered + 1, rest := response }
  | write (s : Server β) (n : Nat) :
      ServerStep S s () { s with rest := s.rest.drop n, out := s.out ++ s.rest.take n }

/-- The server that answers as `S` says. -/
def server (S : Service β) : TransitionSystem (Server β) Unit where
  init s := s = .start
  step := ServerStep S

/-- `responses` are the answers so far, and they are what has been written, but for `rest`. -/
structure Server.Transcript (S : Service β) (s : Server β) (responses : List (List β)) : Prop where
  length : responses.length = s.answered
  answers : ∀ k response, responses[k]? = some response → S.Answer k response
  last : ∀ k, k + 1 < s.answered → ¬ S.Last k
  written : s.out ++ s.rest = responses.flatten

/-- **What a server has written** is its answers, in the order of the requests. -/
theorem Server.transcript {S : Service β} {s : Server β} (h : (server S).Reachable s) :
    s.answered ≤ s.sent ∧ ∃ responses, s.Transcript S responses := by
  induction h with
  | init hs =>
      obtain rfl : _ = Server.start := hs
      refine ⟨Nat.le_refl 0, [], ⟨rfl, fun k r hk => ?_, fun k hk => ?_, rfl⟩⟩
      · cases hk
      · exact absurd hk (Nat.not_lt_zero _)
  | @step s t _ _ hstep ih =>
      obtain ⟨hle, rs, hlen, hanswers, hlast, hwritten⟩ := ih
      cases hstep with
      | receive => exact ⟨Nat.le_succ_of_le hle, rs, hlen, hanswers, hlast, hwritten⟩
      | @answer response hrest hlt hanswer hopen =>
          refine ⟨hlt, rs ++ [response], ?_, fun k r hk => ?_, fun k hk => ?_, ?_⟩
          · rw [List.length_append, hlen]
            rfl
          · -- the new answer is the last one
            rcases Nat.lt_or_ge k rs.length with hk' | hk'
            · rw [List.getElem?_append_left hk'] at hk
              exact hanswers k r hk
            · rw [List.getElem?_append_right hk', List.getElem?_singleton] at hk
              split at hk
              next hzero =>
                obtain rfl : response = r := Option.some.inj hk
                have hk : k = s.answered := by omega
                rw [hk]
                exact hanswer
              next => cases hk
          · have hk : k + 1 < s.answered + 1 := hk
            rcases Nat.lt_or_ge (k + 1) s.answered with hk' | hk'
            · exact hlast k hk'
            · exact hopen k (by omega)
          · show s.out ++ response = _
            rw [List.flatten_append, ← hwritten, hrest]
            simp
      | write n =>
          refine ⟨hle, rs, hlen, hanswers, hlast, ?_⟩
          show s.out ++ s.rest.take n ++ s.rest.drop n = _
          rw [List.append_assoc, List.take_append_drop]
          exact hwritten

/-! ## §2. Texts that tell where they end. -/

/-- None of the texts is empty, and none goes on as another. -/
structure SelfDelimiting (P : List β → Prop) : Prop where
  ne_nil : ∀ a, P a → a ≠ []
  cut : ∀ a b x y, P a → P b → a ++ x = b ++ y → a = b

/-- **A reader finds the parts**: what is whole is told from what comes after. -/
theorem SelfDelimiting.parts_prefix {P : List β → Prop} (hP : SelfDelimiting P)
    (as : List (List β)) :
    ∀ {bs : List (List β)} {x : List β}, (∀ a ∈ as, P a) → (∀ b ∈ bs, P b) →
      as.flatten ++ x = bs.flatten → as <+: bs ∧ (bs.length ≤ as.length → x = []) := by
  induction as with
  | nil =>
      intro bs x _ _ h
      refine ⟨List.nil_prefix, fun hlen => ?_⟩
      obtain rfl := List.length_eq_zero_iff.mp (Nat.le_zero.mp hlen)
      exact h
  | cons a as ih =>
      intro bs x has hbs h
      cases bs with
      | nil =>
          rw [List.flatten_cons, List.append_assoc] at h
          exact absurd (List.append_eq_nil_iff.mp h).1 (hP.ne_nil a (has a (by simp)))
      | cons b bs =>
          rw [List.flatten_cons, List.flatten_cons, List.append_assoc] at h
          obtain rfl := hP.cut a b _ _ (has a (by simp)) (hbs b (by simp)) h
          obtain ⟨hpre, hnil⟩ := ih (fun a' ha => has a' (by simp [ha]))
            (fun b' hb => hbs b' (by simp [hb])) (List.append_cancel_left h)
          refine ⟨List.cons_prefix_cons.mpr ⟨rfl, hpre⟩, fun hlen => hnil ?_⟩
          simpa using hlen

/-! ## §3. A client that waits. -/

/-- **Who has got as many whole answers as there are requests** has left nothing to be answered,
and nothing to be written.  `read` is what a client sees of what is written. -/
theorem Server.settled {S : Service β} {γ : Type*} {P : List γ → Prop} (hP : SelfDelimiting P)
    {read : β → γ} (hanswer : ∀ k text, S.Answer k text → P (text.map read)) {s : Server β}
    (h : (server S).Reachable s) {parts : List (List γ)} {more : List γ}
    (hlen : parts.length = s.sent) (hparts : ∀ p ∈ parts, P p)
    (hout : parts.flatten ++ more = s.out.map read) : s.answered = s.sent ∧ s.rest = [] := by
  obtain ⟨hle, rs, hrs⟩ := Server.transcript h
  have hwritten : parts.flatten ++ (more ++ s.rest.map read)
      = (rs.map (List.map read)).flatten := by
    rw [← List.append_assoc, hout, ← List.map_append, hrs.written, List.map_flatten]
  have hall : ∀ r ∈ rs.map (List.map read), P r := by
    intro r hr
    obtain ⟨text, htext, rfl⟩ := List.mem_map.mp hr
    obtain ⟨k, hk, rfl⟩ := List.mem_iff_getElem.mp htext
    exact hanswer k _ (hrs.answers k _ (List.getElem?_eq_getElem hk))
  obtain ⟨hpre, hnil⟩ := hP.parts_prefix parts hparts hall hwritten
  have hcount := hpre.length_le
  rw [List.length_map, hrs.length] at hcount
  have hrest := hnil (by rw [List.length_map, hrs.length]; omega)
  rw [List.append_eq_nil_iff, List.map_eq_nil_iff] at hrest
  exact ⟨by omega, hrest.2⟩

end TlsMigration
