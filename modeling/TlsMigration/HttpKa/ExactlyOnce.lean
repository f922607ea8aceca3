/-
  TlsMigration.HttpKa.ExactlyOnce
  ───────────────────────────────
  **EACH REQUEST OF A PIPELINE IS ANSWERED ONCE.**

  The stream is a list of requests for this worker.  The machine that reads
  it (`Reading.next`) is at one of them at any time: those before it are
  answered, and those behind it are not touched (`Along`).  A session that
  follows the machine has answered all of them when nothing is left to
  happen.

    • `Along.next`    — the machine goes along the requests;
    • `exactly_once`  — what a session has taken and sent at the end of a run.
-/
import TlsMigration.HttpKa.Flow
import TlsMigration.Http.Request

namespace TlsMigration.HttpKa

open TlsMigration.Http TlsMigration.Handoff

/-! ## §1. The capacity of the buffer. -/

/-- The buffer is doubled, from 16384 on. -/
def PowerCap (cap : Nat) : Prop := ∃ j, 14 ≤ j ∧ j ≤ 63 ∧ cap = 2 ^ j

theorem PowerCap.start : PowerCap 16384 := ⟨14, by omega, by omega, rfl⟩

theorem PowerCap.ge {cap : Nat} (h : PowerCap cap) : 16384 ≤ cap := by
  obtain ⟨j, hj, -, rfl⟩ := h
  have h14 : (16384 : Nat) = 2 ^ 14 := rfl
  rw [h14]
  exact Nat.pow_le_pow_right (by omega) hj

theorem PowerCap.le {cap : Nat} (h : PowerCap cap) : cap ≤ 2 ^ 63 := by
  obtain ⟨j, -, hj, rfl⟩ := h
  exact Nat.pow_le_pow_right (by omega) hj

/-- A capacity that has overflowed stays 0. -/
theorem doubleCap_zero {needed : Nat} (h : 0 < needed) :
    ∀ turns, doubleCap turns needed 0 = none := by
  intro turns
  induction turns with
  | zero => rfl
  | succ turns ih =>
      unfold doubleCap
      rw [if_pos h]
      exact ih

theorem doubleCap_power {needed cap' : Nat} :
    ∀ {turns cap : Nat}, PowerCap cap → doubleCap turns needed cap = some cap' → PowerCap cap' := by
  intro turns
  induction turns with
  | zero =>
      intro cap _ h
      cases h
  | succ turns ih =>
      intro cap hcap h
      unfold doubleCap at h
      split at h
      next hlt =>
        obtain ⟨j, hge, hle, rfl⟩ := hcap
        by_cases hlast : j = 63
        · -- 2^63 doubled is 0
          subst hlast
          have hzero : 2 ^ 63 * 2 % 2 ^ 64 = 0 := rfl
          rw [hzero, doubleCap_zero (by omega)] at h
          cases h
        · have hfit : 2 ^ j * 2 % 2 ^ 64 = 2 ^ (j + 1) := by
            rw [← Nat.pow_succ]
            exact Nat.mod_eq_of_lt (Nat.pow_lt_pow_right (by omega) (by omega))
          rw [hfit] at h
          exact ih ⟨j + 1, by omega, by omega, rfl⟩ h
      next =>
        cases h
        exact hcap

theorem ensure_capacity_power {cap cap' needed : Nat} {ok : Nat → Bool} (hcap : PowerCap cap)
    (h : ensure_capacity cap needed ok = .room cap') : PowerCap cap' ∧ needed ≤ cap' := by
  have hge := hcap.ge
  unfold ensure_capacity at h
  rw [if_neg (show ¬ cap = 0 by omega)] at h
  split at h
  next hle =>
    cases h
    exact ⟨hcap, hle⟩
  next =>
    split at h
    · cases h
    next new_cap hnew =>
      split at h
      · cases h
        exact ⟨doubleCap_power hcap hnew, le_doubleCap hnew⟩
      · cases h

/-- Where there is no room, `realloc` has failed. -/
theorem ensure_capacity_failed {cap needed : Nat} {ok : Nat → Bool}
    (h : ensure_capacity cap needed ok = .failed) : ∃ n, ok n = false := by
  unfold ensure_capacity at h
  split at h
  · cases h
  · split at h
    · cases h
    next new_cap _ =>
      split at h
      · cases h
      next hno => exact ⟨new_cap, Bool.eq_false_iff.mpr hno⟩

/-! ## §2. Requests of this worker. -/

/-- The worker's name is in the request line, which a peek shows whole, and the header block
fits the buffer. -/
structure Served (cfg : Config) (q : Request) : Prop where
  owned : ∃ name, NamesFunction q.line name ∧ name.length < HTTPMIGRATE_TARGET_LEN
    ∧ cstr name = cfg.s_function_name
  line_le : q.line.length + 2 ≤ PEEK_LEN
  head_le : q.head.length ≤ 16383

/-- The header block asks to close the connection. -/
def closes (q : Request) : Bool := should_close q.head q.head.length

/-- What the worker answers: what `sscanf` makes of the request's own body. -/
def response (cfg : Config) (q : Request) : Bytes := responseBytes cfg (cstr q.body) (closes q)

def streamOf (qs : List Request) : Bytes := (qs.map Request.bytes).flatten

def responses (cfg : Config) (qs : List Request) : Bytes := (qs.map (response cfg)).flatten

theorem streamOf_cons (q : Request) (qs : List Request) :
    streamOf (q :: qs) = q.head ++ (q.body ++ streamOf qs) := by
  unfold streamOf Request.bytes
  rw [List.map_cons, List.flatten_cons, List.append_assoc]

theorem streamOf_append (ps qs : List Request) : streamOf (ps ++ qs) = streamOf ps ++ streamOf qs := by
  unfold streamOf
  rw [List.map_append, List.flatten_append]

theorem responses_snoc (cfg : Config) (qs : List Request) (q : Request) :
    responses cfg (qs ++ [q]) = responses cfg qs ++ response cfg q := by
  unfold responses
  simp

section Scan

variable {cfg : Config} {q : Request}

/-- The line of a request ends in the window. -/
theorem lf_in_window (h : Served cfg q) (rest : Bytes) :
    Ch.lf ∈ (q.head ++ rest).take PEEK_LEN :=
  (q.lf_mem_take_iff rest PEEK_LEN).mpr h.line_le

/-- The owner that a peek finds. -/
theorem owner_in_window (h : Served cfg q) (rest : Bytes) :
    ∃ name, parse_request_owner ((q.head ++ rest).take PEEK_LEN) HTTPMIGRATE_TARGET_LEN = some name
      ∧ cstr name = cfg.s_function_name := by
  obtain ⟨name, hname, hlen, hcstr⟩ := h.owned
  refine ⟨name, ?_, hcstr⟩
  have hline : requestLine ((q.head ++ rest).take PEEK_LEN) = q.line ++ [Ch.cr] := by
    have hwhole := requestLine_append_of_mem (lf_in_window h rest) ((q.head ++ rest).drop PEEK_LEN)
    rw [List.take_append_drop] at hwhole
    rw [← hwhole, Request.requestLine_head]
  rw [parse_request_owner_iff, hline]
  exact ⟨hname.append _, hlen⟩

/-- The header block ends where the request's does. -/
theorem headerEnd_head {limit : Nat} (hle : q.head.length ≤ limit) (rest : Bytes) :
    headerEnd ((q.head ++ rest).take limit) = some (q.head.length - 4, 4) := by
  have hlt := Request.four_lt_head (q := q)
  have h4 : crlfcrlf.length = 4 := rfl
  have hfound : find_subseq ((q.head ++ rest).take limit) crlfcrlf = some (q.head.length - 4) :=
    firstOcc_take (by decide) (Request.crlfcrlf_head rest) (by omega)
  unfold headerEnd
  rw [hfound]

/-- Its lines end in CRLF, so that no other empty line ends before. -/
theorem plain_head {limit : Nat} (hle : q.head.length ≤ limit) (rest : Bytes) :
    Plain ((q.head ++ rest).take limit) := by
  have hlt := Request.four_lt_head (q := q)
  have h4 : crlfcrlf.length = 4 := rfl
  have hfound : find_subseq ((q.head ++ rest).take limit) crlfcrlf = some (q.head.length - 4) :=
    firstOcc_take (by decide) (Request.crlfcrlf_head rest) (by omega)
  unfold Plain
  rw [hfound]
  cases hlf : find_subseq ((q.head ++ rest).take limit) [Ch.lf, Ch.lf] with
  | none => trivial
  | some j =>
      show q.head.length - 4 + 4 ≤ j + 2
      by_contra hbefore
      -- it would lie in the head
      have h2 : ([Ch.lf, Ch.lf] : Bytes).length = 2 := rfl
      have hin := firstOcc_take (m := q.head.length) (by decide) hlf (by omega)
      rw [List.take_take, Nat.min_eq_left hle, List.take_left] at hin
      have hnone := Request.lflf_partial (q := q) q.head.length
      rw [List.take_length] at hnone
      exact absurd (hin.symm.trans hnone) (by simp)

/-- The length that the worker reads is the body's, as far as it counts. -/
theorem bodyLength_head (rest : Bytes) :
    bodyLength (q.head ++ rest) q.head.length = min LLONG_MAX.toNat q.body.length := by
  have hlen := Request.declared_length (q := q) rest
  unfold bodyLength LLONG_MAX at *
  omega

end Scan

/-! ## §3. The machine goes along the requests. -/

/-- What has closed the connection, when it is closed. -/
def ClosedFor (realloc_ok : Nat → Bool) (qs : List Request) : Prop :=
  (∃ n, realloc_ok n = false) ∨ ∃ q ∈ qs, closes q = true

/-- Where the machine is in the list: `done` is answered, `rest` is not touched. -/
inductive Along (cfg : Config) (realloc_ok : Nat → Bool) (qs : List Request) (k : Reading) : Prop
  | owner (done rest : List Request) : k.phase = .owner → qs = done ++ rest →
      k.rest = streamOf rest → k.out = responses cfg done → Along cfg realloc_ok qs k
  | headers (done : List Request) (q : Request) (rest : List Request) : k.phase = .headers →
      qs = done ++ q :: rest → k.rest = streamOf (q :: rest) → k.out = responses cfg done →
      Along cfg realloc_ok qs k
  | body (done : List Request) (q : Request) (rest : List Request) :
      k.phase = .body q.head.length (min LLONG_MAX.toNat q.body.length) (closes q) →
      qs = done ++ q :: rest → k.rest = q.body ++ streamOf rest → k.out = responses cfg done →
      Along cfg realloc_ok qs k
  | respond (done : List Request) (q : Request) (rest : List Request) :
      k.phase = .respond (response cfg q) (closes q) → qs = done ++ q :: rest →
      k.rest = streamOf rest → k.out = responses cfg done → Along cfg realloc_ok qs k
  | closed : k.phase = .closed → ClosedFor realloc_ok qs → Along cfg realloc_ok qs k

section Machine

variable {cfg : Config} {realloc_ok : Nat → Bool} {qs : List Request} {k k' : Reading}

theorem Along.start : Along cfg realloc_ok qs (Reading.start (streamOf qs)) :=
  .owner [] qs rfl rfl rfl rfl

/-! What the phase says about the place. -/

theorem Along.at_owner (h : Along cfg realloc_ok qs k) (hk : k.phase = .owner) :
    ∃ done rest, qs = done ++ rest ∧ k.rest = streamOf rest := by
  cases h with
  | owner done rest _ hqs hrest _ => exact ⟨done, rest, hqs, hrest⟩
  | headers _ _ _ hk' _ _ _ => exact nomatch hk.symm.trans hk'
  | body _ _ _ hk' _ _ _ => exact nomatch hk.symm.trans hk'
  | respond _ _ _ hk' _ _ _ => exact nomatch hk.symm.trans hk'
  | closed hk' _ => exact nomatch hk.symm.trans hk'

theorem Along.at_headers (h : Along cfg realloc_ok qs k) (hk : k.phase = .headers) :
    ∃ done q rest, qs = done ++ q :: rest ∧ k.rest = streamOf (q :: rest) := by
  cases h with
  | owner _ _ hk' _ _ _ => exact nomatch hk.symm.trans hk'
  | headers done q rest _ hqs hrest _ => exact ⟨done, q, rest, hqs, hrest⟩
  | body _ _ _ hk' _ _ _ => exact nomatch hk.symm.trans hk'
  | respond _ _ _ hk' _ _ _ => exact nomatch hk.symm.trans hk'
  | closed hk' _ => exact nomatch hk.symm.trans hk'

theorem Along.at_closed (h : Along cfg realloc_ok qs k) (hk : k.phase = .closed) :
    ClosedFor realloc_ok qs := by
  cases h with
  | owner _ _ hk' _ _ _ => exact nomatch hk.symm.trans hk'
  | headers _ _ _ hk' _ _ _ => exact nomatch hk.symm.trans hk'
  | body _ _ _ hk' _ _ _ => exact nomatch hk.symm.trans hk'
  | respond _ _ _ hk' _ _ _ => exact nomatch hk.symm.trans hk'
  | closed _ hwhy => exact hwhy

theorem Along.not_relayed (h : Along cfg realloc_ok qs k) (name : Bytes) :
    k.phase ≠ .relayed name := by
  intro hk
  cases h with
  | owner _ _ hk' _ _ _ => exact nomatch hk.symm.trans hk'
  | headers _ _ _ hk' _ _ _ => exact nomatch hk.symm.trans hk'
  | body _ _ _ hk' _ _ _ => exact nomatch hk.symm.trans hk'
  | respond _ _ _ hk' _ _ _ => exact nomatch hk.symm.trans hk'
  | closed hk' _ => exact nomatch hk.symm.trans hk'

/-- At a request, the machine goes on to its header block. -/
theorem Along.next_owner {done rest : List Request} (hserved : ∀ q ∈ qs, Served cfg q)
    (hk : k.phase = .owner) (hqs : qs = done ++ rest) (hrest : k.rest = streamOf rest)
    (hout : k.out = responses cfg done) (h : k.next cfg realloc_ok = some k') :
    Along cfg realloc_ok qs k' ∧ k'.cap = k.cap := by
  unfold Reading.next at h
  rw [hk] at h
  change k.atOwner cfg = some k' at h
  unfold Reading.atOwner at h
  cases rest with
  | nil =>
      rw [hrest] at h
      simp [streamOf, memchr] at h
  | cons q rest =>
      have hq : Served cfg q := hserved q (by rw [hqs]; simp)
      obtain ⟨name, hparse, hname⟩ := owner_in_window hq (q.body ++ streamOf rest)
      have hlf : ¬ memchr Ch.lf (k.rest.take PEEK_LEN) = none := by
        rw [memchr_eq_none, hrest, streamOf_cons]
        exact fun hno => hno (lf_in_window hq _)
      rw [← streamOf_cons, ← hrest] at hparse
      simp only [if_neg hlf, hparse, if_pos hname] at h
      cases h
      exact ⟨.headers done q rest rfl hqs hrest hout, rfl⟩

theorem Along.next_headers {done rest : List Request} {q : Request}
    (hserved : ∀ q ∈ qs, Served cfg q) (hk : k.phase = .headers) (hqs : qs = done ++ q :: rest)
    (hrest : k.rest = streamOf (q :: rest)) (hout : k.out = responses cfg done)
    (hcap : PowerCap k.cap) : ∃ k', k.next cfg realloc_ok = some k'
      ∧ Along cfg realloc_ok qs k' ∧ k'.cap = k.cap := by
  have hq : Served cfg q := hserved q (by rw [hqs]; simp)
  have hge := hcap.ge
  have hlt := Request.four_lt_head (q := q)
  rw [streamOf_cons] at hrest
  have hend : headerEnd (k.rest.take (k.cap - 1)) = some (q.head.length - 4, 4) := by
    rw [hrest]
    exact headerEnd_head (by have := hq.head_le; omega) _
  have hhead : k.rest.take q.head.length = q.head := by
    rw [hrest, List.take_left]
  have hdrop : k.rest.drop q.head.length = q.body ++ streamOf rest := by
    rw [hrest, List.drop_left]
  refine ⟨k.afterHead cfg q.head.length, ?_, ?_, rfl⟩
  · unfold Reading.next
    rw [hk]
    show k.atHeaders cfg = _
    unfold Reading.atHeaders
    simp only [hend]
    show some (k.afterHead cfg (q.head.length - 4 + 4)) = _
    rw [Nat.sub_add_cancel (by omega)]
  have hphase : (k.afterHead cfg q.head.length).phase
      = if 0 < min LLONG_MAX.toNat q.body.length
          then .body q.head.length (min LLONG_MAX.toNat q.body.length) (closes q)
          else .respond (responseBytes cfg [] (closes q)) (closes q) := by
    unfold Reading.afterHead
    dsimp only
    rw [hhead, bodyLength_head]
    rfl
  by_cases hbody : 0 < min LLONG_MAX.toNat q.body.length
  · rw [if_pos hbody] at hphase
    exact .body done q rest hphase hqs hdrop hout
  · rw [if_neg hbody] at hphase
    have hnil : q.body = [] := by
      have hmax : 0 < LLONG_MAX.toNat := by decide
      exact List.length_eq_zero_iff.mp (by omega)
    rw [hnil] at hdrop
    refine .respond done q rest (hphase.trans ?_) hqs hdrop hout
    unfold response
    rw [hnil]
    rfl

/-- A body that fits the buffer is read whole; one that does not is never waited for in vain. -/
theorem Along.next_body {done rest : List Request} {q : Request}
    (hk : k.phase = .body q.head.length (min LLONG_MAX.toNat q.body.length) (closes q))
    (hqs : qs = done ++ q :: rest) (hrest : k.rest = q.body ++ streamOf rest)
    (hout : k.out = responses cfg done) (hcap : PowerCap k.cap) :
    ∃ k', k.next cfg realloc_ok = some k' ∧ Along cfg realloc_ok qs k' ∧ PowerCap k'.cap := by
  have hnext : k.next cfg realloc_ok = k.atBody cfg realloc_ok q.head.length
      (min LLONG_MAX.toNat q.body.length) (closes q) := by
    unfold Reading.next
    rw [hk]
  rw [hnext]
  unfold Reading.atBody
  cases hroom : ensure_capacity k.cap
      (q.head.length + min LLONG_MAX.toNat q.body.length + 1) realloc_ok with
  | failed => exact ⟨_, rfl, .closed rfl (Or.inl (ensure_capacity_failed hroom)), hcap⟩
  | spins => exact ⟨_, rfl, .body done q rest hk hqs hrest hout, hcap⟩
  | room cap =>
      obtain ⟨hpower, hneeded⟩ := ensure_capacity_power hcap hroom
      -- the header block leaves no room for a length that was cut
      have hlt := Request.four_lt_head (q := q)
      have hle := hpower.le
      have htarget : min LLONG_MAX.toNat q.body.length = q.body.length := by
        have hmax : LLONG_MAX.toNat = 2 ^ 63 - 1 := rfl
        omega
      have hthere : ¬ k.rest.length < q.body.length := by
        rw [hrest, List.length_append]
        omega
      rw [htarget]
      simp only [if_neg hthere]
      refine ⟨_, rfl, .respond done q rest ?_ hqs ?_ hout, hpower⟩
      · simp only [hrest, List.take_left]
        rfl
      · simp only [hrest, List.drop_left]

theorem Along.next_respond {done rest : List Request} {q : Request}
    (hk : k.phase = .respond (response cfg q) (closes q)) (hqs : qs = done ++ q :: rest)
    (hrest : k.rest = streamOf rest) (hout : k.out = responses cfg done) :
    ∃ k', k.next cfg realloc_ok = some k' ∧ Along cfg realloc_ok qs k' ∧ k'.cap = k.cap := by
  unfold Reading.next
  rw [hk]
  refine ⟨_, rfl, ?_, rfl⟩
  cases hclose : closes q with
  | true => exact .closed rfl (Or.inr ⟨q, by rw [hqs]; simp, hclose⟩)
  | false =>
      refine .owner (done ++ [q]) rest rfl (by rw [hqs]; simp) hrest ?_
      rw [responses_snoc, ← hout]

/-- **The machine goes along the requests.** -/
theorem Along.next (hserved : ∀ q ∈ qs, Served cfg q) (h : Along cfg realloc_ok qs k)
    (hcap : PowerCap k.cap) (hk' : k.next cfg realloc_ok = some k') :
    Along cfg realloc_ok qs k' ∧ PowerCap k'.cap := by
  have hsame : ∀ {k''}, k.next cfg realloc_ok = some k'' → Along cfg realloc_ok qs k'' →
      PowerCap k''.cap → Along cfg realloc_ok qs k' ∧ PowerCap k'.cap := by
    intro k'' hnext hal hpow
    rw [hk'] at hnext
    cases hnext
    exact ⟨hal, hpow⟩
  cases h with
  | owner done rest hk hqs hrest hout =>
      obtain ⟨hal, hcap'⟩ := Along.next_owner hserved hk hqs hrest hout hk'
      exact ⟨hal, hcap' ▸ hcap⟩
  | headers done q rest hk hqs hrest hout =>
      obtain ⟨k'', hnext, hal, hcap'⟩ := Along.next_headers hserved hk hqs hrest hout hcap
      exact hsame hnext hal (hcap' ▸ hcap)
  | body done q rest hk hqs hrest hout =>
      obtain ⟨k'', hnext, hal, hpow⟩ := Along.next_body hk hqs hrest hout hcap
      exact hsame hnext hal hpow
  | respond done q rest hk hqs hrest hout =>
      obtain ⟨k'', hnext, hal, hcap'⟩ := Along.next_respond hk hqs hrest hout
      exact hsame hnext hal (hcap' ▸ hcap)
  | closed hk _ =>
      unfold Reading.next at hk'
      rw [hk] at hk'
      cases hk'

/-- **Where the machine stops, it has answered every request, or is closed.** -/
theorem Along.stopped (hserved : ∀ q ∈ qs, Served cfg q) (h : Along cfg realloc_ok qs k)
    (hcap : PowerCap k.cap) (hk' : k.next cfg realloc_ok = none) :
    (k.phase = .owner ∧ k.rest = [] ∧ k.out = responses cfg qs) ∨ k.phase = .closed := by
  cases h with
  | owner done rest hk hqs hrest hout =>
      left
      cases rest with
      | nil =>
          rw [List.append_nil] at hqs
          exact ⟨hk, hrest, hqs ▸ hout⟩
      | cons q rest =>
          -- the line of the next request is there
          exfalso
          have hq : Served cfg q := hserved q (by rw [hqs]; simp)
          have hlf : ¬ memchr Ch.lf (k.rest.take PEEK_LEN) = none := by
            rw [memchr_eq_none, hrest, streamOf_cons]
            exact fun hno => hno (lf_in_window hq _)
          unfold Reading.next at hk'
          rw [hk] at hk'
          change k.atOwner cfg = none at hk'
          unfold Reading.atOwner at hk'
          simp only [if_neg hlf] at hk'
          split at hk'
          · cases hk'
          · split at hk'
            · cases hk'
            · cases hk'
  | headers done q rest hk hqs hrest hout =>
      obtain ⟨k'', hnext, -⟩ := Along.next_headers hserved hk hqs hrest hout hcap
      rw [hk'] at hnext
      cases hnext
  | body done q rest hk hqs hrest hout =>
      obtain ⟨k'', hnext, -⟩ := Along.next_body hk hqs hrest hout hcap
      rw [hk'] at hnext
      cases hnext
  | respond done q rest hk hqs hrest hout =>
      obtain ⟨k'', hnext, -⟩ := Along.next_respond hk hqs hrest hout
      rw [hk'] at hnext
      cases hnext
  | closed hk _ => exact Or.inr hk

end Machine

/-! ## §4. The runs of a session. -/

section Run

variable {cfg : Config} {realloc_ok : Nat → Bool} {qs : List Request} {f f' : Flow} {k : Reading}

/-- The bytes of whole requests, where each peek shows enough. -/
def requestSystem (cfg : Config) (realloc_ok : Nat → Bool) (qs : List Request) :
    TransitionSystem Flow FlowLabel := (flowSystem cfg realloc_ok (streamOf qs)).restrict PeeksEnough

/-- A header block that the session looks for is plain. -/
theorem Along.headPlain (hserved : ∀ q ∈ qs, Served cfg q) (h : Along cfg realloc_ok qs k)
    (hcap : PowerCap k.cap) (hat : At realloc_ok f k) (l : FlowLabel)
    (hrun : (∃ c, l = .iter c) → f.mode = .running) : HeadPlain f l := by
  cases l with
  | arrive _ => trivial
  | call => trivial
  | iter c =>
      intro hs
      have hmode := hrun ⟨c, rfl⟩
      -- the session is at a header block, and so is the machine
      obtain ⟨hk, hfcap, hrest⟩ : k.phase = .headers ∧ f.s.cap = k.cap
          ∧ f.unread ++ f.future = k.rest := by
        cases hat with
        | owner _ hr _ _ _ _ =>
            rw [hr.state] at hs
            cases hs
        | headers hk hr hcap _ hrest _ => exact ⟨hk, hcap, hrest⟩
        | body _ hr _ _ _ =>
            rw [hr.state] at hs
            cases hs
        | respond _ hr _ _ =>
            rw [hr.state] at hs
            cases hs
        | closed _ hclosed _ _ =>
            rw [hmode] at hclosed
            cases hclosed
        | relayed _ hrelayed _ _ =>
            rw [hmode] at hrelayed
            cases hrelayed
      obtain ⟨done, q, rest, hqs, hstream⟩ := h.at_headers hk
      have hq : Served cfg q := hserved q (by rw [hqs]; simp)
      have hge := hcap.ge
      rw [hrest, hstream, streamOf_cons, hfcap]
      exact plain_head (by have := hq.head_le; omega) _

/-- Every state of a run has a place among the requests. -/
theorem Flow.along (hserved : ∀ q ∈ qs, Served cfg q)
    (h : (requestSystem cfg realloc_ok qs).Reachable f) :
    ∃ k, Along cfg realloc_ok qs k ∧ PowerCap k.cap ∧ At realloc_ok f k := by
  refine h.invariant
    (fun f => ∃ k, Along cfg realloc_ok qs k ∧ PowerCap k.cap ∧ At realloc_ok f k) ?_ ?_
  · exact fun f hinit => ⟨_, Along.start, PowerCap.start, At.initial hinit⟩
  · intro f l f' hf hst
    obtain ⟨k, hal, hcap, hat⟩ := hf
    have hplain : HeadPlain f l := by
      refine hal.headPlain hserved hcap hat l ?_
      intro hl
      obtain ⟨c, rfl⟩ := hl
      cases hst.1 with
      | iter _ hrun _ => exact hrun
    obtain ⟨k', hmove, hat'⟩ := hat.step hst.1 hst.2 hplain
    rcases hmove with rfl | hmove
    · exact ⟨k', hal, hcap, hat'⟩
    · obtain ⟨hal', hcap'⟩ := hal.next hserved hcap hmove
      exact ⟨k', hal', hcap', hat'⟩

/-- A session that looks for the next request is at its first byte. -/
theorem At.at_request (h : Along cfg realloc_ok qs k) (hat : At realloc_ok f k)
    (hlive : f.mode = .running ∨ f.mode = .waiting) (hs : f.s.state = .peek_owner) :
    ∃ done rest, qs = done ++ rest ∧ f.unread ++ f.future = streamOf rest := by
  cases hat with
  | owner hk _ _ _ hrest _ =>
      obtain ⟨done, rest, hqs, hstream⟩ := h.at_owner hk
      exact ⟨done, rest, hqs, hrest.trans hstream⟩
  | headers _ hr _ _ _ _ =>
      rw [hr.state] at hs
      cases hs
  | body _ hr _ _ _ =>
      rw [hr.state] at hs
      cases hs
  | respond _ hr _ _ =>
      rw [hr.state] at hs
      cases hs
  | closed _ hmode _ _ =>
      rw [hmode] at hlive
      rcases hlive with h | h <;> cases h
  | relayed _ hmode _ _ =>
      rw [hmode] at hlive
      rcases hlive with h | h <;> cases h

/-- A session that has gone was closed, and for a reason. -/
theorem At.gone (h : Along cfg realloc_ok qs k) (hat : At realloc_ok f k) :
    (f.mode = .closed → ClosedFor realloc_ok qs) ∧ ∀ name, f.mode ≠ .relayed name := by
  have hlive : f.mode = .running ∨ f.mode = .waiting →
      (f.mode = .closed → ClosedFor realloc_ok qs) ∧ ∀ name, f.mode ≠ .relayed name := by
    intro hmode
    constructor
    · intro hclosed
      rw [hclosed] at hmode
      rcases hmode with h | h <;> cases h
    · intro name hrelayed
      rw [hrelayed] at hmode
      rcases hmode with h | h <;> cases h
  cases hat with
  | owner _ hr _ _ _ _ => exact hlive hr.live
  | headers _ hr _ _ _ _ => exact hlive hr.live
  | body _ hr _ _ _ => exact hlive hr.live
  | respond _ hr _ _ => exact hlive (hr.live.imp_right And.left)
  | closed hk hmode _ _ =>
      refine ⟨fun _ => h.at_closed hk, fun name hrelayed => ?_⟩
      rw [hmode] at hrelayed
      cases hrelayed
  | relayed hk _ _ _ => exact absurd hk (h.not_relayed _)

/-- What is left of the stream says how much has been taken. -/
theorem consumed_of_left {done rest : List Request} (hqs : qs = done ++ rest)
    (h : (flowSystem cfg realloc_ok (streamOf qs)).Reachable f)
    (hrest : f.unread ++ f.future = streamOf rest) : f.consumed = (streamOf done).length := by
  have hsum := Flow.consumed_eq h
  have hleft := congrArg List.length hrest
  rw [List.length_append] at hleft
  rw [hqs, streamOf_append, List.length_append] at hsum
  omega

/-- **Each request is answered once.**  A session that waits, to which the whole stream has
been reported and whose responses the socket has taken, has sent one response for each request,
in order, and has taken out of the socket the bytes of the requests; and a session that looks
for the next request has taken out exactly the requests before it. -/
theorem exactly_once (cfg : Config) (realloc_ok : Nat → Bool) (qs : List Request) {f : Flow}
    (hserved : ∀ q ∈ qs, Served cfg q) (h : (requestSystem cfg realloc_ok qs).Reachable f) :
    (f.mode = .waiting → f.Quiescent →
        f.out = responses cfg qs ∧ f.consumed = (streamOf qs).length ∧ f.unread = [])
      ∧ (f.mode = .running ∨ f.mode = .waiting → f.s.state = .peek_owner →
        ∃ done rest, qs = done ++ rest ∧ f.consumed = (streamOf done).length
          ∧ f.unread ++ f.future = streamOf rest)
      ∧ (f.mode = .closed → ClosedFor realloc_ok qs) ∧ ∀ name, f.mode ≠ .relayed name := by
  obtain ⟨k, hal, hcap, hat⟩ := Flow.along hserved h
  have hreach := h.of_restrict
  refine ⟨?_, ?_, At.gone hal hat⟩
  · intro hwait hq
    obtain ⟨hstop, hout, hleft, hdec⟩ := hat.quiescent cfg hq
    rcases hal.stopped hserved hcap hstop with ⟨hk, hrest, hall⟩ | hk
    · have hnil : f.unread = [] := by
        unfold Reading.left at hleft
        rw [hk, hrest] at hleft
        exact List.length_eq_zero_iff.mp hleft
      have hsum := Flow.consumed_eq hreach
      rw [hnil, hq.arrived] at hsum
      exact ⟨hout.trans hall, hsum, hnil⟩
    · -- a closed session does not wait
      rw [hwait, hk] at hdec
      cases hdec
  · intro hlive hs
    obtain ⟨done, rest, hqs, hrest⟩ := At.at_request hal hat hlive hs
    exact ⟨done, rest, hqs, consumed_of_left hqs hreach hrest, hrest⟩

end Run

/-- A request without a body. -/
def getSumA : Request where
  line := ascii "GET /function/sum-a H"
  headers := []
  body := []
  isLine := by
    intro l hl
    rw [List.mem_singleton.mp hl]
    unfold IsLine
    decide
  declares := Or.inr ⟨rfl, by decide⟩

def postSumA : Request where
  line := ascii "POST /function/sum-a H"
  headers := [ascii "Content-Length: 3"]
  body := ascii "4 5"
  isLine := by
    intro l hl
    unfold IsLine
    revert l
    decide
  declares := by
    refine Or.inl ⟨[ascii "POST /function/sum-a H"], ascii "Content-Length: 3", [], rfl, ?_,
      by decide +kernel⟩
    exact ⟨ascii "Content-Length:", [Ch.space], ascii "3", [], by decide +kernel⟩

theorem served_sumA : ∀ q ∈ [postSumA, getSumA], Served sumA q := by
  intro q hq
  have howned : ∀ q : Request, (q.line = postSumA.line ∨ q.line = getSumA.line) →
      ∃ name, NamesFunction q.line name ∧ name.length < HTTPMIGRATE_TARGET_LEN
        ∧ cstr name = sumA.s_function_name := by
    intro q hline
    refine ⟨ascii "sum-a", ?_, by decide +kernel, by decide +kernel⟩
    rcases hline with h | h
    · exact ⟨ascii "POST", [], ascii "H", by rw [h]; decide +kernel⟩
    · exact ⟨ascii "GET", [], ascii "H", by rw [h]; decide +kernel⟩
  simp only [List.mem_cons, List.not_mem_nil, or_false] at hq
  rcases hq with rfl | rfl
  · exact ⟨howned _ (Or.inl rfl), by decide, by decide⟩
  · exact ⟨howned _ (Or.inr rfl), by decide, by decide⟩

/-- Two requests in two pieces, of which the first ends in the header block. -/
def twoPieces : List Act := [.arrive 40, .turn, .turn, .arrive 33, .call, .turn, .turn, .call, .turn,
  .turn] ++ serve

theorem exactly_once_sumA :
    let f := (accepted (streamOf [postSumA, getSumA])).acts sumA (fun _ => true) twoPieces
    f.out = responses sumA [postSumA, getSumA] ∧ f.consumed = (streamOf [postSumA, getSumA]).length
      ∧ f.unread = [] :=
  (exactly_once sumA (fun _ => true) [postSumA, getSumA] served_sumA
    ((arrival_acts _ twoPieces).restrict_mono fun _ _ _ hst hwhole => hwhole.enough hst)).1
    (by decide +kernel) (by decide +kernel)

/-- A peek that shows three bytes of what is there. -/
def shortPeek : Calls where
  recv := .data (ascii "GET")
  drain := .eagain
  send := .eagain
  realloc_ok := fun _ => true
  epoll_mod_ok := true

/-- Nothing is there when the session is registered; the request arrives, and epoll reports it. -/
def reported : Flow :=
  (accepted (streamOf [getSumA])).acts sumA (fun _ => true) [.turn, .arrive 25, .call]

/-- **A short peek leaves a request unanswered**: the session waits for bytes that are there, and
no event is due. -/
theorem short_peek_unanswered :
    (∀ q ∈ [getSumA], Served sumA q ∧ closes q = false)
      ∧ ∃ f, (flowSystem sumA (fun _ => true) (streamOf [getSumA])).Reachable f
        ∧ f.mode = .waiting ∧ f.Quiescent ∧ f.unread = streamOf [getSumA] ∧ f.consumed = 0
        ∧ f.out = [] ∧ f.out ≠ responses sumA [getSumA] := by
  have hserved : ∀ q ∈ [getSumA], Served sumA q ∧ closes q = false := by
    intro q hq
    refine ⟨served_sumA q (List.mem_cons_of_mem _ hq), ?_⟩
    rw [List.mem_singleton.mp hq]
    decide
  have hlegal : reported.Legal (fun _ => true) shortPeek := by
    have hstate : reported.s.state = .peek_owner := by decide
    have hunread : reported.unread = streamOf [getSumA] := by decide
    constructor
    · intro _
      rw [hunread]
      exact Or.inr ⟨3, by decide, by decide, by decide, by decide⟩
    · rw [hstate]
      exact nofun
    · rw [hstate]
      exact nofun
    · rw [hstate]
      exact nofun
    · rw [hstate]
      exact nofun
    · rfl
    · rfl
  have hreach := (arrival_acts (streamOf [getSumA]) [.turn, .arrive 25, .call]).of_restrict
  exact ⟨hserved, _, .step hreach (.iter shortPeek (by decide) hlegal), by decide, by decide,
    by decide, by decide, by decide, by decide⟩

end TlsMigration.HttpKa
