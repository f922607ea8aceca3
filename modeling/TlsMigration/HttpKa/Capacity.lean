/-
  TlsMigration.HttpKa.Capacity
  ────────────────────────────
  **THE ROOM FOR A BODY, AND WHETHER READING IT ENDS** (`ensure_capacity`,
  `parse_content_length` and `session_advance`,
  sumprod-timing-fn-a/timing_fn_ka_worker.c).

  The client chooses the body's length, up to `LLONG_MAX`.  The buffer is
  doubled until the length fits; its capacity is a power of two, the largest
  is `2 ^ 63`, and what is larger than that is doubled for to reach for ever.

    • `ensure_capacity_spins_iff` — when the doubling does not end;
    • `Reached.inv`               — no size wraps, and every byte is written
                                    inside the buffer;
    • `read_body_returns_iff`     — when a call of `session_advance` returns.
-/
import TlsMigration.HttpKa.ExactlyOnce

namespace TlsMigration.HttpKa

open TlsMigration.Http TlsMigration.Handoff

/-! ## §1. Sizes. -/

/-- **The doubling does not end** exactly for what is larger than `2 ^ 63`. -/
theorem ensure_capacity_spins_iff {cap needed : Nat} (ok : Nat → Bool) (hcap : PowerCap cap) :
    ensure_capacity cap needed ok = .spins ↔ 2 ^ 63 < needed := by
  have hge := hcap.ge
  have hle := hcap.le
  unfold ensure_capacity
  rw [if_neg (show ¬ cap = 0 by omega)]
  constructor
  · intro h
    by_contra hsmall
    split at h
    · cases h
    · have hturns : needed ≤ cap * 2 ^ 64 := by omega
      obtain ⟨cap', hdouble⟩ := doubleCap_room 64 (by omega) (by omega) hturns
      rw [hdouble] at h
      dsimp only at h
      split at h <;> cases h
  · intro hbig
    rw [if_neg (by omega)]
    cases hdouble : doubleCap 65 needed cap with
    | none => rfl
    | some cap' =>
        -- it would be a power of two beyond the largest one
        have hpower := (doubleCap_power hcap hdouble).le
        have hroom := le_doubleCap hdouble
        omega

/-- The header block needs no more room than there is. -/
theorem ensure_capacity_headers {cap : Nat} (hcap : PowerCap cap) (ok : Nat → Bool) :
    ensure_capacity cap (4096 + 1) ok = .room cap := by
  have hge := hcap.ge
  unfold ensure_capacity
  rw [if_pos (by omega)]

theorem strtoll_lt {s : Bytes} {v : Int} (h : strtoll s = some v) : v < 2 ^ 63 := by
  have hmax : LLONG_MAX < 2 ^ 63 := by decide
  have hmin : LLONG_MIN < 2 ^ 63 := by decide
  have hneg : ∀ n : Nat, -(n : Int) < 2 ^ 63 := fun n => by omega
  -- whatever the sign and the digits are
  have hclamp : ∀ p : Bool × Bytes,
      (if p.2.takeWhile isDigit = [] then none
        else some (if p.1 then max LLONG_MIN (-(digitsVal 0 (p.2.takeWhile isDigit) : Int))
          else min LLONG_MAX (digitsVal 0 (p.2.takeWhile isDigit) : Int))) = some v →
      v < 2 ^ 63 := by
    intro p hp
    split at hp
    next => cases hp
    next =>
      injection hp with hp
      rw [← hp]
      split
      · exact Int.max_lt.mpr ⟨hmin, hneg _⟩
      · exact Int.lt_of_le_of_lt (Int.min_le_left _ _) hmax
  exact hclamp _ h

theorem scanLines_value {α : Type*} {body : Bytes → Bytes → Bytes → Option α} {v : α} :
    ∀ (fuel : Nat) (h mem : Bytes), scanLines body fuel h mem = some v →
      ∃ line h' mem', body line h' mem' = some v := by
  intro fuel
  induction fuel with
  | zero =>
      intro h mem hs
      cases hs
  | succ fuel ih =>
      intro h mem hs
      unfold scanLines at hs
      split at hs
      · cases hs
      · dsimp only at hs
        split at hs
        next v' hbody =>
          injection hs with hs
          subst hs
          exact ⟨_, _, _, hbody⟩
        next => exact ih _ _ hs

/-- **A length is a non-negative `long long`.** -/
theorem bodyLength_lt (mem : Bytes) (hdr_sz : Nat) : bodyLength mem hdr_sz < 2 ^ 63 := by
  unfold bodyLength parse_content_length parse_header_int64
  cases hs : scanLines (headerValue contentLength) hdr_sz (mem.take hdr_sz) mem with
  | none => decide
  | some v =>
      obtain ⟨line, h', mem', hbody⟩ := scanLines_value _ _ _ hs
      unfold headerValue at hbody
      split at hbody
      · have hlt := strtoll_lt hbody
        show v.toNat < 2 ^ 63
        omega
      · cases hbody

/-! ## §2. Sessions. -/

/-- How many bytes the iteration's `recv` asks for. -/
def Session.asked (s : Session) : Nat :=
  match s.state with
  | .peek_owner => PEEK_LEN
  -- the capacity is large enough already: `ensure_capacity_headers`
  | .read_headers => s.cap - 1
  | .read_body => s.body_target - s.body_in
  | .write_response => 0

/-- No `recv` returns more than it was asked for. -/
structure Session.Bounded (s : Session) (c : Calls) : Prop where
  recv : ∀ bytes, c.recv = .data bytes → bytes.length ≤ s.asked
  drain : ∀ shown bytes hdr_end sep_len, c.recv = .data shown →
    headerEnd shown = some (hdr_end, sep_len) → c.drain = .data bytes →
    bytes.length ≤ hdr_end + sep_len

/-- The states of a session, iteration by iteration. -/
inductive Reached (cfg : Config) (client_fd : Fd) (pipe_fd : Option Fd) : Session → Prop where
  | new : Reached cfg client_fd pipe_fd (session_new client_fd pipe_fd)
  | iter {s : Session} {c : Calls} : Reached cfg client_fd pipe_fd s → s.Bounded c →
      Reached cfg client_fd pipe_fd (session_iter cfg s c).1

/-- `mem` is what has been written of the buffer, the byte behind the received ones
included. -/
structure SizeInv (s : Session) : Prop where
  cap : PowerCap s.cap
  inside : s.mem.length ≤ s.cap
  target : s.body_target < 2 ^ 63
  body_in : s.body_in ≤ s.body_target
  len : s.state = .read_body → s.len ≤ s.body_in + (2 ^ 63 - 1) ∧ s.len < s.mem.length

/-- `s->buf[s->len]` lies inside the buffer, and `s->len + want + 1` does not wrap. -/
structure InBounds (s : Session) : Prop where
  written : s.mem.length ≤ s.cap
  terminator : s.state = .read_body → s.len < s.cap
  exact_size : s.state = .read_body → s.len + (s.body_target - s.body_in) + 1 < 2 ^ 64
  no_underflow : s.body_in ≤ s.body_target

theorem SizeInv.inBounds {s : Session} (h : SizeInv s) : InBounds s where
  written := h.inside
  terminator hst := Nat.lt_of_lt_of_le (h.len hst).2 h.inside
  exact_size hst := by
    have hlen := (h.len hst).1
    have htarget := h.target
    have hin := h.body_in
    omega
  no_underflow := h.body_in

theorem SizeInv.new (client_fd : Fd) (pipe_fd : Option Fd) :
    SizeInv (session_new client_fd pipe_fd) where
  cap := PowerCap.start
  inside := Nat.zero_le _
  target := by
    show 0 < 2 ^ 63
    decide
  body_in := Nat.le_refl 0
  len := by
    intro h
    cases h

/-- An update that leaves the sizes alone, and does not start a body. -/
theorem SizeInv.same {s s' : Session} (h : SizeInv s) (hcap : s'.cap = s.cap)
    (hmem : s'.mem = s.mem) (htarget : s'.body_target = s.body_target)
    (hin : s'.body_in = s.body_in) (hst : s'.state ≠ .read_body) : SizeInv s' where
  cap := hcap ▸ h.cap
  inside := by
    rw [hcap, hmem]
    exact h.inside
  target := htarget ▸ h.target
  body_in := by
    rw [hin, htarget]
    exact h.body_in
  len := fun he => absurd he hst

theorem length_poke {mem bytes : Bytes} {off : Nat} (h : off ≤ mem.length) :
    (poke mem off bytes).length = max mem.length (off + bytes.length) := by
  unfold poke
  simp only [List.length_append, List.length_take, List.length_drop]
  omega

section Iterations

variable {cfg : Config} {s : Session} {c : Calls}

/-- A response starts with what the sizes are. -/
theorem SizeInv.build_response (cfg : Config) (c : Calls) (h : SizeInv s) :
    SizeInv (session_build_response cfg s c).1
      ∧ (session_build_response cfg s c).2.isAgain = false := by
  unfold session_build_response
  dsimp only
  have hnotify : ∀ s' : Session, SizeInv s' → s'.state = .write_response →
      SizeInv s'.notify ∧ s'.notify.state = .write_response := by
    intro s' h' hst
    unfold Session.notify
    split
    · exact ⟨h'.same rfl rfl rfl rfl (by rw [hst]; decide), hst⟩
    · exact ⟨h', hst⟩
  have hready : SizeInv { s with
      resp := responseBytes cfg (cstr (s.mem.drop s.hdr_sz)) s.should_close
      resp_off := 0
      state := .write_response } := h.same rfl rfl rfl rfl (by simp)
  obtain ⟨hnext, hstate⟩ := hnotify _ hready rfl
  split
  · refine ⟨hnext.same rfl rfl rfl rfl ?_, rfl⟩
    show Session.state (Session.notify _) ≠ .read_body
    rw [hstate]
    decide
  · exact ⟨hnext, rfl⟩

/-- The body length that a header block announces, parsed in the buffer it was drained
into. -/
def Session.announced (s : Session) (shown bytes : Bytes) (hdr_sz : Nat) : Nat :=
  bodyLength (poke (poke s.mem 0 (shown ++ [Ch.nul])) 0 (bytes ++ [Ch.nul])) hdr_sz

/-- **One iteration in `WS_READ_HEADERS`** keeps the sizes, and ends the call unless a
header block announces a body. -/
theorem SizeInv.read_headers (cfg : Config) (h : SizeInv s) (hst : s.state = .read_headers)
    (hc : s.Bounded c) :
    SizeInv (session_read_headers cfg s c).1
      ∧ ((session_read_headers cfg s c).2.isAgain = false
        ∨ ∃ shown bytes hdr_end sep_len, c.recv = .data shown
          ∧ headerEnd shown = some (hdr_end, sep_len) ∧ c.drain = .data bytes
          ∧ 0 < s.announced shown bytes (hdr_end + sep_len)
          ∧ (session_read_headers cfg s c).1.state = .read_body
          ∧ (session_read_headers cfg s c).1.len = bytes.length
          ∧ (session_read_headers cfg s c).1.body_in = 0
          ∧ (session_read_headers cfg s c).1.body_target
            = s.announced shown bytes (hdr_end + sep_len)) := by
  have hle := h.cap.le
  have hge := h.cap.ge
  have hbody : s.state ≠ .read_body := by
    rw [hst]
    decide
  have hasked : s.asked = s.cap - 1 := by
    unfold Session.asked
    rw [hst]
  have hrecv := hc.recv
  rw [hasked] at hrecv
  unfold session_read_headers
  rw [ensure_capacity_headers h.cap]
  dsimp only
  cases hr : c.recv with
  | eagain => exact ⟨h.same rfl rfl rfl rfl hbody, Or.inl rfl⟩
  | error => exact ⟨h.same rfl rfl rfl rfl hbody, Or.inl rfl⟩
  | data shown =>
      dsimp only
      have hshown := hrecv shown hr
      -- the terminator behind what was peeked
      have hpeeked : (poke s.mem 0 (shown ++ [Ch.nul])).length ≤ s.cap := by
        have hinside := h.inside
        rw [length_poke (Nat.zero_le _), List.length_append, List.length_singleton]
        omega
      have hkept : SizeInv { s with mem := poke s.mem 0 (shown ++ [Ch.nul]) } :=
        ⟨h.cap, hpeeked, h.target, h.body_in, fun he => absurd he hbody⟩
      split
      · exact ⟨h.same rfl rfl rfl rfl hbody, Or.inl rfl⟩
      · cases hend : headerEnd shown with
        | none =>
            dsimp only
            split
            · exact ⟨hkept.same rfl rfl rfl rfl hbody, Or.inl rfl⟩
            · exact ⟨hkept.same rfl rfl rfl rfl hbody, Or.inl rfl⟩
        | some p =>
            obtain ⟨hdr_end, sep_len⟩ := p
            dsimp only
            cases hd : c.drain with
            | eagain => exact ⟨hkept.same rfl rfl rfl rfl hbody, Or.inl rfl⟩
            | error => exact ⟨hkept.same rfl rfl rfl rfl hbody, Or.inl rfl⟩
            | data bytes =>
                dsimp only
                have hdrained := hc.drain shown bytes hdr_end sep_len hr hend hd
                have hblock := (headerEnd_le hend).2
                have hmem : (poke (poke s.mem 0 (shown ++ [Ch.nul])) 0 (bytes ++ [Ch.nul])).length
                    ≤ s.cap ∧ bytes.length
                      < (poke (poke s.mem 0 (shown ++ [Ch.nul])) 0 (bytes ++ [Ch.nul])).length := by
                  rw [length_poke (Nat.zero_le _), List.length_append, List.length_singleton]
                  omega
                have hlt := bodyLength_lt
                  (poke (poke s.mem 0 (shown ++ [Ch.nul])) 0 (bytes ++ [Ch.nul]))
                  (hdr_end + sep_len)
                unfold session_headers_read
                dsimp only
                split
                next hpos =>
                  refine ⟨⟨h.cap, hmem.1, hlt, Nat.zero_le _, fun _ => ⟨?_, hmem.2⟩⟩,
                    Or.inr ⟨shown, bytes, hdr_end, sep_len, rfl, hend, rfl, hpos, rfl, rfl, rfl,
                      rfl⟩⟩
                  show bytes.length ≤ 0 + (2 ^ 63 - 1)
                  omega
                next =>
                  obtain ⟨hnext, hends⟩ := SizeInv.build_response cfg c
                    (s := { s with
                      mem := poke (poke s.mem 0 (shown ++ [Ch.nul])) 0 (bytes ++ [Ch.nul])
                      hdr_sz := hdr_end + sep_len
                      len := bytes.length
                      body_target := bodyLength
                        (poke (poke s.mem 0 (shown ++ [Ch.nul])) 0 (bytes ++ [Ch.nul]))
                        (hdr_end + sep_len)
                      body_in := 0
                      should_close := HttpKa.should_close
                        (poke (poke s.mem 0 (shown ++ [Ch.nul])) 0 (bytes ++ [Ch.nul]))
                        (hdr_end + sep_len) })
                    ⟨h.cap, hmem.1, hlt, Nat.zero_le _, fun he => absurd he hbody⟩
                  exact ⟨hnext, Or.inl hends⟩

/-- **One iteration in `WS_READ_BODY`** keeps the sizes, and it does one of three things: it
ends the call, it moves bytes from what is wanted to what is there, or it spins. -/
theorem SizeInv.read_body (cfg : Config) (h : SizeInv s) (hst : s.state = .read_body)
    (hc : s.Bounded c) :
    SizeInv (session_read_body cfg s c).1
      ∧ ((session_read_body cfg s c).2.isAgain = false
          ∧ (s.body_target - s.body_in = 0
            ∨ s.len + (s.body_target - s.body_in) + 1 ≤ 2 ^ 63)
        ∨ (s.len + (s.body_target - s.body_in) + 1 ≤ 2 ^ 63
          ∧ 0 < Flow.taken s c
          ∧ (session_read_body cfg s c).1.state = .read_body
          ∧ (session_read_body cfg s c).1.len + ((session_read_body cfg s c).1.body_target
              - (session_read_body cfg s c).1.body_in) + 1
            = s.len + (s.body_target - s.body_in) + 1)
        ∨ (s.body_target - s.body_in ≠ 0
          ∧ 2 ^ 63 < s.len + (s.body_target - s.body_in) + 1
          ∧ session_read_body cfg s c = (s, .again))) := by
  have hasked : s.asked = s.body_target - s.body_in := by
    unfold Session.asked
    rw [hst]
  have hrecv := hc.recv
  rw [hasked] at hrecv
  obtain ⟨hlen, hmemlen⟩ := h.len hst
  have hbodyin := h.body_in
  by_cases hwant : s.body_target - s.body_in = 0
  · have he : session_read_body cfg s c = session_build_response cfg s c := by
      unfold session_read_body
      exact if_pos hwant
    rw [he]
    obtain ⟨hnext, hends⟩ := h.build_response cfg c
    exact ⟨hnext, Or.inl ⟨hends, Or.inl hwant⟩⟩
  · unfold session_read_body
    dsimp only
    rw [if_neg hwant]
    cases hroom : ensure_capacity s.cap (s.len + (s.body_target - s.body_in) + 1) c.realloc_ok with
    | spins =>
        have hbig := (ensure_capacity_spins_iff c.realloc_ok h.cap).mp hroom
        exact ⟨h, Or.inr (Or.inr ⟨hwant, hbig, rfl⟩)⟩
    | failed =>
        have hsmall : s.len + (s.body_target - s.body_in) + 1 ≤ 2 ^ 63 := by
          by_contra hbig
          have hspins := (ensure_capacity_spins_iff c.realloc_ok h.cap).mpr
            (Nat.lt_of_not_le hbig)
          rw [hroom] at hspins
          cases hspins
        exact ⟨h, Or.inl ⟨rfl, Or.inr hsmall⟩⟩
    | room cap =>
        obtain ⟨hcap, hfits⟩ := ensure_capacity_power h.cap hroom
        have hgrown := ensure_capacity_ge hroom
        have hsmall : s.len + (s.body_target - s.body_in) + 1 ≤ 2 ^ 63 :=
          Nat.le_trans hfits hcap.le
        have hkept : SizeInv { s with cap := cap } :=
          ⟨hcap, Nat.le_trans h.inside hgrown, h.target, h.body_in, h.len⟩
        dsimp only
        cases hr : c.recv with
        | eagain => exact ⟨hkept, Or.inl ⟨rfl, Or.inr hsmall⟩⟩
        | error => exact ⟨hkept, Or.inl ⟨rfl, Or.inr hsmall⟩⟩
        | data bytes =>
            dsimp only
            split
            · exact ⟨hkept, Or.inl ⟨rfl, Or.inr hsmall⟩⟩
            next hne =>
              have hbytes := hrecv bytes hr
              have hpos := List.length_pos_of_ne_nil hne
              -- the received bytes and the terminator lie inside the buffer
              have hmem : (poke s.mem s.len (bytes ++ [Ch.nul])).length ≤ cap
                  ∧ s.len + bytes.length < (poke s.mem s.len (bytes ++ [Ch.nul])).length := by
                have hinside := h.inside
                rw [length_poke (Nat.le_of_lt hmemlen), List.length_append, List.length_singleton]
                omega
              split
              next hmore =>
                refine ⟨⟨hcap, hmem.1, h.target, Nat.le_of_lt hmore, fun _ => ⟨?_, hmem.2⟩⟩,
                  Or.inr (Or.inl ⟨hsmall, ?_, hst, ?_⟩)⟩
                · show s.len + bytes.length ≤ s.body_in + bytes.length + (2 ^ 63 - 1)
                  omega
                · unfold Flow.taken
                  rw [hst]
                  dsimp only
                  rw [hroom, hr]
                  dsimp only
                  rw [if_neg hwant]
                  exact hpos
                · show s.len + bytes.length + (s.body_target - (s.body_in + bytes.length)) + 1 = _
                  omega
              next hall =>
                obtain ⟨hnext, hends⟩ := SizeInv.build_response cfg c
                  (s := { s with
                    cap := cap
                    mem := poke s.mem s.len (bytes ++ [Ch.nul])
                    len := s.len + bytes.length
                    body_in := s.body_in + bytes.length })
                  ⟨hcap, hmem.1, h.target, by dsimp only; omega, fun _ => ⟨by dsimp only; omega, hmem.2⟩⟩
                exact ⟨hnext, Or.inl ⟨hends, Or.inr hsmall⟩⟩

/-- **Every iteration keeps the sizes.** -/
theorem SizeInv.iter (cfg : Config) (h : SizeInv s) (hc : s.Bounded c) :
    SizeInv (session_iter cfg s c).1 := by
  unfold session_iter
  cases hst : s.state with
  | peek_owner =>
      have hbody : s.state ≠ .read_body := by
        rw [hst]
        decide
      unfold session_peek_owner
      dsimp only
      split
      · exact h
      · exact h
      · split
        · exact h
        · split
          · exact h
          · split
            · exact h
            · split
              · exact h.same rfl rfl rfl rfl (by simp)
              · exact h
  | read_headers => exact (h.read_headers cfg hst hc).1
  | read_body => exact (h.read_body cfg hst hc).1
  | write_response =>
      have hbody : s.state ≠ .read_body := by
        rw [hst]
        decide
      have hreset : SizeInv { s with
          req_no := s.req_no + 1
          first_request := false
          len := 0, hdr_sz := 0, body_in := 0, body_target := 0
          state := .peek_owner } :=
        ⟨h.cap, h.inside, by dsimp only; decide, Nat.le_refl 0, fun he => by cases he⟩
      unfold session_write_response session_finish_response
      dsimp only
      split
      · split
        · exact h
        · exact h
        · split
          · exact h
          · exact h.same rfl rfl rfl rfl hbody
      · split
        · exact h
        · split
          · exact hreset.same rfl rfl rfl rfl (by simp)
          · exact hreset

end Iterations

/-- **In every reached state no size wraps, and all that was written lies in the buffer.** -/
theorem Reached.inv {cfg : Config} {client_fd : Fd} {pipe_fd : Option Fd} {s : Session}
    (h : Reached cfg client_fd pipe_fd s) : SizeInv s := by
  induction h with
  | new => exact SizeInv.new client_fd pipe_fd
  | iter _ hc ih => exact ih.iter cfg hc

/-! ## §3. One call. -/

/-- The state before iteration `n`. -/
def stateAt (cfg : Config) (s : Session) (calls : Nat → Calls) : Nat → Session
  | 0 => s
  | n + 1 => stateAt cfg (session_iter cfg s (calls 0)).1 (fun k => calls (k + 1)) n

/-- The bytes that the first `n` iterations take out of the socket. -/
def takenBy (cfg : Config) (s : Session) (calls : Nat → Calls) : Nat → Nat
  | 0 => 0
  | n + 1 => Flow.taken s (calls 0)
      + takenBy cfg (session_iter cfg s (calls 0)).1 (fun k => calls (k + 1)) n

/-- No iteration receives more than it asked for. -/
def AllBounded (cfg : Config) (s : Session) (calls : Nat → Calls) : Prop :=
  ∀ n, (stateAt cfg s calls n).Bounded (calls n)

def firstCalls (calls : Nat → Calls) : Nat → List Calls
  | 0 => []
  | n + 1 => calls 0 :: firstCalls (fun k => calls (k + 1)) n

/-- `session_advance` comes to an iteration that ends it. -/
def Returns (cfg : Config) (s : Session) (calls : Nat → Calls) : Prop :=
  ∃ n ctl, (session_advance cfg s (firstCalls calls n)).2.getLast? = some ctl
    ∧ ctl.isAgain = false

section Streams

variable {cfg : Config} {s : Session} {calls : Nat → Calls}

theorem AllBounded.head (h : AllBounded cfg s calls) : s.Bounded (calls 0) := h 0

theorem AllBounded.tail (h : AllBounded cfg s calls) :
    AllBounded cfg (session_iter cfg s (calls 0)).1 (fun k => calls (k + 1)) := fun n => h (n + 1)

theorem SizeInv.along (h : SizeInv s) (hb : AllBounded cfg s calls) (n : Nat) :
    SizeInv (stateAt cfg s calls n) := by
  induction n generalizing s calls with
  | zero => exact h
  | succ n ih => exact ih (h.iter cfg hb.head) hb.tail

/-- An iteration that ends the call. -/
theorem Returns.done (h : (session_iter cfg s (calls 0)).2.isAgain = false) :
    Returns cfg s calls := by
  refine ⟨1, (session_iter cfg s (calls 0)).2, ?_, h⟩
  show (pollUntil (session_iter cfg) Ctl.isAgain s [calls 0]).2.getLast? = _
  rw [pollUntil_done [] h]
  rfl

/-- And one that does not. -/
theorem returns_again_iff (h : (session_iter cfg s (calls 0)).2.isAgain = true) :
    Returns cfg s calls
      ↔ Returns cfg (session_iter cfg s (calls 0)).1 (fun k => calls (k + 1)) := by
  have hunfold : ∀ n, (session_advance cfg s (firstCalls calls (n + 1))).2
      = (session_iter cfg s (calls 0)).2 :: (session_advance cfg
        (session_iter cfg s (calls 0)).1 (firstCalls (fun k => calls (k + 1)) n)).2 := by
    intro n
    show (pollUntil (session_iter cfg) Ctl.isAgain s (calls 0 :: _)).2 = _
    rw [pollUntil_again _ h]
    rfl
  constructor
  · rintro ⟨n, ctl, hlast, hends⟩
    cases n with
    | zero => cases hlast
    | succ n =>
        rw [hunfold, List.getLast?_cons] at hlast
        refine ⟨n, ctl, ?_, hends⟩
        cases hrest : (session_advance cfg (session_iter cfg s (calls 0)).1
            (firstCalls (fun k => calls (k + 1)) n)).2.getLast? with
        | none =>
            -- the last iteration would be one that goes on
            rw [hrest] at hlast
            injection hlast with hlast
            rw [← hlast] at hends
            have hcontra : true = false := h.symm.trans hends
            cases hcontra
        | some ctl' =>
            rw [hrest] at hlast
            exact hlast
  · rintro ⟨n, ctl, hlast, hends⟩
    refine ⟨n + 1, ctl, ?_, hends⟩
    rw [hunfold, List.getLast?_cons, hlast]
    rfl

/-- **A session that spins never returns.** -/
theorem not_returns_of_spin (hspin : ∀ c, s.Bounded c → session_iter cfg s c = (s, .again))
    (hb : AllBounded cfg s calls) : ¬ Returns cfg s calls := by
  rintro ⟨n, ctl, hlast, hends⟩
  induction n generalizing calls with
  | zero => cases hlast
  | succ n ih =>
      have hfirst := hspin (calls 0) hb.head
      have hagain : (session_iter cfg s (calls 0)).2.isAgain = true := by
        rw [hfirst]
        rfl
      have hrest := hb.tail
      rw [hfirst] at hrest
      have hunfold : (session_advance cfg s (firstCalls calls (n + 1))).2
          = .again :: (session_advance cfg s (firstCalls (fun k => calls (k + 1)) n)).2 := by
        show (pollUntil (session_iter cfg) Ctl.isAgain s (calls 0 :: _)).2 = _
        rw [pollUntil_again _ hagain, hfirst]
        rfl
      rw [hunfold, List.getLast?_cons] at hlast
      cases hlater : (session_advance cfg s
          (firstCalls (fun k => calls (k + 1)) n)).2.getLast? with
      | none =>
          rw [hlater] at hlast
          injection hlast with hlast
          rw [← hlast] at hends
          cases hends
      | some ctl' =>
          rw [hlater] at hlast
          exact ih hrest (hlater.trans hlast)

/-- **Reading a body that fits ends**: every iteration that goes on takes bytes of a
finite input. -/
theorem returns_of_room (B : Nat) : ∀ (s : Session) (calls : Nat → Calls), SizeInv s →
    s.state = .read_body →
    (s.body_target - s.body_in = 0 ∨ s.len + (s.body_target - s.body_in) + 1 ≤ 2 ^ 63) →
    AllBounded cfg s calls → (∀ n, takenBy cfg s calls n ≤ B) → Returns cfg s calls := by
  induction B with
  | zero =>
      intro s calls h hst hroom hb hfin
      have hiter : session_iter cfg s (calls 0) = session_read_body cfg s (calls 0) := by
        unfold session_iter
        rw [hst]
      rcases (h.read_body cfg hst hb.head).2 with ⟨hends, -⟩ | ⟨-, htaken, -⟩ | ⟨hne, hbig, -⟩
      · exact Returns.done (by rw [hiter]; exact hends)
      · have hnone : Flow.taken s (calls 0) + 0 ≤ 0 := hfin 1
        omega
      · omega
  | succ B ih =>
      intro s calls h hst hroom hb hfin
      have hiter : session_iter cfg s (calls 0) = session_read_body cfg s (calls 0) := by
        unfold session_iter
        rw [hst]
      have hnext := h.iter cfg hb.head
      rcases (h.read_body cfg hst hb.head).2 with ⟨hends, -⟩
        | ⟨hsmall, htaken, hstate, hsize⟩ | ⟨hne, hbig, -⟩
      · exact Returns.done (by rw [hiter]; exact hends)
      · cases hagain : (session_iter cfg s (calls 0)).2.isAgain with
        | false => exact Returns.done hagain
        | true =>
            refine (returns_again_iff hagain).mpr (ih _ _ hnext ?_ ?_ hb.tail fun n => ?_)
            · rw [hiter]
              exact hstate
            · rw [hiter]
              exact Or.inr (by omega)
            · have hall : Flow.taken s (calls 0)
                  + takenBy cfg (session_iter cfg s (calls 0)).1 (fun k => calls (k + 1)) n
                    ≤ B + 1 := hfin (n + 1)
              omega
      · omega

end Streams

/-- The body that is being read, or that the header block announces, fits: what has been
received, what is wanted, and one byte, are at most `2 ^ 63`. -/
def RoomFor (s : Session) (c : Calls) : Prop :=
  match s.state with
  | .read_headers => ∀ shown bytes hdr_end sep_len, c.recv = .data shown →
      headerEnd shown = some (hdr_end, sep_len) → c.drain = .data bytes →
      s.announced shown bytes (hdr_end + sep_len) = 0
        ∨ bytes.length + s.announced shown bytes (hdr_end + sep_len) + 1 ≤ 2 ^ 63
  | .read_body =>
      s.body_target - s.body_in = 0 ∨ s.len + (s.body_target - s.body_in) + 1 ≤ 2 ^ 63
  | _ => True

section Calls

variable {cfg : Config} {s : Session} {calls : Nat → Calls}

/-- A body that does not fit is never read. -/
theorem not_returns_of_no_room (h : SizeInv s) (hst : s.state = .read_body)
    (hwant : s.body_target - s.body_in ≠ 0)
    (hbig : 2 ^ 63 < s.len + (s.body_target - s.body_in) + 1) (hb : AllBounded cfg s calls) :
    ¬ Returns cfg s calls := by
  refine not_returns_of_spin (fun c hc => ?_) hb
  unfold session_iter
  rw [hst]
  dsimp only
  rcases (h.read_body cfg hst hc).2 with ⟨-, hfits⟩ | ⟨hfits, -⟩ | ⟨-, -, hspin⟩
  · omega
  · omega
  · exact hspin

/-- A header block that announces a body is not the end of the call. -/
theorem read_headers_again (cfg : Config) {c : Calls} {shown bytes : Bytes} {hdr_end sep_len : Nat}
    (h : SizeInv s) (hr : c.recv = .data shown) (hend : headerEnd shown = some (hdr_end, sep_len))
    (hd : c.drain = .data bytes) (hpos : 0 < s.announced shown bytes (hdr_end + sep_len)) :
    (session_read_headers cfg s c).2 = .again := by
  have hne : shown ≠ [] := by
    rintro rfl
    have hle := headerEnd_le hend
    simp at hle
    omega
  unfold session_read_headers
  rw [ensure_capacity_headers h.cap, hr]
  dsimp only
  rw [if_neg hne, hend]
  dsimp only
  rw [hd]
  unfold session_headers_read
  unfold Session.announced at hpos
  dsimp only
  rw [if_pos hpos]

/-- What a header block with a body leaves to the next iteration. -/
theorem returns_after_headers (h : SizeInv s) (hst : s.state = .read_headers)
    (hb : AllBounded cfg s calls) (B : Nat) (hfin : ∀ n, takenBy cfg s calls n ≤ B) :
    Returns cfg s calls ↔ RoomFor s (calls 0) := by
  have hiter : session_iter cfg s (calls 0) = session_read_headers cfg s (calls 0) := by
    unfold session_iter
    rw [hst]
  have hroom : RoomFor s (calls 0) ↔ ∀ shown bytes hdr_end sep_len, (calls 0).recv = .data shown →
      headerEnd shown = some (hdr_end, sep_len) → (calls 0).drain = .data bytes →
      s.announced shown bytes (hdr_end + sep_len) = 0
        ∨ bytes.length + s.announced shown bytes (hdr_end + sep_len) + 1 ≤ 2 ^ 63 := by
    unfold RoomFor
    rw [hst]
  rw [hroom]
  rcases (h.read_headers cfg hst hb.head).2 with hends
    | ⟨shown, bytes, hdr_end, sep_len, hr, hend, hd, hpos, hstate, hlen, hin, htarget⟩
  · refine iff_of_true (Returns.done (by rw [hiter]; exact hends)) ?_
    intro shown bytes hdr_end sep_len hr hend hd
    by_contra hno
    have hagain := read_headers_again cfg h hr hend hd (by omega)
    rw [hagain] at hends
    cases hends
  · have hagain : (session_iter cfg s (calls 0)).2.isAgain = true := by
      rw [hiter, read_headers_again cfg h hr hend hd hpos]
      rfl
    have hnext := h.iter cfg hb.head
    rw [returns_again_iff hagain]
    rw [← hiter] at hstate hlen hin htarget
    constructor
    · intro hret shown' bytes' hdr_end' sep_len' hr' hend' hd'
      by_contra hno
      rw [hr] at hr'
      injection hr' with hs
      subst hs
      rw [hend] at hend'
      injection hend' with hp
      injection hp with h₁ h₂
      subst h₁ h₂
      rw [hd] at hd'
      injection hd' with hb'
      subst hb'
      exact not_returns_of_no_room hnext hstate (by omega) (by omega) hb.tail hret
    · intro hfits
      have hfit := hfits shown bytes hdr_end sep_len hr hend hd
      refine returns_of_room B _ _ hnext hstate (Or.inr (by omega)) hb.tail fun n => ?_
      have hall := hfin (n + 1)
      have hsum : takenBy cfg s calls (n + 1) = Flow.taken s (calls 0)
        + takenBy cfg (session_iter cfg s (calls 0)).1 (fun k => calls (k + 1)) n := rfl
      omega

end Calls

/-- **A call of `session_advance` from `WS_READ_HEADERS` or `WS_READ_BODY` returns**, with all
sizes exact and every byte written inside the buffer, exactly when the body fits: for every
reached state, every outcome of the calls and every finite input. -/
theorem read_body_returns_iff (cfg : Config) (client_fd : Fd) (pipe_fd : Option Fd) (s : Session)
    (hs : Reached cfg client_fd pipe_fd s) (hst : s.state = .read_headers ∨ s.state = .read_body)
    (calls : Nat → Calls) (hb : AllBounded cfg s calls) (B : Nat)
    (hfin : ∀ n, takenBy cfg s calls n ≤ B) :
    (Returns cfg s calls ∧ ∀ n, InBounds (stateAt cfg s calls n)) ↔ RoomFor s (calls 0) := by
  have h := hs.inv
  have hall : ∀ n, InBounds (stateAt cfg s calls n) := fun n => (h.along hb n).inBounds
  rw [and_iff_left hall]
  rcases hst with hst | hst
  · exact returns_after_headers h hst hb B hfin
  · have hroom : RoomFor s (calls 0) ↔ s.body_target - s.body_in = 0
        ∨ s.len + (s.body_target - s.body_in) + 1 ≤ 2 ^ 63 := by
      unfold RoomFor
      rw [hst]
    rw [hroom]
    constructor
    · intro hret
      by_contra hno
      exact not_returns_of_no_room h hst (by omega) (by omega) hb hret
    · intro hfits
      exact returns_of_room B s calls h hst hfits hb hfin

/-! ## §4. Two header blocks. -/

/-- The socket has nothing, now or later. -/
def quiet : Calls where
  recv := .eagain
  drain := .eagain
  send := .eagain
  realloc_ok := fun _ => true
  epoll_mod_ok := true

/-- A header block, and nothing behind it. -/
def announcing (head : Bytes) : Nat → Calls
  | 0 => { quiet with recv := .data head, drain := .data head }
  | _ + 1 => quiet

/-- A session that has found its own name in the request. -/
def owned (head : Bytes) : Session :=
  (session_iter sumA (session_new 5 none) { quiet with recv := .data head }).1

theorem takenBy_quiet (cfg : Config) (n : Nat) :
    ∀ s : Session, takenBy cfg s (fun _ => quiet) n = 0 := by
  induction n with
  | zero => exact fun _ => rfl
  | succ n ih =>
      intro s
      have hnone : Flow.taken s quiet = 0 := by
        unfold Flow.taken
        cases s.state with
        | peek_owner => rfl
        | read_headers =>
            dsimp only
            split
            · contradiction
            · rfl
        | read_body =>
            dsimp only
            split
            · contradiction
            · rfl
        | write_response => rfl
      show Flow.taken s quiet + takenBy cfg _ (fun _ => quiet) n = 0
      rw [hnone, ih]

theorem announcing_bounded {head : Bytes} {s : Session} {hdr_end sep_len : Nat} (cfg : Config)
    (hst : s.state = .read_headers) (hroom : head.length ≤ s.cap - 1)
    (hend : headerEnd head = some (hdr_end, sep_len)) (hall : hdr_end + sep_len = head.length) :
    AllBounded cfg s (announcing head) := by
  intro n
  cases n with
  | zero =>
      refine ⟨?_, ?_⟩
      · intro bytes hrecv
        injection hrecv with hrecv
        subst hrecv
        unfold Session.asked
        show head.length ≤ _
        rw [show (stateAt cfg s (announcing head) 0).state = .read_headers from hst]
        exact hroom
      · intro shown bytes hdr_end' sep_len' hrecv hend' hdrain
        injection hrecv with hrecv
        injection hdrain with hdrain
        subst hrecv hdrain
        rw [hend] at hend'
        injection hend' with hp
        injection hp with h₁ h₂
        omega
  | succ n => exact ⟨fun _ h => (nomatch h), fun _ _ _ _ h => (nomatch h)⟩

theorem announcing_taken (cfg : Config) (s : Session) (head : Bytes) (n : Nat) :
    takenBy cfg s (announcing head) n ≤ Flow.taken s (announcing head 0) := by
  cases n with
  | zero => exact Nat.zero_le _
  | succ n =>
      show Flow.taken s (announcing head 0) + takenBy cfg _ (fun _ => quiet) n ≤ _
      rw [takenBy_quiet]
      exact Nat.le_refl _

theorem owned_reached {head : Bytes} (hlen : head.length ≤ PEEK_LEN) :
    Reached sumA 5 none (owned head) := by
  refine .iter .new (.mk (fun bytes hrecv => ?_) fun _ _ _ _ _ _ hdrain => nomatch hdrain)
  injection hrecv with hrecv
  subst hrecv
  exact hlen

def threeBytes : Bytes := ascii "POST /function/sum-a H\r\nContent-Length: 3\r\n\r\n"

theorem read_body_returns_iff_three :
    Returns sumA (owned threeBytes) (announcing threeBytes) := by
  have hst : (owned threeBytes).state = .read_headers := by decide +kernel
  have hend : headerEnd threeBytes = some (41, 4) := by decide +kernel
  refine ((read_body_returns_iff sumA 5 none (owned threeBytes)
    (owned_reached (by decide +kernel)) (Or.inl hst) (announcing threeBytes)
    (announcing_bounded sumA hst (by decide +kernel) hend (by decide +kernel)) _
    (announcing_taken sumA _ threeBytes)).mpr ?_).1
  unfold RoomFor
  rw [hst]
  intro shown bytes hdr_end sep_len hrecv hend' hdrain
  injection hrecv with hrecv
  injection hdrain with hdrain
  subst hrecv hdrain
  rw [hend] at hend'
  injection hend' with hp
  injection hp with h₁ h₂
  subst h₁ h₂
  exact Or.inr (by decide +kernel)

/-- The largest length there is. -/
def longest : Bytes :=
  ascii "POST /function/sum-a HTTP/1.1\r\nContent-Length: 9223372036854775807\r\n\r\n"

/-- **A header block of 70 bytes holds the worker for ever.** -/
theorem read_body_never_returns :
    longest.length = 70 ∧ Reached sumA 5 none (owned longest)
      ∧ (owned longest).state = .read_headers
      ∧ AllBounded sumA (owned longest) (announcing longest)
      ∧ (∀ n, takenBy sumA (owned longest) (announcing longest) n ≤ 70)
      ∧ (stateAt sumA (owned longest) (announcing longest) 1).body_target = 2 ^ 63 - 1
      ∧ ¬ Returns sumA (owned longest) (announcing longest) := by
  have hst : (owned longest).state = .read_headers := by decide +kernel
  have hend : headerEnd longest = some (66, 4) := by decide +kernel
  have hreached : Reached sumA 5 none (owned longest) := owned_reached (by decide +kernel)
  have hb := announcing_bounded sumA hst (by decide +kernel) hend (by decide +kernel)
  have htaken : Flow.taken (owned longest) (announcing longest 0) = 70 := by decide +kernel
  have hfew : ∀ n, takenBy sumA (owned longest) (announcing longest) n ≤ 70 := by
    intro n
    rw [← htaken]
    exact announcing_taken sumA _ longest n
  refine ⟨by decide +kernel, hreached, hst, hb, hfew, by decide +kernel, fun hret => ?_⟩
  have hroom := (returns_after_headers hreached.inv hst hb _ hfew).mp hret
  unfold RoomFor at hroom
  rw [hst] at hroom
  have hfits := hroom longest longest 66 4 rfl hend rfl
  revert hfits
  decide +kernel

end TlsMigration.HttpKa
