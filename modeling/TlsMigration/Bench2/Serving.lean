/-
  TlsMigration.Bench2.Serving
  ───────────────────────────
  **ONE REQUEST THROUGH A SESSION.**

  `Serving cfg q s` says that the session `s` is somewhere in its work on
  the request `q`; `s.taken` is how much of `q` it has read.  What an
  iteration does then depends on nothing but the bytes it is given:

    • `Serving.advanced`  — it reads on, and answers once all is read;
    • `Serving.blocked`   — it waits for the client;
    • `Serving.written`, `Serving.write_blocked` — it writes the response;
    • `Serving.completed` — it is done with the request.
-/
import TlsMigration.Http.Request
import TlsMigration.Bench2.Session

namespace TlsMigration.Bench2

open TlsMigration.Http

variable {F S : Type*}

/-! ## §1. Where the session is in the request. -/

/-- The response to `q` as request number `num`, from the request's own operands. -/
def response (cfg : Config F) (q : Request) (num : Nat) : Option Bytes :=
  responseBytes cfg num (parse_request_operands cfg.libm q.head).1
    (parse_request_operands cfg.libm q.head).2 false

/-- What a request must be for a worker to serve it and keep the connection. -/
structure Servable (q : Request) : Prop where
  keepAlive : q.KeepAlive
  size : q.bytes.length ≤ WORKER_MAX_REQ_BYTES

/-- How much of the current request has been read. -/
def Session.taken (s : Session F S) : Nat :=
  match s.state with
  | .peek_owner => 0
  | .read_headers => s.buf.length
  | .read_body | .write_response => s.hdr_sz + s.body_in

/-- The session's fields hold what the headers of `q` say. -/
structure Parsed (cfg : Config F) (q : Request) (s : Session F S) : Prop where
  hdr_sz : s.hdr_sz = q.head.length
  body_target : s.body_target = q.body.length
  should_close : s.should_close = false
  operands : (s.operand_a, s.operand_b) = parse_request_operands cfg.libm q.head
  hint : q.Unhinted → s.single_owner_hint = false

def Serving (cfg : Config F) (q : Request) (s : Session F S) : Prop :=
  match s.state with
  | .peek_owner => False
  | .read_headers => s.buf.length < q.head.length ∧ s.buf = q.head.take s.buf.length
  | .read_body => Parsed cfg q s ∧ s.body_in ≤ q.body.length
  | .write_response => Parsed cfg q s ∧ s.body_in = q.body.length
      ∧ response cfg q s.req_no = some s.resp ∧ s.resp_off ≤ s.resp.length

/-- Nothing of a request has been read. -/
structure Session.Fresh (s : Session F S) : Prop where
  state : s.state = .read_headers
  buf : s.buf = []

/-- The next iteration calls `wolfSSL_read`. -/
def Session.Reading (s : Session F S) : Prop :=
  s.state = .read_headers ∨ (s.state = .read_body ∧ s.body_in < s.body_target)

/-- What the work on one request leaves alone. -/
structure Session.Kept (s s' : Session F S) : Prop where
  fd : s'.fd = s.fd
  serial : s'.serial = s.serial
  req_no : s'.req_no = s.req_no

theorem Session.Kept.trans {s₁ s₂ s₃ : Session F S} (h₁ : s₁.Kept s₂) (h₂ : s₂.Kept s₃) :
    s₁.Kept s₃ :=
  ⟨h₂.fd.trans h₁.fd, h₂.serial.trans h₁.serial, h₂.req_no.trans h₁.req_no⟩

variable {cfg : Config F} {q : Request} {s : Session F S} {c : Calls S}

/-- A session that has read nothing may be about to serve any request. -/
theorem Session.Fresh.serving (h : s.Fresh) (cfg : Config F) (q : Request) : Serving cfg q s := by
  have hlt := q.four_lt_head
  simp only [Serving, h.state, h.buf, List.length_nil, List.take_zero, and_true]
  omega

theorem Session.Fresh.taken (h : s.Fresh) : s.taken = 0 := by
  simp only [Session.taken, h.state, h.buf, List.length_nil]

/-- No more is read than there is. -/
theorem Serving.taken_le (h : Serving cfg q s) : s.taken ≤ q.bytes.length := by
  unfold Serving at h
  unfold Session.taken
  rw [Request.bytes_length]
  split at h
  · exact h.elim
  · omega
  · have := h.1.hdr_sz
    omega
  · have := h.1.hdr_sz
    omega

/-! ## §2. Reading. -/

theorem ensure_capacity_ok (cap : Nat) {needed : Nat} (hsmall : needed ≤ 2 ^ 63) :
    ∃ cap', ensure_capacity cap needed true = some cap' := by
  unfold ensure_capacity
  by_cases hle : needed ≤ cap
  · exact ⟨cap, if_pos hle⟩
  · have hpos : 0 < if cap = 0 then WORKER_INITIAL_BUF else cap := by
      split
      · decide
      · omega
    obtain ⟨cap', hgrow⟩ := growCap_room 64 hsmall hpos (by omega)
    rw [if_neg hle, hgrow]
    exact ⟨cap', rfl⟩

/-- Below the limit of a request there is always memory to ask for. -/
theorem ensure_capacity_read {s : Session F S} (hlen : s.buf.length < WORKER_MAX_REQ_BYTES) :
    ∃ cap, ensure_capacity s.cap (s.buf.length + 8192 + 1) true = some cap := by
  have hmax : WORKER_MAX_REQ_BYTES = 1048576 := rfl
  exact ensure_capacity_ok s.cap (by omega)

/-- A read of headers that gets bytes. -/
theorem session_read_headers_ok (cfg : Config F) {d : Bytes} (hlen : s.buf.length < WORKER_MAX_REQ_BYTES)
    (hok : c.realloc_ok = true) (hd : c.read = .data d) :
    ∃ cap, session_read_headers cfg s c = session_headers_read cfg (s.received cap d) c := by
  obtain ⟨cap, hcap⟩ := ensure_capacity_read hlen
  refine ⟨cap, ?_⟩
  unfold session_read_headers session_tls_read_buffer
  simp only [Nat.not_le.mpr hlen, if_false, hok, hcap, hd]
  rfl

/-- Part of the headers: the session reads on. -/
theorem session_headers_read_short {k : Nat} (hk : k < q.head.length)
    (hbuf : s.buf = q.head.take k) : session_headers_read cfg s c = (s, .again) := by
  have hend : headerEnd s.buf = none := by
    unfold headerEnd
    rw [hbuf, Request.crlfcrlf_partial hk]
    dsimp only
    rw [Request.lflf_partial k]
    rfl
  unfold session_headers_read session_parse_headers
  rw [hend]
  rfl

/-- All of the headers: the fields are set from this request alone. -/
theorem session_parse_headers_complete (cfg : Config F) (hq : Servable q) {rest : Bytes}
    (hbuf : s.buf = q.head ++ rest) (hrest : rest.length ≤ q.body.length) :
    ∃ s', session_parse_headers cfg s = (s', 1) ∧ s.Kept s' ∧ s'.state = .read_body
      ∧ Parsed cfg q s' ∧ s'.body_in = rest.length ∧ s'.events = s.events := by
  have hsize := hq.size
  rw [Request.bytes_length] at hsize
  have hmax : WORKER_MAX_REQ_BYTES = 1048576 := rfl
  have hcl := Request.content_length (q := q) (by unfold LLONG_MAX; omega) rest
  have hend : headerEnd s.buf = some q.head.length := by
    have hlt := q.four_lt_head
    unfold headerEnd
    rw [hbuf, Request.crlfcrlf_head]
    show some (q.head.length - 4 + 4) = _
    rw [Nat.sub_add_cancel (Nat.le_of_lt hlt)]
  have hlong : ¬ (WORKER_MAX_REQ_BYTES : Int) < (q.body.length : Int) := by omega
  have hin : min (s.buf.length - q.head.length) q.body.length = rest.length := by
    rw [hbuf, List.length_append]
    omega
  have htake : s.buf.take q.head.length = q.head := by rw [hbuf, List.take_left]
  refine ⟨{ s with
      hdr_sz := q.head.length, body_target := q.body.length, body_in := rest.length
      should_close := false
      single_owner_hint := has_single_owner_hint s.buf q.head.length
      operand_a := (parse_request_operands cfg.libm q.head).1
      operand_b := (parse_request_operands cfg.libm q.head).2
      state := .read_body }, ?_, ⟨rfl, rfl, rfl⟩, rfl, ⟨rfl, rfl, rfl, rfl, ?_⟩, rfl, rfl⟩
  · unfold session_parse_headers
    rw [hend]
    dsimp only
    rw [htake, hbuf, hcl, if_neg hlong, Request.not_closing hq.keepAlive, Int.toNat_natCast,
      ← hbuf, hin]
  · intro hint
    show has_single_owner_hint s.buf q.head.length = false
    rw [hbuf]
    exact Request.no_hint hint rest

/-- Once the request is read, the response is built from it. -/
theorem session_build_response_ok (hp : Parsed cfg q s)
    (hfit : (response cfg q s.req_no).isSome) (hok : c.epoll_mod_ok = true) :
    ∃ resp, response cfg q s.req_no = some resp
      ∧ session_build_response cfg s c
        = ({ s with resp := resp, resp_off := 0, state := .write_response, events := .write },
            .ret 0) := by
  obtain ⟨resp, hresp⟩ := Option.isSome_iff_exists.mp hfit
  refine ⟨resp, hresp, ?_⟩
  have hbytes : responseBytes cfg s.req_no s.operand_a s.operand_b s.should_close = some resp := by
    have ha : s.operand_a = (parse_request_operands cfg.libm q.head).1 :=
      congrArg Prod.fst hp.operands
    have hb : s.operand_b = (parse_request_operands cfg.libm q.head).2 :=
      congrArg Prod.snd hp.operands
    rw [ha, hb, hp.should_close]
    exact hresp
  unfold session_build_response
  rw [hbytes]
  simp only [epoll_mod_fd, hok, if_true]

/-- What reading `k` more bytes of `q` leads to. -/
structure Advanced (cfg : Config F) (q : Request) (s : Session F S) (k : Nat)
    (r : Session F S × Ctl) : Prop where
  serving : Serving cfg q r.1
  taken : r.1.taken = s.taken + k
  kept : s.Kept r.1
  ctl : (r.2 = .again ∧ r.1.state ≠ .write_response ∧ r.1.events = s.events)
    ∨ (r.2 = .ret 0 ∧ r.1.state = .write_response ∧ r.1.resp_off = 0 ∧ r.1.events = .write)

/-- The response is built. -/
theorem Advanced.build (hp : Parsed cfg q s) (hin : s.body_in = q.body.length)
    (hst : s.state = .read_body) (hfit : (response cfg q s.req_no).isSome)
    (hok : c.epoll_mod_ok = true) : Advanced cfg q s 0 (session_build_response cfg s c) := by
  obtain ⟨resp, hresp, hbuild⟩ := session_build_response_ok hp hfit hok
  rw [hbuild]
  refine ⟨?_, ?_, ⟨rfl, rfl, rfl⟩, Or.inr ⟨rfl, rfl, rfl, rfl⟩⟩
  · exact ⟨{ hp with }, hin, hresp, Nat.zero_le _⟩
  · simp only [Session.taken, hst, Nat.add_zero]

/-- The headers are complete: the body is awaited, or the response is built. -/
theorem session_headers_read_complete (cfg : Config F) (hq : Servable q) {rest : Bytes}
    (hbuf : s.buf = q.head ++ rest) (hrest : rest.length ≤ q.body.length)
    (hst : s.state = .read_headers) (hfit : (response cfg q s.req_no).isSome)
    (hok : c.epoll_mod_ok = true) : Advanced cfg q s 0 (session_headers_read cfg s c) := by
  obtain ⟨s', hparse, hkept, hst', hp, hin, hev⟩ :=
    session_parse_headers_complete cfg hq hbuf hrest
  have htaken : s'.taken = s.taken := by
    simp only [Session.taken, hst', hst, hp.hdr_sz, hin, hbuf, List.length_append]
  have hfit' : (response cfg q s'.req_no).isSome := by
    rw [hkept.req_no]
    exact hfit
  unfold session_headers_read
  rw [hparse]
  simp only [show ¬ (1 : Int) < 0 by decide, show ¬ (1 : Int) = 0 by decide, if_false]
  split
  next hle =>
    show Advanced cfg q s 0 (session_build_response cfg s' c)
    have hfull : s'.body_in = q.body.length := by
      have := hp.body_target
      omega
    have hb := Advanced.build hp hfull hst' hfit' hok
    -- the response itself plays no role here
    generalize session_build_response cfg s' c = r at hb ⊢
    refine ⟨hb.serving, ?_, hkept.trans hb.kept, ?_⟩
    · rw [hb.taken, htaken]
    · rcases hb.ctl with h | h
      · exact Or.inl ⟨h.1, h.2.1, h.2.2.trans hev⟩
      · exact Or.inr h
  next hlt =>
    refine ⟨?_, ?_, hkept, Or.inl ⟨rfl, by rw [hst']; simp, hev⟩⟩
    · simp only [Serving, hst']
      exact ⟨hp, by omega⟩
    · rw [htaken, Nat.add_zero]

/-- **Reading goes on until the request is there, and then it is answered.** -/
theorem Serving.advanced (h : Serving cfg q s) (hst : s.state ≠ .write_response)
    (hq : Servable q) (hfit : (response cfg q s.req_no).isSome)
    (hrealloc : c.realloc_ok = true) (hepoll : c.epoll_mod_ok = true)
    (hread : s.Reading → ∃ d, c.read = .data d)
    (hgot : readBytes s c <+: q.bytes.drop s.taken) :
    Advanced cfg q s (readBytes s c).length (session_iter cfg s c) := by
  have hsize := hq.size
  rw [Request.bytes_length] at hsize
  unfold Serving at h
  cases hstate : s.state with
  | peek_owner =>
      rw [hstate] at h
      exact h.elim
  | read_headers =>
      rw [hstate] at h
      obtain ⟨hlt, hbuf⟩ := h
      obtain ⟨d, hd⟩ := hread (Or.inl hstate)
      have hbytes : readBytes s c = d := by simp only [readBytes, hstate, hd]
      have htaken : s.taken = s.buf.length := by simp only [Session.taken, hstate]
      rw [hbytes, htaken] at hgot
      rw [hbytes]
      have hroom : s.buf.length < WORKER_MAX_REQ_BYTES := by omega
      obtain ⟨cap, hiter⟩ := session_read_headers_ok cfg hroom hrealloc hd
      have hrun : session_iter cfg s c = session_headers_read cfg (s.received cap d) c := by
        simp only [session_iter, hstate, hiter]
      -- what is in the buffer now is the start of the request
      have hall : s.buf ++ d <+: q.bytes := by
        have hsplit : q.bytes = s.buf ++ q.bytes.drop s.buf.length := by
          conv_lhs => rw [← List.take_append_drop s.buf.length q.bytes]
          unfold Request.bytes
          rw [List.take_append_of_le_length (Nat.le_of_lt hlt), ← hbuf]
        rw [hsplit]
        exact (List.prefix_append_right_inj s.buf).mpr hgot
      have htaken' : (s.received cap d).taken = s.taken + d.length := by
        simp only [Session.taken, Session.received, hstate, List.length_append]
      rw [hrun]
      by_cases hk : (s.buf ++ d).length < q.head.length
      · have hpart : s.buf ++ d = q.head.take (s.buf ++ d).length := by
          have := List.prefix_iff_eq_take.mp hall
          unfold Request.bytes at this
          rwa [List.take_append_of_le_length (Nat.le_of_lt hk)] at this
        rw [session_headers_read_short (s := s.received cap d) hk hpart]
        refine ⟨?_, htaken', ⟨rfl, rfl, rfl⟩, Or.inl ⟨rfl, ?_, rfl⟩⟩
        · simp only [Serving, Session.received, hstate]
          exact ⟨hk, hpart⟩
        · simp only [Session.received, hstate]
          simp
      · have hcut : s.buf ++ d = q.head ++ q.body.take ((s.buf ++ d).length - q.head.length) := by
          have := List.prefix_iff_eq_take.mp hall
          unfold Request.bytes at this
          rwa [List.take_append, List.take_of_length_le (Nat.le_of_not_lt hk)] at this
        have hrest : (q.body.take ((s.buf ++ d).length - q.head.length)).length
            ≤ q.body.length := by
          rw [List.length_take]
          omega
        have hadv := session_headers_read_complete (s := s.received cap d) cfg hq hcut hrest
          hstate hfit hepoll
        exact ⟨hadv.serving, hadv.taken.trans htaken', ⟨hadv.kept.fd, hadv.kept.serial,
          hadv.kept.req_no⟩, hadv.ctl⟩
  | read_body =>
      rw [hstate] at h
      obtain ⟨hp, hle⟩ := h
      have htaken : s.taken = s.hdr_sz + s.body_in := by simp only [Session.taken, hstate]
      by_cases hmore : s.body_in < s.body_target
      · obtain ⟨d, hd⟩ := hread (Or.inr ⟨hstate, hmore⟩)
        have hbytes : readBytes s c = d := by
          simp only [readBytes, hstate, hd, if_pos hmore]
        rw [hbytes] at hgot
        have hlen := hgot.length_le
        rw [List.length_drop, Request.bytes_length, htaken, hp.hdr_sz] at hlen
        have hrun : session_iter cfg s c
            = ({ s with body_in := s.body_in + d.length }, .again) := by
          simp only [session_iter, hstate, session_read_body, if_pos hmore, hd]
        rw [hrun, hbytes]
        refine ⟨?_, ?_, ⟨rfl, rfl, rfl⟩, Or.inl ⟨rfl, by rw [hstate]; simp, rfl⟩⟩
        · simp only [Serving, hstate]
          exact ⟨{ hp with }, by omega⟩
        · simp only [Session.taken, hstate]
          omega
      · have hfull : s.body_in = q.body.length := by
          have := hp.body_target
          omega
        have hbytes : readBytes s c = [] := by
          unfold readBytes
          rw [hstate]
          cases c.read with
          | data d => exact if_neg hmore
          | none err => rfl
        have hrun : session_iter cfg s c = session_build_response cfg s c := by
          simp only [session_iter, hstate, session_read_body, if_neg hmore]
        rw [hrun, hbytes]
        exact Advanced.build hp hfull hstate hfit hepoll
  | write_response => exact absurd hstate hst

/-- Nothing to read: the session waits for the client. -/
theorem Session.blocked (cfg : Config F) (hread : s.Reading)
    (hroom : s.state = .read_headers → s.buf.length < WORKER_MAX_REQ_BYTES)
    (hrealloc : c.realloc_ok = true) (hepoll : c.epoll_mod_ok = true)
    (hnone : c.read = .none .want_read) :
    ∃ cap, session_iter cfg s c = ({ s with cap := cap, events := .read }, .ret 0) := by
  rcases hread with hst | ⟨hst, hmore⟩
  · have hroom := hroom hst
    obtain ⟨cap, hcap⟩ := ensure_capacity_read hroom
    refine ⟨cap, ?_⟩
    simp only [session_iter, hst, session_read_headers, session_tls_read_buffer,
      Nat.not_le.mpr hroom, if_false, hrealloc, hcap, hnone, wolfssl_want, epoll_mod_fd, hepoll,
      if_true, Int.le_refl]
  · refine ⟨s.cap, ?_⟩
    simp only [session_iter, hst, session_read_body, if_pos hmore, hnone, wolfssl_want,
      epoll_mod_fd, hepoll, if_true, ctlOf, Int.le_refl]

/-- Buffer size and registration play no role in the work on a request. -/
theorem Serving.set_events (h : Serving cfg q s) (cap : Nat) (events : EpollEvents) :
    Serving cfg q { s with cap := cap, events := events } := by
  unfold Serving at h ⊢
  cases hst : s.state with
  | peek_owner =>
      rw [hst] at h
      exact h.elim
  | read_headers =>
      rw [hst] at h
      exact h
  | read_body =>
      rw [hst] at h
      exact ⟨{ h.1 with }, h.2⟩
  | write_response =>
      rw [hst] at h
      exact ⟨{ h.1 with }, h.2⟩

/-! ## §3. Writing. -/

/-- The bytes an iteration writes. -/
def writtenBytes (s : Session F S) (c : Calls S) : Bytes :=
  match s.state, c.write with
  | .write_response, .wrote n =>
      if s.resp_off < s.resp.length then (s.resp.drop s.resp_off).take n else []
  | _, _ => []

/-- The part of a response that is out. -/
def Session.partOut (s : Session F S) : Bytes :=
  if s.state = .write_response then s.resp.take s.resp_off else []

theorem writtenBytes_of_reading (c : Calls S) (hst : s.state ≠ .write_response) :
    writtenBytes s c = [] := by
  unfold writtenBytes
  split
  next e _ => exact absurd e hst
  next => rfl

theorem session_write (cfg : Config F) (hst : s.state = .write_response)
    (hmore : s.resp_off < s.resp.length) {n : Nat} (hwrote : c.write = .wrote n) :
    session_iter cfg s c = ({ s with resp_off := s.resp_off + n }, .again) := by
  simp only [session_iter, hst, session_flush_response, if_pos hmore, hwrote]

theorem session_write_blocked (cfg : Config F) (hst : s.state = .write_response)
    (hmore : s.resp_off < s.resp.length) (hnone : c.write = .none .want_write)
    (hepoll : c.epoll_mod_ok = true) :
    session_iter cfg s c = ({ s with events := .write }, .ret 0) := by
  simp only [session_iter, hst, session_flush_response, if_pos hmore, hnone, wolfssl_want,
    epoll_mod_fd, hepoll, if_true, ctlOf, Int.le_refl]

/-- More of the response is out. -/
theorem Serving.wrote (h : Serving cfg q s) (hst : s.state = .write_response) {n : Nat}
    (hn : n ≤ s.resp.length - s.resp_off) :
    Serving cfg q { s with resp_off := s.resp_off + n } := by
  unfold Serving at h ⊢
  rw [hst] at h ⊢
  obtain ⟨hp, hin, hresp, hle⟩ := h
  exact ⟨{ hp with }, hin, hresp, by show s.resp_off + n ≤ s.resp.length; omega⟩

/-- **The response is out**: the session is exported and turns to the next request. -/
theorem Serving.completed (h : Serving cfg q s) (hst : s.state = .write_response)
    (hdone : s.resp.length ≤ s.resp_off) (hepoll : c.epoll_mod_ok = true) {serial : S}
    (hserial : c.serial = some serial) :
    session_iter cfg s c
      = (s.completed cfg serial,
          if s.single_owner_hint ∧ 0 < c.pending then .again else .ret 0) := by
  unfold Serving at h
  rw [hst] at h
  have hclose := h.1.should_close
  have hrun : session_iter cfg s c = session_finish_response cfg s c := by
    simp only [session_iter, hst, session_flush_response, if_neg (Nat.not_lt.mpr hdone)]
  rw [hrun]
  unfold session_finish_response
  simp only [hclose, Bool.false_eq_true, if_false, hserial, epoll_mod_fd, hepoll, if_true, ne_eq,
    not_true_eq_false]
  split <;> rfl

end TlsMigration.Bench2
