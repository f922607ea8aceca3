/-
  TlsMigration.Bench2.Session
  ───────────────────────────
  **THE SESSION STATE MACHINE OF THE BENCH2 WORKER**
  (`session_advance` and what it calls, bench2_proto_worker.c).

  A session does one thing at a time: between two system calls, two wolfSSL
  calls or two allocations nothing else touches it.  `session_iter` is the
  loop body of `session_advance`, cut after each wolfSSL call: the inner
  loops of `session_tls_drain_body` and `session_flush_response` come back
  to the state they are in, so their next turn is the next iteration.  What
  the calls return is an argument (`Calls`), so every outcome is covered.

    • `session_iter`     — one iteration;
    • `session_advance`  — the loop, over the list of what its calls return.
-/
import TlsMigration.Lib.Doubling
import TlsMigration.Http.Parse
import TlsMigration.Lib.Polling
import TlsMigration.Bench2.Payload

namespace TlsMigration.Bench2

open TlsMigration.Http

/-! ## §1. Data. -/

def WORKER_INITIAL_BUF : Nat := 65536
def WORKER_MAX_REQ_BYTES : Nat := 1024 * 1024

/-- `worker_state_t`. -/
inductive WorkerState where
  | peek_owner
  | read_headers
  | read_body
  | write_response
  deriving DecidableEq

/-- The two event sets a session is registered for. -/
inductive EpollEvents where
  /-- `epoll_read_events()` -/
  | read
  /-- `epoll_write_events()` -/
  | write
  deriving DecidableEq

/-- The worker's configuration: its name (a C string), the padding, and libc's doubles. -/
structure Config (F : Type*) where
  libm : FloatLib F
  s_function_name : Bytes
  s_response_pad_bytes : Nat

/-- A worker with doubles reduced to a point. -/
def Config.point (name : Bytes) : Config Unit where
  libm := ⟨fun _ => ((), 0), fun _ _ => (), fun _ _ => (), fun _ => [], (), ()⟩
  s_function_name := name
  s_response_pad_bytes := 0

/-- `worker_session_t`; `fd` is `none` for `-1`, `buf` holds `s->len` bytes and `resp` holds `s->resp_len`.
`serial` is `s->payload.serial`, and `events` what the descriptor was last
registered for. -/
structure Session (F S : Type*) where
  fd : Option Nat
  serial : S
  state : WorkerState
  req_no : Nat
  single_owner_direct_read : Bool
  buf : Bytes
  cap : Nat
  hdr_sz : Nat
  body_in : Nat
  body_target : Nat
  should_close : Bool
  single_owner_hint : Bool
  operand_a : F
  operand_b : F
  resp : Bytes
  resp_off : Nat
  events : EpollEvents

/-- `wolfSSL_get_error` after a call that made no progress. -/
inductive Want where
  | want_read
  | want_write
  | error
  deriving DecidableEq

/-- What `wolfSSL_read` returns. -/
inductive TlsRead where
  | data (bytes : Bytes)
  | none (err : Want)
  deriving DecidableEq

/-- What `wolfSSL_write` returns. -/
inductive TlsWrite where
  | wrote (n : Nat)
  | none (err : Want)
  deriving DecidableEq

/-- What the calls of one iteration return. -/
structure Calls (S : Type*) where
  realloc_ok : Bool
  read : TlsRead
  write : TlsWrite
  epoll_mod_ok : Bool
  /-- `export_live_serial` -/
  serial : Option S
  /-- `wolfSSL_pending` -/
  pending : Nat
  /-- `tls_record_ready` -/
  ready : Int
  /-- a restored context and `tls_read_peek` with a buffer of this size -/
  peek : Nat → Option Bytes

/-- How an iteration ends. -/
inductive Ctl where
  | again
  | ret (rc : Int)
  /-- `session_relay(s, owner)`, and `session_advance` returns 0 -/
  | relay (owner : Bytes)
  deriving DecidableEq

def Ctl.isAgain (c : Ctl) : Bool := c = .again

variable {F S : Type*}

/-! ## §2. Helpers. -/

def epoll_mod_fd (s : Session F S) (events : EpollEvents) (ok : Bool) : Session F S × Int :=
  if ok then ({ s with events := events }, 0) else (s, -1)

def wolfssl_want (s : Session F S) (err : Want) (ok : Bool) : Session F S × Int :=
  match err with
  | .want_read => epoll_mod_fd s .read ok
  | .want_write => epoll_mod_fd s .write ok
  | .error => (s, -1)

/-- `ensure_capacity`; `none` is `-1`. -/
def ensure_capacity (cap needed : Nat) (realloc_ok : Bool) : Option Nat :=
  if needed ≤ cap then some cap
  else
    match growCap 65 needed (if cap = 0 then WORKER_INITIAL_BUF else cap) with
    | .room new_cap => if realloc_ok then some new_cap else none
    | _ => none

def session_reset_request (cfg : Config F) (s : Session F S) (next_state : WorkerState) :
    Session F S :=
  { s with
    state := next_state, buf := [], hdr_sz := 0, body_in := 0, body_target := 0
    should_close := false, single_owner_hint := false
    operand_a := cfg.libm.ten, operand_b := cfg.libm.twenty
    resp := [], resp_off := 0 }

/-- The fields `session_new` sets, once everything it calls has succeeded. -/
def session_new (cfg : Config F) (client_fd : Nat) (serial : S) : Session F S where
  fd := some client_fd
  serial := serial
  state := .read_headers
  req_no := 1
  single_owner_direct_read := false
  buf := []
  cap := WORKER_INITIAL_BUF
  hdr_sz := 0
  body_in := 0
  body_target := 0
  should_close := false
  single_owner_hint := false
  operand_a := cfg.libm.ten
  operand_b := cfg.libm.twenty
  resp := []
  resp_off := 0
  events := .read

/-! ## §3. Reading a request. -/

/-- The buffer sizes the kernel is peeked with: 1024, doubled up to
`sizeof(peek_buf) - 1`. -/
def peekSizes : List Nat := [1024, 2048, 4096, 8192]

/-- `peek_owner_from_kernel`: the first size that shows an owner; `owner_out` is
read as a C string by its callers. -/
def peekOwnerLoop (peek : Nat → Option Bytes) : List Nat → Option Bytes
  | [] => none
  | want :: wants =>
      match peek want with
      | none => none
      | some peeked =>
          if peeked = [] then none
          else
            match parse_request_owner peeked BENCH2_KA_TARGET_LEN with
            | some owner => some (cstr owner)
            | none => peekOwnerLoop peek wants

def peek_owner_from_kernel (peek : Nat → Option Bytes) : Option Bytes :=
  peekOwnerLoop peek peekSizes

def session_peek_owner (cfg : Config F) (s : Session F S) (c : Calls S) : Session F S × Ctl :=
  if c.ready ≤ 0 then (s, .ret c.ready)
  else
    match peek_owner_from_kernel c.peek with
    | none => (s, .ret (-1))
    | some owner =>
        if owner = cfg.s_function_name then
          (session_reset_request cfg s .read_headers, .again)
        else (s, .relay owner)

/-- How many bytes `session_tls_read_buffer` asks for, once there is room. -/
def readRoom (s : Session F S) : Nat := min (s.cap - s.buf.length - 1) 8192

def session_tls_read_buffer (s : Session F S) (c : Calls S) : Session F S × Int :=
  if WORKER_MAX_REQ_BYTES ≤ s.buf.length then (s, -1)
  else
    match ensure_capacity s.cap (s.buf.length + 8192 + 1) c.realloc_ok with
    | none => (s, -1)
    | some cap =>
        let s := { s with cap := cap }
        match c.read with
        | .data bytes => ({ s with buf := s.buf ++ bytes }, 1)
        | .none err => wolfssl_want s err c.epoll_mod_ok

/-- Where the header block ends, behind its empty line. -/
def headerEnd (buf : Bytes) : Option Nat :=
  match find_subseq buf crlfcrlf with
  | some i => some (i + 4)
  | none => (find_subseq buf [Ch.lf, Ch.lf]).map (· + 2)

def session_parse_headers (cfg : Config F) (s : Session F S) : Session F S × Int :=
  match headerEnd s.buf with
  | none => (s, 0)
  | some hdr_sz =>
      let s := { s with hdr_sz := hdr_sz }
      let cl := max (parse_content_length s.buf hdr_sz) 0
      if (WORKER_MAX_REQ_BYTES : Int) < cl then (s, -1)
      else
        let operands := parse_request_operands cfg.libm (s.buf.take hdr_sz)
        ({ s with
            body_target := cl.toNat
            body_in := min (s.buf.length - hdr_sz) cl.toNat
            should_close := has_connection_close s.buf hdr_sz
            single_owner_hint := has_single_owner_hint s.buf hdr_sz
            operand_a := operands.1
            operand_b := operands.2
            state := .read_body }, 1)

/-! ## §4. The response. -/

def decimal (n : Nat) : Bytes := ascii (toString n)

/-- Doubles that are whole numbers, and two decimals behind them. -/
def wholeNumbers : FloatLib Nat where
  strtod s := (digitsVal 0 (s.takeWhile isDigit), (s.takeWhile isDigit).length)
  mul := (· * ·)
  add := (· + ·)
  fmt2 n := decimal n ++ ascii ".00"
  ten := 10
  twenty := 20

/-- `worker_operation_name`. -/
def worker_operation_name (function_name : Bytes) : Bytes :=
  if (find_subseq function_name (ascii "fn-b")).isSome
      ∨ (find_subseq function_name (ascii "product")).isSome
  then ascii "product" else ascii "sum"

def responseJson (cfg : Config F) (req_no : Nat) (a b : F) : Bytes :=
  let operation := worker_operation_name cfg.s_function_name
  let result := if operation = ascii "product" then cfg.libm.mul a b else cfg.libm.add a b
  ascii "\x7b\"worker\":\"" ++ cfg.s_function_name ++ ascii "\",\"request_no\":" ++ decimal req_no
    ++ ascii ",\"path\":\"prototype\"" ++ ascii ",\"operation\":\"" ++ operation
    ++ ascii "\",\"a\":" ++ cfg.libm.fmt2 a ++ ascii ",\"b\":" ++ cfg.libm.fmt2 b
    ++ ascii ",\"result\":" ++ cfg.libm.fmt2 result ++ ascii "\x7d\n"

/-- The format string writes backslashes, so this header does not end its line. -/
def padHeader (cfg : Config F) : Bytes :=
  if 16 ≤ cfg.s_response_pad_bytes then
    ascii "X-Bench2-Pad: " ++ List.replicate (min (cfg.s_response_pad_bytes - 16) 400) 120
      ++ ascii "\\r\\n"
  else []

/-- The response of `session_build_response`; `none` when a buffer is too small. -/
def responseBytes (cfg : Config F) (req_no : Nat) (a b : F) (close : Bool) : Option Bytes :=
  let json := responseJson cfg req_no a b
  if 512 ≤ json.length then none
  else
    let resp := ascii "HTTP/1.1 200 OK\r\nContent-Type: application/json\r\nContent-Length: "
      ++ decimal json.length ++ ascii "\r\n" ++ padHeader cfg ++ ascii "Connection: "
      ++ ascii (if close then "close" else "keep-alive") ++ ascii "\r\n\r\n" ++ json
    if 768 ≤ resp.length then none else some resp

def session_build_response (cfg : Config F) (s : Session F S) (c : Calls S) :
    Session F S × Ctl :=
  match responseBytes cfg s.req_no s.operand_a s.operand_b s.should_close with
  | none => (s, .ret (-1))
  | some resp =>
      let r := epoll_mod_fd { s with resp := resp, resp_off := 0, state := .write_response }
        .write c.epoll_mod_ok
      (r.1, .ret r.2)

/-- What `session_flush_response` does once everything is written. -/
def session_finish_response (cfg : Config F) (s : Session F S) (c : Calls S) :
    Session F S × Ctl :=
  if s.should_close then (s, .ret (-1))
  else
    match c.serial with
    | none => (s, .ret (-1))
    | some serial =>
        let direct := s.single_owner_hint
        let s := { s with
          serial := serial, single_owner_direct_read := direct, req_no := s.req_no + 1 }
        let s := session_reset_request cfg s (if direct then .read_headers else .peek_owner)
        let r := epoll_mod_fd s .read c.epoll_mod_ok
        if r.2 ≠ 0 then (r.1, .ret (-1))
        else if direct ∧ 0 < c.pending then (r.1, .again)
        else (r.1, .ret 0)

/-! ## §5. The loop. -/

/-- A return value of a step function: 1 goes on, anything else is returned. -/
def ctlOf (rc : Int) : Ctl := if rc ≤ 0 then .ret rc else .again

/-- `case WS_READ_HEADERS` after a successful read. -/
def session_headers_read (cfg : Config F) (s : Session F S) (c : Calls S) : Session F S × Ctl :=
  let p := session_parse_headers cfg s
  if p.2 < 0 then (p.1, .ret (-1))
  else if p.2 = 0 then (p.1, .again)
  else if p.1.body_target ≤ p.1.body_in then session_build_response cfg p.1 c
  else (p.1, .again)

def session_read_headers (cfg : Config F) (s : Session F S) (c : Calls S) : Session F S × Ctl :=
  let r := session_tls_read_buffer s c
  if r.2 ≤ 0 then (r.1, .ret r.2) else session_headers_read cfg r.1 c

def session_read_body (cfg : Config F) (s : Session F S) (c : Calls S) : Session F S × Ctl :=
  if s.body_in < s.body_target then
    match c.read with
    | .data bytes => ({ s with body_in := s.body_in + bytes.length }, .again)
    | .none err =>
        let r := wolfssl_want s err c.epoll_mod_ok
        (r.1, ctlOf r.2)
  else session_build_response cfg s c

def session_flush_response (cfg : Config F) (s : Session F S) (c : Calls S) :
    Session F S × Ctl :=
  if s.resp_off < s.resp.length then
    match c.write with
    | .wrote n => ({ s with resp_off := s.resp_off + n }, .again)
    | .none err =>
        let r := wolfssl_want s err c.epoll_mod_ok
        (r.1, ctlOf r.2)
  else session_finish_response cfg s c

/-- One iteration of `session_advance`. -/
def session_iter (cfg : Config F) (s : Session F S) (c : Calls S) : Session F S × Ctl :=
  match s.state with
  | .peek_owner => session_peek_owner cfg s c
  | .read_headers => session_read_headers cfg s c
  | .read_body => session_read_body cfg s c
  | .write_response => session_flush_response cfg s c

/-- `session_advance`: iterations until one returns. -/
def session_advance (cfg : Config F) (s : Session F S) (calls : List (Calls S)) :
    Session F S × List Ctl :=
  pollUntil (session_iter cfg) Ctl.isAgain s calls

/-- What a session has come to. -/
inductive Phase where
  | live
  | closed
  | relayed (owner : Bytes)
  deriving DecidableEq

/-- What the main loop makes of the end of an iteration. -/
def Phase.ofCtl : Ctl → Phase
  | .again => .live
  | .ret rc => if rc < 0 then .closed else .live
  | .relay owner => .relayed owner

/-- The bytes an iteration reads. -/
def readBytes (s : Session F S) (c : Calls S) : Bytes :=
  match s.state, c.read with
  | .read_headers, .data d => d
  | .read_body, .data d => if s.body_in < s.body_target then d else []
  | _, _ => []

/-! ## §6. The room for a read. -/

/-- What `ensure_capacity` ends with: the capacity there was, or one that the doubling has come
to. -/
theorem ensure_capacity_cases {cap cap' needed : Nat} {ok : Bool}
    (h : ensure_capacity cap needed ok = some cap') :
    (needed ≤ cap ∧ cap' = cap)
      ∨ growCap 65 needed (if cap = 0 then WORKER_INITIAL_BUF else cap) = .room cap' := by
  unfold ensure_capacity at h
  split at h
  next hle => exact Or.inl ⟨hle, (Option.some.inj h).symm⟩
  next =>
    split at h
    next new_cap hgrow =>
      split at h
      next =>
        obtain rfl := Option.some.inj h
        exact Or.inr hgrow
      next => cases h
    next => cases h

/-- After `ensure_capacity` there is room for what was needed. -/
theorem le_ensure_capacity {cap cap' needed : Nat} {ok : Bool}
    (h : ensure_capacity cap needed ok = some cap') : needed ≤ cap' := by
  rcases ensure_capacity_cases h with ⟨hle, rfl⟩ | hgrow
  · exact hle
  · exact le_growCap hgrow

/-- So a read of headers always asks for 8192 bytes. -/
theorem readRoom_of_capacity {s : Session F S} {cap : Nat} {ok : Bool}
    (h : ensure_capacity s.cap (s.buf.length + 8192 + 1) ok = some cap) :
    readRoom { s with cap := cap } = 8192 := by
  have := le_ensure_capacity h
  simp only [readRoom]
  omega

/-! ## §7. What one iteration can do. -/

variable {cfg : Config F} {s : Session F S} {c : Calls S}

theorem epoll_mod_fd_cases (s : Session F S) (events : EpollEvents) (ok : Bool) :
    epoll_mod_fd s events ok = ({ s with events := events }, 0)
      ∨ epoll_mod_fd s events ok = (s, -1) := by
  cases ok
  · exact Or.inr rfl
  · exact Or.inl rfl

/-- A call without progress changes the registration at most, and returns. -/
theorem wolfssl_want_cases (s : Session F S) (err : Want) (ok : Bool) :
    ∃ events rc, wolfssl_want s err ok = ({ s with events := events }, rc) ∧ rc ≤ 0 := by
  cases err with
  | want_read =>
      rcases epoll_mod_fd_cases s .read ok with h | h
      · exact ⟨_, _, h, by decide⟩
      · exact ⟨s.events, _, h, by decide⟩
  | want_write =>
      rcases epoll_mod_fd_cases s .write ok with h | h
      · exact ⟨_, _, h, by decide⟩
      · exact ⟨s.events, _, h, by decide⟩
  | error => exact ⟨s.events, -1, rfl, by decide⟩

/-- A read of headers that got nothing. -/
theorem session_read_headers_none (cfg : Config F) (s : Session F S) {err : Want}
    (h : c.read = .none err) :
    ∃ cap events rc, session_read_headers cfg s c
      = ({ s with cap := cap, events := events }, .ret rc) := by
  unfold session_read_headers session_tls_read_buffer
  split
  · exact ⟨s.cap, s.events, -1, rfl⟩
  · split
    · exact ⟨s.cap, s.events, -1, rfl⟩
    next cap hcap =>
      obtain ⟨events, rc, hw, hrc⟩ := wolfssl_want_cases { s with cap := cap } err c.epoll_mod_ok
      simp only [h, hw, hrc, if_true]
      exact ⟨cap, events, rc, rfl⟩

/-- The session with `d` behind what its buffer held. -/
def Session.received (s : Session F S) (cap : Nat) (d : Bytes) : Session F S :=
  { s with cap := cap, buf := s.buf ++ d }

/-- A read of headers that got bytes: refused, or the bytes are in the buffer. -/
theorem session_read_headers_data (cfg : Config F) (s : Session F S) {d : Bytes}
    (h : c.read = .data d) :
    session_read_headers cfg s c = (s, .ret (-1))
      ∨ ∃ cap, session_read_headers cfg s c
          = session_headers_read cfg (s.received cap d) c := by
  unfold session_read_headers session_tls_read_buffer
  split
  · exact Or.inl rfl
  · split
    · exact Or.inl rfl
    next cap hcap =>
      right
      simp only [h]
      exact ⟨cap, rfl⟩

theorem session_build_response_cases (cfg : Config F) (s : Session F S) (c : Calls S) :
    session_build_response cfg s c = (s, .ret (-1))
      ∨ ∃ resp events rc,
          responseBytes cfg s.req_no s.operand_a s.operand_b s.should_close = some resp
          ∧ session_build_response cfg s c
            = ({ s with resp := resp, resp_off := 0, state := .write_response,
                        events := events }, .ret rc) := by
  unfold session_build_response
  split
  · exact Or.inl rfl
  next resp hresp =>
    right
    rcases epoll_mod_fd_cases
      { s with resp := resp, resp_off := 0, state := .write_response } .write c.epoll_mod_ok
      with h | h
    · exact ⟨resp, .write, 0, hresp, by rw [h]⟩
    · exact ⟨resp, s.events, -1, hresp, by rw [h]⟩

/-- A header block holds a line end. -/
theorem lf_mem_of_headerEnd {buf : Bytes} {hdr_sz : Nat} (h : headerEnd buf = some hdr_sz) :
    Ch.lf ∈ buf := by
  have hocc : ∀ {needle : Bytes} {i : Nat}, Ch.lf ∈ needle → find_subseq buf needle = some i →
      Ch.lf ∈ buf := by
    intro needle i hn hi
    exact (List.drop_subset i buf) ((firstOcc_spec hi).1.subset hn)
  unfold headerEnd at h
  split at h
  next i hi => exact hocc (by decide) hi
  next =>
    obtain ⟨i, hi, -⟩ := Option.map_eq_some_iff.mp h
    exact hocc (by decide) hi

/-- What is kept while a header block is taken apart. -/
structure HeadersDone (s s' : Session F S) (hdr_sz : Nat) (ctl : Ctl) : Prop where
  fd_eq : s'.fd = s.fd
  buf_eq : s'.buf = s.buf
  hdr_sz_eq : s'.hdr_sz = hdr_sz
  req_no_eq : s'.req_no = s.req_no
  state_eq : (s'.state = .read_body ∧ ctl = .again)
    ∨ (s'.state = .write_response ∧ ∃ rc, ctl = .ret rc)

/-- The buffer after a read: no header block yet, a refusal, or a request. -/
theorem session_headers_read_cases (cfg : Config F) (s : Session F S) (c : Calls S) :
    (headerEnd s.buf = none ∧ session_headers_read cfg s c = (s, .again))
      ∨ ∃ hdr_sz s' ctl, headerEnd s.buf = some hdr_sz
        ∧ session_headers_read cfg s c = (s', ctl)
        ∧ ((ctl = .ret (-1) ∧ s'.fd = s.fd ∧ s'.req_no = s.req_no
              ∧ (s'.state = s.state ∨ s'.state = .read_body))
          ∨ HeadersDone s s' hdr_sz ctl) := by
  unfold session_headers_read session_parse_headers
  cases hend : headerEnd s.buf with
  | none => exact Or.inl ⟨rfl, rfl⟩
  | some hdr_sz =>
      right
      dsimp only
      split
      · -- the declared body is too long
        exact ⟨hdr_sz, _, _, rfl, rfl, Or.inl ⟨rfl, rfl, rfl, Or.inl rfl⟩⟩
      · simp only [show ¬ (1 : Int) < 0 by decide, show ¬ (1 : Int) = 0 by decide, if_false]
        split
        · -- the body is in the buffer already
          rcases session_build_response_cases cfg _ c with h | ⟨resp, events, rc, -, h⟩
          · exact ⟨hdr_sz, _, _, rfl, h, Or.inl ⟨rfl, rfl, rfl, Or.inr rfl⟩⟩
          · exact ⟨hdr_sz, _, _, rfl, h,
              Or.inr ⟨rfl, rfl, rfl, rfl, Or.inr ⟨rfl, rc, rfl⟩⟩⟩
        · exact ⟨hdr_sz, _, _, rfl, rfl, Or.inr ⟨rfl, rfl, rfl, rfl, Or.inl ⟨rfl, rfl⟩⟩⟩

/-- The session after a completed response. -/
def Session.completed (cfg : Config F) (s : Session F S) (serial : S) : Session F S :=
  { session_reset_request cfg
      { s with serial := serial, single_owner_direct_read := s.single_owner_hint,
               req_no := s.req_no + 1 }
      (if s.single_owner_hint then .read_headers else .peek_owner) with events := .read }

theorem session_finish_response_cases (cfg : Config F) (s : Session F S) (c : Calls S) :
    (∃ s', session_finish_response cfg s c = (s', .ret (-1)) ∧ s'.fd = s.fd
        ∧ s.req_no ≤ s'.req_no)
      ∨ ∃ serial, c.serial = some serial ∧ s.should_close = false
        ∧ session_finish_response cfg s c
          = (s.completed cfg serial,
              if s.single_owner_hint ∧ 0 < c.pending then .again else .ret 0) := by
  unfold session_finish_response
  split
  · exact Or.inl ⟨s, rfl, rfl, Nat.le_refl _⟩
  next hclose =>
    split
    · exact Or.inl ⟨s, rfl, rfl, Nat.le_refl _⟩
    next serial hserial =>
      cases hmod : c.epoll_mod_ok with
      | true =>
          refine Or.inr ⟨serial, hserial, by simpa using hclose, ?_⟩
          simp only [epoll_mod_fd, if_true, ne_eq, not_true_eq_false, if_false]
          split <;> rfl
      | false => exact Or.inl ⟨_, rfl, rfl, Nat.le_succ _⟩

end TlsMigration.Bench2
