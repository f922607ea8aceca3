/-
  TlsMigration.HttpKa.Session
  ───────────────────────────
  **THE SESSION STATE MACHINE OF THE TIMING WORKER**
  (`session_advance` and what it calls,
  sumprod-timing-fn-a/timing_fn_ka_worker.c).

  One worker serves a sum or a product.  `session_iter` is the loop body of
  `session_advance`, cut before each `recv` and `send`: the inner loop over
  `send` comes back to the state it is in.  What the calls return is an
  argument (`Calls`), so every outcome is covered.

    • `session_iter`     — one iteration;
    • `session_advance`  — the loop, over the list of what its calls return.
-/
import TlsMigration.HttpKa.Payload
import TlsMigration.Handoff.UnixStream
import TlsMigration.Lib.Doubling
import TlsMigration.Lib.Polling

namespace TlsMigration.HttpKa

open TlsMigration.Http TlsMigration.Handoff

/-! ## §1. Data. -/

/-- `worker_state_t`. -/
inductive WorkerState where
  | peek_owner
  | read_headers
  | read_body
  | write_response
  deriving DecidableEq

/-- The two event sets a session is registered for, both edge-triggered. -/
inductive EpollEvents where
  | epollin
  | epollout
  deriving DecidableEq

/-- What `main` sets: the worker's name (a C string), and which of the two functions it is. -/
structure Config where
  s_function_name : Bytes
  s_is_product : Bool

/-- `worker_session_t`; a descriptor is `none` for `-1`, `mem` is what has been written of
`buf`, from its start on, and `resp` holds `resp_len` bytes.  `events` is what the
descriptor was last registered for. -/
structure Session where
  fd : Option Fd
  pipe_fd : Option Fd
  pipe_sent : Bool
  state : WorkerState
  req_no : Nat
  mem : Bytes
  cap : Nat
  len : Nat
  hdr_sz : Nat
  body_in : Nat
  body_target : Nat
  should_close : Bool
  resp : Bytes
  resp_off : Nat
  first_request : Bool
  events : EpollEvents

/-- What `recv` returns; no bytes stand for 0. -/
inductive Recv where
  | data (bytes : Bytes)
  | eagain
  | error
  deriving DecidableEq

/-- What `send` returns. -/
inductive Send where
  | sent (n : Nat)
  | eagain
  | error
  deriving DecidableEq

/-- What the calls of one iteration return. -/
structure Calls where
  recv : Recv
  /-- the `recv` that takes the header block out of the socket -/
  drain : Recv
  send : Send
  realloc_ok : Nat → Bool
  epoll_mod_ok : Bool

/-- How an iteration ends. -/
inductive Ctl where
  | again
  | ret (rc : Int)
  /-- `session_relay(s, owner)`, and `session_advance` returns 0 -/
  | relay (owner : Bytes)
  deriving DecidableEq

def Ctl.isAgain (c : Ctl) : Bool := c = .again

/-! ## §2. The buffer. -/

/-- Bytes written `off` bytes into an area. -/
def poke (mem : Bytes) (off : Nat) (bytes : Bytes) : Bytes :=
  mem.take off ++ bytes ++ mem.drop (off + bytes.length)

def ensure_capacity (cap needed : Nat) (realloc_ok : Nat → Bool) : Room :=
  if needed ≤ cap then .room cap
  else
    match doubleCap 65 needed (if cap = 0 then 16384 else cap) with
    | none => .spins
    | some new_cap => if realloc_ok new_cap then .room new_cap else .failed

/-! ## §3. The response. -/

/-- `(int)` of a `long`. -/
def toInt (v : Int) : Int := v.bmod (2 ^ 32)

/-- One `%d` of `sscanf`: the value, and what is left to read. -/
def scanInt (s : Bytes) : Option (Int × Bytes) :=
  let s := s.dropWhile isSpace
  (strtoll s).map fun v =>
    let s := if s.head? = some Ch.minus ∨ s.head? = some Ch.plus then s.drop 1 else s
    (toInt v, s.dropWhile isDigit)

/-- `sscanf(s, "%d %d", &num1, &num2)`, where both are read. -/
def scanTwo (s : Bytes) : Option (Int × Int) :=
  match scanInt s with
  | none => none
  | some (num1, rest) => (scanInt rest).map fun p => (num1, p.1)

/-- `%d` of `printf`. -/
def showInt (v : Int) : Bytes := ascii (toString v)

/-- The `json` of `session_build_response`; `body` is the C string behind the headers. -/
def responseJson (cfg : Config) (body : Bytes) : Bytes :=
  let json :=
    match scanTwo body with
    | some (num1, num2) =>
        let result := toInt (if cfg.s_is_product then num1 * num2 else num1 + num2)
        ascii "\x7b\n  \"status\": \"success\",\n  \"result\": " ++ showInt result
          ++ ascii "\n\x7d\n"
    | none =>
        ascii ("\x7b\n  \"status\": \"error\",\n  \"message\": \"Parsing failed.\",\n"
            ++ "  \"raw_body\": \"")
          ++ body.take 512 ++ ascii "\"\n\x7d\n"
  json.take 2047

/-- The response, as it is cut to the buffer. -/
def responseBytes (cfg : Config) (body : Bytes) (should_close : Bool) : Bytes :=
  let json := responseJson cfg body
  (ascii "HTTP/1.1 200 OK\r\nContent-Type: application/json\r\nContent-Length: "
    ++ showInt json.length ++ ascii "\r\nConnection: "
    ++ ascii (if should_close then "close" else "keep-alive") ++ ascii "\r\n\r\n" ++ json).take 4095

/-- The first response is announced in the pipe, which is closed. -/
def Session.notify (s : Session) : Session :=
  if s.pipe_sent = false ∧ s.pipe_fd.isSome then { s with pipe_fd := none, pipe_sent := true }
  else s

/-- `session_build_response`. -/
def session_build_response (cfg : Config) (s : Session) (c : Calls) : Session × Ctl :=
  let s := { s with
    resp := responseBytes cfg (cstr (s.mem.drop s.hdr_sz)) s.should_close
    resp_off := 0
    state := .write_response }
  let s := s.notify
  if c.epoll_mod_ok then ({ s with events := .epollout }, .ret 1) else (s, .ret (-1))

/-! ## §4. Reading a request. -/

/-- `sizeof(peek_buf) - 1` -/
def PEEK_LEN : Nat := 1023

/-- `session_peek_owner`. -/
def session_peek_owner (cfg : Config) (s : Session) (c : Calls) : Session × Ctl :=
  match c.recv with
  | .eagain => (s, .ret 0)
  | .error => (s, .ret (-1))
  | .data peek_buf =>
      if peek_buf = [] then (s, .ret (-1))
      else if memchr Ch.lf peek_buf = none then (s, .ret 0)
      else
        match parse_request_owner peek_buf HTTPMIGRATE_TARGET_LEN with
        | none => (s, .ret (-1))
        | some owner =>
            if cstr owner = cfg.s_function_name then
              ({ s with state := .read_headers, len := 0 }, .again)
            else (s, .relay (cstr owner))

/-- `case WS_READ_HEADERS`, once the header block has been taken out of the socket. -/
def session_headers_read (cfg : Config) (s : Session) (c : Calls) : Session × Ctl :=
  let s := { s with
    body_target := bodyLength s.mem s.hdr_sz
    body_in := 0
    should_close := HttpKa.should_close s.mem s.hdr_sz }
  if 0 < s.body_target then ({ s with state := .read_body }, .again)
  else session_build_response cfg s c

/-- `case WS_READ_HEADERS`. -/
def session_read_headers (cfg : Config) (s : Session) (c : Calls) : Session × Ctl :=
  match ensure_capacity s.cap (4096 + 1) c.realloc_ok with
  | .failed => (s, .ret (-1))
  | .spins => (s, .again)
  | .room cap =>
      let s := { s with cap := cap }
      match c.recv with
      | .eagain => (s, .ret 0)
      | .error => (s, .ret (-1))
      | .data bytes =>
          if bytes = [] then (s, .ret (-1))
          else
            let s := { s with mem := poke s.mem 0 (bytes ++ [Ch.nul]) }
            match headerEnd bytes with
            | none => if s.cap - 1 ≤ bytes.length then (s, .ret (-1)) else (s, .ret 0)
            | some (hdr_end, sep_len) =>
                let s := { s with hdr_sz := hdr_end + sep_len }
                match c.drain with
                | .data bytes =>
                    session_headers_read cfg
                      { s with len := bytes.length, mem := poke s.mem 0 (bytes ++ [Ch.nul]) } c
                | _ => (s, .ret (-1))

/-- `case WS_READ_BODY`. -/
def session_read_body (cfg : Config) (s : Session) (c : Calls) : Session × Ctl :=
  let want := s.body_target - s.body_in
  if want = 0 then session_build_response cfg s c
  else
    match ensure_capacity s.cap (s.len + want + 1) c.realloc_ok with
    | .failed => (s, .ret (-1))
    | .spins => (s, .again)
    | .room cap =>
        let s := { s with cap := cap }
        match c.recv with
        | .eagain => (s, .ret 0)
        | .error => (s, .ret (-1))
        | .data bytes =>
            if bytes = [] then (s, .ret (-1))
            else
              let s := { s with
                mem := poke s.mem s.len (bytes ++ [Ch.nul])
                len := s.len + bytes.length
                body_in := s.body_in + bytes.length }
              if s.body_in < s.body_target then (s, .again) else session_build_response cfg s c

/-! ## §5. Writing the response. -/

/-- What follows the loop over `send`. -/
def session_finish_response (s : Session) (c : Calls) : Session × Ctl :=
  if s.should_close then (s, .ret (-1))
  else
    let s := { s with
      req_no := s.req_no + 1
      first_request := false
      len := 0, hdr_sz := 0, body_in := 0, body_target := 0
      state := .peek_owner }
    if c.epoll_mod_ok then ({ s with events := .epollin }, .again) else (s, .ret (-1))

/-- `case WS_WRITE_RESPONSE`. -/
def session_write_response (s : Session) (c : Calls) : Session × Ctl :=
  if s.resp_off < s.resp.length then
    match c.send with
    | .eagain => (s, .ret 0)
    | .error => (s, .ret (-1))
    | .sent n =>
        if n = 0 then (s, .ret (-1)) else ({ s with resp_off := s.resp_off + n }, .again)
  else session_finish_response s c

/-! ## §6. The loop. -/

/-- One iteration of `session_advance`. -/
def session_iter (cfg : Config) (s : Session) (c : Calls) : Session × Ctl :=
  match s.state with
  | .peek_owner => session_peek_owner cfg s c
  | .read_headers => session_read_headers cfg s c
  | .read_body => session_read_body cfg s c
  | .write_response => session_write_response s c

/-- `session_advance`: iterations until one returns. -/
def session_advance (cfg : Config) (s : Session) (calls : List Calls) : Session × List Ctl :=
  pollUntil (session_iter cfg) Ctl.isAgain s calls

/-- The fields `register_client_fd` sets, once its allocations have succeeded. -/
def session_new (client_fd : Fd) (pipe_fd : Option Fd) : Session where
  fd := some client_fd
  pipe_fd := pipe_fd
  pipe_sent := false
  state := .peek_owner
  req_no := 0
  mem := []
  cap := 16384
  len := 0
  hdr_sz := 0
  body_in := 0
  body_target := 0
  should_close := false
  resp := []
  resp_off := 0
  first_request := true
  events := .epollin

/-! ## §7. The descriptors of a session. -/

/-- What an iteration does to the two descriptors: nothing, or the pipe is notified and
closed. -/
def PipeStep (s s' : Session) : Prop :=
  s'.fd = s.fd ∧ ((s'.pipe_fd = s.pipe_fd ∧ s'.pipe_sent = s.pipe_sent)
    ∨ (s.pipe_sent = false ∧ s'.pipe_fd = none ∧ s'.pipe_sent = true))

theorem PipeStep.same {s s' : Session} (hfd : s'.fd = s.fd) (hpipe : s'.pipe_fd = s.pipe_fd)
    (hsent : s'.pipe_sent = s.pipe_sent) : PipeStep s s' := ⟨hfd, Or.inl ⟨hpipe, hsent⟩⟩

theorem PipeStep.trans {s s' s'' : Session} (h : PipeStep s s') (h' : PipeStep s' s'') :
    PipeStep s s'' := by
  obtain ⟨hfd, hp⟩ := h
  obtain ⟨hfd', hp'⟩ := h'
  refine ⟨hfd'.trans hfd, ?_⟩
  rcases hp with ⟨hpipe, hsent⟩ | ⟨hno, hnone, hyes⟩
  · rcases hp' with ⟨hpipe', hsent'⟩ | ⟨hno', hnone', hyes'⟩
    · exact Or.inl ⟨hpipe'.trans hpipe, hsent'.trans hsent⟩
    · exact Or.inr ⟨hsent ▸ hno', hnone', hyes'⟩
  · rcases hp' with ⟨hpipe', hsent'⟩ | ⟨hno', -, -⟩
    · exact Or.inr ⟨hno, hpipe'.trans hnone, hsent'.trans hyes⟩
    · rw [hyes] at hno'
      cases hno'

theorem Session.notify_pipe (s : Session) : PipeStep s s.notify := by
  unfold Session.notify
  split
  next h => exact ⟨rfl, Or.inr ⟨h.1, rfl, rfl⟩⟩
  next => exact .same rfl rfl rfl

theorem session_build_response_pipe (cfg : Config) (s : Session) (c : Calls) :
    PipeStep s (session_build_response cfg s c).1 := by
  unfold session_build_response
  dsimp only
  have hnotify := Session.notify_pipe { s with
    resp := responseBytes cfg (cstr (s.mem.drop s.hdr_sz)) s.should_close
    resp_off := 0
    state := .write_response }
  have hpipe := (PipeStep.same (s := s) rfl rfl rfl).trans hnotify
  split
  · exact hpipe.trans (.same rfl rfl rfl)
  · exact hpipe

theorem session_headers_read_pipe (cfg : Config) (s : Session) (c : Calls) :
    PipeStep s (session_headers_read cfg s c).1 := by
  unfold session_headers_read
  dsimp only
  split
  · exact .same rfl rfl rfl
  · exact (PipeStep.same rfl rfl rfl).trans (session_build_response_pipe cfg _ c)

theorem session_read_headers_pipe (cfg : Config) (s : Session) (c : Calls) :
    PipeStep s (session_read_headers cfg s c).1 := by
  unfold session_read_headers
  split
  · exact .same rfl rfl rfl
  · exact .same rfl rfl rfl
  · dsimp only
    split
    · exact .same rfl rfl rfl
    · exact .same rfl rfl rfl
    · split
      · exact .same rfl rfl rfl
      · split
        · split
          · exact .same rfl rfl rfl
          · exact .same rfl rfl rfl
        · split
          · exact (PipeStep.same rfl rfl rfl).trans (session_headers_read_pipe cfg _ c)
          · exact .same rfl rfl rfl

theorem session_read_body_pipe (cfg : Config) (s : Session) (c : Calls) :
    PipeStep s (session_read_body cfg s c).1 := by
  unfold session_read_body
  dsimp only
  split
  · exact session_build_response_pipe cfg s c
  · split
    · exact .same rfl rfl rfl
    · exact .same rfl rfl rfl
    · split
      · exact .same rfl rfl rfl
      · exact .same rfl rfl rfl
      · split
        · exact .same rfl rfl rfl
        · split
          · exact .same rfl rfl rfl
          · exact (PipeStep.same rfl rfl rfl).trans (session_build_response_pipe cfg _ c)

theorem session_iter_pipe (cfg : Config) (s : Session) (c : Calls) :
    PipeStep s (session_iter cfg s c).1 := by
  unfold session_iter
  cases s.state with
  | peek_owner =>
      unfold session_peek_owner
      dsimp only
      split
      · exact .same rfl rfl rfl
      · exact .same rfl rfl rfl
      · split
        · exact .same rfl rfl rfl
        split
        · exact .same rfl rfl rfl
        split
        · exact .same rfl rfl rfl
        split
        · exact .same rfl rfl rfl
        · exact .same rfl rfl rfl
  | read_headers => exact session_read_headers_pipe cfg s c
  | read_body => exact session_read_body_pipe cfg s c
  | write_response =>
      unfold session_write_response session_finish_response
      dsimp only
      split
      · split
        · exact .same rfl rfl rfl
        · exact .same rfl rfl rfl
        · split
          · exact .same rfl rfl rfl
          · exact .same rfl rfl rfl
      · split
        · exact .same rfl rfl rfl
        · split
          · exact .same rfl rfl rfl
          · exact .same rfl rfl rfl

/-- **`session_advance` keeps the connection's descriptor, and closes the pipe's at most
once.** -/
theorem session_advance_pipe (cfg : Config) (s : Session) (calls : List Calls) :
    PipeStep s (session_advance cfg s calls).1 := by
  unfold session_advance
  induction calls generalizing s with
  | nil => exact .same rfl rfl rfl
  | cons c cs ih =>
      cases ha : Ctl.isAgain (session_iter cfg s c).2 with
      | true =>
          rw [pollUntil_again cs ha]
          exact (session_iter_pipe cfg s c).trans (ih _)
      | false =>
          rw [pollUntil_done cs ha]
          exact session_iter_pipe cfg s c

end TlsMigration.HttpKa
