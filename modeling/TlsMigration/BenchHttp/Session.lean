/-
  TlsMigration.BenchHttp.Session
  ──────────────────────────────
  **A SESSION OF THE THROUGHPUT WORKER**
  (`advance_session` and what it calls,
  micro-bench-max-throughput-http, both timing_fn_ka_worker.c).

  One worker adds its two numbers and the other multiplies them, and that is
  all in which they differ.  `session_iter` is the `do` loop of
  `advance_session`, cut before each `recv` and `write`: the inner loops come
  back to the state they are in.  What the calls return is an argument.

    • `session_iter`    — one iteration;
    • `advance_session` — the loop, over the list of what its calls return.
-/
import TlsMigration.HttpKa.Operands
import TlsMigration.HttpKa.Session
import TlsMigration.Http.Response

namespace TlsMigration.BenchHttp

open TlsMigration.Http TlsMigration.Handoff
open TlsMigration.HttpKa (Recv Send EpollEvents headerEnd bodyLength should_close
  HTTPMIGRATE_TARGET_LEN)
open TlsMigration.HttpKa.Sum (Doubles operands grown)

/-! ## §1. Data. -/

/-- `sess_state_t` -/
inductive SessState where
  | S_READ_HEADERS
  | S_READ_BODY
  | S_WRITE_RESP
  | S_PEEK_OWNER
  deriving DecidableEq

/-- What a worker process fixes: its name (a C string), its operation, and libc. -/
structure Config (F : Type*) where
  fn_name : Bytes
  libm : Doubles F
  /-- `+` in function A, `*` in function B -/
  compute : F → F → F
  /-- `%.6g` -/
  fmt6g : F → Bytes

variable {F : Type*}

/-- `session_t`.  `buf` holds the `len` bytes in use, `hdr_sz` is `hdr_end + hdr_sep`, and
`resp` is what `snprintf` has put into its 768 bytes; `events` is what the descriptor was
last registered for. -/
structure Session (F : Type*) where
  fd : Fd
  req_no : UInt64
  state : SessState
  buf : Bytes
  cap : Nat
  hdr_sz : Nat
  content_length : Nat
  body_in : Nat
  should_close : Bool
  a : F
  b : F
  resp : Bytes
  resp_len : Nat
  resp_off : Nat
  events : EpollEvents

/-- `session_new`, registered for EPOLLIN. -/
def session_new (L : Doubles F) (fd : Fd) : Session F where
  fd := fd
  req_no := 1
  state := .S_READ_HEADERS
  buf := []
  cap := 0
  hdr_sz := 0
  content_length := 0
  body_in := 0
  should_close := false
  a := L.one
  b := L.two
  resp := []
  resp_len := 0
  resp_off := 0
  events := .epollin

/-- `session_reset_for_next` -/
def session_reset_for_next (L : Doubles F) (s : Session F) : Session F :=
  { s with
    buf := []
    hdr_sz := 0
    content_length := 0
    body_in := 0
    should_close := false
    a := L.one
    b := L.two
    resp_len := 0
    resp_off := 0
    req_no := s.req_no + 1
    state := .S_PEEK_OWNER }

/-- What the calls of one iteration return. -/
structure Calls where
  recv : Recv
  write : Send
  realloc_ok : Bool
  epoll_mod_ok : Bool

/-- How an iteration ends. -/
inductive Ctl where
  | again
  /-- until the next event -/
  | wait
  /-- `session_close` -/
  | close
  /-- the session is freed, and its descriptor goes to the gateway -/
  | relay (owner : Bytes)
  deriving DecidableEq

def Ctl.isAgain (c : Ctl) : Bool := c = .again

/-! ## §2. The response. -/

/-- The value of `_pad`. -/
def pad : Bytes := (List.replicate 14 (ascii "0123456789ABCDEF")).flatten

/-- The text that is printed into `json`. -/
def jsonText (cfg : Config F) (req_no : UInt64) (result : F) : Bytes :=
  ascii "\x7b\"worker\":\"" ++ cfg.fn_name ++ ascii "\",\"request_no\":"
    ++ ascii (toString req_no.toNat) ++ ascii ",\"result\":" ++ cfg.fmt6g result
    ++ ascii ",\"_pad\":\"" ++ pad ++ ascii "\"\x7d"

/-- The text that is printed into `resp`: the length is that of the whole JSON text, and the
text itself is what `json[768]` holds of it. -/
def respText (cfg : Config F) (req_no : UInt64) (close : Bool) (result : F) : Bytes :=
  let json := jsonText cfg req_no result
  ascii "HTTP/1.1 200 OK\r\nContent-Type: application/json\r\nContent-Length: "
    ++ ascii (toString json.length) ++ ascii "\r\nConnection: "
    ++ ascii (if close then "close" else "keep-alive") ++ ascii "\r\n\r\n" ++ json.take 767

/-! ## §3. Reading a request. -/

/-- `sizeof(peek_buf) - 1` -/
def PEEK_LEN : Nat := 1023

/-- `case S_PEEK_OWNER` -/
def session_peek_owner (cfg : Config F) (s : Session F) (c : Calls) : Session F × Ctl :=
  match c.recv with
  | .eagain => (s, .wait)
  | .error => (s, .close)
  | .data peek_buf =>
      if peek_buf = [] then (s, .close)
      else
        match parse_request_owner peek_buf HTTPMIGRATE_TARGET_LEN with
        | none => (s, .close)
        | some owner =>
            if cstr owner ≠ cfg.fn_name then (s, .relay (cstr owner))
            else ({ s with state := .S_READ_HEADERS }, .again)

/-- `case S_READ_HEADERS`, once the header block is complete: the operands are read from the
part of the body that has come with it. -/
def session_headers_read (cfg : Config F) (s : Session F) : Session F :=
  let body_in := s.buf.length - s.hdr_sz
  let p := if 0 < body_in then operands cfg.libm s.a s.b (s.buf.drop s.hdr_sz) body_in
    else (s.a, s.b)
  { s with
    content_length := bodyLength s.buf s.hdr_sz
    should_close := HttpKa.should_close s.buf s.hdr_sz
    body_in := body_in
    a := p.1
    b := p.2
    state := .S_READ_BODY }

/-- `case S_READ_HEADERS` -/
def session_read_headers (cfg : Config F) (s : Session F) (c : Calls) : Session F × Ctl :=
  if s.cap < s.buf.length + 4096 + 1 ∧ c.realloc_ok = false then (s, .close)
  else
    let s := { s with cap := grown s.cap s.buf.length }
    match c.recv with
    | .eagain => (s, .wait)
    | .error => (s, .close)
    | .data bytes =>
        if bytes = [] then (s, .close)
        else
          let s := { s with buf := s.buf ++ bytes }
          match headerEnd s.buf with
          | none => (s, .again)
          | some (hdr_end, hdr_sep) =>
              (session_headers_read cfg { s with hdr_sz := hdr_end + hdr_sep }, .again)

/-- The end of `case S_READ_BODY`; the result of `epoll_mod` is not looked at. -/
def session_build_response (cfg : Config F) (s : Session F) (c : Calls) : Session F :=
  let text := respText cfg s.req_no s.should_close (cfg.compute s.a s.b)
  { s with
    resp := text.take 767 ++ [Ch.nul]
    resp_len := text.length
    resp_off := 0
    state := .S_WRITE_RESP
    events := if c.epoll_mod_ok then .epollout else s.events }

/-- `case S_READ_BODY` -/
def session_read_body (cfg : Config F) (s : Session F) (c : Calls) : Session F × Ctl :=
  if s.body_in < s.content_length then
    match c.recv with
    | .eagain => (s, .wait)
    | .error => (s, .close)
    | .data scratch =>
        if scratch = [] then (s, .close)
        else ({ s with body_in := s.body_in + scratch.length }, .again)
  else (session_build_response cfg s c, .again)

/-! ## §4. Writing the response. -/

/-- `case S_WRITE_RESP` -/
def session_write_resp (cfg : Config F) (s : Session F) (c : Calls) : Session F × Ctl :=
  if s.resp_off < s.resp_len then
    match c.write with
    | .eagain => (s, .wait)
    | .error => (s, .close)
    | .sent n => if n = 0 then (s, .close) else ({ s with resp_off := s.resp_off + n }, .again)
  else if s.should_close then (s, .close)
  else
    let s := session_reset_for_next cfg.libm s
    ({ s with events := if c.epoll_mod_ok then .epollin else s.events }, .wait)

/-! ## §5. The loop. -/

/-- One iteration of `advance_session`. -/
def session_iter (cfg : Config F) (s : Session F) (c : Calls) : Session F × Ctl :=
  match s.state with
  | .S_PEEK_OWNER => session_peek_owner cfg s c
  | .S_READ_HEADERS => session_read_headers cfg s c
  | .S_READ_BODY => session_read_body cfg s c
  | .S_WRITE_RESP => session_write_resp cfg s c

/-- `advance_session`: iterations until one ends the call. -/
def advance_session (cfg : Config F) (s : Session F) (calls : List Calls) :
    Session F × List Ctl :=
  pollUntil (session_iter cfg) Ctl.isAgain s calls

/-- How much the `recv` of an iteration asks for. -/
def Session.want (s : Session F) : Nat :=
  match s.state with
  | .S_PEEK_OWNER => PEEK_LEN
  | .S_READ_HEADERS => grown s.cap s.buf.length - s.buf.length - 1
  | .S_READ_BODY => min (s.content_length - s.body_in) 16384
  | .S_WRITE_RESP => 0

/-- The iteration calls `recv`. -/
def Session.Receives (s : Session F) : Prop :=
  s.state = .S_PEEK_OWNER ∨ s.state = .S_READ_HEADERS
    ∨ (s.state = .S_READ_BODY ∧ s.body_in < s.content_length)

instance (s : Session F) : Decidable s.Receives := inferInstanceAs (Decidable (_ ∨ _))

/-- What an iteration writes to the connection. -/
def Session.written (s : Session F) (c : Calls) : Bytes :=
  if s.state = .S_WRITE_RESP ∧ s.resp_off < s.resp_len then
    match c.write with
    | .sent n => (s.resp.drop s.resp_off).take n
    | _ => []
  else []

end TlsMigration.BenchHttp
