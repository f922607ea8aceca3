/-
  TlsMigration.SumProd.Session
  ────────────────────────────
  **THE SESSION STATE MACHINE OF THE VANILLA SUM AND PRODUCT FUNCTIONS**
  (`session_advance` and what it calls,
  sumprod-vanilla-fn-a/vanilla_fn_worker.c).

  One worker serves a sum or a product.  `session_iter` is the loop body of
  `session_advance`, cut before each `recv` and `send`: the inner loops come
  back to the state they are in.  What the calls return is an argument
  (`Calls`), so every outcome is covered.

    • `session_build_response` — the response, through two `snprintf`;
    • `session_iter`           — one iteration.
-/
import TlsMigration.HttpKa.Session

namespace TlsMigration.SumProd

open TlsMigration.Http
open TlsMigration.HttpKa (Recv Send Ctl ensure_capacity headerEnd scanTwo showInt toInt)

/-! ## §1. Data. -/

/-- `worker_state_t`. -/
inductive WorkerState where
  | read_headers
  | read_body
  | write_response
  deriving DecidableEq

/-- The two event sets a session is registered for. -/
inductive EpollEvents where
  | epollin
  | epollout
  deriving DecidableEq

structure Config where
  s_is_product : Bool
  /-- the string that `snprintf` leaves in a buffer when it returns -1 -/
  unspecified : Bytes

/-- `worker_session_t`; `buf` holds `len` bytes, behind which there is a NUL, and `resp` is what
has been written of the response buffer. -/
structure Session where
  state : WorkerState
  req_no : Nat
  buf : Bytes
  cap : Nat
  hdr_sz : Nat
  body_in : Nat
  body_target : Nat
  should_close : Bool
  resp : Bytes
  resp_len : Nat
  resp_off : Nat
  events : EpollEvents
  deriving DecidableEq

/-- What the calls of one iteration return. -/
structure Calls where
  recv : Recv
  send : Send
  realloc_ok : Nat → Bool
  epoll_mod_ok : Bool

/-- The fields `handle_listen_fd` sets. -/
def session_new : Session where
  state := .read_headers
  req_no := 1
  buf := []
  cap := 16384
  hdr_sz := 0
  body_in := 0
  body_target := 0
  should_close := false
  resp := []
  resp_len := 0
  resp_off := 0
  events := .epollin

/-- `epoll_mod_fd`. -/
def epoll_mod_fd (s : Session) (events : EpollEvents) (ok : Bool) : Session × Ctl :=
  if ok then ({ s with events := events }, .ret 0) else (s, .ret (-1))

/-! ## §2. The headers. -/

/-- The loop body of `extract_header`, for a name in lower case: the value ends with its line. -/
def valueOf (name line h : Bytes) : Option Bytes :=
  if name.length + 1 < line.length ∧ (line.take name.length).map lower = name
      ∧ (line)[name.length]? = some 58 then
    some (((h.drop (name.length + 1)).dropWhile isBlank).takeWhile
      fun c => decide (c ≠ Ch.cr ∧ c ≠ Ch.lf))
  else none

/-- `extract_header`. -/
def extract_header (headers : Bytes) (hlen : Nat) (name : Bytes) : Option Bytes :=
  scanLines (fun line h _ => valueOf name line h) hlen (headers.take hlen) headers

/-- `parse_content_length`; `tmp` has 32 bytes. -/
def parse_content_length (headers : Bytes) (hlen : Nat) : Int :=
  match extract_header headers hlen (ascii "content-length") with
  | none => -1
  | some v => (strtoll (cstr (v.take 31))).getD (-1)

/-- `should_close`; `tmp` has 16 bytes. -/
def should_close (headers : Bytes) (hlen : Nat) : Bool :=
  match extract_header headers hlen (ascii "connection") with
  | none => false
  | some v => (find_subseq ((cstr (v.take 15)).map lower) (ascii "close")).isSome

/-! ## §3. The response. -/

def INT_MAX : Nat := 2147483647

/-- `snprintf(buf, size, …)`, which is to print `text`: what is in the buffer, and the value
returned. -/
def snprintf (cfg : Config) (size : Nat) (text : Bytes) : Bytes × Int :=
  if text.length ≤ INT_MAX then (text.take (size - 1), text.length)
  else (cfg.unspecified.take (size - 1), -1)

/-- What is to be printed in `json`; `body` is the C string behind the headers. -/
def jsonText (cfg : Config) (body : Bytes) : Bytes :=
  match scanTwo body with
  | some (num1, num2) =>
      let result := toInt (if cfg.s_is_product then num1 * num2 else num1 + num2)
      ascii "\x7b\n  \"status\": \"success\",\n  \"result\": " ++ showInt result ++ ascii "\n\x7d\n"
  | none =>
      ascii ("\x7b\n  \"status\": \"error\",\n  \"message\": \"Parsing failed.\",\n"
          ++ "  \"raw_body\": \"")
        ++ body ++ ascii "\"\n\x7d\n"

/-- What is to be printed in `resp`. -/
def respText (jl : Int) (json : Bytes) (should_close : Bool) : Bytes :=
  ascii "HTTP/1.1 200 OK\r\nContent-Type: application/json\r\nContent-Length: " ++ showInt jl
    ++ ascii "\r\nConnection: " ++ ascii (if should_close then "close" else "keep-alive")
    ++ ascii "\r\n\r\n" ++ json

/-- The C string behind the headers. -/
def Session.rawBody (s : Session) : Bytes := cstr (s.buf.drop s.hdr_sz)

/-- `session_build_response`. -/
def session_build_response (cfg : Config) (s : Session) (c : Calls) : Session × Ctl :=
  let json := snprintf cfg 512 (jsonText cfg s.rawBody)
  let resp := snprintf cfg 768 (respText json.2 json.1 s.should_close)
  epoll_mod_fd
    { s with
      resp := resp.1
      -- `(size_t)rl`
      resp_len := (resp.2 % 2 ^ 64).toNat
      resp_off := 0
      state := .write_response }
    .epollout c.epoll_mod_ok

/-! ## §4. The loop. -/

/-- `case WS_READ_HEADERS`, after a `recv`. -/
def session_parse_headers (s : Session) : Session × Ctl :=
  match headerEnd s.buf with
  | none => (s, .ret 0)
  | some (hdr_end, sep_len) =>
      let hdr_sz := hdr_end + sep_len
      let body_target := (parse_content_length s.buf hdr_sz).toNat
      ({ s with
          hdr_sz := hdr_sz
          body_target := body_target
          body_in := min (s.buf.length - hdr_sz) body_target
          should_close := SumProd.should_close s.buf hdr_sz
          state := .read_body }, .again)

/-- `case WS_READ_HEADERS`; the kernel gives no more than there is room for. -/
def session_read_headers (s : Session) (c : Calls) : Session × Ctl :=
  match ensure_capacity s.cap (s.buf.length + 4096 + 1) c.realloc_ok with
  | .failed => (s, .ret (-1))
  | .spins => (s, .again)
  | .room cap =>
      let s := { s with cap := cap }
      match c.recv with
      | .eagain => (s, .ret 0)
      | .error => (s, .ret (-1))
      | .data bytes =>
          let bytes := bytes.take (s.cap - s.buf.length - 1)
          if bytes = [] then (s, .ret (-1))
          else session_parse_headers { s with buf := s.buf ++ bytes }

/-- `case WS_READ_BODY`: one turn of its loop, or what follows the loop. -/
def session_read_body (cfg : Config) (s : Session) (c : Calls) : Session × Ctl :=
  if s.body_in < s.body_target then
    match ensure_capacity s.cap (s.buf.length + 4096 + 1) c.realloc_ok with
    | .failed => (s, .ret (-1))
    | .spins => (s, .again)
    | .room cap =>
        let s := { s with cap := cap }
        match c.recv with
        | .eagain => (s, .ret 0)
        | .error => (s, .ret (-1))
        | .data bytes =>
            let bytes := bytes.take (min (s.body_target - s.body_in) 4096)
            if bytes = [] then (s, .ret (-1))
            else
              ({ s with buf := s.buf ++ bytes, body_in := s.body_in + bytes.length }, .again)
  else session_build_response cfg s c

/-- What follows the loop over `send`. -/
def session_finish_response (s : Session) (c : Calls) : Session × Ctl :=
  if s.should_close then (s, .ret (-1))
  else
    epoll_mod_fd
      { s with
        req_no := s.req_no + 1
        buf := [], hdr_sz := 0, body_in := 0, body_target := 0
        state := .read_headers }
      .epollin c.epoll_mod_ok

/-- `case WS_WRITE_RESPONSE`. -/
def session_write_response (s : Session) (c : Calls) : Session × Ctl :=
  if s.resp_off < s.resp_len then
    match c.send with
    | .eagain => (s, .ret 0)
    | .error => (s, .ret (-1))
    | .sent n =>
        if n = 0 then (s, .ret (-1)) else ({ s with resp_off := s.resp_off + n }, .again)
  else session_finish_response s c

/-- One iteration of `session_advance`. -/
def session_iter (cfg : Config) (s : Session) (c : Calls) : Session × Ctl :=
  match s.state with
  | .read_headers => session_read_headers s c
  | .read_body => session_read_body cfg s c
  | .write_response => session_write_response s c

end TlsMigration.SumProd
