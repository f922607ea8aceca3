/-
  TlsMigration.Faasd.Session
  ──────────────────────────
  **A SESSION OF THE FAASD KEEP-ALIVE WORKER, CALL BY CALL**
  (`process_session` and what it calls, timing_fn_keepalive_worker.c).

  `session_iter` is the loop of `process_session`, cut before each
  `wolfSSL_read` and `wolfSSL_write`, where the worker may have to wait.
  `Place` says between which calls the worker is and holds the locals that
  are alive there; what the calls return is an argument.

    • `session_iter`            — from one call to the next;
    • `parse_header_int64_hit`  — the header parser of this worker;
    • `sentBytes_framed`        — what is sent at all is one response.
-/
import TlsMigration.BenchHttp.Response
import TlsMigration.Faasd.ConnectionClose
import TlsMigration.Faasd.KeepaliveWorker

namespace TlsMigration.Faasd

open TlsMigration.Http TlsMigration.Handoff TlsMigration.Tlspeek
open TlsMigration.Bench2 (Payload TlsRead TlsWrite Want targetOf)

/-! ## §1. Headers. -/

/-- `strtoll(s, &ep, 10)`, when it leaves `errno` alone and moves `ep`. -/
def strtollExact (s : Bytes) : Option Int :=
  let s := s.dropWhile isSpace
  let (neg, s) :=
    match s with
    | c :: s' =>
        if c = Ch.minus then (true, s') else if c = Ch.plus then (false, s') else (false, s)
    | [] => (false, [])
  let digits := s.takeWhile isDigit
  if digits = [] then none
  else
    let v : Int := if neg then -(digitsVal 0 digits : Int) else digitsVal 0 digits
    if LLONG_MIN ≤ v ∧ v ≤ LLONG_MAX then some v else none

/-- The body of the loop of `parse_header_int64`; line ends in front of the line are skipped. -/
def headerValue (needle line h mem : Bytes) : Option Int :=
  let skip := (line.takeWhile fun c => c = Ch.cr ∨ c = Ch.lf).length
  if startsLower needle (line.drop skip) then
    let name := skip + needle.length
    strtollExact (mem.drop (name + ((h.drop name).takeWhile isBlank).length))
  else none

/-- `parse_header_int64(headers, headers_len, needle)`, in the buffer `mem`. -/
def parse_header_int64 (mem : Bytes) (headers_len : Nat) (needle : Bytes) : Int :=
  (scanLines (headerValue needle) headers_len (mem.take headers_len) mem).getD (-1)

def parse_content_length (mem : Bytes) (headers_len : Nat) : Int :=
  parse_header_int64 mem headers_len contentLength

def BENCH_HEADER_NAME : Bytes := ascii "x-bench-t0-ns:"

/-! ## §2. Data. -/

/-- `request_metrics_t`; a `content_length` below zero is taken for zero. -/
structure Metrics where
  t0_ns : UInt64
  header_ns : UInt64
  body_done_ns : UInt64
  delta_header_ns : UInt64
  delta_body_ns : UInt64
  body_bytes_read : Nat
  content_length : Nat
  should_close : Bool

/-- `n` bytes of the body have been read. -/
def Metrics.counted (m : Metrics) (n : Nat) : Metrics := { m with body_bytes_read := n }

@[simp] theorem Metrics.counted_body_bytes_read (m : Metrics) (n : Nat) :
    (m.counted n).body_bytes_read = n := rfl

@[simp] theorem Metrics.counted_content_length (m : Metrics) (n : Nat) :
    (m.counted n).content_length = m.content_length := rfl

@[simp] theorem Metrics.counted_should_close (m : Metrics) (n : Nat) :
    (m.counted n).should_close = m.should_close := rfl

@[simp] theorem Metrics.counted_counted (m : Metrics) (n k : Nat) :
    (m.counted n).counted k = m.counted k := rfl

/-- Where `process_session` is, and what it has in its hands there. -/
inductive Place where
  /-- before `peek_owner_from_kernel` -/
  | peek
  /-- in `read_one_request`, before the headers are complete: `buf`, with its capacity -/
  | headers (buf : Bytes) (cap : Nat)
  /-- in `read_one_request`, behind the headers -/
  | body (metrics : Metrics)
  /-- in `write_all_tls`, of `resp`, `total` bytes of which are written -/
  | write (metrics : Metrics) (resp : Bytes) (total : Nat)

/-- The locals of `process_session`, but for the `WOLFSSL` object. -/
structure Session (β : Type*) where
  client_fd : Fd
  state : Payload (TlspeekSerial β)
  place : Place

/-- What the calls of `export_live_serial` return. -/
structure ExportCalls (β : Type*) where
  tls_export : Option β
  /-- `wolfSSL_GetClientWriteKey`, as long as `wolfSSL_GetKeySize` says -/
  client_write_key : Option Bytes
  client_write_iv : Option Bytes
  peer_sequence_number : Option UInt64

/-- What the calls of one iteration return. -/
structure Calls (β : Type*) where
  /-- `tls_read_peek` -/
  peek : TlspeekCtx → Option Bytes
  realloc_ok : Bool
  read : TlsRead
  write : TlsWrite
  monotonic_ns : UInt64
  live : ExportCalls β

/-- How an iteration ends. -/
inductive Ctl (β : Type*) where
  | again
  /-- `goto out` -/
  | out (rc : Int)
  /-- `relay_to_gateway` with this payload -/
  | relay (payload : Payload (TlspeekSerial β))

variable {β : Type*}

/-- `export_live_serial`; the suite in `serial` stays, and a failure ends the session. -/
def export_live_serial (serial : TlspeekSerial β) (c : ExportCalls β) :
    Option (TlspeekSerial β) :=
  match c.tls_export, c.client_write_key, c.client_write_iv, c.peer_sequence_number with
  | some blob, some key, some iv, some peer_seq =>
      if key = [] ∨ iv = [] then none
      else some
        { serial with
          magic := TLSPEEK_MAGIC
          client_write_key := Area.ofBytes _ key
          client_write_iv := Area.ofBytes _ iv
          read_seq_num := peer_seq
          tls_blob := some blob }
  | _, _, _, _ => none

/-- `ensure_capacity`; `none` is `-1`. -/
def ensure_capacity (cap needed : Nat) (realloc_ok : Bool) : Option Nat :=
  if needed ≤ cap then some cap
  else
    match growCap 65 needed (if cap = 0 then 8192 else cap) with
    | .room new_cap => if realloc_ok then some new_cap else none
    | _ => none

/-! ## §3. The response. -/

/-- The text that is printed into `json`. -/
def jsonText (worker_name : Bytes) (m : Metrics) : Bytes :=
  ascii "\x7b\"worker_name\":\"" ++ worker_name
    ++ ascii "\",\"t0_ns\":" ++ ascii (toString m.t0_ns.toNat)
    ++ ascii ",\"header_ns\":" ++ ascii (toString m.header_ns.toNat)
    ++ ascii ",\"body_done_ns\":" ++ ascii (toString m.body_done_ns.toNat)
    ++ ascii ",\"delta_header_ns\":" ++ ascii (toString m.delta_header_ns.toNat)
    ++ ascii ",\"delta_body_ns\":" ++ ascii (toString m.delta_body_ns.toNat)
    ++ ascii ",\"body_bytes_read\":" ++ ascii (toString m.body_bytes_read)
    ++ ascii ",\"content_length\":" ++ ascii (toString m.content_length) ++ ascii "\x7d\n"

/-- The text that is printed into `resp`. -/
def respText (json : Bytes) (should_close : Bool) : Bytes :=
  ascii "HTTP/1.1 200 OK\r\nContent-Type: application/json\r\nContent-Length: "
    ++ ascii (toString json.length) ++ ascii "\r\nConnection: "
    ++ ascii (if should_close then "close" else "keep-alive") ++ ascii "\r\n\r\n" ++ json

/-- What `send_response` writes; `none` where a text does not fit its buffer. -/
def sentBytes (worker_name : Bytes) (m : Metrics) : Option Bytes :=
  let json := jsonText worker_name m
  if 768 ≤ json.length then none
  else
    let resp := respText json m.should_close
    if 1024 ≤ resp.length then none else some resp

/-- A response that is printed as a whole. -/
theorem respText_framed (json : Bytes) (should_close : Bool) :
    Framed (respText json should_close) should_close := by
  have hend : ascii "\r\nConnection: " = Ch.cr :: Ch.lf :: ascii "Connection: " := rfl
  have hlines := BenchHttp.framed_framedText json should_close
  unfold respText
  rw [connectionValue_eq, ascii_start, hend, ascii_crlfcrlf]
  simpa [BenchHttp.framedText, BenchHttp.respHeaders] using hlines

/-- **What is sent at all is one response.** -/
theorem sentBytes_framed {worker_name : Bytes} {m : Metrics} {resp : Bytes}
    (h : sentBytes worker_name m = some resp) : Framed resp m.should_close := by
  unfold sentBytes at h
  dsimp only at h
  generalize jsonText worker_name m = json at h
  by_cases hjson : 768 ≤ json.length
  · rw [if_pos hjson] at h
    cases h
  · rw [if_neg hjson] at h
    by_cases hresp : 1024 ≤ (respText json m.should_close).length
    · rw [if_pos hresp] at h
      cases h
    · rw [if_neg hresp] at h
      rw [← Option.some.inj h]
      exact respText_framed json m.should_close

/-! ## §4. Iterations. -/

/-- `peek_owner_from_kernel`, and the first call of `read_one_request`. -/
def session_peek (function_name : Bytes) (s : Session β) (c : Calls β) : Session β × Ctl β :=
  match peek_owner_from_kernel s.client_fd s.state.serial c.peek with
  | none => (s, .out 0)
  | some request_owner =>
      if cstr request_owner ≠ function_name then
        (s, .relay { s.state with target_function := targetOf (cstr request_owner) })
      else
        match ensure_capacity 0 (65536 + 1) c.realloc_ok with
        | none => (s, .out (-1))
        | some cap => ({ s with place := .headers [] cap }, .again)

/-- What `read_one_request` makes of a header block of `headers_len` bytes. -/
def headers_read (buf : Bytes) (headers_len : Nat) (monotonic_ns : UInt64) : Metrics :=
  let content_length := (parse_content_length buf headers_len).toNat
  let t0_ns := parse_header_int64 buf headers_len BENCH_HEADER_NAME
  { t0_ns := if 0 < t0_ns then UInt64.ofNat t0_ns.toNat else 0
    header_ns := monotonic_ns
    body_done_ns := 0
    delta_header_ns := 0
    delta_body_ns := 0
    body_bytes_read := min (buf.length - headers_len) content_length
    content_length := content_length
    should_close := header_has_token buf headers_len connection (ascii "close") }

/-- The header loop of `read_one_request`, with `wolfssl_read_more`. -/
def session_headers (s : Session β) (buf : Bytes) (cap : Nat) (c : Calls β) :
    Session β × Ctl β :=
  if 1024 * 1024 ≤ buf.length then (s, .out (-1))
  else
    match ensure_capacity cap (buf.length + 4096 + 1) c.realloc_ok with
    | none => (s, .out (-1))
    | some cap =>
        match c.read with
        | .none .error => (s, .out (-1))
        | .none _ => ({ s with place := .headers buf cap }, .again)
        | .data bytes =>
            let buf := buf ++ bytes
            match find_subseq buf crlfcrlf, find_subseq buf [Ch.lf, Ch.lf] with
            | some i, _ =>
                ({ s with place := .body (headers_read buf (i + 4) c.monotonic_ns) }, .again)
            | none, some i =>
                ({ s with place := .body (headers_read buf (i + 2) c.monotonic_ns) }, .again)
            | none, none => ({ s with place := .headers buf cap }, .again)

/-- The end of `read_one_request`. -/
def body_done (m : Metrics) (monotonic_ns : UInt64) : Metrics :=
  let m := { m with body_done_ns := monotonic_ns }
  if 0 < m.t0_ns then
    { m with
      delta_header_ns := m.header_ns - m.t0_ns
      delta_body_ns := m.body_done_ns - m.t0_ns }
  else m

/-- The body loop of `read_one_request`, and the texts of `send_response`. -/
def session_body (function_name : Bytes) (s : Session β) (m : Metrics) (c : Calls β) :
    Session β × Ctl β :=
  if m.body_bytes_read < m.content_length then
    match c.read with
    | .none .error => (s, .out (-1))
    | .none _ => (s, .again)
    | .data bytes =>
        ({ s with place := .body (m.counted (m.body_bytes_read + bytes.length)) }, .again)
  else
    let m := body_done m c.monotonic_ns
    match sentBytes function_name m with
    | none => (s, .out (-1))
    | some resp => ({ s with place := .write m resp 0 }, .again)

/-- `write_all_tls`, and the end of the turn. -/
def session_write (s : Session β) (m : Metrics) (resp : Bytes) (total : Nat) (c : Calls β) :
    Session β × Ctl β :=
  if total < resp.length then
    match c.write with
    | .none .error => (s, .out (-1))
    | .none _ => (s, .again)
    | .wrote n => ({ s with place := .write m resp (total + n) }, .again)
  else if m.should_close then (s, .out 0)
  else
    match export_live_serial s.state.serial c.live with
    | none => (s, .out (-1))
    | some serial => ({ s with state := { s.state with serial := serial }, place := .peek }, .again)

/-- One iteration of `process_session`. -/
def session_iter (function_name : Bytes) (s : Session β) (c : Calls β) : Session β × Ctl β :=
  match s.place with
  | .peek => session_peek function_name s c
  | .headers buf cap => session_headers s buf cap c
  | .body m => session_body function_name s m c
  | .write m resp total => session_write s m resp total c

/-- How much the `wolfSSL_read` of an iteration asks for; 0 where there is none. -/
def Session.want (s : Session β) (realloc_ok : Bool) : Nat :=
  match s.place with
  | .headers buf cap =>
      match ensure_capacity cap (buf.length + 4096 + 1) realloc_ok with
      | some cap => cap - buf.length - 1
      | none => 0
  | .body m => min (m.content_length - m.body_bytes_read) 16384
  | _ => 0

/-- What an iteration gives to the client. -/
def Session.written (s : Session β) (c : Calls β) : Bytes :=
  match s.place, c.write with
  | .write _ resp total, .wrote n => (resp.drop total).take n
  | _, _ => []

end TlsMigration.Faasd
