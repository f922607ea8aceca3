/-
  TlsMigration.Libtlspeek.Worker
  ──────────────────────────────
  **THE WORKER OF LIBTLSPEEK**
  (libtlspeek/worker/worker.c, handler.c).

  A connection to the worker's socket starts with one message.  With a
  descriptor in it, it is a migrated TLS session; without one, it is taken
  for a plain request of a client that talks to the worker itself.  After
  that the event loop reads requests, each with one call, and answers them.

    • `handle_http_request` — the response to a request;
    • `first_message`       — the message a connection starts with;
    • `client_event`        — what an event does with a migrated session, from
                              one call of wolfSSL to the next.
-/
import TlsMigration.Bench2.Session
import TlsMigration.Handoff.Transfer
import TlsMigration.Tlspeek.Suites

namespace TlsMigration.Libtlspeek

open TlsMigration.Http TlsMigration.Tlspeek TlsMigration.Handoff
open TlsMigration.Bench2 (Want TlsRead TlsWrite)

/-! ## §1. The handler. -/

/-- The worker's number, and libc's doubles. -/
structure WorkerConfig (F : Type*) where
  libm : FloatLib F
  /-- `0` -/
  zero : F
  worker_id : Int

variable {F : Type*}

def showInt (v : Int) : Bytes := ascii (toString v)

/-- `function`; the request is a C string. -/
def functionOf (request : Bytes) : Bytes :=
  if strstr request (ascii "/sum") then ascii "sum"
  else if strstr request (ascii "/product") then ascii "product"
  else if strstr request (ascii "/hello") then ascii "hello"
  else []

/-- `pa ? atof(pa + 2) : 0`, for the place `pa` where the two bytes `key` are. -/
def doubleAfter (cfg : WorkerConfig F) (request key : Bytes) : F :=
  match find_subseq (cstr request) key with
  | some i => (cfg.libm.strtod ((cstr request).drop (i + 2))).1
  | none => cfg.zero

/-- What is printed in `body`. -/
def bodyText (cfg : WorkerConfig F) (request : Bytes) : Bytes :=
  let a := doubleAfter cfg request (ascii "a=")
  let b := doubleAfter cfg request (ascii "b=")
  let worker := ascii "\x7b\"worker\":" ++ showInt cfg.worker_id
  if functionOf request = ascii "sum" then
    worker ++ ascii ",\"result\":" ++ cfg.libm.fmt2 (cfg.libm.add a b)
      ++ ascii ",\"op\":\"sum\"\x7d\n"
  else if functionOf request = ascii "product" then
    worker ++ ascii ",\"result\":" ++ cfg.libm.fmt2 (cfg.libm.mul a b)
      ++ ascii ",\"op\":\"product\"\x7d\n"
  else worker ++ ascii ",\"message\":\"Hello from Hot Potato Worker\"\x7d\n"

/-- The response as a C string; `body` has 256 bytes and the response 4096. -/
def responseTo (cfg : WorkerConfig F) (request : Bytes) : Bytes :=
  let body_len := (bodyText cfg request).length
  cstr ((ascii "HTTP/1.1 200 OK\r\nContent-Type: application/json\r\nX-Served-By: worker-"
    ++ showInt cfg.worker_id ++ ascii "\r\nContent-Length: " ++ showInt body_len
    ++ ascii "\r\nConnection: keep-alive\r\n\r\n" ++ (bodyText cfg request).take 255).take 4095)

/-- `handle_http_request`; without memory there is no response. -/
def handle_http_request (cfg : WorkerConfig F) (malloc_ok : Bool) (request : Bytes) :
    Option Bytes :=
  if malloc_ok then some (responseTo cfg request) else none

/-! ## §2. The message a connection starts with. -/

/-- A member of a C struct: its size and its alignment. -/
structure Member where
  size : Nat
  align : Nat

/-- `off` rounded up to a multiple of `align`. -/
def alignUp (off align : Nat) : Nat := (off + align - 1) / align * align

/-- Where the next member ends, with the padding in front of it. -/
def afterMember (off : Nat) (m : Member) : Nat := alignUp off m.align + m.size

/-- `sizeof` a struct: its members in turn, and padding to the largest alignment. -/
def structSize (ms : List Member) : Nat :=
  alignUp (ms.foldl afterMember 0) ((ms.map Member.align).foldl max 1)

def TLSPEEK_MAX_EXPORT_SZ : Nat := 16384
def TLSPEEK_MAX_REQUEST_SZ : Nat := 8192

/-- The members of `tlspeek_serial_t`. -/
def serialMembers : List Member :=
  [ -- magic, cipher_suite
    ⟨4, 4⟩, ⟨4, 4⟩,
    -- client_write_key, client_write_iv
    ⟨32, 1⟩, ⟨12, 1⟩,
    -- read_seq_num
    ⟨8, 8⟩,
    -- tls_blob, blob_sz
    ⟨TLSPEEK_MAX_EXPORT_SZ, 1⟩, ⟨4, 4⟩,
    -- http_request, request_len
    ⟨TLSPEEK_MAX_REQUEST_SZ, 1⟩, ⟨4, 4⟩]

/-- `sizeof(tlspeek_serial_t)`. -/
def SERIAL_SIZE : Nat := structSize serialMembers

/-- The size of the request buffer. -/
def REQUEST_SIZE : Nat := 8192

/-- What `recvmsg` returns on a new connection. -/
inductive FirstMessage where
  /-- `n <= 0` -/
  | none
  /-- bytes, and the descriptor that came with them -/
  | some (bytes : Bytes) (client_fd : Option Fd)

/-- A copy into a buffer of `n` bytes; there is no result when it goes past the end. -/
def store {n : Nat} (a : Area n) (off : Nat) (src : Bytes) : Option (Area n) :=
  if off + src.length ≤ n then Option.some (a.writeAt off src) else Option.none

/-- What becomes of a new connection. -/
inductive Accepted where
  /-- `close(conn_fd)` -/
  | closed
  /-- a session is to be restored from `serial` -/
  | migrated (client_fd : Fd) (serial : Area SERIAL_SIZE)
  /-- `handle_http_request` is called on this buffer; `none` where the copy leaves it -/
  | plain (request : Option (Area REQUEST_SIZE))
  /-- registered, and nothing answered -/
  | silent

/-- The bytes behind `memset(&serial, 0, sizeof(serial))` and `recvmsg`. -/
def receiveSerial (bytes : Bytes) : Area SERIAL_SIZE := (Area.zero SERIAL_SIZE).write bytes

/-- `memcpy(request, &serial, n); request[n] = '\0'`. -/
def copyRequest (stack : Area REQUEST_SIZE) (serial : Area SERIAL_SIZE) (n : Nat) :
    Option (Area REQUEST_SIZE) :=
  (store stack 0 (serial.bytes.take n)).bind fun request => store request n [Ch.nul]

/-- The first message of a connection, with what the request buffer holds before. -/
def first_message (stack : Area REQUEST_SIZE) (msg : FirstMessage) : Accepted :=
  match msg with
  | .none => .closed
  | .some bytes (.some client_fd) => .migrated client_fd (receiveSerial bytes)
  | .some bytes .none =>
      if 0 < bytes.length ∧ bytes.length ≤ SERIAL_SIZE then
        .plain (copyRequest stack (receiveSerial bytes) bytes.length)
      else .silent

/-! ## §3. Events of a migrated session. -/

/-- Between events, in the loop over `wolfSSL_write`, or gone. -/
inductive ClientState where
  | idle
  | writing (response : Bytes) (total_written : Nat)
  | closed
  deriving DecidableEq

/-- What the calls of one iteration return; no bytes read stand for 0. -/
structure EventCalls where
  malloc_ok : Bool
  read : TlsRead
  write : TlsWrite

/-- What an event does, cut before each call of wolfSSL: the state, and what has been written. -/
def client_event (cfg : WorkerConfig F) (s : ClientState) (c : EventCalls) : ClientState × Bytes :=
  match s with
  | .idle =>
      match c.read with
      | .data request =>
          if request = [] then (.closed, [])
          else
            match handle_http_request cfg c.malloc_ok request with
            | some response => (.writing response 0, [])
            | none => (.closed, [])
      | .none .error => (.closed, [])
      | .none _ => (.idle, [])
  | .writing response total_written =>
      if total_written < response.length then
        match c.write with
        | .wrote n => (.writing response (total_written + n), (response.drop total_written).take n)
        | .none .error => (.closed, [])
        -- `break`: the response is freed, and the loop goes on to other events
        | .none _ => (.idle, [])
      else (.idle, [])
  | .closed => (.closed, [])

end TlsMigration.Libtlspeek
