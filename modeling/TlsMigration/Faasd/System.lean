/-
  TlsMigration.Faasd.System
  ─────────────────────────
  **THE FAASD PROTOTYPE: GATEWAY, WORKERS, AND ONE TLS CONNECTION**
  (Run, runRelay and dispatchToFunction of tlsmigratekeepalive/server.go,
  tlsmigratekeepalive.c, and main and process_session of
  timing_fn_keepalive_worker.c).

  One client connection, the gateway with its accept loop and its relay
  loop, and a worker for every function name.  Every function of the code
  that gets the descriptor passes it on or closes it, so a state says where
  it is (`Holder`); how often it is closed is the subject of
  TlsMigration.Faasd.KeepaliveWorker.  Every step is one event of one party,
  and nearly all calls may fail at any time; a message is received as a whole
  or not at all.

  The socket buffer holds records that the client has sealed, and perhaps a
  part of one more.  wolfSSL takes records out of it, a peek does not.

    • `tlsRead`     — `wolfSSL_read` on such a buffer;
    • `World.step`  — the steps;
    • `prototype`   — the system, with a client that waits for each response.
-/
import TlsMigration.Faasd.PartialRecord
import TlsMigration.Faasd.Serving
import TlsMigration.Migration.Invariant

namespace TlsMigration.Faasd

open TlsMigration.Http TlsMigration.Handoff TlsMigration.Tlspeek TlsMigration.Migration
open TlsMigration.Bench2 (Payload Layout TlsRead TlsWrite Wire contents targetOf)

/-! ## §1. Data. -/

/-- What a deployment and its one connection fix.  The suite is AES-256-GCM, and the client has
derived its keys from the secret that the gateway's callback is given. -/
structure Env (β : Type*) (n : Nat) where
  layout : Layout (TlspeekSerial β) n
  crypt : WolfCrypt
  wolf : WolfSession β
  secrets : Secrets
  hkdf : Hkdf
  /-- CLIENT_TRAFFIC_SECRET_0 -/
  secret : Bytes
  secret_length : secret.length = Suite.AES_256_GCM.secretLen
  client_key : secrets.client_write_key = labelledKey hkdf .SHA384 secret 32
  client_iv : secrets.client_write_iv = labelledIv hkdf .SHA384 secret
  /-- the callbacks for the other secrets, before and after -/
  before : List KeylogCall
  after : List KeylogCall
  others : ∀ c ∈ before ++ after, c.id ≠ .CLIENT_TRAFFIC_SECRET
  socketDir : Bytes
  /-- the worker whose socket is bound to an address -/
  bound : Bytes → Option Bytes
  maxPeek : Nat

variable {β : Type*} {n : Nat}

/-- The callbacks of the handshake. -/
def Env.keylog (env : Env β n) : List KeylogCall :=
  env.before ++ clientCall env.hkdf env.secret :: env.after

/-- A worker's session, with its `WOLFSSL` object. -/
structure WSession (β : Type*) where
  core : Session β
  ssl : Live
  /-- opened by wolfSSL and not read yet -/
  plain : Bytes

/-- Where the descriptor of the client's connection is. -/
inductive Holder (β : Type*) where
  /-- in the accept queue of the gateway -/
  | queued
  /-- in `tlsmigratekeepalive_send_fd`, connected to `f` -/
  | dispatch (f : Bytes) (payload : Payload (TlspeekSerial β))
  /-- in a message to `f` -/
  | toWorker (f : Bytes) (q : UnixStream)
  | session (f : Bytes) (s : WSession β)
  /-- in `relay_to_gateway`, connected to the relay socket -/
  | relaying (payload : Payload (TlspeekSerial β))
  /-- in a message to the gateway -/
  | toGateway (q : UnixStream)
  | closed

/-- What wolfSSL has opened of the connection and not given out. -/
def Holder.plain : Holder β → Bytes
  | .session _ s => s.plain
  | _ => []

/-- One request: the function it names, and the records it is sent in. -/
structure Job where
  q : Request
  owner : Bytes
  names : NamesFunction (requestLine q.bytes) owner
  records : List Record
  spells : contents records = q.bytes
  fits : ∀ r ∈ records, r.Fits
  body_lt : (q.body.length : Int) < LLONG_MAX

/-- The function that is to answer: the owner as a C string. -/
def Job.function (j : Job) : Bytes := cstr j.owner

structure World (β : Type*) where
  holder : Holder β
  /-- number of requests the client has sent -/
  sent : Nat
  /-- records on the way to the server … -/
  transit : List Record
  /-- … how many bytes of the first of them are in the socket buffer … -/
  part : Nat
  /-- … and the complete ones there -/
  kernel : List Record
  /-- records that have been taken out of the socket buffer -/
  consumed : Nat
  /-- every byte written, with the worker that wrote it -/
  out : List (Bytes × UInt8)
  /-- records on the way to the client -/
  down : List Sealed
  /-- records the client has opened, and their content -/
  received : Nat
  got : Bytes
  /-- the client could not open a record -/
  broken : Bool

def World.start : World β := ⟨.queued, 0, [], 0, [], 0, [], [], 0, [], false⟩

namespace World

variable (env : Env β n) (w : World β)

/-- The socket buffer. -/
def socket : Bytes :=
  env.secrets.wire env.crypt w.consumed w.kernel
    ++ (env.secrets.wire env.crypt (w.consumed + w.kernel.length) w.transit).take w.part

/-- The TLS session that the two ends agree on. -/
def live : Live :=
  ⟨env.secrets, w.consumed.toUInt64, (w.received + w.down.length).toUInt64⟩

/-- The plaintext that no session has read. -/
def ahead : Bytes := w.holder.plain ++ (contents w.kernel ++ contents w.transit)

end World

/-! ## §2. The gateway. -/

section Parties

variable (env : Env β n)

/-- `dispatchToFunction`, up to `unix_client_connect`, which fails where nobody listens. -/
def dispatchToFunction (fnName : Bytes) (payload : Payload (TlspeekSerial β))
    (connect_ok : Bool) : Holder β :=
  match env.bound (sunPath (sockPath env.socketDir fnName)) with
  | some f => if connect_ok then .dispatch f payload else .closed
  | none => .closed

/-- What the calls for an accepted connection return. -/
structure AcceptCalls where
  fd : Fd
  wolfSSL_new_ok : Bool
  accept_ok : Bool
  /-- `recv` does not report an error -/
  recv_ok : Bool
  export_ok : Bool
  connect_ok : Bool

/-- The calls of `tlsmigratekeepalive_accept_peek_export`, right after the handshake. -/
def AcceptCalls.on (c : AcceptCalls) (socket : Bytes) : AcceptPeekCalls β where
  accept := some c.fd
  wolfSSL_new_ok := c.wolfSSL_new_ok
  keylog := env.keylog
  accept_ok := c.accept_ok
  cipher_name := some env.wolf.cipher_name
  peek ctx := if c.recv_ok then tls_read_peek env.crypt ctx socket env.maxPeek else none
  tls_export := if c.export_ok then some (env.wolf.tls_export ⟨env.secrets, 0, 0⟩) else none

/-- The turn of `Run` for the client; 3 is the listener. -/
def acceptClient (socket : Bytes) (c : AcceptCalls) : Holder β :=
  match (tlsmigratekeepalive_accept_peek_export (.single 3) env.maxPeek (c.on env socket)).2 with
  | none => .closed
  | some (_, payload, headers) =>
      match Tlsmigratekeepalive.parseFunctionName headers with
      | none => .closed
      | some fnName =>
          dispatchToFunction env fnName (Tlsmigratekeepalive.setPayloadTarget payload fnName)
            c.connect_ok

/-- What the calls on an accepted relay connection return. -/
structure RelayCalls where
  recv_ok : Bool
  connect_ok : Bool

/-- The turn of `runRelay` for a relay connection with a message in it; `payload_out` may hold
anything before. -/
def acceptRelay (q : UnixStream) (c : RelayCalls) (payload_out : Area n) : Holder β :=
  let answer := if c.recv_ok then .data q.bytes false (rightsCmsg q.rights) else .error
  let r := recvfd_with_state payload_out answer
  if r.1 ≠ 0 then .closed
  else
    let payload := env.layout.read r.2.2
    let fnName := payloadTarget payload.target_function
    if fnName = [] then .closed else dispatchToFunction env fnName payload c.connect_ok

/-! ## §3. The workers. -/

/-- What the calls for a handoff connection return. -/
structure ReceiveCalls where
  recv_ok : Bool
  wolfSSL_new_ok : Bool
  import_ok : Bool

/-- The start of `process_session` in the worker `f`. -/
def process_session_start (f : Bytes) (client_fd : Fd) (payload : Payload (TlspeekSerial β))
    (c : ReceiveCalls) : Holder β :=
  if c.wolfSSL_new_ok = false ∨ c.import_ok = false then .closed
  else
    match tlspeek_restore env.wolf payload.serial with
    | none => .closed
    | some ssl => .session f ⟨⟨client_fd, payload, .peek⟩, ssl, []⟩

/-- The turn of the worker's `main` loop for a connection with a message in it. -/
def acceptHandoff (f : Bytes) (q : UnixStream) (c : ReceiveCalls) : Holder β :=
  let answer := if c.recv_ok then .data q.bytes false (rightsCmsg q.rights) else .error
  let r := recvfd_with_state (Area.zero n) answer
  if r.1 ≠ 0 then .closed
  else
    match r.2.1 with
    | none => .closed
    | some client_fd =>
        let payload := env.layout.read r.2.2
        if payload.magic ≠ TLSMIGRATE_KEEPALIVE_MAGIC
            ∨ payload.version ≠ TLSMIGRATE_KEEPALIVE_VERSION then .closed
        else process_session_start env f client_fd payload c

/-- How a `wolfSSL_read` or a `wolfSSL_write` ends. -/
inductive Outcome where
  | moved (n : Nat)
  | want
  | error

/-- wolfSSL opens records until there is something to give out. -/
def openNext : List Record → Bytes × List Record
  | [] => ([], [])
  | r :: ks => if r.content = [] then openNext ks else (r.content, ks)

/-- What wolfSSL can give out. -/
def readable (w : Wire) : Wire :=
  if w.plain = [] then ⟨(openNext w.kernel).1, (openNext w.kernel).2⟩ else w

/-- `wolfSSL_read` for at most `want` bytes; `opens` says that the session opens the next record
of the socket buffer. -/
def tlsRead (opens : Bool) (w : Wire) (want : Nat) : Outcome → Option (TlsRead × Wire)
  | .error => some (.none .error, w)
  | .want =>
      if (readable w).plain = [] ∧ (opens ∨ w.kernel = []) then
        some (.none .want_read, readable w)
      else none
  | .moved k =>
      if (w.plain ≠ [] ∨ opens) ∧ 0 < k ∧ k ≤ min want (readable w).plain.length then
        some (.data ((readable w).plain.take k),
          ⟨(readable w).plain.drop k, (readable w).kernel⟩)
      else none

/-- `wolfSSL_write` of what is left of `resp`. -/
def tlsWrite (s : Session β) : Outcome → Option TlsWrite
  | .error => some (.none .error)
  | .want => some (.none .want_write)
  | .moved k =>
      match s.place with
      | .write _ resp total =>
          if 0 < k ∧ k ≤ resp.length - total then some (.wrote k) else none
      | _ => none

/-- What the calls of one iteration return. -/
structure IterCalls where
  recv_ok : Bool
  realloc_ok : Bool
  read : Outcome
  write : Outcome
  monotonic_ns : UInt64
  export_ok : Bool
  connect_ok : Bool

/-- The calls of an iteration, on this socket buffer and with this `WOLFSSL` object. -/
def IterCalls.on (c : IterCalls) (socket : Bytes) (ssl : Live) (read : TlsRead)
    (write : TlsWrite) : Calls β where
  peek ctx := if c.recv_ok then tls_read_peek env.crypt ctx socket 8192 else none
  realloc_ok := c.realloc_ok
  read := read
  write := write
  monotonic_ns := c.monotonic_ns
  live :=
    { tls_export := if c.export_ok then some (env.wolf.tls_export ssl) else none
      client_write_key := some ssl.secrets.client_write_key.bytes
      client_write_iv := some ssl.secrets.client_write_iv.bytes
      peer_sequence_number := some ssl.read_seq }

/-- The worker `f`, after an iteration. -/
def sessionEnd (f : Bytes) (ssl : Live) (plain : Bytes) (r : Session β × Ctl β)
    (connect_ok : Bool) : Holder β :=
  match r.2 with
  | .again => .session f ⟨r.1, ssl, plain⟩
  | .out _ => .closed
  | .relay payload => if connect_ok then .relaying payload else .closed

/-- The message with the struct, which `sendmsg` takes as a whole. -/
def message (payload : Payload (TlspeekSerial β)) (fd : Fd) : UnixStream :=
  (sendfd_with_state fd (env.layout.bytes payload).bytes (some n)).stream

end Parties

/-! ## §4. Steps. -/

/-- The world after an iteration of the session `s` of `f` that leaves `wire`. -/
def World.turn (w : World β) (f : Bytes) (s : WSession β) (calls : Calls β)
    (wire : Wire) (connect_ok : Bool) : World β :=
  let written := s.core.written calls
  let opened := w.kernel.length - wire.kernel.length
  let ssl := s.ssl.moved opened written
  { w with
    holder := sessionEnd f ssl wire.plain (session_iter f s.core calls) connect_ok
    kernel := wire.kernel
    consumed := w.consumed + opened
    out := w.out ++ tagged f written
    down := w.down ++ (if written = [] then [] else [s.ssl.seal written]) }

/-- One iteration of the session `s` of the worker `f`. -/
def World.iterate (env : Env β n) (w : World β) (f : Bytes) (s : WSession β) (c : IterCalls) :
    Option (World β) :=
  let opens := s.ssl.secrets = env.secrets ∧ s.ssl.read_seq = w.consumed.toUInt64
  let want := s.core.want c.realloc_ok
  -- nothing is read where nothing is asked for
  let read := if want = 0 then .error else c.read
  (tlsRead (decide opens) ⟨s.plain, w.kernel⟩ want read).bind fun r =>
    (tlsWrite s.core c.write).map fun write =>
      w.turn f s (c.on env (w.socket env) s.ssl r.1 write) r.2 c.connect_ok

inductive Event (n : Nat) where
  /-- the client sends its next request -/
  | send
  /-- more bytes of the next record arrive, but not all … -/
  | trickle (m : Nat)
  /-- … and the rest of it -/
  | arrive
  /-- the client takes a record -/
  | deliver
  | acceptClient (c : AcceptCalls)
  /-- `sendmsg` of a dispatch; the number the descriptor gets at the other end, or `-1` -/
  | sendmsg (fd : Option Fd)
  | acceptHandoff (c : ReceiveCalls)
  | iterate (c : IterCalls)
  /-- `sendmsg` of a relay -/
  | relaymsg (fd : Option Fd)
  | acceptRelay (c : RelayCalls) (payload_out : Area n)

/-- Where the descriptor is after an event that moves no bytes of the connection. -/
def Holder.move (env : Env β n) (socket : Bytes) (h : Holder β) (e : Event n) :
    Option (Holder β) :=
  match e, h with
  | .acceptClient c, .queued => some (Faasd.acceptClient env socket c)
  | .sendmsg (some fd), .dispatch f payload => some (.toWorker f (message env payload fd))
  | .sendmsg none, .dispatch _ _ => some .closed
  | .acceptHandoff c, .toWorker f q => some (Faasd.acceptHandoff env f q c)
  | .relaymsg (some fd), .relaying payload => some (.toGateway (message env payload fd))
  | .relaymsg none, .relaying _ => some .closed
  | .acceptRelay c payload_out, .toGateway q => some (Faasd.acceptRelay env q c payload_out)
  | _, _ => none

def World.step (env : Env β n) (jobs : List Job) (w : World β) : Event n → Option (World β)
  | .send =>
      (jobs[w.sent]?).map fun j =>
        { w with sent := w.sent + 1, transit := w.transit ++ j.records }
  | .trickle m =>
      match w.transit with
      | r :: _ =>
          if w.part ≤ m ∧ m < TLSPEEK_HEADER_SIZE + r.wireLen then some { w with part := m }
          else none
      | [] => none
  | .arrive =>
      match w.transit with
      | r :: rs => some { w with kernel := w.kernel ++ [r], transit := rs, part := 0 }
      | [] => none
  | .deliver =>
      match w.down with
      | x :: xs =>
          if w.broken then none
          else
            match x.opened env.secrets w.received.toUInt64 with
            | some d => some { w with down := xs, received := w.received + 1, got := w.got ++ d }
            | none => some { w with down := xs, broken := true }
      | [] => none
  | .iterate c =>
      match w.holder with
      | .session f s => w.iterate env f s c
      | _ => none
  | e => (w.holder.move env (w.socket env) e).map fun h => { w with holder := h }

/-- What the client has is a response for every request it has sent. -/
def World.Answered (w : World β) : Prop :=
  ∃ parts : List Bytes, parts.length = w.sent ∧ (∀ p ∈ parts, ∃ close, Framed p close)
    ∧ w.got = parts.flatten

/-- The gateway, the workers, and a client that sends a request once it has the response to the
one before. -/
def prototype (env : Env β n) (jobs : List Job) : TransitionSystem (World β) (Event n) where
  init w := w = .start
  step w e w' := w.step env jobs e = some w' ∧ (e = .send → w.Answered)

/-! ## §5. What the server behind it is to do. -/

/-- Request `k` is answered by the worker of the function that it names, at whatever times and
with whatever part of the body has come with the headers; a request that asks for it ends the
connection. -/
def service (jobs : List Job) : Service (Bytes × UInt8) where
  Answer k text := ∃ j, jobs[k]? = some j ∧ ∃ m ≤ j.q.body.length, ∃ header_ns body_done_ns resp,
    response j.function j.q m header_ns body_done_ns = some resp
      ∧ text = tagged j.function resp
  Last k := ∃ j, jobs[k]? = some j ∧ closes j.q = true

end TlsMigration.Faasd
