/-
  TlsMigration.Migration.System
  ─────────────────────────────
  **GATEWAY, WORKERS AND THE CONNECTION BETWEEN THEM.**

  One client connection, the gateway, and a worker for every function name.
  The descriptor of the connection can be in five kinds of place at once or
  one after the other: a pending connection or a relay connection of the
  gateway, a message on its way to a worker or to the relay socket, a handoff
  connection or a session of a worker (`Holder`).  A state lists all places
  that hold it; nothing in the step relation keeps that list short.

  Every step is one event of one party: an accepted connection, a
  `recvmsg`, a `bench2gw_conn_step`, one iteration of `session_advance`, a
  record that arrives.  System calls succeed; what they return is otherwise
  left open.
-/
import TlsMigration.Lib.Transition
import TlsMigration.Handoff.Sendfd
import TlsMigration.Bench2.Serving
import TlsMigration.Bench2.Worker
import TlsMigration.Migration.Gateway

namespace TlsMigration.Migration

open TlsMigration.Tlspeek TlsMigration.Bench2 TlsMigration.Handoff TlsMigration.Http

/-! ## §1. Data. -/

/-- What a deployment and its one connection fix. -/
structure Env (F β : Type*) (n : Nat) where
  libm : FloatLib F
  /-- `BENCH2_RESPONSE_PAD_BYTES` of each worker -/
  pad_bytes : Bytes → Nat
  layout : Layout (TlspeekSerial β) n
  crypt : WolfCrypt
  wolf : WolfSession β
  secrets : Secrets
  socketDir : Bytes
  /-- the worker whose socket is bound to an address -/
  bound : Bytes → Option Bytes
  maxPeek : Nat
  /-- `configFromEnv` refuses anything else -/
  maxPeek_pos : 0 < maxPeek

/-- The worker of the function `f`. -/
def Env.cfg {F β : Type*} {n : Nat} (env : Env F β n) (f : Bytes) : Config F where
  libm := env.libm
  s_function_name := f
  s_response_pad_bytes := env.pad_bytes f

/-- A worker's session, with its `WOLFSSL` object. -/
structure WSession (F β : Type*) where
  core : Session F (TlspeekSerial β)
  ssl : Live
  /-- opened by wolfSSL and not read yet -/
  plain : Bytes
  /-- inside `session_advance`; otherwise its process waits for events -/
  running : Bool

/-- Whatever holds a descriptor of the client's connection. -/
inductive Holder (F β : Type*) (n : Nat) where
  /-- the gateway, before the first dispatch -/
  | pending (conn : GwConn)
  /-- a handoff message, not accepted yet -/
  | toWorker (f : Bytes) (q : UnixStream)
  /-- a worker's handoff connection, with what is still to be received -/
  | handoff (f : Bytes) (h : HandoffConn n) (q : UnixStream)
  | session (f : Bytes) (s : WSession F β)
  /-- a relay message, not accepted yet -/
  | toRelay (q : UnixStream)
  /-- the gateway's relay connection, with what is still to be received -/
  | relay (r : RelayConn n) (q : UnixStream)

structure World (F β : Type*) (n : Nat) where
  holders : List (Holder F β n)
  /-- number of requests the client has sent -/
  sent : Nat
  /-- records on the way to the server … -/
  transit : List Record
  /-- … how many bytes of the first of them are in the socket buffer … -/
  part : Nat
  /-- … and the complete ones there -/
  kernel : List Record
  /-- records that have been taken out of the socket buffer -/
  consumed : Nat
  /-- every byte written, with the worker that wrote it -/
  out : List (Bytes × UInt8)
  /-- records on the way to the client -/
  down : List Sealed
  /-- records the client has opened, and their content -/
  received : Nat
  got : Bytes
  /-- the client could not open a record -/
  broken : Bool

/-- One request: the function it names, and the records it is sent in. -/
structure Job where
  q : Request
  owner : Bytes
  records : List Record
  spells : contents records = q.bytes
  fits : ∀ r ∈ records, r.Fits
  /-- the last record carries the request's last byte -/
  ends : ∀ r ∈ records.getLast?, r.content ≠ []

/-- The first record shows the function in its first `size` bytes. -/
def Job.Shows (j : Job) (size : Nat) : Prop :=
  ∀ r ∈ j.records.head?, NamesFunction (requestLine (r.content.take size)) j.owner

variable {F β : Type*} {n : Nat}

namespace World

variable (env : Env F β n) (st : World F β n)

/-- The socket buffer. -/
def socket : Bytes :=
  env.secrets.wire env.crypt st.consumed st.kernel
    ++ (env.secrets.wire env.crypt (st.consumed + st.kernel.length) st.transit).take st.part

/-- The TLS session that the two ends agree on. -/
def live : Live :=
  ⟨env.secrets, st.consumed.toUInt64, (st.received + st.down.length).toUInt64⟩

end World

/-! ## §2. The parties. -/

section Parties

variable (env : Env F β n)

/-- `bench2gw_send_fd`: connect, and `sendfd_with_state` with a `sendmsg` that takes the
whole struct; without a listener the descriptor is closed.  `fd` is the number the
descriptor gets at the other end. -/
def bench2gw_send_fd (address : Bytes) (payload : Area n) (fd : Fd) : List (Holder F β n) :=
  match env.bound address with
  | none => []
  | some f => [.toWorker f (sendfd_with_state fd payload.bytes (some n)).stream]

/-- The gateway, on an event of a client connection. -/
def clientEvent (conn : GwConn) (c : GwCalls β) (fd : Fd) : List (Holder F β n) :=
  match handle_client env.layout env.socketDir conn c env.maxPeek with
  | .waiting conn => [.pending conn]
  | .closed => []
  | .dispatched address payload => bench2gw_send_fd env address payload fd

/-- The gateway, on an event of a relay connection that leaves `q` to be received. -/
def relayEvent (r : RelayConn n) (answer : NbRecv) (q : UnixStream) (fd : Fd) :
    List (Holder F β n) :=
  match handle_relay env.layout env.socketDir r answer with
  | .waiting r => [.relay r q]
  | .closed => []
  | .dispatched address payload => bench2gw_send_fd env address payload fd

/-- `register_client_fd` in the worker `f`. -/
def register_client_fd (f : Bytes) (client_fd : Fd) (payload : Payload (TlspeekSerial β)) :
    List (Holder F β n) :=
  if payload.magic ≠ BENCH2_KA_MAGIC ∨ payload.version ≠ BENCH2_KA_VERSION then []
  else if WORKER_MAX_FDS ≤ client_fd then []
  else
    match tlspeek_restore env.wolf payload.serial with
    | none => []
    | some ssl =>
        [.session f ⟨session_new (env.cfg f) client_fd payload.serial, ssl, [], false⟩]

/-- `handle_handoff_fd` in the worker `f`, when `q` is left to be received. -/
def handle_handoff_fd (f : Bytes) (h : HandoffConn n) (answer : NbRecv) (q : UnixStream) :
    List (Holder F β n) :=
  let r := (handoff_recv_nb h answer).1
  if r.2 = 0 then [.handoff f r.1 q]
  else if r.2 < 0 then []
  else
    match r.1.client_fd with
    | none => []
    | some client_fd => register_client_fd env f client_fd (env.layout.read r.1.payload)

/-- The struct of `session_relay`. -/
def relayPayload (serial : TlspeekSerial β) (owner : Bytes) : Payload (TlspeekSerial β) where
  magic := BENCH2_KA_MAGIC
  version := BENCH2_KA_VERSION
  serial := serial
  target_function := targetOf owner

/-- The worker `f`, after an iteration of `session_advance` that leaves the session `r.1`
with the `WOLFSSL` object `ssl` and `plain` in it. -/
def sessionEnd (f : Bytes) (ssl : Live) (plain : Bytes) (r : Session F (TlspeekSerial β) × Ctl)
    (fd : Fd) : List (Holder F β n) :=
  match r.2 with
  | .again => [.session f ⟨r.1, ssl, plain, true⟩]
  | .ret rc => if rc < 0 then [] else [.session f ⟨r.1, ssl, plain, false⟩]
  | .relay owner =>
      let payload := env.layout.bytes (relayPayload r.1.serial owner)
      [.toRelay (sendfd_with_state fd payload.bytes (some n)).stream]

end Parties

/-! ## §3. What the calls return. -/

/-- `recvmsg` for at most `want` bytes on a connection whose sender has closed its end. -/
inductive Receives (q : UnixStream) (want : Nat) : NbRecv → UnixStream → Prop where
  | eof : q.bytes = [] → Receives q want (.ret (.data [] false none)) q
  | data (m : Nat) : 0 < m → m ≤ want → m ≤ q.bytes.length →
      Receives q want (.ret (.data (q.bytes.take m) false (rightsCmsg q.rights)))
        ⟨q.bytes.drop m, []⟩

/-- The calls of `bench2gw_conn_step`. -/
structure GwOk (env : Env F β n) (st : World F β n) (conn : GwConn) (c : GwCalls β) : Prop where
  accept : c.accept ≠ .error
  keys : c.accept = .success → c.keys_ready = true
  ready : c.ready = tls_record_ready (st.socket env)
  serial : c.serial = some (export_live_serial env.wolf conn.ssl)
  peek : ∀ serial, c.peek serial = peekWith env.crypt conn.fd serial (st.socket env)

/-- The session opens the next record of the socket buffer. -/
def Opens (env : Env F β n) (st : World F β n) (ssl : Live) : Prop :=
  ssl.secrets = env.secrets ∧ ssl.read_seq = st.consumed.toUInt64

/-- `wolfSSL_read` for at most `want` bytes. -/
inductive TlsReads (env : Env F β n) (st : World F β n) (s : WSession F β) (want : Nat) :
    TlsRead → Wire → Prop where
  | data {d : Bytes} {w' : Wire} : Wire.Data ⟨s.plain, st.kernel⟩ want d w' →
      (w'.kernel ≠ st.kernel → Opens env st s.ssl) → TlsReads env st s want (.data d) w'
  /-- records without content are opened on the way -/
  | empty : s.plain = [] → contents st.kernel = [] → (st.kernel ≠ [] → Opens env st s.ssl) →
      TlsReads env st s want (.none .want_read) ⟨[], []⟩
  | bad : s.plain = [] → st.kernel ≠ [] → ¬ Opens env st s.ssl →
      TlsReads env st s want (.none .error) ⟨[], st.kernel⟩

/-- How much a read of the session asks for: `readRoom_of_capacity` for headers. -/
def readWant (s : Session F (TlspeekSerial β)) : Nat :=
  if s.state = .read_body then min (s.body_target - s.body_in) 8192 else 8192

/-- The calls of one iteration of `session_advance`. -/
structure SessionOk (env : Env F β n) (st : World F β n) (s : WSession F β)
    (c : Calls (TlspeekSerial β)) (w' : Wire) : Prop where
  realloc : c.realloc_ok = true
  epoll : c.epoll_mod_ok = true
  serial : c.serial = some (export_live_serial env.wolf s.ssl)
  pending : c.pending = s.plain.length
  ready : c.ready = tls_record_ready (st.socket env)
  peek : ∀ fd, s.core.fd = some fd →
    c.peek = peekWith env.crypt fd s.core.serial (st.socket env)
  read : s.core.Reading → TlsReads env st s (readWant s.core) c.read w'
  unread : ¬ s.core.Reading → w' = ⟨s.plain, st.kernel⟩
  write : s.core.state = .write_response → s.core.resp_off < s.core.resp.length →
    (∃ m, c.write = .wrote m ∧ 0 < m ∧ m ≤ s.core.resp.length - s.core.resp_off)
      ∨ c.write = .none .want_write

/-- The `WOLFSSL` object after an iteration that opened and wrote this much. -/
def Live.moved (ssl : Live) (opened : Nat) (written : Bytes) : Live where
  secrets := ssl.secrets
  read_seq := ssl.read_seq + opened.toUInt64
  write_seq := if written = [] then ssl.write_seq else ssl.write_seq + 1

/-- The world after an iteration of a session of `f` that stands between `pre` and `post`. -/
def World.turn (env : Env F β n) (st : World F β n) (pre post : List (Holder F β n)) (f : Bytes)
    (s : WSession F β) (c : Calls (TlspeekSerial β)) (w' : Wire) (fd : Fd) : World F β n :=
  let written := writtenBytes s.core c
  let opened := st.kernel.length - w'.kernel.length
  { st with
    kernel := w'.kernel
    consumed := st.consumed + opened
    out := st.out ++ written.map (fun b => (f, b))
    down := st.down ++ (if written = [] then [] else [s.ssl.seal written])
    holders := pre ++ sessionEnd env f (s.ssl.moved opened written) w'.plain
      (session_iter (env.cfg f) s.core c) fd ++ post }

/-! ## §4. Requests and responses. -/

/-- The number of request `k` in its session: requests for one function in a row are
counted, and a new session starts with 1. -/
def requestNo (jobs : List Job) : Nat → Nat
  | 0 => 1
  | k + 1 =>
      if (jobs[k + 1]?).map Job.owner = (jobs[k]?).map Job.owner then requestNo jobs k + 1 else 1

/-- The response to request `k`, byte by byte, with the worker it has to come from. -/
def answer (env : Env F β n) (jobs : List Job) (k : Nat) : List (Bytes × UInt8) :=
  match jobs[k]? with
  | none => []
  | some j =>
      ((response (env.cfg j.owner) j.q (requestNo jobs k)).getD []).map fun b => (j.owner, b)

/-- The responses to the first `k` requests. -/
def transcript (env : Env F β n) (jobs : List Job) : Nat → List (Bytes × UInt8)
  | 0 => []
  | k + 1 => transcript env jobs k ++ answer env jobs k

/-! ## §5. Steps. -/

inductive Event where
  | send
  | trickle
  | arrive
  | deliver
  | client
  | acceptHandoff
  | handoff
  | wake
  | iterate
  | acceptRelay
  | relay

inductive World.Step (env : Env F β n) (jobs : List Job) :
    World F β n → Event → World F β n → Prop where
  /-- The client sends its next request once it has all responses to the ones before. -/
  | send {st : World F β n} {j : Job} : jobs[st.sent]? = some j →
      (transcript env jobs st.sent).length ≤ st.got.length →
      Step env jobs st .send { st with sent := st.sent + 1, transit := st.transit ++ j.records }
  /-- More bytes of the next record arrive, but not all … -/
  | trickle {st : World F β n} {r : Record} {rs : List Record} {m : Nat} :
      st.transit = r :: rs → st.part ≤ m → m < TLSPEEK_HEADER_SIZE + r.wireLen →
      Step env jobs st .trickle { st with part := m }
  /-- … and the rest of it. -/
  | arrive {st : World F β n} {r : Record} {rs : List Record} : st.transit = r :: rs →
      Step env jobs st .arrive { st with kernel := st.kernel ++ [r], transit := rs, part := 0 }
  | deliver {st : World F β n} {x : Sealed} {xs : List Sealed} : st.down = x :: xs →
      st.broken = false →
      Step env jobs st .deliver
        (match x.opened env.secrets st.received.toUInt64 with
          | some d => { st with down := xs, received := st.received + 1, got := st.got ++ d }
          | none => { st with down := xs, broken := true })
  | client {st : World F β n} {conn : GwConn} {pre post : List (Holder F β n)} (c : GwCalls β)
      (fd : Fd) : st.holders = pre ++ .pending conn :: post → GwOk env st conn c →
      fd < WORKER_MAX_FDS →
      Step env jobs st .client { st with holders := pre ++ clientEvent env conn c fd ++ post }
  /-- `handle_listen_fd` -/
  | acceptHandoff {st : World F β n} {f : Bytes} {q : UnixStream}
      {pre post : List (Holder F β n)} (conn_fd : Fd) :
      st.holders = pre ++ .toWorker f q :: post → conn_fd < WORKER_MAX_FDS →
      Step env jobs st .acceptHandoff
        { st with holders := pre ++ .handoff f (.start conn_fd) q :: post }
  | handoff {st : World F β n} {f : Bytes} {h : HandoffConn n} {q q' : UnixStream}
      {pre post : List (Holder F β n)} {answer : NbRecv} :
      st.holders = pre ++ .handoff f h q :: post → Receives q (n - h.len) answer q' →
      Step env jobs st .handoff
        { st with holders := pre ++ handle_handoff_fd env f h answer q' ++ post }
  /-- EPOLLIN is reported while the socket buffer holds a byte; EPOLLOUT always may be. -/
  | wake {st : World F β n} {f : Bytes} {s : WSession F β} {pre post : List (Holder F β n)} :
      st.holders = pre ++ .session f s :: post → s.running = false →
      (s.core.events = .read → st.kernel ≠ [] ∨ 0 < st.part) →
      Step env jobs st .wake
        { st with holders := pre ++ .session f { s with running := true } :: post }
  | iterate {st : World F β n} {f : Bytes} {s : WSession F β} {pre post : List (Holder F β n)}
      (c : Calls (TlspeekSerial β)) (w' : Wire) (fd : Fd) :
      st.holders = pre ++ .session f s :: post → s.running = true → SessionOk env st s c w' →
      Step env jobs st .iterate (st.turn env pre post f s c w' fd)
  /-- the relay listener in `Run`; the struct is fresh from malloc -/
  | acceptRelay {st : World F β n} {q : UnixStream} {pre post : List (Holder F β n)}
      (conn_fd : Fd) (malloced : Area n) : st.holders = pre ++ .toRelay q :: post →
      Step env jobs st .acceptRelay
        { st with holders := pre ++ .relay (.start conn_fd malloced) q :: post }
  | relay {st : World F β n} {r : RelayConn n} {q q' : UnixStream}
      {pre post : List (Holder F β n)} {answer : NbRecv} (fd : Fd) :
      st.holders = pre ++ .relay r q :: post → Receives q (n - r.off) answer q' →
      fd < WORKER_MAX_FDS →
      Step env jobs st .relay
        { st with holders := pre ++ relayEvent env r answer q' fd ++ post }

/-- The gateway has accepted the connection; nothing has been sent. -/
structure World.Initial (env : Env F β n) (st : World F β n) : Prop where
  holders : ∃ fd, st.holders = [.pending ⟨fd, ⟨env.secrets, 0, 0⟩, .handshake, 1⟩]
  sent : st.sent = 0
  transit : st.transit = []
  part : st.part = 0
  kernel : st.kernel = []
  consumed : st.consumed = 0
  out : st.out = []
  down : st.down = []
  received : st.received = 0
  got : st.got = []
  broken : st.broken = false

def migration (env : Env F β n) (jobs : List Job) : TransitionSystem (World F β n) Event where
  init := World.Initial env
  step := World.Step env jobs

/-- What the client may send. -/
structure Workload (env : Env F β n) (jobs : List Job) : Prop where
  servable : ∀ j ∈ jobs, Servable j.q
  unhinted : ∀ j ∈ jobs, j.q.Unhinted
  name_fits : ∀ j ∈ jobs, j.owner.length ≤ 127
  name_nul : ∀ j ∈ jobs, Ch.nul ∉ j.owner
  /-- the socket of the function leads to its worker -/
  exist : ∀ j ∈ jobs, env.bound (sunPath (sockPath env.socketDir j.owner)) = some j.owner
  /-- the gateway peeks at the first request, the workers at the others -/
  shows : ∀ k (j : Job), jobs[k]? = some j → j.Shows (if k = 0 then env.maxPeek else 8192)
  fits : ∀ k j, jobs[k]? = some j →
    (response (env.cfg j.owner) j.q (requestNo jobs k)).isSome

end TlsMigration.Migration
