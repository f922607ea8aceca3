/-
  TlsMigration.BenchHttp.System
  ─────────────────────────────
  **GATEWAY, WORKERS AND THE CONNECTION BETWEEN THEM**
  (RunProto and dispatchToFunction of benchhttp/server.go, httpmigrate_ka.c,
  and the event loop of timing_fn_ka_worker.c).

  One client connection, the gateway, and a worker for every function name.
  Every function of the code that gets the descriptor of the connection
  passes it on, closes it, or forgets it, so a state says where it is
  (`Holder`).  Every step is one event of one party; the events carry what
  the system calls return, and nearly all of them may fail at any time.

  The two ends of a handoff are not in step: a worker may accept the
  connection before the message is in it, and sees EPOLLHUP once the gateway
  has closed its end; the gateway may accept a relay connection before the
  message is in it, and closes it.

    • `World.step`  — the steps;
    • `deployment`  — the system, with a client that waits for each response,
                      and a network that brings the line of a request whole.
-/
import TlsMigration.BenchHttp.Serving
import TlsMigration.Faasd.KeepaliveWorker
import TlsMigration.Handoff.Sendfd
import TlsMigration.Lib.Packing
import TlsMigration.Lib.Transition
import TlsMigration.Migration.Gateway

namespace TlsMigration.BenchHttp

open TlsMigration.Http TlsMigration.Handoff
open TlsMigration.HttpKa (Recv Send HTTPMIGRATE_MAGIC HTTPMIGRATE_VERSION HTTPMIGRATE_TARGET_LEN)
open TlsMigration.HttpKa.Sum (Doubles)
open TlsMigration.Migration (sunPath)

variable {F : Type*}

/-! ## §1. The struct of a message. -/

abbrev PAYLOAD_LEN : Nat := 4 + (4 + targetSize)

/-- `httpmigrate_ka_payload_t` in memory. -/
def payloadPacking : Packing Benchhttp.Payload PAYLOAD_LEN :=
  (Packing.u32.pair (Packing.u32.pair Packing.area)).map
    (fun p : Benchhttp.Payload => (p.magic, (p.version, p.target_function)))
    (fun x => ⟨x.1, x.2.1, x.2.2⟩) (fun _ => rfl)

/-- What `httpmigrate_ka_accept_peek` fills in, and then `setPayloadTarget`. -/
def dispatchPayload (fnName : Bytes) : Benchhttp.Payload :=
  Benchhttp.setPayloadTarget
    ⟨HTTPMIGRATE_MAGIC, HTTPMIGRATE_VERSION, Area.zero targetSize⟩ fnName

/-- The struct of a session that is given back. -/
def relayPayload (owner : Bytes) : Benchhttp.Payload where
  magic := HTTPMIGRATE_MAGIC
  version := HTTPMIGRATE_VERSION
  target_function := Area.ofBytes targetSize ((cstr owner).take (HTTPMIGRATE_TARGET_LEN - 1))

/-! ## §2. States. -/

/-- What a deployment fixes. -/
structure Env (F : Type*) where
  libm : Doubles F
  /-- the operation of each function -/
  compute : Bytes → F → F → F
  fmt6g : F → Bytes
  fmt6g_le : ∀ x, (fmt6g x).length ≤ 13
  socketDir : Bytes
  /-- the worker whose socket is bound to an address -/
  bound : Bytes → Option Bytes

/-- The worker of the function `f`. -/
def Env.cfg (env : Env F) (f : Bytes) : Config F where
  fn_name := f
  libm := env.libm
  compute := env.compute f
  fmt6g := env.fmt6g

/-- The worker's end of a handoff connection. -/
inductive Peer where
  /-- in the backlog of the listener -/
  | backlog
  /-- in `s_pending_uds` -/
  | pending
  | closed
  deriving DecidableEq

/-- Where the descriptor of the client's connection is. -/
inductive Holder (F : Type*) where
  /-- in the accept queue of the gateway -/
  | queued
  /-- in `httpmigrate_ka_send_fd`, connected to `f` -/
  | dispatch (f : Bytes) (payload : Benchhttp.Payload) (peer : Peer)
  /-- in a message to `f`; `hup` says that the gateway has closed its end -/
  | toWorker (f : Bytes) (q : UnixStream) (pending hup : Bool)
  | session (f : Bytes) (s : Session F) (running : Bool)
  /-- in `f`, connected to the relay socket; `refused` says that the gateway has closed its end -/
  | relaying (f : Bytes) (payload : Benchhttp.Payload) (refused : Bool)
  /-- in a message to the gateway -/
  | toGateway (q : UnixStream)
  | closed
  /-- open in a process that has forgotten it -/
  | leaked

/-- One request, and the function that it names. -/
structure Job where
  q : Request
  owner : Bytes
  names : ∃ method more version, q.line = Faasd.WellFormed.line method owner more version
    ∧ Faasd.WellFormed method owner more version
  owner_le : owner.length ≤ 127
  /-- the line and its end fit into `peek_buf` -/
  line_le : q.line.length + 2 ≤ PEEK_LEN
  body_le : (q.body.length : Int) ≤ LLONG_MAX

structure World (F : Type*) where
  holder : Holder F
  /-- number of requests the client has begun to send -/
  sent : Nat
  /-- of the last of them, what is still on the way … -/
  coming : Bytes
  /-- … and what is in the socket buffer -/
  unread : Bytes
  /-- every byte written, with the worker that wrote it -/
  out : List (Bytes × UInt8)
  /-- how many of them the client has -/
  got : Nat

def World.start : World F := ⟨.queued, 0, [], [], [], 0⟩

/-! ## §3. The gateway. -/

/-- `dispatchToFunction`, up to `unix_client_connect`, which fails where nobody listens. -/
def dispatchToFunction (env : Env F) (fnName : Bytes) (payload : Benchhttp.Payload)
    (connect_ok : Bool) : Holder F :=
  match env.bound (sunPath (sockPath env.socketDir fnName)) with
  | some f => if connect_ok then .dispatch f payload .backlog else .closed
  | none => .closed

/-- What the calls on an accepted connection return. -/
structure PeekCalls where
  nonblocking_ok : Bool
  /-- `recv` does not report an error -/
  recv_ok : Bool
  connect_ok : Bool

/-- The turn of the accept loop for the client: `httpmigrate_ka_accept_peek`, and the
dispatch. -/
def acceptClient (env : Env F) (unread : Bytes) (c : PeekCalls) : Holder F :=
  if c.nonblocking_ok = false ∨ c.recv_ok = false then .closed
  else
    -- `EAGAIN` is as good as an error here
    let headers_buf := unread.take 8191
    if headers_buf = [] then .closed
    else
      match Benchhttp.parseFunctionName headers_buf with
      | none => .closed
      | some fnName => dispatchToFunction env fnName (dispatchPayload fnName) c.connect_ok

/-- What the calls on an accepted relay connection return. -/
structure RelayCalls where
  nonblocking_ok : Bool
  recv_ok : Bool
  connect_ok : Bool

/-- The turn of the accept loop for a relay connection with a message in it. -/
def acceptRelay (env : Env F) (q : UnixStream) (c : RelayCalls) : Holder F :=
  if c.nonblocking_ok = false then .closed
  else
    let answer := if c.recv_ok then .data q.bytes false (rightsCmsg q.rights) else .error
    let r := recvfd_with_state (Area.zero PAYLOAD_LEN) answer
    if r.1 ≠ 0 then .closed
    else
      let payload := payloadPacking.dec r.2.2
      let fnName := payloadTarget payload.target_function
      if fnName = [] then .closed else dispatchToFunction env fnName payload c.connect_ok

/-! ## §4. The workers. -/

/-- What the calls for a handoff connection return. -/
structure PendingCalls where
  /-- `conn_fd < MAX_FD`, and `epoll_add` -/
  register_ok : Bool
  /-- `EAGAIN` or `EINTR` -/
  retry : Bool
  recv_ok : Bool
  nonblocking_ok : Bool
  /-- `client_fd < MAX_FD`, and `calloc` -/
  session_ok : Bool
  epoll_add_ok : Bool

/-- `add_client_session_from_payload` in the worker `f`. -/
def add_client_session_from_payload (env : Env F) (f : Bytes) (client_fd : Option Fd)
    (payload : Benchhttp.Payload) (c : PendingCalls) : Holder F :=
  match client_fd with
  | none => .closed
  | some client_fd =>
      if payload.magic ≠ HTTPMIGRATE_MAGIC ∨ payload.version ≠ HTTPMIGRATE_VERSION then .closed
      else if c.nonblocking_ok = false ∨ c.session_ok = false ∨ c.epoll_add_ok = false then .closed
      else .session f (session_new env.libm client_fd) false

/-- `handle_pending_uds_fd` in the worker `f`, with the message in the connection. -/
def handle_pending_uds_fd (env : Env F) (f : Bytes) (q : UnixStream) (hup : Bool)
    (c : PendingCalls) : Holder F :=
  if c.retry then .toWorker f q true hup
  else
    let answer := if c.recv_ok then .data q.bytes false (rightsCmsg q.rights) else .error
    let r := recvfd_with_state (Area.zero PAYLOAD_LEN) answer
    if r.1 ≠ 0 then .closed
    else add_client_session_from_payload env f r.2.1 (payloadPacking.dec r.2.2) c

/-- What `recv` reports. -/
inductive Arrival where
  | got (n : Nat)
  | eagain
  | eof
  | error

/-- What the calls of one iteration return. -/
structure IterCalls where
  recv : Arrival
  write : Send
  realloc_ok : Bool
  epoll_mod_ok : Bool
  connect_ok : Bool

/-- What `recv` returns: as much as fits of what is there, when the session peeks, and else some
of that. -/
def received (s : Session F) (unread : Bytes) : Arrival → Option Recv
  | .eagain => some .eagain
  | .eof => some (.data [])
  | .error => some .error
  | .got n =>
      let most := min s.want unread.length
      if n = 0 ∨ most < n ∨ (s.state = .S_PEEK_OWNER ∧ n < most) then none
      else some (.data (unread.take n))

/-- How much of it is taken out of the socket buffer. -/
def taken (s : Session F) (r : Recv) : Nat :=
  if s.Receives ∧ s.state ≠ .S_PEEK_OWNER then
    match r with
    | .data bytes => bytes.length
    | _ => 0
  else 0

/-- `write` takes no more than it is given. -/
def writable (s : Session F) : Send → Bool
  | .sent n => decide (n ≤ s.resp_len - s.resp_off)
  | _ => true

/-- The worker `f`, after an iteration. -/
def sessionEnd (f : Bytes) (r : Session F × Ctl) (connect_ok : Bool) : Holder F :=
  match r.2 with
  | .again => .session f r.1 true
  | .wait => .session f r.1 false
  | .close => .closed
  | .relay owner => if connect_ok then .relaying f (relayPayload owner) false else .closed

/-! ## §5. Steps. -/

inductive Event where
  /-- the client starts with its next request -/
  | send
  /-- bytes of it arrive -/
  | arrive (n : Nat)
  /-- bytes of a response arrive at the client -/
  | deliver (n : Nat)
  | acceptClient (c : PeekCalls)
  /-- `sendmsg` of a dispatch; the number the descriptor gets at the other end, or `-1` -/
  | sendmsg (fd : Option Fd)
  /-- `close(uds_fd)` -/
  | hangup
  /-- `handle_listen_fd` -/
  | accept (c : PendingCalls)
  /-- an event of the connection; `hup` is EPOLLHUP -/
  | pending (hup : Bool) (c : PendingCalls)
  /-- an event of the session -/
  | wake (hup : Bool)
  | iterate (c : IterCalls)
  /-- `sendmsg` of a relay -/
  | relaymsg (fd : Option Fd)
  | acceptRelay (c : RelayCalls)

/-- The first bytes of a request to arrive hold its first line. -/
def arrivesWhole (jobs : List Job) (w : World F) : Event → Bool
  | .arrive n =>
      match jobs[w.sent - 1]? with
      | some j => decide (w.coming.length = j.q.bytes.length → j.q.line.length + 2 ≤ n)
      | none => true
  | _ => true

/-- One iteration of the session `s` of the worker `f`. -/
def World.iterate (env : Env F) (w : World F) (f : Bytes) (s : Session F) (c : IterCalls) :
    Option (World F) :=
  (received s w.unread c.recv).bind fun r =>
    if writable s c.write then
      let calls : Calls := ⟨r, c.write, c.realloc_ok, c.epoll_mod_ok⟩
      some { w with
        holder := sessionEnd f (session_iter (env.cfg f) s calls) c.connect_ok
        unread := w.unread.drop (taken s r)
        out := w.out ++ (s.written calls).map fun b => (f, b) }
    else none

/-- The message with the struct, which `sendmsg` takes as a whole. -/
def message (payload : Benchhttp.Payload) (fd : Fd) : UnixStream :=
  (sendfd_with_state fd (payloadPacking.enc payload).bytes (some PAYLOAD_LEN)).stream

/-- Where the descriptor is after an event that moves no bytes. -/
def Holder.move (env : Env F) (unread : Bytes) (h : Holder F) (e : Event) : Option (Holder F) :=
  match e, h with
  | .acceptClient c, .queued => some (BenchHttp.acceptClient env unread c)
  | .sendmsg (some fd), .dispatch f payload peer =>
      if peer = .closed then none
      else some (.toWorker f (message payload fd) (peer = .pending) false)
  | .sendmsg none, .dispatch _ _ _ => some .closed
  | .hangup, .toWorker f q pending false => some (.toWorker f q pending true)
  | .accept c, .dispatch f payload .backlog =>
      -- there is nothing to receive yet
      some (.dispatch f payload (if c.register_ok ∧ c.retry then .pending else .closed))
  | .accept c, .toWorker f q false hup =>
      some (if c.register_ok then handle_pending_uds_fd env f q hup c else .closed)
  | .pending false c, .dispatch f payload .pending =>
      some (.dispatch f payload (if c.retry then .pending else .closed))
  | .pending hup' c, .toWorker f q true hup =>
      -- `EPOLLHUP` closes the connection, with the message still in it
      if hup' then (if hup then some .closed else none)
      else some (handle_pending_uds_fd env f q hup c)
  | .wake hup, .session f s false => some (if hup then .closed else .session f s true)
  | .relaymsg (some fd), .relaying _ payload false => some (.toGateway (message payload fd))
  -- the session has left the table, and its descriptor stays open
  | .relaymsg none, .relaying _ _ _ => some .leaked
  | .acceptRelay _, .relaying f payload false => some (.relaying f payload true)
  | .acceptRelay c, .toGateway q => some (BenchHttp.acceptRelay env q c)
  | _, _ => none

def World.step (env : Env F) (jobs : List Job) (w : World F) : Event → Option (World F)
  | .send =>
      if w.coming = [] then
        (jobs[w.sent]?).map fun j => { w with sent := w.sent + 1, coming := j.q.bytes }
      else none
  | .arrive n =>
      if 0 < n ∧ n ≤ w.coming.length then
        some { w with unread := w.unread ++ w.coming.take n, coming := w.coming.drop n }
      else none
  | .deliver n =>
      if w.got + n ≤ w.out.length then some { w with got := w.got + n } else none
  | .iterate c =>
      match w.holder with
      | .session f s true => w.iterate env f s c
      | _ => none
  | e => (w.holder.move env w.unread e).map fun h => { w with holder := h }

/-- What the client has is a response for every request it has sent. -/
def World.Answered (w : World F) : Prop :=
  ∃ parts : List Bytes, parts.length = w.sent ∧ (∀ p ∈ parts, ∃ close, Framed p close)
    ∧ (w.out.take w.got).map Prod.snd = parts.flatten

/-- The gateway, the workers, a client that sends a request once it has the response to the one
before, and a network that brings the line of a request whole: gateway and workers take what
is there for the line, and a name that has come in part for the name. -/
def deployment (env : Env F) (jobs : List Job) : TransitionSystem (World F) Event where
  init w := w = .start
  step w e w' :=
    w.step env jobs e = some w' ∧ (e = .send → w.Answered) ∧ arrivesWhole jobs w e = true

/-! ## §6. What the server behind it is to do. -/

/-- The number of request `k` in its session: requests for one function in a row are
counted, and a new session starts with 1. -/
def requestNo (jobs : List Job) : Nat → UInt64
  | 0 => 1
  | k + 1 =>
      if (jobs[k + 1]?).map Job.owner = (jobs[k]?).map Job.owner then requestNo jobs k + 1 else 1

/-- Request `k` is answered by the worker of its function, with operands from a first part of
the body; a request that asks for it ends the connection. -/
def service (env : Env F) (jobs : List Job) : Service (Bytes × UInt8) where
  Answer k text := ∃ j, jobs[k]? = some j ∧ ∃ m ≤ j.q.body.length,
    text = tagged j.owner (response (env.cfg j.owner) j.q (requestNo jobs k) m)
  Last k := ∃ j, jobs[k]? = some j ∧ closes j.q = true

/-- Every function that is named has a worker. -/
def Served (env : Env F) (jobs : List Job) : Prop :=
  ∀ j ∈ jobs, env.bound (sunPath (sockPath env.socketDir j.owner)) = some j.owner

end TlsMigration.BenchHttp
