/-
  TlsMigration.HttpKa.Worker
  ──────────────────────────
  **THE TIMING WORKER PROCESS: DESCRIPTORS, TABLES AND THE EVENT LOOP**
  (sumprod-timing-fn-a/timing_fn_ka_worker.c from `session_close` to `main`).

  A handoff brings two descriptors, the client's connection and the pipe on
  which the gateway waits.  A variable that holds a descriptor number also
  holds the identity of the open it came from (`FileId`); the C code has
  only the number, and no function decides anything by the identity.
-/
import TlsMigration.Bench2.Payload
import TlsMigration.Handoff.Reassembly
import TlsMigration.Handoff.Transfer
import TlsMigration.HttpKa.Session
import TlsMigration.Lib.Custody
import TlsMigration.Lib.Transition

namespace TlsMigration.HttpKa

open TlsMigration.Handoff

/-! ## §1. The process. -/

def MAX_FDS : Nat := 65536

/-- `sizeof(httpmigrate_ka_payload_t)` -/
def PAYLOAD_LEN : Nat := 160

/-- `handoff_conn_t`. -/
structure HandoffObj where
  fd : Fd
  file : FileId
  client : Option Held
  pipe_wr : Option Held
  payload : Area PAYLOAD_LEN

/-- A session object, and the opens behind its two descriptors. -/
structure SessionObj where
  core : Session
  file : FileId
  pipe_file : FileId

/-- The flags of one reported event that the main loop looks at. -/
structure EpollFlags where
  epollin : Bool
  epollout : Bool

structure Worker where
  fds : FdTable
  s_handoffs : Fd → Option HandoffObj
  s_sessions : Fd → Option SessionObj
  listen_fd : Fd
  listen_file : FileId
  /-- the opens from this one on are made by the event loop -/
  first : FileId
  /-- the reported events not handled yet -/
  batch : List (Fd × EpollFlags)
  /-- inside the loop of `handle_listen_fd` -/
  accepting : Bool
  /-- the client descriptors received so far -/
  clients : List FileId
  /-- the pipe descriptors received so far -/
  pipes : List FileId
  /-- the clients of the session objects freed so far -/
  freed : List FileId

/-- What the calls of `session_relay` return; `socket` depends on what is open when it is
called. -/
structure RelayCalls where
  socket : FdTable → Option Fd
  connect_ok : Bool
  /-- `sendmsg` succeeded -/
  sent : Bool

def RelayCalls.connect (o : RelayCalls) (t : FdTable) : ConnectCalls := ⟨o.socket t, o.connect_ok⟩

/-- What the calls made for one event return. -/
structure EventCalls where
  recv : NbRecv
  set_nonblocking_ok : Bool
  calloc_ok : Bool
  malloc_ok : Bool
  epoll_add_ok : Bool
  session : List Calls
  relay : RelayCalls

/-- One descriptor accepted by `handle_listen_fd`. -/
structure AcceptCalls where
  conn_fd : Fd
  calloc_ok : Bool
  epoll_add_ok : Bool

namespace Worker

variable (w : Worker)

def setFds (fds : FdTable) : Worker := { w with fds := fds }

def setSession (fd : Fd) (s : Option SessionObj) : Worker :=
  { w with s_sessions := Function.update w.s_sessions fd s }

def setHandoff (fd : Fd) (h : Option HandoffObj) : Worker :=
  { w with s_handoffs := Function.update w.s_handoffs fd h }

/-- `free(s)`. -/
def free (s : SessionObj) : Worker := { w with freed := w.freed ++ [s.file] }

/-! ## §2. Sessions. -/

/-- `if (pipe_fd >= 0) { write(pipe_fd, …); close(pipe_fd); }` -/
def notified (t : FdTable) : Option Held → FdTable
  | none => t
  | some p => (t.use p.1 p.2).close p.1 p.2

def notifyPipe (pipe : Option Held) : Worker := w.setFds (notified w.fds pipe)

/-- `session_close(s)`. -/
def session_close (s : SessionObj) : Worker :=
  let w :=
    match s.core.fd with
    | none => w
    | some fd =>
        let w :=
          if fd < MAX_FDS then (w.setSession fd none).setFds (w.fds.epollDel fd s.file) else w
        w.setFds (w.fds.close fd s.file)
  let pipe := if s.core.pipe_sent then none else s.core.pipe_fd.map (·, s.pipe_file)
  (w.notifyPipe pipe).free s

/-- `session_relay(s, owner)`; the payload it sends is `relayPayload`.  The socket and its
`connect` have the shape of `unix_client_connect`. -/
def session_relay (s : SessionObj) (o : RelayCalls) : Worker :=
  match s.core.fd with
  | none => w.session_close s
  | some fd_to_relay =>
      let s := { s with core := { s.core with fd := none } }
      let w :=
        if fd_to_relay < MAX_FDS then
          (w.setSession fd_to_relay none).setFds (w.fds.epollDel fd_to_relay s.file)
        else w
      let w :=
        match unix_client_connect w.fds (o.connect w.fds) with
        | (t, none) => w.setFds (t.close fd_to_relay s.file)
        | (t, some relay_fd) =>
            -- the result of `sendfd_with_state` is not looked at
            let t := (transferFd t relay_fd fd_to_relay s.file o.sent).1
            w.setFds (t.close relay_fd.1 relay_fd.2)
      w.session_close s

/-- `session_advance(s)` and what its caller makes of the result. -/
def advance (cfg : Config) (fd : Fd) (s : SessionObj) (o : EventCalls) : Worker :=
  let w := w.setFds (w.fds.use fd s.file)
  let r := session_advance cfg s.core o.session
  let s' : SessionObj := { s with core := r.1 }
  -- the pipe is closed where `session_build_response` has set it to -1
  let w := w.notifyPipe
    (if r.1.pipe_fd.isSome then none else s.core.pipe_fd.map (·, s.pipe_file))
  let w := w.setSession fd (some s')
  match r.2.getLast? with
  | some (.relay _) => w.session_relay s' o.relay
  | some (.ret rc) => if rc < 0 then w.session_close s' else w
  | _ => w

/-! ## §3. Handoffs. -/

/-- `if (fd >= 0) close(fd);` -/
def closeFd (fd : Option Held) : Worker := w.setFds (w.fds.closeOpt fd)

/-- `handoff_close(fd)`; `file` is the open behind `fd`. -/
def handoff_close (fd : Fd) (file : FileId) : Worker :=
  let w :=
    if fd < MAX_FDS then
      match w.s_handoffs fd with
      | none => w.setHandoff fd none
      | some h => ((w.setHandoff fd none).closeFd h.client).closeFd h.pipe_wr
    else w
  let w := w.setFds (w.fds.epollDel fd file)
  w.setFds (w.fds.close fd file)

/-- `register_client_fd`. -/
def register_client_fd (cfg : Config) (client pipe : Option Held) (o : EventCalls) : Worker :=
  match client with
  | none => w.closeFd pipe
  | some (client_fd, file) =>
      if MAX_FDS ≤ client_fd then (w.closeFd client).closeFd pipe
      else
        let w := w.setFds (w.fds.use client_fd file)
        let s : SessionObj :=
          ⟨session_new client_fd (pipe.map Prod.fst), file, (pipe.map Prod.snd).getD 0⟩
        if o.set_nonblocking_ok = false ∨ o.calloc_ok = false then
          (w.closeFd client).closeFd pipe
        else if o.malloc_ok = false then ((w.free s).closeFd client).closeFd pipe
        else
          let w := w.setSession client_fd (some s)
          if o.epoll_add_ok = false then
            (((w.setSession client_fd none).free s).closeFd client).closeFd pipe
          else (w.setFds (w.fds.epollAdd client_fd file)).advance cfg client_fd s o

/-- What `recvfd2_with_state_nb` comes to. -/
inductive Recvfd2 where
  /-- 0 -/
  | wouldBlock
  /-- -1 -/
  | failed
  /-- 1 -/
  | received (client pipe : Held)

/-- `recvfd2_with_state_nb`. -/
def recvfd2_with_state_nb (t : FdTable) (payload : Area PAYLOAD_LEN) (r : NbRecv) :
    FdTable × Area PAYLOAD_LEN × Recvfd2 :=
  match r with
  | .wouldBlock => (t, payload, .wouldBlock)
  | .ret .error => (t, payload, .failed)
  | .ret (.data bytes _ cmsg) =>
      if bytes = [] then (t, payload, .failed)
      else
        let payload := payload.write bytes
        match cmsg with
        | some ⟨true, fds⟩ =>
            match installAll t fds with
            | (t, client :: pipe :: more) =>
                (more.foldl (fun t p => t.close p.1 p.2) t, payload, .received client pipe)
            | (t, few) => (few.foldl (fun t p => t.close p.1 p.2) t, payload, .failed)
        | _ => (t, payload, .failed)

/-- The `magic` and the `version` of a payload. -/
def wellFormed (payload : Area PAYLOAD_LEN) : Bool :=
  decide (Bench2.ofLe32 (payload.bytes.take 4) = HTTPMIGRATE_MAGIC
    ∧ Bench2.ofLe32 ((payload.bytes.drop 4).take 4) = HTTPMIGRATE_VERSION)

/-- `handle_handoff_fd(conn_fd)` on a registered connection. -/
def handle_handoff_fd (cfg : Config) (conn_fd : Fd) (h : HandoffObj) (o : EventCalls) : Worker :=
  match recvfd2_with_state_nb (w.fds.use h.fd h.file) h.payload o.recv with
  | (t, _, .wouldBlock) => w.setFds t
  | (t, payload, .failed) =>
      ((w.setFds t).setHandoff conn_fd (some { h with payload := payload })).handoff_close
        conn_fd h.file
  | (t, payload, .received client pipe) =>
      let w : Worker := { w.setFds t with
        clients := w.clients ++ [client.2], pipes := w.pipes ++ [pipe.2] }
      -- the two fields are set, copied, and set to -1 again
      let w := w.setHandoff conn_fd
        (some { h with payload := payload, client := none, pipe_wr := none })
      let w := w.handoff_close conn_fd h.file
      if wellFormed payload then w.register_client_fd cfg (some client) (some pipe) o
      else (w.closeFd (some client)).closeFd (some pipe)

/-- One descriptor accepted by `handle_listen_fd`. -/
def handle_accept (o : AcceptCalls) : Worker :=
  let file := w.fds.next
  let w := w.setFds (w.fds.opened o.conn_fd)
  if MAX_FDS ≤ o.conn_fd ∨ o.calloc_ok = false then w.setFds (w.fds.close o.conn_fd file)
  else
    let w := w.setHandoff o.conn_fd (some ⟨o.conn_fd, file, none, none, Area.zero _⟩)
    if o.epoll_add_ok then w.setFds (w.fds.epollAdd o.conn_fd file)
    else (w.setFds (w.fds.use o.conn_fd file)).handoff_close o.conn_fd file

/-! ## §4. The event loop. -/

/-- One reported event, on a descriptor other than the listening one. -/
def handle_event (cfg : Config) (fd : Fd) (rev : EpollFlags) (o : EventCalls) : Worker :=
  if MAX_FDS ≤ fd then w
  else
    match w.s_handoffs fd with
    | some h => if rev.epollin then w.handle_handoff_fd cfg fd h o else w.handoff_close fd h.file
    | none =>
        match w.s_sessions fd with
        | none =>
            let file := (w.fds.files fd).getD 0
            let w := w.setFds (w.fds.epollDel fd file)
            w.setFds (w.fds.close fd file)
        | some s =>
            if rev.epollin ∨ rev.epollout then w.advance cfg fd s o else w.session_close s

/-- What the environment promises of the calls made for one event: a handoff message brings
two descriptors, and numbers handed out are not in use.  Descriptors come with bytes of the
payload: a message without any takes no control data along on a stream socket (unix(7)), so
`recvmsg` does not return 0 together with descriptors. -/
structure EventOk (o : EventCalls) : Prop where
  recv : ∀ bytes ctrunc c, o.recv = .ret (.data bytes ctrunc (some c)) →
    ∃ client pipe, c = ⟨true, [client, pipe]⟩ ∧ bytes ≠ [] ∧ client ≠ pipe
      ∧ w.fds.files client = none ∧ w.fds.files pipe = none
  socket : ∀ t fd, o.relay.socket t = some fd → t.files fd = none

end Worker

/-- The steps of the process. -/
inductive WorkerLabel where
  | wait (events : List (Fd × EpollFlags))
  | listen
  | accept (o : AcceptCalls)
  | accepted
  | event (fd : Fd) (rev : EpollFlags) (o : EventCalls)

inductive Worker.Step (cfg : Config) : Worker → WorkerLabel → Worker → Prop where
  /-- `epoll_wait` reports registered descriptors, each once. -/
  | wait {w : Worker} (events : List (Fd × EpollFlags)) :
      w.accepting = false → w.batch = [] → (events.map Prod.fst).Nodup →
      (∀ e ∈ events, w.fds.epoll e.1 = true) →
      Step cfg w (.wait events) { w with batch := events }
  | listen {w : Worker} {rev : EpollFlags} {rest : List (Fd × EpollFlags)} :
      w.accepting = false → w.batch = (w.listen_fd, rev) :: rest →
      Step cfg w .listen { w with batch := rest, accepting := true }
  /-- `accept4` returns a descriptor … -/
  | accept {w : Worker} (o : AcceptCalls) :
      w.accepting = true → w.fds.files o.conn_fd = none →
      Step cfg w (.accept o) (w.handle_accept o)
  /-- … or fails, which ends the loop. -/
  | accepted {w : Worker} :
      w.accepting = true → Step cfg w .accepted { w with accepting := false }
  /-- Any other event.  A list of session calls that ends before a return leaves the
  process inside `session_advance`. -/
  | event {w : Worker} {fd : Fd} {rev : EpollFlags} {rest : List (Fd × EpollFlags)}
      (o : EventCalls) :
      w.accepting = false → w.batch = (fd, rev) :: rest → fd ≠ w.listen_fd → w.EventOk o →
      Step cfg w (.event fd rev o) (Worker.handle_event { w with batch := rest } cfg fd rev o)

/-- The process after the set-up in `main`: nothing but the listening descriptor is
registered; other descriptors may be open. -/
structure Worker.Initial (w : Worker) : Prop where
  ok : w.fds.Ok
  faults : w.fds.faults = 0
  sends : ∀ id, w.fds.sends id = 0
  first : w.first = w.fds.next
  listen : w.fds.files w.listen_fd = some w.listen_file
  epoll : ∀ fd, w.fds.epoll fd = true → fd = w.listen_fd
  s_handoffs : ∀ fd, w.s_handoffs fd = none
  s_sessions : ∀ fd, w.s_sessions fd = none
  batch : w.batch = []
  clients : w.clients = []
  pipes : w.pipes = []
  freed : w.freed = []

def workerSystem (cfg : Config) : TransitionSystem Worker WorkerLabel where
  init := Worker.Initial
  step := Worker.Step cfg

end TlsMigration.HttpKa
