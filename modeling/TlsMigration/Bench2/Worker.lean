/-
  TlsMigration.Bench2.Worker
  ──────────────────────────
  **THE BENCH2 WORKER PROCESS: DESCRIPTORS, TABLES AND SESSION OBJECTS**
  (bench2_proto_worker.c from `session_close` to the event loop).

  Everything a system call, wolfSSL or an allocation may return is an
  argument.  A variable that holds a descriptor number also holds the
  identity of the open it came from (`FileId`); the C code has only the
  number, and no function of the model decides anything by the identity.
-/
import TlsMigration.Lib.Descriptor
import TlsMigration.Lib.Transition
import TlsMigration.Handoff.Reassembly
import TlsMigration.Bench2.Session

namespace TlsMigration.Bench2

open TlsMigration.Handoff

variable {F S : Type*} {n : Nat}

/-! ## §1. The process. -/

def WORKER_MAX_FDS : Nat := 65536

/-- The address of a session object. -/
abbrev Addr := Nat

/-- A handoff connection, and the opens behind its two descriptors. -/
structure HandoffObj (n : Nat) where
  core : HandoffConn n
  file : FileId
  client_file : FileId

/-- A session object, and the open behind its descriptor. -/
structure SessionObj (F S : Type*) where
  core : Session F S
  file : FileId

/-- The flags of one reported event. -/
structure EpollFlags where
  epollin : Bool
  epollout : Bool
  epollerr : Bool
  /-- EPOLLHUP or EPOLLRDHUP -/
  epollhup : Bool

structure Worker (F S : Type*) (n : Nat) where
  fds : FdTable
  s_handoffs : Fd → Option (HandoffObj n)
  s_sessions : Fd → Option Addr
  heap : Addr → Option (SessionObj F S)
  listen_fd : Fd
  listen_file : FileId
  /-- the reported events not handled yet -/
  batch : List (Fd × EpollFlags)
  /-- inside the loop of `handle_listen_fd` -/
  accepting : Bool
  /-- the client descriptors received so far -/
  clients : List FileId
  /-- sessions freed that the table still points to, or freed twice -/
  badFrees : Nat
  /-- descriptors sent away that the table still points to -/
  badSends : Nat

/-- The worker's configuration: what its sessions use, and the layout of a payload. -/
structure WorkerEnv (F S : Type*) (n : Nat) where
  cfg : Config F
  layout : Layout S n

/-- What the calls of `session_new` and `register_client_fd` return. -/
structure RegisterCalls where
  set_nonblocking_ok : Bool
  calloc : Option Addr
  wolfSSL_new_ok : Bool
  restore_ok : Bool
  malloc_ok : Bool
  epoll_add_ok : Bool

/-- What the calls of `relay_to_gateway` return; `socket` is the number of the new
descriptor. -/
structure RelayCalls where
  socket : Option Fd
  connect_ok : Bool
  send_ok : Bool

/-- One descriptor accepted by `handle_listen_fd`. -/
structure AcceptCalls where
  conn_fd : Fd
  calloc_ok : Bool
  epoll_add_ok : Bool

/-- What all calls made for one event return. -/
structure EventCalls (S : Type*) where
  recv : NbRecv
  register : RegisterCalls
  session : List (Calls S)
  relay : RelayCalls

namespace Worker

variable (w : Worker F S n)

/-! ## §2. Sessions. -/

def setFds (fds : FdTable) : Worker F S n := { w with fds := fds }

def setSession (fd : Fd) (a : Option Addr) : Worker F S n :=
  { w with s_sessions := Function.update w.s_sessions fd a }

def setHandoff (fd : Fd) (h : Option (HandoffObj n)) : Worker F S n :=
  { w with s_handoffs := Function.update w.s_handoffs fd h }

def setHeap (a : Addr) (s : Option (SessionObj F S)) : Worker F S n :=
  { w with heap := Function.update w.heap a s }

section Fields

variable (fds : FdTable) (fd : Fd) (a : Addr) (o : Option Addr) (h : Option (HandoffObj n))
  (s : Option (SessionObj F S))

@[simp] theorem setFds_fds : (w.setFds fds).fds = fds := rfl
@[simp] theorem setFds_s_handoffs : (w.setFds fds).s_handoffs = w.s_handoffs := rfl
@[simp] theorem setFds_s_sessions : (w.setFds fds).s_sessions = w.s_sessions := rfl
@[simp] theorem setFds_heap : (w.setFds fds).heap = w.heap := rfl
@[simp] theorem setFds_clients : (w.setFds fds).clients = w.clients := rfl
@[simp] theorem setFds_listen_fd : (w.setFds fds).listen_fd = w.listen_fd := rfl
@[simp] theorem setSession_fds : (w.setSession fd o).fds = w.fds := rfl
@[simp] theorem setSession_s_handoffs : (w.setSession fd o).s_handoffs = w.s_handoffs := rfl
@[simp] theorem setSession_s_sessions :
    (w.setSession fd o).s_sessions = Function.update w.s_sessions fd o := rfl
@[simp] theorem setSession_heap : (w.setSession fd o).heap = w.heap := rfl
@[simp] theorem setSession_clients : (w.setSession fd o).clients = w.clients := rfl
@[simp] theorem setHandoff_fds : (w.setHandoff fd h).fds = w.fds := rfl
@[simp] theorem setHandoff_s_handoffs :
    (w.setHandoff fd h).s_handoffs = Function.update w.s_handoffs fd h := rfl
@[simp] theorem setHandoff_s_sessions : (w.setHandoff fd h).s_sessions = w.s_sessions := rfl
@[simp] theorem setHandoff_clients : (w.setHandoff fd h).clients = w.clients := rfl
@[simp] theorem setHeap_fds : (w.setHeap a s).fds = w.fds := rfl
@[simp] theorem setHeap_s_sessions : (w.setHeap a s).s_sessions = w.s_sessions := rfl
@[simp] theorem setHeap_heap : (w.setHeap a s).heap = Function.update w.heap a s := rfl

end Fields

/-- The session table points to the object `a`. -/
def PointsTo (a : Addr) : Prop := ∃ fd, fd < WORKER_MAX_FDS ∧ w.s_sessions fd = some a

instance (a : Addr) : Decidable (w.PointsTo a) :=
  inferInstanceAs (Decidable (∃ fd, fd < WORKER_MAX_FDS ∧ w.s_sessions fd = some a))

/-- What freeing `a` adds to `badFrees`. -/
def badFree (a : Addr) : Nat := if w.PointsTo a then 1 else 0

theorem badFree_eq_zero {a : Addr} (h : ∀ fd, w.s_sessions fd ≠ some a) : w.badFree a = 0 := by
  unfold badFree
  exact if_neg fun ⟨fd, _, hfd⟩ => h fd hfd

/-- `free(s)`. -/
def free (a : Addr) : Worker F S n :=
  { w.setHeap a none with badFrees := w.badFrees + w.badFree a }

/-- Freeing an object that the table does not point to. -/
theorem free_eq {a : Addr} (h : ∀ fd, w.s_sessions fd ≠ some a) : w.free a = w.setHeap a none := by
  rw [free, w.badFree_eq_zero h]
  rfl

/-- `session_close(s)`. -/
def session_close (a : Addr) : Worker F S n :=
  match w.heap a with
  | none => { w with badFrees := w.badFrees + 1 }
  | some s =>
      match s.core.fd with
      | none => w.free a
      | some fd =>
          let w :=
            if fd < WORKER_MAX_FDS then
              (w.setSession fd none).setFds (w.fds.epollDel fd s.file)
            else w
          (w.setFds (w.fds.close fd s.file)).free a

/-- `session_new`, on a client descriptor and the struct that came with it. -/
def session_new (env : WorkerEnv F S n) (client_fd : Fd) (file : FileId) (payload : Payload S)
    (o : RegisterCalls) : Worker F S n × Option Addr :=
  if WORKER_MAX_FDS ≤ client_fd then (w.setFds (w.fds.close client_fd file), none)
  else
    let w := w.setFds (w.fds.use client_fd file)
    if o.set_nonblocking_ok = false then (w.setFds (w.fds.close client_fd file), none)
    else
      match o.calloc with
      | none => (w.setFds (w.fds.close client_fd file), none)
      | some a =>
          let s : SessionObj F S := ⟨Bench2.session_new env.cfg client_fd payload.serial, file⟩
          let w := w.setHeap a (some s)
          if o.wolfSSL_new_ok = false then
            let w := w.free a
            (w.setFds (w.fds.close client_fd file), none)
          else if o.restore_ok = false ∨ o.malloc_ok = false then (w.session_close a, none)
          else (w.setSession client_fd (some a), some a)

/-- `relay_to_gateway`; `unix_client_connect` and `sendfd_with_state` are in line. -/
def relay_to_gateway (client_fd : Fd) (file : FileId) (o : RelayCalls) : Worker F S n :=
  match o.socket with
  | none => w.setFds (w.fds.close client_fd file)
  | some relay_fd =>
      let relay_file := w.fds.next
      let w := w.setFds (w.fds.opened relay_fd)
      if o.connect_ok = false then
        let w := w.setFds (w.fds.close relay_fd relay_file)
        w.setFds (w.fds.close client_fd file)
      else
        let w := w.setFds (w.fds.use relay_fd relay_file)
        if o.send_ok then
          let w : Worker F S n := { w.setFds (w.fds.send client_fd file) with
            badSends := w.badSends + (if (w.s_sessions client_fd).isSome then 1 else 0) }
          w.setFds (w.fds.close relay_fd relay_file)
        else
          let w := w.setFds (w.fds.close relay_fd relay_file)
          w.setFds (w.fds.close client_fd file)

/-- `session_relay(s, owner)`; the payload it sends is `relayPayload`. -/
def session_relay (a : Addr) (s : SessionObj F S) (o : RelayCalls) : Worker F S n :=
  match s.core.fd with
  | none => w.session_close a
  | some fd_to_relay =>
      let w :=
        if fd_to_relay < WORKER_MAX_FDS then
          (w.setSession fd_to_relay none).setFds (w.fds.epollDel fd_to_relay s.file)
        else w
      let w := w.setHeap a (some { s with core := { s.core with fd := none } })
      (w.session_close a).relay_to_gateway fd_to_relay s.file o

/-- `session_advance(s)` and what the main loop makes of its result. -/
def advance (env : WorkerEnv F S n) (a : Addr) (s : SessionObj F S) (fd : Fd)
    (o : EventCalls S) : Worker F S n :=
  let w := w.setFds (w.fds.use fd s.file)
  let r := session_advance env.cfg s.core o.session
  let s' : SessionObj F S := { s with core := r.1 }
  let w := w.setHeap a (some s')
  match r.2.getLast? with
  | some (.relay _) => w.session_relay a s' o.relay
  | some (.ret rc) => if rc < 0 then w.session_close a else w
  | _ => w

/-! ## §3. Handoffs. -/

/-- `handoff_close(fd)`; `file` is the open behind `fd`. -/
def handoff_close (fd : Fd) (file : FileId) : Worker F S n :=
  let w :=
    if fd < WORKER_MAX_FDS then
      match w.s_handoffs fd with
      | none => w.setHandoff fd none
      | some h =>
          let w := w.setHandoff fd none
          match h.core.client_fd with
          | none => w
          | some client_fd => w.setFds (w.fds.close client_fd h.client_file)
    else w
  let w := w.setFds (w.fds.epollDel fd file)
  w.setFds (w.fds.close fd file)

/-- `register_client_fd`. -/
def register_client_fd (env : WorkerEnv F S n) (client_fd : Fd) (file : FileId)
    (payload : Payload S) (o : RegisterCalls) : Worker F S n :=
  if payload.magic ≠ BENCH2_KA_MAGIC ∨ payload.version ≠ BENCH2_KA_VERSION then
    w.setFds (w.fds.close client_fd file)
  else
    match w.session_new env client_fd file payload o with
    | (w, none) => w
    | (w, some a) =>
        if o.epoll_add_ok then w.setFds (w.fds.epollAdd client_fd file)
        else (w.setFds (w.fds.use client_fd file)).session_close a

/-- The descriptor a `recvmsg` installs, if any. -/
def receivedFd : NbRecv → Option Fd
  | .ret (.data _ _ (some ⟨true, [fd]⟩)) => some fd
  | _ => none

/-- The `recvmsg` of `handoff_recv_nb`, if it gets that far, may hand out a descriptor. -/
def received (h : HandoffConn n) (r : NbRecv) : Worker F S n :=
  if h.fd.isNone ∨ n ≤ h.len then w
  else
    match receivedFd r with
    | none => w
    | some fd => { w.setFds (w.fds.opened fd) with clients := w.clients ++ [w.fds.next] }

/-- The descriptors `handoff_recv_nb` closes are the one it was just given. -/
def closeAll (file : FileId) (fds : List Fd) : Worker F S n :=
  fds.foldl (fun w fd => w.setFds (w.fds.close fd file)) w

/-- `handle_handoff_fd(conn_fd)` on a registered connection. -/
def handle_handoff_fd (env : WorkerEnv F S n) (conn_fd : Fd) (h : HandoffObj n)
    (o : EventCalls S) : Worker F S n :=
  let file := w.fds.next
  let w := (w.setFds (w.fds.use conn_fd h.file)).received h.core o.recv
  let r := handoff_recv_nb h.core o.recv
  let h' : HandoffObj n := { h with
    core := r.1.1
    client_file := if h.core.client_fd.isSome then h.client_file else file }
  let w := (w.setHandoff conn_fd (some h')).closeAll file r.2
  if r.1.2 = 0 then w
  else if r.1.2 = 1 then
    match h'.core.client_fd with
    | none => w.handoff_close conn_fd h.file
    | some client_fd =>
        let payload := env.layout.read h'.core.payload
        let w := w.setHandoff conn_fd (some { h' with core := { h'.core with client_fd := none } })
        (w.handoff_close conn_fd h.file).register_client_fd env client_fd h'.client_file payload
          o.register
  else w.handoff_close conn_fd h.file

/-- One descriptor accepted by `handle_listen_fd`. -/
def handle_accept (o : AcceptCalls) : Worker F S n :=
  let file := w.fds.next
  let w := w.setFds (w.fds.opened o.conn_fd)
  if WORKER_MAX_FDS ≤ o.conn_fd then w.setFds (w.fds.close o.conn_fd file)
  else if o.calloc_ok = false then w.setFds (w.fds.close o.conn_fd file)
  else
    let w := w.setHandoff o.conn_fd (some ⟨HandoffConn.start o.conn_fd, file, 0⟩)
    if o.epoll_add_ok then w.setFds (w.fds.epollAdd o.conn_fd file)
    else (w.setFds (w.fds.use o.conn_fd file)).handoff_close o.conn_fd file

/-! ## §4. The event loop. -/

/-- One reported event, on a descriptor other than the listening one. -/
def handle_event (env : WorkerEnv F S n) (fd : Fd) (rev : EpollFlags) (o : EventCalls S) :
    Worker F S n :=
  if WORKER_MAX_FDS ≤ fd then w
  else
    match w.s_handoffs fd with
    | some h =>
        if rev.epollin then w.handle_handoff_fd env fd h o
        else if rev.epollerr ∨ rev.epollhup then w.handoff_close fd h.file
        else w
    | none =>
        match w.s_sessions fd with
        | none =>
            let file := (w.fds.files fd).getD 0
            let w := w.setFds (w.fds.epollDel fd file)
            w.setFds (w.fds.close fd file)
        | some a =>
            match w.heap a with
            | none => { w with badFrees := w.badFrees + 1 }
            | some s =>
                if rev.epollerr then w.session_close a
                else if rev.epollin ∨ rev.epollout then w.advance env a s fd o
                else if rev.epollhup then w.session_close a
                else w

/-- What the environment promises of the calls made for one event: a receive brings at
most one descriptor, in a well-formed control message and with bytes; numbers and
addresses handed out are not in use. -/
structure EventOk (o : EventCalls S) : Prop where
  recv : ∀ bytes ctrunc c, o.recv = .ret (.data bytes ctrunc (some c)) →
    ∃ fd, c = ⟨true, [fd]⟩ ∧ bytes ≠ [] ∧ ctrunc = false ∧ w.fds.files fd = none
  calloc : ∀ a, o.register.calloc = some a → w.heap a = none
  socket : ∀ fd, o.relay.socket = some fd → w.fds.files fd = none

end Worker

/-- The steps of the process. -/
inductive WorkerLabel (S : Type*) where
  | wait (events : List (Fd × EpollFlags))
  | listen
  | accept (o : AcceptCalls)
  | accepted
  | event (fd : Fd) (rev : EpollFlags) (o : EventCalls S)

inductive Worker.Step (env : WorkerEnv F S n) :
    Worker F S n → WorkerLabel S → Worker F S n → Prop where
  /-- `epoll_wait` reports registered descriptors, each once. -/
  | wait {w : Worker F S n} (events : List (Fd × EpollFlags)) :
      w.accepting = false → w.batch = [] → (events.map Prod.fst).Nodup →
      (∀ e ∈ events, w.fds.epoll e.1 = true) →
      Step env w (.wait events) { w with batch := events }
  | listen {w : Worker F S n} {rev : EpollFlags} {rest : List (Fd × EpollFlags)} :
      w.accepting = false → w.batch = (w.listen_fd, rev) :: rest →
      Step env w .listen { w with batch := rest, accepting := true }
  /-- `accept4` returns a descriptor … -/
  | accept {w : Worker F S n} (o : AcceptCalls) :
      w.accepting = true → w.fds.files o.conn_fd = none →
      Step env w (.accept o) (w.handle_accept o)
  /-- … or fails, which ends the loop. -/
  | accepted {w : Worker F S n} :
      w.accepting = true → Step env w .accepted { w with accepting := false }
  /-- Any other event.  A list of session calls that ends before a return leaves the
  process inside `session_advance`. -/
  | event {w : Worker F S n} {fd : Fd} {rev : EpollFlags} {rest : List (Fd × EpollFlags)}
      (o : EventCalls S) :
      w.accepting = false → w.batch = (fd, rev) :: rest → fd ≠ w.listen_fd → w.EventOk o →
      Step env w (.event fd rev o) (Worker.handle_event { w with batch := rest } env fd rev o)

/-- The process after the set-up in `main`: nothing but the listening descriptor is
registered; other descriptors may be open. -/
structure Worker.Initial (w : Worker F S n) : Prop where
  ok : w.fds.Ok
  faults : w.fds.faults = 0
  listen : w.fds.files w.listen_fd = some w.listen_file
  epoll : ∀ fd, w.fds.epoll fd = true → fd = w.listen_fd
  s_handoffs : ∀ fd, w.s_handoffs fd = none
  s_sessions : ∀ fd, w.s_sessions fd = none
  batch : w.batch = []
  clients : w.clients = []
  badFrees : w.badFrees = 0
  badSends : w.badSends = 0

def workerSystem (env : WorkerEnv F S n) : TransitionSystem (Worker F S n) (WorkerLabel S) where
  init := Worker.Initial
  step := Worker.Step env

end TlsMigration.Bench2
