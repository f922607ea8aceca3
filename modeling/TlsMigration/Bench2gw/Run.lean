/-
  TlsMigration.Bench2gw.Run
  ─────────────────────────
  **THE BENCH2 GATEWAY PROCESS: DESCRIPTORS, OBJECTS AND THE EVENT LOOP**
  (`Run` of server.go, and the `bench2gw_*` calls of bench2gw.c).

  A connection passes from a Go map to a C object, from the object to a
  local variable, and from there to a worker; a relay payload is allocated
  by C and freed by Go.  As in the workers' models, a variable that holds a
  descriptor number or an address also holds the identity of the open or of
  the allocation it came from, and no function decides anything by it.
-/
import TlsMigration.Handoff.Transfer
import TlsMigration.Lib.Custody
import TlsMigration.Lib.Transition
import TlsMigration.Migration.Gateway

namespace TlsMigration.Bench2gw

open TlsMigration.Tlspeek TlsMigration.Bench2 TlsMigration.Handoff TlsMigration.Migration

/-! ## §1. The process. -/

/-- `bench2gw_conn_t`; a descriptor `-1` and a null session are `none`. -/
structure Conn where
  fd : Option Fd
  ssl : Option Live
  state : ConnState
  want_events : Nat
  file : FileId
  /-- where the object is -/
  addr : Nat
  mem : FileId

/-- `relayConn`, the opens behind its two descriptors, and where its payload is. -/
structure Relay (n : Nat) where
  core : RelayConn n
  file : FileId
  client_file : FileId
  addr : Nat
  mem : FileId

def Conn.held (c : Conn) : Option Held := c.fd.map (·, c.file)

section

variable {n : Nat} (r : Relay n)

def Relay.held : Option Held := r.core.fd.map (·, r.file)

def Relay.clientHeld : Option Held := r.core.clientFD.map (·, r.client_file)

/-- The payload, while it is there. -/
def Relay.memHeld : Option Held := if r.core.payload.isSome then some (r.addr, r.mem) else none

end

/-- The bits of an event that are registered, reported or looked at. -/
structure EpollFlags where
  epollin : Bool
  epollout : Bool
  rdhup : Bool
  err : Bool
  hup : Bool
  deriving DecidableEq

/-- What may be reported for a mask: something, and nothing else but EPOLLERR and EPOLLHUP. -/
def EpollFlags.Reports (mask flags : EpollFlags) : Prop :=
  (flags.epollin = true → mask.epollin = true) ∧ (flags.epollout = true → mask.epollout = true)
    ∧ (flags.rdhup = true → mask.rdhup = true)
    ∧ (flags.epollin || flags.epollout || flags.rdhup || flags.err || flags.hup) = true

instance (mask flags : EpollFlags) : Decidable (mask.Reports flags) :=
  inferInstanceAs (Decidable (_ ∧ _ ∧ _ ∧ _))

/-- `EPOLLIN | EPOLLRDHUP` -/
def relayEvents : EpollFlags := ⟨true, false, true, false, false⟩

/-- `clientEvents` -/
def clientEvents (conn : Conn) : EpollFlags :=
  if conn.want_events = 2 then ⟨false, true, true, false, false⟩
  else ⟨true, false, true, false, false⟩

/-- The accept loop that is running. -/
inductive Accepting where
  | none
  | clients
  | relays
  deriving DecidableEq

structure Gateway (n : Nat) where
  fds : FdTable
  /-- the C heap: a number is an address, an open an allocation -/
  heap : FdTable
  pending : Fd → Option Conn
  relayConns : Fd → Option (Relay n)
  listenFD : Fd
  listen_file : FileId
  relayFD : Fd
  relay_file : FileId
  /-- the opens and the allocations from these on are made by the event loop -/
  first : FileId
  heap_first : FileId
  /-- what a registered number is registered for -/
  mask : Fd → EpollFlags
  /-- the reported events not handled yet -/
  batch : List (Fd × EpollFlags)
  accepting : Accepting
  /-- the connections accepted, and those received over the relay -/
  clients : List FileId

/-- What the calls of `dispatchToFunction` return; `socket` depends on what is open when it
is called. -/
structure DispatchCalls where
  socket : FdTable → Option Fd
  connect_ok : Bool
  /-- `sendmsg` succeeded -/
  sent : Bool

def DispatchCalls.connect (o : DispatchCalls) (t : FdTable) : ConnectCalls :=
  ⟨o.socket t, o.connect_ok⟩

/-- What the calls made for one event on a connection return. -/
structure EventCalls (β : Type*) where
  recv : NbRecv
  step : GwCalls β
  peek_buf_sz : Nat
  epoll_mod_ok : Bool
  dispatch : DispatchCalls

/-- `bench2gw_accept_start` and what follows it, once `accept4` has returned. -/
structure AcceptCalls where
  client_fd : Fd
  calloc : Option Nat
  wolfSSL_new : Option Live
  epoll_add_ok : Bool

/-- One turn of the relay's accept loop, once `Accept4` has returned. -/
structure AcceptRelayCalls (n : Nat) where
  connFD : Fd
  /-- the address, and what the memory holds -/
  malloc : Option (Nat × Area n)
  epoll_add_ok : Bool

variable {β S : Type*} {n : Nat}

namespace Gateway

variable (g : Gateway n)

def setFds (fds : FdTable) : Gateway n := { g with fds := fds }

def setPending (fd : Fd) (conn : Option Conn) : Gateway n :=
  { g with pending := Function.update g.pending fd conn }

def setRelay (fd : Fd) (r : Option (Relay n)) : Gateway n :=
  { g with relayConns := Function.update g.relayConns fd r }

def setMask (fd : Fd) (events : EpollFlags) : Gateway n :=
  { g with mask := Function.update g.mask fd events }

/-- `C.free` -/
def free (addr : Nat) (mem : FileId) : Gateway n := { g with heap := g.heap.close addr mem }

def closeFd (fd : Option Held) : Gateway n := g.setFds (g.fds.closeOpt fd)

/-! ## §2. Connections. -/

/-- `bench2gw_conn_step`; nothing in it opens, closes or gives away a descriptor. -/
def bench2gw_conn_step (conn : Conn) (c : GwCalls β) (peek_buf_sz : Nat) :
    Conn × Int × Option (Payload (TlspeekSerial β) × Bytes) :=
  match conn.fd, conn.ssl with
  | some fd, some ssl =>
      let r := Migration.bench2gw_conn_step ⟨fd, ssl, conn.state, conn.want_events⟩ c peek_buf_sz
      ({ conn with
          -- a session that has been peeked is freed
          ssl := if r.2.1 = 1 then none else some r.1.ssl
          state := r.1.state
          want_events := r.1.want_events }, r.2)
  | _, _ => (conn, -1, none)

/-- `bench2gw_conn_take_fd`. -/
def bench2gw_conn_take_fd (conn : Conn) : Option Held × Conn :=
  (conn.held, { conn with fd := none })

/-- `bench2gw_conn_free`. -/
def bench2gw_conn_free (conn : Conn) : Gateway n :=
  (g.closeFd conn.held).free conn.addr conn.mem

/-- `closePending`. -/
def closePending (fd : Fd) : Gateway n :=
  match g.pending fd with
  | none => g
  | some conn => ((g.setFds (g.fds.epollDel fd conn.file)).bench2gw_conn_free conn).setPending fd none

/-- `bench2gw_send_fd`: the table, and the return value.  `args_ok` is false for a null pointer
or an empty payload. -/
def bench2gw_send_fd (t : FdTable) (client_fd : Fd) (file : FileId) (args_ok : Bool)
    (o : DispatchCalls) : FdTable × Int :=
  if args_ok = false then (t.close client_fd file, -1)
  else
    match unix_client_connect t (o.connect t) with
    | (t, none) => (t.close client_fd file, -1)
    | (t, some uds_fd) =>
        let r := transferFd t uds_fd client_fd file o.sent
        let t := r.1.close uds_fd.1 uds_fd.2
        if r.2 ≠ 0 then (t.close client_fd file, -1) else (t, 0)

/-- `dispatchToFunction`, whose result is only logged; what it passes is a string, a struct and
the size of the struct. -/
def dispatchToFunction (client : Held) (o : DispatchCalls) : Gateway n :=
  g.setFds (bench2gw_send_fd g.fds client.1 client.2 true o).1

/-- The name that a peeked connection is dispatched by. -/
def functionName (out : Option (Payload (TlspeekSerial β) × Bytes)) : Option Bytes :=
  match out with
  | none => none
  | some (payload, peeked) =>
      if payload.target ≠ [] then some payload.target else parseFunctionName peeked

/-- An event on a pending connection. -/
def handle_pending (fd : Fd) (conn : Conn) (flags : EpollFlags) (o : EventCalls β) : Gateway n :=
  if flags.err ∨ flags.hup ∨ flags.rdhup then g.closePending fd
  else
    let g := g.setFds (g.fds.use fd conn.file)
    let (conn, rc, out) := bench2gw_conn_step conn o.step o.peek_buf_sz
    let g := g.setPending fd (some conn)
    if rc = 0 then if o.epoll_mod_ok then g.setMask fd (clientEvents conn) else g
    else if rc < 0 then g.closePending fd
    else
      let g := (g.setFds (g.fds.epollDel fd conn.file)).setPending fd none
      let (client, conn) := bench2gw_conn_take_fd conn
      let g := g.bench2gw_conn_free conn
      match client with
      | none => g
      | some client =>
          match functionName out with
          | none => g.closeFd (some client)
          | some _ => g.dispatchToFunction client o.dispatch

/-! ## §3. Relay connections. -/

/-- `relayConn.close`. -/
def relayClose (r : Relay n) : Gateway n :=
  let g := (g.closeFd r.held).closeFd r.clientHeld
  if r.core.payload.isSome then g.free r.addr r.mem else g

/-- `closeRelayConn`. -/
def closeRelayConn (fd : Fd) : Gateway n :=
  match g.relayConns fd with
  | none => g
  | some r => ((g.setFds (g.fds.epollDel fd r.file)).relayClose r).setRelay fd none

/-- The descriptors that a `Recvmsg` has installed. -/
def installed (t : FdTable) : NbRecv → FdTable × List Held
  | .ret (.data _ _ (some c)) => installAll t c.fds
  | _ => (t, [])

/-- `relayConn.recv` comes to its `Recvmsg`. -/
def receives (r : RelayConn n) : Bool := r.fd.isSome && r.payload.isSome && decide (r.off < n)

/-- `relayConn.recv` on a connection of the map: what it returns, and the connection. -/
def relayRecv (fd : Fd) (r : Relay n) (answer : NbRecv) :
    Gateway n × Relay n × Except RelayError Bool :=
  let (t, fds) := if receives r.core then installed (g.fds.use fd r.file) answer else (g.fds, [])
  let ((core, result), closed) := r.core.recv answer
  -- a second descriptor is closed, the first one is kept
  let t := (fds.filter fun p => closed.contains p.1).foldl (fun t p => t.close p.1 p.2) t
  let client_file := ((fds.find? fun p => core.clientFD = some p.1).map Prod.snd).getD r.client_file
  let r := { r with core := core, client_file := client_file }
  ({ (g.setFds t).setRelay fd (some r) with clients := g.clients ++ fds.map Prod.snd }, r, result)

/-- A relay connection that has brought a payload and a descriptor; the serialised session in
it is not looked at. -/
def relayDone (layout : Layout S n) (fd : Fd) (r : Relay n) (o : DispatchCalls) :
    Gateway n :=
  let g := g.setRelay fd (some { r with core := { r.core with clientFD := none, payload := none } })
  let g := g.closeRelayConn fd
  match r.core.clientFD, r.core.payload with
  | some clientFD, some relayPayload =>
      if (layout.read relayPayload).target = [] then
        (g.closeFd (some (clientFD, r.client_file))).free r.addr r.mem
      else (g.dispatchToFunction (clientFD, r.client_file) o).free r.addr r.mem
  | _, _ => g

/-! ## §4. The event loop. -/

/-- A number that no map has. -/
def closeUnknown (fd : Fd) : Gateway n :=
  let file := (g.fds.files fd).getD 0
  g.setFds ((g.fds.epollDel fd file).close fd file)

/-- The end of the loop body: the pending connections. -/
def handle_client (fd : Fd) (flags : EpollFlags) (o : EventCalls β) : Gateway n :=
  match g.pending fd with
  | none => g.closeUnknown fd
  | some conn => g.handle_pending fd conn flags o

/-- One reported event, on a descriptor other than the two listening ones. -/
def handle_event (layout : Layout S n) (fd : Fd) (flags : EpollFlags)
    (o : EventCalls β) : Gateway n :=
  match g.relayConns fd with
  | none => g.handle_client fd flags o
  | some r =>
      if flags.err then g.closeRelayConn fd
      else if flags.epollin then
        match g.relayRecv fd r o.recv with
        | (g, _, .error _) => g.closeRelayConn fd
        | (g, _, .ok false) => g
        | (g, r, .ok true) => g.relayDone layout fd r o.dispatch
      else if flags.hup ∨ flags.rdhup then g.closeRelayConn fd
      else g.handle_client fd flags o

/-- `bench2gw_accept_start`, once `accept4` has returned, and the turn of the loop around it. -/
def handle_accept (o : AcceptCalls) : Gateway n :=
  let file := g.fds.next
  let g := { g.setFds (g.fds.opened o.client_fd) with clients := g.clients ++ [file] }
  match o.calloc with
  | none => { g.closeFd (some (o.client_fd, file)) with accepting := .none }
  | some addr =>
      let mem := g.heap.next
      let g := { g with heap := g.heap.opened addr }
      let conn : Conn := ⟨some o.client_fd, o.wolfSSL_new, .handshake, 1, file, addr, mem⟩
      if o.wolfSSL_new.isNone then { g.bench2gw_conn_free conn with accepting := .none }
      else if o.epoll_add_ok then
        ((g.setFds (g.fds.epollAdd o.client_fd file)).setMask o.client_fd
          (clientEvents conn)).setPending o.client_fd (some conn)
      else g.bench2gw_conn_free conn

/-- One turn of the relay's accept loop, once `Accept4` has returned. -/
def handle_accept_relay (o : AcceptRelayCalls n) : Gateway n :=
  let file := g.fds.next
  let g := g.setFds (g.fds.opened o.connFD)
  match o.malloc with
  | none => g.closeFd (some (o.connFD, file))
  | some (addr, malloced) =>
      let mem := g.heap.next
      let g := { g with heap := g.heap.opened addr }
      let r : Relay n := ⟨RelayConn.start o.connFD malloced, file, 0, addr, mem⟩
      if o.epoll_add_ok then
        ((g.setFds (g.fds.epollAdd o.connFD file)).setMask o.connFD relayEvents).setRelay o.connFD
          (some r)
      else g.relayClose r

/-- What the environment promises of the calls made for one event: a message brings one
descriptor at most, in a control message that parses, with bytes, and numbers handed out are
not in use. -/
structure EventOk (o : EventCalls β) : Prop where
  recv : ∀ bytes ctrunc c, o.recv = .ret (.data bytes ctrunc (some c)) → ∀ fd ∈ c.fds,
    c = ⟨true, [fd]⟩ ∧ bytes ≠ [] ∧ ctrunc = false ∧ g.fds.files fd = none
  socket : ∀ t fd, o.dispatch.socket t = some fd → t.files fd = none

end Gateway

/-- The steps of the process. -/
inductive GatewayLabel (β : Type*) (n : Nat) where
  | wait (events : List (Fd × EpollFlags))
  | listen (which : Accepting)
  | accept (o : AcceptCalls)
  | acceptRelay (o : AcceptRelayCalls n)
  | accepted
  | event (fd : Fd) (flags : EpollFlags) (o : EventCalls β)

inductive Gateway.Step (layout : Layout S n) :
    Gateway n → GatewayLabel β n → Gateway n → Prop where
  /-- `EpollWait` reports registered descriptors, each once, with what they are registered for. -/
  | wait {g : Gateway n} (events : List (Fd × EpollFlags)) :
      g.accepting = .none → g.batch = [] → (events.map Prod.fst).Nodup →
      (∀ e ∈ events, g.fds.epoll e.1 = true ∧ (g.mask e.1).Reports e.2) →
      Step layout g (.wait events) { g with batch := events }
  | listen {g : Gateway n} {flags : EpollFlags} {rest : List (Fd × EpollFlags)} :
      g.accepting = .none → g.batch = (g.listenFD, flags) :: rest →
      Step layout g (.listen .clients) { g with batch := rest, accepting := .clients }
  | listenRelay {g : Gateway n} {flags : EpollFlags} {rest : List (Fd × EpollFlags)} :
      g.accepting = .none → g.batch = (g.relayFD, flags) :: rest → g.relayFD ≠ g.listenFD →
      Step layout g (.listen .relays) { g with batch := rest, accepting := .relays }
  /-- `accept4` returns a descriptor … -/
  | accept {g : Gateway n} (o : AcceptCalls) :
      g.accepting = .clients → g.fds.files o.client_fd = none →
      (∀ addr, o.calloc = some addr → g.heap.files addr = none) →
      Step layout g (.accept o) (g.handle_accept o)
  | acceptRelay {g : Gateway n} (o : AcceptRelayCalls n) :
      g.accepting = .relays → g.fds.files o.connFD = none →
      (∀ addr malloced, o.malloc = some (addr, malloced) → g.heap.files addr = none) →
      Step layout g (.acceptRelay o) (g.handle_accept_relay o)
  /-- … or fails, which ends the loop. -/
  | accepted {g : Gateway n} : g.accepting ≠ .none →
      Step layout g .accepted { g with accepting := .none }
  | event {g : Gateway n} {fd : Fd} {flags : EpollFlags} {rest : List (Fd × EpollFlags)}
      (o : EventCalls β) :
      g.accepting = .none → g.batch = (fd, flags) :: rest → fd ≠ g.listenFD → fd ≠ g.relayFD →
      g.EventOk o →
      Step layout g (.event fd flags o) (Gateway.handle_event { g with batch := rest } layout fd flags o)

/-- The process when the loop begins: nothing but the two listening descriptors is
registered; other descriptors may be open, and other objects allocated. -/
structure Gateway.Initial (g : Gateway n) : Prop where
  ok : g.fds.Ok
  faults : g.fds.faults = 0
  sends : ∀ id, g.fds.sends id = 0
  first : g.first = g.fds.next
  listen : g.fds.files g.listenFD = some g.listen_file
  relay : g.fds.files g.relayFD = some g.relay_file
  apart : g.relayFD ≠ g.listenFD
  epoll : ∀ fd, g.fds.epoll fd = true → fd = g.listenFD ∨ fd = g.relayFD
  heap_ok : g.heap.Ok
  heap_faults : g.heap.faults = 0
  heap_sends : ∀ id, g.heap.sends id = 0
  heap_epoll : ∀ addr, g.heap.epoll addr = false
  heap_first : g.heap_first = g.heap.next
  pending : ∀ fd, g.pending fd = none
  relayConns : ∀ fd, g.relayConns fd = none
  batch : g.batch = []
  accepting : g.accepting = .none
  clients : g.clients = []

def gatewaySystem (β : Type*) (layout : Layout S n) :
    TransitionSystem (Gateway n) (GatewayLabel β n) where
  init := Gateway.Initial
  step := Gateway.Step layout

end TlsMigration.Bench2gw
