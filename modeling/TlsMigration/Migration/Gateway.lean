/-
  TlsMigration.Migration.Gateway
  ──────────────────────────────
  **THE BENCH2 GATEWAY: FIRST PEEK, RELAY, DISPATCH** (bench2gw.c, server.go,
  config.go of micro-bench-max-throughput).

  The gateway looks at a connection twice: after the handshake it peeks at
  the first request and sends the descriptor to the worker of the function
  named there, and for a descriptor that comes back on the relay socket it
  does the same with the name in the struct.

    • `connPeek_names` — a first record that shows its function is dispatched
      to it, with the session exported as it is.
-/
import TlsMigration.Handoff.Reassembly
import TlsMigration.Http.GoDispatch
import TlsMigration.Migration.Live

namespace TlsMigration.Migration

open TlsMigration.Tlspeek TlsMigration.Bench2 TlsMigration.Handoff TlsMigration.Http

/-! ## §1. The first peek. -/

/-- `bench2gw_conn_state_t`. -/
inductive ConnState where
  | handshake
  | peek
  | done
  deriving DecidableEq

/-- `bench2gw_conn_t`; `want_events` is 1 for POLLIN and 2 for POLLOUT. -/
structure GwConn where
  fd : Fd
  ssl : Live
  state : ConnState
  want_events : Nat

/-- How `wolfSSL_accept` ends. -/
inductive Accept where
  | success
  | want_read
  | want_write
  | error
  deriving DecidableEq

/-- What the calls of one `bench2gw_conn_step` return. -/
structure GwCalls (β : Type*) where
  accept : Accept
  /-- `peek_ctx.keys_ready` once `wolfSSL_accept` has returned -/
  keys_ready : Bool
  /-- `tls_record_ready` -/
  ready : Int
  /-- `export_live_serial` -/
  serial : Option (TlspeekSerial β)
  /-- a context restored from this session, and `tls_read_peek` with a buffer of this size -/
  peek : TlspeekSerial β → Nat → Option Bytes

/-- The windows of `progressive_peek_owner`: `want` doubled up to `peek_buf_sz`. -/
def windows (peek_buf_sz : Nat) : Nat → Nat → List Nat
  | 0, _ => []
  | fuel + 1, want =>
      want :: if peek_buf_sz ≤ want then [] else windows peek_buf_sz fuel (min (want * 2) peek_buf_sz)

/-- The loop of `progressive_peek_owner`: the owner, and what the peek that showed it
left in the buffer. -/
def progressiveLoop (peek : Nat → Option Bytes) : List Nat → Option (Bytes × Bytes)
  | [] => none
  | want :: wants =>
      match peek want with
      | none => none
      | some peeked =>
          if peeked = [] then none
          else
            match parse_request_owner peeked BENCH2_KA_TARGET_LEN with
            | some owner => some (owner, peeked)
            | none => progressiveLoop peek wants

def progressive_peek_owner (peek : Nat → Option Bytes) (peek_buf_sz : Nat) :
    Option (Bytes × Bytes) :=
  progressiveLoop peek (windows peek_buf_sz peek_buf_sz (min 256 peek_buf_sz))

variable {β : Type*} {n : Nat}

/-- `BENCH2GW_CONN_PEEK` in `bench2gw_conn_step`: the connection, the return value, and
`payload_out` with the peeked bytes. -/
def connPeek (conn : GwConn) (c : GwCalls β) (peek_buf_sz : Nat) :
    GwConn × Int × Option (Payload (TlspeekSerial β) × Bytes) :=
  if c.ready ≤ 0 then ({ conn with want_events := 1 }, c.ready, none)
  else
    match c.serial with
    | none => (conn, -1, none)
    | some serial =>
        match progressive_peek_owner (c.peek serial) peek_buf_sz with
        | none => (conn, -1, none)
        | some (owner, peeked) =>
            ({ conn with state := .done }, 1,
              some ({ magic := BENCH2_KA_MAGIC
                      version := BENCH2_KA_VERSION
                      serial := serial
                      target_function := Area.ofBytes _ owner }, peeked))

/-- `bench2gw_conn_step`. -/
def bench2gw_conn_step (conn : GwConn) (c : GwCalls β) (peek_buf_sz : Nat) :
    GwConn × Int × Option (Payload (TlspeekSerial β) × Bytes) :=
  if peek_buf_sz = 0 then (conn, -1, none)
  else
    match conn.state with
    | .handshake =>
        match c.accept with
        | .want_read => ({ conn with want_events := 1 }, 0, none)
        | .want_write => ({ conn with want_events := 2 }, 0, none)
        | .error => (conn, -1, none)
        | .success =>
            if c.keys_ready = false then (conn, -1, none)
            else connPeek { conn with state := .peek, want_events := 1 } c peek_buf_sz
    | .peek => connPeek conn c peek_buf_sz
    -- the session has been freed
    | .done => (conn, -1, none)

/-! ## §2. Dispatch. -/

/-- `parseFunctionName` of config.go, the fallback for an empty target. -/
def parseFunctionName (peek : Bytes) : Option Bytes :=
  let line := requestLine peek
  (memchr Ch.space line).bind fun sp1 =>
    let rest := line.drop (sp1 + 1)
    let path := rest.take ((memchr Ch.space rest).getD rest.length)
    if path.take functionPath.length ≠ functionPath then none
    else
      let name := [Ch.slash, Ch.question, Ch.hash].foldl
        (fun name sep => name.take ((memchr sep name).getD name.length))
        (path.drop functionPath.length)
      if name = [] then none else some name

/-- `setPayloadTarget`. -/
def setPayloadTarget (payload : Payload (TlspeekSerial β)) (target : Bytes) :
    Payload (TlspeekSerial β) :=
  { payload with target_function := Area.ofBytes _ target }

/-- `sun_path` as `unix_server_socket` and `unix_client_connect` fill it:
`strncpy` of 107 bytes. -/
def sunPath (path : Bytes) : Bytes := (cstr path).take 107

/-- What the event loop makes of an event on a connection. -/
inductive EventResult (α : Type*) (n : Nat) where
  | waiting (conn : α)
  | closed
  /-- `bench2gw_send_fd` to this address -/
  | dispatched (address : Bytes) (payload : Area n)

/-- The event loop of `Run` on a client connection. -/
def handle_client (layout : Layout (TlspeekSerial β) n) (socketDir : Bytes) (conn : GwConn)
    (c : GwCalls β) (peek_buf_sz : Nat) : EventResult GwConn n :=
  match bench2gw_conn_step conn c peek_buf_sz with
  | (conn, rc, out) =>
      if rc = 0 then .waiting conn
      else if rc < 0 then .closed
      else
        match out with
        | none => .closed
        | some (payload, peeked) =>
            if payload.target ≠ [] then
              .dispatched (sunPath (sockPath socketDir payload.target)) (layout.bytes payload)
            else
              match parseFunctionName peeked with
              | none => .closed
              | some fnName =>
                  .dispatched (sunPath (sockPath socketDir fnName))
                    (layout.bytes (setPayloadTarget payload fnName))

/-- The event loop of `Run` on a relay connection. -/
def handle_relay (layout : Layout (TlspeekSerial β) n) (socketDir : Bytes) (r : RelayConn n)
    (answer : NbRecv) : EventResult (RelayConn n) n :=
  match r.recv answer with
  | ((_, .error _), _) => .closed
  | ((r, .ok false), _) => .waiting r
  | ((r, .ok true), _) =>
      match r.payload with
      | none => .closed
      | some relayPayload =>
          let fnName := (layout.read relayPayload).target
          if fnName = [] then .closed
          else .dispatched (sunPath (sockPath socketDir fnName)) relayPayload

/-! ## §3. The first peek finds the function. -/

/-- The windows grow from the first one to the size of the buffer. -/
theorem windows_spec {size : Nat} : ∀ fuel want : Nat, 0 < want → want ≤ size →
    size < fuel + want →
    (∀ w ∈ windows size fuel want, 0 < w ∧ w ≤ size)
      ∧ (windows size fuel want).getLast? = some size := by
  intro fuel
  induction fuel with
  | zero =>
      intro want _ hle hfuel
      omega
  | succ fuel ih =>
      intro want hpos hle hfuel
      unfold windows
      by_cases hend : size ≤ want
      · have e : want = size := by omega
        subst e
        rw [if_pos (Nat.le_refl want)]
        exact ⟨by simp [hpos], rfl⟩
      · rw [if_neg hend]
        obtain ⟨hall, hlast⟩ := ih (min (want * 2) size) (by omega) (by omega) (by omega)
        refine ⟨?_, ?_⟩
        · intro w hw
          rcases List.mem_cons.mp hw with e | hw
          · subst e
            exact ⟨hpos, hle⟩
          · exact hall w hw
        · rw [List.getLast?_cons, hlast]
          rfl

/-- The gateway's loop and the workers' find the same owner. -/
theorem progressiveLoop_owner (peek : Nat → Option Bytes) (wants : List Nat) :
    (progressiveLoop peek wants).map (fun found => cstr found.1) = peekOwnerLoop peek wants := by
  induction wants with
  | nil => rfl
  | cons want wants ih =>
      unfold progressiveLoop peekOwnerLoop
      cases peek want with
      | none => rfl
      | some peeked =>
          dsimp only
          split
          · rfl
          · cases parse_request_owner peeked BENCH2_KA_TARGET_LEN with
            | none => exact ih
            | some owner => rfl

/-- An owner that is found fits its field. -/
theorem progressiveLoop_fits {peek : Nat → Option Bytes} {wants : List Nat} {owner peeked : Bytes}
    (h : progressiveLoop peek wants = some (owner, peeked)) :
    owner.length < BENCH2_KA_TARGET_LEN := by
  induction wants with
  | nil => cases h
  | cons want wants ih =>
      unfold progressiveLoop at h
      split at h
      next => cases h
      next b _ =>
        split at h
        next => cases h
        next =>
          split at h
          next name hname =>
            injection h with h
            injection h with h
            subst h
            exact (parse_request_owner_iff.mp hname).2
          next => exact ih h

/-- **A first record that shows its function** is dispatched to it: the peek succeeds, and
the struct holds the session as exported and the function's name. -/
theorem connPeek_names (conn : GwConn) {c : GwCalls β} {serial : TlspeekSerial β} {r : Record}
    {name : Bytes} {peek_buf_sz : Nat} (hsize : 0 < peek_buf_sz) (hready : c.ready = 1)
    (hserial : c.serial = some serial)
    (hpeek : ∀ want, 0 < want → c.peek serial want = some (r.peeked.take want))
    (hlen : name.length ≤ 127) (hnul : Ch.nul ∉ name)
    (hnames : NamesFunction (requestLine (r.content.take peek_buf_sz)) name) :
    ∃ payload peeked, connPeek conn c peek_buf_sz = ({ conn with state := .done }, 1,
        some (payload, peeked))
      ∧ payload.magic = BENCH2_KA_MAGIC ∧ payload.version = BENCH2_KA_VERSION
      ∧ payload.serial = serial ∧ payload.target = name := by
  have hlt : name.length < BENCH2_KA_TARGET_LEN := by
    unfold BENCH2_KA_TARGET_LEN
    omega
  obtain ⟨hall, hlast⟩ := windows_spec peek_buf_sz (min 256 peek_buf_sz) (by omega)
    (by omega : min 256 peek_buf_sz ≤ peek_buf_sz) (by omega)
  have hfound := peekOwnerLoop_names hpeek hlt hnames _ hall hlast
  rw [← progressiveLoop_owner, cstr_of_no_nul hnul] at hfound
  obtain ⟨⟨owner, peeked⟩, hloop, howner⟩ := Option.map_eq_some_iff.mp hfound
  have hloop' : progressive_peek_owner (c.peek serial) peek_buf_sz = some (owner, peeked) := hloop
  unfold connPeek
  rw [hready, if_neg (by decide), hserial]
  dsimp only
  rw [hloop']
  refine ⟨_, peeked, rfl, rfl, rfl, rfl, ?_⟩
  show cstr (Area.ofBytes _ owner).bytes = name
  rw [cstr_ofBytes (progressiveLoop_fits hloop)]
  exact howner

end TlsMigration.Migration
