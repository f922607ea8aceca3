/-
  TlsMigration.Bench2gw.Ownership
  ───────────────────────────────
  **WHO OWNS A DESCRIPTOR, AND WHO FREES AN OBJECT, IN THE BENCH2 GATEWAY.**

  The places of a descriptor are the two listening variables, the entries of
  the two maps, the `clientFD` of a relay connection, and the variable of the
  code that is running; the places of an object are the entries and a
  variable.  What moves from place to place is always one descriptor or one
  object, so that each function is a sequence of a few moves, and each move
  keeps `Custody`.

    • `Inv.take_pending`, `Inv.put_pending`, … — the moves;
    • `Inv.handle_pending`, `Inv.relayRecv`, `Inv.relayDone`,
      `Inv.handle_accept`, `Inv.handle_accept_relay` — the functions.
-/
import TlsMigration.Bench2gw.Run

namespace TlsMigration.Bench2gw.Gateway

open TlsMigration.Tlspeek TlsMigration.Bench2 TlsMigration.Handoff TlsMigration.Migration

/-! ## §1. The places. -/

/-- Where the gateway keeps a descriptor. -/
inductive FdSlot where
  | listen
  | relayListen
  | pending (fd : Fd)
  | relay (fd : Fd)
  | relayClient (fd : Fd)
  | hand
  deriving DecidableEq

/-- Where the gateway keeps a C object of the event loop. -/
inductive MemSlot where
  | conn (fd : Fd)
  | payload (fd : Fd)
  | hand
  deriving DecidableEq

variable {β S : Type*} {n : Nat} (g : Gateway n)

def fdSlots (loc : Option Held) : Holding FdSlot
  | .listen => some (g.listenFD, g.listen_file)
  | .relayListen => some (g.relayFD, g.relay_file)
  | .pending fd => (g.pending fd).bind Conn.held
  | .relay fd => (g.relayConns fd).bind Relay.held
  | .relayClient fd => (g.relayConns fd).bind Relay.clientHeld
  | .hand => loc

def memSlots (mloc : Option Held) : Holding MemSlot
  | .conn fd => (g.pending fd).map fun c => (c.addr, c.mem)
  | .payload fd => (g.relayConns fd).bind Relay.memHeld
  | .hand => mloc

def places : Places FdSlot where
  first := g.first
  registers
    | .relayClient _ => False
    | .hand => False
    | _ => True
  admits
    | .listen, id => id < g.first
    | .relayListen, id => id < g.first
    | .pending _, id => id ∈ g.clients
    | .relay _, id => id ∉ g.clients
    | .relayClient _, id => id ∈ g.clients
    | .hand, _ => True
  sendable id := id ∈ g.clients

def memPlaces : Places MemSlot where
  first := g.heap_first
  registers _ := False
  admits _ _ := True
  sendable _ := False

/-- **The invariant**, while the running code has `loc` and `mloc` in its variables. -/
structure Inv (loc mloc : Option Held) : Prop where
  fds : Custody g.places g.fds (g.fdSlots loc)
  heap : Custody g.memPlaces g.heap (g.memSlots mloc)
  conn : ∀ fd c, g.pending fd = some c → c.fd = some fd
  relay : ∀ fd r, g.relayConns fd = some r → r.core.fd = some fd
  mask : ∀ fd r, g.relayConns fd = some r → g.mask fd = relayEvents
  received : ∀ id ∈ g.clients, g.first ≤ id ∧ id < g.fds.next

variable {g} {g₁ g₂ : Gateway n} {fd : Fd} {loc loc' mloc mloc' : Option Held}

/-! What a change of the maps or of the variables does to the places. -/

theorem fdSlots_hand {l : Option Held} (k : FdSlot) :
    g.fdSlots loc k = Function.update (g.fdSlots l) .hand loc k := by
  cases k <;> rfl

theorem memSlots_hand {l : Option Held} (k : MemSlot) :
    g.memSlots mloc k = Function.update (g.memSlots l) .hand mloc k := by
  cases k <;> rfl

theorem fdSlots_setPending (o : Option Conn) (k : FdSlot) :
    (g.setPending fd o).fdSlots loc k
      = Function.update (g.fdSlots loc) (.pending fd) (o.bind Conn.held) k := by
  cases k with
  | pending fd' =>
      by_cases e : fd' = fd
      · subst e
        simp [fdSlots, setPending]
      · simp [fdSlots, setPending, e]
  | listen => rfl
  | relayListen => rfl
  | relay fd' => rfl
  | relayClient fd' => rfl
  | hand => rfl

theorem memSlots_setPending (o : Option Conn) (k : MemSlot) :
    (g.setPending fd o).memSlots mloc k
      = Function.update (g.memSlots mloc) (.conn fd) (o.map fun c => (c.addr, c.mem)) k := by
  cases k with
  | conn fd' =>
      by_cases e : fd' = fd
      · subst e
        simp [memSlots, setPending]
      · simp [memSlots, setPending, e]
  | payload fd' => rfl
  | hand => rfl

theorem fdSlots_setRelay (o : Option (Relay n)) (k : FdSlot) :
    (g.setRelay fd o).fdSlots loc k
      = Function.update (Function.update (g.fdSlots loc) (.relay fd) (o.bind Relay.held))
          (.relayClient fd) (o.bind Relay.clientHeld) k := by
  cases k with
  | relay fd' =>
      by_cases e : fd' = fd
      · subst e
        simp [fdSlots, setRelay]
      · simp [fdSlots, setRelay, e]
  | relayClient fd' =>
      by_cases e : fd' = fd
      · subst e
        simp [fdSlots, setRelay]
      · simp [fdSlots, setRelay, e]
  | listen => rfl
  | relayListen => rfl
  | pending fd' => rfl
  | hand => rfl

theorem memSlots_setRelay (o : Option (Relay n)) (k : MemSlot) :
    (g.setRelay fd o).memSlots mloc k
      = Function.update (g.memSlots mloc) (.payload fd) (o.bind Relay.memHeld) k := by
  cases k with
  | payload fd' =>
      by_cases e : fd' = fd
      · subst e
        simp [memSlots, setRelay]
      · simp [memSlots, setRelay, e]
  | conn fd' => rfl
  | hand => rfl

/-- What a handler of `fd` leaves alone. -/
structure Frame (fd : Fd) (g g' : Gateway n) : Prop where
  batch : g'.batch = g.batch
  fds : FdTable.Follows fd g.fds g'.fds
  mask : ∀ fd', fd' ≠ fd → g.fds.epoll fd' = true → g'.mask fd' = g.mask fd'

theorem Frame.trans (h : Frame fd g g₁) (h' : Frame fd g₁ g₂) : Frame fd g g₂ where
  batch := h'.batch.trans h.batch
  fds := h.fds.trans h'.fds
  mask := fun fd' hne he => (h'.mask fd' hne (h.fds.epoll fd' hne he)).trans (h.mask fd' hne he)

/-- A function that registers nothing anew. -/
theorem Frame.of_fds (hfds : FdTable.Follows fd g.fds g₁.fds) (hbatch : g₁.batch = g.batch)
    (hmask : g₁.mask = g.mask) : Frame fd g g₁ :=
  ⟨hbatch, hfds, fun _ _ _ => by rw [hmask]⟩

/-! ## §2. The moves. -/

/-- A number that is held. -/
theorem Inv.pending_slot (h : Inv g loc mloc) {c : Conn} (hc : g.pending fd = some c) :
    g.fdSlots loc (.pending fd) = some (fd, c.file) := by
  simp [fdSlots, hc, Conn.held, h.conn fd c hc]

theorem Inv.relay_slot (h : Inv g loc mloc) {r : Relay n} (hr : g.relayConns fd = some r) :
    g.fdSlots loc (.relay fd) = some (fd, r.file) := by
  simp [fdSlots, hr, Relay.held, h.relay fd r hr]

/-- Only the table of descriptors changes. -/
theorem Inv.set_fds (h : Inv g loc mloc) {t : FdTable}
    (hcust : Custody g.places t (g.fdSlots loc')) (hnext : g.fds.next ≤ t.next) :
    Inv (g.setFds t) loc' mloc where
  fds := hcust
  heap := h.heap
  conn := h.conn
  relay := h.relay
  mask := h.mask
  received := fun id hid => ⟨(h.received id hid).1, Nat.lt_of_lt_of_le (h.received id hid).2 hnext⟩

/-- Only the heap changes. -/
theorem Inv.set_heap (h : Inv g loc mloc) {t : FdTable}
    (hcust : Custody g.memPlaces t (g.memSlots mloc')) :
    Inv { g with heap := t } loc mloc' :=
  ⟨h.fds, hcust, h.conn, h.relay, h.mask, h.received⟩

/-- A descriptor is opened into the variable. -/
theorem Inv.open_hand (h : Inv g none mloc) {c : Fd} (hc : g.fds.files c = none) :
    Inv (g.setFds (g.fds.opened c)) (some (c, g.fds.next)) mloc :=
  h.set_fds ((h.fds.opened hc (k := FdSlot.hand) rfl trivial).congr fun k => fdSlots_hand k)
    (Nat.le_succ _)

/-- It is a client's. -/
theorem Inv.note_client {id : FileId} (h : Inv g (some (fd, id)) mloc) (hfirst : g.first ≤ id)
    (hlt : id < g.fds.next) :
    Inv { g with clients := g.clients ++ [id] } (some (fd, id)) mloc := by
  have hloc : g.fdSlots (some (fd, id)) .hand = some (fd, id) := rfl
  refine ⟨?_, h.heap, h.conn, h.relay, h.mask, ?_⟩
  · have hmono : Custody (Gateway.places { g with clients := g.clients ++ [id] }) g.fds
        (g.fdSlots (some (fd, id))) := by
      constructor
      · exact h.fds.ok
      · exact h.fds.no_fault
      · exact h.fds.isOpen
      · exact h.fds.inj
      · exact h.fds.covered
      · exact h.fds.first_le
      · intro k fd' id' hk
        have hadm := h.fds.admitted hk
        cases k with
        | relay fd'' =>
            intro hmem
            rcases List.mem_append.mp hmem with hmem | hmem
            · exact hadm hmem
            · -- the descriptor in the variable is in no other place
              rw [List.mem_singleton.mp hmem] at hk
              exact nomatch h.fds.place_unique hk hloc
        | listen => exact hadm
        | relayListen => exact hadm
        | pending fd'' => exact List.mem_append_left _ hadm
        | relayClient fd'' => exact List.mem_append_left _ hadm
        | hand => trivial
      · intro id' hs
        exact List.mem_append_left _ (h.fds.sent hs)
      · intro fd' he
        obtain ⟨k, id', hr, hk⟩ := h.fds.registered he
        refine ⟨k, id', ?_, hk⟩
        cases k <;> exact hr
    exact hmono.congr fun k => by cases k <;> rfl
  · intro id' hmem
    rcases List.mem_append.mp hmem with hmem | hmem
    · exact h.received id' hmem
    · rw [List.mem_singleton.mp hmem]
      exact ⟨hfirst, hlt⟩

/-- The variable is closed. -/
theorem Inv.close_hand {p : Held} (h : Inv g (some p) mloc) :
    Inv (g.closeFd (some p)) none mloc := by
  have hk : g.fdSlots (some p) .hand = some (p.1, p.2) := rfl
  have hclosed := h.fds.close hk (h.fds.not_registered hk fun hreg => hreg)
  exact h.set_fds (hclosed.congr fun k => fdSlots_hand k) (Nat.le_refl _)

/-- An object is allocated into the variable. -/
theorem Inv.malloc (h : Inv g loc none) {addr : Nat} (haddr : g.heap.files addr = none) :
    Inv { g with heap := g.heap.opened addr } loc (some (addr, g.heap.next)) :=
  h.set_heap ((h.heap.opened haddr (k := .hand) rfl trivial).congr fun k => memSlots_hand k)

/-- The object in the variable is freed. -/
theorem Inv.free_hand {p : Held} (h : Inv g loc (some p)) :
    Inv (g.free p.1 p.2) loc none := by
  have hk : g.memSlots (some p) .hand = some (p.1, p.2) := rfl
  have hclosed := h.heap.close hk (h.heap.not_registered hk fun hreg => hreg)
  exact h.set_heap (hclosed.congr fun k => memSlots_hand k)

theorem pending_of_cleared {c : Conn} {fd' : Fd} (hc : (g.setPending fd none).pending fd' = some c) :
    g.pending fd' = some c := by
  have hc : Function.update g.pending fd none fd' = some c := hc
  by_cases e : fd' = fd
  · subst e
    rw [Function.update_self] at hc
    cases hc
  · rwa [Function.update_of_ne e] at hc

theorem relay_of_cleared {r : Relay n} {fd' : Fd} (hr : (g.setRelay fd none).relayConns fd' = some r) :
    g.relayConns fd' = some r := by
  have hr : Function.update g.relayConns fd none fd' = some r := hr
  by_cases e : fd' = fd
  · subst e
    rw [Function.update_self] at hr
    cases hr
  · rwa [Function.update_of_ne e] at hr

/-- **A pending connection leaves its map**, and epoll. -/
theorem Inv.take_pending (h : Inv g none none) {c : Conn} (hc : g.pending fd = some c) :
    Inv ((g.setFds (g.fds.epollDel fd c.file)).setPending fd none) (some (fd, c.file))
      (some (c.addr, c.mem)) := by
  have hk := h.pending_slot hc
  have hmem : g.memSlots none (.conn fd) = some (c.addr, c.mem) := by simp [memSlots, hc]
  have hdel := h.fds.epollDel hk
  have hfree : g.fdSlots none .hand = none := rfl
  have hmfree : g.memSlots none .hand = none := rfl
  have hmoved := hdel.move hk hfree trivial (fun he => by simp at he)
  have hheap := h.heap.move hmem hmfree trivial
    (fun he => by
      rw [h.heap.not_registered hmem fun hreg => hreg] at he
      cases he)
  refine ⟨hmoved.congr fun k => ?_, hheap.congr fun k => ?_, ?_, h.relay, h.mask, h.received⟩
  · rw [fdSlots_hand (l := none)]
    congr 1
    exact funext fun k => fdSlots_setPending none k
  · rw [memSlots_hand (l := none)]
    congr 1
    exact funext fun k => memSlots_setPending none k
  · exact fun fd' c' hc' => h.conn fd' c' (pending_of_cleared hc')

/-- **A client is registered and goes into the map of pending connections.** -/
theorem Inv.put_pending {id : FileId} (conn : Conn) (h : Inv g (some (fd, id))
    (some (conn.addr, conn.mem))) (hid : id ∈ g.clients) (hfd : conn.fd = some fd)
    (hfile : conn.file = id) (events : EpollFlags) :
    Inv (((g.setFds (g.fds.epollAdd fd id)).setMask fd events).setPending fd (some conn))
      none none := by
  have hk : g.fdSlots (some (fd, id)) .hand = some (fd, id) := rfl
  have hpending : g.pending fd = none := by
    cases hc : g.pending fd with
    | none => rfl
    | some c => exact nomatch h.fds.inj (h.pending_slot hc) hk
  have hrelay : g.relayConns fd = none := by
    cases hr : g.relayConns fd with
    | none => rfl
    | some r => exact nomatch h.fds.inj (h.relay_slot hr) hk
  have hempty : g.fdSlots (some (fd, id)) (.pending fd) = none := by simp [fdSlots, hpending]
  have hmoved := h.fds.move hk hempty hid (fun _ => trivial)
  have hadded := hmoved.epollAdd (k := FdSlot.pending fd) (Function.update_self _ _ _) trivial
  have hmem : g.memSlots (some (conn.addr, conn.mem)) .hand = some (conn.addr, conn.mem) := rfl
  have hempty' : g.memSlots (some (conn.addr, conn.mem)) (.conn fd) = none := by
    simp [memSlots, hpending]
  have hheap := h.heap.move hmem hempty' trivial
    (fun he => by
      rw [h.heap.not_registered hmem fun hreg => hreg] at he
      cases he)
  refine ⟨hadded.congr fun k => ?_, hheap.congr fun k => ?_, ?_, h.relay, ?_, h.received⟩
  · rw [fdSlots_setPending, Option.bind_some, show Conn.held conn = some (fd, id) by
      simp [Conn.held, hfd, hfile]]
    congr 1
    exact funext fun k => fdSlots_hand k
  · rw [memSlots_setPending]
    congr 1
    exact funext fun k => memSlots_hand k
  · intro fd' c hc
    have hc : Function.update g.pending fd (some conn) fd' = some c := hc
    by_cases e : fd' = fd
    · subst e
      rw [Function.update_self] at hc
      cases hc
      exact hfd
    · rw [Function.update_of_ne e] at hc
      exact h.conn fd' c hc
  · intro fd' r hr
    have hold : g.relayConns fd' = some r := hr
    have hne : fd' ≠ fd := by
      rintro rfl
      rw [hrelay] at hold
      cases hold
    show Function.update g.mask fd events fd' = relayEvents
    rw [Function.update_of_ne hne]
    exact h.mask fd' r hold

/-- **A connection from a worker is registered and goes into the map of relay connections.** -/
theorem Inv.put_relay {id : FileId} {r : Relay n} (h : Inv g (some (fd, id))
    (some (r.addr, r.mem))) (hid : id ∉ g.clients) (hfd : r.core.fd = some fd)
    (hfile : r.file = id) (hclient : r.core.clientFD = none) (hpayload : r.core.payload.isSome) :
    Inv (((g.setFds (g.fds.epollAdd fd id)).setMask fd relayEvents).setRelay fd (some r))
      none none := by
  have hk : g.fdSlots (some (fd, id)) .hand = some (fd, id) := rfl
  have hrelay : g.relayConns fd = none := by
    cases hr : g.relayConns fd with
    | none => rfl
    | some r => exact nomatch h.fds.inj (h.relay_slot hr) hk
  have hempty : g.fdSlots (some (fd, id)) (.relay fd) = none := by simp [fdSlots, hrelay]
  have hmoved := h.fds.move hk hempty hid (fun _ => trivial)
  have hadded := hmoved.epollAdd (k := FdSlot.relay fd) (Function.update_self _ _ _) trivial
  have hmem : g.memSlots (some (r.addr, r.mem)) .hand = some (r.addr, r.mem) := rfl
  have hempty' : g.memSlots (some (r.addr, r.mem)) (.payload fd) = none := by
    simp [memSlots, hrelay]
  have hheap := h.heap.move hmem hempty' trivial
    (fun he => by
      rw [h.heap.not_registered hmem fun hreg => hreg] at he
      cases he)
  refine ⟨hadded.congr fun k => ?_, hheap.congr fun k => ?_, h.conn, ?_, ?_, h.received⟩
  · rw [fdSlots_setRelay, Option.bind_some, Option.bind_some, show r.held = some (fd, id) by
      simp [Relay.held, hfd, hfile], show r.clientHeld = none by simp [Relay.clientHeld, hclient]]
    have hnone : Function.update (Function.update (g.fdSlots (some (fd, id))) .hand none)
        (.relay fd) (some (fd, id)) (.relayClient fd) = none := by simp [fdSlots, hrelay]
    conv_rhs => rw [← Function.update_eq_self (FdSlot.relayClient fd)
      (Function.update (Function.update (g.fdSlots (some (fd, id))) .hand none)
        (.relay fd) (some (fd, id))), hnone]
    congr 2
    exact funext fun k => fdSlots_hand k
  · rw [memSlots_setRelay, Option.bind_some, show r.memHeld = some (r.addr, r.mem) by
      simp [Relay.memHeld, hpayload]]
    congr 1
    exact funext fun k => memSlots_hand k
  · intro fd' r' hr'
    have hr' : Function.update g.relayConns fd (some r) fd' = some r' := hr'
    by_cases e : fd' = fd
    · subst e
      rw [Function.update_self] at hr'
      cases hr'
      exact hfd
    · rw [Function.update_of_ne e] at hr'
      exact h.relay fd' r' hr'
  · intro fd' r' hr'
    show Function.update g.mask fd relayEvents fd' = relayEvents
    by_cases e : fd' = fd
    · subst e
      exact Function.update_self _ _ _
    · have hr' : Function.update g.relayConns fd (some r) fd' = some r' := hr'
      rw [Function.update_of_ne e] at hr' ⊢
      exact h.mask fd' r' hr'

/-- The entry of a relay connection is written back. -/
theorem Inv.set_relay (h : Inv g loc mloc) {r r' : Relay n} (hr : g.relayConns fd = some r)
    (hheld : r'.held = r.held) (hfd : r'.core.fd = r.core.fd)
    (hcust : Custody g.places g.fds
      (Function.update (g.fdSlots loc') (.relayClient fd) r'.clientHeld))
    (hheap : Custody g.memPlaces g.heap (Function.update (g.memSlots mloc') (.payload fd) r'.memHeld)) :
    Inv (g.setRelay fd (some r')) loc' mloc' := by
  refine ⟨hcust.congr fun k => ?_, hheap.congr fun k => ?_, h.conn, ?_, ?_, h.received⟩
  · rw [fdSlots_setRelay, Option.bind_some, Option.bind_some, hheld]
    have hsame : g.fdSlots loc' (.relay fd) = r.held := by simp [fdSlots, hr]
    rw [← hsame, Function.update_eq_self]
  · rw [memSlots_setRelay, Option.bind_some]
  · intro fd' r'' hr''
    have hr'' : Function.update g.relayConns fd (some r') fd' = some r'' := hr''
    by_cases e : fd' = fd
    · subst e
      rw [Function.update_self] at hr''
      cases hr''
      exact hfd.trans (h.relay fd' r hr)
    · rw [Function.update_of_ne e] at hr''
      exact h.relay fd' r'' hr''
  · intro fd' r'' hr''
    have hr'' : Function.update g.relayConns fd (some r') fd' = some r'' := hr''
    by_cases e : fd' = fd
    · subst e
      exact h.mask fd' r hr
    · rw [Function.update_of_ne e] at hr''
      exact h.mask fd' r'' hr''

/-- `relayConn.close`, as one change of the table and one of the heap. -/
theorem relayClose_eq (g : Gateway n) (r : Relay n) :
    g.relayClose r = { g with
      fds := (g.fds.closeOpt r.held).closeOpt r.clientHeld
      heap := g.heap.closeOpt r.memHeld } := by
  unfold relayClose Relay.memHeld
  cases r.core.payload.isSome <;> rfl

theorem closeRelayConn_clients (g : Gateway n) (fd : Fd) :
    (g.closeRelayConn fd).clients = g.clients := by
  unfold Gateway.closeRelayConn
  split
  · rfl
  · rw [relayClose_eq]
    rfl

/-- **A relay connection is closed with all that it has.** -/
theorem Inv.closeRelayConn (h : Inv g loc mloc) : Inv (g.closeRelayConn fd) loc mloc
    ∧ Frame fd g (g.closeRelayConn fd) := by
  unfold Gateway.closeRelayConn
  cases hr : g.relayConns fd with
  | none => exact ⟨h, .of_fds (.refl _) rfl rfl⟩
  | some r =>
      dsimp only
      have hk := h.relay_slot hr
      have hheld : r.held = some (fd, r.file) := by simp [Relay.held, h.relay fd r hr]
      have hdel := h.fds.epollDel hk
      have hclosed := hdel.close hk (by simp)
      have hclient : Function.update (g.fdSlots loc) (.relay fd) none (.relayClient fd)
          = r.clientHeld := by simp [fdSlots, hr]
      have hboth := hclosed.closeOpt hclient (fun c id hc => by
        rw [hc] at hclient
        exact hclosed.not_registered hclient fun hreg => hreg)
      have hpayload : g.memSlots mloc (.payload fd) = r.memHeld := by simp [memSlots, hr]
      have hheap := h.heap.closeOpt hpayload (fun addr mem hm => by
        rw [hm] at hpayload
        exact h.heap.not_registered hpayload fun hreg => hreg)
      have hfollows : FdTable.Follows fd g.fds
          (((g.fds.epollDel fd r.file).closeOpt r.held).closeOpt r.clientHeld) :=
        (((FdTable.Follows.refl _).epollDel r.file).closeOpt _).closeOpt _
      rw [relayClose_eq]
      refine ⟨⟨?_, ?_, h.conn, ?_, ?_, ?_⟩, .of_fds hfollows rfl rfl⟩
      · rw [hheld]
        exact hboth.congr fun k => fdSlots_setRelay none k
      · exact hheap.congr fun k => memSlots_setRelay none k
      · exact fun fd' r' hr' => h.relay fd' r' (relay_of_cleared hr')
      · exact fun fd' r' hr' => h.mask fd' r' (relay_of_cleared hr')
      · exact fun id hid => ⟨(h.received id hid).1,
          Nat.lt_of_lt_of_le (h.received id hid).2 hfollows.next_le⟩

/-! ## §3. Pending connections. -/

/-- **`bench2gw_send_fd` disposes of the descriptor, whatever its calls return.** -/
theorem bench2gw_send_fd_scope {t : FdTable} (ht : t.Ok) {id : FileId} {o : DispatchCalls}
    (hid : t.files fd = some id) (args_ok : Bool) (hep : t.epoll fd = false)
    (hfresh : ∀ t fd, o.socket t = some fd → t.files fd = none) :
    FdTable.Scope [id] t (bench2gw_send_fd t fd id args_ok o).1 := by
  have hfree : (o.connect t).Fresh t := fun r hr => hfresh t r hr
  unfold bench2gw_send_fd
  by_cases hargs : args_ok = false
  · rw [if_pos hargs]
    exact (FdTable.Scope.refl ht).close ht hid (by simp)
  rw [if_neg hargs]
  cases hc : unix_client_connect t (o.connect t) with
  | mk t' uds =>
      cases uds with
      | none =>
          have hscope := connect_failed (.refl ht) ht hfree (by rw [hc])
          rw [hc] at hscope
          exact hscope.close ht hid (by simp)
      | some r =>
          have hscope := exchange (.refl ht) ht hfree (by rw [hc]) hid (by simp) hep o.sent
          rw [hc] at hscope
          dsimp only at hscope ⊢
          unfold transferFd at hscope ⊢
          cases hs : o.sent with
          | true =>
              rw [hs] at hscope
              exact hscope
          | false =>
              rw [hs] at hscope
              exact hscope.close ht hid (by simp)

/-- The variable is given to a worker, or closed. -/
theorem Inv.dispatch_hand {p : Held} {o : DispatchCalls} (h : Inv g (some p) mloc)
    (hid : p.2 ∈ g.clients) (hfresh : ∀ t fd, o.socket t = some fd → t.files fd = none) :
    Inv (g.dispatchToFunction p o) none mloc ∧ Frame fd g (g.dispatchToFunction p o) := by
  have hk : g.fdSlots (some p) .hand = some (p.1, p.2) := rfl
  have hep := h.fds.not_registered hk fun hreg => hreg
  have hscope := bench2gw_send_fd_scope h.fds.ok (h.fds.isOpen hk) true hep hfresh
  have hgone := h.fds.of_scope_one hk hep hscope hid
  exact ⟨h.set_fds (hgone.congr fun k => fdSlots_hand k) hscope.next_le,
    .of_fds ((FdTable.Follows.refl _).of_scope hscope) rfl rfl⟩

/-- `bench2gw_conn_step` touches neither the descriptor nor the object. -/
theorem conn_step_same (conn : Conn) (c : GwCalls β) (peek_buf_sz : Nat) :
    (bench2gw_conn_step conn c peek_buf_sz).1.fd = conn.fd
      ∧ (bench2gw_conn_step conn c peek_buf_sz).1.file = conn.file
      ∧ (bench2gw_conn_step conn c peek_buf_sz).1.addr = conn.addr
      ∧ (bench2gw_conn_step conn c peek_buf_sz).1.mem = conn.mem := by
  unfold bench2gw_conn_step
  split
  · exact ⟨rfl, rfl, rfl, rfl⟩
  · exact ⟨rfl, rfl, rfl, rfl⟩

/-- **A pending connection is closed and freed.** -/
theorem Inv.closePending (h : Inv g none none) :
    Inv (g.closePending fd) none none ∧ Frame fd g (g.closePending fd) := by
  unfold Gateway.closePending
  cases hc : g.pending fd with
  | none => exact ⟨h, .of_fds (.refl _) rfl rfl⟩
  | some c =>
      have hheld : c.held = some (fd, c.file) := by simp [Conn.held, h.conn fd c hc]
      have hfreed := (h.take_pending hc).close_hand.free_hand
      have hfollows : FdTable.Follows fd g.fds ((g.fds.epollDel fd c.file).close fd c.file) :=
        ((FdTable.Follows.refl _).epollDel c.file).close _ _
      dsimp only
      unfold bench2gw_conn_free
      rw [hheld]
      exact ⟨hfreed, .of_fds hfollows rfl rfl⟩

/-- The entry of a connection is written back. -/
theorem Inv.set_conn (h : Inv g loc mloc) {c c' : Conn} (hc : g.pending fd = some c)
    (hfd : c'.fd = c.fd) (hfile : c'.file = c.file) (haddr : c'.addr = c.addr)
    (hmem : c'.mem = c.mem) : Inv (g.setPending fd (some c')) loc mloc := by
  refine ⟨h.fds.congr fun k => ?_, h.heap.congr fun k => ?_, ?_, h.relay, h.mask, h.received⟩
  · have hsame : Conn.held c' = g.fdSlots loc (.pending fd) := by
      simp [fdSlots, hc, Conn.held, hfd, hfile]
    rw [fdSlots_setPending, Option.bind_some, hsame, Function.update_eq_self]
  · have hsame : some (c'.addr, c'.mem) = g.memSlots mloc (.conn fd) := by
      simp [memSlots, hc, haddr, hmem]
    rw [memSlots_setPending, Option.map_some, hsame, Function.update_eq_self]
  · intro fd' c'' hc''
    have hc'' : Function.update g.pending fd (some c') fd' = some c'' := hc''
    by_cases e : fd' = fd
    · subst e
      rw [Function.update_self] at hc''
      cases hc''
      exact hfd.trans (h.conn fd' c hc)
    · rw [Function.update_of_ne e] at hc''
      exact h.conn fd' c'' hc''

/-- What a pending connection is registered for. -/
theorem Inv.set_mask (h : Inv g none mloc) {c : Conn} (hc : g.pending fd = some c)
    (events : EpollFlags) : Inv (g.setMask fd events) none mloc := by
  refine ⟨h.fds, h.heap, h.conn, h.relay, fun fd' r hr => ?_, h.received⟩
  have hne : fd' ≠ fd := by
    intro e
    subst e
    exact nomatch h.fds.inj (h.relay_slot hr) (h.pending_slot hc)
  show Function.update g.mask fd events fd' = relayEvents
  rw [Function.update_of_ne hne]
  exact h.mask fd' r hr

/-- **An event on a pending connection.** -/
theorem Inv.handle_pending {conn : Conn} {o : EventCalls β} (h : Inv g none none)
    (hc : g.pending fd = some conn) (flags : EpollFlags) (hok : g.EventOk o) :
    Inv (g.handle_pending fd conn flags o) none none
      ∧ Frame fd g (g.handle_pending fd conn flags o) := by
  have hk := h.pending_slot hc
  have hclient : conn.file ∈ g.clients := h.fds.admitted hk
  have hstep := conn_step_same conn o.step o.peek_buf_sz
  unfold Gateway.handle_pending
  split
  · exact h.closePending
  dsimp only
  generalize bench2gw_conn_step conn o.step o.peek_buf_sz = r at hstep ⊢
  obtain ⟨hfd, hfile, haddr, hmem⟩ := hstep
  have huse : Inv (g.setFds (g.fds.use fd conn.file)) none none :=
    h.set_fds (h.fds.use hk) (Nat.le_refl _)
  have hset : Inv ((g.setFds (g.fds.use fd conn.file)).setPending fd (some r.1)) none none :=
    huse.set_conn hc hfd hfile haddr hmem
  have hc' : ((g.setFds (g.fds.use fd conn.file)).setPending fd (some r.1)).pending fd
      = some r.1 := Function.update_self _ _ _
  have hframe : Frame fd g ((g.setFds (g.fds.use fd conn.file)).setPending fd (some r.1)) :=
    .of_fds ((FdTable.Follows.refl _).use _ _) rfl rfl
  split
  · split
    · -- registered for something else
      refine ⟨hset.set_mask hc' _, hframe.batch, hframe.fds, fun fd' hne _ => ?_⟩
      exact Function.update_of_ne hne _ _
    · exact ⟨hset, hframe⟩
  split
  · obtain ⟨hinv, hf⟩ : Inv _ none none ∧ Frame fd _ _ := hset.closePending
    exact ⟨hinv, hframe.trans hf⟩
  · have htaken := (hset.take_pending hc').free_hand
    have hheld : r.1.held = some (fd, r.1.file) := by
      simp [Conn.held, hset.conn fd r.1 hc']
    have hfollows : FdTable.Follows fd g.fds ((g.fds.use fd conn.file).epollDel fd r.1.file) :=
      ((FdTable.Follows.refl _).use _ _).epollDel _
    unfold bench2gw_conn_take_fd
    rw [hheld]
    have hframe' : Frame fd g ((((g.setFds (g.fds.use fd conn.file)).setPending fd
        (some r.1)).setFds ((g.fds.use fd conn.file).epollDel fd r.1.file)).setPending fd none
          |>.free r.1.addr r.1.mem) := .of_fds hfollows rfl rfl
    cases functionName r.2.2 with
    | none =>
        refine ⟨htaken.close_hand, .of_fds (hfollows.close _ _) rfl rfl⟩
    | some name =>
        have hid : r.1.file ∈ g.clients := hfile ▸ hclient
        obtain ⟨hinv, hf⟩ : Inv _ none none ∧ Frame fd _ _ := htaken.dispatch_hand hid hok.socket
        exact ⟨hinv, hframe'.trans hf⟩

/-! ## §4. Relay connections. -/

/-- Counting the bytes changes no descriptor, and is done only with one. -/
theorem advance_spec (r : RelayConn n) (m : Nat) :
    (r.advance m).1.fd = r.fd ∧ (r.advance m).1.payload = r.payload
      ∧ (r.advance m).1.clientFD = r.clientFD
      ∧ ((r.advance m).2 = .ok true → r.clientFD.isSome) := by
  unfold RelayConn.advance
  dsimp only
  split
  · exact ⟨rfl, rfl, rfl, nofun⟩
  · split
    · exact ⟨rfl, rfl, rfl, nofun⟩
    next hsome =>
      exact ⟨rfl, rfl, rfl, fun _ => Option.isSome_iff_ne_none.mpr (by simpa using hsome)⟩

/-- What `relayConn.recv` leaves as it is, and what it has when it is done. -/
theorem recv_spec (r : RelayConn n) (answer : NbRecv) :
    (r.recv answer).1.1.fd = r.fd ∧ (r.recv answer).1.1.payload.isSome = r.payload.isSome
      ∧ ((r.recv answer).1.2 = .ok true →
        (r.recv answer).1.1.clientFD.isSome ∧ (r.recv answer).1.1.payload.isSome) := by
  have htake : ∀ (fds : List Fd) (r : RelayConn n), (r.takeFds fds).1.fd = r.fd
      ∧ (r.takeFds fds).1.payload = r.payload := by
    intro fds
    induction fds with
    | nil => exact fun r => ⟨rfl, rfl⟩
    | cons fd fds ih =>
        intro r
        unfold RelayConn.takeFds
        split
        · exact ih r
        · exact ih { r with clientFD := some fd }
  unfold RelayConn.recv
  split
  · exact ⟨rfl, rfl, fun hdone => by cases hdone⟩
  · exact ⟨rfl, rfl, fun hdone => by cases hdone⟩
  next payload hfd hpayload =>
    split
    · refine ⟨rfl, rfl, fun hdone => ?_⟩
      injection hdone with hdone
      exact ⟨hdone, by rw [hpayload]; rfl⟩
    · split
      · exact ⟨rfl, rfl, fun hdone => by cases hdone⟩
      · exact ⟨rfl, rfl, fun hdone => by cases hdone⟩
      next bytes ctrunc cmsg =>
        dsimp only
        split
        · exact ⟨rfl, by rw [hpayload]; rfl, fun hdone => by cases hdone⟩
        · split
          · obtain ⟨hf, hp, hc, hd⟩ := advance_spec
              { r with payload := some (payload.writeAt r.off bytes) } bytes.length
            refine ⟨hf, by rw [hp, hpayload]; rfl, fun hdone => ⟨?_, by rw [hp]; rfl⟩⟩
            rw [hc]
            exact hd hdone
          next c =>
            split
            · obtain ⟨hf', hp'⟩ := htake c.fds { r with payload := some (payload.writeAt r.off bytes) }
              obtain ⟨hf, hp, hc, hd⟩ := advance_spec (({ r with
                payload := some (payload.writeAt r.off bytes) } : RelayConn n).takeFds c.fds).1
                  bytes.length
              refine ⟨hf.trans hf', by rw [hp, hp', hpayload]; rfl,
                fun hdone => ⟨?_, by rw [hp, hp']; rfl⟩⟩
              rw [hc]
              exact hd hdone
            · exact ⟨rfl, by rw [hpayload]; rfl, fun hdone => by cases hdone⟩

/-- A message without a descriptor changes nothing about the descriptors. -/
theorem recv_no_fd (r : RelayConn n) {answer : NbRecv}
    (hnone : receives r = false ∨ ∀ bytes ctrunc c, answer = .ret (.data bytes ctrunc (some c)) →
      c.fds = []) :
    (r.recv answer).1.1.clientFD = r.clientFD ∧ (r.recv answer).2 = [] := by
  have hadvance : ∀ (r : RelayConn n) (m : Nat), (r.advance m).1.clientFD = r.clientFD :=
    fun r m => (advance_spec r m).2.2.1
  unfold RelayConn.recv
  split
  · exact ⟨rfl, rfl⟩
  · exact ⟨rfl, rfl⟩
  next payload hfd hpayload =>
    split
    · exact ⟨rfl, rfl⟩
    next hmore =>
      split
      · exact ⟨rfl, rfl⟩
      · exact ⟨rfl, rfl⟩
      next bytes ctrunc cmsg =>
        dsimp only
        split
        · exact ⟨rfl, rfl⟩
        · split
          · exact ⟨hadvance _ _, rfl⟩
          next c =>
            have hfds : c.fds = [] := by
              rcases hnone with hnone | hnone
              · exfalso
                unfold receives at hnone
                rw [hfd, hpayload, decide_eq_true (Nat.lt_of_not_le hmore)] at hnone
                cases hnone
              · exact hnone bytes ctrunc c rfl
            rw [hfds]
            split
            · exact ⟨hadvance _ _, rfl⟩
            · exact ⟨rfl, rfl⟩

/-- A message with one descriptor: it is kept, or closed where there is one already. -/
theorem recv_one_fd (r : RelayConn n) {bytes : Bytes} {c : Fd} (hrecv : receives r = true)
    (hbytes : bytes ≠ []) :
    (r.clientFD = none ∧ (r.recv (.ret (.data bytes false (some ⟨true, [c]⟩)))).1.1.clientFD = some c
        ∧ (r.recv (.ret (.data bytes false (some ⟨true, [c]⟩)))).2 = [])
      ∨ (r.clientFD.isSome
        ∧ (r.recv (.ret (.data bytes false (some ⟨true, [c]⟩)))).1.1.clientFD = r.clientFD
        ∧ (r.recv (.ret (.data bytes false (some ⟨true, [c]⟩)))).2 = [c]) := by
  have hadvance : ∀ (r : RelayConn n) (m : Nat), (r.advance m).1.clientFD = r.clientFD :=
    fun r m => (advance_spec r m).2.2.1
  unfold receives at hrecv
  simp only [Bool.and_eq_true, decide_eq_true_eq] at hrecv
  obtain ⟨⟨hfd, hpayload⟩, hoff⟩ := hrecv
  obtain ⟨fd, hfd⟩ := Option.isSome_iff_exists.mp hfd
  obtain ⟨payload, hpayload⟩ := Option.isSome_iff_exists.mp hpayload
  have hlen : (bytes.length = 0 || false) = false := by
    simp [List.length_eq_zero_iff, hbytes]
  have hlen' : ¬ (decide (bytes.length = 0) || false) = true := by
    simpa [List.length_eq_zero_iff] using hbytes
  unfold RelayConn.recv
  rw [hfd, hpayload]
  dsimp only
  rw [if_neg (Nat.not_le.mpr hoff), if_neg hlen']
  simp only [if_true]
  cases hc : r.clientFD with
  | none =>
      left
      refine ⟨rfl, ?_, ?_⟩
      · rw [hadvance]
        simp [RelayConn.takeFds]
      · simp [RelayConn.takeFds]
  | some c' =>
      right
      refine ⟨rfl, ?_, ?_⟩
      · rw [hadvance]
        simp [RelayConn.takeFds]
      · simp [RelayConn.takeFds]

theorem installed_none {t : FdTable} {answer : NbRecv}
    (h : ∀ bytes ctrunc c, answer = .ret (.data bytes ctrunc (some c)) → c.fds = []) :
    installed t answer = (t, []) := by
  unfold installed
  split
  next bytes ctrunc c =>
    rw [h bytes ctrunc c rfl]
    rfl
  next => rfl

/-- What a message comes to, when it brings one descriptor at most. -/
theorem message_cases {o : EventCalls β} (hok : g.EventOk o) (r : RelayConn n) :
    (receives r = false ∨ ∀ bytes ctrunc c, o.recv = .ret (.data bytes ctrunc (some c)) → c.fds = [])
      ∨ ∃ bytes c, receives r = true ∧ o.recv = .ret (.data bytes false (some ⟨true, [c]⟩))
        ∧ bytes ≠ [] ∧ g.fds.files c = none := by
  cases hr : receives r with
  | false => exact Or.inl (Or.inl rfl)
  | true =>
      by_cases hnone : ∀ bytes ctrunc c, o.recv = .ret (.data bytes ctrunc (some c)) → c.fds = []
      · exact Or.inl (Or.inr hnone)
      · push Not at hnone
        obtain ⟨bytes, ctrunc, c, hrecv, hne⟩ := hnone
        obtain ⟨fd, hmem⟩ := List.exists_mem_of_ne_nil c.fds hne
        obtain ⟨e, hbytes, htrunc, hfree⟩ := hok.recv bytes ctrunc c hrecv fd hmem
        rw [e, htrunc] at hrecv
        exact Or.inr ⟨bytes, fd, rfl, hrecv, hbytes, hfree⟩

/-- A connection that has its descriptors as before. -/
theorem Inv.set_same {r r' : Relay n} (h : Inv g loc mloc) (hr : g.relayConns fd = some r)
    (hheld : r'.held = r.held) (hfd : r'.core.fd = r.core.fd) (hclient : r'.clientHeld = r.clientHeld)
    (hmem : r'.memHeld = r.memHeld) : Inv (g.setRelay fd (some r')) loc mloc := by
  refine h.set_relay hr hheld hfd ?_ ?_
  · have hsame : r'.clientHeld = g.fdSlots loc (.relayClient fd) := by
      rw [hclient]
      simp [fdSlots, hr]
    rw [hsame, Function.update_eq_self]
    exact h.fds
  · have hsame : r'.memHeld = g.memSlots mloc (.payload fd) := by
      rw [hmem]
      simp [memSlots, hr]
    rw [hsame, Function.update_eq_self]
    exact h.heap

/-- **The client of a relay connection comes.** -/
theorem Inv.keep_client {r r' : Relay n} {c : Fd} {id : FileId} (h : Inv g (some (c, id)) mloc)
    (hid : id ∈ g.clients) (hr : g.relayConns fd = some r) (hnone : r.clientHeld = none)
    (hheld : r'.held = r.held) (hfd : r'.core.fd = r.core.fd) (hclient : r'.clientHeld = some (c, id))
    (hmem : r'.memHeld = r.memHeld) : Inv (g.setRelay fd (some r')) none mloc := by
  have hk : g.fdSlots (some (c, id)) .hand = some (c, id) := rfl
  have hempty : g.fdSlots (some (c, id)) (.relayClient fd) = none := by simp [fdSlots, hr, hnone]
  have hmoved := h.fds.move hk hempty hid (fun he => by
    rw [h.fds.not_registered hk fun hreg => hreg] at he
    cases he)
  refine h.set_relay hr hheld hfd ?_ ?_
  · rw [hclient]
    refine hmoved.congr fun k => ?_
    congr 1
    exact funext fun k => fdSlots_hand k
  · have hsame : r'.memHeld = g.memSlots mloc (.payload fd) := by
      rw [hmem]
      simp [memSlots, hr]
    rw [hsame, Function.update_eq_self]
    exact h.heap

/-- **`relayConn.recv` on a connection of the map.** -/
theorem Inv.relayRecv {r : Relay n} {o : EventCalls β} (h : Inv g none none)
    (hr : g.relayConns fd = some r) (hok : g.EventOk o) :
    Inv (g.relayRecv fd r o.recv).1 none none ∧ Frame fd g (g.relayRecv fd r o.recv).1
      ∧ (g.relayRecv fd r o.recv).1.relayConns fd = some (g.relayRecv fd r o.recv).2.1
      ∧ ((g.relayRecv fd r o.recv).2.2 = .ok true →
        (g.relayRecv fd r o.recv).2.1.core.clientFD.isSome
          ∧ (g.relayRecv fd r o.recv).2.1.core.payload.isSome) := by
  have hk := h.relay_slot hr
  obtain ⟨hfd, hpayload, hdone⟩ := recv_spec r.core o.recv
  suffices hmain : Inv (g.relayRecv fd r o.recv).1 none none
      ∧ Frame fd g (g.relayRecv fd r o.recv).1 from
    ⟨hmain.1, hmain.2, Function.update_self _ _ _, hdone⟩
  have hmem : ∀ client_file : FileId, Relay.memHeld
      { r with core := (r.core.recv o.recv).1.1, client_file := client_file } = r.memHeld := by
    intro client_file
    unfold Relay.memHeld
    rw [hpayload]
  have hheld : ∀ client_file : FileId, Relay.held
      { r with core := (r.core.recv o.recv).1.1, client_file := client_file } = r.held := by
    intro client_file
    unfold Relay.held
    rw [hfd]
  unfold Gateway.relayRecv
  rcases message_cases hok r.core with hnone | ⟨bytes, c, hrecv, hanswer, hbytes, hfree⟩
  · -- no descriptor comes
    obtain ⟨hclient, hclosed⟩ := recv_no_fd r.core hnone
    obtain ⟨t, hinstalled, hcust, hfollows⟩ : ∃ t, (if receives r.core
        then installed (g.fds.use fd r.file) o.recv else (g.fds, [])) = (t, [])
          ∧ Custody g.places t (g.fdSlots none) ∧ FdTable.Follows fd g.fds t := by
      split
      next hyes =>
        rw [installed_none (hnone.resolve_left (by rw [hyes]; exact nofun))]
        exact ⟨_, rfl, h.fds.use hk, (FdTable.Follows.refl _).use _ _⟩
      next => exact ⟨_, rfl, h.fds, .refl _⟩
    rw [hinstalled]
    simp only [List.filter_nil, List.foldl_nil, List.find?_nil, Option.map_none, Option.getD_none,
      List.map_nil, List.append_nil]
    have hset : Inv (g.setFds t) none none := h.set_fds hcust hfollows.next_le
    have hsame : Relay.clientHeld { r with core := (r.core.recv o.recv).1.1 } = r.clientHeld := by
      unfold Relay.clientHeld
      rw [hclient]
    exact ⟨hset.set_same hr (hheld r.client_file) hfd hsame (hmem r.client_file),
      .of_fds hfollows rfl rfl⟩
  · -- one descriptor comes, with the number `c`
    have huse : Inv (g.setFds (g.fds.use fd r.file)) none none :=
      h.set_fds (h.fds.use hk) (Nat.le_refl _)
    have hopen := huse.open_hand (c := c) hfree
    have hnote := hopen.note_client h.fds.first_le (Nat.lt_succ_self _)
    have hfollows : FdTable.Follows fd g.fds ((g.fds.use fd r.file).opened c) :=
      ((FdTable.Follows.refl _).use _ _).opened c
    have hinstalled : installed (g.fds.use fd r.file) o.recv
        = ((g.fds.use fd r.file).opened c, [(c, g.fds.next)]) := by
      rw [hanswer]
      rfl
    have hone := recv_one_fd r.core (c := c) hrecv hbytes
    rw [← hanswer] at hone
    rw [if_pos hrecv, hinstalled]
    generalize r.core.recv o.recv = x at hone hfd hmem hheld
    obtain ⟨⟨core, result⟩, closed⟩ := x
    rcases hone with ⟨hno, hyes, hclosed⟩ | ⟨hsome, hsame, hclosed⟩
    · -- it is the first one
      dsimp only at hyes hclosed hfd hmem hheld
      subst hclosed
      have hfind : ([(c, g.fds.next)].find? fun p : Held => decide (core.clientFD = some p.1))
          = some (c, g.fds.next) := by
        rw [List.find?_cons_of_pos]
        simp [hyes]
      have hfilter : ([(c, g.fds.next)].filter fun p : Held => ([] : List Fd).contains p.1) = [] := rfl
      dsimp only
      rw [hfind, hfilter]
      refine ⟨hnote.keep_client (List.mem_append_right _ List.mem_cons_self) hr ?_
        (hheld g.fds.next) hfd ?_ (hmem g.fds.next), .of_fds hfollows rfl rfl⟩
      · simp [Relay.clientHeld, hno]
      · show core.clientFD.map (·, g.fds.next) = some (c, g.fds.next)
        rw [hyes]
        rfl
    · -- there is one already
      dsimp only at hsame hclosed hfd hmem hheld
      subst hclosed
      obtain ⟨c', hc'⟩ := Option.isSome_iff_exists.mp hsome
      have hne : c' ≠ c := by
        rintro rfl
        have hheld' : g.fdSlots none (.relayClient fd) = some (c', r.client_file) := by
          simp [fdSlots, hr, Relay.clientHeld, hc']
        have hopen' := h.fds.isOpen hheld'
        rw [hfree] at hopen'
        cases hopen'
      have hfind : ([(c, g.fds.next)].find? fun p : Held => decide (core.clientFD = some p.1))
          = none := by
        rw [List.find?_cons_of_neg (by simp [hsame, hc', hne]), List.find?_nil]
      have hfilter : ([(c, g.fds.next)].filter fun p : Held => [c].contains p.1)
          = [(c, g.fds.next)] := by
        rw [List.filter_cons_of_pos (by simp), List.filter_nil]
      dsimp only
      rw [hfind, hfilter]
      refine ⟨hnote.close_hand.set_same hr (hheld r.client_file) hfd ?_ (hmem r.client_file),
        .of_fds (hfollows.close c _) rfl rfl⟩
      unfold Relay.clientHeld
      rw [hsame]
      rfl

/-- **A complete relay message**: the payload and the client leave the connection. -/
theorem Inv.relayDone {r : Relay n} {o : DispatchCalls} (layout : Layout S n)
    (h : Inv g none none) (hr : g.relayConns fd = some r) (hclient : r.core.clientFD.isSome)
    (hpayload : r.core.payload.isSome)
    (hfresh : ∀ t fd, o.socket t = some fd → t.files fd = none) :
    Inv (g.relayDone layout fd r o) none none ∧ Frame fd g (g.relayDone layout fd r o) := by
  obtain ⟨c, hc⟩ := Option.isSome_iff_exists.mp hclient
  obtain ⟨payload, hp⟩ := Option.isSome_iff_exists.mp hpayload
  have hkc : g.fdSlots none (.relayClient fd) = some (c, r.client_file) := by
    simp [fdSlots, hr, Relay.clientHeld, hc]
  have hkp : g.memSlots none (.payload fd) = some (r.addr, r.mem) := by
    simp [memSlots, hr, Relay.memHeld, hp]
  have hid : r.client_file ∈ g.clients := h.fds.admitted hkc
  have hfree : g.fdSlots none .hand = none := rfl
  have hmfree : g.memSlots none .hand = none := rfl
  have hfds := h.fds.move hkc hfree trivial (fun he => by
    rw [h.fds.not_registered hkc fun hreg => hreg] at he
    cases he)
  have hheap := h.heap.move hkp hmfree trivial (fun he => by
    rw [h.heap.not_registered hkp fun hreg => hreg] at he
    cases he)
  have htaken : Inv (g.setRelay fd (some { r with
      core := { r.core with clientFD := none, payload := none } })) (some (c, r.client_file))
        (some (r.addr, r.mem)) := by
    refine h.set_relay hr rfl rfl (hfds.congr fun k => ?_) (hheap.congr fun k => ?_)
    · have hne : FdSlot.relayClient fd ≠ .hand := nofun
      rw [Function.update_comm hne]
      congr 1
      exact funext fun k => fdSlots_hand k
    · have hne : MemSlot.payload fd ≠ .hand := nofun
      rw [Function.update_comm hne]
      congr 1
      exact funext fun k => memSlots_hand k
  obtain ⟨hinv, hframe⟩ : Inv _ _ _ ∧ Frame fd _ _ := htaken.closeRelayConn
  have hframe' : Frame fd g (g.setRelay fd (some { r with
      core := { r.core with clientFD := none, payload := none } })) :=
    .of_fds (.refl _) rfl rfl
  unfold Gateway.relayDone
  rw [hc, hp]
  dsimp only
  split
  · exact ⟨hinv.close_hand.free_hand,
      (hframe'.trans hframe).trans (.of_fds ((FdTable.Follows.refl _).close c r.client_file) rfl rfl)⟩
  · have hid' : r.client_file ∈ ((g.setRelay fd (some { r with
        core := { r.core with clientFD := none, payload := none } })).closeRelayConn fd).clients := by
      rw [closeRelayConn_clients]
      exact hid
    obtain ⟨hinv', hf⟩ : Inv _ none _ ∧ Frame fd _ _ := hinv.dispatch_hand hid' hfresh
    exact ⟨hinv'.free_hand, (hframe'.trans hframe).trans ⟨hf.batch, hf.fds, hf.mask⟩⟩

/-! ## §5. Events and accepted descriptors. -/

/-- A registered number is a listening one, or a key. -/
theorem Inv.registered_key (h : Inv g none none) (hepoll : g.fds.epoll fd = true) :
    fd = g.listenFD ∨ fd = g.relayFD ∨ (g.pending fd).isSome ∨ (g.relayConns fd).isSome := by
  obtain ⟨k, id, hreg, hk⟩ := h.fds.registered hepoll
  cases k with
  | listen => exact Or.inl (Prod.mk.inj (Option.some.inj hk)).1.symm
  | relayListen => exact Or.inr (Or.inl (Prod.mk.inj (Option.some.inj hk)).1.symm)
  | pending fd' =>
      cases hc : g.pending fd' with
      | none => simp [fdSlots, hc] at hk
      | some c =>
          rw [h.pending_slot hc] at hk
          rw [← (Prod.mk.inj (Option.some.inj hk)).1, hc]
          exact Or.inr (Or.inr (Or.inl rfl))
  | relay fd' =>
      cases hr : g.relayConns fd' with
      | none => simp [fdSlots, hr] at hk
      | some r =>
          rw [h.relay_slot hr] at hk
          rw [← (Prod.mk.inj (Option.some.inj hk)).1, hr]
          exact Or.inr (Or.inr (Or.inr rfl))
  | relayClient fd' => exact False.elim hreg
  | hand => exact False.elim hreg

/-- **One event**, on a descriptor that is registered and not one of the two listening ones:
one of the maps has it, and what is reported is looked at. -/
theorem Inv.handle_event (layout : Layout S n) {o : EventCalls β}
    {flags : EpollFlags} (h : Inv g none none) (hepoll : g.fds.epoll fd = true)
    (hflags : (g.mask fd).Reports flags) (hlisten : fd ≠ g.listenFD) (hrelay : fd ≠ g.relayFD)
    (hok : g.EventOk o) :
    Inv (g.handle_event layout fd flags o) none none
      ∧ Frame fd g (g.handle_event layout fd flags o) := by
  unfold Gateway.handle_event
  cases hr : g.relayConns fd with
  | none =>
      dsimp only
      unfold Gateway.handle_client
      cases hc : g.pending fd with
      | some conn => exact h.handle_pending hc flags hok
      | none =>
          -- nothing but the maps registers a descriptor
          exfalso
          rcases h.registered_key hepoll with e | e | e | e
          · exact hlisten e
          · exact hrelay e
          · rw [hc] at e
            cases e
          · rw [hr] at e
            cases e
  | some r =>
      dsimp only
      split
      · exact h.closeRelayConn
      split
      · obtain ⟨hinv, hframe, hentry, hdone⟩ := h.relayRecv hr hok
        generalize g.relayRecv fd r o.recv = x at hinv hframe hentry hdone ⊢
        obtain ⟨g', r', result⟩ := x
        cases result with
        | error e =>
            obtain ⟨hinv', hf⟩ : Inv _ none none ∧ Frame fd _ _ := hinv.closeRelayConn
            exact ⟨hinv', hframe.trans hf⟩
        | ok done =>
            cases done with
            | false => exact ⟨hinv, hframe⟩
            | true =>
                obtain ⟨hclient, hpayload⟩ := hdone rfl
                obtain ⟨hinv', hf⟩ := hinv.relayDone layout hentry hclient hpayload hok.socket
                exact ⟨hinv', hframe.trans hf⟩
      next herr hin =>
        split
        · exact h.closeRelayConn
        next hhup =>
          -- a relay connection is registered for nothing else
          exfalso
          rw [h.mask fd r hr] at hflags
          obtain ⟨-, hout, -, hany⟩ := hflags
          have hout' : flags.epollout = false := by
            cases ho : flags.epollout with
            | false => rfl
            | true => exact absurd (hout ho) (by decide)
          rw [not_or] at hhup
          simp only [Bool.not_eq_true] at herr hin hhup
          rw [hin, hout', hhup.2, herr, hhup.1] at hany
          cases hany

/-- What `accept4` has returned is in the variable, and a client's. -/
theorem Inv.accepted_client (h : Inv g none none) {c : Fd} (hc : g.fds.files c = none) :
    Inv { g.setFds (g.fds.opened c) with clients := g.clients ++ [g.fds.next] }
      (some (c, g.fds.next)) none :=
  (h.open_hand hc).note_client h.fds.first_le (Nat.lt_succ_self _)

theorem Inv.set_accepting (h : Inv g loc mloc) (accepting : Accepting) :
    Inv { g with accepting := accepting } loc mloc :=
  ⟨h.fds.congr fun k => by cases k <;> rfl, h.heap.congr fun k => by cases k <;> rfl, h.conn,
    h.relay, h.mask, h.received⟩

/-- **One accepted client.** -/
theorem Inv.handle_accept {o : AcceptCalls} (h : Inv g none none)
    (hfree : g.fds.files o.client_fd = none)
    (haddr : ∀ addr, o.calloc = some addr → g.heap.files addr = none) :
    Inv (g.handle_accept o) none none ∧ Frame o.client_fd g (g.handle_accept o) := by
  have haccepted := h.accepted_client hfree
  have hfollows : FdTable.Follows o.client_fd g.fds (g.fds.opened o.client_fd) :=
    (FdTable.Follows.refl _).opened _
  unfold Gateway.handle_accept
  cases hcalloc : o.calloc with
  | none =>
      exact ⟨haccepted.close_hand.set_accepting .none, .of_fds (hfollows.close _ _) rfl rfl⟩
  | some addr =>
      dsimp only
      have hobj := haccepted.malloc (haddr addr hcalloc)
      split
      · exact ⟨hobj.close_hand.free_hand.set_accepting .none,
          .of_fds (hfollows.close _ _) rfl rfl⟩
      split
      · refine ⟨Inv.put_pending ⟨some o.client_fd, o.wolfSSL_new, .handshake, 1, g.fds.next, addr,
          g.heap.next⟩ hobj (List.mem_append_right _ List.mem_cons_self) rfl rfl _, rfl,
          hfollows.epollAdd _ _, fun fd' hne _ => ?_⟩
        exact Function.update_of_ne hne _ _
      · exact ⟨hobj.close_hand.free_hand, .of_fds (hfollows.close _ _) rfl rfl⟩

/-- **One accepted connection of a worker.** -/
theorem Inv.handle_accept_relay {o : AcceptRelayCalls n} (h : Inv g none none)
    (hfree : g.fds.files o.connFD = none)
    (haddr : ∀ addr malloced, o.malloc = some (addr, malloced) → g.heap.files addr = none) :
    Inv (g.handle_accept_relay o) none none ∧ Frame o.connFD g (g.handle_accept_relay o) := by
  have hopen := h.open_hand hfree
  have hfollows : FdTable.Follows o.connFD g.fds (g.fds.opened o.connFD) :=
    (FdTable.Follows.refl _).opened _
  unfold Gateway.handle_accept_relay
  cases hmalloc : o.malloc with
  | none => exact ⟨hopen.close_hand, .of_fds (hfollows.close _ _) rfl rfl⟩
  | some p =>
      obtain ⟨addr, malloced⟩ := p
      dsimp only
      have hobj := hopen.malloc (haddr addr malloced hmalloc)
      have hnot : g.fds.next ∉ g.clients := fun hid => Nat.lt_irrefl _ (h.received _ hid).2
      split
      · refine ⟨hobj.put_relay (r := ⟨RelayConn.start o.connFD malloced, g.fds.next, 0, addr,
          g.heap.next⟩) hnot rfl rfl rfl rfl, rfl, hfollows.epollAdd _ _, fun fd' hne _ => ?_⟩
        exact Function.update_of_ne hne _ _
      · rw [relayClose_eq]
        exact ⟨hobj.close_hand.free_hand, .of_fds (hfollows.close _ _) rfl rfl⟩

end TlsMigration.Bench2gw.Gateway
