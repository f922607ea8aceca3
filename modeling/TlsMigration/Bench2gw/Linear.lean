/-
  TlsMigration.Bench2gw.Linear
  ────────────────────────────
  **LINEAR OWNERSHIP IN THE BENCH2 GATEWAY.**

  The event loop adds to `Bench2gw.Ownership` that the events still to be
  handled are on registered descriptors, and report what these are
  registered for.

    • `LoopInv.step`    — every step of the loop keeps the invariant;
    • `gateway_linear`  — descriptors and objects in every reachable state.
-/
import TlsMigration.Bench2gw.Ownership

namespace TlsMigration.Bench2gw.Gateway

open TlsMigration.Tlspeek TlsMigration.Bench2 TlsMigration.Handoff TlsMigration.Migration

variable {β S : Type*} {n : Nat} {g g₁ : Gateway n} {fd : Fd}

/-! ## §1. The event loop. -/

/-- What holds between two events. -/
structure LoopInv (g : Gateway n) : Prop where
  inv : Inv g none none
  batch_nodup : (g.batch.map Prod.fst).Nodup
  batch_registered : ∀ e ∈ g.batch, g.fds.epoll e.1 = true ∧ (g.mask e.1).Reports e.2

/-- The event loop's own variables play no role in `Inv`. -/
theorem Inv.set_batch (h : Inv g none none) (batch : List (Fd × EpollFlags))
    (accepting : Accepting) : Inv { g with batch := batch, accepting := accepting } none none :=
  ⟨h.fds.congr fun k => by cases k <;> rfl, h.heap.congr fun k => by cases k <;> rfl, h.conn,
    h.relay, h.mask, h.received⟩

/-- A handler that leaves the other descriptors alone keeps the loop's invariant. -/
theorem Frame.loopInv (hf : Frame fd g g₁) (hinv : Inv g₁ none none)
    (hnodup : (g.batch.map Prod.fst).Nodup)
    (hreg : ∀ e ∈ g.batch, e.1 ≠ fd ∧ g.fds.epoll e.1 = true ∧ (g.mask e.1).Reports e.2) :
    LoopInv g₁ where
  inv := hinv
  batch_nodup := by
    rw [hf.batch]
    exact hnodup
  batch_registered := fun e he => by
    rw [hf.batch] at he
    obtain ⟨hne, hepoll, hreports⟩ := hreg e he
    refine ⟨hf.fds.epoll e.1 hne hepoll, ?_⟩
    rw [hf.mask e.1 hne hepoll]
    exact hreports

/-- What is registered is open, so that a new number is none of the batch. -/
theorem LoopInv.apart (h : LoopInv g) (hfree : g.fds.files fd = none) :
    ∀ e ∈ g.batch, e.1 ≠ fd ∧ g.fds.epoll e.1 = true ∧ (g.mask e.1).Reports e.2 := by
  intro e he
  obtain ⟨hepoll, hreports⟩ := h.batch_registered e he
  refine ⟨fun hfd => ?_, hepoll, hreports⟩
  have hno := (h.inv.fds.unused hfree).1
  rw [← hfd, hepoll] at hno
  cases hno

theorem LoopInv.initial (h : Gateway.Initial g) : LoopInv g where
  inv := {
    fds := {
      ok := h.ok
      no_fault := h.faults
      isOpen := fun {k fd id} hk => by
        cases k with
        | listen =>
            have hk : some (g.listenFD, g.listen_file) = some (fd, id) := hk
            cases hk
            exact h.listen
        | relayListen =>
            have hk : some (g.relayFD, g.relay_file) = some (fd, id) := hk
            cases hk
            exact h.relay
        | pending fd' => simp [fdSlots, h.pending] at hk
        | relay fd' => simp [fdSlots, h.relayConns] at hk
        | relayClient fd' => simp [fdSlots, h.relayConns] at hk
        | hand => cases hk
      inj := fun {k k' fd id id'} hk hk' => by
        have honly : ∀ {k fd id}, g.fdSlots none k = some (fd, id) →
            (k = .listen ∧ fd = g.listenFD) ∨ (k = .relayListen ∧ fd = g.relayFD) := by
          intro k fd id hk
          cases k with
          | listen => exact Or.inl ⟨rfl, (Prod.mk.inj (Option.some.inj hk)).1.symm⟩
          | relayListen => exact Or.inr ⟨rfl, (Prod.mk.inj (Option.some.inj hk)).1.symm⟩
          | pending fd' => simp [fdSlots, h.pending] at hk
          | relay fd' => simp [fdSlots, h.relayConns] at hk
          | relayClient fd' => simp [fdSlots, h.relayConns] at hk
          | hand => cases hk
        rcases honly hk with ⟨e, f⟩ | ⟨e, f⟩ <;> rcases honly hk' with ⟨e', f'⟩ | ⟨e', f'⟩
        · rw [e, e']
        · exact absurd (f'.symm.trans f) h.apart
        · exact absurd (f.symm.trans f') h.apart
        · rw [e, e']
      covered := fun hf hle => absurd (h.ok.files_lt hf) (Nat.not_lt.mpr (h.first ▸ hle))
      first_le := Nat.le_of_eq h.first
      admitted := fun {k fd id} hk => by
        cases k with
        | listen =>
            have hk : some (g.listenFD, g.listen_file) = some (fd, id) := hk
            cases hk
            show g.listen_file < g.first
            rw [h.first]
            exact h.ok.files_lt h.listen
        | relayListen =>
            have hk : some (g.relayFD, g.relay_file) = some (fd, id) := hk
            cases hk
            show g.relay_file < g.first
            rw [h.first]
            exact h.ok.files_lt h.relay
        | pending fd' => simp [fdSlots, h.pending] at hk
        | relay fd' => simp [fdSlots, h.relayConns] at hk
        | relayClient fd' => simp [fdSlots, h.relayConns] at hk
        | hand => cases hk
      sent := fun {id} hs => by
        rw [h.sends] at hs
        exact absurd hs (Nat.lt_irrefl 0)
      registered := fun {fd} he => by
        rcases h.epoll fd he with e | e
        · exact ⟨.listen, g.listen_file, trivial, by rw [e]; rfl⟩
        · exact ⟨.relayListen, g.relay_file, trivial, by rw [e]; rfl⟩ }
    heap := {
      ok := h.heap_ok
      no_fault := h.heap_faults
      isOpen := fun {k addr mem} hk => by
        cases k with
        | conn fd' => simp [memSlots, h.pending] at hk
        | payload fd' => simp [memSlots, h.relayConns] at hk
        | hand => cases hk
      inj := fun {k k' addr mem mem'} hk hk' => by
        cases k with
        | conn fd' => simp [memSlots, h.pending] at hk
        | payload fd' => simp [memSlots, h.relayConns] at hk
        | hand => cases hk
      covered := fun hf hle =>
        absurd (h.heap_ok.files_lt hf) (Nat.not_lt.mpr (h.heap_first ▸ hle))
      first_le := Nat.le_of_eq h.heap_first
      admitted := fun _ => trivial
      sent := fun {mem} hs => by
        rw [h.heap_sends] at hs
        exact absurd hs (Nat.lt_irrefl 0)
      registered := fun {addr} he => by
        rw [h.heap_epoll] at he
        cases he }
    conn := by simp [h.pending]
    relay := by simp [h.relayConns]
    mask := by simp [h.relayConns]
    received := by simp [h.clients] }
  batch_nodup := by simp [h.batch]
  batch_registered := by simp [h.batch]

/-- **The step lemma.** -/
theorem LoopInv.step {layout : Layout S n} {l : GatewayLabel β n} (h : LoopInv g)
    (hst : Gateway.Step layout g l g₁) : LoopInv g₁ := by
  cases hst with
  | wait events _ _ hnodup hreg => exact ⟨h.inv.set_batch events g.accepting, hnodup, hreg⟩
  | listen _ hbatch =>
      have hnodup := h.batch_nodup
      have hreg := h.batch_registered
      rw [hbatch] at hnodup hreg
      exact ⟨h.inv.set_batch _ .clients, (List.nodup_cons.mp hnodup).2,
        fun e he => hreg e (List.mem_cons_of_mem _ he)⟩
  | listenRelay _ hbatch _ =>
      have hnodup := h.batch_nodup
      have hreg := h.batch_registered
      rw [hbatch] at hnodup hreg
      exact ⟨h.inv.set_batch _ .relays, (List.nodup_cons.mp hnodup).2,
        fun e he => hreg e (List.mem_cons_of_mem _ he)⟩
  | accept o _ hfree haddr =>
      obtain ⟨hinv, hf⟩ := h.inv.handle_accept hfree haddr
      exact hf.loopInv hinv h.batch_nodup (h.apart hfree)
  | acceptRelay o _ hfree haddr =>
      obtain ⟨hinv, hf⟩ := h.inv.handle_accept_relay hfree haddr
      exact hf.loopInv hinv h.batch_nodup (h.apart hfree)
  | accepted _ => exact ⟨h.inv.set_batch g.batch .none, h.batch_nodup, h.batch_registered⟩
  | @event fd flags rest o _ hbatch hlisten hrelay hok =>
      have hnodup := h.batch_nodup
      have hreg := h.batch_registered
      rw [hbatch] at hnodup hreg
      obtain ⟨hfresh, hnodup⟩ := List.nodup_cons.mp hnodup
      obtain ⟨hepoll, hflags⟩ := hreg _ List.mem_cons_self
      obtain ⟨hinv, hf⟩ := (h.inv.set_batch rest g.accepting).handle_event layout hepoll hflags
        hlisten hrelay ⟨hok.recv, hok.socket⟩
      refine hf.loopInv hinv hnodup fun e he => ⟨?_, hreg e (List.mem_cons_of_mem _ he)⟩
      intro hfd
      exact hfresh (hfd ▸ List.mem_map_of_mem he)

/-! ## §2. Linear ownership. -/

/-- Who has a descriptor. -/
inductive Holder where
  | pending
  | relayConn
  | transferred
  | closed
  deriving DecidableEq

def RelayHas (r : Relay n) (c : Fd) : Prop := r.core.fd = some c ∨ r.core.clientFD = some c

/-- The descriptor `id` is owned by one pending connection, or by one relay connection; or it
was given to a worker, or closed. -/
def InCustody (g : Gateway n) (id : FileId) : Holder → Prop
  | .pending => ∃! fd, ∃ conn c, g.pending fd = some conn ∧ conn.fd = some c ∧ g.fds.files c = some id
  | .relayConn => ∃! fd, ∃ r c, g.relayConns fd = some r ∧ RelayHas r c ∧ g.fds.files c = some id
  | .transferred => 0 < g.fds.sends id
  | .closed => 0 < g.fds.closes id

/-- An object of the event loop: the connection of a key, or the payload of a key. -/
def HasObject (g : Gateway n) (mem : FileId) : MemSlot → Prop
  | .conn fd => ∃ conn, g.pending fd = some conn ∧ conn.mem = mem
  | .payload fd => ∃ r, g.relayConns fd = some r ∧ r.core.payload.isSome ∧ r.mem = mem
  | .hand => False

/-- **Linear ownership.** -/
structure Linear (g : Gateway n) : Prop where
  keys_disjoint : ∀ fd, g.pending fd = none ∨ g.relayConns fd = none
  pending_key : ∀ fd conn, g.pending fd = some conn → conn.fd = some fd
  relay_key : ∀ fd r, g.relayConns fd = some r → r.core.fd = some fd
  /-- each entry's descriptor is open, and is the one that the entry was made for -/
  pending_open : ∀ fd conn, g.pending fd = some conn → g.fds.files fd = some conn.file
  relay_open : ∀ fd r, g.relayConns fd = some r → g.fds.files fd = some r.file
  /-- each accepted connection, and each that was received over the relay -/
  client : ∀ id ∈ g.clients, ∃! o, g.InCustody id o
  ended_once : ∀ id, g.fds.closes id + g.fds.sends id ≤ 1
  /-- no call used a number after its open had ended, or one that was open for another -/
  no_fault : g.fds.faults = 0
  /-- an event is always on a number that is owned -/
  known : ∀ e ∈ g.batch, e.1 = g.listenFD ∨ e.1 = g.relayFD ∨ (g.pending e.1).isSome
    ∨ (g.relayConns e.1).isSome
  /-- each object is in one entry and not freed, or in none and freed once -/
  freed : ∀ mem, g.heap_first ≤ mem → mem < g.heap.next →
    ((∃! k, g.HasObject mem k) ∧ g.heap.closes mem = 0)
      ∨ ((∀ k, ¬ g.HasObject mem k) ∧ g.heap.closes mem = 1)
  heap_no_fault : g.heap.faults = 0

/-- What a relay connection has is in one of its two places. -/
theorem Inv.relay_has (h : Inv g none none) {r : Relay n} {c : Fd} {id : FileId}
    (hr : g.relayConns fd = some r) (hhas : RelayHas r c) (hf : g.fds.files c = some id) :
    g.fdSlots none (.relay fd) = some (c, id) ∨ g.fdSlots none (.relayClient fd) = some (c, id) := by
  rcases hhas with hc | hc
  · left
    have hk : g.fdSlots none (.relay fd) = some (c, r.file) := by simp [fdSlots, hr, Relay.held, hc]
    rw [hk, Option.some.inj (hf.symm.trans (h.fds.isOpen hk))]
  · right
    have hk : g.fdSlots none (.relayClient fd) = some (c, r.client_file) := by
      simp [fdSlots, hr, Relay.clientHeld, hc]
    rw [hk, Option.some.inj (hf.symm.trans (h.fds.isOpen hk))]

theorem Inv.pending_has (h : Inv g none none) {conn : Conn} {c : Fd} {id : FileId}
    (hc : g.pending fd = some conn) (hfd : conn.fd = some c) (hf : g.fds.files c = some id) :
    g.fdSlots none (.pending fd) = some (c, id) := by
  have hk : g.fdSlots none (.pending fd) = some (c, conn.file) := by
    simp [fdSlots, hc, Conn.held, hfd]
  rw [hk, Option.some.inj (hf.symm.trans (h.fds.isOpen hk))]

/-- The place of a client says who has it. -/
theorem Inv.client_slot (h : Inv g none none) {id : FileId} (hid : id ∈ g.clients) {k : FdSlot}
    {c : Fd} (hk : g.fdSlots none k = some (c, id)) :
    (∃ fd conn, k = .pending fd ∧ g.pending fd = some conn ∧ conn.fd = some c)
      ∨ ∃ fd r, k = .relayClient fd ∧ g.relayConns fd = some r ∧ r.core.clientFD = some c := by
  have hadm := h.fds.admitted hk
  cases k with
  | listen => exact absurd (h.received id hid).1 (Nat.not_le.mpr hadm)
  | relayListen => exact absurd (h.received id hid).1 (Nat.not_le.mpr hadm)
  | pending fd =>
      cases hc : g.pending fd with
      | none => simp [fdSlots, hc] at hk
      | some conn =>
          rw [h.pending_slot hc] at hk
          rw [← (Prod.mk.inj (Option.some.inj hk)).1]
          exact Or.inl ⟨fd, conn, rfl, hc, h.conn fd conn hc⟩
  | relay fd => exact absurd hid hadm
  | relayClient fd =>
      cases hr : g.relayConns fd with
      | none => simp [fdSlots, hr] at hk
      | some r =>
          have hk : r.core.clientFD.map (·, r.client_file) = some (c, id) := by
            simpa [fdSlots, hr, Relay.clientHeld] using hk
          obtain ⟨c', hc', e⟩ := Option.map_eq_some_iff.mp hk
          rw [(Prod.mk.inj e).1] at hc'
          exact Or.inr ⟨fd, r, rfl, hr, hc'⟩
  | hand => cases hk

/-- **Each client is in exactly one custody.** -/
theorem Inv.in_custody (h : Inv g none none) {id : FileId} (hid : id ∈ g.clients) :
    ∃! o, g.InCustody id o := by
  obtain ⟨hfirst, hlt⟩ := h.received id hid
  rcases h.fds.exactly_one hfirst hlt with ⟨⟨k, ⟨c, hk⟩, hunique⟩, hcloses, hsends⟩ | ⟨hno, hone⟩
  · -- it is held, in the place `k`
    have hended : ∀ o, g.InCustody id o → o = .pending ∨ o = .relayConn := by
      intro o ho
      cases o with
      | pending => exact Or.inl rfl
      | relayConn => exact Or.inr rfl
      | transferred =>
          rw [InCustody, hsends] at ho
          exact absurd ho (Nat.lt_irrefl 0)
      | closed =>
          rw [InCustody, hcloses] at ho
          exact absurd ho (Nat.lt_irrefl 0)
    have hpending : g.InCustody id .pending → ∃ fd, k = .pending fd := by
      intro ho
      obtain ⟨fd', ⟨conn', c', hc', hfd', hf'⟩, -⟩ := ho
      exact ⟨fd', (hunique _ ⟨c', h.pending_has hc' hfd' hf'⟩).symm⟩
    have hrelay : g.InCustody id .relayConn → ∃ fd, k = .relay fd ∨ k = .relayClient fd := by
      intro ho
      obtain ⟨fd', ⟨r', c', hr', hhas', hf'⟩, -⟩ := ho
      rcases h.relay_has hr' hhas' hf' with hk' | hk'
      · exact ⟨fd', Or.inl (hunique _ ⟨c', hk'⟩).symm⟩
      · exact ⟨fd', Or.inr (hunique _ ⟨c', hk'⟩).symm⟩
    rcases h.client_slot hid hk with ⟨fd, conn, rfl, hc, hfd⟩ | ⟨fd, r, rfl, hr, hcl⟩
    · refine ⟨.pending, ⟨fd, ⟨conn, c, hc, hfd, h.fds.isOpen hk⟩, ?_⟩, ?_⟩
      · intro fd' hfd'
        obtain ⟨conn', c', hc', hfd', hf'⟩ := hfd'
        have e := hunique _ ⟨c', h.pending_has hc' hfd' hf'⟩
        exact FdSlot.pending.inj e
      · intro o ho
        rcases hended o ho with rfl | rfl
        · rfl
        · obtain ⟨fd', e | e⟩ := hrelay ho <;> cases e
    · refine ⟨.relayConn, ⟨fd, ⟨r, c, hr, Or.inr hcl, h.fds.isOpen hk⟩, ?_⟩, ?_⟩
      · intro fd' hfd'
        obtain ⟨r', c', hr', hhas', hf'⟩ := hfd'
        rcases h.relay_has hr' hhas' hf' with hk' | hk'
        · exact nomatch hunique _ ⟨c', hk'⟩
        · exact FdSlot.relayClient.inj (hunique _ ⟨c', hk'⟩)
      · intro o ho
        rcases hended o ho with rfl | rfl
        · obtain ⟨fd', e⟩ := hpending ho
          cases e
        · rfl
  · -- it has ended
    have hnotPending : ¬ g.InCustody id .pending := by
      intro ho
      obtain ⟨fd, ⟨conn, c, hc, hfd, hf⟩, -⟩ := ho
      exact hno _ c (h.pending_has hc hfd hf)
    have hnotRelay : ¬ g.InCustody id .relayConn := by
      intro ho
      obtain ⟨fd, ⟨r, c, hr, hhas, hf⟩, -⟩ := ho
      rcases h.relay_has hr hhas hf with hk | hk
      · exact hno _ c hk
      · exact hno _ c hk
    rcases Nat.eq_zero_or_pos (g.fds.sends id) with hs | hs
    · refine ⟨.closed, show 0 < g.fds.closes id by omega, fun o ho => ?_⟩
      cases o with
      | pending => exact absurd ho hnotPending
      | relayConn => exact absurd ho hnotRelay
      | transferred =>
          have ho : 0 < g.fds.sends id := ho
          omega
      | closed => rfl
    · refine ⟨.transferred, hs, fun o ho => ?_⟩
      cases o with
      | pending => exact absurd ho hnotPending
      | relayConn => exact absurd ho hnotRelay
      | transferred => rfl
      | closed =>
          have ho : 0 < g.fds.closes id := ho
          omega

/-- The places of an object. -/
theorem hasObject_iff {mem : FileId} {k : MemSlot} :
    g.HasObject mem k ↔ ∃ addr, g.memSlots none k = some (addr, mem) := by
  cases k with
  | conn fd =>
      show (∃ conn, g.pending fd = some conn ∧ conn.mem = mem) ↔ _
      cases hc : g.pending fd with
      | none => simp [memSlots, hc]
      | some conn => simp [memSlots, hc]
  | payload fd =>
      show (∃ r, g.relayConns fd = some r ∧ r.core.payload.isSome ∧ r.mem = mem) ↔ _
      cases hr : g.relayConns fd with
      | none => simp [memSlots, hr]
      | some r => simp [memSlots, hr, Relay.memHeld]
  | hand =>
      show False ↔ _
      simp [memSlots]

/-- **Each object is in one entry, or has been freed once.** -/
theorem Inv.freed_once (h : Inv g none none) {mem : FileId} (hfirst : g.heap_first ≤ mem)
    (hlt : mem < g.heap.next) :
    ((∃! k, g.HasObject mem k) ∧ g.heap.closes mem = 0)
      ∨ ((∀ k, ¬ g.HasObject mem k) ∧ g.heap.closes mem = 1) := by
  rcases h.heap.exactly_one hfirst hlt with ⟨hheld, hcloses, -⟩ | ⟨hno, hone⟩
  · left
    refine ⟨?_, hcloses⟩
    simp only [hasObject_iff]
    exact hheld
  · right
    refine ⟨fun k hk => ?_, ?_⟩
    · obtain ⟨addr, hk⟩ := hasObject_iff.mp hk
      exact hno k addr hk
    · -- objects are not sent away
      have hsends : g.heap.sends mem = 0 := Nat.eq_zero_of_not_pos fun hs => h.heap.sent hs
      omega

theorem LoopInv.linear (h : LoopInv g) : Linear g where
  keys_disjoint := fun fd => by
    cases hc : g.pending fd with
    | none => exact Or.inl rfl
    | some c =>
        right
        cases hr : g.relayConns fd with
        | none => rfl
        | some r => exact nomatch h.inv.fds.inj (h.inv.pending_slot hc) (h.inv.relay_slot hr)
  pending_key := h.inv.conn
  relay_key := h.inv.relay
  pending_open := fun _ _ hc => h.inv.fds.isOpen (h.inv.pending_slot hc)
  relay_open := fun _ _ hr => h.inv.fds.isOpen (h.inv.relay_slot hr)
  client := fun _ hid => h.inv.in_custody hid
  ended_once := h.inv.fds.ended_le_one
  no_fault := h.inv.fds.no_fault
  known := fun e he => h.inv.registered_key (h.batch_registered e he).1
  freed := fun _ hfirst hlt => h.inv.freed_once hfirst hlt
  heap_no_fault := h.inv.heap.no_fault

/-- **Descriptors and objects are owned linearly in every reachable state of the loop**,
whatever its calls return; and `bench2gw_send_fd` disposes of its descriptor on every path. -/
theorem gateway_linear (β : Type*) (layout : Layout S n) :
    (∀ g, (gatewaySystem β layout).Reachable g → Linear g)
      ∧ ∀ (t : FdTable) (fd : Fd) (id : FileId) (args_ok : Bool) (o : DispatchCalls), t.Ok →
        t.files fd = some id → t.epoll fd = false →
        (∀ t fd, o.socket t = some fd → t.files fd = none) →
        Released t (bench2gw_send_fd t fd id args_ok o).1 id := by
  constructor
  · intro g h
    have hloop : LoopInv g := by
      refine h.invariant LoopInv ?_ ?_
      · exact fun _ hinit => LoopInv.initial hinit
      · exact fun _ _ _ hinv hst => hinv.step hst
    exact hloop.linear
  · intro t fd id args_ok o ht hid hep hfresh
    exact Released.of_scope (bench2gw_send_fd_scope ht hid args_ok hep hfresh) ht hid
      List.mem_cons_self

/-! ### One relay -/

/-- A gateway after its set-up: descriptor 3 is the listening one, 4 the relay's. -/
def listening : Gateway 140 where
  fds := { (FdTable.single 3).opened 4 with epoll := fun fd => fd = 3 || fd = 4 }
  heap := ⟨fun _ => none, fun _ => false, 0, fun _ => 0, fun _ => 0, 0⟩
  pending := fun _ => none
  relayConns := fun _ => none
  listenFD := 3
  listen_file := 0
  relayFD := 4
  relay_file := 1
  first := 2
  heap_first := 0
  mask := fun _ => relayEvents
  batch := []
  accepting := .none
  clients := []

theorem listening_initial : Gateway.Initial listening where
  ok := ((FdTable.single_ok 3).opened rfl).congr rfl rfl rfl rfl
  faults := rfl
  sends := fun _ => rfl
  first := rfl
  listen := rfl
  relay := rfl
  apart := by decide
  epoll := fun fd he => by
    have he : (decide (fd = 3) || decide (fd = 4)) = true := he
    show fd = 3 ∨ fd = 4
    simpa using he
  heap_ok := by
    constructor
    · intro addr mem hf
      cases hf
    · intro addr addr' mem hf
      cases hf
    · exact fun _ => ⟨rfl, rfl⟩
    · intro mem hlt
      exact absurd hlt (Nat.not_lt_zero mem)
    · exact fun _ => ⟨rfl, rfl⟩
  heap_faults := rfl
  heap_sends := fun _ => rfl
  heap_epoll := fun _ => rfl
  heap_first := rfl
  pending := fun _ => rfl
  relayConns := fun _ => rfl
  batch := rfl
  accepting := rfl
  clients := rfl

/-- EPOLLIN. -/
def readable : EpollFlags := ⟨true, false, false, false, false⟩

theorem area4_id (a : Area 4) : id (id a) = a := rfl

/-- A payload with 4-byte sessions. -/
def layout4 : Layout (Area 4) 140 := .packed id id area4_id

/-- A worker connects: the gateway accepts descriptor 5 … -/
def connected : Gateway 140 :=
  { handle_accept_relay { listening with batch := [], accepting := .relays }
      ⟨5, some (100, Area.zero 140), true⟩ with accepting := .none }

/-- … and receives the client 6 with a payload for the function `b`. -/
def relayed : EventCalls Unit where
  recv := .ret (.data (layout4.bytes ⟨BENCH2_KA_MAGIC, BENCH2_KA_VERSION, Area.zero 4,
    targetOf (ascii "b")⟩).bytes false (some ⟨true, [6]⟩))
  step := ⟨.want_read, false, 0, none, fun _ _ => none⟩
  peek_buf_sz := 0
  epoll_mod_ok := true
  dispatch := ⟨fun t => if t.files 7 = none then some 7 else none, true, true⟩

theorem connected_reachable : (gatewaySystem Unit layout4).Reachable connected := by
  have hwait : (gatewaySystem Unit layout4).Reachable { listening with batch := [(4, readable)] } :=
    .step (.init listening_initial) (.wait [(4, readable)] rfl rfl (by decide) (by decide +kernel))
  refine .step (.step (.step hwait (.listenRelay rfl rfl (by decide)))
    (.acceptRelay ⟨5, some (100, Area.zero 140), true⟩ rfl rfl ?_)) (.accepted (by decide))
  intro addr malloced _
  rfl

theorem relayed_ok : EventOk { connected with batch := [(5, readable)] } relayed where
  recv := fun bytes ctrunc c e => by
    injection e with e
    injection e with e₁ e₂ e₃
    injection e₃ with e₃
    intro fd hfd
    subst e₃
    have hfd : fd = 6 := List.mem_singleton.mp hfd
    subst hfd
    refine ⟨rfl, ?_, e₂.symm, rfl⟩
    rw [← e₁]
    decide +kernel
  socket := fun t fd e => by
    have e : (if t.files 7 = none then some 7 else none) = some fd := e
    split at e
    next hfree =>
      cases e
      exact hfree
    next => cases e

/-- The client is given to a worker, and nothing of the relay is left. -/
theorem gateway_linear_relayed :
    Linear (handle_event { connected with batch := [] } layout4 5 readable relayed)
      ∧ (handle_event { connected with batch := [] } layout4 5 readable relayed).fds.sends 3 = 1
      ∧ Released (FdTable.single 5) (bench2gw_send_fd (FdTable.single 5) 5 0 true
          ⟨fun _ => none, true, true⟩).1 0 := by
  refine ⟨(gateway_linear Unit layout4).1 _ (.step (.step connected_reachable
      (.wait [(5, readable)] rfl rfl (by decide) (by decide +kernel)))
      (.event relayed rfl rfl (by decide) (by decide) relayed_ok)), by decide +kernel,
    (gateway_linear Unit layout4).2 (FdTable.single 5) 5 0 true ⟨fun _ => none, true, true⟩
      (FdTable.single_ok 5) rfl rfl nofun⟩

end TlsMigration.Bench2gw.Gateway
