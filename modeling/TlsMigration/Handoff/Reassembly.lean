/-
  TlsMigration.Handoff.Reassembly
  ───────────────────────────────
  **THE INCREMENTAL HANDOFF** (`handoff_recv_nb` of bench2_proto_worker.c and
  `relayConn.recv` of the gateway's server.go).

  Both collect one payload of `n` bytes and one descriptor from a stream
  socket, a `recvmsg` at a time; the C function answers 0 / 1 / -1, the Go
  method a Boolean and an error.  Each is shown to simulate one abstract
  collector, which keeps all that has arrived, and they agree through it:

    • `handoff_sim`, `relay_sim`  — one call against the collector;
    • `collect_run`               — the collector over a whole delivery;
    • `reassemblers_agree`        — the two together.
-/
import TlsMigration.Handoff.UnixStream
import TlsMigration.Lib.Polling

namespace TlsMigration.Handoff

variable {n : Nat}

/-! ## §1. The two receivers. -/

/-- What `recvmsg(MSG_DONTWAIT)` ends with (the last call of the C side's loop
over EINTR; for the Go side EINTR is one of the errors). -/
inductive NbRecv where
  /-- EAGAIN or EWOULDBLOCK -/
  | wouldBlock
  | ret (r : RecvResult)

/-- `handoff_conn_t`; a descriptor `-1` is `none`. -/
structure HandoffConn (n : Nat) where
  fd : Option Fd
  client_fd : Option Fd
  len : Nat
  payload : Area n

/-- `rcvd` more bytes are in the buffer. -/
def HandoffConn.advance (h : HandoffConn n) (rcvd : Nat) : HandoffConn n × Int :=
  let h := { h with len := h.len + rcvd }
  (h, if h.len < n then 0 else if h.client_fd.isSome then 1 else -1)

/-- `handoff_recv_nb`: the connection, the return value, and the descriptors closed. -/
def handoff_recv_nb (h : HandoffConn n) (answer : NbRecv) :
    (HandoffConn n × Int) × List Fd :=
  if h.fd.isNone then ((h, -1), [])
  else if n ≤ h.len then ((h, if h.client_fd.isSome then 1 else -1), [])
  else
    match answer with
    | .wouldBlock => ((h, 0), [])
    | .ret .error => ((h, -1), [])
    | .ret (.data bytes ctrunc cmsg) =>
        let h := { h with payload := h.payload.writeAt h.len bytes }
        if bytes.length = 0 || ctrunc then ((h, -1), [])
        else
          match cmsg with
          | none => (h.advance bytes.length, [])
          | some c =>
              -- the length test allows exactly one descriptor
              match c.scm_rights, c.fds with
              | true, [received_fd] =>
                  if h.client_fd.isSome then (h.advance bytes.length, [received_fd])
                  else ({ h with client_fd := some received_fd }.advance bytes.length, [])
              | _, _ => ((h, -1), [])

/-- The errors of `relayConn.recv`. -/
inductive RelayError where
  /-- `err` of a failed system call or of a control message that does not parse -/
  | sys
  | text (msg : String)
  deriving DecidableEq

/-- `relayConn`; a descriptor `-1` and a nil payload are `none`. -/
structure RelayConn (n : Nat) where
  fd : Option Fd
  clientFD : Option Fd
  off : Nat
  payload : Option (Area n)

/-- The loop over the descriptors of one control message: the first one is kept
unless there is one already, every other one is closed. -/
def RelayConn.takeFds (r : RelayConn n) : List Fd → RelayConn n × List Fd
  | [] => (r, [])
  | fd :: fds =>
      if r.clientFD.isSome then
        let rest := r.takeFds fds
        (rest.1, fd :: rest.2)
      else { r with clientFD := some fd }.takeFds fds

/-- `n` more bytes are in the buffer. -/
def RelayConn.advance (r : RelayConn n) (rcvd : Nat) : RelayConn n × Except RelayError Bool :=
  let r := { r with off := r.off + rcvd }
  if r.off < n then (r, .ok false)
  else if r.clientFD.isNone then (r, .error (.text "relay payload completed without fd"))
  else (r, .ok true)

/-- `relayConn.recv`: the connection, the return values, and the descriptors closed. -/
def RelayConn.recv (r : RelayConn n) (answer : NbRecv) :
    (RelayConn n × Except RelayError Bool) × List Fd :=
  match r.fd, r.payload with
  | none, _ => ((r, .error (.text "invalid relay connection")), [])
  | _, none => ((r, .error (.text "invalid relay connection")), [])
  | some _, some payload =>
      if n ≤ r.off then ((r, .ok r.clientFD.isSome), [])
      else
        match answer with
        | .wouldBlock => ((r, .ok false), [])
        | .ret .error => ((r, .error .sys), [])
        | .ret (.data bytes ctrunc cmsg) =>
            let r := { r with payload := some (payload.writeAt r.off bytes) }
            if bytes.length = 0 || ctrunc then
              ((r, .error (.text "relay recvmsg closed/truncated")), [])
            else
              match cmsg with
              | none => (r.advance bytes.length, [])
              | some c =>
                  if c.scm_rights then
                    let (r, closed) := r.takeFds c.fds
                    (r.advance bytes.length, closed)
                  else ((r, .error .sys), [])

/-- The state `handle_listen_fd` and `newRelayConn` start from: no descriptor yet,
nothing received. -/
def HandoffConn.start (fd : Fd) : HandoffConn n := ⟨some fd, none, 0, Area.zero n⟩

/-- The Go payload is fresh from malloc. -/
def RelayConn.start (fd : Fd) (malloced : Area n) : RelayConn n := ⟨some fd, none, 0, some malloced⟩

/-! ## §2. The callers' loops. -/

inductive Outcome where
  | incomplete
  | complete
  | failed
  deriving DecidableEq

def Outcome.again (o : Outcome) : Bool := o = .incomplete

/-- `handle_handoff_fd`: 0 waits, 1 delivers, a negative value gives up. -/
def outcomeOfRc (rc : Int) : Outcome :=
  if rc = 0 then .incomplete else if rc < 0 then .failed else .complete

/-- The relay branch of `Run`. -/
def outcomeOfRecv : Except RelayError Bool → Outcome
  | .error _ => .failed
  | .ok false => .incomplete
  | .ok true => .complete

/-- One call by `handle_handoff_fd`; the state carries the descriptors closed so far. -/
def handoffCall (s : HandoffConn n × List Fd) (answer : NbRecv) :
    (HandoffConn n × List Fd) × Outcome :=
  let r := handoff_recv_nb s.1 answer
  ((r.1.1, s.2 ++ r.2), outcomeOfRc r.1.2)

/-- One call by `Run`. -/
def relayCall (s : RelayConn n × List Fd) (answer : NbRecv) :
    (RelayConn n × List Fd) × Outcome :=
  let r := s.1.recv answer
  ((r.1.1, s.2 ++ r.2), outcomeOfRecv r.1.2)

/-! ## §3. Deliveries and the collector. -/

/-- One step of a delivery. -/
inductive Delivery where
  | wouldBlock
  | chunk (bytes : Bytes) (fd : Option Fd)
  deriving DecidableEq

namespace Delivery

def answer : Delivery → NbRecv
  | .wouldBlock => .wouldBlock
  | .chunk bytes fd => .ret (.data bytes false (rightsCmsg fd.toList))

def bytes : Delivery → Bytes
  | .wouldBlock => []
  | .chunk bytes _ => bytes

def fds : Delivery → List Fd
  | .wouldBlock => []
  | .chunk _ fd => fd.toList

end Delivery

/-- The bytes a delivery brings. -/
def bytesOf (ds : List Delivery) : Bytes := (ds.map Delivery.bytes).flatten

/-- The descriptors a delivery brings, in order. -/
def fdsOf (ds : List Delivery) : List Fd := (ds.map Delivery.fds).flatten

@[simp] theorem bytesOf_nil : bytesOf [] = [] := rfl
@[simp] theorem fdsOf_nil : fdsOf [] = [] := rfl

@[simp] theorem bytesOf_cons (d : Delivery) (ds : List Delivery) :
    bytesOf (d :: ds) = d.bytes ++ bytesOf ds := by simp [bytesOf]

@[simp] theorem fdsOf_cons (d : Delivery) (ds : List Delivery) :
    fdsOf (d :: ds) = d.fds ++ fdsOf ds := by simp [fdsOf]

/-- No chunk is empty. -/
def Nonempty (ds : List Delivery) : Prop := ∀ b fd, .chunk b fd ∈ ds → b ≠ []

/-- `ds` delivers the payload in nonempty chunks. -/
structure Delivers (payload : Area n) (ds : List Delivery) : Prop where
  nonempty : Nonempty ds
  bytes_eq : bytesOf ds = payload.bytes

/-- Without bytes there are no chunks, so no descriptors either. -/
theorem fdsOf_of_bytesOf_nil {ds : List Delivery} (hne : Nonempty ds) (h : bytesOf ds = []) :
    fdsOf ds = [] := by
  induction ds with
  | nil => rfl
  | cons d ds ih =>
      obtain ⟨hd, hds⟩ := List.append_eq_nil_iff.mp ((bytesOf_cons d ds).symm.trans h)
      rw [fdsOf_cons, ih (fun b fd hm => hne b fd (by simp [hm])) hds, List.append_nil]
      cases d with
      | wouldBlock => rfl
      | chunk b fd => exact absurd hd (hne b fd (by simp))

/-- The collector: everything that has arrived. -/
structure Collected where
  got : Bytes
  fds : List Fd

def Collected.empty : Collected := ⟨[], []⟩

def Collected.add (m : Collected) (d : Delivery) : Collected :=
  ⟨m.got ++ d.bytes, m.fds ++ d.fds⟩

/-- What the arrived bytes and descriptors amount to for a payload of `n` bytes. -/
def Collected.outcome (n : Nat) (m : Collected) : Outcome :=
  if m.got.length < n then .incomplete
  else if m.fds = [] then .failed
  else .complete

def collectCall (n : Nat) (m : Collected) (d : Delivery) : Collected × Outcome :=
  (m.add d, (m.add d).outcome n)

/-- **The collector over a delivery**: incomplete until the last byte, and then
decided by whether a descriptor came. -/
theorem collect_run :
    ∀ (ds : List Delivery) (m : Collected), Nonempty ds → m.got.length < n →
      m.got.length + (bytesOf ds).length = n →
      (pollUntil (collectCall n) Outcome.again m ds).1
          = ⟨m.got ++ bytesOf ds, m.fds ++ fdsOf ds⟩
        ∧ ∃ pre last post, ds = pre ++ last :: post
          ∧ m.got.length + (bytesOf pre).length < n
          ∧ m.got.length + (bytesOf pre).length + last.bytes.length = n
          ∧ (pollUntil (collectCall n) Outcome.again m ds).2
            = pre.map (fun _ => Outcome.incomplete)
              ++ [if m.fds ++ fdsOf ds = [] then .failed else .complete] := by
  intro ds
  induction ds with
  | nil =>
      intro m _ hlt heq
      simp at heq
      omega
  | cons d ds ih =>
      intro m hne hlt heq
      have hne' : Nonempty ds := fun b fd h => hne b fd (by simp [h])
      have hlen : (m.add d).got.length = m.got.length + d.bytes.length := by
        simp [Collected.add]
      by_cases hd : (m.add d).got.length < n
      · -- not the last byte: the collector waits and the induction takes over
        have hout : (collectCall n m d).2 = .incomplete := by
          simp only [collectCall, Collected.outcome, hd, if_true]
        have hag : Outcome.again (collectCall n m d).2 = true := by
          rw [hout]
          rfl
        obtain ⟨hstate, pre, last, post, hsplit, hpre, hlast, houts⟩ :=
          ih (m.add d) hne' hd (by simp at heq ⊢; omega)
        rw [pollUntil_again ds hag, hout]
        refine ⟨?_, d :: pre, last, post, by rw [hsplit]; rfl, ?_, ?_, ?_⟩
        · show (pollUntil (collectCall n) Outcome.again (m.add d) ds).1 = _
          rw [hstate]
          simp [Collected.add]
        · rw [bytesOf_cons, List.length_append]
          omega
        · rw [bytesOf_cons, List.length_append]
          omega
        · show Outcome.incomplete ::
              (pollUntil (collectCall n) Outcome.again (m.add d) ds).2 = _
          rw [houts]
          simp [Collected.add]
      · -- the last byte: what is left can only be would-blocks
        have hnil : bytesOf ds = [] := by
          apply List.eq_nil_of_length_eq_zero
          simp at heq
          omega
        have hfds : fdsOf ds = [] := fdsOf_of_bytesOf_nil hne' hnil
        have hout : (collectCall n m d).2
            = if m.fds ++ fdsOf (d :: ds) = [] then .failed else .complete := by
          rw [fdsOf_cons, hfds, List.append_nil]
          simp only [collectCall, Collected.outcome, hd, if_false]
          rfl
        have hag : Outcome.again (collectCall n m d).2 = false := by
          rw [hout]
          split <;> rfl
        rw [pollUntil_done ds hag, hout]
        refine ⟨?_, [], d, ds, rfl, by simpa using hlt, ?_, by simp⟩
        rotate_left
        · simp [hnil] at heq
          simp
          omega
        simp [collectCall, Collected.add, hnil, hfds]

/-! ## §4. Both receivers simulate the collector. -/

/-- What the worker's connection holds of the arrivals. -/
structure HandoffConn.Holds (s : HandoffConn n × List Fd) (m : Collected) : Prop where
  live : s.1.fd.isSome
  len_eq : s.1.len = m.got.length
  bytes_eq : s.1.payload.bytes.take m.got.length = m.got
  fd_eq : s.1.client_fd = m.fds.head?
  closed_eq : s.2 = m.fds.tail

/-- What the gateway's connection holds of them. -/
structure RelayConn.Holds (s : RelayConn n × List Fd) (m : Collected) : Prop where
  live : s.1.fd.isSome
  off_eq : s.1.off = m.got.length
  bytes_eq : ∃ area, s.1.payload = some area ∧ area.bytes.take m.got.length = m.got
  fd_eq : s.1.clientFD = m.fds.head?
  closed_eq : s.2 = m.fds.tail

/-- Copying a chunk behind the bytes that arrived before it. -/
theorem take_writeAt_add {area : Area n} {got b : Bytes}
    (hgot : area.bytes.take got.length = got) (hfit : got.length + b.length ≤ n) :
    (area.writeAt got.length b).bytes.take (got ++ b).length = got ++ b := by
  rw [List.length_append, Area.take_writeAt hfit, hgot]

/-- The descriptors after one more arrival: the first of all is kept, the others
are closed. -/
theorem head_tail_add (fds : List Fd) (fd : Option Fd) :
    (fds ++ fd.toList).head? = fds.head?.or fd
      ∧ (fds ++ fd.toList).tail = fds.tail ++ (if fds.head?.isSome then fd.toList else []) := by
  cases fds with
  | nil => cases fd <;> exact ⟨rfl, rfl⟩
  | cons x xs => cases fd <;> exact ⟨rfl, rfl⟩

/-- How the worker's buffer advances, whatever happened to the descriptor. -/
theorem HandoffConn.advance_holds {h : HandoffConn n} {got b : Bytes} {area : Area n}
    {closed fds : List Fd} (hlive : h.fd.isSome) (hlen : h.len = got.length)
    (hpayload : h.payload = area.writeAt got.length b)
    (hgot : area.bytes.take got.length = got) (hfit : got.length + b.length ≤ n)
    (hfd : h.client_fd = fds.head?) (hclosed : closed = fds.tail) :
    outcomeOfRc (h.advance b.length).2 = (⟨got ++ b, fds⟩ : Collected).outcome n
      ∧ HandoffConn.Holds ((h.advance b.length).1, closed) ⟨got ++ b, fds⟩ := by
  refine ⟨?_, hlive, ?_, ?_, hfd, hclosed⟩
  · simp only [HandoffConn.advance, Collected.outcome, hlen, List.length_append, hfd]
    split
    · rfl
    · cases fds with
      | nil => rfl
      | cons fd fds => rfl
  · show h.len + b.length = (got ++ b).length
    rw [hlen, List.length_append]
  · show h.payload.bytes.take _ = _
    rw [hpayload]
    exact take_writeAt_add hgot hfit

/-- A nonempty chunk, with or without a descriptor, on an open connection that
still waits for bytes. -/
theorem handoffCall_chunk {s : HandoffConn n × List Fd} {b : Bytes} {fd : Option Fd}
    (hopen : s.1.fd.isSome) (hroom : s.1.len < n) (hb : b ≠ []) :
    handoffCall s (Delivery.chunk b fd).answer
      = let h : HandoffConn n := { s.1 with
          payload := s.1.payload.writeAt s.1.len b, client_fd := s.1.client_fd.or fd }
        (((h.advance b.length).1,
            s.2 ++ (if s.1.client_fd.isSome then fd.toList else [])),
          outcomeOfRc (h.advance b.length).2) := by
  have hopen : s.1.fd.isNone = false := by simpa using hopen
  have hroom : ¬ n ≤ s.1.len := by omega
  have hb : (b.length = 0 || false) = false := by simpa using hb
  cases fd with
  | none =>
      simp only [handoffCall, handoff_recv_nb, Delivery.answer, rightsCmsg, Option.toList,
        hopen, hroom, hb, if_false, if_true, Bool.false_eq_true, Option.or_none, ite_self]
  | some fd =>
      have hcmsg : rightsCmsg (some fd).toList = some ⟨true, [fd]⟩ := rfl
      simp only [handoffCall, handoff_recv_nb, Delivery.answer, hcmsg,
        hopen, hroom, hb, if_false, Bool.false_eq_true]
      cases s.1.client_fd with
      | none => rfl
      | some fd' => rfl

theorem handoffCall_holds {s : HandoffConn n × List Fd} {m : Collected} {d : Delivery}
    (hs : HandoffConn.Holds s m) (hlt : m.got.length < n)
    (hfit : m.got.length + d.bytes.length ≤ n) (hne : Nonempty [d]) :
    (handoffCall s d.answer).2 = (m.add d).outcome n
      ∧ HandoffConn.Holds (handoffCall s d.answer).1 (m.add d) := by
  have hroom : s.1.len < n := by
    rw [hs.len_eq]
    exact hlt
  cases d with
  | wouldBlock =>
      have hopen : s.1.fd.isNone = false := by simpa using hs.live
      have hcall : handoffCall s (.wouldBlock) = (s, .incomplete) := by
        simp only [handoffCall, handoff_recv_nb, hopen, Nat.not_le.mpr hroom, if_false,
          Bool.false_eq_true, List.append_nil]
        rfl
      have hadd : m.add .wouldBlock = m := by simp [Collected.add, Delivery.bytes, Delivery.fds]
      rw [Delivery.answer, hcall, hadd]
      exact ⟨by simp only [Collected.outcome, hlt, if_true], hs⟩
  | chunk b fd =>
      obtain ⟨hhead, htail⟩ := head_tail_add m.fds fd
      rw [handoffCall_chunk hs.live hroom (hne b fd (by simp))]
      exact HandoffConn.advance_holds hs.live hs.len_eq (by rw [hs.len_eq]) hs.bytes_eq
        hfit (by rw [hs.fd_eq]; exact hhead.symm)
        (by rw [hs.closed_eq, hs.fd_eq]; exact htail.symm)

/-- How the gateway's buffer advances. -/
theorem RelayConn.advance_holds {r : RelayConn n} {got b : Bytes} {area : Area n}
    {closed fds : List Fd} (hlive : r.fd.isSome) (hoff : r.off = got.length)
    (hpayload : r.payload = some (area.writeAt got.length b))
    (hgot : area.bytes.take got.length = got) (hfit : got.length + b.length ≤ n)
    (hfd : r.clientFD = fds.head?) (hclosed : closed = fds.tail) :
    outcomeOfRecv (r.advance b.length).2 = (⟨got ++ b, fds⟩ : Collected).outcome n
      ∧ RelayConn.Holds ((r.advance b.length).1, closed) ⟨got ++ b, fds⟩ := by
  have hfst : (r.advance b.length).1 = { r with off := r.off + b.length } := by
    simp only [RelayConn.advance]
    split
    · rfl
    · split <;> rfl
  refine ⟨?_, ?_⟩
  · simp only [RelayConn.advance, Collected.outcome, hoff, List.length_append, hfd]
    split
    · rfl
    · cases fds with
      | nil => rfl
      | cons fd fds => rfl
  · rw [hfst]
    refine ⟨hlive, ?_, ⟨_, hpayload, take_writeAt_add hgot hfit⟩, hfd, hclosed⟩
    show r.off + b.length = (got ++ b).length
    rw [hoff, List.length_append]

theorem relayCall_chunk {s : RelayConn n × List Fd} {area : Area n} {b : Bytes}
    {fd : Option Fd} (hopen : s.1.fd.isSome) (harea : s.1.payload = some area)
    (hroom : s.1.off < n) (hb : b ≠ []) :
    relayCall s (Delivery.chunk b fd).answer
      = let r : RelayConn n := { s.1 with
          payload := some (area.writeAt s.1.off b), clientFD := s.1.clientFD.or fd }
        (((r.advance b.length).1,
            s.2 ++ (if s.1.clientFD.isSome then fd.toList else [])),
          outcomeOfRecv (r.advance b.length).2) := by
  obtain ⟨⟨rfd, clientFD, off, payload⟩, closed⟩ := s
  simp only at hopen harea hroom
  subst harea
  obtain ⟨rfd, rfl⟩ := Option.isSome_iff_exists.mp hopen
  have hroom : ¬ n ≤ off := by omega
  have hb : (b.length = 0 || false) = false := by simpa using hb
  cases fd with
  | none =>
      simp only [relayCall, RelayConn.recv, Delivery.answer, rightsCmsg, Option.toList,
        hroom, hb, if_false, if_true, Bool.false_eq_true, Option.or_none, ite_self]
  | some fd =>
      have hcmsg : rightsCmsg (some fd).toList = some ⟨true, [fd]⟩ := rfl
      simp only [relayCall, RelayConn.recv, Delivery.answer, hcmsg, RelayConn.takeFds,
        hroom, hb, if_false, if_true, Bool.false_eq_true]
      cases clientFD with
      | none => rfl
      | some fd' => rfl

theorem relayCall_holds {s : RelayConn n × List Fd} {m : Collected} {d : Delivery}
    (hs : RelayConn.Holds s m) (hlt : m.got.length < n)
    (hfit : m.got.length + d.bytes.length ≤ n) (hne : Nonempty [d]) :
    (relayCall s d.answer).2 = (m.add d).outcome n
      ∧ RelayConn.Holds (relayCall s d.answer).1 (m.add d) := by
  have hroom : s.1.off < n := by
    rw [hs.off_eq]
    exact hlt
  obtain ⟨area, harea, hbytes⟩ := hs.bytes_eq
  cases d with
  | wouldBlock =>
      have hcall : relayCall s (.wouldBlock) = (s, .incomplete) := by
        obtain ⟨rfd, hrfd⟩ := Option.isSome_iff_exists.mp hs.live
        simp only [relayCall, RelayConn.recv, hrfd, harea, Nat.not_le.mpr hroom, if_false,
          List.append_nil]
        rfl
      have hadd : m.add .wouldBlock = m := by simp [Collected.add, Delivery.bytes, Delivery.fds]
      rw [Delivery.answer, hcall, hadd]
      exact ⟨by simp only [Collected.outcome, hlt, if_true], hs⟩
  | chunk b fd =>
      obtain ⟨hhead, htail⟩ := head_tail_add m.fds fd
      rw [relayCall_chunk hs.live harea hroom (hne b fd (by simp))]
      exact RelayConn.advance_holds hs.live hs.off_eq (by rw [hs.off_eq]) hbytes
        hfit (by rw [hs.fd_eq]; exact hhead.symm)
        (by rw [hs.closed_eq, hs.fd_eq]; exact htail.symm)

/-! ## §5. Whole deliveries. -/

/-- The receiver and the collector stand at the same point of a delivery, with `ds`
still to come and the last byte among them. -/
def Awaits {σ : Type*} (n : Nat) (Holds : σ → Collected → Prop) (ds : List Delivery) (s : σ)
    (m : Collected) : Prop :=
  Holds s m ∧ m.got.length < n ∧ m.got.length + (bytesOf ds).length = n ∧ Nonempty ds

/-- A receiver that meets the collector in every single call meets it in the whole
loop: `Holds` is its relation to the arrivals. -/
theorem receiver_run {σ : Type*} {call : σ → NbRecv → σ × Outcome}
    {Holds : σ → Collected → Prop}
    (hcall : ∀ s m d, Holds s m → m.got.length < n → m.got.length + d.bytes.length ≤ n →
      Nonempty [d] → (call s d.answer).2 = (m.add d).outcome n
        ∧ Holds (call s d.answer).1 (m.add d))
    {payload : Area n} {ds : List Delivery} (hn : 0 < n) (hds : Delivers payload ds)
    {s : σ} (hs : Holds s .empty) :
    Holds (pollUntil call Outcome.again s (ds.map Delivery.answer)).1
        ⟨payload.bytes, fdsOf ds⟩
      ∧ (pollUntil call Outcome.again s (ds.map Delivery.answer)).2
        = (pollUntil (collectCall n) Outcome.again .empty ds).2 := by
  have hlen : (Collected.empty).got.length + (bytesOf ds).length = n := by
    simp [Collected.empty, hds.bytes_eq]
  have hstep : ∀ d ds s m, Awaits n Holds (d :: ds) s m →
      (call s d.answer).2 = (collectCall n m d).2
        ∧ (Outcome.again (call s d.answer).2 = true →
            Awaits n Holds ds (call s d.answer).1 (collectCall n m d).1)
        ∧ (Outcome.again (call s d.answer).2 = false →
            Holds (call s d.answer).1 (collectCall n m d).1) := by
    rintro d ds s m ⟨hs, hlt, heq, hne⟩
    rw [bytesOf_cons, List.length_append] at heq
    obtain ⟨hout, hnext⟩ := hcall s m d hs hlt (by omega)
      (fun b fd h => hne b fd (by simp [List.mem_singleton.mp h]))
    refine ⟨hout, fun hag => ⟨hnext, ?_, ?_, fun b fd h => hne b fd (by simp [h])⟩,
      fun _ => hnext⟩
    · -- asking again means that the last byte is not there
      rw [hout, Collected.outcome] at hag
      split at hag
      next h => exact h
      next => split at hag <;> simp [Outcome.again] at hag
    · simp only [collectCall, Collected.add, List.length_append]
      omega
  obtain ⟨houts, hend⟩ := pollUntil_sim (Awaits n Holds) Holds hstep ds s .empty
    ⟨hs, hn, hlen, hds.nonempty⟩
  obtain ⟨hfin, -⟩ := collect_run ds .empty hds.nonempty hn hlen
  rw [pollUntil_map]
  refine ⟨?_, houts⟩
  rw [hfin, hds.bytes_eq] at hend
  rcases hend with ⟨h, -⟩ | h
  · exact h
  · exact h

theorem HandoffConn.start_holds (fd : Fd) :
    HandoffConn.Holds ((HandoffConn.start fd : HandoffConn n), []) .empty :=
  ⟨rfl, rfl, rfl, rfl, rfl⟩

theorem RelayConn.start_holds (fd : Fd) (malloced : Area n) :
    RelayConn.Holds (RelayConn.start fd malloced, []) .empty :=
  ⟨rfl, rfl, ⟨malloced, rfl, rfl⟩, rfl, rfl⟩

/-- The loop of `handle_handoff_fd` over a delivery. -/
def handoffRun (fd : Fd) (ds : List Delivery) : (HandoffConn n × List Fd) × List Outcome :=
  pollUntil handoffCall Outcome.again (.start fd, []) (ds.map Delivery.answer)

/-- The loop of the relay events of `Run` over a delivery. -/
def relayRun (fd : Fd) (malloced : Area n) (ds : List Delivery) :
    (RelayConn n × List Fd) × List Outcome :=
  pollUntil relayCall Outcome.again (.start fd malloced, []) (ds.map Delivery.answer)

/-- What a whole delivery must come to: the outcomes, the buffer, the descriptor
delivered and the descriptors closed. -/
structure Reassembles (payload : Area n) (ds : List Delivery) (outcomes : List Outcome)
    (buffer : Bytes) (client_fd : Option Fd) (closed : List Fd) : Prop where
  /-- incomplete until the call that gets the last byte, and then complete exactly
  when a descriptor arrived -/
  outcomes_eq : ∃ pre last post, ds = pre ++ last :: post
    ∧ (bytesOf pre).length < n
    ∧ (bytesOf pre).length + last.bytes.length = n
    ∧ outcomes = pre.map (fun _ => Outcome.incomplete)
        ++ [if fdsOf ds = [] then .failed else .complete]
  buffer_eq : buffer = payload.bytes
  first_delivered : client_fd = (fdsOf ds).head?
  others_closed : closed = (fdsOf ds).tail

/-- **The C and the Go reassembler are equal and correct**, for every payload and
every way of cutting it into chunks. -/
theorem reassemblers_agree {payload : Area n} {ds : List Delivery} (fd relay_fd : Fd)
    (malloced : Area n) (hn : 0 < n) (hds : Delivers payload ds) :
    (@handoffRun n fd ds).2 = (relayRun relay_fd malloced ds).2
      ∧ Reassembles payload ds (@handoffRun n fd ds).2
          (@handoffRun n fd ds).1.1.payload.bytes
          (@handoffRun n fd ds).1.1.client_fd
          (@handoffRun n fd ds).1.2
      ∧ ∃ buffer, (relayRun relay_fd malloced ds).1.1.payload = some buffer
          ∧ Reassembles payload ds (relayRun relay_fd malloced ds).2 buffer.bytes
              (relayRun relay_fd malloced ds).1.1.clientFD
              (relayRun relay_fd malloced ds).1.2 := by
  obtain ⟨-, pre, last, post, hsplit, hpre, hlast, houts⟩ :=
    collect_run ds .empty hds.nonempty hn (by simp [Collected.empty, hds.bytes_eq])
  simp only [Collected.empty, List.length_nil, Nat.zero_add, List.nil_append] at hpre hlast houts
  obtain ⟨hC, hCouts⟩ := receiver_run (fun _ _ _ => handoffCall_holds) hn hds
    (HandoffConn.start_holds fd)
  obtain ⟨hG, hGouts⟩ := receiver_run (fun _ _ _ => relayCall_holds) hn hds
    (RelayConn.start_holds relay_fd malloced)
  have hwhole : ∀ {area : Area n}, area.bytes.take payload.bytes.length = payload.bytes →
      area.bytes = payload.bytes := by
    intro area h
    rwa [List.take_of_length_le (by simp)] at h
  obtain ⟨area, harea, hbytes⟩ := hG.bytes_eq
  refine ⟨hCouts.trans hGouts.symm, ?_, area, harea, ?_⟩
  · exact ⟨⟨pre, last, post, hsplit, hpre, hlast, hCouts.trans houts⟩,
      hwhole hC.bytes_eq, hC.fd_eq, hC.closed_eq⟩
  · exact ⟨⟨pre, last, post, hsplit, hpre, hlast, hGouts.trans houts⟩,
      hwhole hbytes, hG.fd_eq, hG.closed_eq⟩

/-- A payload of three bytes around a would-block, a descriptor on either chunk. -/
def twoChunks : List Delivery := [.chunk [1] (some 7), .wouldBlock, .chunk [2, 3] (some 8)]

theorem twoChunks_delivers : Delivers (Area.ofBytes 3 [1, 2, 3]) twoChunks where
  nonempty := by
    intro b fd h
    simp only [twoChunks, List.mem_cons, Delivery.chunk.injEq, reduceCtorEq,
      List.not_mem_nil, or_false, false_or] at h
    rcases h with ⟨rfl, -⟩ | ⟨rfl, -⟩ <;> decide
  bytes_eq := by decide

theorem reassemblers_agree_twoChunks :
    (@handoffRun 3 5 twoChunks).2 = (relayRun 6 (Area.zero 3) twoChunks).2 :=
  (reassemblers_agree 5 6 (Area.zero 3) (by decide) twoChunks_delivers).1

/-- Asked once more after a payload without a descriptor, the C side repeats its error
while the Go side reports an unfinished transfer; neither caller asks again. -/
theorem asked_again_without_fd (h : HandoffConn n) (r : RelayConn n) (answer : NbRecv)
    (hlen : n ≤ h.len) (hoff : n ≤ r.off) (hfd : r.fd.isSome) (hpay : r.payload.isSome)
    (hnone : h.client_fd = none) (hnone' : r.clientFD = none) :
    (handoffCall (h, []) answer).2 = .failed ∧ (relayCall (r, []) answer).2 = .incomplete := by
  obtain ⟨fd, hfd⟩ := Option.isSome_iff_exists.mp hfd
  obtain ⟨area, hpay⟩ := Option.isSome_iff_exists.mp hpay
  constructor
  · simp only [handoffCall, handoff_recv_nb, hlen, hnone, if_true]
    split <;> rfl
  · simp only [relayCall, RelayConn.recv, hfd, hpay, hoff, hnone', if_true]
    rfl

end TlsMigration.Handoff
