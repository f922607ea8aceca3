/-
  TlsMigration.Vanilla.EventLoop
  ──────────────────────────────
  **ONE REQUEST AND THE EVENT LOOP OF THE VANILLA FUNCTION** (`session_step`
  and the loop in `main`, bench2_vanilla_fn.c).

  The bytes of a request arrive in any pieces, at any time, also while the
  worker is inside a call.  Events are level-triggered: EPOLLIN is reported
  while there is something to read.

    • `session_step`, `session_turn` — a call of `session_step`, cut at its
                                       calls of `recv` and `write`;
    • `connSystem`                   — the runs;
    • `no_stuck_session`             — no session waits for bytes that are
                                       there.
-/
import TlsMigration.Lib.Transition
import TlsMigration.Vanilla.Message

namespace TlsMigration.Vanilla

open TlsMigration.Http
open TlsMigration.Bench2 (headerEnd decimal wholeNumbers)

variable {F : Type*}

/-! ## §1. session_step. -/

/-- What `epoll_wait` reports of a descriptor. -/
structure Revents where
  /-- `EPOLLERR | EPOLLHUP` -/
  err_hup : Bool
  epollin : Bool
  epollout : Bool

/-- Where the worker is with a session. -/
inductive Mode where
  /-- in `epoll_wait`: the last call has returned 0 -/
  | waiting
  /-- in the `session_recv_more` of `session_step` -/
  | receiving
  /-- in `session_finish_chunked` -/
  | finishing (pc : Pc)
  /-- in the loop over `write` -/
  | writing
  /-- `session_close` -/
  | closed
  deriving DecidableEq

/-- What `write` returns. -/
inductive Write where
  | wrote (n : Nat)
  | eintr
  | eagain
  | error

/-- What the calls made between two returns of `recv` or `write` return. -/
structure TurnCalls where
  recv : RecvCalls
  write : Write
  epoll_ok : Bool

/-- The start of `session_step`, up to the first call that it makes. -/
def session_step (s : Session F) (rev : Revents) : Mode :=
  if rev.err_hup then .closed
  else
    match s.state with
    | .read_headers =>
        if rev.epollin = false then .waiting
        else if MAX_REQ_BYTES ≤ s.buf.length then .closed
        else .receiving
    | .read_body =>
        if rev.epollin = false then .waiting
        else if s.is_chunked then .finishing (Pc.start s.hdr_bytes)
        else .receiving
    | .write_resp => if rev.epollout = false then .waiting else .writing

/-- What the loop in `main` makes of the result. -/
def Mode.ofRc (rc : Int) : Mode := if rc ≠ 0 then .closed else .waiting

/-- `return session_build_response(s);` -/
def respond (cfg : Config F) (s : Session F) (epoll_ok : Bool) : Session F × Mode :=
  let r := session_build_response cfg s epoll_ok
  (r.1, Mode.ofRc r.2)

/-- `case S_READ_HEADERS`, once something has been received. -/
def headers_received (cfg : Config F) (s : Session F) (epoll_ok : Bool) : Session F × Mode :=
  let p := session_parse_headers cfg s
  if p.2 ≤ 0 then (p.1, .waiting)
  else if p.1.is_chunked = false ∧ p.1.body_target ≤ p.1.body_bytes_read then
    respond cfg p.1 epoll_ok
  else (p.1, .waiting)

/-- `case S_READ_BODY` without chunks, once something has been received. -/
def body_received (cfg : Config F) (s : Session F) (epoll_ok : Bool) : Session F × Mode :=
  let s := { s with body_bytes_read := min (s.buf.length - s.hdr_bytes) s.body_target }
  if s.body_bytes_read < s.body_target then (s, .waiting) else respond cfg s epoll_ok

/-- `case S_WRITE_RESP`: a turn of the loop, or what follows it. -/
def session_write (cfg : Config F) (s : Session F) (c : TurnCalls) : Session F × Mode :=
  if s.resp_off < s.resp.length then
    match c.write with
    | .wrote n => if 0 < n then ({ s with resp_off := s.resp_off + n }, .writing) else (s, .closed)
    | .eintr => (s, .writing)
    | .eagain => (s, .waiting)
    | .error => (s, .closed)
  else if s.should_close then (s, .closed)
  else
    let r := epoll_mod (session_reset cfg s) .epollin c.epoll_ok
    (r.1, Mode.ofRc r.2)

/-- One turn of the call: the session, where the worker is then, and what `recv` has returned. -/
def session_turn (cfg : Config F) (s : Session F) (mode : Mode) (c : TurnCalls) :
    Session F × Mode × Option Recv :=
  match mode with
  | .receiving =>
      let r := session_recv_more s c.recv
      match r.more with
      | .again => (r.s, .receiving, r.got)
      | .ret rc =>
          if rc ≤ 0 then (r.s, .closed, r.got)
          else
            let p :=
              if r.s.state = .read_headers then headers_received cfg r.s c.epoll_ok
              else body_received cfg r.s c.epoll_ok
            (p.1, p.2, r.got)
  | .finishing pc =>
      match finish_step s pc c.recv with
      | .run s pc got => (s, .finishing pc, got)
      | .done s rc got =>
          if rc ≠ 0 then (s, .closed, got)
          else
            let p := respond cfg s c.epoll_ok
            (p.1, p.2, got)
  | .writing =>
      let p := session_write cfg s c
      (p.1, p.2, none)
  | mode => (s, mode, none)

/-! ## §2. Runs. -/

/-- A session, what is to be read from its socket, and what has not arrived yet. -/
structure Conn (F : Type*) where
  s : Session F
  mode : Mode
  unread : Bytes
  future : Bytes
  /-- the response has been written -/
  answered : Bool

/-- What `epoll_wait` may report.  EPOLLIN at the end of the client's stream, with nothing left to
read, is not among it: no client here closes its half. -/
def Conn.Ready (f : Conn F) (rev : Revents) : Prop :=
  (rev.err_hup = true ∨ rev.epollin = true ∨ rev.epollout = true)
    ∧ (rev.epollin = true → f.s.events = .epollin ∧ f.unread ≠ [])
    ∧ (rev.epollout = true → f.s.events = .epollout)

/-- What `recv` may have to offer. -/
def Conn.Legal (f : Conn F) (c : TurnCalls) : Prop :=
  match c.recv.recv with
  | .data bytes => bytes <+: f.unread
  | .eagain => f.unread = []
  | _ => True

def Conn.turn (cfg : Config F) (f : Conn F) (c : TurnCalls) : Conn F :=
  let r := session_turn cfg f.s f.mode c
  { s := r.1
    mode := r.2.1
    unread := f.unread.drop (gotBytes r.2.2).length
    future := f.future
    answered := f.answered || match f.mode with
      | .writing => decide (f.s.resp.length ≤ f.s.resp_off)
      | _ => false }

inductive ConnLabel where
  | arrive (bytes : Bytes)
  | event (rev : Revents)
  | turn (c : TurnCalls)

inductive Conn.Step (cfg : Config F) : Conn F → ConnLabel → Conn F → Prop where
  | arrive {f : Conn F} (bytes rest : Bytes) : f.future = bytes ++ rest → bytes ≠ [] →
      Step cfg f (.arrive bytes) { f with unread := f.unread ++ bytes, future := rest }
  /-- `epoll_wait` reports the session. -/
  | event {f : Conn F} (rev : Revents) : f.mode = .waiting → f.Ready rev →
      Step cfg f (.event rev) { f with mode := session_step f.s rev }
  | turn {f : Conn F} (c : TurnCalls) : f.mode ≠ .waiting → f.mode ≠ .closed → f.Legal c →
      Step cfg f (.turn c) (f.turn cfg c)

/-- A session that waits for a request, and the bytes of one. -/
structure Conn.Initial (bytes : Bytes) (f : Conn F) : Prop where
  ok : f.s.Ok
  state : f.s.state = .read_headers
  buf : f.s.buf = []
  events : f.s.events = .epollin
  mode : f.mode = .waiting
  bytes : f.unread ++ f.future = bytes
  answered : f.answered = false

def connSystem (cfg : Config F) (m : Message) : TransitionSystem (Conn F) ConnLabel where
  init := Conn.Initial m.bytes
  step := Conn.Step cfg

/-- All bytes of the request have been received. -/
def Conn.AllReceived (f : Conn F) : Prop := f.unread = [] ∧ f.future = []

/-- No `recv` made in `S_READ_HEADERS` takes the last byte of a chunked request. -/
def LeavesLastByte (m : Message) (f : Conn F) : ConnLabel → Prop
  | .turn c => m.isChunked = true → f.s.state = .read_headers →
      (gotBytes (session_recv_more f.s c.recv).got).length < f.unread.length + f.future.length
  | _ => True

/-! ## §3. The invariant. -/

/-- The request is being read; what has come of it is in the buffer. -/
structure Reading (m : Message) (f : Conn F) : Prop where
  ok : f.s.Ok
  bytes : f.s.buf ++ (f.unread ++ f.future) = m.bytes
  events : f.s.events = .epollin
  fresh : f.answered = false

/-- Outside `session_step`, or about to receive bytes that are there. -/
def Conn.AtRecv (f : Conn F) : Prop := f.mode = .waiting ∨ (f.mode = .receiving ∧ f.unread ≠ [])

/-- How far a session has come with its request. -/
inductive Stage (m : Message) (f : Conn F) : Prop where
  | closed : f.mode = .closed → Stage m f
  | headers : Reading m f → f.s.state = .read_headers → f.AtRecv →
      f.s.buf.length < m.head.length → Stage m f
  | sized : Reading m f → m.isChunked = false → f.s.state = .read_body →
      f.s.is_chunked = false → f.s.hdr_bytes = m.head.length →
      f.s.body_target = m.body.length → f.AtRecv → f.s.buf.length < m.bytes.length → Stage m f
  /-- a chunked body, and a part of the request that has not been received -/
  | kept : Reading m f → m.isChunked = true → f.s.state = .read_body → f.s.is_chunked = true →
      f.s.hdr_bytes = m.head.length → f.mode = .waiting → f.unread ++ f.future ≠ [] → Stage m f
  | finishing {pc : Pc} : Reading m f → m.isChunked = true → f.s.state = .read_body →
      f.s.hdr_bytes = m.head.length → f.mode = .finishing pc → PcOk f.s.buf pc →
      SameStop f.s.buf (Pc.start m.head.length) pc → Stage m f
  | responding : f.answered = false → f.AllReceived → f.s.state = .write_resp →
      f.s.events = .epollout → (f.mode = .waiting ∨ f.mode = .writing) → Stage m f
  | answered : f.answered = true → f.AllReceived → f.s.events = .epollin → f.mode = .waiting →
      Stage m f

section Steps

variable {cfg : Config F} {m : Message} {f : Conn F}

theorem Stage.initial (h : Conn.Initial m.bytes f) : Stage m f := by
  refine .headers ⟨h.ok, ?_, h.events, h.answered⟩ h.state (Or.inl h.mode) ?_
  · rw [h.buf, List.nil_append]
    exact h.bytes
  · rw [h.buf]
    exact Nat.lt_of_le_of_lt (Nat.zero_le 4) m.request.four_lt_head

theorem Stage.arrive (h : Stage m f) {bytes rest : Bytes} (hfuture : f.future = bytes ++ rest)
    (hne : bytes ≠ []) :
    Stage m { f with unread := f.unread ++ bytes, future := rest } := by
  have hreading : Reading m f → Reading m { f with unread := f.unread ++ bytes, future := rest } := by
    intro hr
    refine ⟨hr.ok, ?_, hr.events, hr.fresh⟩
    show f.s.buf ++ (f.unread ++ bytes ++ rest) = m.bytes
    rw [List.append_assoc f.unread, ← hfuture]
    exact hr.bytes
  have hat : f.AtRecv → Conn.AtRecv { f with unread := f.unread ++ bytes, future := rest } := by
    rintro (hw | ⟨hr, hu⟩)
    · exact Or.inl hw
    · exact Or.inr ⟨hr, by simp [hu]⟩
  have hnone : f.AllReceived → False := by
    intro hall
    have hempty := hall.2
    rw [hfuture, List.append_eq_nil_iff] at hempty
    exact hne hempty.1
  cases h with
  | closed hmode => exact .closed hmode
  | headers hr hstate hrecv hlen => exact .headers (hreading hr) hstate (hat hrecv) hlen
  | sized hr hm hstate hch hhdr htarget hrecv hlen =>
      exact .sized (hreading hr) hm hstate hch hhdr htarget (hat hrecv) hlen
  | kept hr hm hstate hch hhdr hmode hleft =>
      refine .kept (hreading hr) hm hstate hch hhdr hmode ?_
      show f.unread ++ bytes ++ rest ≠ []
      rw [List.append_assoc, ← hfuture]
      exact hleft
  | finishing hr hm hstate hhdr hmode hpc hsame =>
      exact .finishing (hreading hr) hm hstate hhdr hmode hpc hsame
  | responding _ hall _ _ _ => exact absurd hall hnone
  | answered _ hall _ _ => exact absurd hall hnone

theorem Stage.event (h : Stage m f) {rev : Revents} (hmode : f.mode = .waiting)
    (hready : f.Ready rev) : Stage m { f with mode := session_step f.s rev } := by
  obtain ⟨hany, hin, hout⟩ := hready
  unfold session_step
  by_cases herr : rev.err_hup = true
  · rw [if_pos herr]
    exact .closed rfl
  rw [if_neg herr]
  -- the session is registered for one of the two, so that one is reported
  have hepollin : f.s.events = .epollin → rev.epollin = true ∧ f.unread ≠ [] := by
    intro hev
    have hone : rev.epollin = true := by
      rcases hany with h | h | h
      · exact absurd h herr
      · exact h
      · have hev' := hout h
        rw [hev] at hev'
        cases hev'
    exact ⟨hone, (hin hone).2⟩
  have hreading : ∀ mode, Reading m f → Reading m { f with mode := mode } := fun _ hr =>
    ⟨hr.ok, hr.bytes, hr.events, hr.fresh⟩
  cases h with
  | closed hclosed =>
      rw [hmode] at hclosed
      cases hclosed
  | headers hr hstate _ hlen =>
      obtain ⟨hone, hunread⟩ := hepollin hr.events
      rw [hstate]
      dsimp only
      rw [hone, if_neg (by decide)]
      split
      · exact .closed rfl
      · exact .headers (hreading _ hr) hstate (Or.inr ⟨rfl, hunread⟩) hlen
  | sized hr hm hstate hch hhdr htarget _ hlen =>
      obtain ⟨hone, hunread⟩ := hepollin hr.events
      rw [hstate]
      dsimp only
      rw [hone, if_neg (by decide), hch, if_neg (by decide)]
      exact .sized (hreading _ hr) hm hstate hch hhdr htarget (Or.inr ⟨rfl, hunread⟩) hlen
  | kept hr hm hstate hch hhdr _ hleft =>
      obtain ⟨hone, -⟩ := hepollin hr.events
      rw [hstate]
      dsimp only
      rw [hone, if_neg (by decide), hch, if_pos rfl]
      refine .finishing (hreading _ hr) hm hstate hhdr rfl ?_ ?_
      · exact hr.ok.hdr
      · rw [← hhdr]
        exact .refl _ _
  | finishing _ _ _ _ hfin _ _ =>
      rw [hmode] at hfin
      cases hfin
  | responding hans hall hstate hev _ =>
      rw [hstate]
      dsimp only
      split
      · exact .responding hans hall hstate hev (Or.inl rfl)
      · exact .responding hans hall hstate hev (Or.inr rfl)
  | answered _ hall hev _ => exact absurd hall.1 (hepollin hev).2

/-- A response is on its way, or the session is closed. -/
theorem respond_spec (cfg : Config F) (s : Session F) (epoll_ok : Bool) :
    (respond cfg s epoll_ok).2 = .closed
      ∨ ((respond cfg s epoll_ok).2 = .waiting
        ∧ (respond cfg s epoll_ok).1.state = .write_resp
        ∧ (respond cfg s epoll_ok).1.events = .epollout) := by
  unfold respond session_build_response
  dsimp only
  split
  · exact Or.inl rfl
  · unfold epoll_mod
    split
    · exact Or.inr ⟨rfl, rfl, rfl⟩
    · exact Or.inl rfl

/-- The connection after a `recv`. -/
def Conn.received (f : Conn F) (got : Option Recv) (s : Session F) (mode : Mode) : Conn F :=
  { f with s := s, mode := mode, unread := f.unread.drop (gotBytes got).length }

/-- A turn without a `recv`. -/
theorem Conn.received_none (f : Conn F) (s : Session F) (mode : Mode) :
    f.received none s mode = { f with s := s, mode := mode } := rfl

/-- What has been received was there to be read. -/
theorem gotBytes_prefix {c : TurnCalls} (h : f.Legal c) :
    gotBytes (session_recv_more f.s c.recv).got <+: f.unread := by
  unfold Conn.Legal at h
  unfold session_recv_more
  split
  · exact List.nil_prefix
  · cases hrecv : c.recv.recv with
    | data bytes =>
        rw [hrecv] at h
        dsimp only [Recv.cut]
        split
        · exact (List.take_prefix _ _).trans h
        · exact (List.take_prefix _ _).trans h
    | eintr => exact List.nil_prefix
    | eagain => exact List.nil_prefix
    | error => exact List.nil_prefix

/-- Receiving moves bytes from the socket to the buffer. -/
theorem Reading.received (h : Reading m f) {c : TurnCalls} (hlegal : f.Legal c) (mode : Mode) :
    Reading m (f.received (session_recv_more f.s c.recv).got (session_recv_more f.s c.recv).s
      mode) := by
  obtain ⟨cap', heq, hok⟩ := session_recv_more_spec h.ok c.recv
  have hbuf := session_recv_more_buf h.ok c.recv
  have hgot := gotBytes_prefix hlegal
  have hevents : (session_recv_more f.s c.recv).s.events = .epollin := by
    rw [heq]
    exact h.events
  unfold Conn.received
  generalize session_recv_more f.s c.recv = r at *
  obtain ⟨rest, hrest⟩ := hgot
  refine ⟨hok, ?_, hevents, h.fresh⟩
  dsimp only
  rw [hbuf, ← hrest, List.drop_left, List.append_assoc, ← List.append_assoc _ rest, hrest]
  exact h.bytes

/-- The fields that a `recv` leaves as they are. -/
theorem session_recv_more_kept (hs : f.s.Ok) (c : RecvCalls) :
    (session_recv_more f.s c).s.state = f.s.state
      ∧ (session_recv_more f.s c).s.hdr_bytes = f.s.hdr_bytes
      ∧ (session_recv_more f.s c).s.is_chunked = f.s.is_chunked
      ∧ (session_recv_more f.s c).s.body_target = f.s.body_target := by
  obtain ⟨cap', heq, -⟩ := session_recv_more_spec hs c
  rw [heq]
  exact ⟨rfl, rfl, rfl, rfl⟩

/-- A turn in `session_recv_more` of `session_step`: interrupted, closed, or received. -/
theorem turn_receiving (cfg : Config F) (hmode : f.mode = .receiving) (c : TurnCalls) :
    (f.turn cfg c = f.received (session_recv_more f.s c.recv).got
          (session_recv_more f.s c.recv).s .receiving
        ∧ gotBytes (session_recv_more f.s c.recv).got = [])
      ∨ (f.turn cfg c).mode = .closed
      ∨ ∃ p : Session F × Mode,
        f.turn cfg c = f.received (session_recv_more f.s c.recv).got p.1 p.2
        ∧ p = if (session_recv_more f.s c.recv).s.state = .read_headers then
            headers_received cfg (session_recv_more f.s c.recv).s c.epoll_ok
          else body_received cfg (session_recv_more f.s c.recv).s c.epoll_ok := by
  have hmore := session_recv_more_more f.s c.recv
  unfold Conn.turn session_turn Conn.received
  rw [hmode]
  dsimp only
  rw [Bool.or_false]
  generalize session_recv_more f.s c.recv = r at *
  cases hm : r.more with
  | again =>
      refine Or.inl ⟨rfl, ?_⟩
      rw [hm] at hmore
      cases hgot : r.got with
      | none => rfl
      | some got =>
          cases got with
          | data bytes =>
              rw [hgot] at hmore
              dsimp only at hmore
              split at hmore
              · cases hmore
              · cases hmore
          | eintr => rfl
          | eagain => rfl
          | error => rfl
  | ret rc =>
      dsimp only
      by_cases hrc : rc ≤ 0
      · rw [if_pos hrc]
        exact Or.inr (Or.inl rfl)
      · rw [if_neg hrc]
        exact Or.inr (Or.inr ⟨_, rfl, rfl⟩)

/-- Part of the header block: the call returns. -/
theorem headers_received_short {s : Session F} {epoll_ok : Bool}
    (hbuf : s.buf <+: m.bytes) (hlen : s.buf.length < m.head.length) :
    headers_received cfg s epoll_ok = (s, .waiting) := by
  have hpart : s.buf = m.head.take s.buf.length := by
    have hpre : s.buf <+: m.head :=
      List.prefix_of_prefix_length_le hbuf (List.prefix_append _ _) (Nat.le_of_lt hlen)
    exact (List.prefix_iff_eq_take.mp hpre)
  have hend : headerEnd s.buf = none := by
    rw [hpart]
    exact Message.headerEnd_cut hlen
  unfold headers_received session_parse_headers
  rw [hend]
  rfl

/-- What the header block sets, once it is there. -/
theorem session_parse_headers_all (cfg : Config F) {s : Session F} (hs : s.Ok) {rest : Bytes}
    (hbuf : s.buf = m.head ++ rest) :
    ∃ s', session_parse_headers cfg s = (s', 1) ∧ s'.Ok ∧ s'.buf = s.buf ∧ s'.events = s.events
      ∧ s'.state = .read_body ∧ s'.hdr_bytes = m.head.length ∧ s'.is_chunked = m.isChunked
      ∧ s'.body_target
        = (max (parse_content_length (m.head ++ rest) m.head.length) 0).toNat
      ∧ s'.body_bytes_read = min rest.length s'.body_target := by
  have hend : headerEnd s.buf = some m.head.length := by
    rw [hbuf]
    exact Message.headerEnd_head rest
  have hlen : s.buf.length = m.head.length + rest.length := by
    rw [hbuf, List.length_append]
  unfold session_parse_headers
  rw [hend]
  refine ⟨_, rfl, ⟨hs.room, hs.cap, ?_⟩, rfl, rfl, rfl, rfl, ?_, ?_, ?_⟩
  · show m.head.length ≤ s.buf.length
    omega
  · show header_has_token s.buf m.head.length transferEncoding chunked = m.isChunked
    rw [hbuf]
    exact Message.is_chunked rest
  · show (max (parse_content_length s.buf m.head.length) 0).toNat = _
    rw [hbuf]
  · show min (s.buf.length - m.head.length) _ = min rest.length _
    rw [hlen, Nat.add_sub_cancel_left]

/-- A buffer as long as the request holds all of it. -/
theorem nothing_left {buf u v bytes : Bytes} (h : buf ++ (u ++ v) = bytes)
    (hlen : bytes.length ≤ buf.length) : u = [] ∧ v = [] := by
  have hsum := congrArg List.length h
  rw [List.length_append, List.length_append] at hsum
  exact ⟨List.length_eq_zero_iff.mp (by omega), List.length_eq_zero_iff.mp (by omega)⟩

/-- **The response to a request that has been received.** -/
theorem Stage.responded {got : Option Recv} (s : Session F) (epoll_ok : Bool)
    (hfresh : f.answered = false) (hall : (f.received got s .waiting).AllReceived) :
    Stage m (f.received got (respond cfg s epoll_ok).1 (respond cfg s epoll_ok).2) := by
  have hspec := respond_spec cfg s epoll_ok
  generalize Vanilla.respond cfg s epoll_ok = p at *
  rcases hspec with hclosed | ⟨hwaiting, hstate, hevents⟩
  · exact .closed hclosed
  · exact .responding hfresh hall hstate hevents (Or.inl hwaiting)

theorem Message.length_bytes (m : Message) : m.bytes.length = m.head.length + m.body.length := by
  unfold Message.bytes
  rw [List.length_append]

/-- The buffer is the start of the request; from the header block on, it is the header block and
something behind it. -/
theorem Reading.split (h : Reading m f) (hlen : m.head.length ≤ f.s.buf.length) :
    ∃ rest, f.s.buf = m.head ++ rest := by
  have hpre : f.s.buf <+: m.bytes := ⟨f.unread ++ f.future, h.bytes⟩
  have hhead : m.head <+: f.s.buf :=
    List.prefix_of_prefix_length_le (List.prefix_append _ _) hpre hlen
  obtain ⟨rest, hrest⟩ := hhead
  exact ⟨rest, hrest.symm⟩

/-- **A turn in `S_READ_HEADERS`.** -/
theorem Stage.turn_headers (hsize : m.bytes.length < MAX_REQ_BYTES) {c : TurnCalls}
    (h : Reading m f) (hstate : f.s.state = .read_headers) (hmode : f.mode = .receiving)
    (hunread : f.unread ≠ []) (hlen : f.s.buf.length < m.head.length) (hlegal : f.Legal c)
    (hgood : LeavesLastByte m f (.turn c)) : Stage m (f.turn cfg c) := by
  have hmax : MAX_REQ_BYTES = 1048576 := rfl
  obtain ⟨hkept, -, -, -⟩ := session_recv_more_kept h.ok c.recv
  have hbuf := session_recv_more_buf h.ok c.recv
  have hreading := h.received hlegal
  have hgot := gotBytes_prefix hlegal
  have hlast : m.isChunked = true →
      (gotBytes (session_recv_more f.s c.recv).got).length < f.unread.length + f.future.length :=
    fun hm => hgood hm hstate
  have hturn := turn_receiving cfg hmode c
  generalize session_recv_more f.s c.recv = r at *
  rcases hturn with ⟨hturn, hnone⟩ | hclosed | ⟨p, hturn, hp⟩
  · rw [hturn]
    refine .headers (hreading _) (hkept.trans hstate) (Or.inr ⟨rfl, ?_⟩) ?_
    · show f.unread.drop (gotBytes r.got).length ≠ []
      rw [hnone]
      exact hunread
    · show r.s.buf.length < m.head.length
      rw [hbuf, hnone, List.append_nil]
      exact hlen
  · exact .closed hclosed
  · rw [if_pos (hkept.trans hstate)] at hp
    rw [hturn]
    by_cases hshort : r.s.buf.length < m.head.length
    · have hpre : r.s.buf <+: m.bytes := ⟨_, (hreading .waiting).bytes⟩
      rw [headers_received_short hpre hshort] at hp
      rw [hp]
      exact .headers (hreading .waiting) (hkept.trans hstate) (Or.inl rfl) hshort
    · obtain ⟨rest, hrest⟩ := (hreading .waiting).split (Nat.le_of_not_lt hshort)
      obtain ⟨s', hparse, hok, hbuf', hevents, hstate', hhdr, hchunked, htarget, hread⟩ :=
        session_parse_headers_all cfg (hreading .waiting).ok hrest
      have hnow : ∀ mode, Reading m (f.received r.got s' mode) := by
        intro mode
        refine ⟨hok, ?_, hevents.trans (hreading .waiting).events, h.fresh⟩
        show s'.buf ++ _ = _
        rw [hbuf']
        exact (hreading .waiting).bytes
      unfold headers_received at hp
      rw [show session_parse_headers cfg r.s = (s', 1) from hparse] at hp
      dsimp only at hp
      rw [if_neg (by decide), hchunked] at hp
      cases m with
      | coded q =>
          have hleft : f.unread.drop (gotBytes r.got).length ++ f.future ≠ [] := by
            intro hnil
            have htaken := hlast rfl
            have hzero := congrArg List.length hnil
            rw [List.length_append, List.length_drop, List.length_nil] at hzero
            omega
          rw [if_neg (by simp [Message.isChunked])] at hp
          rw [hp]
          exact .kept (hnow _) rfl hstate' (hchunked.trans rfl) hhdr rfl hleft
      | sized q plain =>
          have hsplit : (Message.sized q plain).bytes.length
              = (Message.sized q plain).head.length + q.body.length := Message.length_bytes _
          have hbody : s'.body_target = q.body.length := by
            have hcl := Request.content_length (q := q) (by unfold LLONG_MAX; omega) rest
            rw [htarget]
            show (max (parse_content_length (q.head ++ rest) q.head.length) 0).toNat = _
            rw [hcl]
            exact Int.toNat_natCast _
          have hlong : s'.buf.length = (Message.sized q plain).head.length + rest.length := by
            rw [hbuf']
            show r.s.buf.length = _
            rw [show r.s.buf = _ from hrest, List.length_append]
          rw [hread, hbody] at hp
          by_cases hdone : q.body.length ≤ rest.length
          · rw [if_pos ⟨rfl, by omega⟩] at hp
            have hall : (f.received r.got s' .waiting).AllReceived :=
              nothing_left (hnow .waiting).bytes (by show _ ≤ s'.buf.length; omega)
            rw [hp]
            exact .responded s' c.epoll_ok h.fresh hall
          · rw [if_neg (fun hno => by omega)] at hp
            rw [hp]
            refine .sized (hnow _) rfl hstate' (hchunked.trans rfl) hhdr hbody (Or.inl rfl) ?_
            show s'.buf.length < _
            omega

/-- **A turn in `S_READ_BODY`, for a body with a length.** -/
theorem Stage.turn_sized {c : TurnCalls} (h : Reading m f) (hm : m.isChunked = false)
    (hstate : f.s.state = .read_body) (hch : f.s.is_chunked = false)
    (hhdr : f.s.hdr_bytes = m.head.length) (htarget : f.s.body_target = m.body.length)
    (hmode : f.mode = .receiving) (hunread : f.unread ≠ [])
    (hlen : f.s.buf.length < m.bytes.length) (hlegal : f.Legal c) : Stage m (f.turn cfg c) := by
  have hsplit := m.length_bytes
  obtain ⟨hkept, hhdr', hch', htarget'⟩ := session_recv_more_kept h.ok c.recv
  have hbuf := session_recv_more_buf h.ok c.recv
  have hreading := h.received hlegal
  have hturn := turn_receiving cfg hmode c
  generalize session_recv_more f.s c.recv = r at *
  rcases hturn with ⟨hturn, hnone⟩ | hclosed | ⟨p, hturn, hp⟩
  · rw [hturn]
    refine .sized (hreading _) hm (hkept.trans hstate) (hch'.trans hch) (hhdr'.trans hhdr)
      (htarget'.trans htarget) (Or.inr ⟨rfl, ?_⟩) ?_
    · show f.unread.drop (gotBytes r.got).length ≠ []
      rw [hnone]
      exact hunread
    · show r.s.buf.length < m.bytes.length
      rw [hbuf, hnone, List.append_nil]
      exact hlen
  · exact .closed hclosed
  · rw [if_neg (by rw [hkept, hstate]; decide)] at hp
    unfold body_received at hp
    dsimp only at hp
    rw [hturn]
    split at hp
    next hmore =>
      rw [hhdr', hhdr, htarget', htarget] at hmore
      rw [hp]
      have hnow := hreading .waiting
      refine .sized ⟨⟨hnow.ok.room, hnow.ok.cap, hnow.ok.hdr⟩, hnow.bytes, hnow.events, hnow.fresh⟩
        hm (hkept.trans hstate) (hch'.trans hch) (hhdr'.trans hhdr) (htarget'.trans htarget)
        (Or.inl rfl) ?_
      show r.s.buf.length < m.bytes.length
      omega
    next hdone =>
      rw [hhdr', hhdr, htarget', htarget] at hdone
      have hok : r.s.hdr_bytes ≤ r.s.buf.length := (hreading .waiting).ok.hdr
      have hall : (f.received r.got r.s .waiting).AllReceived :=
        nothing_left (hreading .waiting).bytes (by show _ ≤ r.s.buf.length; omega)
      rw [hp]
      exact .responded _ c.epoll_ok h.fresh hall

/-- **A turn in `session_finish_chunked`.** -/
theorem Stage.turn_finishing (hsize : m.bytes.length < MAX_REQ_BYTES) {c : TurnCalls} {pc : Pc}
    (h : Reading m f) (hm : m.isChunked = true) (hstate : f.s.state = .read_body)
    (hhdr : f.s.hdr_bytes = m.head.length) (hmode : f.mode = .finishing pc)
    (hpc : PcOk f.s.buf pc) (hsame : SameStop f.s.buf (Pc.start m.head.length) pc)
    (hlegal : f.Legal c) : Stage m (f.turn cfg c) := by
  have hmax : MAX_REQ_BYTES = 1048576 := rfl
  have hunfold : f.turn cfg c
      = match finish_step f.s pc c.recv with
        | .run s pc got => f.received got s (.finishing pc)
        | .done s rc got =>
            if rc ≠ 0 then f.received got s .closed
            else f.received got (respond cfg s c.epoll_ok).1 (respond cfg s c.epoll_ok).2 := by
    unfold Conn.turn session_turn Conn.received
    rw [hmode]
    dsimp only
    rw [Bool.or_false]
    cases finish_step f.s pc c.recv with
    | run s pc got => rfl
    | done s rc got =>
        dsimp only
        generalize respond cfg s c.epoll_ok = p
        split
        · rfl
        · rfl
  rw [hunfold]
  cases hstep : chunkStep f.s.buf pc with
  | goto pc' =>
      have hrun : finish_step f.s pc c.recv = .run f.s pc' none := by
        unfold finish_step
        rw [hstep]
      rw [hrun]
      dsimp only
      rw [Conn.received_none]
      have hok : PcOk f.s.buf pc' := (chunkStep_goto h.ok.length_lt hpc hstep).1
      have hnext : SameStop f.s.buf (Pc.start m.head.length) pc' :=
        hsame.trans (SameStop.goto hpc hstep)
      exact .finishing ⟨h.ok, h.bytes, h.events, h.fresh⟩ hm hstate hhdr rfl hok hnext
  | ret rc k =>
      have hdone : finish_step f.s pc c.recv
          = .done (if rc = 0 then { f.s with body_bytes_read := k } else f.s) rc none := by
        unfold finish_step
        rw [hstep]
      rw [hdone]
      dsimp only
      by_cases hrc : rc = 0
      · rw [if_neg (by simpa using hrc)]
        subst hrc
        have hall : f.unread ++ f.future = [] := by
          cases m with
          | sized q plain => cases hm
          | coded q => exact Message.all_of_ret (by omega) h.bytes hpc hsame hstep
        exact .responded _ c.epoll_ok h.fresh (List.append_eq_nil_iff.mp hall)
      · rw [if_pos hrc]
        exact .closed rfl
  | recv =>
      obtain ⟨hkept, hhdr', -, -⟩ := session_recv_more_kept h.ok c.recv
      have hbuf := session_recv_more_buf h.ok c.recv
      have hreading := h.received hlegal
      rw [finish_step_recv hstep]
      generalize session_recv_more f.s c.recv = r at *
      split
      next s pc' got hrun =>
        split at hrun
        · cases hrun
        · injection hrun with h₁ h₂ h₃
          subst h₁ h₂ h₃
          refine .finishing (hreading _) hm (hkept.trans hstate) (hhdr'.trans hhdr) rfl ?_ ?_
          · show PcOk r.s.buf pc
            rw [hbuf]
            exact hpc.append _
          · show SameStop r.s.buf _ pc
            rw [hbuf]
            exact hsame.append _
      next s rc got hdone =>
        split at hdone
        · injection hdone with h₁ h₂ h₃
          rw [if_pos (by rw [← h₂]; decide)]
          exact .closed rfl
        · cases hdone

/-- **A turn in the loop over `write`.** -/
theorem Stage.turn_writing {c : TurnCalls} (hfresh : f.answered = false) (hall : f.AllReceived)
    (hstate : f.s.state = .write_resp) (hevents : f.s.events = .epollout)
    (hmode : f.mode = .writing) : Stage m (f.turn cfg c) := by
  have hnothing : f.unread.drop (gotBytes none).length = [] := hall.1
  unfold Conn.turn session_turn
  rw [hmode, hfresh]
  dsimp only
  rw [hnothing, Bool.false_or]
  unfold session_write
  by_cases hmore : f.s.resp_off < f.s.resp.length
  · rw [if_pos hmore, decide_eq_false (by omega)]
    cases c.write with
    | wrote n =>
        dsimp only
        split
        · exact .responding rfl ⟨rfl, hall.2⟩ hstate hevents (Or.inr rfl)
        · exact .closed rfl
    | eintr => exact .responding rfl ⟨rfl, hall.2⟩ hstate hevents (Or.inr rfl)
    | eagain => exact .responding rfl ⟨rfl, hall.2⟩ hstate hevents (Or.inl rfl)
    | error => exact .closed rfl
  · rw [if_neg hmore, decide_eq_true (by omega)]
    split
    · exact .closed rfl
    · unfold epoll_mod
      dsimp only
      split
      · exact .answered rfl ⟨rfl, hall.2⟩ rfl rfl
      · exact .closed rfl

/-- **Every turn keeps the stage.** -/
theorem Stage.turn (hsize : m.bytes.length < MAX_REQ_BYTES) (h : Stage m f) {c : TurnCalls}
    (hwait : f.mode ≠ .waiting) (hopen : f.mode ≠ .closed) (hlegal : f.Legal c)
    (hgood : LeavesLastByte m f (.turn c)) : Stage m (f.turn cfg c) := by
  cases h with
  | closed hclosed => exact absurd hclosed hopen
  | headers hr hstate hat hlen =>
      obtain ⟨hmode, hunread⟩ := hat.resolve_left hwait
      exact .turn_headers hsize hr hstate hmode hunread hlen hlegal hgood
  | sized hr hm hstate hch hhdr htarget hat hlen =>
      obtain ⟨hmode, hunread⟩ := hat.resolve_left hwait
      exact .turn_sized hr hm hstate hch hhdr htarget hmode hunread hlen hlegal
  | kept _ _ _ _ _ hmode _ => exact absurd hmode hwait
  | finishing hr hm hstate hhdr hmode hpc hsame =>
      exact .turn_finishing hsize hr hm hstate hhdr hmode hpc hsame hlegal
  | responding hfresh hall hstate hevents hmode =>
      exact .turn_writing hfresh hall hstate hevents (hmode.resolve_left hwait)
  | answered _ _ _ hmode => exact absurd hmode hwait

end Steps

/-! ## §4. No session is stuck. -/

/-- **In a run in which no `recv` made in `S_READ_HEADERS` takes the last byte of a chunked
request, no session is stuck**: once all bytes have been received, a session that is left to the
event loop is in `S_WRITE_RESP`, has written its response, or is closed; and one that is not is
not waiting for more. -/
theorem no_stuck_session (cfg : Config F) (m : Message) (hsize : m.bytes.length < MAX_REQ_BYTES)
    {f : Conn F} (h : ((connSystem cfg m).restrict (LeavesLastByte m)).Reachable f)
    (hall : f.AllReceived) :
    (f.mode = .waiting → f.s.state = .write_resp ∨ f.answered = true)
      ∧ f.mode ≠ .receiving
      ∧ ∀ pc, f.mode = .finishing pc → chunkStep f.s.buf pc ≠ .recv := by
  have hmax : MAX_REQ_BYTES = 1048576 := rfl
  have hstage : Stage m f := by
    refine h.invariant (Stage m) (fun f hinit => Stage.initial hinit) ?_
    rintro f l f' hf ⟨hstep, hgood⟩
    cases hstep with
    | arrive bytes rest hfuture hne => exact hf.arrive hfuture hne
    | event rev hmode hready => exact hf.event hmode hready
    | turn c hwait hopen hlegal => exact hf.turn hsize hwait hopen hlegal hgood
  have hnot : f.AtRecv → f.s.buf.length < m.bytes.length → Reading m f → False := by
    intro _ hlen hr
    have hsum := congrArg List.length hr.bytes
    rw [List.length_append, hall.1, hall.2] at hsum
    simp only [List.append_nil, List.length_nil] at hsum
    omega
  have hheadle : m.head.length ≤ m.bytes.length := by
    rw [m.length_bytes]
    omega
  cases hstage with
  | closed hmode =>
      rw [hmode]
      exact ⟨by simp, by simp, by simp⟩
  | headers hr _ hat hlen => exact (hnot hat (by omega) hr).elim
  | sized hr _ _ _ _ _ hat hlen => exact (hnot hat hlen hr).elim
  | kept _ _ _ _ _ _ hleft =>
      rw [hall.1, hall.2] at hleft
      exact absurd rfl hleft
  | @finishing pc hr hm _ _ hmode _ hsame =>
      rw [hmode]
      refine ⟨by simp, by simp, ?_⟩
      intro pc' heq
      injection heq with heq
      subst heq
      have hbuf : f.s.buf = m.bytes := by
        have hbytes := hr.bytes
        rw [hall.1, hall.2, List.append_nil, List.append_nil] at hbytes
        exact hbytes
      rw [hbuf] at hsame ⊢
      cases m with
      | sized q plain => cases hm
      | coded q => exact Message.not_recv_of_all (by omega) hsame
  | responding _ _ hstate _ hmode =>
      refine ⟨fun _ => Or.inl hstate, ?_, ?_⟩
      · rintro heq
        rcases hmode with hmode | hmode <;> rw [hmode] at heq <;> cases heq
      · rintro pc heq
        rcases hmode with hmode | hmode <;> rw [hmode] at heq <;> cases heq
  | answered hans _ _ hmode =>
      rw [hmode]
      exact ⟨fun _ => Or.inr hans, by simp, by simp⟩

/-! ## §5. A chunked request in two pieces, and in one. -/

def workerA : Config Nat := ⟨wholeNumbers, ascii "bench2-fn-a"⟩

def chunkedHead : Request where
  line := ascii "POST / H"
  headers := [ascii "Transfer-Encoding: chunked"]
  body := []
  isLine := by
    intro l hl
    revert l
    decide +kernel
  declares := Or.inr ⟨rfl, by decide +kernel⟩

def oneByte : ChunkedBody where
  chunks :=
    [{  data := ascii "x"
        nonempty := by decide
        line :=
          { digits := ascii "1"
            ext := []
            digits_ne := by decide
            hex := by decide +kernel
            value := by decide
            ext_semicolon := Or.inl rfl
            ext_lf := by decide } }]
  last :=
    { digits := ascii "0"
      ext := []
      digits_ne := by decide
      hex := by decide +kernel
      value := by decide
      ext_semicolon := Or.inl rfl
      ext_lf := by decide }

def chunkedRequest : ChunkedRequest where
  request := chunkedHead
  coded := ⟨ascii "Transfer-Encoding: chunked", by decide +kernel, by decide +kernel,
    ascii "chunked", ⟨ascii " ", by decide +kernel⟩, by decide +kernel⟩
  body := oneByte
  trailer := []
  isLine := nofun

def chunkedMessage : Message := .coded chunkedRequest

/-- A session that has just been accepted. -/
def accepted : Conn Nat where
  s :=
    { state := .read_headers
      req_no := 0
      buf := []
      cap := INITIAL_BUF_CAP
      hdr_bytes := 0
      body_target := 0
      body_bytes_read := 0
      is_chunked := false
      should_close := false
      content_length := 0
      operand_a := 10
      operand_b := 20
      resp := []
      resp_off := 0
      events := .epollin }
  mode := .waiting
  unread := []
  future := chunkedMessage.bytes
  answered := false

theorem accepted_initial : Conn.Initial chunkedMessage.bytes accepted where
  ok := ⟨by decide, by decide, by decide⟩
  state := rfl
  buf := rfl
  events := rfl
  mode := rfl
  bytes := rfl
  answered := rfl

def pollin : Revents := ⟨false, true, false⟩

/-- A `recv` that is offered these bytes. -/
def offered (bytes : Bytes) : TurnCalls := ⟨⟨true, .data bytes⟩, .eagain, true⟩

/-- A turn that makes no call. -/
def noCall : TurnCalls := ⟨⟨true, .eintr⟩, .eagain, true⟩

/-- The first `n` bytes of what is to come arrive. -/
def Conn.arrived (f : Conn F) (n : Nat) : Conn F :=
  { f with unread := f.unread ++ f.future.take n, future := f.future.drop n }

def Conn.reported (f : Conn F) : Conn F := { f with mode := session_step f.s pollin }

section Acts

variable {cfg : Config F} {m : Message} {f : Conn F}

theorem reach_arrived (h : ((connSystem cfg m).restrict (LeavesLastByte m)).Reachable f) (n : Nat)
    (hne : f.future.take n ≠ []) :
    ((connSystem cfg m).restrict (LeavesLastByte m)).Reachable (f.arrived n) :=
  .step h ⟨.arrive (f.future.take n) (f.future.drop n) (List.take_append_drop n f.future).symm hne,
    trivial⟩

theorem reach_reported (h : ((connSystem cfg m).restrict (LeavesLastByte m)).Reachable f)
    (hmode : f.mode = .waiting) (hevents : f.s.events = .epollin) (hunread : f.unread ≠ []) :
    ((connSystem cfg m).restrict (LeavesLastByte m)).Reachable f.reported :=
  .step h ⟨.event pollin hmode ⟨Or.inr (Or.inl rfl), fun _ => ⟨hevents, hunread⟩, nofun⟩, trivial⟩

/-- A `recv` that is offered all there is. -/
theorem reach_offered (h : ((connSystem cfg m).restrict (LeavesLastByte m)).Reachable f)
    (hopen : f.mode ≠ .waiting ∧ f.mode ≠ .closed)
    (hgood : LeavesLastByte m f (.turn (offered f.unread))) :
    ((connSystem cfg m).restrict (LeavesLastByte m)).Reachable (f.turn cfg (offered f.unread)) :=
  .step h ⟨.turn _ hopen.1 hopen.2 (List.prefix_refl _), hgood⟩

theorem reach_noCall (h : ((connSystem cfg m).restrict (LeavesLastByte m)).Reachable f)
    (hopen : f.mode ≠ .waiting ∧ f.mode ≠ .closed) (hbody : f.s.state ≠ .read_headers) :
    ((connSystem cfg m).restrict (LeavesLastByte m)).Reachable (f.turn cfg noCall) :=
  .step h ⟨.turn _ hopen.1 hopen.2 trivial, fun _ hstate => absurd hstate hbody⟩

end Acts

/-- The header block has been received. -/
def headRead : Conn Nat :=
  let f := (accepted.arrived 40).reported
  f.turn workerA (offered f.unread)

/-- The body has been received too, by `session_finish_chunked`. -/
def bodyRead : Conn Nat :=
  let f := (headRead.arrived 11).reported
  f.turn workerA (offered f.unread)

theorem reach_headRead :
    ((connSystem workerA chunkedMessage).restrict (LeavesLastByte chunkedMessage)).Reachable
      headRead := by
  have h₁ := @reach_arrived _ workerA chunkedMessage _ (.init accepted_initial) 40 (by decide +kernel)
  have h₂ := reach_reported h₁ rfl rfl (by decide +kernel)
  exact reach_offered h₂ (by decide +kernel) (fun _ _ => by decide +kernel)

theorem reach_bodyRead :
    ((connSystem workerA chunkedMessage).restrict (LeavesLastByte chunkedMessage)).Reachable
      bodyRead := by
  have h₁ := reach_arrived reach_headRead 11 (by decide +kernel)
  have h₂ := reach_reported h₁ (by decide +kernel) (by decide +kernel) (by decide +kernel)
  exact reach_offered h₂ (by decide +kernel) (fun _ hstate => absurd hstate (by decide +kernel))

/-- With the body in a piece of its own the session goes on to its response. -/
theorem no_stuck_session_two_pieces :
    ((((bodyRead.turn workerA noCall).turn workerA noCall).turn workerA noCall).turn workerA
      noCall).s.state = .write_resp := by
  have h₁ := reach_noCall reach_bodyRead (by decide +kernel) (by decide +kernel)
  have h₂ := reach_noCall h₁ (by decide +kernel) (by decide +kernel)
  have h₃ := reach_noCall h₂ (by decide +kernel) (by decide +kernel)
  have h₄ := reach_noCall h₃ (by decide +kernel) (by decide +kernel)
  have hleft := (no_stuck_session workerA chunkedMessage (by decide +kernel) h₄
    ⟨by decide +kernel, by decide +kernel⟩).1 (by decide +kernel)
  exact hleft.resolve_right (by decide +kernel)

/-- The whole request in one piece. -/
def onePiece : Conn Nat :=
  let f := (accepted.arrived 51).reported
  f.turn workerA (offered f.unread)

theorem reach_onePiece : (connSystem workerA chunkedMessage).Reachable onePiece := by
  have h₁ : (connSystem workerA chunkedMessage).Reachable (accepted.arrived 51) :=
    .step (.init accepted_initial)
      (.arrive (accepted.future.take 51) (accepted.future.drop 51)
        (List.take_append_drop 51 accepted.future).symm (by decide +kernel))
  have h₂ : (connSystem workerA chunkedMessage).Reachable (accepted.arrived 51).reported :=
    .step h₁ (.event pollin rfl ⟨Or.inr (Or.inl rfl), fun _ => ⟨rfl, by decide +kernel⟩, nofun⟩)
  exact .step h₂ (.turn _ (by decide +kernel) (by decide +kernel) (List.prefix_refl _))

/-- **A chunked request in one piece is left in `S_READ_BODY`**: all of it is in the buffer, and
the socket has nothing to report. -/
theorem stuck_in_one_piece :
    chunkedMessage.bytes.length = 51
      ∧ (connSystem workerA chunkedMessage).Reachable onePiece ∧ onePiece.AllReceived
      ∧ onePiece.mode = .waiting ∧ onePiece.s.events = .epollin
      ∧ onePiece.s.state = .read_body ∧ onePiece.s.buf = chunkedMessage.bytes
      ∧ onePiece.answered = false := by
  refine ⟨by decide +kernel, reach_onePiece, ⟨by decide +kernel, by decide +kernel⟩, ?_⟩
  refine ⟨by decide +kernel, by decide +kernel, by decide +kernel, by decide +kernel, ?_⟩
  decide +kernel

end TlsMigration.Vanilla
