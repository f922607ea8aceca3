/-
  TlsMigration.HttpKa.Flow
  ────────────────────────
  **A SESSION, ITS SOCKET AND THE CLIENT'S STREAM.**

  The stream arrives in pieces, at any time; the session is called at any
  time, and its calls return a part of what has arrived.  The edge-triggered
  epoll has the descriptor on its list from when bytes arrive, or are found
  there by EPOLL_CTL_ADD or EPOLL_CTL_MOD, to when it has been reported; and
  it reports what is on the list only while bytes are there.

    • `At.step`        — every step of such a run keeps its place in the
                         reading of the stream, or moves it one on;
    • `same_end`       — two runs over one stream come to the same end.
-/
import TlsMigration.HttpKa.Framing
import TlsMigration.Lib.Determined

namespace TlsMigration.HttpKa

open TlsMigration.Http TlsMigration.Handoff

/-! ## §1. The system. -/

/-- What has become of a session. -/
inductive Mode where
  /-- inside `session_advance` -/
  | running
  /-- `session_advance` has returned, and the session is in the table -/
  | waiting
  | closed
  | relayed (owner : Bytes)
  deriving DecidableEq

structure Flow where
  s : Session
  mode : Mode
  /-- what has arrived and has not been taken out of the socket -/
  unread : Bytes
  /-- what is still to arrive -/
  future : Bytes
  /-- how many bytes have been taken out of the socket -/
  consumed : Nat
  /-- what the socket has taken -/
  out : Bytes
  /-- the descriptor is on the list of those that epoll has to report -/
  due : Bool

/-- What a `recv` of at most `limit` bytes may return: some of what is there. -/
def Got (limit : Nat) (unread : Bytes) (r : Recv) : Prop :=
  (unread = [] ∧ r = .eagain)
    ∨ ∃ n, 0 < n ∧ n ≤ limit ∧ n ≤ unread.length ∧ r = .data (unread.take n)

/-- A `recv` that returns as much as there is, up to the limit. -/
def Whole (limit : Nat) (unread : Bytes) (r : Recv) : Prop :=
  r = if unread = [] then .eagain else .data (unread.take limit)

namespace Flow

variable (f : Flow)

/-- What the calls of one iteration may return, as far as they are made. -/
structure Legal (realloc_ok : Nat → Bool) (c : Calls) : Prop where
  peek_owner : f.s.state = .peek_owner → Got PEEK_LEN f.unread c.recv
  peek_headers : f.s.state = .read_headers → Got (f.s.cap - 1) f.unread c.recv
  drain : f.s.state = .read_headers → ∀ bytes hdr_end sep_len, c.recv = .data bytes →
    headerEnd bytes = some (hdr_end, sep_len) → Got (hdr_end + sep_len) f.unread c.drain
  body : f.s.state = .read_body → f.s.body_in < f.s.body_target →
    Got (f.s.body_target - f.s.body_in) f.unread c.recv
  send : f.s.state = .write_response → c.send = .eagain
    ∨ ∃ n, 0 < n ∧ n ≤ f.s.resp.length - f.s.resp_off ∧ c.send = .sent n
  realloc : c.realloc_ok = realloc_ok
  epoll_mod : c.epoll_mod_ok = true

/-- The bytes an iteration takes out of the socket. -/
def taken (s : Session) (c : Calls) : Nat :=
  match s.state with
  | .read_headers =>
      match ensure_capacity s.cap (4096 + 1) c.realloc_ok, c.recv, c.drain with
      | .room _, .data bytes, .data drained => if (headerEnd bytes).isSome then drained.length else 0
      | _, _, _ => 0
  | .read_body =>
      match ensure_capacity s.cap (s.len + (s.body_target - s.body_in) + 1) c.realloc_ok, c.recv with
      | .room _, .data bytes => if s.body_target - s.body_in = 0 then 0 else bytes.length
      | _, _ => 0
  | _ => 0

/-- The bytes an iteration writes. -/
def written (s : Session) (c : Calls) : Bytes :=
  match s.state, c.send with
  | .write_response, .sent n => (s.resp.drop s.resp_off).take n
  | _, _ => []

def Mode.ofCtl : Ctl → Mode
  | .again => .running
  | .ret rc => if rc < 0 then .closed else .waiting
  | .relay owner => .relayed owner

/-- The session is registered for EPOLLIN again: EPOLL_CTL_MOD looks at what is there. -/
def rearmed (s s' : Session) (unread : Bytes) : Bool :=
  decide (s.events = .epollout) && decide (s'.events = .epollin) && !unread.isEmpty

/-- One iteration. -/
def iter (cfg : Config) (c : Calls) : Flow :=
  let r := session_iter cfg f.s c
  let n := taken f.s c
  { f with
    s := r.1
    mode := Mode.ofCtl r.2
    unread := f.unread.drop n
    consumed := f.consumed + n
    out := f.out ++ written f.s c
    due := f.due || rearmed f.s r.1 (f.unread.drop n) }

end Flow

inductive FlowLabel where
  | arrive (bytes : Bytes)
  | call
  | iter (c : Calls)

inductive Flow.Step (cfg : Config) (realloc_ok : Nat → Bool) : Flow → FlowLabel → Flow → Prop where
  /-- A segment arrives: an edge, for who is registered for EPOLLIN. -/
  | arrive {f : Flow} (bytes rest : Bytes) : f.future = bytes ++ rest → bytes ≠ [] →
      Step cfg realloc_ok f (.arrive bytes)
        { f with
          unread := f.unread ++ bytes
          future := rest
          due := f.due || decide (f.s.events = .epollin) }
  /-- `epoll_wait` reports the descriptor. -/
  | call {f : Flow} : f.mode = .waiting →
      Step cfg realloc_ok f .call { f with mode := .running, due := false }
  | iter {f : Flow} (c : Calls) : f.mode = .running → f.Legal realloc_ok c →
      Step cfg realloc_ok f (.iter c) (f.iter cfg c)

/-- `register_client_fd` has made the session and calls it.  Some of the stream may be there, which
EPOLL_CTL_ADD finds, so that epoll has it to report, too. -/
structure Flow.Initial (stream : Bytes) (f : Flow) : Prop where
  session : ∃ fd pipe_fd, f.s = session_new fd pipe_fd
  mode : f.mode = .running
  stream : f.unread ++ f.future = stream
  consumed : f.consumed = 0
  out : f.out = []
  due : f.due = !f.unread.isEmpty

def flowSystem (cfg : Config) (realloc_ok : Nat → Bool) (stream : Bytes) :
    TransitionSystem Flow FlowLabel where
  init := Flow.Initial stream
  step := Flow.Step cfg realloc_ok

/-- A peek that does not show what it looks for shows all there is, and the header block is
taken out in one piece. -/
def PeeksEnough (f : Flow) : FlowLabel → Prop
  | .iter c =>
      (f.s.state = .peek_owner → ∀ bytes, c.recv = .data bytes → memchr Ch.lf bytes = none →
          bytes = f.unread.take PEEK_LEN)
        ∧ (f.s.state = .read_headers → ∀ bytes, c.recv = .data bytes →
          (headerEnd bytes = none → bytes = f.unread.take (f.s.cap - 1))
            ∧ ∀ hdr_end sep_len, headerEnd bytes = some (hdr_end, sep_len) →
              c.drain = .data (f.unread.take (hdr_end + sep_len)))
  | _ => True

/-- Each peek shows as much as it could, and the header block is taken out in one piece. -/
def PeeksWhole (f : Flow) : FlowLabel → Prop
  | .iter c =>
      (f.s.state = .peek_owner → Whole PEEK_LEN f.unread c.recv)
        ∧ (f.s.state = .read_headers → Whole (f.s.cap - 1) f.unread c.recv
          ∧ ∀ bytes hdr_end sep_len, c.recv = .data bytes →
            headerEnd bytes = some (hdr_end, sep_len) → Whole (hdr_end + sep_len) f.unread c.drain)
  | _ => True

theorem PeeksWhole.enough {cfg : Config} {realloc_ok : Nat → Bool} {f f' : Flow} {l : FlowLabel}
    (h : PeeksWhole f l) (hst : Flow.Step cfg realloc_ok f l f') : PeeksEnough f l := by
  have hdata : ∀ {limit : Nat} {unread bytes : Bytes} {r : Recv}, Whole limit unread r →
      r = .data bytes → bytes = unread.take limit := by
    intro limit unread bytes r hwhole hr
    unfold Whole at hwhole
    rw [hr] at hwhole
    split at hwhole
    · cases hwhole
    · exact Recv.data.inj hwhole
  cases hst with
  | arrive _ _ _ _ => trivial
  | call _ => trivial
  | iter c _ hlegal =>
      refine ⟨fun hs bytes hrecv _ => hdata (h.1 hs) hrecv, fun hs bytes hrecv => ?_⟩
      obtain ⟨hpeek, hdrain⟩ := h.2 hs
      refine ⟨fun _ => hdata hpeek hrecv, fun hdr_end sep_len hend => ?_⟩
      have hwhole := hdrain bytes hdr_end sep_len hrecv hend
      unfold Whole at hpeek hwhole
      rw [hrecv] at hpeek
      by_cases hnil : f.unread = []
      · rw [if_pos hnil] at hpeek
        cases hpeek
      · rw [if_neg hnil] at hwhole
        exact hwhole

/-- The header block that is looked for in what is there, and in what is still to arrive, is
plain. -/
def HeadPlain (f : Flow) : FlowLabel → Prop
  | .iter _ => f.s.state = .read_headers → Plain ((f.unread ++ f.future).take (f.s.cap - 1))
  | _ => True

/-! ## §2. The place of a session in the reading. -/

/-- `epoll_wait` has an EPOLLIN to report. -/
def Flow.reports (f : Flow) : Bool := f.due && !f.unread.isEmpty

/-- The session waits, and no event is due. -/
def Flow.Idle (f : Flow) : Prop := f.mode = .waiting ∧ f.reports = false

/-- The session reads in the state `st`. -/
structure Reads (f : Flow) (st : WorkerState) (k : Reading) : Prop where
  live : f.mode = .running ∨ f.mode = .waiting
  state : f.s.state = st
  events : f.s.events = .epollin
  out : f.out = k.out

/-- `body_in` bytes of the body are in the buffer, behind the header block. -/
structure BodyRead (realloc_ok : Nat → Bool) (f : Flow) (k : Reading) (hdr_sz target : Nat)
    (close : Bool) : Prop where
  hdr_eq : f.s.hdr_sz = hdr_sz
  target_eq : f.s.body_target = target
  close_eq : f.s.should_close = close
  lt : f.s.body_in < target
  len : f.s.len = hdr_sz + f.s.body_in
  mem : ∃ head stale, head.length = hdr_sz
    ∧ f.s.mem = head ++ k.rest.take f.s.body_in ++ Ch.nul :: stale
  here : f.s.body_in ≤ k.rest.length
  rest : f.unread ++ f.future = k.rest.drop f.s.body_in
  cap : (f.s.cap = k.cap ∧ f.s.body_in = 0)
    ∨ ensure_capacity k.cap (hdr_sz + target + 1) realloc_ok = .room f.s.cap

/-- The response, as far as it is written. -/
structure Responds (f : Flow) (k : Reading) (resp : Bytes) (close : Bool) : Prop where
  state : f.s.state = .write_response
  resp_eq : f.s.resp = resp
  off : f.s.resp_off ≤ resp.length
  close_eq : f.s.should_close = close
  live : f.mode = .running ∨ (f.mode = .waiting ∧ f.s.resp_off < resp.length)
  out : f.out = k.out ++ resp.take f.s.resp_off
  cap : f.s.cap = k.cap

/-- **The place of a session.** -/
inductive At (realloc_ok : Nat → Bool) (f : Flow) (k : Reading) : Prop where
  | owner : k.phase = .owner → Reads f .peek_owner k → f.s.cap = k.cap → 16384 ≤ k.cap →
      f.unread ++ f.future = k.rest →
      (f.Idle → memchr Ch.lf (f.unread.take PEEK_LEN) = none) → At realloc_ok f k
  | headers : k.phase = .headers → Reads f .read_headers k → f.s.cap = k.cap → 16384 ≤ k.cap →
      f.unread ++ f.future = k.rest →
      (f.Idle → headerEnd (f.unread.take (k.cap - 1)) = none
        ∧ (f.unread.take (k.cap - 1)).length < k.cap - 1) → At realloc_ok f k
  | body {hdr_sz target : Nat} {close : Bool} : k.phase = .body hdr_sz target close →
      Reads f .read_body k → BodyRead realloc_ok f k hdr_sz target close → 16384 ≤ k.cap →
      (f.mode = .waiting →
        ∃ cap, ensure_capacity k.cap (hdr_sz + target + 1) realloc_ok = .room cap) →
      (f.Idle → f.unread = []) → At realloc_ok f k
  | respond {resp : Bytes} {close : Bool} : k.phase = .respond resp close →
      Responds f k resp close → 16384 ≤ k.cap → f.unread ++ f.future = k.rest → At realloc_ok f k
  | closed : k.phase = .closed → f.mode = .closed → f.unread ++ f.future = k.rest →
      f.out = k.out → At realloc_ok f k
  | relayed {owner : Bytes} : k.phase = .relayed owner → f.mode = .relayed owner →
      f.unread ++ f.future = k.rest → f.out = k.out → At realloc_ok f k

variable {cfg : Config} {realloc_ok : Nat → Bool} {stream : Bytes} {f f' : Flow} {k : Reading}

theorem At.initial (h : Flow.Initial stream f) : At realloc_ok f (Reading.start stream) := by
  obtain ⟨fd, pipe_fd, hs⟩ := h.session
  refine .owner rfl ⟨Or.inl h.mode, by rw [hs]; rfl, by rw [hs]; rfl, h.out⟩ (by rw [hs]; rfl)
    (Nat.le_refl _) h.stream ?_
  intro hidle
  have hmode := hidle.1
  rw [h.mode] at hmode
  cases hmode

/-- A segment arrives: who waits for bytes has an event due. -/
theorem At.arrive (h : At realloc_ok f k) {bytes rest : Bytes} (hfuture : f.future = bytes ++ rest)
    (hne : bytes ≠ []) : At realloc_ok { f with
      unread := f.unread ++ bytes
      future := rest
      due := f.due || decide (f.s.events = .epollin) } k := by
  have hall : (f.unread ++ bytes) ++ rest = f.unread ++ f.future := by
    rw [hfuture, List.append_assoc]
  have hbusy : f.s.events = .epollin → ¬ Flow.Idle { f with
      unread := f.unread ++ bytes
      future := rest
      due := f.due || decide (f.s.events = .epollin) } := by
    intro hev hidle
    have hno : ((f.due || decide (f.s.events = .epollin)) && !(f.unread ++ bytes).isEmpty) = false :=
      hidle.2
    have hsome : (f.unread ++ bytes).isEmpty = false := by
      rw [List.isEmpty_eq_false_iff]
      exact List.append_ne_nil_of_right_ne_nil _ hne
    rw [hev, decide_eq_true rfl, Bool.or_true, hsome] at hno
    cases hno
  cases h with
  | owner hk hr hcap hge hrest _ =>
      exact .owner hk ⟨hr.live, hr.state, hr.events, hr.out⟩ hcap hge (hall.trans hrest)
        fun hidle => absurd hidle (hbusy hr.events)
  | headers hk hr hcap hge hrest _ =>
      exact .headers hk ⟨hr.live, hr.state, hr.events, hr.out⟩ hcap hge (hall.trans hrest)
        fun hidle => absurd hidle (hbusy hr.events)
  | body hk hr hb hge hroom _ =>
      exact .body hk ⟨hr.live, hr.state, hr.events, hr.out⟩
        { hb with rest := hall.trans hb.rest } hge hroom fun hidle => absurd hidle (hbusy hr.events)
  | respond hk hr hge hrest =>
      exact .respond hk { hr with } hge (hall.trans hrest)
  | closed hk hmode hrest hout => exact .closed hk hmode (hall.trans hrest) hout
  | relayed hk hmode hrest hout => exact .relayed hk hmode (hall.trans hrest) hout

/-- The session is called. -/
theorem At.call (h : At realloc_ok f k) (hwait : f.mode = .waiting) :
    At realloc_ok { f with mode := .running, due := false } k := by
  have hbusy : ¬ Flow.Idle { f with mode := .running, due := false } := by
    intro hidle
    have hmode : Mode.running = .waiting := hidle.1
    cases hmode
  cases h with
  | owner hk hr hcap hge hrest _ =>
      exact .owner hk ⟨Or.inl rfl, hr.state, hr.events, hr.out⟩ hcap hge hrest
        fun hidle => absurd hidle hbusy
  | headers hk hr hcap hge hrest _ =>
      exact .headers hk ⟨Or.inl rfl, hr.state, hr.events, hr.out⟩ hcap hge hrest
        fun hidle => absurd hidle hbusy
  | body hk hr hb hge _ _ =>
      exact .body hk ⟨Or.inl rfl, hr.state, hr.events, hr.out⟩ { hb with } hge nofun
        fun hidle => absurd hidle hbusy
  | respond hk hr hge hrest => exact .respond hk { hr with live := Or.inl rfl } hge hrest
  | closed hk hmode hrest hout =>
      rw [hmode] at hwait
      cases hwait
  | relayed hk hmode hrest hout =>
      rw [hmode] at hwait
      cases hwait

/-! ## §3. One iteration. -/

/-- A part of what has arrived is the start of the window. -/
theorem take_unread (unread future : Bytes) {n limit : Nat} (hn : n ≤ limit)
    (hlen : n ≤ unread.length) :
    (unread ++ future).take limit
      = unread.take n ++ ((unread ++ future).drop n).take (limit - n) := by
  have hin : (unread ++ future).take n = unread.take n := List.take_append_of_le_length hlen
  rw [← hin, ← List.take_add]
  congr 1
  omega

theorem take_ne_nil {unread : Bytes} {n : Nat} (hpos : 0 < n) (hlen : n ≤ unread.length) :
    unread.take n ≠ [] := by
  intro h
  have := congrArg List.length h
  rw [List.length_take, List.length_nil] at this
  omega

/-- The name is in the request line. -/
theorem parse_request_owner_congr {a b : Bytes} (h : requestLine a = requestLine b) (outsz : Nat) :
    parse_request_owner a outsz = parse_request_owner b outsz := by
  unfold parse_request_owner
  rw [h]

/-- An iteration, by what it makes of the session and of the socket. -/
theorem iter_eq {c : Calls} {s' : Session} {ctl : Ctl} {n : Nat} {bytes : Bytes}
    (hs : session_iter cfg f.s c = (s', ctl)) (hn : Flow.taken f.s c = n)
    (hw : Flow.written f.s c = bytes) :
    f.iter cfg c = { f with
      s := s'
      mode := Flow.Mode.ofCtl ctl
      unread := f.unread.drop n
      consumed := f.consumed + n
      out := f.out ++ bytes
      due := f.due || Flow.rearmed f.s s' (f.unread.drop n) } := by
  unfold Flow.iter
  rw [hs, hn, hw]

/-- The iteration that looks for the owner. -/
theorem At.iter_owner (hk : k.phase = .owner) (hr : Reads f .peek_owner k) (hcap : f.s.cap = k.cap)
    (hge : 16384 ≤ k.cap) (hrest : f.unread ++ f.future = k.rest) {c : Calls}
    (hgot : Got PEEK_LEN f.unread c.recv)
    (henough : ∀ bytes, c.recv = .data bytes → memchr Ch.lf bytes = none →
      bytes = f.unread.take PEEK_LEN) :
    ∃ k', (k' = k ∨ k.next cfg realloc_ok = some k') ∧ At realloc_ok (f.iter cfg c) k' := by
  have htaken : Flow.taken f.s c = 0 := by
    unfold Flow.taken
    rw [hr.state]
  have hwritten : Flow.written f.s c = [] := by
    unfold Flow.written
    rw [hr.state]
  have hnext : k.next cfg realloc_ok = k.atOwner cfg := by
    unfold Reading.next
    rw [hk]
  -- the iteration touches neither the socket nor the output
  have hiter : f.iter cfg c = { f with
      s := (session_peek_owner cfg f.s c).1
      mode := Flow.Mode.ofCtl (session_peek_owner cfg f.s c).2
      due := f.due || Flow.rearmed f.s (session_peek_owner cfg f.s c).1 f.unread } := by
    unfold Flow.iter session_iter
    rw [htaken, hwritten, hr.state]
    simp
  rw [hiter]
  -- a session that goes on waiting
  have hstay : session_peek_owner cfg f.s c = (f.s, .ret 0) →
      memchr Ch.lf (f.unread.take PEEK_LEN) = none →
      At realloc_ok { f with
        s := (session_peek_owner cfg f.s c).1
        mode := Flow.Mode.ofCtl (session_peek_owner cfg f.s c).2
        due := f.due || Flow.rearmed f.s (session_peek_owner cfg f.s c).1 f.unread } k := by
    intro hsession hnone
    rw [hsession]
    exact .owner hk ⟨Or.inr rfl, hr.state, hr.events, hr.out⟩ hcap hge hrest fun _ => hnone
  rcases hgot with ⟨hnil, hrecv⟩ | ⟨n, hpos, hn, hlen, hrecv⟩
  · refine ⟨k, Or.inl rfl, hstay ?_ (by rw [hnil]; rfl)⟩
    unfold session_peek_owner
    rw [hrecv]
  · have hne : f.unread.take n ≠ [] := take_ne_nil hpos hlen
    by_cases hlf : memchr Ch.lf (f.unread.take n) = none
    · have hall := henough _ hrecv hlf
      rw [hall] at hlf
      refine ⟨k, Or.inl rfl, hstay ?_ hlf⟩
      unfold session_peek_owner
      rw [hrecv]
      simp only [if_neg hne]
      rw [hall, if_pos hlf]
    · -- the whole line is in sight
      have hmem : Ch.lf ∈ f.unread.take n := by
        by_contra hno
        exact hlf (memchr_eq_none.mpr hno)
      obtain ⟨more, hwindow⟩ : ∃ more, k.rest.take PEEK_LEN = f.unread.take n ++ more :=
        ⟨_, hrest ▸ take_unread f.unread f.future hn hlen⟩
      have hmem' : ¬ memchr Ch.lf (k.rest.take PEEK_LEN) = none := by
        rw [memchr_eq_none, hwindow]
        intro hno
        exact hno (List.mem_append_left _ hmem)
      have hparse : parse_request_owner (k.rest.take PEEK_LEN) HTTPMIGRATE_TARGET_LEN
          = parse_request_owner (f.unread.take n) HTTPMIGRATE_TARGET_LEN := by
        apply parse_request_owner_congr
        rw [hwindow, requestLine_append_of_mem hmem]
      rw [hnext]
      unfold Reading.atOwner
      simp only [if_neg hmem', hparse]
      unfold session_peek_owner
      rw [hrecv]
      simp only [if_neg hne, if_neg hlf]
      cases parse_request_owner (f.unread.take n) HTTPMIGRATE_TARGET_LEN with
      | none => exact ⟨_, Or.inr rfl, .closed rfl rfl hrest hr.out⟩
      | some owner =>
          dsimp only
          split
          next =>
            refine ⟨_, Or.inr rfl, .headers rfl ⟨Or.inl rfl, rfl, hr.events, hr.out⟩ hcap hge hrest ?_⟩
            intro hidle
            have hmode : Mode.running = .waiting := hidle.1
            cases hmode
          next =>
            exact ⟨_, Or.inr rfl, .relayed rfl rfl hrest hr.out⟩

theorem ensure_capacity_of_le {cap needed : Nat} (h : needed ≤ cap) (ok : Nat → Bool) :
    ensure_capacity cap needed ok = .room cap := by
  unfold ensure_capacity
  rw [if_pos h]

/-- `session_build_response`, where `epoll_ctl` does its work. -/
theorem build_response_eq (cfg : Config) (s : Session) {c : Calls} (hmod : c.epoll_mod_ok = true) :
    ∃ pipe_fd pipe_sent, session_build_response cfg s c
      = ({ s with
          resp := responseBytes cfg (cstr (s.mem.drop s.hdr_sz)) s.should_close
          resp_off := 0
          state := .write_response
          pipe_fd := pipe_fd
          pipe_sent := pipe_sent
          events := .epollout }, .ret 1) := by
  unfold session_build_response Session.notify
  simp only [hmod, if_true]
  split
  · exact ⟨none, true, rfl⟩
  · exact ⟨s.pipe_fd, s.pipe_sent, rfl⟩

/-- A part of the window that shows the end of the block shows the window's. -/
theorem headerEnd_unread {n limit : Nat} (hplain : Plain ((f.unread ++ f.future).take limit))
    (hn : n ≤ limit) (hlen : n ≤ f.unread.length) :
    headerEnd (f.unread.take n) = none
      ∨ headerEnd (f.unread.take n) = headerEnd ((f.unread ++ f.future).take limit) := by
  have hpart : f.unread.take n = ((f.unread ++ f.future).take limit).take n := by
    rw [List.take_take, Nat.min_eq_left hn, List.take_append_of_le_length hlen]
  rw [hpart]
  exact headerEnd_take hplain _

theorem written_headers {c : Calls} (hs : f.s.state = .read_headers) : Flow.written f.s c = [] := by
  unfold Flow.written
  rw [hs]

/-- The header block is not in sight yet, or does not fit. -/
theorem At.iter_headers_unseen (hk : k.phase = .headers) (hr : Reads f .read_headers k)
    (hcap : f.s.cap = k.cap) (hge : 16384 ≤ k.cap) (hrest : f.unread ++ f.future = k.rest)
    {c : Calls} (hne : f.unread.take (k.cap - 1) ≠ [])
    (hrecv : c.recv = .data (f.unread.take (k.cap - 1)))
    (hend : headerEnd (f.unread.take (k.cap - 1)) = none) :
    ∃ k', (k' = k ∨ k.next cfg realloc_ok = some k') ∧ At realloc_ok (f.iter cfg c) k' := by
  have hwritten := written_headers (c := c) hr.state
  have hroom : ensure_capacity f.s.cap (4096 + 1) c.realloc_ok = .room f.s.cap :=
    ensure_capacity_of_le (by omega) c.realloc_ok
  have hiter : session_iter cfg f.s c = session_read_headers cfg f.s c := by
    unfold session_iter
    rw [hr.state]
  have htaken : Flow.taken f.s c = 0 := by
    unfold Flow.taken
    rw [hr.state, hroom, hrecv]
    cases c.drain with
    | data drained => simp only [hend, Option.isSome_none, Bool.false_eq_true, if_false]
    | eagain => rfl
    | error => rfl
  by_cases hfull : k.cap - 1 ≤ (f.unread.take (k.cap - 1)).length
  · -- the window is full, so it is the window of the whole rest
    have hs : ∃ s', session_iter cfg f.s c = (s', .ret (-1)) := by
      rw [hiter]
      unfold session_read_headers
      rw [hroom, hrecv]
      simp only [if_neg hne, hend, hcap, if_pos hfull]
      exact ⟨_, rfl⟩
    obtain ⟨s', hs⟩ := hs
    have hlen : k.cap - 1 ≤ f.unread.length := by
      rw [List.length_take] at hfull
      omega
    have hwindow : k.rest.take (k.cap - 1) = f.unread.take (k.cap - 1) := by
      rw [← hrest, List.take_append_of_le_length hlen]
    rw [iter_eq hs htaken hwritten]
    refine ⟨{ k with phase := .closed }, Or.inr ?_, .closed rfl rfl hrest ?_⟩
    · unfold Reading.next
      rw [hk]
      show k.atHeaders cfg = _
      unfold Reading.atHeaders
      simp only [hwindow, hend, if_pos hfull]
    · exact (List.append_nil _).trans hr.out
  · have hs : session_iter cfg f.s c = ({ f.s with
        mem := poke f.s.mem 0 (f.unread.take (k.cap - 1) ++ [Ch.nul]) }, .ret 0) := by
      rw [hiter]
      unfold session_read_headers
      rw [hroom, hrecv]
      simp only [if_neg hne, hend, hcap, if_neg hfull]
    rw [iter_eq hs htaken hwritten]
    refine ⟨k, Or.inl rfl, .headers hk ⟨Or.inr rfl, hr.state, hr.events, ?_⟩ hcap hge hrest ?_⟩
    · exact (List.append_nil _).trans hr.out
    · exact fun _ => ⟨hend, Nat.lt_of_not_le hfull⟩

theorem responseBytes_pos (cfg : Config) (body : Bytes) (close : Bool) :
    0 < (responseBytes cfg body close).length := by
  have hhead : 0 < (ascii
      "HTTP/1.1 200 OK\r\nContent-Type: application/json\r\nContent-Length: ").length := by
    decide
  unfold responseBytes
  simp only [List.length_take, List.length_append]
  omega

/-- The header block is taken out of the socket, and the body or the response follows. -/
theorem At.iter_headers_seen (hk : k.phase = .headers) (hr : Reads f .read_headers k)
    (hcap : f.s.cap = k.cap) (hge : 16384 ≤ k.cap) (hrest : f.unread ++ f.future = k.rest)
    {c : Calls} {bytes : Bytes} {hdr_end sep_len : Nat} (hne : bytes ≠ [])
    (hrecv : c.recv = .data bytes) (hend : headerEnd bytes = some (hdr_end, sep_len))
    (hwindow : headerEnd (k.rest.take (k.cap - 1)) = some (hdr_end, sep_len))
    (hlen : hdr_end + sep_len ≤ f.unread.length)
    (hdrain : c.drain = .data (f.unread.take (hdr_end + sep_len))) (hmod : c.epoll_mod_ok = true) :
    ∃ k', (k' = k ∨ k.next cfg realloc_ok = some k') ∧ At realloc_ok (f.iter cfg c) k' := by
  have hwritten := written_headers (c := c) hr.state
  have hroom : ensure_capacity f.s.cap (4096 + 1) c.realloc_ok = .room f.s.cap :=
    ensure_capacity_of_le (by omega) c.realloc_ok
  have hhead : f.unread.take (hdr_end + sep_len) = k.rest.take (hdr_end + sep_len) := by
    rw [← hrest, List.take_append_of_le_length hlen]
  have hheadlen : (k.rest.take (hdr_end + sep_len)).length = hdr_end + sep_len := by
    rw [← hhead, List.length_take]
    omega
  rw [hhead] at hdrain
  have htaken : Flow.taken f.s c = hdr_end + sep_len := by
    unfold Flow.taken
    rw [hr.state, hroom, hrecv, hdrain]
    simp only [hend, Option.isSome_some, if_true, hheadlen]
  -- the buffer behind the header block is what the peek left there
  obtain ⟨stale, hmem⟩ : ∃ stale, poke (poke f.s.mem 0 (bytes ++ [Ch.nul])) 0
      (k.rest.take (hdr_end + sep_len) ++ [Ch.nul])
        = k.rest.take (hdr_end + sep_len) ++ Ch.nul :: stale := by
    rw [poke_zero _ (k.rest.take (hdr_end + sep_len) ++ [Ch.nul]), List.append_assoc]
    exact ⟨_, rfl⟩
  have hafter : k.next cfg realloc_ok = some (k.afterHead cfg (hdr_end + sep_len)) := by
    unfold Reading.next
    rw [hk]
    show k.atHeaders cfg = _
    unfold Reading.atHeaders
    simp only [hwindow]
  have hlength := parsed_content_length (k.rest.take (hdr_end + sep_len)) stale
  have hclose := should_close_head (k.rest.take (hdr_end + sep_len)) (Ch.nul :: stale)
  rw [hheadlen] at hlength hclose
  have hdropped : f.unread.drop (hdr_end + sep_len) ++ f.future
      = k.rest.drop (hdr_end + sep_len) := by
    rw [← hrest, List.drop_append_of_le_length hlen]
  refine ⟨k.afterHead cfg (hdr_end + sep_len), Or.inr hafter, ?_⟩
  have hread : session_iter cfg f.s c = session_headers_read cfg { f.s with
      hdr_sz := hdr_end + sep_len
      len := (k.rest.take (hdr_end + sep_len)).length
      mem := k.rest.take (hdr_end + sep_len) ++ Ch.nul :: stale } c := by
    unfold session_iter
    rw [hr.state]
    show session_read_headers cfg f.s c = _
    unfold session_read_headers
    rw [hroom, hrecv]
    simp only [if_neg hne, hend, hdrain, hmem]
  unfold session_headers_read at hread
  simp only [hlength, hclose] at hread
  by_cases htarget : 0 < bodyLength (k.rest.take (hdr_end + sep_len) ++ [Ch.nul])
      (hdr_end + sep_len)
  · rw [if_pos htarget] at hread
    rw [iter_eq hread htaken hwritten]
    have hphase : (k.afterHead cfg (hdr_end + sep_len)).phase = .body (hdr_end + sep_len)
        (bodyLength (k.rest.take (hdr_end + sep_len) ++ [Ch.nul]) (hdr_end + sep_len))
        (should_close (k.rest.take (hdr_end + sep_len)) (hdr_end + sep_len)) := by
      unfold Reading.afterHead
      simp only [if_pos htarget]
    refine .body hphase ⟨Or.inl rfl, rfl, hr.events, ?_⟩ ?_ hge nofun ?_
    · exact (List.append_nil _).trans hr.out
    · refine ⟨rfl, rfl, rfl, htarget, ?_, ?_, Nat.zero_le _, ?_, Or.inl ⟨hcap, rfl⟩⟩
      · show (k.rest.take (hdr_end + sep_len)).length = hdr_end + sep_len + 0
        rw [hheadlen, Nat.add_zero]
      · exact ⟨k.rest.take (hdr_end + sep_len), stale, hheadlen, by simp⟩
      · exact hdropped
    · intro hidle
      have hmode : Mode.running = .waiting := hidle.1
      cases hmode
  · rw [if_neg htarget] at hread
    obtain ⟨pipe_fd, pipe_sent, hbuild⟩ := build_response_eq cfg { f.s with
      hdr_sz := hdr_end + sep_len
      len := (k.rest.take (hdr_end + sep_len)).length
      mem := k.rest.take (hdr_end + sep_len) ++ Ch.nul :: stale
      body_target := bodyLength (k.rest.take (hdr_end + sep_len) ++ [Ch.nul]) (hdr_end + sep_len)
      body_in := 0
      should_close := should_close (k.rest.take (hdr_end + sep_len)) (hdr_end + sep_len) } hmod
    rw [hbuild] at hread
    have hbody : cstr ((k.rest.take (hdr_end + sep_len) ++ Ch.nul :: stale).drop
        (hdr_end + sep_len)) = [] := by
      have h := cstr_body (k.rest.take (hdr_end + sep_len)) [] stale
      rw [List.append_nil, hheadlen] at h
      exact h
    rw [iter_eq hread htaken hwritten]
    refine .respond ?_ ⟨rfl, rfl, Nat.zero_le _, rfl, Or.inr ⟨rfl, responseBytes_pos _ _ _⟩, ?_,
      hcap⟩ hge hdropped
    · unfold Reading.afterHead
      simp only [if_neg htarget, hbody]
    · show f.out ++ [] = k.out ++ List.take 0 _
      rw [List.take_zero, hr.out]

/-- The iteration that reads a header block. -/
theorem At.iter_headers (hk : k.phase = .headers) (hr : Reads f .read_headers k)
    (hcap : f.s.cap = k.cap) (hge : 16384 ≤ k.cap) (hrest : f.unread ++ f.future = k.rest)
    {c : Calls} (hgot : Got (f.s.cap - 1) f.unread c.recv)
    (henough : ∀ bytes, c.recv = .data bytes →
      (headerEnd bytes = none → bytes = f.unread.take (f.s.cap - 1))
        ∧ ∀ hdr_end sep_len, headerEnd bytes = some (hdr_end, sep_len) →
          c.drain = .data (f.unread.take (hdr_end + sep_len)))
    (hplain : Plain ((f.unread ++ f.future).take (f.s.cap - 1))) (hmod : c.epoll_mod_ok = true) :
    ∃ k', (k' = k ∨ k.next cfg realloc_ok = some k') ∧ At realloc_ok (f.iter cfg c) k' := by
  rw [hcap] at hgot hplain henough
  rcases hgot with ⟨hnil, hrecv⟩ | ⟨n, hpos, hn, hlen, hrecv⟩
  · -- nothing is there
    have hroom : ensure_capacity f.s.cap (4096 + 1) c.realloc_ok = .room f.s.cap :=
      ensure_capacity_of_le (by omega) c.realloc_ok
    have hs : session_iter cfg f.s c = (f.s, .ret 0) := by
      unfold session_iter
      rw [hr.state]
      show session_read_headers cfg f.s c = _
      unfold session_read_headers
      rw [hroom, hrecv]
    have htaken : Flow.taken f.s c = 0 := by
      unfold Flow.taken
      rw [hr.state, hroom, hrecv]
    rw [iter_eq hs htaken (written_headers hr.state)]
    refine ⟨k, Or.inl rfl, .headers hk ⟨Or.inr rfl, hr.state, hr.events, ?_⟩ hcap hge hrest ?_⟩
    · exact (List.append_nil _).trans hr.out
    · intro _
      show headerEnd ((f.unread.drop 0).take (k.cap - 1)) = none
        ∧ ((f.unread.drop 0).take (k.cap - 1)).length < k.cap - 1
      rw [hnil, List.drop_nil, List.take_nil, List.length_nil]
      exact ⟨rfl, by omega⟩
  · have hne := take_ne_nil hpos hlen
    obtain ⟨hall, hdrain⟩ := henough _ hrecv
    cases hend : headerEnd (f.unread.take n) with
    | none =>
        have hwhole := hall hend
        rw [hwhole] at hne hrecv hend
        exact At.iter_headers_unseen hk hr hcap hge hrest hne hrecv hend
    | some p =>
        obtain ⟨hdr_end, sep_len⟩ := p
        have hle := (headerEnd_le hend).2
        rw [List.length_take] at hle
        have hwindow : headerEnd (k.rest.take (k.cap - 1)) = some (hdr_end, sep_len) := by
          rcases headerEnd_unread hplain hn hlen with h | h
          · rw [hend] at h
            cases h
          · rw [← hrest, ← h, hend]
        exact At.iter_headers_seen hk hr hcap hge hrest hne hrecv hend hwindow (by omega)
          (hdrain _ _ hend) hmod

/-- The room for the body, as the session asks for it. -/
theorem BodyRead.room {hdr_sz target : Nat} {close : Bool}
    (hb : BodyRead realloc_ok f k hdr_sz target close) :
    ensure_capacity f.s.cap (f.s.len + (f.s.body_target - f.s.body_in) + 1) realloc_ok
      = ensure_capacity k.cap (hdr_sz + target + 1) realloc_ok := by
  have hlt := hb.lt
  have hneeded : f.s.len + (f.s.body_target - f.s.body_in) + 1 = hdr_sz + target + 1 := by
    rw [hb.len, hb.target_eq]
    omega
  rw [hneeded]
  rcases hb.cap with ⟨hcap, -⟩ | hcap
  · rw [hcap]
  · rw [hcap]
    exact ensure_capacity_again hcap

/-- A part of the body goes into the buffer behind what is there. -/
theorem BodyRead.poked {hdr_sz target n : Nat} {close : Bool}
    (hb : BodyRead realloc_ok f k hdr_sz target close) (hn : n ≤ f.unread.length) :
    ∃ head stale, head.length = hdr_sz
      ∧ poke f.s.mem f.s.len (f.unread.take n ++ [Ch.nul])
        = head ++ k.rest.take (f.s.body_in + n) ++ Ch.nul :: stale := by
  obtain ⟨head, stale, hhead, hmem⟩ := hb.mem
  have hpre : (head ++ k.rest.take f.s.body_in).length = f.s.len := by
    have hhere := hb.here
    rw [List.length_append, List.length_take, hhead, hb.len]
    omega
  have hmore : k.rest.take (f.s.body_in + n) = k.rest.take f.s.body_in ++ f.unread.take n := by
    rw [List.take_add, ← hb.rest, List.take_append_of_le_length hn]
  refine ⟨head, (Ch.nul :: stale).drop (f.unread.take n ++ [Ch.nul]).length, hhead, ?_⟩
  rw [hmem, ← hpre, poke_append, hmore]
  simp only [List.append_assoc, List.cons_append, List.nil_append]

theorem Flow.not_idle_of_running {g : Flow} (h : g.mode = .running) : ¬ g.Idle := by
  intro hidle
  have hwait := hidle.1
  rw [h] at hwait
  cases hwait

section Body

variable {hdr_sz target : Nat} {close : Bool} {c : Calls}

theorem BodyRead.want_ne (hb : BodyRead realloc_ok f k hdr_sz target close) :
    ¬ f.s.body_target - f.s.body_in = 0 := by
  have hlt := hb.lt
  rw [hb.target_eq]
  omega

theorem Reads.iter_read_body (hr : Reads f .read_body k) :
    session_iter cfg f.s c = session_read_body cfg f.s c := by
  unfold session_iter
  rw [hr.state]

theorem Reads.written_body (hr : Reads f .read_body k) : Flow.written f.s c = [] := by
  unfold Flow.written
  rw [hr.state]

theorem next_body (hk : k.phase = .body hdr_sz target close) :
    k.next cfg realloc_ok = k.atBody cfg realloc_ok hdr_sz target close := by
  unfold Reading.next
  rw [hk]

/-- What the iteration does with `n` bytes of the body. -/
theorem BodyRead.iter_data {cap n : Nat} (hr : Reads f .read_body k)
    (hb : BodyRead realloc_ok f k hdr_sz target close)
    (hroom : ensure_capacity f.s.cap (f.s.len + (f.s.body_target - f.s.body_in) + 1) c.realloc_ok
      = .room cap)
    (hpos : 0 < n) (hlen : n ≤ f.unread.length) (hrecv : c.recv = .data (f.unread.take n))
    {mem : Bytes} (hmem : poke f.s.mem f.s.len (f.unread.take n ++ [Ch.nul]) = mem) :
    Flow.taken f.s c = n ∧ session_iter cfg f.s c
      = if f.s.body_in + n < f.s.body_target then
          ({ f.s with cap := cap, mem := mem, len := f.s.len + n, body_in := f.s.body_in + n },
            .again)
        else session_build_response cfg { f.s with
          cap := cap, mem := mem, len := f.s.len + n, body_in := f.s.body_in + n } c := by
  have hwant := hb.want_ne
  have hne := take_ne_nil hpos hlen
  have htakelen : (f.unread.take n).length = n := by
    rw [List.length_take]
    omega
  refine ⟨?_, ?_⟩
  · unfold Flow.taken
    simp only [hr.state, hroom, hrecv, if_neg hwant, htakelen]
  · rw [hr.iter_read_body]
    unfold session_read_body
    simp only [if_neg hwant, hroom, hrecv, if_neg hne, htakelen, hmem]

/-- The iteration that gets bytes of the body. -/
theorem At.iter_body_data {cap n : Nat} (hk : k.phase = .body hdr_sz target close)
    (hr : Reads f .read_body k) (hb : BodyRead realloc_ok f k hdr_sz target close)
    (hge : 16384 ≤ k.cap)
    (hroom : ensure_capacity f.s.cap (f.s.len + (f.s.body_target - f.s.body_in) + 1) c.realloc_ok
      = .room cap)
    (hroom' : ensure_capacity k.cap (hdr_sz + target + 1) realloc_ok = .room cap)
    (hpos : 0 < n) (hn : n ≤ f.s.body_target - f.s.body_in) (hlen : n ≤ f.unread.length)
    (hrecv : c.recv = .data (f.unread.take n)) (hmod : c.epoll_mod_ok = true) :
    ∃ k', (k' = k ∨ k.next cfg realloc_ok = some k') ∧ At realloc_ok (f.iter cfg c) k' := by
  have hlt := hb.lt
  have hwritten : Flow.written f.s c = [] := hr.written_body
  obtain ⟨head, stale, hhead, hmem⟩ := hb.poked hlen
  have hrest : f.unread.drop n ++ f.future = k.rest.drop (f.s.body_in + n) := by
    rw [← List.drop_drop, ← hb.rest, List.drop_append_of_le_length hlen]
  have hhere : f.s.body_in + n ≤ k.rest.length := by
    have hsum := congrArg List.length hb.rest
    rw [List.length_append, List.length_drop] at hsum
    omega
  obtain ⟨htaken, hread⟩ := BodyRead.iter_data hr hb hroom hpos hlen hrecv hmem
  by_cases hmore : f.s.body_in + n < f.s.body_target
  · -- the body goes on
    rw [if_pos hmore] at hread
    rw [iter_eq hread htaken hwritten]
    refine ⟨k, Or.inl rfl, .body hk ⟨Or.inl rfl, hr.state, hr.events,
      (List.append_nil _).trans hr.out⟩ ?_ hge nofun
      fun hidle => absurd hidle (Flow.not_idle_of_running rfl)⟩
    refine ⟨hb.hdr_eq, hb.target_eq, hb.close_eq, hb.target_eq ▸ hmore, ?_,
      ⟨head, stale, hhead, rfl⟩, hhere, hrest, Or.inr hroom'⟩
    show f.s.len + n = hdr_sz + (f.s.body_in + n)
    rw [hb.len, Nat.add_assoc]
  · -- it is there, and is answered
    rw [if_neg hmore] at hread
    have hfull : f.s.body_in + n = target := by
      have := hb.target_eq
      omega
    obtain ⟨pipe_fd, pipe_sent, hbuild⟩ := build_response_eq cfg { f.s with
      cap := cap
      mem := head ++ k.rest.take (f.s.body_in + n) ++ Ch.nul :: stale
      len := f.s.len + n
      body_in := f.s.body_in + n } hmod
    rw [hbuild] at hread
    have hbody : cstr ((head ++ k.rest.take (f.s.body_in + n) ++ Ch.nul :: stale).drop
        f.s.hdr_sz) = cstr (k.rest.take target) := by
      rw [hb.hdr_eq, ← hhead, cstr_body, hfull]
    rw [iter_eq hread htaken hwritten]
    refine ⟨{ k with
      phase := .respond (responseBytes cfg (cstr (k.rest.take target)) close) close
      rest := k.rest.drop target
      cap := cap }, Or.inr ?_, .respond rfl ⟨rfl, ?_, Nat.zero_le _, hb.close_eq,
        Or.inr ⟨rfl, responseBytes_pos _ _ _⟩, ?_, rfl⟩ ?_ ?_⟩
    · rw [next_body hk]
      unfold Reading.atBody
      rw [hroom']
      simp only [if_neg (Nat.not_lt.mpr (hfull ▸ hhere))]
    · simp only [hbody, hb.close_eq]
    · show f.out ++ [] = k.out ++ List.take 0 _
      rw [List.take_zero, hr.out]
    · exact Nat.le_trans hge (ensure_capacity_ge hroom')
    · rw [← hfull]
      exact hrest

/-- The iteration that reads a part of the body. -/
theorem At.iter_body (hk : k.phase = .body hdr_sz target close)
    (hr : Reads f .read_body k) (hb : BodyRead realloc_ok f k hdr_sz target close)
    (hge : 16384 ≤ k.cap) (hgot : Got (f.s.body_target - f.s.body_in) f.unread c.recv)
    (halloc : c.realloc_ok = realloc_ok) (hmod : c.epoll_mod_ok = true) :
    ∃ k', (k' = k ∨ k.next cfg realloc_ok = some k') ∧ At realloc_ok (f.iter cfg c) k' := by
  have hwant := hb.want_ne
  have hwritten : Flow.written f.s c = [] := hr.written_body
  have hroom := hb.room
  rw [← halloc] at hroom
  cases hcap : ensure_capacity k.cap (hdr_sz + target + 1) c.realloc_ok with
  | failed =>
      rw [hcap] at hroom
      have hs : session_iter cfg f.s c = (f.s, .ret (-1)) := by
        rw [hr.iter_read_body]
        unfold session_read_body
        simp only [if_neg hwant, hroom]
      have htaken : Flow.taken f.s c = 0 := by
        unfold Flow.taken
        simp only [hr.state, hroom]
      -- the first allocation fails, before anything of the body is read
      have hzero : f.s.body_in = 0 := by
        rcases hb.cap with ⟨-, hzero⟩ | hsome
        · exact hzero
        · rw [← halloc, hcap] at hsome
          cases hsome
      have hrest := hb.rest
      rw [hzero, List.drop_zero] at hrest
      rw [iter_eq hs htaken hwritten]
      refine ⟨{ k with phase := .closed }, Or.inr ?_, .closed rfl rfl hrest ?_⟩
      · rw [next_body hk]
        unfold Reading.atBody
        rw [← halloc, hcap]
      · exact (List.append_nil _).trans hr.out
  | spins =>
      rw [hcap] at hroom
      have hs : session_iter cfg f.s c = (f.s, .again) := by
        rw [hr.iter_read_body]
        unfold session_read_body
        simp only [if_neg hwant, hroom]
      have htaken : Flow.taken f.s c = 0 := by
        unfold Flow.taken
        simp only [hr.state, hroom]
      rw [iter_eq hs htaken hwritten]
      exact ⟨k, Or.inl rfl, .body hk ⟨Or.inl rfl, hr.state, hr.events,
        (List.append_nil _).trans hr.out⟩ { hb with } hge nofun
        fun hidle => absurd hidle (Flow.not_idle_of_running rfl)⟩
  | room cap =>
      have hroom' := hcap
      rw [hcap] at hroom
      rw [halloc] at hroom'
      rcases hgot with ⟨hnil, hrecv⟩ | ⟨n, hpos, hn, hlen, hrecv⟩
      · -- nothing is there
        have hs : session_iter cfg f.s c = ({ f.s with cap := cap }, .ret 0) := by
          rw [hr.iter_read_body]
          unfold session_read_body
          simp only [if_neg hwant, hroom, hrecv]
        have htaken : Flow.taken f.s c = 0 := by
          unfold Flow.taken
          simp only [hr.state, hroom, hrecv]
        rw [iter_eq hs htaken hwritten]
        refine ⟨k, Or.inl rfl, .body hk ⟨Or.inr rfl, hr.state, hr.events,
          (List.append_nil _).trans hr.out⟩ { hb with cap := Or.inr hroom' } hge
          (fun _ => ⟨cap, hroom'⟩) fun _ => ?_⟩
        exact hnil
      · exact At.iter_body_data hk hr hb hge hroom hroom' hpos hn hlen hrecv hmod

end Body

/-- The iteration that writes a part of the response, or ends it. -/
theorem At.iter_respond {resp : Bytes} {close : Bool} (hk : k.phase = .respond resp close)
    (hr : Responds f k resp close) (hge : 16384 ≤ k.cap) (hrest : f.unread ++ f.future = k.rest)
    {c : Calls} (hmod : c.epoll_mod_ok = true)
    (hsend : c.send = .eagain ∨ ∃ n, 0 < n ∧ n ≤ f.s.resp.length - f.s.resp_off ∧ c.send = .sent n) :
    ∃ k', (k' = k ∨ k.next cfg realloc_ok = some k') ∧ At realloc_ok (f.iter cfg c) k' := by
  have htaken : Flow.taken f.s c = 0 := by
    unfold Flow.taken
    rw [hr.state]
  have hiter : session_iter cfg f.s c = session_write_response f.s c := by
    unfold session_iter
    rw [hr.state]
  have hoff := hr.off
  rw [← hr.resp_eq] at hoff
  by_cases hless : f.s.resp_off < f.s.resp.length
  · rcases hsend with hsend | ⟨n, hpos, hn, hsend⟩
    · have hs : session_iter cfg f.s c = (f.s, .ret 0) := by
        rw [hiter]
        unfold session_write_response
        simp only [if_pos hless, hsend]
      have hwritten : Flow.written f.s c = [] := by
        unfold Flow.written
        rw [hr.state, hsend]
      rw [iter_eq hs htaken hwritten]
      refine ⟨k, Or.inl rfl, .respond hk ⟨hr.state, hr.resp_eq, hr.off, hr.close_eq,
        Or.inr ⟨rfl, hr.resp_eq ▸ hless⟩, (List.append_nil _).trans hr.out, hr.cap⟩ hge hrest⟩
    · have hs : session_iter cfg f.s c = ({ f.s with resp_off := f.s.resp_off + n }, .again) := by
        rw [hiter]
        unfold session_write_response
        simp only [if_pos hless, hsend, if_neg (Nat.ne_of_gt hpos)]
      have hwritten : Flow.written f.s c = (resp.drop f.s.resp_off).take n := by
        unfold Flow.written
        rw [hr.state, hsend, hr.resp_eq]
      rw [iter_eq hs htaken hwritten]
      refine ⟨k, Or.inl rfl, .respond hk ⟨hr.state, hr.resp_eq, ?_, hr.close_eq, Or.inl rfl, ?_,
        hr.cap⟩ hge hrest⟩
      · show f.s.resp_off + n ≤ resp.length
        rw [← hr.resp_eq]
        omega
      · show f.out ++ (resp.drop f.s.resp_off).take n = k.out ++ resp.take (f.s.resp_off + n)
        rw [hr.out, List.append_assoc, ← List.take_add]
  · -- all is written
    have hall : resp.take f.s.resp_off = resp := by
      rw [List.take_of_length_le]
      rw [← hr.resp_eq]
      omega
    have hout : f.out = k.out ++ resp := by
      rw [hr.out, hall]
    have hwritten : Flow.written f.s c = [] := by
      unfold Flow.written
      rw [hr.state]
      cases c.send with
      | sent n =>
          show (f.s.resp.drop f.s.resp_off).take n = []
          rw [List.drop_of_length_le (Nat.le_of_not_lt hless), List.take_nil]
      | eagain => rfl
      | error => rfl
    have hnext : k.next cfg realloc_ok
        = some { k with phase := if close then .closed else .owner, out := k.out ++ resp } := by
      unfold Reading.next
      rw [hk]
    have hfinish : session_iter cfg f.s c = session_finish_response f.s c := by
      rw [hiter]
      unfold session_write_response
      rw [if_neg hless]
    unfold session_finish_response at hfinish
    rw [hr.close_eq] at hfinish
    cases close with
    | true =>
        have hs : session_iter cfg f.s c = (f.s, .ret (-1)) := hfinish
        rw [iter_eq hs htaken hwritten]
        exact ⟨_, Or.inr hnext, .closed rfl rfl hrest ((List.append_nil _).trans hout)⟩
    | false =>
        simp only [Bool.false_eq_true, if_false, hmod, if_true] at hfinish
        rw [iter_eq hfinish htaken hwritten]
        refine ⟨_, Or.inr hnext, .owner rfl ⟨Or.inl rfl, rfl, rfl, (List.append_nil _).trans hout⟩
          hr.cap hge hrest ?_⟩
        intro hidle
        have hmode : Mode.running = .waiting := hidle.1
        cases hmode

/-- **The step lemma**: a step keeps the place of the session, or moves it one on. -/
theorem At.step {l : FlowLabel} (h : At realloc_ok f k) (hst : Flow.Step cfg realloc_ok f l f')
    (henough : PeeksEnough f l) (hplain : HeadPlain f l) :
    ∃ k', (k' = k ∨ k.next cfg realloc_ok = some k') ∧ At realloc_ok f' k' := by
  cases hst with
  | arrive bytes rest hfuture hne => exact ⟨k, Or.inl rfl, h.arrive hfuture hne⟩
  | call hwait => exact ⟨k, Or.inl rfl, h.call hwait⟩
  | iter c hrun hlegal =>
      cases h with
      | owner hk hr hcap hge hrest _ =>
          exact At.iter_owner hk hr hcap hge hrest (hlegal.peek_owner hr.state) (henough.1 hr.state)
      | headers hk hr hcap hge hrest _ =>
          exact At.iter_headers hk hr hcap hge hrest (hlegal.peek_headers hr.state)
            (henough.2 hr.state) (hplain hr.state) hlegal.epoll_mod
      | body hk hr hb hge _ _ =>
          have hlt : f.s.body_in < f.s.body_target := hb.target_eq ▸ hb.lt
          exact At.iter_body hk hr hb hge (hlegal.body hr.state hlt) hlegal.realloc hlegal.epoll_mod
      | respond hk hr hge hrest =>
          exact At.iter_respond hk hr hge hrest hlegal.epoll_mod (hlegal.send hr.state)
      | closed hk hmode _ _ =>
          rw [hmode] at hrun
          cases hrun
      | relayed hk hmode _ _ =>
          rw [hmode] at hrun
          cases hrun

/-! ## §4. The end of a run. -/

/-- No byte is lost or read twice. -/
theorem Got.length_le {limit : Nat} {unread bytes : Bytes} (h : Got limit unread (.data bytes)) :
    bytes.length ≤ unread.length := by
  rcases h with ⟨-, e⟩ | ⟨n, -, -, hn, e⟩
  · cases e
  · cases e
    rw [List.length_take]
    omega

theorem taken_le {c : Calls} (h : f.Legal realloc_ok c) : Flow.taken f.s c ≤ f.unread.length := by
  unfold Flow.taken
  cases hs : f.s.state with
  | peek_owner => exact Nat.zero_le _
  | read_headers =>
      dsimp only
      split
      next cap bytes drained hcap hrecv hdrain =>
        split
        next hsome =>
          obtain ⟨p, hp⟩ := Option.isSome_iff_exists.mp hsome
          have hgot := h.drain hs bytes p.1 p.2 hrecv hp
          rw [hdrain] at hgot
          exact hgot.length_le
        next => exact Nat.zero_le _
      next => exact Nat.zero_le _
  | read_body =>
      dsimp only
      split
      next cap bytes hcap hrecv =>
        split
        next => exact Nat.zero_le _
        next hwant =>
          have hgot := h.body hs (by omega)
          rw [hrecv] at hgot
          exact hgot.length_le
      next => exact Nat.zero_le _
  | write_response => exact Nat.zero_le _

theorem Flow.consumed_eq (h : (flowSystem cfg realloc_ok stream).Reachable f) :
    f.consumed + f.unread.length + f.future.length = stream.length := by
  refine h.invariant (fun f => f.consumed + f.unread.length + f.future.length = stream.length) ?_ ?_
  · intro f hinit
    rw [hinit.consumed, ← hinit.stream, List.length_append, Nat.zero_add]
  · intro f l f' hsum hst
    cases hst with
    | arrive bytes rest hfuture _ =>
        rw [hfuture] at hsum
        simp only [List.length_append] at hsum ⊢
        omega
    | call _ => exact hsum
    | iter c _ hlegal =>
        have hle := taken_le hlegal
        show f.consumed + Flow.taken f.s c + (f.unread.drop (Flow.taken f.s c)).length
          + f.future.length = stream.length
        rw [List.length_drop]
        omega

/-- The whole stream has arrived and has been reported, and the socket has taken the
responses. -/
structure Flow.Quiescent (f : Flow) : Prop where
  arrived : f.future = []
  returned : f.mode ≠ .running
  no_event : f.mode = .waiting → f.reports = false
  accepted : f.mode = .waiting → f.s.state = .write_response → f.s.resp.length ≤ f.s.resp_off

instance (f : Flow) : Decidable f.Quiescent :=
  decidable_of_iff (f.future = [] ∧ f.mode ≠ .running ∧ (f.mode = .waiting → f.reports = false)
      ∧ (f.mode = .waiting → f.s.state = .write_response → f.s.resp.length ≤ f.s.resp_off))
    ⟨fun h => ⟨h.1, h.2.1, h.2.2.1, h.2.2.2⟩,
      fun h => ⟨h.arrived, h.returned, h.no_event, h.accepted⟩⟩

/-- What has become of the connection. -/
inductive Decision where
  | stillOpen
  | closed
  | relayed (owner : Bytes)
  deriving DecidableEq

def Mode.decision : Mode → Decision
  | .closed => .closed
  | .relayed owner => .relayed owner
  | _ => .stillOpen

def Phase.decision : Phase → Decision
  | .closed => .closed
  | .relayed name => .relayed name
  | _ => .stillOpen

/-- How much of the stream is left in the socket at an end of the reading. -/
def Reading.left (k : Reading) : Nat :=
  match k.phase with
  | .body _ _ _ => 0
  | _ => k.rest.length

theorem Flow.Quiescent.idle (hq : f.Quiescent)
    (hlive : f.mode = .running ∨ f.mode = .waiting) : f.Idle ∧ f.mode.decision = .stillOpen := by
  have hwait := hlive.resolve_left hq.returned
  exact ⟨⟨hwait, hq.no_event hwait⟩, by rw [hwait]; rfl⟩

/-- **A quiescent session is at an end of the reading**, and says so. -/
theorem At.quiescent (cfg : Config) (h : At realloc_ok f k) (hq : f.Quiescent) :
    k.next cfg realloc_ok = none ∧ f.out = k.out ∧ f.unread.length = k.left
      ∧ f.mode.decision = k.phase.decision := by
  have hall : f.unread ++ f.future = f.unread := by
    rw [hq.arrived, List.append_nil]
  cases h with
  | owner hk hr hcap hge hrest hidle =>
      obtain ⟨hi, hdec⟩ := hq.idle hr.live
      rw [hall] at hrest
      refine ⟨?_, hr.out, ?_, by rw [hk, hdec]; rfl⟩
      · unfold Reading.next
        rw [hk]
        show k.atOwner cfg = none
        unfold Reading.atOwner
        rw [← hrest]
        exact if_pos (hidle hi)
      · unfold Reading.left
        rw [hk, hrest]
  | headers hk hr hcap hge hrest hidle =>
      obtain ⟨hi, hdec⟩ := hq.idle hr.live
      rw [hall] at hrest
      refine ⟨?_, hr.out, ?_, by rw [hk, hdec]; rfl⟩
      · unfold Reading.next
        rw [hk]
        show k.atHeaders cfg = none
        unfold Reading.atHeaders
        rw [← hrest]
        simp only [(hidle hi).1, if_neg (Nat.not_le.mpr (hidle hi).2)]
      · unfold Reading.left
        rw [hk, hrest]
  | @body hdr_sz target close hk hr hb hge hroom hidle =>
      obtain ⟨hi, hdec⟩ := hq.idle hr.live
      have hnil := hidle hi
      obtain ⟨cap, hroom⟩ := hroom hi.1
      have hrest := hb.rest
      rw [hall, hnil] at hrest
      have hshort : k.rest.length < target := by
        have hlt := hb.lt
        have hlen := List.drop_eq_nil_iff.mp hrest.symm
        omega
      refine ⟨?_, hr.out, ?_, by rw [hk, hdec]; rfl⟩
      · unfold Reading.next
        rw [hk]
        show k.atBody cfg realloc_ok hdr_sz target close = none
        unfold Reading.atBody
        rw [hroom]
        exact if_pos hshort
      · unfold Reading.left
        rw [hk, hnil]
        rfl
  | respond hk hr hge hrest =>
      exfalso
      rcases hr.live with hrun | ⟨hwait, hless⟩
      · exact hq.returned hrun
      · have hall := hq.accepted hwait hr.state
        rw [hr.resp_eq] at hall
        omega
  | closed hk hmode hrest hout =>
      rw [hall] at hrest
      refine ⟨?_, hout, ?_, by rw [hk, hmode]; rfl⟩
      · unfold Reading.next
        rw [hk]
      · unfold Reading.left
        rw [hk, hrest]
  | relayed hk hmode hrest hout =>
      rw [hall] at hrest
      refine ⟨?_, hout, ?_, by rw [hk, hmode]; rfl⟩
      · unfold Reading.next
        rw [hk]
      · unfold Reading.left
        rw [hk, hrest]

/-- A run in which a peek shows what is there. -/
def arrivalSystem (cfg : Config) (realloc_ok : Nat → Bool) (stream : Bytes) :
    TransitionSystem Flow FlowLabel := (flowSystem cfg realloc_ok stream).restrict PeeksWhole

/-- **A run over plain header blocks follows the reading of the stream.** -/
theorem Flow.follows_reading
    (h : ((arrivalSystem cfg realloc_ok stream).restrict HeadPlain).Reachable f) :
    ∃ k, Course (Reading.next cfg realloc_ok) (Reading.start stream) k ∧ At realloc_ok f k := by
  refine h.follows (At realloc_ok) ?_ ?_
  · exact fun f hinit => At.initial hinit
  · exact fun f l f' k hat hst => hat.step hst.1.1 (hst.1.2.enough hst.1.1) hst.2

/-! ## §5. Schedules. -/

/-- The calls of an iteration that return as much as they can. -/
def Flow.wholeCalls (realloc_ok : Nat → Bool) (f : Flow) : Calls where
  recv :=
    if f.unread = [] then .eagain
    else .data (f.unread.take
      (match f.s.state with
        | .peek_owner => PEEK_LEN
        | .read_headers => f.s.cap - 1
        | _ => f.s.body_target - f.s.body_in))
  drain :=
    match headerEnd (f.unread.take (f.s.cap - 1)) with
    | some (hdr_end, sep_len) => .data (f.unread.take (hdr_end + sep_len))
    | none => .eagain
  send :=
    if f.s.resp_off < f.s.resp.length then .sent (f.s.resp.length - f.s.resp_off) else .eagain
  realloc_ok := realloc_ok
  epoll_mod_ok := true

theorem Whole.got {limit : Nat} {unread : Bytes} {r : Recv} (h : Whole limit unread r)
    (hlimit : 0 < limit) : Got limit unread r := by
  unfold Whole at h
  by_cases hnil : unread = []
  · rw [if_pos hnil] at h
    exact Or.inl ⟨hnil, h⟩
  · rw [if_neg hnil] at h
    have hpos := List.length_pos_iff.mpr hnil
    refine Or.inr ⟨min limit unread.length, by omega, by omega, by omega, ?_⟩
    rw [h]
    congr 1
    rw [List.take_eq_take_iff]
    omega

theorem wholeCalls_whole (realloc_ok : Nat → Bool) (f : Flow) :
    PeeksWhole f (.iter (f.wholeCalls realloc_ok)) := by
  constructor
  · intro hs
    unfold Whole Flow.wholeCalls
    rw [hs]
  · intro hs
    have hpeek : (f.wholeCalls realloc_ok).recv
        = if f.unread = [] then .eagain else .data (f.unread.take (f.s.cap - 1)) := by
      unfold Flow.wholeCalls
      rw [hs]
    refine ⟨hpeek, ?_⟩
    intro bytes hdr_end sep_len hrecv hend
    rw [hpeek] at hrecv
    split at hrecv
    · cases hrecv
    next hne =>
      cases hrecv
      unfold Whole Flow.wholeCalls
      simp only [if_neg hne, hend]

theorem wholeCalls_legal (realloc_ok : Nat → Bool) (f : Flow) (hcap : 1 < f.s.cap) :
    f.Legal realloc_ok (f.wholeCalls realloc_ok) := by
  obtain ⟨howner, hheaders⟩ := wholeCalls_whole realloc_ok f
  constructor
  · exact fun hs => (howner hs).got (by decide)
  · exact fun hs => (hheaders hs).1.got (by omega)
  · intro hs bytes hdr_end sep_len hrecv hend
    exact ((hheaders hs).2 bytes hdr_end sep_len hrecv hend).got (headerEnd_le hend).1
  · intro hs hlt
    have hrecv : Whole (f.s.body_target - f.s.body_in) f.unread (f.wholeCalls realloc_ok).recv := by
      unfold Whole Flow.wholeCalls
      rw [hs]
    exact hrecv.got (by omega)
  · intro hs
    unfold Flow.wholeCalls
    by_cases hless : f.s.resp_off < f.s.resp.length
    · exact Or.inr ⟨f.s.resp.length - f.s.resp_off, by omega, Nat.le_refl _, if_pos hless⟩
    · exact Or.inl (if_neg hless)
  · rfl
  · rfl

/-- What may happen next in a schedule. -/
inductive Act where
  /-- an iteration whose calls return as much as they can -/
  | turn
  | call
  | arrive (n : Nat)

/-- What cannot happen does not. -/
def Flow.act (cfg : Config) (good : Flow → Bool) (f : Flow) : Act → Flow
  | .turn =>
      if f.mode = .running ∧ 1 < f.s.cap ∧ good f = true then f.iter cfg (f.wholeCalls fun _ => true)
      else f
  | .call => if f.mode = .waiting then { f with mode := .running, due := false } else f
  | .arrive n =>
      if f.future.take n = [] then f
      else { f with
        unread := f.unread ++ f.future.take n
        future := f.future.drop n
        due := f.due || decide (f.s.events = .epollin) }

def Flow.acts (cfg : Config) (good : Flow → Bool) (f : Flow) (as : List Act) : Flow :=
  as.foldl (Flow.act cfg good) f

theorem reachable_act {Good : Flow → FlowLabel → Prop} {good : Flow → Bool} (a : Act)
    (hturn : ∀ f, good f = true → ∀ c, Good f (.iter c))
    (hother : ∀ f l, (∀ c, l ≠ .iter c) → Good f l)
    (h : ((arrivalSystem cfg (fun _ => true) stream).restrict Good).Reachable f) :
    ((arrivalSystem cfg (fun _ => true) stream).restrict Good).Reachable (f.act cfg good a) := by
  cases a with
  | turn =>
      unfold Flow.act
      dsimp only
      split
      next hcond =>
        obtain ⟨hrun, hcap, hgood⟩ := hcond
        exact h.step ⟨⟨.iter _ hrun (wholeCalls_legal _ f hcap), wholeCalls_whole _ f⟩,
          hturn f hgood _⟩
      next => exact h
  | call =>
      unfold Flow.act
      dsimp only
      split
      next hwait => exact h.step ⟨⟨.call hwait, trivial⟩, hother f _ fun _ => nofun⟩
      next => exact h
  | arrive n =>
      unfold Flow.act
      dsimp only
      split
      next => exact h
      next hne =>
        exact h.step ⟨⟨.arrive (f.future.take n) (f.future.drop n)
          (List.take_append_drop n f.future).symm hne, trivial⟩, hother f _ fun _ => nofun⟩

theorem reachable_acts {Good : Flow → FlowLabel → Prop} {good : Flow → Bool} (as : List Act)
    (hturn : ∀ f, good f = true → ∀ c, Good f (.iter c))
    (hother : ∀ f l, (∀ c, l ≠ .iter c) → Good f l)
    (h : ((arrivalSystem cfg (fun _ => true) stream).restrict Good).Reachable f) :
    ((arrivalSystem cfg (fun _ => true) stream).restrict Good).Reachable (f.acts cfg good as) := by
  induction as generalizing f with
  | nil => exact h
  | cons a as ih => exact ih (reachable_act a hturn hother h)

/-! ## §6. Two runs. -/

/-- **Two runs over one stream come to the same end**, whenever its bytes arrive and however
the body and the responses are cut, if every header block the session looks at is plain. -/
theorem same_end (cfg : Config) (realloc_ok : Nat → Bool) (stream : Bytes) {f g : Flow}
    (hf : ((arrivalSystem cfg realloc_ok stream).restrict HeadPlain).Reachable f)
    (hg : ((arrivalSystem cfg realloc_ok stream).restrict HeadPlain).Reachable g)
    (hfq : f.Quiescent) (hgq : g.Quiescent) :
    f.out = g.out ∧ f.consumed = g.consumed ∧ f.mode.decision = g.mode.decision := by
  obtain ⟨k, hk, hat⟩ := Flow.follows_reading hf
  obtain ⟨k', hk', hat'⟩ := Flow.follows_reading hg
  obtain ⟨hend, hout, hleft, hdec⟩ := hat.quiescent cfg hfq
  obtain ⟨hend', hout', hleft', hdec'⟩ := hat'.quiescent cfg hgq
  have e := hk.end_unique hk' hend hend'
  subst e
  have hsum := Flow.consumed_eq hf.of_restrict.of_restrict
  have hsum' := Flow.consumed_eq hg.of_restrict.of_restrict
  rw [hfq.arrived, hleft] at hsum
  rw [hgq.arrived, hleft'] at hsum'
  refine ⟨hout.trans hout'.symm, ?_, hdec.trans hdec'.symm⟩
  simp only [List.length_nil] at hsum hsum'
  omega

/-- A session of `sum-a` that has just been registered. -/
def accepted (stream : Bytes) : Flow := ⟨session_new 5 none, .running, [], stream, 0, [], false⟩

theorem accepted_initial (stream : Bytes) : Flow.Initial stream (accepted stream) :=
  ⟨⟨5, none, rfl⟩, rfl, rfl, rfl, rfl, rfl⟩

def sumA : Config := ⟨ascii "sum-a", false⟩

theorem arrival_acts (stream : Bytes) (as : List Act) :
    (arrivalSystem sumA (fun _ => true) stream).Reachable
      ((accepted stream).acts sumA (fun _ => true) as) := by
  have hrun : ((arrivalSystem sumA (fun _ => true) stream).restrict fun _ _ => True).Reachable
      ((accepted stream).acts sumA (fun _ => true) as) :=
    reachable_acts as (fun _ _ _ => trivial) (fun _ _ _ => trivial)
      (.init (accepted_initial stream))
  exact hrun.of_restrict

/-- The header block in sight, as the session finds it. -/
def Flow.headPlain (f : Flow) : Bool :=
  decide (f.s.state = .read_headers → Plain ((f.unread ++ f.future).take (f.s.cap - 1)))

theorem headPlain_acts (stream : Bytes) (as : List Act) :
    ((arrivalSystem sumA (fun _ => true) stream).restrict HeadPlain).Reachable
      ((accepted stream).acts sumA Flow.headPlain as) := by
  refine reachable_acts as ?_ ?_ (.init (accepted_initial stream))
  · intro f hgood c
    unfold Flow.headPlain at hgood
    exact fun hs => of_decide_eq_true hgood hs
  · intro f l hl
    cases l with
    | iter c => exact absurd rfl (hl c)
    | arrive _ => trivial
    | call => trivial

/-- What a session does once its bytes are there: the owner, the header block, the response,
and a look at the next request. -/
def serve : List Act := [.turn, .turn, .call, .turn, .turn, .turn, .call, .turn]

/-- A request whose lines end in CRLF. -/
def crlfStream : Bytes := ascii "GET /function/sum-a H\r\n\r\n"

/-- At once, and cut inside the line and inside the empty line. -/
theorem same_end_crlf :
    let f := (accepted crlfStream).acts sumA Flow.headPlain ([.arrive 25] ++ serve)
    let g := (accepted crlfStream).acts sumA Flow.headPlain
      ([.arrive 7, .turn, .arrive 17, .call, .turn, .turn, .arrive 1, .call] ++ serve.drop 1)
    f.out = g.out ∧ f.consumed = g.consumed ∧ f.mode.decision = g.mode.decision :=
  same_end sumA (fun _ => true) crlfStream (headPlain_acts crlfStream _)
    (headPlain_acts crlfStream _) (by decide +kernel) (by decide +kernel)

/-- A request whose lines end in LF, and a line that ends in CRLF. -/
def mixedStream : Bytes := ascii "GET /function/sum-a H\n\nA\r\n\r\n"

/-- **Where a header block ends may depend on when the bytes arrive**: at once the line is a part
of the request, and behind the answered request it is no request, and the connection is
closed. -/
theorem mixed_ends_differ :
    ∃ f g, (arrivalSystem sumA (fun _ => true) mixedStream).Reachable f
      ∧ (arrivalSystem sumA (fun _ => true) mixedStream).Reachable g ∧ f.Quiescent ∧ g.Quiescent
      ∧ (f.consumed, f.mode.decision) = (28, .stillOpen)
      ∧ (g.consumed, g.mode.decision) = (23, .closed) :=
  ⟨_, _, arrival_acts mixedStream ([.arrive 28] ++ serve),
    arrival_acts mixedStream ([.arrive 23] ++ serve ++ [.arrive 5, .call, .turn]),
    by decide +kernel, by decide +kernel, by decide +kernel, by decide +kernel⟩

end TlsMigration.HttpKa
