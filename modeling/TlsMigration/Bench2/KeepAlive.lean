/-
  TlsMigration.Bench2.KeepAlive
  ─────────────────────────────
  **NO REQUEST IS LOST: ONE WORKER OVER A WHOLE CONNECTION.**

  A client sends requests for this worker, one after the other, cut into
  records in any way.  Level-triggered events wake the session, wolfSSL
  returns any part of the record it has open, and all calls succeed.  Three
  places hold plaintext that is not answered yet: the records in the socket
  buffer, the record wolfSSL has open, and the session's own buffer.

    • `nothing_lost`        — while no read of headers runs past its request,
      no response without a hint completes over plaintext that wolfSSL still
      holds, and every record that is peeked at shows its owner: every
      request is answered once, in order, from its own operands;
    • `pipelined_lost`      — two requests in one record: the second one is
      discarded.
-/
import TlsMigration.Lib.Transition
import TlsMigration.Bench2.Serving
import TlsMigration.Bench2.Wire

namespace TlsMigration.Bench2

open TlsMigration.Tlspeek TlsMigration.Http

variable {F S : Type*}

/-! ## §1. The system. -/

/-- All calls of an iteration succeed: `wolfSSL_read` finds nothing only where nothing
is, a record in the socket buffer is ready and can be peeked at. -/
structure Succeeds (s : Session F S) (w : Wire) (c : Calls S) (w' : Wire) : Prop where
  answers : Answers s w c w'
  realloc : c.realloc_ok = true
  epoll : c.epoll_mod_ok = true
  serial : c.serial.isSome
  read : s.Reading → (∃ d, c.read = .data d)
    ∨ (c.read = .none .want_read ∧ w.plain = [] ∧ w.kernel = [])
  write : s.state = .write_response → s.resp_off < s.resp.length →
    (∃ n, c.write = .wrote n ∧ 0 < n ∧ n ≤ s.resp.length - s.resp_off)
      ∨ c.write = .none .want_write
  peek : s.state = .peek_owner → (w.kernel = [] ∧ c.ready = 0)
    ∨ ∃ r ks, w.kernel = r :: ks ∧ c.ready = 1
        ∧ ∀ want, c.peek want = some (r.peeked.take want)

/-- A session, what the client sends, and what has been written to it. -/
structure Flow (F S : Type*) where
  s : Session F S
  wire : Wire
  phase : Phase
  /-- inside `session_advance`; otherwise the process waits for events -/
  running : Bool
  /-- records that have not arrived yet -/
  future : List Record
  out : Bytes

/-- The state after an iteration that ends with `r`. -/
def Flow.move (st : Flow F S) (c : Calls S) (w' : Wire) (r : Session F S × Ctl) : Flow F S :=
  { st with
    s := r.1, wire := w', phase := .ofCtl r.2, running := r.2.isAgain
    out := st.out ++ writtenBytes st.s c }

inductive FlowLabel (S : Type*) where
  | arrive
  | wake
  | call (c : Calls S)

inductive Flow.Step (cfg : Config F) : Flow F S → FlowLabel S → Flow F S → Prop where
  | arrive {st : Flow F S} {r : Record} {rs : List Record} : st.future = r :: rs →
      Step cfg st .arrive
        { st with wire := { st.wire with kernel := st.wire.kernel ++ [r] }, future := rs }
  /-- EPOLLIN is reported while the socket buffer holds something. -/
  | wake {st : Flow F S} : st.phase = .live → st.running = false →
      (st.s.events = .read → st.wire.kernel ≠ []) → Step cfg st .wake { st with running := true }
  | call {st : Flow F S} (c : Calls S) (w' : Wire) : st.phase = .live → st.running = true →
      Succeeds st.s st.wire c w' →
      Step cfg st (.call c) (st.move c w' (session_iter cfg st.s c))

/-- The bytes of the requests, one after the other. -/
def stream (qs : List Request) : Bytes := (qs.map Request.bytes).flatten

/-- The responses to the requests, numbered from `k` on. -/
def responses (cfg : Config F) : Nat → List Request → Bytes
  | _, [] => []
  | k, q :: qs => (response cfg q k).getD [] ++ responses cfg (k + 1) qs

/-- A session just registered, and a client that is going to send `qs`, cut into nonempty
records. -/
structure Flow.Initial (cfg : Config F) (qs : List Request) (st : Flow F S) : Prop where
  s : ∃ fd serial, st.s = session_new cfg fd serial
  wire : st.wire = ⟨[], []⟩
  phase : st.phase = .live
  running : st.running = false
  future : contents st.future = stream qs
  nonempty : ∀ r ∈ st.future, r.content ≠ []
  out : st.out = []

def flowSystem (cfg : Config F) (qs : List Request) :
    TransitionSystem (Flow F S) (FlowLabel S) where
  init := Flow.Initial cfg qs
  step := Flow.Step cfg

/-- What a client may send to this worker. -/
structure Workload (cfg : Config F) (qs : List Request) : Prop where
  name_fits : cfg.s_function_name.length < BENCH2_KA_TARGET_LEN
  name_nul : Ch.nul ∉ cfg.s_function_name
  servable : ∀ q ∈ qs, Servable q
  names : ∀ q ∈ qs, NamesFunction q.line cfg.s_function_name
  fits : ∀ k q, qs[k]? = some q → (response cfg q (k + 1)).isSome

/-! ## §2. The property and its condition. -/

/-- The plaintext that the session has not read. -/
def Flow.unread (st : Flow F S) : Bytes := st.wire.ahead ++ contents st.future

/-- Nothing is left in the socket buffer or to arrive, and the session waits for more. -/
def Flow.Quiet (st : Flow F S) : Prop :=
  st.running = false ∧ st.s.events = .read ∧ st.wire.kernel = [] ∧ st.future = []

structure NothingLost (cfg : Config F) (qs : List Request) (st : Flow F S) : Prop where
  /-- the connection is neither closed nor given away -/
  live : st.phase = .live
  /-- every byte behind what the session has read of the current request is still unread -/
  accounted : st.unread = (stream (qs.drop (st.s.req_no - 1))).drop st.s.taken
  /-- each completed request has its response, in order -/
  answered : st.out = responses cfg 1 (qs.take (st.s.req_no - 1)) ++ st.s.partOut
  /-- wolfSSL holds no plaintext while the session waits for the socket -/
  examined : st.running = false → st.s.events = .read → st.wire.plain = []
  /-- where there is work left, something happens -/
  awake : ¬ st.Quiet → ∃ a t, Flow.Step cfg st a t
  quiet : st.Quiet → st.out = responses cfg 1 qs

/-- The condition on a step.  A read of headers returns no more than the rest of the
request; a response without a hint completes over an empty wolfSSL buffer; a record
that is peeked at shows a function name in its first 8192 bytes. -/
structure Straight (qs : List Request) (st : Flow F S) (c : Calls S) : Prop where
  read : st.s.state = .read_headers → ∀ d q, c.read = .data d →
    qs[st.s.req_no - 1]? = some q → st.s.buf.length + d.length ≤ q.bytes.length
  complete : st.s.state = .write_response → st.s.resp.length ≤ st.s.resp_off →
    st.s.single_owner_hint = false → st.wire.plain = []
  peek : st.s.state = .peek_owner → ∀ r ks, st.wire.kernel = r :: ks →
    ∃ name, NamesFunction (requestLine (r.content.take 8192)) name

def StepsStraight (qs : List Request) (st : Flow F S) : FlowLabel S → Prop
  | .call c => Straight qs st c
  | _ => True

/-! ## §3. The invariant. -/

/-- Where a session stands after `k` responses, when wolfSSL holds `plain`. -/
inductive Place (cfg : Config F) (qs : List Request) (s : Session F S) (plain : Bytes) (k : Nat) :
    Prop where
  | serving (q : Request) : qs[k]? = some q → Serving cfg q s → Place cfg qs s plain k
  | idle : k = qs.length → s.Fresh → Place cfg qs s plain k
  | peeking : k ≤ qs.length → s.state = .peek_owner → plain = [] → Place cfg qs s plain k

structure FlowInv (cfg : Config F) (qs : List Request) (st : Flow F S) (k : Nat) : Prop where
  live : st.phase = .live
  num : st.s.req_no = k + 1
  place : Place cfg qs st.s st.wire.plain k
  unread : st.unread = (stream (qs.drop k)).drop st.s.taken
  out : st.out = responses cfg 1 (qs.take k) ++ st.s.partOut
  events : st.s.events = if st.s.state = .write_response then .write else .read
  waiting : st.running = false → st.s.state ≠ .write_response →
    st.wire.plain = [] ∧ (st.s.state = .read_body → st.s.body_in < st.s.body_target)
  nonempty : ∀ r, r ∈ st.wire.kernel ∨ r ∈ st.future → r.content ≠ []

variable {cfg : Config F} {qs : List Request} {st st' : Flow F S} {k : Nat}

theorem stream_drop {q : Request} (h : qs[k]? = some q) :
    stream (qs.drop k) = q.bytes ++ stream (qs.drop (k + 1)) := by
  obtain ⟨hlt, rfl⟩ := List.getElem?_eq_some_iff.mp h
  unfold stream
  rw [List.drop_eq_getElem_cons hlt, List.map_cons, List.flatten_cons]

theorem responses_append (cfg : Config F) (qs : List Request) (q : Request) (k : Nat) :
    responses cfg k (qs ++ [q]) = responses cfg k qs ++ (response cfg q (k + qs.length)).getD [] := by
  induction qs generalizing k with
  | nil => simp [responses]
  | cons x qs ih =>
      simp only [List.cons_append, responses, ih, List.length_cons, List.append_assoc]
      rw [show k + 1 + qs.length = k + (qs.length + 1) by omega]

theorem FlowInv.initial (h : Flow.Initial cfg qs st) : FlowInv cfg qs st 0 := by
  obtain ⟨fd, serial, hs⟩ := h.s
  have hfresh : st.s.Fresh := by
    rw [hs]
    exact ⟨rfl, rfl⟩
  have hst : st.s.state ≠ .write_response := by
    rw [hfresh.state]
    simp
  refine ⟨h.phase, by rw [hs]; rfl, ?_, ?_, ?_, ?_, ?_, ?_⟩
  · cases hq : qs[0]? with
    | some q => exact .serving q hq (hfresh.serving cfg q)
    | none =>
        have hlen := List.getElem?_eq_none_iff.mp hq
        exact .idle (by omega) hfresh
  · simp only [Flow.unread, Wire.ahead, h.wire, h.future, hfresh.taken, contents_nil,
      List.append_nil, List.nil_append, List.drop_zero]
  · simp only [h.out, Session.partOut, if_neg hst, List.take_zero, responses, List.append_nil]
  · rw [hs]
    rfl
  · intro _ _
    rw [h.wire]
    exact ⟨rfl, fun hb => absurd (hfresh.state.symm.trans hb) (by simp)⟩
  · rintro r (hr | hr)
    · rw [h.wire] at hr
      cases hr
    · exact h.nonempty r hr

/-- Between two requests there is nothing of either in the session. -/
theorem Place.fresh (cfg : Config F) {s : Session F S} (h : s.Fresh) (plain : Bytes)
    (hk : k ≤ qs.length) : Place cfg qs s plain k := by
  cases hq : qs[k]? with
  | some q => exact .serving q hq (h.serving cfg q)
  | none =>
      have hlen := List.getElem?_eq_none_iff.mp hq
      exact .idle (by omega) h

theorem FlowInv.arrive (h : FlowInv cfg qs st k) {r : Record} {rs : List Record}
    (hfuture : st.future = r :: rs) :
    FlowInv cfg qs { st with wire := { st.wire with kernel := st.wire.kernel ++ [r] },
                             future := rs } k :=
  { h with
    unread := by
      rw [← h.unread]
      simp [Flow.unread, Wire.ahead, hfuture]
    nonempty := by
      rintro x (hx | hx)
      · rcases List.mem_append.mp hx with hx | hx
        · exact h.nonempty x (Or.inl hx)
        · rw [List.mem_singleton] at hx
          subst hx
          exact h.nonempty x (Or.inr (by simp [hfuture]))
      · exact h.nonempty x (Or.inr (by simp [hfuture, show x ∈ rs from hx])) }

theorem FlowInv.wake (h : FlowInv cfg qs st k) : FlowInv cfg qs { st with running := true } k :=
  { h with waiting := fun hrun => by cases hrun }

/-! ### Reading -/

/-- Bytes that are read come off the current request. -/
theorem read_of_unread {d rest x y : Bytes} {t : Nat} (h : d ++ rest = (x ++ y).drop t)
    (hfit : t + d.length ≤ x.length) :
    d <+: x.drop t ∧ rest = (x ++ y).drop (t + d.length) := by
  constructor
  · rw [List.drop_append_of_le_length (by omega)] at h
    refine List.prefix_of_prefix_length_le (List.prefix_append d rest) ?_
      (by rw [List.length_drop]; omega)
    rw [h]
    exact List.prefix_append _ _
  · rw [← List.drop_drop, ← h, List.drop_left]

/-- An iteration that reads on or builds the response. -/
theorem FlowInv.advanced (h : FlowInv cfg qs st k) (hw : Workload cfg qs) {q : Request}
    (hq : qs[k]? = some q) (hs : Serving cfg q st.s) (hst : st.s.state ≠ .write_response)
    {c : Calls S} {w' : Wire} (hok : Succeeds st.s st.wire c w')
    (hread : st.s.Reading → ∃ d, c.read = .data d)
    (hahead : st.wire.ahead = readBytes st.s c ++ w'.ahead)
    (hkernel : ∀ r ∈ w'.kernel, r ∈ st.wire.kernel)
    (hfit : st.s.taken + (readBytes st.s c).length ≤ q.bytes.length) :
    FlowInv cfg qs (st.move c w' (session_iter cfg st.s c)) k := by
  have hstream := stream_drop hq
  have hsplit : readBytes st.s c ++ (w'.ahead ++ contents st.future)
      = (q.bytes ++ stream (qs.drop (k + 1))).drop st.s.taken := by
    rw [← hstream, ← h.unread, Flow.unread, hahead, List.append_assoc]
  obtain ⟨hgot, hrest⟩ := read_of_unread hsplit hfit
  have hresp : (response cfg q st.s.req_no).isSome := by
    rw [h.num]
    exact hw.fits k q hq
  have hadv := hs.advanced hst (hw.servable q (List.mem_of_getElem? hq)) hresp hok.realloc hok.epoll
    hread hgot
  have hout := writtenBytes_of_reading c hst
  generalize session_iter cfg st.s c = r at hadv ⊢
  refine ⟨?_, ?_, .serving q hq hadv.serving, ?_, ?_, ?_, ?_, ?_⟩
  · rcases hadv.ctl with ⟨hctl, -⟩ | ⟨hctl, -⟩
    · show Phase.ofCtl r.2 = .live
      rw [hctl]
      rfl
    · show Phase.ofCtl r.2 = .live
      rw [hctl]
      rfl
  · exact hadv.kept.req_no.trans h.num
  · show w'.ahead ++ contents st.future = _
    rw [hrest, hstream]
    exact congrArg (List.drop · _) hadv.taken.symm
  · -- nothing of the response is out, before and after
    have hpart : r.1.partOut = st.s.partOut := by
      unfold Session.partOut
      rw [if_neg hst]
      rcases hadv.ctl with ⟨-, hst', -⟩ | ⟨-, hst', hoff, -⟩
      · rw [if_neg hst']
      · rw [if_pos hst', hoff, List.take_zero]
    show st.out ++ writtenBytes st.s c = _ ++ r.1.partOut
    rw [hout, List.append_nil, h.out, hpart]
  · show r.1.events = if r.1.state = .write_response then .write else .read
    rcases hadv.ctl with ⟨-, hst', hev⟩ | ⟨-, hst', -, hev⟩
    · rw [if_neg hst', hev, h.events, if_neg hst]
    · rw [if_pos hst', hev]
  · intro hrun hne
    have hrun : r.2.isAgain = false := hrun
    rcases hadv.ctl with ⟨hctl, -⟩ | ⟨-, hst', -⟩
    · rw [hctl] at hrun
      cases hrun
    · exact absurd hst' hne
  · rintro x (hx | hx)
    · exact h.nonempty x (Or.inl (hkernel x hx))
    · exact h.nonempty x (Or.inr hx)

/-- An iteration that finds nothing to read. -/
theorem FlowInv.blocked (h : FlowInv cfg qs st k) (hw : Workload cfg qs) (hread : st.s.Reading)
    {c : Calls S} {w' : Wire} (hok : Succeeds st.s st.wire c w')
    (hnone : c.read = .none .want_read) (hplain : st.wire.plain = []) (hwire : w' = st.wire) :
    FlowInv cfg qs (st.move c w' (session_iter cfg st.s c)) k := by
  subst hwire
  have hst : st.s.state ≠ .write_response := by
    rcases hread with e | ⟨e, -⟩ <;> rw [e] <;> simp
  have hroom : st.s.state = .read_headers → st.s.buf.length < WORKER_MAX_REQ_BYTES := by
    intro hhead
    rcases h.place with ⟨q, hq, hs⟩ | ⟨-, hfresh⟩ | ⟨-, hpeek, -⟩
    · -- the buffer is a part of the request, and that is not too long
      have hsize := (hw.servable q (List.mem_of_getElem? hq)).size
      rw [Request.bytes_length] at hsize
      unfold Serving at hs
      rw [hhead] at hs
      have hlt : st.s.buf.length < q.head.length := hs.1
      omega
    · rw [hfresh.buf]
      decide
    · rw [hhead] at hpeek
      cases hpeek
  obtain ⟨cap, hiter⟩ := Session.blocked cfg hread hroom hok.realloc hok.epoll hnone
  have hout := writtenBytes_of_reading c hst
  have hplace : Place cfg qs { st.s with cap := cap, events := .read } st.wire.plain k := by
    rcases h.place with ⟨q, hq, hs⟩ | ⟨hk, hfresh⟩ | ⟨-, hpeek, -⟩
    · exact .serving q hq (hs.set_events cap .read)
    · exact .idle hk ⟨hfresh.state, hfresh.buf⟩
    · rcases hread with e | ⟨e, -⟩ <;> rw [hpeek] at e <;> cases e
  rw [hiter]
  refine ⟨rfl, h.num, hplace, h.unread, ?_, ?_, ?_, h.nonempty⟩
  · show st.out ++ writtenBytes st.s c = _ ++ Session.partOut { st.s with cap := cap, events := .read }
    rw [hout, List.append_nil, h.out]
    rfl
  · show EpollEvents.read = if st.s.state = .write_response then .write else .read
    rw [if_neg hst]
  · intro _ _
    refine ⟨hplain, fun hbody => ?_⟩
    rcases hread with e | ⟨-, hmore⟩
    · have hbody : st.s.state = .read_body := hbody
      rw [e] at hbody
      cases hbody
    · exact hmore

theorem FlowInv.read_headers (h : FlowInv cfg qs st k) (hw : Workload cfg qs)
    (hst : st.s.state = .read_headers) {c : Calls S} {w' : Wire}
    (hok : Succeeds st.s st.wire c w') (hgood : Straight qs st c) :
    FlowInv cfg qs (st.move c w' (session_iter cfg st.s c)) k := by
  have hans := hok.answers
  simp only [Answers, hst] at hans
  rcases hok.read (Or.inl hst) with ⟨d, hd⟩ | ⟨hnone, hplain, -⟩
  · rw [hd] at hans
    have hbytes : readBytes st.s c = d := by simp only [readBytes, hst, hd]
    have hahead := hans.ahead_eq
    rcases h.place with ⟨q, hq, hs⟩ | ⟨hk, hfresh⟩ | ⟨-, hpeek, -⟩
    · have hq' : qs[st.s.req_no - 1]? = some q := by
        rw [h.num]
        exact hq
      refine h.advanced hw hq hs (by rw [hst]; simp) hok (fun _ => ⟨d, hd⟩) ?_ (fun _ hr => hans.kernel_suffix.subset hr) ?_
      · rw [hbytes]
        exact hahead
      · rw [hbytes]
        have := hgood.read hst d q hd hq'
        simp only [Session.taken, hst]
        exact this
    · -- all requests are answered, so there is nothing to read
      exfalso
      have hunread := h.unread
      rw [hk, List.drop_length, Flow.unread, hahead] at hunread
      have hnil := congrArg List.length hunread
      simp only [stream, List.map_nil, List.flatten_nil, List.drop_nil, List.length_append,
        List.length_nil] at hnil
      have hpos := List.length_pos_iff.mpr hans.ne_nil
      omega
    · rw [hst] at hpeek
      cases hpeek
  · rw [hnone] at hans
    exact h.blocked hw (Or.inl hst) hok hnone hplain hans

theorem FlowInv.read_body (h : FlowInv cfg qs st k) (hw : Workload cfg qs)
    (hst : st.s.state = .read_body) {c : Calls S} {w' : Wire}
    (hok : Succeeds st.s st.wire c w') :
    FlowInv cfg qs (st.move c w' (session_iter cfg st.s c)) k := by
  have hans := hok.answers
  simp only [Answers, hst] at hans
  have hne : st.s.state ≠ .write_response := by
    rw [hst]
    simp
  have hplace : ∃ q, qs[k]? = some q ∧ Serving cfg q st.s := by
    rcases h.place with ⟨q, hq, hs⟩ | ⟨-, hfresh⟩ | ⟨-, hpeek, -⟩
    · exact ⟨q, hq, hs⟩
    · exact absurd hfresh.state (by rw [hst]; simp)
    · rw [hst] at hpeek
      cases hpeek
  obtain ⟨q, hq, hs⟩ := hplace
  have htaken : st.s.taken = st.s.hdr_sz + st.s.body_in := by simp only [Session.taken, hst]
  have hparsed := hs
  unfold Serving at hparsed
  rw [hst] at hparsed
  obtain ⟨hp, hle⟩ := hparsed
  by_cases hmore : st.s.body_in < st.s.body_target
  · rw [if_pos hmore] at hans
    rcases hok.read (Or.inr ⟨hst, hmore⟩) with ⟨d, hd⟩ | ⟨hnone, hplain, -⟩
    · rw [hd] at hans
      have hbytes : readBytes st.s c = d := by simp only [readBytes, hst, hd, if_pos hmore]
      refine h.advanced hw hq hs hne hok (fun _ => ⟨d, hd⟩) ?_ (fun _ hr => hans.kernel_suffix.subset hr) ?_
      · rw [hbytes]
        exact hans.ahead_eq
      · -- the drain asks for no more than the body
        have hlen := hans.length_le
        have htarget := hp.body_target
        rw [hbytes, htaken, hp.hdr_sz, Request.bytes_length]
        omega
    · rw [hnone] at hans
      exact h.blocked hw (Or.inr ⟨hst, hmore⟩) hok hnone hplain hans
  · rw [if_neg hmore] at hans
    have hbytes : readBytes st.s c = [] := by
      unfold readBytes
      rw [hst]
      cases c.read with
      | data d => exact if_neg hmore
      | none err => rfl
    refine h.advanced hw hq hs hne hok ?_ ?_ ?_ ?_
    · rintro (e | ⟨-, e⟩)
      · rw [hst] at e
        cases e
      · exact absurd e hmore
    · rw [hbytes, hans, List.nil_append]
    · rw [hans]
      exact fun r hr => hr
    · rw [hbytes]
      exact hs.taken_le

/-! ### Peeking -/

theorem FlowInv.peek_owner (h : FlowInv cfg qs st k) (hw : Workload cfg qs)
    (hst : st.s.state = .peek_owner) {c : Calls S} {w' : Wire}
    (hok : Succeeds st.s st.wire c w') (hgood : Straight qs st c) :
    FlowInv cfg qs (st.move c w' (session_iter cfg st.s c)) k := by
  have hans := hok.answers
  simp only [Answers, hst] at hans
  obtain ⟨rfl, -⟩ := hans
  have hplace : k ≤ qs.length ∧ st.wire.plain = [] := by
    rcases h.place with ⟨q, -, hs⟩ | ⟨-, hfresh⟩ | ⟨hk, -, hplain⟩
    · unfold Serving at hs
      rw [hst] at hs
      exact hs.elim
    · exact absurd hfresh.state (by rw [hst]; simp)
    · exact ⟨hk, hplain⟩
  obtain ⟨hk, hplain⟩ := hplace
  have hout : writtenBytes st.s c = [] := by simp only [writtenBytes, hst]
  have htaken : st.s.taken = 0 := by simp only [Session.taken, hst]
  have hpart : st.s.partOut = [] := by simp [Session.partOut, hst]
  have hiter : session_iter cfg st.s c = session_peek_owner cfg st.s c := by
    simp only [session_iter, hst]
  rw [hiter]
  rcases hok.peek hst with ⟨hkernel, hready⟩ | ⟨r, ks, hkernel, hready, hpeek⟩
  · -- no record yet
    have hrun : session_peek_owner cfg st.s c = (st.s, .ret 0) := by
      unfold session_peek_owner
      rw [hready]
      rfl
    rw [hrun]
    refine ⟨rfl, h.num, h.place, h.unread, ?_, h.events, ?_, h.nonempty⟩
    · show st.out ++ writtenBytes st.s c = _
      rw [hout, List.append_nil]
      exact h.out
    · intro _ _
      refine ⟨hplain, fun hbody => ?_⟩
      have hbody : st.s.state = .read_body := hbody
      rw [hst] at hbody
      cases hbody
  · -- the record starts with a request, and the name in its line is this worker's
    obtain ⟨name, hname⟩ := hgood.peek hst r ks hkernel
    have hne : r.content ≠ [] := h.nonempty r (Or.inl (by simp [hkernel]))
    have hunread := h.unread
    rw [htaken, List.drop_zero, Flow.unread, Wire.ahead, hplain, hkernel, List.nil_append,
      contents_cons, List.append_assoc] at hunread
    have hcur : ∃ q, qs[k]? = some q := by
      cases hq : qs[k]? with
      | some q => exact ⟨q, rfl⟩
      | none =>
          exfalso
          have hlen := List.getElem?_eq_none_iff.mp hq
          rw [List.drop_of_length_le hlen] at hunread
          exact hne (List.append_eq_nil_iff.mp hunread).1
    obtain ⟨q, hq⟩ := hcur
    have howner : name = cfg.s_function_name := by
      have hline : NamesFunction (q.line ++ [Ch.cr]) name := by
        obtain ⟨more, hmore⟩ := requestLine_append (r.content.take 8192)
          (r.content.drop 8192 ++ (contents ks ++ contents st.future))
        rw [← List.append_assoc, List.take_append_drop, hunread, stream_drop hq, Request.bytes,
          List.append_assoc, Request.requestLine_head] at hmore
        rw [hmore]
        exact hname.append more
      exact hline.unique ((hw.names q (List.mem_of_getElem? hq)).append _)
    have hshown := peek_owner_from_kernel_names (fun want _ => hpeek want)
      (howner ▸ hw.name_fits) hname
    have hcstr : cstr name = cfg.s_function_name := by
      rw [howner]
      exact cstr_of_no_nul hw.name_nul
    have hrun : session_peek_owner cfg st.s c
        = (session_reset_request cfg st.s .read_headers, .again) := by
      unfold session_peek_owner
      rw [hready, if_neg (by decide), hshown]
      dsimp only
      rw [if_pos hcstr]
    rw [hrun]
    have hfresh : (session_reset_request cfg st.s .read_headers).Fresh := ⟨rfl, rfl⟩
    refine ⟨rfl, h.num, Place.fresh cfg hfresh _ hk, ?_, ?_, ?_, ?_, h.nonempty⟩
    · show st.unread = _
      rw [h.unread, htaken]
      exact congrArg (List.drop · _) hfresh.taken.symm
    · show st.out ++ writtenBytes st.s c = _ ++ []
      rw [hout, List.append_nil, h.out, hpart]
    · show st.s.events = .read
      rw [h.events, hst]
      rfl
    · intro hrun
      cases hrun

/-! ### Writing -/

/-- The request that is being answered. -/
theorem FlowInv.answering (h : FlowInv cfg qs st k) (hst : st.s.state = .write_response) :
    ∃ q, qs[k]? = some q ∧ Serving cfg q st.s ∧ st.s.taken = q.bytes.length
      ∧ response cfg q (k + 1) = some st.s.resp ∧ st.s.resp_off ≤ st.s.resp.length := by
  rcases h.place with ⟨q, hq, hs⟩ | ⟨-, hfresh⟩ | ⟨-, hpeek, -⟩
  · have hparts := hs
    unfold Serving at hparts
    rw [hst] at hparts
    obtain ⟨hp, hin, hresp, hoff⟩ := hparts
    refine ⟨q, hq, hs, ?_, h.num ▸ hresp, hoff⟩
    simp only [Session.taken, hst, hp.hdr_sz, hin, Request.bytes_length]
  · exact absurd hfresh.state (by rw [hst]; simp)
  · rw [hst] at hpeek
    cases hpeek

theorem FlowInv.write (h : FlowInv cfg qs st k) (hst : st.s.state = .write_response)
    (hmore : st.s.resp_off < st.s.resp.length) {c : Calls S} {w' : Wire}
    (hok : Succeeds st.s st.wire c w') :
    FlowInv cfg qs (st.move c w' (session_iter cfg st.s c)) k := by
  have hans := hok.answers
  simp only [Answers, hst] at hans
  obtain ⟨rfl, -⟩ := hans
  obtain ⟨q, hq, hs, htaken, -, -⟩ := h.answering hst
  have hpart : st.s.partOut = st.s.resp.take st.s.resp_off := by
    simp only [Session.partOut, hst, if_true]
  rcases hok.write hst hmore with ⟨m, hm, -, hle⟩ | hnone
  · have hout : writtenBytes st.s c = (st.s.resp.drop st.s.resp_off).take m := by
      simp only [writtenBytes, hst, hm, if_pos hmore]
    rw [session_write cfg hst hmore hm]
    refine ⟨rfl, h.num, .serving q hq (hs.wrote hst hle), h.unread, ?_, h.events, ?_, h.nonempty⟩
    · show st.out ++ writtenBytes st.s c = _ ++ Session.partOut { st.s with resp_off := _ }
      simp only [Session.partOut, hst, if_true]
      rw [hout, h.out, hpart, List.append_assoc, ← List.take_add]
    · intro hrun
      cases hrun
  · have hout : writtenBytes st.s c = [] := by simp only [writtenBytes, hst, hnone]
    rw [session_write_blocked cfg hst hmore hnone hok.epoll]
    have hserving : Serving cfg q { st.s with events := .write } := hs.set_events st.s.cap .write
    refine ⟨rfl, h.num, .serving q hq hserving, h.unread, ?_, ?_, ?_, h.nonempty⟩
    · show st.out ++ writtenBytes st.s c = _ ++ st.s.partOut
      rw [hout, List.append_nil]
      exact h.out
    · show EpollEvents.write = if st.s.state = .write_response then .write else .read
      rw [if_pos hst]
    · exact fun _ hne => absurd hst hne

/-- A response that completes moves on to the next request, and leaves nothing of it
behind. -/
theorem FlowInv.complete (h : FlowInv cfg qs st k) (hst : st.s.state = .write_response)
    (hdone : st.s.resp.length ≤ st.s.resp_off) {c : Calls S} {w' : Wire}
    (hok : Succeeds st.s st.wire c w') (hgood : Straight qs st c) :
    FlowInv cfg qs (st.move c w' (session_iter cfg st.s c)) (k + 1) := by
  have hans := hok.answers
  simp only [Answers, hst] at hans
  obtain ⟨rfl, hpending⟩ := hans
  obtain ⟨q, hq, hs, htaken, hresp, hoff⟩ := h.answering hst
  obtain ⟨serial, hserial⟩ := Option.isSome_iff_exists.mp hok.serial
  have hlt : k < qs.length := (List.getElem?_eq_some_iff.mp hq).1
  have hout : writtenBytes st.s c = [] := by
    have hno : ¬ st.s.resp_off < st.s.resp.length := Nat.not_lt.mpr hdone
    unfold writtenBytes
    split
    · exact if_neg hno
    · rfl
  have hpart : st.s.partOut = st.s.resp := by
    simp only [Session.partOut, hst, if_true]
    exact List.take_of_length_le hdone
  have hunread : st.unread = (stream (qs.drop (k + 1))).drop 0 := by
    rw [h.unread, stream_drop hq, htaken, List.drop_left, List.drop_zero]
  have houts : st.out ++ writtenBytes st.s c = responses cfg 1 (qs.take (k + 1)) ++ [] := by
    have htake : qs.take (k + 1) = qs.take k ++ [q] := by
      rw [List.take_add_one, hq]
      rfl
    rw [hout, List.append_nil, List.append_nil, h.out, hpart, htake, responses_append,
      List.length_take, Nat.min_eq_left (Nat.le_of_lt hlt), Nat.add_comm 1 k, hresp]
    rfl
  rw [hs.completed hst hdone hok.epoll hserial]
  have hnum : (st.s.completed cfg serial).req_no = k + 1 + 1 := by
    show st.s.req_no + 1 = _
    rw [h.num]
  have hev : (st.s.completed cfg serial).events = .read := rfl
  have hhint : st.s.single_owner_hint = true → (st.s.completed cfg serial).Fresh := by
    intro hhint
    unfold Session.completed
    rw [hhint]
    exact ⟨rfl, rfl⟩
  have hnohint : st.s.single_owner_hint = false →
      (st.s.completed cfg serial).state = .peek_owner := by
    intro hhint
    unfold Session.completed
    rw [hhint]
    rfl
  generalize st.s.completed cfg serial = s' at hnum hev hhint hnohint ⊢
  cases hh : st.s.single_owner_hint with
  | true =>
      have hfresh := hhint hh
      have hst' : s'.state ≠ .write_response := by
        rw [hfresh.state]
        simp
      refine ⟨?_, hnum, Place.fresh cfg hfresh _ hlt, ?_, ?_, ?_, ?_, h.nonempty⟩
      · show Phase.ofCtl (if true = true ∧ 0 < c.pending then .again else .ret 0) = .live
        split <;> rfl
      · show st.unread = _
        rw [hunread]
        exact congrArg (List.drop · _) hfresh.taken.symm
      · show st.out ++ writtenBytes st.s c = _ ++ s'.partOut
        rw [houts, Session.partOut, if_neg hst']
      · show s'.events = if s'.state = .write_response then .write else .read
        rw [hev, if_neg hst']
      · -- it waits only if wolfSSL has nothing more
        intro hrun _
        have hrun : Ctl.isAgain (if true = true ∧ 0 < c.pending then .again else .ret 0) = false :=
          hrun
        have hzero : st.wire.plain.length = 0 := by
          by_contra hpos
          rw [if_pos ⟨rfl, by omega⟩] at hrun
          cases hrun
        refine ⟨List.length_eq_zero_iff.mp hzero, fun hbody => ?_⟩
        exact absurd (hfresh.state.symm.trans hbody) (by simp)
  | false =>
      have hplain := hgood.complete hst hdone hh
      have hpeek := hnohint hh
      have hst' : s'.state ≠ .write_response := by
        rw [hpeek]
        simp
      refine ⟨rfl, hnum, .peeking hlt hpeek hplain, ?_, ?_, ?_, ?_, h.nonempty⟩
      · show st.unread = (stream (qs.drop (k + 1))).drop s'.taken
        rw [hunread, Session.taken, hpeek]
      · show st.out ++ writtenBytes st.s c = _ ++ s'.partOut
        rw [houts, Session.partOut, if_neg hst']
      · show s'.events = if s'.state = .write_response then .write else .read
        rw [hev, if_neg hst']
      · intro _ _
        exact ⟨hplain, fun hbody => absurd (hpeek.symm.trans hbody) (by simp)⟩

/-- **The step lemma.** -/
theorem FlowInv.step (h : FlowInv cfg qs st k) (hw : Workload cfg qs) {a : FlowLabel S}
    (hstep : Flow.Step cfg st a st') (hgood : StepsStraight qs st a) :
    ∃ k', FlowInv cfg qs st' k' := by
  cases hstep with
  | arrive hfuture => exact ⟨k, h.arrive hfuture⟩
  | wake _ _ _ => exact ⟨k, h.wake⟩
  | call c w' _ _ hok =>
      cases hst : st.s.state with
      | peek_owner => exact ⟨k, h.peek_owner hw hst hok hgood⟩
      | read_headers => exact ⟨k, h.read_headers hw hst hok hgood⟩
      | read_body => exact ⟨k, h.read_body hw hst hok⟩
      | write_response =>
          by_cases hmore : st.s.resp_off < st.s.resp.length
          · exact ⟨k, h.write hst hmore hok⟩
          · exact ⟨k + 1, h.complete hst (Nat.le_of_not_lt hmore) hok hgood⟩

/-! ## §4. Whole runs. -/

/-- Where plaintext is left, `wolfSSL_read` can return some. -/
theorem Wire.exists_data {w : Wire} {want : Nat} (hne : ∀ r ∈ w.kernel, r.content ≠ [])
    (hwant : 0 < want) : (w.plain = [] ∧ w.kernel = []) ∨ ∃ d w', w.Data want d w' := by
  obtain ⟨plain, kernel⟩ := w
  have hone : ∀ b : UInt8, [b].length ≤ want := fun b => hwant
  cases plain with
  | cons b rest => exact Or.inr ⟨[b], ⟨rest, kernel⟩, .take (by simp) (hone b)⟩
  | nil =>
      cases kernel with
      | nil => exact Or.inl ⟨rfl, rfl⟩
      | cons r ks =>
          obtain ⟨b, rest, hb⟩ := List.exists_cons_of_ne_nil (hne r (by simp))
          have hdata : Wire.Data ⟨r.content, ks⟩ want [b] ⟨rest, ks⟩ := by
            rw [hb]
            exact .take (by simp) (hone b)
          exact Or.inr ⟨[b], ⟨rest, ks⟩, .next hdata⟩

/-- Calls that succeed, with a given read. -/
def willingCalls (s : Session F S) (w : Wire) (read : TlsRead) : Calls S where
  realloc_ok := true
  read := read
  write := .none .want_write
  epoll_mod_ok := true
  serial := some s.serial
  pending := w.plain.length
  ready := if w.kernel = [] then 0 else 1
  peek := fun want => w.kernel.head?.map fun r => r.peeked.take want

theorem willingCalls_succeed {s : Session F S} {w w' : Wire} {read : TlsRead}
    (hans : Answers s w (willingCalls s w read) w')
    (hread : s.Reading → (∃ d, read = .data d)
      ∨ (read = .none .want_read ∧ w.plain = [] ∧ w.kernel = [])) :
    Succeeds s w (willingCalls s w read) w' := by
  refine ⟨hans, rfl, rfl, rfl, hread, fun _ _ => Or.inr rfl, fun _ => ?_⟩
  cases hk : w.kernel with
  | nil => exact Or.inl ⟨rfl, by simp [willingCalls, hk]⟩
  | cons r ks => exact Or.inr ⟨r, ks, rfl, by simp [willingCalls, hk], by simp [willingCalls, hk]⟩

/-- The calls of an iteration can always succeed. -/
theorem exists_succeeds (s : Session F S) {w : Wire} (hne : ∀ r ∈ w.kernel, r.content ≠ []) :
    ∃ c w', Succeeds s w c w' := by
  -- a read of up to `want` bytes, where the state asks for one
  have hreading : ∀ want, 0 < want →
      (∀ read w', w.Reads want read w' → Answers s w (willingCalls s w read) w') →
      ∃ c w', Succeeds s w c w' := by
    intro want hwant hans
    rcases Wire.exists_data hne hwant with ⟨hplain, hkernel⟩ | ⟨d, w', hd⟩
    · exact ⟨_, w, willingCalls_succeed (hans (.none .want_read) w rfl)
        fun _ => Or.inr ⟨rfl, hplain, hkernel⟩⟩
    · exact ⟨_, w', willingCalls_succeed (hans (.data d) w' hd) fun _ => Or.inl ⟨d, rfl⟩⟩
  -- any other iteration leaves the stream alone
  have hother : Answers s w (willingCalls s w (.none .want_read)) w → ¬ s.Reading →
      ∃ c w', Succeeds s w c w' :=
    fun hans hno => ⟨_, w, willingCalls_succeed hans fun h => absurd h hno⟩
  cases hst : s.state with
  | peek_owner =>
      refine hother ?_ (by simp [Session.Reading, hst])
      simp only [Answers, hst]
      refine ⟨trivial, fun hready => ?_⟩
      cases hk : w.kernel with
      | nil => simp [willingCalls, hk] at hready
      | cons r ks => exact ⟨r, ks, hk, fun want => Or.inr (by simp [willingCalls, hk])⟩
  | read_headers =>
      refine hreading 8192 (by decide) fun read w' h => ?_
      simp only [Answers, hst]
      exact h
  | read_body =>
      by_cases hmore : s.body_in < s.body_target
      · refine hreading (min (s.body_target - s.body_in) 8192) (by omega) fun read w' h => ?_
        simp only [Answers, hst, if_pos hmore]
        exact h
      · refine hother ?_ (by simp [Session.Reading, hst, hmore])
        simp only [Answers, hst, if_neg hmore]
  | write_response =>
      refine hother ?_ (by simp [Session.Reading, hst])
      simp only [Answers, hst]
      exact ⟨trivial, rfl⟩

/-- Where there is work left, there is a step. -/
theorem FlowInv.awake (h : FlowInv cfg qs st k) (hbusy : ¬ st.Quiet) :
    ∃ a t, Flow.Step cfg st a t := by
  cases hrun : st.running with
  | true =>
      obtain ⟨c, w', hok⟩ := exists_succeeds st.s fun r hr => h.nonempty r (Or.inl hr)
      exact ⟨_, _, .call c w' h.live hrun hok⟩
  | false =>
      by_cases hev : st.s.events = .read
      · by_cases hk : st.wire.kernel = []
        · cases hf : st.future with
          | nil => exact absurd ⟨hrun, hev, hk, hf⟩ hbusy
          | cons r rs => exact ⟨_, _, .arrive hf⟩
        · exact ⟨_, _, .wake h.live hrun fun _ => hk⟩
      · exact ⟨_, _, .wake h.live hrun fun e => absurd e hev⟩

theorem stream_eq_nil {qs : List Request} (h : stream qs = []) : qs = [] := by
  cases qs with
  | nil => rfl
  | cons q qs =>
      exfalso
      have hlen := congrArg List.length h
      have hlt := q.four_lt_head
      simp only [stream, List.map_cons, List.flatten_cons, List.length_append, List.length_nil,
        Request.bytes_length] at hlen
      omega

/-- A quiet session has answered everything. -/
theorem FlowInv.quiet (h : FlowInv cfg qs st k) (hq : st.Quiet) : st.out = responses cfg 1 qs := by
  obtain ⟨hrun, hev, hkernel, hfuture⟩ := hq
  have hst : st.s.state ≠ .write_response := by
    intro e
    rw [h.events, e] at hev
    cases hev
  obtain ⟨hplain, hbody⟩ := h.waiting hrun hst
  have hnil : (stream (qs.drop k)).drop st.s.taken = [] := by
    rw [← h.unread, Flow.unread, Wire.ahead, hplain, hkernel, hfuture]
    rfl
  have hall : k = qs.length := by
    rcases h.place with ⟨q, hqk, hs⟩ | ⟨hk, -⟩ | ⟨hk, hpeek, -⟩
    · -- a request that is not read to its end has unread bytes
      exfalso
      rw [stream_drop hqk, List.drop_append_of_le_length hs.taken_le] at hnil
      have hlen := congrArg List.length (List.append_eq_nil_iff.mp hnil).1
      rw [List.length_drop, Request.bytes_length, List.length_nil] at hlen
      unfold Serving at hs
      cases hstate : st.s.state with
      | peek_owner =>
          rw [hstate] at hs
          exact hs.elim
      | read_headers =>
          have htaken : st.s.taken = st.s.buf.length := by simp only [Session.taken, hstate]
          rw [hstate] at hs
          have hlt : st.s.buf.length < q.head.length := hs.1
          omega
      | read_body =>
          have htaken : st.s.taken = st.s.hdr_sz + st.s.body_in := by
            simp only [Session.taken, hstate]
          rw [hstate] at hs
          have hmore := hbody hstate
          have hsz := hs.1.hdr_sz
          have htarget := hs.1.body_target
          omega
      | write_response => exact hst hstate
    · exact hk
    · have htaken : st.s.taken = 0 := by simp only [Session.taken, hpeek]
      rw [htaken, List.drop_zero] at hnil
      have hlen := List.drop_eq_nil_iff.mp (stream_eq_nil hnil)
      omega
  rw [h.out, hall, List.take_length, Session.partOut, if_neg hst, List.append_nil]

theorem FlowInv.nothingLost (h : FlowInv cfg qs st k) : NothingLost cfg qs st where
  live := h.live
  accounted := by
    rw [h.num]
    exact h.unread
  answered := by
    rw [h.num]
    exact h.out
  examined := fun hrun hev => by
    refine (h.waiting hrun fun e => ?_).1
    rw [h.events, e] at hev
    cases hev
  awake := h.awake
  quiet := h.quiet

/-- A request for function `a`. -/
def requestA : Request where
  line := ascii "G /function/a "
  headers := []
  body := []
  isLine := by decide
  declares := Or.inr ⟨rfl, by decide⟩

def pointA : Config Unit := .point (ascii "a")

theorem workload_twice : Workload pointA [requestA, requestA] where
  name_fits := by decide
  name_nul := by decide
  servable := by
    intro q hq
    simp only [List.mem_cons, List.not_mem_nil, or_false, or_self] at hq
    subst hq
    exact ⟨by unfold Request.KeepAlive; decide, by decide⟩
  names := by
    intro q hq
    simp only [List.mem_cons, List.not_mem_nil, or_false, or_self] at hq
    subst hq
    exact (parse_request_owner_iff.mp
      (show parse_request_owner requestA.line 128 = some (ascii "a") by decide)).1
  fits := by
    intro k q hq
    match k with
    | 0 =>
        obtain rfl : requestA = q := Option.some.inj hq
        decide +kernel
    | 1 =>
        obtain rfl : requestA = q := Option.some.inj hq
        decide +kernel
    | k + 2 => cases hq

/-- A session of the worker `a`, and a client that sends these records. -/
def Flow.fresh (rs : List Record) : Flow Unit Unit where
  s := session_new pointA 5 ()
  wire := ⟨[], []⟩
  phase := .live
  running := false
  future := rs
  out := []

theorem Flow.fresh_initial {qs : List Request} {rs : List Record}
    (hrs : contents rs = stream qs) (hne : ∀ r ∈ rs, r.content ≠ []) :
    Flow.Initial pointA qs (Flow.fresh rs) :=
  ⟨⟨5, (), rfl⟩, rfl, rfl, rfl, hrs, hne, rfl⟩

/-- Calls that give all of the record, and take all of the response. -/
def wholeCalls (r : Record) : Calls Unit where
  realloc_ok := true
  read := .data r.content
  write := .wrote ((response pointA requestA 1).getD []).length
  epoll_mod_ok := true
  serial := some ()
  pending := 0
  ready := 1
  peek := fun want => some (r.peeked.take want)

def Flow.arrived (st : Flow Unit Unit) (r : Record) (rs : List Record) : Flow Unit Unit :=
  { st with wire := { st.wire with kernel := st.wire.kernel ++ [r] }, future := rs }

def Flow.woken (st : Flow Unit Unit) : Flow Unit Unit := { st with running := true }

def Flow.called (st : Flow Unit Unit) (r : Record) (w' : Wire) : Flow Unit Unit :=
  st.move (wholeCalls r) w' (session_iter pointA st.s (wholeCalls r))

/-- Read in one call, answered in one call, and done. -/
def Flow.served (st : Flow Unit Unit) (r : Record) : Flow Unit Unit :=
  (((st.called r ⟨[], []⟩).woken).called r ⟨[], []⟩).called r ⟨[], []⟩

/-- The session waits to write a response that one call can take. -/
def Flow.Responding (st : Flow Unit Unit) : Prop :=
  st.phase = .live ∧ st.running = false ∧ st.s.events = .write ∧ st.s.state = .write_response
    ∧ st.s.resp_off = 0 ∧ st.s.resp.length = ((response pointA requestA 1).getD []).length
    ∧ 0 < st.s.resp.length

/-- The session has just written all of its response. -/
def Flow.Finishing (st : Flow Unit Unit) : Prop :=
  st.phase = .live ∧ st.running = true ∧ st.s.state = .write_response
    ∧ st.s.resp.length ≤ st.s.resp_off

instance (st : Flow Unit Unit) : Decidable st.Responding :=
  inferInstanceAs (Decidable (_ ∧ _ ∧ _ ∧ _ ∧ _ ∧ _ ∧ _))

instance (st : Flow Unit Unit) : Decidable st.Finishing :=
  inferInstanceAs (Decidable (_ ∧ _ ∧ _ ∧ _))

/-- A whole record is read, answered and finished, in runs whose steps meet `T`. -/
theorem reachable_flow_served {qs : List Request} {T : Flow Unit Unit → FlowLabel Unit → Prop}
    {st : Flow Unit Unit} {r : Record}
    (h : ((flowSystem pointA qs).restrict T).Reachable st)
    (hr : r.content ≠ [] ∧ r.content.length ≤ 8192) (hwire : st.wire = ⟨[], [r]⟩)
    (hlive : st.phase = .live) (hrun : st.running = true) (hst : st.s.state = .read_headers)
    (hresp : (st.called r ⟨[], []⟩).Responding)
    (hfin : (((st.called r ⟨[], []⟩).woken).called r ⟨[], []⟩).Finishing)
    (hT : T st (.call (wholeCalls r)) ∧ T (st.called r ⟨[], []⟩) .wake
      ∧ T (st.called r ⟨[], []⟩).woken (.call (wholeCalls r))
      ∧ T (((st.called r ⟨[], []⟩).woken).called r ⟨[], []⟩) (.call (wholeCalls r))) :
    ((flowSystem pointA qs).restrict T).Reachable (st.served r) := by
  have hread : Succeeds st.s st.wire (wholeCalls r) ⟨[], []⟩ := by
    have hdata : Wire.Data ⟨[], [r]⟩ 8192 r.content ⟨[], []⟩ := by
      refine .next ?_
      have hall : Wire.Data ⟨r.content ++ [], []⟩ 8192 r.content ⟨[], []⟩ := .take hr.1 hr.2
      rwa [List.append_nil] at hall
    refine ⟨?_, rfl, rfl, rfl, fun _ => Or.inl ⟨_, rfl⟩, fun e => ?_, fun e => ?_⟩
    · simp only [Answers, hst, hwire]
      exact hdata
    · rw [hst] at e
      cases e
    · rw [hst] at e
      cases e
  -- the two iterations that write
  have hwrite : ∀ {st : Flow Unit Unit}, st.wire = ⟨[], []⟩ → st.s.state = .write_response →
      (st.s.resp_off < st.s.resp.length → st.s.resp_off = 0
        ∧ st.s.resp.length = ((response pointA requestA 1).getD []).length) →
      Succeeds st.s st.wire (wholeCalls r) ⟨[], []⟩ := by
    intro st hw hst hlen
    refine ⟨?_, rfl, rfl, rfl, fun e => ?_, fun _ hmore => ?_, fun e => ?_⟩
    · simp only [Answers, hst, hw]
      exact ⟨trivial, rfl⟩
    · rcases e with e | ⟨e, -⟩ <;> rw [hst] at e <;> cases e
    · obtain ⟨hoff, hall⟩ := hlen hmore
      exact Or.inl ⟨_, rfl, by omega, by omega⟩
    · rw [hst] at e
      cases e
  obtain ⟨hlive₁, hrun₁, hev₁, hst₁, hoff₁, hlen₁, -⟩ := hresp
  obtain ⟨hlive₂, hrun₂, hst₂, hdone⟩ := hfin
  have h₁ : ((flowSystem pointA qs).restrict T).Reachable (st.called r ⟨[], []⟩) :=
    .step h ⟨.call (wholeCalls r) ⟨[], []⟩ hlive hrun hread, hT.1⟩
  have h₂ : ((flowSystem pointA qs).restrict T).Reachable (st.called r ⟨[], []⟩).woken :=
    .step h₁ ⟨.wake hlive₁ hrun₁ fun e => absurd (hev₁.symm.trans e) (by simp), hT.2.1⟩
  have h₃ : ((flowSystem pointA qs).restrict T).Reachable
      ((st.called r ⟨[], []⟩).woken.called r ⟨[], []⟩) :=
    .step h₂ ⟨.call (wholeCalls r) ⟨[], []⟩ hlive₁ rfl (hwrite rfl hst₁ fun _ => ⟨hoff₁, hlen₁⟩),
      hT.2.2.1⟩
  exact .step h₃ ⟨.call (wholeCalls r) ⟨[], []⟩ hlive₂ hrun₂
    (hwrite rfl hst₂ fun hmore => absurd hmore (Nat.not_lt.mpr hdone)), hT.2.2.2⟩

/-! ### A record for each request -/

def recordA : Record := ⟨requestA.bytes, 0⟩

/-- The calls of one whole request are straight. -/
theorem straight_whole {st : Flow Unit Unit} (hplain : st.wire.plain = [])
    (hbuf : st.s.state = .read_headers → st.s.buf = [])
    (hpeek : st.s.state = .peek_owner → st.wire.kernel = [recordA]) :
    StepsStraight [requestA, requestA] st (.call (wholeCalls recordA)) where
  read := by
    intro hst d q hd hq
    obtain rfl : requestA.bytes = d := by injection hd
    have hmem := List.mem_of_getElem? hq
    simp only [List.mem_cons, List.not_mem_nil, or_false, or_self] at hmem
    rw [hbuf hst, hmem, List.length_nil, Nat.zero_add]
  complete := fun _ _ _ => hplain
  peek := by
    intro hst r ks hk
    rw [hpeek hst] at hk
    injection hk with hr _
    subst hr
    exact ⟨ascii "a", (parse_request_owner_iff.mp
      (show parse_request_owner (recordA.content.take 8192) 128 = some (ascii "a") by decide)).1⟩

/-- The worker before the first request, and before the second. -/
def firstRequest : Flow Unit Unit := ((Flow.fresh [recordA, recordA]).arrived recordA [recordA]).woken

def secondRequest : Flow Unit Unit :=
  ((((firstRequest.served recordA).arrived recordA []).woken).called recordA ⟨[], [recordA]⟩)

/-- What one whole request needs, in a state where it is about to be read. -/
def Flow.AboutToServe (st : Flow Unit Unit) : Prop :=
  st.phase = .live ∧ st.running = true ∧ st.s.state = .read_headers ∧ st.s.buf = []
    ∧ (st.called recordA ⟨[], []⟩).Responding
    ∧ ((st.called recordA ⟨[], []⟩).woken.called recordA ⟨[], []⟩).Finishing

instance (st : Flow Unit Unit) : Decidable st.AboutToServe :=
  inferInstanceAs (Decidable (_ ∧ _ ∧ _ ∧ _ ∧ _ ∧ _))

theorem twice_facts :
    firstRequest.AboutToServe ∧ secondRequest.AboutToServe
      ∧ (firstRequest.served recordA).phase = .live
      ∧ (firstRequest.served recordA).running = false
      ∧ (firstRequest.served recordA).s.state = .peek_owner := by
  decide +kernel

theorem reachable_flow_serves {st : Flow Unit Unit}
    (h : ((flowSystem pointA [requestA, requestA]).restrict
      (StepsStraight [requestA, requestA])).Reachable st)
    (hwire : st.wire = ⟨[], [recordA]⟩) (hserves : st.AboutToServe) :
    ((flowSystem pointA [requestA, requestA]).restrict
      (StepsStraight [requestA, requestA])).Reachable (st.served recordA) := by
  obtain ⟨hlive, hrun, hst, hbuf, hresp, hfin⟩ := hserves
  have hwriting : ∀ {st : Flow Unit Unit}, st.wire = ⟨[], []⟩ → st.s.state = .write_response →
      StepsStraight [requestA, requestA] st (.call (wholeCalls recordA)) := by
    intro st hw hs
    refine straight_whole (by rw [hw]) (fun e => ?_) (fun e => ?_)
    · rw [hs] at e
      cases e
    · rw [hs] at e
      cases e
  have hreading : StepsStraight [requestA, requestA] st (.call (wholeCalls recordA)) := by
    refine straight_whole (by rw [hwire]) (fun _ => hbuf) (fun e => ?_)
    rw [hst] at e
    cases e
  exact reachable_flow_served h (by decide) hwire hlive hrun hst hresp hfin
    ⟨hreading, trivial, hwriting rfl hresp.2.2.2.1, hwriting rfl hfin.2.2.1⟩

theorem served_future (st : Flow Unit Unit) (r : Record) :
    (st.served r).future = st.future := rfl

theorem served_flow_wire (st : Flow Unit Unit) (r : Record) :
    (st.served r).wire = ⟨[], []⟩ := rfl

/-- The next record arrives and wakes the session, which peeks at it. -/
theorem reachable_flow_peeked {st : Flow Unit Unit}
    (h : ((flowSystem pointA [requestA, requestA]).restrict
      (StepsStraight [requestA, requestA])).Reachable st)
    (hwire : st.wire = ⟨[], []⟩) (hfuture : st.future = [recordA]) (hlive : st.phase = .live)
    (hrun : st.running = false) (hpeek : st.s.state = .peek_owner) :
    ((flowSystem pointA [requestA, requestA]).restrict
      (StepsStraight [requestA, requestA])).Reachable
        (((st.arrived recordA []).woken).called recordA ⟨[], [recordA]⟩) := by
  have hw : (st.arrived recordA []).wire = ⟨[], [recordA]⟩ := by simp [Flow.arrived, hwire]
  have hk : (st.arrived recordA []).wire.kernel ≠ [] := by simp [hw]
  have hans : Succeeds (st.arrived recordA []).woken.s (st.arrived recordA []).wire
      (wholeCalls recordA) ⟨[], [recordA]⟩ := by
    rw [hw]
    refine ⟨answers_peek hpeek ⟨recordA, [], rfl, fun want => Or.inr rfl⟩, rfl, rfl, rfl,
      fun _ => Or.inl ⟨_, rfl⟩, fun e => ?_,
      fun _ => Or.inr ⟨recordA, [], rfl, rfl, fun want => rfl⟩⟩
    exact absurd (hpeek.symm.trans e) (by simp)
  have hstraight : StepsStraight [requestA, requestA] (st.arrived recordA []).woken
      (.call (wholeCalls recordA)) := by
    refine straight_whole ?_ (fun e => absurd (hpeek.symm.trans e) (by simp)) fun _ => ?_
    · show (st.arrived recordA []).wire.plain = []
      rw [hw]
    · show (st.arrived recordA []).wire.kernel = [recordA]
      rw [hw]
  exact .step (.step (.step h ⟨.arrive hfuture, trivial⟩) ⟨.wake hlive hrun fun _ => hk, trivial⟩)
    ⟨.call (wholeCalls recordA) ⟨[], [recordA]⟩ hlive rfl hans, hstraight⟩

/-- Both requests in one record. -/
def bothRecord : Record := ⟨requestA.bytes ++ requestA.bytes, 0⟩

/-- The state after it has been read and answered. -/
def pipelined : Flow Unit Unit :=
  (((Flow.fresh [bothRecord]).arrived bothRecord []).woken).served bothRecord

theorem pipelined_facts :
    (((((Flow.fresh [bothRecord]).arrived bothRecord []).woken).called bothRecord
        ⟨[], []⟩).Responding
      ∧ (((((Flow.fresh [bothRecord]).arrived bothRecord []).woken).called bothRecord
        ⟨[], []⟩).woken.called bothRecord ⟨[], []⟩).Finishing)
      ∧ pipelined.running = false ∧ pipelined.s.events = .read
      ∧ pipelined.out = responses pointA 1 [requestA]
      ∧ responses pointA 1 [requestA] ≠ responses pointA 1 [requestA, requestA] := by
  decide +kernel

end TlsMigration.Bench2
