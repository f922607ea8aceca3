/-
  TlsMigration.Migration.Invariant
  ────────────────────────────────
  **THE INVARIANT OF A MIGRATING CONNECTION.**

  One place holds the descriptor, and `Stage` says what is known there: the
  exported sequence number is that of the first unread record, the name in
  a message is that of the request it belongs to, the whole of that request
  is still before the reader, and everything written so far are the
  responses to the requests before it.  §2 moves the client, §3 the
  messages, §4 a session at work on a request, §5 a session between two.

  `Stage` depends on the world through its `View` only, so the steps that
  leave the view alone need no argument.
-/
import TlsMigration.Migration.System

namespace TlsMigration.Migration

open TlsMigration.Tlspeek TlsMigration.Bench2 TlsMigration.Handoff TlsMigration.Http

variable {F β : Type*} {n : Nat} {env : Env F β n} {jobs : List Job}

/-! ## §1. The invariant. -/

structure View where
  sent : Nat
  /-- records that have been sent and not taken out of the socket buffer -/
  ahead : List Record
  live : Live
  out : List (Bytes × UInt8)

def World.view (env : Env F β n) (st : World F β n) : View :=
  ⟨st.sent, st.kernel ++ st.transit, st.live env, st.out⟩

/-- Nothing of request `k` has been read; it may not even be sent. -/
def Untouched (jobs : List Job) (v : View) (k : Nat) : Prop :=
  (v.sent = k ∧ v.ahead = [])
    ∨ ∃ j, jobs[k]? = some j ∧ v.sent = k + 1 ∧ v.ahead = j.records

/-- A struct on its way, for request `k`. -/
structure InFlight (env : Env F β n) (jobs : List Job) (v : View) (k : Nat) (j : Job)
    (p : Payload (TlspeekSerial β)) : Prop where
  job : jobs[k]? = some j
  sent : v.sent = k + 1
  ahead : v.ahead = j.records
  first : requestNo jobs k = 1
  out : v.out = transcript env jobs k
  magic : p.magic = BENCH2_KA_MAGIC
  version : p.version = BENCH2_KA_VERSION
  serial : p.serial = export_live_serial env.wolf v.live
  target : p.target = j.owner

/-- The response is written. -/
def Done (s : Session F (TlspeekSerial β)) : Prop :=
  s.state = .write_response ∧ s.resp.length ≤ s.resp_off

/-- What a session at work on the request of `j` still has before it: the unread part of
the request, and behind a written response perhaps the next request. -/
def Unread (jobs : List Job) (v : View) (k : Nat) (j : Job) (s : WSession F β) : Prop :=
  ∃ rem next, v.ahead = rem ++ next ∧ rem <:+ j.records
    ∧ s.plain ++ contents rem = j.q.bytes.drop s.core.taken
    ∧ ((v.sent = k + 1 ∧ next = [])
      ∨ (Done s.core ∧ ∃ j', jobs[k + 1]? = some j' ∧ v.sent = k + 2 ∧ next = j'.records))

/-- The worker `f` at work on request `k`. -/
structure AtWork (env : Env F β n) (jobs : List Job) (v : View) (k : Nat) (f : Bytes)
    (s : WSession F β) (j : Job) : Prop where
  job : jobs[k]? = some j
  owner : f = j.owner
  serving : Serving (env.cfg f) j.q s.core
  num : s.core.req_no = requestNo jobs k
  ssl : s.ssl = v.live
  fd : s.core.fd.isSome
  unread : Unread jobs v k j s
  out : v.out = transcript env jobs k ++ s.core.partOut.map fun b => (f, b)
  events : s.core.events = if s.core.state = .write_response then .write else .read
  waiting : s.running = false → s.core.state ≠ .write_response →
    s.plain = [] ∧ (s.core.state = .read_body → s.core.body_in < s.core.body_target)

/-- The worker `f` between request `k - 1` and request `k`. -/
structure Between (env : Env F β n) (jobs : List Job) (v : View) (k : Nat) (f : Bytes)
    (s : WSession F β) : Prop where
  prev : ∃ k' j, k = k' + 1 ∧ jobs[k']? = some j ∧ j.owner = f
    ∧ s.core.req_no = requestNo jobs k' + 1
  state : s.core.state = .peek_owner
  plain : s.plain = []
  ssl : s.ssl = v.live
  serial : s.core.serial = export_live_serial env.wolf v.live
  fd : s.core.fd.isSome
  events : s.core.events = .read
  untouched : Untouched jobs v k
  out : v.out = transcript env jobs k

/-- What is known where the descriptor is. -/
inductive Stage (env : Env F β n) (jobs : List Job) (v : View) (k : Nat) :
    Holder F β n → Prop where
  | pending {conn : GwConn} : k = 0 → conn.ssl = v.live → conn.state ≠ .done →
      Untouched jobs v k → v.out = [] → Stage env jobs v k (.pending conn)
  | toWorker {j : Job} {p : Payload (TlspeekSerial β)} {fd : Fd} :
      InFlight env jobs v k j p → fd < WORKER_MAX_FDS →
      Stage env jobs v k (.toWorker j.owner ⟨(env.layout.bytes p).bytes, [fd]⟩)
  | handoff {j : Job} {p : Payload (TlspeekSerial β)} {fd : Fd} {h : HandoffConn n}
      {q : UnixStream} {m : Collected} :
      InFlight env jobs v k j p → fd < WORKER_MAX_FDS → HandoffConn.Holds (h, []) m →
      m.got.length < n → m.got ++ q.bytes = (env.layout.bytes p).bytes →
      m.fds ++ q.rights = [fd] → Stage env jobs v k (.handoff j.owner h q)
  | toRelay {j : Job} {p : Payload (TlspeekSerial β)} {fd : Fd} :
      InFlight env jobs v k j p →
      Stage env jobs v k (.toRelay ⟨(env.layout.bytes p).bytes, [fd]⟩)
  | relay {j : Job} {p : Payload (TlspeekSerial β)} {fd : Fd} {r : RelayConn n} {q : UnixStream}
      {m : Collected} :
      InFlight env jobs v k j p → RelayConn.Holds (r, []) m → m.got.length < n →
      m.got ++ q.bytes = (env.layout.bytes p).bytes → m.fds ++ q.rights = [fd] →
      Stage env jobs v k (.relay r q)
  | atWork {f : Bytes} {s : WSession F β} {j : Job} : AtWork env jobs v k f s j →
      Stage env jobs v k (.session f s)
  | between {f : Bytes} {s : WSession F β} : Between env jobs v k f s →
      Stage env jobs v k (.session f s)

/-- Records with consecutive numbers, under the connection's keys. -/
def Numbered (sec : Secrets) : Nat → List Sealed → Prop
  | _, [] => True
  | m, x :: xs => x.opened sec m.toUInt64 = some x.content ∧ Numbered sec (m + 1) xs

/-- The client opens everything, and gets what was written. -/
structure ClientOk (env : Env F β n) (st : World F β n) : Prop where
  numbered : Numbered env.secrets st.received st.down
  text : st.got ++ (st.down.map Sealed.content).flatten = st.out.map Prod.snd
  ok : st.broken = false

/-- Less than a record of what is on the way has arrived. -/
structure PartOk (st : World F β n) : Prop where
  lt : ∀ r rs, st.transit = r :: rs → st.part < TLSPEEK_HEADER_SIZE + r.wireLen
  zero : st.transit = [] → st.part = 0

structure Inv (env : Env F β n) (jobs : List Job) (st : World F β n) (k : Nat)
    (x : Holder F β n) : Prop where
  holders : st.holders = [x]
  stage : Stage env jobs (st.view env) k x
  le : k ≤ jobs.length
  client : ClientOk env st
  part : PartOk st

theorem Inv.initial {st : World F β n} (h : st.Initial env) : ∃ x, Inv env jobs st 0 x := by
  obtain ⟨fd, hholders⟩ := h.holders
  refine ⟨_, hholders, ?_, Nat.zero_le _, ⟨?_, ?_, h.broken⟩, ⟨?_, fun _ => h.part⟩⟩
  · refine .pending rfl ?_ (by simp) (Or.inl ⟨h.sent, ?_⟩) h.out
    · show (⟨env.secrets, 0, 0⟩ : Live) = ⟨_, st.consumed.toUInt64, (st.received + st.down.length).toUInt64⟩
      rw [h.consumed, h.received, h.down]
      rfl
    · show st.kernel ++ st.transit = []
      rw [h.kernel, h.transit]
      rfl
  · rw [h.down]
    trivial
  · rw [h.got, h.down, h.out]
    rfl
  · intro r rs hr
    rw [h.transit] at hr
    cases hr

/-- The one holder is the one that a step finds. -/
theorem Inv.found {st : World F β n} {k : Nat} {x y : Holder F β n} {pre post : List (Holder F β n)}
    (h : Inv env jobs st k x) (hy : st.holders = pre ++ y :: post) :
    pre = [] ∧ post = [] ∧ y = x := by
  have hone := h.holders.symm.trans hy
  cases pre with
  | nil =>
      injection hone with hx hpost
      exact ⟨rfl, hpost.symm, hx.symm⟩
  | cons z pre =>
      injection hone with _ htail
      exact absurd htail (by simp)

/-- A step that nobody who holds the descriptor can see. -/
theorem Inv.unseen {st st' : World F β n} {k : Nat} {x : Holder F β n} (h : Inv env jobs st k x)
    (hholders : st'.holders = st.holders) (hview : st'.view env = st.view env)
    (hclient : ClientOk env st') (hpart : PartOk st') : Inv env jobs st' k x where
  holders := hholders.trans h.holders
  stage := by
    rw [hview]
    exact h.stage
  le := h.le
  client := hclient
  part := hpart

/-! ## §2. The client and the network. -/

theorem response_ne_nil {cfg : Config F} {q : Request} {num : Nat} {resp : Bytes}
    (h : response cfg q num = some resp) : resp ≠ [] := by
  intro e
  subst e
  unfold response responseBytes at h
  extract_lets json whole at h
  split at h
  next => cases h
  next =>
    split at h
    next => cases h
    next =>
      -- the status line is there in any case
      have hnil : whole = [] := Option.some.inj h
      simp only [whole, List.append_eq_nil_iff] at hnil
      exact absurd hnil.1.1.1.1.1.1.1 (by decide)

/-- A request is answered by its own response. -/
theorem answer_eq {k : Nat} {j : Job} {resp : Bytes} (hj : jobs[k]? = some j)
    (hresp : response (env.cfg j.owner) j.q (requestNo jobs k) = some resp) :
    answer env jobs k = resp.map fun b => (j.owner, b) := by
  unfold answer
  rw [hj]
  dsimp only
  rw [hresp]
  rfl

theorem length_transcript_lt (hw : Workload env jobs) {k : Nat} {j : Job}
    (hj : jobs[k]? = some j) :
    (transcript env jobs k).length < (transcript env jobs (k + 1)).length := by
  obtain ⟨resp, hresp⟩ := Option.isSome_iff_exists.mp (hw.fits k j hj)
  have hpos := List.length_pos_iff.mpr (response_ne_nil hresp)
  show _ < (transcript env jobs k ++ answer env jobs k).length
  rw [List.length_append, answer_eq hj hresp, List.length_map]
  omega

/-- The view after the request of `j` has been sent. -/
def View.send (v : View) (j : Job) : View :=
  { v with sent := v.sent + 1, ahead := v.ahead ++ j.records }

variable {v : View} {k : Nat}

/-- What is not read yet is sent once at most. -/
theorem Untouched.send {j : Job} (h : Untouched jobs v k) (hw : Workload env jobs)
    (hj : jobs[v.sent]? = some j) (hroom : (transcript env jobs v.sent).length ≤ v.out.length)
    (hout : v.out = transcript env jobs k) : Untouched jobs (v.send j) k := by
  rcases h with ⟨hsent, hahead⟩ | ⟨j', hj', hsent, -⟩
  · refine Or.inr ⟨j, by rw [← hsent]; exact hj, ?_, ?_⟩
    · show v.sent + 1 = k + 1
      rw [hsent]
    · show v.ahead ++ j.records = j.records
      rw [hahead, List.nil_append]
  · have hlt := length_transcript_lt hw hj'
    rw [hsent, hout] at hroom
    omega

theorem InFlight.not_send {j j' : Job} {p : Payload (TlspeekSerial β)}
    (h : InFlight env jobs v k j p) (hw : Workload env jobs)
    (hroom : (transcript env jobs v.sent).length ≤ v.out.length) :
    InFlight env jobs (v.send j') k j p := by
  have hlt := length_transcript_lt hw h.job
  rw [h.sent, h.out] at hroom
  omega

/-- While a session is at work, the next request comes only behind the whole response. -/
theorem AtWork.send {f : Bytes} {s : WSession F β} {j j' : Job}
    (h : AtWork env jobs v k f s j) (hw : Workload env jobs) (hj : jobs[v.sent]? = some j')
    (hroom : (transcript env jobs v.sent).length ≤ v.out.length) :
    AtWork env jobs (v.send j') k f s j := by
  obtain ⟨resp, hresp⟩ := Option.isSome_iff_exists.mp (hw.fits k j h.job)
  have hnext : (transcript env jobs (k + 1)).length
      = (transcript env jobs k).length + resp.length := by
    show (transcript env jobs k ++ answer env jobs k).length = _
    rw [List.length_append, answer_eq h.job hresp, List.length_map]
  have hlen : v.out.length = (transcript env jobs k).length + s.core.partOut.length := by
    rw [h.out, List.length_append, List.length_map]
  obtain ⟨rem, next, hahead, hsuf, hrem, hcase⟩ := h.unread
  -- part of the response is no more than the response
  have hpart : s.core.partOut.length ≤ resp.length
      ∧ (resp.length ≤ s.core.partOut.length → Done s.core) := by
    have hpos := List.length_pos_iff.mpr (response_ne_nil hresp)
    unfold Session.partOut
    by_cases hst : s.core.state = .write_response
    · have hs := h.serving
      unfold Serving at hs
      rw [hst] at hs
      obtain ⟨-, -, hr, hoff⟩ := hs
      have hr' : response (env.cfg j.owner) j.q (requestNo jobs k) = some s.core.resp := by
        rw [← h.owner, ← h.num]
        exact hr
      have e : s.core.resp = resp := Option.some.inj (hr'.symm.trans hresp)
      rw [if_pos hst, List.length_take, e]
      refine ⟨by omega, fun hle => ⟨hst, ?_⟩⟩
      rw [e]
      omega
    · rw [if_neg hst]
      exact ⟨Nat.zero_le _, fun hle => absurd hle (by rw [List.length_nil]; omega)⟩
  rcases hcase with ⟨hsent, hnil⟩ | ⟨hdone, j'', hj'', hsent, hrec⟩
  · have hdone : Done s.core := hpart.2 (by rw [hsent] at hroom; omega)
    refine { h with unread := ⟨rem, j'.records, ?_, hsuf, hrem, Or.inr ⟨hdone, j', ?_, ?_, rfl⟩⟩ }
    · show v.ahead ++ j'.records = rem ++ j'.records
      rw [hahead, hnil, List.append_nil]
    · rw [← hsent]
      exact hj
    · show v.sent + 1 = k + 2
      rw [hsent]
  · have hlt := length_transcript_lt hw hj''
    rw [hsent, show k + 2 = k + 1 + 1 from rfl] at hroom
    omega

theorem Stage.send {x : Holder F β n} {j : Job} (h : Stage env jobs v k x)
    (hw : Workload env jobs) (hj : jobs[v.sent]? = some j)
    (hroom : (transcript env jobs v.sent).length ≤ v.out.length) :
    Stage env jobs (v.send j) k x := by
  cases h with
  | pending hk hssl hst hun hout =>
      have hout' : v.out = transcript env jobs k := by
        rw [hout, hk]
        rfl
      exact .pending hk hssl hst (hun.send hw hj hroom hout') hout
  | toWorker hp hfd => exact .toWorker (hp.not_send hw hroom) hfd
  | handoff hp hfd hh hlt hb hf => exact .handoff (hp.not_send hw hroom) hfd hh hlt hb hf
  | toRelay hp => exact .toRelay (hp.not_send hw hroom)
  | relay hp hh hlt hb hf => exact .relay (hp.not_send hw hroom) hh hlt hb hf
  | atWork h => exact .atWork (h.send hw hj hroom)
  | between h => exact .between { h with untouched := h.untouched.send hw hj hroom h.out }

/-- The client has no more than has been written. -/
theorem ClientOk.got_le {st : World F β n} (h : ClientOk env st) : st.got.length ≤ st.out.length := by
  have hlen := congrArg List.length h.text
  rw [List.length_append, List.length_map] at hlen
  omega

theorem Inv.send {st : World F β n} {x : Holder F β n} {j : Job} (h : Inv env jobs st k x)
    (hw : Workload env jobs) (hj : jobs[st.sent]? = some j)
    (hroom : (transcript env jobs st.sent).length ≤ st.got.length) :
    Inv env jobs { st with sent := st.sent + 1, transit := st.transit ++ j.records } k x := by
  have hstage := h.stage.send hw hj (Nat.le_trans hroom h.client.got_le)
  refine ⟨h.holders, ?_, h.le, ⟨h.client.numbered, h.client.text, h.client.ok⟩, ⟨?_, ?_⟩⟩
  · have hview : World.view env { st with sent := st.sent + 1, transit := st.transit ++ j.records }
        = (st.view env).send j := by
      simp only [World.view, View.send, World.live, List.append_assoc]
    rw [hview]
    exact hstage
  · intro r rs hr
    show st.part < _
    cases ht : st.transit with
    | nil =>
        rw [h.part.zero ht]
        simp only [TLSPEEK_HEADER_SIZE]
        omega
    | cons r' rs' =>
        have hr : st.transit ++ j.records = r :: rs := hr
        rw [ht] at hr
        injection hr with e _
        subst e
        exact h.part.lt _ _ ht
  · intro hnil
    have hnil : st.transit ++ j.records = [] := hnil
    exact h.part.zero (List.append_eq_nil_iff.mp hnil).1

theorem Inv.trickle {st : World F β n} {x : Holder F β n} {r : Record} {rs : List Record} {m : Nat}
    (h : Inv env jobs st k x) (hr : st.transit = r :: rs)
    (hm : m < TLSPEEK_HEADER_SIZE + r.wireLen) : Inv env jobs { st with part := m } k x := by
  refine h.unseen rfl rfl ⟨h.client.numbered, h.client.text, h.client.ok⟩ ⟨?_, ?_⟩
  · intro r' rs' hr'
    have hr' : st.transit = r' :: rs' := hr'
    rw [hr] at hr'
    injection hr' with e _
    subst e
    exact hm
  · intro hnil
    have hnil : st.transit = [] := hnil
    rw [hr] at hnil
    cases hnil

theorem Inv.arrive {st : World F β n} {x : Holder F β n} {r : Record} {rs : List Record}
    (h : Inv env jobs st k x) (hr : st.transit = r :: rs) :
    Inv env jobs { st with kernel := st.kernel ++ [r], transit := rs, part := 0 } k x := by
  refine h.unseen rfl ?_ ⟨h.client.numbered, h.client.text, h.client.ok⟩
    ⟨fun r' _ _ => by show 0 < 5 + r'.wireLen; omega, fun _ => rfl⟩
  simp only [World.view, World.live, hr, List.append_assoc, List.singleton_append]

theorem Inv.deliver {st : World F β n} {x : Holder F β n} {y : Sealed} {ys : List Sealed}
    (h : Inv env jobs st k x) (hy : st.down = y :: ys) :
    Inv env jobs
      (match y.opened env.secrets st.received.toUInt64 with
        | some d => { st with down := ys, received := st.received + 1, got := st.got ++ d }
        | none => { st with down := ys, broken := true }) k x := by
  have hnum := h.client.numbered
  rw [hy] at hnum
  obtain ⟨hopen, hrest⟩ := hnum
  rw [hopen]
  refine h.unseen rfl ?_ ⟨hrest, ?_, h.client.ok⟩ ⟨h.part.lt, h.part.zero⟩
  · simp only [World.view, World.live, hy, List.length_cons]
    rw [show st.received + 1 + ys.length = st.received + (ys.length + 1) by omega]
  · have htext := h.client.text
    rw [hy] at htext
    show (st.got ++ y.content) ++ (ys.map Sealed.content).flatten = _
    rw [List.append_assoc]
    exact htext

/-! ## §3. Messages. -/

theorem World.ready_none {st : World F β n} (hpart : PartOk st)
    (hfits : ∀ r ∈ st.kernel ++ st.transit, r.Fits) (hk : st.kernel = []) :
    tls_record_ready (st.socket env) = 0 := by
  have hsock : st.socket env
      = (env.secrets.wire env.crypt (st.consumed + st.kernel.length) st.transit).take st.part := by
    unfold World.socket
    rw [hk]
    rfl
  rw [hsock]
  cases ht : st.transit with
  | nil =>
      rw [hpart.zero ht]
      rfl
  | cons r rs => exact tls_record_ready_part _ _ _ (hfits r (by simp [ht])) rs (hpart.lt r rs ht)

theorem World.ready_some {st : World F β n} {r : Record} {rs : List Record} (hfit : r.Fits)
    (hk : st.kernel = r :: rs) : tls_record_ready (st.socket env) = 1 := by
  unfold World.socket
  rw [hk]
  exact tls_record_ready_record _ _ _ hfit rs _

/-- Under the session that the two ends agree on, a peek shows the first record. -/
theorem World.peek_some {st : World F β n} {r : Record} {rs : List Record} (hfit : r.Fits)
    (hk : st.kernel = r :: rs) (fd : Nat) {want : Nat} (hwant : 0 < want) :
    peekWith env.crypt fd (export_live_serial env.wolf (st.live env)) (st.socket env) want
      = some (r.peeked.take want) := by
  unfold World.socket
  rw [hk]
  exact peekWith_export _ _ _ _ hfit rs _ fd hwant rfl rfl

/-- A record that is there before anything of request `k` has been read is its first. -/
theorem Untouched.first {st : World F β n} {r : Record} {rs : List Record}
    (h : Untouched jobs (st.view env) k) (hk : st.kernel = r :: rs) :
    ∃ j, jobs[k]? = some j ∧ st.sent = k + 1 ∧ st.kernel ++ st.transit = j.records
      ∧ j.records.head? = some r := by
  rcases h with ⟨-, hnil⟩ | ⟨j, hj, hsent, hrec⟩
  · have hnil : st.kernel ++ st.transit = [] := hnil
    rw [hk] at hnil
    cases hnil
  · have hrec : st.kernel ++ st.transit = j.records := hrec
    refine ⟨j, hj, hsent, hrec, ?_⟩
    rw [← hrec, hk]
    rfl

theorem Untouched.fits {st : World F β n} (h : Untouched jobs (st.view env) k) :
    ∀ r ∈ st.kernel ++ st.transit, r.Fits := by
  intro r hr
  rcases h with ⟨-, hnil⟩ | ⟨j, -, -, hrec⟩
  · have hnil : st.kernel ++ st.transit = [] := hnil
    rw [hnil] at hr
    cases hr
  · have hrec : st.kernel ++ st.transit = j.records := hrec
    rw [hrec] at hr
    exact j.fits r hr

theorem Workload.owner_ne_nil (hw : Workload env jobs) {j : Job} (hj : jobs[k]? = some j) :
    j.owner ≠ [] := by
  have hne : j.records ≠ [] := by
    intro e
    have hspells := j.spells
    rw [e] at hspells
    have hlen := congrArg List.length hspells
    rw [contents_nil, Request.bytes_length, List.length_nil] at hlen
    have := j.q.four_lt_head
    omega
  obtain ⟨r, rs, hr⟩ := List.exists_cons_of_ne_nil hne
  obtain ⟨-, -, -, -, -, hname, -⟩ := hw.shows k j hj r (by simp [hr])
  exact hname

/-- A struct for a request goes to the worker of its function. -/
theorem send_to_owner (hw : Workload env jobs) {j : Job} (hj : jobs[k]? = some j)
    (payload : Area n) (fd : Fd) :
    bench2gw_send_fd env (sunPath (sockPath env.socketDir j.owner)) payload fd
      = [(.toWorker j.owner ⟨payload.bytes, [fd]⟩ : Holder F β n)] := by
  unfold bench2gw_send_fd
  rw [hw.exist j (List.mem_of_getElem? hj)]
  show [(Holder.toWorker j.owner ⟨payload.bytes.take n, [fd]⟩ : Holder F β n)] = _
  rw [List.take_of_length_le (by simp)]

/-- `BENCH2GW_CONN_PEEK`: the gateway waits for a record, or dispatches the connection. -/
theorem clientEvent_peek (conn' : GwConn) {st : World F β n} {conn : GwConn} {c : GwCalls β} {fd : Fd}
    (hw : Workload env jobs) (hpart : PartOk st) (hok : GwOk env st conn c)
    (hssl : conn.ssl = st.live env) (hun : Untouched jobs (st.view env) 0)
    (hout : st.out = []) (hfd : fd < WORKER_MAX_FDS)
    (hconn : conn'.ssl = conn.ssl) (hst : conn'.state = .peek)
    (hstep : bench2gw_conn_step conn c env.maxPeek = connPeek conn' c env.maxPeek) :
    ∃ x, clientEvent env conn c fd = [x] ∧ Stage env jobs (st.view env) 0 x := by
  have hpos := env.maxPeek_pos
  cases hk : st.kernel with
  | nil =>
      -- no record yet
      have hready : c.ready = 0 := by
        rw [hok.ready]
        exact World.ready_none hpart hun.fits hk
      have hpeek : connPeek conn' c env.maxPeek = ({ conn' with want_events := 1 }, 0, none) := by
        unfold connPeek
        rw [hready]
        rfl
      refine ⟨.pending { conn' with want_events := 1 }, ?_, ?_⟩
      · unfold clientEvent handle_client
        rw [hstep, hpeek]
        rfl
      · refine .pending rfl (hconn.trans hssl) ?_ hun hout
        show conn'.state ≠ .done
        rw [hst]
        simp
  | cons r rs =>
      obtain ⟨j, hj, hsent, hrec, hfirst⟩ := hun.first hk
      have hfit : r.Fits := hun.fits r (by simp [hk])
      have hready : c.ready = 1 := by
        rw [hok.ready]
        exact World.ready_some hfit hk
      have hpeek : ∀ want, 0 < want →
          c.peek (export_live_serial env.wolf conn.ssl) want = some (r.peeked.take want) := by
        intro want hwant
        rw [hok.peek, hssl]
        exact World.peek_some hfit hk conn.fd hwant
      have hmem := List.mem_of_getElem? hj
      obtain ⟨payload, peeked, hrun, hmagic, hversion, hserial, htarget⟩ :=
        connPeek_names conn' hpos hready hok.serial hpeek (hw.name_fits j hmem)
          (hw.name_nul j hmem) (hw.shows 0 j hj r hfirst)
      refine ⟨.toWorker j.owner ⟨(env.layout.bytes payload).bytes, [fd]⟩, ?_, ?_⟩
      · unfold clientEvent handle_client
        rw [hstep, hrun]
        simp only [htarget, hw.owner_ne_nil hj, ne_eq, not_false_eq_true, if_true]
        exact send_to_owner hw hj _ fd
      · refine .toWorker ⟨hj, hsent, hrec, rfl, hout, hmagic, hversion, ?_, htarget⟩ hfd
        rw [hserial, hssl]
        rfl

theorem Inv.client_event {st : World F β n} {conn : GwConn} {c : GwCalls β} {fd : Fd}
    (h : Inv env jobs st k (.pending conn)) (hw : Workload env jobs) (hok : GwOk env st conn c)
    (hfd : fd < WORKER_MAX_FDS) :
    ∃ x, clientEvent env conn c fd = [x] ∧ Stage env jobs (st.view env) k x := by
  cases h.stage with
  | pending hk hssl hst hun hout =>
      subst hk
      have hpos : ¬ env.maxPeek = 0 := Nat.pos_iff_ne_zero.mp env.maxPeek_pos
      -- a handshake that goes on changes `want_events` only
      have hwait : ∀ conn' : GwConn, conn'.ssl = conn.ssl → conn'.state ≠ .done →
          bench2gw_conn_step conn c env.maxPeek = (conn', 0, none) →
          ∃ x, clientEvent env conn c fd = [x] ∧ Stage env jobs (st.view env) 0 x := by
        intro conn' hconn hst' hstep
        refine ⟨.pending conn', ?_, .pending rfl (hconn.trans hssl) hst' hun hout⟩
        unfold clientEvent handle_client
        rw [hstep]
        rfl
      cases hstate : conn.state with
      | done => exact absurd hstate hst
      | peek =>
          refine clientEvent_peek conn hw h.part hok hssl hun hout hfd rfl hstate ?_
          unfold bench2gw_conn_step
          rw [if_neg hpos, hstate]
      | handshake =>
          cases hacc : c.accept with
          | error => exact absurd hacc hok.accept
          | want_read =>
              refine hwait { conn with want_events := 1 } rfl (by simp [hstate]) ?_
              unfold bench2gw_conn_step
              rw [if_neg hpos, hstate, hacc]
          | want_write =>
              refine hwait { conn with want_events := 2 } rfl (by simp [hstate]) ?_
              unfold bench2gw_conn_step
              rw [if_neg hpos, hstate, hacc]
          | success =>
              have hkeys : ¬ c.keys_ready = false := by
                rw [hok.keys hacc]
                simp
              refine clientEvent_peek { conn with state := .peek, want_events := 1 } hw h.part hok hssl hun hout hfd rfl rfl ?_
              unfold bench2gw_conn_step
              rw [if_neg hpos, hstate, hacc]
              dsimp only
              rw [if_neg hkeys]

/-- What a `recvmsg` brings while the struct is not complete: a chunk, and the descriptor
with the first one. -/
theorem Receives.chunk {q q' : UnixStream} {want : Nat} {ans : NbRecv} {fds : List Fd} {fd : Fd}
    (h : Receives q want ans q') (hne : q.bytes ≠ []) (hfds : fds ++ q.rights = [fd]) :
    ∃ d : Delivery, ans = d.answer ∧ Handoff.Nonempty [d] ∧ d.bytes ++ q'.bytes = q.bytes
      ∧ fds ++ d.fds = [fd] ∧ q'.rights = [] ∧ d.bytes.length ≤ want := by
  cases h with
  | eof hnil => exact absurd hnil hne
  | data m hpos hle hm =>
      have hrights : q.rights.head?.toList = q.rights := by
        cases hr : q.rights with
        | nil => rfl
        | cons y ys =>
            -- there is one descriptor in all
            rw [hr] at hfds
            have hlen := congrArg List.length hfds
            simp only [List.length_append, List.length_cons, List.length_nil] at hlen
            have hnil : ys = [] := List.length_eq_zero_iff.mp (by omega)
            rw [hnil]
            rfl
      have hlen : (q.bytes.take m).length = m := by
        rw [List.length_take]
        omega
      refine ⟨.chunk (q.bytes.take m) q.rights.head?, ?_, ?_, ?_, ?_, rfl, ?_⟩
      · show _ = NbRecv.ret (.data (q.bytes.take m) false (rightsCmsg q.rights.head?.toList))
        rw [hrights]
      · intro b fd' hmem
        rw [List.mem_singleton] at hmem
        injection hmem with hb _
        intro e
        rw [hb] at e
        rw [e] at hlen
        simp at hlen
        omega
      · exact List.take_append_drop m q.bytes
      · show fds ++ q.rights.head?.toList = [fd]
        rw [hrights]
        exact hfds
      · show (q.bytes.take m).length ≤ want
        omega

/-- A buffer that holds all of a struct holds that struct. -/
theorem area_eq_of_take {area whole : Area n} {got : Bytes} (hgot : got = whole.bytes)
    (h : area.bytes.take got.length = got) : area = whole := by
  rw [hgot, whole.length_eq, List.take_of_length_le (by simp)] at h
  exact Area.ext h

/-- A session that has just been registered for a request is at work on it. -/
theorem AtWork.start {j : Job} {p : Payload (TlspeekSerial β)} (h : InFlight env jobs v k j p)
    (fd : Fd) (serial : TlspeekSerial β) :
    AtWork env jobs v k j.owner ⟨session_new (env.cfg j.owner) fd serial, v.live, [], false⟩ j := by
  have hfresh : (session_new (env.cfg j.owner) fd serial).Fresh := ⟨rfl, rfl⟩
  have hst : (session_new (env.cfg j.owner) fd serial).state ≠ .write_response := by
    rw [hfresh.state]
    simp
  refine ⟨h.job, rfl, hfresh.serving _ _, ?_, rfl, rfl, ⟨j.records, [], ?_, List.suffix_rfl, ?_,
    Or.inl ⟨h.sent, rfl⟩⟩, ?_, rfl, fun _ _ => ⟨rfl, ?_⟩⟩
  · rw [h.first]
    rfl
  · rw [h.ahead, List.append_nil]
  · show contents j.records = j.q.bytes.drop (session_new (env.cfg j.owner) fd serial).taken
    rw [hfresh.taken, List.drop_zero]
    exact j.spells
  · show v.out = transcript env jobs k ++ (Session.partOut _).map _
    rw [Session.partOut, if_neg hst, List.map_nil, List.append_nil]
    exact h.out
  · intro hbody
    exact absurd (hfresh.state.symm.trans hbody) (by simp)

/-- `register_client_fd` on the struct of a request. -/
theorem register_client_fd_ok {j : Job} {p : Payload (TlspeekSerial β)} {fd : Fd}
    (h : InFlight env jobs v k j p) (hfd : fd < WORKER_MAX_FDS) :
    register_client_fd (n := n) env j.owner fd p
      = [.session j.owner ⟨session_new (env.cfg j.owner) fd p.serial, v.live, [], false⟩] := by
  unfold register_client_fd
  rw [if_neg (by simp [h.magic, h.version]), if_neg (Nat.not_le.mpr hfd), h.serial, tlspeek_restore_export]

/-- What one `recvmsg` on a connection that carries a struct leads to, for either end. -/
theorem Receives.collected {whole : Area n} {m : Collected} {q q' : UnixStream} {len : Nat}
    {ans : NbRecv} {fd : Fd} (h : Receives q (n - len) ans q') (hlen : len = m.got.length)
    (hlt : m.got.length < n) (hbytes : m.got ++ q.bytes = whole.bytes)
    (hfds : m.fds ++ q.rights = [fd]) :
    ∃ d : Delivery, ans = d.answer ∧ Handoff.Nonempty [d] ∧ m.got.length + d.bytes.length ≤ n
      ∧ (m.add d).got ++ q'.bytes = whole.bytes ∧ (m.add d).fds = [fd] ∧ q'.rights = []
      ∧ (m.add d).outcome n = if (m.add d).got.length < n then .incomplete else .complete := by
  have htotal : m.got.length + q.bytes.length = n := by
    have := congrArg List.length hbytes
    rwa [List.length_append, Area.length_eq] at this
  have hne : q.bytes ≠ [] := by
    intro e
    rw [e, List.length_nil] at htotal
    omega
  obtain ⟨d, hans, hnonempty, hdb, hdf, hrights, hle⟩ := h.chunk hne hfds
  have hfds' : (m.add d).fds = [fd] := hdf
  refine ⟨d, hans, hnonempty, by omega, ?_, hfds', hrights, ?_⟩
  · show (m.got ++ d.bytes) ++ q'.bytes = _
    rw [List.append_assoc, hdb]
    exact hbytes
  · unfold Collected.outcome
    rw [hfds']
    simp only [List.cons_ne_nil, if_false]

/-- A complete struct leaves nothing to receive. -/
theorem got_eq_of_complete {whole : Area n} {got rest : Bytes} (h : got ++ rest = whole.bytes)
    (hlen : ¬ got.length < n) : got = whole.bytes := by
  have htotal := congrArg List.length h
  rw [List.length_append, Area.length_eq] at htotal
  have hnil : rest = [] := List.length_eq_zero_iff.mp (by omega)
  rw [hnil, List.append_nil] at h
  exact h

theorem handle_handoff_ok {j : Job} {p : Payload (TlspeekSerial β)} {fd : Fd} {c : HandoffConn n}
    {q q' : UnixStream} {m : Collected} {ans : NbRecv} (hp : InFlight env jobs v k j p)
    (hfd : fd < WORKER_MAX_FDS) (hh : HandoffConn.Holds (c, []) m) (hlt : m.got.length < n)
    (hbytes : m.got ++ q.bytes = (env.layout.bytes p).bytes) (hfds : m.fds ++ q.rights = [fd])
    (hrecv : Receives q (n - c.len) ans q') :
    ∃ x, handle_handoff_fd env j.owner c ans q' = [x] ∧ Stage env jobs v k x := by
  obtain ⟨d, hans, hnonempty, hle, hgot, hone, hrights, houtcome⟩ :=
    hrecv.collected hh.len_eq hlt hbytes hfds
  obtain ⟨hout, hholds⟩ := handoffCall_holds hh hlt hle hnonempty
  rw [← hans] at hout hholds
  -- nothing is closed: there is one descriptor
  have hholds' : HandoffConn.Holds ((handoff_recv_nb c ans).1.1, []) (m.add d) := by
    have hclosed := hholds.closed_eq
    rw [hone] at hclosed
    have e : (handoffCall (c, []) ans).1 = ((handoff_recv_nb c ans).1.1, []) :=
      congrArg (Prod.mk _) hclosed
    rw [← e]
    exact hholds
  have hout' : outcomeOfRc (handoff_recv_nb c ans).1.2 = (m.add d).outcome n := hout
  rw [houtcome] at hout'
  unfold handle_handoff_fd
  generalize (handoff_recv_nb c ans).1 = r at hholds' hout' ⊢
  by_cases hmore : (m.add d).got.length < n
  · rw [if_pos hmore] at hout'
    have hrc : r.2 = 0 := by
      unfold outcomeOfRc at hout'
      split at hout'
      next h => exact h
      next => split at hout' <;> cases hout'
    have hfds' : (m.add d).fds ++ q'.rights = [fd] := by
      rw [hone, hrights]
      rfl
    refine ⟨.handoff j.owner r.1 q', ?_, .handoff hp hfd hholds' hmore hgot hfds'⟩
    dsimp only
    rw [if_pos hrc]
  · rw [if_neg hmore] at hout'
    have hrc : ¬ r.2 = 0 ∧ ¬ r.2 < 0 := by
      unfold outcomeOfRc at hout'
      split at hout'
      next => cases hout'
      next h =>
        split at hout'
        next => cases hout'
        next h' => exact ⟨h, h'⟩
    have hclient : r.1.client_fd = some fd := by
      rw [hholds'.fd_eq, hone]
      rfl
    have hpayload : env.layout.read r.1.payload = p := by
      rw [area_eq_of_take (got_eq_of_complete hgot hmore) hholds'.bytes_eq]
      exact env.layout.read_bytes p
    refine ⟨_, ?_, .atWork (AtWork.start hp fd p.serial)⟩
    dsimp only
    rw [if_neg hrc.1, if_neg hrc.2, hclient]
    dsimp only
    rw [hpayload]
    exact register_client_fd_ok hp hfd

theorem handle_relay_ok {j : Job} {p : Payload (TlspeekSerial β)} {fd fd' : Fd} {c : RelayConn n}
    {q q' : UnixStream} {m : Collected} {ans : NbRecv} (hw : Workload env jobs)
    (hp : InFlight env jobs v k j p) (hfd : fd' < WORKER_MAX_FDS)
    (hh : RelayConn.Holds (c, []) m) (hlt : m.got.length < n)
    (hbytes : m.got ++ q.bytes = (env.layout.bytes p).bytes) (hfds : m.fds ++ q.rights = [fd])
    (hrecv : Receives q (n - c.off) ans q') :
    ∃ x, relayEvent env c ans q' fd' = [x] ∧ Stage env jobs v k x := by
  obtain ⟨d, hans, hnonempty, hle, hgot, hone, hrights, houtcome⟩ :=
    hrecv.collected hh.off_eq hlt hbytes hfds
  obtain ⟨hout, hholds⟩ := relayCall_holds hh hlt hle hnonempty
  rw [← hans] at hout hholds
  have hholds' : RelayConn.Holds ((c.recv ans).1.1, []) (m.add d) := by
    have hclosed := hholds.closed_eq
    rw [hone] at hclosed
    have e : (relayCall (c, []) ans).1 = ((c.recv ans).1.1, []) :=
      congrArg (Prod.mk _) hclosed
    rw [← e]
    exact hholds
  have hout' : outcomeOfRecv (c.recv ans).1.2 = (m.add d).outcome n := hout
  rw [houtcome] at hout'
  unfold relayEvent handle_relay
  generalize c.recv ans = r at hholds' hout' ⊢
  obtain ⟨⟨r, res⟩, closed⟩ := r
  by_cases hmore : (m.add d).got.length < n
  · rw [if_pos hmore] at hout'
    have hres : res = .ok false := by
      match res, hout' with
      | .ok false, _ => rfl
    subst hres
    have hfds' : (m.add d).fds ++ q'.rights = [fd] := by
      rw [hone, hrights]
      rfl
    exact ⟨.relay r q', rfl, .relay hp hholds' hmore hgot hfds'⟩
  · rw [if_neg hmore] at hout'
    have hres : res = .ok true := by
      match res, hout' with
      | .ok true, _ => rfl
    subst hres
    obtain ⟨area, harea, hbytes'⟩ := hholds'.bytes_eq
    have harea : r.payload = some area := harea
    have hwhole := area_eq_of_take (got_eq_of_complete hgot hmore) hbytes'
    have htarget : (env.layout.read area).target = j.owner := by
      rw [hwhole, env.layout.read_bytes]
      exact hp.target
    refine ⟨.toWorker j.owner ⟨area.bytes, [fd']⟩, ?_, ?_⟩
    · dsimp only
      rw [harea]
      dsimp only
      rw [htarget, if_neg (hw.owner_ne_nil hp.job)]
      exact send_to_owner hw hp.job area fd'
    · rw [hwhole]
      exact .toWorker hp hfd

/-! ## §4. A session at work on a request. -/

/-- The view after an iteration of a session of `f`. -/
def World.turnView (st : World F β n) (f : Bytes) (s : WSession F β) (c : Calls (TlspeekSerial β))
    (w' : Wire) : View where
  sent := st.sent
  ahead := w'.kernel ++ st.transit
  live := s.ssl.moved (st.kernel.length - w'.kernel.length) (writtenBytes s.core c)
  out := st.out ++ (writtenBytes s.core c).map fun b => (f, b)

section Turn

variable {st : World F β n} {f : Bytes} {s : WSession F β} {c : Calls (TlspeekSerial β)} {w' : Wire}
  {j : Job} {fd : Fd}

theorem toUInt64_add (a b : Nat) : (a + b).toUInt64 = a.toUInt64 + b.toUInt64 :=
  UInt64.ofNat_add a b

/-- What the two ends agree on moves with the session. -/
theorem World.view_turn (hssl : s.ssl = st.live env) (pre post : List (Holder F β n)) :
    (st.turn env pre post f s c w' fd).view env = st.turnView f s c w' := by
  have hlive : (st.turn env pre post f s c w' fd).live env
      = s.ssl.moved (st.kernel.length - w'.kernel.length) (writtenBytes s.core c) := by
    rw [hssl]
    unfold World.turn World.live Live.moved
    dsimp only
    rw [toUInt64_add]
    split
    · rw [List.append_nil]
    · rw [List.length_append, ← Nat.add_assoc, toUInt64_add]
      rfl
  unfold World.view
  rw [hlive]
  rfl

theorem Numbered.snoc {sec : Secrets} {x : Sealed} : ∀ {xs : List Sealed} {m : Nat},
    Numbered sec m xs → x.opened sec (m + xs.length).toUInt64 = some x.content →
    Numbered sec m (xs ++ [x]) := by
  intro xs
  induction xs with
  | nil =>
      intro m _ hx
      exact ⟨hx, trivial⟩
  | cons y ys ih =>
      intro m h hx
      refine ⟨h.1, ih h.2 ?_⟩
      rw [List.length_cons] at hx
      rw [show m + 1 + ys.length = m + (ys.length + 1) by omega]
      exact hx

/-- What a session writes can be opened by the client, behind what is on the way. -/
theorem ClientOk.turn (h : ClientOk env st) (hssl : s.ssl = st.live env)
    (pre post : List (Holder F β n)) : ClientOk env (st.turn env pre post f s c w' fd) := by
  unfold World.turn
  refine ⟨?_, ?_, h.ok⟩
  · dsimp only
    split
    · rw [List.append_nil]
      exact h.numbered
    · refine h.numbered.snoc ?_
      rw [hssl]
      exact Live.opened_seal _ _
  · dsimp only
    have hsnd : ∀ b : Bytes, ((b.map fun x => (f, x)).map Prod.snd : Bytes) = b := by
      intro b
      rw [List.map_map]
      exact List.map_id b
    rw [List.map_append, List.map_append, List.flatten_append, ← List.append_assoc, h.text, hsnd]
    split
    next hnil =>
      rw [hnil]
      rfl
    next => simp [Live.seal]

/-- A session that reads has all of the unread request before it, and nothing else. -/
theorem AtWork.unread_eq (h : AtWork env jobs (st.view env) k f s j)
    (hst : s.core.state ≠ .write_response) :
    st.sent = k + 1 ∧ st.kernel ++ st.transit <:+ j.records
      ∧ s.plain ++ contents (st.kernel ++ st.transit) = j.q.bytes.drop s.core.taken := by
  obtain ⟨rem, next, hahead, hsuf, hrem, hcase⟩ := h.unread
  rcases hcase with ⟨hsent, hnil⟩ | ⟨hdone, -⟩
  · rw [hnil, List.append_nil] at hahead
    have hahead : st.kernel ++ st.transit = rem := hahead
    rw [hahead]
    exact ⟨hsent, hsuf, hrem⟩
  · exact absurd hdone.1 hst

theorem isSuffix_append_right {α : Type*} {l₁ l₂ : List α} (h : l₁ <:+ l₂) (l : List α) :
    l₁ ++ l <:+ l₂ ++ l := by
  obtain ⟨t, rfl⟩ := h
  exact ⟨t, by rw [List.append_assoc]⟩

variable (fd)

/-- An iteration that reads on. -/
theorem AtWork.advanced (h : AtWork env jobs (st.view env) k f s j) (hw : Workload env jobs)
    (hst : s.core.state ≠ .write_response) (hrealloc : c.realloc_ok = true)
    (hepoll : c.epoll_mod_ok = true) (hread : s.core.Reading → ∃ d, c.read = .data d)
    (hahead : Wire.ahead ⟨s.plain, st.kernel⟩ = readBytes s.core c ++ w'.ahead)
    (hsuf : w'.kernel <:+ st.kernel) :
    ∃ x, sessionEnd env f (st.turnView f s c w').live w'.plain
        (session_iter (env.cfg f) s.core c) fd = [x]
      ∧ Stage env jobs (st.turnView f s c w') k x := by
  obtain ⟨hsent, hrecords, hunread⟩ := h.unread_eq hst
  have hmem := List.mem_of_getElem? h.job
  have hfit : (response (env.cfg f) j.q s.core.req_no).isSome := by
    rw [h.owner, h.num]
    exact hw.fits k j h.job
  -- what is read comes first
  have hahead : s.plain ++ contents st.kernel
      = readBytes s.core c ++ (w'.plain ++ contents w'.kernel) := hahead
  have hsplit : j.q.bytes.drop s.core.taken
      = readBytes s.core c ++ (w'.plain ++ contents (w'.kernel ++ st.transit)) := by
    rw [← hunread, contents_append, ← List.append_assoc, hahead, contents_append]
    simp only [List.append_assoc]
  have hgot : readBytes s.core c <+: j.q.bytes.drop s.core.taken := ⟨_, hsplit.symm⟩
  have hadv := h.serving.advanced hst (hw.servable j hmem) hfit hrealloc hepoll hread hgot
  have hout : (st.turnView f s c w').out = st.out := by
    unfold World.turnView
    rw [writtenBytes_of_reading c hst]
    exact List.append_nil _
  generalize session_iter (env.cfg f) s.core c = r at hadv ⊢
  have hwork : ∀ running : Bool, (running = false → r.1.state = .write_response) →
      AtWork env jobs (st.turnView f s c w') k f
        ⟨r.1, (st.turnView f s c w').live, w'.plain, running⟩ j := by
    intro running hrunning
    refine ⟨h.job, h.owner, hadv.serving, hadv.kept.req_no.trans h.num, rfl, ?_,
      ⟨w'.kernel ++ st.transit, [], ?_, ?_, ?_, Or.inl ⟨hsent, rfl⟩⟩, ?_, ?_, ?_⟩
    · rw [hadv.kept.fd]
      exact h.fd
    · exact (List.append_nil _).symm
    · exact (isSuffix_append_right hsuf st.transit).trans hrecords
    · show w'.plain ++ _ = j.q.bytes.drop r.1.taken
      rw [hadv.taken, ← List.drop_drop, hsplit, List.drop_left]
    · -- nothing of the response is out, before and after
      have hpart : r.1.partOut = s.core.partOut := by
        unfold Session.partOut
        rw [if_neg hst]
        rcases hadv.ctl with ⟨-, hst', -⟩ | ⟨-, hst', hoff, -⟩
        · rw [if_neg hst']
        · rw [if_pos hst', hoff, List.take_zero]
      rw [hout, hpart]
      exact h.out
    · show r.1.events = if r.1.state = .write_response then .write else .read
      rcases hadv.ctl with ⟨-, hst', hev⟩ | ⟨-, hst', -, hev⟩
      · rw [if_neg hst', hev, h.events, if_neg hst]
      · rw [if_pos hst', hev]
    · intro hrun hne
      exact absurd (hrunning hrun) hne
  rcases hadv.ctl with ⟨hctl, -⟩ | ⟨hctl, hst', -⟩
  · refine ⟨_, ?_, .atWork (hwork true (by simp))⟩
    unfold sessionEnd
    rw [hctl]
  · refine ⟨_, ?_, .atWork (hwork false (fun _ => hst'))⟩
    unfold sessionEnd
    rw [hctl]
    rfl

/-- An iteration that finds nothing to read. -/
theorem AtWork.blocked (h : AtWork env jobs (st.view env) k f s j) (hw : Workload env jobs)
    (hread : s.core.Reading) (hrealloc : c.realloc_ok = true) (hepoll : c.epoll_mod_ok = true)
    (hnone : c.read = .none .want_read) (hplain : s.plain = [])
    (hkernel : contents st.kernel = []) :
    ∃ x, sessionEnd env f (st.turnView f s c ⟨[], []⟩).live []
        (session_iter (env.cfg f) s.core c) fd = [x]
      ∧ Stage env jobs (st.turnView f s c ⟨[], []⟩) k x := by
  have hst : s.core.state ≠ .write_response := by
    rcases hread with e | ⟨e, -⟩ <;> rw [e] <;> simp
  obtain ⟨hsent, hrecords, hunread⟩ := h.unread_eq hst
  have hroom : s.core.state = .read_headers → s.core.buf.length < WORKER_MAX_REQ_BYTES := by
    intro hhead
    have hsize := (hw.servable j (List.mem_of_getElem? h.job)).size
    rw [Request.bytes_length] at hsize
    have hs := h.serving
    unfold Serving at hs
    rw [hhead] at hs
    have hlt : s.core.buf.length < j.q.head.length := hs.1
    omega
  obtain ⟨cap, hiter⟩ := Session.blocked (env.cfg f) hread hroom hrealloc hepoll hnone
  have hout : (st.turnView f s c ⟨[], []⟩).out = st.out := by
    unfold World.turnView
    rw [writtenBytes_of_reading c hst]
    exact List.append_nil _
  rw [hiter]
  refine ⟨_, rfl, .atWork ⟨h.job, h.owner, h.serving.set_events cap .read, h.num, rfl, h.fd,
    ⟨st.transit, [], ?_, ?_, ?_, Or.inl ⟨hsent, rfl⟩⟩, ?_, ?_, ?_⟩⟩
  · show [] ++ st.transit = st.transit ++ []
    rw [List.nil_append, List.append_nil]
  · exact (List.suffix_append _ _).trans hrecords
  · show [] ++ contents st.transit = j.q.bytes.drop s.core.taken
    rw [← hunread, contents_append, hplain, hkernel]
    rfl
  · rw [hout]
    exact h.out
  · show EpollEvents.read = if s.core.state = .write_response then .write else .read
    rw [if_neg hst]
  · intro _ _
    refine ⟨rfl, fun hbody => ?_⟩
    have hbody : s.core.state = .read_body := hbody
    rcases hread with e | ⟨-, hmore⟩
    · rw [e] at hbody
      cases hbody
    · exact hmore

/-- Nothing read and nothing written: nothing has moved. -/
theorem World.turnView_still (hssl : s.ssl = st.live env) (hout : writtenBytes s.core c = []) :
    st.turnView f s c ⟨s.plain, st.kernel⟩ = st.view env := by
  unfold World.turnView World.view Live.moved
  rw [hout, hssl]
  simp

/-- An iteration that writes a part of the response, or finds no room for it. -/
theorem AtWork.write (h : AtWork env jobs (st.view env) k f s j)
    (hst : s.core.state = .write_response) (hmore : s.core.resp_off < s.core.resp.length)
    (hepoll : c.epoll_mod_ok = true)
    (hwrite : (∃ m, c.write = .wrote m ∧ 0 < m ∧ m ≤ s.core.resp.length - s.core.resp_off)
      ∨ c.write = .none .want_write) :
    ∃ x, sessionEnd env f (st.turnView f s c ⟨s.plain, st.kernel⟩).live s.plain
        (session_iter (env.cfg f) s.core c) fd = [x]
      ∧ Stage env jobs (st.turnView f s c ⟨s.plain, st.kernel⟩) k x := by
  obtain ⟨rem, next, hahead, hsuf, hrem, hcase⟩ := h.unread
  -- the client does not send while its response is not out
  have hcase' : st.sent = k + 1 ∧ next = [] := by
    rcases hcase with hcase | ⟨hdone, -⟩
    · exact hcase
    · exact absurd hdone.2 (Nat.not_le.mpr hmore)
  have hpart : s.core.partOut = s.core.resp.take s.core.resp_off := by
    unfold Session.partOut
    rw [if_pos hst]
  rcases hwrite with ⟨m, hm, -, hle⟩ | hnone
  · have hbytes : writtenBytes s.core c = (s.core.resp.drop s.core.resp_off).take m := by
      simp only [writtenBytes, hst, hm, if_pos hmore]
    rw [session_write (env.cfg f) hst hmore hm]
    refine ⟨_, rfl, .atWork ⟨h.job, h.owner, h.serving.wrote hst hle, h.num, rfl, h.fd,
      ⟨rem, next, hahead, hsuf, hrem, Or.inl hcase'⟩, ?_, h.events, fun hrun => by cases hrun⟩⟩
    have hpart' : Session.partOut { s.core with resp_off := s.core.resp_off + m }
        = s.core.resp.take (s.core.resp_off + m) := by
      unfold Session.partOut
      exact if_pos hst
    show st.out ++ (writtenBytes s.core c).map _ = _
    have hout : st.out = transcript env jobs k ++ s.core.partOut.map fun b => (f, b) := h.out
    rw [hout, hpart', hpart, hbytes, List.append_assoc, ← List.map_append, ← List.take_add]
  · have hbytes : writtenBytes s.core c = [] := by simp only [writtenBytes, hst, hnone]
    rw [World.turnView_still h.ssl hbytes, session_write_blocked (env.cfg f) hst hmore hnone hepoll]
    refine ⟨_, rfl, .atWork ⟨h.job, h.owner, h.serving.set_events s.core.cap .write, h.num, rfl,
      h.fd, ⟨rem, next, hahead, hsuf, hrem, Or.inl hcase'⟩, h.out, ?_, fun _ hne => absurd hst hne⟩⟩
    show EpollEvents.write = if s.core.state = .write_response then .write else .read
    rw [if_pos hst]

/-- Nothing of a request is left in records without content. -/
theorem Job.suffix_eq_nil (j : Job) {rem : List Record} (hsuf : rem <:+ j.records)
    (h : contents rem = []) : rem = [] := by
  rcases List.eq_nil_or_concat' rem with hnil | ⟨l, r, hlast⟩
  · exact hnil
  · obtain ⟨t, ht⟩ := hsuf
    rw [hlast] at ht h
    have hr : r ∈ j.records.getLast? := by
      rw [← ht, ← List.append_assoc, List.getLast?_concat]
      rfl
    rw [contents_append, contents_cons, List.append_eq_nil_iff, List.append_eq_nil_iff] at h
    exact absurd h.2.1 (j.ends r hr)

/-- **The response is out**: the worker has nothing more of the request, and exports the
session for whoever comes next. -/
theorem AtWork.completed (h : AtWork env jobs (st.view env) k f s j) (hw : Workload env jobs)
    (hst : s.core.state = .write_response) (hdone : s.core.resp.length ≤ s.core.resp_off)
    (hepoll : c.epoll_mod_ok = true)
    (hserial : c.serial = some (export_live_serial env.wolf s.ssl)) :
    ∃ x, sessionEnd env f (st.turnView f s c ⟨s.plain, st.kernel⟩).live s.plain
        (session_iter (env.cfg f) s.core c) fd = [x]
      ∧ Stage env jobs (st.turnView f s c ⟨s.plain, st.kernel⟩) (k + 1) x := by
  have hmem := List.mem_of_getElem? h.job
  have hbytes : writtenBytes s.core c = [] := by
    unfold writtenBytes
    split
    next => exact if_neg (Nat.not_lt.mpr hdone)
    next => rfl
  obtain ⟨hp, hin, hresp, -⟩ : Parsed (env.cfg f) j.q s.core ∧ s.core.body_in = j.q.body.length
      ∧ response (env.cfg f) j.q s.core.req_no = some s.core.resp
      ∧ s.core.resp_off ≤ s.core.resp.length := by
    have hs := h.serving
    unfold Serving at hs
    rw [hst] at hs
    exact hs
  have hhint : s.core.single_owner_hint = false := hp.hint (hw.unhinted j hmem)
  -- everything of the request has been read
  obtain ⟨rem, next, hahead, hsuf, hrem, hcase⟩ := h.unread
  have htaken : s.core.taken = j.q.bytes.length := by
    unfold Session.taken
    rw [hst, Request.bytes_length]
    dsimp only
    rw [hp.hdr_sz, hin]
  rw [htaken, List.drop_length, List.append_eq_nil_iff] at hrem
  have hnil : rem = [] := j.suffix_eq_nil hsuf hrem.2
  rw [hnil, List.nil_append] at hahead
  have hun : Untouched jobs (st.view env) (k + 1) := by
    rcases hcase with ⟨hsent, hnext⟩ | ⟨-, j', hj', hsent, hnext⟩
    · exact Or.inl ⟨hsent, by rw [hahead, hnext]⟩
    · exact Or.inr ⟨j', hj', hsent, by rw [hahead, hnext]⟩
  have hout : st.out = transcript env jobs (k + 1) := by
    have hout : st.out = transcript env jobs k ++ s.core.partOut.map fun b => (f, b) := h.out
    have hresp' : response (env.cfg j.owner) j.q (requestNo jobs k) = some s.core.resp := by
      rw [← h.owner, ← h.num]
      exact hresp
    have hpart : s.core.partOut = s.core.resp := by
      unfold Session.partOut
      rw [if_pos hst, List.take_of_length_le hdone]
    show st.out = transcript env jobs k ++ answer env jobs k
    rw [hout, hpart, answer_eq h.job hresp', h.owner]
  rw [World.turnView_still h.ssl hbytes, h.serving.completed hst hdone hepoll hserial, hhint]
  have hstate : (s.core.completed (env.cfg f) (export_live_serial env.wolf s.ssl)).state
      = .peek_owner := by
    unfold Session.completed
    rw [hhint]
    rfl
  refine ⟨_, rfl, .between ⟨⟨k, j, rfl, h.job, h.owner.symm, ?_⟩, hstate, hrem.1, rfl, ?_, h.fd,
    rfl, hun, hout⟩⟩
  · show s.core.req_no + 1 = _
    rw [h.num]
  · show export_live_serial env.wolf s.ssl = _
    rw [h.ssl]

/-! ## §5. A session between two requests. -/

/-- A worker's own request follows on the one before. -/
theorem requestNo_same {j j' : Job} (hj : jobs[k]? = some j) (hj' : jobs[k + 1]? = some j')
    (howner : j'.owner = j.owner) : requestNo jobs (k + 1) = requestNo jobs k + 1 := by
  show (if (jobs[k + 1]?).map Job.owner = (jobs[k]?).map Job.owner then _ else 1) = _
  rw [hj, hj']
  exact if_pos (congrArg some howner)

theorem requestNo_other {j j' : Job} (hj : jobs[k]? = some j) (hj' : jobs[k + 1]? = some j')
    (howner : j'.owner ≠ j.owner) : requestNo jobs (k + 1) = 1 := by
  show (if (jobs[k + 1]?).map Job.owner = (jobs[k]?).map Job.owner then _ else 1) = _
  rw [hj, hj']
  exact if_neg (fun e => howner (Option.some.inj e))

/-- The request is for this worker: it goes to work. -/
theorem Between.take (h : Between env jobs (st.view env) k f s) (hj : jobs[k]? = some j)
    (hsent : st.sent = k + 1) (hrecords : st.kernel ++ st.transit = j.records)
    (howner : j.owner = f) :
    AtWork env jobs (st.view env) k f
      ⟨session_reset_request (env.cfg f) s.core .read_headers, s.ssl, s.plain, true⟩ j := by
  obtain ⟨k', j', rfl, hj', howner', hnum⟩ := h.prev
  have hfresh : (session_reset_request (env.cfg f) s.core .read_headers).Fresh := ⟨rfl, rfl⟩
  have hst : (session_reset_request (env.cfg f) s.core .read_headers).state ≠ .write_response := by
    rw [hfresh.state]
    simp
  refine ⟨hj, howner.symm, hfresh.serving _ _, ?_, h.ssl, h.fd, ⟨j.records, [], ?_,
    List.suffix_rfl, ?_, Or.inl ⟨hsent, rfl⟩⟩, ?_, h.events, fun hrun => by cases hrun⟩
  · rw [requestNo_same hj' hj (howner.trans howner'.symm)]
    exact hnum
  · rw [List.append_nil]
    exact hrecords
  · show s.plain ++ contents j.records = _
    rw [hfresh.taken, h.plain, List.drop_zero]
    exact j.spells
  · rw [Session.partOut, if_neg hst, List.map_nil, List.append_nil]
    exact h.out

/-- The request is for another worker: its struct names it. -/
theorem Between.inFlight (h : Between env jobs (st.view env) k f s) (hw : Workload env jobs)
    (hj : jobs[k]? = some j) (hsent : st.sent = k + 1)
    (hrecords : st.kernel ++ st.transit = j.records) (howner : j.owner ≠ f) :
    InFlight env jobs (st.view env) k j (relayPayload s.core.serial j.owner) := by
  obtain ⟨k', j', rfl, hj', howner', -⟩ := h.prev
  have hmem := List.mem_of_getElem? hj
  refine ⟨hj, hsent, hrecords, ?_, h.out, rfl, rfl, h.serial, ?_⟩
  · exact requestNo_other hj' hj (by rw [howner']; exact howner)
  · exact cstr_targetOf (hw.name_fits j hmem) (hw.name_nul j hmem)

/-- **A session looks at the next request**: it waits for a record, goes to work, or sends
the connection on. -/
theorem Between.peek (h : Between env jobs (st.view env) k f s) (hw : Workload env jobs)
    (hpart : PartOk st) (hok : SessionOk env st s c w') :
    ∃ x, sessionEnd env f (st.view env).live s.plain (session_iter (env.cfg f) s.core c) fd = [x]
      ∧ Stage env jobs (st.view env) k x := by
  have hiter : session_iter (env.cfg f) s.core c = session_peek_owner (env.cfg f) s.core c := by
    unfold session_iter
    rw [h.state]
  have hssl : (st.view env).live = s.ssl := h.ssl.symm
  rw [hiter, hssl]
  unfold session_peek_owner
  cases hk : st.kernel with
  | nil =>
      -- no record yet
      have hready : c.ready = 0 := by
        rw [hok.ready]
        exact World.ready_none hpart h.untouched.fits hk
      rw [hready]
      exact ⟨_, rfl, .between ⟨h.prev, h.state, h.plain, h.ssl, h.serial, h.fd, h.events,
        h.untouched, h.out⟩⟩
  | cons r rs =>
      obtain ⟨j, hj, hsent, hrec, hfirst⟩ := h.untouched.first hk
      have hfit : r.Fits := h.untouched.fits r (by simp [hk])
      have hmem := List.mem_of_getElem? hj
      have hready : c.ready = 1 := by
        rw [hok.ready]
        exact World.ready_some hfit hk
      obtain ⟨cfd, hcfd⟩ := Option.isSome_iff_exists.mp h.fd
      have hpeek : ∀ want, 0 < want → c.peek want = some (r.peeked.take want) := by
        intro want hwant
        rw [hok.peek cfd hcfd, h.serial]
        exact World.peek_some hfit hk cfd hwant
      have hshows : NamesFunction (requestLine (r.content.take 8192)) j.owner := by
        obtain ⟨k', -, hk', -⟩ := h.prev
        have hs := hw.shows k j hj r hfirst
        rwa [if_neg (by omega)] at hs
      have hname : peek_owner_from_kernel c.peek = some j.owner := by
        have hlen := hw.name_fits j hmem
        rw [peek_owner_from_kernel_names hpeek (by unfold BENCH2_KA_TARGET_LEN; omega) hshows,
          cstr_of_no_nul (hw.name_nul j hmem)]
      have hself : (env.cfg f).s_function_name = f := rfl
      rw [hready, if_neg (by decide), hname, hself]
      dsimp only
      by_cases howner : j.owner = f
      · rw [if_pos howner]
        exact ⟨_, rfl, .atWork (h.take hj hsent hrec howner)⟩
      · rw [if_neg howner]
        refine ⟨.toRelay ⟨(env.layout.bytes (relayPayload s.core.serial j.owner)).bytes, [fd]⟩, ?_,
          .toRelay (h.inFlight hw hj hsent hrec howner)⟩
        show [(Holder.toRelay ⟨(env.layout.bytes _).bytes.take n, [fd]⟩ : Holder F β n)] = _
        rw [List.take_of_length_le (by simp)]

/-- What `epoll_wait` wakes goes on where it was. -/
theorem Stage.wake {v : View} (h : Stage env jobs v k (.session f s)) :
    Stage env jobs v k (.session f { s with running := true }) := by
  cases h with
  | atWork h => exact .atWork { h with waiting := fun hrun => by cases hrun }
  | between h => exact .between { h with }

/-- **An iteration of a session**, wherever it is. -/
theorem Stage.iterate (h : Stage env jobs (st.view env) k (.session f s))
    (hw : Workload env jobs) (hle : k ≤ jobs.length) (hpart : PartOk st)
    (hok : SessionOk env st s c w') :
    ∃ k' x, sessionEnd env f (st.turnView f s c w').live w'.plain
        (session_iter (env.cfg f) s.core c) fd = [x]
      ∧ Stage env jobs (st.turnView f s c w') k' x ∧ k' ≤ jobs.length := by
  cases h with
  | between h =>
      have hbytes : writtenBytes s.core c = [] := by simp only [writtenBytes, h.state]
      have hstill := hok.unread (by
        rintro (e | ⟨e, -⟩)
        · rw [h.state] at e
          cases e
        · rw [h.state] at e
          cases e)
      subst hstill
      rw [World.turnView_still h.ssl hbytes]
      obtain ⟨x, hx, hstage⟩ := h.peek fd hw hpart hok
      exact ⟨k, x, hx, hstage, hle⟩
  | @atWork _ _ j h =>
      by_cases hst : s.core.state = .write_response
      · have hstill := hok.unread (by
          rintro (e | ⟨e, -⟩)
          · rw [hst] at e
            cases e
          · rw [hst] at e
            cases e)
        subst hstill
        by_cases hmore : s.core.resp_off < s.core.resp.length
        · obtain ⟨x, hx, hstage⟩ := h.write fd hst hmore hok.epoll (hok.write hst hmore)
          exact ⟨k, x, hx, hstage, hle⟩
        · obtain ⟨x, hx, hstage⟩ :=
            h.completed fd hw hst (Nat.le_of_not_lt hmore) hok.epoll hok.serial
          exact ⟨k + 1, x, hx, hstage, (List.getElem?_eq_some_iff.mp h.job).1⟩
      · by_cases hread : s.core.Reading
        · have hreads := hok.read hread
          generalize hres : c.read = res at hreads
          cases hreads with
          | @data d w' hdata _ =>
              have hbytes : readBytes s.core c = d := by
                unfold readBytes
                rcases hread with e | ⟨e, hlt⟩
                · rw [e, hres]
                · rw [e, hres]
                  exact if_pos hlt
              have hahead := hdata.ahead_eq
              rw [← hbytes] at hahead
              obtain ⟨x, hx, hstage⟩ := h.advanced fd hw hst hok.realloc hok.epoll (fun _ => ⟨d, hres⟩)
                hahead hdata.kernel_suffix
              exact ⟨k, x, hx, hstage, hle⟩
          | empty hplain hkernel _ =>
              obtain ⟨x, hx, hstage⟩ :=
                h.blocked fd hw hread hok.realloc hok.epoll hres hplain hkernel
              exact ⟨k, x, hx, hstage, hle⟩
          | bad _ _ hbad => exact absurd ⟨by rw [h.ssl]; rfl, by rw [h.ssl]; rfl⟩ hbad
        · have hstill := hok.unread hread
          subst hstill
          have hbytes : readBytes s.core c = [] := by
            unfold readBytes
            split
            next e _ => exact absurd (Or.inl e) hread
            next e _ => exact if_neg (fun hlt => hread (Or.inr ⟨e, hlt⟩))
            next => rfl
          have hahead : Wire.ahead ⟨s.plain, st.kernel⟩
              = readBytes s.core c ++ Wire.ahead ⟨s.plain, st.kernel⟩ := by
            rw [hbytes]
            rfl
          obtain ⟨x, hx, hstage⟩ := h.advanced fd hw hst hok.realloc
            hok.epoll (fun hr => absurd hr hread) hahead List.suffix_rfl
          exact ⟨k, x, hx, hstage, hle⟩

end Turn

/-! ## §6. Every step. -/

theorem InFlight.size_pos {v : View} {j : Job} {p : Payload (TlspeekSerial β)}
    (_ : InFlight env jobs v k j p) : 0 < n :=
  env.layout.size_pos p

/-- A session that holds the descriptor has the state that the client has. -/
theorem Stage.ssl_eq {v : View} {f : Bytes} {s : WSession F β}
    (h : Stage env jobs v k (.session f s)) : s.ssl = v.live := by
  cases h with
  | atWork h => exact h.ssl
  | between h => exact h.ssl

/-- A step that changes the holder alone. -/
theorem Inv.holder {st : World F β n} {x y : Holder F β n} {hs : List (Holder F β n)}
    (h : Inv env jobs st k x) (hhs : hs = [y]) (hstage : Stage env jobs (st.view env) k y) :
    Inv env jobs { st with holders := hs } k y :=
  ⟨hhs, hstage, h.le, ⟨h.client.numbered, h.client.text, h.client.ok⟩, ⟨h.part.lt, h.part.zero⟩⟩

/-- **Every step keeps the invariant.** -/
theorem Inv.step {st st' : World F β n} {x : Holder F β n} {e : Event} (h : Inv env jobs st k x)
    (hw : Workload env jobs) (hstep : World.Step env jobs st e st') :
    ∃ k' x', Inv env jobs st' k' x' := by
  cases hstep with
  | send hj hroom => exact ⟨k, x, h.send hw hj hroom⟩
  | trickle hr _ hm => exact ⟨k, x, h.trickle hr hm⟩
  | arrive hr => exact ⟨k, x, h.arrive hr⟩
  | deliver hy _ => exact ⟨k, x, h.deliver hy⟩
  | client c fd hy hok hfd =>
      obtain ⟨rfl, rfl, rfl⟩ := h.found hy
      obtain ⟨y, hend, hstage⟩ := h.client_event hw hok hfd
      exact ⟨k, y, h.holder (by rw [hend]; rfl) hstage⟩
  | acceptHandoff conn_fd hy _ =>
      obtain ⟨rfl, rfl, rfl⟩ := h.found hy
      have hstage := h.stage
      cases hstage with
      | toWorker hp hfd =>
          exact ⟨k, _, h.holder rfl (.handoff hp hfd (HandoffConn.start_holds conn_fd) hp.size_pos rfl rfl)⟩
  | handoff hy hrecv =>
      obtain ⟨rfl, rfl, rfl⟩ := h.found hy
      have hstage := h.stage
      cases hstage with
      | handoff hp hfd hh hlt hb hf =>
          obtain ⟨y, hend, hstage'⟩ := handle_handoff_ok hp hfd hh hlt hb hf hrecv
          exact ⟨k, y, h.holder (by rw [hend]; rfl) hstage'⟩
  | wake hy _ _ =>
      obtain ⟨rfl, rfl, rfl⟩ := h.found hy
      exact ⟨k, _, h.holder rfl h.stage.wake⟩
  | iterate c w' fd hy _ hok =>
      obtain ⟨rfl, rfl, rfl⟩ := h.found hy
      have hssl : _ = st.live env := h.stage.ssl_eq
      obtain ⟨k', y, hend, hstage, hle⟩ := h.stage.iterate fd hw h.le h.part hok
      refine ⟨k', y, ?_, ?_, hle, h.client.turn hssl [] [], ⟨h.part.lt, h.part.zero⟩⟩
      · show [] ++ sessionEnd env _ _ _ _ fd ++ [] = [y]
        rw [List.append_nil, List.nil_append]
        exact hend
      · rw [World.view_turn hssl]
        exact hstage
  | acceptRelay conn_fd malloced hy =>
      obtain ⟨rfl, rfl, rfl⟩ := h.found hy
      have hstage := h.stage
      cases hstage with
      | toRelay hp =>
          exact ⟨k, _, h.holder rfl (.relay hp (RelayConn.start_holds conn_fd malloced) hp.size_pos rfl rfl)⟩
  | relay fd hy hrecv hfd =>
      obtain ⟨rfl, rfl, rfl⟩ := h.found hy
      have hstage := h.stage
      cases hstage with
      | relay hp hh hlt hb hf =>
          obtain ⟨y, hend, hstage'⟩ := handle_relay_ok hw hp hfd hh hlt hb hf hrecv
          exact ⟨k, y, h.holder (by rw [hend]; rfl) hstage'⟩

end TlsMigration.Migration
