/-
  TlsMigration.BenchHttp.Refinement
  ─────────────────────────────────
  **THE DEPLOYMENT IS A SEQUENTIAL SERVER.**

  Wherever the connection is, the deployment does what one server would do
  that reads request after request and answers each: the gateway, the
  handoffs and the relays in between cannot be told from the bytes that the
  client gets.  This holds whatever the system calls return; what fails ends
  the connection, and no byte is written afterwards.

    • `At`                  — the relation between the two;
    • `deployment_simulates` — every step keeps it;
    • `deployment_refines`  — what the client gets, in every reachable state.
-/
import TlsMigration.BenchHttp.System
import TlsMigration.HttpKa.Gateway
import TlsMigration.Lib.Simulation

namespace TlsMigration.BenchHttp

open TlsMigration.Http TlsMigration.Handoff TransitionSystem
open TlsMigration.HttpKa (Recv Send HTTPMIGRATE_MAGIC HTTPMIGRATE_VERSION HTTPMIGRATE_TARGET_LEN)
open TlsMigration.Faasd (WellFormed)

variable {F : Type*} {env : Env F} {jobs : List Job}

/-! ## §1. Names and messages. -/

namespace Job

variable (j : Job)

/-- The first bytes of a request, if its line is among them. -/
theorem bytes_take {m : Nat} (hm : j.q.line.length + 2 ≤ m) :
    ∃ rest, j.q.bytes.take m = j.q.line ++ (crlf ++ rest) := by
  have hshape : j.q.bytes = (j.q.line ++ crlf) ++ (block (j.q.headers ++ [[]]) ++ j.q.body) := by
    have h := j.q.head_append j.q.body
    show j.q.head ++ j.q.body = _
    rw [h]
    simp [crlf]
  have hlen : (j.q.line ++ crlf).length = j.q.line.length + 2 := by
    rw [List.length_append]
    rfl
  refine ⟨(block (j.q.headers ++ [[]]) ++ j.q.body).take (m - (j.q.line ++ crlf).length), ?_⟩
  rw [hshape, List.take_append, List.take_of_length_le (by omega), List.append_assoc]

/-- **The gateway reads the function** in what has arrived. -/
theorem gateway_reads {m : Nat} (hm : j.q.line.length + 2 ≤ m) :
    Benchhttp.parseFunctionName (j.q.bytes.take m) = some j.owner := by
  obtain ⟨rest, hrest⟩ := j.bytes_take hm
  obtain ⟨method, more, version, hline, hwell⟩ := j.names
  have hroute := hwell.gateway rest
  rw [← hline, ← hrest] at hroute
  exact parseFunctionName_iff.mpr ⟨(parseFunctionName_iff.mp hroute).1, rfl⟩

/-- **And so does a worker.** -/
theorem worker_reads {m : Nat} (hm : j.q.line.length + 2 ≤ m) :
    parse_request_owner (j.q.bytes.take m) HTTPMIGRATE_TARGET_LEN = some j.owner := by
  obtain ⟨rest, hrest⟩ := j.bytes_take hm
  obtain ⟨method, more, version, hline, hwell⟩ := j.names
  have howner := hwell.worker rest (Nat.lt_succ_of_le j.owner_le)
  rw [Faasd.parse_request_owner_eq, ← hline, ← hrest] at howner
  exact howner

theorem nul_notMem : Ch.nul ∉ j.owner := by
  obtain ⟨method, more, version, -, hwell⟩ := j.names
  exact nul_notMem_name (List.all_eq_true.mpr hwell.name.2)

theorem cstr_owner : cstr j.owner = j.owner := cstr_of_no_nul j.nul_notMem

theorem owner_ne_nil : j.owner ≠ [] := by
  obtain ⟨method, more, version, -, hwell⟩ := j.names
  exact hwell.name.1

end Job

/-- The struct is one of this deployment, and names the function of the request. -/
structure Names (payload : Benchhttp.Payload) (j : Job) : Prop where
  magic : payload.magic = HTTPMIGRATE_MAGIC
  version : payload.version = HTTPMIGRATE_VERSION
  target : payloadTarget payload.target_function = j.owner

theorem dispatchPayload_names (j : Job) : Names (dispatchPayload j.owner) j :=
  ⟨rfl, rfl, (decodes_iff.mpr ⟨j.owner_le, j.nul_notMem⟩).payloadTarget⟩

theorem relayPayload_names (j : Job) : Names (relayPayload j.owner) j := by
  refine ⟨rfl, rfl, ?_⟩
  have hall : (cstr j.owner).take (HTTPMIGRATE_TARGET_LEN - 1) = j.owner := by
    rw [j.cstr_owner]
    exact List.take_of_length_le j.owner_le
  show payloadTarget (targetField ((cstr j.owner).take (HTTPMIGRATE_TARGET_LEN - 1))) = j.owner
  rw [hall]
  exact (decodes_iff.mpr ⟨j.owner_le, j.nul_notMem⟩).payloadTarget

/-- **A message comes as it was sent.** -/
theorem recvfd_message (payload : Benchhttp.Payload) (fd : Fd) :
    recvfd_with_state (Area.zero PAYLOAD_LEN)
      (.data (message payload fd).bytes false (rightsCmsg (message payload fd).rights))
      = (0, some fd, payloadPacking.enc payload) := by
  have hlen : (payloadPacking.enc payload).bytes.length = PAYLOAD_LEN :=
    (payloadPacking.enc payload).length_eq
  have hbytes : (message payload fd).bytes = (payloadPacking.enc payload).bytes :=
    List.take_of_length_le (Nat.le_of_eq hlen)
  have hne : (payloadPacking.enc payload).bytes ≠ [] := by
    intro hnil
    rw [hnil] at hlen
    cases hlen
  have hrights : rightsCmsg (message payload fd).rights = some ⟨true, [fd]⟩ := rfl
  have hfull : (Area.zero PAYLOAD_LEN).write (payloadPacking.enc payload).bytes
      = payloadPacking.enc payload := Area.ext (Area.write_full hlen)
  rw [hbytes, hrights, recvfd_with_state_data hne, hfull]

/-! ## §2. The relation. -/

/-- Nothing of request `k` has been read: the connection is new, or a session has done with
the request before. -/
inductive Waits (env : Env F) (jobs : List Job) : Nat → Holder F → Prop where
  | queued : Waits env jobs 0 .queued
  | written {k : Nat} {j : Job} {s : Session F} {running : Bool} {text : Bytes} :
      jobs[k]? = some j → Writing s text text.length → s.should_close = closes j.q →
      s.req_no = requestNo jobs k → Waits env jobs (k + 1) (.session j.owner s running)
  | peeks {k : Nat} {j : Job} {s : Session F} {running : Bool} :
      jobs[k]? = some j → closes j.q = false → s.state = .S_PEEK_OWNER → s.buf = [] →
      s.a = env.libm.one ∧ s.b = env.libm.two → s.req_no = requestNo jobs k + 1 →
      Waits env jobs (k + 1) (.session j.owner s running)

/-- The connection is on its way to the worker of request `j`. -/
inductive Carried (j : Job) : Holder F → Prop where
  | dispatch {payload : Benchhttp.Payload} {peer : Peer} :
      Names payload j → Carried j (.dispatch j.owner payload peer)
  | toWorker {payload : Benchhttp.Payload} {fd : Fd} {pending hup : Bool} :
      Names payload j → Carried j (.toWorker j.owner (message payload fd) pending hup)
  | relaying {f : Bytes} {payload : Benchhttp.Payload} {refused : Bool} :
      Names payload j → Carried j (.relaying f payload refused)
  | toGateway {payload : Benchhttp.Payload} {fd : Fd} :
      Names payload j → Carried j (.toGateway (message payload fd))

/-- Request `k` is to be answered, in a session of its own. -/
structure Anew (env : Env F) (jobs : List Job) (k : Nat) : Prop where
  open_ : ∀ m, m + 1 = k → ¬ (service env jobs).Last m
  no : requestNo jobs k = 1

/-- How the deployment stands to the server, request by request. -/
inductive Stage (env : Env F) (jobs : List Job) (w : World F)
    (a : Server (Bytes × UInt8)) : Prop where
  | gone : w.holder = .closed ∨ w.holder = .leaked → Stage env jobs w a
  /-- everything is answered -/
  | idle : a.answered = w.sent → a.rest = [] → w.coming = [] → w.unread = [] →
      Waits env jobs w.sent w.holder → Stage env jobs w a
  /-- nothing of the request has been read -/
  | before {j : Job} : jobs[a.answered]? = some j → w.sent = a.answered + 1 → a.rest = [] →
      w.unread ++ w.coming = j.q.bytes →
      (w.unread = [] ∨ j.q.line.length + 2 ≤ w.unread.length) →
      (Waits env jobs a.answered w.holder ∨ (Anew env jobs a.answered ∧ Carried j w.holder)) →
      Stage env jobs w a
  | reading {j : Job} {c : Nat} {s : Session F} {running : Bool} :
      jobs[a.answered]? = some j → w.sent = a.answered + 1 → a.rest = [] →
      w.unread ++ w.coming = j.q.bytes.drop c →
      (∀ m, m + 1 = a.answered → ¬ (service env jobs).Last m) →
      w.holder = .session j.owner s running → s.req_no = requestNo jobs a.answered →
      (InHead (env.cfg j.owner) j.q s c
        ∨ ∃ m, m ≤ j.q.body.length ∧ InBody (env.cfg j.owner) j.q s c m) →
      Stage env jobs w a
  | writing {k : Nat} {j : Job} {s : Session F} {running : Bool} {text : Bytes} {off : Nat} :
      a.answered = w.sent → w.sent = k + 1 → jobs[k]? = some j → w.coming = [] → w.unread = [] →
      w.holder = .session j.owner s running → s.req_no = requestNo jobs k →
      s.should_close = closes j.q → Writing s text off → off < text.length →
      a.rest = tagged j.owner (text.drop off) → Stage env jobs w a

structure At (env : Env F) (jobs : List Job) (w : World F) (a : Server (Bytes × UInt8)) :
    Prop where
  sent : a.sent = w.sent
  out : a.out = w.out
  got : w.got ≤ w.out.length
  /-- at most one request is open -/
  one : w.sent ≤ a.answered + 1
  stage : Stage env jobs w a

/-! ## §3. The client. -/

theorem Env.modest (env : Env F) (j : Job) : (env.cfg j.owner).Modest :=
  ⟨j.owner_le, env.fmt6g_le⟩

/-- An answer is a response, byte by byte. -/
theorem answer_framed {k : Nat} {text : List (Bytes × UInt8)}
    (h : (service env jobs).Answer k text) : ∃ close, Framed (text.map Prod.snd) close := by
  obtain ⟨j, -, m, -, rfl⟩ := h
  refine ⟨closes j.q, ?_⟩
  rw [tagged_snd]
  exact response_framed (env.modest j) _ _

/-- **Who has a response for every request** leaves nothing to be answered, and nothing to be
written. -/
theorem At.settled {w : World F} {a : Server (Bytes × UInt8)} (h : At env jobs w a)
    (ha : (server (service env jobs)).Reachable a) (hans : w.Answered) :
    a.answered = w.sent ∧ a.rest = [] := by
  obtain ⟨parts, hlen, hframed, hgot⟩ := hans
  have hsent := h.sent
  have hout : parts.flatten ++ (w.out.drop w.got).map Prod.snd = a.out.map Prod.snd := by
    rw [← hgot, ← List.map_append, List.take_append_drop, h.out]
  rw [← hsent]
  exact Server.settled framed_selfDelimiting (fun k text => answer_framed) ha
    (hlen.trans hsent.symm) hframed hout

variable {w w' : World F} {a : Server (Bytes × UInt8)}

theorem At.send (h : At env jobs w a) (ha : (server (service env jobs)).Reachable a)
    (hans : w.Answered) (hstep : w.step env jobs .send = some w') :
    ∃ a', (server (service env jobs)).Steps a a' ∧ At env jobs w' a' := by
  obtain ⟨hanswered, hrest⟩ := h.settled ha hans
  simp only [World.step] at hstep
  split at hstep
  next hcoming =>
    obtain ⟨j, hj, rfl⟩ := Option.map_eq_some_iff.mp hstep
    refine ⟨{ a with sent := a.sent + 1 }, .single (a := ()) (.receive a), ?_⟩
    refine ⟨congrArg (· + 1) h.sent, h.out, h.got, Nat.le_of_eq (by rw [hanswered]), ?_⟩
    cases h.stage with
    | gone hgone => exact .gone hgone
    | idle _ _ _ hunread hwaits =>
        refine .before (j := j) (hanswered ▸ hj) (by rw [hanswered]) hrest ?_ (Or.inl hunread)
          (Or.inl (hanswered ▸ hwaits))
        show w.unread ++ j.q.bytes = j.q.bytes
        rw [hunread, List.nil_append]
    | before _ hsent => omega
    | reading _ hsent => omega
    | @writing _ _ _ _ text off _ _ _ _ _ _ _ _ _ hoff hr =>
        -- there is something left to write
        have hnil := tagged_eq_nil.mp (hr.symm.trans hrest)
        rw [List.drop_eq_nil_iff] at hnil
        omega
  next => cases hstep

theorem At.arrive {n : Nat} (h : At env jobs w a) (hstep : w.step env jobs (.arrive n) = some w')
    (hwhole : arrivesWhole jobs w (.arrive n) = true) : At env jobs w' a := by
  simp only [World.step] at hstep
  split at hstep
  next hn =>
    obtain ⟨hpos, hle⟩ := hn
    obtain rfl := Option.some.inj hstep
    refine ⟨h.sent, h.out, h.got, h.one, ?_⟩
    have hsame : ∀ {text : Bytes}, w.unread ++ w.coming = text →
        (w.unread ++ w.coming.take n) ++ w.coming.drop n = text := by
      intro text htext
      rw [List.append_assoc, List.take_append_drop, htext]
    have hmore : w.coming ≠ [] := by
      intro hnil
      rw [hnil, List.length_nil] at hle
      omega
    cases h.stage with
    | gone hgone => exact .gone hgone
    | idle _ _ hcoming _ _ => exact absurd hcoming hmore
    | @before j hj hsent hrest htext hseen hplace =>
        refine .before hj hsent hrest (hsame htext) ?_ hplace
        right
        show _ ≤ (w.unread ++ w.coming.take n).length
        rw [List.length_append, List.length_take, Nat.min_eq_left hle]
        rcases hseen with hnil | hlong
        · -- the first bytes to come
          have hall : w.coming.length = j.q.bytes.length := by
            rw [← htext, hnil, List.nil_append]
          have hindex : w.sent - 1 = a.answered := by omega
          unfold arrivesWhole at hwhole
          dsimp only at hwhole
          rw [hindex, hj] at hwhole
          have := of_decide_eq_true hwhole hall
          omega
        · omega
    | reading hj hsent hrest htext hopen hholder hno hplace =>
        exact .reading hj hsent hrest (hsame htext) hopen hholder hno hplace
    | writing _ _ _ hcoming => exact absurd hcoming hmore
  next => cases hstep

theorem At.deliver {n : Nat} (h : At env jobs w a)
    (hstep : w.step env jobs (.deliver n) = some w') : At env jobs w' a := by
  simp only [World.step] at hstep
  split at hstep
  next hn =>
    obtain rfl := Option.some.inj hstep
    refine ⟨h.sent, h.out, hn, h.one, ?_⟩
    cases h.stage with
    | gone hgone => exact .gone hgone
    | idle h₁ h₂ h₃ h₄ h₅ => exact .idle h₁ h₂ h₃ h₄ h₅
    | before h₁ h₂ h₃ h₄ h₅ h₆ => exact .before h₁ h₂ h₃ h₄ h₅ h₆
    | reading h₁ h₂ h₃ h₄ h₅ h₆ h₇ h₈ => exact .reading h₁ h₂ h₃ h₄ h₅ h₆ h₇ h₈
    | writing h₁ h₂ h₃ h₄ h₅ h₆ h₇ h₈ h₉ h₁₀ h₁₁ =>
        exact .writing h₁ h₂ h₃ h₄ h₅ h₆ h₇ h₈ h₉ h₁₀ h₁₁
  next => cases hstep

/-! ## §4. From party to party. -/

/-- What an event that moves no bytes can do. -/
inductive Moves (env : Env F) (unread : Bytes) : Holder F → Event → Holder F → Prop where
  | acceptClient (c : PeekCalls) :
      Moves env unread .queued (.acceptClient c) (BenchHttp.acceptClient env unread c)
  | sendmsg {f : Bytes} {payload : Benchhttp.Payload} {peer : Peer} (fd : Fd) : peer ≠ .closed →
      Moves env unread (.dispatch f payload peer) (.sendmsg (some fd))
        (.toWorker f (message payload fd) (peer = .pending) false)
  | sendmsg_fails {f : Bytes} {payload : Benchhttp.Payload} {peer : Peer} :
      Moves env unread (.dispatch f payload peer) (.sendmsg none) .closed
  | hangup {f : Bytes} {q : UnixStream} {pending : Bool} :
      Moves env unread (.toWorker f q pending false) .hangup (.toWorker f q pending true)
  | accept_early {f : Bytes} {payload : Benchhttp.Payload} (c : PendingCalls) :
      Moves env unread (.dispatch f payload .backlog) (.accept c)
        (.dispatch f payload (if c.register_ok ∧ c.retry then .pending else .closed))
  | accept {f : Bytes} {q : UnixStream} {hup : Bool} (c : PendingCalls) :
      Moves env unread (.toWorker f q false hup) (.accept c)
        (if c.register_ok then handle_pending_uds_fd env f q hup c else .closed)
  | pending_early {f : Bytes} {payload : Benchhttp.Payload} (c : PendingCalls) :
      Moves env unread (.dispatch f payload .pending) (.pending false c)
        (.dispatch f payload (if c.retry then .pending else .closed))
  | pending_hup {f : Bytes} {q : UnixStream} (c : PendingCalls) :
      Moves env unread (.toWorker f q true true) (.pending true c) .closed
  | pending {f : Bytes} {q : UnixStream} {hup : Bool} (c : PendingCalls) :
      Moves env unread (.toWorker f q true hup) (.pending false c)
        (handle_pending_uds_fd env f q hup c)
  | wake_hup {f : Bytes} {s : Session F} :
      Moves env unread (.session f s false) (.wake true) .closed
  | wake {f : Bytes} {s : Session F} :
      Moves env unread (.session f s false) (.wake false) (.session f s true)
  | relaymsg {f : Bytes} {payload : Benchhttp.Payload} (fd : Fd) :
      Moves env unread (.relaying f payload false) (.relaymsg (some fd))
        (.toGateway (message payload fd))
  | relaymsg_fails {f : Bytes} {payload : Benchhttp.Payload} {refused : Bool} :
      Moves env unread (.relaying f payload refused) (.relaymsg none) .leaked
  | acceptRelay_early {f : Bytes} {payload : Benchhttp.Payload} (c : RelayCalls) :
      Moves env unread (.relaying f payload false) (.acceptRelay c) (.relaying f payload true)
  | acceptRelay {q : UnixStream} (c : RelayCalls) :
      Moves env unread (.toGateway q) (.acceptRelay c) (BenchHttp.acceptRelay env q c)

theorem Moves.of_move {unread : Bytes} {h h' : Holder F} {e : Event}
    (hmove : h.move env unread e = some h') : Moves env unread h e h' := by
  unfold Holder.move at hmove
  split at hmove
  next c =>
    obtain rfl := Option.some.inj hmove
    exact .acceptClient c
  next fd f payload peer =>
    split at hmove
    next => cases hmove
    next hpeer =>
      obtain rfl := Option.some.inj hmove
      exact .sendmsg fd hpeer
  next =>
    obtain rfl := Option.some.inj hmove
    exact .sendmsg_fails
  next =>
    obtain rfl := Option.some.inj hmove
    exact .hangup
  next c _ _ =>
    obtain rfl := Option.some.inj hmove
    exact .accept_early c
  next c _ _ _ =>
    obtain rfl := Option.some.inj hmove
    exact .accept c
  next c _ _ =>
    obtain rfl := Option.some.inj hmove
    exact .pending_early c
  next hup' c f q hup =>
    split at hmove
    next heq =>
      split at hmove
      next heq' =>
        obtain rfl := Option.some.inj hmove
        rw [heq, heq']
        exact .pending_hup c
      next => cases hmove
    next heq =>
      obtain rfl := Option.some.inj hmove
      obtain rfl : hup' = false := by simpa using heq
      exact .pending c
  next hup f s =>
    obtain rfl := Option.some.inj hmove
    cases hup with
    | true => exact .wake_hup
    | false => exact .wake
  next fd _ _ =>
    obtain rfl := Option.some.inj hmove
    exact .relaymsg fd
  next =>
    obtain rfl := Option.some.inj hmove
    exact .relaymsg_fails
  next c _ _ =>
    obtain rfl := Option.some.inj hmove
    exact .acceptRelay_early c
  next c _ =>
    obtain rfl := Option.some.inj hmove
    exact .acceptRelay c
  next => cases hmove

def Holder.Gone (h : Holder F) : Prop := h = .closed ∨ h = .leaked

/-- **A dispatch by name** goes to the function's worker, or fails. -/
theorem dispatchToFunction_eq {j : Job} (hserved : Served env jobs) (hj : j ∈ jobs)
    (payload : Benchhttp.Payload) (connect_ok : Bool) :
    (dispatchToFunction env j.owner payload connect_ok : Holder F)
      = if connect_ok then .dispatch j.owner payload .backlog else .closed := by
  unfold dispatchToFunction
  rw [hserved j hj]

/-- The gateway finds nothing. -/
theorem acceptClient_nil (c : PeekCalls) : (acceptClient env [] c : Holder F) = .closed := by
  unfold acceptClient
  split <;> rfl

/-- **The gateway finds a request line.** -/
theorem acceptClient_eq {j : Job} (hserved : Served env jobs) (hj : j ∈ jobs) {m : Nat}
    (hm : j.q.line.length + 2 ≤ m) (c : PeekCalls) :
    (acceptClient env (j.q.bytes.take m) c : Holder F)
      = if c.nonblocking_ok ∧ c.recv_ok ∧ c.connect_ok then
          .dispatch j.owner (dispatchPayload j.owner) .backlog
        else .closed := by
  -- the line is short, so that it is in what the gateway takes of it
  have hline := j.line_le
  have hpart : (j.q.bytes.take m).take 8191 = j.q.bytes.take (min 8191 m) := List.take_take
  have hreads : Benchhttp.parseFunctionName (j.q.bytes.take (min 8191 m)) = some j.owner :=
    j.gateway_reads (by unfold PEEK_LEN at hline; omega)
  have hne : j.q.bytes.take (min 8191 m) ≠ [] := by
    intro hnil
    rw [hnil, HttpKa.Gateway.parseFunctionName_nil] at hreads
    cases hreads
  unfold acceptClient
  dsimp only
  rw [hpart, if_neg hne, hreads]
  dsimp only
  rw [dispatchToFunction_eq hserved hj]
  cases c.nonblocking_ok <;> cases c.recv_ok <;> simp

/-- **The gateway has a message of a worker.** -/
theorem acceptRelay_eq {j : Job} (hserved : Served env jobs) (hj : j ∈ jobs)
    {payload : Benchhttp.Payload} (hp : Names payload j) (fd : Fd) (c : RelayCalls) :
    (acceptRelay env (message payload fd) c : Holder F)
      = if c.nonblocking_ok ∧ c.recv_ok ∧ c.connect_ok then .dispatch j.owner payload .backlog
        else .closed := by
  unfold acceptRelay
  cases c.nonblocking_ok with
  | false => rfl
  | true =>
      cases c.recv_ok with
      | false => rfl
      | true =>
          dsimp only
          rw [if_neg (by decide), if_pos rfl, recvfd_message, if_neg (not_not.mpr rfl)]
          dsimp only
          rw [payloadPacking.dec_enc, hp.target, if_neg j.owner_ne_nil,
            dispatchToFunction_eq hserved hj]
          simp

/-- **A message has reached its worker.** -/
theorem handle_pending_eq {j : Job} {payload : Benchhttp.Payload} (hp : Names payload j)
    (fd : Fd) (hup : Bool) (c : PendingCalls) :
    (handle_pending_uds_fd env j.owner (message payload fd) hup c : Holder F)
      = if c.retry then .toWorker j.owner (message payload fd) true hup
        else if c.recv_ok ∧ c.nonblocking_ok ∧ c.session_ok ∧ c.epoll_add_ok then
          .session j.owner (session_new env.libm fd) false
        else .closed := by
  unfold handle_pending_uds_fd
  split
  next => rfl
  next =>
  cases c.recv_ok with
  | false => rfl
  | true =>
      dsimp only
      rw [if_pos rfl, recvfd_message, if_neg (not_not.mpr rfl)]
      dsimp only
      rw [payloadPacking.dec_enc]
      unfold add_client_session_from_payload
      dsimp only
      rw [hp.magic, hp.version, if_neg (by simp)]
      cases c.nonblocking_ok <;> cases c.session_ok <;> cases c.epoll_add_ok <;> rfl

/-- **A connection that waits** goes on waiting, or is on its way to the worker of the first
request. -/
theorem Waits.move {k : Nat} {h h' : Holder F} {unread : Bytes} {e : Event}
    (hw : Waits env jobs k h) (hmove : Moves env unread h e h') :
    h'.Gone ∨ Waits env jobs k h' ∨ (k = 0 ∧ ∃ c, h' = acceptClient env unread c) := by
  cases hw with
  | queued =>
      cases hmove with
      | acceptClient c => exact Or.inr (Or.inr ⟨rfl, c, rfl⟩)
  | written hj hs hclose hno =>
      cases hmove with
      | wake_hup => exact Or.inl (Or.inl rfl)
      | wake => exact Or.inr (Or.inl (.written hj hs hclose hno))
  | peeks hj hclose hs hbuf hops hno =>
      cases hmove with
      | wake_hup => exact Or.inl (Or.inl rfl)
      | wake => exact Or.inr (Or.inl (.peeks hj hclose hs hbuf hops hno))

/-- **A connection on its way** stays on it, or has reached the worker. -/
theorem Carried.move {j : Job} {h h' : Holder F} {unread : Bytes} {e : Event}
    (hserved : Served env jobs) (hj : j ∈ jobs) (hc : Carried j h)
    (hmove : Moves env unread h e h') :
    h'.Gone ∨ Carried j h' ∨ ∃ fd, h' = .session j.owner (session_new env.libm fd) false := by
  cases hc with
  | dispatch hp =>
      cases hmove with
      | sendmsg fd _ => exact Or.inr (Or.inl (.toWorker hp))
      | sendmsg_fails => exact Or.inl (Or.inl rfl)
      | accept_early c => exact Or.inr (Or.inl (.dispatch hp))
      | pending_early c => exact Or.inr (Or.inl (.dispatch hp))
  | @toWorker payload fd pending hup hp =>
      have hworker : ∀ (hup : Bool) (c : PendingCalls) (r : Holder F),
          r = handle_pending_uds_fd env j.owner (message payload fd) hup c →
          r.Gone ∨ Carried j r ∨ ∃ fd, r = .session j.owner (session_new env.libm fd) false := by
        intro hup c r hr
        rw [handle_pending_eq hp] at hr
        split at hr
        next => exact Or.inr (Or.inl (hr ▸ .toWorker hp))
        next =>
        split at hr
        next => exact Or.inr (Or.inr ⟨fd, hr⟩)
        next => exact Or.inl (Or.inl hr)
      cases hmove with
      | hangup => exact Or.inr (Or.inl (.toWorker hp))
      | accept c =>
          split
          next => exact hworker hup c _ rfl
          next => exact Or.inl (Or.inl rfl)
      | pending_hup c => exact Or.inl (Or.inl rfl)
      | pending c => exact hworker hup c _ rfl
  | relaying hp =>
      cases hmove with
      | relaymsg fd => exact Or.inr (Or.inl (.toGateway hp))
      | relaymsg_fails => exact Or.inl (Or.inr rfl)
      | acceptRelay_early c => exact Or.inr (Or.inl (.relaying hp))
  | @toGateway payload fd hp =>
      cases hmove with
      | acceptRelay c =>
          rw [acceptRelay_eq hserved hj hp]
          split
          next => exact Or.inr (Or.inl (.dispatch hp))
          next => exact Or.inl (Or.inl rfl)

/-- **An event that moves no bytes** changes nothing for the server. -/
theorem At.move {w : World F} {a : Server (Bytes × UInt8)} (hserved : Served env jobs)
    (h : At env jobs w a) {e : Event} {h' : Holder F} (hmove : Moves env w.unread w.holder e h') :
    At env jobs { w with holder := h' } a := by
  refine ⟨h.sent, h.out, h.got, h.one, ?_⟩
  cases h.stage with
  | gone hgone =>
      rcases hgone with hgone | hgone
      · rw [hgone] at hmove
        cases hmove
      · rw [hgone] at hmove
        cases hmove
  | idle hanswered hrest hcoming hunread hwaits =>
      rcases hwaits.move hmove with hgone | hwaits' | ⟨-, c, rfl⟩
      · exact .gone hgone
      · exact .idle hanswered hrest hcoming hunread hwaits'
      · -- the gateway finds nothing
        refine .gone (Or.inl ?_)
        show acceptClient env w.unread c = .closed
        rw [hunread, acceptClient_nil]
  | @before j hj hsent hrest htext hseen hplace =>
      have hmem : j ∈ jobs := List.mem_of_getElem? hj
      rcases hplace with hwaits | ⟨hanew, hcar⟩
      · rcases hwaits.move hmove with hgone | hwaits' | ⟨hzero, c, rfl⟩
        · exact .gone hgone
        · exact .before hj hsent hrest htext hseen (Or.inl hwaits')
        · rcases hseen with hnil | hlong
          · refine .gone (Or.inl ?_)
            show acceptClient env w.unread c = .closed
            rw [hnil, acceptClient_nil]
          · have hpart : w.unread = j.q.bytes.take w.unread.length := by
              rw [← htext, List.take_left]
            have heq := acceptClient_eq hserved hmem hlong c
            rw [← hpart] at heq
            rw [heq]
            split
            next =>
              refine .before hj hsent hrest htext (Or.inr hlong)
                (Or.inr ⟨⟨fun m hm => ?_, ?_⟩, .dispatch (dispatchPayload_names j)⟩)
              · omega
              · rw [hzero]
                rfl
            next => exact .gone (Or.inl rfl)
      · rcases hcar.move hserved hmem hmove with hgone | hcar' | ⟨fd, rfl⟩
        · exact .gone hgone
        · exact .before hj hsent hrest htext hseen (Or.inr ⟨hanew, hcar'⟩)
        · refine .reading (c := 0) hj hsent hrest htext hanew.open_ rfl hanew.no.symm (Or.inl ?_)
          refine ⟨rfl, rfl, ?_, ⟨rfl, rfl⟩⟩
          have := Request.four_lt_head (q := j.q)
          omega
  | reading hj hsent hrest htext hopen hholder hno hplace =>
      rw [hholder] at hmove
      cases hmove with
      | wake_hup => exact .gone (Or.inl rfl)
      | wake => exact .reading hj hsent hrest htext hopen rfl hno hplace
  | writing hanswered hk hj hcoming hunread hholder hno hclose hs hoff hrest =>
      rw [hholder] at hmove
      cases hmove with
      | wake_hup => exact .gone (Or.inl rfl)
      | wake =>
          exact .writing hanswered hk hj hcoming hunread rfl hno hclose hs hoff hrest

/-! ## §5. In a worker. -/

theorem received_front {s : Session F} {unread bytes : Bytes} {o : Arrival}
    (h : received s unread o = some (.data bytes)) : bytes <+: unread := by
  unfold received at h
  split at h
  next => cases h
  next =>
    cases h
    exact List.nil_prefix
  next => cases h
  next n =>
    dsimp only at h
    split at h
    next => cases h
    next =>
      cases h
      exact List.take_prefix n unread

/-- A peek shows all there is, as far as it fits. -/
theorem received_peek {s : Session F} {unread bytes : Bytes} {o : Arrival}
    (hs : s.state = .S_PEEK_OWNER) (h : received s unread o = some (.data bytes)) :
    bytes = [] ∨ (unread ≠ [] ∧ bytes = unread.take PEEK_LEN) := by
  have hwant : s.want = PEEK_LEN := by
    unfold Session.want
    rw [hs]
  unfold received at h
  split at h
  next => cases h
  next =>
    cases h
    exact Or.inl rfl
  next => cases h
  next n =>
    dsimp only at h
    split at h
    next => cases h
    next hn =>
      cases h
      rw [hwant] at hn
      push Not at hn
      obtain ⟨hpos, hle, hmost⟩ := hn
      have hmost := hmost hs
      right
      refine ⟨?_, ?_⟩
      · rintro rfl
        rw [List.length_nil] at hmost hle
        omega
      · rw [List.take_eq_take_iff]
        omega

theorem taken_peek {s : Session F} (hs : s.state = .S_PEEK_OWNER) (r : Recv) : taken s r = 0 := by
  unfold taken
  exact if_neg (fun h => h.2 hs)

theorem taken_write {s : Session F} (hs : s.state = .S_WRITE_RESP) (r : Recv) :
    taken s r = 0 := by
  have hno : ¬ s.Receives := by
    intro h
    rcases h with h | h | ⟨h, -⟩
    · exact absurd (hs.symm.trans h) (by decide)
    · exact absurd (hs.symm.trans h) (by decide)
    · exact absurd (hs.symm.trans h) (by decide)
  unfold taken
  exact if_neg (fun h => hno h.1)

theorem written_reading {s : Session F} (hs : s.state ≠ .S_WRITE_RESP) (calls : Calls) :
    s.written calls = [] := by
  unfold Session.written
  exact if_neg (fun h => hs h.1)

theorem writable_le {s : Session F} {text : Bytes} {off : Nat} (hs : Writing s text off)
    {write : Send} (h : writable s write = true) :
    ∀ n, write = .sent n → n ≤ text.length - off := by
  rintro n rfl
  have hle := of_decide_eq_true h
  rw [hs.resp_len, hs.resp_off] at hle
  exact hle

/-- What becomes of a request whose line a session has read, when it waits for request `k`. -/
inductive Peeked (env : Env F) (f : Bytes) (s : Session F) (owner : Bytes) : Holder F → Prop where
  | own : owner = f →
      Peeked env f s owner (.session f { s with state := .S_READ_HEADERS } true)
  | relay : owner ≠ f → Peeked env f s owner (.relaying f (relayPayload owner) false)
  | failed {h : Holder F} : h.Gone → Peeked env f s owner h

/-- **An iteration of a session that waits for a request** reads nothing and writes nothing; it
goes on waiting, or has looked at the request line. -/
theorem Waits.iterate {k : Nat} {f : Bytes} {s : Session F}
    (hw : Waits env jobs k (.session f s true)) {calls : Calls}
    (hwr : writable s calls.write = true) (connect_ok : Bool) :
    s.written calls = [] ∧ taken s calls.recv = 0
      ∧ ((sessionEnd f (session_iter (env.cfg f) s calls) connect_ok).Gone
        ∨ Waits env jobs k (sessionEnd f (session_iter (env.cfg f) s calls) connect_ok)
        ∨ (s.state = .S_PEEK_OWNER ∧ ∃ peek_buf owner, calls.recv = .data peek_buf
          ∧ peek_buf ≠ [] ∧ parse_request_owner peek_buf HTTPMIGRATE_TARGET_LEN = some owner
          ∧ Peeked env f s (cstr owner)
              (sessionEnd f (session_iter (env.cfg f) s calls) connect_ok))) := by
  cases hw with
  | @written k j _ _ text hj hs hclose hno =>
      refine ⟨?_, taken_write hs.state _, ?_⟩
      · unfold Session.written
        rw [hs.resp_off, hs.resp_len]
        exact if_neg (fun h => Nat.lt_irrefl _ h.2)
      · rcases hs.iter (env.cfg j.owner) calls (writable_le hs hwr) with
          ⟨hend, -, -⟩ | ⟨hlt, -⟩ | ⟨n, hlt, -⟩ | ⟨-, hkeep, hend, -, hsess⟩
        · left
          unfold sessionEnd
          rw [hend]
          exact Or.inl rfl
        · exact absurd hlt (Nat.lt_irrefl _)
        · exact absurd hlt (Nat.lt_irrefl _)
        · right; left
          unfold sessionEnd
          rw [hend, hsess]
          refine .peeks hj (hclose ▸ hkeep) rfl rfl ⟨rfl, rfl⟩ ?_
          rw [← hno]
          rfl
  | @peeks k j _ _ hj hclose hs hbuf hops hno =>
      refine ⟨written_reading (by rw [hs]; decide) _, taken_peek hs _, ?_⟩
      have hiter : session_iter (env.cfg j.owner) s calls
          = session_peek_owner (env.cfg j.owner) s calls := by
        unfold session_iter
        rw [hs]
      rw [hiter]
      unfold session_peek_owner
      cases hr : calls.recv with
      | eagain => exact Or.inr (Or.inl (.peeks hj hclose hs hbuf hops hno))
      | error => exact Or.inl (Or.inl rfl)
      | data peek_buf =>
          dsimp only
          split
          next => exact Or.inl (Or.inl rfl)
          next hne =>
          cases howner : parse_request_owner peek_buf HTTPMIGRATE_TARGET_LEN with
          | none => exact Or.inl (Or.inl rfl)
          | some owner =>
              refine Or.inr (Or.inr ⟨hs, peek_buf, owner, rfl, hne, howner, ?_⟩)
              dsimp only
              split
              next hother =>
                cases connect_ok with
                | true => exact .relay hother
                | false => exact .failed (Or.inl rfl)
              next hown => exact .own (not_not.mp hown)

/-- What is read is taken out of the socket buffer. -/
theorem taken_read {s : Session F} (hs : s.Receives) (hno : s.state ≠ .S_PEEK_OWNER)
    (bytes : Bytes) : taken s (.data bytes) = bytes.length := if_pos ⟨hs, hno⟩

theorem drop_coming {unread coming bytes w : Bytes} {c : Nat} (hpre : bytes <+: unread)
    (h : unread ++ coming = w.drop c) :
    unread.drop bytes.length ++ coming = w.drop (c + bytes.length) := by
  rw [← List.drop_drop, ← h, List.drop_append_of_le_length hpre.length_le]

variable {w w' : World F} {a : Server (Bytes × UInt8)} {f : Bytes} {s : Session F}

/-- The world after an iteration that returns `r` from `recv`. -/
abbrev World.turn (env : Env F) (w : World F) (f : Bytes) (s : Session F) (calls : Calls)
    (connect_ok : Bool) : World F :=
  { w with
    holder := sessionEnd f (session_iter (env.cfg f) s calls) connect_ok
    unread := w.unread.drop (taken s calls.recv)
    out := w.out ++ tagged f (s.written calls) }

/-- An iteration that writes nothing … -/
theorem World.turn_silent {calls : Calls} (hwritten : s.written calls = []) (connect_ok : Bool) :
    w.turn env f s calls connect_ok = { w with
      holder := sessionEnd f (session_iter (env.cfg f) s calls) connect_ok
      unread := w.unread.drop (taken s calls.recv) } := by
  unfold World.turn
  rw [hwritten]
  show ({ w with holder := _, unread := _, out := w.out ++ [] } : World F) = _
  rw [List.append_nil]

/-- … and reads nothing. -/
theorem World.turn_quiet {calls : Calls} (htaken : taken s calls.recv = 0)
    (hwritten : s.written calls = []) (connect_ok : Bool) :
    w.turn env f s calls connect_ok = { w with
      holder := sessionEnd f (session_iter (env.cfg f) s calls) connect_ok } := by
  rw [World.turn_silent hwritten, htaken, List.drop_zero]

theorem sessionEnd_again {r : Session F × Ctl} (h : r.2 = .again) (connect_ok : Bool) :
    sessionEnd f r connect_ok = .session f r.1 true := by
  unfold sessionEnd
  rw [h]

theorem sessionEnd_wait {r : Session F × Ctl} (h : r.2 = .wait) (connect_ok : Bool) :
    sessionEnd f r connect_ok = .session f r.1 false := by
  unfold sessionEnd
  rw [h]

theorem sessionEnd_close {r : Session F × Ctl} (h : r.2 = .close) (connect_ok : Bool) :
    sessionEnd f r connect_ok = .closed := by
  unfold sessionEnd
  rw [h]

theorem Anew.of_other {k : Nat} {j j' : Job} (hj : jobs[k]? = some j) (hopen : closes j.q = false)
    (hj' : jobs[k + 1]? = some j') (hne : j'.owner ≠ j.owner) : Anew env jobs (k + 1) where
  open_ := by
    intro m hm
    obtain rfl : m = k := by omega
    rintro ⟨x, hx, hclose⟩
    rw [hj] at hx
    injection hx with hx
    rw [← hx, hopen] at hclose
    cases hclose
  no := by
    unfold requestNo
    rw [hj, hj', if_neg]
    intro h
    injection h with h
    exact hne h

/-- **A session that waits**, in an iteration. -/
theorem At.iterate_waits {k : Nat} (h : At env jobs w a)
    (hh : w.holder = .session f s true) (hw : Waits env jobs k (.session f s true))
    {calls : Calls} {o : Arrival} (hrecv : received s w.unread o = some calls.recv)
    (hwr : writable s calls.write = true) (connect_ok : Bool)
    (hstage : (a.answered = w.sent ∧ a.rest = [] ∧ w.coming = [] ∧ w.unread = [] ∧ k = w.sent)
      ∨ (k = a.answered ∧ ∃ j, jobs[a.answered]? = some j ∧ w.sent = a.answered + 1 ∧ a.rest = []
        ∧ w.unread ++ w.coming = j.q.bytes
        ∧ (w.unread = [] ∨ j.q.line.length + 2 ≤ w.unread.length))) :
    At env jobs (w.turn env f s calls connect_ok) a := by
  obtain ⟨hwritten, htaken, hend⟩ := hw.iterate hwr connect_ok
  rw [World.turn_quiet htaken hwritten connect_ok]
  refine ⟨h.sent, h.out, h.got, h.one, ?_⟩
  rcases hend with hgone | hwaits | ⟨hpeek, peek_buf, owner, hdata, hne, howner, hpeeked⟩
  · exact .gone hgone
  · rcases hstage with ⟨h₁, h₂, h₃, h₄, hk⟩ | ⟨hk, j, h₁, h₂, h₃, h₄, h₅⟩
    · exact .idle h₁ h₂ h₃ h₄ (hk ▸ hwaits)
    · exact .before h₁ h₂ h₃ h₄ h₅ (Or.inl (hk ▸ hwaits))
  · rw [hdata] at hrecv
    obtain ⟨hunread, hbuf⟩ := (received_peek hpeek hrecv).resolve_left hne
    rcases hstage with ⟨-, -, -, hnil, -⟩ | ⟨hk, j', hj', hsent, hrest, htext, hseen⟩
    · exact absurd hnil hunread
    · -- the request line is there
      have hlong := hseen.resolve_left hunread
      have hline := j'.line_le
      have hpart : peek_buf = j'.q.bytes.take (min PEEK_LEN w.unread.length) := by
        rw [hbuf, ← htext, List.take_append_of_le_length (Nat.min_le_right _ _),
          ← List.take_eq_take_min]
      rw [hpart, j'.worker_reads (by omega)] at howner
      injection howner with howner
      rw [← howner, j'.cstr_owner] at hpeeked
      cases hw with
      | written hj hs _ _ => exact absurd (hs.state.symm.trans hpeek) (by decide)
      | @peeks k j _ _ hj hopen hs hempty hops hno =>
          rw [← hk] at hj'
          generalize sessionEnd j.owner (session_iter (env.cfg j.owner) s calls) connect_ok = h'
            at hpeeked
          cases hpeeked with
          | failed hgone => exact .gone hgone
          | relay hother =>
              rw [hk] at hj'
              refine .before hj' hsent hrest htext hseen (Or.inr ⟨?_, ?_⟩)
              · rw [← hk] at hj' ⊢
                exact .of_other hj hopen hj' hother
              · exact .relaying (relayPayload_names j')
          | own hown =>
              have hsame : requestNo jobs (k + 1) = requestNo jobs k + 1 := by
                conv_lhs => unfold requestNo
                rw [hj, hj', if_pos]
                exact congrArg some hown
              rw [hk] at hj'
              have hholder : Holder.session j.owner { s with state := .S_READ_HEADERS } true
                  = .session j'.owner { s with state := .S_READ_HEADERS } true := by
                rw [hown]
              refine .reading (c := 0) hj' hsent hrest htext ?_ hholder ?_
                (Or.inl ⟨rfl, ?_, ?_, hops⟩)
              · intro m hm
                obtain rfl : m = k := by omega
                rintro ⟨x, hx, hclose⟩
                rw [hj] at hx
                injection hx with hx
                rw [← hx, hopen] at hclose
                cases hclose
              · rw [← hk, hsame]
                exact hno
              · exact hempty.trans rfl
              · have := Request.four_lt_head (q := j'.q)
                omega

/-- **A session that reads a request**, in an iteration. -/
theorem At.iterate_reading {j : Job} {c : Nat} (h : At env jobs w a) (hj : jobs[a.answered]? = some j)
    (hsent : w.sent = a.answered + 1) (hrest : a.rest = [])
    (htext : w.unread ++ w.coming = j.q.bytes.drop c)
    (hopen : ∀ m, m + 1 = a.answered → ¬ (service env jobs).Last m)
    (hno : s.req_no = requestNo jobs a.answered)
    (hplace : InHead (env.cfg j.owner) j.q s c
      ∨ ∃ m, m ≤ j.q.body.length ∧ InBody (env.cfg j.owner) j.q s c m)
    {calls : Calls} {o : Arrival} (hrecv : received s w.unread o = some calls.recv)
    (connect_ok : Bool) :
    ∃ a', (server (service env jobs)).Steps a a'
      ∧ At env jobs (w.turn env j.owner s calls connect_ok) a' := by
  have hdata : ∀ bytes, calls.recv = .data bytes → bytes <+: w.unread := by
    intro bytes hb
    rw [hb] at hrecv
    exact received_front hrecv
  have hpre : ∀ bytes, calls.recv = .data bytes → bytes <+: j.q.bytes.drop c := by
    intro bytes hb
    rw [← htext]
    exact (hdata bytes hb).trans (List.prefix_append _ _)
  have hquiet : calls.recv = .eagain → w.unread.drop (taken s calls.recv) ++ w.coming
      = j.q.bytes.drop c := by
    intro hr
    have hzero : taken s calls.recv = 0 := by
      rw [hr]
      unfold taken
      split <;> rfl
    rw [hzero, List.drop_zero, htext]
  rcases hplace with hp | ⟨m, hm, hp⟩
  · rw [World.turn_silent (written_reading (by rw [hp.state]; decide) calls) connect_ok]
    rcases hp.iter j.body_le calls hpre with ⟨hend, -⟩ | ⟨hend, hr, hsame, hp'⟩
      | ⟨bytes, hr, -, hend, hsame, hp'⟩
    · exact ⟨a, .refl _ a, h.sent, h.out, h.got, h.one, .gone (Or.inl (sessionEnd_close hend _))⟩
    · exact ⟨a, .refl _ a, h.sent, h.out, h.got, h.one, .reading hj hsent hrest (hquiet hr) hopen
        (sessionEnd_wait hend _) (hsame.req_no.trans hno) (Or.inl hp')⟩
    · have htaken : taken s calls.recv = bytes.length := by
        rw [hr]
        exact taken_read (Or.inr (Or.inl hp.state)) (by rw [hp.state]; decide) bytes
      refine ⟨a, .refl _ a, h.sent, h.out, h.got, h.one, .reading (c := c + bytes.length) hj hsent hrest ?_ hopen
        (sessionEnd_again hend _) (hsame.req_no.trans hno) ?_⟩
      · rw [htaken]
        exact drop_coming (hdata bytes hr) htext
      · exact hp'.imp_right fun ⟨k, hk, hb⟩ => ⟨k, hk, hb⟩
  · rw [World.turn_silent (written_reading (by rw [hp.state]; decide) calls) connect_ok]
    rcases hp.iter (env.modest j) calls hpre with ⟨hend, -⟩ | ⟨hend, -, hr, hsame⟩
      | ⟨bytes, hlt, hr, -, hend, hsame, hp'⟩ | ⟨hdone, hend, -, hno', hclose, -, hwriting⟩
    · exact ⟨a, .refl _ a, h.sent, h.out, h.got, h.one, .gone (Or.inl (sessionEnd_close hend _))⟩
    · refine ⟨a, .refl _ a, h.sent, h.out, h.got, h.one, .reading hj hsent hrest (hquiet hr) hopen
        (sessionEnd_wait hend _) ?_ (Or.inr ⟨m, hm, ?_⟩)⟩
      · rw [hsame]
        exact hno
      · rw [hsame]
        exact hp
    · have hreceives : s.Receives := by
        refine Or.inr (Or.inr ⟨hp.state, ?_⟩)
        rw [hp.body_in, hp.content_length]
        have := hp.head_le
        have := Request.bytes_length (q := j.q)
        omega
      have htaken : taken s calls.recv = bytes.length := by
        rw [hr]
        exact taken_read hreceives (by rw [hp.state]; decide) bytes
      refine ⟨a, .refl _ a, h.sent, h.out, h.got, h.one, .reading hj hsent hrest ?_ hopen
        (sessionEnd_again hend _) (hsame.req_no.trans hno) (Or.inr ⟨m, hm, hp'⟩)⟩
      rw [htaken]
      exact drop_coming (hdata bytes hr) htext
    · -- the request has been read, and the server answers it
      have hnil : w.unread ++ w.coming = [] := by
        rw [htext, hdone]
        exact List.drop_length
      obtain ⟨hunread, hcoming⟩ := List.append_eq_nil_iff.mp hnil
      have hlen : 0 < (response (env.cfg j.owner) j.q s.req_no m).length :=
        List.length_pos_of_ne_nil (framed_selfDelimiting.ne_nil _
          ⟨_, response_framed (env.modest j) _ _⟩)
      refine ⟨{ a with
          answered := a.answered + 1
          rest := tagged j.owner (response (env.cfg j.owner) j.q s.req_no m) },
        .single (a := ()) (.answer hrest (by rw [h.sent]; omega) ⟨j, hj, m, hm, by rw [hno]⟩ hopen),
        h.sent, h.out, h.got, Nat.le_succ_of_le h.one, ?_⟩
      refine .writing hsent.symm hsent hj hcoming ?_ (sessionEnd_again hend _)
        (hno'.trans hno) hclose hwriting hlen rfl
      show w.unread.drop _ = []
      rw [hunread, List.drop_nil]

/-- **A session that writes its response**, in an iteration. -/
theorem At.iterate_writing {k : Nat} {j : Job} {text : Bytes} {off : Nat} (h : At env jobs w a)
    (hanswered : a.answered = w.sent) (hk : w.sent = k + 1) (hj : jobs[k]? = some j)
    (hcoming : w.coming = []) (hunread : w.unread = []) (hno : s.req_no = requestNo jobs k)
    (hclose : s.should_close = closes j.q) (hs : Writing s text off) (hoff : off < text.length)
    (hrest : a.rest = tagged j.owner (text.drop off)) {calls : Calls}
    (hwr : writable s calls.write = true) (connect_ok : Bool) :
    ∃ a', (server (service env jobs)).Steps a a'
      ∧ At env jobs (w.turn env j.owner s calls connect_ok) a' := by
  have htaken := taken_write hs.state calls.recv
  rcases hs.iter (env.cfg j.owner) calls (writable_le hs hwr) with
    ⟨hend, hwritten, -⟩ | ⟨-, hend, hwritten, -, hsame⟩
      | ⟨n, -, hw, hn, hend, hwritten, hsame, hclose', hs'⟩ | ⟨hdone, -⟩
  · rw [World.turn_quiet htaken hwritten connect_ok]
    exact ⟨a, .refl _ a, h.sent, h.out, h.got, h.one, .gone (Or.inl (sessionEnd_close hend _))⟩
  · rw [World.turn_quiet htaken hwritten connect_ok]
    refine ⟨a, .refl _ a, h.sent, h.out, h.got, h.one, .writing hanswered hk hj hcoming hunread
      (sessionEnd_wait hend _) ?_ ?_ ?_ hoff hrest⟩
    · rw [hsame]
      exact hno
    · rw [hsame]
      exact hclose
    · rw [hsame]
      exact hs
  · -- the server writes as much
    have htext : tagged j.owner (s.written calls) = a.rest.take n := by
      rw [hwritten, hrest, tagged_take]
    have hunread' : w.unread.drop (taken s calls.recv) = [] := by
      rw [hunread, List.drop_nil]
    have hrest' : a.rest.drop n = tagged j.owner (text.drop (off + n)) := by
      rw [hrest, ← List.drop_drop, tagged_drop]
    refine ⟨{ a with rest := a.rest.drop n, out := a.out ++ a.rest.take n },
      .single (a := ()) (.write a n), h.sent, ?_, ?_, h.one, ?_⟩
    · show a.out ++ a.rest.take n = w.out ++ tagged j.owner (s.written calls)
      rw [htext, h.out]
    · show w.got ≤ (w.out ++ tagged j.owner (s.written calls)).length
      have := h.got
      rw [List.length_append]
      omega
    · have hle := hs'.le
      rcases Nat.lt_or_ge (off + n) text.length with hlt | hge
      · exact .writing hanswered hk hj hcoming hunread' (sessionEnd_again hend _)
          (hsame.req_no.trans hno) (hclose'.trans hclose) hs' hlt hrest'
      · obtain hall : off + n = text.length := by omega
        refine .idle hanswered ?_ hcoming hunread' ?_
        · show a.rest.drop n = []
          rw [hrest', hall, List.drop_length]
          rfl
        · show Waits env jobs w.sent (sessionEnd _ _ _)
          rw [sessionEnd_again hend, hk]
          exact .written hj (hall ▸ hs') (hclose'.trans hclose) (hsame.req_no.trans hno)
  · omega

/-- **An iteration.** -/
theorem At.iterate (h : At env jobs w a)
    (hh : w.holder = .session f s true) {c : IterCalls} (hstep : w.iterate env f s c = some w') :
    ∃ a', (server (service env jobs)).Steps a a' ∧ At env jobs w' a' := by
  unfold World.iterate at hstep
  obtain ⟨r, hrecv, hstep⟩ := Option.bind_eq_some_iff.mp hstep
  split at hstep
  next hwr =>
    obtain rfl := Option.some.inj hstep
    generalize hcalls : (⟨r, c.write, c.realloc_ok, c.epoll_mod_ok⟩ : Calls) = calls
    have hrecv' : received s w.unread c.recv = some calls.recv := by
      rw [← hcalls]
      exact hrecv
    have hwr' : writable s calls.write = true := by
      rw [← hcalls]
      exact hwr
    have hr : r = calls.recv := by rw [← hcalls]
    rw [hr]
    show ∃ a', _ ∧ At env jobs (w.turn env f s calls c.connect_ok) a'
    cases h.stage with
    | gone hgone =>
        rw [hh] at hgone
        rcases hgone with hgone | hgone
        · cases hgone
        · cases hgone
    | idle h₁ h₂ h₃ h₄ hwaits =>
        rw [hh] at hwaits
        exact ⟨a, .refl _ a, h.iterate_waits hh hwaits hrecv' hwr' c.connect_ok
          (Or.inl ⟨h₁, h₂, h₃, h₄, rfl⟩)⟩
    | before h₁ h₂ h₃ h₄ h₅ hplace =>
        rw [hh] at hplace
        rcases hplace with hwaits | ⟨-, hcar⟩
        · exact ⟨a, .refl _ a, h.iterate_waits hh hwaits hrecv' hwr' c.connect_ok
            (Or.inr ⟨rfl, _, h₁, h₂, h₃, h₄, h₅⟩)⟩
        · cases hcar
    | reading h₁ h₂ h₃ h₄ h₅ hholder hno hplace =>
        rw [hh] at hholder
        injection hholder with hf hs _
        subst hf hs
        exact h.iterate_reading h₁ h₂ h₃ h₄ h₅ hno hplace hrecv' c.connect_ok
    | writing h₁ h₂ h₃ h₄ h₅ hholder hno hclose hs hoff hrest =>
        rw [hh] at hholder
        injection hholder with hf hs' _
        subst hf hs'
        exact h.iterate_writing h₁ h₂ h₃ h₄ h₅ hno hclose hs hoff hrest hwr' c.connect_ok
  next => cases hstep

/-! ## §6. The refinement. -/

/-- An event that the client, the network and the sessions have no part in. -/
theorem World.step_move {e : Event} (hstep : w.step env jobs e = some w') :
    (e = .send ∨ (∃ n, e = .arrive n) ∨ (∃ n, e = .deliver n) ∨ ∃ c, e = .iterate c)
      ∨ ∃ h', Moves env w.unread w.holder e h' ∧ w' = { w with holder := h' } := by
  have hmoves : ∀ {e : Event}, (w.holder.move env w.unread e).map (fun h => { w with holder := h })
      = some w' → ∃ h', Moves env w.unread w.holder e h' ∧ w' = { w with holder := h' } := by
    intro e h
    obtain ⟨h', hmove, rfl⟩ := Option.map_eq_some_iff.mp h
    exact ⟨h', .of_move hmove, rfl⟩
  cases e with
  | send => exact Or.inl (Or.inl rfl)
  | arrive n => exact Or.inl (Or.inr (Or.inl ⟨n, rfl⟩))
  | deliver n => exact Or.inl (Or.inr (Or.inr (Or.inl ⟨n, rfl⟩)))
  | iterate c => exact Or.inl (Or.inr (Or.inr (Or.inr ⟨c, rfl⟩)))
  | acceptClient c => exact Or.inr (hmoves hstep)
  | sendmsg fd => exact Or.inr (hmoves hstep)
  | hangup => exact Or.inr (hmoves hstep)
  | accept c => exact Or.inr (hmoves hstep)
  | pending hup c => exact Or.inr (hmoves hstep)
  | wake hup => exact Or.inr (hmoves hstep)
  | relaymsg fd => exact Or.inr (hmoves hstep)
  | acceptRelay c => exact Or.inr (hmoves hstep)

/-- **Every step of the deployment is one of the server's**, or none. -/
theorem deployment_simulates (hserved : Served env jobs) :
    Simulation (deployment env jobs) (server (service env jobs)) (At env jobs) where
  init := by
    rintro w rfl
    exact ⟨.start, rfl, rfl, rfl, Nat.le_refl _, Nat.zero_le _, .idle rfl rfl rfl rfl .queued⟩
  step := by
    intro w e w' a h ha hstep
    obtain ⟨hstep, hclient, hwhole⟩ := hstep
    rcases World.step_move hstep with (rfl | ⟨n, rfl⟩ | ⟨n, rfl⟩ | ⟨c, rfl⟩) | ⟨h', hmove, rfl⟩
    · exact h.send ha (hclient rfl) hstep
    · exact ⟨a, .refl _ a, h.arrive hstep hwhole⟩
    · exact ⟨a, .refl _ a, h.deliver hstep⟩
    · simp only [World.step] at hstep
      split at hstep
      next f s hh => exact h.iterate hh hstep
      next => cases hstep
    · exact ⟨a, .refl _ a, h.move hserved hmove⟩

/-- What the client sees: responses to its requests, each whole and from the worker of the
function that the request names, but for the last one, which may have come in part or not at
all; none follows one that ends the connection. -/
structure Faithful (env : Env F) (jobs : List Job) (w : World F) : Prop where
  out : ∃ (responses : List (List (Bytes × UInt8))) (rest : List (Bytes × UInt8)),
    w.out ++ rest = responses.flatten
      ∧ responses.length ≤ w.sent ∧ w.sent ≤ responses.length + 1
      ∧ (∀ k text, responses[k]? = some text → (service env jobs).Answer k text)
      ∧ ∀ k, k + 1 < responses.length → ¬ (service env jobs).Last k
  /-- who reads is the worker of the function that the request names, and nobody else has read
  of it -/
  owner : ∀ f s running, w.holder = .session f s running →
    s.state = .S_READ_HEADERS ∨ s.state = .S_READ_BODY →
    ∃ k j c, w.sent = k + 1 ∧ jobs[k]? = some j ∧ j.owner = f
      ∧ w.unread ++ w.coming = j.q.bytes.drop c
      ∧ (InHead (env.cfg f) j.q s c ∨ ∃ m, InBody (env.cfg f) j.q s c m)

def Event.isSend : Event → Bool
  | .send => true
  | _ => false

/-- A step, where the network brings lines whole. -/
def World.wholeStep (env : Env F) (jobs : List Job) (w : World F) (e : Event) :
    Option (World F) :=
  if arrivesWhole jobs w e then w.step env jobs e else none

theorem World.run_reachable {w w' : World F} {es : List Event}
    (h : (deployment env jobs).Reachable w) (hes : es.all (fun e => ! e.isSend) = true)
    (hrun : stepAll (World.wholeStep env jobs) w es = some w') :
    (deployment env jobs).Reachable w' := by
  refine h.stepAll (P := fun e => ! e.isSend) (fun w e w' he hstep => ?_) hes hrun
  unfold World.wholeStep at hstep
  split at hstep
  next hwhole =>
    refine ⟨hstep, ?_, hwhole⟩
    rintro rfl
    cases he
  next => cases hstep

/-- `b` multiplies, and `a` adds; the numbers are whole. -/
def twoHosts : Env Int where
  libm := HttpKa.Sum.decimal
  compute := fun f => if f = ascii "b" then (· * ·) else (· + ·)
  fmt6g := fun x => (HttpKa.showInt x).take 13
  fmt6g_le := fun x => List.length_take_le 13 (HttpKa.showInt x)
  socketDir := ascii "/run/fn"
  bound := fun path => [ascii "a", ascii "b"].find? fun f =>
    Migration.sunPath (sockPath (ascii "/run/fn") f) = path

/-- A request line for the function `f`. -/
def getLine (f : Bytes) : Bytes := WellFormed.line (ascii "GET") f [] (ascii "HTTP/1.1")

theorem getLine_wellFormed {f : Bytes} (hf : f ≠ [] ∧ ∀ c ∈ f, nameByte c = true) :
    WellFormed (ascii "GET") f [] (ascii "HTTP/1.1") where
  method := by decide +kernel
  name := hf
  more := by decide +kernel
  version := by decide +kernel

theorem isLine_getLine : (∀ l ∈ [getLine (ascii "a")], IsLine l ∧ l ≠ [])
    ∧ ∀ l ∈ [getLine (ascii "b")], IsLine l ∧ l ≠ [] := by decide +kernel

theorem declares_getLine : DeclaresLength [getLine (ascii "a")] ([] : Bytes).length
    ∧ DeclaresLength [getLine (ascii "b")] ([] : Bytes).length :=
  ⟨Or.inr ⟨rfl, by decide +kernel⟩, Or.inr ⟨rfl, by decide +kernel⟩⟩

def getA : Request := ⟨getLine (ascii "a"), [], [], isLine_getLine.1, declares_getLine.1⟩
def getB : Request := ⟨getLine (ascii "b"), [], [], isLine_getLine.2, declares_getLine.2⟩

theorem names_getA : ∃ method more version, getA.line = WellFormed.line method (ascii "a") more version
    ∧ WellFormed method (ascii "a") more version :=
  ⟨_, _, _, rfl, getLine_wellFormed (by decide +kernel)⟩

theorem names_getB : ∃ method more version, getB.line = WellFormed.line method (ascii "b") more version
    ∧ WellFormed method (ascii "b") more version :=
  ⟨_, _, _, rfl, getLine_wellFormed (by decide +kernel)⟩

/-- A request to `a`, and then one to `b`. -/
def twoGets : List Job :=
  [⟨getA, ascii "a", names_getA, by decide +kernel, by decide +kernel, by decide +kernel⟩,
    ⟨getB, ascii "b", names_getB, by decide +kernel, by decide +kernel, by decide +kernel⟩]

theorem twoGets_served : Served twoHosts twoGets := by
  unfold Served
  decide +kernel

/-- `recv` has nothing, or is not called. -/
def quietCalls (write : Send) : IterCalls := ⟨.eagain, write, true, true, true⟩

/-- `recv` has `n` bytes. -/
def readCalls (n : Nat) : IterCalls := ⟨.got n, .eagain, true, true, true⟩

def goodCalls : PendingCalls := ⟨true, false, true, true, true, true⟩

/-- The worker is there before the message, and writes its response in two parts. -/
def answerA : List Event :=
  [.arrive 26, .arrive 2, .acceptClient ⟨true, true, true⟩, .accept ⟨true, true, true, true, true, true⟩,
    .sendmsg (some 5), .pending false goodCalls, .wake false, .iterate (readCalls 20),
    .iterate (readCalls 8), .iterate (quietCalls .eagain), .iterate (quietCalls (.sent 100)),
    .iterate (quietCalls .eagain), .wake false, .iterate (quietCalls (.sent 270)),
    .iterate (quietCalls .eagain), .deliver 370]

/-- The connection goes back to the gateway, and to the other worker. -/
def answerB : List Event :=
  [.arrive 28, .wake false, .iterate (readCalls 28), .relaymsg (some 6),
    .acceptRelay ⟨true, true, true⟩, .sendmsg (some 7), .hangup, .accept goodCalls, .wake false,
    .iterate (readCalls 28), .iterate (quietCalls .eagain), .iterate (quietCalls (.sent 50))]

/-- The client has the answer of `a`. -/
def answeredA : Option (World Int) :=
  (World.start.step twoHosts twoGets .send).bind fun w =>
    stepAll (World.wholeStep twoHosts twoGets) w answerA

/-- `b` has written a part of its answer. -/
def answeringB : Option (World Int) :=
  (answeredA.bind fun w => w.step twoHosts twoGets .send).bind fun w =>
    stepAll (World.wholeStep twoHosts twoGets) w answerB

theorem answeredA_settled : answeredA.map (fun w => (w.sent, (w.out.take w.got).map Prod.snd))
    = some (1, response (twoHosts.cfg (ascii "a")) getA 1 0) := by decide +kernel

theorem answeredA_reachable {w : World Int} (h : answeredA = some w) :
    (deployment twoHosts twoGets).Reachable w := by
  obtain ⟨u, hsend, hrun⟩ := Option.bind_eq_some_iff.mp h
  refine World.run_reachable (.step (.init rfl) ⟨hsend, fun _ => ?_, rfl⟩) (by decide +kernel) hrun
  exact ⟨[], rfl, List.forall_mem_nil _, rfl⟩

theorem answeringB_reachable {w : World Int} (h : answeringB = some w) :
    (deployment twoHosts twoGets).Reachable w := by
  obtain ⟨u, hu, hrun⟩ := Option.bind_eq_some_iff.mp h
  obtain ⟨v, hv, hsend⟩ := Option.bind_eq_some_iff.mp hu
  have hgot := answeredA_settled
  rw [hv] at hgot
  obtain ⟨hsent, htext⟩ := Prod.mk.inj (Option.some.inj hgot)
  refine World.run_reachable (.step (answeredA_reachable hv) ⟨hsend, fun _ => ?_, rfl⟩)
    (by decide +kernel) hrun
  refine ⟨[response (twoHosts.cfg (ascii "a")) getA 1 0], hsent.symm, ?_, ?_⟩
  · intro p hp
    obtain rfl := List.mem_singleton.mp hp
    exact ⟨_, response_framed (twoHosts.modest ⟨getA, ascii "a", names_getA, by decide +kernel,
      by decide +kernel, by decide +kernel⟩) _ _⟩
  · rw [htext]
    exact (List.append_nil _).symm

/-- The functions `a` and `ab`. -/
def cutHosts : Env Int :=
  { twoHosts with
    bound := fun path => [ascii "a", ascii "ab"].find? fun f =>
      Migration.sunPath (sockPath (ascii "/run/fn") f) = path }

theorem isLine_getLine_ab : ∀ l ∈ [getLine (ascii "ab")], IsLine l ∧ l ≠ [] := by decide +kernel

theorem declares_getLine_ab : DeclaresLength [getLine (ascii "ab")] ([] : Bytes).length :=
  Or.inr ⟨rfl, by decide +kernel⟩

def getAb : Request := ⟨getLine (ascii "ab"), [], [], isLine_getLine_ab, declares_getLine_ab⟩

theorem names_getAb : ∃ method more version,
    getAb.line = WellFormed.line method (ascii "ab") more version
      ∧ WellFormed method (ascii "ab") more version :=
  ⟨_, _, _, rfl, getLine_wellFormed (by decide +kernel)⟩

/-- A request to `ab`. -/
def oneGet : List Job :=
  [⟨getAb, ascii "ab", names_getAb, by decide +kernel, by decide +kernel, by decide +kernel⟩]

/-- The gateway looks when `GET /function/a` has come. -/
def cutRun : List Event :=
  [.send, .arrive 15, .acceptClient ⟨true, true, true⟩, .sendmsg (some 7), .hangup,
    .accept goodCalls, .arrive 14, .wake false, .iterate (readCalls 29),
    .iterate (quietCalls .eagain), .iterate (quietCalls (.sent 50))]

/-- **Why the network is to bring a line whole**: the request to `ab` is answered by `a`. -/
theorem cut_line_misdirected : Served cutHosts oneGet
    ∧ ∃ w : World Int, stepAll (World.step cutHosts oneGet) World.start cutRun = some w
      ∧ w.out.length = 50 ∧ ∀ x ∈ w.out, x.1 = ascii "a" := by
  have hserved : Served cutHosts oneGet := by
    unfold Served
    decide +kernel
  have hrun : (stepAll (World.step cutHosts oneGet) World.start cutRun).map
      (fun w => (w.out.length, decide (∀ x ∈ w.out, x.1 = ascii "a"))) = some (50, true) := by
    decide +kernel
  obtain ⟨w, hw, hvalues⟩ := Option.map_eq_some_iff.mp hrun
  obtain ⟨hlen, howner⟩ := Prod.mk.inj hvalues
  exact ⟨hserved, w, hw, hlen, of_decide_eq_true howner⟩

end TlsMigration.BenchHttp
