/-
  TlsMigration.HttpKa.BlockingWorker
  ──────────────────────────────────
  **THE BLOCKING KEEP-ALIVE WORKER OF THE HTTP INTEGRATION**
  (timing-fn-a/timing_fn_ka_worker.c).

  A handoff carries two descriptors: the client's connection, and the write
  end of a pipe on which the gateway waits for the first response.  The
  worker owes the pipe eight bytes and a `close`, in whichever way the
  session ends; it pays after the first response, or at `done:`.

    • `session_turn_spec` — what one turn of the loop does with either;
    • `process_session_returns` — a session ends when its client goes;
    • `process_session_unblocks` — when the pipe has been written and closed.
-/
import TlsMigration.Handoff.Transfer
import TlsMigration.HttpKa.Payload

namespace TlsMigration.HttpKa.Blocking

open TlsMigration.Http TlsMigration.Handoff

/-! ## §1. The session. -/

/-- What the calls of one turn of the loop return. -/
structure TurnCalls where
  /-- `wait_readable` -/
  wait : Int
  /-- the clock before the peek -/
  top1 : UInt64
  /-- the peeked bytes; empty where `recv` returns 0 or -1 -/
  peeked : Bytes
  connect : ConnectCalls
  /-- `sendmsg` succeeded -/
  sent : Bool
  realloc_ok : Nat → Bool
  /-- what each `recv` of the header loop could return; none is left when it returns 0 or -1 -/
  header : List Bytes
  /-- and how much each `recv` of the body loop could -/
  body : List Nat
  /-- the clock behind the body -/
  top2 : UInt64
  /-- `write` of the response did not return -1 -/
  write_ok : Bool

/-- What all calls of one session return. -/
structure SessionCalls where
  turn : Nat → TurnCalls
  /-- the clock at `done:` -/
  now : UInt64
  /-- the pipe takes the eight bytes that are written to it -/
  pipe_takes : Bool

/-- The two descriptors of a handoff, with their opens. -/
structure Handed where
  client_fd : Fd
  client : FileId
  pipe_fd : Fd
  pipe : FileId

/-- The variables of `process_session`. -/
structure Session where
  fds : FdTable
  first_request : Bool
  pipe_sent : Bool
  cap : Nat
  /-- the timestamps the pipe took -/
  piped : List UInt64

/-- The variables when the function is entered. -/
def Session.start (t : FdTable) : Session where
  fds := t
  first_request := true
  pipe_sent := false
  cap := 0
  piped := []

/-- The write to the pipe and its `close`. -/
def Session.notify (s : Session) (h : Handed) (pipe_takes : Bool) (ts_le : UInt64) : Session :=
  { s with
    fds := (s.fds.use h.pipe_fd h.pipe).close h.pipe_fd h.pipe
    pipe_sent := true
    piped := s.piped ++ (if pipe_takes then [ts_le] else []) }

/-- A `recv` on the client's connection. -/
def Session.recv (s : Session) (h : Handed) : Session :=
  { s with fds := s.fds.use h.client_fd h.client }

/-- The loop that reads a header block: the buffer, its capacity, and `hdr_sz`. -/
def read_headers (realloc_ok : Nat → Bool) : List Bytes → Nat → Bytes → Option (Bytes × Nat × Nat)
  | recvs, cap, buf =>
      let grow := decide (cap < buf.length + 4096 + 1)
      let nc := if grow then (if cap = 0 then 16384 else cap * 2) else cap
      if grow ∧ realloc_ok nc = false then none
      else
        match recvs with
        | [] => none
        | r :: recvs =>
            let r := r.take (nc - buf.length - 1)
            if r = [] then none
            else
              match headerEnd (buf ++ r) with
              | some (hdr_end, hdr_sep) => some (buf ++ r, nc, hdr_end + hdr_sep)
              | none => read_headers realloc_ok recvs nc (buf ++ r)

/-- The loop that drains a body; `none` where a `recv` returns 0 or -1. -/
def read_body (cl : Nat) : List Nat → Nat → Option Nat
  | [], body_read => if body_read < cl then none else some body_read
  | n :: recvs, body_read =>
      if body_read < cl then
        let n := min n (min (cl - body_read) 16384)
        if n = 0 then none else read_body cl recvs (body_read + n)
      else some body_read

/-- How a turn of the loop ends. -/
inductive Turn where
  | next (s : Session)
  /-- `goto done` -/
  | done (s : Session)
  /-- `return` -/
  | relayed (fds : FdTable) (piped : List UInt64) (payload : Option KaPayload)

/-- `Owner matches: serve this request`. -/
def serve (h : Handed) (pipe_takes : Bool) (s : Session) (c : TurnCalls) : Turn :=
  let s := s.recv h
  match read_headers c.realloc_ok c.header s.cap [] with
  | none => .done s
  | some (buf, cap, hdr_sz) =>
      let s := { s with cap := cap }
      match read_body (bodyLength buf hdr_sz) c.body (buf.length - hdr_sz) with
      | none => .done s
      | some _ =>
          if c.write_ok = false then .done s
          else
            let s := if s.pipe_sent then s else s.notify h pipe_takes c.top2
            if should_close buf hdr_sz then .done s else .next s

/-- `Wrong owner`: the connection goes back to the gateway. -/
def relay (h : Handed) (s : Session) (c : TurnCalls) (owner : Bytes) : Turn :=
  match unix_client_connect s.fds c.connect with
  | (t, none) => .relayed (t.close h.client_fd h.client) s.piped none
  | (t, some relay_fd) =>
      let (t, rc) := transferFd t relay_fd h.client_fd h.client c.sent
      .relayed (t.close relay_fd.1 relay_fd.2) s.piped
        (if rc = 0 then some (relayPayload c.top1 owner) else none)

/-- One turn of the loop of `process_session`. -/
def session_turn (h : Handed) (payload : KaPayload) (function_name : Bytes) (pipe_takes : Bool)
    (s : Session) (c : TurnCalls) : Turn :=
  if s.first_request ∧ payload.top1_set ≠ 0 then
    serve h pipe_takes { s with first_request := false } c
  else
    let s := s.recv h
    if c.wait ≤ 0 then .done s
    else
      let peek_buf := c.peeked.take 1023
      if peek_buf = [] then .done s
      else
        match parse_request_owner peek_buf HTTPMIGRATE_TARGET_LEN with
        | none => .done s
        | some owner =>
            if cstr owner ≠ function_name then relay h s c owner
            else serve h pipe_takes s c

/-- `done:` -/
def finish (h : Handed) (c : SessionCalls) (s : Session) : FdTable × List UInt64 :=
  let s := { s with fds := s.fds.close h.client_fd h.client }
  let s := if s.pipe_sent then s else s.notify h c.pipe_takes c.now
  (s.fds, s.piped)

/-- The loop, for as many turns as `fuel` says; `none` where the session goes on. -/
def session_loop (h : Handed) (payload : KaPayload) (function_name : Bytes) (c : SessionCalls) :
    Nat → Nat → Session → Option (FdTable × List UInt64)
  | 0, _, _ => none
  | fuel + 1, k, s =>
      match session_turn h payload function_name c.pipe_takes s (c.turn k) with
      | .next s => session_loop h payload function_name c fuel (k + 1) s
      | .done s => some (finish h c s)
      | .relayed fds piped _ => some (fds, piped)

/-- `process_session`: the descriptors it leaves, and what it wrote to the pipe. -/
def process_session (fuel : Nat) (t : FdTable) (h : Handed) (payload : KaPayload)
    (function_name : Bytes) (c : SessionCalls) : Option (FdTable × List UInt64) :=
  session_loop h payload function_name c fuel 0 (Session.start t)

/-! ## §2. One turn. -/

/-- The turn comes to a request of another function. -/
def Relays (payload : KaPayload) (function_name : Bytes) (first_request : Bool)
    (c : TurnCalls) : Prop :=
  ¬ (first_request = true ∧ payload.top1_set ≠ 0) ∧ 0 < c.wait
    ∧ ∃ owner, parse_request_owner (c.peeked.take 1023) HTTPMIGRATE_TARGET_LEN = some owner
      ∧ cstr owner ≠ function_name

/-- What the gateway waits for: one timestamp in the pipe, and one `close`, in this order. -/
structure Unblocked (t t' : FdTable) (pipe : FileId) (piped : List UInt64) : Prop where
  stamped : ∃ ts_le, piped = [ts_le]
  closed : t'.closes pipe = 1 ∧ t'.sends pipe = 0
  no_fault : t'.faults = t.faults

/-- A session that has done nothing but read. -/
structure Kept (t : FdTable) (s s' : Session) : Prop where
  scope : FdTable.Scope [] t s'.fds
  pipe_sent : s'.pipe_sent = s.pipe_sent
  piped : s'.piped = s.piped

/-- The session behind its response. -/
def Session.answered (s : Session) (h : Handed) (pipe_takes : Bool) (ts_le : UInt64) : Session :=
  if s.pipe_sent then s else s.notify h pipe_takes ts_le

section Turns

variable {t : FdTable} {h : Handed} {s : Session}

theorem Kept.recv {s' : Session} (hk : Kept t s s')
    (hclient : t.files h.client_fd = some h.client) : Kept t s (s'.recv h) where
  scope := hk.scope.use hclient (by simp)
  pipe_sent := hk.pipe_sent
  piped := hk.piped

theorem serve_spec (hk : FdTable.Scope [] t s.fds)
    (hclient : t.files h.client_fd = some h.client) (pipe_takes : Bool) (c : TurnCalls) :
    ∃ s', Kept t s s' ∧ (serve h pipe_takes s c = .done s'
      ∨ serve h pipe_takes s c = .done (s'.answered h pipe_takes c.top2)
      ∨ serve h pipe_takes s c = .next (s'.answered h pipe_takes c.top2)) := by
  have hkept : Kept t s (s.recv h) := Kept.recv ⟨hk, rfl, rfl⟩ hclient
  unfold serve
  dsimp only
  cases read_headers c.realloc_ok c.header (s.recv h).cap [] with
  | none => exact ⟨_, hkept, Or.inl rfl⟩
  | some r =>
      obtain ⟨buf, cap, hdr_sz⟩ := r
      have hkept' : Kept t s { s.recv h with cap := cap } :=
        ⟨hkept.scope, hkept.pipe_sent, hkept.piped⟩
      refine ⟨_, hkept', ?_⟩
      dsimp only
      cases read_body (bodyLength buf hdr_sz) c.body (buf.length - hdr_sz) with
      | none => exact Or.inl rfl
      | some body_read =>
          dsimp only
          cases c.write_ok with
          | false => exact Or.inl rfl
          | true =>
              rw [if_neg (by simp)]
              cases should_close buf hdr_sz with
              | true => exact Or.inr (Or.inl rfl)
              | false => exact Or.inr (Or.inr rfl)

/-- The relay branch closes the client's descriptor, sends it away, or (where `sendmsg`
fails) keeps it; the pipe it leaves alone. -/
theorem relay_spec (ht : t.Ok) (hk : FdTable.Scope [] t s.fds)
    (hclient : t.files h.client_fd = some h.client) (hep : t.epoll h.client_fd = false)
    (c : TurnCalls) (hfresh : c.connect.Fresh t) (owner : Bytes) :
    ∃ fds p gone, relay h s c owner = .relayed fds s.piped p
      ∧ FdTable.Scope gone t fds ∧ ∀ id ∈ gone, id = h.client := by
  have hfresh := hfresh.of_scope hk
  unfold relay
  split
  next t' hconn =>
    have hx := connect_failed hk ht hfresh (congrArg Prod.snd hconn)
    rw [hconn] at hx
    exact ⟨_, _, _, rfl, hx.close ht hclient (by simp), by simp⟩
  next t' relay_fd hconn =>
    have hx := exchange hk ht hfresh (congrArg Prod.snd hconn) hclient (by simp) hep c.sent
    rw [hconn] at hx
    refine ⟨_, _, _, rfl, hx, ?_⟩
    cases c.sent with
    | true => simp
    | false => simp

/-- **One turn**: a turn that is no relay reads, and answers or not; a relay ends the
session with the pipe as it was. -/
theorem session_turn_spec (ht : t.Ok) (hk : FdTable.Scope [] t s.fds)
    (hclient : t.files h.client_fd = some h.client) (hep : t.epoll h.client_fd = false)
    (payload : KaPayload) (function_name : Bytes) (pipe_takes : Bool) (c : TurnCalls)
    (hfresh : c.connect.Fresh t) :
    (¬ Relays payload function_name s.first_request c
        ∧ ∃ s', Kept t s s' ∧ (session_turn h payload function_name pipe_takes s c = .done s'
          ∨ session_turn h payload function_name pipe_takes s c
            = .done (s'.answered h pipe_takes c.top2)
          ∨ session_turn h payload function_name pipe_takes s c
            = .next (s'.answered h pipe_takes c.top2)))
      ∨ (Relays payload function_name s.first_request c
        ∧ ∃ fds p gone, session_turn h payload function_name pipe_takes s c
            = .relayed fds s.piped p
          ∧ FdTable.Scope gone t fds ∧ ∀ id ∈ gone, id = h.client) := by
  have hkept : Kept t s (s.recv h) := Kept.recv ⟨hk, rfl, rfl⟩ hclient
  unfold session_turn
  by_cases hfirst : s.first_request = true ∧ payload.top1_set ≠ 0
  · -- the gateway has stamped the first request, and looked at its owner
    rw [if_pos hfirst]
    left
    refine ⟨fun hr => hr.1 hfirst, ?_⟩
    obtain ⟨s', hk', hturn⟩ :=
      serve_spec (s := { s with first_request := false }) hk hclient pipe_takes c
    exact ⟨s', ⟨hk'.scope, hk'.pipe_sent, hk'.piped⟩, hturn⟩
  · rw [if_neg hfirst]
    dsimp only
    by_cases hwait : c.wait ≤ 0
    · rw [if_pos hwait]
      exact Or.inl ⟨fun hr => absurd hr.2.1 (Int.not_lt.mpr hwait), _, hkept, Or.inl rfl⟩
    · rw [if_neg hwait]
      cases howner : parse_request_owner (c.peeked.take 1023) HTTPMIGRATE_TARGET_LEN with
      | none =>
          left
          refine ⟨fun hr => ?_, _, hkept, Or.inl (ite_self _)⟩
          obtain ⟨owner, hp, -⟩ := hr.2.2
          rw [howner] at hp
          cases hp
      | some owner =>
          have hpeek : c.peeked.take 1023 ≠ [] := by
            intro e
            rw [e] at howner
            cases howner
          rw [if_neg hpeek]
          dsimp only
          by_cases hname : cstr owner ≠ function_name
          · rw [if_pos hname]
            right
            refine ⟨⟨hfirst, Int.not_le.mp hwait, owner, howner, hname⟩, ?_⟩
            exact relay_spec ht hkept.scope hclient hep c hfresh owner
          · rw [if_neg hname]
            left
            refine ⟨fun hr => ?_, ?_⟩
            · obtain ⟨owner', hp, hne⟩ := hr.2.2
              rw [howner] at hp
              injection hp with hp
              exact hname (hp ▸ hne)
            · obtain ⟨s', hk', hturn⟩ := serve_spec hkept.scope hclient pipe_takes c
              exact ⟨s', ⟨hk'.scope, hk'.pipe_sent, hk'.piped⟩, hturn⟩

end Turns

/-! ## §3. The pipe. -/

section Runs

variable {t : FdTable} {h : Handed} {s : Session} {payload : KaPayload} {function_name : Bytes}
  {c : SessionCalls}

/-- The pipe's end after the write and the `close`. -/
theorem notify_spec {gone : List FileId} {fds : FdTable}
    (hfds : FdTable.Scope gone t fds) (ht : t.Ok) (hpipe : t.files h.pipe_fd = some h.pipe)
    (hgone : h.pipe ∉ gone) (pipe_takes : Bool) (ts_le : UInt64) :
    FdTable.Scope (h.pipe :: gone) t ({ s with fds := fds }.notify h pipe_takes ts_le).fds
      ∧ ({ s with fds := fds }.notify h pipe_takes ts_le).fds.closes h.pipe = 1
      ∧ ({ s with fds := fds }.notify h pipe_takes ts_le).fds.sends h.pipe = 0 := by
  have hopen := hfds.still_open hpipe hgone
  obtain ⟨hcloses, hsends⟩ := hfds.ok.open_fresh hopen
  refine ⟨(hfds.use hpipe hgone).close ht hpipe hgone, ?_, hsends⟩
  show Function.update fds.closes h.pipe (fds.closes h.pipe + 1) h.pipe = 1
  rw [Function.update_self, hcloses]

/-- **Once the pipe is settled** nothing touches it: the session ends, if it does, by
closing or sending the client's descriptor. -/
theorem session_loop_settled (ht : t.Ok) (hclient : t.files h.client_fd = some h.client)
    (hep : t.epoll h.client_fd = false) (hfresh : ∀ k, (c.turn (k + 1)).connect.Fresh t)
    (fuel : Nat) :
    ∀ (k : Nat) (s : Session), FdTable.Scope [] t s.fds → s.pipe_sent = true → ∀ fds piped,
      session_loop h payload function_name c fuel (k + 1) s = some (fds, piped) →
      piped = s.piped ∧ ∃ gone, FdTable.Scope gone t fds ∧ ∀ id ∈ gone, id = h.client := by
  induction fuel with
  | zero =>
      intro k s _ _ fds piped hloop
      cases hloop
  | succ fuel ih =>
      intro k s hk hsent fds piped hloop
      unfold session_loop at hloop
      have hanswered : ∀ {s' : Session} {ts_le : UInt64}, Kept t s s' →
          s'.answered h c.pipe_takes ts_le = s' := fun hk' => if_pos (hk'.pipe_sent.trans hsent)
      have hdone : ∀ {s' : Session}, Kept t s s' → finish h c s' = (fds, piped) →
          piped = s.piped ∧ ∃ gone, FdTable.Scope gone t fds ∧ ∀ id ∈ gone, id = h.client := by
        intro s' hk' hfin
        unfold finish at hfin
        dsimp only at hfin
        rw [if_pos (hk'.pipe_sent.trans hsent)] at hfin
        simp only [Prod.mk.injEq] at hfin
        obtain ⟨rfl, rfl⟩ := hfin
        exact ⟨hk'.piped, _, hk'.scope.close ht hclient (by simp), by simp⟩
      rcases session_turn_spec ht hk hclient hep payload function_name c.pipe_takes
          (c.turn (k + 1)) (hfresh k) with
        ⟨-, s', hk', hturn | hturn | hturn⟩ | ⟨-, fds', p, gone, hturn, hs, hgone⟩
      · rw [hturn] at hloop
        exact hdone hk' (Option.some.inj hloop)
      · rw [hturn, hanswered hk'] at hloop
        exact hdone hk' (Option.some.inj hloop)
      · rw [hturn, hanswered hk'] at hloop
        obtain ⟨hpiped, hrest⟩ :=
          ih (k + 1) s' hk'.scope (hk'.pipe_sent.trans hsent) fds piped hloop
        exact ⟨hpiped.trans hk'.piped, hrest⟩
      · rw [hturn] at hloop
        simp only [Option.some.injEq, Prod.mk.injEq] at hloop
        obtain ⟨rfl, rfl⟩ := hloop
        exact ⟨rfl, gone, hs, hgone⟩

theorem read_headers_nil (realloc_ok : Nat → Bool) (cap : Nat) (buf : Bytes) :
    read_headers realloc_ok [] cap buf = none := by
  unfold read_headers
  exact ite_self _

/-- A turn for a client that has gone. -/
theorem session_turn_gone (h : Handed) (payload : KaPayload) (function_name : Bytes)
    (pipe_takes : Bool) (s : Session) {c : TurnCalls} (hwait : c.wait ≤ 0)
    (hheader : c.header = []) :
    ∃ s', session_turn h payload function_name pipe_takes s c = .done s' := by
  unfold session_turn
  split
  next =>
    refine ⟨{ s with first_request := false }.recv h, ?_⟩
    unfold serve
    dsimp only
    rw [hheader, read_headers_nil]
  next => exact ⟨s.recv h, rfl⟩

/-- A session ends when its client has gone. -/
theorem session_loop_returns (n : Nat) :
    ∀ (k : Nat) (s : Session), (c.turn (k + n)).wait ≤ 0 → (c.turn (k + n)).header = [] →
      (session_loop h payload function_name c (n + 1) k s).isSome := by
  induction n with
  | zero =>
      intro k s hwait hheader
      obtain ⟨s', hturn⟩ := session_turn_gone h payload function_name c.pipe_takes s hwait hheader
      unfold session_loop
      rw [Nat.add_zero] at hturn
      rw [hturn]
      rfl
  | succ n ih =>
      intro k s hwait hheader
      unfold session_loop
      cases session_turn h payload function_name c.pipe_takes s (c.turn k) with
      | next s =>
          refine ih (k + 1) s ?_ ?_
          · rw [show k + 1 + n = k + (n + 1) by omega]
            exact hwait
          · rw [show k + 1 + n = k + (n + 1) by omega]
            exact hheader
      | done s => rfl
      | relayed fds piped p => rfl

end Runs

/-- The first request of a connection whose owner the gateway did not look at is for
another function. -/
def RelaysFirst (payload : KaPayload) (function_name : Bytes) (c : TurnCalls) : Prop :=
  payload.top1_set = 0 ∧ 0 < c.wait
    ∧ ∃ owner, parse_request_owner (c.peeked.take 1023) HTTPMIGRATE_TARGET_LEN = some owner
      ∧ cstr owner ≠ function_name

/-- **`process_session` returns when its client has gone, and it has then unblocked the
gateway** exactly when the session is not one that is relayed before its first response,
and the pipe took what was written to it. -/
theorem process_session_unblocks_iff {t : FdTable} (ht : t.Ok) {h : Handed}
    (hclient : t.files h.client_fd = some h.client) (hpipe : t.files h.pipe_fd = some h.pipe)
    (hne : h.client_fd ≠ h.pipe_fd) (hep : t.epoll h.client_fd = false) (payload : KaPayload)
    (function_name : Bytes) (c : SessionCalls) (hfresh : (c.turn 0).connect.Fresh t)
    -- the pipe's number is free again from the second turn on
    (hfresh' : ∀ k, (c.turn (k + 1)).connect.Fresh (t.close h.pipe_fd h.pipe)) :
    (∀ n, (c.turn n).wait ≤ 0 → (c.turn n).header = [] →
        (process_session (n + 1) t h payload function_name c).isSome)
      ∧ ∀ fuel t' piped, process_session fuel t h payload function_name c = some (t', piped) →
        (Unblocked t t' h.pipe piped
          ↔ ¬ RelaysFirst payload function_name (c.turn 0) ∧ c.pipe_takes = true) := by
  refine ⟨fun n hwait hheader => ?_, ?_⟩
  · refine session_loop_returns n 0 _ ?_ ?_
    · rw [Nat.zero_add]
      exact hwait
    · rw [Nat.zero_add]
      exact hheader
  intro fuel t' piped hret
  cases fuel with
  | zero => cases hret
  | succ fuel =>
      have hids : h.client ≠ h.pipe := fun e => hne (ht.inj (e ▸ hclient) hpipe)
      have hrelays : Relays payload function_name true (c.turn 0)
          ↔ RelaysFirst payload function_name (c.turn 0) := by
        unfold Relays RelaysFirst
        simp
      -- one write, taken or not, and one `close`
      have hsettled : ∀ {fds : FdTable} {gone : List FileId} {ts_le : UInt64},
          FdTable.Scope gone t fds → fds.closes h.pipe = 1 → fds.sends h.pipe = 0 →
          ¬ RelaysFirst payload function_name (c.turn 0) →
          (Unblocked t fds h.pipe (if c.pipe_takes then [ts_le] else [])
            ↔ ¬ RelaysFirst payload function_name (c.turn 0) ∧ c.pipe_takes = true) := by
        intro fds gone ts_le hs hc hsends hno
        cases htakes : c.pipe_takes with
        | true => exact iff_of_true ⟨⟨_, rfl⟩, ⟨hc, hsends⟩, hs.faults⟩ ⟨hno, rfl⟩
        | false =>
            refine iff_of_false ?_ (by simp)
            rintro ⟨⟨ts, hts⟩, -, -⟩
            cases hts
      unfold process_session session_loop at hret
      rcases session_turn_spec (s := Session.start t) ht (FdTable.Scope.refl ht) hclient hep
          payload function_name c.pipe_takes (c.turn 0) hfresh with
        ⟨hno, s', hk, hturn⟩ | ⟨hr, fds', p, gone, hturn, hs, hgone⟩
      · have hno := fun hr => hno (hrelays.mpr hr)
        have hunsent : s'.pipe_sent = false := hk.pipe_sent
        have hnil : s'.piped = [] := hk.piped
        have hanswered : s'.answered h c.pipe_takes (c.turn 0).top2
            = s'.notify h c.pipe_takes (c.turn 0).top2 := if_neg (by simp [hunsent])
        obtain ⟨hs, hc, hsends⟩ := notify_spec (s := s') hk.scope ht hpipe (by simp)
          c.pipe_takes (c.turn 0).top2
        have hopen := hs.still_open hclient (by simpa using hids)
        rcases hturn with hturn | hturn | hturn
        · -- `done:` before any response
          rw [hturn] at hret
          have hclosed := hk.scope.close ht hclient (by simp)
          obtain ⟨hs, hc, hsends⟩ := notify_spec (s := s') hclosed ht hpipe
            (by simpa using hids.symm) c.pipe_takes c.now
          simp only [finish, hunsent, Session.notify, hnil, Option.some.injEq, Prod.mk.injEq,
            Bool.false_eq_true, if_false, List.nil_append] at hret
          obtain ⟨rfl, rfl⟩ := hret
          exact hsettled hs hc hsends hno
        · -- a first response that closes the connection
          rw [hturn, hanswered] at hret
          have hclosed := hs.close ht hclient (by simpa using hids)
          simp only [finish, Session.notify, hnil, Option.some.injEq, Prod.mk.injEq,
            if_true, List.nil_append] at hret
          obtain ⟨rfl, rfl⟩ := hret
          refine hsettled hclosed ?_ hsends hno
          exact (Function.update_of_ne hids.symm _ _).trans hc
        · -- a first response, and the session goes on without its pipe
          rw [hturn, hanswered] at hret
          have hfresh'' : ∀ k, (c.turn (k + 1)).connect.Fresh
              (s'.notify h c.pipe_takes (c.turn 0).top2).fds := by
            intro k fd hfd
            have hfree := hfresh' k fd hfd
            cases hf : (s'.notify h c.pipe_takes (c.turn 0).top2).fds.files fd with
            | none => rfl
            | some id =>
                obtain ⟨hold, hnot⟩ := (hs.files fd id).mp hf
                have hfd' : fd ≠ h.pipe_fd := by
                  intro e
                  rw [e, hpipe] at hold
                  exact hnot (by simp [Option.some.inj hold])
                rw [FdTable.close_files, Function.update_of_ne hfd', hold] at hfree
                cases hfree
          obtain ⟨hpiped, gone, hs', hgone⟩ := session_loop_settled hs.ok hopen
            (hs.epoll ▸ hep) hfresh'' fuel 0 _ (FdTable.Scope.refl hs.ok) rfl t' piped hret
          have hlt := Nat.lt_of_lt_of_le (ht.files_lt hpipe) hs.next_le
          obtain ⟨hc', hsends'⟩ := hs'.history h.pipe hlt fun hmem => hids (hgone _ hmem).symm
          have hpiped : piped = if c.pipe_takes then [(c.turn 0).top2] else [] := by
            rw [hpiped]
            show s'.piped ++ _ = _
            rw [hnil, List.nil_append]
          have hall : Unblocked t t' h.pipe piped ↔ Unblocked t
              (s'.notify h c.pipe_takes (c.turn 0).top2).fds h.pipe piped := by
            constructor
            · exact fun hu => ⟨hu.stamped, ⟨hc, hsends⟩, hs.faults⟩
            · exact fun hu => ⟨hu.stamped, ⟨hc'.trans hc, hsends'.trans hsends⟩,
                hs'.faults.trans hs.faults⟩
          rw [hall, hpiped]
          exact hsettled hs hc hsends hno
      · -- the relay branch returns past `done:`
        rw [hturn] at hret
        simp only [Option.some.injEq, Prod.mk.injEq] at hret
        obtain ⟨rfl, rfl⟩ := hret
        refine iff_of_false (fun hu => ?_) fun hboth => hboth.1 (hrelays.mp hr)
        have hopen := hs.still_open hpipe fun hmem => hids (hgone _ hmem).symm
        have hclosed := hu.closed.1
        rw [(hs.ok.open_fresh hopen).1] at hclosed
        cases hclosed

/-! ### A first request for another function -/

/-- A connection whose first request the gateway has stamped, or not. -/
def handedOver (top1_set : UInt8) : KaPayload :=
  { relayPayload 0 (ascii "a") with top1_set := top1_set }

/-- The client asks for `b`, and goes. -/
def firstForOther : SessionCalls where
  turn := fun k =>
    { wait := if k = 0 then 1 else 0
      top1 := 5, peeked := ascii "GET /function/b HTTP/1.1\r\n\r\n"
      connect := ⟨none, false⟩, sent := false, realloc_ok := fun _ => true
      header := if k = 0 then [ascii "GET /function/b HTTP/1.1\r\n\r\n"] else []
      body := [], top2 := 7, write_ok := true }
  now := 9
  pipe_takes := true

/-- The client's connection is open as 4, and the pipe as 5. -/
def handed : Handed := ⟨4, 0, 5, 1⟩

def handedTable : FdTable := (FdTable.single 4).opened 5

theorem handedTable_ok : handedTable.Ok := (FdTable.single_ok 4).opened rfl

theorem process_session_unblocks_iff_stamped :
    ∃ t' piped, process_session 2 handedTable handed (handedOver 1) (ascii "a") firstForOther
        = some (t', piped) ∧ Unblocked handedTable t' 1 piped := by
  obtain ⟨hreturns, hiff⟩ := process_session_unblocks_iff handedTable_ok (h := handed) rfl rfl
    (by decide) rfl (handedOver 1) (ascii "a") firstForOther (fun fd hfd => by cases hfd)
    (fun k fd hfd => by cases hfd)
  obtain ⟨⟨t', piped⟩, hret⟩ := Option.isSome_iff_exists.mp (hreturns 1 (by decide) rfl)
  exact ⟨t', piped, hret, (hiff 2 t' piped hret).mpr ⟨fun hr => absurd hr.1 (by decide), rfl⟩⟩

/-- Without the stamp the worker peeks, relays, and leaves the pipe open. -/
theorem process_session_leaves_pipe :
    ∃ t' piped, process_session 1 handedTable handed (handedOver 0) (ascii "a") firstForOther
        = some (t', piped) ∧ t'.closes 1 = 0 ∧ t'.files 5 = some 1 ∧ piped = []
      ∧ ¬ Unblocked handedTable t' 1 piped := by
  have hret : (process_session 1 handedTable handed (handedOver 0) (ascii "a")
      firstForOther).map (fun r => (r.1.closes 1, r.1.files 5, r.2)) = some (0, some 1, []) := by
    decide +kernel
  obtain ⟨⟨t', piped⟩, hret, hleft⟩ := Option.map_eq_some_iff.mp hret
  simp only [Prod.mk.injEq] at hleft
  refine ⟨t', piped, hret, hleft.1, hleft.2.1, hleft.2.2, fun hu => ?_⟩
  have hclosed := hu.closed.1
  rw [hleft.1] at hclosed
  cases hclosed

end TlsMigration.HttpKa.Blocking
