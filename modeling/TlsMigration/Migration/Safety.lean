/-
  TlsMigration.Migration.Safety
  ─────────────────────────────
  **SAFETY OF THE MIGRATION PROTOCOL.**

  What the invariant says to someone who looks at the parties from outside:
  `Safe`.  One party has the connection, under the keys and numbers that the
  client has; every request is read and answered by the worker of the
  function that it names; nothing is lost, and nothing happens twice.

    • `migration_safe` — every reachable state is safe, for every number of
                         functions, every sequence of requests and every
                         order of steps.
-/
import TlsMigration.Lib.Packing
import TlsMigration.Migration.Invariant

namespace TlsMigration.Migration

open TlsMigration.Tlspeek TlsMigration.Bench2 TlsMigration.Handoff TlsMigration.Http

variable {F β : Type*} {n : Nat} {env : Env F β n} {jobs : List Job}

/-! ## §1. What safety is. -/

/-- The party does nothing before more bytes of the client arrive. -/
def Holder.WaitsForClient : Holder F β n → Prop
  | .pending _ => True
  | .session _ s => s.running = false ∧ s.core.events = .read
  | _ => False

structure Safe (env : Env F β n) (jobs : List Job) (st : World F β n) : Prop where
  /-- one party has the descriptor, and nobody has closed it -/
  one_holder : ∃ x, st.holders = [x]
  /-- a worker's session is the one that the client has -/
  live : ∀ f s, .session f s ∈ st.holders → s.ssl = st.live env
  /-- a request is in the worker of its function -/
  owner : ∀ f s, .session f s ∈ st.holders → s.core.state ≠ .peek_owner →
    ∃ k j, jobs[k]? = some j ∧ k < st.sent ∧ j.owner = f ∧ Serving (env.cfg f) j.q s.core
  /-- responses are written once each, in the order of the requests, every byte by the
  worker of the function that the request names -/
  answered : st.out <+: transcript env jobs st.sent
  /-- the client can open all that is on the way to it … -/
  opened : st.broken = false
  /-- … and has got what was written before that -/
  delivered : st.got ++ (st.down.map Sealed.content).flatten = st.out.map Prod.snd
  /-- the records that have been taken out of the socket buffer are the first ones sent,
  once each -/
  records : ∃ taken, (jobs.take st.sent).flatMap Job.records = taken ++ (st.kernel ++ st.transit)
    ∧ taken.length = st.consumed
  /-- no request is left behind: who waits for the client has answered everything -/
  nothing_owed : ∀ x ∈ st.holders, x.WaitsForClient → st.kernel = [] → st.transit = [] →
    st.out = transcript env jobs st.sent

/-! ## §2. Records. -/

/-- Every record that has been sent is taken, in the socket buffer, or on the way to it. -/
def Counted (jobs : List Job) (st : World F β n) : Prop :=
  ∃ taken, (jobs.take st.sent).flatMap Job.records = taken ++ (st.kernel ++ st.transit)
    ∧ taken.length = st.consumed

theorem SessionOk.kernel_suffix {st : World F β n} {s : WSession F β}
    {c : Calls (TlspeekSerial β)} {w' : Wire} (h : SessionOk env st s c w') :
    w'.kernel <:+ st.kernel := by
  by_cases hread : s.core.Reading
  · have hreads := h.read hread
    generalize c.read = res at hreads
    cases hreads with
    | data hdata _ => exact hdata.kernel_suffix
    | empty _ _ _ => exact List.nil_suffix
    | bad _ _ _ => exact List.suffix_rfl
  · rw [h.unread hread]

theorem Counted.initial {st : World F β n} (h : st.Initial env) : Counted jobs st := by
  refine ⟨[], ?_, h.consumed.symm⟩
  rw [h.sent, h.kernel, h.transit]
  rfl

theorem Counted.step {st st' : World F β n} {e : Event} (h : Counted jobs st)
    (hstep : World.Step env jobs st e st') : Counted jobs st' := by
  obtain ⟨taken, hall, hlen⟩ := h
  cases hstep with
  | @send j hj _ =>
      refine ⟨taken, ?_, hlen⟩
      show (jobs.take (st.sent + 1)).flatMap Job.records
        = taken ++ (st.kernel ++ (st.transit ++ j.records))
      rw [List.take_add_one, hj, List.flatMap_append, hall]
      simp
  | @arrive r rs hr =>
      refine ⟨taken, ?_, hlen⟩
      show _ = taken ++ ((st.kernel ++ [r]) ++ rs)
      rw [hall, hr, List.append_assoc st.kernel]
      rfl
  | deliver _ _ =>
      split
      · exact ⟨taken, hall, hlen⟩
      · exact ⟨taken, hall, hlen⟩
  | iterate c w' fd _ _ hok =>
      obtain ⟨opened, hopened⟩ := hok.kernel_suffix
      refine ⟨taken ++ opened, ?_, ?_⟩
      · show (jobs.take st.sent).flatMap Job.records = (taken ++ opened) ++ (w'.kernel ++ st.transit)
        rw [hall, ← hopened]
        simp only [List.append_assoc]
      · show (taken ++ opened).length = st.consumed + (st.kernel.length - w'.kernel.length)
        rw [← hopened, List.length_append, List.length_append, hlen]
        omega
  | trickle _ _ _ => exact ⟨taken, hall, hlen⟩
  | client _ _ _ _ _ => exact ⟨taken, hall, hlen⟩
  | acceptHandoff _ _ _ => exact ⟨taken, hall, hlen⟩
  | handoff _ _ => exact ⟨taken, hall, hlen⟩
  | wake _ _ _ => exact ⟨taken, hall, hlen⟩
  | acceptRelay _ _ _ => exact ⟨taken, hall, hlen⟩
  | relay _ _ _ _ => exact ⟨taken, hall, hlen⟩

/-! ## §3. Responses. -/

variable {v : View} {k : Nat}

theorem transcript_prefix_succ (env : Env F β n) (jobs : List Job) (k : Nat) :
    transcript env jobs k <+: transcript env jobs (k + 1) :=
  List.prefix_append _ _

/-- What is out of a response is the start of it. -/
theorem AtWork.out_prefix {f : Bytes} {s : WSession F β} {j : Job}
    (h : AtWork env jobs v k f s j) : v.out <+: transcript env jobs (k + 1) := by
  rw [h.out]
  refine (List.prefix_append_right_inj _).mpr ?_
  unfold Session.partOut
  split
  next hst =>
    have hs := h.serving
    unfold Serving at hs
    rw [hst] at hs
    obtain ⟨-, -, hresp, -⟩ := hs
    rw [h.num, h.owner] at hresp
    rw [answer_eq h.job hresp, h.owner]
    exact (List.take_prefix _ _).map _
  next => exact List.nil_prefix

theorem Untouched.out_prefix (h : Untouched jobs v k) (hout : v.out = transcript env jobs k) :
    v.out <+: transcript env jobs v.sent := by
  rw [hout]
  rcases h with ⟨hsent, -⟩ | ⟨j, -, hsent, -⟩
  · rw [hsent]
  · rw [hsent]
    exact transcript_prefix_succ env jobs k

theorem InFlight.out_prefix {j : Job} {p : Payload (TlspeekSerial β)}
    (h : InFlight env jobs v k j p) : v.out <+: transcript env jobs v.sent := by
  rw [h.out, h.sent]
  exact transcript_prefix_succ env jobs k

theorem Stage.out_prefix {x : Holder F β n} (h : Stage env jobs v k x) :
    v.out <+: transcript env jobs v.sent := by
  cases h with
  | pending _ _ _ _ hout =>
      rw [hout]
      exact List.nil_prefix
  | toWorker hp _ => exact hp.out_prefix
  | handoff hp _ _ _ _ _ => exact hp.out_prefix
  | toRelay hp => exact hp.out_prefix
  | relay hp _ _ _ _ => exact hp.out_prefix
  | between h => exact h.untouched.out_prefix h.out
  | atWork h =>
      obtain ⟨_, _, -, -, -, hcase⟩ := h.unread
      rcases hcase with ⟨hsent, -⟩ | ⟨-, _, -, hsent, -⟩
      · rw [hsent]
        exact h.out_prefix
      · rw [hsent]
        exact h.out_prefix.trans (transcript_prefix_succ env jobs (k + 1))

/-- A session in the middle of a request has some of it before it. -/
theorem AtWork.ahead_ne_nil {f : Bytes} {s : WSession F β} {j : Job}
    (h : AtWork env jobs v k f s j) (hrun : s.running = false) (hev : s.core.events = .read) :
    v.ahead ≠ [] := by
  intro hnil
  have hst : s.core.state ≠ .write_response := by
    intro e
    have hevents := h.events
    rw [hev, if_pos e] at hevents
    cases hevents
  obtain ⟨hplain, hbody⟩ := h.waiting hrun hst
  obtain ⟨rem, next, hahead, -, hrem, -⟩ := h.unread
  rw [hnil] at hahead
  have hrem' : rem = [] := (List.append_eq_nil_iff.mp hahead.symm).1
  rw [hplain, hrem', contents_nil, List.nil_append] at hrem
  have hlen := congrArg List.length hrem
  rw [List.length_nil, List.length_drop, Request.bytes_length] at hlen
  have hs := h.serving
  unfold Serving at hs
  unfold Session.taken at hlen
  cases hstate : s.core.state with
  | peek_owner =>
      rw [hstate] at hs
      exact hs
  | read_headers =>
      rw [hstate] at hs hlen
      have hlt : s.core.buf.length < j.q.head.length := hs.1
      dsimp only at hlen
      omega
  | read_body =>
      rw [hstate] at hs hlen
      have hlt := hbody hstate
      have hhdr := hs.1.hdr_sz
      have htarget := hs.1.body_target
      dsimp only at hlen
      omega
  | write_response => exact hst hstate

theorem Untouched.all_answered (h : Untouched jobs v k) (hahead : v.ahead = [])
    (hout : v.out = transcript env jobs k) : v.out = transcript env jobs v.sent := by
  rcases h with ⟨hsent, -⟩ | ⟨j, -, -, hrecords⟩
  · rw [hsent]
    exact hout
  · -- a request has records
    have hspells := j.spells
    rw [← hrecords, hahead] at hspells
    have hlen := congrArg List.length hspells
    rw [contents_nil, Request.bytes_length, List.length_nil] at hlen
    have hpos := j.q.four_lt_head
    omega

theorem Stage.all_answered {x : Holder F β n} (h : Stage env jobs v k x)
    (hwaits : x.WaitsForClient) (hahead : v.ahead = []) : v.out = transcript env jobs v.sent := by
  cases h with
  | pending hk _ _ hun hout =>
      refine hun.all_answered hahead ?_
      rw [hout, hk]
      rfl
  | atWork h => exact absurd hahead (h.ahead_ne_nil hwaits.1 hwaits.2)
  | between h => exact h.untouched.all_answered hahead h.out
  | toWorker _ _ => exact hwaits.elim
  | handoff _ _ _ _ _ _ => exact hwaits.elim
  | toRelay _ => exact hwaits.elim
  | relay _ _ _ _ _ => exact hwaits.elim

/-- A session that has begun a request is in the worker of the function it names. -/
theorem Stage.owner {f : Bytes} {s : WSession F β} (h : Stage env jobs v k (.session f s))
    (hst : s.core.state ≠ .peek_owner) :
    ∃ k j, jobs[k]? = some j ∧ k < v.sent ∧ j.owner = f ∧ Serving (env.cfg f) j.q s.core := by
  cases h with
  | between h => exact absurd h.state hst
  | @atWork _ _ j h =>
      refine ⟨k, j, h.job, ?_, h.owner.symm, h.serving⟩
      obtain ⟨_, _, -, -, -, hcase⟩ := h.unread
      rcases hcase with ⟨hsent, -⟩ | ⟨-, _, -, hsent, -⟩
      · omega
      · omega

/-! ## §4. Every run. -/

theorem Inv.safe {st : World F β n} {x : Holder F β n} (h : Inv env jobs st k x)
    (hcount : Counted jobs st) : Safe env jobs st := by
  have hmem : ∀ {y}, y ∈ st.holders → y = x := by
    intro y hy
    rw [h.holders] at hy
    exact List.mem_singleton.mp hy
  refine ⟨⟨x, h.holders⟩, ?_, ?_, h.stage.out_prefix, h.client.ok, h.client.text, hcount, ?_⟩
  · intro f s hs
    have hstage := h.stage
    rw [← hmem hs] at hstage
    exact hstage.ssl_eq
  · intro f s hs hst
    have hstage := h.stage
    rw [← hmem hs] at hstage
    exact hstage.owner hst
  · intro y hy hwaits hkernel htransit
    have hstage := h.stage
    rw [← hmem hy] at hstage
    refine hstage.all_answered hwaits ?_
    show st.kernel ++ st.transit = []
    rw [hkernel, htransit]
    rfl

/-- **Safety of the migration protocol**: for every number of functions, every sequence of
requests and every order of steps, in every state reached one party has the connection, and
every request is answered once, in order, by the worker of the function that it names. -/
theorem migration_safe (env : Env F β n) (jobs : List Job) (hw : Workload env jobs)
    {st : World F β n} (h : (migration env jobs).Reachable st) : Safe env jobs st := by
  have hinv : (∃ k x, Inv env jobs st k x) ∧ Counted jobs st := by
    refine h.invariant (fun st => (∃ k x, Inv env jobs st k x) ∧ Counted jobs st) ?_ ?_
    · intro st hinit
      exact ⟨⟨0, Inv.initial hinit⟩, Counted.initial hinit⟩
    · intro st e st' ⟨⟨k, x, hinv⟩, hcount⟩ hstep
      exact ⟨hinv.step hw hstep, hcount.step hstep⟩
  obtain ⟨⟨k, x, hinv⟩, hcount⟩ := hinv
  exact hinv.safe hcount

/-! ## §5. A run with two functions. -/

section Acts

variable (env) (jobs) (st : World F β n)

/-- The calls of a step of the gateway: the handshake is over. -/
def gwCalls (conn : GwConn) : GwCalls β where
  accept := .success
  keys_ready := true
  ready := tls_record_ready (st.socket env)
  serial := some (export_live_serial env.wolf conn.ssl)
  peek serial := peekWith env.crypt conn.fd serial (st.socket env)

/-- The calls of an iteration that reads `d`, or writes all that is left. -/
def sessionCalls (s : WSession F β) (d : Bytes) : Calls (TlspeekSerial β) where
  realloc_ok := true
  read := .data d
  write := .wrote (s.core.resp.length - s.core.resp_off)
  epoll_mod_ok := true
  serial := some (export_live_serial env.wolf s.ssl)
  pending := s.plain.length
  ready := tls_record_ready (st.socket env)
  peek := peekWith env.crypt (s.core.fd.getD 0) s.core.serial (st.socket env)

/-- All the bytes that are asked for. -/
def recvAll (q : UnixStream) (want : Nat) : NbRecv :=
  .ret (.data (q.bytes.take want) false (rightsCmsg q.rights))

instance (s : Session F (TlspeekSerial β)) : Decidable s.Reading :=
  inferInstanceAs (Decidable (_ ∨ _ ∧ _))

instance (ssl : Live) : Decidable (Opens env st ssl) := inferInstanceAs (Decidable (_ ∧ _))

/-- A step of each kind, where it is possible: reads take a whole record, everything that is
offered is taken. -/
def World.act : Event → Option (World F β n)
  | .send =>
      match jobs[st.sent]? with
      | none => none
      | some j =>
          if (transcript env jobs st.sent).length ≤ st.got.length then
            some { st with sent := st.sent + 1, transit := st.transit ++ j.records }
          else none
  | .trickle => none
  | .arrive =>
      match st.transit with
      | [] => none
      | r :: rs => some { st with kernel := st.kernel ++ [r], transit := rs, part := 0 }
  | .deliver =>
      match st.down with
      | [] => none
      | x :: xs =>
          if st.broken = false then
            some (match x.opened env.secrets st.received.toUInt64 with
              | some d => { st with down := xs, received := st.received + 1, got := st.got ++ d }
              | none => { st with down := xs, broken := true })
          else none
  | .client =>
      match st.holders with
      | [.pending conn] => some { st with holders := clientEvent env conn (gwCalls env st conn) 7 }
      | _ => none
  | .acceptHandoff =>
      match st.holders with
      | [.toWorker f q] => some { st with holders := [.handoff f (.start 8) q] }
      | _ => none
  | .handoff =>
      match st.holders with
      | [.handoff f h q] =>
          if 0 < n - h.len ∧ n - h.len ≤ q.bytes.length then
            some { st with
              holders := handle_handoff_fd env f h (recvAll q (n - h.len))
                ⟨q.bytes.drop (n - h.len), []⟩ }
          else none
      | _ => none
  | .wake =>
      match st.holders with
      | [.session f s] =>
          if s.running = false ∧ (s.core.events = .read → st.kernel ≠ []) then
            some { st with holders := [.session f { s with running := true }] }
          else none
      | _ => none
  | .iterate =>
      match st.holders with
      | [.session f s] =>
          if s.running = false then none
          else if s.core.Reading then
            match st.kernel with
            | [] => none
            | r :: ks =>
                if s.plain = [] ∧ r.content ≠ [] ∧ r.content.length ≤ readWant s.core
                    ∧ Opens env st s.ssl then
                  some (st.turn env [] [] f s (sessionCalls env st s r.content) ⟨[], ks⟩ 7)
                else none
          else some (st.turn env [] [] f s (sessionCalls env st s []) ⟨s.plain, st.kernel⟩ 7)
      | _ => none
  | .acceptRelay =>
      match st.holders with
      | [.toRelay q] => some { st with holders := [.relay (.start 9 (Area.zero n)) q] }
      | _ => none
  | .relay =>
      match st.holders with
      | [.relay r q] =>
          if 0 < n - r.off ∧ n - r.off ≤ q.bytes.length then
            some { st with
              holders := relayEvent env r (recvAll q (n - r.off))
                ⟨q.bytes.drop (n - r.off), []⟩ 7 }
          else none
      | _ => none

variable {env jobs st}

theorem recvAll_receives {q : UnixStream} {want : Nat} (hpos : 0 < want)
    (hle : want ≤ q.bytes.length) :
    Receives q want (recvAll q want) ⟨q.bytes.drop want, []⟩ :=
  .data want hpos (Nat.le_refl _) hle

theorem sessionCalls_ok {s : WSession F β} {d : Bytes} {w' : Wire}
    (hread : s.core.Reading → TlsReads env st s (readWant s.core) (.data d) w')
    (hunread : ¬ s.core.Reading → w' = ⟨s.plain, st.kernel⟩) :
    SessionOk env st s (sessionCalls env st s d) w' where
  realloc := rfl
  epoll := rfl
  serial := rfl
  pending := rfl
  ready := rfl
  peek := by
    intro fd hfd
    show peekWith env.crypt (s.core.fd.getD 0) _ _ = _
    rw [hfd]
    rfl
  read := hread
  unread := hunread
  write := by
    intro _ hmore
    exact Or.inl ⟨_, rfl, by omega, Nat.le_refl _⟩

/-- The only holder may change alone. -/
theorem step_holders {e : Event} {hs : List (Holder F β n)}
    (h : World.Step env jobs st e { st with holders := [] ++ hs ++ [] }) :
    World.Step env jobs st e { st with holders := hs } := by
  rwa [List.nil_append, List.append_nil] at h

theorem World.act_step {e : Event} {st' : World F β n} (h : st.act env jobs e = some st') :
    World.Step env jobs st e st' := by
  unfold World.act at h
  cases e with
  | trickle => cases h
  | send =>
      dsimp only at h
      split at h
      · cases h
      next j hj =>
        split at h
        next hroom =>
          cases h
          exact .send hj hroom
        · cases h
  | arrive =>
      dsimp only at h
      split at h
      · cases h
      next r rs hr =>
        cases h
        exact .arrive hr
  | deliver =>
      dsimp only at h
      split at h
      · cases h
      next x xs hx =>
        split at h
        next hok =>
          cases h
          exact .deliver hx hok
        · cases h
  | client =>
      dsimp only at h
      split at h
      next conn hconn =>
        cases h
        have hconn : st.holders = [] ++ .pending conn :: [] := hconn
        exact step_holders (.client (gwCalls env st conn) 7 hconn
          ⟨nofun, fun _ => rfl, rfl, rfl, fun _ => rfl⟩ (by decide))
      · cases h
  | acceptHandoff =>
      dsimp only at h
      split at h
      next f q hq =>
        cases h
        have hq : st.holders = [] ++ .toWorker f q :: [] := hq
        exact .acceptHandoff 8 hq (by decide)
      · cases h
  | handoff =>
      dsimp only at h
      split at h
      next f c q hc =>
        split at h
        next hlen =>
          cases h
          have hc : st.holders = [] ++ .handoff f c q :: [] := hc
          exact step_holders (.handoff hc (recvAll_receives hlen.1 hlen.2))
        · cases h
      · cases h
  | wake =>
      dsimp only at h
      split at h
      next f s hs =>
        split at h
        next hready =>
          cases h
          have hs : st.holders = [] ++ .session f s :: [] := hs
          exact .wake hs hready.1 (fun hev => Or.inl (hready.2 hev))
        · cases h
      · cases h
  | iterate =>
      dsimp only at h
      split at h
      next f s hs =>
        split at h
        · cases h
        next hrun =>
          have hrun : s.running = true := by simpa using hrun
          have hs : st.holders = [] ++ .session f s :: [] := hs
          split at h
          next hread =>
            split at h
            · cases h
            next r ks hk =>
              split at h
              next hok =>
                cases h
                obtain ⟨hplain, hne, hle, hopens⟩ := hok
                refine .iterate _ _ 7 hs hrun
                  (sessionCalls_ok (fun _ => .data ?_ (fun _ => hopens)) (absurd hread))
                rw [hplain, hk]
                have htake : Wire.Data ⟨r.content ++ [], ks⟩ (readWant s.core) r.content ⟨[], ks⟩ :=
                  .take hne hle
                rw [List.append_nil] at htake
                exact .next htake
              · cases h
          next hread =>
            cases h
            exact .iterate _ _ 7 hs hrun
              (sessionCalls_ok (fun hr => absurd hr hread) (fun _ => rfl))
      · cases h
  | acceptRelay =>
      dsimp only at h
      split at h
      next q hq =>
        cases h
        have hq : st.holders = [] ++ .toRelay q :: [] := hq
        exact .acceptRelay 9 (Area.zero n) hq
      · cases h
  | relay =>
      dsimp only at h
      split at h
      next r q hr =>
        split at h
        next hlen =>
          cases h
          have hr : st.holders = [] ++ .relay r q :: [] := hr
          exact step_holders (.relay 7 hr (recvAll_receives hlen.1 hlen.2) (by decide))
        · cases h
      · cases h

/-- One step after the other. -/
def World.acts (env : Env F β n) (jobs : List Job) : List Event → World F β n → Option (World F β n)
  | [], st => some st
  | e :: es, st => (st.act env jobs e).bind (World.acts env jobs es)

theorem reachable_acts {st' : World F β n} (es : List Event)
    (h : (migration env jobs).Reachable st) (hacts : World.acts env jobs es st = some st') :
    (migration env jobs).Reachable st' := by
  induction es generalizing st with
  | nil =>
      cases hacts
      exact h
  | cons e es ih =>
      obtain ⟨st₁, hact, hrest⟩ := Option.bind_eq_some_iff.mp hacts
      exact ih (.step h (World.act_step hact)) hrest

end Acts

def secretsPacking : Packing Secrets ((32 + 12) + (32 + 12)) :=
  ((Packing.area.pair Packing.area).pair (Packing.area.pair Packing.area)).map
    (fun s : Secrets =>
      ((s.client_write_key, s.client_write_iv), (s.server_write_key, s.server_write_iv)))
    (fun x => ⟨x.1.1, x.1.2, x.2.1, x.2.2⟩) (fun _ => rfl)

def livePacking : Packing Live (88 + (8 + 8)) :=
  (secretsPacking.pair (Packing.u64.pair Packing.u64)).map
    (fun ssl : Live => (ssl.secrets, (ssl.read_seq, ssl.write_seq)))
    (fun x => ⟨x.1, x.2.1, x.2.2⟩) (fun _ => rfl)

def serialPacking : Packing (TlspeekSerial Live) ((4 + 4) + ((32 + 12) + (8 + (104 + 1)))) :=
  ((Packing.u32.pair Packing.u32).pair
    ((Packing.area.pair Packing.area).pair (Packing.u64.pair livePacking.option))).map
    (fun t : TlspeekSerial Live => ((t.magic, t.cipher_suite),
      ((t.client_write_key, t.client_write_iv), (t.read_seq_num, t.tls_blob))))
    (fun x => ⟨x.1.1, x.1.2, x.2.1.1, x.2.1.2, x.2.2.1, x.2.2.2⟩) (fun _ => rfl)

/-- Two workers, `a` and `b`, under one directory. -/
def twoWorkers : Env Unit Live 301 where
  libm := (Config.point []).libm
  pad_bytes _ := 0
  layout := .packed serialPacking.enc serialPacking.dec serialPacking.dec_enc
  crypt := plainCrypt
  wolf := plainSession
  secrets := zeroSecrets
  socketDir := ascii "/r"
  bound path :=
    [ascii "a", ascii "b"].find? fun f => decide (path = sunPath (sockPath (ascii "/r") f))
  maxPeek := 4096
  maxPeek_pos := by decide

theorem isLine_callA :
    ∀ l ∈ [ascii "G /function/a "], IsLine l ∧ l ≠ [] := by decide +kernel

theorem declares_callA : DeclaresLength [ascii "G /function/a "] ([] : Bytes).length :=
  Or.inr ⟨rfl, by decide +kernel⟩

def callA : Request where
  line := ascii "G /function/a "
  headers := []
  body := []
  isLine := isLine_callA
  declares := declares_callA

def callB : Request where
  line := ascii "G /function/b "
  headers := []
  body := []
  isLine := by decide +kernel
  declares := Or.inr ⟨rfl, by decide +kernel⟩

/-- A request in one record. -/
def Job.whole (q : Request) (owner : Bytes) (h : (⟨q.bytes, 0⟩ : Record).Fits) : Job where
  q := q
  owner := owner
  records := [⟨q.bytes, 0⟩]
  spells := by simp
  fits := by simpa using h
  ends := by
    intro r hr
    obtain rfl : (⟨q.bytes, 0⟩ : Record) = r := Option.some.inj hr
    intro hnil
    have hlen := congrArg List.length hnil
    rw [Request.bytes_length, List.length_nil] at hlen
    have hpos := q.four_lt_head
    omega

def jobA : Job := .whole callA (ascii "a") (by unfold Record.Fits; decide +kernel)
def jobB : Job := .whole callB (ascii "b") (by unfold Record.Fits; decide +kernel)

def twoCalls : List Job := [jobA, jobB]

theorem getElem?_pair {α : Type*} {a b x : α} {k : Nat} (h : [a, b][k]? = some x) :
    (k = 0 ∧ x = a) ∨ (k = 1 ∧ x = b) := by
  match k with
  | 0 => exact Or.inl ⟨rfl, (Option.some.inj h).symm⟩
  | 1 => exact Or.inr ⟨rfl, (Option.some.inj h).symm⟩
  | k + 2 => cases h

theorem callA_servable : Servable callA :=
  ⟨by unfold Request.KeepAlive; decide +kernel, by decide +kernel⟩

theorem callB_servable : Servable callB :=
  ⟨by unfold Request.KeepAlive; decide +kernel, by decide +kernel⟩

theorem twoCalls_workload : Workload twoWorkers twoCalls where
  servable := by
    intro j hj
    rcases List.mem_pair.mp hj with rfl | rfl
    · exact callA_servable
    · exact callB_servable
  unhinted := by
    intro j hj
    rcases List.mem_pair.mp hj with rfl | rfl
    · show callA.Unhinted
      unfold Request.Unhinted
      decide +kernel
    · show callB.Unhinted
      unfold Request.Unhinted
      decide +kernel
  name_fits := by decide +kernel
  name_nul := by decide +kernel
  exist := by decide +kernel
  shows := by
    intro k j hj r hr
    refine (parse_request_owner_iff.mp (?_ : parse_request_owner _ 128 = some j.owner)).1
    rcases getElem?_pair hj with ⟨rfl, rfl⟩ | ⟨rfl, rfl⟩
    · obtain rfl : (⟨callA.bytes, 0⟩ : Record) = r := Option.some.inj hr
      decide +kernel
    · obtain rfl : (⟨callB.bytes, 0⟩ : Record) = r := Option.some.inj hr
      decide +kernel
  fits := by
    intro k j hj
    rcases getElem?_pair hj with ⟨rfl, rfl⟩ | ⟨rfl, rfl⟩
    · decide +kernel
    · decide +kernel

/-- The gateway has accepted the client. -/
def atGateway : World Unit Live 301 where
  holders := [.pending ⟨7, ⟨zeroSecrets, 0, 0⟩, .handshake, 1⟩]
  sent := 0
  transit := []
  part := 0
  kernel := []
  consumed := 0
  out := []
  down := []
  received := 0
  got := []
  broken := false

theorem atGateway_initial : World.Initial twoWorkers atGateway where
  holders := ⟨7, rfl⟩
  sent := rfl
  transit := rfl
  part := rfl
  kernel := rfl
  consumed := rfl
  out := rfl
  down := rfl
  received := rfl
  got := rfl
  broken := rfl

/-- From the message to the worker to the response at the client. -/
def servedActs : List Event :=
  [.acceptHandoff, .handoff, .wake, .iterate, .wake, .iterate, .deliver]

/-- A call of `a`, and then one of `b`: the worker of `a` sends the connection back. -/
def relayedActs : List Event :=
  [.send, .arrive, .client] ++ servedActs
    ++ [.iterate, .send, .arrive, .wake, .iterate, .acceptRelay, .relay] ++ servedActs

/-- The client has both responses. -/
theorem migration_safe_relayed :
    ∃ st, World.acts twoWorkers twoCalls relayedActs atGateway = some st
      ∧ Safe twoWorkers twoCalls st
      ∧ st.got = (transcript twoWorkers twoCalls 2).map Prod.snd := by
  have hruns : (World.acts twoWorkers twoCalls relayedActs atGateway).isSome := by decide +kernel
  have hgot : (World.acts twoWorkers twoCalls relayedActs atGateway).map World.got
      = some ((transcript twoWorkers twoCalls 2).map Prod.snd) := by decide +kernel
  obtain ⟨st, hst⟩ := Option.isSome_iff_exists.mp hruns
  rw [hst] at hgot
  exact ⟨st, hst, migration_safe twoWorkers twoCalls twoCalls_workload
    (reachable_acts relayedActs (.init atGateway_initial) hst), Option.some.inj hgot⟩

end TlsMigration.Migration
