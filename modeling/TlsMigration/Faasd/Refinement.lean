/-
  TlsMigration.Faasd.Refinement
  ─────────────────────────────
  **THE FAASD PROTOTYPE ANSWERS LIKE ONE SERVER.**

  The system of TlsMigration.Faasd.System is simulated by a sequential server
  that answers each request of the client once.  What carries the simulation
  through the migrations is that the exported session and the live one are in
  step with the client, wherever the descriptor is: so a peek shows the next
  record, and the client opens what is written.

    • `acceptClient_cases`    — the session the gateway exports is in step;
    • `peek_owner`            — the owner that a peek finds is the right one;
    • `prototype_simulates`   — the simulation;
    • `prototype_refines`     — what the client sees, in closed form.
-/
import TlsMigration.Faasd.System
import TlsMigration.Lib.Simulation
import TlsMigration.Migration.Safety

namespace TlsMigration.Faasd

open TlsMigration.Http TlsMigration.Handoff TlsMigration.Tlspeek TlsMigration.Migration
open TlsMigration.TransitionSystem
open TlsMigration.Libtlspeek (sessionSerial)
open TlsMigration.Bench2 (Payload Layout TlsRead TlsWrite Wire contents targetOf contents_nil
  contents_cons contents_append names_content_of_peeked)

variable {β : Type*} {n : Nat} {env : Env β n} {jobs : List Job}

/-! ## §1. Sessions in step. -/

/-- A struct of this deployment, for an AES-256-GCM connection. -/
structure Known (payload : Payload (TlspeekSerial β)) : Prop where
  magic : payload.magic = TLSMIGRATE_KEEPALIVE_MAGIC
  version : payload.version = TLSMIGRATE_KEEPALIVE_VERSION
  suite : payload.serial.cipher_suite = Suite.code .AES_256_GCM

/-- The struct holds the session `live`, exported. -/
structure InStep (env : Env β n) (live : Live) (payload : Payload (TlspeekSerial β)) : Prop where
  magic : payload.magic = TLSMIGRATE_KEEPALIVE_MAGIC
  version : payload.version = TLSMIGRATE_KEEPALIVE_VERSION
  serial : payload.serial = Migration.export_live_serial env.wolf live

variable {live : Live} {payload : Payload (TlspeekSerial β)}

theorem InStep.known (h : InStep env live payload) : Known payload := by
  refine ⟨h.magic, h.version, ?_⟩
  rw [h.serial, export_live_serial_eq]

/-- The name in it does not matter. -/
theorem InStep.target (h : InStep env live payload) (target : Area Bench2.BENCH2_KA_TARGET_LEN) :
    InStep env live { payload with target_function := target } := ⟨h.magic, h.version, h.serial⟩

/-- **The worker's own export** is in step, too. -/
theorem export_in_step (h : Known payload) (ssl : Live) {serial : TlspeekSerial β}
    {c : ExportCalls β}
    (hblob : c.tls_export = none ∨ c.tls_export = some (env.wolf.tls_export ssl))
    (hkey : c.client_write_key = some ssl.secrets.client_write_key.bytes)
    (hiv : c.client_write_iv = some ssl.secrets.client_write_iv.bytes)
    (hseq : c.peer_sequence_number = some ssl.read_seq)
    (hexport : export_live_serial payload.serial c = some serial) :
    InStep env ssl { payload with serial := serial } := by
  refine ⟨h.magic, h.version, ?_⟩
  have hfull : ∀ {k : Nat} (a : Area k), Area.ofBytes k a.bytes = a := by
    intro k a
    refine Area.ext ?_
    show a.bytes.take k ++ List.replicate (k - a.bytes.length) 0 = a.bytes
    rw [a.length_eq, Nat.sub_self, List.take_of_length_le (Nat.le_of_eq a.length_eq)]
    exact List.append_nil _
  unfold export_live_serial at hexport
  rw [hkey, hiv, hseq] at hexport
  rcases hblob with hblob | hblob
  · rw [hblob] at hexport
    cases hexport
  · rw [hblob] at hexport
    dsimp only at hexport
    split at hexport
    next => cases hexport
    next =>
      rw [← Option.some.inj hexport, export_live_serial_eq, hfull, hfull]
      dsimp only
      rw [h.suite]

/-- What the callbacks do not touch. -/
theorem keylog_read_seq (calls : List KeylogCall) :
    (runCallbacks calls).read_seq_num = 0 := by
  have hstep : ∀ (ctx : TlspeekCtx) (c : KeylogCall),
      (tlspeek_keylog_cb ctx c).read_seq_num = ctx.read_seq_num := by
    intro ctx c
    unfold tlspeek_keylog_cb
    split
    next => rfl
    next =>
      split
      next => rfl
      next =>
        dsimp only
        split
        next => rfl
        next => split <;> rfl
  unfold runCallbacks
  induction calls using List.reverseRecOn with
  | nil => rfl
  | append_singleton calls c ih =>
      rw [List.foldl_append, List.foldl_cons, List.foldl_nil, hstep, ih]

/-- **The session that the gateway puts together** is the one wolfSSL would export. -/
theorem sessionSerial_eq (env : Env β n) (fd : Fd) :
    sessionSerial (set_cipher_suite_from_name { runCallbacks env.keylog with tcp_fd := fd }
        (some env.wolf.cipher_name)) (env.wolf.tls_export ⟨env.secrets, 0, 0⟩)
      = Migration.export_live_serial env.wolf ⟨env.secrets, 0, 0⟩ := by
  have hsplit : ∀ c ∈ env.before, c.id ≠ .CLIENT_TRAFFIC_SECRET :=
    fun c hc => env.others c (List.mem_append_left _ hc)
  have hsplit' : ∀ c ∈ env.after, c.id ≠ .CLIENT_TRAFFIC_SECRET :=
    fun c hc => env.others c (List.mem_append_right _ hc)
  obtain ⟨hkey, hiv, -⟩ := peekContext_fields env.hkdf .AES_256_GCM env.secret_length hsplit
    hsplit' env.wolf.cipher_name 0
  obtain ⟨hk, hi, -⟩ := set_cipher_keeps (runCallbacks env.keylog) env.wolf.cipher_name
  have hkey' : (runCallbacks env.keylog).client_write_key = env.secrets.client_write_key := by
    rw [← hk, env.client_key]
    refine Area.ext (hkey.trans ?_)
    exact List.append_nil _
  have hiv' : (runCallbacks env.keylog).client_write_iv = env.secrets.client_write_iv := by
    rw [← hi, env.client_iv]
    exact hiv
  rw [export_live_serial_eq]
  unfold sessionSerial set_cipher_suite_from_name set_cipher_from_name
  dsimp only
  rw [env.wolf.not_chacha, env.wolf.not_aes128]
  simp only [Bool.false_eq_true, if_false]
  rw [hkey', hiv', keylog_read_seq]

/-! ## §2. From party to party. -/

theorem dispatchToFunction_cases (env : Env β n) (fnName : Bytes)
    (payload : Payload (TlspeekSerial β)) (connect_ok : Bool) :
    dispatchToFunction env fnName payload connect_ok = .closed
      ∨ ∃ f, dispatchToFunction env fnName payload connect_ok = .dispatch f payload := by
  unfold dispatchToFunction
  split
  next f _ =>
    cases connect_ok with
    | true => exact Or.inr ⟨f, rfl⟩
    | false => exact Or.inl rfl
  next => exact Or.inl rfl

/-- **What the gateway sends away** is in step, whatever it has seen and wherever it sends it. -/
theorem acceptClient_cases (env : Env β n) (socket : Bytes) (c : AcceptCalls) :
    acceptClient env socket c = .closed
      ∨ ∃ f payload, acceptClient env socket c = .dispatch f payload
        ∧ InStep env ⟨env.secrets, 0, 0⟩ payload := by
  unfold acceptClient
  split
  next => exact Or.inl rfl
  next held payload headers hpeek =>
    have hstep : InStep env ⟨env.secrets, 0, 0⟩ payload := by
      unfold tlsmigratekeepalive_accept_peek_export AcceptCalls.on at hpeek
      dsimp only at hpeek
      split at hpeek
      next => cases hpeek
      next =>
      split at hpeek
      next => cases hpeek
      next =>
      split at hpeek
      next => cases hpeek
      next =>
      split at hpeek
      next => cases hpeek
      next =>
      split at hpeek
      next => cases hpeek
      next => cases hpeek
      next =>
      split at hpeek
      next => cases hpeek
      next blob hblob =>
      have hpayload := congrArg (fun x : Held × Payload (TlspeekSerial β) × Bytes => x.2.1)
        (Option.some.inj hpeek)
      have hblob : env.wolf.tls_export ⟨env.secrets, 0, 0⟩ = blob := by
        split at hblob
        next => exact Option.some.inj hblob
        next => cases hblob
      dsimp only at hpayload
      rw [← hpayload, ← hblob]
      exact ⟨rfl, rfl, sessionSerial_eq env c.fd⟩
    split
    next => exact Or.inl rfl
    next fnName _ =>
      rcases dispatchToFunction_cases env fnName
        (Tlsmigratekeepalive.setPayloadTarget payload fnName) c.connect_ok with hc | ⟨f, hd⟩
      · exact Or.inl hc
      · exact Or.inr ⟨f, _, hd, hstep.target _⟩

/-- **A message comes as it was sent**, whatever was in the struct before. -/
theorem recvfd_message (payload : Payload (TlspeekSerial β)) (fd : Fd) (buf : Area n) :
    recvfd_with_state buf
        (.data (message env payload fd).bytes false (rightsCmsg (message env payload fd).rights))
      = (0, some fd, env.layout.bytes payload) := by
  have hlen : (env.layout.bytes payload).bytes.length = n := (env.layout.bytes payload).length_eq
  have hbytes : (message env payload fd).bytes = (env.layout.bytes payload).bytes :=
    List.take_of_length_le (Nat.le_of_eq hlen)
  have hne : (env.layout.bytes payload).bytes ≠ [] := by
    intro hnil
    have hpos := env.layout.size_pos payload
    rw [hnil] at hlen
    exact absurd hlen (Nat.ne_of_lt hpos)
  have hrights : rightsCmsg (message env payload fd).rights = some ⟨true, [fd]⟩ := rfl
  have hfull : buf.write (env.layout.bytes payload).bytes = env.layout.bytes payload :=
    Area.ext (Area.write_full hlen)
  rw [hbytes, hrights, recvfd_with_state_data hne, hfull]

theorem acceptRelay_cases (payload : Payload (TlspeekSerial β)) (fd : Fd) (c : RelayCalls)
    (payload_out : Area n) :
    acceptRelay env (message env payload fd) c payload_out = .closed
      ∨ ∃ f, acceptRelay env (message env payload fd) c payload_out = .dispatch f payload := by
  unfold acceptRelay
  cases c.recv_ok with
  | false => exact Or.inl rfl
  | true =>
      simp only [if_true]
      rw [recvfd_message]
      dsimp only
      rw [env.layout.read_bytes]
      split
      next => exact Or.inl rfl
      next =>
        split
        next => exact Or.inl rfl
        next => exact dispatchToFunction_cases env _ payload c.connect_ok

/-- **A worker restores the session that was sent.** -/
theorem acceptHandoff_cases (h : InStep env live payload) (f : Bytes) (fd : Fd)
    (c : ReceiveCalls) :
    acceptHandoff env f (message env payload fd) c = .closed
      ∨ acceptHandoff env f (message env payload fd) c
        = .session f ⟨⟨fd, payload, .peek⟩, live, []⟩ := by
  unfold acceptHandoff
  cases c.recv_ok with
  | false => exact Or.inl rfl
  | true =>
      simp only [if_true]
      rw [recvfd_message]
      dsimp only
      rw [env.layout.read_bytes, h.magic, h.version]
      simp only [ne_eq, not_true_eq_false, or_self, if_false]
      unfold process_session_start
      split
      next => exact Or.inl rfl
      next =>
        rw [h.serial, tlspeek_restore_export]
        exact Or.inr rfl

/-! ## §3. Peeks and reads. -/

/-- A part of a record is a failed peek. -/
theorem peek_part (W : WolfCrypt) (sec : Secrets) (seq : Nat) {r : Record} (hfit : r.Fits)
    (rs : List Record) {m : Nat} (hm : m < TLSPEEK_HEADER_SIZE + r.wireLen) (ctx : TlspeekCtx)
    (size : Nat) : tls_read_peek W ctx ((sec.wire W seq (r :: rs)).take m) size = none := by
  rcases Nat.eq_zero_or_pos m with rfl | hpos
  · rw [List.take_zero]
    unfold tls_read_peek
    split
    next => rfl
    next => rfl
  · have hlong : TLSPEEK_HEADER_SIZE + r.wireLen ≤ (sec.wire W seq (r :: rs)).length := by
      unfold Secrets.wire sealRecords
      rw [List.length_append, length_sealRecord]
      omega
    have hne : (sec.wire W seq (r :: rs)).take m ≠ []
        ∧ (sec.wire W seq (r :: rs)).drop m ≠ [] := by
      refine ⟨fun h => ?_, fun h => ?_⟩
      · have := congrArg List.length h
        rw [List.length_take, List.length_nil] at this
        omega
      · have := congrArg List.length h
        rw [List.length_drop, List.length_nil] at this
        omega
    -- the part that is there, and the rest in a segment of its own
    let a : Arrival :=
      { record := r
        fits := hfit
        segments := [(sec.wire W seq (r :: rs)).take m, (sec.wire W seq (r :: rs)).drop m]
        filled := by
          intro s hs
          rcases List.mem_pair.mp hs with rfl | rfl
          · exact hne.1
          · exact hne.2
        carried := ⟨W.aesGcm, sec.client_write_key.bytes, sec.client_write_iv.bytes, seq.toUInt64,
          sec.wire W (seq + 1) rs, by simp [Secrets.wire, sealRecords]⟩
        early := 1 }
    have hshown : a.shown = (sec.wire W seq (r :: rs)).take m := by
      show ([(sec.wire W seq (r :: rs)).take m, _].take 1).flatten = _
      simp
    have hpart : ¬ a.Whole := by
      unfold Arrival.Whole
      rw [hshown, List.length_take]
      show ¬ TLSPEEK_HEADER_SIZE + r.wireLen ≤ _
      omega
    rw [← hshown]
    exact tls_read_peek_part W ctx hpart size

/-- Less than a record of what is on the way has arrived. -/
structure World.PartOk (w : World β) : Prop where
  lt : ∀ r rs, w.transit = r :: rs → w.part < TLSPEEK_HEADER_SIZE + r.wireLen
  zero : w.transit = [] → w.part = 0

variable {w w' : World β} {a : Server (Bytes × UInt8)}

/-- **The owner that a peek finds** is named by the first record of the socket buffer. -/
theorem peek_owner (hfits : ∀ r ∈ w.kernel ++ w.transit, r.Fits) (hpart : w.PartOk)
    (hstate : InStep env (w.live env) payload) {fd : Fd} {recv_ok : Bool} {owner : Bytes}
    (h : peek_owner_from_kernel fd payload.serial
      (fun ctx => if recv_ok then tls_read_peek env.crypt ctx (w.socket env) 8192 else none)
        = some owner) :
    ∃ r ks, w.kernel = r :: ks ∧ NamesFunction (requestLine r.content) owner := by
  unfold peek_owner_from_kernel at h
  obtain ⟨ctx, hctx, h⟩ := Option.bind_eq_some_iff.mp h
  cases recv_ok with
  | false => cases h
  | true =>
      simp only [if_true] at h
      split at h
      next => cases h
      next => cases h
      next buf _ hbuf =>
        rw [parse_request_owner_eq] at h
        have hnames := (parse_request_owner_iff.mp h).1
        cases hk : w.kernel with
        | nil =>
            -- there is no whole record, and the peek fails
            have hnone : tls_read_peek env.crypt ctx (w.socket env) 8192 = none := by
              unfold World.socket
              rw [hk]
              cases ht : w.transit with
              | nil =>
                  have hempty : ([] ++ ([] : Bytes).take w.part) = [] := by simp
                  show tls_read_peek env.crypt ctx ([] ++ ([] : Bytes).take w.part) 8192 = none
                  rw [hempty]
                  unfold tls_read_peek
                  split <;> rfl
              | cons r rs =>
                  have hfit : r.Fits := hfits r (by rw [hk, ht]; simp)
                  exact peek_part env.crypt env.secrets _ hfit rs (hpart.lt r rs ht) ctx 8192
            rw [hnone] at hbuf
            cases hbuf
        | cons r ks =>
            have hfit : r.Fits := hfits r (by rw [hk]; simp)
            have hpeek : peekWith env.crypt fd (Migration.export_live_serial env.wolf (w.live env))
                (w.socket env) 8192 = some buf := by
              unfold peekWith
              rw [← hstate.serial, hctx]
              exact hbuf
            have hfirst : peekWith env.crypt fd (Migration.export_live_serial env.wolf (w.live env))
                (w.socket env) 8192 = some (r.peeked.take 8192) := by
              unfold World.socket
              rw [hk]
              exact peekWith_export env.wolf env.crypt env.secrets w.consumed hfit ks _ fd
                (by decide) rfl rfl
            rw [hfirst] at hpeek
            rw [← Option.some.inj hpeek] at hnames
            exact ⟨r, ks, rfl, names_content_of_peeked hnames⟩

/-- What a read gives out. -/
def given : TlsRead → Bytes
  | .data d => d
  | .none _ => []

theorem openNext_spec (ks : List Record) :
    contents ks = (openNext ks).1 ++ contents (openNext ks).2 ∧ (openNext ks).2 <:+ ks := by
  induction ks with
  | nil => exact ⟨rfl, List.suffix_rfl⟩
  | cons r ks ih =>
      obtain ⟨hsame, hsuf⟩ := ih
      unfold openNext
      split
      next hempty =>
        rw [contents_cons, hempty, List.nil_append]
        exact ⟨hsame, hsuf.trans (List.suffix_cons r ks)⟩
      next => exact ⟨contents_cons r ks, List.suffix_cons r ks⟩

theorem readable_spec (w : Wire) :
    w.ahead = (readable w).ahead ∧ (readable w).kernel <:+ w.kernel := by
  obtain ⟨hsame, hsuf⟩ := openNext_spec w.kernel
  unfold readable
  split
  next hempty =>
    refine ⟨?_, hsuf⟩
    show w.plain ++ contents w.kernel = _
    rw [hempty, List.nil_append]
    exact hsame
  next => exact ⟨rfl, List.suffix_rfl⟩

/-- **A read takes what comes next**, and records from the front. -/
theorem tlsRead_spec {opens : Bool} {wire wire' : Wire} {want : Nat} {o : Outcome} {r : TlsRead}
    (h : tlsRead opens wire want o = some (r, wire')) :
    wire.ahead = given r ++ wire'.ahead ∧ wire'.kernel <:+ wire.kernel := by
  obtain ⟨hsame, hsuf⟩ := readable_spec wire
  unfold tlsRead at h
  split at h
  next =>
    simp only [Option.some.injEq, Prod.mk.injEq] at h
    obtain ⟨rfl, rfl⟩ := h
    exact ⟨rfl, List.suffix_rfl⟩
  next =>
    split at h
    next =>
      simp only [Option.some.injEq, Prod.mk.injEq] at h
      obtain ⟨rfl, rfl⟩ := h
      exact ⟨hsame, hsuf⟩
    next => cases h
  next k =>
    split at h
    next =>
      simp only [Option.some.injEq, Prod.mk.injEq] at h
      obtain ⟨rfl, rfl⟩ := h
      refine ⟨hsame.trans ?_, hsuf⟩
      show (readable wire).plain ++ _ = (readable wire).plain.take k
        ++ ((readable wire).plain.drop k ++ _)
      rw [← List.append_assoc, List.take_append_drop]
    next => cases h

/-- A write takes no more than is left, and not nothing. -/
theorem tlsWrite_spec {s : Session β} {o : Outcome} {write : TlsWrite}
    (h : tlsWrite s o = some write) {metrics : Metrics} {resp : Bytes} {total k : Nat}
    (hplace : s.place = .write metrics resp total) (hk : write = .wrote k) :
    0 < k ∧ k ≤ resp.length - total := by
  unfold tlsWrite at h
  split at h
  next =>
    rw [hk] at h
    cases h
  next =>
    rw [hk] at h
    cases h
  next m =>
    rw [hplace] at h
    dsimp only at h
    split at h
    next hm =>
      rw [hk] at h
      have := Option.some.inj h
      injection this with this
      omega
    next => cases h

/-! ## §4. The relation. -/

/-- No request before `k` has ended the connection. -/
def Open (jobs : List Job) (k : Nat) : Prop := ∀ m, m + 1 = k → ¬ (service jobs).Last m

/-- Nothing of request `k` has been read, and the session that is or will be is in step. -/
inductive Waits (env : Env β n) (jobs : List Job) (live : Live) : Nat → Holder β → Prop where
  | queued : live = ⟨env.secrets, 0, 0⟩ → Waits env jobs live 0 .queued
  | dispatch {k : Nat} {f : Bytes} {payload : Payload (TlspeekSerial β)} : Open jobs k →
      InStep env live payload → Waits env jobs live k (.dispatch f payload)
  | toWorker {k : Nat} {f : Bytes} {payload : Payload (TlspeekSerial β)} {fd : Fd} : Open jobs k →
      InStep env live payload → Waits env jobs live k (.toWorker f (message env payload fd))
  | peeks {k : Nat} {f : Bytes} {core : Session β} : Open jobs k → InStep env live core.state →
      core.place = .peek → Waits env jobs live k (.session f ⟨core, live, []⟩)
  /-- the response to the request before is written -/
  | written {k : Nat} {j : Job} {f : Bytes} {core : Session β} {text : Bytes} :
      jobs[k]? = some j → Known core.state → Writing j.q core text text.length →
      Waits env jobs live (k + 1) (.session f ⟨core, live, []⟩)
  | relaying {k : Nat} {payload : Payload (TlspeekSerial β)} : Open jobs k →
      InStep env live payload → Waits env jobs live k (.relaying payload)
  | toGateway {k : Nat} {payload : Payload (TlspeekSerial β)} {fd : Fd} : Open jobs k →
      InStep env live payload → Waits env jobs live k (.toGateway (message env payload fd))

/-- How the descriptor and the plaintext that is ahead stand to the server. -/
inductive Stage (env : Env β n) (jobs : List Job) (h : Holder β) (ahead : Bytes) (live : Live)
    (sent : Nat) (a : Server (Bytes × UInt8)) : Prop where
  | gone : h = .closed → Stage env jobs h ahead live sent a
  /-- everything is answered -/
  | idle : a.answered = sent → a.rest = [] → ahead = [] → Waits env jobs live sent h →
      Stage env jobs h ahead live sent a
  /-- nothing of the request has been read -/
  | before {j : Job} : jobs[a.answered]? = some j → sent = a.answered + 1 → a.rest = [] →
      ahead = j.q.bytes → Waits env jobs live a.answered h → Stage env jobs h ahead live sent a
  | reading {j : Job} {c : Nat} {core : Session β} {plain : Bytes} :
      jobs[a.answered]? = some j → sent = a.answered + 1 → a.rest = [] →
      ahead = j.q.bytes.drop c → Open jobs a.answered →
      h = .session j.function ⟨core, live, plain⟩ →
      Known core.state → (InHead j.q core c ∨ ∃ m ns, InBody j.q core c m ns) →
      Stage env jobs h ahead live sent a
  | writing {k : Nat} {j : Job} {core : Session β} {plain text : Bytes} {total : Nat} :
      a.answered = sent → sent = k + 1 → jobs[k]? = some j → ahead = [] →
      h = .session j.function ⟨core, live, plain⟩ → Known core.state →
      Writing j.q core text total → total < text.length →
      a.rest = tagged j.function (text.drop total) → Stage env jobs h ahead live sent a

/-- The client opens everything, and gets what was written. -/
structure ClientOk (env : Env β n) (w : World β) : Prop where
  numbered : Numbered env.secrets w.received w.down
  text : w.got ++ (w.down.map Sealed.content).flatten = w.out.map Prod.snd
  ok : w.broken = false

structure At (env : Env β n) (jobs : List Job) (w : World β) (a : Server (Bytes × UInt8)) :
    Prop where
  sent : a.sent = w.sent
  out : a.out = w.out
  /-- at most one request is open -/
  one : w.sent ≤ a.answered + 1
  stage : Stage env jobs w.holder w.ahead (w.live env) w.sent a
  fits : ∀ r ∈ w.kernel ++ w.transit, r.Fits
  part : w.PartOk
  client : ClientOk env w

/-! ## §5. The client and the network. -/

/-- An answer is a response, byte by byte. -/
theorem answer_framed {k : Nat} {text : List (Bytes × UInt8)}
    (h : (service jobs).Answer k text) : ∃ close, Framed (text.map Prod.snd) close := by
  obtain ⟨j, -, m, hm, t, t', resp, hresp, rfl⟩ := h
  rw [tagged_snd]
  exact ⟨closes j.q, response_framed j.body_lt hm hresp⟩

/-- **Who has a response for every request** leaves nothing to be answered. -/
theorem At.settled (h : At env jobs w a) (ha : (server (service jobs)).Reachable a)
    (hans : w.Answered) : a.answered = w.sent ∧ a.rest = [] := by
  obtain ⟨parts, hlen, hframed, hgot⟩ := hans
  have hout : parts.flatten ++ (w.down.map Sealed.content).flatten = a.out.map Prod.snd := by
    rw [← hgot, h.client.text, h.out]
  rw [← h.sent]
  exact Server.settled BenchHttp.framed_selfDelimiting (fun k text => answer_framed) ha
    (hlen.trans h.sent.symm) hframed hout

theorem At.send (h : At env jobs w a) (ha : (server (service jobs)).Reachable a)
    (hans : w.Answered) {j : Job} (hj : jobs[w.sent]? = some j) :
    ∃ a', (server (service jobs)).Steps a a'
      ∧ At env jobs { w with sent := w.sent + 1, transit := w.transit ++ j.records } a' := by
  obtain ⟨hanswered, hrest⟩ := h.settled ha hans
  refine ⟨{ a with sent := a.sent + 1 }, .single (a := ()) (.receive a), congrArg (· + 1) h.sent,
    h.out, Nat.le_of_eq (by rw [hanswered]), ?_, ?_, ?_,
    ⟨h.client.numbered, h.client.text, h.client.ok⟩⟩
  · show Stage env jobs w.holder
      (w.holder.plain ++ (contents w.kernel ++ contents (w.transit ++ j.records)))
      (w.live env) (w.sent + 1) _
    have hmore : w.holder.plain ++ (contents w.kernel ++ contents (w.transit ++ j.records))
        = w.ahead ++ j.q.bytes := by
      unfold World.ahead
      rw [contents_append, j.spells]
      simp only [List.append_assoc]
    rw [hmore]
    cases h.stage with
    | gone hgone => exact .gone hgone
    | idle _ _ hahead hwaits =>
        refine .before (j := j) (hanswered ▸ hj) (by rw [hanswered]) hrest ?_ (hanswered ▸ hwaits)
        rw [hahead, List.nil_append]
    | before _ hsent => omega
    | reading _ hsent => omega
    | writing _ _ _ _ _ _ _ htotal hr =>
        -- there is something left to write
        have hnil := tagged_eq_nil.mp (hr.symm.trans hrest)
        rw [List.drop_eq_nil_iff] at hnil
        omega
  · intro r hr
    rw [← List.append_assoc] at hr
    rcases List.mem_append.mp hr with hr | hr
    · exact h.fits r hr
    · exact j.fits r hr
  · refine ⟨fun r rs ht => ?_, fun ht => h.part.zero (List.append_eq_nil_iff.mp ht).1⟩
    show w.part < _
    cases htr : w.transit with
    | nil =>
        rw [h.part.zero htr]
        exact Nat.add_pos_left (by decide) _
    | cons r' rs' =>
        have ht : w.transit ++ j.records = r :: rs := ht
        rw [htr, List.cons_append] at ht
        injection ht with ht _
        rw [← ht]
        exact h.part.lt r' rs' htr

theorem At.trickle (h : At env jobs w a) {r : Record} {rs : List Record} (ht : w.transit = r :: rs)
    {m : Nat} (hm : m < TLSPEEK_HEADER_SIZE + r.wireLen) : At env jobs { w with part := m } a := by
  refine ⟨h.sent, h.out, h.one, h.stage, h.fits, ⟨fun r' rs' ht' => ?_, fun ht' => ?_⟩,
    ⟨h.client.numbered, h.client.text, h.client.ok⟩⟩
  · have ht' : w.transit = r' :: rs' := ht'
    rw [ht] at ht'
    injection ht' with ht' _
    rw [← ht']
    exact hm
  · have ht' : w.transit = [] := ht'
    rw [ht] at ht'
    cases ht'

theorem At.arrive (h : At env jobs w a) {r : Record} {rs : List Record}
    (ht : w.transit = r :: rs) :
    At env jobs { w with kernel := w.kernel ++ [r], transit := rs, part := 0 } a := by
  have hahead : World.ahead { w with kernel := w.kernel ++ [r], transit := rs, part := 0 }
      = w.ahead := by
    unfold World.ahead
    rw [ht]
    simp only [contents_append, contents_cons, contents_nil, List.append_nil, List.append_assoc]
  refine ⟨h.sent, h.out, h.one, ?_, ?_, ⟨fun r' rs' _ => ?_, fun _ => rfl⟩,
    ⟨h.client.numbered, h.client.text, h.client.ok⟩⟩
  · rw [hahead]
    exact h.stage
  · intro x hx
    refine h.fits x ?_
    rw [ht]
    simpa using hx
  · exact Nat.add_pos_left (by decide) _

theorem At.deliver (h : At env jobs w a) {x : Sealed} {xs : List Sealed} (hd : w.down = x :: xs) :
    ∃ d, x.opened env.secrets w.received.toUInt64 = some d
      ∧ At env jobs { w with down := xs, received := w.received + 1, got := w.got ++ d } a := by
  have hnumbered := h.client.numbered
  rw [hd] at hnumbered
  obtain ⟨hopened, hrest⟩ := hnumbered
  refine ⟨x.content, hopened, h.sent, h.out, h.one, ?_, h.fits, ⟨h.part.lt, h.part.zero⟩,
    ⟨hrest, ?_, h.client.ok⟩⟩
  · have hcount : w.received + 1 + xs.length = w.received + w.down.length := by
      rw [hd, List.length_cons]
      omega
    show Stage env jobs w.holder w.ahead
      ⟨env.secrets, w.consumed.toUInt64, (w.received + 1 + xs.length).toUInt64⟩ w.sent a
    rw [hcount]
    exact h.stage
  · have htext := h.client.text
    rw [hd, List.map_cons, List.flatten_cons, ← List.append_assoc] at htext
    exact htext

/-! ## §6. Events that move no bytes. -/

theorem open_zero (jobs : List Job) : Open jobs 0 := fun m hm => absurd hm (Nat.succ_ne_zero m)

/-- Only a session in the middle of a request holds plaintext. -/
theorem Waits.plain {k : Nat} {h : Holder β} (hw : Waits env jobs live k h) : h.plain = [] := by
  cases hw <;> rfl

/-- What an event that moves no bytes can do. -/
inductive Moves (env : Env β n) (socket : Bytes) : Holder β → Event n → Holder β → Prop where
  | acceptClient (c : AcceptCalls) :
      Moves env socket .queued (.acceptClient c) (Faasd.acceptClient env socket c)
  | sendmsg {f : Bytes} {payload : Payload (TlspeekSerial β)} (fd : Fd) :
      Moves env socket (.dispatch f payload) (.sendmsg (some fd))
        (.toWorker f (message env payload fd))
  | sendmsg_fails {f : Bytes} {payload : Payload (TlspeekSerial β)} :
      Moves env socket (.dispatch f payload) (.sendmsg none) .closed
  | acceptHandoff {f : Bytes} {q : UnixStream} (c : ReceiveCalls) :
      Moves env socket (.toWorker f q) (.acceptHandoff c) (Faasd.acceptHandoff env f q c)
  | relaymsg {payload : Payload (TlspeekSerial β)} (fd : Fd) :
      Moves env socket (.relaying payload) (.relaymsg (some fd))
        (.toGateway (message env payload fd))
  | relaymsg_fails {payload : Payload (TlspeekSerial β)} :
      Moves env socket (.relaying payload) (.relaymsg none) .closed
  | acceptRelay {q : UnixStream} (c : RelayCalls) (payload_out : Area n) :
      Moves env socket (.toGateway q) (.acceptRelay c payload_out)
        (Faasd.acceptRelay env q c payload_out)

theorem Moves.of_move {socket : Bytes} {h h' : Holder β} {e : Event n}
    (hmove : h.move env socket e = some h') : Moves env socket h e h' := by
  unfold Holder.move at hmove
  split at hmove
  next c =>
    obtain rfl := Option.some.inj hmove
    exact .acceptClient c
  next fd f payload =>
    obtain rfl := Option.some.inj hmove
    exact .sendmsg fd
  next =>
    obtain rfl := Option.some.inj hmove
    exact .sendmsg_fails
  next c f q =>
    obtain rfl := Option.some.inj hmove
    exact .acceptHandoff c
  next fd payload =>
    obtain rfl := Option.some.inj hmove
    exact .relaymsg fd
  next =>
    obtain rfl := Option.some.inj hmove
    exact .relaymsg_fails
  next c payload_out q =>
    obtain rfl := Option.some.inj hmove
    exact .acceptRelay c payload_out
  next => cases hmove

/-- **From party to party** the session stays in step. -/
theorem Waits.move {k : Nat} {h h' : Holder β} {socket : Bytes} {e : Event n}
    (hw : Waits env jobs live k h) (hmove : Moves env socket h e h') :
    h' = .closed ∨ Waits env jobs live k h' := by
  cases hmove with
  | acceptClient c =>
      cases hw with
      | queued hlive =>
          rcases acceptClient_cases env socket c with hc | ⟨f, payload, hd, hin⟩
          · exact Or.inl hc
          · rw [hd, hlive]
            exact Or.inr (.dispatch (open_zero jobs) hin)
  | sendmsg fd =>
      cases hw with
      | dispatch hopen hin => exact Or.inr (.toWorker hopen hin)
  | sendmsg_fails => exact Or.inl rfl
  | @acceptHandoff f q c =>
      cases hw with
      | @toWorker k f payload fd hopen hin =>
          rcases acceptHandoff_cases hin f fd c with hc | hs
          · exact Or.inl hc
          · rw [hs]
            exact Or.inr (.peeks hopen hin rfl)
  | relaymsg fd =>
      cases hw with
      | relaying hopen hin => exact Or.inr (.toGateway hopen hin)
  | relaymsg_fails => exact Or.inl rfl
  | acceptRelay c payload_out =>
      cases hw with
      | @toGateway k payload fd hopen hin =>
          rcases acceptRelay_cases payload fd c payload_out with hc | ⟨f, hd⟩
          · exact Or.inl hc
          · rw [hd]
            exact Or.inr (.dispatch hopen hin)

/-- Only the holder changes, between holders of no plaintext. -/
theorem At.set_holder (h : At env jobs w a) (hplain : w.holder.plain = []) {x : Holder β}
    (hx : x.plain = []) (hstage : Stage env jobs x w.ahead (w.live env) w.sent a) :
    At env jobs { w with holder := x } a := by
  have hahead : World.ahead { w with holder := x } = w.ahead := by
    show x.plain ++ _ = w.holder.plain ++ _
    rw [hx, hplain]
  refine ⟨h.sent, h.out, h.one, ?_, h.fits, ⟨h.part.lt, h.part.zero⟩,
    ⟨h.client.numbered, h.client.text, h.client.ok⟩⟩
  rw [hahead]
  exact hstage

theorem At.move (h : At env jobs w a) {e : Event n} {x : Holder β}
    (hmove : Moves env (w.socket env) w.holder e x) : At env jobs { w with holder := x } a := by
  have hwaits : ∀ {k : Nat}, Waits env jobs (w.live env) k w.holder →
      (Waits env jobs (w.live env) k x → Stage env jobs x w.ahead (w.live env) w.sent a) →
      At env jobs { w with holder := x } a := by
    intro k hw hstage
    rcases hw.move hmove with rfl | hw'
    · exact h.set_holder hw.plain rfl (.gone rfl)
    · exact h.set_holder hw.plain hw'.plain (hstage hw')
  cases h.stage with
  | gone hgone =>
      rw [hgone] at hmove
      cases hmove
  | idle hanswered hrest hahead hw => exact hwaits hw fun hw' => .idle hanswered hrest hahead hw'
  | before hj hsent hrest hahead hw => exact hwaits hw fun hw' => .before hj hsent hrest hahead hw'
  | reading _ _ _ _ _ hh =>
      rw [hh] at hmove
      cases hmove
  | writing _ _ _ _ hh =>
      rw [hh] at hmove
      cases hmove

/-! ## §7. Iterations. -/

section Turns

variable {f : Bytes} {s : WSession β} {calls : Calls β} {wire : Wire} {connect_ok : Bool}

theorem sessionEnd_again {ssl : Live} {plain : Bytes} {r : Session β × Ctl β}
    (h : r.2 = .again) : sessionEnd f ssl plain r connect_ok = .session f ⟨r.1, ssl, plain⟩ := by
  unfold sessionEnd
  rw [h]

theorem sessionEnd_out {ssl : Live} {plain : Bytes} {r : Session β × Ctl β} {rc : Int}
    (h : r.2 = .out rc) : sessionEnd f ssl plain r connect_ok = .closed := by
  unfold sessionEnd
  rw [h]

/-- What the two ends agree on moves with the session. -/
theorem turn_live (hssl : s.ssl = w.live env) :
    (w.turn f s calls wire connect_ok).live env
      = s.ssl.moved (w.kernel.length - wire.kernel.length) (s.core.written calls) := by
  unfold World.turn World.live Live.moved
  dsimp only
  rw [hssl]
  unfold World.live
  dsimp only
  rw [toUInt64_add]
  split
  next => rw [List.append_nil]
  next =>
    rw [List.length_append, ← Nat.add_assoc, toUInt64_add _ (List.length _)]
    rfl

/-- The client opens what a session in step has written. -/
theorem ClientOk.turn (h : ClientOk env w) (hssl : s.ssl = w.live env) :
    ClientOk env (w.turn f s calls wire connect_ok) := by
  unfold World.turn
  refine ⟨?_, ?_, h.ok⟩
  · dsimp only
    split
    next =>
      rw [List.append_nil]
      exact h.numbered
    next =>
      refine h.numbered.snoc ?_
      rw [hssl]
      exact Live.opened_seal _ _
  · show w.got ++ ((w.down ++ _).map Sealed.content).flatten = (w.out ++ tagged f _).map Prod.snd
    rw [List.map_append, List.flatten_append, ← List.append_assoc, h.text, List.map_append,
      tagged_snd]
    congr 1
    split
    next hnil => exact hnil.symm
    next => simp [Live.seal]

/-- **An iteration**: what is left to be shown is where the session stands. -/
theorem At.turn (h : At env jobs w a) (hssl : s.ssl = w.live env)
    (hk : wire.kernel <:+ w.kernel) {a' : Server (Bytes × UInt8)} (hsent : a'.sent = a.sent)
    (hout : a'.out = a.out ++ tagged f (s.core.written calls)) (hone : w.sent ≤ a'.answered + 1)
    (hstage : ∀ x, x = sessionEnd f ((w.turn f s calls wire connect_ok).live env) wire.plain
        (session_iter f s.core calls) connect_ok →
      Stage env jobs x (x.plain ++ (contents wire.kernel ++ contents w.transit))
        ((w.turn f s calls wire connect_ok).live env) w.sent a') :
    At env jobs (w.turn f s calls wire connect_ok) a' := by
  refine ⟨hsent.trans h.sent, ?_, hone, hstage _ ?_, ?_, ⟨h.part.lt, h.part.zero⟩,
    h.client.turn hssl⟩
  · rw [hout, h.out]
    rfl
  · rw [turn_live hssl]
    rfl
  · intro r hr
    refine h.fits r ?_
    rcases List.mem_append.mp hr with hr | hr
    · exact List.mem_append_left _ (hk.subset hr)
    · exact List.mem_append_right _ hr

/-- Nothing is read, and nothing written. -/
theorem turn_silent (hwritten : s.core.written calls = []) :
    w.turn f s calls ⟨s.plain, w.kernel⟩ connect_ok
      = { w with
          holder := sessionEnd f s.ssl s.plain (session_iter f s.core calls) connect_ok } := by
  have hmoved : s.ssl.moved 0 [] = s.ssl := by
    have hzero : s.ssl.read_seq + Nat.toUInt64 0 = s.ssl.read_seq := UInt64.add_zero _
    unfold Live.moved
    rw [hzero]
    rfl
  unfold World.turn
  rw [hwritten]
  simp only [Nat.sub_self, Nat.add_zero, if_true, List.append_nil, hmoved]
  show World.mk _ _ _ _ _ _ (w.out ++ tagged f []) _ _ _ _ = _
  rw [tagged_eq_nil.mpr rfl, List.append_nil]

theorem World.iterate_eq {c : IterCalls} (h : w.iterate env f s c = some w') :
    ∃ r wire write opens, tlsRead opens ⟨s.plain, w.kernel⟩ (s.core.want c.realloc_ok)
          (if s.core.want c.realloc_ok = 0 then .error else c.read) = some (r, wire)
      ∧ tlsWrite s.core c.write = some write
      ∧ w' = w.turn f s (c.on env (w.socket env) s.ssl r write) wire c.connect_ok := by
  unfold World.iterate at h
  obtain ⟨r, hr, h⟩ := Option.bind_eq_some_iff.mp h
  obtain ⟨write, hw, rfl⟩ := Option.map_eq_some_iff.mp h
  exact ⟨r.1, r.2, write, _, hr, hw, rfl⟩

/-- Where nothing is asked for, nothing is read. -/
theorem read_nothing {opens : Bool} {want : Nat} {o : Outcome} {w w' : Wire} {r : TlsRead}
    (hwant : want = 0) (h : tlsRead opens w want (if want = 0 then .error else o) = some (r, w')) :
    w' = w := by
  rw [if_pos hwant] at h
  have := Option.some.inj h
  exact (congrArg Prod.snd this).symm

/-- The session is over, and has written nothing more. -/
theorem At.turn_out (h : At env jobs w a) (hssl : s.ssl = w.live env)
    (hk : wire.kernel <:+ w.kernel) (hwritten : s.core.written calls = [])
    (hout : ∃ rc, (session_iter f s.core calls).2 = .out rc) :
    At env jobs (w.turn f s calls wire connect_ok) a := by
  obtain ⟨rc, hrc⟩ := hout
  refine h.turn hssl hk rfl ?_ h.one fun x hx => ?_
  · rw [hwritten]
    exact (List.append_nil _).symm
  · rw [sessionEnd_out hrc] at hx
    exact .gone hx

end Turns

/-- What becomes of a session that peeks. -/
theorem session_peek_cases {core : Session β} (hplace : core.place = .peek) (f : Bytes)
    (calls : Calls β) :
    (∃ rc, (session_iter f core calls).2 = .out rc)
      ∨ ∃ owner, peek_owner_from_kernel core.client_fd core.state.serial calls.peek = some owner
        ∧ ((session_iter f core calls).2
            = .relay { core.state with target_function := targetOf (cstr owner) }
          ∨ (cstr owner = f ∧ ∃ cap, session_iter f core calls
            = ({ core with place := .headers [] cap }, .again))) := by
  have hiter : session_iter f core calls = session_peek f core calls := by
    unfold session_iter
    rw [hplace]
  rw [hiter]
  unfold session_peek
  split
  next => exact Or.inl ⟨_, rfl⟩
  next owner howner =>
    split
    next => exact Or.inr ⟨owner, howner, Or.inl rfl⟩
    next hsame =>
      split
      next => exact Or.inl ⟨_, rfl⟩
      next cap _ => exact Or.inr ⟨owner, howner, Or.inr ⟨not_not.mp hsame, cap, rfl⟩⟩

section Iterate

variable {f : Bytes} {c : IterCalls}

/-- **A session that waits** goes on waiting, gives the connection away, or starts to read. -/
theorem At.iterate_waits (h : At env jobs w a) {k : Nat} {s : WSession β}
    (hh : w.holder = .session f s) (hw : Waits env jobs (w.live env) k (.session f s))
    (hstage : ∀ x, Waits env jobs (w.live env) k x →
      Stage env jobs x w.ahead (w.live env) w.sent a)
    (hreads : ∀ r ks owner cap core, w.kernel = r :: ks →
      NamesFunction (requestLine r.content) owner → cstr owner = f →
      core.place = .headers [] cap → Known core.state → Open jobs k →
      Stage env jobs (.session f ⟨core, w.live env, []⟩) w.ahead (w.live env) w.sent a)
    (hstep : w.iterate env f s c = some w') : At env jobs w' a := by
  have hplain : w.holder.plain = [] := by
    rw [hh]
    exact hw.plain
  obtain ⟨r, wire, write, opens, hread, hwrite, rfl⟩ := World.iterate_eq hstep
  cases hw with
  | @peeks _ _ core hopen hin hplace =>
      have hwant : core.want c.realloc_ok = 0 := by
        unfold Session.want
        rw [hplace]
      obtain rfl := read_nothing hwant hread
      have hwritten : core.written (c.on env (w.socket env) (w.live env) r write) = [] := by
        unfold Session.written
        rw [hplace]
      rw [turn_silent hwritten]
      rcases session_peek_cases hplace f (c.on env (w.socket env) (w.live env) r write) with
        ⟨rc, hrc⟩ | ⟨owner, howner, hrelay | ⟨hsame, cap, hiter⟩⟩
      · rw [sessionEnd_out hrc]
        exact h.set_holder hplain rfl (.gone rfl)
      · -- the request is another function's
        unfold sessionEnd
        rw [hrelay]
        dsimp only
        split
        next => exact h.set_holder hplain rfl (hstage _ (.relaying hopen (hin.target _)))
        next => exact h.set_holder hplain rfl (.gone rfl)
      · obtain ⟨r', ks, hk, hnames⟩ := peek_owner h.fits h.part hin howner
        have hend : (session_iter f core (c.on env (w.socket env) (w.live env) r write)).2
            = .again := by rw [hiter]
        rw [sessionEnd_again hend, hiter]
        exact h.set_holder hplain rfl
          (hreads r' ks owner cap _ hk hnames hsame rfl hin.known hopen)
  | @written k j _ core text hj hknown hplace =>
      obtain ⟨metrics, hp, -⟩ := hplace.place
      have hwant : core.want c.realloc_ok = 0 := by
        unfold Session.want
        rw [hp]
      obtain rfl := read_nothing hwant hread
      rcases hplace.iter f (c.on env (w.socket env) (w.live env) r write)
          (fun m hm => (tlsWrite_spec hwrite hp hm).2) with
        ⟨⟨rc, hrc⟩, hnone⟩ | ⟨hlt, -⟩ | ⟨m, hlt, -⟩ | ⟨-, hclose, hnone, serial, hserial, hiter⟩
      · rw [turn_silent hnone, sessionEnd_out hrc]
        exact h.set_holder hplain rfl (.gone rfl)
      · exact absurd hlt (Nat.lt_irrefl _)
      · exact absurd hlt (Nat.lt_irrefl _)
      · have hend : (session_iter f core (c.on env (w.socket env) (w.live env) r write)).2
            = .again := by rw [hiter]
        have hblob : (c.on env (w.socket env) (w.live env) r write).live.tls_export = none
            ∨ (c.on env (w.socket env) (w.live env) r write).live.tls_export
              = some (env.wolf.tls_export (w.live env)) := by
          show (if c.export_ok then some _ else none) = none
            ∨ (if c.export_ok then some _ else none) = some _
          cases c.export_ok with
          | true => exact Or.inr rfl
          | false => exact Or.inl rfl
        have hin := export_in_step hknown (w.live env) hblob rfl rfl rfl hserial
        have hopen : Open jobs (k + 1) := by
          rintro m hm ⟨j', hj', hlast⟩
          obtain rfl : m = k := Nat.succ.inj hm
          obtain rfl : j' = j := Option.some.inj (hj'.symm.trans hj)
          rw [hclose] at hlast
          cases hlast
        rw [turn_silent hnone, sessionEnd_again hend, hiter]
        exact h.set_holder hplain rfl (hstage _ (.peeks hopen hin rfl))

variable {j : Job} {core : Session β} {plain : Bytes}

/-- **A session that reads**: it reads on, or has the response. -/
theorem At.iterate_reading (h : At env jobs w a) {m : Nat} (hj : jobs[a.answered]? = some j)
    (hsent : w.sent = a.answered + 1) (hrest : a.rest = []) (hahead : w.ahead = j.q.bytes.drop m)
    (hopen : Open jobs a.answered) (hh : w.holder = .session j.function ⟨core, w.live env, plain⟩)
    (hknown : Known core.state) (hplace : InHead j.q core m ∨ ∃ k ns, InBody j.q core m k ns)
    (hstep : w.iterate env j.function ⟨core, w.live env, plain⟩ c = some w') :
    ∃ a', (server (service jobs)).Steps a a' ∧ At env jobs w' a' := by
  obtain ⟨r, wire, write, opens, hread, hwrite, rfl⟩ := World.iterate_eq hstep
  obtain ⟨hmoved, hk⟩ := tlsRead_spec hread
  have hnext : given r ++ (wire.plain ++ (contents wire.kernel ++ contents w.transit))
      = j.q.bytes.drop m := by
    have hwire : w.ahead = (plain ++ contents w.kernel) ++ contents w.transit := by
      unfold World.ahead
      rw [hh]
      exact (List.append_assoc _ _ _).symm
    rw [← hahead, hwire]
    have hmoved : plain ++ contents w.kernel = given r ++ (wire.plain ++ contents wire.kernel) :=
      hmoved
    rw [hmoved]
    simp only [List.append_assoc]
  have hgiven : ∀ bytes, (c.on env (w.socket env) (w.live env) r write).read = .data bytes →
      bytes = given r := by
    intro bytes hb
    have hb : r = .data bytes := hb
    rw [hb]
    rfl
  have hprefix : ∀ bytes, (c.on env (w.socket env) (w.live env) r write).read = .data bytes →
      bytes <+: j.q.bytes.drop m := by
    intro bytes hb
    rw [hgiven bytes hb, ← hnext]
    exact List.prefix_append _ _
  have hnone : (∀ bytes, (c.on env (w.socket env) (w.live env) r write).read ≠ .data bytes) →
      wire.plain ++ (contents wire.kernel ++ contents w.transit) = j.q.bytes.drop m := by
    intro hno
    have hnil : given r = [] := by
      cases r with
      | data bytes => exact absurd rfl (hno bytes)
      | none err => rfl
    rw [hnil] at hnext
    exact hnext
  have hdata : ∀ bytes, (c.on env (w.socket env) (w.live env) r write).read = .data bytes →
      wire.plain ++ (contents wire.kernel ++ contents w.transit)
        = j.q.bytes.drop (m + bytes.length) := by
    intro bytes hb
    rw [← List.drop_drop, ← hnext, hgiven bytes hb, List.drop_left]
  have hwritten : core.written (c.on env (w.socket env) (w.live env) r write) = [] := by
    unfold Session.written
    rcases hplace with hp | ⟨k, ns, hp⟩
    · obtain ⟨cap, hp⟩ := hp.place
      rw [hp]
    · rw [hp.place]
  have hkeeps : ∀ {m' : Nat}, (session_iter j.function core
        (c.on env (w.socket env) (w.live env) r write)).2 = .again →
      Kept core (session_iter j.function core (c.on env (w.socket env) (w.live env) r write)).1 →
      wire.plain ++ (contents wire.kernel ++ contents w.transit) = j.q.bytes.drop m' →
      (InHead j.q (session_iter j.function core (c.on env (w.socket env) (w.live env) r write)).1 m'
        ∨ ∃ k ns, InBody j.q
          (session_iter j.function core (c.on env (w.socket env) (w.live env) r write)).1 m' k ns) →
      ∃ a', (server (service jobs)).Steps a a' ∧ At env jobs (w.turn j.function
        ⟨core, w.live env, plain⟩ (c.on env (w.socket env) (w.live env) r write) wire
        c.connect_ok) a' := by
    intro m' hend hkept hahead' hplace'
    refine ⟨a, .refl _ a, h.turn rfl hk rfl ?_ h.one fun x hx => ?_⟩
    · rw [hwritten]
      exact (List.append_nil _).symm
    · rw [sessionEnd_again hend] at hx
      subst hx
      exact .reading hj hsent hrest hahead' hopen rfl (hkept.state ▸ hknown) hplace'
  rcases hplace with hp | ⟨k, ns, hp⟩
  · rcases hp.iter j.body_lt j.function _ hprefix with
      hout | ⟨hend, hno, hkept, hp'⟩ | ⟨bytes, hb, hend, hkept, hp'⟩
    · exact ⟨a, .refl _ a, h.turn_out rfl hk hwritten hout⟩
    · exact hkeeps hend hkept (hnone hno) (Or.inl hp')
    · exact hkeeps hend hkept (hdata bytes hb) hp'
  · rcases hp.iter j.body_lt j.function _ hprefix with
      hout | ⟨-, hend, hno, hsame⟩ | ⟨bytes, -, hb, hend, hkept, hp'⟩
        | ⟨hm, hend, hkept, text, htext, hp'⟩
    · exact ⟨a, .refl _ a, h.turn_out rfl hk hwritten hout⟩
    · refine hkeeps hend ?_ (hnone hno) (Or.inr ⟨k, ns, ?_⟩)
      · rw [hsame]
        exact ⟨rfl, rfl⟩
      · rw [hsame]
        exact hp
    · exact hkeeps hend hkept (hdata bytes hb) (Or.inr ⟨k, ns, hp'⟩)
    · -- the server answers
      have hle := hp.le
      have hhead := hp.head_le
      have hbytes := Request.bytes_length (q := j.q)
      have hanswer : (service jobs).Answer a.answered (tagged j.function text) :=
        ⟨j, hj, k, by omega, ns, _, text, htext, rfl⟩
      have hlt : a.answered < a.sent := by
        rw [h.sent, hsent]
        exact Nat.lt_succ_self _
      have hempty : given r ++ (wire.plain ++ (contents wire.kernel ++ contents w.transit))
          = [] := by
        rw [hnext, hm, List.drop_length]
      have hne : text ≠ [] := BenchHttp.framed_selfDelimiting.ne_nil text
        ⟨_, response_framed j.body_lt (by omega) htext⟩
      refine ⟨{ a with answered := a.answered + 1, rest := tagged j.function text },
        .single (a := ()) (.answer hrest hlt hanswer hopen), h.turn rfl hk rfl ?_ ?_ fun x hx => ?_⟩
      · rw [hwritten]
        exact (List.append_nil _).symm
      · show w.sent ≤ a.answered + 1 + 1
        omega
      · rw [sessionEnd_again hend] at hx
        subst hx
        exact .writing hsent.symm hsent hj (List.append_eq_nil_iff.mp hempty).2 rfl
          (hkept.state ▸ hknown) hp' (List.length_pos_iff.mpr hne) rfl

/-- **A session that writes**: what it writes is the next of the answer. -/
theorem At.iterate_writing (h : At env jobs w a) {k total : Nat} {text : Bytes}
    (hanswered : a.answered = w.sent) (hsent : w.sent = k + 1) (hj : jobs[k]? = some j)
    (hahead : w.ahead = []) (hh : w.holder = .session j.function ⟨core, w.live env, plain⟩)
    (hknown : Known core.state) (hp : Writing j.q core text total) (htotal : total < text.length)
    (hrest : a.rest = tagged j.function (text.drop total))
    (hstep : w.iterate env j.function ⟨core, w.live env, plain⟩ c = some w') :
    ∃ a', (server (service jobs)).Steps a a' ∧ At env jobs w' a' := by
  obtain ⟨r, wire, write, opens, hread, hwrite, rfl⟩ := World.iterate_eq hstep
  obtain ⟨metrics, hplace, -⟩ := hp.place
  have hwant : core.want c.realloc_ok = 0 := by
    unfold Session.want
    rw [hplace]
  obtain rfl := read_nothing hwant hread
  have hempty : plain ++ (contents w.kernel ++ contents w.transit) = [] := by
    unfold World.ahead at hahead
    rw [hh] at hahead
    exact hahead
  rcases hp.iter j.function (c.on env (w.socket env) (w.live env) r write)
      (fun m hm => (tlsWrite_spec hwrite hplace hm).2) with
    ⟨hout, hnone⟩ | ⟨-, hend, hnone, hsame⟩ | ⟨m, -, hm, hend, hwritten, hkept, hp'⟩ | ⟨heq, -⟩
  · exact ⟨a, .refl _ a, h.turn_out rfl List.suffix_rfl hnone hout⟩
  · refine ⟨a, .refl _ a, h.turn rfl List.suffix_rfl rfl ?_ h.one fun x hx => ?_⟩
    · rw [hnone]
      exact (List.append_nil _).symm
    · rw [sessionEnd_again hend, hsame] at hx
      subst hx
      exact .writing hanswered hsent hj hempty rfl hknown hp htotal hrest
  · -- the server writes as much
    have htext : tagged j.function (core.written (c.on env (w.socket env) (w.live env) r write))
        = a.rest.take m := by
      rw [hwritten, hrest, tagged_take]
    have hrest' : a.rest.drop m = tagged j.function (text.drop (total + m)) := by
      rw [hrest, ← List.drop_drop, tagged_drop]
    refine ⟨{ a with rest := a.rest.drop m, out := a.out ++ a.rest.take m },
      .single (a := ()) (.write a m), h.turn rfl List.suffix_rfl rfl ?_ h.one fun x hx => ?_⟩
    · rw [htext]
    · rw [sessionEnd_again hend] at hx
      subst hx
      have hle := hp'.le
      rcases Nat.lt_or_ge (total + m) text.length with hlt | hge
      · exact .writing hanswered hsent hj hempty rfl (hkept.state ▸ hknown) hp' hlt hrest'
      · -- the response is written
        have hall : total + m = text.length := by omega
        rw [hall] at hp'
        have hdone : a.rest.drop m = [] := by
          rw [hrest', hall, List.drop_length]
          rfl
        obtain rfl : plain = [] := (List.append_eq_nil_iff.mp hempty).1
        refine .idle hanswered hdone hempty ?_
        rw [hsent]
        exact .written hj (hkept.state ▸ hknown) hp'
  · omega

/-- **An iteration of the session**, wherever it stands. -/
theorem At.iterate (h : At env jobs w a) {s : WSession β} (hh : w.holder = .session f s)
    (hstep : w.iterate env f s c = some w') :
    ∃ a', (server (service jobs)).Steps a a' ∧ At env jobs w' a' := by
  cases h.stage with
  | gone hgone =>
      rw [hh] at hgone
      cases hgone
  | idle hanswered hrest hahead hw =>
      rw [hh] at hw
      refine ⟨a, .refl _ a, h.iterate_waits hh hw
        (fun x hx => .idle hanswered hrest hahead hx) ?_ hstep⟩
      intro r ks owner cap core hk hnames
      -- there is no record that shows an owner
      have hnil : w.holder.plain ++ (contents w.kernel ++ contents w.transit) = [] := hahead
      rw [hk, contents_cons] at hnil
      simp only [List.append_eq_nil_iff] at hnil
      rw [hnil.2.1.1] at hnames
      exact absurd rfl hnames.ne_nil
  | @before j hj hsent hrest hahead hw =>
      have hplain : w.holder.plain = [] := hw.plain
      rw [hh] at hw
      refine ⟨a, .refl _ a, h.iterate_waits hh hw
        (fun x hx => .before hj hsent hrest hahead hx) ?_ hstep⟩
      intro r ks owner cap core hk hnames hsame hplace hknown hopen
      -- the owner that the first record shows is the request's
      have hbytes : r.content ++ (contents ks ++ contents w.transit) = j.q.bytes := by
        rw [← hahead]
        unfold World.ahead
        rw [hplain, hk, contents_cons, List.nil_append, List.append_assoc]
      obtain ⟨more, hmore⟩ := requestLine_append r.content (contents ks ++ contents w.transit)
      rw [hbytes] at hmore
      have hnames' := hnames.append more
      rw [← hmore] at hnames'
      obtain rfl : owner = j.owner := hnames'.unique j.names
      obtain rfl : j.function = f := hsame
      have hhead : 0 < j.q.head.length := Nat.lt_trans (by decide) Request.four_lt_head
      exact .reading (c := 0) hj hsent hrest hahead hopen rfl hknown (Or.inl ⟨⟨cap, hplace⟩, hhead⟩)
  | reading hj hsent hrest hahead hopen hh' hknown hplace =>
      have hsame := hh.symm.trans hh'
      injection hsame with hf hs
      subst hf hs
      exact h.iterate_reading hj hsent hrest hahead hopen hh hknown hplace hstep
  | writing hanswered hsent hj hahead hh' hknown hp htotal hrest =>
      have hsame := hh.symm.trans hh'
      injection hsame with hf hs
      subst hf hs
      exact h.iterate_writing hanswered hsent hj hahead hh hknown hp htotal hrest hstep

end Iterate

/-! ## §8. The simulation. -/

theorem World.step_move {e : Event n} (hstep : w.step env jobs e = some w') :
    (e = .send ∨ (∃ m, e = .trickle m) ∨ e = .arrive ∨ e = .deliver ∨ ∃ c, e = .iterate c)
      ∨ ∃ h', Moves env (w.socket env) w.holder e h' ∧ w' = { w with holder := h' } := by
  have hmoves : (w.holder.move env (w.socket env) e).map (fun h => { w with holder := h })
        = some w' →
      ∃ h', Moves env (w.socket env) w.holder e h' ∧ w' = { w with holder := h' } := by
    intro hmap
    obtain ⟨h', hmove, rfl⟩ := Option.map_eq_some_iff.mp hmap
    exact ⟨h', .of_move hmove, rfl⟩
  cases e with
  | send => exact Or.inl (Or.inl rfl)
  | trickle m => exact Or.inl (Or.inr (Or.inl ⟨m, rfl⟩))
  | arrive => exact Or.inl (Or.inr (Or.inr (Or.inl rfl)))
  | deliver => exact Or.inl (Or.inr (Or.inr (Or.inr (Or.inl rfl))))
  | iterate c => exact Or.inl (Or.inr (Or.inr (Or.inr (Or.inr ⟨c, rfl⟩))))
  | acceptClient c => exact Or.inr (hmoves hstep)
  | sendmsg fd => exact Or.inr (hmoves hstep)
  | acceptHandoff c => exact Or.inr (hmoves hstep)
  | relaymsg fd => exact Or.inr (hmoves hstep)
  | acceptRelay c payload_out => exact Or.inr (hmoves hstep)

/-- **Every step of the prototype is one of the server's**, or none. -/
theorem prototype_simulates (env : Env β n) (jobs : List Job) :
    Simulation (prototype env jobs) (server (service jobs)) (At env jobs) where
  init := by
    rintro w rfl
    refine ⟨.start, rfl, rfl, rfl, Nat.zero_le _, .idle rfl rfl rfl (.queued rfl),
      List.forall_mem_nil _, ⟨fun r rs ht => ?_, fun _ => rfl⟩, ⟨trivial, rfl, rfl⟩⟩
    cases ht
  step := by
    intro w e w' a h ha hstep
    obtain ⟨hstep, hclient⟩ := hstep
    rcases World.step_move hstep with (rfl | ⟨m, rfl⟩ | rfl | rfl | ⟨c, rfl⟩) | ⟨h', hmove, rfl⟩
    · obtain ⟨j, hj, rfl⟩ := Option.map_eq_some_iff.mp hstep
      exact h.send ha (hclient rfl) hj
    · simp only [World.step] at hstep
      split at hstep
      next r rs ht =>
        split at hstep
        next hm =>
          obtain rfl := Option.some.inj hstep
          exact ⟨a, .refl _ a, h.trickle ht hm.2⟩
        next => cases hstep
      next => cases hstep
    · simp only [World.step] at hstep
      split at hstep
      next r rs ht =>
        obtain rfl := Option.some.inj hstep
        exact ⟨a, .refl _ a, h.arrive ht⟩
      next => cases hstep
    · simp only [World.step] at hstep
      split at hstep
      next x xs hd =>
        obtain ⟨d, hopened, hat⟩ := h.deliver hd
        have hok : ¬ w.broken = true := by
          rw [h.client.ok]
          exact Bool.false_ne_true
        rw [if_neg hok, hopened] at hstep
        obtain rfl := Option.some.inj hstep
        exact ⟨a, .refl _ a, hat⟩
      next => cases hstep
    · simp only [World.step] at hstep
      split at hstep
      next f s hh => exact h.iterate hh hstep
      next => cases hstep
    · exact ⟨a, .refl _ a, h.move hmove⟩

/-- The session is in `read_one_request`. -/
def Session.Reads (s : Session β) : Prop :=
  (∃ buf cap, s.place = .headers buf cap) ∨ ∃ metrics, s.place = .body metrics

/-- What the client sees, and who reads what it sends. -/
structure Faithful (env : Env β n) (jobs : List Job) (w : World β) : Prop where
  /-- what has been written is responses to the requests, each whole and from the worker of the
  function that the request names, but for the last one, which may have come in part or not at
  all; none follows one that ends the connection -/
  out : ∃ (responses : List (List (Bytes × UInt8))) (rest : List (Bytes × UInt8)),
    w.out ++ rest = responses.flatten
      ∧ responses.length ≤ w.sent ∧ w.sent ≤ responses.length + 1
      ∧ (∀ k text, responses[k]? = some text → (service jobs).Answer k text)
      ∧ ∀ k, k + 1 < responses.length → ¬ (service jobs).Last k
  /-- the client opens every record, and gets just that -/
  client : w.broken = false
    ∧ w.got ++ (w.down.map Sealed.content).flatten = w.out.map Prod.snd
  /-- the keys and the record numbers of a session are the client's -/
  session : ∀ f s, w.holder = .session f s → s.ssl = w.live env
  /-- who reads is the worker of the function that the request names, and nobody else has read
  of it -/
  owner : ∀ f s, w.holder = .session f s → s.core.Reads →
    ∃ k j c, w.sent = k + 1 ∧ jobs[k]? = some j ∧ j.function = f
      ∧ w.ahead = j.q.bytes.drop c
      ∧ (InHead j.q s.core c ∨ ∃ m ns, InBody j.q s.core c m ns)

theorem Writing.not_reads {q : Request} {s : Session β} {text : Bytes} {total : Nat}
    (h : Writing q s text total) : ¬ s.Reads := by
  obtain ⟨metrics, hplace, -⟩ := h.place
  unfold Session.Reads
  rw [hplace]
  simp

/-- Before a request is read, its session has not called `wolfSSL_read`. -/
theorem Waits.not_reads {k : Nat} {f : Bytes} {s : WSession β}
    (hw : Waits env jobs live k (.session f s)) : s.ssl = live ∧ ¬ s.core.Reads := by
  cases hw with
  | peeks _ _ hplace =>
      refine ⟨rfl, ?_⟩
      unfold Session.Reads
      rw [hplace]
      simp
  | written _ _ hwriting => exact ⟨rfl, hwriting.not_reads⟩

theorem At.faithful (h : At env jobs w a) (ha : (server (service jobs)).Reachable a) :
    Faithful env jobs w := by
  obtain ⟨hle, rs, hrs⟩ := Server.transcript ha
  have hsession : ∀ f s, w.holder = .session f s → s.ssl = w.live env ∧ (s.core.Reads →
      ∃ k j c, w.sent = k + 1 ∧ jobs[k]? = some j ∧ j.function = f ∧ w.ahead = j.q.bytes.drop c
        ∧ (InHead j.q s.core c ∨ ∃ m ns, InBody j.q s.core c m ns)) := by
    intro f s hh
    cases h.stage with
    | gone hgone =>
        rw [hh] at hgone
        cases hgone
    | idle _ _ _ hw =>
        rw [hh] at hw
        exact ⟨hw.not_reads.1, fun hreads => absurd hreads hw.not_reads.2⟩
    | before _ _ _ _ hw =>
        rw [hh] at hw
        exact ⟨hw.not_reads.1, fun hreads => absurd hreads hw.not_reads.2⟩
    | @reading j c core plain hj hsent _ hahead _ hholder _ hplace =>
        have hsame := hh.symm.trans hholder
        injection hsame with hf hs
        subst hf hs
        exact ⟨rfl, fun _ => ⟨a.answered, j, c, hsent, hj, rfl, hahead, hplace⟩⟩
    | writing _ _ _ _ hholder _ hwriting =>
        have hsame := hh.symm.trans hholder
        injection hsame with hf hs
        subst hs
        exact ⟨rfl, fun hreads => absurd hreads hwriting.not_reads⟩
  refine ⟨⟨rs, a.rest, ?_, ?_, ?_, hrs.answers, ?_⟩, ⟨h.client.ok, h.client.text⟩,
    fun f s hh => (hsession f s hh).1, fun f s hh => (hsession f s hh).2⟩
  · rw [← h.out]
    exact hrs.written
  · rw [hrs.length, ← h.sent]
    exact hle
  · rw [hrs.length]
    exact h.one
  · rw [hrs.length]
    exact hrs.last

/-- **The prototype answers like one server**: in every reachable state, whatever the calls
have returned and in whatever order gateway, workers, network and client have taken their
steps.  The client speaks AES-256-GCM, sends application data only and waits for each
response; a payload message is taken and received whole or not at all. -/
theorem prototype_refines (h : (prototype env jobs).Reachable w) : Faithful env jobs w :=
  (prototype_simulates env jobs).invariant (fun _ _ ha hat => hat.faithful ha) h

/-! ## §9. Two functions. -/

def Event.isSend : Event n → Bool
  | .send => true
  | _ => false

theorem World.run_reachable {es : List (Event n)} (h : (prototype env jobs).Reachable w)
    (hes : es.all (fun e => ! e.isSend) = true)
    (hrun : stepAll (World.step env jobs) w es = some w') : (prototype env jobs).Reachable w' := by
  refine h.stepAll (P := fun e => ! e.isSend) (fun w e w' he hstep => ⟨hstep, ?_⟩) hes hrun
  rintro rfl
  cases he

/-- A client traffic secret, and the keys that come of it. -/
def traffic : Bytes := List.replicate 48 1

theorem length_traffic : traffic.length = Suite.AES_256_GCM.secretLen := by decide

def agreed : Secrets where
  client_write_key := labelledKey lengthHkdf .SHA384 traffic 32
  client_write_iv := labelledIv lengthHkdf .SHA384 traffic
  server_write_key := Area.zero _
  server_write_iv := Area.zero _

theorem serverCall_other : ∀ c ∈ [] ++ [serverCall traffic], c.id ≠ .CLIENT_TRAFFIC_SECRET := by
  simp [serverCall]

/-- Two workers, `a` and `b`, under one directory. -/
def twoFunctions : Env Live 301 where
  layout := twoWorkers.layout
  crypt := plainCrypt
  wolf := plainSession
  secrets := agreed
  hkdf := lengthHkdf
  secret := traffic
  secret_length := length_traffic
  client_key := rfl
  client_iv := rfl
  before := []
  after := [serverCall traffic]
  others := serverCall_other
  socketDir := ascii "/r"
  bound path :=
    [ascii "a", ascii "b"].find? fun f => decide (path = sunPath (sockPath (ascii "/r") f))
  maxPeek := 4096

/-- A request for the function `f`. -/
def getLine (f : Bytes) : Bytes := ascii "GET /function/" ++ f ++ ascii " HTTP/1.1"

theorem isLine_getLine : (∀ l ∈ [getLine (ascii "a")], IsLine l ∧ l ≠ [])
    ∧ ∀ l ∈ [getLine (ascii "b")], IsLine l ∧ l ≠ [] := by decide +kernel

theorem declares_getLine : DeclaresLength [getLine (ascii "a")] ([] : Bytes).length
    ∧ DeclaresLength [getLine (ascii "b")] ([] : Bytes).length :=
  ⟨Or.inr ⟨rfl, by decide +kernel⟩, Or.inr ⟨rfl, by decide +kernel⟩⟩

def getA : Request := ⟨getLine (ascii "a"), [], [], isLine_getLine.1, declares_getLine.1⟩
def getB : Request := ⟨getLine (ascii "b"), [], [], isLine_getLine.2, declares_getLine.2⟩

theorem names_getA : NamesFunction (requestLine getA.bytes) (ascii "a") := by
  have hparse : parse_request_owner getA.bytes 128 = some (ascii "a") := by decide +kernel
  rw [parse_request_owner_eq] at hparse
  exact (parse_request_owner_iff.mp hparse).1

theorem names_getB : NamesFunction (requestLine getB.bytes) (ascii "b") := by
  have hparse : parse_request_owner getB.bytes 128 = some (ascii "b") := by decide +kernel
  rw [parse_request_owner_eq] at hparse
  exact (parse_request_owner_iff.mp hparse).1

theorem getA_fits : ∀ r ∈ [(⟨getA.bytes, 0⟩ : Record)], r.Fits := by
  unfold Record.Fits
  decide +kernel

/-- The second request comes in two records. -/
def getBRecords : List Record := [⟨getB.bytes.take 26, 0⟩, ⟨getB.bytes.drop 26, 3⟩]

theorem getB_fits : ∀ r ∈ getBRecords, r.Fits := by
  unfold Record.Fits
  decide +kernel

/-- A request to `a`, and then one to `b`. -/
def twoGets : List Job :=
  [⟨getA, ascii "a", names_getA, [⟨getA.bytes, 0⟩], by decide +kernel, getA_fits,
      by decide +kernel⟩,
    ⟨getB, ascii "b", names_getB, getBRecords, by decide +kernel, getB_fits, by decide +kernel⟩]

def goodCalls : ReceiveCalls := ⟨true, true, true⟩

/-- Nothing fails. -/
def iterCalls (read write : Outcome) (ns : UInt64) : IterCalls :=
  ⟨true, true, read, write, ns, true, true⟩

/-- The worker reads and writes in two parts. -/
def answerA : List (Event 301) :=
  [.trickle 9, .arrive, .acceptClient ⟨7, true, true, true, true, true⟩, .sendmsg (some 5),
    .acceptHandoff goodCalls, .iterate (iterCalls .error .error 0),
    .iterate (iterCalls (.moved 20) .error 0), .iterate (iterCalls (.moved 8) .error 2),
    .iterate (iterCalls .error .error 3), .iterate (iterCalls .error (.moved 100) 3),
    .iterate (iterCalls .error .want 3), .iterate (iterCalls .error (.moved 134) 3), .deliver,
    .deliver]

/-- The connection goes back to the gateway, and to the other worker. -/
def answerB : List (Event 301) :=
  [.iterate (iterCalls .error .error 0), .arrive, .iterate (iterCalls .error .error 0),
    .relaymsg (some 6), .acceptRelay ⟨true, true⟩ (Area.zero _), .sendmsg (some 7),
    .acceptHandoff goodCalls, .trickle 5, .iterate (iterCalls .error .error 0),
    .iterate (iterCalls (.moved 26) .error 4), .iterate (iterCalls .want .error 4), .arrive,
    .iterate (iterCalls (.moved 2) .error 5), .iterate (iterCalls .error .error 6),
    .iterate (iterCalls .error (.moved 50) 6), .deliver]

/-- The client has the answer of `a`. -/
def answeredA : Option (World Live) :=
  (World.start.step twoFunctions twoGets .send).bind fun w =>
    stepAll (World.step twoFunctions twoGets) w answerA

/-- `b` has written a part of its answer, and the client has it. -/
def answeringB : Option (World Live) :=
  (answeredA.bind fun w => w.step twoFunctions twoGets .send).bind fun w =>
    stepAll (World.step twoFunctions twoGets) w answerB

theorem answeredA_settled : answeredA.map (fun w => (w.sent, some w.got))
    = some (1, response (ascii "a") getA 0 2 3) := by decide +kernel

theorem answeredA_reachable {w : World Live} (h : answeredA = some w) :
    (prototype twoFunctions twoGets).Reachable w := by
  obtain ⟨u, hsend, hrun⟩ := Option.bind_eq_some_iff.mp h
  refine World.run_reachable (.step (.init rfl) ⟨hsend, fun _ => ?_⟩) (by decide +kernel) hrun
  exact ⟨[], rfl, List.forall_mem_nil _, rfl⟩

theorem answeringB_reachable {w : World Live} (h : answeringB = some w) :
    (prototype twoFunctions twoGets).Reachable w := by
  obtain ⟨u, hu, hrun⟩ := Option.bind_eq_some_iff.mp h
  obtain ⟨v, hv, hsend⟩ := Option.bind_eq_some_iff.mp hu
  have hgot := answeredA_settled
  rw [hv] at hgot
  obtain ⟨hsent, htext⟩ := Prod.mk.inj (Option.some.inj hgot)
  refine World.run_reachable (.step (answeredA_reachable hv) ⟨hsend, fun _ => ?_⟩)
    (by decide +kernel) hrun
  refine ⟨[v.got], hsent.symm, fun p hp => ?_, (List.append_nil _).symm⟩
  obtain rfl := List.mem_singleton.mp hp
  exact ⟨_, response_framed (by decide +kernel) (Nat.zero_le _) htext.symm⟩

theorem prototype_refines_two : ∃ w : World Live, answeringB = some w
    ∧ (w.out.length, w.got.length) = (284, 284) ∧ Faithful twoFunctions twoGets w := by
  have hrun : answeringB.map (fun w => (w.out.length, w.got.length)) = some (284, 284) := by
    decide +kernel
  obtain ⟨w, hw, hlen⟩ := Option.map_eq_some_iff.mp hrun
  exact ⟨w, hw, hlen, prototype_refines (answeringB_reachable hw)⟩

end TlsMigration.Faasd
