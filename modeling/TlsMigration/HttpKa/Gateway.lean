/-
  TlsMigration.HttpKa.Gateway
  ───────────────────────────
  **THE ACCEPT LOOP OF THE KEEP-ALIVE HTTP GATEWAY**
  (RunProto of benchhttp/server.go, httpmigrate_ka_accept_peek and
  httpmigrate_ka_send_fd of httpmigrate_ka.c).

  The gateway looks at a connection once, right after `accept`, and takes
  what it finds there for all there will be.  Here the clients' segments
  arrive between any two of its system calls: the kernel keeps the accept
  queue and what each client has sent, and the loop is a program counter
  over it.

    • `serve_spec`      — one connection: it is handed over, or closed;
    • `step_closed`, `step_drops` — one step, timely or not;
    • `never_drops_iff` — the runs in which no client is dropped for being slow.
-/
import TlsMigration.Http.GoRoute
import TlsMigration.Lib.Transition

namespace TlsMigration.HttpKa.Gateway

open TlsMigration.Http

/-! ## §1. Connections. -/

abbrev ConnId := Nat

/-- Where the loop stands. -/
inductive Pc where
  /-- in `EpollWait`; `ended` is the connection at which `accept_peek` ended the loop -/
  | waiting (ended : Option ConnId)
  /-- before `accept` -/
  | accepting
  /-- between `accept` and the peek -/
  | holding (c : ConnId)
deriving DecidableEq

structure World where
  pc : Pc
  known : ConnId → Bool
  /-- the accept queue of the listener -/
  queue : List ConnId
  /-- what has arrived from the client -/
  arrived : ConnId → Bytes
  /-- the client has closed or reset the connection -/
  gone : ConnId → Bool
  /-- the gateway has closed it -/
  closed : ConnId → Bool
  /-- the function it was handed to -/
  dispatched : ConnId → Option Bytes

def World.start : World where
  pc := .waiting none
  known := fun _ => false
  queue := []
  arrived := fun _ => []
  gone := fun _ => false
  closed := fun _ => false
  dispatched := fun _ => none

def World.close (w : World) (c : ConnId) : World :=
  { w with closed := Function.update w.closed c true }

/-- What the calls on one accepted connection return. -/
structure ServeCalls where
  nonblocking_ok : Bool
  /-- `recv` reports the client's reset instead of its bytes -/
  lost : Bool
  /-- `unix_client_connect` -/
  connected : Bool
  /-- `sendfd_with_state` returned 0 -/
  sent : Bool

def HEADER_BUF : Nat := 8192

/-- `httpmigrate_ka_accept_peek`, from `accept` on; `none` is `-1`. -/
def httpmigrate_ka_accept_peek (w : World) (c : ConnId) (calls : ServeCalls) :
    World × Option Bytes :=
  if calls.nonblocking_ok = false then (w.close c, none)
  else
    let headers_buf := if w.gone c ∧ calls.lost then [] else (w.arrived c).take (HEADER_BUF - 1)
    if headers_buf = [] then (w.close c, none) else (w, some headers_buf)

/-- `httpmigrate_ka_send_fd` -/
def httpmigrate_ka_send_fd (w : World) (c : ConnId) (fnName : Bytes) (calls : ServeCalls) :
    World × Int :=
  if calls.connected = false then (w.close c, -1)
  else if calls.sent = false then (w.close c, -1)
  else ({ w with dispatched := Function.update w.dispatched c (some fnName) }, 0)

/-- One turn of the accept loop, behind the `accept` that returned `c`. -/
def serve (w : World) (c : ConnId) (calls : ServeCalls) : World :=
  match httpmigrate_ka_accept_peek w c calls with
  -- `break`
  | (w, none) => { w with pc := .waiting (some c) }
  | (w, some peeked) =>
      match Benchhttp.parseFunctionName peeked with
      | none => { w.close c with pc := .accepting }
      | some fnName => { (httpmigrate_ka_send_fd w c fnName calls).1 with pc := .accepting }

inductive Event where
  /-- a handshake ends, and the connection joins the queue -/
  | connect (c : ConnId)
  | arrive (c : ConnId) (bytes : Bytes)
  /-- the client closes or resets the connection -/
  | leave (c : ConnId)
  /-- `EpollWait` reports the listener -/
  | wake
  /-- `accept`, which may fail for want of connections or of resources -/
  | accept (ok : Bool)
  | serve (calls : ServeCalls)

/-- What arrives at a connection that was closed is lost. -/
def step (w : World) : Event → Option World
  | .connect c =>
      if w.known c then none
      else some { w with known := Function.update w.known c true, queue := w.queue ++ [c] }
  | .arrive c bytes =>
      if w.known c = false ∨ w.gone c then none
      else if w.closed c then some w
      else some { w with arrived := Function.update w.arrived c (w.arrived c ++ bytes) }
  | .leave c =>
      if w.known c then some { w with gone := Function.update w.gone c true } else none
  | .wake =>
      match w.pc with
      | .waiting _ => if w.queue = [] then none else some { w with pc := .accepting }
      | _ => none
  | .accept ok =>
      match w.pc with
      | .accepting =>
          match ok, w.queue with
          | true, c :: queue => some { w with pc := .holding c, queue := queue }
          | _, _ => some { w with pc := .waiting none }
      | _ => none
  | .serve calls =>
      match w.pc with
      | .holding c => some (serve w c calls)
      | _ => none

/-- The gateway's listener, with any number of clients. -/
def system : TransitionSystem World Event where
  init := fun w => w = World.start
  step := fun w e w' => step w e = some w'

/-! ## §2. Slow clients. -/

/-- A complete line has come, and it names no function. -/
def InvalidLine (b : Bytes) : Prop := Ch.lf ∈ b ∧ Benchhttp.parseFunctionName b = none

/-- The client has sent an invalid request line, or it has gone. -/
def Excused (w : World) (c : ConnId) : Prop := w.gone c = true ∨ InvalidLine (w.arrived c)

/-- No client is dropped, and none ends the accept loop, for being slow.  A client whose line has
come up to some point inside the name is handed over under that front of the name: it is not
closed and holds nobody up, so it is kept here, and whose worker gets it is not said. -/
structure Kept (w : World) : Prop where
  closed : ∀ c, w.closed c = true → Excused w c
  ended : ∀ c, w.pc = .waiting (some c) → Excused w c

/-- When the gateway looks at the connection, so much of the request line has come that the
gateway reads a function's name in it (a part of the name will do), and the calls that hand the
connection over succeed. -/
def Timely (w : World) (c : ConnId) (calls : ServeCalls) : Prop :=
  Excused w c
    ∨ (calls.nonblocking_ok = true ∧ calls.connected = true ∧ calls.sent = true
      ∧ (Benchhttp.parseFunctionName ((w.arrived c).take (HEADER_BUF - 1))).isSome)

/-- The condition on a step: whoever is looked at is not slow. -/
def StepTimely (w : World) : Event → Prop
  | .serve calls => ∀ c, w.pc = .holding c → Timely w c calls
  | _ => True

/-! ## §3. One connection. -/

section Serving

variable {w : World} {c : ConnId} {calls : ServeCalls}

theorem parseFunctionName_nil : Benchhttp.parseFunctionName [] = none := by decide +kernel

/-- The gateway reads a name, and every call succeeds. -/
def HandedOver (w : World) (c : ConnId) (calls : ServeCalls) : Prop :=
  ¬ (w.gone c = true ∧ calls.lost = true) ∧ calls.nonblocking_ok = true
    ∧ calls.connected = true ∧ calls.sent = true
    ∧ (Benchhttp.parseFunctionName ((w.arrived c).take (HEADER_BUF - 1))).isSome

/-- **What the gateway does with an accepted connection**: it is handed over, or closed. -/
theorem serve_spec (w : World) (c : ConnId) (calls : ServeCalls) :
    (serve w c calls).arrived = w.arrived ∧ (serve w c calls).gone = w.gone
      ∧ ((HandedOver w c calls ∧ (serve w c calls).closed = w.closed
          ∧ (serve w c calls).pc = .accepting)
        ∨ (¬ HandedOver w c calls ∧ (serve w c calls).closed = Function.update w.closed c true
          ∧ ((serve w c calls).pc = .accepting ∨ (serve w c calls).pc = .waiting (some c)))) := by
  unfold serve httpmigrate_ka_accept_peek
  cases hnb : calls.nonblocking_ok with
  | false =>
      rw [if_pos rfl]
      refine ⟨rfl, rfl, Or.inr ⟨fun h => ?_, rfl, Or.inr rfl⟩⟩
      exact absurd (hnb.symm.trans h.2.1) (by decide)
  | true =>
      rw [if_neg (by decide)]
      dsimp only
      by_cases hlost : w.gone c = true ∧ calls.lost = true
      · rw [if_pos hlost, if_pos rfl]
        exact ⟨rfl, rfl, Or.inr ⟨fun h => h.1 hlost, rfl, Or.inr rfl⟩⟩
      · rw [if_neg hlost]
        by_cases hnil : (w.arrived c).take (HEADER_BUF - 1) = []
        · rw [if_pos hnil]
          refine ⟨rfl, rfl, Or.inr ⟨fun h => ?_, rfl, Or.inr rfl⟩⟩
          have hname := h.2.2.2.2
          rw [hnil, parseFunctionName_nil] at hname
          cases hname
        · rw [if_neg hnil]
          dsimp only
          cases hparse : Benchhttp.parseFunctionName ((w.arrived c).take (HEADER_BUF - 1)) with
          | none =>
              refine ⟨rfl, rfl, Or.inr ⟨fun h => ?_, rfl, Or.inl rfl⟩⟩
              have hname := h.2.2.2.2
              rw [hparse] at hname
              cases hname
          | some fnName =>
              unfold httpmigrate_ka_send_fd
              dsimp only
              cases hconn : calls.connected with
              | false =>
                  refine ⟨rfl, rfl, Or.inr ⟨fun h => ?_, rfl, Or.inl rfl⟩⟩
                  exact absurd (hconn.symm.trans h.2.2.1) (by decide)
              | true =>
                  rw [if_neg (by decide)]
                  cases hsent : calls.sent with
                  | false =>
                      refine ⟨rfl, rfl, Or.inr ⟨fun h => ?_, rfl, Or.inl rfl⟩⟩
                      exact absurd (hsent.symm.trans h.2.2.2.1) (by decide)
                  | true =>
                      rw [if_neg (by decide)]
                      refine ⟨rfl, rfl, Or.inl ⟨⟨hlost, hnb, hconn, hsent, ?_⟩, rfl, rfl⟩⟩
                      rw [hparse]
                      rfl

/-- Whoever is looked at in time is handed over, or has gone, or has sent a bad line. -/
theorem timely_iff : Timely w c calls ↔ Excused w c ∨ HandedOver w c calls := by
  constructor
  · rintro (he | ⟨hnb, hconn, hsent, hname⟩)
    · exact Or.inl he
    · by_cases hg : w.gone c = true
      · exact Or.inl (Or.inl hg)
      · exact Or.inr ⟨fun h => hg h.1, hnb, hconn, hsent, hname⟩
  · rintro (he | ⟨-, hready⟩)
    · exact Or.inl he
    · exact Or.inr hready

end Serving

/-! ## §4. Runs. -/

/-- What a step can do. -/
inductive StepTo (w : World) : Event → World → Prop where
  | connect (c : ConnId) : w.known c = false → StepTo w (.connect c)
      { w with known := Function.update w.known c true, queue := w.queue ++ [c] }
  | late (c : ConnId) (bytes : Bytes) : w.closed c = true → StepTo w (.arrive c bytes) w
  | arrive (c : ConnId) (bytes : Bytes) : w.closed c = false → StepTo w (.arrive c bytes)
      { w with arrived := Function.update w.arrived c (w.arrived c ++ bytes) }
  | leave (c : ConnId) : StepTo w (.leave c)
      { w with gone := Function.update w.gone c true }
  | wake : w.queue ≠ [] → StepTo w .wake { w with pc := .accepting }
  | accept (c : ConnId) (queue : List ConnId) : w.queue = c :: queue → StepTo w (.accept true)
      { w with pc := .holding c, queue := queue }
  | drained (ok : Bool) : StepTo w (.accept ok) { w with pc := .waiting none }
  | serve (c : ConnId) (calls : ServeCalls) : w.pc = .holding c →
      StepTo w (.serve calls) (Gateway.serve w c calls)

theorem StepTo.of_step {w w' : World} {e : Event} (h : step w e = some w') : StepTo w e w' := by
  cases e with
  | connect c =>
      simp only [step] at h
      split at h
      next => cases h
      next hk =>
        injection h with h
        subst h
        exact .connect c (by simpa using hk)
  | arrive c bytes =>
      simp only [step] at h
      split at h
      next => cases h
      next =>
        split at h
        next hc =>
          injection h with h
          subst h
          exact .late c bytes hc
        next hc =>
          injection h with h
          subst h
          exact .arrive c bytes (by simpa using hc)
  | leave c =>
      simp only [step] at h
      split at h
      next =>
        injection h with h
        subst h
        exact .leave c
      next => cases h
  | wake =>
      simp only [step] at h
      split at h
      next =>
        split at h
        next => cases h
        next hq =>
          injection h with h
          subst h
          exact .wake hq
      next => cases h
  | accept ok =>
      simp only [step] at h
      split at h
      next =>
        split at h
        next c queue hq =>
          injection h with h
          subst h
          exact .accept c queue hq
        next =>
          injection h with h
          subst h
          exact .drained _
      next => cases h
  | serve calls =>
      simp only [step] at h
      split at h
      next c hpc =>
        injection h with h
        subst h
        exact .serve c calls hpc
      next => cases h

section Runs

variable {w w' : World}

/-- Only `accept_peek` ends the loop at a connection, and it has closed that connection. -/
theorem step_ended {e : Event} (h : ∀ c, w.pc = .waiting (some c) → w.closed c = true)
    (hstep : StepTo w e w') : ∀ c, w'.pc = .waiting (some c) → w'.closed c = true := by
  cases hstep with
  | connect c _ => exact h
  | late c bytes _ => exact h
  | arrive c bytes _ => exact h
  | leave c => exact h
  | wake _ =>
      intro c hpc
      cases hpc
  | accept c queue _ =>
      intro c' hpc
      cases hpc
  | drained ok =>
      intro c hpc
      cases hpc
  | serve c calls _ =>
      intro c' hpc
      obtain ⟨-, -, ⟨-, -, hpc'⟩ | ⟨-, hclosed, hpc' | hpc'⟩⟩ := serve_spec w c calls
      · rw [hpc'] at hpc
        cases hpc
      · rw [hpc'] at hpc
        cases hpc
      · rw [hpc'] at hpc
        injection hpc with hpc
        injection hpc with hpc
        rw [← hpc, hclosed, Function.update_self]

/-- **One step**: a step that is timely closes nobody who is merely slow. -/
theorem step_closed {e : Event} (h : ∀ c, w.closed c = true → Excused w c)
    (hgood : StepTimely w e) (hstep : StepTo w e w') :
    ∀ c, w'.closed c = true → Excused w' c := by
  cases hstep with
  | connect c _ => exact h
  | late c bytes _ => exact h
  | arrive c bytes hopen =>
      -- what has come on a closed connection stays what it is
      intro c' hc'
      have hne : c' ≠ c := by
        rintro rfl
        exact absurd (hc'.symm.trans hopen) (by simp)
      rcases h c' hc' with hg | hi
      · exact Or.inl hg
      · right
        show InvalidLine (Function.update w.arrived c _ c')
        rw [Function.update_of_ne hne]
        exact hi
  | leave c =>
      intro c' hc'
      rcases h c' hc' with hg | hi
      · left
        show Function.update w.gone c true c' = true
        by_cases e : c' = c
        · rw [e, Function.update_self]
        · rw [Function.update_of_ne e]
          exact hg
      · exact Or.inr hi
  | wake _ => exact h
  | accept c queue _ => exact h
  | drained ok => exact h
  | serve c calls hpc =>
      obtain ⟨harrived, hgone, hclosed⟩ := serve_spec w c calls
      have hexc : ∀ {c'}, Excused w c' → Excused (serve w c calls) c' := by
        intro c' he
        unfold Excused at he ⊢
        rw [harrived, hgone]
        exact he
      intro c' hc'
      rcases hclosed with ⟨-, hclosed, -⟩ | ⟨hno, hclosed, -⟩
      · exact hexc (h c' (hclosed ▸ hc'))
      · rw [hclosed] at hc'
        by_cases e : c' = c
        · rw [e]
          exact hexc ((timely_iff.mp (hgood c hpc)).resolve_right hno)
        · rw [Function.update_of_ne e] at hc'
          exact hexc (h c' hc')

/-- A step that is not timely drops a client that is merely slow. -/
theorem step_drops {e : Event} (hbad : ¬ StepTimely w e) (hstep : StepTo w e w') :
    ¬ Kept w' := by
  cases hstep with
  | connect c _ => exact absurd trivial hbad
  | late c bytes _ => exact absurd trivial hbad
  | arrive c bytes _ => exact absurd trivial hbad
  | leave c => exact absurd trivial hbad
  | wake _ => exact absurd trivial hbad
  | accept c queue _ => exact absurd trivial hbad
  | drained ok => exact absurd trivial hbad
  | serve c calls hpc =>
      intro hkept
      apply hbad
      intro c' hpc'
      rw [hpc] at hpc'
      injection hpc' with hpc'
      subst hpc'
      obtain ⟨harrived, hgone, hclosed⟩ := serve_spec w c calls
      apply timely_iff.mpr
      rcases hclosed with ⟨hhanded, -, -⟩ | ⟨-, hclosed, -⟩
      · exact Or.inr hhanded
      · left
        have he := hkept.closed c (by rw [hclosed, Function.update_self])
        unfold Excused at he ⊢
        rw [harrived, hgone] at he
        exact he

/-- **No client is dropped for being slow** in the runs in which none is: every run whose
accepted connections are all looked at in time.  And any other step drops one. -/
theorem never_drops_iff (w : World) :
    ((system.restrict StepTimely).Reachable w → Kept w)
      ∧ ∀ e w', system.Reachable w → system.step w e w' → ¬ StepTimely w e → ¬ Kept w' := by
  constructor
  · intro h
    have hclosed : ∀ c, w.closed c = true → Excused w c := by
      refine h.invariant (fun w => ∀ c, w.closed c = true → Excused w c) ?_ ?_
      · rintro w rfl c hc
        cases hc
      · intro w e w' ih hstep
        exact step_closed ih hstep.2 (.of_step hstep.1)
    have hended : ∀ c, w.pc = .waiting (some c) → w.closed c = true := by
      refine h.invariant (fun w => ∀ c, w.pc = .waiting (some c) → w.closed c = true) ?_ ?_
      · rintro w rfl c hc
        cases hc
      · intro w e w' ih hstep
        exact step_ended ih (.of_step hstep.1)
    exact ⟨hclosed, fun c hc => hclosed c (hended c hc)⟩
  · intro e w' _ hstep hbad
    exact step_drops hbad (.of_step hstep)

/-! ### Two clients -/

/-- The events `es`, one after the other. -/
def run (w : World) (es : List Event) : Option World := es.foldlM step w

theorem reachable_run {Good : World → Event → Prop} (es : List Event) :
    ∀ {w w' : World}, (system.restrict Good).Reachable w → (∀ e ∈ es, ∀ w, Good w e) →
      run w es = some w' → (system.restrict Good).Reachable w' := by
  induction es with
  | nil =>
      intro w w' h _ hrun
      cases hrun
      exact h
  | cons e es ih =>
      intro w w' h hgood hrun
      obtain ⟨w₁, hstep, hrun⟩ := Option.bind_eq_some_iff.mp hrun
      exact ih (.step h ⟨hstep, hgood e (by simp) w⟩) (fun e' he' => hgood e' (by simp [he'])) hrun

/-- Two clients connect, and the gateway accepts the first, behind the `segments`. -/
def twoClients (segments : List Event) : List Event :=
  [.connect 0, .connect 1] ++ segments ++ [.wake, .accept true]

def callsOk : ServeCalls := ⟨true, false, true, true⟩

/-- A client that sends its request line with the handshake. -/
theorem never_drops_iff_prompt :
    ∃ w, w.dispatched 0 = some (ascii "a") ∧ w.pc = .accepting ∧ Kept w := by
  have hrun : (run World.start (twoClients [.arrive 0 (ascii "GET /function/a HTTP/1.1\r\n")])).map
      (fun w => (w.pc, w.arrived 0, (serve w 0 callsOk).dispatched 0, (serve w 0 callsOk).pc))
        = some (.holding 0, ascii "GET /function/a HTTP/1.1\r\n", some (ascii "a"), .accepting) := by
    decide +kernel
  obtain ⟨w, hw, hfacts⟩ := Option.map_eq_some_iff.mp hrun
  simp only [Prod.mk.injEq] at hfacts
  obtain ⟨hpc, harrived, hdisp, hacc⟩ := hfacts
  have hreach : (system.restrict StepTimely).Reachable w := by
    refine reachable_run _ (.init rfl) (fun e he w => ?_) hw
    simp only [twoClients, List.cons_append, List.nil_append, List.mem_cons, List.not_mem_nil,
      or_false] at he
    rcases he with rfl | rfl | rfl | rfl | rfl <;> trivial
  refine ⟨serve w 0 callsOk, hdisp, hacc, (never_drops_iff _).1 (.step (a := .serve callsOk) hreach
    ⟨?_, fun c hc => ?_⟩)⟩
  · show step w (.serve callsOk) = _
    simp only [step, hpc]
  · rw [hpc] at hc
    injection hc with hc
    subst hc
    refine Or.inr ⟨rfl, rfl, rfl, ?_⟩
    rw [harrived]
    decide +kernel

/-- A client that connects, and has sent nothing when the gateway looks. -/
theorem drops_slow_client :
    ∃ w, system.Reachable w ∧ w.closed 0 = true ∧ w.gone 0 = false ∧ w.arrived 0 = []
      ∧ w.pc = .waiting (some 0) ∧ w.queue = [1] ∧ ¬ Kept w := by
  have hrun : (run World.start (twoClients [] ++ [.serve callsOk])).map
      (fun w => (w.closed 0, w.gone 0, w.arrived 0, w.pc, w.queue))
        = some (true, false, [], .waiting (some 0), [1]) := by
    decide +kernel
  obtain ⟨w, hw, hfacts⟩ := Option.map_eq_some_iff.mp hrun
  simp only [Prod.mk.injEq] at hfacts
  obtain ⟨hclosed, hgone, harrived, hpc, hqueue⟩ := hfacts
  have hreach : (system.restrict fun _ _ => True).Reachable w :=
    reachable_run _ (.init rfl) (fun _ _ _ => trivial) hw
  refine ⟨w, hreach.of_restrict, hclosed, hgone, harrived, hpc, hqueue, fun hkept => ?_⟩
  rcases hkept.closed 0 hclosed with hg | hi
  · rw [hgone] at hg
    cases hg
  · have hlf := hi.1
    rw [harrived] at hlf
    cases hlf

end Runs

end TlsMigration.HttpKa.Gateway
