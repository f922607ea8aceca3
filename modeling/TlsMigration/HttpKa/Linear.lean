/-
  TlsMigration.HttpKa.Linear
  ──────────────────────────
  **LINEAR OWNERSHIP OF BOTH DESCRIPTORS OF A HANDOFF IN THE TIMING WORKER.**

  The event loop adds to `HttpKa.Ownership` that the events still to be
  handled are on registered descriptors, and that what a freed session had
  has ended.

    • `both_linear` — the descriptors in every reachable state of a run in
                      which no `sendmsg` of `session_relay` fails.
-/
import TlsMigration.HttpKa.Ownership

namespace TlsMigration.HttpKa.Worker

open TlsMigration.Handoff

variable {w w₁ : Worker} {loc : Locals} {fd : Fd}

/-! ## §1. The event loop. -/

/-- **One event**, on a descriptor that is registered and not the listening one. -/
theorem Inv.handle_event (cfg : Config) {o : EventCalls} (h : Inv w noLocals) (rev : EpollFlags)
    (hepoll : w.fds.epoll fd = true) (hlisten : fd ≠ w.listen_fd) (hok : w.EventOk o)
    (hsent : o.relay.sent = true) :
    Inv (w.handle_event cfg fd rev o) noLocals ∧ Frame fd w (w.handle_event cfg fd rev o) := by
  unfold Worker.handle_event
  split
  · exact ⟨h, Frame.of_fds (.refl _) rfl rfl rfl rfl⟩
  cases ho : w.s_handoffs fd with
  | some obj =>
      dsimp only
      split
      · exact h.handle_handoff_fd cfg ho hok hsent
      · exact h.handoff_close ho
  | none =>
      cases hs : w.s_sessions fd with
      | none =>
          -- nothing but the tables registers a descriptor
          exfalso
          obtain ⟨k, id, hreg, hk⟩ := h.custody.registered hepoll
          cases k with
          | listen => exact hlisten (by simpa [slots] using (congrArg (Option.map Prod.fst) hk).symm)
          | handoff fd' =>
              cases ho' : w.s_handoffs fd' with
              | none => simp [slots, ho'] at hk
              | some obj =>
                  have e := (h.handoff fd' obj ho').fd_eq
                  simp only [slots, ho', Option.map_some, Option.some.injEq, Prod.mk.injEq] at hk
                  rw [← e, hk.1, ho] at ho'
                  cases ho'
          | client fd' =>
              cases hs' : w.s_sessions fd' with
              | none => simp [slots, hs'] at hk
              | some s =>
                  rw [(h.session fd' s hs').held hs'] at hk
                  simp only [Option.some.injEq, Prod.mk.injEq] at hk
                  rw [hk.1, hs] at hs'
                  cases hs'
          | pipe fd' => exact hreg
          | localClient => exact hreg
          | localPipe => exact hreg
      | some s =>
          dsimp only
          split
          · exact h.advance cfg hs hok.socket hsent
          · exact h.session_close hs

/-- What holds between two events. -/
structure LoopInv (w : Worker) : Prop where
  inv : Inv w noLocals
  batch_nodup : (w.batch.map Prod.fst).Nodup
  batch_registered : ∀ e ∈ w.batch, w.fds.epoll e.1 = true
  freed : ∀ id ∈ w.freed, id < w.fds.next ∧ ∀ fd, w.fds.files fd ≠ some id

/-- The event loop's own variables play no role in `Inv`. -/
theorem Inv.set_loop (h : Inv w noLocals) (batch : List (Fd × EpollFlags)) (accepting : Bool) :
    Inv { w with batch := batch, accepting := accepting } noLocals where
  custody := h.custody.congr fun k => by cases k <;> rfl
  handoff := h.handoff
  session := h.session
  received := h.received
  disjoint := h.disjoint

/-- A handler that leaves the other descriptors registered keeps the loop's invariant. -/
theorem Frame.loopInv (hf : Frame fd w w₁) (hinv : Inv w₁ noLocals)
    (hnodup : (w.batch.map Prod.fst).Nodup)
    (hreg : ∀ e ∈ w.batch, e.1 ≠ fd ∧ w.fds.epoll e.1 = true)
    (hfreed : ∀ id ∈ w.freed, id < w.fds.next ∧ ∀ fd, w.fds.files fd ≠ some id) :
    LoopInv w₁ where
  inv := hinv
  batch_nodup := by
    rw [hf.batch]
    exact hnodup
  batch_registered := fun e he => by
    rw [hf.batch] at he
    exact hf.fds.epoll e.1 (hreg e he).1 (hreg e he).2
  freed := fun id hid => by
    rcases hf.freed id hid with hold | hend
    · obtain ⟨hlt, hend⟩ := hfreed id hold
      exact ⟨Nat.lt_of_lt_of_le hlt hf.fds.next_le, hf.fds.ended hlt hend⟩
    · exact hend

theorem LoopInv.initial (h : Worker.Initial w) : LoopInv w where
  inv := {
    custody := {
      ok := h.ok
      no_fault := h.faults
      isOpen := fun {k fd id} hk => by
        cases k with
        | listen =>
            have hk : some (w.listen_fd, w.listen_file) = some (fd, id) := hk
            cases hk
            exact h.listen
        | handoff fd' => simp [slots, h.s_handoffs] at hk
        | client fd' => simp [slots, h.s_sessions] at hk
        | pipe fd' => simp [slots, h.s_sessions] at hk
        | localClient => cases hk
        | localPipe => cases hk
      inj := fun {k k' fd id id'} hk hk' => by
        have honly : ∀ {k fd id}, w.slots noLocals k = some (fd, id) → k = .listen := by
          intro k fd id hk
          cases k with
          | listen => rfl
          | handoff fd' => simp [slots, h.s_handoffs] at hk
          | client fd' => simp [slots, h.s_sessions] at hk
          | pipe fd' => simp [slots, h.s_sessions] at hk
          | localClient => cases hk
          | localPipe => cases hk
        rw [honly hk, honly hk']
      covered := fun hf hle =>
        absurd (h.ok.files_lt hf) (Nat.not_lt.mpr (h.first ▸ hle))
      first_le := Nat.le_of_eq h.first
      admitted := fun {k fd id} hk => by
        cases k with
        | listen =>
            have hk : some (w.listen_fd, w.listen_file) = some (fd, id) := hk
            cases hk
            show w.listen_file < w.first
            rw [h.first]
            exact h.ok.files_lt h.listen
        | handoff fd' => simp [slots, h.s_handoffs] at hk
        | client fd' => simp [slots, h.s_sessions] at hk
        | pipe fd' => simp [slots, h.s_sessions] at hk
        | localClient => cases hk
        | localPipe => cases hk
      sent := fun {id} hs => by
        rw [h.sends] at hs
        exact absurd hs (Nat.lt_irrefl 0)
      registered := fun {fd} he => ⟨.listen, w.listen_file, trivial, by rw [h.epoll fd he]; rfl⟩ }
    handoff := by simp [h.s_handoffs]
    session := by simp [h.s_sessions]
    received := by simp [Received, h.clients, h.pipes]
    disjoint := by simp [h.clients] }
  batch_nodup := by simp [h.batch]
  batch_registered := by simp [h.batch]
  freed := by simp [h.freed]

/-- In this step no `sendmsg` of `session_relay` fails. -/
def SendsWork (_ : Worker) : WorkerLabel → Prop
  | .event _ _ o => o.relay.sent = true
  | _ => True

/-- **The step lemma.** -/
theorem LoopInv.step {cfg : Config} {l : WorkerLabel} (h : LoopInv w)
    (hst : Worker.Step cfg w l w₁) (hgood : SendsWork w l) : LoopInv w₁ := by
  cases hst with
  | wait events _ _ hnodup hreg =>
      exact ⟨h.inv.set_loop events w.accepting, hnodup, hreg, h.freed⟩
  | listen _ hbatch =>
      have hnodup := h.batch_nodup
      have hreg := h.batch_registered
      rw [hbatch] at hnodup hreg
      exact ⟨h.inv.set_loop _ true, (List.nodup_cons.mp hnodup).2,
        fun e he => hreg e (List.mem_cons_of_mem _ he), h.freed⟩
  | accept o _ hfree =>
      obtain ⟨hinv, hf⟩ := h.inv.handle_accept hfree
      refine hf.loopInv hinv h.batch_nodup (fun e he => ⟨?_, h.batch_registered e he⟩) h.freed
      -- what is registered is open, so the new number is none of the batch
      intro hfd
      have hno := (h.inv.custody.unused hfree).1
      rw [← hfd, h.batch_registered e he] at hno
      cases hno
  | accepted _ =>
      exact ⟨h.inv.set_loop w.batch false, h.batch_nodup, h.batch_registered, h.freed⟩
  | @event fd rev rest o _ hbatch hlisten hok =>
      have hnodup := h.batch_nodup
      have hreg := h.batch_registered
      rw [hbatch] at hnodup hreg
      obtain ⟨hfresh, hnodup⟩ := List.nodup_cons.mp hnodup
      obtain ⟨hinv, hf⟩ := (h.inv.set_loop rest w.accepting).handle_event cfg rev
        (hreg _ List.mem_cons_self) hlisten ⟨hok.recv, hok.socket⟩ hgood
      refine hf.loopInv hinv hnodup
        (fun e he => ⟨?_, hreg e (List.mem_cons_of_mem _ he)⟩) h.freed
      intro hfd
      exact hfresh (hfd ▸ List.mem_map_of_mem he)

/-! ## §2. Linear ownership. -/

/-- Who has a descriptor. -/
inductive Holder where
  | handoff
  | session
  | transferred
  | closed
  deriving DecidableEq

def HandoffHas (h : HandoffObj) (c : Fd) : Prop :=
  h.client.map Prod.fst = some c ∨ h.pipe_wr.map Prod.fst = some c

def SessionHas (s : SessionObj) (c : Fd) : Prop := s.core.fd = some c ∨ s.core.pipe_fd = some c

/-- The descriptor `id` is held by one handoff, or by one live session; or it was given away,
or closed. -/
def InCustody (w : Worker) (id : FileId) : Holder → Prop
  | .handoff => ∃! fd, ∃ h c, w.s_handoffs fd = some h ∧ HandoffHas h c ∧ w.fds.files c = some id
  | .session => ∃! fd, ∃ s c, w.s_sessions fd = some s ∧ SessionHas s c ∧ w.fds.files c = some id
  | .transferred => 0 < w.fds.sends id
  | .closed => 0 < w.fds.closes id

/-- **Linear ownership.** -/
structure Linear (w : Worker) : Prop where
  client : ∀ id ∈ w.clients, ∃! c, w.InCustody id c
  pipe : ∀ id ∈ w.pipes, ∃! c, w.InCustody id c
  /-- only clients are given away -/
  pipe_kept : ∀ id ∈ w.pipes, w.fds.sends id = 0
  closed_once : ∀ id, w.fds.closes id ≤ 1
  /-- no call used a number after its open had ended -/
  no_fault : w.fds.faults = 0
  /-- the clients of the sessions that were freed -/
  freed : ∀ id ∈ w.freed, w.fds.closes id + w.fds.sends id = 1

/-- What a session has is in one of its two places. -/
theorem session_slot {s : SessionObj} {c : Fd} (hs : w.s_sessions fd = some s)
    (hhas : SessionHas s c) :
    (∃ id, w.slots noLocals (.client fd) = some (c, id))
      ∨ ∃ id, w.slots noLocals (.pipe fd) = some (c, id) := by
  rcases hhas with h | h
  · exact Or.inl ⟨s.file, by simp [slots, hs, h]⟩
  · exact Or.inr ⟨s.pipe_file, by simp [slots, hs, h]⟩

/-- No handoff of the table has a descriptor of its own. -/
theorem Inv.not_handoff (h : Inv w loc) (id : FileId) : ¬ w.InCustody id .handoff := by
  intro hh
  obtain ⟨fd, ⟨obj, c, ho, hhas, -⟩, -⟩ := hh
  have hok := h.handoff fd obj ho
  rcases hhas with hhas | hhas
  · rw [hok.client] at hhas
    cases hhas
  · rw [hok.pipe_wr] at hhas
    cases hhas

/-- A descriptor that came with a handoff and is in a place is in a session's. -/
theorem Inv.received_slot (h : Inv w noLocals) {id : FileId} (hid : w.Received id) {k : Slot}
    {c : Fd} (hk : w.slots noLocals k = some (c, id)) :
    ∃ fd s, (k = .client fd ∨ k = .pipe fd) ∧ w.s_sessions fd = some s ∧ SessionHas s c := by
  have hadm := h.custody.admitted hk
  cases k with
  | listen => exact absurd (h.received id hid).1 (Nat.not_le.mpr hadm)
  | handoff fd => exact absurd hid hadm
  | client fd =>
      cases hs : w.s_sessions fd with
      | none => simp [slots, hs] at hk
      | some s =>
          refine ⟨fd, s, Or.inl rfl, hs, Or.inl ?_⟩
          rw [(h.session fd s hs).held hs] at hk
          rw [← (Prod.mk.inj (Option.some.inj hk)).1]
          exact (h.session fd s hs).fd_eq
  | pipe fd =>
      cases hs : w.s_sessions fd with
      | none => simp [slots, hs] at hk
      | some s =>
          refine ⟨fd, s, Or.inr rfl, hs, Or.inr ?_⟩
          rw [pipe_held hs, Option.map_eq_some_iff] at hk
          obtain ⟨p, hp, e⟩ := hk
          cases e
          exact hp
  | localClient => cases hk
  | localPipe => cases hk

/-- **Each descriptor that came with a handoff is in exactly one custody.** -/
theorem Inv.in_custody (h : Inv w noLocals) {id : FileId} (hid : w.Received id) :
    ∃! c, w.InCustody id c := by
  obtain ⟨hfirst, hlt⟩ := h.received id hid
  rcases h.custody.exactly_one hfirst hlt with ⟨⟨k, ⟨c, hk⟩, -⟩, hcloses, hsends⟩ | ⟨hno, hone⟩
  · obtain ⟨fd, s, hslot, hs, hhas⟩ := h.received_slot hid hk
    refine ⟨.session, ⟨fd, ⟨s, c, hs, hhas, h.custody.isOpen hk⟩, ?_⟩, ?_⟩
    · -- another session that has it has it in the same place
      intro fd' hfd'
      obtain ⟨s', c', hs', hhas', hf'⟩ := hfd'
      have e : c' = c := h.custody.ok.inj hf' (h.custody.isOpen hk)
      subst e
      rcases session_slot hs' hhas' with ⟨id', hk'⟩ | ⟨id', hk'⟩ <;>
        have hkk := h.custody.inj hk' hk <;> rcases hslot with e | e <;> rw [e] at hkk <;> cases hkk
      · rfl
      · rfl
    · intro o ho
      cases o with
      | handoff => exact absurd ho (h.not_handoff id)
      | session => rfl
      | transferred =>
          rw [InCustody, hsends] at ho
          exact absurd ho (Nat.lt_irrefl 0)
      | closed =>
          rw [InCustody, hcloses] at ho
          exact absurd ho (Nat.lt_irrefl 0)
  · have hsession : ¬ w.InCustody id .session := by
      intro hs
      obtain ⟨fd, ⟨s, c, hs, hhas, hf⟩, -⟩ := hs
      obtain ⟨k, hk⟩ := h.custody.covered hf hfirst
      exact hno k c hk
    rcases Nat.eq_zero_or_pos (w.fds.sends id) with hs | hs
    · refine ⟨.closed, show 0 < w.fds.closes id by omega, fun o ho => ?_⟩
      cases o with
      | handoff => exact absurd ho (h.not_handoff id)
      | session => exact absurd ho hsession
      | transferred =>
          have ho : 0 < w.fds.sends id := ho
          omega
      | closed => rfl
    · refine ⟨.transferred, hs, fun o ho => ?_⟩
      cases o with
      | handoff => exact absurd ho (h.not_handoff id)
      | session => exact absurd ho hsession
      | transferred => rfl
      | closed =>
          have ho : 0 < w.fds.closes id := ho
          omega

theorem LoopInv.linear (h : LoopInv w) : Linear w where
  client := fun _ hid => h.inv.in_custody (Or.inl hid)
  pipe := fun _ hid => h.inv.in_custody (Or.inr hid)
  pipe_kept := fun id hid => by
    rcases Nat.eq_zero_or_pos (w.fds.sends id) with hs | hs
    · exact hs
    · exact absurd hid (h.inv.disjoint id (h.inv.custody.sent hs))
  closed_once := fun id => by
    have := h.inv.custody.ended_le_one id
    omega
  no_fault := h.inv.custody.no_fault
  freed := fun id hid => by
    obtain ⟨hlt, hend⟩ := h.freed id hid
    exact h.inv.custody.ok.ended_once hlt hend

/-- **Both descriptors of every handoff are owned linearly, in every run in which no
`sendmsg` of `session_relay` fails**, whatever all other calls return. -/
theorem both_linear (cfg : Config) {w : Worker}
    (h : ((workerSystem cfg).restrict SendsWork).Reachable w) : Linear w := by
  have hloop : LoopInv w := by
    refine h.invariant LoopInv ?_ ?_
    · exact fun _ hinit => LoopInv.initial hinit
    · exact fun _ _ _ hinv hst => hinv.step hst.1 hst.2
  exact hloop.linear

/-! ### A connection for another function -/

/-- The worker after its set-up: descriptor 3 is the listening one. -/
def listening : Worker where
  fds := ⟨Function.update (fun _ => none) 3 (some 0), Function.update (fun _ => false) 3 true, 1,
    fun _ => 0, fun _ => 0, 0⟩
  s_handoffs := fun _ => none
  s_sessions := fun _ => none
  listen_fd := 3
  listen_file := 0
  first := 1
  batch := []
  accepting := false
  clients := []
  pipes := []
  freed := []

theorem listening_initial : Worker.Initial listening where
  ok := by
    have hsame : listening.fds.files = (FdTable.single 3).files := rfl
    exact (FdTable.single_ok 3).congr hsame rfl rfl rfl
  faults := rfl
  sends := fun _ => rfl
  first := rfl
  listen := rfl
  epoll := fun fd he => by
    by_contra hne
    have hne : fd ≠ 3 := hne
    have he : Function.update (fun _ => false) 3 true fd = true := he
    rw [Function.update_of_ne hne] at he
    cases he
  s_handoffs := fun _ => rfl
  s_sessions := fun _ => rfl
  batch := rfl
  clients := rfl
  pipes := rfl
  freed := rfl

def sumA : Config := ⟨ascii "sum-a", false⟩

/-- EPOLLIN. -/
def readable : EpollFlags := ⟨true, false⟩

/-- A gateway connects: the worker accepts descriptor 5 … -/
def connected : Worker :=
  { handle_accept { listening with batch := [], accepting := true } ⟨5, true, true⟩ with
    accepting := false }

/-- … and receives the client 6 and the pipe 7, whose request is for another function; the
relay's `sendmsg` does as it is told. -/
def misrouted (sent : Bool) : EventCalls where
  recv := .ret (.data (Bench2.le32 HTTPMIGRATE_MAGIC ++ Bench2.le32 HTTPMIGRATE_VERSION) false
    (some ⟨true, [6, 7]⟩))
  set_nonblocking_ok := true
  calloc_ok := true
  malloc_ok := true
  epoll_add_ok := true
  session := [⟨.data (ascii "GET /function/b HTTP/1.1\n"), .eagain, .eagain, fun _ => true, true⟩]
  relay := ⟨fun t => if t.files 5 = none then some 5 else none, true, sent⟩

/-- The state after this handoff. -/
def afterRelay (sent : Bool) : Worker :=
  handle_event { connected with batch := [] } sumA 5 readable (misrouted sent)

theorem misrouted_ok (sent : Bool) : EventOk { connected with batch := [(5, readable)] }
    (misrouted sent) where
  recv := fun bytes ctrunc c e => by
    injection e with e
    injection e with e₁ e₂ e₃
    injection e₃ with e₃
    exact ⟨6, 7, e₃.symm, by rw [← e₁]; decide, by decide, rfl, rfl⟩
  socket := fun t fd e => by
    have e : (if t.files 5 = none then some 5 else none) = some fd := e
    split at e
    next hfree =>
      cases e
      exact hfree
    next => cases e

theorem afterRelay_reachable {Good : Worker → WorkerLabel → Prop} (sent : Bool)
    (hgood : ∀ w l, (∀ fd rev o, l = .event fd rev o → o.relay.sent = sent) → Good w l) :
    ((workerSystem sumA).restrict Good).Reachable (afterRelay sent) := by
  have hother : ∀ w l, (∀ fd rev o, l ≠ .event fd rev o) → Good w l := fun w l hl =>
    hgood w l fun fd rev o e => absurd e (hl fd rev o)
  have hwait : ((workerSystem sumA).restrict Good).Reachable
      { listening with batch := [(3, readable)] } :=
    .step (.init listening_initial)
      ⟨.wait [(3, readable)] rfl rfl (by decide) (by decide), hother _ _ (fun _ _ _ => nofun)⟩
  have hlisten : ((workerSystem sumA).restrict Good).Reachable
      { listening with batch := [], accepting := true } :=
    .step hwait ⟨.listen rfl rfl, hother _ _ (fun _ _ _ => nofun)⟩
  have haccept := TransitionSystem.Reachable.step hlisten
    ⟨.accept ⟨5, true, true⟩ rfl rfl, hother _ _ (fun _ _ _ => nofun)⟩
  have hconnected : ((workerSystem sumA).restrict Good).Reachable connected :=
    .step haccept ⟨.accepted rfl, hother _ _ (fun _ _ _ => nofun)⟩
  have hready : ((workerSystem sumA).restrict Good).Reachable
      { connected with batch := [(5, readable)] } :=
    .step hconnected
      ⟨.wait [(5, readable)] rfl rfl (by decide) (by decide), hother _ _ (fun _ _ _ => nofun)⟩
  refine .step hready ⟨.event (misrouted sent) rfl rfl (by decide) (misrouted_ok sent), ?_⟩
  refine hgood _ _ fun fd rev o e => ?_
  cases e
  rfl

theorem both_linear_relayed : Linear (afterRelay true) ∧ (afterRelay true).clients = [2] := by
  refine ⟨both_linear sumA (afterRelay_reachable true fun w l hl => ?_), by decide +kernel⟩
  cases l with
  | event c rev o => exact hl c rev o rfl
  | wait events => trivial
  | listen => trivial
  | accept o => trivial
  | accepted => trivial

/-- `sendmsg` fails, and the connection is in nobody's hands: it is open, its session is
freed, and neither table has it. -/
theorem relay_leaks : ∃ w, (workerSystem sumA).Reachable w
    ∧ w.clients = [2] ∧ w.freed = [2] ∧ w.fds.files 6 = some 2
    ∧ w.fds.closes 2 = 0 ∧ w.fds.sends 2 = 0
    ∧ (w.s_sessions 6).isNone ∧ (w.s_handoffs 6).isNone
    ∧ ¬ Linear w := by
  have hrun : ((workerSystem sumA).restrict fun _ _ => True).Reachable (afterRelay false) :=
    afterRelay_reachable false fun _ _ _ => trivial
  have hfreed : (afterRelay false).freed = [2] := by decide +kernel
  have hcloses : (afterRelay false).fds.closes 2 = 0 := by decide +kernel
  have hsends : (afterRelay false).fds.sends 2 = 0 := by decide +kernel
  refine ⟨afterRelay false, hrun.of_restrict, by decide +kernel, hfreed, by decide +kernel,
    hcloses, hsends, by decide +kernel, by decide +kernel, fun h => ?_⟩
  have hone := h.freed 2 (by rw [hfreed]; decide)
  rw [hcloses, hsends] at hone
  exact absurd hone (by decide)

end TlsMigration.HttpKa.Worker
