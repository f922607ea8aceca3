/-
  TlsMigration.HttpKa.Ownership
  ─────────────────────────────
  **WHO OWNS A DESCRIPTOR IN THE TIMING WORKER.**

  The places of a descriptor are the listening variable, the entries of the
  two tables, a session's pipe, and the two variables of
  `handle_handoff_fd`.  Each function keeps `Custody` over them, whatever its
  calls return, but one: `session_relay` forgets the connection before it
  knows whether `sendmsg` takes it, and keeps the order only when it does.
-/
import TlsMigration.HttpKa.Worker

namespace TlsMigration.HttpKa.Worker

open TlsMigration.Handoff

/-! ## §1. The places. -/

/-- Where the worker keeps a descriptor. -/
inductive Slot where
  | listen
  | handoff (fd : Fd)
  | client (fd : Fd)
  | pipe (fd : Fd)
  /-- `client_fd` of `handle_handoff_fd` -/
  | localClient
  /-- `pipe_wr_fd` of `handle_handoff_fd` -/
  | localPipe
  deriving DecidableEq

/-- The variables of `handle_handoff_fd`. -/
structure Locals where
  client : Option Held
  pipe : Option Held

def noLocals : Locals := ⟨none, none⟩

variable (w : Worker)

def slots (loc : Locals) : Holding Slot
  | .listen => some (w.listen_fd, w.listen_file)
  | .handoff fd => (w.s_handoffs fd).map fun h => (h.fd, h.file)
  | .client fd => (w.s_sessions fd).bind fun s => s.core.fd.map (·, s.file)
  | .pipe fd => (w.s_sessions fd).bind fun s => s.core.pipe_fd.map (·, s.pipe_file)
  | .localClient => loc.client
  | .localPipe => loc.pipe

/-- A descriptor that came with a handoff. -/
def Received (id : FileId) : Prop := id ∈ w.clients ∨ id ∈ w.pipes

def places : Places Slot where
  first := w.first
  registers
    | .listen => True
    | .handoff _ => True
    | .client _ => True
    | _ => False
  admits
    | .listen, id => id < w.first
    | .handoff _, id => ¬ w.Received id
    | .client _, id => id ∈ w.clients
    | .localClient, id => id ∈ w.clients
    | .pipe _, id => id ∈ w.pipes
    | .localPipe, id => id ∈ w.pipes
  sendable id := id ∈ w.clients

/-! ## §2. The invariant. -/

/-- A session in the table. -/
structure SessionOk (fd : Fd) (s : SessionObj) : Prop where
  fd_eq : s.core.fd = some fd
  lt : fd < MAX_FDS
  pipe : s.core.pipe_sent = true → s.core.pipe_fd = none

/-- A handoff in the table. -/
structure HandoffOk (fd : Fd) (h : HandoffObj) : Prop where
  fd_eq : h.fd = fd
  lt : fd < MAX_FDS
  client : h.client = none
  pipe_wr : h.pipe_wr = none

structure Inv (w : Worker) (loc : Locals) : Prop where
  custody : Custody w.places w.fds (w.slots loc)
  handoff : ∀ fd h, w.s_handoffs fd = some h → HandoffOk fd h
  session : ∀ fd s, w.s_sessions fd = some s → SessionOk fd s
  received : ∀ id, w.Received id → w.first ≤ id ∧ id < w.fds.next
  disjoint : ∀ id, id ∈ w.clients → id ∉ w.pipes

variable {w} {w₁ w₂ : Worker} {loc loc' : Locals} {fd : Fd}

/-- A function that takes entries out of the tables, or none. -/
theorem Inv.of_tables (h : Inv w loc) (hcust : Custody w₁.places w₁.fds (w₁.slots loc'))
    (hhandoff : ∀ fd o, w₁.s_handoffs fd = some o → w.s_handoffs fd = some o)
    (hsession : ∀ fd s, w₁.s_sessions fd = some s → w.s_sessions fd = some s)
    (hfirst : w₁.first = w.first) (hclients : w₁.clients = w.clients)
    (hpipes : w₁.pipes = w.pipes) (hnext : w.fds.next ≤ w₁.fds.next) : Inv w₁ loc' where
  custody := hcust
  handoff := fun fd o ho => h.handoff fd o (hhandoff fd o ho)
  session := fun fd s hs => h.session fd s (hsession fd s hs)
  received := fun id hid => by
    unfold Received at hid
    rw [hclients, hpipes] at hid
    obtain ⟨hle, hlt⟩ := h.received id hid
    rw [hfirst]
    exact ⟨hle, Nat.lt_of_lt_of_le hlt hnext⟩
  disjoint := fun id => by
    rw [hclients, hpipes]
    exact h.disjoint id

/-- What a handler of `fd` leaves alone; the sessions it frees have no open connection. -/
structure Frame (fd : Fd) (w w' : Worker) : Prop where
  batch : w'.batch = w.batch
  accepting : w'.accepting = w.accepting
  listen_fd : w'.listen_fd = w.listen_fd
  fds : FdTable.Follows fd w.fds w'.fds
  freed : ∀ id ∈ w'.freed, id ∈ w.freed ∨ (id < w'.fds.next ∧ ∀ fd', w'.fds.files fd' ≠ some id)

theorem Frame.trans (h : Frame fd w w₁) (h' : Frame fd w₁ w₂) : Frame fd w w₂ where
  batch := h'.batch.trans h.batch
  accepting := h'.accepting.trans h.accepting
  listen_fd := h'.listen_fd.trans h.listen_fd
  fds := h.fds.trans h'.fds
  freed := fun id hid => by
    rcases h'.freed id hid with hid | hend
    · rcases h.freed id hid with hid | ⟨hlt, hend⟩
      · exact Or.inl hid
      · exact Or.inr ⟨Nat.lt_of_lt_of_le hlt h'.fds.next_le, h'.fds.ended hlt hend⟩
    · exact Or.inr hend

/-- A function that frees no session. -/
theorem Frame.of_fds (hfds : FdTable.Follows fd w.fds w₁.fds) (hbatch : w₁.batch = w.batch)
    (haccepting : w₁.accepting = w.accepting) (hlisten : w₁.listen_fd = w.listen_fd)
    (hfreed : w₁.freed = w.freed) : Frame fd w w₁ :=
  ⟨hbatch, haccepting, hlisten, hfds, fun _ hid => Or.inl (hfreed ▸ hid)⟩

theorem Frame.of_unregistered {c : Fd} (h : Frame c w w₁) (hc : w.fds.epoll c = false) :
    Frame fd w w₁ :=
  { h with fds := h.fds.of_unregistered hc }

/-! ## §3. Sessions. -/

theorem SessionOk.held {s : SessionObj} (h : SessionOk fd s) (hs : w.s_sessions fd = some s)
    (loc : Locals) : w.slots loc (.client fd) = some (fd, s.file) := by
  simp [slots, hs, h.fd_eq]

theorem pipe_held {s : SessionObj} (hs : w.s_sessions fd = some s) (loc : Locals) :
    w.slots loc (.pipe fd) = s.core.pipe_fd.map (·, s.pipe_file) := by
  simp [slots, hs]

/-- The pipe that `session_close` closes is the one that the session has. -/
theorem SessionOk.pipe_eq {s : SessionObj} (h : SessionOk fd s) :
    (if s.core.pipe_sent then none else s.core.pipe_fd.map (·, s.pipe_file))
      = s.core.pipe_fd.map (·, s.pipe_file) := by
  split
  next hsent => rw [h.pipe hsent]; rfl
  next => rfl

/-- Without its entry, a session holds nothing. -/
theorem slots_without (loc : Locals) (fds : FdTable) (freed : List FileId) (k : Slot) :
    ({ (w.setSession fd none).setFds fds with freed := freed } : Worker).slots loc k
      = Function.update (Function.update (w.slots loc) (.client fd) none) (.pipe fd) none k := by
  cases k with
  | client fd' =>
      by_cases e : fd' = fd
      · subst e
        simp [slots, setSession, setFds]
      · have hne : Slot.client fd' ≠ .client fd := fun h => e (Slot.client.inj h)
        simp [slots, setSession, setFds, e]
  | pipe fd' =>
      by_cases e : fd' = fd
      · subst e
        simp [slots, setSession, setFds]
      · simp [slots, setSession, setFds, e]
  | listen => rfl
  | handoff fd' => rfl
  | localClient => rfl
  | localPipe => rfl

/-- The pipe is written to and closed. -/
theorem notified_custody {P : Places Slot} {t : FdTable} {h : Holding Slot} {k : Slot}
    {pipe : Option Held} (c : Custody P t h) (hk : h k = pipe) (hreg : ¬ P.registers k) :
    Custody P (notified t pipe) (Function.update h k none) := by
  cases pipe with
  | none =>
      have e : Function.update h k none = h := by rw [← hk, Function.update_eq_self]
      rw [e]
      exact c
  | some p => exact (c.use hk).close hk (c.not_registered hk hreg)

theorem notified_follows {t t₁ : FdTable} (h : FdTable.Follows fd t t₁) (pipe : Option Held) :
    FdTable.Follows fd t (notified t₁ pipe) := by
  cases pipe with
  | none => exact h
  | some p => exact (h.use p.1 p.2).close p.1 p.2

theorem notified_ended {t : FdTable} {id : FileId} (hlt : id < t.next)
    (hend : ∀ fd', t.files fd' ≠ some id) (pipe : Option Held) (fd' : Nat) :
    (notified t pipe).files fd' ≠ some id := by
  have hfollows : FdTable.Follows 0 t (notified t pipe) := notified_follows (.refl t) pipe
  exact hfollows.ended hlt hend fd'

/-- `session_close` on a session that has its descriptor. -/
theorem session_close_eq {s : SessionObj} (h : SessionOk fd s) :
    w.session_close s
      = { (w.setSession fd none).setFds (notified ((w.fds.epollDel fd s.file).close fd s.file)
            (s.core.pipe_fd.map (·, s.pipe_file))) with freed := w.freed ++ [s.file] } := by
  unfold session_close
  simp only [h.fd_eq, if_pos h.lt, h.pipe_eq]
  rfl

/-- **A registered session is closed.** -/
theorem Inv.session_close {s : SessionObj} (h : Inv w noLocals) (hs : w.s_sessions fd = some s) :
    Inv (w.session_close s) noLocals ∧ Frame fd w (w.session_close s) := by
  have hok := h.session fd s hs
  have hk := hok.held hs noLocals
  have hopen := h.custody.isOpen hk
  have hdel := h.custody.epollDel hk
  have hclosed := hdel.close hk (by simp)
  have hpipe : Function.update (w.slots noLocals) (.client fd) none (.pipe fd)
      = s.core.pipe_fd.map (·, s.pipe_file) := pipe_held hs noLocals
  have hcust := notified_custody hclosed hpipe (fun hreg => hreg)
  have hfollows : FdTable.Follows fd w.fds (notified ((w.fds.epollDel fd s.file).close fd s.file)
      (s.core.pipe_fd.map (·, s.pipe_file))) :=
    notified_follows (((FdTable.Follows.refl _).epollDel s.file).close fd s.file) _
  rw [session_close_eq hok]
  constructor
  · refine h.of_tables (hcust.congr (slots_without noLocals _ _)) (fun _ _ ho => ho) ?_ rfl rfl rfl
      hfollows.next_le
    intro fd' s' hs'
    by_cases e : fd' = fd
    · subst e
      simp [setSession, setFds] at hs'
    · simpa [setSession, setFds, e] using hs'
  · refine ⟨rfl, rfl, rfl, hfollows, fun id hid => ?_⟩
    rcases List.mem_append.mp hid with hid | hid
    · exact Or.inl hid
    · rw [List.mem_singleton] at hid
      subst hid
      have hlt := h.custody.ok.files_lt hopen
      refine Or.inr ⟨Nat.lt_of_lt_of_le hlt hfollows.next_le, ?_⟩
      have hended : ∀ fd', ((w.fds.epollDel fd s.file).close fd s.file).files fd' ≠ some s.file :=
        hdel.ok.closed hopen
      have hlt' : s.file < ((w.fds.epollDel fd s.file).close fd s.file).next := hlt
      exact notified_ended hlt' hended _

/-- The numbers of a relay are fresh. -/
def RelayCalls.Fresh (o : RelayCalls) : Prop := ∀ t fd, o.socket t = some fd → t.files fd = none

/-- What is left of the connection when `sendmsg` does not fail. -/
theorem relayed_scope {t : FdTable} (ht : t.Ok) {id : FileId} {o : RelayCalls}
    (hid : t.files fd = some id) (hep : t.epoll fd = false) (hfresh : RelayCalls.Fresh o)
    (hsent : o.sent = true) :
    FdTable.Scope [id] t
      (match unix_client_connect t (o.connect t) with
        | (t, none) => t.close fd id
        | (t, some relay_fd) =>
            (transferFd t relay_fd fd id o.sent).1.close relay_fd.1 relay_fd.2) := by
  have hfree : (o.connect t).Fresh t := fun r hr => hfresh t r hr
  cases hc : (unix_client_connect t (o.connect t)).2 with
  | none =>
      have hscope := connect_failed (.refl ht) ht hfree hc
      have e : unix_client_connect t (o.connect t) = ((unix_client_connect t (o.connect t)).1, none) :=
        Prod.ext rfl hc
      rw [e]
      exact hscope.close ht hid (by simp)
  | some r =>
      have hscope := exchange (.refl ht) ht hfree hc hid (by simp) hep o.sent
      have e : unix_client_connect t (o.connect t)
          = ((unix_client_connect t (o.connect t)).1, some r) := Prod.ext rfl hc
      rw [e]
      rw [if_pos hsent] at hscope
      exact hscope

/-- `session_relay` on a session that has its descriptor. -/
theorem session_relay_eq {s : SessionObj} {o : RelayCalls} (h : SessionOk fd s) :
    w.session_relay s o
      = { (w.setSession fd none).setFds (notified
            (match unix_client_connect (w.fds.epollDel fd s.file)
                (o.connect (w.fds.epollDel fd s.file)) with
              | (t, none) => t.close fd s.file
              | (t, some relay_fd) =>
                  (transferFd t relay_fd fd s.file o.sent).1.close relay_fd.1 relay_fd.2)
            (s.core.pipe_fd.map (·, s.pipe_file))) with freed := w.freed ++ [s.file] } := by
  unfold session_relay
  simp only [h.fd_eq, if_pos h.lt]
  have hpipe := h.pipe_eq
  unfold session_close
  simp only [hpipe]
  cases hc : unix_client_connect (w.fds.epollDel fd s.file)
      (o.connect (w.fds.epollDel fd s.file)) with
  | mk t r =>
      cases r with
      | none =>
          simp only [setFds, setSession] at hc ⊢
          rw [hc]
          rfl
      | some r =>
          simp only [setFds, setSession] at hc ⊢
          rw [hc]
          rfl

/-- **A session whose `sendmsg` does not fail is given away.** -/
theorem Inv.session_relay {s : SessionObj} {o : RelayCalls} (h : Inv w noLocals)
    (hs : w.s_sessions fd = some s) (hfresh : RelayCalls.Fresh o) (hsent : o.sent = true) :
    Inv (w.session_relay s o) noLocals ∧ Frame fd w (w.session_relay s o) := by
  have hok := h.session fd s hs
  have hk := hok.held hs noLocals
  have hopen := h.custody.isOpen hk
  have hdel := h.custody.epollDel hk
  have hscope := relayed_scope (t := w.fds.epollDel fd s.file) hdel.ok hopen (by simp) hfresh hsent
  have hgone := hdel.of_scope_one hk (by simp) hscope (h.custody.admitted hk)
  have hpipe : Function.update (w.slots noLocals) (.client fd) none (.pipe fd)
      = s.core.pipe_fd.map (·, s.pipe_file) := pipe_held hs noLocals
  have hcust := notified_custody hgone hpipe (fun hreg => hreg)
  have hdelFollows : FdTable.Follows fd w.fds (w.fds.epollDel fd s.file) :=
    (FdTable.Follows.refl _).epollDel s.file
  have hfollows := notified_follows (hdelFollows.of_scope hscope)
    (s.core.pipe_fd.map (·, s.pipe_file))
  rw [session_relay_eq hok]
  constructor
  · refine h.of_tables (hcust.congr (slots_without noLocals _ _)) (fun _ _ ho => ho) ?_ rfl rfl rfl
      hfollows.next_le
    intro fd' s' hs'
    by_cases e : fd' = fd
    · subst e
      simp [setSession, setFds] at hs'
    · simpa [setSession, setFds, e] using hs'
  · refine ⟨rfl, rfl, rfl, hfollows, fun id hid => ?_⟩
    rcases List.mem_append.mp hid with hid | hid
    · exact Or.inl hid
    · rw [List.mem_singleton] at hid
      subst hid
      have hlt := h.custody.ok.files_lt hopen
      refine Or.inr ⟨Nat.lt_of_lt_of_le hlt hfollows.next_le, ?_⟩
      have hended : ∀ fd', _ := fun fd' hf => ((hscope.files fd' s.file).mp hf).2 List.mem_cons_self
      exact notified_ended (Nat.lt_of_lt_of_le hlt hscope.next_le) hended _

/-- The entry of a session is written back. -/
theorem slots_advanced {s s' : SessionObj} (hs : w.s_sessions fd = some s)
    (hfd : s'.core.fd = s.core.fd) (hfile : s'.file = s.file) (fds : FdTable) (loc : Locals)
    (k : Slot) :
    ((w.setFds fds).setSession fd (some s')).slots loc k
      = Function.update (w.slots loc) (.pipe fd) (s'.core.pipe_fd.map (·, s'.pipe_file)) k := by
  cases k with
  | client fd' =>
      by_cases e : fd' = fd
      · subst e
        simp [slots, setSession, setFds, hs, hfd, hfile]
      · simp [slots, setSession, setFds, e]
  | pipe fd' =>
      by_cases e : fd' = fd
      · subst e
        simp [slots, setSession, setFds]
      · simp [slots, setSession, setFds, e]
  | listen => rfl
  | handoff fd' => rfl
  | localClient => rfl
  | localPipe => rfl

/-- `session_advance` and what follows it. -/
theorem Inv.advance (cfg : Config) {s : SessionObj} {o : EventCalls} (h : Inv w noLocals)
    (hs : w.s_sessions fd = some s) (hfresh : RelayCalls.Fresh o.relay)
    (hsent : o.relay.sent = true) :
    Inv (w.advance cfg fd s o) noLocals ∧ Frame fd w (w.advance cfg fd s o) := by
  have hok := h.session fd s hs
  have hk := hok.held hs noLocals
  have huse := h.custody.use hk
  obtain ⟨hfd, hpipes⟩ := session_advance_pipe cfg s.core o.session
  unfold Worker.advance
  dsimp only
  generalize hr : session_advance cfg s.core o.session = r at hfd hpipes ⊢
  -- the descriptors after the session's own calls
  generalize harg : (if r.1.pipe_fd.isSome then none else s.core.pipe_fd.map (·, s.pipe_file)) = arg
  have hcust : Custody w.places (notified (w.fds.use fd s.file) arg)
      (Function.update (w.slots noLocals) (.pipe fd) (r.1.pipe_fd.map (·, s.pipe_file))) := by
    rcases hpipes with ⟨hsame, -⟩ | ⟨-, hnone, -⟩
    · have harg' : arg = none := by
        rw [← harg, hsame]
        cases s.core.pipe_fd <;> rfl
      rw [harg', hsame, ← pipe_held hs noLocals, Function.update_eq_self]
      exact huse
    · have harg' : arg = s.core.pipe_fd.map (·, s.pipe_file) := by
        rw [← harg, hnone]
        rfl
      rw [harg', hnone]
      exact notified_custody huse (pipe_held hs noLocals) (fun hreg => hreg)
  have hfollows : FdTable.Follows fd w.fds (notified (w.fds.use fd s.file) arg) :=
    notified_follows ((FdTable.Follows.refl _).use fd s.file) arg
  have hinv : Inv ((w.setFds (notified (w.fds.use fd s.file) arg)).setSession fd
      (some { s with core := r.1 })) noLocals := by
    constructor
    · have hfd' : ({ s with core := r.1 } : SessionObj).core.fd = s.core.fd := hfd
      exact hcust.congr (slots_advanced hs hfd' rfl _ noLocals)
    · exact fun fd' o ho => h.handoff fd' o ho
    · intro fd' s' hs'
      by_cases e : fd' = fd
      · subst e
        have hs' : Function.update w.s_sessions fd' (some { s with core := r.1 }) fd' = some s' := hs'
        rw [Function.update_self] at hs'
        cases hs'
        refine ⟨hfd.trans hok.fd_eq, hok.lt, fun hsent => ?_⟩
        rcases hpipes with ⟨hsame, hsame'⟩ | ⟨-, hnone, -⟩
        · exact hsame.trans (hok.pipe (hsame'.symm.trans hsent))
        · exact hnone
      · have hs' : Function.update w.s_sessions fd (some { s with core := r.1 }) fd' = some s' := hs'
        rw [Function.update_of_ne e] at hs'
        exact h.session fd' s' hs'
    · intro id hid
      obtain ⟨hle, hlt⟩ := h.received id hid
      exact ⟨hle, Nat.lt_of_lt_of_le hlt hfollows.next_le⟩
    · exact h.disjoint
  have hframe : Frame fd w ((w.setFds (notified (w.fds.use fd s.file) arg)).setSession fd
      (some { s with core := r.1 })) := Frame.of_fds hfollows rfl rfl rfl rfl
  have hentry : ((w.setFds (notified (w.fds.use fd s.file) arg)).setSession fd
      (some { s with core := r.1 })).s_sessions fd = some { s with core := r.1 } :=
    Function.update_self _ _ _
  split
  · obtain ⟨hinv', hframe'⟩ := hinv.session_relay hentry hfresh hsent
    exact ⟨hinv', hframe.trans hframe'⟩
  · split
    · obtain ⟨hinv', hframe'⟩ := hinv.session_close hentry
      exact ⟨hinv', hframe.trans hframe'⟩
    · exact ⟨hinv, hframe⟩
  · exact ⟨hinv, hframe⟩

/-! ## §4. Handoffs. -/

/-- Without its entry, a handoff holds nothing. -/
theorem slots_no_handoff (loc : Locals) (fds : FdTable) (k : Slot) :
    ((w.setHandoff fd none).setFds fds).slots loc k
      = Function.update (w.slots loc) (.handoff fd) none k := by
  cases k with
  | handoff fd' =>
      by_cases e : fd' = fd
      · subst e
        simp [slots, setHandoff, setFds]
      · simp [slots, setHandoff, setFds, e]
  | listen => rfl
  | client fd' => rfl
  | pipe fd' => rfl
  | localClient => rfl
  | localPipe => rfl

/-- `handoff_close` on an entry of the table. -/
theorem handoff_close_eq {obj : HandoffObj} (h : HandoffOk fd obj)
    (ho : w.s_handoffs fd = some obj) (file : FileId) :
    w.handoff_close fd file
      = (w.setHandoff fd none).setFds ((w.fds.epollDel fd file).close fd file) := by
  unfold handoff_close
  simp only [if_pos h.lt, ho, h.client, h.pipe_wr]
  rfl

theorem Inv.handoff_close {obj : HandoffObj} (h : Inv w loc) (ho : w.s_handoffs fd = some obj) :
    Inv (w.handoff_close fd obj.file) loc ∧ Frame fd w (w.handoff_close fd obj.file) := by
  have hok := h.handoff fd obj ho
  have hk : w.slots loc (.handoff fd) = some (fd, obj.file) := by simp [slots, ho, hok.fd_eq]
  have hclosed := (h.custody.epollDel hk).close hk (by simp)
  have hfollows : FdTable.Follows fd w.fds ((w.fds.epollDel fd obj.file).close fd obj.file) :=
    ((FdTable.Follows.refl _).epollDel obj.file).close fd obj.file
  rw [handoff_close_eq hok ho]
  constructor
  · refine h.of_tables (hclosed.congr (slots_no_handoff loc _)) ?_ (fun _ _ hs => hs) rfl rfl rfl
      hfollows.next_le
    intro fd' o ho'
    by_cases e : fd' = fd
    · subst e
      simp [setHandoff, setFds] at ho'
    · simpa [setHandoff, setFds, e] using ho'
  · exact Frame.of_fds hfollows rfl rfl rfl rfl

/-- The variables are closed, and with them what they held. -/
theorem slots_locals (loc' : Locals) (k : Slot) :
    w.slots loc' k = Function.update (Function.update (w.slots loc) .localClient loc'.client)
      .localPipe loc'.pipe k := by
  cases k <;> rfl

/-- `register_client_fd` closes both descriptors: the connection is `c`. -/
theorem Inv.close_both {c : Fd} {id : FileId} {pipe : Option Held}
    (h : Inv w ⟨some (c, id), pipe⟩) {t : FdTable} (freed : List FileId)
    (hcust : Custody w.places t (w.slots ⟨some (c, id), pipe⟩)) (hnext : t.next = w.fds.next)
    (hfollows : FdTable.Follows fd w.fds t) (hfreed : ∀ i ∈ freed, i ∈ w.freed ∨ i = id) :
    Inv { w.setFds ((t.close c id).closeOpt pipe) with freed := freed } noLocals
      ∧ Frame fd w { w.setFds ((t.close c id).closeOpt pipe) with freed := freed } := by
  have hk : w.slots ⟨some (c, id), pipe⟩ .localClient = some (c, id) := rfl
  have hclosed := hcust.close hk (hcust.not_registered hk (fun hreg => hreg))
  have hp : Function.update (w.slots ⟨some (c, id), pipe⟩) .localClient none .localPipe = pipe := rfl
  have hboth := hclosed.closeOpt hp (fun fd' id' e =>
    hclosed.not_registered (hp.trans e) (fun hreg => hreg))
  have hfollows' := (hfollows.close c id).closeOpt pipe
  constructor
  · refine h.of_tables (hboth.congr (fun k => slots_locals noLocals k)) (fun _ _ ho => ho)
      (fun _ _ hs => hs) rfl rfl rfl hfollows'.next_le
  · refine ⟨rfl, rfl, rfl, hfollows', fun i hi => ?_⟩
    rcases hfreed i hi with hold | rfl
    · exact Or.inl hold
    · have hlt := hcust.ok.files_lt (hcust.isOpen hk)
      have hended := hcust.ok.closed (hcust.isOpen hk)
      have hpipe : FdTable.Follows fd (t.close c i) ((t.close c i).closeOpt pipe) :=
        (FdTable.Follows.refl _).closeOpt pipe
      exact Or.inr ⟨Nat.lt_of_lt_of_le (hnext ▸ hlt) hfollows'.next_le,
        hpipe.ended hlt hended⟩

/-- A session with both variables in it. -/
theorem slots_registered {c : Fd} {id : FileId} {pipe : Held} {s : SessionObj}
    (hnew : w.s_sessions c = none) (hs : s.core.fd = some c) (hfile : s.file = id)
    (hp : s.core.pipe_fd = some pipe.1) (hpfile : s.pipe_file = pipe.2) (fds : FdTable)
    (k : Slot) :
    ((w.setSession c (some s)).setFds fds).slots noLocals k
      = Function.update (Function.update (Function.update (Function.update
          (w.slots ⟨some (c, id), some pipe⟩) .localClient none) (.client c) (some (c, id)))
            .localPipe none) (.pipe c) (some pipe) k := by
  cases k with
  | client fd' =>
      by_cases e : fd' = c
      · subst e
        simp [slots, setSession, setFds, hs, hfile]
      · simp [slots, setSession, setFds, e]
  | pipe fd' =>
      by_cases e : fd' = c
      · subst e
        simp [slots, setSession, setFds, hp, hpfile]
      · simp [slots, setSession, setFds, e]
  | listen => rfl
  | handoff fd' => rfl
  | localClient => rfl
  | localPipe => rfl

/-- **`register_client_fd`**: the two descriptors are closed, or a session's, or what became
of it. -/
theorem Inv.register_client_fd (cfg : Config) (fd : Fd) {c : Fd} {id : FileId} {pipe : Held}
    {o : EventCalls} (h : Inv w ⟨some (c, id), some pipe⟩) (hfresh : RelayCalls.Fresh o.relay)
    (hsent : o.relay.sent = true) :
    Inv (w.register_client_fd cfg (some (c, id)) (some pipe) o) noLocals
      ∧ Frame fd w (w.register_client_fd cfg (some (c, id)) (some pipe) o) := by
  have hk : w.slots ⟨some (c, id), some pipe⟩ .localClient = some (c, id) := rfl
  have huse := h.custody.use hk
  have hfollows : FdTable.Follows fd w.fds (w.fds.use c id) := (FdTable.Follows.refl _).use c id
  unfold Worker.register_client_fd
  dsimp only
  split
  · exact h.close_both w.freed h.custody rfl (.refl _) (fun _ hi => Or.inl hi)
  next hlt =>
    have hlt : c < MAX_FDS := Nat.lt_of_not_le hlt
    split
    · exact h.close_both w.freed huse rfl hfollows (fun _ hi => Or.inl hi)
    split
    · -- the object is freed before its descriptor is closed
      refine h.close_both (w.freed ++ [id]) huse rfl hfollows fun i hi => ?_
      rcases List.mem_append.mp hi with hi | hi
      · exact Or.inl hi
      · exact Or.inr (List.mem_singleton.mp hi)
    have hnew : w.s_sessions c = none := by
      cases hs : w.s_sessions c with
      | none => rfl
      | some s =>
          have := h.custody.inj hk ((h.session c s hs).held hs _)
          cases this
    split
    · -- the entry is made and taken back
      have htable : ((w.setFds (w.fds.use c id)).setSession c (some
          ⟨session_new c (some pipe.1), id, pipe.2⟩)).setSession c none = w.setFds (w.fds.use c id) := by
        show { w with
          fds := w.fds.use c id
          s_sessions := Function.update (Function.update w.s_sessions c _) c none } = _
        rw [Function.update_idem, ← hnew, Function.update_eq_self]
        rfl
      have hboth := h.close_both (w.freed ++ [id]) huse rfl hfollows fun i hi => by
        rcases List.mem_append.mp hi with hi | hi
        · exact Or.inl hi
        · exact Or.inr (List.mem_singleton.mp hi)
      have e := congrArg (fun v : Worker => ((v.free
        ⟨session_new c (some pipe.1), id, pipe.2⟩).closeFd (some (c, id))).closeFd (some pipe)) htable
      exact e ▸ hboth
    · -- both descriptors move into the entry
      have hc : w.slots ⟨some (c, id), some pipe⟩ (.client c) = none := by simp [slots, hnew]
      have hp : w.slots ⟨some (c, id), some pipe⟩ (.pipe c) = none := by simp [slots, hnew]
      have hclientOk : id ∈ w.clients := h.custody.admitted hk
      have hmoved := huse.move hk hc hclientOk (fun _ => trivial)
      have hpipe : Function.update (Function.update (w.slots ⟨some (c, id), some pipe⟩)
          .localClient none) (.client c) (some (c, id)) .localPipe = some pipe := rfl
      have hp' : Function.update (Function.update (w.slots ⟨some (c, id), some pipe⟩)
          .localClient none) (.client c) (some (c, id)) (.pipe c) = none := by simpa using hp
      have hpipeOk : pipe.2 ∈ w.pipes := h.custody.admitted (k := .localPipe) rfl
      have hboth := hmoved.move hpipe hp' hpipeOk
        (fun he => by
          rw [hmoved.not_registered hpipe (fun hreg => hreg)] at he
          cases he)
      have hclient : Function.update (Function.update (Function.update (Function.update
          (w.slots ⟨some (c, id), some pipe⟩) .localClient none) (.client c) (some (c, id)))
            .localPipe none) (.pipe c) (some pipe) (.client c) = some (c, id) := by simp
      have hadd := hboth.epollAdd hclient trivial
      have hinv : Inv ((w.setSession c (some ⟨session_new c (some pipe.1), id, pipe.2⟩)).setFds
          ((w.fds.use c id).epollAdd c id)) noLocals := by
        constructor
        · exact hadd.congr (slots_registered hnew rfl rfl rfl rfl _)
        · exact fun fd' o ho => h.handoff fd' o ho
        · intro fd' s' hs'
          by_cases e : fd' = c
          · subst e
            have hs' : Function.update w.s_sessions fd' (some
              (⟨session_new fd' (some pipe.1), id, pipe.2⟩ : SessionObj)) fd' = some s' := hs'
            rw [Function.update_self] at hs'
            cases hs'
            exact ⟨rfl, hlt, fun hsent => by cases hsent⟩
          · have hs' : Function.update w.s_sessions c (some
              (⟨session_new c (some pipe.1), id, pipe.2⟩ : SessionObj)) fd' = some s' := hs'
            rw [Function.update_of_ne e] at hs'
            exact h.session fd' s' hs'
        · exact fun i hi => h.received i hi
        · exact h.disjoint
      have hframe : Frame c w ((w.setSession c (some
          ⟨session_new c (some pipe.1), id, pipe.2⟩)).setFds ((w.fds.use c id).epollAdd c id)) :=
        Frame.of_fds (((FdTable.Follows.refl _).use c id).epollAdd c id) rfl rfl rfl rfl
      obtain ⟨hinv', hframe'⟩ := hinv.advance cfg (Function.update_self c _ _) hfresh hsent
      exact ⟨hinv', (hframe.trans hframe').of_unregistered
        (h.custody.not_registered hk (fun hreg => hreg))⟩

/-- A message of two descriptors is received into the two variables. -/
theorem Inv.received_two {c p : Fd} (h : Inv w noLocals) (hc : w.fds.files c = none)
    (hp : w.fds.files p = none) (hne : c ≠ p) :
    Inv { w.setFds ((w.fds.opened c).opened p) with
        clients := w.clients ++ [w.fds.next], pipes := w.pipes ++ [w.fds.next + 1] }
      ⟨some (c, w.fds.next), some (p, w.fds.next + 1)⟩ := by
  have hnotClient : ∀ id, w.fds.next ≤ id → id ∉ w.clients := fun id hle hid =>
    absurd (h.received id (Or.inl hid)).2 (Nat.not_lt.mpr hle)
  have hnotPipe : ∀ id, w.fds.next ≤ id → id ∉ w.pipes := fun id hle hid =>
    absurd (h.received id (Or.inr hid)).2 (Nat.not_lt.mpr hle)
  -- the places are for the two new descriptors too
  have hmono : Custody (Worker.places { w with
      clients := w.clients ++ [w.fds.next], pipes := w.pipes ++ [w.fds.next + 1] })
      w.fds (w.slots noLocals) := by
    refine h.custody.mono rfl (fun _ hr => hr) ?_ (fun id hid => List.mem_append_left _ hid)
    intro k id hlt hadm
    cases k with
    | listen => exact hadm
    | handoff fd' =>
        rintro (hid | hid)
        · rcases List.mem_append.mp hid with hid | hid
          · exact hadm (Or.inl hid)
          · exact absurd (List.mem_singleton.mp hid) (Nat.ne_of_lt hlt)
        · rcases List.mem_append.mp hid with hid | hid
          · exact hadm (Or.inr hid)
          · exact absurd (List.mem_singleton.mp hid) (Nat.ne_of_lt (Nat.lt_succ_of_lt hlt))
    | client fd' => exact List.mem_append_left _ hadm
    | localClient => exact List.mem_append_left _ hadm
    | pipe fd' => exact List.mem_append_left _ hadm
    | localPipe => exact List.mem_append_left _ hadm
  have hfirst := hmono.opened hc (k := .localClient) rfl
    (List.mem_append_right _ List.mem_cons_self)
  have hp' : (w.fds.opened c).files p = none := by
    rw [FdTable.opened_files, Function.update_of_ne (Ne.symm hne)]
    exact hp
  have hsecond := hfirst.opened hp' (k := .localPipe) rfl
    (List.mem_append_right _ List.mem_cons_self)
  constructor
  · exact hsecond.congr (fun k => slots_locals _ k)
  · exact fun fd o ho => h.handoff fd o ho
  · exact fun fd s hs => h.session fd s hs
  · have hle := h.custody.first_le
    rintro id (hid | hid)
    · rcases List.mem_append.mp hid with hid | hid
      · obtain ⟨hge, hlt⟩ := h.received id (Or.inl hid)
        exact ⟨hge, Nat.lt_succ_of_lt (Nat.lt_succ_of_lt hlt)⟩
      · rw [List.mem_singleton.mp hid]
        exact ⟨hle, Nat.lt_succ_of_lt (Nat.lt_succ_self _)⟩
    · rcases List.mem_append.mp hid with hid | hid
      · obtain ⟨hge, hlt⟩ := h.received id (Or.inr hid)
        exact ⟨hge, Nat.lt_succ_of_lt (Nat.lt_succ_of_lt hlt)⟩
      · rw [List.mem_singleton.mp hid]
        exact ⟨Nat.le_succ_of_le hle, Nat.lt_succ_self _⟩
  · intro id hid hid'
    rcases List.mem_append.mp hid with hid | hid <;> rcases List.mem_append.mp hid' with hid' | hid'
    · exact h.disjoint id hid hid'
    · rw [List.mem_singleton.mp hid'] at hid
      exact hnotClient _ (Nat.le_succ _) hid
    · rw [List.mem_singleton.mp hid] at hid'
      exact hnotPipe _ (Nat.le_refl _) hid'
    · rw [List.mem_singleton.mp hid] at hid'
      exact absurd (List.mem_singleton.mp hid') (Nat.ne_of_lt (Nat.lt_succ_self _))

/-- What `recvfd2_with_state_nb` comes to, when a message brings two descriptors. -/
theorem recvfd2_cases {o : EventCalls} (hok : w.EventOk o) (t : FdTable)
    (payload : Area PAYLOAD_LEN) :
    (∃ payload' r, recvfd2_with_state_nb t payload o.recv = (t, payload', r)
        ∧ (r = .wouldBlock ∨ r = .failed))
      ∨ ∃ payload' c p, recvfd2_with_state_nb t payload o.recv
          = ((t.opened c).opened p, payload', .received (c, t.next) (p, t.next + 1))
        ∧ c ≠ p ∧ w.fds.files c = none ∧ w.fds.files p = none := by
  unfold recvfd2_with_state_nb
  cases hr : o.recv with
  | wouldBlock => exact Or.inl ⟨payload, .wouldBlock, rfl, Or.inl rfl⟩
  | ret r =>
      cases r with
      | error => exact Or.inl ⟨payload, .failed, rfl, Or.inr rfl⟩
      | data bytes ctrunc cmsg =>
          cases cmsg with
          | none =>
              refine Or.inl ⟨if bytes = [] then payload else payload.write bytes, .failed, ?_,
                Or.inr rfl⟩
              dsimp only
              split <;> rfl
          | some c =>
              obtain ⟨client, pipe, rfl, hbytes, hne, hclient, hpipe⟩ := hok.recv bytes ctrunc c hr
              refine Or.inr ⟨payload.write bytes, client, pipe, ?_, hne, hclient, hpipe⟩
              dsimp only
              rw [if_neg hbytes]
              rfl

/-- The entry of a handoff is written back. -/
theorem slots_set_handoff {obj obj' : HandoffObj} (ho : w.s_handoffs fd = some obj)
    (hfd : obj'.fd = obj.fd) (hfile : obj'.file = obj.file) (k : Slot) :
    (w.setHandoff fd (some obj')).slots loc k = w.slots loc k := by
  cases k with
  | handoff fd' =>
      by_cases e : fd' = fd
      · subst e
        simp [slots, setHandoff, ho, hfd, hfile]
      · simp [slots, setHandoff, e]
  | listen => rfl
  | client fd' => rfl
  | pipe fd' => rfl
  | localClient => rfl
  | localPipe => rfl

theorem Inv.set_handoff {obj : HandoffObj} (h : Inv w loc) (ho : w.s_handoffs fd = some obj)
    (obj' : HandoffObj) (hfd : obj'.fd = obj.fd) (hfile : obj'.file = obj.file) (hclient : obj'.client = none)
    (hpipe : obj'.pipe_wr = none) : Inv (w.setHandoff fd (some obj')) loc where
  custody := h.custody.congr (slots_set_handoff ho hfd hfile)
  handoff := fun fd' o ho' => by
    by_cases e : fd' = fd
    · subst e
      have ho' : Function.update w.s_handoffs fd' (some obj') fd' = some o := ho'
      rw [Function.update_self] at ho'
      cases ho'
      have hok := h.handoff fd' obj ho
      exact ⟨hfd.trans hok.fd_eq, hok.lt, hclient, hpipe⟩
    · have ho' : Function.update w.s_handoffs fd (some obj') fd' = some o := ho'
      rw [Function.update_of_ne e] at ho'
      exact h.handoff fd' o ho'
  session := h.session
  received := h.received
  disjoint := h.disjoint

/-- A call that leaves every place alone. -/
theorem Inv.set_fds (h : Inv w loc) {t : FdTable} (hcust : Custody w.places t (w.slots loc))
    (hnext : w.fds.next ≤ t.next) : Inv (w.setFds t) loc :=
  h.of_tables hcust (fun _ _ ho => ho) (fun _ _ hs => hs) rfl rfl rfl hnext

/-- **`handle_handoff_fd`.** -/
theorem Inv.handle_handoff_fd (cfg : Config) {obj : HandoffObj} {o : EventCalls}
    (h : Inv w noLocals) (ho : w.s_handoffs fd = some obj) (hok : w.EventOk o)
    (hsent : o.relay.sent = true) :
    Inv (w.handle_handoff_fd cfg fd obj o) noLocals
      ∧ Frame fd w (w.handle_handoff_fd cfg fd obj o) := by
  have hobj := h.handoff fd obj ho
  have hk : w.slots noLocals (.handoff fd) = some (obj.fd, obj.file) := by simp [slots, ho]
  have huse := h.set_fds (h.custody.use hk) (Nat.le_refl _)
  have hfollows : FdTable.Follows fd w.fds (w.fds.use obj.fd obj.file) :=
    (FdTable.Follows.refl _).use _ _
  have hframe : Frame fd w (w.setFds (w.fds.use obj.fd obj.file)) :=
    Frame.of_fds hfollows rfl rfl rfl rfl
  unfold Worker.handle_handoff_fd
  rcases recvfd2_cases hok (w.fds.use obj.fd obj.file) obj.payload with
    ⟨payload', r, hr, rfl | rfl⟩ | ⟨payload', c, p, hr, hne, hc, hp⟩
  · rw [hr]
    exact ⟨huse, hframe⟩
  · rw [hr]
    have hset := huse.set_handoff ho { obj with payload := payload' } rfl rfl
      hobj.client hobj.pipe_wr
    obtain ⟨hinv, hf⟩ := hset.handoff_close (Function.update_self _ _ _)
    have hframe' : Frame fd w ((w.setFds (w.fds.use obj.fd obj.file)).setHandoff fd
      (some { obj with payload := payload' })) := Frame.of_fds hfollows rfl rfl rfl rfl
    exact ⟨hinv, hframe'.trans hf⟩
  · rw [hr]
    dsimp only
    have hrecv := huse.received_two hc hp hne
    have hset := hrecv.set_handoff ho
      { obj with payload := payload', client := none, pipe_wr := none } rfl rfl rfl rfl
    obtain ⟨hinv, hf⟩ := hset.handoff_close (Function.update_self _ _ _)
    have hframe' : Frame fd w (({ (w.setFds (w.fds.use obj.fd obj.file)).setFds
        (((w.fds.use obj.fd obj.file).opened c).opened p) with
          clients := w.clients ++ [w.fds.next], pipes := w.pipes ++ [w.fds.next + 1] }
        : Worker).setHandoff fd
          (some { obj with payload := payload', client := none, pipe_wr := none })) :=
      Frame.of_fds ((hfollows.opened c).opened p) rfl rfl rfl rfl
    have hframe := hframe'.trans hf
    split
    · obtain ⟨hinv', hf'⟩ := hinv.register_client_fd cfg fd hok.socket hsent
      exact ⟨hinv', hframe.trans hf'⟩
    · obtain ⟨hinv', hf'⟩ := hinv.close_both _ hinv.custody rfl (.refl _)
        (fun _ hi => Or.inl hi)
      exact ⟨hinv', hframe.trans hf'⟩

/-- A new handoff in the table. -/
theorem slots_accepted {c : Fd} {id : FileId} (obj : HandoffObj) (hfd : obj.fd = c)
    (hfile : obj.file = id) (fds : FdTable) (k : Slot) :
    ((w.setFds fds).setHandoff c (some obj)).slots loc k
      = Function.update (w.slots loc) (.handoff c) (some (c, id)) k := by
  cases k with
  | handoff fd' =>
      by_cases e : fd' = c
      · subst e
        simp [slots, setHandoff, setFds, hfd, hfile]
      · simp [slots, setHandoff, setFds, e]
  | listen => rfl
  | client fd' => rfl
  | pipe fd' => rfl
  | localClient => rfl
  | localPipe => rfl

/-- **One accepted descriptor.** -/
theorem Inv.handle_accept {o : AcceptCalls} (h : Inv w noLocals)
    (hfree : w.fds.files o.conn_fd = none) :
    Inv (w.handle_accept o) noLocals ∧ Frame o.conn_fd w (w.handle_accept o) := by
  have hfollows : FdTable.Follows o.conn_fd w.fds (w.fds.opened o.conn_fd) :=
    (FdTable.Follows.refl _).opened _
  have hnone : w.s_handoffs o.conn_fd = none := by
    cases ho : w.s_handoffs o.conn_fd with
    | none => rfl
    | some obj =>
        have hk : w.slots noLocals (.handoff o.conn_fd) = some (obj.fd, obj.file) := by
          simp [slots, ho]
        rw [(h.handoff _ _ ho).fd_eq] at hk
        exact absurd hk ((h.custody.unused hfree).2 _ _)
  have hslot : w.slots noLocals (.handoff o.conn_fd) = none := by simp [slots, hnone]
  have hnot : ¬ w.Received w.fds.next := fun hid => Nat.lt_irrefl _ (h.received _ hid).2
  have hopened := h.custody.opened hfree hslot hnot
  have hentry : Function.update (w.slots noLocals) (.handoff o.conn_fd)
      (some (o.conn_fd, w.fds.next)) (.handoff o.conn_fd) = some (o.conn_fd, w.fds.next) :=
    Function.update_self _ _ _
  unfold Worker.handle_accept
  dsimp only
  split
  · -- closed again
    have hno : (w.fds.opened o.conn_fd).epoll o.conn_fd = false := (h.custody.unused hfree).1
    have hclosed := hopened.close hentry hno
    have hinv : Inv (w.setFds ((w.fds.opened o.conn_fd).close o.conn_fd w.fds.next)) noLocals := by
      refine h.set_fds (hclosed.congr fun k => ?_) (Nat.le_succ _)
      rw [Function.update_idem, ← hslot, Function.update_eq_self]
    exact ⟨hinv, Frame.of_fds (hfollows.close _ _) rfl rfl rfl rfl⟩
  next hcond =>
    have hlt : o.conn_fd < MAX_FDS := Nat.lt_of_not_le fun hle => hcond (Or.inl hle)
    have hset : Inv ((w.setFds (w.fds.opened o.conn_fd)).setHandoff o.conn_fd
        (some ⟨o.conn_fd, w.fds.next, none, none, Area.zero _⟩)) noLocals := by
      constructor
      · exact hopened.congr (slots_accepted ⟨o.conn_fd, w.fds.next, none, none, Area.zero _⟩ rfl rfl _)
      · intro fd' obj ho
        by_cases e : fd' = o.conn_fd
        · subst e
          have ho : Function.update w.s_handoffs o.conn_fd (some (⟨o.conn_fd, w.fds.next, none, none,
            Area.zero _⟩ : HandoffObj)) o.conn_fd = some obj := ho
          rw [Function.update_self] at ho
          cases ho
          exact ⟨rfl, hlt, rfl, rfl⟩
        · have ho : Function.update w.s_handoffs o.conn_fd (some (⟨o.conn_fd, w.fds.next, none, none,
            Area.zero _⟩ : HandoffObj)) fd' = some obj := ho
          rw [Function.update_of_ne e] at ho
          exact h.handoff fd' obj ho
      · exact h.session
      · intro id hid
        obtain ⟨hle, hlt⟩ := h.received id hid
        exact ⟨hle, Nat.lt_succ_of_lt hlt⟩
      · exact h.disjoint
    have hk : ((w.setFds (w.fds.opened o.conn_fd)).setHandoff o.conn_fd
        (some ⟨o.conn_fd, w.fds.next, none, none, Area.zero _⟩)).slots noLocals
          (.handoff o.conn_fd) = some (o.conn_fd, w.fds.next) := by
      simp [slots, setHandoff]
    split
    · exact ⟨hset.set_fds (hset.custody.epollAdd hk trivial) (Nat.le_refl _),
        Frame.of_fds (hfollows.epollAdd _ _) rfl rfl rfl rfl⟩
    · have huse := hset.set_fds (hset.custody.use hk) (Nat.le_refl _)
      obtain ⟨hinv, hf⟩ := huse.handoff_close (Function.update_self o.conn_fd _ _)
      have hframe : Frame o.conn_fd w (((w.setFds (w.fds.opened o.conn_fd)).setHandoff o.conn_fd
          (some ⟨o.conn_fd, w.fds.next, none, none, Area.zero _⟩)).setFds
            ((w.fds.opened o.conn_fd).use o.conn_fd w.fds.next)) :=
        Frame.of_fds (hfollows.use _ _) rfl rfl rfl rfl
      exact ⟨hinv, hframe.trans hf⟩

end TlsMigration.HttpKa.Worker
