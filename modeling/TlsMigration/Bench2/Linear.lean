/-
  TlsMigration.Bench2.Linear
  ──────────────────────────
  **LINEAR OWNERSHIP OF DESCRIPTORS IN THE BENCH2 WORKER.**

  Each function of the worker is a chain of the changes of
  `Bench2.Ownership`, whatever its calls return (§2–§3); the event loop
  adds that the events still to be handled are on registered descriptors
  (§4).

    • `worker_linear` — the tables, the descriptors and the objects in every
                        reachable state.
-/
import TlsMigration.Bench2.Ownership

namespace TlsMigration.Bench2.Worker

open TlsMigration.Handoff

variable {F S : Type*} {n : Nat} {w w₁ w₂ : Worker F S n} {loose : Option (Fd × FileId)}
  {orphan : Option Fd}

/-! ## §1. What a handler leaves alone. -/

/-- The event loop's own variables stay, and no number but `fd` leaves epoll. -/
structure Frame (fd : Fd) (w w' : Worker F S n) : Prop where
  batch : w'.batch = w.batch
  accepting : w'.accepting = w.accepting
  listen_fd : w'.listen_fd = w.listen_fd
  epoll : ∀ fd', fd' ≠ fd → w.fds.epoll fd' = true → w'.fds.epoll fd' = true

namespace Frame

variable {fd : Fd}

theorem refl (w : Worker F S n) : Frame fd w w := ⟨rfl, rfl, rfl, fun _ _ h => h⟩

theorem trans (h₁ : Frame fd w w₁) (h₂ : Frame fd w₁ w₂) : Frame fd w w₂ where
  batch := h₂.batch.trans h₁.batch
  accepting := h₂.accepting.trans h₁.accepting
  listen_fd := h₂.listen_fd.trans h₁.listen_fd
  epoll := fun fd' hne h => h₂.epoll fd' hne (h₁.epoll fd' hne h)

/-- A call that registers nothing and takes nothing out of epoll. -/
theorem setFds (h : Frame fd w w₁) {fds : FdTable} (hfds : fds.epoll = w₁.fds.epoll) :
    Frame fd w (w₁.setFds fds) :=
  h.trans ⟨rfl, rfl, rfl, fun fd' _ he => by rw [setFds_fds, hfds]; exact he⟩

theorem use (h : Frame fd w w₁) (c : Fd) (id : FileId) :
    Frame fd w (w₁.setFds (w₁.fds.use c id)) := h.setFds rfl

theorem close (h : Frame fd w w₁) (c : Fd) (id : FileId) :
    Frame fd w (w₁.setFds (w₁.fds.close c id)) := h.setFds rfl

theorem send (h : Frame fd w w₁) (c : Fd) (id : FileId) :
    Frame fd w (w₁.setFds (w₁.fds.send c id)) := h.setFds rfl

theorem opened (h : Frame fd w w₁) (c : Fd) : Frame fd w (w₁.setFds (w₁.fds.opened c)) :=
  h.setFds rfl

theorem setSession (h : Frame fd w w₁) (fd' : Fd) (o : Option Addr) :
    Frame fd w (w₁.setSession fd' o) :=
  h.trans ⟨rfl, rfl, rfl, fun _ _ he => he⟩

theorem setHandoff (h : Frame fd w w₁) (fd' : Fd) (o : Option (HandoffObj n)) :
    Frame fd w (w₁.setHandoff fd' o) :=
  h.trans ⟨rfl, rfl, rfl, fun _ _ he => he⟩

theorem setHeap (h : Frame fd w w₁) (a : Addr) (o : Option (SessionObj F S)) :
    Frame fd w (w₁.setHeap a o) :=
  h.trans ⟨rfl, rfl, rfl, fun _ _ he => he⟩

theorem free (h : Frame fd w w₁) (a : Addr) : Frame fd w (w₁.free a) :=
  h.trans ⟨rfl, rfl, rfl, fun _ _ he => he⟩

theorem epollDel (h : Frame fd w w₁) (id : FileId) :
    Frame fd w (w₁.setFds (w₁.fds.epollDel fd id)) :=
  h.trans ⟨rfl, rfl, rfl, fun fd' hne he => by simpa [hne] using he⟩

/-- A number that is not registered is taken out of epoll. -/
theorem epollDel_other (h : Frame fd w w₁) {c : Fd} (id : FileId)
    (hc : w₁.fds.epoll c = false) : Frame fd w (w₁.setFds (w₁.fds.epollDel c id)) :=
  h.trans ⟨rfl, rfl, rfl, fun fd' _ he => by
    have hne : fd' ≠ c := by
      rintro rfl
      rw [hc] at he
      cases he
    simpa [hne] using he⟩

theorem epollAdd (h : Frame fd w w₁) (c : Fd) (id : FileId) :
    Frame fd w (w₁.setFds (w₁.fds.epollAdd c id)) :=
  h.trans ⟨rfl, rfl, rfl, fun fd' _ he => by
    by_cases e : fd' = c
    · subst e
      simp
    · simpa [e] using he⟩

/-- A handler of a number that is not registered. -/
theorem of_unregistered {c : Fd} (h : Frame c w w₁) (hc : w.fds.epoll c = false) :
    Frame fd w w₁ :=
  { h with
    epoll := fun fd' _ he => h.epoll fd' (by rintro rfl; rw [hc] at he; cases he) he }

end Frame

/-! ## §2. Sessions. -/

/-- `session_close` on an object that has a descriptor. -/
theorem session_close_eq {a : Addr} {s : SessionObj F S} {fd : Fd} (hs : w.heap a = some s)
    (hfd : s.core.fd = some fd) (hlt : fd < WORKER_MAX_FDS) :
    w.session_close a
      = ((((w.setSession fd none).setFds (w.fds.epollDel fd s.file)).setFds
          ((w.fds.epollDel fd s.file).close fd s.file)).free a) := by
  unfold session_close
  simp only [hs, hfd, if_pos hlt]
  rfl

/-- The object of a registered session is in the table once. -/
theorem Inv.entry_unique (h : Inv w loose orphan) {fd fd' : Fd} {a : Addr}
    (ha : w.s_sessions fd = some a) (ha' : w.s_sessions fd' = some a) : fd' = fd := by
  obtain ⟨s, hs, hi⟩ := h.session fd a ha
  obtain ⟨s', hs', hi'⟩ := h.session fd' a ha'
  have e : s' = s := Option.some.inj (hs'.symm.trans hs)
  subst e
  exact Option.some.inj (hi'.fd_eq.symm.trans hi.fd_eq)

theorem Inv.not_in_table (h : Inv w loose orphan) {fd : Fd} {a : Addr}
    (ha : w.s_sessions fd = some a) (fd' : Fd) : (w.setSession fd none).s_sessions fd' ≠ some a := by
  intro ha'
  by_cases e : fd' = fd
  · subst e
    simp at ha'
  · exact e (h.entry_unique ha (by simpa [e] using ha'))

/-- A session leaves the table and epoll; its descriptor is loose then. -/
theorem Inv.unregister_session {fd : Fd} {a : Addr} {s : SessionObj F S} (h : Inv w none none)
    (ha : w.s_sessions fd = some a) (hs : w.heap a = some s) :
    Inv ((w.setSession fd none).setFds (w.fds.epollDel fd s.file)) (some (fd, s.file)) none := by
  have hdrop := h.drop_session ha hs
  exact hdrop.epollDel (fun fd' e => (Option.some.inj e).symm) (hdrop.loose fd s.file rfl).file

/-- A registered session is closed. -/
theorem Inv.session_close {fd : Fd} {a : Addr} (h : Inv w none none)
    (ha : w.s_sessions fd = some a) :
    Inv (w.session_close a) none none ∧ Frame fd w (w.session_close a) := by
  obtain ⟨s, hs, hi⟩ := h.session fd a ha
  rw [session_close_eq hs hi.fd_eq hi.lt]
  constructor
  · exact (h.unregister_session ha hs).close_loose.free (h.not_in_table ha)
  · exact ((((Frame.refl w).setSession fd none).epollDel s.file).close fd s.file).free a

/-- An object that never got into the table is closed, with its descriptor. -/
theorem Inv.session_close_loose {c : Fd} {id : FileId} {a : Addr} {s : SessionObj F S}
    (h : Inv w (some (c, id)) none) (fd : Fd) (hs : w.heap a = some s) (hfd : s.core.fd = some c)
    (hfile : s.file = id) (hlt : c < WORKER_MAX_FDS) (ha : ∀ fd', w.s_sessions fd' ≠ some a) :
    Inv (w.session_close a) none none ∧ Frame fd w (w.session_close a) := by
  subst hfile
  have hl := h.loose c s.file rfl
  have hsame : w.setSession c none = w := by
    show { w with s_sessions := Function.update w.s_sessions c none } = w
    rw [← hl.session, Function.update_eq_self]
  rw [session_close_eq hs hfd hlt, hsame]
  constructor
  · exact (h.epollDel (by simp) hl.file).close_loose.free ha
  · exact (((Frame.refl w).epollDel_other s.file h.loose_epoll).close c s.file).free a

/-- An object whose descriptor is gone is freed. -/
theorem session_close_detached {a : Addr} {s : SessionObj F S} (hs : w.heap a = some s)
    (hfd : s.core.fd = none) : w.session_close a = w.free a := by
  unfold Worker.session_close
  simp only [hs, hfd]

/-- `session_new`: the descriptor is closed, or it is a session's. -/
theorem Inv.session_new {c : Fd} {id : FileId} {o : RegisterCalls}
    (h : Inv w (some (c, id)) none) (env : WorkerEnv F S n) (payload : Payload S) (fd : Fd)
    (hcalloc : ∀ a, o.calloc = some a → w.heap a = none) :
    Frame fd w (w.session_new env c id payload o).1
      ∧ (((w.session_new env c id payload o).2 = none
          ∧ Inv (w.session_new env c id payload o).1 none none)
        ∨ ∃ a, (w.session_new env c id payload o).2 = some a
          ∧ Inv (w.session_new env c id payload o).1 none none
          ∧ (w.session_new env c id payload o).1.fds.files c = some id
          ∧ (w.session_new env c id payload o).1.s_sessions c = some a) := by
  have hl := h.loose c id rfl
  have huse := h.use hl.file
  have hclose : Inv ((w.setFds (w.fds.use c id)).setFds ((w.fds.use c id).close c id)) none none :=
    huse.close_loose
  have hframe : Frame fd w (w.setFds (w.fds.use c id)) := (Frame.refl w).use c id
  unfold Worker.session_new
  split
  next => exact ⟨(Frame.refl w).close c id, Or.inl ⟨rfl, h.close_loose⟩⟩
  next hlt =>
    have hlt : c < WORKER_MAX_FDS := Nat.lt_of_not_le hlt
    dsimp only
    split
    · exact ⟨hframe.close c id, Or.inl ⟨rfl, hclose⟩⟩
    · cases ho : o.calloc with
      | none => exact ⟨hframe.close c id, Or.inl ⟨rfl, hclose⟩⟩
      | some a =>
          have hnew : ∀ fd', w.s_sessions fd' ≠ some a := by
            intro fd' ha
            obtain ⟨s, hs, -⟩ := h.session fd' a ha
            rw [hcalloc a ho] at hs
            cases hs
          have hobj := huse.set_heap hnew
            (some ⟨Bench2.session_new env.cfg c payload.serial, id⟩)
          have hframe := hframe.setHeap a
            (some ⟨Bench2.session_new env.cfg c payload.serial, id⟩)
          have hget : ((w.setFds (w.fds.use c id)).setHeap a
              (some ⟨Bench2.session_new env.cfg c payload.serial, id⟩)).heap a
                = some ⟨Bench2.session_new env.cfg c payload.serial, id⟩ := by simp
          dsimp only
          split
          · -- wolfSSL_new failed
            exact ⟨(hframe.free a).close c id, Or.inl ⟨rfl, (hobj.free hnew).close_loose⟩⟩
          split
          · -- the session could not be restored, or has no buffer
            obtain ⟨hinv, hf⟩ := hobj.session_close_loose fd hget rfl rfl hlt hnew
            exact ⟨hframe.trans hf, Or.inl ⟨rfl, hinv⟩⟩
          · refine ⟨hframe.setSession c (some a), Or.inr ⟨a, rfl, ?_, hl.file, by simp⟩⟩
            exact hobj.add_session hget rfl rfl hlt

theorem session_iter_fd (cfg : Config F) (s : Session F S) (c : Calls S) :
    (session_iter cfg s c).1.fd = s.fd := by
  have hwant : ∀ (s : Session F S) (err : Want), (wolfssl_want s err c.epoll_mod_ok).1.fd = s.fd :=
    fun s err => by
      obtain ⟨events, rc, h, -⟩ := wolfssl_want_cases s err c.epoll_mod_ok
      rw [h]
  have hbuild : ∀ s : Session F S, (session_build_response cfg s c).1.fd = s.fd := fun s => by
    rcases session_build_response_cases cfg s c with h | ⟨resp, events, rc, -, h⟩ <;> rw [h]
  unfold session_iter
  cases s.state with
  | peek_owner =>
      dsimp only [session_peek_owner]
      split
      · rfl
      split
      · rfl
      split <;> rfl
  | read_headers =>
      cases hr : c.read with
      | none err =>
          obtain ⟨cap, events, rc, h⟩ := session_read_headers_none cfg s hr
          exact congrArg (fun r => r.1.fd) h
      | data d =>
          rcases session_read_headers_data cfg s hr with h | ⟨cap, h⟩
          · exact congrArg (fun r => r.1.fd) h
          · refine (congrArg (fun r => r.1.fd) h).trans ?_
            rcases session_headers_read_cases cfg (s.received cap d) c with
              ⟨-, h'⟩ | ⟨_, s', ctl, -, h', ⟨-, hfd, -, -⟩ | hdone⟩
            · exact congrArg (fun r => r.1.fd) h'
            · exact (congrArg (fun r => r.1.fd) h').trans hfd
            · exact (congrArg (fun r => r.1.fd) h').trans hdone.fd_eq
  | read_body =>
      dsimp only [session_read_body]
      split
      · split
        · rfl
        · exact hwant s _
      · exact hbuild s
  | write_response =>
      dsimp only [session_flush_response]
      split
      · split
        · rfl
        · exact hwant s _
      · rcases session_finish_response_cases cfg s c with ⟨s', h, hfd, -⟩ | ⟨serial, -, -, h⟩
        · rw [h]
          exact hfd
        · rw [h]
          rfl

/-- `session_advance` keeps the descriptor. -/
theorem session_advance_fd (cfg : Config F) (s : Session F S) (calls : List (Calls S)) :
    (session_advance cfg s calls).1.fd = s.fd := by
  unfold session_advance
  induction calls generalizing s with
  | nil => rfl
  | cons c cs ih =>
      cases ha : Ctl.isAgain (session_iter cfg s c).2 with
      | true =>
          rw [pollUntil_again cs ha]
          exact (ih _).trans (session_iter_fd cfg s c)
      | false =>
          rw [pollUntil_done cs ha]
          exact session_iter_fd cfg s c

/-- The table does not point to a descriptor that is sent away. -/
theorem setFds_badSends {c : Fd} {fds : FdTable} (h : w.s_sessions c = none) :
    ({ w.setFds fds with
        badSends := w.badSends + (if (w.s_sessions c).isSome then 1 else 0) } : Worker F S n)
      = w.setFds fds := by
  rw [h]
  rfl

/-- `relay_to_gateway`: the descriptor is sent away, or closed. -/
theorem Inv.relay_to_gateway {c : Fd} {id : FileId} {o : RelayCalls}
    (h : Inv w (some (c, id)) none) (fd : Fd)
    (hsocket : ∀ r, o.socket = some r → w.fds.files r = none) :
    Inv (w.relay_to_gateway c id o) none none ∧ Frame fd w (w.relay_to_gateway c id o) := by
  have hl := h.loose c id rfl
  unfold Worker.relay_to_gateway
  cases ho : o.socket with
  | none => exact ⟨h.close_loose, (Frame.refl w).close c id⟩
  | some r =>
      have hfree := hsocket r ho
      obtain ⟨hlisten, hhandoff, -, -, -⟩ := h.unused hfree
      have hr : (w.setFds (w.fds.opened r)).fds.files r = some w.fds.next := by simp
      have hid : w.fds.next ∉ w.clients := fun hmem =>
        Nat.lt_irrefl _ (h.clients_lt _ hmem)
      have hopen := h.opened hfree
      have hframe : Frame fd w (w.setFds (w.fds.opened r)) := (Frame.refl w).opened r
      dsimp only
      split
      · -- connect failed
        exact ⟨(hopen.close_conn hr hid hlisten hhandoff).close_loose,
          (hframe.close r w.fds.next).close c id⟩
      · have huse := hopen.use hr
        have hframe := hframe.use r w.fds.next
        split
        · -- sent
          rw [setFds_badSends (by exact hl.session)]
          have hne : r ≠ c := by
            rintro rfl
            rw [hl.file] at hfree
            cases hfree
          refine ⟨huse.send_loose.close_conn ?_ hid hlisten hhandoff,
            (hframe.send c id).close r w.fds.next⟩
          simp [hne]
        · exact ⟨(huse.close_conn hr hid hlisten hhandoff).close_loose,
            (hframe.close r w.fds.next).close c id⟩

/-- `session_relay`. -/
theorem Inv.session_relay {fd : Fd} {a : Addr} {s : SessionObj F S} {o : RelayCalls}
    (h : Inv w none none) (ha : w.s_sessions fd = some a) (hs : w.heap a = some s)
    (hsocket : ∀ r, o.socket = some r → w.fds.files r = none) :
    Inv (w.session_relay a s o) none none ∧ Frame fd w (w.session_relay a s o) := by
  obtain ⟨s', hs', hi⟩ := h.session fd a ha
  have e : s' = s := Option.some.inj (hs'.symm.trans hs)
  subst e
  have hnot := h.not_in_table ha
  have hobj := (h.unregister_session ha hs).set_heap hnot
    (some { s' with core := { s'.core with fd := none } })
  have hfree := hobj.free hnot
  obtain ⟨hinv, hframe⟩ := hfree.relay_to_gateway fd hsocket
  unfold Worker.session_relay
  simp only [hi.fd_eq, if_pos hi.lt]
  rw [session_close_detached (Function.update_self _ _ _) rfl]
  exact ⟨hinv, (((((Frame.refl w).setSession fd none).epollDel s'.file).setHeap a _).free a).trans
    hframe⟩

/-- `session_advance` and what follows it. -/
theorem Inv.advance {env : WorkerEnv F S n} {fd : Fd} {a : Addr} {s : SessionObj F S}
    {o : EventCalls S} (h : Inv w none none) (ha : w.s_sessions fd = some a)
    (hs : w.heap a = some s) (hsocket : ∀ r, o.relay.socket = some r → w.fds.files r = none) :
    Inv (w.advance env a s fd o) none none ∧ Frame fd w (w.advance env a s fd o) := by
  obtain ⟨s', hs', hi⟩ := h.session fd a ha
  have e : s' = s := Option.some.inj (hs'.symm.trans hs)
  subst e
  have huse := h.use hi.file
  have hobj := huse.update_session ha hs
    ⟨(session_advance env.cfg s'.core o.session).1, s'.file⟩ (session_advance_fd _ _ _) rfl
  have hframe : Frame fd w ((w.setFds (w.fds.use fd s'.file)).setHeap a
      (some ⟨(session_advance env.cfg s'.core o.session).1, s'.file⟩)) :=
    ((Frame.refl w).use fd s'.file).setHeap a _
  unfold Worker.advance
  dsimp only
  split
  · -- relayed
    obtain ⟨hinv, hf⟩ := hobj.session_relay ha (Function.update_self _ _ _) hsocket
    exact ⟨hinv, hframe.trans hf⟩
  · split
    · obtain ⟨hinv, hf⟩ := hobj.session_close ha
      exact ⟨hinv, hframe.trans hf⟩
    · exact ⟨hobj, hframe⟩
  · exact ⟨hobj, hframe⟩

/-! ## §3. Handoffs. -/

/-- `handoff_close` on a connection without a client descriptor. -/
theorem Inv.handoff_close_empty {fd : Fd} {o : HandoffObj n} (h : Inv w loose none)
    (ho : w.s_handoffs fd = some o) (hc : o.core.client_fd = none) :
    Inv (w.handoff_close fd o.file) loose none ∧ Frame fd w (w.handoff_close fd o.file) := by
  have hi := h.handoff fd o ho
  have hdrop := h.drop_handoff ho hc
  have hdel := hdrop.epollDel (fun fd' e => (Option.some.inj e).symm) hi.file
  unfold Worker.handoff_close
  simp only [if_pos hi.lt, ho, hc]
  exact ⟨hdel.close_conn hi.file hi.not_client hi.not_listen (Function.update_self _ _ _),
    (((Frame.refl w).setHandoff fd none).epollDel o.file).close fd o.file⟩

/-- `handoff_close`, which also closes the client descriptor of the connection. -/
theorem Inv.handoff_close {fd : Fd} {o : HandoffObj n} (h : Inv w none none)
    (ho : w.s_handoffs fd = some o) :
    Inv (w.handoff_close fd o.file) none none ∧ Frame fd w (w.handoff_close fd o.file) := by
  cases hc : o.core.client_fd with
  | none => exact h.handoff_close_empty ho hc
  | some c =>
      have hi := h.handoff fd o ho
      obtain ⟨hcf, hcid, -, -, -⟩ := hi.client c hc
      have hne : fd ≠ c := by
        rintro rfl
        rw [hi.file] at hcf
        exact hi.not_client (Option.some.inj hcf ▸ hcid)
      have hdrop := h.drop_handoff_client ho hc
      have hclosed := hdrop.close_loose
      have hfile : ((w.setHandoff fd none).setFds (w.fds.close c o.client_file)).fds.files fd
          = some o.file := by
        simpa [hne] using hi.file
      have hdel := hclosed.epollDel (fun fd' e => (Option.some.inj e).symm) hfile
      unfold Worker.handoff_close
      simp only [if_pos hi.lt, ho, hc]
      exact ⟨hdel.close_conn hfile hi.not_client hi.not_listen (Function.update_self _ _ _),
        ((((Frame.refl w).setHandoff fd none).close c o.client_file).epollDel o.file).close fd
          o.file⟩

theorem handoff_close_heap (fd : Fd) (file : FileId) : (w.handoff_close fd file).heap = w.heap := by
  unfold Worker.handoff_close
  dsimp only
  split
  · split
    · rfl
    · split <;> rfl
  · rfl

/-- `register_client_fd`: the descriptor is closed, or it is a registered session's. -/
theorem Inv.register_client_fd {c : Fd} {id : FileId} {o : RegisterCalls}
    (h : Inv w (some (c, id)) none) (env : WorkerEnv F S n) (payload : Payload S) (fd : Fd)
    (hcalloc : ∀ a, o.calloc = some a → w.heap a = none) :
    Inv (w.register_client_fd env c id payload o) none none
      ∧ Frame fd w (w.register_client_fd env c id payload o) := by
  suffices hc : Inv (w.register_client_fd env c id payload o) none none
      ∧ Frame c w (w.register_client_fd env c id payload o) from
    ⟨hc.1, hc.2.of_unregistered h.loose_epoll⟩
  unfold Worker.register_client_fd
  split
  · exact ⟨h.close_loose, (Frame.refl w).close c id⟩
  · obtain ⟨hframe, ⟨hnone, hinv⟩ | ⟨a, hsome, hinv, hfile, ha⟩⟩ :=
      h.session_new env payload c hcalloc
    · split
      next w' hw => exact ⟨by rw [hw] at hinv; exact hinv, by rw [hw] at hframe; exact hframe⟩
      next w' a hw => rw [hw] at hnone; cases hnone
    · split
      next w' hw => rw [hw] at hsome; cases hsome
      next w' a' hw =>
        rw [hw] at hsome hinv hfile ha hframe
        obtain rfl : a' = a := Option.some.inj hsome
        split
        · exact ⟨hinv.epollAdd hfile (Or.inr (by rw [ha]; rfl)), hframe.epollAdd c id⟩
        · obtain ⟨hclose, hf⟩ := (hinv.use hfile).session_close ha
          exact ⟨hclose, (hframe.use c id).trans hf⟩

/-- What `handoff_recv_nb` does with a descriptor: it takes none, keeps one, or is
handed one too many and closes it. -/
theorem handoff_recv_nb_fds {h : HandoffConn n} {r : NbRecv} (hfd : h.fd.isSome)
    (hr : ∀ bytes ctrunc c, r = .ret (.data bytes ctrunc (some c)) →
      ∃ fd, c = ⟨true, [fd]⟩ ∧ bytes ≠ [] ∧ ctrunc = false) :
    (handoff_recv_nb h r).1.1.fd = h.fd
      ∧ (((n ≤ h.len ∨ receivedFd r = none)
            ∧ (handoff_recv_nb h r).1.1.client_fd = h.client_fd ∧ (handoff_recv_nb h r).2 = [])
        ∨ ∃ fd, h.len < n ∧ receivedFd r = some fd
          ∧ ((h.client_fd = none ∧ (handoff_recv_nb h r).1.1.client_fd = some fd
                ∧ (handoff_recv_nb h r).2 = [])
            ∨ (h.client_fd.isSome ∧ (handoff_recv_nb h r).1.1.client_fd = h.client_fd
                ∧ (handoff_recv_nb h r).2 = [fd]))) := by
  have hsome : h.fd.isNone = false := by
    cases hh : h.fd with
    | none => rw [hh] at hfd; cases hfd
    | some _ => rfl
  unfold handoff_recv_nb
  simp only [hsome, Bool.false_eq_true, if_false]
  split
  next hle => exact ⟨rfl, Or.inl ⟨Or.inl hle, rfl, rfl⟩⟩
  next hlt =>
    have hlt : h.len < n := Nat.lt_of_not_le hlt
    match r with
    | .wouldBlock => exact ⟨rfl, Or.inl ⟨Or.inr rfl, rfl, rfl⟩⟩
    | .ret .error => exact ⟨rfl, Or.inl ⟨Or.inr rfl, rfl, rfl⟩⟩
    | .ret (.data bytes ctrunc none) =>
        dsimp only
        split
        · exact ⟨rfl, Or.inl ⟨Or.inr rfl, rfl, rfl⟩⟩
        · exact ⟨rfl, Or.inl ⟨Or.inr rfl, rfl, rfl⟩⟩
    | .ret (.data bytes ctrunc (some c)) =>
        obtain ⟨fd, rfl, hbytes, rfl⟩ := hr bytes ctrunc c rfl
        have hlen : ¬ bytes.length = 0 := fun e => hbytes (List.length_eq_zero_iff.mp e)
        simp only [hlen, decide_false, Bool.or_false, Bool.false_eq_true, if_false]
        cases hc : h.client_fd with
        | none => exact ⟨rfl, Or.inr ⟨fd, hlt, rfl, Or.inl ⟨rfl, rfl, rfl⟩⟩⟩
        | some c => exact ⟨rfl, Or.inr ⟨fd, hlt, rfl, Or.inr ⟨rfl, rfl, rfl⟩⟩⟩

theorem receivedFd_eq {r : NbRecv} {fd : Fd} (h : receivedFd r = some fd) :
    ∃ bytes ctrunc, r = .ret (.data bytes ctrunc (some ⟨true, [fd]⟩)) := by
  unfold receivedFd at h
  split at h
  next bytes ctrunc fd' =>
    injection h with h
    subst h
    exact ⟨bytes, ctrunc, rfl⟩
  next => cases h

/-- A connection after one receive. -/
def received_obj (h : HandoffObj n) (r : NbRecv) (file : FileId) : HandoffObj n :=
  { h with
    core := (handoff_recv_nb h.core r).1.1
    client_file := if h.core.client_fd.isSome then h.client_file else file }

/-- The receive of `handle_handoff_fd`. -/
theorem Inv.receive {conn : Fd} {h : HandoffObj n} {r : NbRecv} (hw : Inv w none none)
    (ho : w.s_handoffs conn = some h)
    (hr : ∀ bytes ctrunc c, r = .ret (.data bytes ctrunc (some c)) →
      ∃ fd, c = ⟨true, [fd]⟩ ∧ bytes ≠ [] ∧ ctrunc = false ∧ w.fds.files fd = none) :
    let w' := ((((w.setFds (w.fds.use conn h.file)).received h.core r).setHandoff conn
      (some (received_obj h r w.fds.next))).closeAll w.fds.next (handoff_recv_nb h.core r).2)
    Inv w' none none ∧ Frame conn w w' ∧ w'.heap = w.heap
      ∧ w'.s_handoffs conn = some (received_obj h r w.fds.next) := by
  have hi := hw.handoff conn h ho
  have huse := hw.use hi.file
  have hsome : h.core.fd.isSome := by rw [hi.fd_eq]; rfl
  have hframe : Frame conn w (w.setFds (w.fds.use conn h.file)) :=
    (Frame.refl w).use conn h.file
  obtain ⟨hfd, hrest⟩ := handoff_recv_nb_fds (r := r) hsome fun bytes ctrunc c e => by
    obtain ⟨fd, h₁, h₂, h₃, -⟩ := hr bytes ctrunc c e
    exact ⟨fd, h₁, h₂, h₃⟩
  have hnone : h.core.fd.isNone = false := by rw [hi.fd_eq]; rfl
  intro w'
  rcases hrest with ⟨hno, hcl, hclosed⟩ | ⟨fd, hlt, hgot, hrest⟩
  · -- no descriptor came
    have hsame : (w.setFds (w.fds.use conn h.file)).received h.core r
        = w.setFds (w.fds.use conn h.file) := by
      unfold received
      split
      next => rfl
      next hn =>
        rcases hno with hno | hno
        · exact absurd (Or.inr hno) hn
        · rw [hno]
    have hw' : w' = (w.setFds (w.fds.use conn h.file)).setHandoff conn
        (some (received_obj h r w.fds.next)) := by
      show closeAll _ _ _ = _
      rw [hclosed, hsame]
      rfl
    rw [hw']
    refine ⟨huse.update_handoff ho hfd hcl fun hc => ?_, hframe.setHandoff _ _, rfl,
      Function.update_self _ _ _⟩
    exact if_pos hc
  · -- the descriptor is new here
    have hfree : w.fds.files fd = none := by
      obtain ⟨bytes, ctrunc, e⟩ := receivedFd_eq hgot
      obtain ⟨fd', he, -, -, hfree⟩ := hr bytes ctrunc _ e
      injection he with _ he
      injection he with he _
      exact he ▸ hfree
    have hadopt := huse.adopt hfree
    have hrecv : (w.setFds (w.fds.use conn h.file)).received h.core r
        = { (w.setFds (w.fds.use conn h.file)).setFds ((w.fds.use conn h.file).opened fd) with
            clients := w.clients ++ [w.fds.next] } := by
      unfold received
      rw [if_neg (by simp [hnone, hlt]), hgot]
      rfl
    have hframe' : Frame conn w ((w.setFds (w.fds.use conn h.file)).received h.core r) := by
      rw [hrecv]
      exact (hframe.opened fd).trans ⟨rfl, rfl, rfl, fun _ _ he => he⟩
    rcases hrest with ⟨hcnone, hcl, hclosed⟩ | ⟨hcsome, hcl, hclosed⟩
    · -- it is the first one, and kept
      have habsorb := hadopt.absorb ho hfd hcnone hcl
      have hw' : w' = ((w.setFds (w.fds.use conn h.file)).received h.core r).setHandoff conn
          (some (received_obj h r w.fds.next)) := by
        show closeAll _ _ _ = _
        rw [hclosed]
        rfl
      rw [hw']
      refine ⟨?_, hframe'.setHandoff _ _, by rw [hrecv]; rfl, Function.update_self _ _ _⟩
      rw [hrecv]
      have hobj : received_obj h r w.fds.next
          = ⟨(handoff_recv_nb h.core r).1.1, h.file, w.fds.next⟩ := by
        simp [received_obj, hcnone]
      rw [hobj]
      exact habsorb
    · -- there is one already, and this one is closed
      have hw' : w' = (((w.setFds (w.fds.use conn h.file)).received h.core r).setHandoff conn
          (some (received_obj h r w.fds.next))).setFds
            ((((w.setFds (w.fds.use conn h.file)).received h.core r)).fds.close fd w.fds.next) := by
        show closeAll _ _ _ = _
        rw [hclosed]
        rfl
      rw [hw']
      refine ⟨?_, (hframe'.setHandoff _ _).close fd w.fds.next, by rw [hrecv]; rfl,
        Function.update_self _ _ _⟩
      rw [hrecv]
      have hobj : received_obj h r w.fds.next
          = ⟨(handoff_recv_nb h.core r).1.1, h.file, h.client_file⟩ := by
        simp [received_obj, hcsome]
      rw [hobj]
      exact Inv.close_loose (hadopt.update_handoff ho hfd hcl fun _ => rfl)

/-- `handle_handoff_fd`. -/
theorem Inv.handle_handoff_fd {env : WorkerEnv F S n} {conn : Fd} {h : HandoffObj n}
    {o : EventCalls S} (hw : Inv w none none) (ho : w.s_handoffs conn = some h)
    (hok : w.EventOk o) :
    Inv (w.handle_handoff_fd env conn h o) none none
      ∧ Frame conn w (w.handle_handoff_fd env conn h o) := by
  obtain ⟨hinv, hframe, hheap, hentry⟩ := hw.receive ho hok.recv
  have hclose := hinv.handoff_close hentry
  unfold Worker.handle_handoff_fd
  dsimp only
  split
  · exact ⟨hinv, hframe⟩
  split
  · split
    · exact ⟨hclose.1, hframe.trans hclose.2⟩
    next c hc =>
      -- the client descriptor is loose until it is registered
      have htake := hinv.take_client hentry hc
      obtain ⟨hgone, hf⟩ := htake.handoff_close_empty (Function.update_self _ _ _) rfl
      obtain ⟨hreg, hf'⟩ := hgone.register_client_fd env
        (env.layout.read (received_obj h o.recv w.fds.next).core.payload) conn fun a ha => by
          rw [handoff_close_heap]
          exact (congrFun hheap a).trans (hok.calloc a ha)
      exact ⟨hreg, ((hframe.setHandoff _ _).trans hf).trans hf'⟩
  · exact ⟨hclose.1, hframe.trans hclose.2⟩

/-- One descriptor accepted by `handle_listen_fd`. -/
theorem Inv.handle_accept {o : AcceptCalls} (h : Inv w none none)
    (hfree : w.fds.files o.conn_fd = none) :
    Inv (w.handle_accept o) none none ∧ Frame o.conn_fd w (w.handle_accept o) := by
  obtain ⟨hlisten, hhandoff, -, -, -⟩ := h.unused hfree
  have hfile : (w.setFds (w.fds.opened o.conn_fd)).fds.files o.conn_fd = some w.fds.next := by
    simp
  have hid : w.fds.next ∉ w.clients := fun hmem => Nat.lt_irrefl _ (h.clients_lt _ hmem)
  have hopen := h.opened hfree
  have hframe : Frame o.conn_fd w (w.setFds (w.fds.opened o.conn_fd)) :=
    (Frame.refl w).opened o.conn_fd
  have hclosed := hopen.close_conn hfile hid hlisten hhandoff
  unfold Worker.handle_accept
  dsimp only
  split
  · exact ⟨hclosed, hframe.close _ _⟩
  next hlt =>
    split
    · exact ⟨hclosed, hframe.close _ _⟩
    · have hadd := hopen.add_handoff (Nat.lt_of_not_le hlt) hlisten hfile hid hhandoff
      have hentry : ((w.setFds (w.fds.opened o.conn_fd)).setHandoff o.conn_fd
          (some ⟨HandoffConn.start o.conn_fd, w.fds.next, 0⟩)).s_handoffs o.conn_fd
            = some ⟨HandoffConn.start o.conn_fd, w.fds.next, 0⟩ := Function.update_self _ _ _
      have hframe := hframe.setHandoff o.conn_fd
        (some ⟨HandoffConn.start o.conn_fd, w.fds.next, 0⟩)
      split
      · exact ⟨hadd.epollAdd hfile (Or.inl (by rw [hentry]; rfl)), hframe.epollAdd _ _⟩
      · obtain ⟨hclose, hf⟩ := (hadd.use hfile).handoff_close hentry
        exact ⟨hclose, (hframe.use o.conn_fd w.fds.next).trans hf⟩

/-! ## §4. The event loop. -/

/-- One event on a descriptor that is registered, and not the listening one. -/
theorem Inv.handle_event {fd : Fd} {o : EventCalls S} (h : Inv w none none)
    (env : WorkerEnv F S n) (rev : EpollFlags) (hepoll : w.fds.epoll fd = true)
    (hlisten : fd ≠ w.listen_fd) (hok : w.EventOk o) :
    Inv (w.handle_event env fd rev o) none none ∧ Frame fd w (w.handle_event env fd rev o) := by
  have hself : Inv w none none ∧ Frame fd w w := ⟨h, Frame.refl w⟩
  unfold Worker.handle_event
  split
  · exact hself
  cases ho : w.s_handoffs fd with
  | some obj =>
      dsimp only
      split
      · exact h.handle_handoff_fd ho hok
      split
      · exact h.handoff_close ho
      · exact hself
  | none =>
      cases ha : w.s_sessions fd with
      | none =>
          -- nothing but the tables registers a descriptor
          exfalso
          rcases h.registered fd hepoll with e | e | e | e
          · exact hlisten e
          · rw [ho] at e
            cases e
          · rw [ha] at e
            cases e
          · cases e
      | some a =>
          obtain ⟨s, hs, -⟩ := h.session fd a ha
          simp only [hs]
          split
          · exact h.session_close ha
          split
          · exact h.advance ha hs hok.socket
          split
          · exact h.session_close ha
          · exact hself

/-- What holds between two events. -/
structure LoopInv (w : Worker F S n) : Prop where
  inv : Inv w none none
  batch_nodup : (w.batch.map Prod.fst).Nodup
  batch_registered : ∀ e ∈ w.batch, w.fds.epoll e.1 = true

/-- The event loop's own variables play no role in `Inv`. -/
theorem Inv.set_loop (h : Inv w none none) (batch : List (Fd × EpollFlags)) (accepting : Bool) :
    Inv { w with batch := batch, accepting := accepting } none none :=
  { h with
    handoff := fun fd o ho => { h.handoff fd o ho with }
    session := fun fd a ha => by
      obtain ⟨s, hs, hi⟩ := h.session fd a ha
      exact ⟨s, hs, { hi with }⟩
    loose := fun fd id hl => by cases hl }

/-- A handler that leaves the other descriptors registered keeps the loop's invariant. -/
theorem Frame.loopInv {fd : Fd} (hf : Frame fd w w₁) (hinv : Inv w₁ none none)
    (hnodup : (w.batch.map Prod.fst).Nodup)
    (hreg : ∀ e ∈ w.batch, e.1 ≠ fd ∧ w.fds.epoll e.1 = true) : LoopInv w₁ where
  inv := hinv
  batch_nodup := by
    rw [hf.batch]
    exact hnodup
  batch_registered := fun e he => by
    rw [hf.batch] at he
    exact hf.epoll e.1 (hreg e he).1 (hreg e he).2

theorem LoopInv.initial (h : Worker.Initial w) : LoopInv w where
  inv := {
    ok := h.ok
    faults := h.faults
    frees := h.badFrees
    sends := h.badSends
    listen := ⟨h.listen, by simp [h.clients]⟩
    clients_lt := by simp [h.clients]
    handoff := by simp [h.s_handoffs]
    session := by simp [h.s_sessions]
    covered := by simp [h.clients]
    loose := by simp
    registered := fun fd he => Or.inl (h.epoll fd he) }
  batch_nodup := by simp [h.batch]
  batch_registered := by simp [h.batch]

/-- **The step lemma.** -/
theorem LoopInv.step {env : WorkerEnv F S n} {l : WorkerLabel S} (h : LoopInv w)
    (hst : Worker.Step env w l w₁) : LoopInv w₁ := by
  cases hst with
  | wait events _ _ hnodup hreg =>
      exact ⟨h.inv.set_loop events w.accepting, hnodup, hreg⟩
  | listen _ hbatch =>
      have hnodup := h.batch_nodup
      have hreg := h.batch_registered
      rw [hbatch] at hnodup hreg
      exact ⟨h.inv.set_loop _ true, (List.nodup_cons.mp hnodup).2,
        fun e he => hreg e (List.mem_cons_of_mem _ he)⟩
  | accept o _ hfree =>
      obtain ⟨hinv, hf⟩ := h.inv.handle_accept hfree
      refine hf.loopInv hinv h.batch_nodup fun e he => ⟨?_, h.batch_registered e he⟩
      -- what is registered is open, so the new number is none of the batch
      intro hfd
      have hno := (h.inv.unused hfree).2.2.2.1
      rw [← hfd, h.batch_registered e he] at hno
      cases hno
  | accepted _ => exact ⟨h.inv.set_loop w.batch false, h.batch_nodup, h.batch_registered⟩
  | @event fd rev rest o _ hbatch hlisten hok =>
      have hnodup := h.batch_nodup
      have hreg := h.batch_registered
      rw [hbatch] at hnodup hreg
      obtain ⟨hfresh, hnodup⟩ := List.nodup_cons.mp hnodup
      obtain ⟨hinv, hf⟩ := (h.inv.set_loop rest w.accepting).handle_event env rev
        (hreg _ List.mem_cons_self) hlisten ⟨hok.recv, hok.calloc, hok.socket⟩
      refine hf.loopInv hinv hnodup fun e he => ⟨?_, hreg e (List.mem_cons_of_mem _ he)⟩
      rintro hfd
      exact hfresh (hfd ▸ List.mem_map_of_mem he)

/-- Who has a client descriptor. -/
inductive Custody where
  | handoff
  | session
  | transferred
  | closed
  deriving DecidableEq

/-- The client `id` is held by one connection, or by one session; or it was sent away,
or closed. -/
def InCustody (w : Worker F S n) (id : FileId) : Custody → Prop
  | .handoff => ∃! conn, ∃ h c, w.s_handoffs conn = some h ∧ h.core.client_fd = some c
      ∧ w.fds.files c = some id
  | .session => ∃! fd, ∃ a, w.s_sessions fd = some a ∧ w.fds.files fd = some id
  | .transferred => 0 < w.fds.sends id
  | .closed => 0 < w.fds.closes id

theorem Inv.handoff_custody (h : Inv w loose orphan) {id : FileId} (hheld : HeldByHandoff w id) :
    w.InCustody id .handoff := by
  obtain ⟨conn, o, c, ho, hc, hf⟩ := hheld
  refine ⟨conn, ⟨o, c, ho, hc, hf⟩, ?_⟩
  rintro conn' ⟨o', c', ho', hc', hf'⟩
  have e : c' = c := h.ok.inj hf' hf
  subst e
  exact ((h.handoff conn o ho).client c' hc).2.2.2.2 conn' o' ho' hc'

theorem Inv.session_custody (h : Inv w loose orphan) {id : FileId} (hheld : HeldBySession w id) :
    w.InCustody id .session := by
  obtain ⟨fd, a, ha, hf⟩ := hheld
  refine ⟨fd, ⟨a, ha, hf⟩, ?_⟩
  rintro fd' ⟨a', ha', hf'⟩
  exact h.ok.inj hf' hf

/-- A client that is not open is held by nobody. -/
theorem not_held {id : FileId} (hgone : ∀ fd, w.fds.files fd ≠ some id) :
    ¬ w.InCustody id .handoff ∧ ¬ w.InCustody id .session :=
  ⟨fun ⟨_, ⟨_, c, _, _, hf⟩, _⟩ => hgone c hf, fun ⟨fd, ⟨_, _, hf⟩, _⟩ => hgone fd hf⟩

/-- **Every client is in exactly one custody.** -/
theorem Inv.custody (h : Inv w none none) {id : FileId} (hid : id ∈ w.clients) :
    ∃! c, w.InCustody id c := by
  by_cases hopen : ∃ fd, w.fds.files fd = some id
  · obtain ⟨fd, hf⟩ := hopen
    obtain ⟨hcloses, hsends⟩ := h.ok.open_fresh hf
    have hno : ¬ w.InCustody id .transferred ∧ ¬ w.InCustody id .closed :=
      ⟨fun hs => by rw [InCustody, hsends] at hs; exact Nat.lt_irrefl 0 hs,
        fun hc => by rw [InCustody, hcloses] at hc; exact Nat.lt_irrefl 0 hc⟩
    -- a number that a connection holds for a client has no session
    have hexcl : ∀ {conn o c fd' a}, w.s_handoffs conn = some o → o.core.client_fd = some c →
        w.fds.files c = some id → w.s_sessions fd' = some a → w.fds.files fd' = some id →
        False := by
      intro conn o c fd' a ho hc hfc ha hfa
      have hnone := ((h.handoff conn o ho).client c hc).2.2.1
      rw [h.ok.inj hfc hfa, ha] at hnone
      cases hnone
    rcases h.covered id fd hid hf with hheld | hheld | hl
    · refine ⟨.handoff, h.handoff_custody hheld, fun c hc => ?_⟩
      obtain ⟨conn, o, c', ho, hc', hfc⟩ := hheld
      cases c with
      | handoff => rfl
      | session =>
          obtain ⟨fd', ⟨a, ha, hfa⟩, -⟩ := hc
          exact (hexcl ho hc' hfc ha hfa).elim
      | transferred => exact absurd hc hno.1
      | closed => exact absurd hc hno.2
    · refine ⟨.session, h.session_custody hheld, fun c hc => ?_⟩
      obtain ⟨fd', a, ha, hfa⟩ := hheld
      cases c with
      | handoff =>
          obtain ⟨conn, ⟨o, c', ho, hc', hfc⟩, -⟩ := hc
          exact (hexcl ho hc' hfc ha hfa).elim
      | session => rfl
      | transferred => exact absurd hc hno.1
      | closed => exact absurd hc hno.2
    · cases hl
  · have hgone : ∀ fd, w.fds.files fd ≠ some id := fun fd hf => hopen ⟨fd, hf⟩
    obtain ⟨hnh, hns⟩ := not_held hgone
    have hone := h.ok.ended_once (h.clients_lt id hid) hgone
    rcases Nat.eq_zero_or_pos (w.fds.sends id) with hs | hs
    · refine ⟨.closed, show 0 < w.fds.closes id by omega, fun c hc => ?_⟩
      cases c with
      | handoff => exact absurd hc hnh
      | session => exact absurd hc hns
      | transferred =>
          have hc : 0 < w.fds.sends id := hc
          omega
      | closed => rfl
    · refine ⟨.transferred, hs, fun c hc => ?_⟩
      cases c with
      | handoff => exact absurd hc hnh
      | session => exact absurd hc hns
      | transferred => rfl
      | closed =>
          have hc : 0 < w.fds.closes id := hc
          omega

/-- **Linear ownership.** -/
structure Linear (w : Worker F S n) : Prop where
  not_both : ∀ fd, w.s_handoffs fd = none ∨ w.s_sessions fd = none
  /-- an entry points to a live object that has the entry's number … -/
  session_fd : ∀ fd a, w.s_sessions fd = some a →
    ∃ s, w.heap a = some s ∧ s.core.fd = some fd ∧ w.fds.files fd = some s.file
  /-- … which is still the open it was made for -/
  handoff_fd : ∀ fd h, w.s_handoffs fd = some h →
    h.core.fd = some fd ∧ w.fds.files fd = some h.file
  custody : ∀ id, id ∈ w.clients → ∃! c, w.InCustody id c
  ended_once : ∀ id, w.fds.closes id + w.fds.sends id ≤ 1
  /-- no call used a number after its open had ended, or sent a registered one away -/
  no_fault : w.fds.faults = 0
  /-- no number was sent away that `s_sessions` still had -/
  no_bad_send : w.badSends = 0
  /-- no session was freed that `s_sessions` still pointed to, or twice -/
  no_bad_free : w.badFrees = 0

theorem Inv.linear (h : Inv w none none) : Linear w where
  not_both := fun fd => by
    cases ho : w.s_handoffs fd with
    | none => exact Or.inl rfl
    | some o =>
        have hi := h.handoff fd o ho
        exact Or.inr (h.other_no_session hi.file hi.not_client)
  session_fd := fun fd a ha => by
    obtain ⟨s, hs, hi⟩ := h.session fd a ha
    exact ⟨s, hs, hi.fd_eq, hi.file⟩
  handoff_fd := fun fd o ho => ⟨(h.handoff fd o ho).fd_eq, (h.handoff fd o ho).file⟩
  custody := fun id hid => h.custody hid
  ended_once := fun id => by
    by_cases hlt : id < w.fds.next
    · by_cases hopen : ∃ fd, w.fds.files fd = some id
      · obtain ⟨fd, hf⟩ := hopen
        obtain ⟨hcloses, hsends⟩ := h.ok.open_fresh hf
        omega
      · exact le_of_eq (h.ok.ended_once hlt fun fd hf => hopen ⟨fd, hf⟩)
    · obtain ⟨hcloses, hsends⟩ := h.ok.beyond (Nat.le_of_not_lt hlt)
      omega
  no_fault := h.faults
  no_bad_send := h.sends
  no_bad_free := h.frees

/-- **Descriptors are owned linearly in every reachable state of the worker**, whatever
its calls return. -/
theorem worker_linear (env : WorkerEnv F S n) {w : Worker F S n}
    (h : (workerSystem env).Reachable w) : Linear w := by
  have hloop : LoopInv w := by
    refine h.invariant LoopInv ?_ ?_
    · exact fun _ hinit => LoopInv.initial hinit
    · exact fun _ _ _ hinv hst => hinv.step hst
  exact hloop.inv.linear

/-! ### One handoff -/

/-- A worker with 4-byte sessions. -/
def env4 : WorkerEnv Unit (Area 4) 140 := ⟨.point (ascii "a"), .packed id id fun _ => rfl⟩

/-- The worker after its set-up: descriptor 3 is the listening one. -/
def listening : Worker Unit (Area 4) 140 where
  fds := ⟨Function.update (fun _ => none) 3 (some 0), Function.update (fun _ => false) 3 true, 1,
    fun _ => 0, fun _ => 0, 0⟩
  s_handoffs := fun _ => none
  s_sessions := fun _ => none
  heap := fun _ => none
  listen_fd := 3
  listen_file := 0
  batch := []
  accepting := false
  clients := []
  badFrees := 0
  badSends := 0

theorem listening_initial : Worker.Initial listening where
  ok := by
    have hfile : ∀ {fd id}, listening.fds.files fd = some id → fd = 3 ∧ id = 0 := by
      intro fd id hf
      by_cases e : fd = 3
      · subst e
        exact ⟨rfl, (Option.some.inj hf).symm⟩
      · have hf : Function.update (fun _ => none) 3 (some 0) fd = some id := hf
        rw [Function.update_of_ne e] at hf
        cases hf
    constructor
    · exact fun hf => (hfile hf).2 ▸ Nat.one_pos
    · exact fun hf hf' => (hfile hf).1.trans (hfile hf').1.symm
    · exact fun _ => ⟨rfl, rfl⟩
    · intro id hlt hnone
      have e : id = 0 := Nat.lt_one_iff.mp hlt
      exact absurd rfl (e ▸ hnone 3)
    · exact fun _ => ⟨rfl, rfl⟩
  faults := rfl
  listen := rfl
  epoll := fun fd he => by
    by_contra hne
    have hne : fd ≠ 3 := hne
    have he : Function.update (fun _ => false) 3 true fd = true := he
    rw [Function.update_of_ne hne] at he
    cases he
  s_handoffs := fun _ => rfl
  s_sessions := fun _ => rfl
  batch := rfl
  clients := rfl
  badFrees := rfl
  badSends := rfl

/-- EPOLLIN. -/
def readable : EpollFlags := ⟨true, false, false, false⟩

/-- A gateway connects: the worker accepts descriptor 5 … -/
def connected : Worker Unit (Area 4) 140 :=
  { handle_accept { listening with batch := [], accepting := true } ⟨5, true, true⟩ with
    accepting := false }

/-- The payload of a client, for the worker `a`. -/
def payloadA : Bytes :=
  (env4.layout.bytes ⟨BENCH2_KA_MAGIC, BENCH2_KA_VERSION, Area.zero 4, targetOf (ascii "a")⟩).bytes

/-- Calls that succeed, with what `recvmsg` and `calloc` return.  The client asks for `a`, takes
the response (of 182 bytes), and asks for another function. -/
def eventCalls (recv : NbRecv) (a : Addr) : EventCalls (Area 4) where
  recv := recv
  register := ⟨true, some a, true, true, true, true⟩
  session := List.replicate 2
    { realloc_ok := true
      read := .data (ascii "GET /function/a HTTP/1.1\r\n\r\n")
      write := .wrote 182
      epoll_mod_ok := true
      serial := some (Area.zero 4)
      pending := 0
      ready := 1
      peek := fun want => some ((ascii "GET /function/b HTTP/1.1\r\n").take want) }
  relay := ⟨some 7, true, true⟩

/-- … and receives the client descriptor 6 with the first byte of the payload, … -/
def firstByte : NbRecv := .ret (.data (payloadA.take 1) false (some ⟨true, [6]⟩))

/-- … then the rest. -/
def otherBytes : NbRecv := .ret (.data (payloadA.drop 1) false none)

/-- One event on `fd`. -/
def after (w : Worker Unit (Area 4) 140) (fd : Fd) (o : EventCalls (Area 4)) :
    Worker Unit (Area 4) 140 :=
  handle_event { w with batch := [] } env4 fd readable o

/-- The client is in the handoff, in a session, has its response, and is on its way to another
worker. -/
def handedOver : Worker Unit (Area 4) 140 := after connected 5 (eventCalls firstByte 1)
def registered : Worker Unit (Area 4) 140 := after handedOver 5 (eventCalls otherBytes 1)
def responding : Worker Unit (Area 4) 140 := after registered 6 (eventCalls .wouldBlock 2)
def responded : Worker Unit (Area 4) 140 := after responding 6 (eventCalls .wouldBlock 2)
def relayed : Worker Unit (Area 4) 140 := after responded 6 (eventCalls .wouldBlock 2)

theorem connected_reachable : (workerSystem env4).Reachable connected := by
  have hwait : (workerSystem env4).Reachable { listening with batch := [(3, readable)] } :=
    .step (.init listening_initial) (.wait [(3, readable)] rfl rfl (by decide) (by decide))
  exact .step (.step (.step hwait (.listen rfl rfl)) (.accept ⟨5, true, true⟩ rfl rfl))
    (.accepted rfl)

/-- The worker waits for events, `fd` is registered, and the numbers and the address that
`eventCalls` hands out are not in use. -/
def ReadyFor (w : Worker Unit (Area 4) 140) (fd : Fd) (a : Addr) : Prop :=
  (w.accepting = false ∧ w.batch = []) ∧ (w.fds.epoll fd = true ∧ fd ≠ w.listen_fd)
    ∧ (w.heap a).isNone ∧ w.fds.files 7 = none

instance (w : Worker Unit (Area 4) 140) (fd : Fd) (a : Addr) : Decidable (ReadyFor w fd a) :=
  inferInstanceAs (Decidable (_ ∧ _))

theorem after_reachable {w : Worker Unit (Area 4) 140} (h : (workerSystem env4).Reachable w)
    {fd : Fd} {a : Addr} (hready : ReadyFor w fd a) {recv : NbRecv}
    (hrecv : ∀ bytes ctrunc c, recv = .ret (.data bytes ctrunc (some c)) →
      ∃ fd, c = ⟨true, [fd]⟩ ∧ bytes ≠ [] ∧ ctrunc = false ∧ w.fds.files fd = none) :
    (workerSystem env4).Reachable (after w fd (eventCalls recv a)) := by
  obtain ⟨⟨haccepting, hbatch⟩, ⟨hfd, hother⟩, hheap, hsocket⟩ := hready
  have hwait : ∀ e ∈ [(fd, readable)], w.fds.epoll e.1 = true := by
    intro e he
    obtain rfl := List.mem_singleton.mp he
    exact hfd
  have hok : EventOk { w with batch := [(fd, readable)] } (eventCalls recv a) := by
    refine ⟨hrecv, ?_, ?_⟩
    · intro b hb
      obtain rfl := Option.some.inj hb
      exact Option.isNone_iff_eq_none.mp hheap
    · intro b hb
      obtain rfl := Option.some.inj hb
      exact hsocket
  exact .step (.step h (.wait [(fd, readable)] haccepting hbatch (by simp) hwait))
    (.event _ haccepting rfl hother hok)

theorem registered_reachable : (workerSystem env4).Reachable registered := by
  have hfirst : (workerSystem env4).Reachable handedOver := by
    refine after_reachable connected_reachable (by decide) ?_
    intro bytes ctrunc c e
    injection e with e
    injection e with hbytes hctrunc hc
    exact ⟨6, (Option.some.inj hc).symm, by rw [← hbytes]; decide, hctrunc.symm, by decide⟩
  refine after_reachable hfirst (by decide +kernel) ?_
  intro bytes ctrunc c e
  injection e with e
  injection e with _ _ hc
  cases hc

theorem relayed_reachable : (workerSystem env4).Reachable relayed := by
  have hresponding : (workerSystem env4).Reachable responding :=
    after_reachable registered_reachable (by decide +kernel) nofun
  have hresponded : (workerSystem env4).Reachable responded :=
    after_reachable hresponding (by decide +kernel) nofun
  exact after_reachable hresponded (by decide +kernel) nofun

theorem worker_linear_handedOver :
    Linear relayed ∧ relayed.clients = [2] ∧ (responded.s_sessions 6).isSome
      ∧ (relayed.s_sessions 6).isNone ∧ relayed.fds.files 6 = none ∧ relayed.fds.sends 2 = 1 := by
  refine ⟨worker_linear env4 relayed_reachable, ?_⟩
  decide +kernel

end TlsMigration.Bench2.Worker
