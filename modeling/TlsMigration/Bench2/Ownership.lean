/-
  TlsMigration.Bench2.Ownership
  ─────────────────────────────
  **WHO HOLDS A DESCRIPTOR IN THE BENCH2 WORKER: THE INVARIANT.**

  Inside a handler the tables are briefly out of step with the kernel: a
  client descriptor is held by a local variable only (`loose`), or a number
  is registered although its table entry is gone (`orphan`).  `Inv` is the
  invariant with at most one of each; between events there is neither.
  Every small change a handler makes has one lemma.
-/
import TlsMigration.Bench2.Worker

namespace TlsMigration.Bench2.Worker

open TlsMigration.Handoff

variable {F S : Type*} {n : Nat}

/-! ## §1. The invariant. -/

/-- A registered handoff connection. -/
structure HandoffInv (w : Worker F S n) (fd : Fd) (h : HandoffObj n) : Prop where
  lt : fd < WORKER_MAX_FDS
  not_listen : fd ≠ w.listen_fd
  fd_eq : h.core.fd = some fd
  file : w.fds.files fd = some h.file
  not_client : h.file ∉ w.clients
  client : ∀ c, h.core.client_fd = some c →
    w.fds.files c = some h.client_file ∧ h.client_file ∈ w.clients
      ∧ w.s_sessions c = none ∧ w.fds.epoll c = false
      ∧ ∀ fd' h', w.s_handoffs fd' = some h' → h'.core.client_fd = some c → fd' = fd

/-- A session in the table. -/
structure SessionInv (w : Worker F S n) (fd : Fd) (s : SessionObj F S) : Prop where
  lt : fd < WORKER_MAX_FDS
  fd_eq : s.core.fd = some fd
  file : w.fds.files fd = some s.file
  client : s.file ∈ w.clients

/-- A client descriptor that only a local variable holds. -/
structure LooseInv (w : Worker F S n) (orphan : Option Fd) (fd : Fd) (id : FileId) : Prop where
  file : w.fds.files fd = some id
  client : id ∈ w.clients
  session : w.s_sessions fd = none
  handoff : ∀ conn h, w.s_handoffs conn = some h → h.core.client_fd ≠ some fd
  epoll : w.fds.epoll fd = true → orphan = some fd

/-- Some connection holds the client `id`, under the number `fd`. -/
def HeldByHandoff (w : Worker F S n) (id : FileId) : Prop :=
  ∃ conn h c, w.s_handoffs conn = some h ∧ h.core.client_fd = some c ∧ w.fds.files c = some id

/-- Some session holds the client `id`. -/
def HeldBySession (w : Worker F S n) (id : FileId) : Prop :=
  ∃ fd a, w.s_sessions fd = some a ∧ w.fds.files fd = some id

structure Inv (w : Worker F S n) (loose : Option (Fd × FileId)) (orphan : Option Fd) :
    Prop where
  ok : w.fds.Ok
  faults : w.fds.faults = 0
  frees : w.badFrees = 0
  sends : w.badSends = 0
  listen : w.fds.files w.listen_fd = some w.listen_file ∧ w.listen_file ∉ w.clients
  clients_lt : ∀ id, id ∈ w.clients → id < w.fds.next
  handoff : ∀ fd h, w.s_handoffs fd = some h → HandoffInv w fd h
  session : ∀ fd a, w.s_sessions fd = some a → ∃ s, w.heap a = some s ∧ SessionInv w fd s
  covered : ∀ id fd, id ∈ w.clients → w.fds.files fd = some id →
    HeldByHandoff w id ∨ HeldBySession w id ∨ loose = some (fd, id)
  loose : ∀ fd id, loose = some (fd, id) → LooseInv w orphan fd id
  registered : ∀ fd, w.fds.epoll fd = true →
    fd = w.listen_fd ∨ (w.s_handoffs fd).isSome ∨ (w.s_sessions fd).isSome ∨ orphan = some fd

variable {w : Worker F S n} {loose : Option (Fd × FileId)} {orphan : Option Fd}

/-! ## §2. The changes a handler makes. -/

/-- A descriptor that is open for a client is in no role that clients do not have. -/
theorem Inv.client_ne_listen (h : Inv w loose orphan) {fd : Fd} {id : FileId}
    (hf : w.fds.files fd = some id) (hid : id ∈ w.clients) : fd ≠ w.listen_fd := by
  rintro rfl
  rw [h.listen.1] at hf
  injection hf with e
  exact h.listen.2 (e ▸ hid)

theorem Inv.client_no_handoff (h : Inv w loose orphan) {fd : Fd} {id : FileId}
    (hf : w.fds.files fd = some id) (hid : id ∈ w.clients) : w.s_handoffs fd = none := by
  cases hh : w.s_handoffs fd with
  | none => rfl
  | some o =>
      have ho := h.handoff fd o hh
      rw [ho.file] at hf
      injection hf with e
      exact absurd (e ▸ hid) ho.not_client

theorem Inv.other_no_session (h : Inv w loose orphan) {fd : Fd} {id : FileId}
    (hf : w.fds.files fd = some id) (hid : id ∉ w.clients) : w.s_sessions fd = none := by
  cases hs : w.s_sessions fd with
  | none => rfl
  | some a =>
      obtain ⟨s, -, hsi⟩ := h.session fd a hs
      rw [hsi.file] at hf
      injection hf with e
      exact absurd (e ▸ hsi.client) hid

/-- A checked call on an open descriptor. -/
theorem Inv.use (h : Inv w loose orphan) {fd : Fd} {id : FileId}
    (hf : w.fds.files fd = some id) : Inv (w.setFds (w.fds.use fd id)) loose orphan :=
  { h with
    ok := h.ok.use
    faults := (FdTable.use_faults hf).trans h.faults
    handoff := fun fd' o ho =>
      { h.handoff fd' o ho with }
    session := fun fd' a ha => by
      obtain ⟨s, hs, hi⟩ := h.session fd' a ha
      exact ⟨s, hs, { hi with }⟩
    loose := fun fd' id' hl => { h.loose fd' id' hl with } }

/-- The numbers after one of them went, by `close` or by `send`. -/
structure Gone (t t' : FdTable) (fd : Fd) : Prop where
  ok : t'.Ok
  faults : t'.faults = t.faults
  files : t'.files = Function.update t.files fd none
  epoll : t'.epoll = t.epoll
  next : t'.next = t.next

theorem Gone.close {t : FdTable} {fd : Fd} {id : FileId} (h : t.Ok) (hf : t.files fd = some id) :
    Gone t (t.close fd id) fd :=
  ⟨h.close hf, FdTable.close_faults hf, rfl, rfl, rfl⟩

theorem Gone.send {t : FdTable} {fd : Fd} {id : FileId} (h : t.Ok) (hf : t.files fd = some id)
    (he : t.epoll fd = false) : Gone t (t.send fd id) fd :=
  ⟨h.send hf, FdTable.send_faults hf he, rfl, rfl, rfl⟩

/-- A number that plays no role in the tables goes, and the tables stay as they are. -/
theorem Inv.gone {fds' : FdTable} {fd : Fd} {id : FileId} (h : Inv w loose orphan)
    (hgone : Gone w.fds fds' fd) (hf : w.fds.files fd = some id) (hlisten : fd ≠ w.listen_fd)
    (hhandoff : w.s_handoffs fd = none) (hsession : w.s_sessions fd = none)
    (hclient : ∀ conn o, w.s_handoffs conn = some o → o.core.client_fd ≠ some fd)
    {loose' : Option (Fd × FileId)} (hloose : loose = some (fd, id) ∧ loose' = none
      ∨ loose' = loose ∧ ∀ p, loose = some p → p.1 ≠ fd) :
    Inv (w.setFds fds') loose' orphan := by
  have hkeep : ∀ {fd' id'}, fd' ≠ fd → w.fds.files fd' = some id' →
      fds'.files fd' = some id' := by
    intro fd' id' hne hf'
    rw [hgone.files, Function.update_of_ne hne]
    exact hf'
  have hback : ∀ {fd' id'}, fds'.files fd' = some id' → fd' ≠ fd ∧ w.fds.files fd' = some id' := by
    intro fd' id' hf'
    rw [hgone.files] at hf'
    exact FdTable.files_update_none hf'
  exact {
    ok := hgone.ok
    faults := hgone.faults.trans h.faults
    frees := h.frees
    sends := h.sends
    listen := ⟨hkeep hlisten.symm h.listen.1, h.listen.2⟩
    clients_lt := fun id' hid => by
      have := h.clients_lt id' hid
      rw [← hgone.next] at this
      exact this
    handoff := fun conn o ho => by
      have hi := h.handoff conn o ho
      have hne : conn ≠ fd := by
        rintro rfl
        have ho : w.s_handoffs conn = some o := ho
        rw [hhandoff] at ho
        cases ho
      refine { hi with file := hkeep hne hi.file, client := fun c hc => ?_ }
      have hcne : c ≠ fd := fun e => hclient conn o ho (e ▸ hc)
      obtain ⟨h₁, h₂, h₃, h₄, h₅⟩ := hi.client c hc
      exact ⟨hkeep hcne h₁, h₂, h₃, by simpa [hgone.epoll] using h₄, h₅⟩
    session := fun fd' a ha => by
      obtain ⟨s, hs, hi⟩ := h.session fd' a ha
      have hne : fd' ≠ fd := by
        rintro rfl
        have ha : w.s_sessions fd' = some a := ha
        rw [hsession] at ha
        cases ha
      exact ⟨s, hs, { hi with file := hkeep hne hi.file }⟩
    covered := fun id' fd' hid hf' => by
      obtain ⟨hne, hf'⟩ := hback hf'
      rcases h.covered id' fd' hid hf' with ⟨conn, o, c, ho, hc, hfc⟩ | ⟨fd'', a, ha, hfa⟩ | hl
      · have hcne : c ≠ fd := fun e => hclient conn o ho (e ▸ hc)
        exact Or.inl ⟨conn, o, c, ho, hc, hkeep hcne hfc⟩
      · have hane : fd'' ≠ fd := by
          rintro rfl
          rw [hsession] at ha
          cases ha
        exact Or.inr (Or.inl ⟨fd'', a, ha, hkeep hane hfa⟩)
      · rcases hloose with ⟨e, -⟩ | ⟨e, -⟩
        · rw [hl] at e
          injection e with e
          injection e with e _
          exact absurd e hne
        · exact Or.inr (Or.inr (e.trans hl))
    loose := fun fd' id' hl => by
      rcases hloose with ⟨-, e⟩ | ⟨e, hne⟩
      · rw [e] at hl
        cases hl
      · rw [e] at hl
        have hi := h.loose fd' id' hl
        exact { hi with
          file := hkeep (hne _ hl) hi.file
          epoll := fun he => hi.epoll (by simpa [hgone.epoll] using he) }
    registered := fun fd' he => h.registered fd' (by simpa [hgone.epoll] using he) }

theorem Inv.loose_epoll {fd : Fd} {id : FileId} (h : Inv w (some (fd, id)) none) :
    w.fds.epoll fd = false := by
  cases he : w.fds.epoll fd with
  | false => rfl
  | true => exact absurd ((h.loose fd id rfl).epoll he) (by simp)

/-- The loose descriptor goes. -/
theorem Inv.gone_loose {fds' : FdTable} {fd : Fd} {id : FileId}
    (h : Inv w (some (fd, id)) orphan) (hgone : Gone w.fds fds' fd) :
    Inv (w.setFds fds') none orphan := by
  have hl := h.loose fd id rfl
  exact h.gone hgone hl.file (h.client_ne_listen hl.file hl.client)
    (h.client_no_handoff hl.file hl.client) hl.session hl.handoff (Or.inl ⟨rfl, rfl⟩)

/-- The loose descriptor is closed. -/
theorem Inv.close_loose {fd : Fd} {id : FileId} (h : Inv w (some (fd, id)) orphan) :
    Inv (w.setFds (w.fds.close fd id)) none orphan :=
  h.gone_loose (.close h.ok (h.loose fd id rfl).file)

/-- The loose descriptor is sent away. -/
theorem Inv.send_loose {fd : Fd} {id : FileId} (h : Inv w (some (fd, id)) none) :
    Inv (w.setFds (w.fds.send fd id)) none none :=
  h.gone_loose (.send h.ok (h.loose fd id rfl).file h.loose_epoll)

/-- A descriptor that is not a client's is closed. -/
theorem Inv.close_conn {fd : Fd} {id : FileId} (h : Inv w loose none)
    (hf : w.fds.files fd = some id) (hid : id ∉ w.clients) (hlisten : fd ≠ w.listen_fd)
    (hhandoff : w.s_handoffs fd = none) : Inv (w.setFds (w.fds.close fd id)) loose none := by
  refine h.gone (.close h.ok hf) hf hlisten hhandoff (h.other_no_session hf hid) ?_
    (Or.inr ⟨rfl, ?_⟩)
  · intro conn o ho hc
    obtain ⟨hfc, hcl, -⟩ := (h.handoff conn o ho).client fd hc
    rw [hf] at hfc
    injection hfc with e
    exact hid (e ▸ hcl)
  · rintro ⟨fd', id'⟩ hp e
    have hl := h.loose fd' id' hp
    have hfile : w.fds.files fd = some id' := e ▸ hl.file
    rw [hf] at hfile
    injection hfile with e'
    exact hid (e' ▸ hl.client)

/-- A number is taken out of epoll; no other may be registered without an entry. -/
theorem Inv.epollDel {fd : Fd} {id : FileId} (h : Inv w loose orphan)
    (horphan : ∀ fd', orphan = some fd' → fd' = fd)
    (hf : w.fds.files fd = some id) : Inv (w.setFds (w.fds.epollDel fd id)) loose none := by
  have hkeep : ∀ {fd'}, (w.setFds (w.fds.epollDel fd id)).fds.epoll fd' = true →
      fd' ≠ fd ∧ w.fds.epoll fd' = true := by
    intro fd' he
    by_cases e : fd' = fd
    · subst e
      simp [setFds] at he
    · exact ⟨e, by simpa [setFds, e] using he⟩
  refine { h with
    ok := h.ok.epollDel
    faults := (FdTable.epollDel_faults hf).trans h.faults
    handoff := fun conn o ho => ?_
    session := fun fd' a ha => ?_
    loose := fun fd' id' hl => ?_
    registered := fun fd' he => ?_ }
  · have hi := h.handoff conn o ho
    refine { hi with client := fun c hc => ?_ }
    obtain ⟨h₁, h₂, h₃, h₄, h₅⟩ := hi.client c hc
    refine ⟨h₁, h₂, h₃, ?_, h₅⟩
    cases he : (w.setFds (w.fds.epollDel fd id)).fds.epoll c with
    | false => rfl
    | true =>
        rw [(hkeep he).2] at h₄
        cases h₄
  · obtain ⟨s, hs, hi⟩ := h.session fd' a ha
    exact ⟨s, hs, { hi with }⟩
  · have hi := h.loose fd' id' hl
    refine { hi with epoll := fun he => ?_ }
    obtain ⟨hne, he⟩ := hkeep he
    exact absurd (horphan fd' (hi.epoll he)) hne
  · obtain ⟨hne, he⟩ := hkeep he
    rcases h.registered fd' he with e | e | e | e
    · exact Or.inl e
    · exact Or.inr (Or.inl e)
    · exact Or.inr (Or.inr (Or.inl e))
    · exact absurd (horphan fd' e) hne

theorem opened_of_open {fd fd' : Fd} {id : FileId} (hfd : w.fds.files fd = none)
    (hf : w.fds.files fd' = some id) : (w.fds.opened fd).files fd' = some id := by
  have hne : fd' ≠ fd := by
    rintro rfl
    rw [hfd] at hf
    cases hf
  simpa [hne] using hf

theorem open_of_opened {fd fd' : Fd} {id : FileId} (hid : id < w.fds.next)
    (hf : (w.fds.opened fd).files fd' = some id) : w.fds.files fd' = some id := by
  by_cases e : fd' = fd
  · subst e
    simp only [FdTable.opened_files, Function.update_self, Option.some.injEq] at hf
    exact absurd (hf ▸ hid) (Nat.lt_irrefl _)
  · simpa [e] using hf

/-- The kernel hands out a number. -/
theorem Inv.opened {fd : Fd} (h : Inv w loose orphan) (hfd : w.fds.files fd = none) :
    Inv (w.setFds (w.fds.opened fd)) loose orphan :=
  { h with
    ok := h.ok.opened hfd
    faults := h.faults
    listen := ⟨opened_of_open hfd h.listen.1, h.listen.2⟩
    clients_lt := fun id hid => Nat.lt_succ_of_lt (h.clients_lt id hid)
    handoff := fun conn o ho => by
      have hi := h.handoff conn o ho
      exact { hi with
        file := opened_of_open hfd hi.file
        client := fun c hc => ⟨opened_of_open hfd (hi.client c hc).1, (hi.client c hc).2⟩ }
    session := fun fd' a ha => by
      obtain ⟨s, hs, hi⟩ := h.session fd' a ha
      exact ⟨s, hs, { hi with file := opened_of_open hfd hi.file }⟩
    covered := fun id fd' hid hf => by
      rcases h.covered id fd' hid (open_of_opened (h.clients_lt id hid) hf) with
        ⟨conn, o, c, ho, hc, hfc⟩ | ⟨fd'', a, ha, hfa⟩ | hl
      · exact Or.inl ⟨conn, o, c, ho, hc, opened_of_open hfd hfc⟩
      · exact Or.inr (Or.inl ⟨fd'', a, ha, opened_of_open hfd hfa⟩)
      · exact Or.inr (Or.inr hl)
    loose := fun fd' id hl =>
      { h.loose fd' id hl with file := opened_of_open hfd (h.loose fd' id hl).file } }

/-- A number that is not open has no role. -/
theorem Inv.unused {fd : Fd} (h : Inv w loose none) (hfd : w.fds.files fd = none) :
    fd ≠ w.listen_fd ∧ w.s_handoffs fd = none ∧ w.s_sessions fd = none
      ∧ w.fds.epoll fd = false
      ∧ ∀ conn o, w.s_handoffs conn = some o → o.core.client_fd ≠ some fd := by
  have hlisten : fd ≠ w.listen_fd := by
    rintro rfl
    rw [h.listen.1] at hfd
    cases hfd
  have hhandoff : w.s_handoffs fd = none := by
    cases ho : w.s_handoffs fd with
    | none => rfl
    | some o =>
        have := (h.handoff fd o ho).file
        rw [hfd] at this
        cases this
  have hsession : w.s_sessions fd = none := by
    cases ha : w.s_sessions fd with
    | none => rfl
    | some a =>
        obtain ⟨s, -, hi⟩ := h.session fd a ha
        have := hi.file
        rw [hfd] at this
        cases this
  refine ⟨hlisten, hhandoff, hsession, ?_, fun conn o ho hc => ?_⟩
  · cases he : w.fds.epoll fd with
    | false => rfl
    | true =>
        exfalso
        rcases h.registered fd he with e | e | e | e
        · exact hlisten e
        · rw [hhandoff] at e
          cases e
        · rw [hsession] at e
          cases e
        · cases e
  · have := ((h.handoff conn o ho).client fd hc).1
    rw [hfd] at this
    cases this

/-- A receive brings a client descriptor. -/
theorem Inv.adopt {fd : Fd} (h : Inv w none none) (hfd : w.fds.files fd = none) :
    Inv { w.setFds (w.fds.opened fd) with clients := w.clients ++ [w.fds.next] }
      (some (fd, w.fds.next)) none := by
  obtain ⟨hlisten, hhandoff, hsession, hepoll, hclient⟩ := h.unused hfd
  have ho := h.opened hfd
  have hmono : ∀ {id}, id ∈ w.clients → id ∈ w.clients ++ [w.fds.next] :=
    fun hid => List.mem_append_left _ hid
  have hnot : ∀ {id}, id < w.fds.next → id ∉ w.clients → id ∉ w.clients ++ [w.fds.next] := by
    intro id hlt hid hmem
    rcases List.mem_append.mp hmem with e | e
    · exact hid e
    · rw [List.mem_singleton] at e
      exact absurd (e ▸ hlt) (Nat.lt_irrefl _)
  exact { ho with
    listen := ⟨ho.listen.1, hnot (h.ok.files_lt h.listen.1) h.listen.2⟩
    clients_lt := fun id hid => by
      rcases List.mem_append.mp hid with e | e
      · exact Nat.lt_succ_of_lt (h.clients_lt id e)
      · rw [List.mem_singleton] at e
        subst e
        exact Nat.lt_succ_self _
    handoff := fun conn o hco => by
      have hi := ho.handoff conn o hco
      exact { hi with
        not_client := hnot (h.ok.files_lt (h.handoff conn o hco).file) hi.not_client
        client := fun c hc => by
          obtain ⟨h₁, h₂, hrest⟩ := hi.client c hc
          exact ⟨h₁, hmono h₂, hrest⟩ }
    session := fun fd' a ha => by
      obtain ⟨s, hs, hi⟩ := ho.session fd' a ha
      exact ⟨s, hs, { hi with client := hmono hi.client }⟩
    covered := fun id fd' hid hf => by
      rcases List.mem_append.mp hid with e | e
      · rcases ho.covered id fd' e hf with hh | hh | hh
        · exact Or.inl hh
        · exact Or.inr (Or.inl hh)
        · cases hh
      · rw [List.mem_singleton] at e
        subst e
        have hfd' : fd' = fd := ho.ok.inj hf (by simp)
        exact Or.inr (Or.inr (by rw [hfd']))
    loose := fun fd' id hl => by
      injection hl with hl
      injection hl with e₁ e₂
      subst e₁ e₂
      exact {
        file := by simp
        client := List.mem_append_right _ (List.mem_singleton.mpr rfl)
        session := hsession
        handoff := hclient
        epoll := fun he => by
          have he : w.fds.epoll fd = true := he
          rw [hepoll] at he
          cases he } }

/-! ### Handoff connections -/

/-- What an entry of the handoff table must be, but for what the other entries hold. -/
structure EntryOk (w : Worker F S n) (conn : Fd) (o : HandoffObj n) : Prop where
  lt : conn < WORKER_MAX_FDS
  not_listen : conn ≠ w.listen_fd
  fd_eq : o.core.fd = some conn
  file : w.fds.files conn = some o.file
  not_client : o.file ∉ w.clients
  client : ∀ c, o.core.client_fd = some c →
    w.fds.files c = some o.client_file ∧ o.client_file ∈ w.clients
      ∧ w.s_sessions c = none ∧ w.fds.epoll c = false

theorem HandoffInv.entryOk {conn : Fd} {o : HandoffObj n} (h : HandoffInv w conn o) :
    EntryOk w conn o where
  lt := h.lt
  not_listen := h.not_listen
  fd_eq := h.fd_eq
  file := h.file
  not_client := h.not_client
  client := fun c hc => ⟨(h.client c hc).1, (h.client c hc).2.1, (h.client c hc).2.2.1,
    (h.client c hc).2.2.2.1⟩

/-- One entry of the handoff table changes.  A client descriptor that leaves it must be
the loose one afterwards, and the loose one before may be in it. -/
theorem Inv.put_handoff {conn : Fd} {new : Option (HandoffObj n)}
    {loose' : Option (Fd × FileId)} {orphan' : Option Fd} (h : Inv w loose orphan)
    (hnew : ∀ o, new = some o → EntryOk w conn o)
    (hsole : ∀ o c, new = some o → o.core.client_fd = some c → ∀ conn' o', conn' ≠ conn →
      w.s_handoffs conn' = some o' → o'.core.client_fd ≠ some c)
    (hout : ∀ o c, w.s_handoffs conn = some o → o.core.client_fd = some c →
      (∃ o', new = some o' ∧ o'.core.client_fd = some c) ∨ loose' = some (c, o.client_file))
    (hin : ∀ fd id, loose = some (fd, id) →
      loose' = some (fd, id) ∨ ∃ o, new = some o ∧ o.core.client_fd = some fd)
    (hloose : ∀ fd id, loose' = some (fd, id) → LooseInv (w.setHandoff conn new) orphan' fd id)
    (horphan : ∀ fd, orphan = some fd → orphan' = some fd)
    (hgone : new = none → w.fds.epoll conn = true → orphan' = some conn) :
    Inv (w.setHandoff conn new) loose' orphan' where
  ok := h.ok
  faults := h.faults
  frees := h.frees
  sends := h.sends
  listen := h.listen
  clients_lt := h.clients_lt
  handoff := fun conn' o ho => by
    by_cases e : conn' = conn
    · subst e
      have hno : new = some o := by simpa using ho
      have hok := hnew o hno
      refine { hok with client := fun c hc => ?_ }
      obtain ⟨h₁, h₂, h₃, h₄⟩ := hok.client c hc
      refine ⟨h₁, h₂, h₃, h₄, fun conn'' o'' ho'' hc'' => ?_⟩
      by_contra hne
      exact hsole o c hno hc conn'' o'' hne (by simpa [hne] using ho'') hc''
    · have ho' : w.s_handoffs conn' = some o := by simpa [e] using ho
      have hi := h.handoff conn' o ho'
      refine { hi with client := fun c hc => ?_ }
      obtain ⟨h₁, h₂, h₃, h₄, h₅⟩ := hi.client c hc
      refine ⟨h₁, h₂, h₃, h₄, fun conn'' o'' ho'' hc'' => ?_⟩
      by_cases e' : conn'' = conn
      · subst e'
        exact absurd hc (hsole o'' c (by simpa using ho'') hc'' conn' o e ho')
      · exact h₅ conn'' o'' (by simpa [e'] using ho'') hc''
  session := fun fd a ha => by
    obtain ⟨s, hs, hi⟩ := h.session fd a ha
    exact ⟨s, hs, { hi with }⟩
  covered := fun id fd hid hf => by
    rcases h.covered id fd hid hf with ⟨conn', o, c, ho, hc, hfc⟩ | hs | hl
    · by_cases e : conn' = conn
      · subst e
        rcases hout o c ho hc with ⟨o', ho', hc'⟩ | hl
        · exact Or.inl ⟨conn', o', c, by simp [ho'], hc', hfc⟩
        · have hc_file := ((h.handoff conn' o ho).client c hc).1
          have e₁ : id = o.client_file := Option.some.inj (hfc.symm.trans hc_file)
          have e₂ : fd = c := h.ok.inj hf hfc
          exact Or.inr (Or.inr (by rw [hl, e₁, e₂]))
      · exact Or.inl ⟨conn', o, c, by simpa [e] using ho, hc, hfc⟩
    · exact Or.inr (Or.inl hs)
    · rcases hin fd id hl with hl' | ⟨o, ho, hc⟩
      · exact Or.inr (Or.inr hl')
      · exact Or.inl ⟨conn, o, fd, by simp [ho], hc, hf⟩
  loose := hloose
  registered := fun fd he => by
    rcases h.registered fd he with e | e | e | e
    · exact Or.inl e
    · by_cases hc : fd = conn
      · subst hc
        cases hn : new with
        | none => exact Or.inr (Or.inr (Or.inr (hgone hn he)))
        | some o => exact Or.inr (Or.inl (by simp))
      · exact Or.inr (Or.inl (by simpa [hc] using e))
    · exact Or.inr (Or.inr (Or.inl e))
    · exact Or.inr (Or.inr (Or.inr (horphan fd e)))

/-- A loose descriptor stays loose while an entry that does not hold it changes. -/
theorem LooseInv.set_handoff {conn fd : Fd} {id : FileId} {new : Option (HandoffObj n)}
    {orphan' : Option Fd} (h : LooseInv w orphan fd id)
    (hnew : ∀ o, new = some o → o.core.client_fd ≠ some fd)
    (horphan : ∀ fd, orphan = some fd → orphan' = some fd) :
    LooseInv (w.setHandoff conn new) orphan' fd id :=
  { h with
    handoff := fun conn' o ho => by
      by_cases e : conn' = conn
      · subst e
        exact hnew o (by simpa using ho)
      · exact h.handoff conn' o (by simpa [e] using ho)
    epoll := fun he => horphan fd (h.epoll he) }

/-- A new connection. -/
theorem Inv.add_handoff {conn : Fd} {file : FileId} (h : Inv w none none)
    (hlt : conn < WORKER_MAX_FDS) (hlisten : conn ≠ w.listen_fd)
    (hfile : w.fds.files conn = some file) (hid : file ∉ w.clients)
    (hnone : w.s_handoffs conn = none) :
    Inv (w.setHandoff conn (some ⟨HandoffConn.start conn, file, 0⟩)) none none := by
  refine h.put_handoff ?_ ?_ ?_ (by simp) (by simp) (by simp) (by simp)
  · intro o ho
    injection ho with ho
    subst ho
    exact ⟨hlt, hlisten, rfl, hfile, hid, by simp [HandoffConn.start]⟩
  · intro o c ho hc
    injection ho with ho
    subst ho
    cases hc
  · intro o c ho
    rw [hnone] at ho
    cases ho

/-- An entry whose descriptors stay the same. -/
theorem Inv.update_handoff {conn : Fd} {o : HandoffObj n} {core : HandoffConn n}
    (h : Inv w loose none) (ho : w.s_handoffs conn = some o) (hfd : core.fd = o.core.fd)
    (hclient : core.client_fd = o.core.client_fd) {client_file : FileId}
    (hcf : o.core.client_fd.isSome → client_file = o.client_file) :
    Inv (w.setHandoff conn (some ⟨core, o.file, client_file⟩)) loose none := by
  have hi := h.handoff conn o ho
  refine h.put_handoff ?_ ?_ ?_ (fun fd id hl => Or.inl hl) ?_ (by simp) (by simp)
  · intro o' ho'
    injection ho' with ho'
    subst ho'
    refine { hi.entryOk with fd_eq := hfd.trans hi.fd_eq, client := fun c hc => ?_ }
    have hc : o.core.client_fd = some c := hclient ▸ hc
    rw [hcf (by rw [hc]; rfl)]
    exact hi.entryOk.client c hc
  · intro o' c ho' hc conn' o'' hne ho'' hc''
    injection ho' with ho'
    subst ho'
    exact hne ((hi.client c (hclient ▸ hc)).2.2.2.2 conn' o'' ho'' hc'')
  · intro o' c ho' hc
    rw [ho] at ho'
    injection ho' with ho'
    subst ho'
    exact Or.inl ⟨_, rfl, hclient.trans hc⟩
  · intro fd id hl
    refine (h.loose fd id hl).set_handoff ?_ (by simp)
    intro o' ho'
    injection ho' with ho'
    subst ho'
    rw [hclient]
    exact (h.loose fd id hl).handoff conn o ho

/-- A connection takes the loose descriptor. -/
theorem Inv.absorb {conn c : Fd} {id : FileId} {o : HandoffObj n} {core : HandoffConn n}
    (h : Inv w (some (c, id)) none) (ho : w.s_handoffs conn = some o)
    (hfd : core.fd = o.core.fd) (hno : o.core.client_fd = none) (hclient : core.client_fd = some c) :
    Inv (w.setHandoff conn (some ⟨core, o.file, id⟩)) none none := by
  have hi := h.handoff conn o ho
  have hl := h.loose c id rfl
  have hepoll : w.fds.epoll c = false := by
    cases he : w.fds.epoll c with
    | false => rfl
    | true => exact absurd (hl.epoll he) (by simp)
  refine h.put_handoff ?_ ?_ ?_ ?_ (by simp) (by simp) (by simp)
  · intro o' ho'
    injection ho' with ho'
    subst ho'
    refine { hi.entryOk with fd_eq := hfd.trans hi.fd_eq, client := fun c' hc' => ?_ }
    have e : c' = c := Option.some.inj (hc'.symm.trans hclient)
    subst e
    exact ⟨hl.file, hl.client, hl.session, hepoll⟩
  · intro o' c' ho' hc' conn' o'' _ ho''
    injection ho' with ho'
    subst ho'
    have e : c' = c := Option.some.inj (hc'.symm.trans hclient)
    rw [e]
    exact hl.handoff conn' o'' ho''
  · intro o' c' ho' hc'
    rw [ho] at ho'
    injection ho' with ho'
    subst ho'
    rw [hno] at hc'
    cases hc'
  · intro fd id' hp
    injection hp with hp
    injection hp with e _
    subst e
    exact Or.inr ⟨_, rfl, hclient⟩

/-- The client descriptor of a connection becomes loose. -/
theorem LooseInv.of_handoff {conn c : Fd} {o : HandoffObj n} {new : Option (HandoffObj n)}
    (h : Inv w loose orphan) (ho : w.s_handoffs conn = some o)
    (hc : o.core.client_fd = some c) (hnew : ∀ o', new = some o' → o'.core.client_fd = none)
    (orphan' : Option Fd) : LooseInv (w.setHandoff conn new) orphan' c o.client_file := by
  obtain ⟨h₁, h₂, h₃, h₄, h₅⟩ := (h.handoff conn o ho).client c hc
  refine ⟨h₁, h₂, h₃, fun conn' o' ho' hc' => ?_, fun he => ?_⟩
  · by_cases e : conn' = conn
    · subst e
      rw [hnew o' (by simpa using ho')] at hc'
      cases hc'
    · exact e (h₅ conn' o' (by simpa [e] using ho') hc')
  · have he : w.fds.epoll c = true := he
    rw [h₄] at he
    cases he

/-- A connection gives its client descriptor away. -/
theorem Inv.take_client {conn c : Fd} {o : HandoffObj n} (h : Inv w none none)
    (ho : w.s_handoffs conn = some o) (hc : o.core.client_fd = some c) :
    Inv (w.setHandoff conn (some { o with core := { o.core with client_fd := none } }))
      (some (c, o.client_file)) none := by
  have hi := h.handoff conn o ho
  refine h.put_handoff ?_ ?_ ?_ (by simp) ?_ (by simp) (by simp)
  · intro o' ho'
    injection ho' with ho'
    subst ho'
    exact { hi.entryOk with client := fun c' hc' => by cases hc' }
  · intro o' c' ho' hc'
    injection ho' with ho'
    subst ho'
    cases hc'
  · intro o' c' ho' hc'
    rw [ho] at ho'
    injection ho' with ho'
    subst ho'
    rw [hc] at hc'
    injection hc' with e
    exact Or.inr (by rw [e])
  · intro fd id hl
    injection hl with hl
    injection hl with e₁ e₂
    subst e₁ e₂
    refine LooseInv.of_handoff h ho hc ?_ none
    intro o' ho'
    injection ho' with ho'
    subst ho'
    rfl

/-- An entry without a client descriptor is dropped. -/
theorem Inv.drop_handoff {conn : Fd} {o : HandoffObj n} (h : Inv w loose none)
    (ho : w.s_handoffs conn = some o) (hc : o.core.client_fd = none) :
    Inv (w.setHandoff conn none) loose (some conn) := by
  refine h.put_handoff (by simp) (by simp) ?_ (fun fd id hl => Or.inl hl) ?_ (by simp)
    (fun _ _ => rfl)
  · intro o' c ho' hc'
    rw [ho] at ho'
    injection ho' with ho'
    subst ho'
    rw [hc] at hc'
    cases hc'
  · exact fun fd id hl => (h.loose fd id hl).set_handoff (by simp) (by simp)

/-- An entry is dropped and leaves its client descriptor loose. -/
theorem Inv.drop_handoff_client {conn c : Fd} {o : HandoffObj n} (h : Inv w none none)
    (ho : w.s_handoffs conn = some o) (hc : o.core.client_fd = some c) :
    Inv (w.setHandoff conn none) (some (c, o.client_file)) (some conn) := by
  refine h.put_handoff (by simp) (by simp) ?_ (by simp) ?_ (by simp) (fun _ _ => rfl)
  · intro o' c' ho' hc'
    rw [ho] at ho'
    injection ho' with ho'
    subst ho'
    rw [hc] at hc'
    injection hc' with e
    exact Or.inr (by rw [e])
  · intro fd id hl
    injection hl with hl
    injection hl with e₁ e₂
    subst e₁ e₂
    exact LooseInv.of_handoff h ho hc (by simp) _

/-! ### Sessions -/

/-- A number with an entry is registered. -/
theorem Inv.epollAdd {fd : Fd} {id : FileId} (h : Inv w none none)
    (hf : w.fds.files fd = some id)
    (hentry : (w.s_handoffs fd).isSome ∨ (w.s_sessions fd).isSome) :
    Inv (w.setFds (w.fds.epollAdd fd id)) none none :=
  { h with
    ok := h.ok.epollAdd
    faults := (FdTable.epollAdd_faults hf).trans h.faults
    handoff := fun conn o ho => by
      have hi := h.handoff conn o ho
      refine { hi with client := fun c hc => ?_ }
      obtain ⟨h₁, h₂, h₃, h₄, h₅⟩ := hi.client c hc
      refine ⟨h₁, h₂, h₃, ?_, h₅⟩
      have hne : c ≠ fd := by
        rintro rfl
        rcases hentry with e | e
        · rw [h.client_no_handoff h₁ h₂] at e
          cases e
        · have h₃ : w.s_sessions c = none := h₃
          rw [h₃] at e
          cases e
      simpa [hne] using h₄
    session := fun fd' a ha => by
      obtain ⟨s, hs, hi⟩ := h.session fd' a ha
      exact ⟨s, hs, { hi with }⟩
    loose := fun fd' id' hl => by cases hl
    registered := fun fd' he => by
      by_cases e : fd' = fd
      · subst e
        rcases hentry with e | e
        · exact Or.inr (Or.inl e)
        · exact Or.inr (Or.inr (Or.inl e))
      · exact h.registered fd' (by simpa [e] using he) }

/-- The loose descriptor becomes a session's. -/
theorem Inv.add_session {fd : Fd} {id : FileId} {a : Addr} {s : SessionObj F S}
    (h : Inv w (some (fd, id)) none) (hs : w.heap a = some s) (hfd : s.core.fd = some fd)
    (hfile : s.file = id) (hlt : fd < WORKER_MAX_FDS) :
    Inv (w.setSession fd (some a)) none none := by
  have hl := h.loose fd id rfl
  exact { h with
    handoff := fun conn o ho => by
      have hi := h.handoff conn o ho
      refine { hi with client := fun c hc => ?_ }
      obtain ⟨h₁, h₂, h₃, h₄⟩ := hi.client c hc
      have hne : c ≠ fd := fun e => hl.handoff conn o ho (e ▸ hc)
      exact ⟨h₁, h₂, by simpa [hne] using h₃, h₄⟩
    session := fun fd' a' ha => by
      by_cases e : fd' = fd
      · subst e
        have e : a = a' := by simpa using ha
        subst e
        exact ⟨s, hs, hlt, hfd, hfile ▸ hl.file, hfile ▸ hl.client⟩
      · obtain ⟨s', hs', hi⟩ := h.session fd' a' (by simpa [e] using ha)
        exact ⟨s', hs', { hi with }⟩
    covered := fun id' fd' hid hf => by
      rcases h.covered id' fd' hid hf with hh | ⟨fd'', a', ha, hfa⟩ | hp
      · exact Or.inl hh
      · refine Or.inr (Or.inl ⟨fd'', a', ?_, hfa⟩)
        have hne : fd'' ≠ fd := by
          rintro rfl
          rw [hl.session] at ha
          cases ha
        simpa [hne] using ha
      · injection hp with hp
        injection hp with e₁ e₂
        subst e₁ e₂
        exact Or.inr (Or.inl ⟨fd, a, by simp, hf⟩)
    loose := fun fd' id' hp => by cases hp
    registered := fun fd' he => by
      rcases h.registered fd' he with e | e | e | e
      · exact Or.inl e
      · exact Or.inr (Or.inl e)
      · refine Or.inr (Or.inr (Or.inl ?_))
        by_cases e' : fd' = fd
        · subst e'
          simp
        · simpa [e'] using e
      · cases e }

/-- A session's entry is cleared. -/
theorem Inv.drop_session {fd : Fd} {a : Addr} {s : SessionObj F S} (h : Inv w none none)
    (ha : w.s_sessions fd = some a) (hs : w.heap a = some s) :
    Inv (w.setSession fd none) (some (fd, s.file)) (some fd) := by
  obtain ⟨s', hs', hi⟩ := h.session fd a ha
  have e : s' = s := Option.some.inj (hs'.symm.trans hs)
  subst e
  exact { h with
    handoff := fun conn o ho => by
      have hc := h.handoff conn o ho
      refine { hc with client := fun c hcc => ?_ }
      obtain ⟨h₁, h₂, h₃, h₄⟩ := hc.client c hcc
      refine ⟨h₁, h₂, ?_, h₄⟩
      by_cases e : c = fd
      · subst e
        simp
      · simpa [e] using h₃
    session := fun fd' a' ha' => by
      have hne : fd' ≠ fd := by
        rintro rfl
        simp at ha'
      obtain ⟨s'', hs'', hi'⟩ := h.session fd' a' (by simpa [hne] using ha')
      exact ⟨s'', hs'', { hi' with }⟩
    covered := fun id' fd' hid hf => by
      rcases h.covered id' fd' hid hf with hh | ⟨fd'', a', ha', hfa⟩ | hp
      · exact Or.inl hh
      · by_cases e : fd'' = fd
        · subst e
          have e₁ : id' = s'.file := Option.some.inj (hfa.symm.trans hi.file)
          have e₂ : fd' = fd'' := h.ok.inj hf hfa
          exact Or.inr (Or.inr (by rw [e₁, e₂]))
        · exact Or.inr (Or.inl ⟨fd'', a', by simpa [e] using ha', hfa⟩)
      · cases hp
    loose := fun fd' id' hp => by
      injection hp with hp
      injection hp with e₁ e₂
      subst e₁ e₂
      refine ⟨hi.file, hi.client, by simp, fun conn o ho hc => ?_, fun _ => rfl⟩
      have hnone := ((h.handoff conn o ho).client fd hc).2.2.1
      rw [ha] at hnone
      cases hnone
    registered := fun fd' he => by
      by_cases e : fd' = fd
      · exact Or.inr (Or.inr (Or.inr (by rw [e])))
      · rcases h.registered fd' he with e' | e' | e' | e'
        · exact Or.inl e'
        · exact Or.inr (Or.inl e')
        · exact Or.inr (Or.inr (Or.inl (by simpa [e] using e')))
        · cases e' }

/-- An object that the table does not point to changes. -/
theorem Inv.set_heap {a : Addr} (h : Inv w loose orphan)
    (ha : ∀ fd, w.s_sessions fd ≠ some a) (x : Option (SessionObj F S)) :
    Inv (w.setHeap a x) loose orphan :=
  { h with
    handoff := fun conn o ho => { h.handoff conn o ho with }
    session := fun fd a' ha' => by
      obtain ⟨s, hs, hi⟩ := h.session fd a' ha'
      have hne : a' ≠ a := fun e => ha fd (e ▸ ha')
      exact ⟨s, by simpa [hne] using hs, { hi with }⟩
    loose := fun fd id hl => { h.loose fd id hl with } }

/-- An object of the table changes, but not its descriptor. -/
theorem Inv.update_session {fd : Fd} {a : Addr} {s : SessionObj F S} (h : Inv w loose orphan)
    (ha : w.s_sessions fd = some a) (hs : w.heap a = some s) (s' : SessionObj F S)
    (hfd : s'.core.fd = s.core.fd) (hfile : s'.file = s.file) :
    Inv (w.setHeap a (some s')) loose orphan :=
  { h with
    handoff := fun conn o ho => { h.handoff conn o ho with }
    session := fun fd' a' ha' => by
      obtain ⟨s'', hs'', hi⟩ := h.session fd' a' ha'
      by_cases e : a' = a
      · subst e
        have e : s'' = s := Option.some.inj (hs''.symm.trans hs)
        subst e
        exact ⟨s', by simp, hi.lt, hfd.trans hi.fd_eq, hfile ▸ hi.file, hfile ▸ hi.client⟩
      · exact ⟨s'', by simpa [e] using hs'', { hi with }⟩
    loose := fun fd id hl => { h.loose fd id hl with } }

/-- An object that the table does not point to is freed. -/
theorem Inv.free {a : Addr} (h : Inv w loose orphan) (ha : ∀ fd, w.s_sessions fd ≠ some a) :
    Inv (w.free a) loose orphan := by
  rw [w.free_eq ha]
  exact h.set_heap ha none

end TlsMigration.Bench2.Worker
