/-
  TlsMigration.Handoff.Transfer
  ─────────────────────────────
  **SENDING A DESCRIPTOR AWAY, IN THE SENDER'S TABLE**
  (`unix_client_connect` of libtlspeek/common/unix_socket.c,
  `sendfd_with_state` of libtlspeek/common/sendfd.c).

  `sendfd_with_state` closes the descriptor when `sendmsg` succeeded, and
  leaves it to the caller when it failed.  Every function of the repository
  that hands a connection over is built on these two.

    • `connect_failed` — no trace of the socket is left;
    • `exchange`       — connect, send, close: the descriptor has gone if
                         and only if `sendmsg` succeeded;
    • `Released`       — what a function that is given a descriptor owes.
-/
import TlsMigration.Lib.Descriptor
import TlsMigration.Handoff.UnixStream

namespace TlsMigration.Handoff

/-! ## §1. The calls. -/

/-- A descriptor number, and its open. -/
abbrev Held := Fd × FileId

/-- The descriptors of a message are installed. -/
def installAll (t : FdTable) : List Fd → FdTable × List Held
  | [] => (t, [])
  | fd :: fds =>
      let r := installAll (t.opened fd) fds
      (r.1, (fd, t.next) :: r.2)

/-- What the calls of `unix_client_connect` return; `socket` is the new number. -/
structure ConnectCalls where
  socket : Option Fd
  connect_ok : Bool

/-- `unix_client_connect`; the socket comes with its open. -/
def unix_client_connect (t : FdTable) (o : ConnectCalls) : FdTable × Option (Fd × FileId) :=
  match o.socket with
  | none => (t, none)
  | some fd =>
      let file := t.next
      let t := (t.opened fd).use fd file
      if o.connect_ok then (t, some (fd, file)) else (t.close fd file, none)

/-- `sendfd_with_state` on the descriptors; `sent` says whether `sendmsg` succeeded, and
what is sent is `Handoff.sendfd_with_state`. -/
def transferFd (t : FdTable) (unix_sock : Fd × FileId) (fd_to_send : Fd) (file : FileId)
    (sent : Bool) : FdTable × Int :=
  let t := t.use unix_sock.1 unix_sock.2
  if sent then (t.send fd_to_send file, 0) else (t.use fd_to_send file, -1)

variable {t t' : FdTable} {gone : List FileId} {o : ConnectCalls}

/-- A connection exists exactly when both of its calls succeed. -/
theorem connected_iff (t : FdTable) (o : ConnectCalls) :
    (∃ p, (unix_client_connect t o).2 = some p) ↔ o.socket.isSome ∧ o.connect_ok = true := by
  unfold unix_client_connect
  cases o.socket with
  | none => simp
  | some r => cases o.connect_ok <;> simp

/-- A new socket has a number that is not in use. -/
def ConnectCalls.Fresh (o : ConnectCalls) (t : FdTable) : Prop :=
  ∀ fd, o.socket = some fd → t.files fd = none

open FdTable

/-- A number that was free is free while nothing has been opened for good. -/
theorem ConnectCalls.Fresh.of_scope (h : Scope gone t t') (hfresh : o.Fresh t) : o.Fresh t' := by
  intro fd hfd
  cases hf : t'.files fd with
  | none => rfl
  | some id =>
      have hold := ((h.files fd id).mp hf).1
      rw [hfresh fd hfd] at hold
      cases hold

/-- Without a connection nothing is left of the socket. -/
theorem connect_failed (h : Scope gone t t') (ht : t.Ok) (hfresh : o.Fresh t')
    (hnone : (unix_client_connect t' o).2 = none) :
    Scope gone t (unix_client_connect t' o).1 := by
  unfold unix_client_connect at hnone ⊢
  cases hs : o.socket with
  | none => exact h
  | some r =>
      have hfree := hfresh r hs
      have hopen : (t'.opened r).files r = some t'.next := Function.update_self _ _ _
      have hok : (t'.opened r).Ok := h.ok.opened hfree
      have hin := ((Scope.refl hok).use hopen (by simp)).close hok hopen (by simp)
      simp only [hs] at hnone ⊢
      cases hc : o.connect_ok with
      | true => simp [hc] at hnone
      | false => exact h.inside ht hfree hin (h.ok.beyond (Nat.le_refl _)).2 (by simp)

/-- **Connect, send, close.** -/
theorem exchange {fd r : Fd} {id rid : FileId} (h : Scope gone t t') (ht : t.Ok)
    (hfresh : o.Fresh t') (hsome : (unix_client_connect t' o).2 = some (r, rid))
    (hid : t.files fd = some id) (hgone : id ∉ gone) (hep : t.epoll fd = false) (sent : Bool) :
    Scope (if sent then id :: gone else gone) t
      ((transferFd (unix_client_connect t' o).1 (r, rid) fd id sent).1.close r rid) := by
  unfold unix_client_connect at hsome ⊢
  cases hs : o.socket with
  | none => simp [hs] at hsome
  | some r' =>
      simp only [hs] at hsome ⊢
      cases hc : o.connect_ok with
      | false => simp [hc] at hsome
      | true =>
          simp only [hc, if_true, Option.some.injEq, Prod.mk.injEq] at hsome ⊢
          obtain ⟨rfl, rfl⟩ := hsome
          have hfree := hfresh r' hs
          have hopen : (t'.opened r').files r' = some t'.next := Function.update_self _ _ _
          have hok : (t'.opened r').Ok := h.ok.opened hfree
          have hclient := h.still_open hid hgone
          have hne : fd ≠ r' := by
            rintro rfl
            rw [hclient] at hfree
            cases hfree
          have hid' : (t'.opened r').files fd = some id := by
            rw [opened_files, Function.update_of_ne hne]
            exact hclient
          have hidne : t'.next ≠ id := (Nat.ne_of_lt (h.ok.files_lt hclient)).symm
          have huse := ((Scope.refl hok).use hopen (by simp)).use hopen (by simp)
          have hnosend := (h.ok.beyond (Nat.le_refl t'.next)).2
          cases sent with
          | false =>
              have hin := (huse.use hid' (by simp)).close hok hopen (by simp)
              exact h.inside ht hfree hin hnosend (by simp)
          | true =>
              have hep' : (t'.opened r').epoll fd = false := by
                rw [opened_epoll, h.epoll]
                exact hep
              have hin := (huse.send hok hid' (by simp) hep').close hok hopen (by simpa using hidne)
              refine h.inside ht hfree hin ?_ (by simpa using ⟨fd, hid⟩)
              show Function.update t'.sends id _ t'.next = 0
              rw [Function.update_of_ne hidne]
              exact hnosend

/-! ## §2. A descriptor that a function disposes of. -/

/-- The open `id` was sent away or closed, one of the two and once (`send` is the `sendmsg`
together with the `close` that follows it); every socket opened on the way was closed once;
and no call used a number after its open had ended. -/
structure Released (t t' : FdTable) (id : FileId) : Prop where
  once : t'.closes id + t'.sends id = 1
  sockets : ∀ id', t.next ≤ id' → id' < t'.next → t'.closes id' = 1 ∧ t'.sends id' = 0
  no_fault : t'.faults = t.faults

theorem Released.of_scope {fd : Fd} {id : FileId} (h : Scope gone t t') (ht : t.Ok)
    (hid : t.files fd = some id) (hgone : id ∈ gone) : Released t t' id :=
  ⟨h.ended_once ht hid hgone, h.fresh, h.faults⟩

/-- An open that is open still was not released. -/
theorem not_released_of_scope {fd : Fd} {id : FileId} (h : Scope gone t t')
    (hid : t.files fd = some id) (hgone : id ∉ gone) : ¬ Released t t' id := by
  intro hr
  have hone := hr.once
  rw [h.not_ended hid hgone] at hone
  cases hone

end TlsMigration.Handoff
