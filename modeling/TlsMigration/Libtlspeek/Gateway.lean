/-
  TlsMigration.Libtlspeek.Gateway
  ───────────────────────────────
  **ONE CONNECTION THROUGH THE LIBTLSPEEK GATEWAY**
  (libtlspeek/gateway/router.c, `handle_connection` of
  libtlspeek/gateway/gateway.c).

  The function has nine exits.  At eight of them the client's descriptor is
  closed or has been sent to a worker; at the ninth `sendfd_with_state` has
  failed, which closes nothing, and neither does the caller.

    • `handle_connection_released_iff` — the descriptor is disposed of
      exactly when that exit is not taken.
-/
import TlsMigration.Handoff.Transfer
import TlsMigration.Tlspeek.Suites

namespace TlsMigration.Libtlspeek

open TlsMigration.Tlspeek TlsMigration.Handoff

/-! ## §1. The model. -/

/-- `route_request` on a zeroed buffer that holds the peeked bytes. -/
def route_request (headers : Bytes) : Int :=
  if headers = [] then 0
  else if strstr headers (ascii "GET /function/hello") then 0
  else if strstr headers (ascii "GET /function/compute") then 1
  else if strstr headers (ascii "POST /function/echo") then 0
  else if strstr headers (ascii "GET /function/status") then 1
  else if strstr headers (ascii "GET /function/") then 0
  else 0

/-- What the calls of `handle_connection` return. -/
structure ConnectionCalls (β : Type*) where
  wolfSSL_new_ok : Bool
  /-- the callbacks that fire inside `wolfSSL_accept` -/
  keylog : List KeylogCall
  accept_ok : Bool
  cipher_name : Option Bytes
  /-- `tls_read_peek`: the bytes it stored, or `-1` -/
  peek : Option Bytes
  /-- `wolfSSL_tls_export`: the blob, or a negative number -/
  tls_export : Option β
  connect : ConnectCalls
  /-- `sendmsg` succeeded -/
  sent : Bool

variable {β : Type*}

/-- The serialised session of step 7. -/
def sessionSerial (peek_ctx : TlspeekCtx) (blob : β) : TlspeekSerial β where
  magic := TLSPEEK_MAGIC
  cipher_suite := peek_ctx.cipher_suite
  client_write_key := peek_ctx.client_write_key
  client_write_iv := peek_ctx.client_write_iv
  read_seq_num := peek_ctx.read_seq_num
  tls_blob := some blob

/-- `snprintf(sock_path, …, "worker_%d.sock", worker_id)`. -/
def workerSocket (worker_id : Int) : Bytes :=
  ascii "worker_" ++ ascii (toString worker_id) ++ ascii ".sock"

/-- The worker of a request, forced into range. -/
def chooseWorker (headers : Bytes) (n_workers : Int) : Int :=
  let worker_id := route_request headers
  if worker_id < 0 ∨ n_workers ≤ worker_id then 0 else worker_id

/-- `handle_connection` on the descriptor `client_fd`, open as `file`: the table, and what
was sent to which socket. -/
def handle_connection (t : FdTable) (client_fd : Fd) (file : FileId) (n_workers : Int)
    (c : ConnectionCalls β) : FdTable × Option (Bytes × TlspeekSerial β) :=
  if c.wolfSSL_new_ok = false then (t.close client_fd file, none)
  else
    let peek_ctx : TlspeekCtx := { runCallbacks c.keylog with tcp_fd := client_fd }
    let t := t.use client_fd file
    if c.accept_ok = false then (t.close client_fd file, none)
    else if peek_ctx.keys_ready = false then (t.close client_fd file, none)
    else
      let peek_ctx := set_cipher_from_name peek_ctx c.cipher_name
      let t := t.use client_fd file
      match c.peek with
      | none | some [] => (t.close client_fd file, none)
      | some headers =>
          let worker_id := chooseWorker headers n_workers
          match c.tls_export with
          | none => (t.close client_fd file, none)
          | some blob =>
              let serial := sessionSerial peek_ctx blob
              let sock_path := workerSocket worker_id
              match unix_client_connect t c.connect with
              | (t, none) => (t.close client_fd file, none)
              | (t, some uds_fd) =>
                  let (t, rc) := transferFd t uds_fd client_fd file c.sent
                  if rc ≠ 0 then (t.close uds_fd.1 uds_fd.2, none)
                  else (t.close uds_fd.1 uds_fd.2, some (sock_path, serial))

/-! ## §2. The exits. -/

/-- Every call before the transfer succeeds. -/
structure ReachesTransfer (c : ConnectionCalls β) : Prop where
  wolfSSL_new : c.wolfSSL_new_ok = true
  accept : c.accept_ok = true
  keys_ready : (runCallbacks c.keylog).keys_ready = true
  peek : ∃ b bs, c.peek = some (b :: bs)
  tls_export : c.tls_export.isSome
  connect : c.connect.socket.isSome ∧ c.connect.connect_ok = true

variable {t : FdTable} {client_fd : Fd} {file : FileId}

/-- Every exit: either the descriptor is gone, or the transfer was reached and failed. -/
theorem handle_connection_scope (ht : t.Ok) (hfile : t.files client_fd = some file)
    (hep : t.epoll client_fd = false) (n_workers : Int) (c : ConnectionCalls β)
    (hfresh : c.connect.Fresh t) :
    (FdTable.Scope [file] t (handle_connection t client_fd file n_workers c).1
        ∧ ¬ (ReachesTransfer c ∧ c.sent = false))
      ∨ (FdTable.Scope [] t (handle_connection t client_fd file n_workers c).1
        ∧ ReachesTransfer c ∧ c.sent = false) := by
  have h₀ := FdTable.Scope.refl ht
  have h₁ := h₀.use hfile (by simp)
  have h₂ := h₁.use hfile (by simp)
  unfold handle_connection
  split
  next hnew =>
    refine Or.inl ⟨h₀.close ht hfile (by simp), fun h => ?_⟩
    rw [h.1.wolfSSL_new] at hnew
    cases hnew
  next hnew =>
  dsimp only
  split
  next hacc =>
    refine Or.inl ⟨h₁.close ht hfile (by simp), fun h => ?_⟩
    rw [h.1.accept] at hacc
    cases hacc
  next hacc =>
  split
  next hkeys =>
    refine Or.inl ⟨h₁.close ht hfile (by simp), fun h => ?_⟩
    rw [h.1.keys_ready] at hkeys
    cases hkeys
  next hkeys =>
  split
  · -- tls_read_peek failed
    next hpeek =>
    refine Or.inl ⟨h₂.close ht hfile (by simp), fun h => ?_⟩
    obtain ⟨b, bs, hb⟩ := h.1.peek
    rw [hb] at hpeek
    cases hpeek
  · -- … or stored nothing
    next hpeek =>
    refine Or.inl ⟨h₂.close ht hfile (by simp), fun h => ?_⟩
    obtain ⟨b, bs, hb⟩ := h.1.peek
    rw [hb] at hpeek
    cases hpeek
  next headers hne hpeek =>
  split
  next hexp =>
    refine Or.inl ⟨h₂.close ht hfile (by simp), fun h => ?_⟩
    have hsome := h.1.tls_export
    rw [hexp] at hsome
    cases hsome
  next blob hexp =>
  have hfresh₂ : c.connect.Fresh ((t.use client_fd file).use client_fd file) := hfresh
  have hiff := connected_iff ((t.use client_fd file).use client_fd file) c.connect
  split
  next t' hconn =>
    have hnone := congrArg Prod.snd hconn
    have h₃ := connect_failed h₂ ht hfresh₂ hnone
    rw [hconn] at h₃
    refine Or.inl ⟨h₃.close ht hfile (by simp), fun h => ?_⟩
    obtain ⟨p, hp⟩ := hiff.mpr h.1.connect
    rw [hnone] at hp
    cases hp
  next t' uds hconn =>
    have hsome := congrArg Prod.snd hconn
    have hx := exchange h₂ ht hfresh₂ hsome hfile (by simp) hep c.sent
    rw [hconn] at hx
    have hreach : ReachesTransfer c := by
      refine ⟨by simpa using hnew, by simpa using hacc, by simpa using hkeys, ?_,
        by rw [hexp]; rfl, hiff.mp ⟨uds, hsome⟩⟩
      cases headers with
      | nil => exact absurd rfl hne
      | cons b bs => exact ⟨b, bs, hpeek⟩
    cases hsent : c.sent with
    | true =>
        rw [hsent] at hx
        exact Or.inl ⟨hx, fun h => by cases h.2⟩
    | false =>
        rw [hsent] at hx
        exact Or.inr ⟨hx, hreach, rfl⟩

/-- **The client's descriptor is disposed of exactly when the transfer is not reached or
succeeds**, whatever the calls of `handle_connection` return. -/
theorem handle_connection_released_iff {t : FdTable} (ht : t.Ok) {client_fd : Fd} {file : FileId}
    (hfile : t.files client_fd = some file) (hep : t.epoll client_fd = false) (n_workers : Int)
    (c : ConnectionCalls β) (hfresh : c.connect.Fresh t) :
    Released t (handle_connection t client_fd file n_workers c).1 file
      ↔ ¬ (ReachesTransfer c ∧ c.sent = false) := by
  rcases handle_connection_scope ht hfile hep n_workers c hfresh with ⟨hs, hno⟩ | ⟨hs, hyes⟩
  · exact iff_of_true (Released.of_scope hs ht hfile (by simp)) hno
  · exact iff_of_false (not_released_of_scope hs hfile (by simp)) (not_not_intro hyes)

/-! ### A worker that dies between `connect` and `sendmsg` -/

/-- Calls that all succeed, but for `sendmsg`. -/
def deadWorker : ConnectionCalls Unit where
  wolfSSL_new_ok := true
  keylog :=
    let client := clientCall (fun _ _ _ n => Area.zero n) (List.replicate 48 1)
    [client, { client with id := .SERVER_TRAFFIC_SECRET }]
  accept_ok := true
  cipher_name := some (ascii "TLS13-AES256-GCM-SHA384")
  peek := some (ascii "GET /function/hello HTTP/1.1")
  tls_export := some ()
  connect := ⟨some 7, true⟩
  sent := false

/-- The client's descriptor is neither sent nor closed. -/
theorem handle_connection_leaks :
    (handle_connection (FdTable.single 4) 4 0 2 deadWorker).1.files 4 = some 0
      ∧ (handle_connection (FdTable.single 4) 4 0 2 deadWorker).1.closes 0 = 0
      ∧ (handle_connection (FdTable.single 4) 4 0 2 deadWorker).1.sends 0 = 0
      ∧ ¬ Released (FdTable.single 4) (handle_connection (FdTable.single 4) 4 0 2 deadWorker).1
        0 := by
  refine ⟨by decide +kernel, by decide +kernel, by decide +kernel, fun h => ?_⟩
  exact absurd h.once (by decide +kernel)

theorem handle_connection_released_iff_sent :
    Released (FdTable.single 4)
      (handle_connection (FdTable.single 4) 4 0 2 { deadWorker with sent := true }).1 0 := by
  refine (handle_connection_released_iff (FdTable.single_ok 4) rfl rfl 2 _ ?_).mpr ?_
  · intro fd hfd
    injection hfd with hfd
    subst hfd
    rfl
  · rintro ⟨-, h⟩
    cases h

end TlsMigration.Libtlspeek
