/-
  TlsMigration.Faasd.PartialRecord
  ────────────────────────────────
  **A RECORD THAT HAS ARRIVED IN PART, ON THE BLOCKING PATHS**
  (`tlsmigratekeepalive_accept_peek_export` of tlsmigratekeepalive.c,
  `handle_connection` of libtlspeek/gateway/gateway.c, `process_session` of
  timing_fn_keepalive_worker.c).

  A blocking `recv` with `MSG_PEEK` returns as soon as one byte is there.
  `tls_read_peek` calls it once and takes a record that it sees a part of for
  a failure; its three blocking callers close the connection then.

    • `tls_read_peek_part`    — a part of a record is a failed peek;
    • `waits_for_record_iff`  — when the callers keep the connection until
                                the record is complete.
-/
import TlsMigration.Libtlspeek.Gateway
import TlsMigration.Faasd.KeepaliveWorker
import TlsMigration.Migration.Live

namespace TlsMigration.Faasd

open TlsMigration.Tlspeek TlsMigration.Handoff TlsMigration.Libtlspeek
open TlsMigration.Bench2 (Payload)

/-! ## §1. The faasd gateway. -/

def TLSMIGRATE_KEEPALIVE_MAGIC : UInt32 := 0x544D4B41
def TLSMIGRATE_KEEPALIVE_VERSION : UInt32 := 1

def set_cipher_suite_from_name (peek_ctx : TlspeekCtx) (cipher_name : Option Bytes) :
    TlspeekCtx :=
  match cipher_name with
  | none => { peek_ctx with cipher_suite := Suite.code .AES_256_GCM }
  | some name => set_cipher_from_name peek_ctx (some name)

/-- What the calls of `tlsmigratekeepalive_accept_peek_export` return. -/
structure AcceptPeekCalls (β : Type*) where
  accept : Option Fd
  wolfSSL_new_ok : Bool
  /-- the callbacks that fire inside `wolfSSL_accept` -/
  keylog : List KeylogCall
  accept_ok : Bool
  cipher_name : Option Bytes
  /-- `tls_read_peek`: the bytes it stored, or `-1` -/
  peek : TlspeekCtx → Option Bytes
  /-- `wolfSSL_tls_export`: the blob, or a number that is not positive -/
  tls_export : Option β

variable {β : Type*}

/-- `tlsmigratekeepalive_accept_peek_export`: the table, and the descriptor with the payload
and the peeked bytes. -/
def tlsmigratekeepalive_accept_peek_export (t : FdTable) (headers_buf_sz : Nat)
    (c : AcceptPeekCalls β) :
    FdTable × Option (Held × Payload (TlspeekSerial β) × Bytes) :=
  if headers_buf_sz = 0 then (t, none)
  else
    match c.accept with
    | none => (t, none)
    | some client_fd =>
        let file := t.next
        let t := t.opened client_fd
        if c.wolfSSL_new_ok = false then (t.close client_fd file, none)
        else
          let peek_ctx : TlspeekCtx := { runCallbacks c.keylog with tcp_fd := client_fd }
          let t := t.use client_fd file
          if c.accept_ok = false then (t.close client_fd file, none)
          else if peek_ctx.keys_ready = false then (t.close client_fd file, none)
          else
            let peek_ctx := set_cipher_suite_from_name peek_ctx c.cipher_name
            let t := t.use client_fd file
            match c.peek peek_ctx with
            | none | some [] => (t.close client_fd file, none)
            | some headers =>
                match c.tls_export with
                | none => (t.close client_fd file, none)
                | some blob =>
                    (t, some ((client_fd, file),
                      { magic := TLSMIGRATE_KEEPALIVE_MAGIC
                        version := TLSMIGRATE_KEEPALIVE_VERSION
                        serial := sessionSerial peek_ctx blob
                        target_function := Area.zero _ }, headers))

/-! ## §2. Segments. -/

/-- A record and the bytes behind it, as segments bring them; `early` segments have arrived
when `recv` is called. -/
structure Arrival where
  record : Record
  fits : record.Fits
  segments : List Bytes
  filled : ∀ s ∈ segments, s ≠ []
  carried : ∃ (A : Aead TLSPEEK_TAG_SIZE) (key iv : Bytes) (seq : UInt64) (rest : Bytes),
    segments.flatten = sealRecord A key iv seq record ++ rest
  early : Nat

namespace Arrival

variable (a : Arrival)

/-- What `recv` sees: it waits for one segment, and for no more than that. -/
def shown : Bytes := (a.segments.take (max a.early 1)).flatten

/-- The record is complete when `recv` returns. -/
def Whole : Prop := TLSPEEK_HEADER_SIZE + a.record.wireLen ≤ a.shown.length

/-- What is shown is the start of the stream. -/
theorem shown_eq : a.shown = a.segments.flatten.take a.shown.length := by
  have hprefix : a.shown <+: a.segments.flatten := by
    refine ⟨(a.segments.drop (max a.early 1)).flatten, ?_⟩
    unfold shown
    rw [← List.flatten_append, List.take_append_drop]
  exact List.prefix_iff_eq_take.mp hprefix

end Arrival

/-- **A part of a record is a failed peek**, whatever the context. -/
theorem tls_read_peek_part (W : WolfCrypt) (ctx : TlspeekCtx) {a : Arrival} (h : ¬ a.Whole)
    (size : Nat) : tls_read_peek W ctx a.shown size = none := by
  obtain ⟨A, key, iv, seq, rest, hcarried⟩ := a.carried
  have hlt : a.shown.length < TLSPEEK_HEADER_SIZE + a.record.wireLen := Nat.lt_of_not_le h
  have hlen := length_sealRecord A key iv seq a.record
  have hbe := Migration.be16_sealRecord A key iv seq a.fits []
  rw [List.append_nil] at hbe
  -- what is shown lies inside the record
  have hshown : a.shown = (sealRecord A key iv seq a.record).take a.shown.length := by
    have he := a.shown_eq
    rw [hcarried, List.take_append_of_le_length (by omega)] at he
    exact he
  generalize sealRecord A key iv seq a.record = buf at hlen hbe hshown
  generalize a.shown = shown at hlt hshown
  have hcall : peekCall ctx (shown.take rawSize) = none := by
    have hall : shown.take rawSize = shown := by
      have hle := Migration.Record.wireLen_le a.fits
      refine List.take_of_length_le ?_
      unfold rawSize
      omega
    rw [hall]
    unfold peekCall
    split
    next => rfl
    next hheader =>
      have hget : ∀ i < 5, shown.getD i 0 = buf.getD i 0 := by
        intro i hi
        have hfive : TLSPEEK_HEADER_SIZE = 5 := rfl
        rw [hshown]
        exact getD_take (by omega)
      dsimp only
      rw [hget 3 (by decide), hget 4 (by decide), hbe]
      split
      next => rfl
      next => rfl
  unfold tls_read_peek
  split
  next => rfl
  next =>
    dsimp only
    split
    next => rfl
    next => rw [hcall]

/-! ## §3. The callers. -/

theorem closes_close (t : FdTable) (fd : Fd) (file : FileId) :
    (t.close fd file).closes file = t.closes file + 1 := Function.update_self _ _ _

section Callers

variable (W : WolfCrypt) (a : Arrival)

/-- `handle_connection` on a client whose first record arrives so. -/
def handle_connection_on (t : FdTable) (client_fd : Fd) (file : FileId) (n_workers : Int)
    (c : ConnectionCalls β) : FdTable × Option (Bytes × TlspeekSerial β) :=
  let peek_ctx := set_cipher_from_name { runCallbacks c.keylog with tcp_fd := client_fd }
    c.cipher_name
  handle_connection t client_fd file n_workers
    { c with peek := tls_read_peek W peek_ctx a.shown 8191 }

/-- It comes to its peek. -/
structure HandlePeeks (c : ConnectionCalls β) : Prop where
  wolfSSL_new : c.wolfSSL_new_ok = true
  accept : c.accept_ok = true
  keys_ready : (runCallbacks c.keylog).keys_ready = true

/-- The faasd gateway likewise. -/
structure AcceptPeeks (c : AcceptPeekCalls β) : Prop where
  accepted : c.accept.isSome
  wolfSSL_new : c.wolfSSL_new_ok = true
  accept : c.accept_ok = true
  keys_ready : (runCallbacks c.keylog).keys_ready = true

variable {a}

/-- **A partial record closes the connection** in the libtlspeek gateway. -/
theorem handle_connection_closes (h : ¬ a.Whole) {c : ConnectionCalls β} (hc : HandlePeeks c)
    (t : FdTable) (client_fd : Fd) (file : FileId) (n_workers : Int) :
    t.closes file < (handle_connection_on W a t client_fd file n_workers c).1.closes file := by
  have hrun : handle_connection_on W a t client_fd file n_workers c
      = (((t.use client_fd file).use client_fd file).close client_fd file, none) := by
    unfold handle_connection_on handle_connection
    dsimp only
    rw [if_neg (by rw [hc.wolfSSL_new]; decide), if_neg (by rw [hc.accept]; decide),
      if_neg (by rw [hc.keys_ready]; decide), tls_read_peek_part W _ h]
  rw [hrun]
  show t.closes file < (((t.use client_fd file).use client_fd file).close client_fd file).closes file
  rw [closes_close]
  exact Nat.lt_succ_self _

/-- And in the faasd gateway. -/
theorem accept_peek_export_closes (h : ¬ a.Whole) {c : AcceptPeekCalls β} (hc : AcceptPeeks c)
    (t : FdTable) {headers_buf_sz : Nat} (hsize : headers_buf_sz ≠ 0)
    (hpeek : c.peek = fun ctx => tls_read_peek W ctx a.shown headers_buf_sz) :
    t.closes t.next
      < (tlsmigratekeepalive_accept_peek_export t headers_buf_sz c).1.closes t.next := by
  obtain ⟨client_fd, hfd⟩ := Option.isSome_iff_exists.mp hc.accepted
  have hrun : tlsmigratekeepalive_accept_peek_export t headers_buf_sz c
      = ((((t.opened client_fd).use client_fd t.next).use client_fd t.next).close client_fd t.next,
        none) := by
    unfold tlsmigratekeepalive_accept_peek_export
    rw [if_neg hsize, hfd]
    dsimp only
    rw [if_neg (by rw [hc.wolfSSL_new]; decide), if_neg (by rw [hc.accept]; decide),
      if_neg (by rw [hc.keys_ready]; decide), hpeek]
    dsimp only
    rw [tls_read_peek_part W _ h]
  rw [hrun, closes_close]
  exact Nat.lt_succ_self _

/-- And a turn of the faasd worker. -/
theorem session_turn_closes (h : ¬ a.Whole) {c : RequestCalls β}
    (hpeek : c.peek = fun ctx => tls_read_peek W ctx a.shown 8192) (t : FdTable) (client_fd : Fd)
    (file : FileId) (function_name : Bytes) (state : Payload (TlspeekSerial β)) :
    session_turn t client_fd file function_name state c
      = .out (t.use client_fd file) true 0 none := by
  have howner : peek_owner_from_kernel client_fd state.serial c.peek = none := by
    unfold peek_owner_from_kernel
    rw [hpeek]
    cases tlspeek_restore_peek_ctx client_fd state.serial with
    | none => rfl
    | some ctx =>
        dsimp only [Option.bind_some]
        rw [tls_read_peek_part W _ h]
  unfold session_turn
  rw [howner]

end Callers

/-! ## §4. Sessions. -/

/-- The session comes to its turn `k` with this table and this state. -/
inductive Reaches (client_fd : Fd) (file : FileId) (function_name : Bytes)
    (calls : Nat → RequestCalls β) (t₀ : FdTable) (state₀ : Payload (TlspeekSerial β)) :
    Nat → FdTable → Payload (TlspeekSerial β) → Prop where
  | start : Reaches client_fd file function_name calls t₀ state₀ 0 t₀ state₀
  | next {k : Nat} {t t' : FdTable} {state state' : Payload (TlspeekSerial β)} :
      Reaches client_fd file function_name calls t₀ state₀ k t state →
      session_turn t client_fd file function_name state (calls k) = .next t' state' →
      Reaches client_fd file function_name calls t₀ state₀ (k + 1) t' state'

section Sessions

variable {client_fd : Fd} {file : FileId} {function_name : Bytes} {calls : Nat → RequestCalls β}
  {t₀ : FdTable} {state₀ : Payload (TlspeekSerial β)}

/-- **A session that ends, ends in one of the turns it comes to**: `process_session` closes
the descriptor there if it still holds it. -/
theorem session_loop_ends (fuel : Nat) : ∀ (k : Nat) (t : FdTable)
    (state : Payload (TlspeekSerial β)) (r : FdTable × Bool × Int),
    Reaches client_fd file function_name calls t₀ state₀ k t state →
    session_loop client_fd file function_name fuel t state (fun i => calls (k + i)) = some r →
    ∃ j t' state' relayed, Reaches client_fd file function_name calls t₀ state₀ j t' state'
      ∧ session_turn t' client_fd file function_name state' (calls j)
        = .out r.1 r.2.1 r.2.2 relayed := by
  induction fuel with
  | zero =>
      intro k t state r _ h
      cases h
  | succ fuel ih =>
      intro k t state r hreach h
      unfold session_loop at h
      cases hturn : session_turn t client_fd file function_name state (calls k) with
      | next t' state' =>
          rw [show (fun i => calls (k + i)) 0 = calls k from rfl, hturn] at h
          have hcalls : (fun i => calls (k + (i + 1))) = fun i => calls (k + 1 + i) := by
            funext i
            rw [Nat.add_right_comm, Nat.add_assoc]
          dsimp only at h
          rw [hcalls] at h
          exact ih (k + 1) t' state' r (hreach.next hturn) h
      | out t' held rc relayed =>
          rw [show (fun i => calls (k + i)) 0 = calls k from rfl, hturn] at h
          injection h with h
          rw [← h]
          exact ⟨k, t, state, relayed, hreach, hturn⟩

/-- And `process_session` closes the descriptor in that turn, if it still holds it. -/
theorem process_session_ends {fuel : Nat} {c : SessionCalls β} {t' : FdTable} {rc : Int}
    (hnew : c.wolfSSL_new_ok = true) (hrestore : c.restore_ok = true)
    (h : process_session fuel t₀ client_fd file state₀ function_name c = some (t', rc)) :
    ∃ j t state t'' held relayed,
      Reaches client_fd file function_name c.request t₀ state₀ j t state
        ∧ session_turn t client_fd file function_name state (c.request j) = .out t'' held rc relayed
        ∧ t' = if held then t''.close client_fd file else t'' := by
  unfold process_session at h
  rw [if_neg (by rw [hnew]; decide), if_neg (by rw [hrestore]; decide)] at h
  obtain ⟨⟨t'', held, rc'⟩, hloop, he⟩ := Option.map_eq_some_iff.mp h
  have hcalls : (fun i => c.request (0 + i)) = c.request := by
    funext i
    rw [Nat.zero_add]
  rw [← hcalls] at hloop
  obtain ⟨j, t, state, relayed, hreach, hturn⟩ := session_loop_ends fuel 0 t₀ state₀ _ .start hloop
  injection he with ht hrc
  rw [← hrc]
  exact ⟨j, t, state, t'', held, relayed, hreach, hturn, ht.symm⟩

end Sessions

/-- **The blocking callers keep a connection until its next record is complete** exactly
when the bytes that `recv` returned with hold the record: the two gateways on the first
record, and the worker in every turn that a session comes to. -/
theorem waits_for_record_iff (W : WolfCrypt) :
    (∀ (a : Arrival) (t : FdTable) (client_fd : Fd) (file : FileId) (n_workers : Int)
        (c : ConnectionCalls β), HandlePeeks c →
      ((t.closes file < (handle_connection_on W a t client_fd file n_workers c).1.closes file →
        a.Whole) ↔ a.Whole))
    ∧ (∀ (a : Arrival) (t : FdTable) (headers_buf_sz : Nat) (c : AcceptPeekCalls β),
        AcceptPeeks c → headers_buf_sz ≠ 0 →
        (c.peek = fun ctx => tls_read_peek W ctx a.shown headers_buf_sz) →
      ((t.closes t.next
          < (tlsmigratekeepalive_accept_peek_export t headers_buf_sz c).1.closes t.next →
        a.Whole) ↔ a.Whole))
    ∧ ∀ (arrivals : Nat → Arrival) (t₀ : FdTable) (client_fd : Fd) (file : FileId)
        (function_name : Bytes) (state₀ : Payload (TlspeekSerial β))
        (calls : Nat → RequestCalls β),
        (∀ k, (calls k).peek = fun ctx => tls_read_peek W ctx (arrivals k).shown 8192) →
      ((∀ k t state t' rc relayed,
          Reaches client_fd file function_name calls t₀ state₀ k t state →
          session_turn t client_fd file function_name state (calls k) = .out t' true rc relayed →
          (arrivals k).Whole)
        ↔ ∀ k t state, Reaches client_fd file function_name calls t₀ state₀ k t state →
          (arrivals k).Whole) := by
  refine ⟨?_, ?_, ?_⟩
  · intro a t client_fd file n_workers c hc
    refine ⟨fun h => ?_, fun h _ => h⟩
    by_contra hpart
    exact hpart (h (handle_connection_closes W hpart hc t client_fd file n_workers))
  · intro a t headers_buf_sz c hc hsize hpeek
    refine ⟨fun h => ?_, fun h _ => h⟩
    by_contra hpart
    exact hpart (h (accept_peek_export_closes W hpart hc t hsize hpeek))
  · intro arrivals t₀ client_fd file function_name state₀ calls hpeek
    refine ⟨fun h k t state hreach => ?_, fun h k t state _ _ _ hreach _ => h k t state hreach⟩
    by_contra hpart
    have hturn := session_turn_closes W hpart (hpeek k) t client_fd file function_name state
    exact hpart (h k t state _ _ _ hreach hturn)

/-! ### A first segment of three bytes -/

/-- A request in one record, whose header the network cuts. -/
def cutArrival (early : Nat) : Arrival where
  record := ⟨ascii "GET /function/hello HTTP/1.1\r\n\r\n", 0⟩
  fits := by decide +kernel
  segments :=
    let wire := sealRecord plainCrypt.aesGcm [] [] 0
      ⟨ascii "GET /function/hello HTTP/1.1\r\n\r\n", 0⟩
    [wire.take 3, wire.drop 3]
  filled := by decide +kernel
  carried := ⟨plainCrypt.aesGcm, [], [], 0, [], by simp⟩
  early := early

/-- Both segments are there when `recv` is called. -/
theorem waits_for_record_iff_late :
    (FdTable.single 4).closes 0 < (handle_connection_on plainCrypt (cutArrival 2)
      (FdTable.single 4) 4 0 2 deadWorker).1.closes 0 → (cutArrival 2).Whole := by
  have hwhole : (cutArrival 2).Whole := by
    unfold Arrival.Whole
    decide +kernel
  exact ((waits_for_record_iff plainCrypt).1 (cutArrival 2) (FdTable.single 4) 4 0 2 deadWorker
    ⟨rfl, rfl, by decide +kernel⟩).mpr hwhole

/-- `recv` returns with the first one, and the connection is closed. -/
theorem short_segment_closes :
    HandlePeeks deadWorker ∧ ¬ (cutArrival 0).Whole
      ∧ (FdTable.single 4).closes 0 < (handle_connection_on plainCrypt (cutArrival 0)
        (FdTable.single 4) 4 0 2 deadWorker).1.closes 0 := by
  have hpeeks : HandlePeeks deadWorker := ⟨rfl, rfl, by decide +kernel⟩
  have hpart : ¬ (cutArrival 0).Whole := by
    unfold Arrival.Whole
    decide +kernel
  exact ⟨hpeeks, hpart, handle_connection_closes plainCrypt hpart hpeeks _ _ _ _⟩

end TlsMigration.Faasd
