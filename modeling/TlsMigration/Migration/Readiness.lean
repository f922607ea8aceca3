/-
  TlsMigration.Migration.Readiness
  ────────────────────────────────
  **`tls_record_ready` AND `tls_read_peek` ON ONE SOCKET**
  (bench2_proto_worker.c, bench2gw.c, libtlspeek/lib/tlspeek.c).

  Both parse the header of the first record.  The test looks at five bytes
  and counts what is there with `FIONREAD`; the peek takes what fits its
  buffer and counts that.

    • `record_ready_agrees`   — where the test says that a record is there,
                                the peek has all of it; where the test says
                                that it is not, the peek fails;
    • `tls_record_ready_open` — the test of the other modules is this one.
-/
import TlsMigration.Tlspeek.PeekBounds
import TlsMigration.Migration.Live

namespace TlsMigration.Migration

open TlsMigration.Tlspeek

/-! ## §1. The socket and the two functions. -/

/-- The receive buffer of a socket, and whether the peer has closed its side. -/
structure Socket where
  kernel : Bytes
  eof : Bool

/-- What `recv` returns: bytes, and none of them at the end; or an error. -/
inductive Recv where
  | bytes (b : Bytes)
  /-- `EAGAIN`, `EWOULDBLOCK` -/
  | again
  | failed

/-- `recv(fd, buf, n, MSG_PEEK)`: as many of the bytes as fit. -/
def Socket.recvPeek (s : Socket) (n : Nat) : Recv :=
  if s.kernel = [] then if s.eof then .bytes [] else .again
  else .bytes (s.kernel.take n)

/-- `ioctl(fd, FIONREAD, &avail)`. -/
def Socket.fionread (s : Socket) : Option Nat := some s.kernel.length

/-- The text of both `tls_record_ready`, behind the loop over `EINTR`. -/
def record_ready (recv : Recv) (fionread : Option Nat) : Int :=
  match recv with
  | .again => 0
  | .failed => -1
  | .bytes hdr =>
      if hdr = [] then -1
      else if hdr.length < TLSPEEK_HEADER_SIZE then 0
      else
        let record_len := be16 (hdr.getD 3 0) (hdr.getD 4 0)
        if TLSPEEK_MAX_RECORD + TLSPEEK_TAG_SIZE < record_len then -1
        else
          match fionread with
          | none => 0
          | some avail => if TLSPEEK_HEADER_SIZE + record_len ≤ avail then 1 else 0

/-- `tls_record_ready` of bench2_proto_worker.c. -/
def ProtoWorker.tls_record_ready (s : Socket) : Int :=
  record_ready (s.recvPeek TLSPEEK_HEADER_SIZE) s.fionread

/-- `tls_record_ready` of bench2gw.c. -/
def ProtoGateway.tls_record_ready (s : Socket) : Int :=
  record_ready (s.recvPeek TLSPEEK_HEADER_SIZE) s.fionread

/-- What a call of `recv` has put in the buffer. -/
def Recv.received : Recv → Bytes
  | .bytes b => b
  | .again | .failed => []

/-- `tls_read_peek` on the socket: its exit. -/
def peekExit (W : WolfCrypt) (ctx : TlspeekCtx) (s : Socket) (size : Nat) : PeekExit :=
  (peek_raw W ctx (s.recvPeek rawSize).received size).2

/-! ## §2. What they see. -/

variable {W : WolfCrypt} {ctx : TlspeekCtx} {s : Socket} {size : Nat}

theorem received_recvPeek (n : Nat) : (s.recvPeek n).received = s.kernel.take n := by
  unfold Socket.recvPeek
  by_cases h : s.kernel = []
  · rw [if_pos h, h, List.take_nil]
    cases s.eof <;> rfl
  · rw [if_neg h]
    rfl

/-- The peek's result is the one of the other modules. -/
theorem stored_peekExit : (peekExit W ctx s size).stored = tls_read_peek W ctx s.kernel size := by
  unfold peekExit
  rw [received_recvPeek, tls_read_peek_eq_raw]

/-- The length that the header of the first record has. -/
def Socket.recordLen (s : Socket) : Nat := be16 (s.kernel.getD 3 0) (s.kernel.getD 4 0)

/-- A whole record of a length that a record can have. -/
structure Socket.Whole (s : Socket) : Prop where
  allowed : s.recordLen ≤ TLSPEEK_MAX_RECORD + TLSPEEK_TAG_SIZE
  there : TLSPEEK_HEADER_SIZE + s.recordLen ≤ s.kernel.length

theorem ne_nil_of_header {l : Bytes} {n : Nat} (h : TLSPEEK_HEADER_SIZE + n ≤ l.length) :
    l ≠ [] := by
  rintro rfl
  unfold TLSPEEK_HEADER_SIZE at h
  simp at h

/-- The test on a socket, in terms of the whole receive buffer. -/
theorem record_ready_socket :
    record_ready (s.recvPeek TLSPEEK_HEADER_SIZE) s.fionread
      = if s.kernel = [] then if s.eof then -1 else 0
        else if s.kernel.length < TLSPEEK_HEADER_SIZE then 0
        else if TLSPEEK_MAX_RECORD + TLSPEEK_TAG_SIZE < s.recordLen then -1
        else if TLSPEEK_HEADER_SIZE + s.recordLen ≤ s.kernel.length then 1 else 0 := by
  unfold Socket.recvPeek
  by_cases hnil : s.kernel = []
  · rw [if_pos hnil, if_pos hnil]
    cases s.eof <;> rfl
  rw [if_neg hnil, if_neg hnil]
  -- a peek of five bytes shows none only when none are there
  have hne : s.kernel.take TLSPEEK_HEADER_SIZE ≠ [] := by
    intro h
    rcases List.take_eq_nil_iff.mp h with h | h
    · cases h
    · exact hnil h
  unfold record_ready
  dsimp only
  rw [if_neg hne, List.length_take, getD_take (by decide), getD_take (by decide)]
  by_cases hshort : s.kernel.length < TLSPEEK_HEADER_SIZE
  · rw [if_pos (by omega), if_pos hshort]
  · rw [if_neg (by omega), if_neg hshort]
    rfl

/-- **1 means a whole record.** -/
theorem record_ready_eq_one_iff :
    record_ready (s.recvPeek TLSPEEK_HEADER_SIZE) s.fionread = 1 ↔ s.Whole := by
  rw [record_ready_socket]
  constructor
  · intro h
    by_cases hnil : s.kernel = []
    · rw [if_pos hnil] at h
      cases heof : s.eof with
      | true => rw [heof] at h; cases h
      | false => rw [heof] at h; cases h
    rw [if_neg hnil] at h
    by_cases hshort : s.kernel.length < TLSPEEK_HEADER_SIZE
    · rw [if_pos hshort] at h
      cases h
    rw [if_neg hshort] at h
    by_cases hlarge : TLSPEEK_MAX_RECORD + TLSPEEK_TAG_SIZE < s.recordLen
    · rw [if_pos hlarge] at h
      cases h
    rw [if_neg hlarge] at h
    by_cases hthere : TLSPEEK_HEADER_SIZE + s.recordLen ≤ s.kernel.length
    · exact ⟨by omega, hthere⟩
    · rw [if_neg hthere] at h
      cases h
  · intro ⟨hallowed, hthere⟩
    rw [if_neg (ne_nil_of_header hthere), if_neg (by omega), if_neg (by omega), if_pos hthere]

/-- **0 means that the header or the body is short.** -/
theorem short_of_record_ready (h : record_ready (s.recvPeek TLSPEEK_HEADER_SIZE) s.fionread = 0) :
    s.kernel.length < TLSPEEK_HEADER_SIZE + s.recordLen := by
  rw [record_ready_socket] at h
  by_contra hthere
  rw [if_neg (ne_nil_of_header (Nat.le_of_not_lt hthere)), if_neg (by omega)] at h
  -- a record that is too large gives -1, and not 0
  by_cases hlarge : TLSPEEK_MAX_RECORD + TLSPEEK_TAG_SIZE < s.recordLen
  · rw [if_pos hlarge] at h
    cases h
  · rw [if_neg hlarge, if_pos (by omega)] at h
    cases h

/-! ## §3. The peek. -/

/-- An exit for which bytes are missing. -/
def ForBytes (e : PeekExit) : Prop :=
  e = .nothing_received ∨ e = .too_few_bytes ∨ e = .incomplete

/-- Success, or one of the exits that look at the record: its type, its length, the suite and the
decryption. -/
def ForRecord (e : PeekExit) : Prop :=
  (∃ bytes, e = .copied bytes) ∨ e = .record_type ∨ e = .too_small ∨ e = .cipher_suite
    ∨ e = .decryption

theorem peek_decrypt_forRecord {raw : Bytes} {ct_len : Nat} (hpos : ct_len ≠ 0) :
    ForRecord (peek_decrypt W ctx raw ct_len size).2 := by
  unfold peek_decrypt ForRecord
  cases aeadCall ctx raw ct_len with
  | none => simp
  | some call =>
      dsimp only
      cases W.decrypt call with
      | none => simp
      | some plaintext =>
          dsimp only
          rw [if_neg hpos]
          simp

theorem ForRecord.not_forBytes {e : PeekExit} (h : ForRecord e) : ¬ ForBytes e := by
  intro hb
  rcases h with ⟨bytes, rfl⟩ | rfl | rfl | rfl | rfl
  all_goals simp [ForBytes] at hb

/-- A whole record is in the peek's buffer. -/
theorem Socket.Whole.received (h : s.Whole) :
    TLSPEEK_HEADER_SIZE + s.recordLen ≤ (s.kernel.take rawSize).length
      ∧ be16 ((s.kernel.take rawSize).getD 3 0) ((s.kernel.take rawSize).getD 4 0)
        = s.recordLen := by
  obtain ⟨hallowed, hthere⟩ := h
  refine ⟨?_, ?_⟩
  · -- the largest record that is allowed fills the buffer of the peek
    rw [List.length_take]
    unfold rawSize
    omega
  · rw [getD_take (by decide), getD_take (by decide)]
    rfl

/-- **The peek of a whole record** looks at the record. -/
theorem Socket.Whole.forRecord (h : s.Whole) (hsize : 0 < size) (hready : ctx.keys_ready = true) :
    ForRecord (peekExit W ctx s size) := by
  obtain ⟨hall, hlen⟩ := h.received
  unfold peekExit
  rw [received_recvPeek]
  generalize s.kernel.take rawSize = raw at hall hlen
  have hnil := ne_nil_of_header hall
  unfold peek_raw
  -- none of the exits before the type is taken
  rw [if_neg (by omega), if_neg (by simp [hready]), if_neg hnil, if_neg (by omega)]
  dsimp only
  rw [hlen]
  by_cases htype : raw.getD 0 0 ≠ 0x17
  · rw [if_pos htype]
    exact Or.inr (Or.inl rfl)
  rw [if_neg htype, if_neg (by omega)]
  by_cases hsmall : s.recordLen ≤ TLSPEEK_TAG_SIZE
  · rw [if_pos hsmall]
    exact Or.inr (Or.inr (Or.inl rfl))
  rw [if_neg hsmall]
  exact peek_decrypt_forRecord (by omega)

/-- And without a key, or without room, it does not get as far as the bytes. -/
theorem Socket.Whole.not_forBytes (h : s.Whole) : ¬ ForBytes (peekExit W ctx s size) := by
  by_cases hsize : size = 0
  · unfold peekExit peek_raw ForBytes
    rw [if_pos hsize]
    simp
  by_cases hready : ctx.keys_ready = false
  · unfold peekExit peek_raw ForBytes
    rw [if_neg hsize, if_pos hready]
    simp
  exact (h.forRecord (by omega) (by simpa using hready)).not_forBytes

/-- **The peek of a part of a record** fails. -/
theorem stored_of_short (h : s.kernel.length < TLSPEEK_HEADER_SIZE + s.recordLen) :
    (peekExit W ctx s size).stored = none := by
  unfold peekExit
  rw [received_recvPeek]
  have hcut : (s.kernel.take rawSize).length ≤ s.kernel.length := by
    rw [List.length_take]
    omega
  have hlen : be16 ((s.kernel.take rawSize).getD 3 0) ((s.kernel.take rawSize).getD 4 0)
      = s.recordLen := by
    rw [getD_take (by decide), getD_take (by decide)]
    rfl
  generalize s.kernel.take rawSize = raw at hcut hlen
  unfold peek_raw
  dsimp only
  rw [hlen]
  split
  · rfl
  split
  · rfl
  split
  · rfl
  split
  · rfl
  split
  · rfl
  -- what is left is the test for an incomplete record
  rw [if_pos (by omega)]
  rfl

/-! ## §4. The two together. -/

/-- A readiness test that agrees with the peek. -/
structure Agrees (ready : Socket → Int) : Prop where
  /-- at 1 no byte is missing, and only the record can make the peek fail -/
  whole : ∀ W ctx s size, ready s = 1 → ¬ ForBytes (peekExit W ctx s size)
    ∧ (0 < size → ctx.keys_ready = true → ForRecord (peekExit W ctx s size))
  /-- at 0 it fails -/
  part : ∀ W ctx s size, ready s = 0 → (peekExit W ctx s size).stored = none
  /-- bytes that arrive later change nothing -/
  stays : ∀ (s : Socket) (more : Bytes) (eof : Bool), ready s = 1 →
    ready ⟨s.kernel ++ more, eof⟩ = 1

theorem Socket.Whole.append (h : s.Whole) (more : Bytes) (eof : Bool) :
    Socket.Whole ⟨s.kernel ++ more, eof⟩ := by
  obtain ⟨hallowed, hthere⟩ := h
  have hlen : Socket.recordLen ⟨s.kernel ++ more, eof⟩ = s.recordLen := by
    -- the header is in front of what arrives
    have hfive : TLSPEEK_HEADER_SIZE = 5 := rfl
    unfold Socket.recordLen
    rw [getD_append (by omega), getD_append (by omega)]
  refine ⟨?_, ?_⟩
  · rw [hlen]
    exact hallowed
  · rw [hlen, List.length_append]
    omega

/-- The test on the socket's own data agrees. -/
theorem agrees_record_ready :
    Agrees fun s => record_ready (s.recvPeek TLSPEEK_HEADER_SIZE) s.fionread := by
  refine ⟨?_, ?_, ?_⟩
  · intro W ctx s size h
    have hwhole := record_ready_eq_one_iff.mp h
    exact ⟨hwhole.not_forBytes, hwhole.forRecord⟩
  · intro W ctx s size h
    exact stored_of_short (short_of_record_ready h)
  · intro s more eof h
    exact record_ready_eq_one_iff.mpr ((record_ready_eq_one_iff.mp h).append more eof)

/-- **The readiness tests of the worker and of the gateway agree with the peek.** -/
theorem record_ready_agrees :
    Agrees ProtoWorker.tls_record_ready ∧ Agrees ProtoGateway.tls_record_ready :=
  ⟨agrees_record_ready, agrees_record_ready⟩

/-- A sealed record, … -/
def getBytes : Bytes :=
  sealRecord plainCrypt.aesGcm zeroKeyCtx.client_write_key.bytes zeroKeyCtx.client_write_iv.bytes
    zeroKeyCtx.read_seq_num ⟨ascii "GET /", 0⟩

/-- … with three bytes of the next one behind it, and without its last byte. -/
def wholeRecord : Socket := ⟨getBytes ++ [0x17, 3, 3], false⟩
def cutRecord : Socket := ⟨getBytes.dropLast, false⟩

/-- At 1 the peek gives the content of the record, at 0 it fails. -/
theorem record_ready_agrees_get :
    (ProtoWorker.tls_record_ready wholeRecord = 1 ∧ ProtoGateway.tls_record_ready wholeRecord = 1
      ∧ ForRecord (peekExit plainCrypt zeroKeyCtx wholeRecord 64)
      ∧ (peekExit plainCrypt zeroKeyCtx wholeRecord 64).stored = some (ascii "GET /"))
      ∧ ProtoWorker.tls_record_ready cutRecord = 0 ∧ ProtoGateway.tls_record_ready cutRecord = 0
      ∧ (peekExit plainCrypt zeroKeyCtx cutRecord 64).stored = none := by
  have hwhole : ProtoWorker.tls_record_ready wholeRecord = 1 := by decide +kernel
  have hcut : ProtoGateway.tls_record_ready cutRecord = 0 := by decide +kernel
  obtain ⟨hworker, hgateway⟩ := record_ready_agrees
  refine ⟨⟨hwhole, by decide +kernel, ?_, by decide +kernel⟩, by decide +kernel, hcut, ?_⟩
  · exact (hworker.whole plainCrypt zeroKeyCtx wholeRecord 64 hwhole).2 (by decide) rfl
  · exact hgateway.part plainCrypt zeroKeyCtx cutRecord 64 hcut

/-- On an open connection this is the test of the other modules. -/
theorem tls_record_ready_open (kernel : Bytes) :
    ProtoWorker.tls_record_ready ⟨kernel, false⟩ = tls_record_ready kernel := by
  unfold ProtoWorker.tls_record_ready
  rw [record_ready_socket]
  rfl

end TlsMigration.Migration
