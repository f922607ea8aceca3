/-
  TlsMigration.Migration.Live
  ───────────────────────────
  **THE LIVE TLS SESSION, ITS EXPORT, AND THE SOCKET BUFFER UNDER IT.**

  A `WOLFSSL` object is known here by what `wolfSSL_tls_export` saves: the
  traffic keys and the two sequence numbers.  wolfSSL itself is a parameter
  whose import undoes its export.  The socket buffer is bytes: records that
  the client sealed with consecutive numbers, and perhaps a part of one more.

    • `peekWith_export`   — a peek under an exported session shows the first
      record exactly when the exported number is that record's;
    • `tls_record_ready_record`, `tls_record_ready_part` — when a record is there.
-/
import TlsMigration.Tlspeek.Suites
import TlsMigration.Bench2.Wire

namespace TlsMigration.Migration

open TlsMigration.Tlspeek

/-! ## §1. The session. -/

/-- The traffic keys of one connection. -/
structure Secrets where
  client_write_key : Area TLSPEEK_KEY_SIZE
  client_write_iv : Area TLSPEEK_IV_SIZE
  server_write_key : Area TLSPEEK_KEY_SIZE
  server_write_iv : Area TLSPEEK_IV_SIZE
  deriving DecidableEq

/-- The state of a connection in a `WOLFSSL` object, without the plaintext it buffers. -/
structure Live where
  secrets : Secrets
  /-- number of the next record to open -/
  read_seq : UInt64
  /-- number of the next record to seal -/
  write_seq : UInt64
  deriving DecidableEq

/-- wolfSSL: the session export of an AES-256-GCM connection, and the suite's name. -/
structure WolfSession (β : Type*) where
  tls_export : Live → β
  tls_import : β → Option Live
  import_export : ∀ ssl, tls_import (tls_export ssl) = some ssl
  cipher_name : Bytes
  not_chacha : strstr cipher_name (ascii "CHACHA20") = false
  not_aes128 : strstr cipher_name (ascii "AES-128") = false

variable {β : Type*} (wolf : WolfSession β)

def set_serial_cipher_from_name (serial : TlspeekSerial β) (name : Option Bytes) :
    TlspeekSerial β :=
  match name with
  | none => { serial with cipher_suite := Suite.code .AES_256_GCM }
  | some name =>
      if strstr name (ascii "CHACHA20") then
        { serial with cipher_suite := Suite.code .CHACHA20_POLY }
      else if strstr name (ascii "AES-128") then
        { serial with cipher_suite := Suite.code .AES_128_GCM }
      else { serial with cipher_suite := Suite.code .AES_256_GCM }

/-- `export_live_serial` when the calls to wolfSSL succeed; every field is written. -/
def export_live_serial (ssl : Live) : TlspeekSerial β :=
  set_serial_cipher_from_name
    { magic := TLSPEEK_MAGIC
      cipher_suite := 0
      client_write_key := ssl.secrets.client_write_key
      client_write_iv := ssl.secrets.client_write_iv
      read_seq_num := ssl.read_seq
      tls_blob := some (wolf.tls_export ssl) }
    (some wolf.cipher_name)

/-- `tlspeek_restore`. -/
def tlspeek_restore (serial : TlspeekSerial β) : Option Live :=
  if serial.magic ≠ TLSPEEK_MAGIC then none else serial.tls_blob.bind wolf.tls_import

theorem export_live_serial_eq (ssl : Live) :
    export_live_serial wolf ssl =
      { magic := TLSPEEK_MAGIC
        cipher_suite := Suite.code .AES_256_GCM
        client_write_key := ssl.secrets.client_write_key
        client_write_iv := ssl.secrets.client_write_iv
        read_seq_num := ssl.read_seq
        tls_blob := some (wolf.tls_export ssl) } := by
  simp only [export_live_serial, set_serial_cipher_from_name, wolf.not_chacha, wolf.not_aes128,
    Bool.false_eq_true, if_false]

/-- **What was exported comes back.** -/
theorem tlspeek_restore_export (ssl : Live) :
    tlspeek_restore wolf (export_live_serial wolf ssl) = some ssl := by
  rw [export_live_serial_eq]
  unfold tlspeek_restore
  rw [if_neg (by simp)]
  exact wolf.import_export ssl

/-! ## §2. The socket buffer. -/

/-- `tls_record_ready` on an open connection whose receive buffer holds `kernel`. -/
def tls_record_ready (kernel : Bytes) : Int :=
  if kernel = [] then 0
  else if kernel.length < TLSPEEK_HEADER_SIZE then 0
  else
    let record_len := be16 (kernel.getD 3 0) (kernel.getD 4 0)
    if TLSPEEK_MAX_RECORD + TLSPEEK_TAG_SIZE < record_len then -1
    else if TLSPEEK_HEADER_SIZE + record_len ≤ kernel.length then 1 else 0

/-- `tls_read_peek` under the context that a serialised session gives. -/
def peekWith (W : WolfCrypt) (tcp_fd : Int) (serial : TlspeekSerial β) (kernel : Bytes)
    (want : Nat) : Option Bytes :=
  (tlspeek_restore_peek_ctx tcp_fd serial).bind fun ctx => tls_read_peek W ctx kernel want

/-- Records as the client puts them on the wire, the first one numbered `seq`. -/
def Secrets.wire (W : WolfCrypt) (sec : Secrets) (seq : Nat) (rs : List Record) : Bytes :=
  sealRecords W.aesGcm sec.client_write_key.bytes sec.client_write_iv.bytes seq rs

variable (W : WolfCrypt) (sec : Secrets) (seq : Nat)

/-- The length field of a record at the start of the buffer. -/
theorem be16_sealRecord (A : Aead TLSPEEK_TAG_SIZE) (key iv : Bytes) (num : UInt64) {r : Record}
    (hfit : r.Fits) (rest : Bytes) :
    be16 ((sealRecord A key iv num r ++ rest).getD 3 0)
      ((sealRecord A key iv num r ++ rest).getD 4 0) = r.wireLen := by
  have hlen : r.wireLen < 65536 := by
    unfold Record.wireLen
    unfold Record.Fits at hfit
    simp only [TLSPEEK_MAX_RECORD, TLSPEEK_TAG_SIZE] at *
    omega
  exact be16_encode hlen

theorem Record.wireLen_le {r : Record} (hfit : r.Fits) :
    r.wireLen ≤ TLSPEEK_MAX_RECORD + TLSPEEK_TAG_SIZE := by
  unfold Record.wireLen
  unfold Record.Fits at hfit
  omega

/-- A whole record is ready. -/
theorem tls_record_ready_record {r : Record} (hfit : r.Fits) (rs : List Record) (rest : Bytes) :
    tls_record_ready (sec.wire W seq (r :: rs) ++ rest) = 1 := by
  have hsplit : sec.wire W seq (r :: rs) ++ rest
      = sealRecord W.aesGcm sec.client_write_key.bytes sec.client_write_iv.bytes seq.toUInt64 r
        ++ (sec.wire W (seq + 1) rs ++ rest) := by
    simp only [Secrets.wire, sealRecords, List.append_assoc]
  have hrec := length_sealRecord W.aesGcm sec.client_write_key.bytes sec.client_write_iv.bytes
    seq.toUInt64 r
  have hbe := be16_sealRecord W.aesGcm sec.client_write_key.bytes sec.client_write_iv.bytes
    seq.toUInt64 hfit (sec.wire W (seq + 1) rs ++ rest)
  have hle := Record.wireLen_le hfit
  rw [hsplit]
  generalize hbuf : sealRecord W.aesGcm sec.client_write_key.bytes sec.client_write_iv.bytes
    seq.toUInt64 r ++ (sec.wire W (seq + 1) rs ++ rest) = buf at hbe
  have hlen : TLSPEEK_HEADER_SIZE + r.wireLen ≤ buf.length := by
    rw [← hbuf, List.length_append, hrec]
    omega
  have hne : buf ≠ [] := by
    intro e
    rw [e] at hlen
    simp at hlen
  unfold tls_record_ready
  rw [if_neg hne, if_neg (by omega), hbe, if_neg (by omega), if_pos hlen]

/-- A part of a record is not. -/
theorem tls_record_ready_part {r : Record} (hfit : r.Fits) (rs : List Record) {m : Nat}
    (hm : m < TLSPEEK_HEADER_SIZE + r.wireLen) :
    tls_record_ready ((sec.wire W seq (r :: rs)).take m) = 0 := by
  have hrec := length_sealRecord W.aesGcm sec.client_write_key.bytes sec.client_write_iv.bytes
    seq.toUInt64 r
  have hbe := be16_sealRecord W.aesGcm sec.client_write_key.bytes sec.client_write_iv.bytes
    seq.toUInt64 hfit []
  have hcut : (sec.wire W seq (r :: rs)).take m
      = (sealRecord W.aesGcm sec.client_write_key.bytes sec.client_write_iv.bytes
          seq.toUInt64 r).take m := by
    unfold Secrets.wire sealRecords
    exact List.take_append_of_le_length (by omega)
  rw [hcut]
  generalize sealRecord W.aesGcm sec.client_write_key.bytes sec.client_write_iv.bytes
    seq.toUInt64 r = buf at hrec hbe
  rw [List.append_nil] at hbe
  have hlen : (buf.take m).length = m := by
    rw [List.length_take]
    omega
  unfold tls_record_ready
  split
  · rfl
  · rw [hlen]
    split
    · rfl
    next hm5 =>
      -- the header is there, and it says that more has to come
      have hget : ∀ i, i < 5 → (buf.take m).getD i 0 = buf.getD i 0 := by
        intro i hi
        simp only [TLSPEEK_HEADER_SIZE] at hm5
        exact getD_take (by omega)
      have hle := Record.wireLen_le hfit
      rw [hget 3 (by decide), hget 4 (by decide), hbe, if_neg (by omega), if_neg (by omega)]

/-- **A peek under an exported session shows the first record**, when the session's keys
seal the records and its number is the first one's. -/
theorem peekWith_export {ssl : Live} {r : Record} (hfit : r.Fits) (rs : List Record)
    (rest : Bytes) (fd : Nat) {want : Nat} (hwant : 0 < want) (hsec : ssl.secrets = sec)
    (hseq : ssl.read_seq = seq.toUInt64) :
    peekWith W fd (export_live_serial wolf ssl) (sec.wire W seq (r :: rs) ++ rest) want
      = some (r.peeked.take want) := by
  subst hsec
  have hrestore : ∃ ctx, tlspeek_restore_peek_ctx fd (export_live_serial wolf ssl) = some ctx
      ∧ ctx.keys_ready = true ∧ ctx.cipher_suite = Suite.code .AES_256_GCM
      ∧ ctx.client_write_key = ssl.secrets.client_write_key
      ∧ ctx.client_write_iv = ssl.secrets.client_write_iv
      ∧ ctx.read_seq_num = seq.toUInt64 := by
    rw [export_live_serial_eq]
    unfold tlspeek_restore_peek_ctx
    rw [if_neg (by simp)]
    exact ⟨_, rfl, rfl, rfl, rfl, rfl, hseq⟩
  obtain ⟨ctx, hctx, hready, hsuite, hkey, hiv, hnum⟩ := hrestore
  have hpeek := tls_read_peek_sealRecord W ctx .AES_256_GCM r
    (ssl.secrets.wire W (seq + 1) rs ++ rest) want hfit hready hsuite hwant
  rw [hkey, hiv, hnum] at hpeek
  have hsplit : ssl.secrets.wire W seq (r :: rs) ++ rest
      = sealRecord W.aesGcm ssl.secrets.client_write_key.bytes ssl.secrets.client_write_iv.bytes
          seq.toUInt64 r ++ (ssl.secrets.wire W (seq + 1) rs ++ rest) := by
    simp only [Secrets.wire, sealRecords, List.append_assoc]
  unfold peekWith
  rw [hctx, hsplit]
  exact hpeek

/-! ## §3. The way back. -/

/-- A record on the way to the client. -/
structure Sealed where
  key : Area TLSPEEK_KEY_SIZE
  iv : Area TLSPEEK_IV_SIZE
  seq : UInt64
  content : Bytes

/-- `wolfSSL_write` of `d`. -/
def Live.seal (ssl : Live) (d : Bytes) : Sealed :=
  ⟨ssl.secrets.server_write_key, ssl.secrets.server_write_iv, ssl.write_seq, d⟩

/-- The client's record layer: exactly the record with its keys and its next number opens. -/
def Sealed.opened (x : Sealed) (sec : Secrets) (seq : UInt64) : Option Bytes :=
  if x.key = sec.server_write_key ∧ x.iv = sec.server_write_iv ∧ x.seq = seq then some x.content
  else none

theorem Live.opened_seal (ssl : Live) (d : Bytes) :
    (ssl.seal d).opened ssl.secrets ssl.write_seq = some d := by
  unfold Sealed.opened
  exact if_pos ⟨rfl, rfl, rfl⟩

/-- A session without secrets, for which wolfSSL's export is the session itself. -/
def plainSession : WolfSession Live where
  tls_export ssl := ssl
  tls_import ssl := some ssl
  import_export _ := rfl
  cipher_name := ascii "TLS_AES_256_GCM_SHA384"
  not_chacha := by decide +kernel
  not_aes128 := by decide +kernel

def zeroSecrets : Secrets := ⟨Area.zero _, Area.zero _, Area.zero _, Area.zero _⟩

end TlsMigration.Migration
