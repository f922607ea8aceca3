/-
  TlsMigration.Tlspeek.Context
  ────────────────────────────
  The data of libtlspeek: sizes, suite numbers, the live context of one
  connection (`tlspeek_ctx_t`) and its wire form (`tlspeek_serial_t`)
  (libtlspeek/lib/tlspeek.h).

  Pointers are left out where no modelled function follows them (the
  `WOLFSSL *` of the context); the exported session blob is kept as the
  value wolfSSL wrote.
-/
import TlsMigration.Lib.Area

namespace TlsMigration.Tlspeek

/-! ## §1. Constants. -/

@[simp] def TLSPEEK_KEY_SIZE : Nat := 32
@[simp] def TLSPEEK_IV_SIZE : Nat := 12
@[simp] def TLSPEEK_TAG_SIZE : Nat := 16
@[simp] def TLSPEEK_MAX_RECORD : Nat := 16640
@[simp] def TLSPEEK_HEADER_SIZE : Nat := 5
def TLSPEEK_MAGIC : UInt32 := 0x544C5350

/-- The three suites of `tlspeek_cipher_t`. -/
inductive Suite where
  | AES_128_GCM
  | AES_256_GCM
  | CHACHA20_POLY
  deriving DecidableEq, Repr

/-- The IANA number, the value the enumeration constant has in C. -/
def Suite.code : Suite → UInt32
  | .AES_128_GCM => 0x1301
  | .AES_256_GCM => 0x1302
  | .CHACHA20_POLY => 0x1303

/-- The suite a stored number stands for; a zeroed context holds none. -/
def Suite.ofCode (n : UInt32) : Option Suite :=
  if n = Suite.code .AES_128_GCM then some .AES_128_GCM
  else if n = Suite.code .AES_256_GCM then some .AES_256_GCM
  else if n = Suite.code .CHACHA20_POLY then some .CHACHA20_POLY
  else none

@[simp] theorem Suite.ofCode_code (s : Suite) : Suite.ofCode s.code = some s := by
  cases s <;> decide

theorem Suite.code_inj {s t : Suite} (h : s.code = t.code) : s = t := by
  have := congrArg Suite.ofCode h
  simpa using this

/-! ## §2. The live context. -/

/-- `tlspeek_ctx_t`. -/
structure TlspeekCtx where
  client_write_key : Area TLSPEEK_KEY_SIZE
  server_write_key : Area TLSPEEK_KEY_SIZE
  client_write_iv : Area TLSPEEK_IV_SIZE
  server_write_iv : Area TLSPEEK_IV_SIZE
  read_seq_num : UInt64
  write_seq_num : UInt64
  cipher_suite : UInt32
  tcp_fd : Int
  keys_ready : Bool

/-- `memset(&ctx, 0, sizeof ctx)`. -/
def TlspeekCtx.zero : TlspeekCtx where
  client_write_key := Area.zero _
  server_write_key := Area.zero _
  client_write_iv := Area.zero _
  server_write_iv := Area.zero _
  read_seq_num := 0
  write_seq_num := 0
  cipher_suite := 0
  tcp_fd := 0
  keys_ready := false

/-! ## §3. The exported session. -/

/-- `tlspeek_serial_t`, with the exported session `tls_blob[0..blob_sz)` as a
value of `β`; `none` is `blob_sz = 0`. -/
structure TlspeekSerial (β : Type*) where
  magic : UInt32
  cipher_suite : UInt32
  client_write_key : Area TLSPEEK_KEY_SIZE
  client_write_iv : Area TLSPEEK_IV_SIZE
  read_seq_num : UInt64
  tls_blob : Option β

/-- `tlspeek_restore_peek_ctx`: the minimal context of a stateless peek. -/
def tlspeek_restore_peek_ctx {β : Type*} (tcp_fd : Int) (serial : TlspeekSerial β) :
    Option TlspeekCtx :=
  if serial.magic ≠ TLSPEEK_MAGIC ∨ tcp_fd < 0 then none
  else some
    { TlspeekCtx.zero with
      client_write_key := serial.client_write_key
      client_write_iv := serial.client_write_iv
      read_seq_num := serial.read_seq_num
      cipher_suite := serial.cipher_suite
      tcp_fd := tcp_fd
      keys_ready := true }

end TlsMigration.Tlspeek
