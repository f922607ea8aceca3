/-
  TlsMigration.Tlspeek.Record
  ───────────────────────────
  **THE OTHER END OF THE WIRE: RFC 8446 RECORD PROTECTION.**

  What a TLS 1.3 peer sends, stated independently of the code that peeks at
  it: TLSInnerPlaintext = content ‖ type ‖ 0^k, sealed under the nonce of its
  sequence number with the 5-byte record header as additional data.  A
  direction of a connection is a list of records with consecutive numbers.
-/
import TlsMigration.Tlspeek.Crypto

namespace TlsMigration.Tlspeek

/-! ## §1. One record. -/

/-- One application-data record: content and number of padding bytes. -/
structure Record where
  content : Bytes
  pad : Nat
  deriving DecidableEq, Repr

/-- TLSInnerPlaintext with inner type application_data. -/
def Record.inner (r : Record) : Bytes := r.content ++ 0x17 :: List.replicate r.pad 0

/-- The length field of the record: inner plaintext and tag. -/
def Record.wireLen (r : Record) : Nat := r.inner.length + TLSPEEK_TAG_SIZE

/-- The inner plaintext stays within the record limit (2^14 + 256 bytes). -/
def Record.Fits (r : Record) : Prop := r.inner.length ≤ TLSPEEK_MAX_RECORD

instance (r : Record) : Decidable r.Fits := inferInstanceAs (Decidable (_ ≤ _))

theorem Record.length_inner (r : Record) :
    r.inner.length = r.content.length + 1 + r.pad := by
  simp [Record.inner]
  omega

/-- The record header: type 0x17, legacy version 0x0303, length. -/
def recordHeader (len : Nat) : Bytes :=
  [0x17, 0x03, 0x03, (len / 256).toUInt8, len.toUInt8]

@[simp] theorem length_recordHeader (len : Nat) : (recordHeader len).length = 5 := rfl

/-- The RFC 8446 §5.3 nonce. -/
def recordNonce (iv : Bytes) (seq : UInt64) : Bytes :=
  List.zipWith (· ^^^ ·) iv (paddedSeq seq)

/-- A record on the wire: header ‖ ciphertext ‖ tag. -/
def sealRecord (A : Aead TLSPEEK_TAG_SIZE) (key iv : Bytes) (seq : UInt64) (r : Record) :
    Bytes :=
  let ct := A.sealed key (recordNonce iv seq) (recordHeader r.wireLen) r.inner
  recordHeader r.wireLen ++ ct.1 ++ ct.2

theorem length_sealRecord (A : Aead TLSPEEK_TAG_SIZE) (key iv : Bytes) (seq : UInt64)
    (r : Record) : (sealRecord A key iv seq r).length = TLSPEEK_HEADER_SIZE + r.wireLen := by
  simp [sealRecord, Record.wireLen, A.length_ciphertext, A.length_tag]

/-! ## §2. A direction of a connection. -/

/-- Consecutive records on the wire, the first one numbered `seq`. -/
def sealRecords (A : Aead TLSPEEK_TAG_SIZE) (key iv : Bytes) : Nat → List Record → Bytes
  | _, [] => []
  | seq, r :: rs => sealRecord A key iv seq.toUInt64 r ++ sealRecords A key iv (seq + 1) rs

/-! ## §3. The 16-bit length field. -/

/-- `(hi << 8) | lo`. -/
def be16 (hi lo : UInt8) : Nat := hi.toNat <<< 8 ||| lo.toNat

theorem be16_eq (hi lo : UInt8) : be16 hi lo = 256 * hi.toNat + lo.toNat := by
  unfold be16
  rw [← Nat.shiftLeft_add_eq_or_of_lt (by simpa using lo.toNat_lt) hi.toNat,
      Nat.shiftLeft_eq]
  omega

/-- The length field reads back. -/
theorem be16_encode {n : Nat} (h : n < 65536) :
    be16 (n / 256).toUInt8 n.toUInt8 = n := by
  rw [be16_eq]
  simp only [Nat.toUInt8_eq, UInt8.toNat_ofNat']
  omega

end TlsMigration.Tlspeek
