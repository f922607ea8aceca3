/-
  TlsMigration.Tlspeek.Crypto
  ───────────────────────────
  The cryptographic helpers of libtlspeek (libtlspeek/lib/tlspeek_crypto.c):
  the per-record nonce, the HkdfLabel, and the two AEAD entry points.

  wolfCrypt itself is a parameter: two AEAD schemes and HKDF-Expand, which
  may fail.  What the helpers fix is the ARGUMENTS of those calls, and that
  is what the rest of the development reasons about.
-/
import TlsMigration.Tlspeek.Context
import TlsMigration.Lib.Aead

namespace TlsMigration.Tlspeek

/-! ## §1. The record nonce. -/

/-- Byte `i` of a sequence number, the least significant first. -/
def seqByte (seq_num : UInt64) (i : Nat) : UInt8 :=
  ((seq_num >>> (8 * i).toUInt64) &&& 0xFF).toUInt8

/-- `tls13_compute_nonce`: start from the IV and XOR byte `i` of the sequence
number into place `11 - i`, for `i = 0 … 7`. -/
def tls13_compute_nonce (iv : Bytes) (seq_num : UInt64) : Bytes :=
  (List.range 8).foldl
    (fun nonce_out i =>
      nonce_out.set (11 - i) (nonce_out.getD (11 - i) 0 ^^^ seqByte seq_num i))
    (iv.take 12)

/-- The sequence number big-endian, left-padded with zeros to 12 bytes. -/
def paddedSeq (seq_num : UInt64) : Bytes :=
  [0, 0, 0, 0] ++ (List.range 8).map fun i => seqByte seq_num (7 - i)

/-- **The nonce is the IV XOR the padded sequence number.** -/
theorem tls13_compute_nonce_eq (iv : Area TLSPEEK_IV_SIZE) (seq_num : UInt64) :
    tls13_compute_nonce iv.bytes seq_num
      = List.zipWith (· ^^^ ·) iv.bytes (paddedSeq seq_num) := by
  obtain ⟨bytes, hlen⟩ := iv
  match bytes, hlen with
  | [b0, b1, b2, b3, b4, b5, b6, b7, b8, b9, b10, b11], _ =>
      simp [tls13_compute_nonce, paddedSeq, List.range_succ]

/-! ## §2. HKDF-Expand-Label. -/

inductive HashAlgo where
  | SHA256
  | SHA384
  deriving DecidableEq, Repr

/-- `wc_HKDF_Expand(type, key, info, out)`: the output fills the requested
length, or the call fails. -/
abbrev HkdfExpand := HashAlgo → (secret info : Bytes) → (n : Nat) → Option (Area n)

/-- The HkdfLabel that `tls13_hkdf_expand_label` builds in its 600-byte buffer. -/
def hkdf_label (out_len : Nat) (label context : Bytes) : Bytes :=
  [(out_len / 256).toUInt8, out_len.toUInt8]
    ++ ((6 + label.length).toUInt8 :: ascii "tls13 " ++ label)
    ++ (context.length.toUInt8 :: context)

/-- `tls13_hkdf_expand_label`. -/
def tls13_hkdf_expand_label (wc_HKDF_Expand : HkdfExpand) (secret label context : Bytes)
    (out_len : Nat) (hash_algo : HashAlgo) : Option (Area out_len) :=
  wc_HKDF_Expand hash_algo secret (hkdf_label out_len label context) out_len

/-! ## §3. The AEAD calls. -/

/-- wolfCrypt's two AEAD families; the AES key length is the key's own. -/
structure WolfCrypt where
  aesGcm : Aead TLSPEEK_TAG_SIZE
  chacha20Poly1305 : Aead TLSPEEK_TAG_SIZE

inductive AeadAlg where
  | aesGcm
  | chacha20Poly1305
  deriving DecidableEq, Repr

def WolfCrypt.scheme (W : WolfCrypt) : AeadAlg → Aead TLSPEEK_TAG_SIZE
  | .aesGcm => W.aesGcm
  | .chacha20Poly1305 => W.chacha20Poly1305

/-- The arguments one decryption call hands to wolfCrypt. -/
structure AeadCall where
  alg : AeadAlg
  key : Bytes
  nonce : Bytes
  aad : Bytes
  ciphertext : Bytes
  auth_tag : Bytes

def WolfCrypt.decrypt (W : WolfCrypt) (c : AeadCall) : Option Bytes :=
  (W.scheme c.alg).opened c.key c.nonce c.aad c.ciphertext c.auth_tag

/-- `aead_aes_gcm_decrypt`: `wc_AesGcmSetKey(&aes, key, 32)`, whatever the suite. -/
def aead_aes_gcm_decrypt (key nonce aad ciphertext auth_tag : Bytes) : AeadCall :=
  ⟨.aesGcm, key.take 32, nonce.take 12, aad, ciphertext, auth_tag.take 16⟩

/-- `aead_chacha20_poly1305_decrypt`: 32 key bytes, 12 nonce bytes. -/
def aead_chacha20_poly1305_decrypt (key nonce aad ciphertext auth_tag : Bytes) : AeadCall :=
  ⟨.chacha20Poly1305, key.take 32, nonce.take 12, aad, ciphertext, auth_tag.take 16⟩

end TlsMigration.Tlspeek
