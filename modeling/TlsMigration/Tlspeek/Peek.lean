/-
  TlsMigration.Tlspeek.Peek
  ─────────────────────────
  **`tls_read_peek`: STATELESS DECRYPTION OF THE FIRST BUFFERED RECORD**
  (libtlspeek/lib/tlspeek.c).

  The function is split where the source has its sub-steps: `peekCall`
  parses the header and fixes the arguments of the one AEAD call (2a–2d),
  `tls_read_peek` runs that call and strips the inner plaintext (2e).

  Main results:
    • `peekCall_sealRecord`   — on a sealed record the call gets exactly the
      peer's nonce, additional data, ciphertext and tag;
    • `tls_read_peek_sealRecord` — the bytes a peek stores;
    • `tls_read_peek_strips_iff` — they are the record's content exactly
      when the record carries no padding or the buffer ends before it.
-/
import TlsMigration.Tlspeek.Record

namespace TlsMigration.Tlspeek

/-! ## §1. The model. -/

/-- Size of the stack buffer `raw`. -/
def rawSize : Nat := TLSPEEK_HEADER_SIZE + TLSPEEK_MAX_RECORD + TLSPEEK_TAG_SIZE

/-- Header parsing, nonce, and the choice of the AEAD call; `none` is each of
the early `return -1`. -/
def peekCall (ctx : TlspeekCtx) (raw : Bytes) : Option AeadCall :=
  if raw.length < TLSPEEK_HEADER_SIZE then none
  else
    let record_type := raw.getD 0 0
    let record_len := be16 (raw.getD 3 0) (raw.getD 4 0)
    if record_type ≠ 0x17 then none
    else if raw.length < TLSPEEK_HEADER_SIZE + record_len then none
    else if record_len ≤ TLSPEEK_TAG_SIZE then none
    else
      let nonce := tls13_compute_nonce ctx.client_write_iv.bytes ctx.read_seq_num
      let ct_len := record_len - TLSPEEK_TAG_SIZE
      let ciphertext := (raw.drop TLSPEEK_HEADER_SIZE).take ct_len
      let auth_tag := (raw.drop (TLSPEEK_HEADER_SIZE + ct_len)).take TLSPEEK_TAG_SIZE
      let aad := raw.take TLSPEEK_HEADER_SIZE
      match Suite.ofCode ctx.cipher_suite with
      | some .AES_256_GCM | some .AES_128_GCM =>
          some (aead_aes_gcm_decrypt ctx.client_write_key.bytes nonce aad ciphertext auth_tag)
      | some .CHACHA20_POLY =>
          some (aead_chacha20_poly1305_decrypt ctx.client_write_key.bytes nonce aad
            ciphertext auth_tag)
      | none => none

/-- `tls_read_peek(ctx, buf, size)` on a socket whose receive buffer holds
`kernel`: `none` is `-1`, `some b` stores `b` at the start of `buf` and returns
`|b|`.  `MSG_PEEK` leaves `kernel` as it is. -/
def tls_read_peek (W : WolfCrypt) (ctx : TlspeekCtx) (kernel : Bytes) (size : Nat) :
    Option Bytes :=
  if size = 0 ∨ ctx.keys_ready = false then none
  else
    let raw := kernel.take rawSize
    if raw = [] then none
    else
      match peekCall ctx raw with
      | none => none
      | some call =>
          match W.decrypt call with
          | none => none
          | some plaintext =>
              let plaintext_len := call.ciphertext.length - 1
              let copy_len := min plaintext_len size
              some (plaintext.take copy_len)

/-- What a peek treats as the record's plaintext: the inner plaintext without
its last byte (the whole of sub-step 2e). -/
def Record.peeked (r : Record) : Bytes := r.inner.dropLast

/-- Without padding the last byte is the content type. -/
theorem Record.peeked_of_unpadded {r : Record} (h : r.pad = 0) : r.peeked = r.content := by
  simp [Record.peeked, Record.inner, h]

/-- Behind the content a padded record shows its type byte. -/
theorem Record.peeked_of_padded {r : Record} {k : Nat} (h : r.pad = k + 1) :
    r.peeked = r.content ++ 0x17 :: List.replicate k 0 := by
  have hinner : r.inner = (r.content ++ 0x17 :: List.replicate k 0) ++ [0] := by
    simp [Record.inner, h, List.replicate_succ']
  rw [Record.peeked, hinner, List.dropLast_concat]

/-- The content always comes first. -/
theorem Record.content_prefix_peeked (r : Record) : r.content <+: r.peeked := by
  cases hp : r.pad with
  | zero => exact (Record.peeked_of_unpadded hp).symm ▸ List.prefix_rfl
  | succ k => exact ⟨_, (Record.peeked_of_padded hp).symm⟩

/-! ## §2. The call made on a sealed record. -/

section Sealed

variable (A : Aead TLSPEEK_TAG_SIZE) (key : Bytes) (iv : Area TLSPEEK_IV_SIZE)
  (seq : UInt64) (r : Record) (rest : Bytes)

/-- The first `n` bytes of a string that starts with `n` known bytes. -/
theorem take_append_take (l₁ l₂ : Bytes) (n : Nat) (h : l₁.length ≤ n) :
    (l₁ ++ l₂).take n = l₁ ++ l₂.take (n - l₁.length) := by
  rw [List.take_append, List.take_of_length_le h]

/-- The peek reads the whole first record, and perhaps bytes behind it. -/
theorem take_sealRecord (hfit : r.Fits) :
    (sealRecord A key iv.bytes seq r ++ rest).take rawSize
      = sealRecord A key iv.bytes seq r
          ++ rest.take (rawSize - (TLSPEEK_HEADER_SIZE + r.wireLen)) := by
  have hlen := length_sealRecord A key iv.bytes seq r
  have hw : r.wireLen ≤ TLSPEEK_MAX_RECORD + TLSPEEK_TAG_SIZE := by
    unfold Record.wireLen
    unfold Record.Fits at hfit
    omega
  rw [take_append_take, hlen]
  rw [hlen]
  unfold rawSize
  omega

/-- The AEAD call a peek makes with the context's key on a record that some
peer sealed (under any key) with the context's IV and sequence number. -/
def sealedCall (suite : Suite) (ctxKey : Bytes) : AeadCall :=
  let ct := A.sealed key (recordNonce iv.bytes seq) (recordHeader r.wireLen) r.inner
  { alg := match suite with
      | .CHACHA20_POLY => .chacha20Poly1305
      | .AES_128_GCM | .AES_256_GCM => .aesGcm
    key := ctxKey
    nonce := recordNonce iv.bytes seq
    aad := recordHeader r.wireLen
    ciphertext := ct.1
    auth_tag := ct.2 }

theorem peekCall_sealRecord (suite : Suite) (ctx : TlspeekCtx) (hfit : r.Fits)
    (hiv : ctx.client_write_iv = iv) (hseq : ctx.read_seq_num = seq)
    (hsuite : ctx.cipher_suite = suite.code) :
    peekCall ctx (sealRecord A key iv.bytes seq r ++ rest)
      = some (sealedCall A key iv seq r suite ctx.client_write_key.bytes) := by
  subst hiv hseq
  have hlen := length_sealRecord A key ctx.client_write_iv.bytes ctx.read_seq_num r
  have hw : r.wireLen < 65536 := by
    unfold Record.wireLen
    unfold Record.Fits at hfit
    simp only [TLSPEEK_MAX_RECORD, TLSPEEK_TAG_SIZE] at *
    omega
  have hwpos : ¬ r.wireLen ≤ TLSPEEK_TAG_SIZE := by
    unfold Record.wireLen
    rw [Record.length_inner]
    omega
  have hnonce : tls13_compute_nonce ctx.client_write_iv.bytes ctx.read_seq_num
      = recordNonce ctx.client_write_iv.bytes ctx.read_seq_num :=
    tls13_compute_nonce_eq _ _
  have hnlen : (recordNonce ctx.client_write_iv.bytes ctx.read_seq_num).length = 12 := by
    simp [recordNonce, paddedSeq]
  set ct := A.sealed key (recordNonce ctx.client_write_iv.bytes ctx.read_seq_num)
    (recordHeader r.wireLen) r.inner with hct
  have hc : ct.1.length = r.wireLen - TLSPEEK_TAG_SIZE := by
    rw [hct, A.length_ciphertext]
    simp [Record.wireLen]
  have ht : ct.2.length = 16 := by
    rw [hct, A.length_tag]
    rfl
  have hwire : sealRecord A key ctx.client_write_iv.bytes ctx.read_seq_num r ++ rest
      = recordHeader r.wireLen ++ (ct.1 ++ (ct.2 ++ rest)) := by
    simp [sealRecord, hct]
  have htype : (recordHeader r.wireLen ++ (ct.1 ++ (ct.2 ++ rest))).getD 0 0 = 0x17 := rfl
  have hbe : be16 ((recordHeader r.wireLen ++ (ct.1 ++ (ct.2 ++ rest))).getD 3 0)
      ((recordHeader r.wireLen ++ (ct.1 ++ (ct.2 ++ rest))).getD 4 0) = r.wireLen :=
    be16_encode hw
  have hkey : ctx.client_write_key.bytes.take 32 = ctx.client_write_key.bytes :=
    List.take_of_length_le (by simp)
  have h₁ : ¬ (recordHeader r.wireLen ++ (ct.1 ++ (ct.2 ++ rest))).length
      < TLSPEEK_HEADER_SIZE := by simp
  have h₂ : ¬ (recordHeader r.wireLen ++ (ct.1 ++ (ct.2 ++ rest))).length
      < TLSPEEK_HEADER_SIZE + r.wireLen := by
    simp only [List.length_append, length_recordHeader, hc, ht, TLSPEEK_HEADER_SIZE,
      TLSPEEK_TAG_SIZE] at *
    omega
  have hcipher : ((recordHeader r.wireLen ++ (ct.1 ++ (ct.2 ++ rest))).drop
      TLSPEEK_HEADER_SIZE).take (r.wireLen - TLSPEEK_TAG_SIZE) = ct.1 := by
    rw [← hc]
    simp [recordHeader]
  have htag : ((recordHeader r.wireLen ++ (ct.1 ++ (ct.2 ++ rest))).drop
      (TLSPEEK_HEADER_SIZE + (r.wireLen - TLSPEEK_TAG_SIZE))).take TLSPEEK_TAG_SIZE = ct.2 := by
    rw [← hc, ← List.drop_drop]
    simp [recordHeader, ← ht]
  have haad : (recordHeader r.wireLen ++ (ct.1 ++ (ct.2 ++ rest))).take TLSPEEK_HEADER_SIZE
      = recordHeader r.wireLen := by simp [recordHeader]
  rw [hwire]
  unfold peekCall
  simp only [hbe, htype, h₁, h₂, hwpos, if_false, ne_eq, not_true_eq_false, hsuite,
    Suite.ofCode_code, hnonce, hcipher, htag, haad]
  cases suite <;>
    simp [aead_aes_gcm_decrypt, aead_chacha20_poly1305_decrypt, sealedCall, hkey, ← hct,
      List.take_of_length_le, hnlen, ht]

end Sealed

/-! ## §3. What a peek stores. -/

/-- The AEAD family a suite number selects. -/
def Suite.alg : Suite → AeadAlg
  | .CHACHA20_POLY => .chacha20Poly1305
  | .AES_128_GCM | .AES_256_GCM => .aesGcm

theorem sealedCall_alg (A : Aead TLSPEEK_TAG_SIZE) (key : Bytes) (iv : Area TLSPEEK_IV_SIZE)
    (seq : UInt64) (r : Record) (suite : Suite) (ctxKey : Bytes) :
    (sealedCall A key iv seq r suite ctxKey).alg = suite.alg := by
  cases suite <;> rfl

/-- A call with the sealing key returns the inner plaintext. -/
theorem decrypt_sealedCall (W : WolfCrypt) (key : Bytes) (iv : Area TLSPEEK_IV_SIZE)
    (seq : UInt64) (r : Record) (suite : Suite) :
    W.decrypt (sealedCall (W.scheme suite.alg) key iv seq r suite key) = some r.inner := by
  unfold WolfCrypt.decrypt
  rw [sealedCall_alg]
  exact (W.scheme suite.alg).opened_sealed _ _ _ _

/-- **A peek of the first buffered record** sealed under the context's key, IV
and sequence number returns the first `size` bytes of its peeked plaintext,
whatever follows the record in the kernel buffer. -/
theorem tls_read_peek_sealRecord (W : WolfCrypt) (ctx : TlspeekCtx) (suite : Suite)
    (r : Record) (rest : Bytes) (size : Nat) (hfit : r.Fits)
    (hready : ctx.keys_ready = true) (hsuite : ctx.cipher_suite = suite.code)
    (hsize : 0 < size) :
    tls_read_peek W ctx
        (sealRecord (W.scheme suite.alg) ctx.client_write_key.bytes ctx.client_write_iv.bytes
          ctx.read_seq_num r ++ rest) size
      = some (r.peeked.take size) := by
  have hcall := peekCall_sealRecord (W.scheme suite.alg) ctx.client_write_key.bytes
    ctx.client_write_iv ctx.read_seq_num r
    (rest.take (rawSize - (TLSPEEK_HEADER_SIZE + r.wireLen))) suite ctx hfit rfl rfl hsuite
  have hdec := decrypt_sealedCall W ctx.client_write_key.bytes ctx.client_write_iv
    ctx.read_seq_num r suite
  have hclen : (sealedCall (W.scheme suite.alg) ctx.client_write_key.bytes ctx.client_write_iv
      ctx.read_seq_num r suite ctx.client_write_key.bytes).ciphertext.length
        = r.inner.length := (W.scheme suite.alg).length_ciphertext _ _ _ _
  have hne : ¬ (sealRecord (W.scheme suite.alg) ctx.client_write_key.bytes
      ctx.client_write_iv.bytes ctx.read_seq_num r
        ++ rest.take (rawSize - (TLSPEEK_HEADER_SIZE + r.wireLen)) = []) := by
    intro h
    have := congrArg List.length h
    rw [List.length_append, length_sealRecord] at this
    simp at this
  unfold tls_read_peek
  rw [if_neg (by simp [hready]; omega), take_sealRecord _ _ _ _ _ _ hfit]
  simp only [hne, if_false, hcall, hdec, hclen, Option.some.injEq]
  rw [Record.peeked, List.dropLast_eq_take, List.take_take, Nat.min_comm]

/-- Cutting a longer string at `size` gives the cut of its beginning exactly when
the cut falls inside that beginning or nothing follows it. -/
theorem take_append_eq_take_iff (c t : Bytes) (size : Nat) :
    (c ++ t).take size = c.take size ↔ t = [] ∨ size ≤ c.length := by
  constructor
  · intro h
    by_cases hs : size ≤ c.length
    · exact Or.inr hs
    · left
      have hlen := congrArg List.length h
      simp only [List.length_take, List.length_append] at hlen
      exact List.length_eq_zero_iff.mp (by omega)
  · rintro (ht | hs)
    · rw [ht, List.append_nil]
    · exact List.take_append_of_le_length hs

theorem peeked_take_iff (r : Record) (size : Nat) :
    r.peeked.take size = r.content.take size ↔ r.pad = 0 ∨ size ≤ r.content.length := by
  cases hp : r.pad with
  | zero => simp [Record.peeked_of_unpadded hp]
  | succ k =>
      rw [Record.peeked_of_padded hp, take_append_eq_take_iff]
      simp

/-- **When a peek is record deprotection.**  For an AES-256-GCM record of any
content, padding, sequence number, IV and key, any bytes behind it and any
buffer size, `tls_read_peek` returns `min(size, |content|)` and stores exactly
that many bytes of the content if and only if the buffer is not empty and the
record is unpadded or the buffer is filled by the content. -/
theorem tls_read_peek_strips_iff (W : WolfCrypt) (ctx : TlspeekCtx) (r : Record)
    (rest : Bytes) (size : Nat) (hfit : r.Fits)
    (hready : ctx.keys_ready = true)
    (hsuite : ctx.cipher_suite = Suite.code .AES_256_GCM) :
    (∃ stored, tls_read_peek W ctx
        (sealRecord W.aesGcm ctx.client_write_key.bytes ctx.client_write_iv.bytes
          ctx.read_seq_num r ++ rest) size = some stored
        ∧ stored.length = min size r.content.length
        ∧ stored = r.content.take (min size r.content.length))
      ↔ 0 < size ∧ (r.pad = 0 ∨ size ≤ r.content.length) := by
  by_cases hsize : 0 < size
  · have hpeek := tls_read_peek_sealRecord W ctx .AES_256_GCM r rest size hfit hready
      hsuite hsize
    have hcut : r.content.take (min size r.content.length) = r.content.take size := by
      rw [← List.take_eq_take_min]
    rw [show W.scheme Suite.AES_256_GCM.alg = W.aesGcm from rfl] at hpeek
    simp only [hpeek, hcut, hsize, true_and, ← peeked_take_iff]
    constructor
    · rintro ⟨stored, hs, -, hstored⟩
      injection hs with hs
      rw [hs, hstored]
    · intro h
      exact ⟨_, rfl, by rw [h, List.length_take], h⟩
  · have hzero : size = 0 := by omega
    simp [tls_read_peek, hzero]

/-- A ready AES-256-GCM context with an all-zero key and IV. -/
def zeroKeyCtx : TlspeekCtx :=
  { TlspeekCtx.zero with cipher_suite := Suite.code .AES_256_GCM, keys_ready := true }

/-- wolfCrypt with the plain schemes in place of the ciphers. -/
def plainCrypt : WolfCrypt := ⟨Aead.plain 16, Aead.plain 16⟩

/-- A buffer with room for the content, and more bytes behind the record. -/
theorem tls_read_peek_strips_iff_unpadded :
    ∃ stored, tls_read_peek plainCrypt zeroKeyCtx
        (sealRecord plainCrypt.aesGcm zeroKeyCtx.client_write_key.bytes
          zeroKeyCtx.client_write_iv.bytes zeroKeyCtx.read_seq_num
          ⟨ascii "GET /", 0⟩ ++ ascii "more") 64 = some stored
      ∧ stored.length = 5 ∧ stored = ascii "GET /" :=
  (tls_read_peek_strips_iff plainCrypt zeroKeyCtx ⟨ascii "GET /", 0⟩ (ascii "more") 64
    (by decide) rfl rfl).mpr ⟨by decide, Or.inl rfl⟩

/-- A record with one byte of padding. -/
def paddedHi : Bytes :=
  sealRecord plainCrypt.aesGcm zeroKeyCtx.client_write_key.bytes zeroKeyCtx.client_write_iv.bytes
    zeroKeyCtx.read_seq_num ⟨ascii "hi", 1⟩

/-- One byte of padding is enough: the type byte is returned as content. -/
theorem tls_read_peek_padded_not_content :
    tls_read_peek plainCrypt zeroKeyCtx paddedHi 64 = some (ascii "hi" ++ [0x17])
      ∧ ¬ ∃ stored, tls_read_peek plainCrypt zeroKeyCtx paddedHi 64 = some stored
        ∧ stored.length = min 64 (ascii "hi").length
        ∧ stored = (ascii "hi").take (min 64 (ascii "hi").length) := by
  have hrun : tls_read_peek plainCrypt zeroKeyCtx paddedHi 64
      = some (ascii "hi" ++ [0x17]) := by decide
  refine ⟨hrun, ?_⟩
  rintro ⟨stored, hpeek, hlen, -⟩
  rw [hrun] at hpeek
  injection hpeek with hpeek
  rw [← hpeek] at hlen
  exact absurd hlen (by decide)

end TlsMigration.Tlspeek
