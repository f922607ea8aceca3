/-
  TlsMigration.Tlspeek.Suites
  ───────────────────────────
  **ONE KEY, DECIDED IN THREE PLACES.**

  The key length comes from the size of the secret (`tlspeek_keylog_cb`),
  the suite from a substring of the negotiated cipher name
  (`handle_connection`, libtlspeek/gateway/gateway.c), and the AES key size
  from a constant (`aead_aes_gcm_decrypt`).  A peer, on the other hand,
  seals with the key length RFC 8446 fixes for the suite.

      suite          secret   RFC key   callback derives   AEAD is given
      AES-256-GCM      48        32           32                 32
      AES-128-GCM      32        16           16             16 + 16 zeros
      ChaCha20-Poly    32        32           16             16 + 16 zeros

  `peekUsesSealingKey_iff` is that table as a theorem.
-/
import TlsMigration.Tlspeek.Keylog

namespace TlsMigration.Tlspeek

/-! ## §1. The gateway's suite, and the suites of RFC 8446. -/

/-- `strstr(name, needle) != NULL`. -/
def strstr (name needle : Bytes) : Bool := (firstOcc needle (cstr name)).isSome

/-- The cipher-suite step of `handle_connection`. -/
def set_cipher_from_name (ctx : TlspeekCtx) (cipher_name : Option Bytes) : TlspeekCtx :=
  match cipher_name with
  | none => ctx
  | some name =>
      if strstr name (ascii "CHACHA20") then
        { ctx with cipher_suite := Suite.code .CHACHA20_POLY }
      else if strstr name (ascii "AES-128") then
        { ctx with cipher_suite := Suite.code .AES_128_GCM }
      else { ctx with cipher_suite := Suite.code .AES_256_GCM }

/-- Hash of a suite. -/
def Suite.hash : Suite → HashAlgo
  | .AES_256_GCM => .SHA384
  | .AES_128_GCM | .CHACHA20_POLY => .SHA256

/-- Length of a traffic secret: the output length of the hash. -/
def Suite.secretLen : Suite → Nat
  | .AES_256_GCM => 48
  | .AES_128_GCM | .CHACHA20_POLY => 32

/-- Key length of a suite. -/
def Suite.keyLen : Suite → Nat
  | .AES_128_GCM => 16
  | .AES_256_GCM | .CHACHA20_POLY => 32

/-- HKDF-Expand as a function: it does not fail. -/
abbrev Hkdf := HashAlgo → (secret info : Bytes) → (n : Nat) → Area n

/-- HKDF-Expand-Label(secret, "key", "", n). -/
def labelledKey (hkdf : Hkdf) (h : HashAlgo) (secret : Bytes) (n : Nat) : Area n :=
  hkdf h secret (hkdf_label n (ascii "key") []) n

/-- HKDF-Expand-Label(secret, "iv", "", 12). -/
def labelledIv (hkdf : Hkdf) (h : HashAlgo) (secret : Bytes) : Area TLSPEEK_IV_SIZE :=
  hkdf h secret (hkdf_label TLSPEEK_IV_SIZE (ascii "iv") []) TLSPEEK_IV_SIZE

/-- The key a peer seals with. -/
def sealingKey (hkdf : Hkdf) (s : Suite) (secret : Bytes) : Area s.keyLen :=
  labelledKey hkdf s.hash secret s.keyLen

/-- What the gateway relies on in wolfSSL's cipher names: the ChaCha20 suite is
called CHACHA20-something, the AES-256 suite neither that nor AES-128-something. -/
structure CipherNames (name : Suite → Bytes) : Prop where
  chacha : strstr (name .CHACHA20_POLY) (ascii "CHACHA20") = true
  aes256_not_chacha : strstr (name .AES_256_GCM) (ascii "CHACHA20") = false
  aes256_not_aes128 : strstr (name .AES_256_GCM) (ascii "AES-128") = false

/-! ## §2. The context a gateway peeks with. -/

/-- The callback for one client traffic secret. -/
def clientCall (hkdf : Hkdf) (secret : Bytes) : KeylogCall :=
  ⟨.CLIENT_TRAFFIC_SECRET, some secret, fun h s i n => some (hkdf h s i n)⟩

/-- The context after the callbacks of one handshake and the suite step, set to
peek at record number `seq`. -/
def peekContext (hkdf : Hkdf) (secret name : Bytes) (before after : List KeylogCall)
    (seq : UInt64) : TlspeekCtx :=
  { set_cipher_from_name (runCallbacks (before ++ clientCall hkdf secret :: after)) (some name)
      with read_seq_num := seq }

theorem set_cipher_keeps (ctx : TlspeekCtx) (name : Bytes) :
    (set_cipher_from_name ctx (some name)).client_write_key = ctx.client_write_key
      ∧ (set_cipher_from_name ctx (some name)).client_write_iv = ctx.client_write_iv
      ∧ (set_cipher_from_name ctx (some name)).keys_ready = ctx.keys_ready := by
  unfold set_cipher_from_name
  split
  next => exact ⟨rfl, rfl, rfl⟩
  next =>
    split
    · exact ⟨rfl, rfl, rfl⟩
    · split <;> exact ⟨rfl, rfl, rfl⟩

/-- Callbacks for other secrets leave the client key and IV alone. -/
theorem foldl_keeps_client (calls : List KeylogCall)
    (h : ∀ c ∈ calls, c.id ≠ .CLIENT_TRAFFIC_SECRET) (ctx : TlspeekCtx) :
    (calls.foldl tlspeek_keylog_cb ctx).client_write_key = ctx.client_write_key
      ∧ (calls.foldl tlspeek_keylog_cb ctx).client_write_iv = ctx.client_write_iv := by
  induction calls generalizing ctx with
  | nil => exact ⟨rfl, rfl⟩
  | cons c cs ih =>
      obtain ⟨hk, hi⟩ := ih (fun d hd => h d (List.mem_cons_of_mem _ hd))
        (tlspeek_keylog_cb ctx c)
      rw [List.foldl_cons, hk, hi]
      cases hp : c.params with
      | none => rw [tlspeek_keylog_cb_ignored hp]; exact ⟨rfl, rfl⟩
      | some p => exact (tlspeek_keylog_cb_accepted ctx hp).2.2.1 (h c List.mem_cons_self)

/-- The client call on a zeroed client side: the derived key with zeros behind. -/
theorem clientCall_keys (hkdf : Hkdf) {secret : Bytes} {p : SecretParams} {ctx : TlspeekCtx}
    (hp : secretParams secret.length = some p)
    (hkey : ctx.client_write_key = Area.zero _) :
    (tlspeek_keylog_cb ctx (clientCall hkdf secret)).client_write_key.bytes
        = (labelledKey hkdf p.hash_algo secret p.key_len).bytes
            ++ List.replicate (TLSPEEK_KEY_SIZE - p.key_len) 0
      ∧ (tlspeek_keylog_cb ctx (clientCall hkdf secret)).client_write_iv
          = labelledIv hkdf p.hash_algo secret := by
  have hle := secretParams_key_len hp
  simp only [tlspeek_keylog_cb, clientCall, hp, if_true, derive_keys_from_raw_secret,
    tls13_hkdf_expand_label]
  constructor
  · rw [Area.write_bytes, hkey, List.take_of_length_le (by simpa using hle)]
    simp only [labelledKey, Area.zero, Area.length_eq, List.drop_replicate]
  · exact Area.ext (Area.write_full (Area.length_eq _))

section Peek

variable {hkdf : Hkdf} {s : Suite} {secret : Bytes} {before after : List KeylogCall}

/-- What the size of a suite's secret makes the callback choose. -/
theorem secretParams_of_suite (hlen : secret.length = s.secretLen) :
    ∃ p, secretParams secret.length = some p ∧ p.hash_algo = s.hash
      ∧ p.key_len = if s = .AES_256_GCM then 32 else 16 := by
  rw [hlen]
  cases s
  · exact ⟨_, rfl, rfl, rfl⟩
  · exact ⟨_, rfl, rfl, rfl⟩
  · exact ⟨_, rfl, rfl, rfl⟩

variable (hkdf s) in
/-- Client key, IV and readiness of the context the gateway peeks with. -/
theorem peekContext_fields (hlen : secret.length = s.secretLen)
    (hbefore : ∀ c ∈ before, c.id ≠ .CLIENT_TRAFFIC_SECRET)
    (hafter : ∀ c ∈ after, c.id ≠ .CLIENT_TRAFFIC_SECRET) (name : Bytes) (seq : UInt64) :
    (peekContext hkdf secret name before after seq).client_write_key.bytes
        = (labelledKey hkdf s.hash secret (if s = .AES_256_GCM then 32 else 16)).bytes
            ++ List.replicate (if s = .AES_256_GCM then 0 else 16) 0
      ∧ (peekContext hkdf secret name before after seq).client_write_iv
          = labelledIv hkdf s.hash secret
      ∧ (peekContext hkdf secret name before after seq).keys_ready
          = (runCallbacks (before ++ clientCall hkdf secret :: after)).keys_ready := by
  obtain ⟨p, hp, hhash, hkl⟩ := secretParams_of_suite (s := s) hlen
  obtain ⟨hk, hi, hr⟩ := set_cipher_keeps
    (runCallbacks (before ++ clientCall hkdf secret :: after)) name
  have hzero := (foldl_keeps_client before hbefore TlspeekCtx.zero).1
  obtain ⟨hkey, hiv⟩ := clientCall_keys hkdf hp hzero
  obtain ⟨hka, hia⟩ := foldl_keeps_client after hafter
    (tlspeek_keylog_cb (before.foldl tlspeek_keylog_cb TlspeekCtx.zero)
      (clientCall hkdf secret))
  have hrun : runCallbacks (before ++ clientCall hkdf secret :: after)
      = after.foldl tlspeek_keylog_cb (tlspeek_keylog_cb
          (before.foldl tlspeek_keylog_cb TlspeekCtx.zero) (clientCall hkdf secret)) := by
    simp [runCallbacks]
  refine ⟨?_, ?_, hr⟩
  · show (set_cipher_from_name _ _).client_write_key.bytes = _
    rw [hk, hrun, hka, hkey, hhash, hkl]
    split <;> rfl
  · show (set_cipher_from_name _ _).client_write_iv = _
    rw [hi, hrun, hia, hiv, hhash]

variable (hkdf s secret before after) in
/-- The suite number after the name step selects the AEAD of the negotiated suite,
except that AES-128 may be taken for AES-256. -/
theorem peekContext_suite {name : Suite → Bytes} (hnames : CipherNames name)
    (seq : UInt64) :
    ∃ t : Suite, (peekContext hkdf secret (name s) before after seq).cipher_suite = t.code
      ∧ (s ≠ .AES_128_GCM → t = s) := by
  unfold peekContext set_cipher_from_name
  cases s with
  | AES_128_GCM =>
      simp only
      split
      · exact ⟨.CHACHA20_POLY, rfl, fun h => absurd rfl h⟩
      · split
        · exact ⟨.AES_128_GCM, rfl, fun h => absurd rfl h⟩
        · exact ⟨.AES_256_GCM, rfl, fun h => absurd rfl h⟩
  | AES_256_GCM =>
      simp only [hnames.aes256_not_chacha, hnames.aes256_not_aes128]
      exact ⟨_, rfl, fun _ => rfl⟩
  | CHACHA20_POLY =>
      simp only [hnames.chacha, if_true]
      exact ⟨_, rfl, fun _ => rfl⟩

/-! ## §3. The table. -/

/-- Record number `seq` of a peer that follows RFC 8446. -/
def peerRecord (W : WolfCrypt) (hkdf : Hkdf) (s : Suite) (secret : Bytes) (seq : UInt64)
    (r : Record) : Bytes :=
  sealRecord (W.scheme s.alg) (sealingKey hkdf s secret).bytes
    (labelledIv hkdf s.hash secret).bytes seq r

/-- The peek hands the AEAD the sealing key, byte for byte and of the same length,
and so opens the record. -/
def PeekUsesSealingKey (W : WolfCrypt) (hkdf : Hkdf) (s : Suite) (secret : Bytes)
    (ctx : TlspeekCtx) (seq : UInt64) (r : Record) (rest : Bytes) : Prop :=
  ∃ call, peekCall ctx ((peerRecord W hkdf s secret seq r ++ rest).take rawSize) = some call
    ∧ call.alg = s.alg ∧ call.key = (sealingKey hkdf s secret).bytes
    ∧ ∀ size, 0 < size →
        tls_read_peek W ctx (peerRecord W hkdf s secret seq r ++ rest) size
          = some (r.peeked.take size)

/-- The only way a ChaCha20 key can come out right: the 32-byte expansion happens
to be the 16-byte expansion with 16 zeros behind it. -/
def ZeroExtended (hkdf : Hkdf) (secret : Bytes) : Prop :=
  (labelledKey hkdf .SHA256 secret 32).bytes
    = (labelledKey hkdf .SHA256 secret 16).bytes ++ List.replicate 16 0

/-- **Key derivation and peek agree on AES-256-GCM only** (and on ChaCha20 in the
zero-extended case): for each suite, every client secret of its hash length, every
order of the other callbacks that leaves the context ready, and every record. -/
theorem peekUsesSealingKey_iff (W : WolfCrypt) (name : Suite → Bytes)
    (hnames : CipherNames name) (hlen : secret.length = s.secretLen)
    (hbefore : ∀ c ∈ before, c.id ≠ .CLIENT_TRAFFIC_SECRET)
    (hafter : ∀ c ∈ after, c.id ≠ .CLIENT_TRAFFIC_SECRET)
    (hready : (runCallbacks (before ++ clientCall hkdf secret :: after)).keys_ready = true)
    (seq : UInt64) (r : Record) (hfit : r.Fits) (rest : Bytes) :
    PeekUsesSealingKey W hkdf s secret (peekContext hkdf secret (name s) before after seq)
        seq r rest
      ↔ s = .AES_256_GCM ∨ (s = .CHACHA20_POLY ∧ ZeroExtended hkdf secret) := by
  obtain ⟨hkey, hiv, hkr⟩ := peekContext_fields hkdf s hlen hbefore hafter
    (name s) seq
  obtain ⟨t, hcode, ht⟩ := peekContext_suite hkdf s secret before after hnames seq
  rw [hready] at hkr
  set ctx := peekContext hkdf secret (name s) before after seq with hctx
  have hseq : ctx.read_seq_num = seq := rfl
  have hcall : peekCall ctx ((peerRecord W hkdf s secret seq r ++ rest).take rawSize)
      = some (sealedCall (W.scheme s.alg) (sealingKey hkdf s secret).bytes
          (labelledIv hkdf s.hash secret) seq r t ctx.client_write_key.bytes) := by
    unfold peerRecord
    rw [take_sealRecord _ _ _ _ _ _ hfit]
    exact peekCall_sealRecord _ _ _ _ _ _ _ _ hfit hiv hseq hcode
  have hopens : s ≠ .AES_128_GCM →
      ctx.client_write_key.bytes = (sealingKey hkdf s secret).bytes →
      PeekUsesSealingKey W hkdf s secret ctx seq r rest := by
    intro hs hk
    obtain rfl := ht hs
    refine ⟨_, hcall, sealedCall_alg _ _ _ _ _ _ _, hk, fun size hsize => ?_⟩
    have := tls_read_peek_sealRecord W ctx t r rest size hfit hkr hcode hsize
    rwa [hk, hiv, hseq] at this
  constructor
  · rintro ⟨call, hc, -, hk, -⟩
    rw [hcall] at hc
    injection hc with hc
    rw [← hc] at hk
    have hk : ctx.client_write_key.bytes = (sealingKey hkdf s secret).bytes := hk
    cases s with
    | AES_128_GCM =>
        -- 32 key bytes cannot be the 16 the peer sealed with
        have := congrArg List.length hk
        simp [Suite.keyLen] at this
    | AES_256_GCM => exact Or.inl rfl
    | CHACHA20_POLY =>
        rw [hkey] at hk
        exact Or.inr ⟨rfl, hk.symm⟩
  · rintro (rfl | ⟨rfl, hz⟩)
    · refine hopens (by decide) ?_
      rw [hkey]
      simp [sealingKey, Suite.keyLen]
    · refine hopens (by decide) ?_
      rw [hkey]
      exact hz.symm

end Peek

/-- wolfSSL's names for the three suites. -/
def wolfSSLName : Suite → Bytes
  | .AES_128_GCM => ascii "TLS13-AES128-GCM-SHA256"
  | .AES_256_GCM => ascii "TLS13-AES256-GCM-SHA384"
  | .CHACHA20_POLY => ascii "TLS13-CHACHA20-POLY1305-SHA256"

theorem wolfSSLName_names : CipherNames wolfSSLName :=
  ⟨by decide, by decide, by decide⟩

/-- An HKDF whose output repeats the byte `length of secret + length of output`. -/
def lengthHkdf : Hkdf := fun _ secret _ n =>
  ⟨List.replicate n (secret.length + n).toUInt8, by simp⟩

/-- The callback for the server's traffic secret. -/
def serverCall (secret : Bytes) : KeylogCall :=
  ⟨.SERVER_TRAFFIC_SECRET, some secret, fun h s i n => some (lengthHkdf h s i n)⟩

theorem peekUsesSealingKey_aes256 :
    PeekUsesSealingKey plainCrypt lengthHkdf .AES_256_GCM (List.replicate 48 1)
      (peekContext lengthHkdf (List.replicate 48 1) (wolfSSLName .AES_256_GCM) []
        [serverCall (List.replicate 48 2)] 0) 0 ⟨ascii "GET /", 0⟩ [] :=
  (peekUsesSealingKey_iff plainCrypt wolfSSLName wolfSSLName_names rfl (by simp)
    (by simp [serverCall]) rfl 0 ⟨ascii "GET /", 0⟩ (by decide) []).mpr (Or.inl rfl)

/-- The context of a ChaCha20 connection. -/
def chachaCtx : TlspeekCtx :=
  peekContext lengthHkdf (List.replicate 32 1) (wolfSSLName .CHACHA20_POLY) []
    [serverCall (List.replicate 32 2)] 0

/-- Its client's first record. -/
def chachaRecord : Bytes :=
  peerRecord plainCrypt lengthHkdf .CHACHA20_POLY (List.replicate 32 1) 0 ⟨ascii "GET /", 0⟩

/-- ChaCha20: the AEAD is called with 16 derived bytes and 16 zeros. -/
theorem peek_chacha20_wrong_key :
    (peekCall chachaCtx (chachaRecord.take rawSize)).map AeadCall.key
        = some (List.replicate 16 48 ++ List.replicate 16 0)
      ∧ ¬ PeekUsesSealingKey plainCrypt lengthHkdf .CHACHA20_POLY (List.replicate 32 1) chachaCtx 0
        ⟨ascii "GET /", 0⟩ [] := by
  have hgot : (peekCall chachaCtx (chachaRecord.take rawSize)).map AeadCall.key
      = some (List.replicate 16 48 ++ List.replicate 16 0) := by decide
  refine ⟨hgot, ?_⟩
  rintro ⟨call, hcall, -, hkey, -⟩
  have hsame : peekCall chachaCtx (chachaRecord.take rawSize) = some call := by
    rw [← List.append_nil chachaRecord]
    exact hcall
  rw [hsame] at hgot
  injection hgot with hgot
  rw [hgot] at hkey
  exact absurd hkey (by decide)

end TlsMigration.Tlspeek
