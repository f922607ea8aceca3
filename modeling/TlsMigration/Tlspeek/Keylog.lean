/-
  TlsMigration.Tlspeek.Keylog
  ───────────────────────────
  **WHAT `keys_ready` SAYS ABOUT THE CLIENT KEYS** (libtlspeek/lib/tlspeek.c).

  wolfSSL calls `tlspeek_keylog_cb` once per traffic secret, in an order of
  its own.  The callback writes the suite on every secret of 32 or 48 bytes,
  the client keys on CLIENT_TRAFFIC_SECRET, and the flag on
  SERVER_TRAFFIC_SECRET; it does not look at the result of the derivation.

  `runCallbacks_spec` says what any sequence of calls leaves in a zeroed
  context, in terms of the last accepted secret and the last accepted client
  secret.  `keys_ready_iff` reads off when the flag can be trusted.
-/
import TlsMigration.Tlspeek.Peek
import Mathlib.Data.List.Induction

namespace TlsMigration.Tlspeek

/-! ## §1. The callback. -/

/-- The secrets of wolfSSL's `enum Tls13Secret`. -/
inductive SecretId where
  | CLIENT_EARLY_TRAFFIC_SECRET
  | CLIENT_HANDSHAKE_TRAFFIC_SECRET
  | SERVER_HANDSHAKE_TRAFFIC_SECRET
  | CLIENT_TRAFFIC_SECRET
  | SERVER_TRAFFIC_SECRET
  | EARLY_EXPORTER_SECRET
  | EXPORTER_SECRET
  deriving DecidableEq, Repr

/-- What the callback decides from the size of a secret. -/
structure SecretParams where
  hash_algo : HashAlgo
  key_len : Nat
  suite : Suite
  deriving DecidableEq, Repr

/-- 48 bytes: SHA-384 and AES-256-GCM; 32 bytes: SHA-256 and AES-128-GCM. -/
def secretParams (secretSz : Nat) : Option SecretParams :=
  if secretSz = 48 then some ⟨.SHA384, 32, .AES_256_GCM⟩
  else if secretSz = 32 then some ⟨.SHA256, 16, .AES_128_GCM⟩
  else none

theorem secretParams_key_len {n : Nat} {p : SecretParams} (h : secretParams n = some p) :
    p.key_len ≤ TLSPEEK_KEY_SIZE := by
  unfold secretParams at h
  split at h
  · injection h with h
    subst h
    decide
  · split at h
    · injection h with h
      subst h
      decide
    · exact absurd h (by simp)

/-- `derive_keys_from_raw_secret`: the key first, then the IV; the second
expansion is tried only after the first, and a failure keeps what is written. -/
def derive_keys_from_raw_secret (expand : HkdfExpand)
    (key_out : Area TLSPEEK_KEY_SIZE) (iv_out : Area TLSPEEK_IV_SIZE)
    (secret : Bytes) (key_len : Nat) (hash_algo : HashAlgo) :
    Int × Area TLSPEEK_KEY_SIZE × Area TLSPEEK_IV_SIZE :=
  match tls13_hkdf_expand_label expand secret (ascii "key") [] key_len hash_algo with
  | none => (-1, key_out, iv_out)
  | some key =>
      match tls13_hkdf_expand_label expand secret (ascii "iv") [] TLSPEEK_IV_SIZE hash_algo with
      | none => (-1, key_out.write key.bytes, iv_out)
      | some iv => (0, key_out.write key.bytes, iv_out.write iv.bytes)

/-- One call of the callback: the secret wolfSSL passes (NULL is `none`) and how
HKDF-Expand behaves during the call. -/
structure KeylogCall where
  id : SecretId
  secret : Option Bytes
  expand : HkdfExpand

/-- `tlspeek_keylog_cb` on the context found for the session. -/
def tlspeek_keylog_cb (ctx : TlspeekCtx) (c : KeylogCall) : TlspeekCtx :=
  match c.secret with
  | none => ctx
  | some secret =>
      match secretParams secret.length with
      | none => ctx
      | some p =>
          let ctx := { ctx with cipher_suite := p.suite.code }
          if c.id = .CLIENT_TRAFFIC_SECRET then
            let (_, key, iv) := derive_keys_from_raw_secret c.expand ctx.client_write_key
              ctx.client_write_iv secret p.key_len p.hash_algo
            { ctx with client_write_key := key, client_write_iv := iv }
          else if c.id = .SERVER_TRAFFIC_SECRET then
            let (_, key, iv) := derive_keys_from_raw_secret c.expand ctx.server_write_key
              ctx.server_write_iv secret p.key_len p.hash_algo
            { ctx with server_write_key := key, server_write_iv := iv, keys_ready := true }
          else ctx

/-- `tlspeek_init` on a non-NULL session; `none` is `-1`. -/
def tlspeek_init (ctx : TlspeekCtx) (tcp_fd : Int) : Option TlspeekCtx :=
  let ctx := { ctx with tcp_fd := tcp_fd }
  if ctx.keys_ready = false then none
  else some { ctx with read_seq_num := 0, write_seq_num := 0 }

/-- Any sequence of calls on a zero-initialised context. -/
def runCallbacks (calls : List KeylogCall) : TlspeekCtx :=
  calls.foldl tlspeek_keylog_cb TlspeekCtx.zero

/-! ## §2. The history of a context. -/

/-- The parameters of a call whose secret has an accepted size. -/
def KeylogCall.params (c : KeylogCall) : Option SecretParams :=
  c.secret.bind fun s => secretParams s.length

/-- The last call with a secret of accepted size, whatever its id. -/
def lastAccepted (calls : List KeylogCall) : Option KeylogCall :=
  (calls.filter fun c => c.params.isSome).getLast?

/-- The last accepted call with the given id. -/
def lastOf (id : SecretId) (calls : List KeylogCall) : Option KeylogCall :=
  (calls.filter fun c => c.params.isSome && decide (c.id = id)).getLast?

/-- Both expansions of the call succeeded, with these outputs. -/
def KeylogCall.Derived (c : KeylogCall) (p : SecretParams)
    (key : Area p.key_len) (iv : Area TLSPEEK_IV_SIZE) : Prop :=
  ∃ secret, c.secret = some secret ∧ secretParams secret.length = some p
    ∧ tls13_hkdf_expand_label c.expand secret (ascii "key") [] p.key_len p.hash_algo = some key
    ∧ tls13_hkdf_expand_label c.expand secret (ascii "iv") [] TLSPEEK_IV_SIZE p.hash_algo
        = some iv

theorem KeylogCall.Derived.params_eq {c : KeylogCall} {p : SecretParams}
    {key : Area p.key_len} {iv : Area TLSPEEK_IV_SIZE} (h : c.Derived p key iv) :
    c.params = some p := by
  obtain ⟨secret, hs, hp, -, -⟩ := h
  simp [KeylogCall.params, hs, hp]

/-! ## §3. What a sequence of calls leaves behind. -/

/-- The context a history leads to, as far as the client side is concerned. -/
structure CallbackSpec (calls : List KeylogCall) (ctx : TlspeekCtx) : Prop where
  ready : ctx.keys_ready = (lastOf .SERVER_TRAFFIC_SECRET calls).isSome
  suite : ∀ c p, lastAccepted calls = some c → c.params = some p →
    ctx.cipher_suite = p.suite.code
  keys : ∀ c p key iv, lastOf .CLIENT_TRAFFIC_SECRET calls = some c → c.Derived p key iv →
    ctx.client_write_key.bytes.take p.key_len = key.bytes ∧ ctx.client_write_iv = iv

theorem lastAccepted_append (calls : List KeylogCall) (c : KeylogCall) :
    lastAccepted (calls ++ [c])
      = if c.params.isSome then some c else lastAccepted calls := by
  unfold lastAccepted
  cases h : c.params.isSome <;> simp [h]

theorem lastOf_append (id : SecretId) (calls : List KeylogCall) (c : KeylogCall) :
    lastOf id (calls ++ [c])
      = if c.params.isSome ∧ c.id = id then some c else lastOf id calls := by
  unfold lastOf
  cases h : c.params.isSome <;> by_cases hid : c.id = id <;> simp [h, hid]

/-- A call that is not accepted leaves the context as it is. -/
theorem tlspeek_keylog_cb_ignored {ctx : TlspeekCtx} {c : KeylogCall}
    (h : c.params = none) : tlspeek_keylog_cb ctx c = ctx := by
  unfold KeylogCall.params at h
  unfold tlspeek_keylog_cb
  cases hs : c.secret with
  | none => rfl
  | some secret =>
      simp only [hs, Option.bind_some] at h
      simp only [h]

/-- What an accepted call does to each field the client side reads. -/
theorem tlspeek_keylog_cb_accepted (ctx : TlspeekCtx) {c : KeylogCall} {p : SecretParams}
    (h : c.params = some p) :
    (tlspeek_keylog_cb ctx c).cipher_suite = p.suite.code
      ∧ (tlspeek_keylog_cb ctx c).keys_ready
          = (ctx.keys_ready || decide (c.id = .SERVER_TRAFFIC_SECRET))
      ∧ (c.id ≠ .CLIENT_TRAFFIC_SECRET →
          (tlspeek_keylog_cb ctx c).client_write_key = ctx.client_write_key
            ∧ (tlspeek_keylog_cb ctx c).client_write_iv = ctx.client_write_iv)
      ∧ (c.id = .CLIENT_TRAFFIC_SECRET → ∀ key iv, c.Derived p key iv →
          (tlspeek_keylog_cb ctx c).client_write_key.bytes.take p.key_len = key.bytes
            ∧ (tlspeek_keylog_cb ctx c).client_write_iv = iv) := by
  obtain ⟨secret, hs, hp⟩ := Option.bind_eq_some_iff.mp h
  unfold tlspeek_keylog_cb
  simp only [hs, hp]
  by_cases hc : c.id = .CLIENT_TRAFFIC_SECRET
  · rw [if_pos hc]
    refine ⟨rfl, by simp [hc], fun hne => absurd hc hne, fun _ key iv hd => ?_⟩
    obtain ⟨secret', hs', -, hkey, hiv⟩ := hd
    rw [hs] at hs'
    injection hs' with hs'
    subst hs'
    simp only [derive_keys_from_raw_secret, hkey, hiv]
    constructor
    · have hlen := key.length_eq
      have hfit : key.bytes.length ≤ TLSPEEK_KEY_SIZE := by
        rw [hlen]
        exact secretParams_key_len hp
      have htake : (ctx.client_write_key.write key.bytes).bytes.take key.bytes.length
          = key.bytes := Area.take_write hfit
      rwa [hlen] at htake
    · exact Area.ext (Area.write_full iv.length_eq)
  · by_cases hsrv : c.id = .SERVER_TRAFFIC_SECRET
    · rw [if_neg hc, if_pos hsrv]
      exact ⟨rfl, by simp [hsrv], fun _ => ⟨rfl, rfl⟩, fun h => absurd h hc⟩
    · rw [if_neg hc, if_neg hsrv]
      exact ⟨rfl, by simp [hsrv], fun _ => ⟨rfl, rfl⟩, fun h => absurd h hc⟩

theorem runCallbacks_append (calls : List KeylogCall) (c : KeylogCall) :
    runCallbacks (calls ++ [c]) = tlspeek_keylog_cb (runCallbacks calls) c := by
  simp [runCallbacks]

theorem runCallbacks_spec (calls : List KeylogCall) :
    CallbackSpec calls (runCallbacks calls) := by
  induction calls using List.reverseRecOn with
  | nil => exact ⟨rfl, by simp [lastAccepted], by simp [lastOf]⟩
  | append_singleton calls c ih =>
      rw [runCallbacks_append]
      cases hp : c.params with
      | none =>
          rw [tlspeek_keylog_cb_ignored hp]
          refine ⟨?_, ?_, ?_⟩
          · simpa [lastOf_append, hp] using ih.ready
          · simpa [lastAccepted_append, hp] using ih.suite
          · simpa [lastOf_append, hp] using ih.keys
      | some p =>
          obtain ⟨hsuite, hready, hother, hclient⟩ :=
            tlspeek_keylog_cb_accepted (runCallbacks calls) hp
          refine ⟨?_, ?_, ?_⟩
          · rw [hready, ih.ready, lastOf_append]
            by_cases hsrv : c.id = .SERVER_TRAFFIC_SECRET <;> simp [hp, hsrv]
          · intro c' p' hlast hp'
            simp only [lastAccepted_append, hp, Option.isSome_some, if_true,
              Option.some.injEq] at hlast
            subst hlast
            rw [hp] at hp'
            injection hp' with hp'
            rw [hsuite, hp']
          · intro c' p' key iv hlast hd
            by_cases hc : c.id = .CLIENT_TRAFFIC_SECRET
            · simp only [lastOf_append, hp, hc, Option.isSome_some, and_self, if_true,
                Option.some.injEq] at hlast
              subst hlast
              have hpp : p = p' := by
                have := hd.params_eq
                rw [hp] at this
                exact Option.some.inj this
              subst hpp
              exact hclient hc key iv hd
            · simp only [lastOf_append, hc, and_false, if_false] at hlast
              obtain ⟨hk, hi⟩ := hother hc
              rw [hk, hi]
              exact ih.keys c' p' key iv hlast hd

/-! ## §4. When the flag can be trusted. -/

/-- The client keys of `ctx` are the complete outputs of the two successful
expansions of the last accepted CLIENT_TRAFFIC_SECRET, and its suite is the one
the length of that secret implies. -/
def KeysDerived (calls : List KeylogCall) (ctx : TlspeekCtx) : Prop :=
  ∃ c p key iv, lastOf .CLIENT_TRAFFIC_SECRET calls = some c ∧ c.Derived p key iv
    ∧ ctx.client_write_key.bytes.take p.key_len = key.bytes
    ∧ ctx.client_write_iv = iv
    ∧ ctx.cipher_suite = p.suite.code

/-- After `calls` the flag implies derived keys, so that neither `tlspeek_init`
nor `tls_read_peek` succeeds with keys that were not. -/
structure KeysReadySound (calls : List KeylogCall) : Prop where
  flag : (runCallbacks calls).keys_ready = true → KeysDerived calls (runCallbacks calls)
  init : ∀ tcp_fd ctx, tlspeek_init (runCallbacks calls) tcp_fd = some ctx →
    KeysDerived calls ctx
  peek : ∀ W kernel size stored,
    tls_read_peek W (runCallbacks calls) kernel size = some stored →
      KeysDerived calls (runCallbacks calls)

/-- No SERVER_TRAFFIC_SECRET was accepted; or both expansions of the last accepted
CLIENT_TRAFFIC_SECRET succeeded and no secret of the other size came later. -/
def ClientKeysSettled (calls : List KeylogCall) : Prop :=
  lastOf .SERVER_TRAFFIC_SECRET calls = none
    ∨ ∃ c p key iv, lastOf .CLIENT_TRAFFIC_SECRET calls = some c ∧ c.Derived p key iv
        ∧ (lastAccepted calls).bind KeylogCall.params = some p

/-- The two accepted sizes imply different suites. -/
theorem secretParams_inj {n m : Nat} {p q : SecretParams} (hp : secretParams n = some p)
    (hq : secretParams m = some q) (h : p.suite = q.suite) : p = q := by
  unfold secretParams at hp hq
  split at hp <;> split at hq <;> (try split at hp) <;> (try split at hq) <;> simp_all <;>
    (subst hp hq; simp_all)

theorem params_inj {c d : KeylogCall} {p q : SecretParams} (hp : c.params = some p)
    (hq : d.params = some q) (h : p.suite = q.suite) : p = q := by
  obtain ⟨_, -, hp⟩ := Option.bind_eq_some_iff.mp hp
  obtain ⟨_, -, hq⟩ := Option.bind_eq_some_iff.mp hq
  exact secretParams_inj hp hq h

theorem lastAccepted_of_lastOf {id : SecretId} {calls : List KeylogCall} {c : KeylogCall}
    (h : lastOf id calls = some c) :
    ∃ d q, lastAccepted calls = some d ∧ d.params = some q := by
  have hmem := List.mem_of_getLast? h
  rw [List.mem_filter] at hmem
  have hacc : c ∈ calls.filter fun c => c.params.isSome :=
    List.mem_filter.mpr ⟨hmem.1, by simpa using (Bool.and_eq_true _ _ ▸ hmem.2).1⟩
  cases hd : lastAccepted calls with
  | none =>
      rw [lastAccepted, List.getLast?_eq_none_iff] at hd
      rw [hd] at hacc
      exact absurd hacc (by simp)
  | some d =>
      have hdm := List.mem_of_getLast? hd
      rw [List.mem_filter] at hdm
      obtain ⟨q, hq⟩ := Option.isSome_iff_exists.mp hdm.2
      exact ⟨d, q, rfl, hq⟩

/-- With the flag set, the context holds derived keys exactly in a settled history. -/
theorem keysDerived_iff (calls : List KeylogCall)
    (hready : (runCallbacks calls).keys_ready = true) :
    KeysDerived calls (runCallbacks calls) ↔ ClientKeysSettled calls := by
  have hspec := runCallbacks_spec calls
  have hserver : lastOf .SERVER_TRAFFIC_SECRET calls ≠ none := by
    rw [hspec.ready, Option.isSome_iff_ne_none] at hready
    exact hready
  constructor
  · rintro ⟨c, p, key, iv, hlast, hd, -, -, hsuite⟩
    right
    obtain ⟨d, q, hacc, hq⟩ := lastAccepted_of_lastOf hlast
    have hcode : q.suite = p.suite :=
      Suite.code_inj ((hspec.suite d q hacc hq).symm.trans hsuite)
    refine ⟨c, p, key, iv, hlast, hd, ?_⟩
    rw [hacc, Option.bind_some, hq, params_inj hq hd.params_eq hcode]
  · rintro (hnone | ⟨c, p, key, iv, hlast, hd, hbind⟩)
    · exact absurd hnone hserver
    · obtain ⟨d, hacc, hq⟩ := Option.bind_eq_some_iff.mp hbind
      obtain ⟨hkey, hiv⟩ := hspec.keys c p key iv hlast hd
      exact ⟨c, p, key, iv, hlast, hd, hkey, hiv, hspec.suite d p hacc hq⟩

theorem tls_read_peek_ready {W : WolfCrypt} {ctx : TlspeekCtx} {kernel stored : Bytes}
    {size : Nat} (h : tls_read_peek W ctx kernel size = some stored) :
    ctx.keys_ready = true := by
  unfold tls_read_peek at h
  split at h
  next => exact absurd h (by simp)
  next hguard =>
    cases hr : ctx.keys_ready
    · exact absurd (Or.inr hr) hguard
    · rfl

theorem tlspeek_init_eq_some {ctx ctx' : TlspeekCtx} {tcp_fd : Int}
    (h : tlspeek_init ctx tcp_fd = some ctx') :
    ctx.keys_ready = true
      ∧ ctx' = { ctx with tcp_fd := tcp_fd, read_seq_num := 0, write_seq_num := 0 } := by
  simp only [tlspeek_init] at h
  split at h
  next => exact absurd h (by simp)
  next hr =>
    injection h with h
    exact ⟨by simpa using hr, h.symm⟩

/-- **`keys_ready` can be trusted exactly after a settled sequence of callbacks.** -/
theorem keysReadySound_iff (calls : List KeylogCall) :
    KeysReadySound calls ↔ ClientKeysSettled calls := by
  have hspec := runCallbacks_spec calls
  constructor
  · intro h
    cases hr : (runCallbacks calls).keys_ready with
    | true => exact (keysDerived_iff calls hr).mp (h.flag hr)
    | false =>
        left
        rw [hspec.ready] at hr
        simpa using hr
  · intro h
    have hflag : (runCallbacks calls).keys_ready = true →
        KeysDerived calls (runCallbacks calls) :=
      fun hr => (keysDerived_iff calls hr).mpr h
    refine ⟨hflag, ?_, fun W kernel size stored hp => hflag (tls_read_peek_ready hp)⟩
    intro tcp_fd ctx hinit
    obtain ⟨hr, rfl⟩ := tlspeek_init_eq_some hinit
    exact hflag hr

/-- HKDF-Expand with the secret's first byte repeated as its output. -/
def echoExpand : HkdfExpand :=
  fun _ secret _ n => some ⟨List.replicate n (secret.headD 0), by simp⟩

/-- One callback, for the server's traffic secret. -/
def serverSecretOnly : List KeylogCall :=
  [⟨.SERVER_TRAFFIC_SECRET, some (List.replicate 48 7), echoExpand⟩]

/-- After the server secret alone the flag is set over all-zero client keys. -/
theorem keys_ready_without_client_secret :
    (runCallbacks serverSecretOnly).keys_ready = true
      ∧ (runCallbacks serverSecretOnly).client_write_key = Area.zero _
      ∧ lastOf .CLIENT_TRAFFIC_SECRET serverSecretOnly = none
      ∧ ¬ KeysReadySound serverSecretOnly := by
  refine ⟨by decide, by decide, rfl, fun h => ?_⟩
  obtain ⟨c, p, key, iv, hlast, -⟩ := h.flag (by decide)
  rw [show lastOf .CLIENT_TRAFFIC_SECRET serverSecretOnly = none from rfl] at hlast
  exact absurd hlast (by simp)

end TlsMigration.Tlspeek
