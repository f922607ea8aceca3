/-
  TlsMigration.Tlspeek.PeekBounds
  ───────────────────────────────
  **THE BUFFERS OF `tls_read_peek`**
  (libtlspeek/lib/tlspeek.c).

  `peek_raw` is the function from the bytes that `recv` returned on, with
  every access to its three buffers and with the exit it takes.  Nothing in
  `raw` is authenticated, and the largest record fills it to the last byte.

    • `peek_raw_shape`        — the four ways in which it can go;
    • `peek_in_bounds`        — the accesses are inside the buffers;
    • `tls_read_peek_eq_raw`  — and this is the peek of the other modules.
-/
import TlsMigration.Tlspeek.Peek

namespace TlsMigration.Tlspeek

/-! ## §1. The function with its accesses. -/

/-- An access to `raw`, to `plaintext` or to `buf`. -/
inductive Access where
  /-- `raw[i]` -/
  | raw_byte (i : Nat)
  /-- a decryption: the additional data at the start of `raw`, the ciphertext and the tag at these
  offsets of it, and `ct_len` bytes of `plaintext` -/
  | aead (aad_len ct_off ct_len tag_off : Nat)
  /-- `plaintext[i]` -/
  | plaintext_byte (i : Nat)
  /-- `memcpy(buf, plaintext, n)` -/
  | copy (n : Nat)

/-- The bytes of `raw` that an access reads. -/
def Access.ReadsRaw (a : Access) (i : Nat) : Prop :=
  match a with
  | .raw_byte j => i = j
  | .aead aad_len ct_off ct_len tag_off =>
      i < aad_len ∨ (ct_off ≤ i ∧ i < ct_off + ct_len)
        ∨ (tag_off ≤ i ∧ i < tag_off + TLSPEEK_TAG_SIZE)
  | .plaintext_byte _ | .copy _ => False

/-- Where the function returns. -/
inductive PeekExit where
  | bad_argument
  | keys_not_ready
  | nothing_received
  | too_few_bytes
  | record_type
  | incomplete
  | too_small
  | cipher_suite
  | decryption
  | empty_plaintext
  | copied (bytes : Bytes)

/-- What is stored in `buf`. -/
def PeekExit.stored : PeekExit → Option Bytes
  | .copied bytes => some bytes
  | _ => none

/-- What is returned. -/
def PeekExit.result (e : PeekExit) : Int :=
  match e.stored with
  | some bytes => bytes.length
  | none => -1

/-- The accesses that parse the header, and log it. -/
def headerReads : List Access :=
  [.raw_byte 0, .raw_byte 3, .raw_byte 4, .raw_byte 1, .raw_byte 2]

/-- The arguments of the decryption, for the suites that have one. -/
def aeadCall (ctx : TlspeekCtx) (raw : Bytes) (ct_len : Nat) : Option AeadCall :=
  let nonce := tls13_compute_nonce ctx.client_write_iv.bytes ctx.read_seq_num
  let ciphertext := (raw.drop TLSPEEK_HEADER_SIZE).take ct_len
  let auth_tag := (raw.drop (TLSPEEK_HEADER_SIZE + ct_len)).take TLSPEEK_TAG_SIZE
  let aad := raw.take TLSPEEK_HEADER_SIZE
  match Suite.ofCode ctx.cipher_suite with
  | some .AES_256_GCM | some .AES_128_GCM =>
      some (aead_aes_gcm_decrypt ctx.client_write_key.bytes nonce aad ciphertext auth_tag)
  | some .CHACHA20_POLY =>
      some (aead_chacha20_poly1305_decrypt ctx.client_write_key.bytes nonce aad
        ciphertext auth_tag)
  | none => none

/-- The decryption of `ct_len` bytes. -/
def aeadAccess (ct_len : Nat) : Access :=
  .aead TLSPEEK_HEADER_SIZE TLSPEEK_HEADER_SIZE ct_len (TLSPEEK_HEADER_SIZE + ct_len)

/-- Sub-steps 2d and 2e: the decryption, and the copy. -/
def peek_decrypt (W : WolfCrypt) (ctx : TlspeekCtx) (raw : Bytes) (ct_len size : Nat) :
    List Access × PeekExit :=
  match aeadCall ctx raw ct_len with
  | none => ([], .cipher_suite)
  | some call =>
      match W.decrypt call with
      | none => ([aeadAccess ct_len], .decryption)
      | some plaintext =>
          if ct_len = 0 then ([aeadAccess ct_len], .empty_plaintext)
          else
            let plaintext_len := ct_len - 1
            let copy_len := if plaintext_len < size then plaintext_len else size
            ([aeadAccess ct_len, .plaintext_byte plaintext_len, .copy copy_len],
              .copied (plaintext.take copy_len))

/-- `tls_read_peek`, when `recv` has returned `raw`; an error of `recv` counts as no bytes. -/
def peek_raw (W : WolfCrypt) (ctx : TlspeekCtx) (raw : Bytes) (size : Nat) :
    List Access × PeekExit :=
  if size = 0 then ([], .bad_argument)
  else if ctx.keys_ready = false then ([], .keys_not_ready)
  else if raw = [] then ([], .nothing_received)
  else if raw.length < TLSPEEK_HEADER_SIZE then ([], .too_few_bytes)
  else
    let record_type := raw.getD 0 0
    let record_len := be16 (raw.getD 3 0) (raw.getD 4 0)
    if record_type ≠ 0x17 then (headerReads, .record_type)
    else if raw.length < TLSPEEK_HEADER_SIZE + record_len then (headerReads, .incomplete)
    else if record_len ≤ TLSPEEK_TAG_SIZE then (headerReads, .too_small)
    else
      let r := peek_decrypt W ctx raw (record_len - TLSPEEK_TAG_SIZE) size
      (headerReads ++ r.1, r.2)

/-! ## §2. The ways it can go. -/

/-- A ciphertext and its tag behind the header, inside what was received. -/
def Enclosed (raw : Bytes) (ct_len : Nat) : Prop :=
  1 ≤ ct_len ∧ TLSPEEK_HEADER_SIZE + ct_len + TLSPEEK_TAG_SIZE ≤ raw.length

/-- The accesses and the exit, as far as it gets. -/
inductive PeekShape (raw : Bytes) (size : Nat) : List Access × PeekExit → Prop
  | early {e : PeekExit} (he : e.stored = none) : PeekShape raw size ([], e)
  | parsed {e : PeekExit} (hheader : TLSPEEK_HEADER_SIZE ≤ raw.length) (he : e.stored = none) :
      PeekShape raw size (headerReads, e)
  | called {e : PeekExit} {ct_len : Nat} (hin : Enclosed raw ct_len) (he : e.stored = none) :
      PeekShape raw size (headerReads ++ [aeadAccess ct_len], e)
  | copied {ct_len n : Nat} {bytes : Bytes} (hin : Enclosed raw ct_len)
      (hn : n = min (ct_len - 1) size) (hbytes : bytes.length = n) :
      PeekShape raw size
        (headerReads ++ [aeadAccess ct_len, .plaintext_byte (ct_len - 1), .copy n], .copied bytes)

variable {W : WolfCrypt} {ctx : TlspeekCtx} {raw : Bytes} {ct_len size : Nat}

/-- A decryption returns as many bytes as it is given. -/
theorem length_decrypt {call : AeadCall} {plaintext : Bytes}
    (h : W.decrypt call = some plaintext) : plaintext.length = call.ciphertext.length := by
  have hsealed := (W.scheme call.alg).sealed_of_opened _ _ _ _ _ _ h
  have hlen := (W.scheme call.alg).length_ciphertext call.key call.nonce call.aad plaintext
  rw [hsealed] at hlen
  exact hlen.symm

/-- Whatever the suite, the ciphertext has `ct_len` bytes. -/
theorem aeadCall_length {call : AeadCall} (hin : Enclosed raw ct_len)
    (h : aeadCall ctx raw ct_len = some call) : call.ciphertext.length = ct_len := by
  obtain ⟨-, hfit⟩ := hin
  have hlen : ((raw.drop TLSPEEK_HEADER_SIZE).take ct_len).length = ct_len := by
    rw [List.length_take, List.length_drop]
    omega
  unfold aeadCall at h
  dsimp only at h
  split at h
  · cases h
    exact hlen
  · cases h
    exact hlen
  · cases h
    exact hlen
  · cases h

theorem peek_decrypt_shape (hheader : TLSPEEK_HEADER_SIZE ≤ raw.length)
    (hin : Enclosed raw ct_len) :
    PeekShape raw size (headerReads ++ (peek_decrypt W ctx raw ct_len size).1,
      (peek_decrypt W ctx raw ct_len size).2) := by
  have hct : ct_len ≠ 0 := by
    have := hin.1
    omega
  unfold peek_decrypt
  cases hcall : aeadCall ctx raw ct_len with
  | none => exact .parsed hheader rfl
  | some call =>
      dsimp only
      cases hdec : W.decrypt call with
      | none => exact .called hin rfl
      | some plaintext =>
          dsimp only
          rw [if_neg hct]
          have hplain : plaintext.length = ct_len := by
            rw [length_decrypt hdec, aeadCall_length hin hcall]
          refine .copied hin ?_ ?_
          · split <;> omega
          · rw [List.length_take, hplain]
            split <;> omega

theorem peek_raw_shape (W : WolfCrypt) (ctx : TlspeekCtx) (raw : Bytes) (size : Nat) :
    PeekShape raw size (peek_raw W ctx raw size) := by
  unfold peek_raw
  by_cases hsize : size = 0
  · rw [if_pos hsize]
    exact .early rfl
  rw [if_neg hsize]
  by_cases hready : ctx.keys_ready = false
  · rw [if_pos hready]
    exact .early rfl
  rw [if_neg hready]
  by_cases hnil : raw = []
  · rw [if_pos hnil]
    exact .early rfl
  rw [if_neg hnil]
  by_cases hheader : raw.length < TLSPEEK_HEADER_SIZE
  · rw [if_pos hheader]
    exact .early rfl
  rw [if_neg hheader]
  dsimp only
  by_cases htype : raw.getD 0 0 ≠ 0x17
  · rw [if_pos htype]
    exact .parsed (by omega) rfl
  rw [if_neg htype]
  generalize be16 (raw.getD 3 0) (raw.getD 4 0) = record_len
  by_cases hpart : raw.length < TLSPEEK_HEADER_SIZE + record_len
  · rw [if_pos hpart]
    exact .parsed (by omega) rfl
  rw [if_neg hpart]
  by_cases hsmall : record_len ≤ TLSPEEK_TAG_SIZE
  · rw [if_pos hsmall]
    exact .parsed (by omega) rfl
  rw [if_neg hsmall]
  -- the two tests together enclose the ciphertext and the tag
  exact peek_decrypt_shape (by omega) ⟨by omega, by omega⟩

/-! ## §3. The bounds. -/

/-- The accesses are inside the buffers, and the result is the number of copied bytes or -1. -/
structure PeekInBounds (raw : Bytes) (size : Nat) (p : List Access × PeekExit) : Prop where
  raw_reads : ∀ a ∈ p.1, ∀ i, a.ReadsRaw i → i < raw.length
  aead : ∀ aad_len ct_off ct_len tag_off, .aead aad_len ct_off ct_len tag_off ∈ p.1 →
    1 ≤ ct_len ∧ ct_len ≤ TLSPEEK_MAX_RECORD ∧ tag_off + TLSPEEK_TAG_SIZE ≤ raw.length
  /-- the byte at `ct_len - 1` is one that the decryption wrote -/
  plaintext_byte : ∀ i, .plaintext_byte i ∈ p.1 → ∃ aad_len ct_off ct_len tag_off,
    .aead aad_len ct_off ct_len tag_off ∈ p.1 ∧ i = ct_len - 1 ∧ i < ct_len
  /-- and so are the bytes that are copied -/
  copied : ∀ n, .copy n ∈ p.1 → n ≤ min size (TLSPEEK_MAX_RECORD - 1)
    ∧ ∃ aad_len ct_off ct_len tag_off, .aead aad_len ct_off ct_len tag_off ∈ p.1 ∧ n < ct_len
  result : p.2.result = -1 ∨ ∃ n : Nat, .copy n ∈ p.1 ∧ p.2.result = n

theorem PeekExit.result_of_none {e : PeekExit} (he : e.stored = none) : e.result = -1 := by
  unfold PeekExit.result
  rw [he]

theorem mem_headerReads {a : Access} (ha : a ∈ headerReads) :
    ∃ i, a = .raw_byte i ∧ i < TLSPEEK_HEADER_SIZE := by
  simp only [headerReads, List.mem_cons, List.not_mem_nil, or_false] at ha
  obtain rfl | rfl | rfl | rfl | rfl := ha
  all_goals exact ⟨_, rfl, by decide⟩

/-- The header is parsed inside what was received, and touches no other buffer. -/
theorem PeekInBounds.header {l : List Access} {e : PeekExit}
    (hheader : TLSPEEK_HEADER_SIZE ≤ raw.length) (h : PeekInBounds raw size (l, e)) :
    PeekInBounds raw size (headerReads ++ l, e) := by
  have hrest : ∀ a ∈ headerReads ++ l,
      (∃ i, a = .raw_byte i ∧ i < TLSPEEK_HEADER_SIZE) ∨ a ∈ l := by
    intro a ha
    rcases List.mem_append.mp ha with ha | ha
    · exact Or.inl (mem_headerReads ha)
    · exact Or.inr ha
  have hsub : ∀ a ∈ l, a ∈ headerReads ++ l := fun a ha => List.mem_append_right _ ha
  refine ⟨?_, ?_, ?_, ?_, ?_⟩
  · intro a ha i hi
    rcases hrest a ha with ⟨j, rfl, hj⟩ | ha
    · have hij : i = j := hi
      omega
    · exact h.raw_reads a ha i hi
  · intro aad_len ct_off ct_len tag_off ha
    rcases hrest _ ha with ⟨j, hj, -⟩ | ha
    · cases hj
    · exact h.aead _ _ _ _ ha
  · intro i ha
    rcases hrest _ ha with ⟨j, hj, -⟩ | ha
    · cases hj
    · obtain ⟨aad_len, ct_off, ct_len, tag_off, hcall, hi⟩ := h.plaintext_byte i ha
      exact ⟨aad_len, ct_off, ct_len, tag_off, hsub _ hcall, hi⟩
  · intro n ha
    rcases hrest _ ha with ⟨j, hj, -⟩ | ha
    · cases hj
    · obtain ⟨hn, aad_len, ct_off, ct_len, tag_off, hcall, hlt⟩ := h.copied n ha
      exact ⟨hn, aad_len, ct_off, ct_len, tag_off, hsub _ hcall, hlt⟩
  · rcases h.result with hfail | ⟨n, hn, hres⟩
    · exact Or.inl hfail
    · exact Or.inr ⟨n, hsub _ hn, hres⟩

/-- No accesses at all. -/
theorem PeekInBounds.nil {e : PeekExit} (he : e.stored = none) : PeekInBounds raw size ([], e) :=
  ⟨nofun, nofun, nofun, nofun, Or.inl (PeekExit.result_of_none he)⟩

/-- The decryption reads what was received, and its output fits. -/
theorem Enclosed.aead (hmax : raw.length ≤ rawSize) (hin : Enclosed raw ct_len) :
    (∀ i, (aeadAccess ct_len).ReadsRaw i → i < raw.length)
      ∧ 1 ≤ ct_len ∧ ct_len ≤ TLSPEEK_MAX_RECORD
      ∧ TLSPEEK_HEADER_SIZE + ct_len + TLSPEEK_TAG_SIZE ≤ raw.length := by
  obtain ⟨hpos, hfit⟩ := hin
  unfold rawSize at hmax
  refine ⟨?_, hpos, by omega, hfit⟩
  intro i hi
  rcases hi with hi | ⟨-, hi⟩ | ⟨-, hi⟩
  all_goals omega

theorem PeekShape.inBounds {p : List Access × PeekExit} (hmax : raw.length ≤ rawSize)
    (h : PeekShape raw size p) : PeekInBounds raw size p := by
  cases h with
  | early he => exact .nil he
  | parsed hheader he =>
      have hbounds : PeekInBounds raw size (headerReads ++ [], _) := .header hheader (.nil he)
      exact hbounds
  | called hin he =>
      -- the call of the AEAD is the only access behind the header
      obtain ⟨hreads, hpos, hmaxct, hfit⟩ := hin.aead hmax
      refine .header (by omega) ⟨?_, ?_, nofun, nofun, Or.inl (PeekExit.result_of_none he)⟩
      · intro a ha
        rw [List.mem_singleton] at ha
        rw [ha]
        exact hreads
      · intro aad_len ct_off ct_len tag_off ha
        cases List.mem_singleton.mp ha
        exact ⟨hpos, hmaxct, hfit⟩
  | copied hin hn hbytes =>
      -- three accesses: the call, the content type, and the copy
      rename_i ct_len n bytes
      obtain ⟨hreads, hpos, hmaxct, hfit⟩ := hin.aead hmax
      have hcall : aeadAccess ct_len
          ∈ [aeadAccess ct_len, .plaintext_byte (ct_len - 1), .copy n] := List.mem_cons_self
      refine .header (by omega) ⟨?_, ?_, ?_, ?_, ?_⟩
      · intro a ha i hi
        simp only [List.mem_cons, List.not_mem_nil, or_false] at ha
        obtain rfl | rfl | rfl := ha
        · exact hreads i hi
        · exact absurd hi not_false
        · exact absurd hi not_false
      · intro aad_len ct_off ct_len' tag_off ha
        simp only [List.mem_cons, List.not_mem_nil, reduceCtorEq, or_false] at ha
        cases ha
        exact ⟨hpos, hmaxct, hfit⟩
      · intro i ha
        simp only [aeadAccess, List.mem_cons, List.not_mem_nil, reduceCtorEq, or_false,
          false_or] at ha
        cases ha
        exact ⟨_, _, _, _, hcall, rfl, by omega⟩
      · intro m ha
        simp only [aeadAccess, List.mem_cons, List.not_mem_nil, reduceCtorEq, or_false,
          false_or] at ha
        cases ha
        exact ⟨by omega, _, _, _, _, hcall, by omega⟩
      · refine Or.inr ⟨n, by simp, ?_⟩
        show (bytes.length : Int) = n
        rw [hbytes]

/-- **`tls_read_peek` stays inside its buffers**, for all bytes that `recv` can return. -/
theorem peek_in_bounds (W : WolfCrypt) (ctx : TlspeekCtx) (raw : Bytes) (size : Nat)
    (hmax : raw.length ≤ rawSize) : PeekInBounds raw size (peek_raw W ctx raw size) :=
  (peek_raw_shape W ctx raw size).inBounds hmax

/-- A record as large as the buffer: the tag ends at its last byte. -/
theorem peek_in_bounds_largest :
    PeekInBounds ([0x17, 3, 3, 65, 16] ++ List.replicate 16656 0) 64
      (peek_raw plainCrypt zeroKeyCtx ([0x17, 3, 3, 65, 16] ++ List.replicate 16656 0) 64) :=
  peek_in_bounds plainCrypt zeroKeyCtx ([0x17, 3, 3, 65, 16] ++ List.replicate 16656 0) 64
    (by rw [List.length_append, List.length_replicate]; decide)

/-! ## §4. The same peek. -/

theorem peekCall_eq_aeadCall (hheader : ¬ raw.length < TLSPEEK_HEADER_SIZE)
    (htype : ¬ raw.getD 0 0 ≠ 0x17)
    (hpart : ¬ raw.length < TLSPEEK_HEADER_SIZE + be16 (raw.getD 3 0) (raw.getD 4 0))
    (hsmall : ¬ be16 (raw.getD 3 0) (raw.getD 4 0) ≤ TLSPEEK_TAG_SIZE) :
    peekCall ctx raw
      = aeadCall ctx raw (be16 (raw.getD 3 0) (raw.getD 4 0) - TLSPEEK_TAG_SIZE) := by
  unfold peekCall aeadCall
  rw [if_neg hheader]
  dsimp only
  refine (if_neg htype).trans ((if_neg hpart).trans ((if_neg hsmall).trans ?_))
  cases Suite.ofCode ctx.cipher_suite with
  | none => rfl
  | some suite => cases suite <;> rfl

theorem peek_decrypt_stored {call : AeadCall} (hin : Enclosed raw ct_len)
    (hcall : aeadCall ctx raw ct_len = some call) :
    (peek_decrypt W ctx raw ct_len size).2.stored
      = (W.decrypt call).map fun plaintext => plaintext.take (min (ct_len - 1) size) := by
  have hct : ct_len ≠ 0 := by
    have := hin.1
    omega
  have hmin : (if ct_len - 1 < size then ct_len - 1 else size) = min (ct_len - 1) size := by
    split <;> omega
  unfold peek_decrypt
  rw [hcall]
  dsimp only
  cases W.decrypt call with
  | none => rfl
  | some plaintext =>
      dsimp only
      rw [if_neg hct, hmin]
      rfl

/-- What `peek_raw` stores is what `tls_read_peek` stores. -/
theorem tls_read_peek_eq_raw (W : WolfCrypt) (ctx : TlspeekCtx) (kernel : Bytes) (size : Nat) :
    tls_read_peek W ctx kernel size = (peek_raw W ctx (kernel.take rawSize) size).2.stored := by
  unfold tls_read_peek
  generalize kernel.take rawSize = raw
  by_cases hargs : size = 0 ∨ ctx.keys_ready = false
  · rw [if_pos hargs]
    unfold peek_raw
    split
    · rfl
    · rw [if_pos (hargs.resolve_left ‹_›)]
      rfl
  rw [if_neg hargs]
  obtain ⟨hsize, hready⟩ := not_or.mp hargs
  unfold peek_raw
  rw [if_neg hsize, if_neg hready]
  dsimp only
  -- both make the same tests, in the same order
  by_cases hnil : raw = []
  · rw [if_pos hnil, if_pos hnil]
    rfl
  rw [if_neg hnil, if_neg hnil]
  by_cases hheader : raw.length < TLSPEEK_HEADER_SIZE
  · unfold peekCall
    rw [if_pos hheader, if_pos hheader]
    rfl
  by_cases htype : raw.getD 0 0 ≠ 0x17
  · unfold peekCall
    rw [if_neg hheader, if_neg hheader, if_pos htype, if_pos htype]
    rfl
  by_cases hpart : raw.length < TLSPEEK_HEADER_SIZE + be16 (raw.getD 3 0) (raw.getD 4 0)
  · unfold peekCall
    rw [if_neg hheader, if_neg hheader, if_neg htype, if_neg htype, if_pos hpart, if_pos hpart]
    rfl
  by_cases hsmall : be16 (raw.getD 3 0) (raw.getD 4 0) ≤ TLSPEEK_TAG_SIZE
  · unfold peekCall
    rw [if_neg hheader, if_neg hheader, if_neg htype, if_neg htype, if_neg hpart, if_neg hpart,
      if_pos hsmall, if_pos hsmall]
    rfl
  -- both decrypt, with the same arguments
  rw [peekCall_eq_aeadCall hheader htype hpart hsmall, if_neg hheader, if_neg htype, if_neg hpart,
    if_neg hsmall]
  have hin : Enclosed raw (be16 (raw.getD 3 0) (raw.getD 4 0) - TLSPEEK_TAG_SIZE) :=
    ⟨by omega, by omega⟩
  generalize be16 (raw.getD 3 0) (raw.getD 4 0) - TLSPEEK_TAG_SIZE = ct_len at hin
  cases hcall : aeadCall ctx raw ct_len with
  | none =>
      show none = (peek_decrypt W ctx raw ct_len size).2.stored
      unfold peek_decrypt
      rw [hcall]
      rfl
  | some call =>
      show _ = (peek_decrypt W ctx raw ct_len size).2.stored
      rw [peek_decrypt_stored hin hcall]
      dsimp only
      rw [aeadCall_length hin hcall]
      cases W.decrypt call <;> rfl

end TlsMigration.Tlspeek
