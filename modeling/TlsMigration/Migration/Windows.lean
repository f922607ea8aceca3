/-
  TlsMigration.Migration.Windows
  ──────────────────────────────
  **GROWING WINDOWS AGAINST ONE PEEK** (`progressive_peek_owner` of bench2gw.c,
  `peek_owner_from_kernel` of bench2_proto_worker.c).

  Both loops double a `size_t` up to a limit and parse what each peek shows.
  A name seen in a short window is the name in every longer one, so only the
  last window can reject; and a window that wraps to zero ends the loop.

    • `ownerLoop_spec`            — the loop from any of its windows;
    • `progressive_equals_oneShot` — both functions end, with the answer of
                                    one parse of the whole window.
-/
import TlsMigration.Migration.Gateway
import TlsMigration.Migration.SamePlaintext

namespace TlsMigration.Migration.Windows

open TlsMigration.Tlspeek TlsMigration.Bench2 TlsMigration.Http

/-! ## §1. The model. -/

/-- `turns` turns of the `while (want > 0)` loop; `none` is: still running. -/
def ownerLoop (peek : UInt64 → Option Bytes) (limit owner_out_sz : UInt64) :
    Nat → UInt64 → Option (Option (Bytes × Bytes))
  | 0, _ => none
  | turns + 1, want =>
      if want = 0 then some none
      else
        match peek want with
        | none => some none
        | some peeked =>
            if peeked = [] then some none
            else
              match parse_request_owner peeked owner_out_sz.toNat with
              | some owner => some (some (owner, peeked))
              | none =>
                  if limit ≤ want then some none
                  else
                    ownerLoop peek limit owner_out_sz turns
                      (if limit < want * 2 then limit else want * 2)

variable {β : Type*} (W : WolfCrypt) (client_fd : Int) (serial : TlspeekSerial β)
  (kernel : Bytes)

/-- `progressive_peek_owner`: the owner, and what the last peek left in the buffer. -/
def progressive_peek_owner (peek_buf_sz owner_out_sz : UInt64) (turns : Nat) :
    Option (Option (Bytes × Bytes)) :=
  if peek_buf_sz = 0 ∨ owner_out_sz = 0 then some none
  else
    ownerLoop (fun want => peekWith W client_fd serial kernel want.toNat) peek_buf_sz
      owner_out_sz turns (if peek_buf_sz < 256 then peek_buf_sz else 256)

/-- `peek_owner_from_kernel` of the bench2 worker; the buffer has 8192 bytes and one for
the terminator. -/
def peek_owner_from_kernel (owner_out_sz : UInt64) (turns : Nat) : Option (Option Bytes) :=
  (ownerLoop (fun want => peekWith W client_fd serial kernel want.toNat) 8192 owner_out_sz
    turns 1024).map fun found => found.map Prod.fst

/-! ## §2. One parse. -/

/-- The plaintext of the first record under the context that the session gives. -/
def recordPlaintext : Option Bytes :=
  (tlspeek_restore_peek_ctx client_fd serial).bind fun ctx => plaintext W ctx kernel

/-- One `parse_request_owner` on the first `min(|p|, size)` bytes of the plaintext. -/
def oneShot (p : Bytes) (size owner_out_sz : Nat) : Option Bytes :=
  parse_request_owner (p.take (min p.length size)) owner_out_sz

variable {W client_fd serial kernel} {p : Bytes} {out : Nat}

theorem oneShot_eq (p : Bytes) (size out : Nat) :
    oneShot p size out = parse_request_owner (p.take size) out := by
  unfold oneShot
  rw [Nat.min_comm, ← List.take_eq_take_min]

/-- **An early success is the answer of every longer window.** -/
theorem oneShot_mono {w size : Nat} {n : Bytes} (hle : w ≤ size)
    (h : oneShot p w out = some n) : oneShot p size out = some n := by
  rw [oneShot_eq] at h ⊢
  have hgrow := parse_request_owner_append h ((p.take size).drop w)
  have hsplit : p.take w ++ (p.take size).drop w = p.take size := by
    have hcut := List.take_append_drop w (p.take size)
    rwa [List.take_take, Nat.min_eq_left hle] at hcut
  rwa [hsplit] at hgrow

/-- A peek with a window that is not empty. -/
theorem peekWith_eq {want : Nat} (h : 0 < want) :
    peekWith W client_fd serial kernel want
      = (recordPlaintext W client_fd serial kernel).map (·.take want) := by
  unfold peekWith recordPlaintext
  cases hctx : tlspeek_restore_peek_ctx client_fd serial with
  | none => rfl
  | some ctx =>
      have hready : ctx.keys_ready = true := by
        unfold tlspeek_restore_peek_ctx at hctx
        split at hctx
        · cases hctx
        · injection hctx with hctx
          rw [← hctx]
      exact tls_read_peek_eq hready h kernel

/-- The ciphertext of the AEAD call is a part of `raw`. -/
theorem peekCall_length {ctx : TlspeekCtx} {raw : Bytes} {call : AeadCall}
    (h : peekCall ctx raw = some call) : call.ciphertext.length ≤ raw.length := by
  have hpart : ∀ n m : Nat, ((raw.drop n).take m).length ≤ raw.length := by
    intro n m
    rw [List.length_take, List.length_drop]
    omega
  unfold peekCall at h
  dsimp only at h
  split at h
  next => cases h
  next =>
    split at h
    next => cases h
    next =>
      split at h
      next => cases h
      next =>
        split at h
        next => cases h
        next =>
          split at h
          next =>
            injection h with h
            rw [← h]
            exact hpart _ _
          next =>
            injection h with h
            rw [← h]
            exact hpart _ _
          next =>
            injection h with h
            rw [← h]
            exact hpart _ _
          next => cases h

/-- A plaintext fits into `raw`. -/
theorem recordPlaintext_length (h : recordPlaintext W client_fd serial kernel = some p) :
    p.length ≤ rawSize := by
  obtain ⟨ctx, -, hp⟩ := Option.bind_eq_some_iff.mp h
  unfold plaintext at hp
  split at hp
  next => cases hp
  next =>
    obtain ⟨call, hcall, hp⟩ := Option.bind_eq_some_iff.mp hp
    obtain ⟨whole, -, hp⟩ := Option.map_eq_some_iff.mp hp
    have hcipher : call.ciphertext.length ≤ rawSize := by
      refine Nat.le_trans (peekCall_length hcall) ?_
      rw [List.length_take]
      exact Nat.min_le_left _ _
    rw [← hp, List.length_take]
    omega

/-! ## §3. The loop. -/

section

variable {peek : UInt64 → Option Bytes} {limit owner_out_sz : UInt64}

/-- What the loop is to return. -/
def Ends (p : Bytes) (limit owner_out_sz : UInt64) (r : Option (Option (Bytes × Bytes))) : Prop :=
  ∃ found, r = some found ∧ found.map Prod.fst = oneShot p limit.toNat owner_out_sz.toNat

/-- The last window. -/
theorem ownerLoop_last (hpeek : ∀ want : UInt64, want ≠ 0 → peek want = some (p.take want.toNat))
    (hlimit : limit ≠ 0) (turns : Nat) :
    Ends p limit owner_out_sz (ownerLoop peek limit owner_out_sz (turns + 1) limit) := by
  unfold ownerLoop
  rw [if_neg hlimit, hpeek limit hlimit]
  dsimp only
  by_cases hnil : p.take limit.toNat = []
  · rw [if_pos hnil]
    refine ⟨none, rfl, ?_⟩
    rw [oneShot_eq, hnil]
    rfl
  · rw [if_neg hnil]
    cases hparse : parse_request_owner (p.take limit.toNat) owner_out_sz.toNat with
    | none =>
        rw [if_pos (UInt64.le_refl limit)]
        refine ⟨none, rfl, ?_⟩
        rw [oneShot_eq, hparse]
        rfl
    | some owner =>
        refine ⟨some (owner, p.take limit.toNat), rfl, ?_⟩
        rw [oneShot_eq, hparse]
        rfl

/-- **The loop, from any of its windows**, ends with the answer of the last one: the
windows are powers of two until the limit, or until they wrap to zero, and by then the
whole plaintext has been parsed. -/
theorem ownerLoop_spec (hpeek : ∀ want : UInt64, want ≠ 0 → peek want = some (p.take want.toNat))
    (hp : p.length < 2 ^ 63) : ∀ (turns k : Nat) (want : UInt64), want.toNat = 2 ^ k →
      65 < turns + k → want ≤ limit →
      Ends p limit owner_out_sz (ownerLoop peek limit owner_out_sz turns want) := by
  intro turns
  induction turns with
  | zero =>
      intro k want hwant hturns _
      -- no window has 66 bits
      have hbig : 2 ^ 64 ≤ 2 ^ k := Nat.pow_le_pow_right (by decide) (by omega)
      have hlt := want.toNat_lt
      omega
  | succ turns ih =>
      intro k want hwant hturns hle
      have hpos : 0 < 2 ^ k := Nat.two_pow_pos k
      have hne : want ≠ 0 := by
        rintro rfl
        rw [← hwant] at hpos
        exact absurd hpos (by decide)
      have hk : k < 64 := by
        by_contra hk
        have hbig : 2 ^ 64 ≤ 2 ^ k := Nat.pow_le_pow_right (by decide) (by omega)
        have hlt := want.toNat_lt
        omega
      have hle' := UInt64.le_iff_toNat_le.mp hle
      have hlast : limit ≤ want →
          Ends p limit owner_out_sz (ownerLoop peek limit owner_out_sz (turns + 1) want) := by
        intro hge
        have he : want = limit := UInt64.le_antisymm hle hge
        subst he
        exact ownerLoop_last hpeek hne turns
      by_cases hge : limit ≤ want
      · exact hlast hge
      · unfold ownerLoop
        rw [if_neg hne, hpeek want hne]
        dsimp only
        rw [hwant]
        by_cases hnil : p.take (2 ^ k) = []
        · -- the plaintext is empty
          have hempty : p = [] := by
            rcases List.take_eq_nil_iff.mp hnil with h | h
            · omega
            · exact h
          rw [if_pos hnil]
          refine ⟨none, rfl, ?_⟩
          rw [hempty]
          rfl
        · rw [if_neg hnil]
          cases hparse : parse_request_owner (p.take (2 ^ k)) owner_out_sz.toNat with
          | some owner =>
              refine ⟨some (owner, p.take (2 ^ k)), rfl, ?_⟩
              rw [← oneShot_eq] at hparse
              rw [oneShot_mono (by omega) hparse]
              rfl
          | none =>
              rw [if_neg hge]
              dsimp only
              have hdouble : (want * 2).toNat = 2 ^ (k + 1) % 2 ^ 64 := by
                rw [UInt64.toNat_mul, hwant]
                rfl
              by_cases hwrap : k = 63
              · -- the next window is zero, and this one has shown everything
                subst hwrap
                have hzero : want * 2 = 0 := UInt64.toNat_inj.mp hdouble
                rw [hzero, if_neg (by simp)]
                have hall : p.take limit.toNat = p.take (2 ^ 63) := by
                  rw [List.take_of_length_le (by omega), List.take_of_length_le (by omega)]
                cases turns with
                | zero => omega
                | succ turns =>
                    unfold ownerLoop
                    rw [if_pos rfl]
                    refine ⟨none, rfl, ?_⟩
                    rw [oneShot_eq, hall, hparse]
                    rfl
              · have hfits : 2 ^ (k + 1) < 2 ^ 64 := Nat.pow_lt_pow_right (by decide) (by omega)
                rw [Nat.mod_eq_of_lt hfits] at hdouble
                split
                · cases turns with
                  | zero => omega
                  | succ turns =>
                      refine ownerLoop_last hpeek ?_ turns
                      rintro rfl
                      rw [hwant] at hle'
                      simp at hle'
                next hnlt => exact ih (k + 1) (want * 2) hdouble (by omega) (UInt64.not_lt.mp hnlt)

end

/-! ## §4. Both functions. -/

/-- What the functions are to return. -/
def answer (W : WolfCrypt) (client_fd : Int) (serial : TlspeekSerial β) (kernel : Bytes)
    (size owner_out_sz : Nat) : Option Bytes :=
  (recordPlaintext W client_fd serial kernel).bind fun p => oneShot p size owner_out_sz

/-- Without a plaintext the first peek fails. -/
theorem ownerLoop_none {peek : UInt64 → Option Bytes} {limit owner_out_sz want : UInt64}
    (hwant : want ≠ 0) (hpeek : peek want = none) (turns : Nat) :
    ownerLoop peek limit owner_out_sz (turns + 1) want = some none := by
  unfold ownerLoop
  rw [if_neg hwant, hpeek]

/-- The loop over the peeks of one connection, from a power of two or from the limit. -/
theorem ownerLoop_answer (W : WolfCrypt) (client_fd : Int) (serial : TlspeekSerial β)
    (kernel : Bytes) (limit owner_out_sz want : UInt64) {turns : Nat} (hturns : 65 < turns)
    (hlimit : limit ≠ 0) (hwant : (∃ k, want.toNat = 2 ^ k ∧ want ≤ limit) ∨ want = limit) :
    ∃ found, ownerLoop (fun want => peekWith W client_fd serial kernel want.toNat) limit
        owner_out_sz turns want = some found
      ∧ found.map Prod.fst
        = answer W client_fd serial kernel limit.toNat owner_out_sz.toNat := by
  have hpos : ∀ {w : UInt64}, w ≠ 0 → 0 < w.toNat := by
    intro w hw
    refine Nat.pos_of_ne_zero fun h => hw ?_
    exact UInt64.toNat_inj.mp h
  obtain ⟨turns, rfl⟩ : ∃ n, turns = n + 1 := ⟨turns - 1, by omega⟩
  unfold answer
  cases hrecord : recordPlaintext W client_fd serial kernel with
  | none =>
      have hne : want ≠ 0 := by
        rcases hwant with ⟨k, hk, -⟩ | rfl
        · rintro rfl
          exact absurd hk (Nat.ne_of_lt (Nat.two_pow_pos k))
        · exact hlimit
      refine ⟨none, ?_, rfl⟩
      refine ownerLoop_none hne ?_ turns
      rw [peekWith_eq (hpos hne), hrecord]
      rfl
  | some p =>
      have hp : p.length < 2 ^ 63 := by
        have hlen := recordPlaintext_length hrecord
        have hsmall : rawSize < 2 ^ 63 := by decide
        omega
      have hpeek : ∀ w : UInt64, w ≠ 0 →
          (fun w : UInt64 => peekWith W client_fd serial kernel w.toNat) w
            = some (p.take w.toNat) := by
        intro w hw
        show peekWith W client_fd serial kernel w.toNat = _
        rw [peekWith_eq (hpos hw), hrecord]
        rfl
      rcases hwant with ⟨k, hk, hle⟩ | rfl
      · exact ownerLoop_spec hpeek hp (turns + 1) k want hk (by omega) hle
      · exact ownerLoop_last hpeek hlimit turns

/-- **The growing windows are one peek.**  For every buffer size and output size both loops
return within 66 turns, and with a name exactly when `parse_request_owner` finds it in the
first `min(|p|, size)` bytes of the record's plaintext; and what a shorter window names, the
whole window names. -/
theorem progressive_equals_oneShot (W : WolfCrypt) (client_fd : Int) (serial : TlspeekSerial β)
    (kernel : Bytes) :
    (∀ (peek_buf_sz owner_out_sz : UInt64) (turns : Nat), 65 < turns →
      ∃ found, progressive_peek_owner W client_fd serial kernel peek_buf_sz owner_out_sz turns
          = some found
        ∧ found.map Prod.fst
          = answer W client_fd serial kernel peek_buf_sz.toNat owner_out_sz.toNat)
    ∧ (∀ (owner_out_sz : UInt64) (turns : Nat), 65 < turns →
      peek_owner_from_kernel W client_fd serial kernel owner_out_sz turns
        = some (answer W client_fd serial kernel 8192 owner_out_sz.toNat))
    ∧ ∀ (p : Bytes) (w size out : Nat) (n : Bytes), w ≤ size →
      oneShot p w out = some n → oneShot p size out = some n := by
  refine ⟨?_, ?_, fun p w size out n hle h => oneShot_mono hle h⟩
  · intro peek_buf_sz owner_out_sz turns hturns
    unfold progressive_peek_owner
    by_cases hzero : peek_buf_sz = 0 ∨ owner_out_sz = 0
    · -- nothing is parsed, and nothing could be
      rw [if_pos hzero]
      refine ⟨none, rfl, ?_⟩
      unfold answer
      cases recordPlaintext W client_fd serial kernel with
      | none => rfl
      | some p =>
          show none = oneShot p _ _
          rw [oneShot_eq]
          rcases hzero with rfl | rfl
          · rfl
          · cases hparse : parse_request_owner (p.take peek_buf_sz.toNat) (0 : UInt64).toNat with
            | none => rfl
            | some n => exact absurd (parse_request_owner_iff.mp hparse).2 (Nat.not_lt_zero _)
    · rw [if_neg hzero]
      have hsize : peek_buf_sz ≠ 0 := fun h => hzero (Or.inl h)
      refine ownerLoop_answer W client_fd serial kernel _ _ _ hturns hsize ?_
      split
      next => exact Or.inr rfl
      next hlt => exact Or.inl ⟨8, rfl, UInt64.not_lt.mp hlt⟩
  · intro owner_out_sz turns hturns
    unfold peek_owner_from_kernel
    obtain ⟨found, hfound, hanswer⟩ := ownerLoop_answer W client_fd serial kernel 8192
      owner_out_sz 1024 hturns (by decide) (Or.inl ⟨10, rfl, by decide⟩)
    rw [hfound]
    exact congrArg some hanswer

/-- A name that ends behind the first window of the gateway. -/
theorem progressive_equals_oneShot_long :
    ∃ kernel : Bytes, ∃ name : Bytes, name.length = 300
      ∧ (∃ peeked, progressive_peek_owner plainCrypt 5
          (tlspeek_serialize zeroKeyCtx (some ())) kernel 4096 512 66 = some (some (name, peeked)))
      ∧ peek_owner_from_kernel plainCrypt 5 (tlspeek_serialize zeroKeyCtx (some ())) kernel 512 66
        = some (some name) := by
  let name : Bytes := List.replicate 300 97
  let kernel := sealRecord plainCrypt.aesGcm zeroKeyCtx.client_write_key.bytes
    zeroKeyCtx.client_write_iv.bytes zeroKeyCtx.read_seq_num
    ⟨ascii "GET /function/" ++ name ++ ascii " HTTP/1.1", 0⟩
  obtain ⟨hgateway, hworker, -⟩ := progressive_equals_oneShot plainCrypt 5
    (tlspeek_serialize zeroKeyCtx (some ())) kernel
  have hanswer : ∀ size : Nat, size = 4096 ∨ size = 8192 →
      answer plainCrypt 5 (tlspeek_serialize zeroKeyCtx (some ())) kernel size 512
        = some name := by
    rintro size (rfl | rfl)
    · decide +kernel
    · decide +kernel
  refine ⟨kernel, name, List.length_replicate, ?_, ?_⟩
  · obtain ⟨found, hfound, hname⟩ := hgateway 4096 512 66 (by decide)
    rw [show (4096 : UInt64).toNat = 4096 from rfl, show (512 : UInt64).toNat = 512 from rfl,
      hanswer 4096 (Or.inl rfl)] at hname
    obtain ⟨⟨owner, peeked⟩, rfl, rfl⟩ := Option.map_eq_some_iff.mp hname
    exact ⟨peeked, hfound⟩
  · rw [hworker 512 66 (by decide), show (512 : UInt64).toNat = 512 from rfl,
      hanswer 8192 (Or.inr rfl)]

/-- Below `2 ^ 63` no window wraps, and the loop is the one over `windows`. -/
theorem ownerLoop_windows {peek : Nat → Option Bytes} {limit : UInt64}
    (hlimit : limit.toNat < 2 ^ 63) : ∀ (turns : Nat) (want : UInt64)
      (found : Option (Bytes × Bytes)), want ≠ 0 → want ≤ limit →
      ownerLoop (fun w => peek w.toNat) limit 128 turns want = some found →
      found = progressiveLoop peek (windows limit.toNat turns want.toNat) := by
  intro turns
  induction turns with
  | zero =>
      intro want found _ _ h
      cases h
  | succ turns ih =>
      intro want found hne hle h
      have hle' := UInt64.le_iff_toNat_le.mp hle
      unfold ownerLoop at h
      unfold windows progressiveLoop
      rw [if_neg hne] at h
      cases hpeek : peek want.toNat with
      | none =>
          rw [hpeek] at h
          injection h with h
          exact h.symm
      | some peeked =>
          rw [hpeek] at h
          dsimp only at h ⊢
          by_cases hnil : peeked = []
          · rw [if_pos hnil] at h ⊢
            injection h with h
            exact h.symm
          · rw [if_neg hnil] at h ⊢
            rw [show (128 : UInt64).toNat = BENCH2_KA_TARGET_LEN from rfl] at h
            cases hparse : parse_request_owner peeked BENCH2_KA_TARGET_LEN with
            | some owner =>
                rw [hparse] at h
                injection h with h
                exact h.symm
            | none =>
                rw [hparse] at h
                dsimp only at h ⊢
                by_cases hge : limit ≤ want
                · rw [if_pos hge] at h
                  rw [if_pos (UInt64.le_iff_toNat_le.mp hge)]
                  injection h with h
                  exact h.symm
                · rw [if_neg hge] at h
                  rw [if_neg (fun h' => hge (UInt64.le_iff_toNat_le.mpr h'))]
                  have hdouble : (want * 2).toNat = want.toNat * 2 := by
                    rw [UInt64.toNat_mul]
                    show want.toNat * 2 % 2 ^ 64 = want.toNat * 2
                    omega
                  have hnext : (if limit < want * 2 then limit else want * 2).toNat
                      = min (want.toNat * 2) limit.toNat := by
                    split
                    next hlt =>
                      have hlt' := UInt64.lt_iff_toNat_lt.mp hlt
                      omega
                    next hnlt =>
                      have hnlt' := UInt64.le_iff_toNat_le.mp (UInt64.not_lt.mp hnlt)
                      omega
                  have hwant : 0 < want.toNat := by
                    refine Nat.pos_of_ne_zero fun hz => hne ?_
                    exact UInt64.toNat_inj.mp hz
                  rw [← hnext]
                  refine ih _ found ?_ (UInt64.le_iff_toNat_le.mpr (by omega)) h
                  intro hz
                  rw [hz] at hnext
                  have hzero : (0 : UInt64).toNat = 0 := rfl
                  omega

end TlsMigration.Migration.Windows
