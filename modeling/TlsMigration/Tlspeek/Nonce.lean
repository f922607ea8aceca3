/-
  TlsMigration.Tlspeek.Nonce
  ──────────────────────────
  **NO NONCE IS USED TWICE**
  (`tls13_compute_nonce`, libtlspeek/lib/tlspeek_crypto.c).

  A nonce is the IV of a direction XOR the number of the record.  With the IV
  fixed it tells all 2^64 numbers apart, and with the number fixed all IVs.

    • `paddedSeq_eq`        — the bytes of the number, the highest one first;
    • `nonces_never_repeat` — the equation, both injectivities, and the calls
                              of the peek.
-/
import TlsMigration.Tlspeek.Peek
import TlsMigration.Lib.Packing

namespace TlsMigration.Tlspeek

/-! ## §1. The bytes of a sequence number. -/

/-- The shift and the mask cut out byte `i`. -/
theorem seqByte_eq (seq_num : UInt64) {i : Nat} (hi : i < 8) :
    seqByte seq_num i = UInt8.ofNat (seq_num.toNat / 256 ^ i) := by
  have hshift : (8 * i).toUInt64.toNat % 64 = 8 * i := by
    show (UInt64.ofNat (8 * i)).toNat % 64 = 8 * i
    rw [UInt64.toNat_ofNat']
    omega
  have hpow : 2 ^ (8 * i) = 256 ^ i := by
    rw [Nat.pow_mul]
  apply UInt8.toNat_inj.mp
  unfold seqByte
  rw [UInt64.toNat_toUInt8, UInt64.toNat_and, UInt64.toNat_shiftRight, hshift,
    Nat.shiftRight_eq_div_pow, hpow, UInt8.toNat_ofNat']
  have hmask : (0xFF : UInt64).toNat = 2 ^ 8 - 1 := rfl
  rw [hmask, Nat.and_two_pow_sub_one_eq_mod, Nat.mod_mod]

/-- **The padded number** is four zeros and the number, the highest byte first. -/
theorem paddedSeq_eq (seq_num : UInt64) :
    paddedSeq seq_num = [0, 0, 0, 0] ++ beBytes 8 seq_num.toNat := by
  unfold paddedSeq beBytes
  rw [leBytes_eq_map, ← List.map_reverse]
  have hrev : (List.range 8).reverse = (List.range 8).map (7 - ·) := rfl
  rw [hrev, List.map_map]
  refine congrArg ([0, 0, 0, 0] ++ ·) (List.map_congr_left fun i hi => ?_)
  rw [List.mem_range] at hi
  exact seqByte_eq seq_num (by omega)

theorem paddedSeq_inj {n m : UInt64} (h : paddedSeq n = paddedSeq m) : n = m := by
  rw [paddedSeq_eq, paddedSeq_eq] at h
  have hn := n.toNat_lt
  have hm := m.toNat_lt
  exact UInt64.toNat_inj.mp (beBytes_inj (by omega) (by omega) (List.append_cancel_left h))

theorem paddedSeq_length (seq_num : UInt64) : (paddedSeq seq_num).length = 12 := by
  rw [paddedSeq_eq, List.length_append, length_beBytes]
  rfl

/-! ## §2. Nonces. -/

/-- What is XORed with the same bytes can be told apart. -/
theorem zipWith_xor_cancel : ∀ {a b c : Bytes}, b.length = a.length → c.length = a.length →
    List.zipWith (· ^^^ ·) a b = List.zipWith (· ^^^ ·) a c → b = c
  | [], b, c, hb, hc, _ => by
      rw [List.length_eq_zero_iff.mp hb, List.length_eq_zero_iff.mp hc]
  | _ :: _, [], _, hb, _, _ => by cases hb
  | _ :: _, _ :: _, [], _, hc, _ => by cases hc
  | x :: a, y :: b, z :: c, hb, hc, h => by
      rw [List.zipWith_cons_cons, List.zipWith_cons_cons] at h
      injection h with hhead htail
      have htails := zipWith_xor_cancel (Nat.succ.inj hb) (Nat.succ.inj hc) htail
      rw [(UInt8.xor_right_inj x).mp hhead, htails]

theorem nonce_seq_inj (iv : Area TLSPEEK_IV_SIZE) :
    Function.Injective (tls13_compute_nonce iv.bytes) := by
  intro n m h
  have hiv : iv.bytes.length = 12 := iv.length_eq
  rw [tls13_compute_nonce_eq, tls13_compute_nonce_eq] at h
  refine paddedSeq_inj (zipWith_xor_cancel ?_ ?_ h)
  · rw [paddedSeq_length, hiv]
  · rw [paddedSeq_length, hiv]

theorem nonce_iv_inj (seq_num : UInt64) :
    Function.Injective fun iv : Area TLSPEEK_IV_SIZE => tls13_compute_nonce iv.bytes seq_num := by
  intro iv iv' h
  have hiv : iv.bytes.length = 12 := iv.length_eq
  have hiv' : iv'.bytes.length = 12 := iv'.length_eq
  dsimp only at h
  rw [tls13_compute_nonce_eq, tls13_compute_nonce_eq,
    List.zipWith_comm_of_comm UInt8.xor_comm (l := iv.bytes),
    List.zipWith_comm_of_comm UInt8.xor_comm (l := iv'.bytes)] at h
  refine Area.ext (zipWith_xor_cancel ?_ ?_ h)
  · rw [paddedSeq_length, hiv]
  · rw [paddedSeq_length, hiv']

/-! ## §3. The calls of the peek. -/

/-- The nonce of a call is the one of its context. -/
theorem peekCall_nonce {ctx : TlspeekCtx} {raw : Bytes} {call : AeadCall}
    (h : peekCall ctx raw = some call) :
    call.nonce = tls13_compute_nonce ctx.client_write_iv.bytes ctx.read_seq_num := by
  have hlen : (tls13_compute_nonce ctx.client_write_iv.bytes ctx.read_seq_num).length = 12 := by
    have hiv : ctx.client_write_iv.bytes.length = 12 := ctx.client_write_iv.length_eq
    rw [tls13_compute_nonce_eq, List.length_zipWith, paddedSeq_length, hiv]
    rfl
  have htake := List.take_of_length_le (Nat.le_of_eq hlen)
  unfold peekCall at h
  obtain ⟨-, h⟩ := Option.ite_none_left_eq_some.mp h
  dsimp only at h
  obtain ⟨-, h⟩ := Option.ite_none_left_eq_some.mp h
  obtain ⟨-, h⟩ := Option.ite_none_left_eq_some.mp h
  obtain ⟨-, h⟩ := Option.ite_none_left_eq_some.mp h
  -- both families get the first 12 bytes, which are all
  split at h
  · rw [← Option.some.inj h]
    exact htake
  · rw [← Option.some.inj h]
    exact htake
  · rw [← Option.some.inj h]
    exact htake
  · cases h

/-- **Nonces never repeat.**  The nonce is the IV XOR the padded big-endian number; with one of
the two fixed it is injective in the other; and two calls of the peek with one IV and different
numbers have different nonces. -/
theorem nonces_never_repeat :
    (∀ (iv : Area TLSPEEK_IV_SIZE) (seq_num : UInt64), tls13_compute_nonce iv.bytes seq_num
        = List.zipWith (· ^^^ ·) iv.bytes ([0, 0, 0, 0] ++ beBytes 8 seq_num.toNat))
      ∧ (∀ iv : Area TLSPEEK_IV_SIZE, Function.Injective (tls13_compute_nonce iv.bytes))
      ∧ (∀ seq_num : UInt64, Function.Injective
          fun iv : Area TLSPEEK_IV_SIZE => tls13_compute_nonce iv.bytes seq_num)
      ∧ ∀ (ctx ctx' : TlspeekCtx) (raw raw' : Bytes) (call call' : AeadCall),
          peekCall ctx raw = some call → peekCall ctx' raw' = some call' →
          ctx.client_write_iv = ctx'.client_write_iv → ctx.read_seq_num ≠ ctx'.read_seq_num →
          call.nonce ≠ call'.nonce := by
  refine ⟨?_, nonce_seq_inj, nonce_iv_inj, ?_⟩
  · intro iv seq_num
    rw [tls13_compute_nonce_eq, paddedSeq_eq]
  · intro ctx ctx' raw raw' call call' hcall hcall' hiv hne hsame
    rw [peekCall_nonce hcall, peekCall_nonce hcall', hiv] at hsame
    exact hne (nonce_seq_inj ctx'.client_write_iv hsame)

end TlsMigration.Tlspeek
