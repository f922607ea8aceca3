/-
  TlsMigration.Bench2.Payload
  ───────────────────────────
  The struct that travels with a descriptor (`bench2_keepalive_payload_t`,
  bench2_payload.h).  How its fields lie in memory is a parameter: gateway
  and workers are compiled from one header, so what one writes the other
  reads back.
-/
import TlsMigration.Lib.Area

namespace TlsMigration.Bench2

def BENCH2_KA_MAGIC : UInt32 := 0x42324B41
def BENCH2_KA_VERSION : UInt32 := 1
def BENCH2_KA_TARGET_LEN : Nat := 128

/-- `bench2_keepalive_payload_t` around a serialised session. -/
@[ext]
structure Payload (S : Type*) where
  magic : UInt32
  version : UInt32
  serial : S
  target_function : Area BENCH2_KA_TARGET_LEN

/-- The memory layout of the struct: `n` is its `sizeof`. -/
structure Layout (S : Type*) (n : Nat) where
  bytes : Payload S → Area n
  read : Area n → Payload S
  read_bytes : ∀ p, read (bytes p) = p

/-- The struct has room for its magic number. -/
theorem Layout.size_pos {S : Type*} {n : Nat} (layout : Layout S n) (p : Payload S) : 0 < n := by
  by_contra hzero
  have hempty : ∀ a b : Area n, a = b := by
    intro a b
    have ha := List.length_eq_zero_iff.mp (show a.bytes.length = 0 by rw [a.length_eq]; omega)
    have hb := List.length_eq_zero_iff.mp (show b.bytes.length = 0 by rw [b.length_eq]; omega)
    exact Area.ext (ha.trans hb.symm)
  -- two structs would be one
  have hone : ∀ q : Payload S, q = p := by
    intro q
    rw [← layout.read_bytes q, hempty (layout.bytes q) (layout.bytes p), layout.read_bytes]
  have h₁ : 0 = p.magic := congrArg Payload.magic (hone { p with magic := 0 })
  have h₂ : 1 = p.magic := congrArg Payload.magic (hone { p with magic := 1 })
  exact absurd (h₁.trans h₂.symm) (by decide)

/-- `snprintf(target_function, sizeof(target_function), "%s", name)`. -/
def targetOf (name : Bytes) : Area BENCH2_KA_TARGET_LEN := Area.ofBytes _ (name.take 127)

/-- The C string in `target_function` (`payloadTarget` of the gateway). -/
def Payload.target {S : Type*} (p : Payload S) : Bytes := cstr p.target_function.bytes

/-- The name in a target field that has room for it and a terminator. -/
theorem cstr_ofBytes {name : Bytes} (h : name.length < BENCH2_KA_TARGET_LEN) :
    cstr (Area.ofBytes BENCH2_KA_TARGET_LEN name).bytes = cstr name := by
  have hzeros : BENCH2_KA_TARGET_LEN - name.length
      = (BENCH2_KA_TARGET_LEN - name.length - 1) + 1 := by omega
  show cstr (name.take BENCH2_KA_TARGET_LEN
    ++ List.replicate (BENCH2_KA_TARGET_LEN - name.length) 0) = _
  rw [List.take_of_length_le (Nat.le_of_lt h), hzeros, List.replicate_succ]
  exact cstr_append_nul name _

/-- A name that fits comes back. -/
theorem cstr_targetOf {name : Bytes} (hlen : name.length ≤ 127) (hnul : Ch.nul ∉ name) :
    cstr (targetOf name).bytes = name := by
  unfold targetOf
  rw [List.take_of_length_le hlen, cstr_ofBytes (by unfold BENCH2_KA_TARGET_LEN; omega)]
  exact cstr_of_no_nul hnul

/-! ## The packed layout. -/

/-- A little-endian `uint32_t`. -/
def le32 (x : UInt32) : Bytes :=
  [.ofNat x.toNat, .ofNat (x.toNat / 256), .ofNat (x.toNat / 65536), .ofNat (x.toNat / 16777216)]

def ofLe32 (b : Bytes) : UInt32 :=
  .ofNat (b.foldr (fun byte acc => byte.toNat + 256 * acc) 0)

@[simp] theorem le32_length (x : UInt32) : (le32 x).length = 4 := rfl

theorem ofLe32_le32 (x : UInt32) : ofLe32 (le32 x) = x := by
  have hx := x.toNat_lt
  apply UInt32.toNat_inj.mp
  simp only [ofLe32, le32, List.foldr_cons, List.foldr_nil, UInt8.toNat_ofNat',
    UInt32.toNat_ofNat']
  omega

/-- The fields one after the other, around any fixed-size form of the session. -/
def Layout.packed {S : Type*} {k : Nat} (enc : S → Area k) (dec : Area k → S)
    (h : ∀ s, dec (enc s) = s) : Layout S (8 + k + BENCH2_KA_TARGET_LEN) where
  bytes p := ⟨le32 p.magic ++ le32 p.version ++ (enc p.serial).bytes ++ p.target_function.bytes,
    by simp; omega⟩
  read b :=
    { magic := ofLe32 (b.bytes.take 4)
      version := ofLe32 ((b.bytes.drop 4).take 4)
      serial := dec ⟨(b.bytes.drop 8).take k, by simp; omega⟩
      target_function := ⟨b.bytes.drop (8 + k), by simp⟩ }
  read_bytes p := by
    have hhead : (le32 p.magic ++ le32 p.version).length = 8 := rfl
    ext1
    · show ofLe32 ((le32 p.magic ++ le32 p.version ++ _ ++ _).take 4) = p.magic
      rw [List.append_assoc, List.append_assoc, List.take_left' (le32_length _), ofLe32_le32]
    · show ofLe32 (((le32 p.magic ++ le32 p.version ++ _ ++ _).drop 4).take 4) = p.version
      rw [List.append_assoc, List.append_assoc, List.drop_left' (le32_length _),
        List.take_left' (le32_length _), ofLe32_le32]
    · refine (congrArg dec (Area.ext ?_)).trans (h p.serial)
      show ((le32 p.magic ++ le32 p.version ++ _ ++ _).drop 8).take k = (enc p.serial).bytes
      rw [List.append_assoc, List.drop_left' hhead, List.take_left' (enc p.serial).length_eq]
    · refine Area.ext ?_
      show (le32 p.magic ++ le32 p.version ++ _ ++ p.target_function.bytes).drop (8 + k) = _
      exact List.drop_left' (by rw [List.length_append, hhead, (enc p.serial).length_eq])

end TlsMigration.Bench2
