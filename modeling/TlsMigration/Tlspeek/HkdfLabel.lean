/-
  TlsMigration.Tlspeek.HkdfLabel
  ──────────────────────────────
  **THE HkdfLabel AS IT IS BUILT IN ITS BUFFER**
  (`tls13_hkdf_expand_label`, libtlspeek/lib/tlspeek_crypto.c).

  The function writes seven pieces into a buffer of 600 bytes and hands its
  first `pos` bytes to HKDF-Expand.  Here every piece is a checked store, and
  the label is the C string that `strlen` finds.

    • `build_hkdf_label_eq`  — no store leaves the buffer, and the bytes are
                               those of `hkdf_label`;
    • `decodeHkdfLabel_iff`  — the structure that a string encodes;
    • `hkdf_label_encodes`   — the two together.
-/
import TlsMigration.Tlspeek.Crypto
import TlsMigration.Lib.Counted
import TlsMigration.Lib.Packing

namespace TlsMigration.Tlspeek

/-! ## §1. The buffer. -/

/-- `uint8_t hkdf_label[600]` and `pos`. -/
structure LabelBuf where
  hkdf_label : Area 600
  pos : Nat

/-- What is handed to `wc_HKDF_Expand`. -/
def LabelBuf.info (b : LabelBuf) : Bytes := b.hkdf_label.bytes.take b.pos

/-- A copy to `hkdf_label + pos`; there is no result when it goes past the end. -/
def LabelBuf.put (b : LabelBuf) (src : Bytes) : Option LabelBuf :=
  if b.pos + src.length ≤ 600 then some ⟨b.hkdf_label.writeAt b.pos src, b.pos + src.length⟩
  else none

/-- The stores of `tls13_hkdf_expand_label`; `label` points to a C string. -/
def build_hkdf_label (stack : Area 600) (out_len : Nat) (label context : Bytes) :
    Option LabelBuf :=
  let tls13 := ascii "tls13 "
  let full_label_len := tls13.length + (cstr label).length
  (LabelBuf.put ⟨stack, 0⟩ [((out_len >>> 8) &&& 0xFF).toUInt8]).bind fun b =>
  (b.put [(out_len &&& 0xFF).toUInt8]).bind fun b =>
  (b.put [full_label_len.toUInt8]).bind fun b =>
  (b.put tls13).bind fun b =>
  (b.put (cstr label)).bind fun b =>
  (b.put [context.length.toUInt8]).bind fun b =>
  if 0 < context.length then b.put context else some b

/-- A store that fits appends its bytes. -/
theorem LabelBuf.put_eq (b : LabelBuf) (src : Bytes) (h : b.pos + src.length ≤ 600) :
    ∃ b', b.put src = some b' ∧ b'.info = b.info ++ src ∧ b'.pos = b.pos + src.length :=
  ⟨_, if_pos h, Area.take_writeAt h, rfl⟩

/-- The low byte of a number, with and without the mask. -/
theorem toUInt8_and_0xFF (n : Nat) : (n &&& 0xFF).toUInt8 = n.toUInt8 := by
  apply UInt8.toNat_inj.mp
  show (UInt8.ofNat (n &&& (2 ^ 8 - 1))).toNat = (UInt8.ofNat n).toNat
  rw [UInt8.toNat_ofNat', UInt8.toNat_ofNat', Nat.and_two_pow_sub_one_eq_mod, Nat.mod_mod]

/-- **No store leaves the buffer**, for a label of at most 249 bytes and a context of at most
255. -/
theorem build_hkdf_label_eq (stack : Area 600) (out_len : Nat) (label : Bytes) {context : Bytes}
    (hlabel : (cstr label).length ≤ 249) (hcontext : context.length ≤ 255) :
    ∃ b, build_hkdf_label stack out_len label context = some b
      ∧ b.info = hkdf_label out_len (cstr label) context
      ∧ b.pos = 10 + (cstr label).length + context.length := by
  have hsix : (ascii "tls13 ").length = 6 := rfl
  have hstart : (⟨stack, 0⟩ : LabelBuf).info = [] := List.take_zero
  unfold build_hkdf_label hkdf_label
  dsimp only
  rw [toUInt8_and_0xFF, toUInt8_and_0xFF, Nat.shiftRight_eq_div_pow]
  generalize cstr label = name at *
  -- the seven stores in turn; `p` keeps the room that each one needs
  obtain ⟨b₁, h₁, i₁, p₁⟩ := LabelBuf.put_eq ⟨stack, 0⟩ [(out_len / 2 ^ 8).toUInt8]
    (by show 0 + 1 ≤ 600; omega)
  obtain ⟨b₂, h₂, i₂, p₂⟩ := LabelBuf.put_eq b₁ [out_len.toUInt8]
    (by rw [p₁]; show 0 + 1 + 1 ≤ 600; omega)
  obtain ⟨b₃, h₃, i₃, p₃⟩ := LabelBuf.put_eq b₂
    [((ascii "tls13 ").length + name.length).toUInt8]
    (by rw [p₂, p₁]; show 0 + 1 + 1 + 1 ≤ 600; omega)
  have q₃ : b₃.pos = 3 := by rw [p₃, p₂, p₁]; rfl
  obtain ⟨b₄, h₄, i₄, p₄⟩ := LabelBuf.put_eq b₃ (ascii "tls13 ") (by omega)
  obtain ⟨b₅, h₅, i₅, p₅⟩ := LabelBuf.put_eq b₄ name (by omega)
  obtain ⟨b₆, h₆, i₆, p₆⟩ := LabelBuf.put_eq b₅ [context.length.toUInt8]
    (by show b₅.pos + 1 ≤ 600; omega)
  have q₆ : b₆.pos = b₅.pos + 1 := p₆
  obtain ⟨b₇, h₇, i₇, p₇⟩ := LabelBuf.put_eq b₆ context (by omega)
  have hinfo : b₆.info = [(out_len / 256).toUInt8, out_len.toUInt8]
      ++ ((6 + name.length).toUInt8 :: ascii "tls13 " ++ name) ++ [context.length.toUInt8] := by
    rw [i₆, i₅, i₄, i₃, i₂, i₁, hstart, hsix]
    simp
  rw [h₁, Option.bind_some, h₂, Option.bind_some, h₃, Option.bind_some, h₄, Option.bind_some,
    h₅, Option.bind_some, h₆, Option.bind_some]
  by_cases hc : 0 < context.length
  · refine ⟨b₇, (if_pos hc).trans h₇, ?_, by omega⟩
    rw [i₇, hinfo]
    simp
  · -- an empty context is not copied
    have hnil : context = [] := List.eq_nil_of_length_eq_zero (by omega)
    refine ⟨b₆, if_neg hc, ?_, by omega⟩
    rw [hinfo, hnil]

/-! ## §2. The structure a string encodes. -/

/-- `struct { uint16 length; label<0..255>; context<0..255>; }`. -/
structure LabelParts where
  length : Nat
  label : Bytes
  context : Bytes
  deriving DecidableEq, Repr

/-- `info` encodes `t`, and has no bytes left over. -/
def IsHkdfLabel (t : LabelParts) (info : Bytes) : Prop :=
  t.length < 65536 ∧ t.label.length < 256 ∧ t.context.length < 256
    ∧ info = beBytes 2 t.length ++ counted t.label ++ counted t.context

def decodeHkdfLabel : Bytes → Option LabelParts
  | hi :: lo :: s =>
      (takeCounted s).bind fun (label, s) =>
      (takeCounted s).bind fun (context, s) =>
      if s = [] then some ⟨hi.toNat * 256 + lo.toNat, label, context⟩ else none
  | _ => none

theorem beBytes_two (n : Nat) : beBytes 2 n = [(n / 256).toUInt8, n.toUInt8] := rfl

/-- Two bytes and the number they stand for. -/
theorem beBytes_two_of_bytes (hi lo : UInt8) :
    beBytes 2 (hi.toNat * 256 + lo.toNat) = [hi, lo] := by
  have h₁ := hi.toNat_lt
  have h₂ := lo.toNat_lt
  have hhi : (hi.toNat * 256 + lo.toNat) / 256 = hi.toNat := by omega
  have hlo : (hi.toNat * 256 + lo.toNat).toUInt8 = lo := by
    apply UInt8.toNat_inj.mp
    show (UInt8.ofNat (hi.toNat * 256 + lo.toNat)).toNat = lo.toNat
    rw [UInt8.toNat_ofNat']
    omega
  rw [beBytes_two, hhi, hlo]
  show [UInt8.ofNat hi.toNat, lo] = [hi, lo]
  rw [UInt8.ofNat_toNat]

/-- **Decoding is the inverse of the encoding.** -/
theorem decodeHkdfLabel_iff {info : Bytes} {t : LabelParts} :
    decodeHkdfLabel info = some t ↔ IsHkdfLabel t info := by
  constructor
  · intro h
    match info, h with
    | hi :: lo :: s, h =>
        obtain ⟨⟨label, s₁⟩, hl, h⟩ := Option.bind_eq_some_iff.mp h
        obtain ⟨⟨context, s₂⟩, hc, h⟩ := Option.bind_eq_some_iff.mp h
        obtain ⟨hnil, h⟩ := Option.ite_none_right_eq_some.mp h
        obtain ⟨hllt, hs⟩ := takeCounted_iff.mp hl
        obtain ⟨hclt, hs₁⟩ := takeCounted_iff.mp hc
        obtain rfl := Option.some.inj h
        have h₁ := hi.toNat_lt
        have h₂ := lo.toNat_lt
        refine ⟨by show hi.toNat * 256 + lo.toNat < 65536; omega, hllt, hclt, ?_⟩
        show hi :: lo :: s
          = beBytes 2 (hi.toNat * 256 + lo.toNat) ++ counted label ++ counted context
        rw [beBytes_two_of_bytes, hs, hs₁, show s₂ = [] from hnil]
        simp
  · intro h
    obtain ⟨hlen, hllt, hclt, rfl⟩ := h
    have hfront : takeCounted (counted t.label ++ counted t.context)
        = some (t.label, counted t.context) := takeCounted_iff.mpr ⟨hllt, rfl⟩
    have hback : takeCounted (counted t.context) = some (t.context, []) :=
      takeCounted_iff.mpr ⟨hclt, (List.append_nil _).symm⟩
    have hnum : (t.length / 256).toUInt8.toNat * 256 + t.length.toUInt8.toNat = t.length := by
      show (UInt8.ofNat (t.length / 256)).toNat * 256 + (UInt8.ofNat t.length).toNat = t.length
      rw [UInt8.toNat_ofNat', UInt8.toNat_ofNat']
      omega
    rw [beBytes_two, List.append_assoc]
    show (takeCounted (counted t.label ++ counted t.context)).bind _ = some t
    rw [hfront, Option.bind_some]
    show (takeCounted (counted t.context)).bind _ = some t
    rw [hback, Option.bind_some]
    show some (⟨(t.length / 256).toUInt8.toNat * 256 + t.length.toUInt8.toNat, _, _⟩ : LabelParts)
      = some t
    rw [hnum]

/-! ## §3. The arguments, and what they are encoded to. -/

/-- The arguments of a call that fill the three fields. -/
structure LabelArgs where
  out_len : Nat
  label : Bytes
  context : Bytes
  out_len_lt : out_len < 65536
  label_cstr : Ch.nul ∉ label
  label_le : label.length ≤ 249
  context_le : context.length ≤ 255

/-- What the string is to say. -/
def LabelArgs.parts (x : LabelArgs) : LabelParts :=
  ⟨x.out_len, ascii "tls13 " ++ x.label, x.context⟩

/-- The stores of the call, the label being a C string in front of any bytes. -/
def LabelArgs.build (x : LabelArgs) (stack : Area 600) (behind : Bytes) : Option LabelBuf :=
  build_hkdf_label stack x.out_len (x.label ++ Ch.nul :: behind) x.context

theorem LabelArgs.cstr_label (x : LabelArgs) (behind : Bytes) :
    cstr (x.label ++ Ch.nul :: behind) = x.label := by
  rw [cstr_append_nul, cstr_of_no_nul x.label_cstr]

theorem LabelArgs.parts_inj {x y : LabelArgs} (h : x.parts = y.parts) : x = y := by
  obtain ⟨n, l, c, _, _, _, _⟩ := x
  obtain ⟨n', l', c', _, _, _, _⟩ := y
  obtain ⟨rfl, hl, rfl⟩ := LabelParts.mk.inj h
  obtain rfl := List.append_cancel_left hl
  rfl

/-- The bytes of `hkdf_label` are an encoding of the arguments. -/
theorem LabelArgs.isHkdfLabel (x : LabelArgs) :
    IsHkdfLabel x.parts (hkdf_label x.out_len x.label x.context) := by
  have hlabel := x.label_le
  have hcontext := x.context_le
  have hlen : (ascii "tls13 " ++ x.label).length = 6 + x.label.length := List.length_append
  refine ⟨x.out_len_lt, by show (ascii "tls13 " ++ x.label).length < 256; omega,
    by show x.context.length < 256; omega, ?_⟩
  show hkdf_label x.out_len x.label x.context
    = beBytes 2 x.out_len ++ counted (ascii "tls13 " ++ x.label) ++ counted x.context
  unfold counted
  rw [beBytes_two, hlen]
  rfl

/-- What the stores leave, for any content of the stack. -/
theorem LabelArgs.build_eq (x : LabelArgs) (stack : Area 600) (behind : Bytes) :
    ∃ b, x.build stack behind = some b
      ∧ b.info = hkdf_label x.out_len x.label x.context
      ∧ b.pos = 10 + x.label.length + x.context.length := by
  have hlabel := x.label_le
  obtain ⟨b, hb, hinfo, hpos⟩ := build_hkdf_label_eq stack x.out_len
    (x.label ++ Ch.nul :: behind) (by rw [x.cstr_label]; exact hlabel) x.context_le
  rw [x.cstr_label] at hinfo hpos
  exact ⟨b, hb, hinfo, hpos⟩

/-- A string encodes one value at most. -/
theorem IsHkdfLabel.unique {t u : LabelParts} {info : Bytes} (ht : IsHkdfLabel t info)
    (hu : IsHkdfLabel u info) : t = u :=
  Option.some.inj ((decodeHkdfLabel_iff.mpr ht).symm.trans (decodeHkdfLabel_iff.mpr hu))

/-- **The string handed to HKDF-Expand encodes the arguments and nothing else.**  It fits the
buffer, its fields can be read back from it in one way, and two calls that differ in an argument
hand over different strings. -/
theorem hkdf_label_encodes (x : LabelArgs) (stack : Area 600) (behind : Bytes) :
    ∃ b, x.build stack behind = some b
      ∧ b.pos = b.info.length ∧ b.pos ≤ 600
      ∧ decodeHkdfLabel b.info = some x.parts
      ∧ (∀ t, IsHkdfLabel t b.info ↔ t = x.parts)
      ∧ (∀ wc_HKDF_Expand secret hash_algo,
          tls13_hkdf_expand_label wc_HKDF_Expand secret x.label x.context x.out_len hash_algo
            = wc_HKDF_Expand hash_algo secret b.info x.out_len)
      ∧ ∀ (y : LabelArgs) (stack' : Area 600) (behind' : Bytes) (b' : LabelBuf),
          y.build stack' behind' = some b' → b'.info = b.info → y = x := by
  obtain ⟨b, hb, hinfo, hpos⟩ := x.build_eq stack behind
  have hlabel := x.label_le
  have hcontext := x.context_le
  have hparts : IsHkdfLabel x.parts b.info := by
    rw [hinfo]
    exact x.isHkdfLabel
  refine ⟨b, hb, ?_, by omega, decodeHkdfLabel_iff.mpr hparts, ?_, ?_, ?_⟩
  · show b.pos = (b.hkdf_label.bytes.take b.pos).length
    rw [List.length_take, b.hkdf_label.length_eq]
    omega
  · intro t
    constructor
    · intro ht
      exact ht.unique hparts
    · intro ht
      rw [ht]
      exact hparts
  · intro wc_HKDF_Expand secret hash_algo
    show wc_HKDF_Expand hash_algo secret (hkdf_label x.out_len x.label x.context) x.out_len = _
    rw [hinfo]
  · -- the string of `y` is that of `x`, so it encodes the parts of both
    intro y stack' behind' b' hb' heq
    obtain ⟨c, hc, hcinfo, _⟩ := y.build_eq stack' behind'
    obtain rfl := Option.some.inj (hb'.symm.trans hc)
    have hy : IsHkdfLabel y.parts b.info := by
      rw [← heq, hcinfo]
      exact y.isHkdfLabel
    exact LabelArgs.parts_inj (hy.unique hparts)

/-- The arguments for a key of AES-256-GCM. -/
def keyArgs : LabelArgs where
  out_len := 32
  label := ascii "key"
  context := []
  out_len_lt := by decide
  label_cstr := by decide
  label_le := by decide
  context_le := by decide

/-- The largest arguments there are. -/
def longestArgs : LabelArgs where
  out_len := 65535
  label := List.replicate 249 108
  context := List.replicate 255 99
  out_len_lt := by decide
  label_cstr := by decide +kernel
  label_le := by decide +kernel
  context_le := by decide +kernel

/-- The label of a key, and the longest one, which fills 514 of the 600 bytes. -/
theorem hkdf_label_encodes_key :
    (∃ b, keyArgs.build (Area.zero 600) (ascii "iv") = some b ∧ b.pos = 13
      ∧ b.info = [0, 32, 9] ++ ascii "tls13 key" ++ [0]
      ∧ decodeHkdfLabel b.info = some ⟨32, ascii "tls13 key", []⟩)
      ∧ ∃ b, longestArgs.build (Area.zero 600) [] = some b ∧ b.pos = 514
        ∧ decodeHkdfLabel b.info = some longestArgs.parts := by
  have hpos : (keyArgs.build (Area.zero 600) (ascii "iv")).map (fun b => (b.pos, b.info))
      = some (13, [0, 32, 9] ++ ascii "tls13 key" ++ [0]) := by decide +kernel
  have hlongest : (longestArgs.build (Area.zero 600) []).map LabelBuf.pos = some 514 := by
    decide +kernel
  obtain ⟨b, hb, -, -, hdecode, -⟩ := hkdf_label_encodes keyArgs (Area.zero 600) (ascii "iv")
  obtain ⟨c, hc, -, -, hcdecode, -⟩ := hkdf_label_encodes longestArgs (Area.zero 600) []
  rw [hb] at hpos
  rw [hc] at hlongest
  obtain ⟨hbpos, hinfo⟩ := Prod.mk.inj (Option.some.inj hpos)
  exact ⟨⟨b, hb, hbpos, hinfo, hdecode⟩, c, hc, Option.some.inj hlongest, hcdecode⟩

end TlsMigration.Tlspeek
