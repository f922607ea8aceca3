/-
  TlsMigration.Tlspeek.Hex
  ────────────────────────
  **HEX STRINGS**
  (`hex_decode`, libtlspeek/lib/tlspeek_crypto.c).

  Each pair of characters is read by `sscanf` with `%02x`.  That conversion
  skips blanks, takes a sign, and is content with one digit, so a pair can be
  read without being two digits.

    • `sscanf_02x_isSome_iff` — the pairs that are read;
    • `hex_decode_iff`        — the strings on which the decoder does what
                                it says.
-/
import TlsMigration.Lib.Memory

namespace TlsMigration.Tlspeek

/-! ## §1. The decoder. -/

/-- `isxdigit` -/
def isHex (c : UInt8) : Bool := isDigit c || decide (97 ≤ c ∧ c ≤ 102) || decide (65 ≤ c ∧ c ≤ 70)

def hexVal (c : UInt8) : Nat :=
  if isDigit c then c.toNat - 48 else if 97 ≤ c then c.toNat - 87 else c.toNat - 55

/-- `0x` or `0X`, and nothing behind it. -/
def prefixAlone (field : Bytes) : Bool := decide (field = ascii "0x" ∨ field = ascii "0X")

/-- The number that `%x` finds behind a sign; `none` when there are no digits.  By the standard
`0x` alone is no number, and there are libraries that take it for 0 (`zero_x`). -/
def scanHex (zero_x : Bool) (field : Bytes) : Option Nat :=
  let digits := field.takeWhile isHex
  if digits = [] ∨ (prefixAlone field ∧ zero_x = false) then none
  else some (digits.foldl (fun v c => v * 16 + hexVal c) 0)

/-- A field with its sign; a negative number wraps. -/
def scanField (zero_x : Bool) (field : Bytes) : Option UInt32 :=
  match field with
  | [] => none
  | c :: rest =>
      if c = Ch.minus then (scanHex zero_x rest).map fun v => 0 - UInt32.ofNat v
      else if c = Ch.plus then (scanHex zero_x rest).map UInt32.ofNat
      else (scanHex zero_x field).map UInt32.ofNat

/-- `sscanf(tmp, "%02x", &byte)`: blanks do not count, and the field has at most two bytes. -/
def sscanf_02x (zero_x : Bool) (tmp : Bytes) : Option UInt32 :=
  scanField zero_x (((cstr tmp).dropWhile isSpace).take 2)

/-- The loop: what it writes to `out`, and whether it comes to the end. -/
def hexLoop (zero_x : Bool) : Bytes → Bytes × Bool
  | a :: b :: hex =>
      match sscanf_02x zero_x [a, b, Ch.nul] with
      | none => ([], false)
      | some byte => (byte.toUInt8 :: (hexLoop zero_x hex).1, (hexLoop zero_x hex).2)
  | _ => ([], true)

/-- `hex_decode`: the result, and what has been written to `out`. -/
def hex_decode (zero_x : Bool) (hex : Bytes) : Int × Bytes :=
  if hex.length % 2 ≠ 0 then (-1, [])
  else (if (hexLoop zero_x hex).2 then castInt (hex.length / 2) else -1, (hexLoop zero_x hex).1)

/-! ## §2. Pairs of characters. -/

/-- A pair that `%02x` reads: a digit and anything, or a blank or a sign and a digit. -/
def Readable (zero_x : Bool) (a b : UInt8) : Prop :=
  (isHex a = true ∧ ¬ ((a = 48 ∧ (b = 120 ∨ b = 88)) ∧ zero_x = false))
    ∨ ((isSpace a = true ∨ a = Ch.minus ∨ a = Ch.plus) ∧ isHex b = true)

theorem isHex_bounds {c : UInt8} (h : isHex c = true) : 48 ≤ c.toNat := by
  simp only [isHex, isDigit, Bool.or_eq_true, decide_eq_true_eq, UInt8.le_iff_toNat_le] at h
  have e48 : (48 : UInt8).toNat = 48 := rfl
  have e65 : (65 : UInt8).toNat = 65 := rfl
  have e97 : (97 : UInt8).toNat = 97 := rfl
  omega

/-- A digit is none of the characters that stand in front of one. -/
theorem isHex_plain {c : UInt8} (h : isHex c = true) :
    c ≠ Ch.nul ∧ isSpace c = false ∧ c ≠ Ch.minus ∧ c ≠ Ch.plus := by
  have hlow := isHex_bounds h
  refine ⟨?_, ?_, ?_, ?_⟩
  · rintro rfl
    exact absurd h (by decide)
  · cases hs : isSpace c with
    | false => rfl
    | true =>
        simp only [isSpace, decide_eq_true_eq, UInt8.le_iff_toNat_le] at hs
        have e13 : (13 : UInt8).toNat = 13 := rfl
        rcases hs with rfl | hs
        · exact absurd h (by decide)
        · omega
  · rintro rfl
    exact absurd h (by decide)
  · rintro rfl
    exact absurd h (by decide)

theorem cstr_cons {a : UInt8} (ha : a ≠ Ch.nul) (bs : Bytes) : cstr (a :: bs) = a :: cstr bs := by
  unfold cstr
  rw [List.takeWhile_cons_of_pos (by simpa using ha)]

theorem cstr_single (b : UInt8) : cstr [b, Ch.nul] = if b = Ch.nul then [] else [b] := by
  by_cases hb : b = Ch.nul
  · rw [if_pos hb, hb]
    rfl
  · rw [if_neg hb, cstr_cons hb]
    rfl

/-- A field that starts with a digit. -/
theorem scanHex_isSome {zero_x : Bool} {a : UInt8} (ha : isHex a = true) (rest : Bytes) :
    (scanHex zero_x (a :: rest)).isSome = true
      ↔ ¬ (prefixAlone (a :: rest) = true ∧ zero_x = false) := by
  unfold scanHex
  dsimp only
  rw [List.takeWhile_cons_of_pos ha]
  by_cases h : prefixAlone (a :: rest) = true ∧ zero_x = false
  · rw [if_pos (Or.inr h)]
    simp [h]
  · rw [if_neg (by simp [h])]
    simp [h]

theorem scanHex_none {zero_x : Bool} {field : Bytes} (h : ∀ c ∈ field.head?, isHex c = false) :
    scanHex zero_x field = none := by
  have hnil : field.takeWhile isHex = [] := by
    cases field with
    | nil => rfl
    | cons c field => simp [h c (by simp)]
  unfold scanHex
  dsimp only
  rw [if_pos (Or.inl hnil)]

theorem scanField_sign {zero_x : Bool} {a : UInt8} (ha : a = Ch.minus ∨ a = Ch.plus)
    (rest : Bytes) : (scanField zero_x (a :: rest)).isSome = (scanHex zero_x rest).isSome := by
  unfold scanField
  rcases ha with rfl | rfl
  · simp
  · simp [Ch.plus, Ch.minus]

theorem scanField_plain {zero_x : Bool} {a : UInt8} (h₁ : a ≠ Ch.minus) (h₂ : a ≠ Ch.plus)
    (rest : Bytes) :
    scanField zero_x (a :: rest) = (scanHex zero_x (a :: rest)).map UInt32.ofNat := by
  unfold scanField
  dsimp only
  rw [if_neg h₁, if_neg h₂]

/-- The second character alone is read if it is a digit. -/
theorem scanHex_single (zero_x : Bool) (b : UInt8) :
    (scanHex zero_x (cstr [b, Ch.nul])).isSome = isHex b := by
  rw [cstr_single]
  by_cases hb : b = Ch.nul
  · rw [if_pos hb, hb]
    rfl
  rw [if_neg hb]
  cases hhex : isHex b with
  | true =>
      rw [scanHex_isSome hhex]
      simp [prefixAlone, ascii]
  | false =>
      rw [scanHex_none (by simpa using hhex)]
      rfl

/-- And so it is behind a blank. -/
theorem scanField_blank (zero_x : Bool) (b : UInt8) :
    (scanField zero_x (((cstr [b, Ch.nul]).dropWhile isSpace).take 2)).isSome = isHex b := by
  cases hhex : isHex b with
  | true =>
      obtain ⟨hnul, hspace, hminus, hplus⟩ := isHex_plain hhex
      have hone := scanHex_single zero_x b
      rw [cstr_single, if_neg hnul] at hone ⊢
      rw [List.dropWhile_cons_of_neg (by simp [hspace]), List.take_of_length_le (by simp),
        scanField_plain hminus hplus, Option.isSome_map, hone, hhex]
  | false =>
      rw [cstr_single]
      by_cases hnul : b = Ch.nul
      · rw [if_pos hnul]
        rfl
      rw [if_neg hnul]
      by_cases hspace : isSpace b = true
      · rw [List.dropWhile_cons_of_pos hspace]
        rfl
      rw [List.dropWhile_cons_of_neg hspace, List.take_of_length_le (by simp)]
      by_cases hsign : b = Ch.minus ∨ b = Ch.plus
      · rw [scanField_sign hsign]
        rfl
      · obtain ⟨hminus, hplus⟩ := not_or.mp hsign
        rw [scanField_plain hminus hplus, scanHex_none (by simpa using hhex)]
        rfl

theorem prefixAlone_pair (a b : UInt8) :
    prefixAlone (a :: cstr [b, Ch.nul]) = true ↔ a = 48 ∧ (b = 120 ∨ b = 88) := by
  have hlower : ascii "0x" = [48, 120] := rfl
  have hupper : ascii "0X" = [48, 88] := rfl
  unfold prefixAlone
  rw [cstr_single, hlower, hupper, decide_eq_true_eq]
  by_cases hb : b = Ch.nul
  · rw [if_pos hb, hb]
    simp [Ch.nul]
  · rw [if_neg hb]
    simp [and_or_left]

/-- **The pairs that are read.** -/
theorem sscanf_02x_isSome_iff (zero_x : Bool) (a b : UInt8) :
    (sscanf_02x zero_x [a, b, Ch.nul]).isSome = true ↔ Readable zero_x a b := by
  unfold sscanf_02x Readable
  have hlen : (cstr [b, Ch.nul]).length ≤ 1 := by
    rw [cstr_single]
    split <;> simp
  have htake : (a :: cstr [b, Ch.nul]).take 2 = a :: cstr [b, Ch.nul] :=
    List.take_of_length_le (by rw [List.length_cons]; omega)
  by_cases ha : isHex a = true
  · -- the field starts with the digit, whatever `b` is
    obtain ⟨hnul, hspace, hminus, hplus⟩ := isHex_plain ha
    rw [cstr_cons hnul, List.dropWhile_cons_of_neg (by simp [hspace]), htake,
      scanField_plain hminus hplus, Option.isSome_map, scanHex_isSome ha, prefixAlone_pair]
    simp [ha, hspace, hminus, hplus]
  · by_cases hnul : a = Ch.nul
    · -- an empty string
      rw [hnul]
      exact iff_of_false (by simp [cstr, scanField])
        (by simp [isHex, isDigit, isSpace, Ch.nul, Ch.minus, Ch.plus])
    rw [cstr_cons hnul]
    by_cases hspace : isSpace a = true
    · rw [List.dropWhile_cons_of_pos hspace, scanField_blank]
      simp [ha, hspace]
    rw [List.dropWhile_cons_of_neg hspace, htake]
    by_cases hsign : a = Ch.minus ∨ a = Ch.plus
    · rw [scanField_sign hsign, scanHex_single]
      simp [ha, hsign]
    · obtain ⟨hminus, hplus⟩ := not_or.mp hsign
      rw [scanField_plain hminus hplus, scanHex_none (by simpa using ha)]
      simp [ha, hspace, hminus, hplus]

/-- The value of two digits. -/
theorem sscanf_02x_digits (zero_x : Bool) {a b : UInt8} (ha : isHex a = true)
    (hb : isHex b = true) :
    sscanf_02x zero_x [a, b, Ch.nul] = some (UInt32.ofNat (hexVal a * 16 + hexVal b)) := by
  obtain ⟨hnul, hspace, hminus, hplus⟩ := isHex_plain ha
  obtain ⟨hnul', -⟩ := isHex_plain hb
  -- the second digit is no `x`
  have hne : ¬ (prefixAlone [a, b] = true ∧ zero_x = false) := by
    intro h
    obtain ⟨hpre, -⟩ := h
    have hpair := prefixAlone_pair a b
    rw [cstr_single, if_neg hnul', hpre] at hpair
    obtain ⟨-, rfl | rfl⟩ := hpair.mp rfl
    · exact absurd hb (by decide)
    · exact absurd hb (by decide)
  unfold sscanf_02x
  rw [cstr_cons hnul, cstr_single, if_neg hnul', List.dropWhile_cons_of_neg (by simp [hspace]),
    List.take_of_length_le (by simp), scanField_plain hminus hplus]
  unfold scanHex
  dsimp only
  rw [List.takeWhile_cons_of_pos ha, List.takeWhile_cons_of_pos hb, if_neg (by simp [hne])]
  simp

/-! ## §3. Strings. -/

/-- The digits of a byte string, high half first. -/
def hexOf (digits : Bytes) (bs : Bytes) : Bytes :=
  bs.flatMap fun b => [digits.getD (b.toNat / 16) 0, digits.getD (b.toNat % 16) 0]

def lowerDigits : Bytes := ascii "0123456789abcdef"

def upperDigits : Bytes := ascii "0123456789ABCDEF"

/-- Sixteen digits, each with its own value. -/
def Digits (digits : Bytes) : Prop :=
  ∀ n < 16, isHex (digits.getD n 0) = true ∧ hexVal (digits.getD n 0) = n

theorem digits_lower : Digits lowerDigits := by
  unfold Digits
  decide +kernel

theorem digits_upper : Digits upperDigits := by
  unfold Digits
  decide +kernel

theorem hexOf_length (digits bs : Bytes) : (hexOf digits bs).length = 2 * bs.length := by
  unfold hexOf
  induction bs with
  | nil => rfl
  | cons b bs ih =>
      rw [List.flatMap_cons, List.length_append, ih, List.length_cons, List.length_cons,
        List.length_cons, List.length_nil]
      omega

/-- **What has been written in digits is read back.** -/
theorem hexLoop_hexOf (zero_x : Bool) {digits : Bytes} (hd : Digits digits) (bs : Bytes) :
    hexLoop zero_x (hexOf digits bs) = (bs, true) := by
  induction bs with
  | nil => rfl
  | cons b bs ih =>
      have hb := b.toNat_lt
      -- the two halves of the byte, each below 16
      obtain ⟨hhigh, hvhigh⟩ := hd (b.toNat / 16) (by omega)
      obtain ⟨hlow, hvlow⟩ := hd (b.toNat % 16) (by omega)
      have hbyte : (UInt32.ofNat (b.toNat / 16 * 16 + b.toNat % 16)).toUInt8 = b := by
        rw [Nat.div_add_mod']
        simp
      show hexLoop zero_x (digits.getD (b.toNat / 16) 0 :: digits.getD (b.toNat % 16) 0
        :: hexOf digits bs) = _
      rw [hexLoop, sscanf_02x_digits zero_x hhigh hlow, hvhigh, hvlow, ih]
      dsimp only
      rw [hbyte]

/-- The characters of a string in pairs. -/
def pairs : Bytes → List (UInt8 × UInt8)
  | a :: b :: hex => (a, b) :: pairs hex
  | _ => []

/-- **The loop comes to the end of the strings whose pairs are all read.** -/
theorem hexLoop_end_iff (zero_x : Bool) : ∀ hex : Bytes,
    (hexLoop zero_x hex).2 = true ↔ ∀ p ∈ pairs hex, Readable zero_x p.1 p.2
  | [] => by simp [hexLoop, pairs]
  | [_] => by simp [hexLoop, pairs]
  | a :: b :: hex => by
      have ih := hexLoop_end_iff zero_x hex
      have hpair := sscanf_02x_isSome_iff zero_x a b
      have hcons : (∀ p ∈ pairs (a :: b :: hex), Readable zero_x p.1 p.2)
          ↔ Readable zero_x a b ∧ ∀ p ∈ pairs hex, Readable zero_x p.1 p.2 := by
        simp [pairs]
      -- a pair that is not read ends the loop, whatever is behind it
      rw [hexLoop, hcons, ← ih, ← hpair]
      cases sscanf_02x zero_x [a, b, Ch.nul] with
      | none => simp
      | some byte => simp

/-! ## §4. What the decoder accepts. -/

/-- What `hex_decode` is to do with a string. -/
structure DecodesHex (zero_x : Bool) (hex : Bytes) : Prop where
  /-- the digits of a byte string, small or capital, give its length and the string -/
  digits : ∀ bs, hex = hexOf lowerDigits bs ∨ hex = hexOf upperDigits bs →
    hex_decode zero_x hex = ((bs.length : Int), bs)
  /-- any other character is refused -/
  rejects : hex.length % 2 = 0 → (∃ c ∈ hex, isHex c = false) → (hex_decode zero_x hex).1 = -1
  /-- and so is half a byte -/
  odd : hex.length % 2 = 1 → (hex_decode zero_x hex).1 = -1

theorem castInt_eq_iff (n : Nat) : castInt n = n ↔ n < 2 ^ 31 := by
  unfold castInt Int.bmod
  dsimp only
  split <;> omega

theorem hex_decode_even (zero_x : Bool) {hex : Bytes} (heven : hex.length % 2 = 0) :
    hex_decode zero_x hex
      = (if (hexLoop zero_x hex).2 then castInt (hex.length / 2) else -1, (hexLoop zero_x hex).1) :=
  if_neg (by omega)

theorem hex_decode_digits (zero_x : Bool) {digits : Bytes} (hd : Digits digits) (bs : Bytes) :
    hex_decode zero_x (hexOf digits bs) = ((bs.length : Int), bs) ↔ bs.length < 2 ^ 31 := by
  have hlen := hexOf_length digits bs
  rw [hex_decode_even zero_x (by omega), hexLoop_hexOf zero_x hd, if_pos rfl,
    ← castInt_eq_iff, hlen, Nat.mul_div_cancel_left _ (by decide)]
  exact ⟨fun h => (Prod.mk.inj h).1, fun h => by rw [h]⟩

/-- **The decoder does what it says** on the digits of fewer than 2^31 bytes, and on a string
with another character in it exactly when one of its pairs is not read; half of 2^33 - 2
characters is -1 as an `int`. -/
theorem hex_decode_iff (zero_x : Bool) (hex : Bytes) :
    DecodesHex zero_x hex
      ↔ (∀ bs, hex = hexOf lowerDigits bs ∨ hex = hexOf upperDigits bs → bs.length < 2 ^ 31)
        ∧ (hex.length % 2 = 0 → (∃ c ∈ hex, isHex c = false) →
          (∃ p ∈ pairs hex, ¬ Readable zero_x p.1 p.2) ∨ castInt (hex.length / 2) = -1) := by
  have hdigits : ∀ bs, hex = hexOf lowerDigits bs ∨ hex = hexOf upperDigits bs →
      (hex_decode zero_x hex = ((bs.length : Int), bs) ↔ bs.length < 2 ^ 31) := by
    intro bs h
    rcases h with rfl | rfl
    · exact hex_decode_digits zero_x digits_lower bs
    · exact hex_decode_digits zero_x digits_upper bs
  have heven : hex.length % 2 = 0 → ((hex_decode zero_x hex).1 = -1
      ↔ (∃ p ∈ pairs hex, ¬ Readable zero_x p.1 p.2) ∨ castInt (hex.length / 2) = -1) := by
    intro heven
    have hend := hexLoop_end_iff zero_x hex
    rw [hex_decode_even zero_x heven]
    -- a loop that comes to the end returns half the length, which may still be -1
    by_cases hloop : (hexLoop zero_x hex).2 = true
    · have hno : ¬ ∃ p ∈ pairs hex, ¬ Readable zero_x p.1 p.2 := by
        intro h
        obtain ⟨p, hp, hunread⟩ := h
        exact hunread (hend.mp hloop p hp)
      rw [if_pos hloop, or_iff_right hno]
    · have hsome : ∃ p ∈ pairs hex, ¬ Readable zero_x p.1 p.2 := by
        by_contra hno
        exact hloop (hend.mpr fun p hp => by_contra fun hunread => hno ⟨p, hp, hunread⟩)
      rw [if_neg hloop]
      exact iff_of_true rfl (Or.inl hsome)
  constructor
  · intro h
    refine ⟨fun bs hbs => (hdigits bs hbs).mp (h.digits bs hbs), fun hlen hother => ?_⟩
    exact (heven hlen).mp (h.rejects hlen hother)
  · intro h
    obtain ⟨hshort, hread⟩ := h
    refine ⟨fun bs hbs => (hdigits bs hbs).mpr (hshort bs hbs), fun hlen hother => ?_, ?_⟩
    · exact (heven hlen).mpr (hread hlen hother)
    · intro hodd
      exact congrArg Prod.fst (if_pos (by omega : hex.length % 2 ≠ 0))

/-- One digit, and a letter that is none: the byte 1. -/
theorem one_digit_accepted :
    hex_decode false (ascii "1g") = (1, [1]) ∧ ¬ DecodesHex false (ascii "1g") := by
  have hbyte : hex_decode false (ascii "1g") = (1, [1]) := by decide
  refine ⟨hbyte, fun h => ?_⟩
  have hreject := h.rejects (by decide) ⟨103, by decide, by decide⟩
  rw [hbyte] at hreject
  exact absurd hreject (by decide)

end TlsMigration.Tlspeek
