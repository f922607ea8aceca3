/-
  TlsMigration.Lib.Chunked
  ────────────────────────
  **HEXADECIMAL NUMBERS AND THE CHUNKED CODING OF A BYTE STRING.**

  A body in chunked coding is a sequence of chunks, each behind a line that
  gives its size in hexadecimal digits, and a last line that gives 0.

    • `SizeLine.chunkSize_bytes` — a C program that cuts a size line at the
      semicolon and hands it to `strtoul` gets the size.
-/
import TlsMigration.Lib.Lines

namespace TlsMigration

def Ch.zero : UInt8 := 48
def Ch.semicolon : UInt8 := 59

/-! ## §1. strtoul. -/

def isHexDigit (c : UInt8) : Bool :=
  decide ((48 ≤ c ∧ c ≤ 57) ∨ (65 ≤ c ∧ c ≤ 70) ∨ (97 ≤ c ∧ c ≤ 102))

def hexDigitVal (c : UInt8) : Nat :=
  if c ≤ 57 then c.toNat - 48 else if c ≤ 70 then c.toNat - 55 else c.toNat - 87

/-- The value of a string of hexadecimal digits read after the value `acc`. -/
def hexDigitsVal (acc : Nat) (ds : Bytes) : Nat :=
  ds.foldl (fun a d => a * 16 + hexDigitVal d) acc

def ULONG_MAX : Nat := 18446744073709551615

/-- What `strtoul` returns, and whether it sets `errno`. -/
structure Strtoul where
  value : Nat
  erange : Bool
  deriving DecidableEq

/-- An optional sign. -/
def skipSign : Bytes → Bool × Bytes
  | [] => (false, [])
  | c :: s => if c = Ch.minus then (true, s) else if c = Ch.plus then (false, s) else (false, c :: s)

/-- An optional `0x`, in front of a digit. -/
def skip0x : Bytes → Bytes
  | z :: x :: d :: s =>
      -- the letter x, in either case
      if z = Ch.zero ∧ (x = 120 ∨ x = 88) ∧ isHexDigit d = true then d :: s else z :: x :: d :: s
  | s => s

/-- A number as an `unsigned long`. -/
def toULong (neg : Bool) (v : Nat) : Strtoul :=
  if ULONG_MAX < v then ⟨ULONG_MAX, true⟩ else ⟨if neg then (2 ^ 64 - v) % 2 ^ 64 else v, false⟩

/-- `strtoul(s, &ep, 16)` with 64-bit numbers; `none` when `ep == s`. -/
def strtoul16 (s : Bytes) : Option Strtoul :=
  let p := skipSign (s.dropWhile isSpace)
  let digits := (skip0x p.2).takeWhile isHexDigit
  if digits = [] then none else some (toULong p.1 (hexDigitsVal 0 digits))

/-- The size that a line gives: what stands before its semicolon, as a C string. -/
def chunkSize (line : Bytes) : Option Strtoul :=
  strtoul16 ((cstr line).takeWhile (· ≠ Ch.semicolon))

theorem toULong_le (neg : Bool) (v : Nat) : (toULong neg v).value ≤ ULONG_MAX := by
  unfold toULong
  split
  · exact Nat.le_refl _
  · dsimp only
    split
    · have hlt := Nat.mod_lt (2 ^ 64 - v) (show 0 < 2 ^ 64 by decide)
      unfold ULONG_MAX
      omega
    · omega

theorem strtoul16_le {s : Bytes} {r : Strtoul} (h : strtoul16 s = some r) : r.value ≤ ULONG_MAX := by
  unfold strtoul16 at h
  dsimp only at h
  split at h
  · cases h
  · injection h with h
    rw [← h]
    exact toULong_le _ _

theorem chunkSize_lt {line : Bytes} {r : Strtoul} (h : chunkSize line = some r) :
    r.value < 2 ^ 64 := by
  have hle := strtoul16_le h
  unfold ULONG_MAX at hle
  omega

/-- A hexadecimal digit is no space, no sign, and ends no line or number. -/
theorem isHexDigit_ne {d c : UInt8} (hd : isHexDigit d = true) (hc : isHexDigit c = false) :
    d ≠ c := by
  rintro rfl
  rw [hd] at hc
  cases hc

theorem isHexDigit_not_space {d : UInt8} (hd : isHexDigit d = true) : isSpace d = false := by
  unfold isHexDigit at hd
  simp only [decide_eq_true_eq, UInt8.le_iff_toNat_le] at hd
  unfold isSpace
  simp only [decide_eq_false_iff_not, not_or, not_and, UInt8.le_iff_toNat_le]
  constructor
  · rintro rfl
    revert hd
    decide
  · intro _
    have e48 : (48 : UInt8).toNat = 48 := rfl
    have e65 : (65 : UInt8).toNat = 65 := rfl
    have e97 : (97 : UInt8).toNat = 97 := rfl
    have e13 : (13 : UInt8).toNat = 13 := rfl
    omega

/-- **Digits, and nothing else, are read as their value.** -/
theorem strtoul16_digits {ds : Bytes} (hne : ds ≠ []) (hds : ∀ d ∈ ds, isHexDigit d = true)
    (hsmall : hexDigitsVal 0 ds ≤ ULONG_MAX) :
    strtoul16 ds = some ⟨hexDigitsVal 0 ds, false⟩ := by
  obtain ⟨d, ds', rfl⟩ := List.exists_cons_of_ne_nil hne
  have hd : isHexDigit d = true := hds d List.mem_cons_self
  have hspace : (d :: ds').dropWhile isSpace = d :: ds' := by
    rw [List.dropWhile_cons, isHexDigit_not_space hd]
    rfl
  have hminus : d ≠ Ch.minus := isHexDigit_ne hd (by decide)
  have hplus : d ≠ Ch.plus := isHexDigit_ne hd (by decide)
  have htake : (d :: ds').takeWhile isHexDigit = d :: ds' := List.takeWhile_eq_self_iff.mpr hds
  have hsign : skipSign (d :: ds') = (false, d :: ds') := by
    unfold skipSign
    dsimp only
    rw [if_neg hminus, if_neg hplus]
  -- a second character x would be a digit
  have h0x : skip0x (d :: ds') = d :: ds' := by
    unfold skip0x
    split
    next z x d₀ s' heq =>
      have hx : isHexDigit x = true := hds x (by rw [heq]; simp)
      rw [if_neg, heq]
      rintro ⟨-, hx' | hx', -⟩
      · exact isHexDigit_ne hx (by decide) hx'
      · exact isHexDigit_ne hx (by decide) hx'
    next => rfl
  unfold strtoul16
  rw [hspace, hsign]
  dsimp only
  rw [h0x, htake, if_neg hne]
  unfold toULong
  rw [if_neg (by omega)]
  rfl

/-! ## §2. The coding. -/

/-- A line that gives the size `n`: digits, and an extension that nothing reads. -/
structure SizeLine (n : Nat) where
  digits : Bytes
  ext : Bytes
  digits_ne : digits ≠ []
  hex : ∀ d ∈ digits, isHexDigit d = true
  value : hexDigitsVal 0 digits = n
  ext_semicolon : ext = [] ∨ ext.head? = some Ch.semicolon
  ext_lf : Ch.lf ∉ ext

/-- A line without an extension. -/
theorem no_ext_semicolon :
    ([] : Bytes) = [] ∨ ([] : Bytes).head? = some Ch.semicolon :=
  Or.inl rfl

structure Chunk where
  data : Bytes
  nonempty : data ≠ []
  line : SizeLine data.length

def SizeLine.bytes {n : Nat} (l : SizeLine n) : Bytes := l.digits ++ l.ext

def Chunk.bytes (c : Chunk) : Bytes := c.line.bytes ++ crlf ++ c.data ++ crlf

/-- A body in chunked coding. -/
structure ChunkedBody where
  chunks : List Chunk
  last : SizeLine 0

namespace ChunkedBody

variable (e : ChunkedBody)

/-- The chunks alone. -/
def chunkBytes : Bytes := (e.chunks.map Chunk.bytes).flatten

def bytes : Bytes := e.chunkBytes ++ e.last.bytes ++ crlfcrlf

/-- What is coded. -/
def data : Bytes := (e.chunks.map Chunk.data).flatten

end ChunkedBody

namespace SizeLine

variable {n : Nat} (l : SizeLine n)

theorem lf_notMem : Ch.lf ∉ l.bytes := by
  intro h
  rcases List.mem_append.mp h with h | h
  · exact isHexDigit_ne (l.hex _ h) (by decide) rfl
  · exact l.ext_lf h

theorem bytes_ne : l.bytes ≠ [] := by
  intro h
  exact l.digits_ne (List.append_eq_nil_iff.mp h).1

/-- The digits are what stands before the semicolon. -/
theorem cut : (cstr l.bytes).takeWhile (· ≠ Ch.semicolon) = l.digits := by
  have hnul : ∀ d ∈ l.digits, decide (d ≠ Ch.nul) = true := fun d hd =>
    decide_eq_true (isHexDigit_ne (l.hex d hd) (by decide))
  have hsemi : ∀ d ∈ l.digits, decide (d ≠ Ch.semicolon) = true := fun d hd =>
    decide_eq_true (isHexDigit_ne (l.hex d hd) (by decide))
  have hext : (cstr l.ext).takeWhile (· ≠ Ch.semicolon) = [] := by
    rcases l.ext_semicolon with h | h
    · rw [h]
      rfl
    · obtain ⟨rest, hrest⟩ : ∃ rest, l.ext = Ch.semicolon :: rest := by
        cases hl : l.ext with
        | nil =>
            rw [hl] at h
            cases h
        | cons c rest =>
            rw [hl] at h
            injection h with h
            exact ⟨rest, by rw [h]⟩
      rw [hrest]
      rfl
  unfold bytes cstr at *
  rw [List.takeWhile_append_of_pos hnul, List.takeWhile_append_of_pos hsemi, hext, List.append_nil]

/-- **A size line gives its size.** -/
theorem chunkSize_bytes (hn : n ≤ ULONG_MAX) : chunkSize l.bytes = some ⟨n, false⟩ := by
  have hval : hexDigitsVal 0 l.digits = n := l.value
  unfold chunkSize
  rw [l.cut, strtoul16_digits l.digits_ne l.hex (by omega), hval]

end SizeLine

/-- A chunk's parts, in a text that goes on behind it. -/
theorem Chunk.bytes_append (c : Chunk) (rest : Bytes) :
    c.bytes ++ rest = c.line.bytes ++ crlf ++ (c.data ++ (crlf ++ rest)) := by
  unfold Chunk.bytes
  simp only [List.append_assoc]

theorem Chunk.length_bytes (c : Chunk) :
    c.bytes.length = c.line.bytes.length + 2 + c.data.length + 2 := by
  unfold Chunk.bytes crlf
  simp only [List.length_append, List.length_cons, List.length_nil]

end TlsMigration
