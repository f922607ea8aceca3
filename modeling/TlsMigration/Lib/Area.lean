/-
  TlsMigration.Lib.Area
  ─────────────────────
  **FIXED-SIZE MEMORY AREAS.**

  `Area n` is an array of `n` bytes: the length is part of the value, so a
  copy into it can neither grow nor shrink it.  `Area.write` is `memcpy` to
  the start of the area; what lies behind the copied bytes stays, which is
  what a short copy leaves visible.
-/
import TlsMigration.Lib.Bytes

namespace TlsMigration

/-- An array of exactly `n` bytes. -/
structure Area (n : Nat) where
  bytes : Bytes
  length_eq : bytes.length = n
  deriving DecidableEq

namespace Area

variable {n : Nat}

attribute [simp] Area.length_eq

@[ext]
theorem ext {a b : Area n} (h : a.bytes = b.bytes) : a = b := by
  cases a
  cases b
  simpa using h

/-- `memset(area, 0, n)`. -/
def zero (n : Nat) : Area n := ⟨List.replicate n 0, by simp⟩

/-- The area that holds the byte string `b` and zeros behind it. -/
def ofBytes (n : Nat) (b : Bytes) : Area n :=
  ⟨b.take n ++ List.replicate (n - b.length) 0, by simp; omega⟩

/-- `memcpy(area, src, |src|)`, cut at the end of the area. -/
def write (a : Area n) (src : Bytes) : Area n :=
  ⟨src.take n ++ a.bytes.drop src.length, by simp; omega⟩

theorem write_bytes (a : Area n) (src : Bytes) :
    (a.write src).bytes = src.take n ++ a.bytes.drop src.length := rfl

/-- A copy that fits leaves its bytes at the start. -/
theorem take_write {a : Area n} {src : Bytes} (h : src.length ≤ n) :
    (a.write src).bytes.take src.length = src := by
  rw [write_bytes, List.take_of_length_le h, List.take_left]

/-- A copy that fills the area leaves nothing of what was there. -/
theorem write_full {a : Area n} {src : Bytes} (h : src.length = n) :
    (a.write src).bytes = src := by
  rw [write_bytes, List.take_of_length_le (by omega),
      List.drop_of_length_le (by simp [h]), List.append_nil]

/-- `memcpy(area + off, src, |src|)`, cut at the end of the area. -/
def writeAt (a : Area n) (off : Nat) (src : Bytes) : Area n :=
  ⟨a.bytes.take off ++ src.take (n - off) ++ a.bytes.drop (off + src.length),
    by simp; omega⟩

theorem writeAt_bytes (a : Area n) (off : Nat) (src : Bytes) :
    (a.writeAt off src).bytes
      = a.bytes.take off ++ src.take (n - off) ++ a.bytes.drop (off + src.length) := rfl

/-- A copy behind `off` bytes keeps them and puts its own after them. -/
theorem take_writeAt {a : Area n} {off : Nat} {src : Bytes} (h : off + src.length ≤ n) :
    (a.writeAt off src).bytes.take (off + src.length) = a.bytes.take off ++ src := by
  have hlen : (a.bytes.take off ++ src).length = off + src.length := by
    simp
    omega
  rw [writeAt_bytes, List.take_of_length_le (by omega : src.length ≤ n - off), ← hlen,
      List.take_left]

end Area

end TlsMigration
