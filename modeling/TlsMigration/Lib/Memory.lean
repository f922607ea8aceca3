/-
  TlsMigration.Lib.Memory
  ───────────────────────
  **BLOCKS OF MEMORY AND THEIR SIZES.**

  A block is the list of its bytes; copies into it and out of it are checked
  and have no result when they go past its end.  Sizes are machine words:

      (int) n    wraps at 2³¹          (size_t) i    wraps at 0
-/
import TlsMigration.Lib.Bytes

namespace TlsMigration

/-! ## §1. Sizes. -/

/-- `(int)` of a `size_t`. -/
def castInt (n : Nat) : Int := (n : Int).bmod (2 ^ 32)

theorem castInt_of_lt {n : Nat} (h : n < 2 ^ 31) : castInt n = n := by
  unfold castInt
  rw [Int.bmod_eq_of_le (by omega) (by omega)]

/-- `(size_t)` of an `int`. -/
def castSize (i : Int) : Nat := (i % 2 ^ 64).toNat

theorem castSize_natCast {n : Nat} (h : n < 2 ^ 64) : castSize n = n := by
  unfold castSize
  omega

/-- A difference of two sizes. -/
def subSize (a b : Nat) : Nat := (a + 2 ^ 64 - b) % 2 ^ 64

theorem subSize_eq {a b : Nat} (hle : b ≤ a) (ha : a < 2 ^ 64) : subSize a b = a - b := by
  unfold subSize
  omega

/-! ## §2. Blocks. -/

/-- `realloc`: what was there stays. -/
def reallocBlock (block : Bytes) (cap : Nat) (fresh : Nat → UInt8) : Bytes :=
  block ++ (List.range (cap - block.length)).map fresh

/-- A store into a block; there is no result when it goes past the end. -/
def storeAt (block : Bytes) (off : Nat) (src : Bytes) : Option Bytes :=
  if off + src.length ≤ block.length then
    some (block.take off ++ src ++ block.drop (off + src.length))
  else none

/-- The bytes at an offset; there is no result when they go past the end. -/
def loadAt (block : Bytes) (off n : Nat) : Option Bytes :=
  if off + n ≤ block.length then some ((block.drop off).take n) else none

theorem length_reallocBlock {block : Bytes} {cap : Nat} (fresh : Nat → UInt8)
    (hle : block.length ≤ cap) : (reallocBlock block cap fresh).length = cap := by
  unfold reallocBlock
  rw [List.length_append, List.length_map, List.length_range]
  omega

theorem take_reallocBlock {block : Bytes} {n : Nat} (cap : Nat) (fresh : Nat → UInt8)
    (hle : n ≤ block.length) : (reallocBlock block cap fresh).take n = block.take n :=
  List.take_append_of_le_length hle

theorem storeAt_of_le {block src : Bytes} {off : Nat} (h : off + src.length ≤ block.length) :
    storeAt block off src = some (block.take off ++ src ++ block.drop (off + src.length)) :=
  if_pos h

theorem loadAt_of_le {block : Bytes} {off n : Nat} (h : off + n ≤ block.length) :
    loadAt block off n = some ((block.drop off).take n) :=
  if_pos h

/-- A store keeps the size, and puts its bytes behind the ones in front of it. -/
theorem storeAt_take (block src : Bytes) {off : Nat} (h : off + src.length ≤ block.length) :
    ∃ block', storeAt block off src = some block' ∧ block'.length = block.length
      ∧ block'.take (off + src.length) = block.take off ++ src := by
  have hfront : (block.take off ++ src).length = off + src.length := by
    rw [List.length_append, List.length_take]
    omega
  refine ⟨_, storeAt_of_le h, ?_, ?_⟩
  · rw [List.length_append, hfront, List.length_drop]
    omega
  · rw [← hfront, List.take_left]

end TlsMigration
