/-
  TlsMigration.Lib.Aead
  ─────────────────────
  **AUTHENTICATED ENCRYPTION, ABSTRACTLY.**

  A scheme seals a plaintext under (key, nonce, additional data) into a
  ciphertext of the same length and a tag, and opens EXACTLY what was sealed
  under the same three: the two laws are fields, so every scheme of this
  type is correct and authentic.
-/
import TlsMigration.Lib.Bytes

namespace TlsMigration

/-- An AEAD scheme with tags of `tagSize` bytes. -/
structure Aead (tagSize : Nat) where
  /-- `sealed key nonce aad plaintext = (ciphertext, tag)`. -/
  sealed : Bytes → Bytes → Bytes → Bytes → Bytes × Bytes
  opened : Bytes → Bytes → Bytes → Bytes → Bytes → Option Bytes
  length_ciphertext : ∀ k n a p, (sealed k n a p).1.length = p.length
  length_tag : ∀ k n a p, (sealed k n a p).2.length = tagSize
  /-- Correctness: what was sealed opens. -/
  opened_sealed : ∀ k n a p,
    opened k n a (sealed k n a p).1 (sealed k n a p).2 = some p
  /-- Authenticity: what opens was sealed, under the same key, nonce and data. -/
  sealed_of_opened : ∀ k n a c t p, opened k n a c t = some p → sealed k n a p = (c, t)

/-- The scheme with no secrecy: the plaintext is its own ciphertext and the tag
is `tagSize` zero bytes, so only the laws of `Aead` are left of a cipher. -/
def Aead.plain (tagSize : Nat) : Aead tagSize where
  sealed _ _ _ p := (p, List.replicate tagSize 0)
  opened _ _ _ c t := if t = List.replicate tagSize 0 then some c else none
  length_ciphertext _ _ _ _ := rfl
  length_tag _ _ _ _ := by simp
  opened_sealed _ _ _ _ := by simp
  sealed_of_opened _ _ _ c t p h := by
    split at h
    next ht => simpa [ht] using h.symm
    next => exact absurd h (by simp)

end TlsMigration
