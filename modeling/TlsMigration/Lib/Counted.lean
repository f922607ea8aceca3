/-
  TlsMigration.Lib.Counted
  ────────────────────────
  **BYTE STRINGS BEHIND A COUNT.**

  A string of at most 255 bytes is written behind a byte with its length, and
  can be read off the front of anything:

      takeCounted s = some (b, rest)   ⟺   s = counted b ++ rest,  |b| < 256
-/
import TlsMigration.Lib.Bytes

namespace TlsMigration

/-- The length in one byte, and the string. -/
def counted (b : Bytes) : Bytes := UInt8.ofNat b.length :: b

/-- A string and what is behind it. -/
def takeCounted : Bytes → Option (Bytes × Bytes)
  | [] => none
  | n :: s => if n.toNat ≤ s.length then some (s.take n.toNat, s.drop n.toNat) else none

@[simp] theorem length_counted (b : Bytes) : (counted b).length = b.length + 1 := rfl

theorem takeCounted_counted {b : Bytes} (hb : b.length < 256) (rest : Bytes) :
    takeCounted (counted b ++ rest) = some (b, rest) := by
  have hlen : (UInt8.ofNat b.length).toNat = b.length := by
    rw [UInt8.toNat_ofNat']
    omega
  unfold counted
  rw [List.cons_append, takeCounted, hlen, if_pos (by rw [List.length_append]; omega),
    List.take_left, List.drop_left]

theorem takeCounted_eq_some {s b rest : Bytes} (h : takeCounted s = some (b, rest)) :
    b.length < 256 ∧ s = counted b ++ rest := by
  cases s with
  | nil => cases h
  | cons n s =>
      obtain ⟨hle, h⟩ := Option.ite_none_right_eq_some.mp h
      obtain ⟨rfl, rfl⟩ := Prod.mk.inj (Option.some.inj h)
      have hlen : (s.take n.toNat).length = n.toNat := by
        rw [List.length_take]
        omega
      have hn := n.toNat_lt
      refine ⟨by omega, ?_⟩
      unfold counted
      rw [hlen, UInt8.ofNat_toNat, List.cons_append, List.take_append_drop]

/-- **Reading inverts writing**, and nothing else is read. -/
theorem takeCounted_iff {s b rest : Bytes} :
    takeCounted s = some (b, rest) ↔ b.length < 256 ∧ s = counted b ++ rest := by
  constructor
  · exact takeCounted_eq_some
  · intro h
    obtain ⟨hb, rfl⟩ := h
    exact takeCounted_counted hb rest

end TlsMigration
