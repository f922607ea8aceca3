/-
  TlsMigration.Lib.Packing
  ────────────────────────
  **FIXED-SIZE FORMS OF VALUES.**

  A `Packing α k` writes the values of `α` into `k` bytes each and reads them
  back.  Packings of a struct are built from those of its fields.
-/
import TlsMigration.Lib.Area

namespace TlsMigration

structure Packing (α : Type*) (k : Nat) where
  enc : α → Area k
  dec : Area k → α
  dec_enc : ∀ a, dec (enc a) = a

/-- The `k` low bytes of a number, the lowest one first. -/
def leBytes : Nat → Nat → Bytes
  | 0, _ => []
  | k + 1, v => UInt8.ofNat v :: leBytes k (v / 256)

def leVal : Bytes → Nat
  | [] => 0
  | b :: bs => b.toNat + 256 * leVal bs

@[simp] theorem length_leBytes (k v : Nat) : (leBytes k v).length = k := by
  induction k generalizing v with
  | zero => rfl
  | succ k ih =>
      show (leBytes k (v / 256)).length + 1 = k + 1
      rw [ih]

theorem leVal_leBytes (k v : Nat) : leVal (leBytes k v) = v % 256 ^ k := by
  induction k generalizing v with
  | zero => exact (Nat.mod_one v).symm
  | succ k ih =>
      have hlow : (UInt8.ofNat v).toNat = v % 256 := UInt8.toNat_ofNat'
      show (UInt8.ofNat v).toNat + 256 * leVal (leBytes k (v / 256)) = _
      rw [ih, hlow, Nat.pow_succ', Nat.mod_mul]

theorem leBytes_eq_map (k v : Nat) :
    leBytes k v = (List.range k).map fun i => UInt8.ofNat (v / 256 ^ i) := by
  induction k generalizing v with
  | zero => rfl
  | succ k ih =>
      rw [List.range_succ_eq_map, List.map_cons, List.map_map, leBytes, ih, Nat.pow_zero,
        Nat.div_one]
      refine congrArg (List.cons _) (List.map_congr_left fun i _ => ?_)
      show UInt8.ofNat (v / 256 / 256 ^ i) = UInt8.ofNat (v / 256 ^ (i + 1))
      rw [Nat.pow_succ', Nat.div_div_eq_div_mul]

/-- The same bytes, the highest one first. -/
def beBytes (k v : Nat) : Bytes := (leBytes k v).reverse

@[simp] theorem length_beBytes (k v : Nat) : (beBytes k v).length = k := by
  unfold beBytes
  rw [List.length_reverse, length_leBytes]

/-- Numbers that fit are told apart by their bytes. -/
theorem beBytes_inj {k v w : Nat} (hv : v < 256 ^ k) (hw : w < 256 ^ k)
    (h : beBytes k v = beBytes k w) : v = w := by
  have hle : leBytes k v = leBytes k w := List.reverse_inj.mp h
  have hval := congrArg leVal hle
  rw [leVal_leBytes, leVal_leBytes, Nat.mod_eq_of_lt hv, Nat.mod_eq_of_lt hw] at hval
  exact hval

namespace Packing

variable {α β : Type*} {k l : Nat}

def area : Packing (Area k) k := ⟨id, id, fun _ => rfl⟩

def u32 : Packing UInt32 4 where
  enc x := ⟨leBytes 4 x.toNat, length_leBytes _ _⟩
  dec a := .ofNat (leVal a.bytes)
  dec_enc x := by
    have hlt := x.toNat_lt
    show UInt32.ofNat (leVal (leBytes 4 x.toNat)) = x
    rw [leVal_leBytes, Nat.mod_eq_of_lt (by omega), UInt32.ofNat_toNat]

def u64 : Packing UInt64 8 where
  enc x := ⟨leBytes 8 x.toNat, length_leBytes _ _⟩
  dec a := .ofNat (leVal a.bytes)
  dec_enc x := by
    have hlt := x.toNat_lt
    show UInt64.ofNat (leVal (leBytes 8 x.toNat)) = x
    rw [leVal_leBytes, Nat.mod_eq_of_lt (by omega), UInt64.ofNat_toNat]

/-- One value behind the other. -/
def pair (p : Packing α k) (q : Packing β l) : Packing (α × β) (k + l) where
  enc x := ⟨(p.enc x.1).bytes ++ (q.enc x.2).bytes, by simp⟩
  dec a := (p.dec ⟨a.bytes.take k, by simp⟩, q.dec ⟨a.bytes.drop k, by simp⟩)
  dec_enc := by
    intro x
    refine Prod.ext ?_ ?_
    · refine (congrArg p.dec (Area.ext ?_)).trans (p.dec_enc x.1)
      exact List.take_left' (p.enc x.1).length_eq
    · refine (congrArg q.dec (Area.ext ?_)).trans (q.dec_enc x.2)
      exact List.drop_left' (p.enc x.1).length_eq

/-- The same bytes for another view of the value. -/
def map (p : Packing α k) (f : β → α) (g : α → β) (h : ∀ b, g (f b) = b) : Packing β k where
  enc b := p.enc (f b)
  dec a := g (p.dec a)
  dec_enc b := by rw [p.dec_enc, h]

/-- A value that may be missing, behind a byte that says so. -/
def option (p : Packing α k) : Packing (Option α) (k + 1) where
  enc
    | none => Area.zero (k + 1)
    | some x => ⟨1 :: (p.enc x).bytes, by simp⟩
  dec a :=
    if a.bytes.head? = some 1 then some (p.dec ⟨a.bytes.tail, by simp⟩) else none
  dec_enc x := by
    cases x with
    | none => rfl
    | some x =>
        show some (p.dec (p.enc x)) = some x
        rw [p.dec_enc]

end Packing

end TlsMigration
