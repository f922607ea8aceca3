/-
  TlsMigration.Lib.Bytes
  ──────────────────────
  **BYTE STRINGS AND THE C STRING FUNCTIONS.**

  A memory area is the list of its bytes.  The searches of <string.h> are
  stated as splittings of that list, because every proof about a parser is a
  proof about where a byte string is cut:

      memchr c b = some i   ⟺   b = l ++ c :: r,  c ∉ l,  l.length = i

  A C string is the part of the area before its first NUL (`cstr`).  Reading
  past the end of the list reads NUL, so a list is also its own C string
  when it holds no NUL.
-/
import Mathlib.Algebra.Group.Int.Defs
import Mathlib.Algebra.Group.Nat.Defs
import Mathlib.Data.List.Basic
import Mathlib.Data.List.TakeWhile

namespace TlsMigration

abbrev Bytes := List UInt8

/-- The bytes of a string literal. -/
def ascii (s : String) : Bytes := s.toList.map fun c => c.toNat.toUInt8

namespace Ch

/-! ## §1. Named characters. -/

def nul : UInt8 := 0
def tab : UInt8 := 9
def lf : UInt8 := 10
def cr : UInt8 := 13
def space : UInt8 := 32
def hash : UInt8 := 35
def plus : UInt8 := 43
def minus : UInt8 := 45
def slash : UInt8 := 47
def question : UInt8 := 63

end Ch

/-! ## §2. memchr. -/

/-- `memchr`: the offset of the first `c`. -/
def memchr (c : UInt8) : Bytes → Option Nat
  | [] => none
  | b :: bs => if b = c then some 0 else (memchr c bs).map (· + 1)

theorem memchr_eq_none {c : UInt8} {b : Bytes} : memchr c b = none ↔ c ∉ b := by
  induction b with
  | nil => simp [memchr]
  | cons x xs ih =>
      by_cases hx : x = c
      · simp [memchr, hx]
      · simp [memchr, hx, ih, Ne.symm hx]

theorem memchr_append_cons {c : UInt8} (l r : Bytes) (hl : c ∉ l) :
    memchr c (l ++ c :: r) = some l.length := by
  induction l with
  | nil => simp [memchr]
  | cons x xs ih =>
      have hx : x ≠ c := fun h => hl (by simp [h])
      have hxs : c ∉ xs := fun h => hl (by simp [h])
      simp [memchr, hx, ih hxs]

theorem memchr_eq_some {c : UInt8} {b : Bytes} {i : Nat} :
    memchr c b = some i ↔ ∃ l r, b = l ++ c :: r ∧ c ∉ l ∧ l.length = i := by
  constructor
  · intro h
    induction b generalizing i with
    | nil => simp [memchr] at h
    | cons x xs ih =>
        by_cases hx : x = c
        · subst hx
          simp only [memchr, if_true, Option.some.injEq] at h
          exact ⟨[], xs, by simp, by simp, by simpa using h⟩
        · simp only [memchr, hx, if_false, Option.map_eq_some_iff] at h
          obtain ⟨j, hj, hji⟩ := h
          obtain ⟨l, r, hb, hl, hlen⟩ := ih hj
          exact ⟨x :: l, r, by simp [hb], by simp [hl, Ne.symm hx], by simp [hlen, hji]⟩
  · rintro ⟨l, r, rfl, hl, rfl⟩
    exact memchr_append_cons l r hl

theorem memchr_lt {c : UInt8} {b : Bytes} {i : Nat} (h : memchr c b = some i) :
    i < b.length := by
  obtain ⟨l, r, rfl, -, rfl⟩ := memchr_eq_some.mp h
  simp

/-- A hit stays the first hit when bytes are appended. -/
theorem memchr_append_of_some {c : UInt8} {b : Bytes} {i : Nat} (q : Bytes)
    (h : memchr c b = some i) : memchr c (b ++ q) = some i := by
  obtain ⟨l, r, rfl, hl, rfl⟩ := memchr_eq_some.mp h
  rw [List.append_assoc, List.cons_append]
  exact memchr_append_cons l (r ++ q) hl

/-! ## §3. C strings. -/

/-- The C string stored at the start of an area: its bytes before the first NUL. -/
def cstr (b : Bytes) : Bytes := b.takeWhile (· ≠ Ch.nul)

theorem cstr_of_no_nul {b : Bytes} (h : Ch.nul ∉ b) : cstr b = b := by
  unfold cstr
  rw [List.takeWhile_eq_self_iff]
  intro x hx
  simp only [ne_eq, decide_eq_true_eq]
  rintro rfl
  exact h hx

theorem nul_notMem_cstr (b : Bytes) : Ch.nul ∉ cstr b := by
  intro h
  have := List.mem_takeWhile_imp h
  simp at this

/-- A C string ends at the first terminator. -/
theorem cstr_append_nul (b q : Bytes) : cstr (b ++ Ch.nul :: q) = cstr b := by
  induction b with
  | nil => simp [cstr]
  | cons x xs ih =>
      unfold cstr at ih ⊢
      rw [List.cons_append, List.takeWhile_cons, List.takeWhile_cons, ih]

/-! ## §4. Substring search. -/

/-- The offset of the first occurrence of a nonempty `needle` (`find_subseq`
of the workers, `strstr` of libc; both give up on an empty needle or none). -/
def firstOcc (needle : Bytes) : Bytes → Option Nat
  | [] => none
  | b :: bs =>
      if needle.isPrefixOf (b :: bs) then some 0
      else (firstOcc needle bs).map (· + 1)

/-- An occurrence that no earlier offset shares is the first one. -/
theorem firstOcc_eq_some {needle b : Bytes} {i : Nat} (hne : needle ≠ [])
    (hocc : needle <+: b.drop i)
    (hfirst : ∀ j, j < i → ¬ needle <+: b.drop j) :
    firstOcc needle b = some i := by
  induction b generalizing i with
  | nil =>
      simp only [List.drop_nil, List.prefix_nil] at hocc
      exact absurd hocc hne
  | cons x xs ih =>
      cases i with
      | zero =>
          simp only [List.drop_zero] at hocc
          simp [firstOcc, List.isPrefixOf_iff_prefix, hocc]
      | succ i =>
          have h0 : ¬ needle <+: x :: xs := by simpa using hfirst 0 (by omega)
          have hrec := ih (i := i) (by simpa using hocc)
            (fun j hj => by simpa using hfirst (j + 1) (by omega))
          simp [firstOcc, List.isPrefixOf_iff_prefix, h0, hrec]

theorem firstOcc_spec {needle b : Bytes} {i : Nat} (h : firstOcc needle b = some i) :
    needle <+: b.drop i ∧ ∀ j, j < i → ¬ needle <+: b.drop j := by
  induction b generalizing i with
  | nil => simp [firstOcc] at h
  | cons x xs ih =>
      simp only [firstOcc] at h
      split at h
      next hp =>
        injection h with h
        subst h
        exact ⟨by simpa [List.isPrefixOf_iff_prefix] using hp, fun j hj => by omega⟩
      next hp =>
        obtain ⟨k, hk, rfl⟩ := Option.map_eq_some_iff.mp h
        obtain ⟨hocc, hfirst⟩ := ih hk
        refine ⟨by simpa using hocc, fun j hj => ?_⟩
        cases j with
        | zero => simpa [List.isPrefixOf_iff_prefix] using hp
        | succ j => simpa using hfirst j (by omega)

theorem firstOcc_lt {needle b : Bytes} {i : Nat} (h : firstOcc needle b = some i) :
    i < b.length := by
  induction b generalizing i with
  | nil => simp [firstOcc] at h
  | cons x xs ih =>
      simp only [firstOcc] at h
      split at h
      next =>
        injection h with h
        subst h
        simp
      next =>
        obtain ⟨k, hk, rfl⟩ := Option.map_eq_some_iff.mp h
        simpa using ih hk

theorem firstOcc_le {needle b : Bytes} {i : Nat} (h : firstOcc needle b = some i) :
    i + needle.length ≤ b.length ∨ needle = [] := by
  obtain ⟨hocc, -⟩ := firstOcc_spec h
  by_cases hn : needle = []
  · exact Or.inr hn
  · left
    have hlen := hocc.length_le
    rw [List.length_drop] at hlen
    have : 0 < needle.length := List.length_pos_iff.mpr hn
    omega

theorem firstOcc_isSome {needle b : Bytes} (hne : needle ≠ []) :
    (firstOcc needle b).isSome = true ↔ needle <:+: b := by
  induction b with
  | nil =>
      rw [List.infix_nil]
      exact iff_of_false (by simp [firstOcc]) hne
  | cons x xs ih =>
      rw [List.infix_cons_iff, ← ih, ← List.isPrefixOf_iff_prefix, firstOcc]
      split
      next hpre => exact ⟨fun _ => Or.inl hpre, fun _ => rfl⟩
      next hpre =>
        rw [Option.isSome_map]
        exact ⟨Or.inr, fun h => h.resolve_left hpre⟩

/-! ## §5. A byte of an area. -/

/-- A byte in front of a cut. -/
theorem getD_take {b : Bytes} {n i : Nat} (hi : i < n) : (b.take n).getD i 0 = b.getD i 0 := by
  rw [List.getD_eq_getElem?_getD, List.getD_eq_getElem?_getD, List.getElem?_take_of_lt hi]

/-- A byte in front of what is appended. -/
theorem getD_append {b : Bytes} {i : Nat} (hi : i < b.length) (q : Bytes) :
    (b ++ q).getD i 0 = b.getD i 0 := by
  rw [List.getD_eq_getElem?_getD, List.getD_eq_getElem?_getD, List.getElem?_append_left hi]

/-! ## §6. Letter case and digits. -/

/-- `c - 'A' + 'a'` on capital letters, the identity elsewhere. -/
def lower (c : UInt8) : UInt8 := if 65 ≤ c ∧ c ≤ 90 then c + 32 else c

/-- Byte-by-byte comparison of a line start with a lower-case needle. -/
def startsLower (needle line : Bytes) : Bool :=
  decide ((line.take needle.length).map lower = needle)

def isDigit (c : UInt8) : Bool := decide (48 ≤ c ∧ c ≤ 57)

def digitVal (c : UInt8) : Nat := c.toNat - 48

/-- `isspace` in the C locale. -/
def isSpace (c : UInt8) : Bool := decide (c = 32 ∨ (9 ≤ c ∧ c ≤ 13))

/-- The value of a digit string read after the value `acc`. -/
def digitsVal (acc : Nat) (ds : Bytes) : Nat := ds.foldl (fun a d => a * 10 + digitVal d) acc

/-- What comes next makes a longer first part. -/
theorem take_append_prefix {c : Nat} {w bytes : Bytes} (h : bytes <+: w.drop c) :
    w.take c ++ bytes = w.take (c + bytes.length) := by
  have hb : bytes = (w.drop c).take bytes.length := List.prefix_iff_eq_take.mp h
  rw [List.take_add, ← hb]

end TlsMigration
