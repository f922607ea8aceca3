/-
  TlsMigration.Lib.Descriptor
  ───────────────────────────
  **A PROCESS'S DESCRIPTOR TABLE, WITH THE HISTORY OF EVERY DESCRIPTOR.**

  Numbers are reused as soon as they are closed, so a number alone does not
  say which file a program means.  Here every open gets a fresh identity,
  the program's variables carry the identity they were given together with
  the number, and each operation is checked against the table: an operation
  on a number that is closed, or open for another file, is a fault.

    • `FdTable.Ok`  — each identity is open under one number, or has been
                      closed once, or has been sent away once;
    • every operation keeps `Ok`, and none adds a fault when the identity
      it is given is the one the table holds;
    • `Scope`       — what a function that opens and closes on its way leaves.
-/
import Mathlib.Logic.Function.Basic
import Mathlib.Order.Basic

namespace TlsMigration

/-- The identity of one open of a descriptor. -/
abbrev FileId := Nat

structure FdTable where
  /-- which open a number stands for -/
  files : Nat → Option FileId
  /-- the numbers registered with epoll -/
  epoll : Nat → Bool
  next : FileId
  closes : FileId → Nat
  sends : FileId → Nat
  faults : Nat

namespace FdTable

variable (t : FdTable) (fd : Nat) (id : FileId)

/-! ## §1. Operations. -/

/-- The kernel hands out the number `fd`. -/
def opened : FdTable :=
  { t with files := Function.update t.files fd (some t.next), next := t.next + 1 }

/-- Any system call on a descriptor. -/
def use : FdTable :=
  { t with faults := t.faults + (if t.files fd = some id then 0 else 1) }

/-- `close(fd)`; the registration, if any, stays (the file may be open elsewhere). -/
def close : FdTable :=
  { t.use fd id with
    files := Function.update t.files fd none
    closes := Function.update t.closes id (t.closes id + 1) }

/-- The descriptor goes to another process and is closed here.  A descriptor that is
still registered must not be sent. -/
def send : FdTable :=
  { t.use fd id with
    files := Function.update t.files fd none
    sends := Function.update t.sends id (t.sends id + 1)
    faults := (t.use fd id).faults + (if t.epoll fd then 1 else 0) }

/-- `EPOLL_CTL_ADD`. -/
def epollAdd : FdTable :=
  { t.use fd id with epoll := Function.update t.epoll fd true }

/-- `EPOLL_CTL_DEL`. -/
def epollDel : FdTable :=
  { t.use fd id with epoll := Function.update t.epoll fd false }

/-! ## §2. The history of an identity. -/

/-- Each identity is open under one number, or was closed once, or was sent once. -/
structure Ok : Prop where
  files_lt : ∀ {fd id}, t.files fd = some id → id < t.next
  inj : ∀ {fd fd' id}, t.files fd = some id → t.files fd' = some id → fd = fd'
  open_fresh : ∀ {fd id}, t.files fd = some id → t.closes id = 0 ∧ t.sends id = 0
  ended_once : ∀ {id}, id < t.next → (∀ fd, t.files fd ≠ some id) →
    t.closes id + t.sends id = 1
  beyond : ∀ {id}, t.next ≤ id → t.closes id = 0 ∧ t.sends id = 0

variable {t fd id}

/-- An operation that touches neither the numbers nor the history keeps `Ok`. -/
theorem Ok.congr {t' : FdTable} (h : t.Ok) (hf : t'.files = t.files) (hn : t'.next = t.next)
    (hc : t'.closes = t.closes) (hs : t'.sends = t.sends) : t'.Ok where
  files_lt := by
    rw [hf, hn]
    exact h.files_lt
  inj := by
    rw [hf]
    exact h.inj
  open_fresh := by
    rw [hf, hc, hs]
    exact h.open_fresh
  ended_once := by
    rw [hf, hn, hc, hs]
    exact h.ended_once
  beyond := by
    rw [hn, hc, hs]
    exact h.beyond

theorem Ok.use (h : t.Ok) : (t.use fd id).Ok := h.congr rfl rfl rfl rfl

theorem Ok.epollAdd (h : t.Ok) : (t.epollAdd fd id).Ok := h.congr rfl rfl rfl rfl

theorem Ok.epollDel (h : t.Ok) : (t.epollDel fd id).Ok := h.congr rfl rfl rfl rfl

/-- A number that is not open may be handed out. -/
theorem Ok.opened (h : t.Ok) (hfd : t.files fd = none) : (t.opened fd).Ok := by
  have hnew : ∀ {fd' id'}, (t.opened fd).files fd' = some id' →
      (fd' = fd ∧ id' = t.next) ∨ (fd' ≠ fd ∧ t.files fd' = some id') := by
    intro fd' id' hf
    by_cases he : fd' = fd
    · subst he
      simp only [FdTable.opened, Function.update_self, Option.some.injEq] at hf
      exact Or.inl ⟨rfl, hf.symm⟩
    · simp only [FdTable.opened, ne_eq, he, not_false_eq_true, Function.update_of_ne] at hf
      exact Or.inr ⟨he, hf⟩
  constructor
  · intro fd' id' hf
    rcases hnew hf with ⟨-, rfl⟩ | ⟨-, hf⟩
    · exact Nat.lt_succ_self _
    · exact Nat.lt_succ_of_lt (h.files_lt hf)
  · intro fd₁ fd₂ id' h₁ h₂
    rcases hnew h₁ with ⟨e₁, i₁⟩ | ⟨-, g₁⟩ <;> rcases hnew h₂ with ⟨e₂, i₂⟩ | ⟨-, g₂⟩
    · rw [e₁, e₂]
    · exact absurd (i₁ ▸ h.files_lt g₂) (Nat.lt_irrefl _)
    · exact absurd (i₂ ▸ h.files_lt g₁) (Nat.lt_irrefl _)
    · exact h.inj g₁ g₂
  · intro fd' id' hf
    rcases hnew hf with ⟨-, rfl⟩ | ⟨-, hf⟩
    · exact h.beyond (Nat.le_refl _)
    · exact h.open_fresh hf
  · intro id' hlt hnone
    have hne : id' ≠ t.next := by
      rintro rfl
      exact hnone fd (by simp [FdTable.opened])
    refine h.ended_once (Nat.lt_of_le_of_ne (Nat.le_of_lt_succ hlt) hne) fun fd' hf => ?_
    by_cases he : fd' = fd
    · rw [he, hfd] at hf
      cases hf
    · exact hnone fd' (by simpa [FdTable.opened, he] using hf)
  · intro id' hle
    exact h.beyond (Nat.le_of_succ_le hle)

/-- What happens to the numbers when one of them goes. -/
theorem files_update_none {fd fd' : Nat} {id' : FileId}
    (hf : Function.update t.files fd none fd' = some id') : fd' ≠ fd ∧ t.files fd' = some id' := by
  by_cases he : fd' = fd
  · subst he
    simp at hf
  · exact ⟨he, by simpa [he] using hf⟩

/-- Ending an identity once, by whichever of the two counters. -/
theorem Ok.ended {t' : FdTable} (h : t.Ok) (hid : t.files fd = some id)
    (hf : t'.files = Function.update t.files fd none) (hn : t'.next = t.next)
    (hc : ∀ id', id' ≠ id → t'.closes id' = t.closes id' ∧ t'.sends id' = t.sends id')
    (hone : t'.closes id + t'.sends id = 1) : t'.Ok := by
  have hother : ∀ {fd' id'}, t'.files fd' = some id' → t.files fd' = some id' ∧ id' ≠ id := by
    intro fd' id' hf'
    rw [hf] at hf'
    obtain ⟨hne, hf'⟩ := files_update_none hf'
    exact ⟨hf', fun e => hne (h.inj (e ▸ hf') hid)⟩
  constructor
  · intro fd' id' hf'
    rw [hn]
    exact h.files_lt (hother hf').1
  · intro fd₁ fd₂ id' h₁ h₂
    exact h.inj (hother h₁).1 (hother h₂).1
  · intro fd' id' hf'
    obtain ⟨hf', hne⟩ := hother hf'
    rw [(hc id' hne).1, (hc id' hne).2]
    exact h.open_fresh hf'
  · intro id' hlt hnone
    by_cases he : id' = id
    · rw [he]
      exact hone
    · rw [(hc id' he).1, (hc id' he).2]
      refine h.ended_once (hn ▸ hlt) fun fd' hf' => ?_
      have hne : fd' ≠ fd := by
        rintro rfl
        rw [hid] at hf'
        injection hf' with e
        exact he e.symm
      exact hnone fd' (by rw [hf]; simpa [hne] using hf')
  · intro id' hle
    have hne : id' ≠ id := by
      rintro rfl
      exact absurd (h.files_lt hid) (Nat.not_lt.mpr (hn ▸ hle))
    rw [(hc id' hne).1, (hc id' hne).2]
    exact h.beyond (hn ▸ hle)

theorem Ok.close (h : t.Ok) (hid : t.files fd = some id) : (t.close fd id).Ok := by
  refine h.ended hid rfl rfl (fun id' hne => ⟨?_, rfl⟩) ?_
  · simp [FdTable.close, hne]
  · have := h.open_fresh hid
    simp [FdTable.close, FdTable.use, this.1, this.2]

theorem Ok.send (h : t.Ok) (hid : t.files fd = some id) : (t.send fd id).Ok := by
  refine h.ended hid rfl rfl (fun id' hne => ⟨rfl, ?_⟩) ?_
  · simp [FdTable.send, hne]
  · have := h.open_fresh hid
    simp [FdTable.send, FdTable.use, this.1, this.2]

/-- A table with one open descriptor, that has the identity 0. -/
def single (fd : Nat) : FdTable :=
  ⟨Function.update (fun _ => none) fd (some 0), fun _ => false, 1, fun _ => 0, fun _ => 0, 0⟩

theorem single_open {fd fd' : Nat} {id : FileId} (hf : (single fd).files fd' = some id) :
    fd' = fd ∧ id = 0 := by
  by_cases e : fd' = fd
  · subst e
    simp only [single, Function.update_self, Option.some.injEq] at hf
    exact ⟨rfl, hf.symm⟩
  · simp [single, e] at hf

theorem single_ok (fd : Nat) : (single fd).Ok where
  files_lt := fun hf => (single_open hf).2 ▸ Nat.one_pos
  inj := fun hf hf' => (single_open hf).1.trans (single_open hf').1.symm
  open_fresh := fun _ => ⟨rfl, rfl⟩
  ended_once := fun {id} hlt hnone => by
    have e : id = 0 := Nat.lt_one_iff.mp hlt
    have hfd : (single fd).files fd = some id := by
      simp [single, e]
    exact absurd hfd (hnone fd)
  beyond := fun _ => ⟨rfl, rfl⟩

/-! ## §3. Operations that are in order add no fault. -/

theorem use_faults (hid : t.files fd = some id) : (t.use fd id).faults = t.faults := by
  simp [FdTable.use, hid]

theorem close_faults (hid : t.files fd = some id) : (t.close fd id).faults = t.faults :=
  use_faults hid

theorem send_faults (hid : t.files fd = some id) (hep : t.epoll fd = false) :
    (t.send fd id).faults = t.faults := by
  show (t.use fd id).faults + (if t.epoll fd then 1 else 0) = t.faults
  rw [use_faults hid, hep]
  rfl

theorem epollAdd_faults (hid : t.files fd = some id) :
    (t.epollAdd fd id).faults = t.faults := use_faults hid

theorem epollDel_faults (hid : t.files fd = some id) :
    (t.epollDel fd id).faults = t.faults := use_faults hid

@[simp] theorem use_files : (t.use fd id).files = t.files := rfl
@[simp] theorem use_epoll : (t.use fd id).epoll = t.epoll := rfl
@[simp] theorem close_epoll : (t.close fd id).epoll = t.epoll := rfl
@[simp] theorem close_files : (t.close fd id).files = Function.update t.files fd none := rfl
@[simp] theorem send_files : (t.send fd id).files = Function.update t.files fd none := rfl
@[simp] theorem send_epoll : (t.send fd id).epoll = t.epoll := rfl
@[simp] theorem opened_epoll : (t.opened fd).epoll = t.epoll := rfl
@[simp] theorem opened_files :
    (t.opened fd).files = Function.update t.files fd (some t.next) := rfl
@[simp] theorem epollAdd_files : (t.epollAdd fd id).files = t.files := rfl
@[simp] theorem epollAdd_epoll :
    (t.epollAdd fd id).epoll = Function.update t.epoll fd true := rfl
@[simp] theorem epollDel_files : (t.epollDel fd id).files = t.files := rfl
@[simp] theorem epollDel_epoll :
    (t.epollDel fd id).epoll = Function.update t.epoll fd false := rfl

/-! ## §4. What a function leaves behind. -/

/-- From `t` to `t'` exactly the opens in `gone` have ended, and what was opened on the
way was closed on the way. -/
structure Scope (gone : List FileId) (t t' : FdTable) : Prop where
  ok : t'.Ok
  faults : t'.faults = t.faults
  epoll : t'.epoll = t.epoll
  next_le : t.next ≤ t'.next
  files : ∀ fd id, t'.files fd = some id ↔ t.files fd = some id ∧ id ∉ gone
  history : ∀ id, id < t.next → id ∉ gone →
    t'.closes id = t.closes id ∧ t'.sends id = t.sends id
  fresh : ∀ id, t.next ≤ id → id < t'.next → t'.closes id = 1 ∧ t'.sends id = 0

namespace Scope

variable {gone : List FileId} {t' t'' : FdTable}

theorem refl (h : t.Ok) : Scope [] t t where
  ok := h
  faults := rfl
  epoll := rfl
  next_le := Nat.le_refl _
  files := by simp
  history := fun _ _ _ => ⟨rfl, rfl⟩
  fresh := fun id h₁ h₂ => absurd h₂ (Nat.not_lt.mpr h₁)

/-- An open of `t` that has not ended is open still. -/
theorem still_open (h : Scope gone t t') (hid : t.files fd = some id) (hgone : id ∉ gone) :
    t'.files fd = some id := (h.files fd id).mpr ⟨hid, hgone⟩

/-- An open of `t` that has ended has ended once. -/
theorem ended_once (h : Scope gone t t') (ht : t.Ok) (hid : t.files fd = some id)
    (hgone : id ∈ gone) : t'.closes id + t'.sends id = 1 := by
  have hlt : id < t'.next := Nat.lt_of_lt_of_le (ht.files_lt hid) h.next_le
  exact h.ok.ended_once hlt fun fd' hf => ((h.files fd' id).mp hf).2 hgone

/-- An open of `t` that is open still has neither been closed nor sent. -/
theorem not_ended (h : Scope gone t t') (hid : t.files fd = some id) (hgone : id ∉ gone) :
    t'.closes id + t'.sends id = 0 := by
  obtain ⟨hcloses, hsends⟩ := h.ok.open_fresh (h.still_open hid hgone)
  rw [hcloses, hsends]

theorem use (h : Scope gone t t') (hid : t.files fd = some id) (hgone : id ∉ gone) :
    Scope gone t (t'.use fd id) :=
  { h with
    ok := h.ok.use
    faults := (use_faults (h.still_open hid hgone)).trans h.faults }

/-- One more open ends, by whichever of the two ways. -/
theorem end_one (h : Scope gone t t') (ht : t.Ok) (hid : t.files fd = some id)
    (hok : t''.Ok) (hfaults : t''.faults = t'.faults) (hepoll : t''.epoll = t'.epoll)
    (hnext : t''.next = t'.next) (hfiles : t''.files = Function.update t'.files fd none)
    (hother : ∀ id', id' ≠ id → t''.closes id' = t'.closes id' ∧ t''.sends id' = t'.sends id') :
    Scope (id :: gone) t t'' where
  ok := hok
  faults := hfaults.trans h.faults
  epoll := hepoll.trans h.epoll
  next_le := by
    rw [hnext]
    exact h.next_le
  files := fun fd' id' => by
    rw [hfiles, List.mem_cons, not_or]
    constructor
    · intro hf
      obtain ⟨hne, hf⟩ := files_update_none hf
      obtain ⟨hold, hnot⟩ := (h.files fd' id').mp hf
      exact ⟨hold, fun e => hne (ht.inj (e ▸ hold) hid), hnot⟩
    · rintro ⟨hold, hne, hnot⟩
      have hfd : fd' ≠ fd := by
        rintro rfl
        rw [hid] at hold
        exact hne (Option.some.inj hold).symm
      rw [Function.update_of_ne hfd]
      exact h.still_open hold hnot
  history := fun id' hlt hnot => by
    rw [List.mem_cons, not_or] at hnot
    obtain ⟨hc, hs⟩ := hother id' hnot.1
    obtain ⟨hc', hs'⟩ := h.history id' hlt hnot.2
    exact ⟨hc.trans hc', hs.trans hs'⟩
  fresh := fun id' hle hlt => by
    have hne : id' ≠ id := fun e => absurd (ht.files_lt hid) (Nat.not_lt.mpr (e ▸ hle))
    rw [(hother id' hne).1, (hother id' hne).2]
    exact h.fresh id' hle (hnext ▸ hlt)

theorem close (h : Scope gone t t') (ht : t.Ok) (hid : t.files fd = some id)
    (hgone : id ∉ gone) : Scope (id :: gone) t (t'.close fd id) := by
  have hopen := h.still_open hid hgone
  refine h.end_one ht hid (h.ok.close hopen) (close_faults hopen) rfl rfl rfl ?_
  intro id' hne
  exact ⟨Function.update_of_ne hne _ _, rfl⟩

theorem send (h : Scope gone t t') (ht : t.Ok) (hid : t.files fd = some id)
    (hgone : id ∉ gone) (hep : t.epoll fd = false) : Scope (id :: gone) t (t'.send fd id) := by
  have hopen := h.still_open hid hgone
  have hep' : t'.epoll fd = false := by
    rw [h.epoll]
    exact hep
  refine h.end_one ht hid (h.ok.send hopen) (send_faults hopen hep') rfl rfl rfl ?_
  intro id' hne
  exact ⟨rfl, Function.update_of_ne hne _ _⟩

/-- A descriptor that is opened, used and closed on the way. -/
theorem inside {r : Nat} {gone' : List FileId} (h : Scope gone t t') (ht : t.Ok)
    (hfree : t'.files r = none) (hin : Scope (t'.next :: gone') (t'.opened r) t'')
    (hsends : t''.sends t'.next = 0)
    (hgone' : ∀ id ∈ gone', ∃ fd, t.files fd = some id) : Scope (gone' ++ gone) t t'' where
  ok := hin.ok
  faults := hin.faults.trans h.faults
  epoll := hin.epoll.trans h.epoll
  next_le := Nat.le_trans h.next_le (Nat.le_trans (Nat.le_succ _) hin.next_le)
  files := fun fd id => by
    rw [hin.files, opened_files, List.mem_cons, List.mem_append, not_or, not_or]
    by_cases e : fd = r
    · subst e
      have hnot : t'.files fd ≠ some id := by
        rw [hfree]
        exact fun e => by cases e
      rw [Function.update_self]
      constructor
      · rintro ⟨e, hne, -⟩
        exact absurd (Option.some.inj e).symm hne
      · rintro ⟨hold, -, hnot'⟩
        exact absurd (h.still_open hold hnot') hnot
    · rw [Function.update_of_ne e, h.files]
      constructor
      · rintro ⟨⟨hold, hnot⟩, -, hnot'⟩
        exact ⟨hold, hnot', hnot⟩
      · rintro ⟨hold, hnot', hnot⟩
        refine ⟨⟨hold, hnot⟩, ?_, hnot'⟩
        exact Nat.ne_of_lt (Nat.lt_of_lt_of_le (ht.files_lt hold) h.next_le)
  history := fun id hlt hnot => by
    rw [List.mem_append, not_or] at hnot
    have hlt' : id < t'.next := Nat.lt_of_lt_of_le hlt h.next_le
    have hnot' : id ∉ t'.next :: gone' := by
      rw [List.mem_cons, not_or]
      exact ⟨Nat.ne_of_lt hlt', hnot.1⟩
    obtain ⟨hc, hs⟩ := hin.history id (Nat.lt_succ_of_lt hlt') hnot'
    obtain ⟨hc', hs'⟩ := h.history id hlt hnot.2
    exact ⟨hc.trans hc', hs.trans hs'⟩
  fresh := fun id hle hlt => by
    rcases Nat.lt_trichotomy id t'.next with h' | rfl | h'
    · have hnot : id ∉ t'.next :: gone' := by
        rw [List.mem_cons, not_or]
        refine ⟨Nat.ne_of_lt h', fun hmem => ?_⟩
        obtain ⟨fd, hfd⟩ := hgone' id hmem
        exact absurd (ht.files_lt hfd) (Nat.not_lt.mpr hle)
      obtain ⟨hc, hs⟩ := hin.history id (Nat.lt_succ_of_lt h') hnot
      obtain ⟨hc', hs'⟩ := h.fresh id hle h'
      exact ⟨hc.trans hc', hs.trans hs'⟩
    · have hnone : ∀ fd, t''.files fd ≠ some t'.next := fun fd hf =>
        ((hin.files fd _).mp hf).2 List.mem_cons_self
      have hone := hin.ok.ended_once hlt hnone
      rw [hsends] at hone
      exact ⟨hone, hsends⟩
    · exact hin.fresh id h' hlt

/-- A second `close` of an open that has ended is a fault, and is counted. -/
theorem close_again (h : Scope gone t t') (ht : t.Ok) (hid : t.files fd = some id)
    (hgone : id ∈ gone) :
    (t'.close fd id).closes id + (t'.close fd id).sends id = 2
      ∧ (t'.close fd id).faults = t.faults + 1 := by
  have hone := h.ended_once ht hid hgone
  have hclosed : t'.files fd ≠ some id := fun hf => ((h.files fd id).mp hf).2 hgone
  constructor
  · show Function.update t'.closes id (t'.closes id + 1) id + t'.sends id = 2
    rw [Function.update_self]
    omega
  · show t'.faults + (if t'.files fd = some id then 0 else 1) = t.faults + 1
    rw [if_neg hclosed, h.faults]

end Scope

end FdTable

end TlsMigration
