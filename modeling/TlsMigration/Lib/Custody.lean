/-
  TlsMigration.Lib.Custody
  ────────────────────────
  **WHO HOLDS A DESCRIPTOR.**

  A program keeps its descriptors in places: the entries of its tables, the
  fields of its objects, the variables of the function that is running.  In
  good order every place holds an open of its own, and every open that the
  program made is in some place.

    • `Custody`         — the good order;
    • one lemma for each operation on the table and for a move from one place
      to another;
    • `Custody.of_scope` — what a function with a `Scope` of its own leaves;
    • `Custody.exactly_one` — an open is in one place, or has ended once;
    • `FdTable.Follows`  — what a handler leaves alone.

  The same serves for the heap: `opened` is an allocation, and `close` its
  `free`.
-/
import TlsMigration.Lib.Descriptor

namespace TlsMigration

namespace FdTable

/-- `close` of a descriptor that may be `-1`. -/
def closeOpt (t : FdTable) : Option (Nat × FileId) → FdTable
  | none => t
  | some p => t.close p.1 p.2

/-- What a function that handles `fd` leaves alone: what is open afterwards was open before
or is new, and no number but `fd` leaves epoll. -/
structure Follows (fd : Nat) (t t' : FdTable) : Prop where
  next_le : t.next ≤ t'.next
  files : ∀ fd' id, t'.files fd' = some id → t.files fd' = some id ∨ t.next ≤ id
  epoll : ∀ fd', fd' ≠ fd → t.epoll fd' = true → t'.epoll fd' = true

namespace Follows

variable {fd : Nat} {t t₁ t₂ : FdTable}

theorem refl (t : FdTable) : Follows fd t t :=
  ⟨Nat.le_refl _, fun _ _ h => Or.inl h, fun _ _ h => h⟩

theorem trans (h : Follows fd t t₁) (h' : Follows fd t₁ t₂) : Follows fd t t₂ where
  next_le := Nat.le_trans h.next_le h'.next_le
  files := fun fd' id hf => by
    rcases h'.files fd' id hf with hf | hle
    · exact h.files fd' id hf
    · exact Or.inr (Nat.le_trans h.next_le hle)
  epoll := fun fd' hne he => h'.epoll fd' hne (h.epoll fd' hne he)

/-- What has ended stays ended. -/
theorem ended (h : Follows fd t t₁) {id : FileId} (hlt : id < t.next)
    (hend : ∀ fd', t.files fd' ≠ some id) (fd' : Nat) : t₁.files fd' ≠ some id := by
  intro hf
  rcases h.files fd' id hf with hf | hle
  · exact hend fd' hf
  · exact absurd hlt (Nat.not_lt.mpr hle)

theorem use (h : Follows fd t t₁) (c : Nat) (id : FileId) : Follows fd t (t₁.use c id) :=
  h.trans ⟨Nat.le_refl _, fun _ _ hf => Or.inl hf, fun _ _ he => he⟩

theorem close (h : Follows fd t t₁) (c : Nat) (id : FileId) : Follows fd t (t₁.close c id) :=
  h.trans ⟨Nat.le_refl _, fun _ _ hf => Or.inl (files_update_none hf).2, fun _ _ he => he⟩

theorem closeOpt (h : Follows fd t t₁) (o : Option (Nat × FileId)) :
    Follows fd t (t₁.closeOpt o) := by
  cases o with
  | none => exact h
  | some p => exact h.close p.1 p.2

theorem send (h : Follows fd t t₁) (c : Nat) (id : FileId) : Follows fd t (t₁.send c id) :=
  h.trans ⟨Nat.le_refl _, fun _ _ hf => Or.inl (files_update_none hf).2, fun _ _ he => he⟩

theorem opened (h : Follows fd t t₁) (c : Nat) : Follows fd t (t₁.opened c) := by
  refine h.trans ⟨Nat.le_succ _, fun fd' id hf => ?_, fun _ _ he => he⟩
  by_cases e : fd' = c
  · subst e
    rw [opened_files, Function.update_self] at hf
    exact Or.inr (Nat.le_of_eq (Option.some.inj hf))
  · rw [opened_files, Function.update_of_ne e] at hf
    exact Or.inl hf

theorem epollAdd (h : Follows fd t t₁) (c : Nat) (id : FileId) :
    Follows fd t (t₁.epollAdd c id) := by
  refine h.trans ⟨Nat.le_refl _, fun _ _ hf => Or.inl hf, fun fd' _ he => ?_⟩
  by_cases e : fd' = c
  · subst e
    simp
  · simpa [e] using he

theorem epollDel (h : Follows fd t t₁) (id : FileId) : Follows fd t (t₁.epollDel fd id) :=
  h.trans ⟨Nat.le_refl _, fun _ _ hf => Or.inl hf, fun fd' hne he => by simpa [hne] using he⟩

theorem of_scope {gone : List FileId} (h : Follows fd t t₁) (hs : Scope gone t₁ t₂) :
    Follows fd t t₂ :=
  h.trans ⟨hs.next_le, fun fd' id hf => Or.inl ((hs.files fd' id).mp hf).1,
    fun _ _ he => by rw [hs.epoll]; exact he⟩

/-- A function that handles a number that was not registered. -/
theorem of_unregistered {c : Nat} (h : Follows c t t₁) (hc : t.epoll c = false) :
    Follows fd t t₁ :=
  { h with
    epoll := fun fd' _ he => h.epoll fd' (by rintro rfl; rw [hc] at he; cases he) he }

end Follows

/-- An open that is closed is open nowhere. -/
theorem Ok.closed {t : FdTable} (h : t.Ok) {fd : Nat} {id : FileId} (hid : t.files fd = some id)
    (fd' : Nat) : (t.close fd id).files fd' ≠ some id := by
  intro hf
  obtain ⟨hne, hf⟩ := files_update_none hf
  exact hne (h.inj hf hid)

end FdTable

variable {κ : Type*}

/-- What the places `κ` of a program are for. -/
structure Places (κ : Type*) where
  /-- the opens from this one on are the program's own -/
  first : FileId
  /-- the places whose descriptors may be registered with epoll -/
  registers : κ → Prop
  /-- the opens that a place is for -/
  admits : κ → FileId → Prop
  /-- the opens that may be sent away -/
  sendable : FileId → Prop

/-- What the places hold: a number, and the open it is kept for. -/
abbrev Holding (κ : Type*) := κ → Option (Nat × FileId)

/-- **Good order.** -/
structure Custody (P : Places κ) (t : FdTable) (h : Holding κ) : Prop where
  ok : t.Ok
  no_fault : t.faults = 0
  isOpen : ∀ {k fd id}, h k = some (fd, id) → t.files fd = some id
  inj : ∀ {k k' fd id id'}, h k = some (fd, id) → h k' = some (fd, id') → k = k'
  covered : ∀ {fd id}, t.files fd = some id → P.first ≤ id → ∃ k, h k = some (fd, id)
  first_le : P.first ≤ t.next
  admitted : ∀ {k fd id}, h k = some (fd, id) → P.admits k id
  sent : ∀ {id}, 0 < t.sends id → P.sendable id
  registered : ∀ {fd}, t.epoll fd = true → ∃ k id, P.registers k ∧ h k = some (fd, id)

namespace Custody

variable {P P' : Places κ} {t t' : FdTable} {h : Holding κ} {k k' : κ} {fd : Nat} {id : FileId}

/-! ## §1. What good order says. -/

/-- A number that is not open is in no place, and not registered. -/
theorem unused (c : Custody P t h) (hfd : t.files fd = none) :
    t.epoll fd = false ∧ ∀ k id, h k ≠ some (fd, id) := by
  have hno : ∀ k id, h k ≠ some (fd, id) := by
    intro k id hk
    rw [c.isOpen hk] at hfd
    cases hfd
  refine ⟨?_, hno⟩
  cases he : t.epoll fd with
  | false => rfl
  | true =>
      obtain ⟨k, id, -, hk⟩ := c.registered he
      exact absurd hk (hno k id)

/-- What is held in a place that does not register is not registered. -/
theorem not_registered (c : Custody P t h) (hk : h k = some (fd, id)) (hreg : ¬ P.registers k) :
    t.epoll fd = false := by
  cases he : t.epoll fd with
  | false => rfl
  | true =>
      obtain ⟨k', id', hr, hk'⟩ := c.registered he
      exact absurd (c.inj hk hk' ▸ hr) hreg

/-- Two places hold two opens. -/
theorem place_unique (c : Custody P t h) {fd' : Nat} (hk : h k = some (fd, id))
    (hk' : h k' = some (fd', id)) : k = k' := by
  have e : fd = fd' := c.ok.inj (c.isOpen hk) (c.isOpen hk')
  subst e
  exact c.inj hk hk'

/-- Another place holds another number. -/
theorem ne_of_number (c : Custody P t h) (hk : h k = some (fd, id)) {fd' : Nat} {id' : FileId}
    (hne : k' ≠ k) (hk' : h k' = some (fd', id')) : fd' ≠ fd := by
  rintro rfl
  exact hne (c.inj hk' hk)

/-- **An open of the program is in exactly one place, or has ended exactly once.** -/
theorem exactly_one (c : Custody P t h) (hfirst : P.first ≤ id) (hlt : id < t.next) :
    ((∃! k, ∃ fd, h k = some (fd, id)) ∧ t.closes id = 0 ∧ t.sends id = 0)
      ∨ ((∀ k fd, h k ≠ some (fd, id)) ∧ t.closes id + t.sends id = 1) := by
  by_cases hopen : ∃ fd, t.files fd = some id
  · obtain ⟨fd, hf⟩ := hopen
    obtain ⟨k, hk⟩ := c.covered hf hfirst
    refine Or.inl ⟨⟨k, ⟨fd, hk⟩, ?_⟩, c.ok.open_fresh hf⟩
    intro k' hk'
    obtain ⟨fd', hk'⟩ := hk'
    exact c.place_unique hk' hk
  · refine Or.inr ⟨fun k fd hk => hopen ⟨fd, c.isOpen hk⟩, ?_⟩
    exact c.ok.ended_once hlt fun fd hf => hopen ⟨fd, hf⟩

/-- No open ends twice. -/
theorem ended_le_one (c : Custody P t h) (id : FileId) : t.closes id + t.sends id ≤ 1 := by
  by_cases hlt : id < t.next
  · by_cases hopen : ∃ fd, t.files fd = some id
    · obtain ⟨fd, hf⟩ := hopen
      obtain ⟨hc, hs⟩ := c.ok.open_fresh hf
      omega
    · exact Nat.le_of_eq (c.ok.ended_once hlt fun fd hf => hopen ⟨fd, hf⟩)
  · obtain ⟨hc, hs⟩ := c.ok.beyond (Nat.le_of_not_lt hlt)
    omega

/-! ## §2. Operations that leave every place alone. -/

/-- Places that are for more. -/
theorem mono (c : Custody P t h) (hfirst : P'.first = P.first)
    (hreg : ∀ k, P.registers k → P'.registers k)
    (hadm : ∀ k id, id < t.next → P.admits k id → P'.admits k id)
    (hsend : ∀ id, P.sendable id → P'.sendable id) : Custody P' t h where
  ok := c.ok
  no_fault := c.no_fault
  isOpen := c.isOpen
  inj := c.inj
  covered := fun hf hle => c.covered hf (hfirst ▸ hle)
  first_le := by
    rw [hfirst]
    exact c.first_le
  admitted := fun hk => hadm _ _ (c.ok.files_lt (c.isOpen hk)) (c.admitted hk)
  sent := fun hs => hsend _ (c.sent hs)
  registered := fun he => by
    obtain ⟨k, id, hr, hk⟩ := c.registered he
    exact ⟨k, id, hreg k hr, hk⟩

/-- The numbers and the history stay. -/
theorem same_files (c : Custody P t h) (hok : t'.Ok) (hfaults : t'.faults = t.faults)
    (hfiles : t'.files = t.files) (hnext : t'.next = t.next) (hsends : t'.sends = t.sends)
    (hepoll : ∀ fd, t'.epoll fd = true → ∃ k id, P.registers k ∧ h k = some (fd, id)) :
    Custody P t' h where
  ok := hok
  no_fault := hfaults.trans c.no_fault
  isOpen := fun hk => by
    rw [hfiles]
    exact c.isOpen hk
  inj := c.inj
  covered := fun hf hle => c.covered (hfiles ▸ hf) hle
  first_le := by
    rw [hnext]
    exact c.first_le
  admitted := c.admitted
  sent := fun hs => c.sent (hsends ▸ hs)
  registered := fun he => hepoll _ he

/-- The same places, written otherwise. -/
theorem congr (c : Custody P t h) {h' : Holding κ} (heq : ∀ k, h' k = h k) : Custody P t h' :=
  (funext heq : h' = h) ▸ c

theorem use (c : Custody P t h) (hk : h k = some (fd, id)) : Custody P (t.use fd id) h :=
  c.same_files c.ok.use (FdTable.use_faults (c.isOpen hk)) rfl rfl rfl fun _ he => c.registered he

theorem epollAdd (c : Custody P t h) (hk : h k = some (fd, id)) (hreg : P.registers k) :
    Custody P (t.epollAdd fd id) h := by
  refine c.same_files c.ok.epollAdd (FdTable.epollAdd_faults (c.isOpen hk)) rfl rfl rfl ?_
  intro fd' he
  by_cases e : fd' = fd
  · subst e
    exact ⟨k, id, hreg, hk⟩
  · rw [FdTable.epollAdd_epoll, Function.update_of_ne e] at he
    exact c.registered he

theorem epollDel (c : Custody P t h) (hk : h k = some (fd, id)) :
    Custody P (t.epollDel fd id) h := by
  refine c.same_files c.ok.epollDel (FdTable.epollDel_faults (c.isOpen hk)) rfl rfl rfl ?_
  intro fd' he
  by_cases e : fd' = fd
  · subst e
    simp at he
  · rw [FdTable.epollDel_epoll, Function.update_of_ne e] at he
    exact c.registered he

/-- A function that closes what it opens. -/
theorem of_scope (c : Custody P t h) (hs : FdTable.Scope [] t t') : Custody P t' h where
  ok := hs.ok
  no_fault := hs.faults.trans c.no_fault
  isOpen := fun hk => hs.still_open (c.isOpen hk) (by simp)
  inj := c.inj
  covered := fun hf hle => c.covered ((hs.files _ _).mp hf).1 hle
  first_le := Nat.le_trans c.first_le hs.next_le
  admitted := c.admitted
  sent := fun {id} hsent => by
    rcases Nat.lt_or_ge id t.next with hlt | hge
    · rw [(hs.history id hlt (by simp)).2] at hsent
      exact c.sent hsent
    · exfalso
      rcases Nat.lt_or_ge id t'.next with hlt' | hge'
      · rw [(hs.fresh id hge hlt').2] at hsent
        exact Nat.lt_irrefl 0 hsent
      · rw [(hs.ok.beyond hge').2] at hsent
        exact Nat.lt_irrefl 0 hsent
  registered := fun he => c.registered (by rw [← hs.epoll]; exact he)

/-! ## §3. Operations on one place. -/

variable [DecidableEq κ]

/-- What another place holds. -/
theorem held_of_update {fd' : Nat} {id' : FileId} {o : Option (Nat × FileId)}
    (hj : Function.update h k o k' = some (fd', id')) :
    (k' = k ∧ o = some (fd', id')) ∨ (k' ≠ k ∧ h k' = some (fd', id')) := by
  by_cases e : k' = k
  · subst e
    rw [Function.update_self] at hj
    exact Or.inl ⟨rfl, hj⟩
  · rw [Function.update_of_ne e] at hj
    exact Or.inr ⟨e, hj⟩

/-- A fresh open goes into a place that is empty. -/
theorem opened (c : Custody P t h) (hfd : t.files fd = none) (hk : h k = none)
    (hadm : P.admits k t.next) :
    Custody P (t.opened fd) (Function.update h k (some (fd, t.next))) := by
  obtain ⟨hep, hno⟩ := c.unused hfd
  -- an old place is another one, with another number
  have hold : ∀ {k' fd' id'}, h k' = some (fd', id') →
      Function.update h k (some (fd, t.next)) k' = some (fd', id') := by
    intro k' fd' id' hk'
    have hne : k' ≠ k := by
      rintro rfl
      rw [hk] at hk'
      cases hk'
    rw [Function.update_of_ne hne]
    exact hk'
  constructor
  · exact c.ok.opened hfd
  · exact c.no_fault
  · intro k' fd' id' hk'
    rcases held_of_update hk' with ⟨-, e⟩ | ⟨-, hk'⟩
    · cases e
      exact Function.update_self _ _ _
    · have hne : fd' ≠ fd := by
        intro e
        exact hno k' id' (e ▸ hk')
      rw [FdTable.opened_files, Function.update_of_ne hne]
      exact c.isOpen hk'
  · intro k₁ k₂ fd' id₁ id₂ h₁ h₂
    rcases held_of_update h₁ with ⟨e₁, o₁⟩ | ⟨-, g₁⟩ <;>
      rcases held_of_update h₂ with ⟨e₂, o₂⟩ | ⟨-, g₂⟩
    · rw [e₁, e₂]
    · cases o₁
      exact absurd g₂ (hno k₂ id₂)
    · cases o₂
      exact absurd g₁ (hno k₁ id₁)
    · exact c.inj g₁ g₂
  · intro fd' id' hf hle
    by_cases e : fd' = fd
    · subst e
      rw [FdTable.opened_files, Function.update_self] at hf
      cases hf
      exact ⟨k, Function.update_self _ _ _⟩
    · rw [FdTable.opened_files, Function.update_of_ne e] at hf
      obtain ⟨k', hk'⟩ := c.covered hf hle
      exact ⟨k', hold hk'⟩
  · exact Nat.le_succ_of_le c.first_le
  · intro k' fd' id' hk'
    rcases held_of_update hk' with ⟨rfl, e⟩ | ⟨-, hk'⟩
    · cases e
      exact hadm
    · exact c.admitted hk'
  · exact c.sent
  · intro fd' he
    obtain ⟨k', id', hr, hk'⟩ := c.registered he
    exact ⟨k', id', hr, hold hk'⟩

/-- The open that a place holds ends, by whichever of the ways. -/
theorem ended (c : Custody P t h) (hk : h k = some (fd, id)) (hep : t.epoll fd = false)
    (hok : t'.Ok) (hfaults : t'.faults = t.faults) (hnext : t'.next = t.next)
    (hepoll : t'.epoll = t.epoll) (hfiles : t'.files = Function.update t.files fd none)
    (hsent : ∀ id', 0 < t'.sends id' → P.sendable id') :
    Custody P t' (Function.update h k none) := by
  have hother : ∀ {k' fd' id'}, Function.update h k none k' = some (fd', id') →
      k' ≠ k ∧ h k' = some (fd', id') := by
    intro k' fd' id' hk'
    rcases held_of_update hk' with ⟨-, e⟩ | hk'
    · cases e
    · exact hk'
  constructor
  · exact hok
  · exact hfaults.trans c.no_fault
  · intro k' fd' id' hk'
    obtain ⟨hne, hk'⟩ := hother hk'
    rw [hfiles, Function.update_of_ne (c.ne_of_number hk hne hk')]
    exact c.isOpen hk'
  · intro k₁ k₂ fd' id₁ id₂ h₁ h₂
    exact c.inj (hother h₁).2 (hother h₂).2
  · intro fd' id' hf hle
    rw [hfiles] at hf
    obtain ⟨hfd, hf⟩ := FdTable.files_update_none hf
    obtain ⟨k', hk'⟩ := c.covered hf hle
    refine ⟨k', ?_⟩
    have hne : k' ≠ k := by
      rintro rfl
      rw [hk] at hk'
      cases hk'
      exact hfd rfl
    rw [Function.update_of_ne hne]
    exact hk'
  · rw [hnext]
    exact c.first_le
  · intro k' fd' id' hk'
    exact c.admitted (hother hk').2
  · intro id' hs
    exact hsent id' hs
  · intro fd' he
    rw [hepoll] at he
    obtain ⟨k', id', hr, hk'⟩ := c.registered he
    refine ⟨k', id', hr, ?_⟩
    have hne : k' ≠ k := by
      rintro rfl
      rw [hk] at hk'
      cases hk'
      rw [hep] at he
      cases he
    rw [Function.update_of_ne hne]
    exact hk'

theorem close (c : Custody P t h) (hk : h k = some (fd, id)) (hep : t.epoll fd = false) :
    Custody P (t.close fd id) (Function.update h k none) :=
  c.ended hk hep (c.ok.close (c.isOpen hk)) (FdTable.close_faults (c.isOpen hk)) rfl rfl rfl
    fun _ hs => c.sent hs

/-- A place that may be empty is emptied. -/
theorem closeOpt (c : Custody P t h) {o : Option (Nat × FileId)} (hk : h k = o)
    (hep : ∀ fd id, o = some (fd, id) → t.epoll fd = false) :
    Custody P (t.closeOpt o) (Function.update h k none) := by
  cases o with
  | none =>
      have e : Function.update h k none = h := by rw [← hk, Function.update_eq_self]
      rw [e]
      exact c
  | some p => exact c.close hk (hep p.1 p.2 rfl)

theorem send (c : Custody P t h) (hk : h k = some (fd, id)) (hep : t.epoll fd = false)
    (hsend : P.sendable id) : Custody P (t.send fd id) (Function.update h k none) := by
  refine c.ended hk hep (c.ok.send (c.isOpen hk)) (FdTable.send_faults (c.isOpen hk) hep)
    rfl rfl rfl ?_
  intro id' hs
  by_cases e : id' = id
  · rw [e]
    exact hsend
  · have hs : 0 < Function.update t.sends id (t.sends id + 1) id' := hs
    rw [Function.update_of_ne e] at hs
    exact c.sent hs

/-- A function that disposes of the open it is given, and closes what it opens. -/
theorem of_scope_one (c : Custody P t h) (hk : h k = some (fd, id)) (hep : t.epoll fd = false)
    (hs : FdTable.Scope [id] t t') (hsend : P.sendable id) :
    Custody P t' (Function.update h k none) where
  ok := hs.ok
  no_fault := hs.faults.trans c.no_fault
  isOpen := fun {k' fd' id'} hk' => by
    rcases held_of_update hk' with ⟨-, e⟩ | ⟨hne, hk'⟩
    · cases e
    · refine hs.still_open (c.isOpen hk') ?_
      rw [List.mem_singleton]
      rintro rfl
      exact hne (c.place_unique hk' hk)
  inj := fun {k₁ k₂ fd' id₁ id₂} h₁ h₂ => by
    rcases held_of_update h₁ with ⟨-, e⟩ | ⟨-, g₁⟩
    · cases e
    · rcases held_of_update h₂ with ⟨-, e⟩ | ⟨-, g₂⟩
      · cases e
      · exact c.inj g₁ g₂
  covered := fun {fd' id'} hf hle => by
    obtain ⟨hf, hgone⟩ := (hs.files _ _).mp hf
    obtain ⟨k', hk'⟩ := c.covered hf hle
    refine ⟨k', ?_⟩
    have hne : k' ≠ k := by
      rintro rfl
      rw [hk] at hk'
      cases hk'
      exact hgone List.mem_cons_self
    rw [Function.update_of_ne hne]
    exact hk'
  first_le := Nat.le_trans c.first_le hs.next_le
  admitted := fun {k' fd' id'} hk' => by
    rcases held_of_update hk' with ⟨-, e⟩ | ⟨-, hk'⟩
    · cases e
    · exact c.admitted hk'
  sent := fun {id'} hsent => by
    by_cases e : id' = id
    · rw [e]
      exact hsend
    rcases Nat.lt_or_ge id' t.next with hlt | hge
    · rw [(hs.history id' hlt (by simpa using e)).2] at hsent
      exact c.sent hsent
    · exfalso
      rcases Nat.lt_or_ge id' t'.next with hlt' | hge'
      · rw [(hs.fresh id' hge hlt').2] at hsent
        exact Nat.lt_irrefl 0 hsent
      · rw [(hs.ok.beyond hge').2] at hsent
        exact Nat.lt_irrefl 0 hsent
  registered := fun {fd'} he => by
    rw [hs.epoll] at he
    obtain ⟨k', id', hr, hk'⟩ := c.registered he
    refine ⟨k', id', hr, ?_⟩
    have hne : k' ≠ k := by
      rintro rfl
      rw [hk] at hk'
      cases hk'
      rw [hep] at he
      cases he
    rw [Function.update_of_ne hne]
    exact hk'

/-- A descriptor changes its place. -/
theorem move (c : Custody P t h) (hk : h k = some (fd, id)) (hk' : h k' = none)
    (hadm : P.admits k' id) (hreg : t.epoll fd = true → P.registers k') :
    Custody P t (Function.update (Function.update h k none) k' (some (fd, id))) := by
  have hkk : k ≠ k' := by
    rintro rfl
    rw [hk] at hk'
    cases hk'
  -- what a place holds afterwards, another place held before
  have hold : ∀ {j fd' id'},
      Function.update (Function.update h k none) k' (some (fd, id)) j = some (fd', id') →
      (j = k' ∧ fd' = fd ∧ id' = id) ∨ (j ≠ k' ∧ j ≠ k ∧ h j = some (fd', id')) := by
    intro j fd' id' hj
    rcases held_of_update hj with ⟨e, o⟩ | ⟨hne, hj⟩
    · cases o
      exact Or.inl ⟨e, rfl, rfl⟩
    · rcases held_of_update hj with ⟨-, o⟩ | ⟨hne', hj⟩
      · cases o
      · exact Or.inr ⟨hne, hne', hj⟩
  have hnew : ∀ {j fd' id'}, h j = some (fd', id') → j ≠ k →
      Function.update (Function.update h k none) k' (some (fd, id)) j = some (fd', id') := by
    intro j fd' id' hj hne
    have hne' : j ≠ k' := by
      rintro rfl
      rw [hk'] at hj
      cases hj
    rw [Function.update_of_ne hne', Function.update_of_ne hne]
    exact hj
  constructor
  · exact c.ok
  · exact c.no_fault
  · intro j fd' id' hj
    rcases hold hj with ⟨-, rfl, rfl⟩ | ⟨-, -, hj⟩
    · exact c.isOpen hk
    · exact c.isOpen hj
  · intro j₁ j₂ fd' id₁ id₂ h₁ h₂
    rcases hold h₁ with ⟨e₁, f₁, -⟩ | ⟨-, n₁, g₁⟩ <;> rcases hold h₂ with ⟨e₂, f₂, -⟩ | ⟨-, n₂, g₂⟩
    · rw [e₁, e₂]
    · exact absurd f₁ (c.ne_of_number hk n₂ g₂)
    · exact absurd f₂ (c.ne_of_number hk n₁ g₁)
    · exact c.inj g₁ g₂
  · intro fd' id' hf hle
    obtain ⟨j, hj⟩ := c.covered hf hle
    by_cases e : j = k
    · subst e
      rw [hk] at hj
      cases hj
      exact ⟨k', Function.update_self _ _ _⟩
    · exact ⟨j, hnew hj e⟩
  · exact c.first_le
  · intro j fd' id' hj
    rcases hold hj with ⟨rfl, -, rfl⟩ | ⟨-, -, hj⟩
    · exact hadm
    · exact c.admitted hj
  · exact c.sent
  · intro fd' he
    obtain ⟨j, id', hr, hj⟩ := c.registered he
    by_cases e : j = k
    · subst e
      rw [hk] at hj
      cases hj
      exact ⟨k', id, hreg he, Function.update_self _ _ _⟩
    · exact ⟨j, id', hr, hnew hj e⟩

end Custody

end TlsMigration
