/-
  TlsMigration.BenchHttps.Conn
  ────────────────────────────
  **A TLS CONNECTION THAT GOROUTINES SHARE**
  (`WolfSSLConn` of benchhttps/wolfssl_listener.go, and the calls of
  wolfssl_listener.c that it makes).

  A connection is read, written, polled and closed by any number of
  goroutines, with `c.mu` around each call into C.  A step is one of a
  goroutine's own, or the end of a call of wolfSSL or of the kernel.

    • `Conn.step`     — the steps;
    • `conn_sound`    — the C object is used while it lives, is freed at most
      once, and is read in order;
    • `others_wait`   — who waits for the client keeps all others waiting.
-/
import TlsMigration.Lib.Bytes
import TlsMigration.Lib.Threads

namespace TlsMigration.BenchHttps

open TlsMigration.TransitionSystem

/-! ## §1. Calls. -/

/-- What `wolfSSL_get_error` says. -/
inductive Code where
  | want_read
  | want_write
  | zero_return
  | peer_closed
  | other (code : Int)
deriving DecidableEq

/-- The calls of the `net.Conn` that touch the connection. -/
inductive Op where
  | read (len : Nat)
  | write (p : Bytes)
  | pending
  | close
  /-- `setSocketDeadline` -/
  | deadline
deriving DecidableEq

/-- What they return. -/
inductive Ret where
  | data (p : Bytes)
  | count (n : Nat)
  | nil
  | eof
  /-- `net.ErrClosed` -/
  | closed
  | failed (code : Code)
  /-- the error of `setsockopt` -/
  | errno (e : Nat)
deriving DecidableEq

/-- Where a goroutine is. -/
inductive Local where
  /-- in no call; the last one, and what it returned -/
  | outside (last : Option (Op × Ret))
  /-- before `c.mu.Lock()` -/
  | lock (op : Op)
  /-- before the test of `c.closed` and `c.ptr` -/
  | test (op : Op)
  /-- before the call of wolfSSL, or of the kernel -/
  | call (op : Op)
  /-- in `wait_for_io` -/
  | poll (op : Op) (code : Code)
  /-- before `wolfssl_conn_get_error` -/
  | get_error (op : Op) (code : Code)
  /-- in `Close`, behind `wolfssl_conn_close` -/
  | freed
  /-- before `c.mu.Unlock()`; without a result it goes round the loop again -/
  | unlock (op : Op) (ret : Option Ret)
deriving DecidableEq

/-- How `poll` ends. -/
inductive Poll where
  | ready
  | interrupted
  | error

inductive Act where
  | enter (op : Op)
  /-- a step of the goroutine's own -/
  | go
  /-- wolfSSL has read or written `n` bytes, or has `n` pending -/
  | moved (n : Nat)
  | fails (code : Code)
  | polled (p : Poll)
  /-- `setsockopt` returns -/
  | sets (errno : Option Nat)

/-- The `WolfSSLConn`, the `wolfssl_conn_t` behind it, and the history of both. -/
structure Conn (ι : Type*) where
  /-- who has locked `c.mu` -/
  mu : Option ι
  /-- `c.ptr` is not `nil` -/
  ptr : Bool
  closed : Bool
  /-- `c.fd` is not `-1` -/
  fd : Bool
  /-- the C object has not been freed, and its descriptor is open -/
  live : Bool
  frees : Nat
  /-- calls on an object that has been freed, and unlocks of somebody else's lock -/
  faults : Nat
  /-- what the client says and has not been read -/
  incoming : Bytes
  /-- what has been read, and written, call by call -/
  taken : List (ι × Bytes)
  given : List (ι × Bytes)

/-! ## §2. Steps. -/

/-- An empty buffer is read and written at once. -/
def enter : Op → Local
  | .read 0 => .outside (some (.read 0, .data []))
  | .write [] => .outside (some (.write [], .count 0))
  | op => .lock op

/-- What a failed read or write returns; `none` is `continue`. -/
def retOf : Code → Option Ret
  | .want_read => none
  | .want_write => none
  | .zero_return => some .eof
  | .peer_closed => some .eof
  | .other code => some (.failed (.other code))

/-- Where wolfSSL's answer leads to. -/
def failed (op : Op) : Code → Local
  | .want_read => .poll op .want_read
  | .want_write => .poll op .want_write
  | code => .get_error op code

namespace Conn

variable {ι : Type*} [DecidableEq ι]

/-- A call on the C object, or on its descriptor. -/
def touch (c : Conn ι) : Conn ι := if c.live then c else { c with faults := c.faults + 1 }

/-- `wolfssl_conn_close`. -/
def free (c : Conn ι) : Conn ι := { c.touch with live := false, frees := c.frees + 1 }

/-- `c.mu.Unlock()` -/
def unlocked (c : Conn ι) (i : ι) : Conn ι :=
  if c.mu = some i then { c with mu := none } else { c with faults := c.faults + 1 }

/-- What the test under the lock returns at once. -/
def refuses (c : Conn ι) : Op → Option Ret
  | .read _ => if c.closed ∨ c.ptr = false then some .closed else none
  | .write _ => if c.closed ∨ c.ptr = false then some .closed else none
  | .pending => if c.closed ∨ c.ptr = false then some (.count 0) else none
  | .close => if c.closed ∨ c.ptr = false then some .nil else none
  | .deadline => if c.closed ∨ c.fd = false then some .closed else none

def step (i : ι) (c : Conn ι) (l : Local) (a : Act) : Option (Conn ι × Local) :=
  match l, a with
  | .outside _, .enter op => some (c, enter op)
  | .lock op, .go => if c.mu = none then some ({ c with mu := some i }, .test op) else none
  | .test op, .go =>
      match c.refuses op with
      | some ret => some (c, .unlock op (some ret))
      | none => some (c, .call op)
  | .call (.read len), .moved n =>
      if 0 < n ∧ n ≤ len ∧ n ≤ c.incoming.length then
        some ({ c.touch with
            incoming := c.incoming.drop n, taken := c.taken ++ [(i, c.incoming.take n)] },
          .unlock (.read len) (some (.data (c.incoming.take n))))
      else none
  | .call (.write p), .moved n =>
      if 0 < n ∧ n ≤ p.length then
        some ({ c.touch with given := c.given ++ [(i, p.take n)] },
          .unlock (.write p) (some (.count n)))
      else none
  | .call (.read len), .fails code => some (c.touch, failed (.read len) code)
  | .call (.write p), .fails code => some (c.touch, failed (.write p) code)
  | .call .pending, .moved n => some (c.touch, .unlock .pending (some (.count n)))
  | .call .close, .go => some (c.free, .freed)
  | .call .deadline, .sets none => some (c.touch, .unlock .deadline (some .nil))
  | .call .deadline, .sets (some e) => some (c.touch, .unlock .deadline (some (.errno e)))
  | .poll op _, .polled .ready => some (c.touch, .call op)
  | .poll op code, .polled .interrupted => some (c.touch, .poll op code)
  | .poll op code, .polled .error => some (c.touch, .get_error op code)
  | .get_error op code, .go => some (c.touch, .unlock op (retOf code))
  | .freed, .go =>
      some ({ c with ptr := false, closed := true, fd := false }, .unlock .close (some .nil))
  | .unlock op (some ret), .go => some (c.unlocked i, .outside (some (op, ret)))
  | .unlock op none, .go => some (c.unlocked i, .lock op)
  | _, _ => none

end Conn

/-- The goroutines of a connection whose client says `stream`. -/
def goroutines (ι : Type*) [DecidableEq ι] (stream : Bytes) : Threads ι (Conn ι) Local Act where
  init c ls := c = ⟨none, true, false, true, true, 0, 0, stream, [], []⟩ ∧ ∀ i, ls i = .outside none
  step := Conn.step

section Turns

variable {ι : Type*} [DecidableEq ι]

/-- What a step can do. -/
inductive Turn (i : ι) (c : Conn ι) : Local → Conn ι × Local → Prop where
  | enters (last : Option (Op × Ret)) (op : Op) : Turn i c (.outside last) (c, enter op)
  | lock (op : Op) : c.mu = none → Turn i c (.lock op) ({ c with mu := some i }, .test op)
  | refused {op : Op} {ret : Ret} : c.refuses op = some ret →
      Turn i c (.test op) (c, .unlock op (some ret))
  | called {op : Op} : c.refuses op = none → Turn i c (.test op) (c, .call op)
  | read {len n : Nat} : 0 < n → n ≤ len → n ≤ c.incoming.length →
      Turn i c (.call (.read len))
        ({ c.touch with
            incoming := c.incoming.drop n, taken := c.taken ++ [(i, c.incoming.take n)] },
          .unlock (.read len) (some (.data (c.incoming.take n))))
  | write {p : Bytes} {n : Nat} : n ≤ p.length →
      Turn i c (.call (.write p))
        ({ c.touch with given := c.given ++ [(i, p.take n)] },
          .unlock (.write p) (some (.count n)))
  | fails (op : Op) (code : Code) : Turn i c (.call op) (c.touch, failed op code)
  | pending (n : Nat) : Turn i c (.call .pending) (c.touch, .unlock .pending (some (.count n)))
  | frees : Turn i c (.call .close) (c.free, .freed)
  | sets {ret : Ret} : ret ≠ .closed →
      Turn i c (.call .deadline) (c.touch, .unlock .deadline (some ret))
  | ready (op : Op) (code : Code) : Turn i c (.poll op code) (c.touch, .call op)
  | interrupted (op : Op) (code : Code) : Turn i c (.poll op code) (c.touch, .poll op code)
  | poll_fails (op : Op) (code : Code) : Turn i c (.poll op code) (c.touch, .get_error op code)
  | get_error (op : Op) (code : Code) :
      Turn i c (.get_error op code) (c.touch, .unlock op (retOf code))
  | closes : Turn i c .freed
      ({ c with ptr := false, closed := true, fd := false }, .unlock .close (some .nil))
  | returns (op : Op) (ret : Ret) :
      Turn i c (.unlock op (some ret)) (c.unlocked i, .outside (some (op, ret)))
  | again (op : Op) : Turn i c (.unlock op none) (c.unlocked i, .lock op)

theorem Turn.of_step {i : ι} {c : Conn ι} {l : Local} {a : Act} {r : Conn ι × Local}
    (h : Conn.step i c l a = some r) : Turn i c l r := by
  unfold Conn.step at h
  split at h
  next last op =>
    obtain rfl := Option.some.inj h
    exact .enters last op
  next op =>
    split at h
    next hmu =>
      obtain rfl := Option.some.inj h
      exact .lock op hmu
    next => cases h
  next op =>
    split at h
    next ret hret =>
      obtain rfl := Option.some.inj h
      exact .refused hret
    next hret =>
      obtain rfl := Option.some.inj h
      exact .called hret
  next len n =>
    split at h
    next hn =>
      obtain rfl := Option.some.inj h
      exact .read hn.1 hn.2.1 hn.2.2
    next => cases h
  next p n =>
    split at h
    next hn =>
      obtain rfl := Option.some.inj h
      exact .write hn.2
    next => cases h
  next len code =>
    obtain rfl := Option.some.inj h
    exact .fails _ code
  next p code =>
    obtain rfl := Option.some.inj h
    exact .fails _ code
  next n =>
    obtain rfl := Option.some.inj h
    exact .pending n
  next =>
    obtain rfl := Option.some.inj h
    exact .frees
  next =>
    obtain rfl := Option.some.inj h
    exact .sets (by simp)
  next e =>
    obtain rfl := Option.some.inj h
    exact .sets (by simp)
  next op code =>
    obtain rfl := Option.some.inj h
    exact .ready op code
  next op code =>
    obtain rfl := Option.some.inj h
    exact .interrupted op code
  next op code =>
    obtain rfl := Option.some.inj h
    exact .poll_fails op code
  next op code =>
    obtain rfl := Option.some.inj h
    exact .get_error op code
  next =>
    obtain rfl := Option.some.inj h
    exact .closes
  next op ret =>
    obtain rfl := Option.some.inj h
    exact .returns op ret
  next op =>
    obtain rfl := Option.some.inj h
    exact .again op
  next => cases h

end Turns

/-! ## §3. What is kept. -/

namespace Local

/-- The goroutine has the lock. -/
def Inside : Local → Prop
  | .outside _ => False
  | .lock _ => False
  | _ => True

/-- It is in C, with the connection. -/
def InC : Local → Prop
  | .call _ => True
  | .poll _ _ => True
  | .get_error _ _ => True
  | _ => False

/-- The call that is over, and what it returns. -/
def said : Local → Option (Op × Ret)
  | .outside last => last
  | .unlock op (some ret) => some (op, ret)
  | _ => none

theorem InC.inside {l : Local} (h : l.InC) : l.Inside := by
  cases l <;> trivial

end Local

variable {ι : Type*} {stream : Bytes} {i j : ι} {c c' : Conn ι} {l l' : Local}

/-- What Go knows of the C object is right. -/
structure Settled (c : Conn ι) : Prop where
  ptr : c.ptr = c.live
  fd : c.fd = c.live
  closed : c.closed = !c.live

/-- What goroutine `i` has been told is so. -/
def Told (i : ι) (c : Conn ι) : Op → Ret → Prop
  | .read len, .data p => p.length ≤ len ∧ (p ≠ [] → (i, p) ∈ c.taken)
  | .write p, .count n => n ≤ p.length ∧ (p ≠ [] → (i, p.take n) ∈ c.given)
  | .close, .nil => c.live = false
  | _, .closed => c.live = false
  | _, _ => True

/-- What always holds of the connection. -/
structure Kept (stream : Bytes) (c : Conn ι) : Prop where
  no_fault : c.faults = 0
  frees : c.frees = if c.live then 0 else 1
  stream : (c.taken.map Prod.snd).flatten ++ c.incoming = stream
  settled : c.mu = none → Settled c

/-- What goroutine `i` may say. -/
structure Says (i : ι) (c : Conn ι) (l : Local) : Prop where
  lock : l.Inside ↔ c.mu = some i
  settled : l.Inside → l ≠ .freed → Settled c
  inC : l.InC → c.live = true
  freed : l = .freed → c.live = false
  told : ∀ op ret, l.said = some (op, ret) → Told i c op ret

/-- The history only grows, and what is freed stays so. -/
structure Grows (c c' : Conn ι) : Prop where
  taken : ∀ x ∈ c.taken, x ∈ c'.taken
  given : ∀ x ∈ c.given, x ∈ c'.given
  live : c.live = false → c'.live = false

theorem Conn.touch_live (h : c.live = true) : c.touch = c := by
  unfold Conn.touch
  rw [if_pos h]

theorem Conn.touch_fields (c : Conn ι) : c.touch.mu = c.mu ∧ c.touch.live = c.live
    ∧ c.touch.taken = c.taken ∧ c.touch.given = c.given := by
  unfold Conn.touch
  split <;> exact ⟨rfl, rfl, rfl, rfl⟩

theorem Told.mono (h : Grows c c') {op : Op} {ret : Ret} (ht : Told i c op ret) :
    Told i c' op ret := by
  cases op with
  | read len =>
      cases ret <;>
        first | trivial | exact h.live ht | exact ⟨ht.1, fun hne => h.taken _ (ht.2 hne)⟩
  | write p =>
      cases ret <;>
        first | trivial | exact h.live ht | exact ⟨ht.1, fun hne => h.given _ (ht.2 hne)⟩
  | close => cases ret <;> first | trivial | exact h.live ht
  | pending => cases ret <;> first | trivial | exact h.live ht
  | deadline => cases ret <;> first | trivial | exact h.live ht

/-- Only an open connection is let through. -/
theorem Settled.live_of_refuses (hs : Settled c) {op : Op} (h : c.refuses op = none) :
    c.live = true := by
  cases hl : c.live with
  | true => rfl
  | false =>
      have hclosed : c.closed = true := by
        rw [hs.closed, hl]
        rfl
      unfold Conn.refuses at h
      rw [hclosed] at h
      cases op <;> simp at h

/-- Only a closed one is refused. -/
theorem Settled.dead_of_refuses (hs : Settled c) {op : Op} {ret : Ret}
    (h : c.refuses op = some ret) : c.live = false := by
  cases hl : c.live with
  | false => rfl
  | true =>
      have hnone : c.refuses op = none := by
        unfold Conn.refuses
        rw [hs.closed, hs.ptr, hs.fd, hl]
        cases op <;> rfl
      rw [hnone] at h
      cases h

/-- Who is refused is told the truth. -/
theorem Settled.told_refused (hs : Settled c) {op : Op} {ret : Ret}
    (h : c.refuses op = some ret) : Told i c op ret := by
  have hdead := hs.dead_of_refuses h
  have hclosed : c.closed = true := by
    rw [hs.closed, hdead]
    rfl
  unfold Conn.refuses at h
  rw [hclosed] at h
  cases op with
  | read len =>
      obtain rfl : Ret.closed = ret := by simpa using h
      exact hdead
  | write p =>
      obtain rfl : Ret.closed = ret := by simpa using h
      exact hdead
  | pending =>
      obtain rfl : Ret.count 0 = ret := by simpa using h
      trivial
  | close =>
      obtain rfl : Ret.nil = ret := by simpa using h
      exact hdead
  | deadline =>
      obtain rfl : Ret.closed = ret := by simpa using h
      exact hdead

theorem enter_cases (op : Op) :
    enter op = .lock op ∨ ∃ ret, enter op = .outside (some (op, ret))
      ∧ ∀ (i : ι) (c : Conn ι), Told i c op ret := by
  unfold enter
  split
  next =>
    exact Or.inr ⟨_, rfl, fun i c => ⟨Nat.le_refl _, fun hne => absurd rfl hne⟩⟩
  next =>
    exact Or.inr ⟨_, rfl, fun i c => ⟨Nat.le_refl _, fun hne => absurd rfl hne⟩⟩
  next => exact Or.inl rfl

/-! ## §4. One step. -/

/-- A goroutine with the lock goes on and changes nothing. -/
theorem Says.stay (h : Says i c l) (hl : l.Inside) (hf : l ≠ .freed) (hl' : l'.Inside)
    (hf' : l' ≠ .freed) (hC : l'.InC → c.live = true)
    (ht : ∀ op ret, l'.said = some (op, ret) → Told i c op ret) : Says i c l' where
  lock := ⟨fun _ => h.lock.mp hl, fun _ => hl'⟩
  settled := fun _ _ => h.settled hl hf
  inC := hC
  freed := fun heq => absurd heq hf'
  told := ht

/-- Who is outside says little. -/
theorem Says.out (hmu : c.mu ≠ some i) (hl : ¬ l.Inside)
    (ht : ∀ op ret, l.said = some (op, ret) → Told i c op ret) : Says i c l where
  lock := ⟨fun h => absurd h hl, fun h => absurd h hmu⟩
  settled := fun h => absurd h hl
  inC := fun h => absurd h.inside hl
  freed := by
    rintro rfl
    exact absurd trivial hl
  told := ht

/-- Who is inside has the lock. -/
theorem Says.busy (h : Says i c l) (hl : l.Inside) : c.mu ≠ none := by
  rw [h.lock.mp hl]
  exact Option.some_ne_none i

/-- The one answer. -/
theorem told_said {op : Op} {ret : Ret} (h : Told i c op ret) :
    ∀ op' ret', some (op, ret) = some (op', ret') → Told i c op' ret' := by
  intro op' ret' heq
  injection heq with heq
  injection heq with hop hret
  subst hop hret
  exact h

/-- No answer yet. -/
theorem told_none : ∀ op ret, (none : Option (Op × Ret)) = some (op, ret) → Told i c op ret := by
  intro op ret heq
  cases heq

/-- An error is no news. -/
theorem told_retOf (op : Op) (code : Code) :
    ∀ op' ret', (Local.unlock op (retOf code)).said = some (op', ret') → Told i c op' ret' := by
  cases code with
  | want_read => exact told_none
  | want_write => exact told_none
  | zero_return => exact told_said (by cases op <;> trivial)
  | peer_closed => exact told_said (by cases op <;> trivial)
  | other code => exact told_said (by cases op <;> trivial)

variable [DecidableEq ι]

theorem Conn.unlocked_own (h : c.mu = some i) : c.unlocked i = { c with mu := none } := by
  unfold Conn.unlocked
  rw [if_pos h]

theorem Conn.unlocked_fields (c : Conn ι) (i : ι) : (c.unlocked i).live = c.live
    ∧ (c.unlocked i).taken = c.taken ∧ (c.unlocked i).given = c.given := by
  unfold Conn.unlocked
  split <;> exact ⟨rfl, rfl, rfl⟩

/-- **What a goroutine says of itself** stays right when it takes a step. -/
theorem Turn.own {r : Conn ι × Local} (ht : Turn i c l r) (hk : Kept stream c) (hs : Says i c l) :
    Kept stream r.1 ∧ Says i r.1 r.2 := by
  have hlive : l.InC → c.touch = c := fun h => Conn.touch_live (hs.inC h)
  cases ht with
  | enters last op =>
      refine ⟨hk, ?_⟩
      have hmu : c.mu ≠ some i := fun h => hs.lock.mpr h
      show Says i c (enter op)
      rcases @enter_cases ι op with he | ⟨ret, he, htold⟩
      · rw [he]
        exact .out hmu False.elim told_none
      · rw [he]
        exact .out hmu False.elim (told_said (htold i c))
  | lock op hmu =>
      obtain ⟨hptr, hfd, hclosed⟩ := hk.settled hmu
      exact ⟨⟨hk.no_fault, hk.frees, hk.stream, fun h => by cases h⟩,
        ⟨fun _ => rfl, fun _ => trivial⟩, fun _ _ => ⟨hptr, hfd, hclosed⟩, False.elim, by simp,
        told_none⟩
  | refused href =>
      exact ⟨hk, hs.stay trivial (by simp) trivial (by simp) False.elim
        (told_said ((hs.settled trivial (by simp)).told_refused href))⟩
  | called href =>
      exact ⟨hk, hs.stay trivial (by simp) trivial (by simp)
        (fun _ => (hs.settled trivial (by simp)).live_of_refuses href) told_none⟩
  | @read len n hpos hlen hin =>
      rw [hlive trivial]
      obtain ⟨hptr, hfd, hclosed⟩ := hs.settled trivial (by simp)
      refine ⟨⟨hk.no_fault, hk.frees, ?_, fun h => absurd h (hs.busy trivial)⟩, hs.lock,
        fun _ _ => ⟨hptr, hfd, hclosed⟩, False.elim, by simp, told_said ⟨?_, ?_⟩⟩
      · -- what is read is the next of the stream
        show ((c.taken ++ [(i, c.incoming.take n)]).map Prod.snd).flatten ++ c.incoming.drop n = _
        rw [← hk.stream]
        simp
      · rw [List.length_take]
        omega
      · exact fun _ => List.mem_append_right _ List.mem_cons_self
  | @write p n hn =>
      rw [hlive trivial]
      obtain ⟨hptr, hfd, hclosed⟩ := hs.settled trivial (by simp)
      exact ⟨⟨hk.no_fault, hk.frees, hk.stream, fun h => absurd h (hs.busy trivial)⟩, hs.lock,
        fun _ _ => ⟨hptr, hfd, hclosed⟩, False.elim, by simp,
        told_said ⟨hn, fun _ => List.mem_append_right _ List.mem_cons_self⟩⟩
  | fails op code =>
      rw [hlive trivial]
      refine ⟨hk, ?_⟩
      cases code <;> exact hs.stay trivial (by simp) trivial (by simp [failed])
        (fun _ => hs.inC trivial) told_none
  | pending n =>
      rw [hlive trivial]
      exact ⟨hk, hs.stay trivial (by simp) trivial (by simp) False.elim (told_said trivial)⟩
  | frees =>
      have hl := hs.inC trivial
      have hfrees : c.frees = 0 := by
        rw [hk.frees, hl]
        rfl
      unfold Conn.free
      rw [Conn.touch_live hl]
      refine ⟨⟨hk.no_fault, ?_, hk.stream, fun h => absurd h (hs.busy trivial)⟩, hs.lock,
        fun _ h => absurd rfl h, False.elim, fun _ => rfl, told_none⟩
      show c.frees + 1 = 1
      rw [hfrees]
  | @sets ret hret =>
      rw [hlive trivial]
      refine ⟨hk, hs.stay trivial (by simp) trivial (by simp) False.elim (told_said ?_)⟩
      cases ret <;> trivial
  | ready op code =>
      rw [hlive trivial]
      exact ⟨hk, hs.stay trivial (by simp) trivial (by simp) (fun _ => hs.inC trivial) told_none⟩
  | interrupted op code =>
      rw [hlive trivial]
      exact ⟨hk, hs⟩
  | poll_fails op code =>
      rw [hlive trivial]
      exact ⟨hk, hs.stay trivial (by simp) trivial (by simp) (fun _ => hs.inC trivial) told_none⟩
  | get_error op code =>
      rw [hlive trivial]
      exact ⟨hk, hs.stay trivial (by simp) trivial (by simp) False.elim (told_retOf op code)⟩
  | closes =>
      have hl := hs.freed rfl
      have hclosed : true = !c.live := by
        rw [hl]
        rfl
      exact ⟨⟨hk.no_fault, hk.frees, hk.stream, fun _ => ⟨hl.symm, hl.symm, hclosed⟩⟩, hs.lock,
        fun _ _ => ⟨hl.symm, hl.symm, hclosed⟩, False.elim, by simp, told_said hl⟩
  | returns op ret =>
      rw [Conn.unlocked_own (hs.lock.mp trivial)]
      obtain ⟨hptr, hfd, hclosed⟩ := hs.settled trivial (by simp)
      refine ⟨⟨hk.no_fault, hk.frees, hk.stream, fun _ => ⟨hptr, hfd, hclosed⟩⟩,
        .out (by simp) False.elim (told_said ?_)⟩
      exact (hs.told op ret rfl).mono ⟨fun _ h => h, fun _ h => h, fun h => h⟩
  | again op =>
      rw [Conn.unlocked_own (hs.lock.mp trivial)]
      obtain ⟨hptr, hfd, hclosed⟩ := hs.settled trivial (by simp)
      exact ⟨⟨hk.no_fault, hk.frees, hk.stream, fun _ => ⟨hptr, hfd, hclosed⟩⟩,
        .out (by simp) False.elim told_none⟩

theorem Turn.grows {r : Conn ι × Local} (ht : Turn i c l r) : Grows c r.1 := by
  obtain ⟨-, hlive, htaken, hgiven⟩ := c.touch_fields
  obtain ⟨hlive', htaken', hgiven'⟩ := c.unlocked_fields i
  have htouch : Grows c c.touch :=
    ⟨fun x hx => htaken ▸ hx, fun x hx => hgiven ▸ hx, fun h => hlive.trans h⟩
  have hunlock : Grows c (c.unlocked i) :=
    ⟨fun x hx => htaken' ▸ hx, fun x hx => hgiven' ▸ hx, fun h => hlive'.trans h⟩
  have hsame : Grows c c := ⟨fun _ h => h, fun _ h => h, fun h => h⟩
  cases ht with
  | enters => exact hsame
  | lock => exact ⟨fun _ h => h, fun _ h => h, fun h => h⟩
  | refused => exact hsame
  | called => exact hsame
  | read =>
      exact ⟨fun x hx => List.mem_append_left _ hx, fun x hx => hgiven ▸ hx,
        fun h => hlive.trans h⟩
  | write =>
      exact ⟨fun x hx => htaken ▸ hx, fun x hx => List.mem_append_left _ hx,
        fun h => hlive.trans h⟩
  | frees => exact ⟨fun x hx => htaken ▸ hx, fun x hx => hgiven ▸ hx, fun _ => rfl⟩
  | closes => exact ⟨fun _ h => h, fun _ h => h, fun h => h⟩
  | returns => exact hunlock
  | again => exact hunlock
  | fails => exact htouch
  | pending => exact htouch
  | sets => exact htouch
  | ready => exact htouch
  | interrupted => exact htouch
  | poll_fails => exact htouch
  | get_error => exact htouch

/-- **Who is not inside** can take the lock when it is free, and nothing else. -/
theorem Turn.outside {r : Conn ι × Local} (ht : Turn i c l r) (hl : ¬ l.Inside) :
    (r.1 = c ∧ (∃ last, l = .outside last) ∧ ¬ r.2.Inside)
      ∨ (c.mu = none ∧ r.1 = { c with mu := some i }) := by
  cases ht with
  | enters last op =>
      refine Or.inl ⟨rfl, ⟨last, rfl⟩, ?_⟩
      show ¬ (enter op).Inside
      rcases @enter_cases ι op with he | ⟨ret, he, -⟩
      · rw [he]
        exact False.elim
      · rw [he]
        exact False.elim
  | lock op hmu => exact Or.inr ⟨hmu, rfl⟩
  | _ => exact absurd trivial hl

/-- Who is inside keeps the lock, or gives it back. -/
theorem Turn.lock_after {r : Conn ι × Local} (ht : Turn i c l r) (hmu : c.mu = some i) :
    r.1.mu = some i ∨ r.1.mu = none := by
  have htouch : c.touch.mu = some i := c.touch_fields.1.trans hmu
  have hunlock : (c.unlocked i).mu = none := by
    rw [Conn.unlocked_own hmu]
  cases ht with
  | enters => exact Or.inl hmu
  | lock => exact Or.inl rfl
  | closes => exact Or.inl hmu
  | refused => exact Or.inl hmu
  | called => exact Or.inl hmu
  | returns => exact Or.inr hunlock
  | again => exact Or.inr hunlock
  | _ => exact Or.inl htouch

/-- **What the others say** stays right, too. -/
theorem Turn.others {r : Conn ι × Local} {m : Local} (ht : Turn i c l r) (hij : i ≠ j)
    (hs : Says i c l) (hm : Says j c m) : Says j r.1 m := by
  -- nobody else is inside when the lock changes hands
  have hnot : c.mu = none ∨ c.mu = some i → ¬ m.Inside := by
    rintro (hmu | hmu) hin
    · rw [hm.lock.mp hin] at hmu
      cases hmu
    · rw [hm.lock.mp hin] at hmu
      exact hij (Option.some.inj hmu).symm
  have hfrom : ¬ m.Inside → r.1.mu ≠ some j → Says j r.1 m := fun hin hmu =>
    .out hmu hin fun op ret h => (hm.told op ret h).mono ht.grows
  by_cases hl : l.Inside
  · have hmu := hs.lock.mp hl
    refine hfrom (hnot (Or.inr hmu)) ?_
    rcases ht.lock_after hmu with h | h
    · rw [h]
      exact fun he => hij (Option.some.inj he)
    · rw [h]
      exact fun he => by cases he
  · rcases ht.outside hl with ⟨hsame, -, -⟩ | ⟨hmu, hc'⟩
    · rw [hsame]
      exact hm
    · refine hfrom (hnot (Or.inl hmu)) ?_
      rw [hc']
      exact fun he => hij (Option.some.inj he)

theorem goroutines_outline (ι : Type*) [DecidableEq ι] (stream : Bytes) :
    (goroutines ι stream).Outline (Kept stream) Says where
  init := by
    rintro c ls ⟨rfl, hls⟩
    refine ⟨⟨rfl, rfl, rfl, fun _ => ⟨rfl, rfl, rfl⟩⟩, fun i => ?_⟩
    rw [hls i]
    exact .out (by simp) False.elim told_none
  own := fun i c l a r hk hs hstep => (Turn.of_step hstep).own hk hs
  others := fun i j c l m a r hij _ hs hm hstep => (Turn.of_step hstep).others hij hs hm

/-! ## §5. All runs. -/

/-- The connection is used by one goroutine at a time, and only before it is freed, which happens
at most once; what its reads give out is what the client says, in order and without a gap; and
what a goroutine is told is so. -/
structure Sound (stream : Bytes) (s : Conn ι × (ι → Local)) : Prop where
  exclusive : ∀ i j, (s.2 i).Inside → (s.2 j).Inside → i = j
  no_fault : s.1.faults = 0
  once : s.1.frees ≤ 1
  alive : ∀ i, (s.2 i).InC → s.1.live = true
  stream : (s.1.taken.map Prod.snd).flatten ++ s.1.incoming = stream
  told : ∀ i op ret, (s.2 i).said = some (op, ret) → Told i s.1 op ret

variable {s t : Conn ι × (ι → Local)}

/-- **Who waits for the client keeps all others waiting**: while a goroutine is inside `Read` or
`Write` and takes no step, nothing happens to the connection, nobody else comes inside, and no
call that waits for the lock returns, a `Close` or a new deadline as little as any. -/
theorem others_wait (h : (goroutines ι stream).system.Reachable s) (hi : (s.2 i).Inside)
    {as : List (ι × Act)} (hrun : (goroutines ι stream).system.Run s as t)
    (has : ∀ a ∈ as, a.1 ≠ i) :
    t.1 = s.1 ∧ ∀ j, j ≠ i → ¬ (t.2 j).Inside ∧ ∀ op, s.2 j = .lock op → t.2 j = .lock op := by
  obtain ⟨-, hs⟩ := (goroutines_outline ι stream).reachable h
  have hmu := (hs i).lock.mp hi
  refine Threads.others_keep (P := fun u => u.1 = s.1 ∧ ∀ j, j ≠ i → ¬ (u.2 j).Inside
    ∧ ∀ op, s.2 j = .lock op → u.2 j = .lock op) ?_ hrun ⟨rfl, fun j hj => ⟨?_, fun _ h => h⟩⟩ has
  · rintro u a v ⟨hu, hothers⟩ ha hstep
    obtain ⟨hown, hrest⟩ := Threads.step_iff.mp hstep
    obtain ⟨hin, hwait⟩ := hothers a.1 ha
    rcases (Turn.of_step hown).outside hin with ⟨hsame, ⟨last, hlast⟩, hnot⟩ | ⟨hfree, -⟩
    · refine ⟨hsame.trans hu, fun j hj => ?_⟩
      by_cases hja : j = a.1
      · subst hja
        refine ⟨hnot, fun op hop => ?_⟩
        rw [hwait op hop] at hlast
        cases hlast
      · rw [hrest j hja]
        exact hothers j hj
    · rw [hu, hmu] at hfree
      cases hfree
  · intro hin
    rw [(hs j).lock.mp hin] at hmu
    exact hj (Option.some.inj hmu)

/-! ## §6. A reader and a closer. -/

/-- What the client says. -/
def hello : Bytes := ascii "GET /"

def opened : Conn Bool × (Bool → Local) :=
  (⟨none, true, false, true, true, 0, 0, hello, [], []⟩, fun _ => .outside none)

/-- `false` waits in `Read`, and `true` wants to close … -/
def waits : List (Bool × Act) :=
  [(false, .enter (.read 4)), (false, .go), (false, .go), (false, .fails .want_read),
    (true, .enter .close)]

/-- … which it does when the reader has its bytes, and not before. -/
def closesThen : List (Bool × Act) :=
  [(false, .polled .ready), (false, .moved 4), (false, .go), (true, .go), (true, .go),
    (true, .go), (true, .go), (true, .go), (false, .enter (.read 4)), (false, .go), (false, .go),
    (false, .go)]

theorem opened_reachable : (goroutines Bool hello).system.Reachable opened :=
  .init ⟨rfl, fun _ => rfl⟩

theorem others_wait_close : ∃ s, stepAll (goroutines Bool hello).next opened waits = some s
    ∧ s.2 true = .lock .close ∧ ∀ as t, (goroutines Bool hello).system.Run s as t →
      (∀ a ∈ as, a.1 ≠ false) → t.2 true = .lock .close := by
  have hrun : (stepAll (goroutines Bool hello).next opened waits).map
      (fun s => (s.2 false, s.2 true)) = some (.poll (.read 4) .want_read, .lock .close) := by
    decide +kernel
  obtain ⟨s, hs, hends⟩ := Option.map_eq_some_iff.mp hrun
  obtain ⟨hfalse, htrue⟩ := Prod.mk.inj hends
  have hreach := opened_reachable.stepAll (P := fun _ => true) (fun _ _ _ _ h => h)
    (by decide +kernel) hs
  have hin : (s.2 false).Inside := by
    rw [hfalse]
    trivial
  refine ⟨s, hs, htrue, fun as t hrun' has => ?_⟩
  exact ((others_wait hreach hin hrun' has).2 true (by decide)).2 _ htrue

end TlsMigration.BenchHttps
