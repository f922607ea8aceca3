/-
  TlsMigration.BenchHttp.Tunnel
  ─────────────────────────────
  **ONE CONNECTION THROUGH THE VANILLA GATEWAY**
  (`serveVanillaConn` of benchhttp/vanilla.go).

  Two goroutines copy, one from the client to the upstream and one back, and
  the second one waits for the first before both sockets are closed.  What
  each side sends is arbitrary; how it is cut, and where a call fails, is an
  argument.

    • `step`             — one call of one of the two;
    • `tunnel_faithful`  — what comes out of the tunnel is what went in, and
      no socket is used after it is closed.

  `CloseWrite` may fail, and nobody looks: a `nil` return says that the bytes
  have gone through, not that either side has been told the end.
-/
import TlsMigration.Lib.Bytes
import TlsMigration.Lib.Threads

namespace TlsMigration.BenchHttp.Tunnel

open TlsMigration.TransitionSystem

/-! ## §1. The two goroutines. -/

/-- `up` is from the client to the upstream; `down` is back, and the function itself. -/
inductive Way where
  | up
  | down
deriving DecidableEq

/-- The two sockets, what goes through them, and the channel. -/
structure Link where
  /-- `net.Dial` has succeeded, and the goroutine runs -/
  started : Bool
  /-- the sockets are open -/
  conn : Bool
  upConn : Bool
  /-- how often they have been closed -/
  closes : Nat
  upCloses : Nat
  /-- calls on a socket that is not open -/
  faults : Nat
  /-- what each side sends, and has not been read -/
  coming : Way → Bytes
  /-- what has been written to the other side -/
  passed : Way → Bytes
  /-- `CloseWrite` on the other side has succeeded -/
  shut : Way → Bool
  /-- what has been sent on `errCh` -/
  errCh : Option (Option Nat)

/-- Where a goroutine is. -/
inductive Local where
  | start
  /-- in `io.Copy`, before a read -/
  | read
  /-- … and with this much of what was read to be written -/
  | write (chunk : Bytes)
  /-- behind `io.Copy` -/
  | copied (err : Option Nat)
  /-- before `errCh` is written, or read -/
  | join (err : Option Nat)
  /-- before `upConn.Close()` -/
  | closeUp (ret : Option Nat)
  /-- before `conn.Close()` -/
  | closeConn (ret : Option Nat)
  | done (ret : Option Nat)
deriving DecidableEq

inductive Act where
  | go
  /-- `net.Dial` returns, with or without an error -/
  | dials (err : Option Nat)
  | reads (n : Nat)
  | eof
  | writes (n : Nat)
  | fails (err : Nat)

/-- The socket that is read. -/
def Link.src (k : Link) : Way → Bool
  | .up => k.conn
  | .down => k.upConn

/-- The socket that is written. -/
def Link.dst (k : Link) : Way → Bool
  | .up => k.upConn
  | .down => k.conn

/-- A call on a socket. -/
def Link.call (k : Link) (isOpen : Bool) : Link :=
  if isOpen then k else { k with faults := k.faults + 1 }

def step (w : Way) (k : Link) (l : Local) (a : Act) : Option (Link × Local) :=
  match l, a with
  | .start, .go => if w = .up ∧ k.started then some (k, .read) else none
  | .start, .dials none =>
      if w = .down then some ({ k with upConn := true, started := true }, .read) else none
  | .start, .dials (some e) => if w = .down then some (k, .closeConn (some e)) else none
  | .read, .reads n =>
      if 0 < n ∧ n ≤ (k.coming w).length then
        some ({ k.call (k.src w) with coming := Function.update k.coming w ((k.coming w).drop n) },
          .write ((k.coming w).take n))
      else none
  | .read, .eof => if k.coming w = [] then some (k.call (k.src w), .copied none) else none
  | .read, .fails e => some (k.call (k.src w), .copied (some e))
  | .write chunk, .writes n =>
      if 0 < n ∧ n ≤ chunk.length then
        some ({ k.call (k.dst w) with
            passed := Function.update k.passed w (k.passed w ++ chunk.take n) },
          if n = chunk.length then .read else .write (chunk.drop n))
      else none
  | .write _, .fails e => some (k.call (k.dst w), .copied (some e))
  -- both ways half-close behind the copy, failed or not
  | .copied err, .go =>
      some ({ k.call (k.dst w) with shut := Function.update k.shut w true }, .join err)
  -- the error of `CloseWrite` is not looked at
  | .copied err, .fails _ => some (k.call (k.dst w), .join err)
  | .join err, .go =>
      match w, k.errCh with
      | .up, _ => some ({ k with errCh := some err }, .done err)
      -- the error of the way down first; `io.Copy` itself never returns `io.EOF`
      | .down, some upErr => some (k, .closeUp (err.or upErr))
      | .down, none => none
  | .closeUp ret, .go =>
      some ({ k.call k.upConn with upConn := false, upCloses := k.upCloses + 1 }, .closeConn ret)
  | .closeConn ret, .go =>
      some ({ k.call k.conn with conn := false, closes := k.closes + 1 }, .done ret)
  | _, _ => none

/-- The tunnel between a client and an upstream that send `stream`. -/
def tunnel (stream : Way → Bytes) : Threads Way Link Local Act where
  init k ls :=
    k = ⟨false, true, false, 0, 0, 0, stream, fun _ => [], fun _ => false, none⟩
      ∧ ∀ w, ls w = .start
  step := step

/-! ## §2. What is kept. -/

variable {stream : Way → Bytes} {k : Link} {w : Way} {l : Local}

/-- Nothing of either direction is missing. -/
def Whole (stream : Way → Bytes) (k : Link) : Prop := ∀ w, k.passed w = stream w

/-- What goes one way. -/
def Carries (stream : Way → Bytes) (w : Way) (k : Link) : Local → Prop
  | .start => k.passed w = [] ∧ k.coming w = stream w ∧ k.shut w = false
  | .read => k.passed w ++ k.coming w = stream w ∧ k.shut w = false
  | .write chunk => k.passed w ++ (chunk ++ k.coming w) = stream w ∧ k.shut w = false
  | .copied err => k.passed w <+: stream w ∧ (err = none → k.passed w = stream w)
  | .join err => k.passed w <+: stream w ∧ (err = none → k.passed w = stream w)
  | .closeUp _ => k.passed w <+: stream w
  | .closeConn _ => k.passed w <+: stream w
  | .done _ => k.passed w <+: stream w

/-- A goroutine copies only while both sockets are open; the one that closes them knows that the
other one is over. -/
def Stands (stream : Way → Bytes) : Way → Link → Local → Prop
  | .up, k, .start => k.errCh = none
  | .up, k, .done _ => k.errCh.isSome = true
  | .up, _, .closeUp _ => False
  | .up, _, .closeConn _ => False
  | .up, k, _ => k.started = true ∧ k.errCh = none
  | .down, k, .start => k.started = false ∧ k.conn = true ∧ k.upConn = false ∧ k.errCh = none
  | .down, k, .closeUp ret => k.started = true ∧ k.conn = true ∧ k.upConn = true
      ∧ k.errCh.isSome = true ∧ (ret = none → Whole stream k)
  | .down, k, .closeConn ret => k.conn = true ∧ k.upConn = false
      ∧ (k.started = true → k.errCh.isSome = true) ∧ (ret = none → Whole stream k)
  | .down, k, .done ret => k.conn = false ∧ k.upConn = false
      ∧ (k.started = true → k.errCh.isSome = true) ∧ (ret = none → Whole stream k)
  | .down, k, _ => k.started = true ∧ k.conn = true ∧ k.upConn = true

/-- What always holds of the link. -/
structure Kept (stream : Way → Bytes) (k : Link) : Prop where
  no_fault : k.faults = 0
  /-- the sockets stay open until the channel is written -/
  isOpen : k.started = true → k.errCh = none → k.conn = true ∧ k.upConn = true
  /-- no error on the channel means that everything has gone up -/
  sent : k.errCh = some none → k.passed .up = stream .up
  closes : k.closes = if k.conn then 0 else 1
  upCloses : k.upCloses = if k.started && !k.upConn then 1 else 0

/-- The goroutine is in `io.Copy`, or on the way to the channel. -/
def Local.Copies : Local → Prop
  | .read => True
  | .write _ => True
  | .copied _ => True
  | .join _ => True
  | _ => False

/-- The goroutine is in `io.Copy`. -/
def Local.Moves : Local → Prop
  | .read => True
  | .write _ => True
  | _ => False

/-- What a call of one goroutine's copy leaves alone. -/
structure Same (w : Way) (k k' : Link) : Prop where
  started : k'.started = k.started
  conn : k'.conn = k.conn
  upConn : k'.upConn = k.upConn
  closes : k'.closes = k.closes
  upCloses : k'.upCloses = k.upCloses
  faults : k'.faults = k.faults
  errCh : k'.errCh = k.errCh
  other : ∀ v, v ≠ w → k'.coming v = k.coming v ∧ k'.passed v = k.passed v ∧ k'.shut v = k.shut v

/-- The steps that are not a part of a copy. -/
inductive Joins (k : Link) : Way → Local → Link × Local → Prop where
  | starts : k.started = true → Joins k .up .start (k, .read)
  | dials : Joins k .down .start ({ k with upConn := true, started := true }, .read)
  | fails (e : Nat) : Joins k .down .start (k, .closeConn (some e))
  | sends (err : Option Nat) : Joins k .up (.join err) ({ k with errCh := some err }, .done err)
  | receives {err upErr : Option Nat} : k.errCh = some upErr →
      Joins k .down (.join err) (k, .closeUp (err.or upErr))
  | closesUp (w : Way) (ret : Option Nat) : Joins k w (.closeUp ret)
      ({ k.call k.upConn with upConn := false, upCloses := k.upCloses + 1 }, .closeConn ret)
  | closes (w : Way) (ret : Option Nat) : Joins k w (.closeConn ret)
      ({ k.call k.conn with conn := false, closes := k.closes + 1 }, .done ret)

/-- Who copies has not told the other side the end. -/
theorem Carries.shut (h : Carries stream w k l) (hl : l.Moves) : k.shut w = false := by
  cases l with
  | read => exact h.2
  | write chunk => exact h.2
  | _ => exact hl.elim

theorem call_open {isOpen : Bool} (h : isOpen = true) : k.call isOpen = k := by
  unfold Link.call
  rw [if_pos h]

theorem Same.refl (w : Way) (k : Link) : Same w k k :=
  ⟨rfl, rfl, rfl, rfl, rfl, rfl, rfl, fun _ _ => ⟨rfl, rfl, rfl⟩⟩

/-- What has been passed on is a front of what was sent. -/
theorem Carries.front (h : Carries stream w k l) : k.passed w <+: stream w := by
  cases l with
  | start =>
      rw [h.1]
      exact List.nil_prefix
  | read => exact ⟨_, h.1⟩
  | write chunk => exact ⟨_, h.1⟩
  | copied err => exact h.1
  | join err => exact h.1
  | closeUp ret => exact h
  | closeConn ret => exact h
  | done ret => exact h

/-! ## §3. One step. -/

/-- **A step** is a call of a copy, which passes on what it has read, or one of the others. -/
theorem step_cases {a : Act} {r : Link × Local} (hopen : l.Copies → k.src w = true ∧ k.dst w = true)
    (h : step w k l a = some r) :
    (l.Copies ∧ r.2.Copies ∧ Same w k r.1 ∧ (Carries stream w k l → Carries stream w r.1 r.2))
      ∨ Joins k w l r := by
  unfold step at h
  split at h
  next =>
    split at h
    next hw =>
      obtain rfl := Option.some.inj h
      obtain ⟨rfl, hstarted⟩ := hw
      exact Or.inr (.starts hstarted)
    next => cases h
  next =>
    split at h
    next hw =>
      obtain rfl := Option.some.inj h
      subst hw
      exact Or.inr .dials
    next => cases h
  next e =>
    split at h
    next hw =>
      obtain rfl := Option.some.inj h
      subst hw
      exact Or.inr (.fails e)
    next => cases h
  next n =>
    split at h
    next hn =>
      obtain rfl := Option.some.inj h
      rw [call_open (hopen trivial).1]
      refine Or.inl ⟨trivial, trivial, ⟨rfl, rfl, rfl, rfl, rfl, rfl, rfl, fun v hv => ?_⟩,
        fun hc => ?_⟩
      · exact ⟨Function.update_of_ne hv _ _, rfl, rfl⟩
      · refine ⟨?_, hc.2⟩
        show k.passed w ++ ((k.coming w).take n ++ Function.update k.coming w _ w) = _
        rw [Function.update_self, List.take_append_drop]
        exact hc.1
    next => cases h
  next =>
    split at h
    next hend =>
      obtain rfl := Option.some.inj h
      rw [call_open (hopen trivial).1]
      refine Or.inl ⟨trivial, trivial, .refl w k, fun hc => ⟨hc.front, fun _ => ?_⟩⟩
      have hc : k.passed w ++ k.coming w = stream w := hc.1
      rw [hend, List.append_nil] at hc
      exact hc
    next => cases h
  next e =>
    obtain rfl := Option.some.inj h
    rw [call_open (hopen trivial).1]
    exact Or.inl ⟨trivial, trivial, .refl w k, fun hc => ⟨hc.front, fun he => by cases he⟩⟩
  next chunk n =>
    split at h
    next hn =>
      obtain rfl := Option.some.inj h
      rw [call_open (hopen trivial).2]
      have hsame : Same w k { k with
          passed := Function.update k.passed w (k.passed w ++ chunk.take n) } :=
        ⟨rfl, rfl, rfl, rfl, rfl, rfl, rfl,
          fun v hv => ⟨rfl, Function.update_of_ne hv _ _, rfl⟩⟩
      have hwritten : Carries stream w k (.write chunk) →
          Function.update k.passed w (k.passed w ++ chunk.take n) w
            ++ (chunk.drop n ++ k.coming w) = stream w ∧ k.shut w = false := by
        intro hc
        refine ⟨?_, hc.2⟩
        rw [Function.update_self, List.append_assoc, ← List.append_assoc (chunk.take n),
          List.take_append_drop]
        exact hc.1
      dsimp only
      split
      next hall =>
        refine Or.inl ⟨trivial, trivial, hsame, fun hc => ?_⟩
        obtain ⟨hw, hshut⟩ := hwritten hc
        rw [hall, List.drop_length, List.nil_append] at hw
        rw [hall]
        exact ⟨hw, hshut⟩
      next => exact Or.inl ⟨trivial, trivial, hsame, hwritten⟩
    next => cases h
  next chunk e =>
    obtain rfl := Option.some.inj h
    rw [call_open (hopen trivial).2]
    exact Or.inl ⟨trivial, trivial, .refl w k, fun hc => ⟨hc.front, fun he => by cases he⟩⟩
  next err =>
    obtain rfl := Option.some.inj h
    rw [call_open (hopen trivial).2]
    refine Or.inl ⟨trivial, trivial, ⟨rfl, rfl, rfl, rfl, rfl, rfl, rfl, fun v hv => ?_⟩,
      fun hc => ?_⟩
    · exact ⟨rfl, rfl, Function.update_of_ne hv _ _⟩
    · exact hc
  next err _ =>
    obtain rfl := Option.some.inj h
    rw [call_open (hopen trivial).2]
    exact Or.inl ⟨trivial, trivial, .refl w k, fun hc => hc⟩
  next err =>
    split at h
    next =>
      obtain rfl := Option.some.inj h
      exact Or.inr (.sends err)
    next upErr hsent =>
      obtain rfl := Option.some.inj h
      exact Or.inr (.receives hsent)
    next => cases h
  next ret =>
    obtain rfl := Option.some.inj h
    exact Or.inr (.closesUp w ret)
  next ret =>
    obtain rfl := Option.some.inj h
    exact Or.inr (.closes w ret)
  next => cases h

/-- Where a goroutine that copies stands. -/
theorem stands_copies (hl : l.Copies) : Stands stream w k l ↔ k.started = true
    ∧ (w = .up → k.errCh = none) ∧ (w = .down → k.conn = true ∧ k.upConn = true) := by
  cases w with
  | up => cases l <;> first | exact hl.elim | simp [Stands]
  | down => cases l <;> first | exact hl.elim | simp [Stands]

theorem Stands.sockets (hk : Kept stream k) (h : Stands stream w k l) (hl : l.Copies) :
    k.src w = true ∧ k.dst w = true := by
  obtain ⟨hstarted, hup, hdown⟩ := (stands_copies hl).mp h
  cases w with
  | up => exact hk.isOpen hstarted (hup rfl)
  | down => exact (hdown rfl).symm

/-- A copy keeps the link in order. -/
theorem Kept.copies {k' : Link} (hk : Kept stream k) (hs : Stands stream w k l) (hl : l.Copies)
    (h : Same w k k') : Kept stream k' := by
  refine ⟨h.faults.trans hk.no_fault, ?_, ?_, ?_, ?_⟩
  · rw [h.started, h.errCh, h.conn, h.upConn]
    exact hk.isOpen
  · rw [h.errCh]
    intro hsent
    cases w with
    | up =>
        rw [((stands_copies hl).mp hs).2.1 rfl] at hsent
        cases hsent
    | down =>
        obtain ⟨-, hpassed, -⟩ := h.other .up (by decide)
        rw [hpassed]
        exact hk.sent hsent
  · rw [h.closes, h.conn]
    exact hk.closes
  · rw [h.upCloses, h.started, h.upConn]
    exact hk.upCloses

/-- What a goroutine may say. -/
def Says (stream : Way → Bytes) (w : Way) (k : Link) (l : Local) : Prop :=
  Carries stream w k l ∧ Stands stream w k l

/-- **A goroutine's own step.** -/
theorem step_own {a : Act} {r : Link × Local} (hk : Kept stream k) (hs : Says stream w k l)
    (h : step w k l a = some r) : Kept stream r.1 ∧ Says stream w r.1 r.2 := by
  obtain ⟨hc, hst⟩ := hs
  rcases step_cases (fun hl => hst.sockets hk hl) h with ⟨hl, hl', hsame, hcarry⟩ | hjoin
  · refine ⟨hk.copies hst hl hsame, hcarry hc, (stands_copies hl').mpr ?_⟩
    rw [hsame.started, hsame.errCh, hsame.conn, hsame.upConn]
    exact (stands_copies hl).mp hst
  · cases hjoin with
    | starts hstarted =>
        refine ⟨hk, ⟨?_, hc.2.2⟩, hstarted, hst⟩
        show k.passed .up ++ k.coming .up = _
        rw [hc.1, hc.2.1, List.nil_append]
    | dials =>
        obtain ⟨hstarted, hconn, -, herr⟩ := hst
        refine ⟨⟨hk.no_fault, fun _ _ => ⟨hconn, rfl⟩, hk.sent, hk.closes, ?_⟩, ⟨?_, hc.2.2⟩, rfl,
          hconn, rfl⟩
        · have hup := hk.upCloses
          rw [hstarted] at hup
          exact hup
        · show k.passed .down ++ k.coming .down = _
          rw [hc.1, hc.2.1, List.nil_append]
    | fails e =>
        obtain ⟨hstarted, hconn, hupConn, -⟩ := hst
        refine ⟨hk, hc.front, hconn, hupConn, fun h => ?_, fun h => by cases h⟩
        rw [hstarted] at h
        cases h
    | sends err =>
        refine ⟨⟨hk.no_fault, fun _ h => (by cases h), fun h => ?_, hk.closes, hk.upCloses⟩,
          hc.front, rfl⟩
        exact hc.2 (Option.some.inj h)
    | @receives err upErr hsent =>
        obtain ⟨hstarted, hconn, hupConn⟩ := hst
        refine ⟨hk, hc.front, hstarted, hconn, hupConn, by rw [hsent]; rfl, fun hret => ?_⟩
        obtain ⟨rfl, rfl⟩ := Option.or_eq_none_iff.mp hret
        intro v
        cases v with
        | up => exact hk.sent hsent
        | down => exact hc.2 rfl
    | closesUp w ret =>
        cases w with
        | up => exact hst.elim
        | down =>
            obtain ⟨hstarted, hconn, hupConn, hsome, hwhole⟩ := hst
            rw [call_open hupConn]
            refine ⟨⟨hk.no_fault, fun _ h => ?_, hk.sent, hk.closes, ?_⟩, hc, hconn, rfl,
              fun _ => hsome, hwhole⟩
            · have h : k.errCh = none := h
              rw [h] at hsome
              cases hsome
            · have hup := hk.upCloses
              rw [hstarted, hupConn] at hup
              show k.upCloses + 1 = if k.started && !false then 1 else 0
              rw [hup, hstarted]
              rfl
    | closes w ret =>
        cases w with
        | up => exact hst.elim
        | down =>
            obtain ⟨hconn, hupConn, hsome, hwhole⟩ := hst
            rw [call_open hconn]
            refine ⟨⟨hk.no_fault, fun hstarted h => ?_, hk.sent, ?_, hk.upCloses⟩, hc, rfl, hupConn,
              hsome, hwhole⟩
            · have h : k.errCh = none := h
              have hsome := hsome hstarted
              rw [h] at hsome
              cases hsome
            · have hcl := hk.closes
              rw [hconn] at hcl
              show k.closes + 1 = 1
              rw [hcl]
              rfl

theorem call_fields (k : Link) (b : Bool) : (k.call b).started = k.started
    ∧ (k.call b).errCh = k.errCh ∧ (k.call b).coming = k.coming
    ∧ (k.call b).passed = k.passed ∧ (k.call b).shut = k.shut := by
  unfold Link.call
  split <;> exact ⟨rfl, rfl, rfl, rfl, rfl⟩

/-- What goes the other way is the other goroutine's. -/
theorem Carries.of_same {k' : Link} {m : Local} (h : Carries stream w k m)
    (hcoming : k'.coming w = k.coming w) (hpassed : k'.passed w = k.passed w)
    (hshut : k'.shut w = k.shut w) : Carries stream w k' m := by
  cases m <;> simpa only [Carries, hcoming, hpassed, hshut] using h

/-- **While the goroutine of the upstream is not over**, the function itself copies, too. -/
theorem Stands.still_copies {m : Local} (hm : Stands stream .down k m) (hstarted : k.started = true)
    (hnone : k.errCh = none) : m.Copies := by
  have hempty : k.errCh.isSome = true → m.Copies := by
    intro h
    rw [hnone] at h
    cases h
  cases m with
  | start =>
      obtain ⟨hnot, -⟩ := hm
      rw [hnot] at hstarted
      cases hstarted
  | closeUp ret => exact hempty hm.2.2.2.1
  | closeConn ret => exact hempty (hm.2.2.1 hstarted)
  | done ret => exact hempty (hm.2.2.1 hstarted)
  | _ => trivial

/-- What the goroutine says rests on the channel, and on its own direction. -/
theorem Says.up_of_same {k' : Link} {m : Local} (h : Says stream .up k m)
    (hstarted : k'.started = k.started) (herr : k'.errCh = k.errCh)
    (hcoming : k'.coming .up = k.coming .up) (hpassed : k'.passed .up = k.passed .up)
    (hshut : k'.shut .up = k.shut .up) : Says stream .up k' m := by
  obtain ⟨hc, hst⟩ := h
  refine ⟨hc.of_same hcoming hpassed hshut, ?_⟩
  cases m with
  | start => exact herr.trans hst
  | done ret =>
      show k'.errCh.isSome = true
      rw [herr]
      exact hst
  | closeUp ret => exact hst
  | closeConn ret => exact hst
  | _ => exact ⟨hstarted.trans hst.1, herr.trans hst.2⟩

/-- **While the one copies**, what the other one says stays right. -/
theorem Says.other_copies {v : Way} {m : Local} {k' : Link} (hvw : v ≠ w)
    (hm : Says stream v k m) (hs : Stands stream w k l) (hl : l.Copies) (h : Same w k k') :
    Says stream v k' m := by
  obtain ⟨hcoming, hpassed, hshut⟩ := h.other v hvw
  cases v with
  | up => exact hm.up_of_same h.started h.errCh hcoming hpassed hshut
  | down =>
      obtain rfl : w = .up := by
        cases w with
        | up => rfl
        | down => exact absurd rfl hvw
      obtain ⟨hstarted, hup, -⟩ := (stands_copies hl).mp hs
      have hcopies := hm.2.still_copies hstarted (hup rfl)
      obtain ⟨hstarted', -, hopen⟩ := (stands_copies hcopies).mp hm.2
      refine ⟨hm.1.of_same hcoming hpassed hshut, (stands_copies hcopies).mpr ?_⟩
      rw [h.started, h.conn, h.upConn]
      exact ⟨hstarted', fun hd => (by cases hd), hopen⟩

/-- **What the other goroutine says** stays right. -/
theorem step_others {v : Way} {m : Local} {a : Act} {r : Link × Local} (hwv : w ≠ v)
    (hk : Kept stream k) (hs : Says stream w k l) (hm : Says stream v k m)
    (h : step w k l a = some r) : Says stream v r.1 m := by
  obtain ⟨hc, hst⟩ := hs
  rcases @step_cases stream _ _ _ _ _ (fun hl => hst.sockets hk hl) h with
    ⟨hl, -, hsame, -⟩ | hjoin
  · exact hm.other_copies hwv.symm hst hl hsame
  · cases hjoin with
    | starts => exact hm
    | fails => exact hm
    | receives => exact hm
    | dials =>
        cases v with
        | down => exact absurd rfl hwv
        | up =>
            obtain ⟨hcm, hsm⟩ := hm
            refine ⟨hcm.of_same rfl rfl rfl, ?_⟩
            cases m with
            | start => exact hsm
            | done ret => exact hsm
            | closeUp ret => exact hsm
            | closeConn ret => exact hsm
            | _ => exact ⟨rfl, hsm.2⟩
    | sends err =>
        cases v with
        | up => exact absurd rfl hwv
        | down =>
            have hcopies := hm.2.still_copies hst.1 hst.2
            obtain ⟨hstarted, -, hopen⟩ := (stands_copies hcopies).mp hm.2
            exact ⟨hm.1.of_same rfl rfl rfl,
              (stands_copies hcopies).mpr ⟨hstarted, fun hd => (by cases hd), hopen⟩⟩
    | closesUp w ret =>
        cases w with
        | up => exact hst.elim
        | down =>
            obtain ⟨hstarted, herr, hcoming, hpassed, hshut⟩ := call_fields k k.upConn
            cases v with
            | down => exact absurd rfl hwv
            | up =>
                exact hm.up_of_same hstarted herr (congrFun hcoming _) (congrFun hpassed _)
                  (congrFun hshut _)
    | closes w ret =>
        cases w with
        | up => exact hst.elim
        | down =>
            obtain ⟨hstarted, herr, hcoming, hpassed, hshut⟩ := call_fields k k.conn
            cases v with
            | down => exact absurd rfl hwv
            | up =>
                exact hm.up_of_same hstarted herr (congrFun hcoming _) (congrFun hpassed _)
                  (congrFun hshut _)

theorem tunnel_outline (stream : Way → Bytes) :
    (tunnel stream).Outline (Kept stream) (Says stream) where
  init := by
    rintro k ls ⟨rfl, hls⟩
    refine ⟨⟨rfl, fun h => (by cases h), fun h => (by cases h), rfl, rfl⟩, fun w => ?_⟩
    rw [hls w]
    cases w with
    | up => exact ⟨⟨rfl, rfl, rfl⟩, rfl⟩
    | down => exact ⟨⟨rfl, rfl, rfl⟩, rfl, rfl, rfl, rfl⟩
  own := fun w k l a r hk hs h => step_own hk hs h
  others := fun w v k l m a r hwv hk hs hm h => step_others hwv hk hs hm h

/-! ## §4. All runs. -/

/-- What the two sides see of the tunnel. -/
structure Faithful (stream : Way → Bytes) (s : Link × (Way → Local)) : Prop where
  /-- no call on a socket that is not open -/
  no_fault : s.1.faults = 0
  /-- what comes out is a front of what went in -/
  passed : ∀ w, s.1.passed w <+: stream w
  once : s.1.closes ≤ 1 ∧ s.1.upCloses ≤ 1
  /-- neither side is told the end while bytes are still copied to it -/
  half : ∀ w, (s.2 w).Moves → s.1.shut w = false
  /-- a function that returns `nil` has passed on everything, both ways -/
  whole : s.2 .down = .done none → Whole stream s.1
  /-- a function that returns has closed both sockets, and its goroutine copies no more -/
  joined : ∀ ret, s.2 .down = .done ret →
    s.1.conn = false ∧ s.1.upConn = false ∧ ¬ (s.2 .up).Copies

variable {s : Link × (Way → Local)}

/-- **The tunnel is faithful**, in whatever order the two goroutines take their steps, however
the two streams are cut, and wherever a call fails. -/
theorem tunnel_faithful (h : (tunnel stream).system.Reachable s) : Faithful stream s := by
  obtain ⟨hk, hs⟩ := (tunnel_outline stream).reachable h
  refine ⟨hk.no_fault, fun w => (hs w).1.front, ⟨?_, ?_⟩, fun w => (hs w).1.shut,
    fun hdone => ?_, fun ret hdone => ?_⟩
  · rw [hk.closes]
    split <;> decide
  · rw [hk.upCloses]
    split <;> decide
  · have hdown := (hs .down).2
    rw [hdone] at hdown
    exact hdown.2.2.2 rfl
  · have hdown := (hs .down).2
    rw [hdone] at hdown
    refine ⟨hdown.1, hdown.2.1, fun hcopies => ?_⟩
    obtain ⟨hstarted, hup, -⟩ := (stands_copies hcopies).mp (hs .up).2
    have hsome := hdown.2.2.1 hstarted
    rw [hup rfl] at hsome
    cases hsome

/-! ## §5. A request and its response. -/

def twoTexts : Way → Bytes
  | .up => ascii "GET /"
  | .down => ascii "200 OK"

def dialing : Link × (Way → Local) :=
  (⟨false, true, false, 0, 0, 0, twoTexts, fun _ => [], fun _ => false, none⟩, fun _ => .start)

/-- The client ends first, and still has its response. -/
def halfClosed : List (Way × Act) :=
  [(.down, .dials none), (.up, .go), (.up, .reads 3), (.up, .writes 3), (.up, .reads 2),
    (.up, .writes 1), (.up, .writes 1), (.up, .eof), (.up, .go), (.down, .reads 6), (.up, .go),
    (.down, .writes 6), (.down, .eof), (.down, .go), (.down, .go), (.down, .go), (.down, .go)]

theorem tunnel_faithful_half : ∃ s, stepAll (tunnel twoTexts).next dialing halfClosed = some s
    ∧ s.2 .down = .done none ∧ Faithful twoTexts s := by
  have hrun : (stepAll (tunnel twoTexts).next dialing halfClosed).map (fun s => s.2 .down)
      = some (.done none) := by decide +kernel
  obtain ⟨s, hs, hdone⟩ := Option.map_eq_some_iff.mp hrun
  have hstart : (tunnel twoTexts).system.Reachable dialing := .init ⟨rfl, fun _ => rfl⟩
  exact ⟨s, hs, hdone, tunnel_faithful (hstart.stepAll (P := fun _ => true)
    (fun _ _ _ _ h => h) (by decide +kernel) hs)⟩

end TlsMigration.BenchHttp.Tunnel
