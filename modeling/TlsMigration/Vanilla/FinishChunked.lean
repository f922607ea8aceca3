/-
  TlsMigration.Vanilla.FinishChunked
  ──────────────────────────────────
  **THE CHUNKED BODY OF THE VANILLA FUNCTION** (`session_finish_chunked`,
  bench2_vanilla_fn.c).

  The function keeps its place in the body in local variables (`Pc`) and calls
  `session_recv_more` wherever bytes are missing.  That function returns 1 for
  `EAGAIN` as it does for data, so a call that has to wait asks again at once.

    • `chunkStep`      — what is done at a place, with the bytes there are;
    • `finish_run`     — the call, with all it is told by `recv`;
    • `never_held_iff` — when the call is not held by a request.
-/
import TlsMigration.Vanilla.Session

namespace TlsMigration.Vanilla

/-! ## §1. The places in the function. -/

/-- `find_line_end`: where the line ends, and how long its ending is. -/
def find_line_end (buf : Bytes) (start : Nat) : Option (Nat × Nat) :=
  (memchr Ch.lf (buf.drop start)).map fun n =>
    if 0 < n ∧ buf[start + n - 1]? = some Ch.cr then (start + n - 1, 2) else (start + n, 1)

/-- `s->len - cursor`. -/
def left (buf : Bytes) (cursor : Nat) : Nat := (buf.length + 2 ^ 64 - cursor) % 2 ^ 64

/-- Where the function is, with its cursor, the size of the chunk, and `body_bytes_read`. -/
inductive Pc where
  /-- at the start of the loop -/
  | line (cursor body_bytes_read : Nat)
  /-- in the loop over the trailer -/
  | trailer (cursor body_bytes_read : Nat)
  /-- `while (s->len - cursor < chunk_size + 1)` -/
  | data (cursor chunk_size body_bytes_read : Nat)
  /-- `while (s->len - cursor < 2)` -/
  | sep (cursor body_bytes_read : Nat)
  deriving DecidableEq

/-- What is done next. -/
inductive Next where
  | goto (pc : Pc)
  /-- `session_recv_more`, and again -/
  | recv
  | ret (rc : Int) (body_bytes_read : Nat)
  deriving DecidableEq

/-- The cursor behind the line end that separates two chunks, if it is there. -/
def separator (buf : Bytes) (cursor : Nat) : Option Nat :=
  if 2 ≤ left buf cursor ∧ buf[cursor]? = some Ch.cr ∧ buf[cursor + 1]? = some Ch.lf then
    some (cursor + 2)
  else if 1 ≤ left buf cursor ∧ buf[cursor]? = some Ch.lf then some (cursor + 1)
  else none

/-- A size line has been found. -/
def sizeStep (line : Bytes) (cursor body_bytes_read : Nat) : Next :=
  if 64 ≤ line.length then .ret (-1) body_bytes_read
  else
    match chunkSize line with
    | none => .ret (-1) body_bytes_read
    | some r =>
        if r.erange then .ret (-1) body_bytes_read
        else if r.value = 0 then .goto (.trailer cursor body_bytes_read)
        else .goto (.data cursor r.value body_bytes_read)

/-- What `session_finish_chunked` does at a place, with the bytes there are. -/
def chunkStep (buf : Bytes) : Pc → Next
  | .line cursor body_bytes_read =>
      match find_line_end buf cursor with
      | none => .recv
      | some (line_end, eol_len) =>
          sizeStep ((buf.drop cursor).take (line_end - cursor)) (line_end + eol_len)
            body_bytes_read
  | .trailer cursor body_bytes_read =>
      match find_line_end buf cursor with
      | none => .recv
      | some (line_end, eol_len) =>
          if line_end - cursor = 0 then .ret 0 body_bytes_read
          else .goto (.trailer (line_end + eol_len) body_bytes_read)
  | .data cursor chunk_size body_bytes_read =>
      if left buf cursor < (chunk_size + 1) % 2 ^ 64 then .recv
      else
        let body_bytes_read := (body_bytes_read + chunk_size) % 2 ^ 64
        let cursor := (cursor + chunk_size) % 2 ^ 64
        match separator buf cursor with
        | some cursor => .goto (.line cursor body_bytes_read)
        | none => .goto (.sep cursor body_bytes_read)
  | .sep cursor body_bytes_read =>
      if left buf cursor < 2 then .recv
      else
        match separator buf cursor with
        | some cursor => .goto (.line cursor body_bytes_read)
        | none => .ret (-1) body_bytes_read

/-- Where `session_finish_chunked` starts. -/
def Pc.start (hdr_bytes : Nat) : Pc := .line hdr_bytes 0

/-! ## §2. The call. -/

variable {F : Type*}

/-- How one step of the call ends. -/
inductive Turn (F : Type*) where
  | run (s : Session F) (pc : Pc) (got : Option Recv)
  | done (s : Session F) (rc : Int) (got : Option Recv)

/-- One step of `session_finish_chunked`: what is done at the place, or one turn of
`session_recv_more`. -/
def finish_step (s : Session F) (pc : Pc) (c : RecvCalls) : Turn F :=
  match chunkStep s.buf pc with
  | .goto pc => .run s pc none
  | .ret rc body_bytes_read =>
      .done (if rc = 0 then { s with body_bytes_read := body_bytes_read } else s) rc none
  | .recv =>
      let r := session_recv_more s c
      match r.more with
      | .again => .run r.s pc r.got
      | .ret rc => if rc ≤ 0 then .done r.s (-1) r.got else .run r.s pc r.got

/-- A call, as far as it has come: what `recv` has returned so far, the places it has been at,
and what the call returns. -/
structure Run (F : Type*) where
  s : Session F
  recvs : List Recv
  places : List Pc
  rc : Option Int

/-- The first steps of a call; `calls` is what is returned to it from now on. -/
def finish_run : Nat → Session F → Pc → (Nat → RecvCalls) → Run F
  | 0, s, pc, _ => ⟨s, [], [pc], none⟩
  | n + 1, s, pc, calls =>
      match finish_step s pc (calls 0) with
      | .done s rc got => ⟨s, got.toList, [pc], some rc⟩
      | .run s pc' got =>
          let r := finish_run n s pc' (if got.isSome then fun k => calls (k + 1) else calls)
          ⟨r.s, got.toList ++ r.recvs, pc :: r.places, r.rc⟩

/-- `session_finish_chunked(s)`, its first `n` steps. -/
def session_finish_chunked (n : Nat) (s : Session F) (calls : Nat → RecvCalls) : Run F :=
  finish_run n s (Pc.start s.hdr_bytes) calls

/-- Bytes have come, or the call was interrupted. -/
def Recv.goesOn : Recv → Bool
  | .data bytes => bytes ≠ []
  | .eintr => true
  | _ => false

/-- The test `s->len - cursor < chunk_size + 1` does not wrap. -/
def Pc.Exact : Pc → Prop
  | .data _ chunk_size _ => chunk_size + 1 < 2 ^ 64
  | _ => True

/-- What the calls of `recv` have brought. -/
def receivedBytes (recvs : List Recv) : Bytes := (recvs.map fun r => gotBytes (some r)).flatten

theorem receivedBytes_cons (r : Recv) (recvs : List Recv) :
    receivedBytes (r :: recvs) = gotBytes (some r) ++ receivedBytes recvs := by
  unfold receivedBytes
  rw [List.map_cons, List.flatten_cons]

theorem receivedBytes_got (got : Option Recv) : receivedBytes got.toList = gotBytes got := by
  cases got with
  | none => rfl
  | some r => exact List.append_nil _

/-- **The call is not held by the request.** -/
structure NeverHeld (s : Session F) (calls : Nat → RecvCalls) : Prop where
  returns : ∃ n, (session_finish_chunked n s calls).rc ≠ none
  /-- no `recv` after one that has told that there is nothing -/
  one_unsuccessful : ∀ n, ∀ r ∈ (session_finish_chunked n s calls).recvs.dropLast,
    r.goesOn = true
  /-- the session is not given up for bytes that have not come yet -/
  resumes : ∀ n, (session_finish_chunked n s calls).recvs.getLast? = some .eagain →
    (session_finish_chunked n s calls).rc ≠ some (-1)
  /-- nothing that has been received is lost -/
  kept : ∀ n, (session_finish_chunked n s calls).s.buf
    = s.buf ++ receivedBytes (session_finish_chunked n s calls).recvs
  no_wrap : ∀ n, ∀ pc ∈ (session_finish_chunked n s calls).places, pc.Exact

/-! ## §3. What the bytes at hand decide. -/

/-- The places that the function comes to, with the bytes there are. -/
inductive Steps (buf : Bytes) : Pc → Pc → Prop where
  | refl (pc : Pc) : Steps buf pc pc
  | step {pc pc' pc'' : Pc} : chunkStep buf pc = .goto pc' → Steps buf pc' pc'' → Steps buf pc pc''

/-- The bytes at hand leave the body undecided: the function comes to a place where it asks for
more. -/
def Wants (buf : Bytes) (pc : Pc) : Prop := ∃ pc', Steps buf pc pc' ∧ chunkStep buf pc' = .recv

/-- No size line that the function comes to gives the largest size there is. -/
def NoLargest (buf : Bytes) (pc : Pc) : Prop := ∀ pc', Steps buf pc pc' → pc'.Exact

section Decided

variable {buf : Bytes} {pc pc' : Pc}

/-- A place where no step is taken is the same from both ends of a step. -/
theorem steps_goto {stop : Pc} (h : chunkStep buf pc = .goto pc')
    (hstop : ∀ x, chunkStep buf stop ≠ .goto x) : Steps buf pc stop ↔ Steps buf pc' stop := by
  constructor
  · intro hsteps
    cases hsteps with
    | refl => exact absurd h (hstop pc')
    | step hgoto hrest =>
        rw [h] at hgoto
        injection hgoto with hgoto
        subst hgoto
        exact hrest
  · exact .step h

theorem recv_stops (h : chunkStep buf pc = .recv) : ∀ x, chunkStep buf pc ≠ .goto x := by
  intro x hx
  rw [h] at hx
  cases hx

theorem ret_stops {rc : Int} {n : Nat} (h : chunkStep buf pc = .ret rc n) :
    ∀ x, chunkStep buf pc ≠ .goto x := by
  intro x hx
  rw [h] at hx
  cases hx

theorem wants_goto (h : chunkStep buf pc = .goto pc') : Wants buf pc ↔ Wants buf pc' := by
  constructor
  · rintro ⟨stop, hsteps, hrecv⟩
    exact ⟨stop, (steps_goto h (recv_stops hrecv)).mp hsteps, hrecv⟩
  · rintro ⟨stop, hsteps, hrecv⟩
    exact ⟨stop, .step h hsteps, hrecv⟩

theorem wants_recv (h : chunkStep buf pc = .recv) : Wants buf pc := ⟨pc, .refl pc, h⟩

theorem not_wants_ret {rc : Int} {n : Nat} (h : chunkStep buf pc = .ret rc n) : ¬ Wants buf pc := by
  rintro ⟨pc'', hsteps, hrecv⟩
  cases hsteps with
  | refl =>
      rw [h] at hrecv
      cases hrecv
  | step hgoto _ =>
      rw [h] at hgoto
      cases hgoto

theorem noLargest_goto (h : chunkStep buf pc = .goto pc') :
    NoLargest buf pc ↔ pc.Exact ∧ NoLargest buf pc' := by
  constructor
  · intro hno
    exact ⟨hno pc (.refl pc), fun pc'' hsteps => hno pc'' (.step h hsteps)⟩
  · rintro ⟨hexact, hno⟩ pc'' hsteps
    cases hsteps with
    | refl => exact hexact
    | step hgoto hrest =>
        rw [h] at hgoto
        injection hgoto with hgoto
        subst hgoto
        exact hno pc'' hrest

theorem noLargest_stop (h : ∀ pc', chunkStep buf pc ≠ .goto pc') :
    NoLargest buf pc ↔ pc.Exact := by
  constructor
  · exact fun hno => hno pc (.refl pc)
  · intro hexact pc'' hsteps
    cases hsteps with
    | refl => exact hexact
    | step hgoto _ => exact absurd hgoto (h _)

end Decided

/-! ## §4. One step goes forward. -/

theorem find_line_end_spec {buf : Bytes} {start line_end eol_len : Nat}
    (h : find_line_end buf start = some (line_end, eol_len)) :
    start ≤ line_end ∧ 0 < eol_len ∧ line_end + eol_len ≤ buf.length
      ∧ buf[line_end + eol_len - 1]? = some Ch.lf := by
  unfold find_line_end at h
  obtain ⟨n, hn, heq⟩ := Option.map_eq_some_iff.mp h
  have hlt := memchr_lt hn
  rw [List.length_drop] at hlt
  have hlf : buf[start + n]? = some Ch.lf := by
    obtain ⟨l, r, hsplit, -, hlen⟩ := memchr_eq_some.mp hn
    have hget : (buf.drop start)[n]? = some Ch.lf := by
      rw [hsplit, ← hlen]
      simp
    rwa [List.getElem?_drop] at hget
  split at heq
  next hcr =>
    injection heq with h₁ h₂
    subst h₁ h₂
    refine ⟨by omega, by omega, by omega, ?_⟩
    rw [show start + n - 1 + 2 - 1 = start + n by omega]
    exact hlf
  next =>
    injection heq with h₁ h₂
    subst h₁ h₂
    exact ⟨by omega, by omega, by omega, hlf⟩

/-- A line end that is found stays the first one when bytes are appended. -/
theorem find_line_end_append {buf : Bytes} {start : Nat} {p : Nat × Nat} (q : Bytes)
    (hstart : start ≤ buf.length) (h : find_line_end buf start = some p) :
    find_line_end (buf ++ q) start = some p := by
  unfold find_line_end at *
  obtain ⟨n, hn, heq⟩ := Option.map_eq_some_iff.mp h
  have hlt := memchr_lt hn
  rw [List.length_drop] at hlt
  rw [List.drop_append_of_le_length hstart, memchr_append_of_some q hn, Option.map_some, ← heq,
    List.getElem?_append_left (by omega)]

theorem left_eq {buf : Bytes} {cursor : Nat} (hcursor : cursor ≤ buf.length)
    (hbuf : buf.length < 2 ^ 64) : left buf cursor = buf.length - cursor := by
  unfold left
  rw [show buf.length + 2 ^ 64 - cursor = (buf.length - cursor) + 2 ^ 64 by omega,
    Nat.add_mod_right]
  exact Nat.mod_eq_of_lt (by omega)

theorem separator_spec {buf : Bytes} {cursor cursor' : Nat}
    (h : separator buf cursor = some cursor') : cursor < cursor' ∧ cursor' ≤ buf.length := by
  have hlt : ∀ {i : Nat} {c : UInt8}, buf[i]? = some c → i < buf.length := fun h =>
    (List.getElem?_eq_some_iff.mp h).1
  unfold separator at h
  split at h
  next hcrlf =>
    injection h with h
    have hbound := hlt hcrlf.2.2
    omega
  next =>
    split at h
    next hlf =>
      injection h with h
      have hbound := hlt hlf.2
      omega
    next => cases h

/-- What a place promises of its cursor. -/
def PcOk (buf : Bytes) : Pc → Prop
  | .line cursor _ => cursor ≤ buf.length
  | .trailer cursor _ => cursor ≤ buf.length
  -- the LF of the size line
  | .data cursor chunk_size _ => cursor ≤ buf.length ∧ 0 < cursor
      ∧ buf[cursor - 1]? = some Ch.lf ∧ 0 < chunk_size ∧ chunk_size < 2 ^ 64
  | .sep cursor _ => cursor ≤ buf.length

theorem PcOk.append {buf : Bytes} {pc : Pc} (h : PcOk buf pc) (q : Bytes) :
    PcOk (buf ++ q) pc := by
  have hlen : buf.length ≤ (buf ++ q).length := by
    rw [List.length_append]
    omega
  cases pc with
  | line cursor _ => exact Nat.le_trans h hlen
  | trailer cursor _ => exact Nat.le_trans h hlen
  | sep cursor _ => exact Nat.le_trans h hlen
  | data cursor chunk_size _ =>
      obtain ⟨hcursor, hpos, hlf, hsize⟩ := h
      refine ⟨Nat.le_trans hcursor hlen, hpos, ?_, hsize⟩
      rw [List.getElem?_append_left (by omega)]
      exact hlf

/-- What is left to read; the data of a chunk comes before its line end. -/
def todo (buf : Bytes) : Pc → Nat
  | .line cursor _ => 2 * (buf.length - cursor)
  | .trailer cursor _ => 2 * (buf.length - cursor)
  | .data cursor _ _ => 2 * (buf.length - cursor) + 1
  | .sep cursor _ => 2 * (buf.length - cursor)

/-- What a size line can lead to. -/
theorem sizeStep_goto {line : Bytes} {cursor n : Nat} {pc' : Pc}
    (h : sizeStep line cursor n = .goto pc') :
    pc' = .trailer cursor n
      ∨ ∃ chunk_size, 0 < chunk_size ∧ chunk_size < 2 ^ 64 ∧ pc' = .data cursor chunk_size n := by
  unfold sizeStep at h
  split at h
  · cases h
  · split at h
    · cases h
    next r hr =>
      split at h
      · cases h
      · split at h
        · injection h with h
          exact Or.inl h.symm
        · injection h with h
          exact Or.inr ⟨r.value, by omega, chunkSize_lt hr, h.symm⟩

/-- Behind the data: the separator, or the place that waits for it. -/
theorem data_goto {buf : Bytes} {cursor chunk_size n : Nat} {pc' : Pc}
    (h : chunkStep buf (.data cursor chunk_size n) = .goto pc') :
    (chunk_size + 1) % 2 ^ 64 ≤ left buf cursor
      ∧ ((∃ c, separator buf ((cursor + chunk_size) % 2 ^ 64) = some c
          ∧ pc' = .line c ((n + chunk_size) % 2 ^ 64))
        ∨ (separator buf ((cursor + chunk_size) % 2 ^ 64) = none
          ∧ pc' = .sep ((cursor + chunk_size) % 2 ^ 64) ((n + chunk_size) % 2 ^ 64))) := by
  unfold chunkStep at h
  dsimp only at h
  split at h
  · cases h
  · refine ⟨by omega, ?_⟩
    split at h
    next c hsep =>
      injection h with h
      exact Or.inl ⟨c, hsep, h.symm⟩
    next hsep =>
      injection h with h
      exact Or.inr ⟨hsep, h.symm⟩

/-- Where the data of a chunk ends: in front of the last byte there is, or, for the largest
size, on the LF of the size line. -/
theorem data_end {buf : Bytes} {cursor chunk_size n : Nat} (hbuf : buf.length < 2 ^ 64)
    (hpc : PcOk buf (.data cursor chunk_size n))
    (hleft : (chunk_size + 1) % 2 ^ 64 ≤ left buf cursor) :
    (chunk_size + 1 < 2 ^ 64 ∧ (cursor + chunk_size) % 2 ^ 64 = cursor + chunk_size
        ∧ cursor + chunk_size < buf.length)
      ∨ (chunk_size + 1 = 2 ^ 64 ∧ (cursor + chunk_size) % 2 ^ 64 = cursor - 1
        ∧ separator buf (cursor - 1) = some cursor) := by
  obtain ⟨hcursor, hpos, hlf, -, hsize⟩ := hpc
  by_cases hsmall : chunk_size + 1 < 2 ^ 64
  · left
    rw [Nat.mod_eq_of_lt hsmall, left_eq hcursor hbuf] at hleft
    exact ⟨hsmall, Nat.mod_eq_of_lt (by omega), by omega⟩
  · right
    have hlargest : chunk_size + 1 = 2 ^ 64 := by omega
    refine ⟨hlargest, ?_, ?_⟩
    · rw [show cursor + chunk_size = (cursor - 1) + 2 ^ 64 by omega, Nat.add_mod_right]
      exact Nat.mod_eq_of_lt (by omega)
    · have hcr : ¬ (buf[cursor - 1]? = some Ch.cr) := by
        rw [hlf]
        decide
      unfold separator
      rw [left_eq (by omega) hbuf, if_neg (fun h => hcr h.2.1), if_pos ⟨by omega, hlf⟩]
      congr 1
      omega

/-- **Every step goes forward.** -/
theorem chunkStep_goto {buf : Bytes} {pc pc' : Pc} (hbuf : buf.length < 2 ^ 64)
    (hpc : PcOk buf pc) (h : chunkStep buf pc = .goto pc') :
    PcOk buf pc' ∧ todo buf pc' < todo buf pc := by
  cases pc with
  | line cursor n =>
      unfold chunkStep at h
      dsimp only at h
      split at h
      · cases h
      next line_end eol_len hline =>
        obtain ⟨hge, hpos, hle, hlf⟩ := find_line_end_spec hline
        rcases sizeStep_goto h with rfl | ⟨chunk_size, hsize, hsize', rfl⟩
        · refine ⟨hle, ?_⟩
          show 2 * (buf.length - (line_end + eol_len)) < 2 * (buf.length - cursor)
          omega
        · refine ⟨⟨hle, by omega, hlf, hsize, hsize'⟩, ?_⟩
          show 2 * (buf.length - (line_end + eol_len)) + 1 < 2 * (buf.length - cursor)
          omega
  | trailer cursor n =>
      unfold chunkStep at h
      dsimp only at h
      split at h
      · cases h
      next line_end eol_len hline =>
        obtain ⟨hge, hpos, hle, -⟩ := find_line_end_spec hline
        split at h
        · cases h
        · injection h with h
          subst h
          refine ⟨hle, ?_⟩
          show 2 * (buf.length - (line_end + eol_len)) < 2 * (buf.length - cursor)
          omega
  | data cursor chunk_size n =>
      obtain ⟨hleft, hnext⟩ := data_goto h
      have hcursor : cursor ≤ buf.length := hpc.1
      have hsize : 0 < chunk_size := hpc.2.2.2.1
      rcases data_end hbuf hpc hleft with ⟨-, hend, hlt⟩ | ⟨-, hend, hback⟩
      · rw [hend] at hnext
        rcases hnext with ⟨c, hsep, rfl⟩ | ⟨-, rfl⟩
        · have hc := separator_spec hsep
          refine ⟨hc.2, ?_⟩
          show 2 * (buf.length - c) < 2 * (buf.length - cursor) + 1
          omega
        · refine ⟨Nat.le_of_lt hlt, ?_⟩
          show 2 * (buf.length - (cursor + chunk_size)) < 2 * (buf.length - cursor) + 1
          omega
      · rw [hend, hback] at hnext
        rcases hnext with ⟨c, hsep, rfl⟩ | ⟨hsep, -⟩
        · injection hsep with hsep
          subst hsep
          refine ⟨hcursor, ?_⟩
          show 2 * (buf.length - cursor) < 2 * (buf.length - cursor) + 1
          omega
        · cases hsep
  | sep cursor n =>
      unfold chunkStep at h
      dsimp only at h
      split at h
      · cases h
      · split at h
        next c hsep =>
          injection h with h
          subst h
          have hc := separator_spec hsep
          refine ⟨hc.2, ?_⟩
          show 2 * (buf.length - c) < 2 * (buf.length - cursor)
          omega
        next => cases h

/-- The places come to an end: a `recv`, or a return. -/
theorem steps_stop {buf : Bytes} (hbuf : buf.length < 2 ^ 64) (k : Nat) :
    ∀ pc, PcOk buf pc → todo buf pc < k → ∃ pc', Steps buf pc pc' ∧ PcOk buf pc'
      ∧ (chunkStep buf pc' = .recv ∨ ∃ rc n, chunkStep buf pc' = .ret rc n) := by
  induction k with
  | zero =>
      intro pc _ hlt
      omega
  | succ k ih =>
      intro pc hpc hlt
      cases hstep : chunkStep buf pc with
      | goto pc' =>
          obtain ⟨hok, hless⟩ := chunkStep_goto hbuf hpc hstep
          obtain ⟨pc'', hsteps, hrest⟩ := ih pc' hok (by omega)
          exact ⟨pc'', .step hstep hsteps, hrest⟩
      | recv => exact ⟨pc, .refl pc, hpc, Or.inl hstep⟩
      | ret rc n => exact ⟨pc, .refl pc, hpc, Or.inr ⟨rc, n, hstep⟩⟩

/-! ## §5. What more bytes leave as it is. -/

section Append

variable {buf : Bytes} {pc pc' : Pc} {q : Bytes}

theorem left_append {cursor : Nat} (hcursor : cursor ≤ buf.length)
    (hlen : (buf ++ q).length < 2 ^ 64) : left (buf ++ q) cursor = left buf cursor + q.length := by
  have hsum : (buf ++ q).length = buf.length + q.length := List.length_append
  rw [left_eq (by omega) hlen, left_eq hcursor (by omega), hsum]
  omega

theorem separator_append_some {cursor c : Nat} (hcursor : cursor ≤ buf.length)
    (hlen : (buf ++ q).length < 2 ^ 64) (h : separator buf cursor = some c) :
    separator (buf ++ q) cursor = some c := by
  have hleft := left_append hcursor hlen
  have hget : ∀ {i : Nat} {x : UInt8}, buf[i]? = some x → (buf ++ q)[i]? = some x := by
    intro i x hx
    rw [List.getElem?_append_left (List.getElem?_eq_some_iff.mp hx).1]
    exact hx
  unfold separator at *
  split at h
  next hcrlf =>
    rw [if_pos ⟨by omega, hget hcrlf.2.1, hget hcrlf.2.2⟩]
    exact h
  next =>
    split at h
    next hlf =>
      have hat := hget hlf.2
      have hcr : ¬ ((buf ++ q)[cursor]? = some Ch.cr) := by
        rw [hat]
        decide
      rw [if_neg (fun hc => hcr hc.2.1), if_pos ⟨by omega, hat⟩]
      exact h
    next => cases h

theorem separator_append {cursor : Nat} (hcursor : cursor ≤ buf.length)
    (hlen : (buf ++ q).length < 2 ^ 64) (h : 2 ≤ left buf cursor) :
    separator (buf ++ q) cursor = separator buf cursor := by
  have hleft := left_append hcursor hlen
  have hsum : (buf ++ q).length = buf.length + q.length := List.length_append
  have htwo : cursor + 2 ≤ buf.length := by
    rw [left_eq hcursor (by omega)] at h
    omega
  unfold separator
  rw [List.getElem?_append_left (show cursor < buf.length by omega),
    List.getElem?_append_left (show cursor + 1 < buf.length by omega)]
  simp only [h, show 2 ≤ left (buf ++ q) cursor by omega, show 1 ≤ left buf cursor by omega,
    show 1 ≤ left (buf ++ q) cursor by omega, true_and]

theorem line_append {start stop : Nat} (hle : stop ≤ buf.length) (hstart : start ≤ stop) :
    ((buf ++ q).drop start).take (stop - start) = (buf.drop start).take (stop - start) := by
  rw [List.drop_append_of_le_length (by omega),
    List.take_append_of_le_length (by rw [List.length_drop]; omega)]

/-- **A step that is taken is taken with more bytes too**; the place that waits for a separator
may be left out. -/
theorem chunkStep_goto_append (hpc : PcOk buf pc) (hlen : (buf ++ q).length < 2 ^ 64)
    (h : chunkStep buf pc = .goto pc') :
    chunkStep (buf ++ q) pc = .goto pc'
      ∨ ∃ c n, pc'.Exact ∧ chunkStep (buf ++ q) pc = .goto (.line c n)
        ∧ chunkStep (buf ++ q) pc' = .goto (.line c n) := by
  have hsum : (buf ++ q).length = buf.length + q.length := List.length_append
  have hbuf : buf.length < 2 ^ 64 := by omega
  cases pc with
  | line cursor n =>
      left
      unfold chunkStep at *
      dsimp only at *
      cases hline : find_line_end buf cursor with
      | none =>
          rw [hline] at h
          cases h
      | some p =>
          rw [hline] at h
          rw [find_line_end_append q hpc hline]
          obtain ⟨hge, -, hle, -⟩ := find_line_end_spec hline
          dsimp only at *
          rw [line_append (by omega) hge]
          exact h
  | trailer cursor n =>
      left
      unfold chunkStep at *
      dsimp only at *
      cases hline : find_line_end buf cursor with
      | none =>
          rw [hline] at h
          cases h
      | some p =>
          rw [hline] at h
          rw [find_line_end_append q hpc hline]
          exact h
  | data cursor chunk_size n =>
      obtain ⟨hleft, hnext⟩ := data_goto h
      have hcursor : cursor ≤ buf.length := hpc.1
      have hmore := left_append (q := q) hcursor hlen
      have hend : (cursor + chunk_size) % 2 ^ 64 < buf.length := by
        have hpos := hpc.2.1
        rcases data_end hbuf hpc hleft with ⟨-, heq, hlt⟩ | ⟨-, heq, -⟩
        · omega
        · omega
      rcases hnext with ⟨c, hsep, rfl⟩ | ⟨hsep, rfl⟩
      · left
        unfold chunkStep
        dsimp only
        rw [if_neg (by omega), separator_append_some (Nat.le_of_lt hend) hlen hsep]
      · cases hsep' : separator (buf ++ q) ((cursor + chunk_size) % 2 ^ 64) with
        | none =>
            left
            unfold chunkStep
            dsimp only
            rw [if_neg (by omega), hsep']
        | some c =>
            refine Or.inr ⟨c, (n + chunk_size) % 2 ^ 64, trivial, ?_, ?_⟩
            · unfold chunkStep
              dsimp only
              rw [if_neg (by omega), hsep']
            · -- one byte was there, and it is no LF
              have htwo : ¬ left (buf ++ q) ((cursor + chunk_size) % 2 ^ 64) < 2 := by
                intro hone
                have hat := left_append (q := q) (Nat.le_of_lt hend) hlen
                have hq : q.length = 0 := by
                  rw [left_eq (Nat.le_of_lt hend) hbuf] at hat
                  omega
                rw [List.length_eq_zero_iff.mp hq, List.append_nil, hsep] at hsep'
                cases hsep'
              unfold chunkStep
              dsimp only
              rw [if_neg htwo, hsep']
  | sep cursor n =>
      left
      unfold chunkStep at *
      dsimp only at *
      have hmore := left_append (q := q) (show cursor ≤ buf.length from hpc) hlen
      split at h
      · cases h
      · split at h
        next c hsep =>
          rw [if_neg (by omega), separator_append_some hpc hlen hsep]
          exact h
        next => cases h

/-- **And so is a return.** -/
theorem chunkStep_ret_append {rc : Int} {k : Nat} (hpc : PcOk buf pc)
    (hlen : (buf ++ q).length < 2 ^ 64) (h : chunkStep buf pc = .ret rc k) :
    chunkStep (buf ++ q) pc = .ret rc k := by
  cases pc with
  | line cursor n =>
      unfold chunkStep at *
      dsimp only at *
      cases hline : find_line_end buf cursor with
      | none =>
          rw [hline] at h
          cases h
      | some p =>
          rw [hline] at h
          rw [find_line_end_append q hpc hline]
          obtain ⟨hge, -, hle, -⟩ := find_line_end_spec hline
          dsimp only at *
          rw [line_append (by omega) hge]
          exact h
  | trailer cursor n =>
      unfold chunkStep at *
      dsimp only at *
      cases hline : find_line_end buf cursor with
      | none =>
          rw [hline] at h
          cases h
      | some p =>
          rw [hline] at h
          rw [find_line_end_append q hpc hline]
          exact h
  | data cursor chunk_size n =>
      unfold chunkStep at h
      dsimp only at h
      split at h
      · cases h
      · split at h
        · cases h
        · cases h
  | sep cursor n =>
      unfold chunkStep at *
      dsimp only at *
      have hmore := left_append (q := q) (show cursor ≤ buf.length from hpc) hlen
      split at h
      · cases h
      · rw [if_neg (by omega), separator_append hpc hlen (by omega)]
        exact h

/-- Two places from which the bytes decide the same, now and when more have come. -/
def Same (buf : Bytes) (pc pc' : Pc) : Prop :=
  ∀ q : Bytes, (buf ++ q).length < 2 ^ 64 →
    (Wants (buf ++ q) pc ↔ Wants (buf ++ q) pc')
      ∧ (NoLargest (buf ++ q) pc ↔ NoLargest (buf ++ q) pc')

theorem Same.refl (buf : Bytes) (pc : Pc) : Same buf pc pc := fun _ _ => ⟨Iff.rfl, Iff.rfl⟩

theorem Same.symm (h : Same buf pc pc') : Same buf pc' pc := fun q hq =>
  ⟨(h q hq).1.symm, (h q hq).2.symm⟩

theorem Same.trans {pc'' : Pc} (h : Same buf pc pc') (h' : Same buf pc' pc'') :
    Same buf pc pc'' := fun q hq =>
  ⟨(h q hq).1.trans (h' q hq).1, (h q hq).2.trans (h' q hq).2⟩

theorem Same.append (h : Same buf pc pc') (q : Bytes) : Same (buf ++ q) pc pc' := by
  intro q' hq'
  rw [List.append_assoc] at hq' ⊢
  exact h (q ++ q') hq'

theorem Same.now (h : Same buf pc pc') (hbuf : buf.length < 2 ^ 64) :
    (Wants buf pc ↔ Wants buf pc') ∧ (NoLargest buf pc ↔ NoLargest buf pc') := by
  have hnow := h []
  rw [List.append_nil] at hnow
  exact hnow hbuf

/-- **A step leaves what the bytes decide.** -/
theorem Same.goto (hpc : PcOk buf pc) (hexact : pc.Exact) (h : chunkStep buf pc = .goto pc') :
    Same buf pc pc' := by
  intro q hq
  rcases chunkStep_goto_append hpc hq h with hstep | ⟨c, n, hsep, hstep, hstep'⟩
  · rw [wants_goto hstep, noLargest_goto hstep]
    exact ⟨Iff.rfl, and_iff_right hexact⟩
  · rw [wants_goto hstep, wants_goto hstep', noLargest_goto hstep, noLargest_goto hstep',
      and_iff_right hexact, and_iff_right hsep]
    exact ⟨Iff.rfl, Iff.rfl⟩

end Append

/-! ## §6. The call and the bytes. -/

/-- The connection has ended or failed, or there is no room to receive. -/
def gotEnds : Option Recv → Bool
  | none => true
  | some (.data bytes) => bytes = []
  | some .eintr => false
  | some .eagain => false
  | some .error => true

/-- **What comes before the first `EAGAIN` decides the body**, or the connection or the memory ends
first; and no size line on the way gives the largest size. -/
inductive Decided : Session F → Pc → (Nat → RecvCalls) → Prop where
  /-- the bytes at hand make up a body, or no body -/
  | settled {s : Session F} {pc : Pc} {calls : Nat → RecvCalls} :
      ¬ Wants s.buf pc → NoLargest s.buf pc → Decided s pc calls
  /-- bytes are missing, and none will come, or there is no room for them -/
  | ends {s : Session F} {pc : Pc} {calls : Nat → RecvCalls} :
      Wants s.buf pc → NoLargest s.buf pc →
      gotEnds (session_recv_more s (calls 0)).got = true → Decided s pc calls
  /-- bytes are missing, and more come -/
  | more {s : Session F} {pc : Pc} {calls : Nat → RecvCalls} {got : Recv} :
      Wants s.buf pc → NoLargest s.buf pc →
      (session_recv_more s (calls 0)).got = some got → got.goesOn = true →
      Decided (session_recv_more s (calls 0)).s pc (fun k => calls (k + 1)) → Decided s pc calls

theorem Session.Ok.length_lt {s : Session F} (h : s.Ok) : s.buf.length < 2 ^ 64 := by
  have hroom := h.room
  have hcap := h.cap
  omega

theorem session_recv_more_buf {s : Session F} (hs : s.Ok) (c : RecvCalls) :
    (session_recv_more s c).s.buf = s.buf ++ gotBytes (session_recv_more s c).got := by
  obtain ⟨cap', heq, -⟩ := session_recv_more_spec hs c
  rw [heq]

theorem session_recv_more_ok {s : Session F} (hs : s.Ok) (c : RecvCalls) :
    (session_recv_more s c).s.Ok := by
  obtain ⟨cap', -, hok⟩ := session_recv_more_spec hs c
  exact hok

/-- A turn of `session_recv_more` by what `recv` has returned. -/
theorem session_recv_more_more (s : Session F) (c : RecvCalls) :
    (session_recv_more s c).more
      = match (session_recv_more s c).got with
        | none => .ret (-1)
        | some (.data bytes) => if bytes = [] then .ret 0 else .ret 1
        | some .eintr => .again
        | some .eagain => .ret 1
        | some .error => .ret (-1) := by
  unfold session_recv_more
  split
  · rfl
  · cases hrecv : c.recv with
    | data bytes =>
        dsimp only [Recv.cut]
        split
        next hempty =>
          dsimp only
          rw [if_pos hempty]
        next hne =>
          dsimp only
          rw [if_neg hne]
    | eintr => rfl
    | eagain => rfl
    | error => rfl

/-- What decides does so from any place that is the same. -/
theorem Decided.congr {s : Session F} {pc : Pc} {calls : Nat → RecvCalls}
    (h : Decided s pc calls) : ∀ {pc' : Pc}, s.Ok → Same s.buf pc pc' → Decided s pc' calls := by
  induction h with
  | settled hwants hno =>
      intro pc' hs hsame
      have hnow := hsame.now hs.length_lt
      exact .settled (fun hw => hwants (hnow.1.mpr hw)) (hnow.2.mp hno)
  | ends hwants hno hends =>
      intro pc' hs hsame
      have hnow := hsame.now hs.length_lt
      exact .ends (hnow.1.mp hwants) (hnow.2.mp hno) hends
  | @more s pc calls got hwants hno hgot hgoes _ ih =>
      intro pc' hs hsame
      have hnow := hsame.now hs.length_lt
      refine .more (hnow.1.mp hwants) (hnow.2.mp hno) hgot hgoes
        (ih (session_recv_more_ok hs _) ?_)
      rw [session_recv_more_buf hs]
      exact hsame.append _

/-- What a call must not do, as far as it has come. -/
structure Run.Fine (r : Run F) : Prop where
  one_unsuccessful : ∀ x ∈ r.recvs.dropLast, x.goesOn = true
  resumes : r.recvs.getLast? = some .eagain → r.rc ≠ some (-1)
  no_wrap : ∀ pc ∈ r.places, pc.Exact

/-- A call that ends, and does nothing that it must not do. -/
structure Free (s : Session F) (pc : Pc) (calls : Nat → RecvCalls) : Prop where
  returns : ∃ n, (finish_run n s pc calls).rc ≠ none
  fine : ∀ n, (finish_run n s pc calls).Fine

section Calls

variable {s : Session F} {pc pc' : Pc} {calls : Nat → RecvCalls}

theorem finish_run_goto (h : chunkStep s.buf pc = .goto pc') (n : Nat) :
    finish_run (n + 1) s pc calls
      = { finish_run n s pc' calls with places := pc :: (finish_run n s pc' calls).places } := by
  have hstep : finish_step s pc (calls 0) = .run s pc' none := by
    unfold finish_step
    rw [h]
  show (match finish_step s pc (calls 0) with
    | .done s rc got => (⟨s, got.toList, [pc], some rc⟩ : Run F)
    | .run s pc' got => _) = _
  rw [hstep]
  rfl

theorem finish_run_done {s' : Session F} {rc : Int} {got : Option Recv}
    (h : finish_step s pc (calls 0) = .done s' rc got) (n : Nat) :
    finish_run (n + 1) s pc calls = ⟨s', got.toList, [pc], some rc⟩ := by
  show (match finish_step s pc (calls 0) with
    | .done s rc got => (⟨s, got.toList, [pc], some rc⟩ : Run F)
    | .run s pc' got => _) = _
  rw [h]

theorem finish_run_recv {s' : Session F} {got : Recv}
    (h : finish_step s pc (calls 0) = .run s' pc' (some got)) (n : Nat) :
    finish_run (n + 1) s pc calls
      = ⟨(finish_run n s' pc' fun k => calls (k + 1)).s,
          got :: (finish_run n s' pc' fun k => calls (k + 1)).recvs,
          pc :: (finish_run n s' pc' fun k => calls (k + 1)).places,
          (finish_run n s' pc' fun k => calls (k + 1)).rc⟩ := by
  show (match finish_step s pc (calls 0) with
    | .done s rc got => (⟨s, got.toList, [pc], some rc⟩ : Run F)
    | .run s pc' got => _) = _
  rw [h]
  rfl

theorem Run.Fine.start (hexact : pc.Exact) : (finish_run 0 s pc calls).Fine where
  one_unsuccessful := by
    intro x hx
    cases hx
  resumes := by
    intro h
    cases h
  no_wrap := by
    intro x hx
    rw [List.mem_singleton.mp hx]
    exact hexact

/-- A step without a call keeps a call free. -/
theorem Free.goto (hexact : pc.Exact) (h : chunkStep s.buf pc = .goto pc')
    (hfree : Free s pc' calls) : Free s pc calls where
  returns := by
    obtain ⟨n, hn⟩ := hfree.returns
    refine ⟨n + 1, ?_⟩
    rw [finish_run_goto h]
    exact hn
  fine := by
    intro n
    cases n with
    | zero => exact .start hexact
    | succ n =>
        have hn := hfree.fine n
        rw [finish_run_goto h]
        refine ⟨hn.one_unsuccessful, hn.resumes, fun x hx => ?_⟩
        rcases List.mem_cons.mp hx with rfl | hx
        · exact hexact
        · exact hn.no_wrap x hx

theorem Free.steps (hsteps : Steps s.buf pc pc') (hno : NoLargest s.buf pc)
    (hfree : Free s pc' calls) : Free s pc calls := by
  induction hsteps with
  | refl => exact hfree
  | step hgoto _ ih =>
      obtain ⟨hexact, hrest⟩ := (noLargest_goto hgoto).mp hno
      exact .goto hexact hgoto (ih hrest hfree)

/-- A step that ends the call. -/
theorem Free.done {s' : Session F} {rc : Int} {got : Option Recv} (hexact : pc.Exact)
    (h : finish_step s pc (calls 0) = .done s' rc got) (hgot : got ≠ some .eagain) :
    Free s pc calls where
  returns := by
    refine ⟨1, ?_⟩
    rw [finish_run_done h]
    exact Option.some_ne_none rc
  fine := by
    intro n
    cases n with
    | zero => exact .start hexact
    | succ n =>
        rw [finish_run_done h]
        refine ⟨fun x hx => ?_, fun hlast => ?_, fun x hx => ?_⟩
        · cases got with
          | none => cases hx
          | some got => cases hx
        · cases got with
          | none => cases hlast
          | some got => exact absurd hlast hgot
        · rw [List.mem_singleton.mp hx]
          exact hexact

/-- A `recv` that brings bytes, or is interrupted. -/
theorem Free.recv {s' : Session F} {got : Recv} (hexact : pc.Exact)
    (h : finish_step s pc (calls 0) = .run s' pc (some got)) (hgoes : got.goesOn = true)
    (hfree : Free s' pc fun k => calls (k + 1)) : Free s pc calls where
  returns := by
    obtain ⟨n, hn⟩ := hfree.returns
    refine ⟨n + 1, ?_⟩
    rw [finish_run_recv h]
    exact hn
  fine := by
    intro n
    cases n with
    | zero => exact .start hexact
    | succ n =>
        have hn := hfree.fine n
        rw [finish_run_recv h]
        refine ⟨fun x hx => ?_, fun hlast => ?_, fun x hx => ?_⟩
        · cases hrecvs : (finish_run n s' pc fun k => calls (k + 1)).recvs with
          | nil =>
              rw [hrecvs] at hx
              cases hx
          | cons y ys =>
              have hrest := hn.one_unsuccessful
              rw [hrecvs] at hx hrest
              rcases List.mem_cons.mp hx with rfl | hx
              · exact hgoes
              · exact hrest x hx
        · cases hrecvs : (finish_run n s' pc fun k => calls (k + 1)).recvs with
          | nil =>
              rw [hrecvs, List.getLast?_singleton] at hlast
              injection hlast with hlast
              rw [hlast] at hgoes
              cases hgoes
          | cons y ys =>
              have hrest := hn.resumes
              rw [hrecvs] at hlast hrest
              exact hrest (by rw [← hlast, List.getLast?_cons_cons])
        · rcases List.mem_cons.mp hx with rfl | hx
          · exact hexact
          · exact hn.no_wrap x hx

/-- A turn of `session_recv_more` inside the call. -/
theorem finish_step_recv (h : chunkStep s.buf pc = .recv) (c : RecvCalls) :
    finish_step s pc c
      = if gotEnds (session_recv_more s c).got then
          .done (session_recv_more s c).s (-1) (session_recv_more s c).got
        else .run (session_recv_more s c).s pc (session_recv_more s c).got := by
  unfold finish_step
  rw [h]
  dsimp only
  rw [session_recv_more_more]
  cases hgot : (session_recv_more s c).got with
  | none => rfl
  | some got =>
      cases got with
      | data bytes =>
          by_cases hempty : bytes = []
          · simp [hempty, gotEnds]
          · simp [hempty, gotEnds]
      | eintr => rfl
      | eagain => rfl
      | error => rfl

theorem gotEnds_of_goesOn {got : Recv} (h : got.goesOn = true) : gotEnds (some got) = false := by
  cases got with
  | data bytes => simpa [Recv.goesOn, gotEnds] using h
  | eintr => rfl
  | eagain => rfl
  | error => cases h

/-- Steps lead to a place that is the same. -/
theorem Same.steps (hs : s.Ok) (hpc : PcOk s.buf pc) (hno : NoLargest s.buf pc)
    (hsteps : Steps s.buf pc pc') : Same s.buf pc pc' ∧ PcOk s.buf pc' ∧ pc'.Exact := by
  induction hsteps with
  | refl pc => exact ⟨.refl _ _, hpc, hno pc (.refl pc)⟩
  | step hgoto _ ih =>
      obtain ⟨hexact, hrest⟩ := (noLargest_goto hgoto).mp hno
      obtain ⟨hsame, hend⟩ := ih (chunkStep_goto hs.length_lt hpc hgoto).1 hrest
      exact ⟨(Same.goto hpc hexact hgoto).trans hsame, hend⟩

/-- **What is decided keeps the call free.** -/
theorem Decided.free (h : Decided s pc calls) :
    ∀ {pc' : Pc}, s.Ok → PcOk s.buf pc' → Same s.buf pc pc' → Free s pc' calls := by
  induction h with
  | @settled s pc calls hwants hno =>
      intro pc' hs hpc hsame
      have hnow := hsame.now hs.length_lt
      obtain ⟨stop, hsteps, -, hstop⟩ := steps_stop hs.length_lt _ pc' hpc (Nat.lt_succ_self _)
      refine .steps hsteps (hnow.2.mp hno) ?_
      rcases hstop with hrecv | ⟨rc, n, hret⟩
      · exact absurd (hnow.1.mpr ⟨stop, hsteps, hrecv⟩) hwants
      · have hdone : finish_step s stop (calls 0)
            = .done (if rc = 0 then { s with body_bytes_read := n } else s) rc none := by
          unfold finish_step
          rw [hret]
        exact .done (hnow.2.mp hno stop hsteps) hdone (by simp)
  | @ends s pc calls hwants hno hends =>
      intro pc' hs hpc hsame
      have hnow := hsame.now hs.length_lt
      obtain ⟨stop, hsteps, hrecv⟩ := hnow.1.mp hwants
      have hdone := finish_step_recv hrecv (calls 0)
      rw [if_pos hends] at hdone
      refine .steps hsteps (hnow.2.mp hno) (.done (hnow.2.mp hno stop hsteps) hdone ?_)
      intro hgot
      rw [hgot] at hends
      cases hends
  | @more s pc calls got hwants hno hgot hgoes _ ih =>
      intro pc' hs hpc hsame
      have hnow := hsame.now hs.length_lt
      obtain ⟨stop, hsteps, hrecv⟩ := hnow.1.mp hwants
      obtain ⟨hstop, hok, hexact⟩ := Same.steps hs hpc (hnow.2.mp hno) hsteps
      have hrun := finish_step_recv hrecv (calls 0)
      rw [hgot, gotEnds_of_goesOn hgoes] at hrun
      refine .steps hsteps (hnow.2.mp hno) (.recv hexact hrun hgoes
        (ih (session_recv_more_ok hs _) ?_ ?_))
      · rw [session_recv_more_buf hs]
        exact hok.append _
      · rw [session_recv_more_buf hs]
        exact (hsame.trans hstop).append _

/-- After `EAGAIN` there is room, and nothing new in the buffer. -/
theorem session_recv_more_eagain (hs : s.Ok) {c : RecvCalls}
    (hgot : (session_recv_more s c).got = some .eagain) (c' : RecvCalls) :
    (session_recv_more s c).s.buf = s.buf
      ∧ (session_recv_more (session_recv_more s c).s c').got ≠ none := by
  have hroom := hs.room
  have hbuf : (session_recv_more s c).s.buf = s.buf := by
    rw [session_recv_more_buf hs, hgot]
    exact List.append_nil _
  refine ⟨hbuf, ?_⟩
  have hcap : (s.buf.length + 4096 + 1) % 2 ^ 64 ≤ (session_recv_more s c).s.cap := by
    unfold session_recv_more at *
    cases hcap : ensure_capacity s.cap ((s.buf.length + 4096 + 1) % 2 ^ 64) c.realloc_ok with
    | none =>
        rw [hcap] at hgot
        cases hgot
    | some cap =>
        have hneeded := (ensure_capacity_spec (by omega) hs.cap hcap).2.1
        rw [hcap] at hgot
        cases hrecv : c.recv with
        | eagain => exact hneeded
        | eintr => exact hneeded
        | error => exact hneeded
        | data bytes =>
            dsimp only [Recv.cut]
            split
            · exact hneeded
            · exact hneeded
  have hsome : ensure_capacity (session_recv_more s c).s.cap
      (((session_recv_more s c).s.buf.length + 4096 + 1) % 2 ^ 64) c'.realloc_ok
        = some (session_recv_more s c).s.cap := by
    unfold ensure_capacity
    rw [hbuf, if_pos hcap]
  generalize session_recv_more s c = r at hsome
  unfold session_recv_more
  rw [hsome]
  cases hrecv : c'.recv with
  | eagain => simp [Recv.cut]
  | eintr => simp [Recv.cut]
  | error => simp [Recv.cut]
  | data bytes =>
      dsimp only [Recv.cut]
      split
      · simp
      · simp

/-- **After `EAGAIN` the function asks again.** -/
theorem recvs_after_eagain (hs : s.Ok) (h : chunkStep s.buf pc = .recv)
    (hgot : (session_recv_more s (calls 0)).got = some .eagain) :
    ∃ x, (finish_run 2 s pc calls).recvs = [.eagain, x] := by
  have hsecond : ∀ rest : Nat → RecvCalls,
      ∃ x, (finish_run 1 (session_recv_more s (calls 0)).s pc rest).recvs = [x] := by
    intro rest
    obtain ⟨hbuf, hnext⟩ := session_recv_more_eagain hs hgot (rest 0)
    have hagain : chunkStep (session_recv_more s (calls 0)).s.buf pc = .recv := by
      rw [hbuf]
      exact h
    have hturn := finish_step_recv hagain (rest 0)
    obtain ⟨x, hx⟩ := Option.ne_none_iff_exists'.mp hnext
    rw [hx] at hturn
    refine ⟨x, ?_⟩
    split at hturn
    · rw [finish_run_done hturn]
      rfl
    · rw [finish_run_recv hturn]
      rfl
  obtain ⟨x, hx⟩ := hsecond fun k => calls (k + 1)
  have hturn := finish_step_recv h (calls 0)
  rw [hgot] at hturn
  refine ⟨x, ?_⟩
  rw [finish_run_recv hturn]
  exact congrArg (Recv.eagain :: ·) hx

/-- **A call that is free has decided the body.** -/
theorem Decided.of_fine (n : Nat) : ∀ (s : Session F) (pc : Pc) (calls : Nat → RecvCalls),
    s.Ok → PcOk s.buf pc → (finish_run n s pc calls).rc ≠ none →
    (∀ n, (finish_run n s pc calls).Fine) → Decided s pc calls := by
  induction n with
  | zero =>
      intro s pc calls _ _ hrc _
      exact absurd rfl hrc
  | succ n ih =>
      intro s pc calls hs hpc hrc hfine
      have hexact : pc.Exact := (hfine 0).no_wrap pc (List.mem_singleton_self pc)
      cases hstep : chunkStep s.buf pc with
      | goto pc' =>
          have hsame := Same.goto hpc hexact hstep
          rw [finish_run_goto hstep] at hrc
          refine (ih s pc' calls hs (chunkStep_goto hs.length_lt hpc hstep).1 hrc
            fun k => ?_).congr hs hsame.symm
          have hk := hfine (k + 1)
          rw [finish_run_goto hstep] at hk
          exact ⟨hk.one_unsuccessful, hk.resumes, fun x hx =>
            hk.no_wrap x (List.mem_cons_of_mem _ hx)⟩
      | ret rc k =>
          exact .settled (not_wants_ret hstep)
            ((noLargest_stop (ret_stops hstep)).mpr hexact)
      | recv =>
          have hno : NoLargest s.buf pc :=
            (noLargest_stop (recv_stops hstep)).mpr hexact
          have hturn := finish_step_recv hstep (calls 0)
          by_cases hends : gotEnds (session_recv_more s (calls 0)).got = true
          · exact .ends (wants_recv hstep) hno hends
          · rw [if_neg hends] at hturn
            cases hgot : (session_recv_more s (calls 0)).got with
            | none =>
                rw [hgot] at hends
                exact absurd rfl hends
            | some got =>
                rw [hgot] at hturn hends
                have hgoes : got.goesOn = true := by
                  cases got with
                  | data bytes => simpa [Recv.goesOn, gotEnds] using hends
                  | eintr => rfl
                  | error => exact absurd rfl hends
                  | eagain =>
                      -- it would be followed by another recv
                      obtain ⟨x, hx⟩ := recvs_after_eagain hs hstep hgot
                      have hlast := (hfine 2).one_unsuccessful
                      rw [hx] at hlast
                      exact hlast .eagain List.mem_cons_self
                refine .more (wants_recv hstep) hno hgot hgoes (ih _ _ _
                  (session_recv_more_ok hs _) ?_ ?_ fun k => ?_)
                · rw [session_recv_more_buf hs]
                  exact hpc.append _
                · rw [finish_run_recv hturn] at hrc
                  exact hrc
                · have hk := hfine (k + 1)
                  rw [finish_run_recv hturn] at hk
                  refine ⟨fun x hx => hk.one_unsuccessful x ?_, fun hlast => hk.resumes ?_,
                    fun x hx => hk.no_wrap x (List.mem_cons_of_mem _ hx)⟩
                  · dsimp only
                    rw [List.dropLast_cons_of_ne_nil (by
                      rintro hnil
                      rw [hnil] at hx
                      cases hx)]
                    exact List.mem_cons_of_mem _ hx
                  · dsimp only
                    rw [List.getLast?_cons, hlast]
                    rfl

/-- Everything that has been received is in the buffer. -/
theorem finish_run_buf (n : Nat) : ∀ (s : Session F) (pc : Pc) (calls : Nat → RecvCalls), s.Ok →
    (finish_run n s pc calls).s.buf
      = s.buf ++ receivedBytes (finish_run n s pc calls).recvs := by
  induction n with
  | zero =>
      intro s pc calls _
      exact (List.append_nil _).symm
  | succ n ih =>
      intro s pc calls hs
      cases hstep : chunkStep s.buf pc with
      | goto pc' =>
          rw [finish_run_goto hstep]
          exact ih s pc' calls hs
      | ret rc k =>
          have hdone : finish_step s pc (calls 0)
              = .done (if rc = 0 then { s with body_bytes_read := k } else s) rc none := by
            unfold finish_step
            rw [hstep]
          rw [finish_run_done hdone]
          show _ = s.buf ++ receivedBytes []
          rw [show receivedBytes [] = [] from rfl, List.append_nil]
          split
          · rfl
          · rfl
      | recv =>
          have hturn := finish_step_recv hstep (calls 0)
          have hbuf := session_recv_more_buf hs (calls 0)
          split at hturn
          · rw [finish_run_done hturn]
            dsimp only
            rw [receivedBytes_got]
            exact hbuf
          · cases hgot : (session_recv_more s (calls 0)).got with
            | none =>
                rename_i hends
                rw [hgot] at hends
                exact absurd rfl hends
            | some got =>
                rw [hgot] at hturn hbuf
                rw [finish_run_recv hturn]
                dsimp only
                rw [ih _ _ _ (session_recv_more_ok hs _), hbuf, receivedBytes_cons,
                  List.append_assoc]

end Calls

/-- **The call is not held by the request** exactly when what comes before the first `EAGAIN`
decides the body, and no size line gives the largest size. -/
theorem never_held_iff (s : Session F) (hs : s.Ok) (calls : Nat → RecvCalls) :
    NeverHeld s calls ↔ Decided s (Pc.start s.hdr_bytes) calls := by
  have hstart : PcOk s.buf (Pc.start s.hdr_bytes) := hs.hdr
  constructor
  · intro h
    obtain ⟨n, hn⟩ := h.returns
    exact .of_fine n s _ calls hs hstart hn fun k =>
      ⟨h.one_unsuccessful k, h.resumes k, h.no_wrap k⟩
  · intro h
    have hfree := h.free hs hstart (.refl _ _)
    exact ⟨hfree.returns, fun n => (hfree.fine n).one_unsuccessful,
      fun n => (hfree.fine n).resumes, fun n => finish_run_buf n s _ calls hs,
      fun n => (hfree.fine n).no_wrap⟩

/-- A session whose header block has been read; `body` is what has come behind it. -/
def reading (body : Bytes) : Session Unit where
  state := .read_body
  req_no := 0
  buf := ascii "POST / HTTP/1.1\r\nTransfer-Encoding: chunked\r\n\r\n" ++ body
  cap := INITIAL_BUF_CAP
  hdr_bytes := 47
  body_target := 0
  body_bytes_read := 0
  is_chunked := true
  should_close := false
  content_length := 0
  operand_a := ()
  operand_b := ()
  resp := []
  resp_off := 0
  events := .epollin

/-- The rest of a body that is there at once, and nothing behind it. -/
def rest (bytes : Bytes) : Nat → RecvCalls
  | 0 => ⟨true, .data bytes⟩
  | _ + 1 => ⟨true, .eagain⟩

/-- A chunk that is cut in two. -/
theorem never_held_hello :
    NeverHeld (reading (ascii "5\r\nhel")) (rest (ascii "lo\r\n0\r\n\r\n")) := by
  have hfirst : chunkStep (reading (ascii "5\r\nhel")).buf (Pc.start 47) = .goto (.data 50 5 0) := by
    decide +kernel
  have hwait : chunkStep (reading (ascii "5\r\nhel")).buf (.data 50 5 0) = .recv := by
    decide +kernel
  have hgot : (session_recv_more (reading (ascii "5\r\nhel"))
      (rest (ascii "lo\r\n0\r\n\r\n") 0)).got = some (.data (ascii "lo\r\n0\r\n\r\n")) := by
    decide +kernel
  refine (never_held_iff (reading (ascii "5\r\nhel")) ⟨by decide +kernel, by decide +kernel,
    by decide +kernel⟩ _).mpr (.more ?_ ?_ hgot (by decide +kernel) (.settled ?_ ?_))
  · exact (wants_goto hfirst).mpr (wants_recv hwait)
  · refine (noLargest_goto hfirst).mpr ⟨trivial, (noLargest_stop (recv_stops hwait)).mpr ?_⟩
    show 5 + 1 < 2 ^ 64
    decide
  all_goals
    have hbuf : (session_recv_more (reading (ascii "5\r\nhel"))
        (rest (ascii "lo\r\n0\r\n\r\n") 0)).s.buf
          = (reading (ascii "5\r\nhello\r\n0\r\n\r\n")).buf := by decide +kernel
    rw [hbuf]
    have h₁ : chunkStep (reading (ascii "5\r\nhello\r\n0\r\n\r\n")).buf (Pc.start 47)
        = .goto (.data 50 5 0) := by decide +kernel
    have h₂ : chunkStep (reading (ascii "5\r\nhello\r\n0\r\n\r\n")).buf (.data 50 5 0)
        = .goto (.line 57 5) := by decide +kernel
    have h₃ : chunkStep (reading (ascii "5\r\nhello\r\n0\r\n\r\n")).buf (.line 57 5)
        = .goto (.trailer 60 5) := by decide +kernel
    have h₄ : chunkStep (reading (ascii "5\r\nhello\r\n0\r\n\r\n")).buf (.trailer 60 5)
        = .ret 0 5 := by decide +kernel
  · show ¬ Wants _ (Pc.start 47)
    rw [wants_goto h₁, wants_goto h₂, wants_goto h₃]
    exact not_wants_ret h₄
  · show NoLargest _ (Pc.start 47)
    rw [noLargest_goto h₁, noLargest_goto h₂, noLargest_goto h₃,
      noLargest_stop (ret_stops h₄)]
    exact ⟨trivial, show 5 + 1 < 2 ^ 64 by decide, trivial, trivial⟩

/-- **A chunk that is cut in two holds the worker while the rest has not come**, and the largest
size is read as a chunk without data. -/
theorem held_by_half_a_chunk :
    (reading (ascii "5\r\nhel")).Ok
      ∧ ¬ NeverHeld (reading (ascii "5\r\nhel")) (fun _ => ⟨true, .eagain⟩)
      ∧ (session_finish_chunked 3 (reading (ascii "5\r\nhel")) fun _ => ⟨true, .eagain⟩).recvs
        = [.eagain, .eagain]
      ∧ chunkStep (reading (ascii "ffffffffffffffff\r\n")).buf (.data 65 (2 ^ 64 - 1) 0)
        = .goto (.line 65 (2 ^ 64 - 1)) := by
  have hrecvs : (session_finish_chunked 3 (reading (ascii "5\r\nhel"))
      fun _ => ⟨true, .eagain⟩).recvs = [.eagain, .eagain] := by decide +kernel
  refine ⟨⟨by decide +kernel, by decide +kernel, by decide +kernel⟩, fun h => ?_, hrecvs,
    by decide +kernel⟩
  have hheld := h.one_unsuccessful 3 .eagain
  rw [hrecvs] at hheld
  exact absurd (hheld List.mem_cons_self) (by decide)

end TlsMigration.Vanilla
