/-
  TlsMigration.Faasd.Serving
  ──────────────────────────
  **HOW A SESSION OF THE FAASD WORKER READS AND ANSWERS ONE REQUEST.**

  A session stands in the header block of a request, in its body, or behind
  it with the response to write.  One iteration, with whatever the calls
  return, ends the session, leaves it where it is, or moves it on by what has
  been read or written.

    • `content_length_read`, `noted_fields` — what is read in the headers;
    • `InHead`, `InBody`, `Writing`  — the places;
    • `InHead.iter`, `InBody.iter`, `Writing.iter` — one iteration at each.
-/
import TlsMigration.Faasd.Session
import TlsMigration.Http.Request

namespace TlsMigration.Faasd

open TlsMigration.Http TlsMigration.Handoff TlsMigration.Tlspeek
open TlsMigration.Bench2 (Payload TlsRead TlsWrite)

/-! ## §1. The header parser. -/

/-- The two ways to end a number, where nothing is cut. -/
theorem exact_of_clamped {neg : Bool} {digits : Bytes} {v : Int}
    (h : (if digits = [] then none
      else some (if neg then max LLONG_MIN (-(digitsVal 0 digits : Int))
        else min LLONG_MAX (digitsVal 0 digits : Int))) = some v)
    (hmin : LLONG_MIN < v) (hmax : v < LLONG_MAX) :
    (if digits = [] then none
      else
        let v : Int := if neg then -(digitsVal 0 digits : Int) else digitsVal 0 digits
        if LLONG_MIN ≤ v ∧ v ≤ LLONG_MAX then some v else none) = some v := by
  unfold LLONG_MIN LLONG_MAX at *
  split at h
  next => cases h
  next hdigits =>
    have hv := Option.some.inj h
    rw [if_neg hdigits]
    dsimp only
    cases neg with
    | true =>
        simp only [if_true] at hv ⊢
        rw [if_pos (by omega)]
        exact congrArg some (by omega)
    | false =>
        simp only [Bool.false_eq_true, if_false] at hv ⊢
        rw [if_pos (by omega)]
        exact congrArg some (by omega)

/-- A number that `strtoll` has not cut leaves `errno` alone. -/
theorem strtollExact_of_strtoll {s : Bytes} {v : Int} (h : strtoll s = some v)
    (hmin : LLONG_MIN < v) (hmax : v < LLONG_MAX) : strtollExact s = some v := by
  unfold strtoll at h
  unfold strtollExact
  cases ht : s.dropWhile isSpace with
  | nil =>
      rw [ht] at h
      exact @exact_of_clamped false _ _ h hmin hmax
  | cons c t =>
      rw [ht] at h
      by_cases hminus : c = Ch.minus
      · simp only [hminus, if_true] at h ⊢
        exact @exact_of_clamped true _ _ h hmin hmax
      · by_cases hplus : c = Ch.plus
        · have hne : ¬ Ch.plus = Ch.minus := by decide
          simp only [hplus, hne, if_true, if_false] at h ⊢
          exact @exact_of_clamped false _ _ h hmin hmax
        · simp only [hminus, hplus, if_false] at h ⊢
          exact @exact_of_clamped false _ _ h hmin hmax

variable {needle l : Bytes}

/-- A line with something in it is read from its start. -/
theorem headerValue_line (hl : IsLine l) (hne : l ≠ []) (h mem : Bytes) :
    headerValue needle (l ++ [Ch.cr]) h mem
      = if startsLower needle (l ++ [Ch.cr]) then
          strtollExact
            (mem.drop (needle.length + ((h.drop needle.length).takeWhile isBlank).length))
        else none := by
  obtain ⟨c, l, rfl⟩ := List.exists_cons_of_ne_nil hne
  have hfirst : ¬ (c = Ch.cr ∨ c = Ch.lf) := by
    rintro (rfl | rfl)
    · exact hl.1 List.mem_cons_self
    · exact hl.2 List.mem_cons_self
  have hskip : ((c :: l ++ [Ch.cr]).takeWhile fun c => c = Ch.cr ∨ c = Ch.lf) = [] :=
    List.takeWhile_cons_of_neg (by simpa using hfirst)
  unfold headerValue
  rw [hskip]
  simp only [List.length_nil, List.drop_zero, Nat.zero_add]

/-- Where the other parsers read a number that is not too large, this one reads it too. -/
theorem headerValue_hit (hl : IsLine l) (hne : l ≠ []) {h mem : Bytes} {v : Int}
    (hv : Http.headerValue needle (l ++ [Ch.cr]) h mem = some v)
    (hmin : LLONG_MIN < v) (hmax : v < LLONG_MAX) :
    headerValue needle (l ++ [Ch.cr]) h mem = some v := by
  rw [headerValue_line hl hne]
  unfold Http.headerValue at hv
  split at hv
  next hstart =>
    rw [if_pos hstart]
    exact strtollExact_of_strtoll hv hmin hmax
  next => cases hv

/-- A line that does not start with the needle has no number. -/
theorem headerValue_miss (hl : IsLine l) (hn : Ch.cr ∉ needle)
    (hmiss : startsLower needle l = false) (h mem : Bytes) :
    headerValue needle (l ++ [Ch.cr]) h mem = none := by
  by_cases hne : l = []
  · subst hne
    have hskip : (([] ++ [Ch.cr] : Bytes).takeWhile fun c => c = Ch.cr ∨ c = Ch.lf).length = 1 :=
      rfl
    have hno : startsLower needle [] = false := hmiss
    unfold headerValue
    rw [hskip]
    show (if startsLower needle [] = true then _ else none) = none
    rw [hno]
    rfl
  · rw [headerValue_line hl hne, startsLower_append_cr hn, hmiss]
    rfl

variable {q : Request}

/-- **The declared length is read**, with anything behind the header block. -/
theorem content_length_read (hmax : (q.body.length : Int) < LLONG_MAX) (rest : Bytes) :
    (parse_content_length (q.head ++ rest) q.head.length).toNat = q.body.length := by
  unfold parse_content_length parse_header_int64
  rw [List.take_left]
  rcases q.declares with ⟨pre, l, post, hls, hnum, hmiss⟩ | ⟨hzero, hmiss⟩
  · have hhead : q.head = block (pre ++ l :: (post ++ [[]])) := by
      show block (q.lines ++ [[]]) = _
      rw [show q.lines = pre ++ l :: post from hls]
      simp
    have hline : ∀ x ∈ pre ++ l :: post, IsLine x ∧ x ≠ [] := by
      intro x hx
      refine q.isLine x ?_
      rw [hls]
      exact hx
    obtain ⟨hl, hne⟩ := hline l (by simp)
    -- the number fits, so it is not cut
    have hcut : min LLONG_MAX (q.body.length : Int) = q.body.length := by omega
    have hvalue := Http.headerValue_hit hnum (post ++ [[]]) rest
    rw [hcut] at hvalue
    have hhit := headerValue_hit hl hne hvalue (by unfold LLONG_MIN; omega) hmax
    have hfuel : pre.length < q.head.length := by
      have hlen := length_le_block (pre ++ l :: (post ++ [[]]))
      rw [← hhead] at hlen
      simp only [List.length_append, List.length_cons] at hlen
      omega
    rw [hhead] at hfuel ⊢
    rw [scanLines_hit rest hl.2 hhit pre (fun x hx => (hline x (by simp [hx])).1.2)
      (fun x hx h mem =>
        headerValue_miss (hline x (by simp [hx])).1 (by decide) (hmiss x hx) h mem) _ hfuel]
    rfl
  · have hnone : scanLines (headerValue contentLength) q.head.length q.head (q.head ++ rest)
        = none := by
      refine scanLines_none (fun l hl => (Request.isLine_head l hl).2) (fun l hl h mem => ?_) _ _
      refine headerValue_miss (Request.isLine_head l hl) (by decide) ?_ h mem
      rcases List.mem_append.mp hl with hl | hl
      · exact hmiss l hl
      · rw [List.mem_singleton] at hl
        subst hl
        decide
    rw [hnone, hzero]
    rfl

/-! ## §2. The answer to a request. -/

/-- The worker takes the request for the last one. -/
def closes (q : Request) : Bool := header_has_token q.head q.head.length connection (ascii "close")

theorem should_close_read (rest : Bytes) :
    header_has_token (q.head ++ rest) q.head.length connection (ascii "close") = closes q := by
  unfold closes header_has_token Vanilla.header_has_token
  rw [List.take_left, List.take_length]
  exact congrArg Option.isSome (scanLines_of_line _ _ _ _ _)

/-- What is noted when the headers have been read, and `m` bytes of the body with them. -/
def noted (q : Request) (m : Nat) (header_ns : UInt64) : Metrics :=
  headers_read (q.head ++ q.body.take m) q.head.length header_ns

theorem noted_fields (hmax : (q.body.length : Int) < LLONG_MAX) {m : Nat} (hm : m ≤ q.body.length)
    (header_ns : UInt64) :
    (noted q m header_ns).content_length = q.body.length
      ∧ (noted q m header_ns).body_bytes_read = m
      ∧ (noted q m header_ns).should_close = closes q := by
  have hlength := content_length_read hmax (q.body.take m)
  refine ⟨hlength, ?_, should_close_read _⟩
  show min ((q.head ++ q.body.take m).length - q.head.length)
    (parse_content_length (q.head ++ q.body.take m) q.head.length).toNat = m
  rw [hlength, List.length_append, List.length_take]
  omega

/-- What is noted when the whole body has been read. -/
def done (q : Request) (m : Nat) (header_ns body_done_ns : UInt64) : Metrics :=
  body_done ((noted q m header_ns).counted q.body.length) body_done_ns

/-- The response to the request, when `m` bytes of the body came with the headers. -/
def response (function_name : Bytes) (q : Request) (m : Nat) (header_ns body_done_ns : UInt64) :
    Option Bytes :=
  sentBytes function_name (done q m header_ns body_done_ns)

theorem body_done_close (m : Metrics) (ns : UInt64) :
    (body_done m ns).should_close = m.should_close := by
  unfold body_done
  dsimp only
  split <;> rfl

theorem done_close (hmax : (q.body.length : Int) < LLONG_MAX) {m : Nat} (hm : m ≤ q.body.length)
    (header_ns body_done_ns : UInt64) :
    (done q m header_ns body_done_ns).should_close = closes q := by
  unfold done
  rw [body_done_close, Metrics.counted_should_close]
  exact (noted_fields hmax hm header_ns).2.2

/-- **An answer is a response**, and says whether the connection ends. -/
theorem response_framed (hmax : (q.body.length : Int) < LLONG_MAX) {function_name text : Bytes}
    {m : Nat} (hm : m ≤ q.body.length) {header_ns body_done_ns : UInt64}
    (h : response function_name q m header_ns body_done_ns = some text) :
    Framed text (closes q) := by
  have hframed := sentBytes_framed h
  rwa [done_close hmax hm] at hframed

/-! ## §3. The places. -/

variable {β : Type*} {s : Session β}

/-- What an iteration leaves alone while a request is served. -/
structure Kept (s s' : Session β) : Prop where
  client_fd : s'.client_fd = s.client_fd
  state : s'.state = s.state

/-- `c` bytes of the request have been read, and the header block is not complete. -/
structure InHead (q : Request) (s : Session β) (c : Nat) : Prop where
  place : ∃ cap, s.place = .headers (q.head.take c) cap
  lt : c < q.head.length

/-- `c` bytes of the request have been read; `m` of the body came with the headers. -/
structure InBody (q : Request) (s : Session β) (c m : Nat) (header_ns : UInt64) : Prop where
  place : s.place = .body ((noted q m header_ns).counted (c - q.head.length))
  head_le : q.head.length + m ≤ c
  le : c ≤ q.bytes.length

/-- The response is `text`, and `total` bytes of it have been written. -/
structure Writing (q : Request) (s : Session β) (text : Bytes) (total : Nat) : Prop where
  place : ∃ metrics, s.place = .write metrics text total ∧ metrics.should_close = closes q
  le : total ≤ text.length

/-! ## §4. One iteration. -/

/-- **In the header block**: it is left once it is complete. -/
theorem InHead.iter {c : Nat} (h : InHead q s c) (hmax : (q.body.length : Int) < LLONG_MAX)
    (f : Bytes) (calls : Calls β)
    (hread : ∀ bytes, calls.read = .data bytes → bytes <+: q.bytes.drop c) :
    (∃ rc, (session_iter f s calls).2 = .out rc)
      ∨ ((session_iter f s calls).2 = .again ∧ (∀ bytes, calls.read ≠ .data bytes)
        ∧ Kept s (session_iter f s calls).1 ∧ InHead q (session_iter f s calls).1 c)
      ∨ ∃ bytes, calls.read = .data bytes ∧ (session_iter f s calls).2 = .again
        ∧ Kept s (session_iter f s calls).1
        ∧ (InHead q (session_iter f s calls).1 (c + bytes.length)
          ∨ ∃ m ns, InBody q (session_iter f s calls).1 (c + bytes.length) m ns) := by
  obtain ⟨cap, hplace⟩ := h.place
  have hiter : session_iter f s calls = session_headers s (q.head.take c) cap calls := by
    unfold session_iter
    rw [hplace]
  rw [hiter]
  unfold session_headers
  split
  next => exact Or.inl ⟨_, rfl⟩
  next =>
  split
  next => exact Or.inl ⟨_, rfl⟩
  next cap' _ =>
  have hsame : InHead q { s with place := .headers (q.head.take c) cap' } c := ⟨⟨cap', rfl⟩, h.lt⟩
  cases hr : calls.read with
  | none err =>
      cases err with
      | error => exact Or.inl ⟨_, rfl⟩
      | want_read => exact Or.inr (Or.inl ⟨rfl, fun _ => by simp, ⟨rfl, rfl⟩, hsame⟩)
      | want_write => exact Or.inr (Or.inl ⟨rfl, fun _ => by simp, ⟨rfl, rfl⟩, hsame⟩)
  | data bytes =>
      refine Or.inr (Or.inr ⟨bytes, rfl, ?_⟩)
      have hpre := hread bytes hr
      have hlt := h.lt
      have hbuf : q.head.take c = q.bytes.take c := by
        rw [Request.bytes, List.take_append_of_le_length (Nat.le_of_lt hlt)]
      dsimp only
      rw [hbuf, take_append_prefix hpre]
      rcases Nat.lt_or_ge (c + bytes.length) q.head.length with hpart | hwhole
      · have htake : q.bytes.take (c + bytes.length) = q.head.take (c + bytes.length) :=
          List.take_append_of_le_length (Nat.le_of_lt hpart)
        rw [htake, Request.crlfcrlf_partial hpart, Request.lflf_partial]
        exact ⟨rfl, ⟨rfl, rfl⟩, Or.inl ⟨⟨cap', rfl⟩, hpart⟩⟩
      · obtain ⟨m, hm⟩ := Nat.exists_eq_add_of_le hwhole
        have htake : q.bytes.take (c + bytes.length) = q.head ++ q.body.take m := by
          rw [hm]
          exact List.take_length_add_append m
        have hbytes := Request.bytes_length (q := q)
        have hlen := hpre.length_le
        rw [List.length_drop] at hlen
        have hfour := Request.four_lt_head (q := q)
        have hend : q.head.length - 4 + 4 = q.head.length := by omega
        rw [htake, Request.crlfcrlf_head, hm]
        dsimp only
        rw [hend]
        refine ⟨rfl, ⟨rfl, rfl⟩, Or.inr ⟨m, calls.monotonic_ns, ?_, Nat.le_refl _, by omega⟩⟩
        -- the part of the body that came along is counted
        have hcount := (noted_fields (q := q) hmax (m := m) (by omega) calls.monotonic_ns).2.1
        rw [Nat.add_sub_cancel_left]
        exact congrArg Place.body (congrArg (noted q m calls.monotonic_ns).counted hcount)

/-- **In the body**: it is read to its end, and then the response is there. -/
theorem InBody.iter {c m : Nat} {ns : UInt64} (h : InBody q s c m ns)
    (hmax : (q.body.length : Int) < LLONG_MAX) (f : Bytes) (calls : Calls β)
    (hread : ∀ bytes, calls.read = .data bytes → bytes <+: q.bytes.drop c) :
    (∃ rc, (session_iter f s calls).2 = .out rc)
      ∨ (c < q.bytes.length ∧ (session_iter f s calls).2 = .again
        ∧ (∀ bytes, calls.read ≠ .data bytes) ∧ (session_iter f s calls).1 = s)
      ∨ (∃ bytes, c < q.bytes.length ∧ calls.read = .data bytes
        ∧ (session_iter f s calls).2 = .again ∧ Kept s (session_iter f s calls).1
        ∧ InBody q (session_iter f s calls).1 (c + bytes.length) m ns)
      ∨ (c = q.bytes.length ∧ (session_iter f s calls).2 = .again
        ∧ Kept s (session_iter f s calls).1
        ∧ ∃ text, response f q m ns calls.monotonic_ns = some text
          ∧ Writing q (session_iter f s calls).1 text 0) := by
  have hbytes := Request.bytes_length (q := q)
  have hhead := h.head_le
  have hle := h.le
  have hm : m ≤ q.body.length := by omega
  have hiter : session_iter f s calls
      = session_body f s ((noted q m ns).counted (c - q.head.length)) calls := by
    unfold session_iter
    rw [h.place]
  have hlength := (noted_fields hmax hm ns).1
  rw [hiter]
  unfold session_body
  rw [Metrics.counted_body_bytes_read, Metrics.counted_content_length, hlength]
  by_cases hmore : c - q.head.length < q.body.length
  · rw [if_pos hmore]
    have hlt : c < q.bytes.length := by omega
    cases hr : calls.read with
    | none err =>
        cases err with
        | error => exact Or.inl ⟨_, rfl⟩
        | want_read => exact Or.inr (Or.inl ⟨hlt, rfl, fun _ => by simp, rfl⟩)
        | want_write => exact Or.inr (Or.inl ⟨hlt, rfl, fun _ => by simp, rfl⟩)
    | data bytes =>
        have hlen := (hread bytes hr).length_le
        rw [List.length_drop] at hlen
        refine Or.inr (Or.inr (Or.inl ⟨bytes, hlt, rfl, rfl, ⟨rfl, rfl⟩, ?_, by omega, by omega⟩))
        have hcount : c - q.head.length + bytes.length = c + bytes.length - q.head.length := by
          omega
        show Place.body _ = _
        rw [Metrics.counted_counted, hcount]
  · rw [if_neg hmore]
    have hend : c - q.head.length = q.body.length := by omega
    have hdone : body_done ((noted q m ns).counted (c - q.head.length)) calls.monotonic_ns
        = done q m ns calls.monotonic_ns := by
      rw [hend]
      rfl
    rw [hdone]
    dsimp only
    cases htext : sentBytes f (done q m ns calls.monotonic_ns) with
    | none => exact Or.inl ⟨_, rfl⟩
    | some text =>
        exact Or.inr (Or.inr (Or.inr ⟨by omega, rfl, ⟨rfl, rfl⟩, text, htext,
          ⟨_, rfl, done_close hmax hm ns calls.monotonic_ns⟩, Nat.zero_le _⟩))

/-- **In the response**: what is written is the next of it. -/
theorem Writing.iter {text : Bytes} {total : Nat} (h : Writing q s text total) (f : Bytes)
    (calls : Calls β) (hwrite : ∀ n, calls.write = .wrote n → n ≤ text.length - total) :
    ((∃ rc, (session_iter f s calls).2 = .out rc) ∧ s.written calls = [])
      ∨ (total < text.length ∧ (session_iter f s calls).2 = .again ∧ s.written calls = []
        ∧ (session_iter f s calls).1 = s)
      ∨ (∃ n, total < text.length ∧ calls.write = .wrote n
        ∧ (session_iter f s calls).2 = .again ∧ s.written calls = (text.drop total).take n
        ∧ Kept s (session_iter f s calls).1
        ∧ Writing q (session_iter f s calls).1 text (total + n))
      ∨ (total = text.length ∧ closes q = false ∧ s.written calls = []
        ∧ ∃ serial, export_live_serial s.state.serial calls.live = some serial
          ∧ session_iter f s calls
            = ({ s with state := { s.state with serial := serial }, place := .peek }, .again)) := by
  obtain ⟨metrics, hplace, hclose⟩ := h.place
  have hle := h.le
  have hiter : session_iter f s calls = session_write s metrics text total calls := by
    unfold session_iter
    rw [hplace]
  have hwritten : ∀ n, calls.write = .wrote n → s.written calls = (text.drop total).take n := by
    intro n hn
    unfold Session.written
    rw [hplace, hn]
  have hnone : (∀ n, calls.write ≠ .wrote n) → s.written calls = [] := by
    intro hno
    unfold Session.written
    rw [hplace]
    split
    next n _ hn => exact absurd hn (hno n)
    next => rfl
  rw [hiter]
  unfold session_write
  by_cases hmore : total < text.length
  · rw [if_pos hmore]
    cases hw : calls.write with
    | none err =>
        have hempty := hnone fun n hn => by rw [hw] at hn; cases hn
        cases err with
        | error => exact Or.inl ⟨⟨_, rfl⟩, hempty⟩
        | want_read => exact Or.inr (Or.inl ⟨hmore, rfl, hempty, rfl⟩)
        | want_write => exact Or.inr (Or.inl ⟨hmore, rfl, hempty, rfl⟩)
    | wrote n =>
        have hn := hwrite n hw
        exact Or.inr (Or.inr (Or.inl ⟨n, hmore, rfl, rfl, hwritten n hw, ⟨rfl, rfl⟩,
          ⟨metrics, rfl, hclose⟩, by omega⟩))
  · rw [if_neg hmore]
    have hempty : s.written calls = [] := by
      cases hw : calls.write with
      | none err => exact hnone fun n hn => by rw [hw] at hn; cases hn
      | wrote n =>
          rw [hwritten n hw, List.drop_of_length_le (by omega), List.take_nil]
    cases hc : metrics.should_close with
    | true =>
        rw [if_pos rfl]
        exact Or.inl ⟨⟨_, rfl⟩, hempty⟩
    | false =>
        rw [if_neg (by simp)]
        split
        next => exact Or.inl ⟨⟨_, rfl⟩, hempty⟩
        next serial hserial =>
          exact Or.inr (Or.inr (Or.inr ⟨by omega, hclose.symm.trans hc, hempty, serial, hserial,
            rfl⟩))

end TlsMigration.Faasd
