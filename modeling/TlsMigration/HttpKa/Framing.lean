/-
  TlsMigration.HttpKa.Framing
  ───────────────────────────
  **WHAT A SESSION OF THE TIMING WORKER MAKES OF A WHOLE STREAM.**

  `Reading.next` reads a stream request by request, with everything in
  sight: it is what the session does when nothing is left to wait for.  A
  session that sees a part of the stream decides the same as soon as it
  decides, with one exception: the end of a header block (`headerEnd_take`).

    • `Plain`             — the header blocks whose end does not depend on how
                            much of the stream is in sight;
    • `parsed_content_length`, `cstr_body` — what is in the buffer behind the
                            bytes that count does not count;
    • `Reading.next`      — the machine.
-/
import TlsMigration.HttpKa.Session

namespace TlsMigration.HttpKa

open TlsMigration.Http

/-! ## §1. Where a header block ends. -/

/-- No `\n\n` ends before the first `\r\n\r\n` does. -/
def Plain (w : Bytes) : Prop :=
  match find_subseq w crlfcrlf, find_subseq w [Ch.lf, Ch.lf] with
  | some i, some j => i + 4 ≤ j + 2
  | _, _ => True

instance (w : Bytes) : Decidable (Plain w) := by
  unfold Plain
  split <;> infer_instance

/-- A hit that lies in a part is the part's first hit. -/
theorem firstOcc_take {needle b : Bytes} {i m : Nat} (hne : needle ≠ [])
    (h : firstOcc needle b = some i) (hm : i + needle.length ≤ m) :
    firstOcc needle (b.take m) = some i := by
  obtain ⟨hocc, hfirst⟩ := firstOcc_spec h
  apply firstOcc_eq_some hne
  · rw [List.drop_take, List.prefix_take_iff]
    exact ⟨hocc, by omega⟩
  · intro j hj hpre
    rw [List.drop_take, List.prefix_take_iff] at hpre
    exact hfirst j hj hpre.1

/-- A first hit of a part is the first hit. -/
theorem firstOcc_of_take {needle b : Bytes} {i m : Nat} (hne : needle ≠ [])
    (h : firstOcc needle (b.take m) = some i) : firstOcc needle b = some i := by
  have hall := firstOcc_append_of_some hne h (b.drop m)
  rw [List.take_append_drop] at hall
  exact hall

/-- **A part of a plain window shows the end of the header block, or none.** -/
theorem headerEnd_take {w : Bytes} (h : Plain w) (m : Nat) :
    headerEnd (w.take m) = none ∨ headerEnd (w.take m) = headerEnd w := by
  have hlf : ([Ch.lf, Ch.lf] : Bytes) ≠ [] := by decide
  have hcr : crlfcrlf ≠ [] := by decide
  unfold headerEnd
  cases hi : find_subseq (w.take m) crlfcrlf with
  | some i =>
      right
      have hi' : find_subseq w crlfcrlf = some i := firstOcc_of_take hcr hi
      rw [hi']
  | none =>
      cases hj : find_subseq (w.take m) [Ch.lf, Ch.lf] with
      | none => exact Or.inl rfl
      | some j =>
          right
          have hj' : find_subseq w [Ch.lf, Ch.lf] = some j := firstOcc_of_take hlf hj
          rw [hj']
          cases hi' : find_subseq w crlfcrlf with
          | none => rfl
          | some i =>
              -- the empty line lies in the part too, and would have been found
              exfalso
              have hle : i + 4 ≤ j + 2 := by
                unfold Plain at h
                rw [hi', hj'] at h
                exact h
              have hlen := (firstOcc_le hj).resolve_right hlf
              have h2 : ([Ch.lf, Ch.lf] : Bytes).length = 2 := rfl
              have h4 : crlfcrlf.length = 4 := rfl
              rw [List.length_take] at hlen
              have hi'' : find_subseq (w.take m) crlfcrlf = some i := firstOcc_take hcr hi' (by omega)
              rw [hi] at hi''
              cases hi''

/-- A header block lies in the window, and is not empty. -/
theorem headerEnd_le {w : Bytes} {e sep : Nat} (h : headerEnd w = some (e, sep)) :
    0 < e + sep ∧ e + sep ≤ w.length := by
  unfold headerEnd at h
  cases hi : find_subseq w crlfcrlf with
  | some i =>
      rw [hi] at h
      cases h
      have hle := (firstOcc_le hi).resolve_right (by decide)
      have h4 : crlfcrlf.length = 4 := rfl
      omega
  | none =>
      rw [hi] at h
      obtain ⟨j, hj, e⟩ := Option.map_eq_some_iff.mp h
      cases e
      have hle := (firstOcc_le hj).resolve_right (by decide)
      have h2 : ([Ch.lf, Ch.lf] : Bytes).length = 2 := rfl
      omega

/-! ## §2. What the buffer holds behind the bytes that count. -/

/-- A number ends at the NUL behind it. -/
theorem strtoll_nul (x y : Bytes) : strtoll (x ++ Ch.nul :: y) = strtoll (x ++ [Ch.nul]) := by
  by_cases hx : ∀ c ∈ x, isSpace c = true
  · -- there is none
    rw [strtoll_spaces hx, strtoll_spaces hx]
    rfl
  · rw [strtoll_stop (by decide) hx, strtoll_stop (by decide) hx]

theorem headerValue_nul (needle line h stale : Bytes) (hline : line.length ≤ h.length) :
    headerValue needle line h (h ++ Ch.nul :: stale)
      = headerValue needle line h (h ++ [Ch.nul]) := by
  unfold headerValue
  split
  next hstart =>
    have hlen : needle.length ≤ line.length := by
      unfold startsLower at hstart
      have := congrArg List.length (of_decide_eq_true hstart)
      simp only [List.length_map, List.length_take] at this
      omega
    have hblank : ((h.drop needle.length).takeWhile isBlank).length ≤ h.length - needle.length := by
      have := (List.takeWhile_prefix isBlank (l := h.drop needle.length)).length_le
      rwa [List.length_drop] at this
    rw [List.drop_append_of_le_length (by omega), List.drop_append_of_le_length (by omega)]
    exact strtoll_nul _ _
  next => rfl

theorem scanLines_nul (needle stale : Bytes) :
    ∀ (fuel : Nat) (h : Bytes), scanLines (headerValue needle) fuel h (h ++ Ch.nul :: stale)
      = scanLines (headerValue needle) fuel h (h ++ [Ch.nul]) := by
  have hnil : ∀ fuel mem, scanLines (headerValue needle) fuel [] mem = none := by
    intro fuel mem
    cases fuel with
    | zero => rfl
    | succ fuel => simp [scanLines]
  intro fuel
  induction fuel with
  | zero => exact fun _ => rfl
  | succ fuel ih =>
      intro h
      unfold scanLines
      by_cases hne : h = []
      · rw [if_pos hne, if_pos hne]
      rw [if_neg hne, if_neg hne]
      dsimp only
      rw [headerValue_nul _ _ _ _ (by rw [List.length_take]; omega)]
      split
      · rfl
      · -- the next line, in the same memory
        cases hll : memchr Ch.lf h with
        | none =>
            simp only [Option.getD_none]
            rw [List.drop_of_length_le (Nat.le_succ _), hnil, hnil]
        | some ll =>
            have hlt := memchr_lt hll
            simp only [Option.getD_some]
            rw [List.drop_append_of_le_length hlt, List.drop_append_of_le_length hlt]
            exact ih _

/-- **The declared length** does not depend on what is behind the header block. -/
theorem parsed_content_length (head stale : Bytes) :
    bodyLength (head ++ Ch.nul :: stale) head.length = bodyLength (head ++ [Ch.nul]) head.length := by
  unfold bodyLength parse_content_length parse_header_int64
  rw [List.take_left, List.take_left, scanLines_nul]

theorem should_close_head (head stale : Bytes) :
    should_close (head ++ stale) head.length = should_close head head.length := by
  unfold should_close
  rw [List.take_left, List.take_length]

/-- The body as a C string. -/
theorem cstr_body (head body stale : Bytes) :
    cstr ((head ++ body ++ Ch.nul :: stale).drop head.length) = cstr body := by
  rw [List.append_assoc, List.drop_left, cstr_append_nul]

/-- Bytes at the start of the buffer, and behind what was received before. -/
theorem poke_zero (mem bytes : Bytes) :
    poke mem 0 bytes = bytes ++ mem.drop bytes.length := by
  unfold poke
  simp

theorem poke_append (pre stale bytes : Bytes) :
    poke (pre ++ stale) pre.length bytes = pre ++ bytes ++ stale.drop bytes.length := by
  unfold poke
  rw [List.take_left, ← List.drop_drop, List.drop_left]

/-! ## §3. The room for a body. -/

/-- A second `ensure_capacity` finds the room that the first has made. -/
theorem ensure_capacity_again {cap cap' needed : Nat} {ok : Nat → Bool}
    (h : ensure_capacity cap needed ok = .room cap') :
    ensure_capacity cap' needed ok = .room cap' := by
  have hle : needed ≤ cap' := by
    unfold ensure_capacity at h
    split at h
    next hle =>
      cases h
      exact hle
    next =>
      split at h
      · cases h
      next new_cap hnew =>
        split at h
        · cases h
          exact le_doubleCap hnew
        · cases h
  unfold ensure_capacity
  rw [if_pos hle]

/-- The buffer does not get smaller. -/
theorem ensure_capacity_ge {cap cap' needed : Nat} {ok : Nat → Bool}
    (h : ensure_capacity cap needed ok = .room cap') : cap ≤ cap' := by
  unfold ensure_capacity at h
  split at h
  next =>
    cases h
    exact Nat.le_refl _
  next hlt =>
    split at h
    · cases h
    next new_cap hnew =>
      split at h
      · cases h
        have := le_doubleCap hnew
        omega
      · cases h

/-! ## §4. The machine. -/

/-- What a session is at; `closed` and `relayed` are its ends. -/
inductive Phase where
  | owner
  | headers
  | body (hdr_sz target : Nat) (close : Bool)
  | respond (resp : Bytes) (close : Bool)
  | closed
  | relayed (owner : Bytes)
  deriving DecidableEq

/-- How far a stream has been read: `rest` has not, and `out` is what the client has been
sent. -/
structure Reading where
  phase : Phase
  rest : Bytes
  cap : Nat
  out : Bytes

namespace Reading

variable (cfg : Config) (realloc_ok : Nat → Bool)

/-- Whose request is next. -/
def atOwner (k : Reading) : Option Reading :=
  let w := k.rest.take PEEK_LEN
  if memchr Ch.lf w = none then none
  else
    match parse_request_owner w HTTPMIGRATE_TARGET_LEN with
    | none => some { k with phase := .closed }
    | some owner =>
        if cstr owner = cfg.s_function_name then some { k with phase := .headers }
        else some { k with phase := .relayed (cstr owner) }

/-- What follows a header block of `hdr_sz` bytes. -/
def afterHead (k : Reading) (hdr_sz : Nat) : Reading :=
  let head := k.rest.take hdr_sz
  let target := bodyLength (head ++ [Ch.nul]) hdr_sz
  let close := should_close head hdr_sz
  { k with
    phase := if 0 < target then .body hdr_sz target close else .respond (responseBytes cfg [] close) close
    rest := k.rest.drop hdr_sz }

def atHeaders (k : Reading) : Option Reading :=
  let w := k.rest.take (k.cap - 1)
  match headerEnd w with
  | none => if k.cap - 1 ≤ w.length then some { k with phase := .closed } else none
  | some (hdr_end, sep_len) => some (k.afterHead cfg (hdr_end + sep_len))

def atBody (k : Reading) (hdr_sz target : Nat) (close : Bool) : Option Reading :=
  match ensure_capacity k.cap (hdr_sz + target + 1) realloc_ok with
  | .failed => some { k with phase := .closed }
  | .spins => some k
  | .room cap =>
      if k.rest.length < target then none
      else some { k with
        phase := .respond (responseBytes cfg (cstr (k.rest.take target)) close) close
        rest := k.rest.drop target
        cap := cap }

/-- What a session comes to when the whole rest of the stream is in sight; `none` where it
waits for more, or is at an end. -/
def next (k : Reading) : Option Reading :=
  match k.phase with
  | .owner => k.atOwner cfg
  | .headers => k.atHeaders cfg
  | .body hdr_sz target close => k.atBody cfg realloc_ok hdr_sz target close
  | .respond resp close =>
      some { k with phase := if close then .closed else .owner, out := k.out ++ resp }
  | .closed => none
  | .relayed _ => none

/-- A session that has not read anything. -/
def start (stream : Bytes) : Reading := ⟨.owner, stream, 16384, []⟩

end Reading

end TlsMigration.HttpKa
