/-
  TlsMigration.Bench2.Representation
  ──────────────────────────────────
  **THE REPRESENTATION INVARIANT OF A SESSION**
  (`worker_session_t`, bench2_proto_worker.c).

  In `Session` the buffer is what has been read.  Here it is a block of
  memory that is reallocated, and every store into it is checked; sizes are
  those of a `size_t`; and what wolfSSL has accepted of the response is kept
  beside the session.  An iteration is the one of `session_advance`.

    • `ensure_capacity_size_t_eq` — the doubling neither wraps nor goes on
                                    for ever;
    • `RepInv.step`               — what one iteration keeps;
    • `session_represented`       — the invariant, in every reachable state.
-/
import TlsMigration.Lib.Doubling
import TlsMigration.Lib.Memory
import TlsMigration.Lib.Transition
import TlsMigration.Bench2.Serving

namespace TlsMigration.Bench2

open TlsMigration.Http

variable {F S : Type*}

/-! ## §1. The size of the buffer. -/

/-- `ensure_capacity` with the arithmetic of a `size_t`. -/
def ensure_capacity_size_t (cap needed : Nat) (realloc_ok : Bool) : Room :=
  if needed ≤ cap then .room cap
  else
    match growCap 65 needed (if cap = 0 then WORKER_INITIAL_BUF else cap) with
    | .room new_cap => if realloc_ok then .room new_cap else .failed
    | r => r

/-- What a buffer for `WORKER_MAX_REQ_BYTES` can grow to. -/
def capBound : Nat := 2 * (WORKER_MAX_REQ_BYTES + 8192)

/-- What `ensure_capacity` returns, as the result of the other. -/
def roomOf : Option Nat → Room
  | some cap => .room cap
  | none => .failed

/-- **No size wraps and the loop ends**: what is not a capacity is a failed `realloc`. -/
theorem ensure_capacity_size_t_eq {needed : Nat} (hsmall : needed ≤ 2 ^ 63) (cap : Nat)
    (ok : Bool) :
    ensure_capacity_size_t cap needed ok = roomOf (ensure_capacity cap needed ok) := by
  unfold ensure_capacity_size_t ensure_capacity
  by_cases hfits : needed ≤ cap
  · rw [if_pos hfits, if_pos hfits]
    rfl
  rw [if_neg hfits, if_neg hfits]
  have hpos : 0 < if cap = 0 then WORKER_INITIAL_BUF else cap := by
    split
    · decide
    · omega
  obtain ⟨cap', hgrow⟩ := growCap_room 64 hsmall hpos (by omega)
  rw [hgrow]
  cases ok <;> rfl

theorem ensure_capacity_ge {cap cap' needed : Nat} {ok : Bool}
    (h : ensure_capacity cap needed ok = some cap') : cap ≤ cap' := by
  have hroom := le_ensure_capacity h
  by_cases hfits : needed ≤ cap
  · unfold ensure_capacity at h
    rw [if_pos hfits] at h
    injection h with h
    omega
  · omega

/-- No read of a request makes the buffer larger than that. -/
theorem ensure_capacity_le {cap cap' needed : Nat} {ok : Bool} (hcap : cap ≤ capBound)
    (hneeded : needed ≤ WORKER_MAX_REQ_BYTES + 8192)
    (h : ensure_capacity cap needed ok = some cap') : cap' ≤ capBound := by
  have hinit : WORKER_INITIAL_BUF ≤ capBound := by decide
  rcases ensure_capacity_cases h with ⟨-, rfl⟩ | hgrow
  · exact hcap
  · have hstart : (if cap = 0 then WORKER_INITIAL_BUF else cap) ≤ capBound := by
      split
      · exact hinit
      · exact hcap
    -- the last doubling starts below what is needed
    have hle := growCap_le hgrow
    have hbound : 2 * needed ≤ capBound := Nat.mul_le_mul_left 2 hneeded
    omega

/-! ## §2. The system. -/

/-- A session, the memory at `s->buf`, and what wolfSSL has accepted for the current request; the
memory is `none` once something was stored outside of it. -/
structure Rep (F S : Type*) where
  s : Session F S
  block : Option Bytes
  accepted : Bytes
  phase : Phase

/-- What the calls return, and what new memory holds. -/
structure RepCalls (S : Type*) where
  calls : Calls S
  fresh : Nat → UInt8

/-- The memory behind `session_tls_read_buffer`: what was read goes to `buf + len`, and then
`buf[len] = '\0'`. -/
def read_buffer_block (s : Session F S) (block : Bytes) (c : RepCalls S) : Option Bytes :=
  if WORKER_MAX_REQ_BYTES ≤ s.buf.length then some block
  else
    match ensure_capacity s.cap (s.buf.length + 8192 + 1) c.calls.realloc_ok with
    | none => some block
    | some cap =>
        let block := reallocBlock block cap c.fresh
        match c.calls.read with
        | .data bytes =>
            (storeAt block s.buf.length bytes).bind fun block =>
              storeAt block (s.buf.length + bytes.length) [Ch.nul]
        | .none _ => some block

/-- After one iteration.  A new request starts where a response is left. -/
def Rep.next (cfg : Config F) (st : Rep F S) (c : RepCalls S) : Rep F S :=
  let r := session_iter cfg st.s c.calls
  { s := r.1
    block :=
      if st.s.state = .read_headers then
        st.block.bind fun block => read_buffer_block st.s block c
      else st.block
    accepted :=
      if st.s.state = .write_response ∧ r.1.state ≠ .write_response then []
      else st.accepted ++ writtenBytes st.s c.calls
    phase := .ofCtl r.2 }

/-- Calls that make progress return at least one byte, and no more than they were asked for. -/
structure Session.Legal (s : Session F S) (c : Calls S) : Prop where
  headers : s.state = .read_headers → ∀ cap,
    ensure_capacity s.cap (s.buf.length + 8192 + 1) c.realloc_ok = some cap →
    ∀ d, c.read = .data d → d ≠ [] ∧ d.length ≤ readRoom { s with cap := cap }
  body : s.state = .read_body → s.body_in < s.body_target → ∀ d, c.read = .data d →
    d ≠ [] ∧ d.length ≤ min (s.body_target - s.body_in) 8192
  write : s.state = .write_response → s.resp_off < s.resp.length → ∀ n, c.write = .wrote n →
    0 < n ∧ n ≤ s.resp.length - s.resp_off

/-- A session that has been registered, with any outcome of every call. -/
def repSystem (cfg : Config F) : TransitionSystem (Rep F S) (RepCalls S) where
  init st := ∃ fd serial block, block.length = WORKER_INITIAL_BUF
    ∧ st = ⟨session_new cfg fd serial, some block, [], .live⟩
  step st c st' := st.phase = .live ∧ st.s.Legal c.calls ∧ st' = st.next cfg c

/-! ## §3. The memory. -/

/-- The block that `buf`, `cap` and `len` describe. -/
structure BlockOk (buf : Bytes) (cap : Nat) (block : Bytes) : Prop where
  size : block.length = cap
  bound : cap ≤ capBound
  room : buf.length < cap
  holds : buf <+: block
  terminated : buf ≠ [] → block[buf.length]? = some Ch.nul

theorem BlockOk.nil {cap : Nat} {block : Bytes} (hsize : block.length = cap)
    (hbound : cap ≤ capBound) (hpos : 0 < cap) : BlockOk [] cap block :=
  ⟨hsize, hbound, hpos, List.nil_prefix, fun h => absurd rfl h⟩

theorem BlockOk.realloc {buf block : Bytes} {cap cap' : Nat} (h : BlockOk buf cap block)
    (hle : cap ≤ cap') (hbound : cap' ≤ capBound) (fresh : Nat → UInt8) :
    BlockOk buf cap' (reallocBlock block cap' fresh) := by
  have hsize := h.size
  have hroom := h.room
  refine ⟨length_reallocBlock fresh (by omega), hbound, by omega, ?_, ?_⟩
  · exact h.holds.trans (List.prefix_append _ _)
  · intro hne
    unfold reallocBlock
    rw [List.getElem?_append_left (by omega)]
    exact h.terminated hne

/-- What was read is stored behind what was there, and the terminator behind it. -/
theorem BlockOk.store {buf block d : Bytes} {cap : Nat} (h : BlockOk buf cap block)
    (hfits : buf.length + d.length < cap) :
    ∃ block', ((storeAt block buf.length d).bind fun block =>
        storeAt block (buf.length + d.length) [Ch.nul]) = some block'
      ∧ BlockOk (buf ++ d) cap block' := by
  obtain ⟨rest, rfl⟩ := h.holds
  have hsize := h.size
  rw [List.length_append] at hsize
  -- what is read overwrites what the block holds behind `len`
  have hfirst : storeAt (buf ++ rest) buf.length d = some (buf ++ d ++ rest.drop d.length) := by
    rw [storeAt_of_le (by rw [List.length_append]; omega), List.take_left,
      List.drop_length_add_append]
  -- the room for the terminator is the 1 in `cap - len - 1`
  have hlast : storeAt (buf ++ d ++ rest.drop d.length) (buf.length + d.length) [Ch.nul]
      = some (buf ++ d ++ Ch.nul :: rest.drop (d.length + 1)) := by
    have hlen : (buf ++ d).length = buf.length + d.length := List.length_append
    rw [storeAt_of_le, ← hlen, List.take_left, List.drop_length_add_append, List.drop_drop]
    · simp
    · simp only [List.length_append, List.length_drop, List.length_singleton]
      omega
  refine ⟨buf ++ d ++ Ch.nul :: rest.drop (d.length + 1), ?_, ?_, h.bound, ?_, ?_, ?_⟩
  · rw [hfirst, Option.bind_some]
    exact hlast
  · simp only [List.length_append, List.length_cons, List.length_drop]
    omega
  · rw [List.length_append]
    exact hfits
  · exact List.prefix_append _ _
  · intro _
    rw [List.getElem?_append_right (Nat.le_refl _), Nat.sub_self]
    rfl

/-! ## §4. The fields. -/

/-- The sizes in the session's fields. -/
structure FieldsOk (s : Session F S) : Prop where
  hdr_sz : s.hdr_sz ≤ s.buf.length
  body_in : s.body_in ≤ s.body_target
  body_target : s.body_target ≤ WORKER_MAX_REQ_BYTES
  resp_off : s.resp_off ≤ s.resp.length
  resp_len : s.resp.length < 768

variable {cfg : Config F} {s : Session F S} {c : Calls S}

theorem FieldsOk.reset (cfg : Config F) (s : Session F S) (next_state : WorkerState) :
    FieldsOk (session_reset_request cfg s next_state) :=
  ⟨Nat.le_refl _, Nat.le_refl _, Nat.zero_le _, Nat.le_refl _, show 0 < 768 by decide⟩

theorem headerEnd_le {buf : Bytes} {hdr_sz : Nat} (h : headerEnd buf = some hdr_sz) :
    hdr_sz ≤ buf.length := by
  unfold headerEnd at h
  split at h
  next i hi =>
    cases h
    have hle := (firstOcc_le hi).resolve_right (by decide)
    have hfour : crlfcrlf.length = 4 := rfl
    omega
  next =>
    obtain ⟨i, hi, rfl⟩ := Option.map_eq_some_iff.mp h
    have hle := (firstOcc_le hi).resolve_right (by decide)
    have htwo : ([Ch.lf, Ch.lf] : Bytes).length = 2 := rfl
    omega

theorem responseBytes_lt {req_no : Nat} {a b : F} {close : Bool} {resp : Bytes}
    (h : responseBytes cfg req_no a b close = some resp) : resp.length < 768 := by
  unfold responseBytes at h
  obtain ⟨-, h⟩ := Option.ite_none_left_eq_some.mp h
  obtain ⟨hlt, h⟩ := Option.ite_none_left_eq_some.mp h
  injection h with h
  rw [← h]
  exact Nat.lt_of_not_le hlt

/-- What an iteration that does not touch the buffer leaves of a request: its sizes are in order,
and as much of the response is out as before. -/
structure Settled (s s' : Session F S) : Prop where
  buf : s'.buf = s.buf
  cap : s'.cap = s.cap
  fields : FieldsOk s'
  out : s'.partOut = s.partOut

theorem Settled.events (h : FieldsOk s) (events : EpollEvents) :
    Settled s { s with events := events } :=
  ⟨rfl, rfl, ⟨h.hdr_sz, h.body_in, h.body_target, h.resp_off, h.resp_len⟩, rfl⟩

theorem Settled.same (h : FieldsOk s) : Settled s s := ⟨rfl, rfl, h, rfl⟩

theorem Settled.want (h : FieldsOk s) (err : Want) (ok : Bool) :
    Settled s (wolfssl_want s err ok).1 := by
  obtain ⟨events, rc, hwant, -⟩ := wolfssl_want_cases s err ok
  rw [hwant]
  exact .events h events

/-- A response that has just been built is not out. -/
theorem Settled.build (h : FieldsOk s) (hout : s.partOut = []) (c : Calls S) :
    Settled s (session_build_response cfg s c).1 := by
  rcases session_build_response_cases cfg s c with hb | ⟨resp, events, rc, hresp, hb⟩
  · rw [hb]
    exact .same h
  · rw [hb]
    refine ⟨rfl, rfl, ?_, ?_⟩
    · exact ⟨h.hdr_sz, h.body_in, h.body_target, Nat.zero_le _, responseBytes_lt hresp⟩
    · rw [hout]
      rfl

theorem Settled.trans {s₁ s₂ s₃ : Session F S} (h₁ : Settled s₁ s₂) (h₂ : Settled s₂ s₃) :
    Settled s₁ s₃ :=
  ⟨h₂.buf.trans h₁.buf, h₂.cap.trans h₁.cap, h₂.fields, h₂.out.trans h₁.out⟩

theorem partOut_of_ne (h : s.state ≠ .write_response) : s.partOut = [] := if_neg h

/-- **The headers are taken apart**, and the response is built if there is nothing more to read. -/
theorem Settled.headers_read (cfg : Config F) (h : FieldsOk s) (hst : s.state = .read_headers)
    (c : Calls S) : Settled s (session_headers_read cfg s c).1 := by
  have hout : s.partOut = [] := partOut_of_ne (by rw [hst]; decide)
  unfold session_headers_read session_parse_headers
  cases hend : headerEnd s.buf with
  | none => exact .same h
  | some hdr_sz =>
      have hle := headerEnd_le hend
      dsimp only
      generalize max (parse_content_length s.buf hdr_sz) 0 = cl
      by_cases hlarge : (WORKER_MAX_REQ_BYTES : Int) < cl
      · rw [if_pos hlarge]
        exact ⟨rfl, rfl, ⟨hle, h.body_in, h.body_target, h.resp_off, h.resp_len⟩, rfl⟩
      · rw [if_neg hlarge, if_neg (show ¬ (1 : Int) < 0 by decide),
          if_neg (show ¬ (1 : Int) = 0 by decide)]
        dsimp only
        -- the limit on the length makes `cl` a size
        have htarget : cl.toNat ≤ WORKER_MAX_REQ_BYTES := by omega
        split
        · -- the body is in the buffer
          refine Settled.trans ?_ (Settled.build ?_ rfl c)
          · -- a part of it is still to come
            exact ⟨rfl, rfl, ⟨hle, Nat.min_le_right _ _, htarget, h.resp_off, h.resp_len⟩,
              hout.symm⟩
          · exact ⟨hle, Nat.min_le_right _ _, htarget, h.resp_off, h.resp_len⟩
        · exact ⟨rfl, rfl, ⟨hle, Nat.min_le_right _ _, htarget, h.resp_off, h.resp_len⟩, hout.symm⟩

/-! ## §5. One iteration. -/

/-- The invariant: the memory is what the fields say, the fields are in order, and of the response
exactly the bytes before `resp_off` have been accepted. -/
structure RepInv (st : Rep F S) : Prop where
  block : ∃ block, st.block = some block ∧ BlockOk st.s.buf st.s.cap block
  fields : FieldsOk st.s
  accepted : st.accepted = st.s.partOut

variable {st : Rep F S} {rc : RepCalls S}

theorem Rep.next_block (hnot : st.s.state ≠ .read_headers) : (st.next cfg rc).block = st.block :=
  if_neg hnot

/-- The bytes accepted for a response that is not left. -/
theorem Rep.next_accepted (hstay : st.s.state = .write_response →
    (session_iter cfg st.s rc.calls).1.state = .write_response) :
    (st.next cfg rc).accepted = st.accepted ++ writtenBytes st.s rc.calls :=
  if_neg fun hleft => hleft.2 (hstay hleft.1)

/-- An iteration that reads no headers and writes nothing. -/
theorem RepInv.settled (h : RepInv st) (hnot : st.s.state ≠ .read_headers)
    (hset : Settled st.s (session_iter cfg st.s rc.calls).1)
    (hwritten : writtenBytes st.s rc.calls = [])
    (hstay : st.s.state = .write_response →
      (session_iter cfg st.s rc.calls).1.state = .write_response) :
    RepInv (st.next cfg rc) := by
  obtain ⟨block, hblock, hok⟩ := h.block
  refine ⟨⟨block, (Rep.next_block hnot).trans hblock, ?_⟩, hset.fields, ?_⟩
  · show BlockOk (session_iter cfg st.s rc.calls).1.buf (session_iter cfg st.s rc.calls).1.cap block
    rw [hset.buf, hset.cap]
    exact hok
  · rw [Rep.next_accepted hstay, hwritten, List.append_nil, h.accepted]
    exact hset.out.symm

/-- The next request of the session: an empty buffer, and nothing to send. -/
theorem RepInv.fresh (h : RepInv st) (hnot : st.s.state ≠ .read_headers) {s' : Session F S}
    (hiter : (session_iter cfg st.s rc.calls).1 = s') (hbuf : s'.buf = [])
    (hcap : s'.cap = st.s.cap) (hfields : FieldsOk s') (hstate : s'.state ≠ .write_response) :
    RepInv (st.next cfg rc) := by
  obtain ⟨block, hblock, hok⟩ := h.block
  have hroom := hok.room
  refine ⟨⟨block, (Rep.next_block hnot).trans hblock, ?_⟩, ?_, ?_⟩
  · show BlockOk (session_iter cfg st.s rc.calls).1.buf (session_iter cfg st.s rc.calls).1.cap block
    rw [hiter, hbuf, hcap]
    exact .nil hok.size hok.bound (by omega)
  · show FieldsOk (session_iter cfg st.s rc.calls).1
    rw [hiter]
    exact hfields
  · show (if st.s.state = .write_response
        ∧ (session_iter cfg st.s rc.calls).1.state ≠ .write_response then []
      else st.accepted ++ writtenBytes st.s rc.calls)
        = (session_iter cfg st.s rc.calls).1.partOut
    rw [hiter, partOut_of_ne hstate]
    -- when a response is left, what was accepted for it is forgotten
    by_cases hst : st.s.state = .write_response
    · rw [if_pos ⟨hst, hstate⟩]
    · rw [if_neg (fun hleft => hst hleft.1), writtenBytes_of_reading _ hst, List.append_nil,
        h.accepted, partOut_of_ne hst]

theorem RepInv.peek_owner (h : RepInv st) (hst : st.s.state = .peek_owner) :
    RepInv (st.next cfg rc) := by
  have hnot : st.s.state ≠ .read_headers := by rw [hst]; decide
  have hne : st.s.state ≠ .write_response := by rw [hst]; decide
  have hwritten := writtenBytes_of_reading rc.calls hne
  have hiter : session_iter cfg st.s rc.calls = session_peek_owner cfg st.s rc.calls := by
    unfold session_iter
    rw [hst]
  -- the owner is checked or not; the buffer is reset at most
  have hcases : (session_iter cfg st.s rc.calls).1 = st.s
      ∨ (session_iter cfg st.s rc.calls).1
        = session_reset_request cfg st.s .read_headers := by
    rw [hiter]
    unfold session_peek_owner
    split
    · exact Or.inl rfl
    · split
      · exact Or.inl rfl
      · split
        · exact Or.inr rfl
        · exact Or.inl rfl
  rcases hcases with hsame | hreset
  · refine h.settled hnot ?_ hwritten (fun hw => absurd hw hne)
    rw [hsame]
    exact .same h.fields
  · refine h.fresh hnot hreset rfl rfl (.reset cfg st.s _) ?_
    show WorkerState.read_headers ≠ .write_response
    decide

theorem RepInv.read_body (h : RepInv st) (hst : st.s.state = .read_body)
    (hlegal : st.s.Legal rc.calls) : RepInv (st.next cfg rc) := by
  have hnot : st.s.state ≠ .read_headers := by rw [hst]; decide
  have hne : st.s.state ≠ .write_response := by rw [hst]; decide
  have hfields := h.fields
  refine h.settled hnot ?_ (writtenBytes_of_reading rc.calls hne) (fun hw => absurd hw hne)
  unfold session_iter
  rw [hst]
  show Settled st.s (session_read_body cfg st.s rc.calls).1
  unfold session_read_body
  by_cases hmore : st.s.body_in < st.s.body_target
  · rw [if_pos hmore]
    cases hread : rc.calls.read with
    | data d =>
        have hd := (hlegal.body hst hmore d hread).2
        refine ⟨rfl, rfl, ⟨hfields.hdr_sz, ?_, hfields.body_target, hfields.resp_off,
          hfields.resp_len⟩, rfl⟩
        show st.s.body_in + d.length ≤ st.s.body_target
        omega
    | none err => exact .want hfields err _
  · rw [if_neg hmore]
    exact .build hfields (partOut_of_ne hne) rc.calls

/-- Once the response is out: the session stays as it was, or it is the next request's. -/
theorem session_finish_response_shape (cfg : Config F) (s : Session F S) (c : Calls S) :
    (session_finish_response cfg s c).1 = s
      ∨ ∃ serial events,
        (session_finish_response cfg s c).1 = { s.completed cfg serial with events := events } := by
  unfold session_finish_response
  split
  · exact Or.inl rfl
  · split
    · exact Or.inl rfl
    next serial hserial =>
      right
      cases c.epoll_mod_ok with
      | false => exact ⟨serial, s.events, rfl⟩
      | true =>
          refine ⟨serial, .read, ?_⟩
          simp only [epoll_mod_fd, if_true, ne_eq, not_true_eq_false, if_false]
          split <;> rfl

theorem RepInv.write_response (h : RepInv st) (hst : st.s.state = .write_response)
    (hlegal : st.s.Legal rc.calls) : RepInv (st.next cfg rc) := by
  have hnot : st.s.state ≠ .read_headers := by rw [hst]; decide
  have hfields := h.fields
  have hiter : session_iter cfg st.s rc.calls = session_flush_response cfg st.s rc.calls := by
    unfold session_iter
    rw [hst]
  by_cases hmore : st.s.resp_off < st.s.resp.length
  · cases hwrite : rc.calls.write with
    | wrote n =>
        -- the bytes are accepted in order
        have hn := (hlegal.write hst hmore n hwrite).2
        have hflush : session_iter cfg st.s rc.calls
            = ({ st.s with resp_off := st.s.resp_off + n }, .again) := by
          rw [hiter]
          unfold session_flush_response
          rw [if_pos hmore, hwrite]
        have hwritten : writtenBytes st.s rc.calls = (st.s.resp.drop st.s.resp_off).take n := by
          unfold writtenBytes
          rw [hst, hwrite]
          exact if_pos hmore
        obtain ⟨block, hblock, hok⟩ := h.block
        have hstay : (session_iter cfg st.s rc.calls).1.state = .write_response := by
          rw [hflush]
          exact hst
        refine ⟨⟨block, (Rep.next_block hnot).trans hblock, ?_⟩, ?_, ?_⟩
        · show BlockOk (session_iter cfg st.s rc.calls).1.buf
            (session_iter cfg st.s rc.calls).1.cap block
          rw [hflush]
          exact hok
        · show FieldsOk (session_iter cfg st.s rc.calls).1
          rw [hflush]
          refine ⟨hfields.hdr_sz, hfields.body_in, hfields.body_target, ?_, hfields.resp_len⟩
          show st.s.resp_off + n ≤ st.s.resp.length
          omega
        · rw [Rep.next_accepted fun _ => hstay, hwritten, h.accepted]
          show st.s.partOut ++ _ = (session_iter cfg st.s rc.calls).1.partOut
          rw [hflush]
          unfold Session.partOut
          rw [if_pos hst, if_pos (show _ = WorkerState.write_response from hst), ← List.take_add]
    | none err =>
        have hflush : session_iter cfg st.s rc.calls
            = ((wolfssl_want st.s err rc.calls.epoll_mod_ok).1,
              ctlOf (wolfssl_want st.s err rc.calls.epoll_mod_ok).2) := by
          rw [hiter]
          unfold session_flush_response
          rw [if_pos hmore, hwrite]
        have hwant : (session_iter cfg st.s rc.calls).1
            = (wolfssl_want st.s err rc.calls.epoll_mod_ok).1 := by rw [hflush]
        have hset : Settled st.s (session_iter cfg st.s rc.calls).1 := by
          rw [hwant]
          exact .want hfields err _
        have hwritten : writtenBytes st.s rc.calls = [] := by
          unfold writtenBytes
          rw [hst, hwrite]
        refine h.settled hnot hset hwritten fun _ => ?_
        obtain ⟨events, ret, hevents, -⟩ := wolfssl_want_cases st.s err rc.calls.epoll_mod_ok
        rw [hwant, hevents]
        exact hst
  · -- nothing is left to write, and the session goes on to the next request
    have hfinish : session_iter cfg st.s rc.calls = session_finish_response cfg st.s rc.calls := by
      rw [hiter]
      unfold session_flush_response
      rw [if_neg hmore]
    rcases session_finish_response_shape cfg st.s rc.calls with hsame | ⟨serial, events, hdone⟩
    · rw [← hfinish] at hsame
      have hset : Settled st.s (session_iter cfg st.s rc.calls).1 := by
        rw [hsame]
        exact .same hfields
      have hwritten : writtenBytes st.s rc.calls = [] := by
        unfold writtenBytes
        split
        · exact if_neg hmore
        · rfl
      exact h.settled hnot hset hwritten (fun _ => by rw [hsame]; exact hst)
    · rw [← hfinish] at hdone
      refine h.fresh hnot hdone rfl rfl ?_ ?_
      · exact ⟨Nat.le_refl _, Nat.le_refl _, Nat.zero_le _, Nat.le_refl _, show 0 < 768 by decide⟩
      · show (if st.s.single_owner_hint then WorkerState.read_headers else .peek_owner) ≠ _
        split <;> decide

/-- A read of headers, and the memory behind it. -/
theorem read_headers_memory (cfg : Config F) {block : Bytes} (hok : BlockOk s.buf s.cap block)
    (hfields : FieldsOk s) (hst : s.state = .read_headers) (hlegal : s.Legal rc.calls) :
    ∃ block', read_buffer_block s block rc = some block'
      ∧ BlockOk (session_read_headers cfg s rc.calls).1.buf
          (session_read_headers cfg s rc.calls).1.cap block'
      ∧ FieldsOk (session_read_headers cfg s rc.calls).1
      ∧ (session_read_headers cfg s rc.calls).1.partOut = [] := by
  have hout : s.partOut = [] := partOut_of_ne (by rw [hst]; decide)
  unfold read_buffer_block session_read_headers session_tls_read_buffer
  by_cases hfull : WORKER_MAX_REQ_BYTES ≤ s.buf.length
  · rw [if_pos hfull, if_pos hfull]
    exact ⟨block, rfl, hok, hfields, hout⟩
  rw [if_neg hfull, if_neg hfull]
  cases hcap : ensure_capacity s.cap (s.buf.length + 8192 + 1) rc.calls.realloc_ok with
  | none => exact ⟨block, rfl, hok, hfields, hout⟩
  | some cap =>
      have hroom := le_ensure_capacity hcap
      have hgrown := hok.realloc (ensure_capacity_ge hcap)
        (ensure_capacity_le hok.bound (by omega) hcap) rc.fresh
      dsimp only
      cases hread : rc.calls.read with
      | none err =>
          obtain ⟨events, ret, hwant, hret⟩ :=
            wolfssl_want_cases { s with cap := cap } err rc.calls.epoll_mod_ok
          simp only [hwant, hret, if_true]
          exact ⟨_, rfl, hgrown, ⟨hfields.hdr_sz, hfields.body_in, hfields.body_target,
            hfields.resp_off, hfields.resp_len⟩, hout⟩
      | data d =>
          have hd := (hlegal.headers hst cap hcap d hread).2
          -- wolfSSL was asked for at most `cap - len - 1` bytes
          have hfits : s.buf.length + d.length < cap := by
            have hle : d.length ≤ min (cap - s.buf.length - 1) 8192 := hd
            omega
          obtain ⟨block', hstore, hok'⟩ := hgrown.store hfits
          have hgot : FieldsOk (s.received cap d) := by
            refine ⟨?_, hfields.body_in, hfields.body_target, hfields.resp_off, hfields.resp_len⟩
            have hhdr := hfields.hdr_sz
            show s.hdr_sz ≤ (s.buf ++ d).length
            rw [List.length_append]
            omega
          have hset : Settled (s.received cap d)
              (session_headers_read cfg (s.received cap d) rc.calls).1 :=
            .headers_read cfg hgot hst rc.calls
          refine ⟨block', hstore, ?_⟩
          show BlockOk (session_headers_read cfg (s.received cap d) rc.calls).1.buf
              (session_headers_read cfg (s.received cap d) rc.calls).1.cap block'
            ∧ FieldsOk (session_headers_read cfg (s.received cap d) rc.calls).1
            ∧ (session_headers_read cfg (s.received cap d) rc.calls).1.partOut = []
          rw [hset.buf, hset.cap, hset.out]
          exact ⟨hok', hset.fields, hout⟩

theorem RepInv.read_headers (h : RepInv st) (hst : st.s.state = .read_headers)
    (hlegal : st.s.Legal rc.calls) : RepInv (st.next cfg rc) := by
  have hne : st.s.state ≠ .write_response := by rw [hst]; decide
  obtain ⟨block, hblock, hok⟩ := h.block
  obtain ⟨block', hmemory, hok', hfields, hout⟩ :=
    read_headers_memory cfg hok h.fields hst hlegal
  have hsession : (st.next cfg rc).s = (session_read_headers cfg st.s rc.calls).1 := by
    show (session_iter cfg st.s rc.calls).1 = _
    unfold session_iter
    rw [hst]
  refine ⟨⟨block', ?_, ?_⟩, ?_, ?_⟩
  · show (if st.s.state = .read_headers then
        st.block.bind fun block => read_buffer_block st.s block rc else st.block) = _
    rw [if_pos hst, hblock]
    exact hmemory
  · rw [hsession]
    exact hok'
  · rw [hsession]
    exact hfields
  · rw [hsession, hout, Rep.next_accepted fun hw => absurd hw hne, writtenBytes_of_reading _ hne,
      List.append_nil, h.accepted, partOut_of_ne hne]

/-- **One iteration keeps the invariant.** -/
theorem RepInv.step (h : RepInv st) (hlegal : st.s.Legal rc.calls) : RepInv (st.next cfg rc) := by
  cases hst : st.s.state with
  | peek_owner => exact h.peek_owner hst
  | read_headers => exact h.read_headers hst hlegal
  | read_body => exact h.read_body hst hlegal
  | write_response => exact h.write_response hst hlegal

/-! ## §6. Every reachable state. -/

/-- `(int)` of a `size_t`. -/
def asInt (n : Nat) : Int := (n : Int).bmod (2 ^ 32)

theorem asInt_of_lt {n : Nat} (h : n < 2 ^ 31) : asInt n = n := castInt_of_lt h

/-- What holds of a session, whatever its calls have returned. -/
structure Represents (cfg : Config F) (st : Rep F S) : Prop where
  len_lt : st.s.buf.length < st.s.cap
  /-- every store was inside the block, and behind what was read there is a terminator -/
  block : ∃ block, st.block = some block ∧ block.length = st.s.cap ∧ st.s.buf <+: block
    ∧ (st.s.buf ≠ [] → block[st.s.buf.length]? = some Ch.nul)
  hdr_sz : st.s.hdr_sz ≤ st.s.buf.length
  body_in : st.s.body_in ≤ st.s.body_target
  body_target : st.s.body_target ≤ WORKER_MAX_REQ_BYTES
  resp_off : st.s.resp_off ≤ st.s.resp.length
  resp_len : st.s.resp.length < 768
  /-- the next doubling ends with room for a read, below `2 ^ 64` and without wrapping -/
  doubling : st.s.buf.length < WORKER_MAX_REQ_BYTES → ∃ cap,
    ensure_capacity_size_t st.s.cap (st.s.buf.length + 8192 + 1) true = .room cap
      ∧ ensure_capacity st.s.cap (st.s.buf.length + 8192 + 1) true = some cap
      ∧ st.s.buf.length + 8192 + 1 ≤ cap ∧ cap < 2 ^ 64
  /-- the casts to `int` in the calls of wolfSSL -/
  room_cast : ∀ cap ok, ensure_capacity st.s.cap (st.s.buf.length + 8192 + 1) ok = some cap →
    asInt (readRoom { st.s with cap := cap }) = readRoom { st.s with cap := cap }
  want_cast : asInt (min (st.s.body_target - st.s.body_in) 8192)
    = ((min (st.s.body_target - st.s.body_in) 8192 : Nat) : Int)
  resp_cast : asInt (st.s.resp.length - st.s.resp_off)
    = ((st.s.resp.length - st.s.resp_off : Nat) : Int)
  accepted : st.s.state = .write_response → st.accepted = st.s.resp.take st.s.resp_off
  /-- a response is left when all of it has been accepted -/
  leaves : ∀ c st', (repSystem cfg).step st c st' → st.s.state = .write_response →
    st'.s.state ≠ .write_response → st.s.resp_off = st.s.resp.length

/-- While bytes of the response are left, the session writes. -/
theorem stays_in_write_response (cfg : Config F) {c : Calls S} (hst : s.state = .write_response)
    (hmore : s.resp_off < s.resp.length) : (session_iter cfg s c).1.state = .write_response := by
  unfold session_iter
  rw [hst]
  show (session_flush_response cfg s c).1.state = _
  unfold session_flush_response
  rw [if_pos hmore]
  cases c.write with
  | wrote n => exact hst
  | none err =>
      obtain ⟨events, ret, hwant, -⟩ := wolfssl_want_cases s err c.epoll_mod_ok
      dsimp only
      rw [hwant]
      exact hst

theorem RepInv.represents (cfg : Config F) (h : RepInv st) : Represents cfg st := by
  obtain ⟨block, hblock, hok⟩ := h.block
  have hfields := h.fields
  have hmax : WORKER_MAX_REQ_BYTES = 1048576 := rfl
  have htarget := hfields.body_target
  have hlen := hfields.resp_len
  refine
    { len_lt := hok.room
      block := ⟨block, hblock, hok.size, hok.holds, hok.terminated⟩
      hdr_sz := hfields.hdr_sz
      body_in := hfields.body_in
      body_target := hfields.body_target
      resp_off := hfields.resp_off
      resp_len := hfields.resp_len
      doubling := ?_
      room_cast := ?_
      want_cast := ?_
      resp_cast := ?_
      accepted := ?_
      leaves := ?_ }
  · intro hsmall
    obtain ⟨cap, hcap⟩ := ensure_capacity_read hsmall
    have hle := ensure_capacity_le hok.bound (by omega) hcap
    refine ⟨cap, ?_, hcap, le_ensure_capacity hcap, ?_⟩
    · rw [ensure_capacity_size_t_eq (by omega), hcap]
      rfl
    · unfold capBound at hle
      omega
  · intro cap ok _
    apply asInt_of_lt
    unfold readRoom
    omega
  · apply asInt_of_lt
    omega
  · apply asInt_of_lt
    omega
  · intro hst
    rw [h.accepted]
    exact if_pos hst
  · intro c st' hstep hst hleft
    obtain ⟨-, -, rfl⟩ := hstep
    -- with bytes left the state would be the same
    by_contra hne
    have hoff := hfields.resp_off
    exact hleft (stays_in_write_response cfg hst (by omega))

/-- **The representation invariant of a session**, in every reachable state. -/
theorem session_represented {cfg : Config F} {st : Rep F S}
    (h : (repSystem cfg).Reachable st) : Represents cfg st := by
  have hinv : RepInv st := by
    refine h.invariant RepInv ?_ ?_
    · intro st hinit
      obtain ⟨fd, serial, block, hsize, rfl⟩ := hinit
      have hinit : BlockOk [] WORKER_INITIAL_BUF block := .nil hsize (by decide) (by decide)
      refine ⟨⟨block, rfl, hinit⟩, ?_, rfl⟩
      exact ⟨Nat.le_refl _, Nat.le_refl _, Nat.zero_le _, Nat.le_refl _, show 0 < 768 by decide⟩
    · intro st c st' hst hstep
      obtain ⟨-, hlegal, rfl⟩ := hstep
      exact hst.step hlegal
  exact hinv.represents cfg

/-- A session that has just been registered by a worker named `a`, with a cleared buffer. -/
def Rep.registered : Rep Unit Unit :=
  ⟨session_new (.point (ascii "a")) 5 (), some (List.replicate WORKER_INITIAL_BUF 0), [], .live⟩

/-- A read of a part of the headers; no other call is made. -/
def partRead : RepCalls Unit where
  calls :=
    { realloc_ok := true
      read := .data (ascii "GET / HTTP/1.1\r\n")
      write := .none .error
      epoll_mod_ok := true
      serial := none
      pending := 0
      ready := 0
      peek := fun _ => none }
  fresh := fun _ => 0

theorem Rep.registered_legal : Rep.registered.s.Legal partRead.calls := by
  refine ⟨?_, ?_, ?_⟩
  · intro _ cap hcap d hd
    cases hd
    refine ⟨by decide +kernel, ?_⟩
    rw [readRoom_of_capacity hcap]
    decide +kernel
  · intro hst
    cases hst
  · intro hst
    cases hst

theorem session_represented_part :
    Represents (.point (ascii "a")) (Rep.registered.next (.point (ascii "a")) partRead) :=
  session_represented (.step
    (.init ⟨5, (), List.replicate WORKER_INITIAL_BUF 0, List.length_replicate, rfl⟩)
    ⟨rfl, Rep.registered_legal, rfl⟩)

end TlsMigration.Bench2
