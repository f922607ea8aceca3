/-
  TlsMigration.BenchHttp.Serving
  ──────────────────────────────
  **HOW A SESSION OF THE THROUGHPUT WORKER READS AND ANSWERS ONE REQUEST.**

  A session stands at one place of a request: in its header block, in its
  body, or behind it with the response to write.  One iteration, with
  whatever `recv` and `write` return, moves it on or leaves it where it is.

    • `InHead`, `InBody`, `Writing` — the places;
    • `InHead.iter`, `InBody.iter`, `Writing.iter` — one iteration at each.
-/
import TlsMigration.BenchHttp.Response
import TlsMigration.Http.Request

namespace TlsMigration.BenchHttp

open TlsMigration.Http TlsMigration.Handoff
open TlsMigration.HttpKa (headerEnd bodyLength should_close)
open TlsMigration.HttpKa.Sum (Doubles operands)

variable {F : Type*} {cfg : Config F} {q : Request} {s : Session F}

/-! ## §1. The answer to a request. -/

/-- The worker takes the request for the last one. -/
def closes (q : Request) : Bool := HttpKa.should_close q.head q.head.length

/-- The operands that are read when `k` bytes of the body come with the header block. -/
def operandsWith (L : Doubles F) (q : Request) (k : Nat) : F × F :=
  if 0 < k then operands L L.one L.two (q.body.take k) k else (L.one, L.two)

/-- The response to the request, the `no`th of the session. -/
def response (cfg : Config F) (q : Request) (no : UInt64) (k : Nat) : Bytes :=
  let p := operandsWith cfg.libm q k
  respText cfg no (closes q) (cfg.compute p.1 p.2)

/-- A worker that a handoff can name answers with one response. -/
theorem response_framed (hcfg : cfg.Modest) (no : UInt64) (k : Nat) :
    Framed (response cfg q no k) (closes q) := by
  unfold response
  dsimp only
  rw [respText_eq _ _ _ _ (Nat.le_trans (hcfg.jsonSize_le _ _) (by decide))]
  exact framed_framedText _ _

/-! ## §2. The places. -/

/-- What an iteration leaves alone while a request is read. -/
structure Same (s s' : Session F) : Prop where
  fd : s'.fd = s.fd
  req_no : s'.req_no = s.req_no
  events : s'.events = s.events

/-- `c` bytes of the request have been read, and the header block is not complete. -/
structure InHead (cfg : Config F) (q : Request) (s : Session F) (c : Nat) : Prop where
  state : s.state = .S_READ_HEADERS
  buf : s.buf = q.head.take c
  lt : c < q.head.length
  operands : s.a = cfg.libm.one ∧ s.b = cfg.libm.two

/-- `c` bytes of the request have been read; `k` of the body came with the header block. -/
structure InBody (cfg : Config F) (q : Request) (s : Session F) (c k : Nat) : Prop where
  state : s.state = .S_READ_BODY
  head_le : q.head.length + k ≤ c
  le : c ≤ q.bytes.length
  body_in : s.body_in = c - q.head.length
  content_length : s.content_length = q.body.length
  should_close : s.should_close = closes q
  operands : (s.a, s.b) = operandsWith cfg.libm q k

/-- The response is `text`, and `off` bytes of it have been written. -/
structure Writing (s : Session F) (text : Bytes) (off : Nat) : Prop where
  state : s.state = .S_WRITE_RESP
  resp : s.resp.take s.resp_len = text
  resp_len : s.resp_len = text.length
  resp_off : s.resp_off = off
  le : off ≤ text.length

/-! ## §3. One iteration. -/

/-- The header block is complete when it has been read. -/
theorem headerEnd_whole (q : Request) (k : Nat) :
    headerEnd (q.head ++ q.body.take k) = some (q.head.length - 4, 4) := by
  unfold headerEnd
  rw [Request.crlfcrlf_head]

theorem headerEnd_part {c : Nat} (h : c < q.head.length) : headerEnd (q.head.take c) = none := by
  unfold headerEnd
  rw [Request.crlfcrlf_partial h, Request.lflf_partial]
  rfl

/-- The header block is complete, and `k` bytes of the body are in the buffer. -/
theorem session_headers_read_body {k : Nat} (hbuf : s.buf = q.head ++ q.body.take k)
    (hsz : s.hdr_sz = q.head.length) (hk : k ≤ q.body.length)
    (hops : s.a = cfg.libm.one ∧ s.b = cfg.libm.two)
    (hmax : (q.body.length : Int) ≤ LLONG_MAX) :
    InBody cfg q (session_headers_read cfg s) (q.head.length + k) k := by
  have hbytes := Request.bytes_length (q := q)
  have hlen : s.buf.length - s.hdr_sz = k := by
    rw [hbuf, hsz, List.length_append, List.length_take]
    omega
  have hbody : s.buf.drop s.hdr_sz = q.body.take k := by
    rw [hbuf, hsz, List.drop_left]
  refine ⟨rfl, Nat.le_refl _, by omega, ?_, ?_, ?_, ?_⟩
  · show s.buf.length - s.hdr_sz = _
    rw [hlen, Nat.add_sub_cancel_left]
  · show (parse_content_length s.buf s.hdr_sz).toNat = _
    have hvalue := Request.content_length hmax (q.body.take k)
    rw [hbuf, hsz]
    omega
  · show HttpKa.should_close s.buf s.hdr_sz = HttpKa.should_close _ _
    unfold HttpKa.should_close
    rw [hbuf, hsz, List.take_left, List.take_length]
  · unfold session_headers_read operandsWith
    dsimp only
    rw [hlen, hbody, hops.1, hops.2]

/-- **In the header block**: it is left once it is complete. -/
theorem InHead.iter {c : Nat} (h : InHead cfg q s c) (hmax : (q.body.length : Int) ≤ LLONG_MAX)
    (calls : Calls) (hrecv : ∀ bytes, calls.recv = .data bytes → bytes <+: q.bytes.drop c) :
    ((session_iter cfg s calls).2 = .close
        ∧ (calls.realloc_ok = false ∨ calls.recv = .error ∨ calls.recv = .data []))
      ∨ ((session_iter cfg s calls).2 = .wait ∧ calls.recv = .eagain
        ∧ Same s (session_iter cfg s calls).1 ∧ InHead cfg q (session_iter cfg s calls).1 c)
      ∨ ∃ bytes, calls.recv = .data bytes ∧ bytes ≠ [] ∧ (session_iter cfg s calls).2 = .again
        ∧ Same s (session_iter cfg s calls).1
        ∧ (InHead cfg q (session_iter cfg s calls).1 (c + bytes.length)
          ∨ ∃ k, k ≤ q.body.length
            ∧ InBody cfg q (session_iter cfg s calls).1 (c + bytes.length) k) := by
  have hiter : session_iter cfg s calls = session_read_headers cfg s calls := by
    unfold session_iter
    rw [h.state]
  rw [hiter]
  unfold session_read_headers
  split
  next hno => exact Or.inl ⟨rfl, Or.inl hno.2⟩
  next =>
  dsimp only
  cases hr : calls.recv with
  | eagain =>
      exact Or.inr (Or.inl ⟨rfl, rfl, ⟨rfl, rfl, rfl⟩, ⟨h.state, h.buf, h.lt, h.operands⟩⟩)
  | error => exact Or.inl ⟨rfl, Or.inr (Or.inl rfl)⟩
  | data bytes =>
      dsimp only
      split
      next hnil => exact Or.inl ⟨rfl, Or.inr (Or.inr (by rw [hnil]))⟩
      next hne =>
      right; right
      refine ⟨bytes, rfl, hne, ?_⟩
      have hpre := hrecv bytes hr
      have hbuf : s.buf = q.bytes.take c := by
        rw [h.buf, Request.bytes, List.take_append_of_le_length (Nat.le_of_lt h.lt)]
      rw [hbuf, take_append_prefix hpre]
      rcases Nat.lt_or_ge (c + bytes.length) q.head.length with hlt | hge
      · have hpart : q.bytes.take (c + bytes.length) = q.head.take (c + bytes.length) :=
          List.take_append_of_le_length (Nat.le_of_lt hlt)
        rw [hpart, headerEnd_part hlt]
        exact ⟨rfl, ⟨rfl, rfl, rfl⟩, Or.inl ⟨h.state, rfl, hlt, h.operands⟩⟩
      · obtain ⟨k, hk⟩ := Nat.exists_eq_add_of_le hge
        have hwhole : q.bytes.take (c + bytes.length) = q.head ++ q.body.take k := by
          rw [hk]
          exact List.take_length_add_append k
        have hkle : k ≤ q.body.length := by
          have hlen := hpre.length_le
          have hbytes := Request.bytes_length (q := q)
          have hlt := h.lt
          rw [List.length_drop] at hlen
          omega
        have hfour := Request.four_lt_head (q := q)
        have hsz : q.head.length - 4 + 4 = q.head.length := by omega
        rw [hwhole, headerEnd_whole, hk]
        dsimp only
        rw [hsz]
        exact ⟨rfl, ⟨rfl, rfl, rfl⟩,
          Or.inr ⟨k, hkle, session_headers_read_body rfl rfl hkle h.operands hmax⟩⟩

/-- **In the body**: it is read to its end, and then the response is there. -/
theorem InBody.iter {c k : Nat} (h : InBody cfg q s c k) (hcfg : cfg.Modest) (calls : Calls)
    (hrecv : ∀ bytes, calls.recv = .data bytes → bytes <+: q.bytes.drop c) :
    ((session_iter cfg s calls).2 = .close ∧ c < q.bytes.length
        ∧ (calls.recv = .error ∨ calls.recv = .data []))
      ∨ ((session_iter cfg s calls).2 = .wait ∧ c < q.bytes.length ∧ calls.recv = .eagain
        ∧ (session_iter cfg s calls).1 = s)
      ∨ (∃ bytes, c < q.bytes.length ∧ calls.recv = .data bytes ∧ bytes ≠ []
        ∧ (session_iter cfg s calls).2 = .again
        ∧ Same s (session_iter cfg s calls).1
        ∧ InBody cfg q (session_iter cfg s calls).1 (c + bytes.length) k)
      ∨ (c = q.bytes.length ∧ (session_iter cfg s calls).2 = .again
        ∧ (session_iter cfg s calls).1.fd = s.fd ∧ (session_iter cfg s calls).1.req_no = s.req_no
        ∧ (session_iter cfg s calls).1.should_close = closes q
        ∧ (session_iter cfg s calls).1.events = (if calls.epoll_mod_ok then .epollout else s.events)
        ∧ Writing (session_iter cfg s calls).1 (response cfg q s.req_no k) 0) := by
  have hiter : session_iter cfg s calls = session_read_body cfg s calls := by
    unfold session_iter
    rw [h.state]
  have hbytes := Request.bytes_length (q := q)
  have hhead := h.head_le
  have hle := h.le
  rw [hiter]
  unfold session_read_body
  rw [h.body_in, h.content_length]
  by_cases hmore : c - q.head.length < q.body.length
  · rw [if_pos hmore]
    have hlt : c < q.bytes.length := by omega
    cases hr : calls.recv with
    | eagain => exact Or.inr (Or.inl ⟨rfl, hlt, rfl, rfl⟩)
    | error => exact Or.inl ⟨rfl, hlt, Or.inl rfl⟩
    | data bytes =>
        dsimp only
        split
        next hnil => exact Or.inl ⟨rfl, hlt, Or.inr (by rw [hnil])⟩
        next hne =>
        have hlen := (hrecv bytes hr).length_le
        rw [List.length_drop] at hlen
        refine Or.inr (Or.inr (Or.inl ⟨bytes, hlt, rfl, hne, rfl, ⟨rfl, rfl, rfl⟩, ?_⟩))
        refine ⟨h.state, by omega, by omega, ?_, rfl, h.should_close, h.operands⟩
        show c - q.head.length + bytes.length = c + bytes.length - q.head.length
        omega
  · rw [if_neg hmore]
    have hfits := hcfg.respSize_le s
    obtain ⟨-, hlen⟩ := respText_whole hfits
    have htext : s.respText cfg = response cfg q s.req_no k := by
      have hops := congrArg (fun p => cfg.compute p.1 p.2) h.operands
      unfold Session.respText response
      dsimp only at hops ⊢
      rw [h.should_close, hops]
    refine Or.inr (Or.inr (Or.inr
      ⟨by omega, rfl, rfl, rfl, h.should_close, rfl, ⟨rfl, ?_, ?_, rfl, Nat.zero_le _⟩⟩))
    · exact (session_build_response_text calls hfits).trans htext
    · exact congrArg List.length htext

variable (cfg) in
/-- **In the response**: what is written is the next of it. -/
theorem Writing.iter {text : Bytes} {off : Nat} (h : Writing s text off) (calls : Calls)
    (hwrite : ∀ n, calls.write = .sent n → n ≤ text.length - off) :
    ((session_iter cfg s calls).2 = .close ∧ s.written calls = []
        ∧ ((off < text.length ∧ (calls.write = .error ∨ calls.write = .sent 0))
          ∨ s.should_close = true))
      ∨ (off < text.length ∧ (session_iter cfg s calls).2 = .wait ∧ s.written calls = []
        ∧ calls.write = .eagain ∧ (session_iter cfg s calls).1 = s)
      ∨ (∃ n, off < text.length ∧ calls.write = .sent n ∧ 0 < n
        ∧ (session_iter cfg s calls).2 = .again
        ∧ s.written calls = (text.drop off).take n
        ∧ Same s (session_iter cfg s calls).1
        ∧ (session_iter cfg s calls).1.should_close = s.should_close
        ∧ Writing (session_iter cfg s calls).1 text (off + n))
      ∨ (off = text.length ∧ s.should_close = false ∧ (session_iter cfg s calls).2 = .wait
        ∧ s.written calls = []
        ∧ (session_iter cfg s calls).1 = { session_reset_for_next cfg.libm s with
            events := if calls.epoll_mod_ok then .epollin else s.events }) := by
  have hiter : session_iter cfg s calls = session_write_resp cfg s calls := by
    unfold session_iter
    rw [h.state]
  have hle := h.le
  rw [hiter]
  unfold session_write_resp Session.written
  rw [h.state, h.resp_off, h.resp_len]
  by_cases hmore : off < text.length
  · rw [if_pos hmore, if_pos ⟨rfl, hmore⟩]
    cases hw : calls.write with
    | eagain => exact Or.inr (Or.inl ⟨hmore, rfl, rfl, rfl, rfl⟩)
    | error => exact Or.inl ⟨rfl, rfl, Or.inl ⟨hmore, Or.inl rfl⟩⟩
    | sent n =>
        have hn := hwrite n hw
        dsimp only
        split
        next hzero =>
          left
          rw [hzero]
          exact ⟨rfl, rfl, Or.inl ⟨hmore, Or.inr rfl⟩⟩
        next hzero =>
        refine Or.inr (Or.inr (Or.inl
          ⟨n, hmore, rfl, by omega, rfl, ?_, ⟨rfl, rfl, rfl⟩, rfl, ?_⟩))
        · -- the part lies within what has been announced
          rw [← h.resp, List.drop_take, List.take_take, h.resp_len, Nat.min_eq_left hn]
        · exact ⟨rfl, h.resp_len ▸ h.resp, rfl, rfl, by omega⟩
  · have hdone : ¬ (SessState.S_WRITE_RESP = .S_WRITE_RESP ∧ off < text.length) :=
      fun hand => hmore hand.2
    rw [if_neg hmore, if_neg hdone]
    cases hc : s.should_close with
    | true => exact Or.inl ⟨rfl, rfl, Or.inr rfl⟩
    | false => exact Or.inr (Or.inr (Or.inr ⟨by omega, rfl, rfl, rfl, rfl⟩))

end TlsMigration.BenchHttp
