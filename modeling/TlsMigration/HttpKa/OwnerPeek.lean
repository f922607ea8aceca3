/-
  TlsMigration.HttpKa.OwnerPeek
  ─────────────────────────────
  **THE PEEK AT THE OWNER, ONCE A REQUEST IS THERE**
  (`session_peek_owner`, sumprod-timing-fn-a/timing_fn_ka_worker.c).

  A whole request is in the socket, and the worker is called.  Each peek
  shows as much as it has room for.  What counts is that the call does not
  end with the session waiting for bytes that nobody is going to send.

    • `Working.step`         — an iteration of the call;
    • `owner_peek_progresses_iff` — the length of line up to which the worker
                               looks far enough.
-/
import TlsMigration.HttpKa.Capacity

namespace TlsMigration.HttpKa

open TlsMigration.Http TlsMigration.Handoff

/-! ## §1. A call. -/

/-- What a call of `session_advance` may have come to from `f` on. -/
inductive InCall (cfg : Config) (realloc_ok : Nat → Bool) (f : Flow) : Flow → Prop where
  | start : InCall cfg realloc_ok f f
  | iter {g : Flow} (c : Calls) : InCall cfg realloc_ok f g → g.mode = .running →
      g.Legal realloc_ok c → PeeksWhole g (.iter c) → InCall cfg realloc_ok f (g.iter cfg c)

/-- The session is closed, relayed or served, or the call goes on with the request; a
response that is still to be written waits for room, and not for bytes. -/
def Moved (f g : Flow) : Prop :=
  g.mode = .closed ∨ (∃ owner, g.mode = .relayed owner) ∨ f.s.req_no < g.s.req_no
    ∨ g.s.state = .write_response
    ∨ (g.mode = .running ∧ (g.s.state = .read_headers ∨ g.s.state = .read_body))

/-- A call in `WS_PEEK_OWNER` with all of the request `q` in the socket leaves that state. -/
def OwnerPeekProgresses (cfg : Config) (q : Request) : Prop :=
  ∀ (realloc_ok : Nat → Bool) (stream : Bytes) (f : Flow),
    (flowSystem cfg realloc_ok stream).Reachable f → f.mode = .running →
    f.s.state = .peek_owner → q.bytes <+: f.unread →
    ∀ g, InCall cfg realloc_ok f g → g = f ∨ Moved f g

/-! ## §2. What no iteration undoes. -/

section Iterations

variable (cfg : Config) (s : Session) (c : Calls)

/-- The counter of requests does not change but at the end of a response. -/
theorem session_build_response_kept :
    (session_build_response cfg s c).1.req_no = s.req_no
      ∧ (session_build_response cfg s c).1.cap = s.cap := by
  unfold session_build_response Session.notify
  dsimp only
  split
  · split <;> exact ⟨rfl, rfl⟩
  · split <;> exact ⟨rfl, rfl⟩

theorem session_headers_read_kept :
    (session_headers_read cfg s c).1.req_no = s.req_no
      ∧ (session_headers_read cfg s c).1.cap = s.cap := by
  unfold session_headers_read
  dsimp only
  split
  · exact ⟨rfl, rfl⟩
  · exact session_build_response_kept cfg _ c

theorem session_read_headers_kept :
    (session_read_headers cfg s c).1.req_no = s.req_no
      ∧ (PowerCap s.cap → PowerCap (session_read_headers cfg s c).1.cap) := by
  unfold session_read_headers
  cases hroom : ensure_capacity s.cap (4096 + 1) c.realloc_ok with
  | failed => exact ⟨rfl, id⟩
  | spins => exact ⟨rfl, id⟩
  | room cap =>
      have hcap : PowerCap s.cap → PowerCap cap := fun h => (ensure_capacity_power h hroom).1
      dsimp only
      split
      · exact ⟨rfl, hcap⟩
      · exact ⟨rfl, hcap⟩
      · split
        · exact ⟨rfl, hcap⟩
        · split
          · split
            · exact ⟨rfl, hcap⟩
            · exact ⟨rfl, hcap⟩
          · split
            · obtain ⟨hno, hsame⟩ := session_headers_read_kept cfg _ c
              rw [hno, hsame]
              exact ⟨rfl, hcap⟩
            · exact ⟨rfl, hcap⟩

theorem session_read_body_kept :
    (session_read_body cfg s c).1.req_no = s.req_no
      ∧ (PowerCap s.cap → PowerCap (session_read_body cfg s c).1.cap) := by
  unfold session_read_body
  dsimp only
  split
  · obtain ⟨hno, hsame⟩ := session_build_response_kept cfg s c
    rw [hno, hsame]
    exact ⟨rfl, id⟩
  · cases hroom : ensure_capacity s.cap (s.len + (s.body_target - s.body_in) + 1) c.realloc_ok with
    | failed => exact ⟨rfl, id⟩
    | spins => exact ⟨rfl, id⟩
    | room cap =>
        have hcap : PowerCap s.cap → PowerCap cap := fun h => (ensure_capacity_power h hroom).1
        dsimp only
        split
        · exact ⟨rfl, hcap⟩
        · exact ⟨rfl, hcap⟩
        · split
          · exact ⟨rfl, hcap⟩
          · split
            · exact ⟨rfl, hcap⟩
            · obtain ⟨hno, hsame⟩ := session_build_response_kept cfg _ c
              rw [hno, hsame]
              exact ⟨rfl, hcap⟩

theorem session_write_response_kept :
    s.req_no ≤ (session_write_response s c).1.req_no
      ∧ (session_write_response s c).1.cap = s.cap := by
  unfold session_write_response session_finish_response
  dsimp only
  split
  · split
    · exact ⟨Nat.le_refl _, rfl⟩
    · exact ⟨Nat.le_refl _, rfl⟩
    · split
      · exact ⟨Nat.le_refl _, rfl⟩
      · exact ⟨Nat.le_refl _, rfl⟩
  · split
    · exact ⟨Nat.le_refl _, rfl⟩
    · split
      · exact ⟨Nat.le_succ _, rfl⟩
      · exact ⟨Nat.le_succ _, rfl⟩

theorem session_peek_owner_kept :
    (session_peek_owner cfg s c).1.req_no = s.req_no
      ∧ (session_peek_owner cfg s c).1.cap = s.cap := by
  unfold session_peek_owner
  split
  · exact ⟨rfl, rfl⟩
  · exact ⟨rfl, rfl⟩
  · split
    · exact ⟨rfl, rfl⟩
    split
    · exact ⟨rfl, rfl⟩
    split
    · exact ⟨rfl, rfl⟩
    split
    · exact ⟨rfl, rfl⟩
    · exact ⟨rfl, rfl⟩

/-- **Requests are counted up, and the buffer stays a power of two.** -/
theorem session_iter_kept :
    s.req_no ≤ (session_iter cfg s c).1.req_no
      ∧ (PowerCap s.cap → PowerCap (session_iter cfg s c).1.cap) := by
  unfold session_iter
  cases s.state with
  | peek_owner =>
      obtain ⟨hno, hcap⟩ := session_peek_owner_kept cfg s c
      exact ⟨Nat.le_of_eq hno.symm, fun h => hcap ▸ h⟩
  | read_headers =>
      obtain ⟨hno, hcap⟩ := session_read_headers_kept cfg s c
      exact ⟨Nat.le_of_eq hno.symm, hcap⟩
  | read_body =>
      obtain ⟨hno, hcap⟩ := session_read_body_kept cfg s c
      exact ⟨Nat.le_of_eq hno.symm, hcap⟩
  | write_response =>
      obtain ⟨hno, hcap⟩ := session_write_response_kept s c
      exact ⟨hno, fun h => hcap ▸ h⟩

end Iterations

theorem Flow.reachable_cap {cfg : Config} {realloc_ok : Nat → Bool} {stream : Bytes} {f : Flow}
    (h : (flowSystem cfg realloc_ok stream).Reachable f) : PowerCap f.s.cap := by
  refine h.invariant (fun f => PowerCap f.s.cap) ?_ ?_
  · intro f hinit
    obtain ⟨fd, pipe_fd, hs⟩ := hinit.session
    rw [hs]
    exact PowerCap.start
  · intro f l f' hf hstep
    cases hstep with
    | arrive _ _ _ _ => exact hf
    | call _ => exact hf
    | iter c _ _ => exact (session_iter_kept cfg f.s c).2 hf

/-! ## §3. A call with a whole request in the socket. -/

/-- Where the call is with the request. -/
inductive Working (q : Request) (f g : Flow) : Prop where
  | ended : g.mode = .closed ∨ (∃ owner, g.mode = .relayed owner) → Working q f g
  | served : f.s.req_no < g.s.req_no → Working q f g
  | headers : g.mode = .running → g.s.state = .read_headers → g.s.req_no = f.s.req_no →
      q.bytes <+: g.unread → Working q f g
  /-- the rest of the body is there -/
  | body : g.mode = .running → g.s.state = .read_body → g.s.req_no = f.s.req_no →
      g.s.body_target - g.s.body_in ≤ g.unread.length → Working q f g
  | respond : g.s.state = .write_response → g.s.req_no = f.s.req_no → Working q f g

theorem Working.moved {q : Request} {f g : Flow} (h : Working q f g) : Moved f g := by
  cases h with
  | ended h =>
      rcases h with h | h
      · exact Or.inl h
      · exact Or.inr (Or.inl h)
  | served h => exact Or.inr (Or.inr (Or.inl h))
  | headers hrun hst _ _ => exact Or.inr (Or.inr (Or.inr (Or.inr ⟨hrun, Or.inl hst⟩)))
  | body hrun hst _ _ => exact Or.inr (Or.inr (Or.inr (Or.inr ⟨hrun, Or.inr hst⟩)))
  | respond hst _ => exact Or.inr (Or.inr (Or.inr (Or.inl hst)))

section Call

variable {cfg : Config} {realloc_ok : Nat → Bool} {q : Request} {f g : Flow} {c : Calls}

theorem session_build_response_state (cfg : Config) (s : Session) (c : Calls) :
    (session_build_response cfg s c).1.state = .write_response := by
  unfold session_build_response Session.notify
  dsimp only
  split
  · split <;> rfl
  · split <;> rfl

/-- A peek shows something of what is there. -/
theorem Whole.data {limit : Nat} {unread : Bytes} {r : Recv} (h : Whole limit unread r)
    (hne : unread ≠ []) : r = .data (unread.take limit) := by
  unfold Whole at h
  rwa [if_neg hne] at h

theorem bytes_ne_nil (h : q.bytes <+: g.unread) : g.unread ≠ [] := by
  intro hnil
  rw [hnil] at h
  have hlen := h.length_le
  rw [Request.bytes_length, List.length_nil] at hlen
  have hpos := q.four_lt_head
  omega

/-- A header block that was seen whole is taken out of the socket. -/
theorem taken_headers (hcap : PowerCap g.s.cap) (hst : g.s.state = .read_headers)
    {shown drained : Bytes} (hrecv : c.recv = .data shown) (hdrain : c.drain = .data drained)
    (hend : (headerEnd shown).isSome = true) : Flow.taken g.s c = drained.length := by
  unfold Flow.taken
  rw [hst, ensure_capacity_headers hcap, hrecv, hdrain]
  exact if_pos hend

/-- **The header block is there**: it is taken, or it does not fit. -/
theorem Working.read_headers (hcap : PowerCap g.s.cap) (hst : g.s.state = .read_headers)
    (hno : g.s.req_no = f.s.req_no) (hthere : q.bytes <+: g.unread)
    (hwhole : PeeksWhole g (.iter c)) : Working q f (g.iter cfg c) := by
  have hge := hcap.ge
  obtain ⟨hpeek, hdrain⟩ := hwhole.2 hst
  have hrecv := hpeek.data (bytes_ne_nil hthere)
  obtain ⟨more, hmore⟩ := hthere
  have hunread : g.unread = q.head ++ (q.body ++ more) := by
    rw [← hmore]
    exact List.append_assoc _ _ _
  have hiter : session_iter cfg g.s c = session_read_headers cfg g.s c := by
    unfold session_iter
    rw [hst]
  unfold Flow.iter
  rw [hiter]
  unfold session_read_headers
  rw [ensure_capacity_headers hcap, hrecv]
  dsimp only
  have hshown : g.unread.take (g.s.cap - 1) ≠ [] := by
    intro hnil
    have hlen := congrArg List.length hnil
    rw [List.length_take, hunread, List.length_append, List.length_nil] at hlen
    have hpos := q.four_lt_head
    omega
  rw [if_neg hshown]
  by_cases hfit : q.head.length ≤ g.s.cap - 1
  · have hend : headerEnd (g.unread.take (g.s.cap - 1)) = some (q.head.length - 4, 4) := by
      rw [hunread]
      exact headerEnd_head hfit _
    have hpos := q.four_lt_head
    have hsize : q.head.length - 4 + 4 = q.head.length := by omega
    -- the header block is read once more, this time out of the socket
    have hblock : c.drain = .data q.head := by
      have hdata := (hdrain _ _ _ hrecv hend).data (bytes_ne_nil ⟨more, hmore⟩)
      rw [hdata, hsize, hunread, List.take_left]
    have htaken : Flow.taken g.s c = q.head.length :=
      taken_headers hcap hst hrecv hblock (by rw [hend]; rfl)
    rw [hend, hblock, htaken]
    dsimp only
    unfold session_headers_read
    dsimp only
    rw [hsize]
    split
    next hbody =>
      -- the rest of the request is behind the header block
      refine .body rfl rfl hno ?_
      have hmem : poke (poke g.s.mem 0 (g.unread.take (g.s.cap - 1) ++ [Ch.nul])) 0
          (q.head ++ [Ch.nul])
          = q.head ++ (Ch.nul :: (poke g.s.mem 0 (g.unread.take (g.s.cap - 1) ++ [Ch.nul])).drop
            (q.head ++ [Ch.nul]).length) := by
        rw [poke_zero]
        simp
      show bodyLength (poke _ 0 (q.head ++ [Ch.nul])) q.head.length - 0
        ≤ (g.unread.drop q.head.length).length
      rw [hmem, bodyLength_head, hunread, List.drop_left, List.length_append]
      omega
    next =>
      refine .respond (session_build_response_state cfg _ c) ?_
      exact ((session_build_response_kept cfg _ c).1).trans hno
  · have hcut : g.unread.take (g.s.cap - 1) = q.head.take (g.s.cap - 1) := by
      rw [hunread]
      exact List.take_append_of_le_length (by omega)
    have hend : headerEnd (g.unread.take (g.s.cap - 1)) = none := by
      rw [hcut]
      unfold headerEnd
      rw [Request.crlfcrlf_partial (by omega), Request.lflf_partial]
      rfl
    -- the peek filled the buffer, and the empty line is not in it
    have hfull : g.s.cap - 1 ≤ (g.unread.take (g.s.cap - 1)).length := by
      rw [hcut, List.length_take]
      omega
    rw [hend]
    dsimp only
    rw [if_pos hfull]
    exact .ended (Or.inl rfl)

/-- **The body is there**: it is read on, until it is complete. -/
theorem Working.read_body (hst : g.s.state = .read_body) (hno : g.s.req_no = f.s.req_no)
    (hthere : g.s.body_target - g.s.body_in ≤ g.unread.length)
    (hlegal : g.Legal realloc_ok c) : Working q f (g.iter cfg c) := by
  have hiter : session_iter cfg g.s c = session_read_body cfg g.s c := by
    unfold session_iter
    rw [hst]
  have hanswers : ∀ s : Session, s.req_no = f.s.req_no → ∀ g' : Flow,
      g'.s = (session_build_response cfg s c).1 → Working q f g' := by
    intro s hs g' hg'
    refine .respond ?_ ?_
    · rw [hg']
      exact session_build_response_state cfg s c
    · rw [hg']
      exact (session_build_response_kept cfg s c).1.trans hs
  unfold Flow.iter
  rw [hiter]
  unfold session_read_body
  dsimp only
  by_cases hwant : g.s.body_target - g.s.body_in = 0
  · rw [if_pos hwant]
    exact hanswers g.s hno _ rfl
  rw [if_neg hwant]
  cases hroom : ensure_capacity g.s.cap (g.s.len + (g.s.body_target - g.s.body_in) + 1)
      c.realloc_ok with
  | failed => exact .ended (Or.inl rfl)
  | spins =>
      refine .body rfl hst hno ?_
      -- `ensure_capacity` does not return, so nothing is read
      have hnone : Flow.taken g.s c = 0 := by
        unfold Flow.taken
        rw [hst, hroom]
      show _ ≤ (g.unread.drop (Flow.taken g.s c)).length
      rw [hnone]
      exact hthere
  | room cap =>
      -- the body is there, so the read returns a part of it
      rcases hlegal.body hst (by omega) with ⟨hnil, -⟩ | ⟨n, hpos, hle, hin, hrecv⟩
      · rw [hnil, List.length_nil] at hthere
        omega
      · have hlen : (g.unread.take n).length = n := by
          rw [List.length_take]
          omega
        have hne : g.unread.take n ≠ [] := by
          intro hnil
          rw [hnil, List.length_nil] at hlen
          omega
        rw [hrecv]
        dsimp only
        rw [if_neg hne, hlen]
        split
        next hmore =>
          refine .body rfl hst hno ?_
          have htaken : Flow.taken g.s c = n := by
            unfold Flow.taken
            rw [hst, hroom, hrecv]
            dsimp only
            rw [if_neg hwant, hlen]
          show g.s.body_target - (g.s.body_in + n) ≤ (g.unread.drop (Flow.taken g.s c)).length
          rw [htaken, List.length_drop]
          omega
        next =>
          refine hanswers _ ?_ _ rfl
          exact hno

/-- **The response is written**: it waits for room, or is done. -/
theorem Working.write_response (hst : g.s.state = .write_response)
    (hno : g.s.req_no = f.s.req_no) (hlegal : g.Legal realloc_ok c) :
    Working q f (g.iter cfg c) := by
  have hiter : session_iter cfg g.s c = session_write_response g.s c := by
    unfold session_iter
    rw [hst]
  unfold Flow.iter
  rw [hiter]
  unfold session_write_response session_finish_response
  split
  · rcases hlegal.send hst with hsend | ⟨n, hpos, -, hsend⟩
    · rw [hsend]
      exact .respond hst hno
    · rw [hsend]
      dsimp only
      rw [if_neg (by omega)]
      exact .respond hst hno
  · dsimp only
    split
    · exact .ended (Or.inl rfl)
    · rw [if_pos hlegal.epoll_mod]
      refine .served ?_
      show f.s.req_no < g.s.req_no + 1
      omega

/-- **An iteration of the call.** -/
theorem Working.step (h : Working q f g) (hcap : PowerCap g.s.cap) (hrun : g.mode = .running)
    (hlegal : g.Legal realloc_ok c) (hwhole : PeeksWhole g (.iter c)) :
    Working q f (g.iter cfg c) := by
  cases h with
  | ended h =>
      rcases h with h | ⟨owner, h⟩
      · rw [hrun] at h
        cases h
      · rw [hrun] at h
        cases h
  | served h => exact .served (Nat.lt_of_lt_of_le h (session_iter_kept cfg g.s c).1)
  | headers _ hst hno hthere => exact .read_headers hcap hst hno hthere hwhole
  | body _ hst hno hthere => exact .read_body hst hno hthere hlegal
  | respond hst hno => exact .write_response hst hno hlegal

/-- A peek at all of the request shows the first bytes of the header block. -/
theorem peek_shows (hthere : q.bytes <+: g.unread) (hst : g.s.state = .peek_owner)
    (hwhole : PeeksWhole g (.iter c)) :
    ∃ rest, c.recv = .data ((q.head ++ rest).take PEEK_LEN) ∧ g.unread = q.head ++ rest := by
  have hrecv := (hwhole.1 hst).data (bytes_ne_nil hthere)
  obtain ⟨more, hmore⟩ := hthere
  refine ⟨q.body ++ more, ?_, ?_⟩
  · rw [hrecv, ← hmore]
    unfold Request.bytes
    rw [List.append_assoc]
  · rw [← hmore]
    exact List.append_assoc _ _ _

/-- **The peek**: with a line that it can show, the session goes on, is relayed or closed. -/
theorem Working.peek_owner (hline : q.line.length + 2 ≤ PEEK_LEN)
    (hst : g.s.state = .peek_owner) (hthere : q.bytes <+: g.unread)
    (hwhole : PeeksWhole g (.iter c)) : Working q g (g.iter cfg c) := by
  have hiter : session_iter cfg g.s c = session_peek_owner cfg g.s c := by
    unfold session_iter
    rw [hst]
  have htaken : Flow.taken g.s c = 0 := by
    unfold Flow.taken
    rw [hst]
  obtain ⟨rest, hrecv, -⟩ := peek_shows hthere hst hwhole
  have hlf := (q.lf_mem_take_iff rest PEEK_LEN).mpr hline
  have hne : (q.head ++ rest).take PEEK_LEN ≠ [] := List.ne_nil_of_mem hlf
  have hfound : ¬ memchr Ch.lf ((q.head ++ rest).take PEEK_LEN) = none := by
    rw [memchr_eq_none]
    exact fun h => h hlf
  unfold Flow.iter
  rw [hiter, htaken]
  unfold session_peek_owner
  rw [hrecv]
  dsimp only
  rw [if_neg hne, if_neg hfound]
  -- the name in the line decides
  split
  · exact .ended (Or.inl rfl)
  · split
    · exact .headers rfl rfl rfl hthere
    · exact .ended (Or.inr ⟨_, rfl⟩)

end Call

/-! ## §4. How long a line may be. -/

theorem InCall.working {cfg : Config} {realloc_ok : Nat → Bool} {q : Request} {f g : Flow}
    (h : InCall cfg realloc_ok f g) (hline : q.line.length + 2 ≤ PEEK_LEN)
    (hcap : PowerCap f.s.cap) (hst : f.s.state = .peek_owner) (hthere : q.bytes <+: f.unread) :
    (g = f ∨ Working q f g) ∧ PowerCap g.s.cap := by
  induction h with
  | start => exact ⟨Or.inl rfl, hcap⟩
  | @iter g c _ hrun hlegal hwhole ih =>
      obtain ⟨hplace, hcap'⟩ := ih
      -- only the first iteration of a call peeks for this request
      refine ⟨Or.inr ?_, (session_iter_kept cfg g.s c).2 hcap'⟩
      rcases hplace with rfl | hworking
      · exact .peek_owner hline hst hthere hwhole
      · exact hworking.step hcap' hrun hlegal hwhole

/-- The request has arrived, and the worker has just got the connection. -/
def arrivedWhole (q : Request) : Flow :=
  ⟨session_new 5 none, .running, q.bytes, [], 0, [], !q.bytes.isEmpty⟩

theorem arrivedWhole_reachable (cfg : Config) (realloc_ok : Nat → Bool) (q : Request) :
    (flowSystem cfg realloc_ok q.bytes).Reachable (arrivedWhole q) :=
  .init ⟨⟨5, none, rfl⟩, rfl, List.append_nil _, rfl, rfl, rfl⟩

/-- A peek that shows all it can. -/
def fullPeek (q : Request) : Calls where
  recv := .data (q.bytes.take PEEK_LEN)
  drain := .eagain
  send := .eagain
  realloc_ok := fun _ => true
  epoll_mod_ok := true

/-- A peek that leaves the session and the socket as they were. -/
structure PeeksInVain (cfg : Config) (q : Request) : Prop where
  legal : (arrivedWhole q).Legal (fun _ => true) (fullPeek q)
  whole : PeeksWhole (arrivedWhole q) (.iter (fullPeek q))
  session : ((arrivedWhole q).iter cfg (fullPeek q)).s = (arrivedWhole q).s
  mode : ((arrivedWhole q).iter cfg (fullPeek q)).mode = .waiting
  unread : ((arrivedWhole q).iter cfg (fullPeek q)).unread = q.bytes

/-- The line feed of a longer line is behind the 1023 bytes. -/
theorem peek_of_long_line (cfg : Config) {q : Request} (hline : PEEK_LEN < q.line.length + 2) :
    PeeksInVain cfg q := by
  have hpos := q.four_lt_head
  have hlen : q.bytes.length = q.head.length + q.body.length := Request.bytes_length
  have hlong : PEEK_LEN ≤ q.bytes.length := by
    have hhead : (block [q.line]).length ≤ q.head.length := by
      show _ ≤ (block (q.line :: (q.headers ++ [[]]))).length
      rw [block_cons, block_cons]
      simp
    rw [block_cons] at hhead
    simp only [block_nil, List.length_append, List.length_cons, List.length_nil] at hhead
    omega
  have hne : q.bytes ≠ [] := by
    intro hnil
    rw [hnil, List.length_nil] at hlen
    omega
  have hpeek : PEEK_LEN = 1023 := rfl
  have hnone : memchr Ch.lf (q.bytes.take PEEK_LEN) = none := by
    rw [memchr_eq_none]
    unfold Request.bytes
    rw [Request.lf_mem_take_iff]
    omega
  have hshown : q.bytes.take PEEK_LEN ≠ [] := by
    intro hnil
    have hzero := congrArg List.length hnil
    rw [List.length_take, List.length_nil] at hzero
    omega
  have hrun : session_iter cfg (arrivedWhole q).s (fullPeek q)
      = ((arrivedWhole q).s, .ret 0) := by
    show session_peek_owner cfg (session_new 5 none) (fullPeek q) = _
    unfold session_peek_owner fullPeek
    dsimp only
    rw [if_neg hshown, if_pos hnone]
    rfl
  constructor
  · constructor
    · exact fun _ => Or.inr ⟨PEEK_LEN, by omega, Nat.le_refl _, hlong, rfl⟩
    · exact nofun
    · exact nofun
    · exact nofun
    · exact nofun
    · rfl
    · rfl
  · refine ⟨fun _ => ?_, nofun⟩
    unfold Whole
    exact (if_neg hne).symm
  · unfold Flow.iter
    rw [hrun]
  · unfold Flow.iter
    rw [hrun]
    rfl
  · rfl

/-- **With a longer line the session waits**: for the line feed, which is there. -/
theorem waits_for_long_line (cfg : Config) {q : Request} (hline : PEEK_LEN < q.line.length + 2) :
    ¬ OwnerPeekProgresses cfg q := by
  intro h
  -- the call returns 0, with the session as it was
  have hstuck := peek_of_long_line cfg hline
  rcases h (fun _ => true) q.bytes (arrivedWhole q) (arrivedWhole_reachable cfg _ q) rfl rfl
      List.prefix_rfl _ (.iter (fullPeek q) .start rfl hstuck.legal hstuck.whole) with heq | hmoved
  · have hmode := hstuck.mode
    rw [heq] at hmode
    cases hmode
  · unfold Moved at hmoved
    rw [hstuck.session, hstuck.mode] at hmoved
    rcases hmoved with hm | ⟨owner, hm⟩ | hm | hm | ⟨hm, -⟩
    · cases hm
    · cases hm
    · exact absurd hm (Nat.lt_irrefl _)
    · cases hm
    · cases hm

/-- **A call in `WS_PEEK_OWNER` leaves that state, for a request that is all there**, exactly
when its line and the line's CR LF fit the 1023 bytes of the peek. -/
theorem owner_peek_progresses_iff (cfg : Config) (q : Request) :
    OwnerPeekProgresses cfg q ↔ q.line.length + 2 ≤ PEEK_LEN := by
  constructor
  · intro h
    by_contra hlong
    exact waits_for_long_line cfg (Nat.lt_of_not_le hlong) h
  · intro hline realloc_ok stream f hreach _ hst hthere g hcall
    obtain ⟨hplace, -⟩ := hcall.working hline (Flow.reachable_cap hreach) hst hthere
    rcases hplace with heq | hworking
    · exact Or.inl heq
    · exact Or.inr hworking.moved

/-- A request with 1100 bytes of query. -/
def longLine : Request where
  line := ascii "GET /function/sum-a?" ++ List.replicate 1100 120 ++ ascii " HTTP/1.1"
  headers := []
  body := []
  isLine := by
    intro l hl
    rw [List.mem_singleton.mp hl]
    unfold IsLine
    decide +kernel
  declares := Or.inr ⟨rfl, by decide +kernel⟩

/-- **A long line is waited for**: the request of `longLine` is all there, and the call leaves the
session as it was. -/
theorem owner_peek_waits :
    ¬ OwnerPeekProgresses sumA longLine
      ∧ InCall sumA (fun _ => true) (arrivedWhole longLine)
        ((arrivedWhole longLine).iter sumA (fullPeek longLine))
      ∧ ((arrivedWhole longLine).iter sumA (fullPeek longLine)).mode = .waiting
      ∧ ((arrivedWhole longLine).iter sumA (fullPeek longLine)).s.state = .peek_owner
      ∧ ((arrivedWhole longLine).iter sumA (fullPeek longLine)).unread = longLine.bytes := by
  have hlong : PEEK_LEN < longLine.line.length + 2 := by decide +kernel
  have hstuck := peek_of_long_line sumA hlong
  refine ⟨waits_for_long_line sumA hlong,
    .iter (fullPeek longLine) .start rfl hstuck.legal hstuck.whole, hstuck.mode, ?_, ?_⟩
  · rw [hstuck.session]
    rfl
  · exact hstuck.unread

end TlsMigration.HttpKa
