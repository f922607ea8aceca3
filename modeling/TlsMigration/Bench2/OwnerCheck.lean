/-
  TlsMigration.Bench2.OwnerCheck
  ──────────────────────────────
  **WHO IS ANSWERED: THE OWNER CHECK OVER WHOLE RUNS.**

  One worker session against a client that may send any records with any
  content, in any order of arrivals and events, with every outcome of every
  call.  The stream is cut into requests by the requests themselves: a
  request starts where the one before it ended (`unframed`).

    • `owner_checked`             — where every response completes with
      nothing of a later request read and without an owner hint, no request
      for another function is answered and a relayed one is unread;
    • `owner_hint_skips_check`    — with a hint the next request is answered
      whatever it names.
-/
import TlsMigration.Lib.Transition
import TlsMigration.Bench2.Wire

namespace TlsMigration.Bench2

open TlsMigration.Tlspeek TlsMigration.Http

variable {F S : Type*}

/-! ## §1. The system. -/

/-- A session, the stream under it, and what it has answered: for each 200 response
the bytes of the stream from the request's start on, and the request's number. -/
structure Conn (F S : Type*) where
  s : Session F S
  wire : Wire
  phase : Phase
  unframed : Bytes
  answered : List (Bytes × Nat)

inductive Label (S : Type*) where
  | arrive (r : Record)
  | call (c : Calls S)

/-- The stream from the start of the current request on, after an iteration. -/
def unframedAfter (s s' : Session F S) (c : Calls S) (unframed : Bytes) : Bytes :=
  if s'.req_no = s.req_no then unframed ++ readBytes s c
  else unframed.drop (s.hdr_sz + s.body_target)

/-- The entry of a response that has just been built. -/
def answeredNow (s s' : Session F S) (unframed : Bytes) : List (Bytes × Nat) :=
  if s.state ≠ .write_response ∧ s'.state = .write_response then [(unframed, s'.req_no)] else []

/-- The state after an iteration that ends with `s'` and `ctl`. -/
def Conn.move (st : Conn F S) (c : Calls S) (w' : Wire) (r : Session F S × Ctl) : Conn F S where
  s := r.1
  wire := w'
  phase := .ofCtl r.2
  unframed := unframedAfter st.s r.1 c st.unframed
  answered := st.answered
    ++ answeredNow st.s r.1 (unframedAfter st.s r.1 c st.unframed)

inductive Conn.Step (cfg : Config F) : Conn F S → Label S → Conn F S → Prop where
  | arrive {st : Conn F S} (r : Record) : st.phase = .live →
      Step cfg st (.arrive r)
        { st with wire := { st.wire with kernel := st.wire.kernel ++ [r] } }
  | call {st : Conn F S} (c : Calls S) (w' : Wire) : st.phase = .live →
      Answers st.s st.wire c w' →
      Step cfg st (.call c) (st.move c w' (session_iter cfg st.s c))

/-- A session just restored: the first request is the one the gateway routed. -/
def Conn.start (cfg : Config F) (fd : Nat) (serial : S) : Conn F S where
  s := session_new cfg fd serial
  wire := ⟨[], []⟩
  phase := .live
  unframed := []
  answered := []

def ownerSystem (cfg : Config F) : TransitionSystem (Conn F S) (Label S) where
  init st := ∃ fd serial, st = Conn.start cfg fd serial
  step := Conn.Step cfg

/-! ## §2. The property and its condition. -/

/-- After the first request, whatever is answered names this worker or nobody, and
whatever is relayed names somebody else and is still unread. -/
structure OwnerChecked (cfg : Config F) (st : Conn F S) : Prop where
  answered : ∀ b k, (b, k) ∈ st.answered → 2 ≤ k →
    ∀ name, NamesFunction (requestLine b) name → name = cfg.s_function_name
  relayed : ∀ owner, st.phase = .relayed owner → 2 ≤ st.s.req_no →
    owner ≠ cfg.s_function_name ∧ st.unframed = [] ∧ st.wire.plain = []
      ∧ ∃ r ks name, st.wire.kernel = r :: ks
        ∧ NamesFunction (requestLine r.content) name ∧ owner = cstr name

/-- The condition on the state before a step.  A response that completes had no owner
hint, and nothing of a later request has been read, neither into the session's
buffer nor into wolfSSL; and a function name that is peeked at holds no NUL. -/
structure Ordinary (st : Conn F S) : Prop where
  complete : st.s.state = .write_response → st.s.resp.length ≤ st.s.resp_off →
    st.s.single_owner_hint = false ∧ st.wire.plain = []
      ∧ st.unframed.length ≤ st.s.hdr_sz + st.s.body_target
  peek : st.s.state = .peek_owner → ∀ r ks name, st.wire.kernel = r :: ks →
    NamesFunction (requestLine r.content) name → Ch.nul ∉ name

/-- The condition asks nothing of an arrival. -/
def StartsOrdinary (st : Conn F S) : Label S → Prop
  | .arrive _ => True
  | .call _ => Ordinary st

/-! ## §3. The invariant. -/

/-- The request line that starts `b` names this worker. -/
def OwnLine (cfg : Config F) (b : Bytes) : Prop :=
  NamesFunction (requestLine b) cfg.s_function_name

theorem OwnLine.append {cfg : Config F} {b : Bytes} (h : OwnLine cfg b) (q : Bytes) :
    OwnLine cfg (b ++ q) := by
  obtain ⟨more, hmore⟩ := requestLine_append b q
  unfold OwnLine
  rw [hmore]
  exact NamesFunction.append h more

/-- A line that is complete in the first part is decided there. -/
theorem OwnLine.of_append {cfg : Config F} {b q : Bytes} (hlf : Ch.lf ∈ b)
    (h : OwnLine cfg (b ++ q)) : OwnLine cfg b := by
  unfold OwnLine at h ⊢
  rwa [requestLine_append_of_mem hlf] at h

/-- What each state of the machine knows of the current request. -/
def StateInv (cfg : Config F) (st : Conn F S) : Prop :=
  match st.s.state with
  | .peek_owner => st.unframed = [] ∧ st.wire.plain = []
  | .read_headers => st.unframed = st.s.buf
      ∧ (OwnLine cfg (st.s.buf ++ st.wire.plain)
        ∨ (st.s.buf = [] ∧ st.wire.plain = []
          ∧ ∃ r ks, st.wire.kernel = r :: ks ∧ OwnLine cfg r.content))
  | .read_body => OwnLine cfg st.unframed
  | .write_response => OwnLine cfg st.unframed

structure Inv (cfg : Config F) (st : Conn F S) : Prop where
  checked : OwnerChecked cfg st
  numbered : 1 ≤ st.s.req_no
  state : st.phase = .live → 2 ≤ st.s.req_no → StateInv cfg st

theorem Inv.start (cfg : Config F) (fd : Nat) (serial : S) :
    Inv cfg (Conn.start cfg fd serial) where
  checked :=
    { answered := by simp [Conn.start]
      relayed := by simp [Conn.start] }
  numbered := le_refl 1
  state := by
    intro _ h
    exact absurd h (by simp [Conn.start, session_new])

/-! ## §4. One step. -/

section Step

variable {cfg : Config F} {st : Conn F S} {c : Calls S} {w' : Wire}

/-- New records do not disturb what is known. -/
theorem Inv.arrive (h : Inv cfg st) (hlive : st.phase = .live) (r : Record) :
    Inv cfg { st with wire := { st.wire with kernel := st.wire.kernel ++ [r] } } where
  checked :=
    { answered := h.checked.answered
      relayed := fun owner ho => absurd (hlive.symm.trans ho) (by simp) }
  numbered := h.numbered
  state := by
    intro _ hreq
    have hs := h.state hlive hreq
    unfold StateInv at hs ⊢
    cases hst : st.s.state with
    | peek_owner =>
        simp only [hst] at hs ⊢
        exact hs
    | read_headers =>
        simp only [hst] at hs ⊢
        obtain ⟨hbuf, hown | ⟨hb, hp, r', ks, hk, hown⟩⟩ := hs
        · exact ⟨hbuf, Or.inl hown⟩
        · exact ⟨hbuf, Or.inr ⟨hb, hp, r', ks ++ [r], by rw [hk]; rfl, hown⟩⟩
    | read_body =>
        simp only [hst] at hs ⊢
        exact hs
    | write_response =>
        simp only [hst] at hs ⊢
        exact hs

/-- What has to be shown of an iteration that does not relay. -/
theorem Inv.move (h : Inv cfg st) {s' : Session F S} {ctl : Ctl}
    (hctl : ∀ owner, ctl ≠ .relay owner) (hnum : st.s.req_no ≤ s'.req_no)
    (hown : st.s.state ≠ .write_response → s'.state = .write_response → 2 ≤ s'.req_no →
      OwnLine cfg (unframedAfter st.s s' c st.unframed))
    (hstate : Phase.ofCtl ctl = .live → 2 ≤ s'.req_no →
      StateInv cfg (st.move c w' (s', ctl))) :
    Inv cfg (st.move c w' (s', ctl)) where
  checked :=
    { answered := by
        intro b k hmem hk name hname
        simp only [Conn.move, List.mem_append] at hmem
        rcases hmem with hmem | hmem
        · exact h.checked.answered b k hmem hk name hname
        · unfold answeredNow at hmem
          split at hmem
          next hnow =>
            rw [List.mem_singleton] at hmem
            injection hmem with hb hk'
            subst hb hk'
            exact hname.unique (hown hnow.1 hnow.2 hk)
          next => cases hmem
      relayed := by
        intro owner ho
        exfalso
        cases ctl with
        | again => simp [Conn.move, Phase.ofCtl] at ho
        | ret rc =>
            simp only [Conn.move, Phase.ofCtl] at ho
            split at ho <;> cases ho
        | relay owner' => exact hctl owner' rfl }
  numbered := Nat.le_trans h.numbered hnum
  state := hstate

/-- The peek: the owner of the next record decides. -/
theorem Inv.peek_owner (h : Inv cfg st) (hlive : st.phase = .live)
    (hst : st.s.state = .peek_owner) (hgood : Ordinary st)
    (hans : Answers st.s st.wire c w') :
    Inv cfg (st.move c w' (session_iter cfg st.s c)) := by
  have hread : readBytes st.s c = [] := by simp only [readBytes, hst]
  have hiter : session_iter cfg st.s c = session_peek_owner cfg st.s c := by
    simp only [session_iter, hst]
  unfold Answers at hans
  simp only [hst] at hans
  obtain ⟨rfl, hpeeks⟩ := hans
  have hkeep : ∀ s' : Session F S, s'.req_no = st.s.req_no →
      unframedAfter st.s s' c st.unframed = st.unframed := by
    intro s' hs'
    simp only [unframedAfter, hs', if_true, hread, List.append_nil]
  rw [hiter, session_peek_owner]
  split
  · -- no complete record
    refine h.move (by simp) (Nat.le_refl _) (fun _ h' => absurd (hst.symm.trans h') (by simp))
      fun _ hreq => ?_
    have hs := h.state hlive hreq
    simp only [StateInv, hst] at hs
    simp only [StateInv, Conn.move, hst, hkeep st.s rfl]
    exact hs
  next hready =>
    obtain ⟨r, ks, hk, hpeek⟩ := hpeeks (by omega)
    split
    next =>
      refine h.move (by simp) (Nat.le_refl _) (fun _ h' => absurd (hst.symm.trans h') (by simp))
        fun hphase => ?_
      simp [Phase.ofCtl] at hphase
    next owner howner =>
      -- the owner is what the record's own line names
      obtain ⟨want, b, name, hb, hname, rfl⟩ := peekOwnerLoop_some howner
      have hcontent : NamesFunction (requestLine r.content) name := by
        apply names_content_of_peeked
        rcases hpeek want with h' | h'
        · rw [h'] at hb
          cases hb
        · rw [h'] at hb
          injection hb with hb
          rw [hb]
          exact (parse_request_owner_iff.mp hname).1
      have hnul := hgood.peek hst r ks name hk hcontent
      split
      next heq =>
        refine h.move (by simp) (Nat.le_refl _)
          (fun _ h' => by simp [session_reset_request] at h') fun _ hreq => ?_
        obtain ⟨hu, hp⟩ : st.unframed = [] ∧ st.wire.plain = [] := by
          have hs := h.state hlive hreq
          simpa only [StateInv, hst] using hs
        have hown : OwnLine cfg r.content := by
          rw [cstr_of_no_nul hnul] at heq
          rw [OwnLine, ← heq]
          exact hcontent
        show _ ∧ _
        exact ⟨(hkeep _ rfl).trans hu, Or.inr ⟨rfl, hp, r, ks, hk, hown⟩⟩
      next hne =>
        refine ⟨⟨?_, ?_⟩, h.numbered, ?_⟩
        · intro b' k hmem
          have hno : answeredNow st.s st.s (unframedAfter st.s st.s c st.unframed) = [] := by
            simp [answeredNow, hst]
          simp only [Conn.move, hno, List.append_nil] at hmem
          exact h.checked.answered b' k hmem
        · intro owner ho hreq
          simp only [Conn.move, Phase.ofCtl, Phase.relayed.injEq] at ho
          subst ho
          obtain ⟨hu, hp⟩ : st.unframed = [] ∧ st.wire.plain = [] := by
            have hs := h.state hlive hreq
            simpa only [StateInv, hst] using hs
          exact ⟨hne, by simpa only [Conn.move, hkeep st.s rfl] using hu, hp, r, ks, name, hk,
            hcontent, rfl⟩
        · intro hphase
          simp [Conn.move, Phase.ofCtl] at hphase

/-- Reading headers. -/
theorem Inv.read_headers (h : Inv cfg st) (hlive : st.phase = .live)
    (hst : st.s.state = .read_headers) (hans : Answers st.s st.wire c w') :
    Inv cfg (st.move c w' (session_iter cfg st.s c)) := by
  have hiter : session_iter cfg st.s c = session_read_headers cfg st.s c := by
    simp only [session_iter, hst]
  unfold Answers at hans
  simp only [hst] at hans
  rw [hiter]
  cases hc : c.read with
  | none err =>
      have hw : w' = st.wire := by simpa only [Wire.Reads, hc] using hans
      subst hw
      have hread : readBytes st.s c = [] := by simp only [readBytes, hst, hc]
      obtain ⟨cap, events, rc, hres⟩ := session_read_headers_none cfg st.s hc
      rw [hres]
      refine h.move (by simp) (Nat.le_refl _)
        (fun _ h' => absurd (hst.symm.trans h') (by simp)) fun _ hreq => ?_
      have hs := h.state hlive hreq
      simp only [StateInv, hst] at hs
      simp only [StateInv, Conn.move, hst, unframedAfter, if_true, hread, List.append_nil]
      exact hs
  | data d =>
      have hd : st.wire.Data 8192 d w' := by simpa only [Wire.Reads, hc] using hans
      have hread : readBytes st.s c = d := by simp only [readBytes, hst, hc]
      have hkeep : ∀ s' : Session F S, s'.req_no = st.s.req_no →
          unframedAfter st.s s' c st.unframed = st.unframed ++ d := by
        intro s' hs'
        simp only [unframedAfter, hs', if_true, hread]
      -- the bytes read continue a line that names this worker
      have hbuf : 2 ≤ st.s.req_no →
          st.unframed = st.s.buf ∧ OwnLine cfg (st.s.buf ++ d ++ w'.plain) := by
        intro hreq
        have hs := h.state hlive hreq
        simp only [StateInv, hst] at hs
        obtain ⟨hu, hown | ⟨hb, hp, r, ks, hk, hown⟩⟩ := hs
        · obtain ⟨more, hmore⟩ := hd.extends_plain
          refine ⟨hu, ?_⟩
          rw [List.append_assoc, hmore, ← List.append_assoc]
          exact hown.append more
        · have hne : r.content ≠ [] := by
            intro hnil
            obtain ⟨method, more, rest, hline, -⟩ := hown
            rw [hnil] at hline
            simp [requestLine] at hline
          obtain ⟨hfirst, -⟩ := hd.first hne hp hk
          refine ⟨hu, ?_⟩
          rw [hb, List.nil_append, hfirst]
          exact hown
      rcases session_read_headers_data cfg st.s hc with hres | ⟨cap, hres⟩
      · rw [hres]
        refine h.move (by simp) (Nat.le_refl _)
          (fun _ h' => absurd (hst.symm.trans h') (by simp)) fun hphase => ?_
        simp [Phase.ofCtl] at hphase
      · rw [hres]
        rcases session_headers_read_cases cfg (st.s.received cap d) c with
          ⟨-, hagain⟩ | ⟨hdr_sz, s', ctl, hend, hres', ⟨rfl, -, hnum, hs'⟩ | hdone⟩
        · rw [hagain]
          refine h.move (by simp) (Nat.le_refl _)
            (fun _ h' => absurd (hst.symm.trans h') (by simp)) fun _ hreq => ?_
          obtain ⟨hu, hown⟩ := hbuf hreq
          simp only [StateInv, Conn.move, Session.received, hst]
          exact ⟨(hkeep _ rfl).trans (by rw [hu]), Or.inl hown⟩
        · rw [hres']
          refine h.move (by simp) (Nat.le_of_eq hnum.symm)
            (fun _ h' => ?_) fun hphase => by simp [Phase.ofCtl] at hphase
          rcases hs' with e | e
          · exact absurd (h'.symm.trans (e.trans hst)) (by simp)
          · exact absurd (h'.symm.trans e) (by simp)
        · have hnum : s'.req_no = st.s.req_no := hdone.req_no_eq
          have hline : 2 ≤ s'.req_no → OwnLine cfg (unframedAfter st.s s' c st.unframed) := by
            intro hreq
            obtain ⟨hu, hown⟩ := hbuf (hnum ▸ hreq)
            rw [hkeep _ hnum, hu]
            exact hown.of_append (lf_mem_of_headerEnd hend)
          rw [hres']
          refine h.move ?_ (Nat.le_of_eq hnum.symm) (fun _ _ => hline) fun _ hreq => ?_
          · rcases hdone.state_eq with ⟨-, e⟩ | ⟨-, rc, e⟩ <;> simp [e]
          · rcases hdone.state_eq with ⟨e, -⟩ | ⟨e, -⟩
            · simp only [StateInv, Conn.move, e]
              exact hline hreq
            · simp only [StateInv, Conn.move, e]
              exact hline hreq

/-- Draining the body. -/
theorem Inv.read_body (h : Inv cfg st) (hlive : st.phase = .live)
    (hst : st.s.state = .read_body) :
    Inv cfg (st.move c w' (session_iter cfg st.s c)) := by
  have hiter : session_iter cfg st.s c = session_read_body cfg st.s c := by
    simp only [session_iter, hst]
  -- what is read behind a line leaves the line as it is
  have hline : ∀ s' : Session F S, s'.req_no = st.s.req_no → 2 ≤ s'.req_no →
      OwnLine cfg (unframedAfter st.s s' c st.unframed) := by
    intro s' hs' hreq
    have hs := h.state hlive (hs' ▸ hreq)
    simp only [StateInv, hst] at hs
    simp only [unframedAfter, hs', if_true]
    exact hs.append _
  rw [hiter, session_read_body]
  split
  · split
    · refine h.move (by simp) (Nat.le_refl _)
        (fun _ h' => absurd (hst.symm.trans h') (by simp)) fun _ hreq => ?_
      simp only [StateInv, Conn.move, hst]
      exact hline _ rfl hreq
    next err herr =>
      obtain ⟨events, rc, hw, hrc⟩ := wolfssl_want_cases st.s err c.epoll_mod_ok
      rw [hw]
      refine h.move (by simp [ctlOf, hrc]) (Nat.le_refl _)
        (fun _ h' => absurd (hst.symm.trans h') (by simp)) fun _ hreq => ?_
      simp only [StateInv, Conn.move, hst]
      exact hline _ rfl hreq
  · rcases session_build_response_cases cfg st.s c with hres | ⟨resp, events, rc, -, hres⟩
    · rw [hres]
      refine h.move (by simp) (Nat.le_refl _)
        (fun _ h' => absurd (hst.symm.trans h') (by simp)) fun hphase => ?_
      simp [Phase.ofCtl] at hphase
    · rw [hres]
      refine h.move (by simp) (Nat.le_refl _) (fun _ _ hreq => hline _ rfl hreq) fun _ hreq => ?_
      simp only [StateInv, Conn.move]
      exact hline _ rfl hreq

/-- Writing the response, and what follows it. -/
theorem Inv.write_response (h : Inv cfg st) (hlive : st.phase = .live)
    (hst : st.s.state = .write_response) (hgood : Ordinary st)
    (hans : Answers st.s st.wire c w') :
    Inv cfg (st.move c w' (session_iter cfg st.s c)) := by
  have hiter : session_iter cfg st.s c = session_flush_response cfg st.s c := by
    simp only [session_iter, hst]
  have hread : readBytes st.s c = [] := by simp only [readBytes, hst]
  unfold Answers at hans
  simp only [hst] at hans
  obtain ⟨rfl, -⟩ := hans
  have hstay : ∀ s' : Session F S, s'.req_no = st.s.req_no → s'.state = .write_response →
      ∀ ctl, 2 ≤ s'.req_no → StateInv cfg (st.move c st.wire (s', ctl)) := by
    intro s' hnum hstate ctl hreq
    have hs := h.state hlive (hnum ▸ hreq)
    simp only [StateInv, hst] at hs
    simp only [StateInv, Conn.move, hstate, unframedAfter, hnum, if_true, hread, List.append_nil]
    exact hs
  rw [hiter, session_flush_response]
  split
  · split
    · exact h.move (by simp) (Nat.le_refl _) (fun h' => absurd hst h')
        fun _ hreq => hstay _ rfl hst .again hreq
    next err herr =>
      obtain ⟨events, rc, hw, hrc⟩ := wolfssl_want_cases st.s err c.epoll_mod_ok
      rw [hw]
      exact h.move (by simp [ctlOf, hrc]) (Nat.le_refl _) (fun h' => absurd hst h')
        fun _ hreq => hstay _ rfl hst (ctlOf rc) hreq
  next hdone =>
    obtain ⟨hhint, hplain, hlen⟩ := hgood.complete hst (by omega)
    rcases session_finish_response_cases cfg st.s c with
      ⟨s', hres, -, hnum⟩ | ⟨serial, -, -, hres⟩
    · rw [hres]
      refine h.move (by simp) hnum (fun h' => absurd hst h') fun hphase => ?_
      simp [Phase.ofCtl] at hphase
    · rw [hres]
      refine h.move (by rw [hhint]; simp) (Nat.le_succ _) (fun h' => absurd hst h')
        fun _ _ => ?_
      simp only [StateInv, Conn.move, Session.completed, session_reset_request, hhint,
        Bool.false_eq_true, if_false]
      refine ⟨?_, hplain⟩
      have hnum : ¬ st.s.req_no + 1 = st.s.req_no := by omega
      simp only [unframedAfter, hnum, if_false]
      exact List.drop_of_length_le hlen

/-- **One step keeps the invariant**, if the state before it is ordinary. -/
theorem Inv.step {st st' : Conn F S} {a : Label S} (h : Inv cfg st)
    (hstep : Conn.Step cfg st a st') (hgood : StartsOrdinary st a) : Inv cfg st' := by
  cases hstep with
  | arrive r hlive => exact h.arrive hlive r
  | call c w' hlive hans =>
      cases hst : st.s.state with
      | peek_owner => exact h.peek_owner hlive hst hgood hans
      | read_headers => exact h.read_headers hlive hst hans
      | read_body => exact h.read_body hlive hst
      | write_response => exact h.write_response hlive hst hgood hans

end Step

/-! ## §5. Whole runs. -/

/-- **Ownership is checked before every answer**, in every run whose steps start in
ordinary states: after the first request nothing that names another function is
answered, and what is relayed is unread. -/
theorem owner_checked (cfg : Config F) {st : Conn F S}
    (h : ((ownerSystem cfg).restrict StartsOrdinary).Reachable st) :
    OwnerChecked cfg st := by
  have hinv : Inv cfg st := by
    refine h.invariant (Inv cfg) ?_ ?_
    · rintro _ ⟨fd, serial, rfl⟩
      exact Inv.start cfg fd serial
    · rintro st a st' hinv ⟨hstep, hgood⟩
      exact hinv.step hstep hgood
  exact hinv.checked

/-! ## §6. The hint. -/

/-- A worker called `a`. -/
def workerA : Config Unit := .point (ascii "a")

/-- A request for function `a` that asks for the direct path. -/
def hintRecord : Record := ⟨ascii "G /function/a \nX-Bench2-Single-Owner:1\n\n", 0⟩

/-- A request for function `a` without a hint. -/
def plainRecord : Record := ⟨ascii "G /function/a \n\n", 0⟩

/-- A request for function `b`. -/
def otherRecord : Record := ⟨ascii "G /function/b \n\n", 0⟩

/-- Calls that succeed: a read gives the record, a write takes what is left. -/
def okCalls (r : Record) : Calls Unit where
  realloc_ok := true
  read := .data r.content
  write := .wrote 768
  epoll_mod_ok := true
  serial := some ()
  pending := 0
  ready := 1
  peek := fun want => some (r.peeked.take want)

def Conn.arrived (st : Conn Unit Unit) (r : Record) : Conn Unit Unit :=
  { st with wire := { st.wire with kernel := st.wire.kernel ++ [r] } }

/-- An iteration of the worker `a` in which all calls succeed, leaving the stream `w'`. -/
def Conn.called (st : Conn Unit Unit) (r : Record) (w' : Wire) : Conn Unit Unit :=
  st.move (okCalls r) w' (session_iter workerA st.s (okCalls r))

/-- A record that is all there is: read and answered, and the response written. -/
def Conn.served (st : Conn Unit Unit) (r : Record) : Conn Unit Unit :=
  (((st.arrived r).called r ⟨[], []⟩).called r ⟨[], []⟩).called r ⟨[], []⟩

theorem served_wire (st : Conn Unit Unit) (r : Record) : (st.served r).wire = ⟨[], []⟩ := rfl

theorem arrived_phase (st : Conn Unit Unit) (r : Record) : (st.arrived r).phase = st.phase := rfl

theorem arrived_s (st : Conn Unit Unit) (r : Record) : (st.arrived r).s = st.s := rfl

/-- The session is writing its response and all it has read belongs to the request. -/
def Conn.Writing (st : Conn Unit Unit) : Prop :=
  st.phase = .live ∧ st.s.state = .write_response ∧ st.wire.plain = []
    ∧ st.unframed.length ≤ st.s.hdr_sz + st.s.body_target

/-- The states that one request goes through. -/
def Conn.Serves (st : Conn Unit Unit) (r : Record) : Prop :=
  ((st.arrived r).called r ⟨[], []⟩).Writing
    ∧ (((st.arrived r).called r ⟨[], []⟩).called r ⟨[], []⟩).Writing

instance (st : Conn Unit Unit) : Decidable st.Writing :=
  inferInstanceAs (Decidable (_ ∧ _ ∧ _ ∧ _))

instance (st : Conn Unit Unit) (r : Record) : Decidable (st.Serves r) :=
  inferInstanceAs (Decidable (_ ∧ _))

/-- One whole request of the worker `a`, in runs whose steps meet `T`. -/
theorem reachable_served {T : Conn Unit Unit → Label Unit → Prop} {st : Conn Unit Unit}
    {r : Record} (h : ((ownerSystem workerA).restrict T).Reachable st)
    (hr : r.content ≠ [] ∧ r.content.length ≤ 8192) (hwire : st.wire = ⟨[], []⟩)
    (hlive : st.phase = .live) (hstate : st.s.state = .read_headers) (hserves : st.Serves r)
    (hT : T st (.arrive r) ∧ T (st.arrived r) (.call (okCalls r))
      ∧ T ((st.arrived r).called r ⟨[], []⟩) (.call (okCalls r))
      ∧ T (((st.arrived r).called r ⟨[], []⟩).called r ⟨[], []⟩) (.call (okCalls r))) :
    ((ownerSystem workerA).restrict T).Reachable (st.served r) := by
  obtain ⟨⟨hlive₁, hstate₁, -⟩, ⟨hlive₂, hstate₂, -⟩⟩ := hserves
  have harr : ((ownerSystem workerA).restrict T).Reachable (st.arrived r) :=
    .step h ⟨.arrive r hlive, hT.1⟩
  have hread : ((ownerSystem workerA).restrict T).Reachable
      ((st.arrived r).called r ⟨[], []⟩) := by
    refine .step harr ⟨.call (okCalls r) ⟨[], []⟩ ((arrived_phase st r).trans hlive) ?_, hT.2.1⟩
    have hw : (st.arrived r).wire = ⟨[], [r]⟩ := by simp [Conn.arrived, hwire]
    simp only [Answers, arrived_s, hstate, hw, Wire.Reads, okCalls]
    have hall : Wire.Data ⟨r.content ++ [], []⟩ 8192 r.content ⟨[], []⟩ := .take hr.1 hr.2
    rw [List.append_nil] at hall
    exact .next hall
  have hwrite : ∀ {st : Conn Unit Unit}, st.wire = ⟨[], []⟩ → st.s.state = .write_response →
      Answers st.s st.wire (okCalls r) ⟨[], []⟩ := by
    intro st hw hs
    simp only [Answers, hs, hw]
    exact ⟨trivial, rfl⟩
  exact .step (.step hread ⟨.call (okCalls r) ⟨[], []⟩ hlive₁ (hwrite rfl hstate₁), hT.2.2.1⟩)
    ⟨.call (okCalls r) ⟨[], []⟩ hlive₂ (hwrite rfl hstate₂), hT.2.2.2⟩

/-- The worker `a` before its first request. -/
def freshA : Conn Unit Unit := Conn.start workerA 5 ()

theorem freshA_reachable (T : Conn Unit Unit → Label Unit → Prop) :
    ((ownerSystem workerA).restrict T).Reachable freshA := .init ⟨5, (), rfl⟩

/-- A request without a hint leaves the session peeking. -/
theorem freshA_serves_plain :
    freshA.Serves plainRecord
      ∧ ((freshA.arrived plainRecord).called plainRecord ⟨[], []⟩).s.single_owner_hint = false
      ∧ (((freshA.arrived plainRecord).called plainRecord ⟨[], []⟩).called plainRecord
          ⟨[], []⟩).s.single_owner_hint = false
      ∧ (freshA.served plainRecord).phase = .live
      ∧ (freshA.served plainRecord).s.state = .peek_owner := by
  decide +kernel

theorem freshA_served_ordinary :
    ((ownerSystem workerA).restrict StartsOrdinary).Reachable (freshA.served plainRecord) := by
  obtain ⟨hserves, hhint₁, hhint₂, -⟩ := freshA_serves_plain
  have hreading : Ordinary (freshA.arrived plainRecord) :=
    ⟨(fun h => by cases h), (fun h => by cases h)⟩
  have hwriting : ∀ {st : Conn Unit Unit}, st.Writing → st.s.single_owner_hint = false →
      Ordinary st :=
    fun ⟨_, hstate, hplain, hlen⟩ hhint =>
      ⟨fun _ _ => ⟨hhint, hplain, hlen⟩, fun h => absurd (hstate.symm.trans h) (by simp)⟩
  exact reachable_served (freshA_reachable _) (by decide) rfl rfl rfl hserves
    ⟨trivial, hreading, hwriting hserves.1 hhint₁, hwriting hserves.2 hhint₂⟩

theorem names_otherRecord : NamesFunction (requestLine otherRecord.content) (ascii "b") :=
  (parse_request_owner_iff.mp
    (show parse_request_owner otherRecord.content 128 = some (ascii "b") by decide)).1

/-- The worker `a` peeks at a request for `b`. -/
theorem reachable_peeked {st : Conn Unit Unit}
    (h : ((ownerSystem workerA).restrict StartsOrdinary).Reachable st)
    (hwire : st.wire = ⟨[], []⟩) (hlive : st.phase = .live) (hstate : st.s.state = .peek_owner) :
    ((ownerSystem workerA).restrict StartsOrdinary).Reachable
      ((st.arrived otherRecord).called otherRecord ⟨[], [otherRecord]⟩) := by
  have hw : (st.arrived otherRecord).wire = ⟨[], [otherRecord]⟩ := by
    simp [Conn.arrived, hwire]
  have hpeeks : Wire.Peeks ⟨[], [otherRecord]⟩ (okCalls otherRecord).peek :=
    ⟨otherRecord, [], rfl, fun want => Or.inr rfl⟩
  have hans : Answers (st.arrived otherRecord).s (st.arrived otherRecord).wire
      (okCalls otherRecord) ⟨[], [otherRecord]⟩ := by
    rw [hw]
    exact answers_peek hstate hpeeks
  have hordinary : Ordinary (st.arrived otherRecord) := by
    refine ⟨fun h => absurd (hstate.symm.trans h) (by simp), fun _ r ks name hk hname => ?_⟩
    rw [hw] at hk
    injection hk with hr _
    rw [← hr] at hname
    rw [hname.unique names_otherRecord]
    decide
  exact .step (.step h ⟨.arrive otherRecord hlive, trivial⟩) ⟨.call _ _ hlive hans, hordinary⟩

/-- A request for `b` after a request for `a`: peeked at, relayed, unread. -/
theorem owner_checked_relayed :
    OwnerChecked workerA
      (((freshA.served plainRecord).arrived otherRecord).called otherRecord
        ⟨[], [otherRecord]⟩) := by
  obtain ⟨-, -, -, hphase, hstate⟩ := freshA_serves_plain
  exact owner_checked workerA
    (reachable_peeked freshA_served_ordinary (served_wire _ _) hphase hstate)

/-- A request with a hint leaves the session reading, and it serves the next one too. -/
theorem freshA_serves_hint :
    freshA.Serves hintRecord ∧ (freshA.served hintRecord).phase = .live
      ∧ (freshA.served hintRecord).s.state = .read_headers
      ∧ (freshA.served hintRecord).Serves otherRecord
      ∧ ((freshA.served hintRecord).served otherRecord).phase = .live
      ∧ (otherRecord.content, 2) ∈ ((freshA.served hintRecord).served otherRecord).answered := by
  decide +kernel

/-- **The hint skips the check**: the worker `a` answers a request for `b` that follows
a request with `X-Bench2-Single-Owner: 1`. -/
theorem owner_hint_skips_check :
    ∃ st : Conn Unit Unit, (ownerSystem workerA).Reachable st ∧ st.phase = .live
      ∧ (otherRecord.content, 2) ∈ st.answered
      ∧ NamesFunction (requestLine otherRecord.content) (ascii "b")
      ∧ ¬ OwnerChecked workerA st := by
  obtain ⟨hserves, hlive, hstate, hserves', hlive', hanswered⟩ := freshA_serves_hint
  have hfirst : ((ownerSystem workerA).restrict fun _ _ => True).Reachable
      (freshA.served hintRecord) :=
    reachable_served (freshA_reachable _) (by decide) rfl rfl rfl hserves (by simp)
  have hboth := reachable_served hfirst (by decide) (served_wire _ _) hlive hstate hserves'
    (by simp)
  refine ⟨_, hboth.of_restrict, hlive', hanswered, names_otherRecord, fun h => ?_⟩
  exact absurd (h.answered _ _ hanswered (by decide) _ names_otherRecord) (by decide)

end TlsMigration.Bench2
