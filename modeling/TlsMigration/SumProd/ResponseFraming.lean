/-
  TlsMigration.SumProd.ResponseFraming
  ────────────────────────────────────
  **THE RESPONSES OF THE VANILLA SUM AND PRODUCT FUNCTIONS, READ BACK AS HTTP**
  (`session_build_response`, sumprod-vanilla-fn-a/vanilla_fn_worker.c).

  A body that is not two integers is echoed in the JSON text, which is cut at
  511 bytes.  The length header gives what `snprintf` returns, which is the
  length before the cut.

    • `framed_respText_iff`      — when the header and the text agree;
    • `vanilla_response_in_step_iff` — the bodies with which they do;
    • `sent_in_step`             — while they do, what a connection has been
                                   sent is one response after the other.
-/
import TlsMigration.Lib.Transition
import TlsMigration.Http.Response
import TlsMigration.SumProd.Session

namespace TlsMigration.SumProd

open TlsMigration.Http
open TlsMigration.HttpKa (scanTwo showInt toInt)

/-! ## §1. Lengths. -/

/-- The bytes of the error text around the body. -/
def ERROR_OVERHEAD : Nat := 74

theorem toInt_bounds (v : Int) : -2147483648 ≤ toInt v ∧ toInt v < 2147483648 := by
  unfold toInt
  have hlo := Int.le_bmod (x := v) (m := 2 ^ 32) (by decide)
  have hhi := Int.bmod_lt (x := v) (m := 2 ^ 32) (by decide)
  omega

theorem ascii_length (t : String) : (ascii t).length = t.length := by
  unfold ascii
  rw [List.length_map, String.length_toList]

/-- An `int` has at most ten digits and a sign. -/
theorem showInt_length (v : Int) : (showInt (toInt v)).length ≤ 11 := by
  obtain ⟨hlo, hhi⟩ := toInt_bounds v
  unfold showInt
  rw [ascii_length]
  generalize toInt v = w at *
  cases w with
  | ofNat n =>
      have hn : n.repr.length ≤ 10 := (Nat.length_repr_le_iff (by decide)).mpr (by
        simp only [Int.ofNat_eq_natCast] at hhi
        omega)
      show n.repr.length ≤ 11
      omega
  | negSucc n =>
      have hn : (n + 1).repr.length ≤ 10 := (Nat.length_repr_le_iff (by decide)).mpr (by
        omega)
      show ("-" ++ (n + 1).repr).length ≤ 11
      rw [String.length_append]
      show 1 + _ ≤ 11
      omega

theorem showInt_ofNat (n : Nat) : showInt (n : Int) = ascii (toString n) := rfl

theorem jsonText_length_some {cfg : Config} {body : Bytes} (h : (scanTwo body).isSome) :
    (jsonText cfg body).length < 512 := by
  obtain ⟨⟨num1, num2⟩, hscan⟩ := Option.isSome_iff_exists.mp h
  unfold jsonText
  rw [hscan]
  dsimp only
  have hint := showInt_length (if cfg.s_is_product then num1 * num2 else num1 + num2)
  simp only [List.length_append]
  show 37 + _ + 3 < 512
  omega

theorem jsonText_length_none {cfg : Config} {body : Bytes} (h : scanTwo body = none) :
    (jsonText cfg body).length = ERROR_OVERHEAD + body.length := by
  unfold jsonText
  rw [h]
  dsimp only
  simp only [List.length_append]
  show 70 + _ + 4 = 74 + _
  omega

theorem jsonText_fits_iff (cfg : Config) (body : Bytes) :
    (jsonText cfg body).length < 512
      ↔ (scanTwo body).isSome ∨ ERROR_OVERHEAD + body.length < 512 := by
  cases hscan : scanTwo body with
  | some nums =>
      have hsome := @jsonText_length_some cfg body (Option.isSome_iff_exists.mpr ⟨nums, hscan⟩)
      simpa using hsome
  | none =>
      rw [jsonText_length_none hscan]
      simp

/-! ## §2. The response, line by line. -/

def okStatus : Bytes := ascii "HTTP/1.1 200 OK"

def responseHeaders (jl : Int) (close : Bool) : List Bytes :=
  [ascii "Content-Type: application/json", ascii "Content-Length: " ++ showInt jl,
    ascii "Connection: " ++ connectionValue close]

theorem respText_eq (jl : Int) (json : Bytes) (close : Bool) :
    respText jl json close = block ((okStatus :: responseHeaders jl close) ++ [[]]) ++ json := by
  have hmid : ascii "\r\nConnection: " = Ch.cr :: Ch.lf :: ascii "Connection: " := rfl
  unfold respText
  rw [ascii_start, hmid, ascii_crlfcrlf, connectionValue_eq]
  simp [responseHeaders, okStatus]

/-- With at most 11 digits and 511 bytes of text the response is not cut. -/
theorem respText_length {jl : Int} {json : Bytes} (close : Bool) (hjl : (showInt jl).length ≤ 11)
    (hjson : json.length ≤ 511) : (respText jl json close).length < 768 := by
  have hvalue : (ascii (if close = true then "close" else "keep-alive")).length ≤ 10 := by
    cases close <;> decide +kernel
  unfold respText
  simp only [List.length_append]
  show 65 + _ + 14 + _ + 4 + _ < 768
  omega

theorem isLine_showInt (n : Nat) : IsLine (showInt (n : Int)) := isLine_toString n

theorem isHeader_responseHeaders {jl : Int} (hjl : IsLine (showInt jl)) (close : Bool) :
    ∀ l ∈ responseHeaders jl close, IsHeader l := by
  intro l hl
  simp only [responseHeaders, List.mem_cons, List.not_mem_nil, or_false] at hl
  rcases hl with rfl | rfl | rfl
  · exact isHeader_type
  · exact isHeader_length hjl
  · exact isHeader_connection close

theorem fields_connection (n : Nat) (close : Bool) :
    fields connection (responseHeaders (n : Int) close) = [connectionValue close] := by
  have hlength : fieldOf connection (ascii "Content-Length: " ++ showInt n) = none := rfl
  have hlast : fieldOf connection (ascii "Connection: " ++ connectionValue close)
      = some (connectionValue close) := by
    cases close <;> decide +kernel
  unfold fields responseHeaders
  rw [List.filterMap_cons, fieldOf_type, List.filterMap_cons, hlength, List.filterMap_cons, hlast]
  rfl

/-- **The header and the text agree exactly when the header gives the text's length.** -/
theorem framed_respText_iff (n : Nat) (json : Bytes) (close : Bool) :
    Framed (respText n json close) close ↔ json.length = n := by
  have hlast : fields contentLength [ascii "Connection: " ++ connectionValue close] = [] := by
    cases close <;> decide +kernel
  have hone : OneLength (responseHeaders (n : Int) close) n := oneLength_mid n fields_type hlast
  rw [respText_eq]
  unfold okStatus
  rw [framed_iff isStatus_ok (isHeader_responseHeaders (isLine_showInt n) close),
    fields_connection]
  constructor
  · intro ⟨hlen, _⟩
    exact hlen.unique hone
  · intro hlen
    rw [hlen]
    exact ⟨hone, rfl⟩

/-- A length of -1 is no length. -/
theorem unframed_negative (json : Bytes) (close : Bool) :
    ¬ Framed (respText (-1) json close) close := by
  have hline : IsLine (showInt (-1)) := by decide +kernel
  have hfields : fields contentLength (responseHeaders (-1) close) = [ascii "-1"] := by
    cases close <;> decide +kernel
  rw [respText_eq]
  unfold okStatus
  rw [framed_iff isStatus_ok (isHeader_responseHeaders hline close)]
  intro ⟨hlen, _⟩
  obtain ⟨ds, hds, -, hdigits, -⟩ := hlen
  rw [hfields] at hds
  obtain ⟨rfl, -⟩ := List.cons.inj hds
  exact absurd (hdigits Ch.minus (by decide +kernel)) (by decide)

/-! ## §3. Framing. -/

/-- What `session_build_response` leaves to be sent: a text of at most 511 bytes, behind headers
that give the length before the cut. -/
theorem session_build_response_spec (cfg : Config) (s : Session) (c : Calls) :
    ∃ jl json, (session_build_response cfg s c).1.resp = respText jl json s.should_close
      ∧ (session_build_response cfg s c).1.resp_len = (respText jl json s.should_close).length
      ∧ (respText jl json s.should_close).length < 768
      ∧ ((jl = (jsonText cfg s.rawBody).length ∧ json = (jsonText cfg s.rawBody).take 511)
        ∨ (jl = -1 ∧ INT_MAX < (jsonText cfg s.rawBody).length)) := by
  obtain ⟨jl, json, hprintf, hjl, hjson, hcase⟩ : ∃ jl json,
      snprintf cfg 512 (jsonText cfg s.rawBody) = (json, jl) ∧ (showInt jl).length ≤ 11
        ∧ json.length ≤ 511
        ∧ ((jl = (jsonText cfg s.rawBody).length ∧ json = (jsonText cfg s.rawBody).take 511)
          ∨ (jl = -1 ∧ INT_MAX < (jsonText cfg s.rawBody).length)) := by
    unfold snprintf
    split
    next hle =>
      refine ⟨_, _, rfl, ?_, List.length_take_le _ _, Or.inl ⟨rfl, rfl⟩⟩
      rw [showInt_ofNat, ascii_length]
      have hrepr : (jsonText cfg s.rawBody).length.repr.length ≤ 10 :=
        (Nat.length_repr_le_iff (by decide)).mpr (by
          unfold INT_MAX at hle
          omega)
      exact Nat.le_succ_of_le hrepr
    next hlt =>
      exact ⟨_, _, rfl, by decide +kernel, List.length_take_le _ _, Or.inr ⟨rfl, by omega⟩⟩
  have hlen := respText_length s.should_close hjl hjson
  have hwhole : snprintf cfg 768 (respText jl json s.should_close)
      = (respText jl json s.should_close, ((respText jl json s.should_close).length : Int)) := by
    unfold snprintf INT_MAX
    rw [if_pos (by omega), List.take_of_length_le (by omega)]
  have hcast : (((respText jl json s.should_close).length : Int) % 2 ^ 64).toNat
      = (respText jl json s.should_close).length := by omega
  refine ⟨jl, json, ?_, ?_, hlen, hcase⟩
  · unfold session_build_response
    dsimp only
    rw [hprintf, hwhole]
    unfold epoll_mod_fd
    split <;> rfl
  · unfold session_build_response
    dsimp only
    rw [hprintf, hwhole]
    unfold epoll_mod_fd
    split <;> exact hcast

/-- What is to be sent lies in the buffer, and is one response. -/
def InStep (s s' : Session) : Prop :=
  s'.resp_len ≤ 768 ∧ Framed (s'.resp.take s'.resp_len) s.should_close

theorem in_step_iff_fits (cfg : Config) (s : Session) (c : Calls) :
    InStep s (session_build_response cfg s c).1 ↔ (jsonText cfg s.rawBody).length < 512 := by
  obtain ⟨jl, json, hresp, hlen, hsmall, hcase⟩ := session_build_response_spec cfg s c
  unfold InStep
  rw [hresp, hlen, List.take_length]
  rcases hcase with ⟨rfl, rfl⟩ | ⟨rfl, hbig⟩
  · rw [framed_respText_iff, List.length_take]
    omega
  · constructor
    · intro ⟨_, hframed⟩
      exact absurd hframed (unframed_negative json s.should_close)
    · intro hlt
      unfold INT_MAX at hbig
      omega

/-- **Responses of the vanilla functions.**  The response is in step exactly when the body is two
integers, or is so short that its error text fits. -/
theorem vanilla_response_in_step_iff (cfg : Config) (s : Session) (c : Calls) :
    InStep s (session_build_response cfg s c).1
      ↔ (scanTwo s.rawBody).isSome ∨ ERROR_OVERHEAD + s.rawBody.length < 512 := by
  rw [in_step_iff_fits, jsonText_fits_iff]

/-- All calls succeed. -/
def goodCalls : Calls where
  recv := .eagain
  send := .eagain
  realloc_ok := fun _ => true
  epoll_mod_ok := true

/-- A request with 438 letters. -/
def lettersRequest : Bytes :=
  ascii "POST / HTTP/1.1\r\nContent-Length: 438\r\n\r\n" ++ List.replicate 438 120

/-- The sum function, when the request has come in one piece. -/
def lettersRead : Session :=
  (session_iter ⟨false, []⟩ session_new { goodCalls with recv := .data lettersRequest }).1

/-- 438 letters: the error text has 512 bytes, and 511 of them are sent. -/
theorem long_body_out_of_step :
    lettersRead.rawBody = List.replicate 438 120 ∧ lettersRead.body_in = lettersRead.body_target
      ∧ (jsonText ⟨false, []⟩ lettersRead.rawBody).length = 512
      ∧ ¬ InStep lettersRead (session_iter ⟨false, []⟩ lettersRead goodCalls).1 := by
  refine ⟨by decide +kernel, by decide +kernel, by decide +kernel, ?_⟩
  have hbuild : session_iter ⟨false, []⟩ lettersRead goodCalls
      = session_build_response ⟨false, []⟩ lettersRead goodCalls := by
    decide +kernel
  rw [hbuild, in_step_iff_fits]
  decide +kernel

/-! ## §4. A connection. -/

/-- A session, and what its client has been sent. -/
structure Conn where
  s : Session
  sent : Bytes

/-- What the `send` of an iteration takes. -/
def sentBy (s : Session) (c : Calls) : Bytes :=
  match s.state, c.send with
  | .write_response, .sent n => if s.resp_off < s.resp_len then (s.resp.drop s.resp_off).take n else []
  | _, _ => []

/-- `send` takes no more than it is given. -/
def Calls.Legal (c : Calls) (s : Session) : Prop :=
  ∀ n, c.send = .sent n → n ≤ s.resp_len - s.resp_off

/-- Iterations, one after the other, until one closes the session. -/
def connSystem (cfg : Config) : TransitionSystem Conn Calls where
  init k := k = ⟨session_new, []⟩
  step k c k' := c.Legal k.s ∧ (session_iter cfg k.s c).2 ≠ .ret (-1)
    ∧ k' = ⟨(session_iter cfg k.s c).1, k.sent ++ sentBy k.s c⟩

/-- Once the whole body is there, it is one that is answered in step. -/
def Answerable (k : Conn) (_ : Calls) : Prop :=
  k.s.state = .read_body → k.s.body_target ≤ k.s.body_in →
    (scanTwo k.s.rawBody).isSome ∨ ERROR_OVERHEAD + k.s.rawBody.length < 512

/-- What has been sent is whole responses, and a part of the one that is being sent. -/
def SentInStep (k : Conn) : Prop :=
  ∃ rs : List Response,
    k.sent = (rs.map Response.bytes).flatten
        ++ (if k.s.state = .write_response then k.s.resp.take k.s.resp_off else [])
      ∧ (k.s.state = .write_response → (∃ r : Response, r.bytes = k.s.resp)
        ∧ k.s.resp_len = k.s.resp.length ∧ k.s.resp_off ≤ k.s.resp_len)

theorem session_read_headers_state {s : Session} (hs : s.state = .read_headers) (c : Calls) :
    (session_read_headers s c).1.state ≠ .write_response := by
  have hne : s.state ≠ .write_response := by
    rw [hs]
    decide
  unfold session_read_headers
  split
  · exact hne
  · exact hne
  · dsimp only
    split
    · exact hne
    · exact hne
    · split
      · exact hne
      · unfold session_parse_headers
        split
        · exact hne
        · intro h
          cases h

theorem session_read_body_state {cfg : Config} {s : Session} (hs : s.state = .read_body) (c : Calls)
    (hmore : s.body_in < s.body_target) :
    (session_read_body cfg s c).1.state ≠ .write_response := by
  have hne : s.state ≠ .write_response := by
    rw [hs]
    decide
  unfold session_read_body
  rw [if_pos hmore]
  split
  · exact hne
  · exact hne
  · dsimp only
    split
    · exact hne
    · exact hne
    · split <;> exact hne

/-- Nothing is sent while a request is read. -/
theorem SentInStep.reading {k : Conn} {s' : Session} (h : SentInStep k)
    (hs : k.s.state ≠ .write_response) (hs' : s'.state ≠ .write_response) (c : Calls) :
    SentInStep ⟨s', k.sent ++ sentBy k.s c⟩ := by
  obtain ⟨rs, hsent, -⟩ := h
  have hnone : sentBy k.s c = [] := by
    unfold sentBy
    split
    next hw _ => exact absurd hw hs
    next => rfl
  refine ⟨rs, ?_, fun h => absurd h hs'⟩
  show k.sent ++ sentBy k.s c = _
  rw [hsent, hnone, if_neg hs, if_neg hs']
  simp

/-- A response is built, and nothing of it has been sent. -/
theorem SentInStep.build {cfg : Config} {k : Conn} {c : Calls} (h : SentInStep k)
    (hs : k.s.state = .read_body) (hstep : InStep k.s (session_build_response cfg k.s c).1) :
    SentInStep ⟨(session_build_response cfg k.s c).1, k.sent ++ sentBy k.s c⟩ := by
  obtain ⟨rs, hsent, -⟩ := h
  obtain ⟨jl, json, hresp, hlen, -, -⟩ := session_build_response_spec cfg k.s c
  have hoff : (session_build_response cfg k.s c).1.resp_off = 0
      ∧ (session_build_response cfg k.s c).1.state = .write_response := by
    unfold session_build_response epoll_mod_fd
    dsimp only
    split <;> exact ⟨rfl, rfl⟩
  have hwhole : (session_build_response cfg k.s c).1.resp_len
      = (session_build_response cfg k.s c).1.resp.length := by
    rw [hlen, hresp]
  have hnone : sentBy k.s c = [] := by
    unfold sentBy
    rw [hs]
  obtain ⟨-, r, hr, -⟩ := hstep
  rw [hwhole, List.take_length] at hr
  refine ⟨rs, ?_, fun _ => ⟨⟨r, hr⟩, hwhole, by rw [hoff.1]; exact Nat.zero_le _⟩⟩
  show k.sent ++ sentBy k.s c = _
  rw [hsent, hnone, hs, if_pos hoff.2, hoff.1]
  simp

/-- `send` takes a part of what is left, or the response is complete. -/
theorem SentInStep.write {k : Conn} {c : Calls} (h : SentInStep k)
    (hs : k.s.state = .write_response) (hlegal : c.Legal k.s)
    (hopen : (session_write_response k.s c).2 ≠ .ret (-1)) :
    SentInStep ⟨(session_write_response k.s c).1, k.sent ++ sentBy k.s c⟩ := by
  obtain ⟨rs, hsent, hw⟩ := h
  obtain ⟨⟨r, hr⟩, hlen, hle⟩ := hw hs
  rw [if_pos hs] at hsent
  unfold session_write_response at hopen ⊢
  by_cases hmore : k.s.resp_off < k.s.resp_len
  · rw [if_pos hmore] at hopen ⊢
    cases hsend : c.send with
    | eagain =>
        have hnone : sentBy k.s c = [] := by
          unfold sentBy
          rw [hs, hsend]
        rw [hnone, List.append_nil]
        refine ⟨rs, ?_, fun _ => ⟨⟨r, hr⟩, hlen, hle⟩⟩
        show k.sent = _ ++ (if k.s.state = .write_response then _ else _)
        rw [if_pos hs]
        exact hsent
    | error =>
        rw [hsend] at hopen
        exact absurd rfl hopen
    | sent n =>
        rw [hsend] at hopen
        dsimp only at hopen ⊢
        by_cases hzero : n = 0
        · rw [if_pos hzero] at hopen
          exact absurd rfl hopen
        · rw [if_neg hzero]
          have hn := hlegal n hsend
          have hpart : sentBy k.s c = (k.s.resp.drop k.s.resp_off).take n := by
            unfold sentBy
            rw [hs, hsend]
            dsimp only
            rw [if_pos hmore]
          refine ⟨rs, ?_, fun _ => ⟨⟨r, hr⟩, hlen, ?_⟩⟩
          · show k.sent ++ sentBy k.s c
                = _ ++ (if k.s.state = .write_response then k.s.resp.take (k.s.resp_off + n) else _)
            rw [if_pos hs, hsent, hpart, List.append_assoc, ← List.take_add]
          · show k.s.resp_off + n ≤ k.s.resp_len
            omega
  · rw [if_neg hmore] at hopen ⊢
    have hnone : sentBy k.s c = [] := by
      unfold sentBy
      rw [hs]
      cases c.send with
      | sent n =>
          dsimp only
          rw [if_neg hmore]
      | eagain => rfl
      | error => rfl
    have hdone : k.s.resp.take k.s.resp_off = r.bytes := by
      rw [hr, List.take_of_length_le (by omega)]
    unfold session_finish_response epoll_mod_fd at hopen ⊢
    by_cases hclose : k.s.should_close = true
    · rw [if_pos hclose] at hopen
      exact absurd rfl hopen
    · rw [if_neg hclose] at hopen ⊢
      cases hepoll : c.epoll_mod_ok with
      | false =>
          rw [hepoll] at hopen
          exact absurd rfl hopen
      | true =>
          refine ⟨rs ++ [r], ?_, fun h => by cases h⟩
          show k.sent ++ sentBy k.s c = _ ++ []
          rw [hsent, hnone, hdone]
          simp

/-- **The client stays in step.**  While every body is answerable when it is complete, what a
connection has been sent is one response after the other. -/
theorem sent_in_step {cfg : Config} {k : Conn}
    (h : ((connSystem cfg).restrict Answerable).Reachable k) : SentInStep k := by
  refine h.invariant SentInStep ?_ ?_
  · intro k hinit
    subst hinit
    exact ⟨[], rfl, fun h => by cases h⟩
  · intro k c k' hk hstep
    obtain ⟨⟨hlegal, hopen, rfl⟩, hgood⟩ := hstep
    unfold session_iter at hopen ⊢
    cases hs : k.s.state with
    | read_headers =>
        exact hk.reading (by rw [hs]; decide) (session_read_headers_state hs c) c
    | read_body =>
        by_cases hmore : k.s.body_in < k.s.body_target
        · exact hk.reading (by rw [hs]; decide) (session_read_body_state hs c hmore) c
        · have hbuild : session_read_body cfg k.s c = session_build_response cfg k.s c := by
            unfold session_read_body
            rw [if_neg hmore]
          dsimp only
          rw [hbuild]
          have hfits := (jsonText_fits_iff cfg k.s.rawBody).mpr (hgood hs (Nat.not_lt.mp hmore))
          exact hk.build hs ((in_step_iff_fits cfg k.s c).mpr hfits)
    | write_response =>
        rw [hs] at hopen
        exact hk.write hs hlegal hopen

/-- The connection after an iteration. -/
def Conn.after (cfg : Config) (k : Conn) (c : Calls) : Conn :=
  ⟨(session_iter cfg k.s c).1, k.sent ++ sentBy k.s c⟩

/-- An iteration that `send` has no part in, or takes `n` bytes of. -/
theorem Conn.reachable_after {cfg : Config} {k : Conn}
    (h : ((connSystem cfg).restrict Answerable).Reachable k) {recv : HttpKa.Recv} {n : Nat}
    (hn : n ≤ k.s.resp_len - k.s.resp_off)
    (hopen : (session_iter cfg k.s { goodCalls with recv := recv, send := .sent n }).2 ≠ .ret (-1))
    (hbody : k.s.state = .read_body → k.s.body_target ≤ k.s.body_in →
      (scanTwo k.s.rawBody).isSome) :
    ((connSystem cfg).restrict Answerable).Reachable
      (k.after cfg { goodCalls with recv := recv, send := .sent n }) := by
  refine .step h ⟨⟨fun m hm => ?_, hopen, rfl⟩,
    fun hs hall => Or.inl (hbody hs hall)⟩
  obtain rfl := HttpKa.Send.sent.inj hm
  exact hn

/-- A request for the sum of 4 and 5, whose digits stand behind 500 blanks. -/
def farRequest : Bytes :=
  ascii "P / HTTP/1.1\r\nContent-Length: 503\r\n\r\n" ++ List.replicate 500 32 ++ ascii "4 5"

/-- 490 bytes of it come first, then the rest, and 40 bytes of the response are taken. -/
def sumConn : Conn :=
  ((((Conn.after ⟨false, []⟩ ⟨session_new, []⟩
        { goodCalls with recv := .data (farRequest.take 490), send := .sent 0 }).after
        ⟨false, []⟩ { goodCalls with recv := .data (farRequest.drop 490), send := .sent 0 }).after
      ⟨false, []⟩ { goodCalls with recv := .eagain, send := .sent 0 }).after
    ⟨false, []⟩ { goodCalls with recv := .eagain, send := .sent 40 })

theorem sent_in_step_sum : sumConn.sent.length = 40 ∧ SentInStep sumConn := by
  refine ⟨by decide +kernel, @sent_in_step ⟨false, []⟩ _ ?_⟩
  refine Conn.reachable_after (Conn.reachable_after (Conn.reachable_after (Conn.reachable_after
    (.init rfl) ?_ ?_ ?_) ?_ ?_ ?_) ?_ ?_ ?_) ?_ ?_ ?_
  all_goals decide +kernel

end TlsMigration.SumProd
