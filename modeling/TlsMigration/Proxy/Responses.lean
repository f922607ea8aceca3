/-
  TlsMigration.Proxy.Responses
  ────────────────────────────
  **RESPONSES ON THEIR WAY TO THE CLIENT**
  (`handle_connection`, bench2_vanilla_proxy.c).

  The gateway sends a response that has a length header, and keeps the
  connection open.  Reads return it in parts of any size, or are interrupted;
  all other calls succeed.  The proxy is to hand the response to its client,
  and not to read on.

    • `RespStage.step`    — where the response is, after one iteration;
    • `returns_iff`       — the lengths with which it is handed over.
-/
import TlsMigration.Proxy.Requests

namespace TlsMigration.Proxy

open TlsMigration.Http
open TlsMigration.Bench2 (Want TlsRead TlsWrite)

/-! ## §1. The system. -/

/-- A status line, header lines and a body, whose length the first length header gives. -/
structure SizedResponse where
  message : Request
  sized : ∃ pre l post, message.lines = pre ++ l :: post
    ∧ NumberLine contentLength l message.body.length
    ∧ ∀ x ∈ pre, startsLower contentLength x = false

namespace SizedResponse

def head (r : SizedResponse) : Bytes := r.message.head
def body (r : SizedResponse) : Bytes := r.message.body
def bytes (r : SizedResponse) : Bytes := r.message.bytes

end SizedResponse

/-- The connection, what the gateway sends and has not been read, and what has been written to the
client. -/
structure Upstream where
  s : Conn
  coming : Bytes
  out : Bytes

def Upstream.apply (f : Upstream) (r : Conn × Event) : Upstream :=
  match r.2 with
  | .read d => { f with s := r.1, coming := f.coming.drop d.length }
  | .tls_write d => { f with s := r.1, out := f.out ++ d }
  | _ => { f with s := r.1 }

/-- How much a read asks for. -/
def Conn.respRoom (s : Conn) : Nat :=
  match s.pc with
  | .read_resp_body => s.resp_cl.toNat - s.resp_body_in
  | _ => (if s.rcap < s.resp.length + 4096 then s.rcap * 2 else s.rcap) - s.resp.length - 1

/-- A read is interrupted or returns what comes next, a write takes a part of what it is given or
is to be repeated, and there is memory. -/
structure Upstream.Legal (f : Upstream) (c : Calls) : Prop where
  alloc : c.alloc_ok = true
  read : f.s.pc ≠ .forward → c.read = .eintr
    ∨ ∃ d, c.read = .data d ∧ d ≠ [] ∧ d <+: f.coming ∧ d.length ≤ f.s.respRoom
  write : f.s.pc = .forward →
    (∃ n, c.tls_write = .wrote n ∧ 0 < n ∧ (n : Int) ≤ toInt (f.s.resp.length - f.s.forwarded))
      ∨ ∃ e, c.tls_write = .none e ∧ e ≠ .error

/-- From the moment the request has been written until the response has been. -/
def upstreamSystem (r : SizedResponse) : TransitionSystem Upstream Event where
  init f := f.s.pc = .read_resp_headers ∧ f.s.resp = [] ∧ f.s.rcap = 65536
    ∧ f.coming = r.bytes ∧ f.out = []
  step f ev f' := f.s.pc.Responding ∧ ∃ c, f.Legal c ∧ ev = (conn_iter f.s c).2
    ∧ f' = f.apply (conn_iter f.s c)

/-- The next iteration reads from the gateway. -/
def Conn.Asks (s : Conn) : Prop :=
  s.pc = .read_resp_headers ∨ (s.pc = .read_resp_body ∧ (s.resp_body_in : Int) < s.resp_cl)
    ∨ s.pc = .drain

/-- A read or a write that has moved bytes. -/
def Event.moves : Event → Bool
  | .read _ => true
  | .tls_write _ => true
  | _ => false

/-- The response is handed over, and no more is waited for. -/
structure Returns (r : SizedResponse) : Prop where
  /-- no read is issued that only bytes behind the response can satisfy -/
  reads : ∀ f, (upstreamSystem r).Reachable f → f.s.Asks → f.coming ≠ []
  /-- the client is sent the response from its start on -/
  part : ∀ f, (upstreamSystem r).Reachable f → f.out <+: r.bytes
  /-- and all of it when the proxy goes on -/
  whole : ∀ f, (upstreamSystem r).Reachable f → ¬ f.s.pc.Responding → f.out = r.bytes
  /-- this takes finitely many reads and writes -/
  finite : ∀ f₀ evs f, (upstreamSystem r).init f₀ → (upstreamSystem r).Run f₀ evs f →
    evs.countP Event.moves ≤ 2 * r.bytes.length
  /-- until then there is always something that can be done -/
  goes_on : ∀ f, (upstreamSystem r).Reachable f → f.s.pc.Responding →
    ∃ ev f', (upstreamSystem r).step f ev f' ∧ (ev.moves = true ∨ f'.s.pc ≠ f.s.pc)

/-! ## §2. Where the response is. -/

variable {r : SizedResponse}

theorem SizedResponse.bytes_length (r : SizedResponse) :
    r.bytes.length = r.head.length + r.body.length := Request.bytes_length

/-- What the parser makes of the head. -/
theorem parse_sized (r : SizedResponse) (t : Bytes) :
    parse_content_length (r.head ++ t) (r.head.length - 4) = min LLONG_MAX (r.body.length : Int) := by
  obtain ⟨pre, l, post, hls, hl, hmiss⟩ := r.sized
  have hshape : r.head ++ t
      = joinLines r.message.lines ++ Ch.cr :: (Ch.lf :: Ch.cr :: Ch.lf :: t) := by
    unfold SizedResponse.head
    rw [head_eq]
    simp [crlfcrlf]
  have hlen : r.head.length - 4 = (joinLines r.message.lines).length := joinLines_length.symm
  have hlines : ∀ l ∈ r.message.lines, IsLine l ∧ l ≠ [] := r.message.isLine
  rw [hshape, hlen]
  rw [hls] at hlines ⊢
  exact parse_content_length_hit hl hlines hmiss _

/-- The lengths with which the response is handed over. -/
def SizedResponse.Small (r : SizedResponse) : Prop := 0 < r.body.length ∧ r.bytes.length < 2 ^ 31

/-- The response while the proxy has it. -/
inductive RespStage (r : SizedResponse) (f : Upstream) : Prop where
  | headers (hpc : f.s.pc = .read_resp_headers) (hin : f.s.resp ++ f.coming = r.bytes)
      (hnone : find_double_crlf f.s.resp = none) (hout : f.out = [])
      (hcap : f.s.resp.length < f.s.rcap)
  | body (hpc : f.s.pc = .read_resp_body) (hin : f.s.resp ++ f.coming = r.bytes)
      (hhead : r.head.length ≤ f.s.resp.length)
      (hcl : f.s.resp_cl = min LLONG_MAX (r.body.length : Int))
      (hbody : f.s.resp_body_in = f.s.resp.length - r.head.length) (hpos : 0 < r.body.length)
      (hout : f.out = []) (hfwd : f.s.forwarded = 0)
  | drain (hpc : f.s.pc = .drain) (hin : f.s.resp = r.bytes) (hcoming : f.coming = [])
      (hzero : r.body.length = 0) (hout : f.out = []) (hfwd : f.s.forwarded = 0)
  | forward (hpc : f.s.pc = .forward) (hin : f.s.resp ++ f.coming = r.bytes)
      (hbody : r.head.length + min LLONG_MAX.toNat r.body.length ≤ f.s.resp.length)
      (hpos : 0 < r.body.length)
      (hout : f.out = f.s.resp.take f.s.forwarded) (hfwd : f.s.forwarded ≤ f.s.resp.length)
  | ended (hpc : ¬ f.s.pc.Responding) (hout : f.out <+: r.bytes)
      (hwhole : r.Small → f.out = r.bytes)

variable {f : Upstream} {c : Calls}

theorem RespStage.of_drain (h : RespStage r f) (hpc : f.s.pc = .drain) :
    f.coming = [] ∧ r.body.length = 0 := by
  cases h with
  | drain hpc' hin hcoming hzero => exact ⟨hcoming, hzero⟩
  | headers hpc' => rw [hpc] at hpc'; cases hpc'
  | body hpc' => rw [hpc] at hpc'; cases hpc'
  | forward hpc' => rw [hpc] at hpc'; cases hpc'
  | ended hpc' => exact absurd (Or.inr (Or.inr (Or.inl hpc))) hpc'

theorem RespStage.of_forward (h : RespStage r f) (hpc : f.s.pc = .forward) :
    f.s.resp ++ f.coming = r.bytes
      ∧ r.head.length + min LLONG_MAX.toNat r.body.length ≤ f.s.resp.length
      ∧ 0 < r.body.length ∧ f.out = f.s.resp.take f.s.forwarded := by
  cases h with
  | forward hpc' hin hbody hpos hout => exact ⟨hin, hbody, hpos, hout⟩
  | headers hpc' => rw [hpc] at hpc'; cases hpc'
  | body hpc' => rw [hpc] at hpc'; cases hpc'
  | drain hpc' => rw [hpc] at hpc'; cases hpc'
  | ended hpc' => exact absurd (Or.inr (Or.inr (Or.inr hpc))) hpc'

theorem RespStage.out_part (h : RespStage r f) : f.out <+: r.bytes := by
  cases h with
  | headers hpc hin hnone hout => rw [hout]; exact List.nil_prefix
  | body hpc hin hhead hcl hbody hpos hout => rw [hout]; exact List.nil_prefix
  | drain hpc hin hcoming hzero hout => rw [hout]; exact List.nil_prefix
  | forward hpc hin hbody hpos hout hfwd =>
      rw [hout, ← hin]
      exact (List.take_prefix _ _).trans (List.prefix_append _ _)
  | ended hpc hout => exact hout

/-- While headers are read, there is more of the response. -/
theorem coming_of_headers (hin : f.s.resp ++ f.coming = r.bytes)
    (hnone : find_double_crlf f.s.resp = none) : f.coming ≠ [] := by
  intro hnil
  have hlt := head_not_found (q := r.message) (b := f.s.resp) (t := []) (by
    rw [List.append_nil]
    exact ⟨f.coming, hin⟩) hnone
  have hhead : r.head.length = r.message.head.length := rfl
  have hlen := congrArg List.length hin
  rw [hnil, List.append_nil, r.bytes_length] at hlen
  omega

/-- And while the test of the loop over the body holds. -/
theorem coming_of_body (hin : f.s.resp ++ f.coming = r.bytes)
    (hcl : f.s.resp_cl = min LLONG_MAX (r.body.length : Int))
    (hbody : f.s.resp_body_in = f.s.resp.length - r.head.length)
    (hmore : (f.s.resp_body_in : Int) < f.s.resp_cl) : f.coming ≠ [] := by
  intro hnil
  have hlen := congrArg List.length hin
  rw [hnil, List.append_nil, r.bytes_length] at hlen
  omega

/-- After a read with which the header block is complete. -/
theorem RespStage.parsed {s : Conn} {coming : Bytes} {e : Nat} (hin : s.resp ++ coming = r.bytes)
    (hfind : find_double_crlf s.resp = some e) :
    RespStage r ⟨response_headers s (some e), coming, []⟩ := by
  obtain ⟨t, ht, htail, he⟩ := head_of_found (q := r.message) ⟨coming, hin⟩ hfind
  have hvalue : parse_content_length s.resp e = min LLONG_MAX (r.body.length : Int) := by
    rw [he, ht]
    exact parse_sized r t
  have hlen : s.resp.length = r.head.length + t.length := by
    rw [ht, List.length_append]
    rfl
  have h4 : 4 < r.head.length := Request.four_lt_head
  have hehead : e + 4 = r.head.length := by
    show e + 4 = r.message.head.length
    have h4' : 4 < r.message.head.length := h4
    omega
  have hcl : (response_headers s (some e)).resp_cl = min LLONG_MAX (r.body.length : Int) := hvalue
  have hbody : (response_headers s (some e)).resp_body_in = s.resp.length - r.head.length := by
    show s.resp.length - (e + 4) = _
    rw [hehead]
  have hpc : (response_headers s (some e)).pc
      = if 0 < min LLONG_MAX (r.body.length : Int) then .read_resp_body else .drain := by
    rw [← hvalue]
    rfl
  by_cases hzero : r.body.length = 0
  · -- without a body the response is all there, and the test `resp_cl > 0` sends it to the drain
    have hnil : t = [] := by
      have hbnil : r.message.body = [] := List.length_eq_zero_iff.mp hzero
      rw [hbnil, List.prefix_nil] at htail
      exact htail
    have hall : s.resp.length = r.bytes.length := by
      rw [hlen, r.bytes_length, hnil, hzero]
      rfl
    have hcoming : coming = [] := by
      have hlen' := congrArg List.length hin
      rw [List.length_append] at hlen'
      exact List.length_eq_zero_iff.mp (by omega)
    refine .drain ?_ ?_ hcoming hzero rfl rfl
    · show (response_headers s (some e)).pc = _
      rw [hpc, hzero, if_neg (by decide)]
    · show s.resp = r.bytes
      rw [← hin, hcoming, List.append_nil]
  · refine .body ?_ hin (by show r.head.length ≤ s.resp.length; omega) hcl hbody (by omega) rfl rfl
    show (response_headers s (some e)).pc = _
    rw [hpc, if_pos]
    unfold LLONG_MAX
    omega

theorem RespStage.step_headers (hpc : f.s.pc = .read_resp_headers)
    (hin : f.s.resp ++ f.coming = r.bytes) (hnone : find_double_crlf f.s.resp = none)
    (hout : f.out = []) (hcap : f.s.resp.length < f.s.rcap) (hlegal : f.Legal c) :
    RespStage r (f.apply (conn_iter f.s c)) := by
  have hread := hlegal.read (by rw [hpc]; decide)
  have hroom : f.s.respRoom
      = (if f.s.rcap < f.s.resp.length + 4096 then f.s.rcap * 2 else f.s.rcap)
        - f.s.resp.length - 1 := by
    unfold Conn.respRoom
    rw [hpc]
  have hcap' : f.s.resp.length
      < (if f.s.rcap < f.s.resp.length + 4096 then f.s.rcap * 2 else f.s.rcap) := by
    split <;> omega
  have hiter : conn_iter f.s c = read_resp_headers_iter f.s c := by
    unfold conn_iter
    rw [hpc]
  rw [hiter]
  unfold read_resp_headers_iter
  rw [hlegal.alloc, if_neg (by simp)]
  generalize (if f.s.rcap < f.s.resp.length + 4096 then f.s.rcap * 2 else f.s.rcap) = cap at *
  rcases hread with hintr | ⟨d, hd, hne, ⟨u, hu⟩, hle⟩
  · rw [hintr]
    exact .headers hpc hin hnone hout hcap'
  · rw [hd]
    dsimp only
    rw [if_neg hne]
    have hcoming : f.coming.drop d.length = u := by
      rw [← hu, List.drop_left]
    have hin' : (f.s.resp ++ d) ++ u = r.bytes := by
      rw [List.append_assoc, hu, hin]
    cases hfind : find_double_crlf (f.s.resp ++ d) with
    | none =>
        refine .headers hpc ?_ hfind hout ?_
        · show (f.s.resp ++ d) ++ f.coming.drop d.length = _
          rw [hcoming]
          exact hin'
        · show (f.s.resp ++ d).length < cap
          rw [List.length_append]
          omega
    | some e =>
        show RespStage r ⟨response_headers _ (some e), f.coming.drop d.length, f.out⟩
        rw [hcoming, hout]
        exact .parsed hin' hfind

theorem RespStage.step_body (hpc : f.s.pc = .read_resp_body)
    (hin : f.s.resp ++ f.coming = r.bytes) (hhead : r.head.length ≤ f.s.resp.length)
    (hcl : f.s.resp_cl = min LLONG_MAX (r.body.length : Int))
    (hbody : f.s.resp_body_in = f.s.resp.length - r.head.length) (hpos : 0 < r.body.length)
    (hout : f.out = []) (hfwd : f.s.forwarded = 0) (hlegal : f.Legal c) :
    RespStage r (f.apply (conn_iter f.s c)) := by
  have hread := hlegal.read (by rw [hpc]; decide)
  have hiter : conn_iter f.s c = read_resp_body_iter f.s c := by
    unfold conn_iter
    rw [hpc]
  rw [hiter]
  unfold read_resp_body_iter
  by_cases hmore : (f.s.resp_body_in : Int) < f.s.resp_cl
  · rw [if_pos hmore, hlegal.alloc, if_neg (by simp)]
    rcases hread with hintr | ⟨d, hd, hne, ⟨u, hu⟩, hle⟩
    · rw [hintr]
      exact .body hpc hin hhead hcl hbody hpos hout hfwd
    · rw [hd]
      dsimp only
      rw [if_neg hne]
      have hcoming : f.coming.drop d.length = u := by
        rw [← hu, List.drop_left]
      refine .body hpc ?_ ?_ hcl ?_ hpos hout hfwd
      · show (f.s.resp ++ d) ++ f.coming.drop d.length = _
        rw [hcoming, List.append_assoc, hu, hin]
      · show r.head.length ≤ (f.s.resp ++ d).length
        rw [List.length_append]
        omega
      · show f.s.resp_body_in + d.length = (f.s.resp ++ d).length - r.head.length
        rw [List.length_append]
        omega
  · rw [if_neg hmore]
    -- a body of more than LLONG_MAX bytes would be cut here
    refine .forward rfl hin ?_ hpos ?_ ?_
    · show r.head.length + min LLONG_MAX.toNat r.body.length ≤ f.s.resp.length
      unfold LLONG_MAX at *
      omega
    · show f.out = f.s.resp.take f.s.forwarded
      rw [hout, hfwd]
      rfl
    · show f.s.forwarded ≤ f.s.resp.length
      rw [hfwd]
      exact Nat.zero_le _

theorem RespStage.step_drain (hpc : f.s.pc = .drain) (hin : f.s.resp = r.bytes)
    (hcoming : f.coming = []) (hzero : r.body.length = 0) (hout : f.out = [])
    (hfwd : f.s.forwarded = 0) (hlegal : f.Legal c) :
    RespStage r (f.apply (conn_iter f.s c)) := by
  have hread := hlegal.read (by rw [hpc]; decide)
  have hiter : conn_iter f.s c = drain_iter f.s c := by
    unfold conn_iter
    rw [hpc]
  rw [hiter]
  unfold drain_iter
  rw [hlegal.alloc, if_neg (by simp)]
  rcases hread with hintr | ⟨d, hd, hne, hpre, hle⟩
  · rw [hintr]
    exact .drain hpc hin hcoming hzero hout hfwd
  · -- only bytes behind the response could be read here
    rw [hcoming, List.prefix_nil] at hpre
    exact absurd hpre hne

theorem RespStage.step_forward (hpc : f.s.pc = .forward)
    (hin : f.s.resp ++ f.coming = r.bytes)
    (hbody : r.head.length + min LLONG_MAX.toNat r.body.length ≤ f.s.resp.length)
    (hpos : 0 < r.body.length) (hout : f.out = f.s.resp.take f.s.forwarded)
    (hfwd : f.s.forwarded ≤ f.s.resp.length) (hlegal : f.Legal c) :
    RespStage r (f.apply (conn_iter f.s c)) := by
  have hwrite := hlegal.write hpc
  have hpart := RespStage.out_part (.forward hpc hin hbody hpos hout hfwd)
  have hlen := congrArg List.length hin
  rw [List.length_append] at hlen
  have hbytes := r.bytes_length
  have hiter : conn_iter f.s c = forward_iter f.s c := by
    unfold conn_iter
    rw [hpc]
  rw [hiter]
  unfold forward_iter
  by_cases hmore : f.s.forwarded < f.s.resp.length
  · rw [if_pos hmore]
    by_cases hint : toInt (f.s.resp.length - f.s.forwarded) ≤ 0
    · rw [if_pos hint]
      -- `wolfssl_write_all` gives up: the rest, cast to int, is not positive
      refine .ended (show ¬ (Pc.done .failed).Responding by decide) hpart fun hsmall => ?_
      have hp := toInt_pos (n := f.s.resp.length - f.s.forwarded) (by omega) (by
        have := hsmall.2
        omega)
      omega
    · rw [if_neg hint]
      rcases hwrite with ⟨n, hn, -, hle⟩ | ⟨e, he, hne⟩
      · have hfits := toInt_le (f.s.resp.length - f.s.forwarded)
        rw [hn]
        refine .forward hpc hin hbody hpos ?_ ?_
        · show f.out ++ (f.s.resp.drop f.s.forwarded).take n = f.s.resp.take (f.s.forwarded + n)
          rw [hout, ← List.take_add]
        · show f.s.forwarded + n ≤ f.s.resp.length
          omega
      · rw [he]
        cases e with
        | error => exact absurd rfl hne
        | want_read => exact .forward hpc hin hbody hpos hout hfwd
        | want_write => exact .forward hpc hin hbody hpos hout hfwd
  · rw [if_neg hmore]
    -- the whole buffer is written, and for a short response that is all of it
    have hwhole : r.Small → f.out = r.bytes := by
      intro hsmall
      have hlt := hsmall.2
      have hcoming : f.coming = [] := by
        apply List.length_eq_zero_iff.mp
        unfold LLONG_MAX at hbody
        omega
      rw [hout, List.take_of_length_le (by omega), ← hin, hcoming, List.append_nil]
    by_cases hclose : f.s.req_close = true
    · rw [if_pos hclose]
      exact .ended (show ¬ (Pc.done .asked).Responding by decide) hpart hwhole
    · rw [if_neg hclose, hlegal.alloc, if_pos rfl]
      exact .ended (show ¬ Pc.read_headers.Responding by decide) hpart hwhole

/-- **Every iteration keeps track of the response.** -/
theorem RespStage.step (h : RespStage r f) (hresp : f.s.pc.Responding) (hlegal : f.Legal c) :
    RespStage r (f.apply (conn_iter f.s c)) := by
  cases h with
  | headers hpc hin hnone hout hcap => exact .step_headers hpc hin hnone hout hcap hlegal
  | body hpc hin hhead hcl hbody hpos hout hfwd =>
      exact .step_body hpc hin hhead hcl hbody hpos hout hfwd hlegal
  | drain hpc hin hcoming hzero hout hfwd =>
      exact .step_drain hpc hin hcoming hzero hout hfwd hlegal
  | forward hpc hin hbody hpos hout hfwd =>
      exact .step_forward hpc hin hbody hpos hout hfwd hlegal
  | ended hpc => exact absurd hresp hpc

theorem RespStage.of_init (h : (upstreamSystem r).init f) : RespStage r f := by
  obtain ⟨hpc, hresp, hcap, hcoming, hout⟩ := h
  refine .headers hpc ?_ ?_ hout ?_
  · rw [hresp, hcoming]
    rfl
  · rw [hresp]
    rfl
  · rw [hresp, hcap]
    decide

theorem reachable_stage (h : (upstreamSystem r).Reachable f) : RespStage r f := by
  refine h.invariant (RespStage r) (fun f hf => .of_init hf) ?_
  intro f ev f' hf hstep
  obtain ⟨hresp, c, hlegal, -, rfl⟩ := hstep
  exact hf.step hresp hlegal

/-! ## §3. What an iteration moves. -/

/-- Nothing moves, or what `read` has returned, or what `wolfSSL_write` has taken. -/
def Moves (s : Conn) (c : Calls) (r : Conn × Event) : Prop :=
  r.2 = .none
    ∨ (∃ d, r.2 = .read d ∧ c.read = .data d ∧ d ≠ [] ∧ s.pc ≠ .forward ∧ r.1.pc.Responding)
    ∨ ∃ n, r.2 = .tls_write ((s.resp.drop s.forwarded).take n) ∧ c.tls_write = .wrote n
        ∧ s.pc = .forward ∧ s.forwarded < s.resp.length

theorem moves_read_resp_headers {s : Conn} (hpc : s.pc = .read_resp_headers) (c : Calls) :
    Moves s c (read_resp_headers_iter s c) := by
  have hne : s.pc ≠ .forward := by
    rw [hpc]
    decide
  unfold read_resp_headers_iter
  split
  · exact Or.inl rfl
  · dsimp only
    split
    next => exact Or.inl rfl
    next => exact Or.inl rfl
    next bytes hc =>
      split
      · exact Or.inl rfl
      next hnil =>
        split
        · exact Or.inr (Or.inl ⟨bytes, rfl, hc, hnil, hne, response_headers_pc _ _⟩)
        · exact Or.inr (Or.inl ⟨bytes, rfl, hc, hnil, hne, Or.inl hpc⟩)

theorem moves_read_resp_body {s : Conn} (hpc : s.pc = .read_resp_body) (c : Calls) :
    Moves s c (read_resp_body_iter s c) := by
  have hne : s.pc ≠ .forward := by
    rw [hpc]
    decide
  unfold read_resp_body_iter
  split
  · split
    · exact Or.inl rfl
    · dsimp only
      split
      next => exact Or.inl rfl
      next => exact Or.inl rfl
      next bytes hc =>
        split
        · exact Or.inl rfl
        next hnil => exact Or.inr (Or.inl ⟨bytes, rfl, hc, hnil, hne, Or.inr (Or.inl hpc)⟩)
  · exact Or.inl rfl

theorem moves_drain {s : Conn} (hpc : s.pc = .drain) (c : Calls) :
    Moves s c (drain_iter s c) := by
  have hne : s.pc ≠ .forward := by
    rw [hpc]
    decide
  unfold drain_iter
  split
  · exact Or.inl rfl
  · dsimp only
    split
    next => exact Or.inl rfl
    next => exact Or.inl rfl
    next bytes hc =>
      split
      · exact Or.inl rfl
      next hnil =>
        exact Or.inr (Or.inl ⟨bytes, rfl, hc, hnil, hne, Or.inr (Or.inr (Or.inl hpc))⟩)

theorem moves_forward {s : Conn} (hpc : s.pc = .forward) (c : Calls) :
    Moves s c (forward_iter s c) := by
  unfold forward_iter
  split
  next hmore =>
    split
    · exact Or.inl rfl
    · split
      next n hc => exact Or.inr (Or.inr ⟨n, rfl, hc, hpc, hmore⟩)
      next => exact Or.inl rfl
      next => exact Or.inl rfl
  next =>
    split
    · exact Or.inl rfl
    · split <;> exact Or.inl rfl

theorem moves_iter {s : Conn} (hresp : s.pc.Responding) (c : Calls) : Moves s c (conn_iter s c) := by
  unfold conn_iter
  rcases hresp with hpc | hpc | hpc | hpc
  · rw [hpc]
    exact moves_read_resp_headers hpc c
  · rw [hpc]
    exact moves_read_resp_body hpc c
  · rw [hpc]
    exact moves_drain hpc c
  · rw [hpc]
    exact moves_forward hpc c

/-- A move takes bytes from what is coming, or adds bytes to what the client has been sent. -/
theorem step_moves {f' : Upstream} {ev : Event} (h : (upstreamSystem r).step f ev f') :
    (if ev.moves then 1 else 0) + f'.coming.length + f.out.length
      ≤ f.coming.length + f'.out.length := by
  obtain ⟨hresp, c, hlegal, rfl, rfl⟩ := h
  rcases moves_iter hresp c with hev | ⟨d, hev, hc, hne, hpc, -⟩ | ⟨n, hev, hc, hpc, hmore⟩
  · have happly : f.apply (conn_iter f.s c) = { f with s := (conn_iter f.s c).1 } := by
      unfold Upstream.apply
      rw [hev]
    rw [happly, hev]
    simp [Event.moves]
  · have happly : f.apply (conn_iter f.s c)
        = { f with s := (conn_iter f.s c).1, coming := f.coming.drop d.length } := by
      unfold Upstream.apply
      rw [hev]
    -- a read shortens what is coming
    have hpre : d <+: f.coming := by
      rcases hlegal.read hpc with hintr | ⟨d', hd, -, hpre, -⟩
      · rw [hc] at hintr
        cases hintr
      · rw [hc] at hd
        rw [Read.data.inj hd]
        exact hpre
    have hpos : 0 < d.length := List.length_pos_iff.mpr hne
    have hle := hpre.length_le
    rw [happly, hev]
    show 1 + (f.coming.drop d.length).length + f.out.length ≤ _ + f.out.length
    rw [List.length_drop]
    omega
  · have happly : f.apply (conn_iter f.s c)
        = { f with s := (conn_iter f.s c).1, out := f.out ++ (f.s.resp.drop f.s.forwarded).take n } := by
      unfold Upstream.apply
      rw [hev]
    -- a write lengthens what the client has
    have hpos : 0 < n := by
      rcases hlegal.write hpc with ⟨n', hn, hpos, -⟩ | ⟨e, he, -⟩
      · rw [hc] at hn
        rw [TlsWrite.wrote.inj hn]
        exact hpos
      · rw [hc] at he
        cases he
    rw [happly, hev]
    show 1 + f.coming.length + f.out.length
      ≤ f.coming.length + (f.out ++ (f.s.resp.drop f.s.forwarded).take n).length
    rw [List.length_append, List.length_take, List.length_drop]
    omega

theorem run_moves {f' : Upstream} {evs : List Event} (h : (upstreamSystem r).Run f evs f') :
    evs.countP Event.moves + f'.coming.length + f.out.length
      ≤ f.coming.length + f'.out.length := by
  induction h with
  | nil => simp
  | @cons f g f' ev evs hstep _ ih =>
      have hmoves := step_moves hstep
      rw [List.countP_cons]
      omega

/-! ## §4. There is always something that can be done. -/

/-- A call that returns one byte of the response, and one that takes `n` bytes of it. -/
def oneByte (b : UInt8) (n : Nat) : Calls where
  alloc_ok := true
  tls_read := .none .want_read
  connect_ok := true
  write := .eintr
  read := .data [b]
  tls_write := .wrote n

/-- Calls that move nothing. -/
def retry : Calls := ⟨true, .none .want_read, true, .eintr, .eintr, .none .want_write⟩

theorem retry_legal (f : Upstream) : f.Legal retry :=
  ⟨rfl, fun _ => Or.inl rfl, fun _ => Or.inr ⟨.want_write, rfl, by decide⟩⟩

/-- A read of one byte. -/
theorem step_read (hresp : f.s.pc.Responding) (hpc : f.s.pc ≠ .forward) {b : UInt8} {bs : Bytes}
    (hcoming : f.coming = b :: bs) (hroom : 0 < f.s.respRoom) :
    (upstreamSystem r).step f (conn_iter f.s (oneByte b 0)).2
      (f.apply (conn_iter f.s (oneByte b 0))) := by
  refine ⟨hresp, oneByte b 0, ⟨rfl, fun _ => Or.inr ⟨[b], rfl, by simp, ?_, hroom⟩, ?_⟩, rfl, rfl⟩
  · rw [hcoming]
    exact ⟨bs, rfl⟩
  · intro hfwd
    exact absurd hfwd hpc

/-- While the response is read, a byte of it can be read, or all of it has been. -/
theorem RespStage.read_on (h : RespStage r f)
    (hpc : f.s.pc = .read_resp_headers ∨ f.s.pc = .read_resp_body) :
    ∃ ev f', (upstreamSystem r).step f ev f'
      ∧ ((∃ b, ev = .read [b]) ∨ (f'.s.pc = .forward ∧ f'.out = f.out)) := by
  cases h with
  | headers hpc hin hnone hout hcap =>
      obtain ⟨b, bs, hcoming⟩ := List.exists_cons_of_ne_nil (coming_of_headers hin hnone)
      have hroom : 0 < f.s.respRoom := by
        unfold Conn.respRoom
        rw [hpc]
        dsimp only
        split <;> omega
      refine ⟨_, _, step_read (Or.inl hpc) (by rw [hpc]; decide) hcoming hroom,
        Or.inl ⟨b, ?_⟩⟩
      unfold conn_iter
      rw [hpc]
      unfold read_resp_headers_iter
      rw [if_neg (by simp [oneByte])]
      have hread : (oneByte b 0).read = .data [b] := rfl
      rw [hread]
      dsimp only
      rw [if_neg (List.cons_ne_nil b [])]
      cases find_double_crlf (f.s.resp ++ [b]) with
      | none => rfl
      | some e => rfl
  | body hpc hin hhead hcl hbody hpos hout hfwd =>
      by_cases hmore : (f.s.resp_body_in : Int) < f.s.resp_cl
      · obtain ⟨b, bs, hcoming⟩ := List.exists_cons_of_ne_nil (coming_of_body hin hcl hbody hmore)
        have hroom : 0 < f.s.respRoom := by
          unfold Conn.respRoom
          rw [hpc]
          dsimp only
          omega
        refine ⟨_, _, step_read (Or.inr (Or.inl hpc)) (by rw [hpc]; decide) hcoming hroom,
          Or.inl ⟨b, ?_⟩⟩
        unfold conn_iter
        rw [hpc]
        unfold read_resp_body_iter
        dsimp only
        rw [if_pos hmore, if_neg (by simp [oneByte])]
        rfl
      · have hiter : conn_iter f.s retry = ({ f.s with pc := .forward }, .none) := by
          unfold conn_iter
          rw [hpc]
          unfold read_resp_body_iter
          dsimp only
          rw [if_neg hmore]
        refine ⟨_, _, ⟨Or.inr (Or.inl hpc), retry, retry_legal f, rfl, rfl⟩, ?_⟩
        rw [hiter]
        exact Or.inr ⟨rfl, rfl⟩
  | drain hpc' => rcases hpc with hpc | hpc <;> rw [hpc] at hpc' <;> cases hpc'
  | forward hpc' => rcases hpc with hpc | hpc <;> rw [hpc] at hpc' <;> cases hpc'
  | ended hpc' => exact absurd (by rcases hpc with hpc | hpc <;> rw [hpc] <;> decide) hpc'

theorem step_of_read {f' : Upstream} {d : Bytes}
    (h : (upstreamSystem r).step f (.read d) f') :
    f'.coming = f.coming.drop d.length ∧ f'.out = f.out ∧ f'.s.pc.Responding := by
  obtain ⟨hresp, c, -, hev, rfl⟩ := h
  have happly : f.apply (conn_iter f.s c)
      = { f with s := (conn_iter f.s c).1, coming := f.coming.drop d.length } := by
    unfold Upstream.apply
    rw [← hev]
  rw [happly]
  refine ⟨rfl, rfl, ?_⟩
  rcases moves_iter hresp c with h | ⟨d', -, -, -, -, hgoes⟩ | ⟨n, h, -⟩
  · rw [← hev] at h
    cases h
  · exact hgoes
  · rw [← hev] at h
    cases h

/-- Reads of one byte get to the end of the response. -/
theorem reach_read : ∀ (n : Nat) {f : Upstream}, f.coming.length = n →
    (upstreamSystem r).Reachable f → f.s.pc.Responding → f.out = [] →
    ∃ f', (upstreamSystem r).Reachable f' ∧ f'.out = []
      ∧ (f'.s.pc = .drain ∨ f'.s.pc = .forward) := by
  intro n
  induction n using Nat.strong_induction_on with
  | _ n ih =>
      intro f hn hreach hresp hout
      -- the induction is on the bytes to come: each read takes one of them
      have hread : f.s.pc = .read_resp_headers ∨ f.s.pc = .read_resp_body →
          ∃ f', (upstreamSystem r).Reachable f' ∧ f'.out = []
            ∧ (f'.s.pc = .drain ∨ f'.s.pc = .forward) := by
        intro hpc
        obtain ⟨ev, f', hstep, ⟨b, rfl⟩ | ⟨hfwd, hout'⟩⟩ := (reachable_stage hreach).read_on hpc
        · obtain ⟨-, hsame, hresp'⟩ := step_of_read hstep
          have hmoves := step_moves hstep
          have hone : (if (Event.read [b]).moves then 1 else 0) = 1 := rfl
          rw [hsame, hone] at hmoves
          exact ih f'.coming.length (by omega) rfl (hreach.step hstep) hresp' (hsame.trans hout)
        · exact ⟨f', hreach.step hstep, hout'.trans hout, Or.inr hfwd⟩
      rcases hresp with hpc | hpc | hpc | hpc
      · exact hread (Or.inl hpc)
      · exact hread (Or.inr hpc)
      · exact ⟨f, hreach, hout, Or.inl hpc⟩
      · exact ⟨f, hreach, hout, Or.inr hpc⟩

/-! ## §5. Which responses are handed over. -/

theorem toInt_lt (n : Nat) : toInt n < 2 ^ 31 := by
  unfold toInt Int.bmod
  dsimp only
  split <;> omega

/-- Once as many bytes as the `int` says are gone, the `int` of the rest is 0. -/
theorem toInt_sub {n m : Nat} (hm : (m : Int) = toInt n) : toInt (n - m) = 0 := by
  unfold toInt Int.bmod at *
  dsimp only at *
  split at hm <;> split <;> omega

/-- A response of 2^31 bytes or more is given up while it is written. -/
theorem RespStage.cut_off (hreach : (upstreamSystem r).Reachable f) (hpc : f.s.pc = .forward)
    (hout : f.out = []) (hbig : 2 ^ 31 ≤ r.bytes.length) :
    ∃ f', (upstreamSystem r).Reachable f' ∧ ¬ f'.s.pc.Responding ∧ f'.out ≠ r.bytes := by
  have hresp : f.s.pc.Responding := Or.inr (Or.inr (Or.inr hpc))
  obtain ⟨hin, hbody, hpos, hout'⟩ := (reachable_stage hreach).of_forward hpc
  have hlen := congrArg List.length hin
  rw [List.length_append] at hlen
  have hbytes := r.bytes_length
  have hL : 2 ^ 31 ≤ f.s.resp.length := by
    unfold LLONG_MAX at hbody
    omega
  have hzero : f.s.forwarded = 0 := by
    have hlen' := congrArg List.length hout'
    rw [hout, List.length_take] at hlen'
    simp only [List.length_nil] at hlen'
    omega
  -- where the `int` is not positive the connection is closed
  have hclose : ∀ g : Upstream, (upstreamSystem r).Reachable g → g.s.pc = .forward →
      g.s.forwarded < g.s.resp.length → toInt (g.s.resp.length - g.s.forwarded) ≤ 0 →
      ∃ f', (upstreamSystem r).Reachable f' ∧ ¬ f'.s.pc.Responding ∧ f'.out = g.out := by
    intro g hg hgpc hmore hint
    have hiter : conn_iter g.s retry = (g.s.close .failed, .none) := by
      unfold conn_iter
      rw [hgpc]
      unfold forward_iter
      dsimp only
      rw [if_pos hmore, if_pos hint]
    refine ⟨_, hg.step ⟨Or.inr (Or.inr (Or.inr hgpc)), retry, retry_legal g, rfl, rfl⟩, ?_⟩
    rw [hiter]
    exact ⟨show ¬ (Pc.done .failed).Responding by decide, rfl⟩
  by_cases hint : toInt (f.s.resp.length - f.s.forwarded) ≤ 0
  · obtain ⟨f', hf', hdone, hsame⟩ := hclose f hreach hpc (by omega) hint
    refine ⟨f', hf', hdone, ?_⟩
    rw [hsame, hout]
    intro hnil
    rw [← hnil] at hbig
    simp at hbig
  · -- the `int` is less than the response, and 0 once as much has been written
    obtain ⟨m, hm⟩ : ∃ m : Nat, (m : Int) = toInt (f.s.resp.length - f.s.forwarded) :=
      ⟨(toInt (f.s.resp.length - f.s.forwarded)).toNat, by omega⟩
    have hsmall := toInt_lt (f.s.resp.length - f.s.forwarded)
    have hiter : conn_iter f.s (oneByte 0 m)
        = ({ f.s with forwarded := f.s.forwarded + m },
          .tls_write ((f.s.resp.drop f.s.forwarded).take m)) := by
      unfold conn_iter
      rw [hpc]
      unfold forward_iter
      dsimp only
      rw [if_pos (by omega), if_neg hint]
      rfl
    have hg : (upstreamSystem r).Reachable (f.apply (conn_iter f.s (oneByte 0 m))) := by
      refine hreach.step ⟨hresp, oneByte 0 m, ⟨rfl, ?_, ?_⟩, rfl, rfl⟩
      · intro hne
        exact absurd hpc hne
      · intro _
        exact Or.inl ⟨m, rfl, by omega, by omega⟩
    rw [hiter] at hg
    have hrest : toInt (f.s.resp.length - (f.s.forwarded + m)) ≤ 0 := by
      have hsub := toInt_sub (n := f.s.resp.length - f.s.forwarded) (m := m) hm
      exact Int.le_of_eq (by rw [← Nat.sub_sub, hsub])
    obtain ⟨f', hf', hdone, hsame⟩ := hclose _ hg hpc (by
      show f.s.forwarded + m < f.s.resp.length
      omega) hrest
    refine ⟨f', hf', hdone, ?_⟩
    intro hall
    -- at most as many bytes as an `int` can say have been sent
    have hlen' := congrArg List.length (hsame.symm.trans hall)
    have hshort : (f.out ++ (f.s.resp.drop f.s.forwarded).take m).length ≤ m := by
      rw [hout, List.nil_append]
      exact List.length_take_le _ _
    have hsent : r.bytes.length ≤ m := by
      rw [← hlen']
      exact hshort
    omega

/-- A byte of the response can be written, or all of it has been. -/
theorem forward_on (hsmall : r.Small) (hpc : f.s.pc = .forward)
    (hin : f.s.resp ++ f.coming = r.bytes) :
    ∃ ev f', (upstreamSystem r).step f ev f' ∧ (ev.moves = true ∨ f'.s.pc ≠ f.s.pc) := by
  have hresp : f.s.pc.Responding := Or.inr (Or.inr (Or.inr hpc))
  have hlen := congrArg List.length hin
  rw [List.length_append] at hlen
  have hlt := hsmall.2
  by_cases hmore : f.s.forwarded < f.s.resp.length
  · have hpos := toInt_pos (n := f.s.resp.length - f.s.forwarded) (by omega) (by omega)
    have hiter : conn_iter f.s (oneByte 0 1)
        = ({ f.s with forwarded := f.s.forwarded + 1 },
          .tls_write ((f.s.resp.drop f.s.forwarded).take 1)) := by
      unfold conn_iter
      rw [hpc]
      unfold forward_iter
      dsimp only
      rw [if_pos hmore, if_neg (by omega)]
      rfl
    refine ⟨_, _, ⟨hresp, oneByte 0 1, ⟨rfl, fun hne => absurd hpc hne,
      fun _ => Or.inl ⟨1, rfl, by decide, by omega⟩⟩, rfl, rfl⟩, Or.inl ?_⟩
    rw [hiter]
    rfl
  · refine ⟨_, _, ⟨hresp, retry, retry_legal f, rfl, rfl⟩, Or.inr ?_⟩
    have hiter : conn_iter f.s retry
        = if f.s.req_close then (f.s.close .asked, .none) else (Conn.fresh, .none) := by
      unfold conn_iter
      rw [hpc]
      unfold forward_iter
      dsimp only
      rw [if_neg hmore]
      rfl
    rw [hiter, hpc]
    cases f.s.req_close with
    | true => exact show Pc.done .asked ≠ .forward by decide
    | false => exact show Pc.read_headers ≠ .forward by decide

theorem returns_of_small (hsmall : r.Small) : Returns r where
  reads := by
    intro f hreach hasks hnil
    cases reachable_stage hreach with
    | headers hpc hin hnone => exact coming_of_headers hin hnone hnil
    | body hpc hin hhead hcl hbody =>
        rcases hasks with h | ⟨-, hmore⟩ | h
        · rw [hpc] at h
          cases h
        · exact coming_of_body hin hcl hbody hmore hnil
        · rw [hpc] at h
          cases h
    | drain hpc hin hcoming hzero =>
        have hpos := hsmall.1
        omega
    | forward hpc => rcases hasks with h | ⟨h, -⟩ | h <;> rw [hpc] at h <;> cases h
    | ended hpc =>
        refine hpc ?_
        rcases hasks with h | ⟨h, -⟩ | h <;> rw [h] <;> decide
  part := fun f hreach => (reachable_stage hreach).out_part
  whole := by
    intro f hreach hdone
    cases reachable_stage hreach with
    | headers hpc => exact absurd (Or.inl hpc) hdone
    | body hpc => exact absurd (Or.inr (Or.inl hpc)) hdone
    | drain hpc => exact absurd (Or.inr (Or.inr (Or.inl hpc))) hdone
    | forward hpc => exact absurd (Or.inr (Or.inr (Or.inr hpc))) hdone
    | ended hpc hout hwhole => exact hwhole hsmall
  finite := by
    intro f₀ evs f hinit hrun
    have hmoves := run_moves hrun
    have hout : f.out <+: r.bytes := (reachable_stage (hrun.reachable (.init hinit))).out_part
    have hle := hout.length_le
    obtain ⟨-, -, -, hcoming, hnil⟩ := hinit
    rw [hcoming, hnil] at hmoves
    simp only [List.length_nil] at hmoves
    omega
  goes_on := by
    intro f hreach hresp
    have hread : f.s.pc = .read_resp_headers ∨ f.s.pc = .read_resp_body →
        ∃ ev f', (upstreamSystem r).step f ev f' ∧ (ev.moves = true ∨ f'.s.pc ≠ f.s.pc) := by
      intro hpc
      obtain ⟨ev, f', hstep, ⟨b, rfl⟩ | ⟨hfwd, -⟩⟩ := (reachable_stage hreach).read_on hpc
      · exact ⟨_, f', hstep, Or.inl rfl⟩
      · refine ⟨ev, f', hstep, Or.inr ?_⟩
        rw [hfwd]
        rcases hpc with hpc | hpc <;> rw [hpc] <;> decide
    cases reachable_stage hreach with
    | headers hpc => exact hread (Or.inl hpc)
    | body hpc => exact hread (Or.inr hpc)
    | drain hpc hin hcoming hzero =>
        have hpos := hsmall.1
        omega
    | forward hpc hin => exact forward_on hsmall hpc hin
    | ended hpc => exact absurd hresp hpc

/-- **Responses are handed over** exactly when their length is not 0, and they have less than
2^31 bytes. -/
theorem returns_iff (r : SizedResponse) :
    Returns r ↔ 0 < r.body.length ∧ r.bytes.length < 2 ^ 31 := by
  constructor
  · intro h
    let f₀ : Upstream := ⟨{ Conn.fresh with pc := .read_resp_headers, rcap := 65536 }, r.bytes, []⟩
    have h₀ : (upstreamSystem r).Reachable f₀ := .init ⟨rfl, rfl, rfl, rfl, rfl⟩
    obtain ⟨f, hreach, hout, hpc⟩ := reach_read _ rfl h₀ (Or.inl rfl) rfl
    rcases hpc with hpc | hpc
    · -- the response has been read, and the proxy goes on reading
      have hcoming := ((reachable_stage hreach).of_drain hpc).1
      exact absurd hcoming (h.reads f hreach (Or.inr (Or.inr hpc)))
    · refine ⟨?_, ?_⟩
      · exact ((reachable_stage hreach).of_forward hpc).2.2.1
      · -- a longer response reaches a closed connection before all of it is sent
        by_contra hbig
        obtain ⟨f', hreach', hdone, hne⟩ := RespStage.cut_off hreach hpc hout (by omega)
        exact hne (h.whole f' hreach' hdone)
  · exact returns_of_small

/-- A response without a body. -/
def emptyResponse : SizedResponse where
  message :=
    { line := ascii "HTTP/1.1 200 OK"
      headers := [ascii "Content-Length: 0"]
      body := []
      isLine := by
        intro l hl
        revert l
        decide +kernel
      declares := Or.inl ⟨[ascii "HTTP/1.1 200 OK"], ascii "Content-Length: 0", [], rfl,
        ⟨ascii "Content-Length:", ascii " ", ascii "0", [], by decide +kernel⟩, by decide +kernel⟩ }
  sized := ⟨[ascii "HTTP/1.1 200 OK"], ascii "Content-Length: 0", [], rfl,
    ⟨ascii "Content-Length:", ascii " ", ascii "0", [], by decide +kernel⟩, by decide +kernel⟩

/-- The request has been sent, and the response is there. -/
def responded : Upstream :=
  ⟨{ Conn.fresh with pc := .read_resp_headers, rcap := 65536 }, emptyResponse.bytes, []⟩

/-- All of it is read at once. -/
def afterRead : Upstream :=
  responded.apply (conn_iter responded.s { retry with read := .data emptyResponse.bytes })

/-- **The proxy waits behind a response of length 0**: all of it has been read, nothing more is
coming, and it reads on with nothing sent to the client. -/
theorem empty_response_waits :
    (upstreamSystem emptyResponse).Reachable afterRead
      ∧ afterRead.s.pc = .drain ∧ afterRead.s.resp = emptyResponse.bytes
      ∧ afterRead.coming = [] ∧ afterRead.out = []
      ∧ ¬ Returns emptyResponse := by
  have hlegal : responded.Legal { retry with read := .data emptyResponse.bytes } := by
    refine ⟨rfl, fun _ => Or.inr ⟨emptyResponse.bytes, rfl, by decide +kernel, List.prefix_rfl, ?_⟩,
      fun hfwd => by cases hfwd⟩
    decide +kernel
  have hreach : (upstreamSystem emptyResponse).Reachable afterRead :=
    .step (.init ⟨rfl, rfl, rfl, rfl, rfl⟩) ⟨Or.inl rfl, _, hlegal, rfl, rfl⟩
  have hdrain : afterRead.s.pc = .drain := by decide +kernel
  have hcoming : afterRead.coming = [] := by decide +kernel
  refine ⟨hreach, hdrain, by decide +kernel, hcoming, by decide +kernel, fun h => ?_⟩
  exact h.reads _ hreach (Or.inr (Or.inr hdrain)) hcoming

end TlsMigration.Proxy
