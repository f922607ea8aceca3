/-
  TlsMigration.Proxy.Requests
  ───────────────────────────
  **REQUESTS ON THEIR WAY TO THE GATEWAY**
  (`handle_connection`, bench2_vanilla_proxy.c).

  A client sends requests, one after the other, and `wolfSSL_read` returns
  them in parts of any size.  Each request is to go to the gateway over a
  connection of its own.  A read of headers asks for as much as the buffer
  has room for, and all that it returns is written to that connection.

    • `Stage.step`         — where the requests are, after one iteration;
    • `forwards_each_once` — every request is forwarded once, while no read
                             of headers goes past the end of its request;
    • `coalesced_misdirected` — a read that does.
-/
import TlsMigration.Lib.Transition
import TlsMigration.Proxy.Connection

namespace TlsMigration.Proxy

open TlsMigration.Http
open TlsMigration.Bench2 (Want TlsRead TlsWrite)

/-! ## §1. The system. -/

/-- The connection, what the client sends and has not been read, and what has been written to each
connection to the gateway. -/
structure Client where
  s : Conn
  unread : Bytes
  upstreams : List Bytes
  deriving DecidableEq

/-- How much a read asks for. -/
def Conn.room (s : Conn) : Int :=
  match s.pc with
  | .read_headers =>
      ((if s.cap < s.req.length + 4096 then s.cap * 2 else s.cap : Nat) : Int) - s.req.length - 1
  | .read_body => toInt (s.cl - s.body_in_buf)
  | _ => 0

/-- What is written goes to the connection that was opened last. -/
def writeLast (upstreams : List Bytes) (d : Bytes) : List Bytes :=
  match upstreams.getLast? with
  | none => []
  | some b => upstreams.dropLast ++ [b ++ d]

def Client.apply (f : Client) (r : Conn × Event) : Client :=
  match r.2 with
  | .tls_read d => { f with s := r.1, unread := f.unread.drop d.length }
  | .connected => { f with s := r.1, upstreams := f.upstreams ++ [[]] }
  | .write d => { f with s := r.1, upstreams := writeLast f.upstreams d }
  | _ => { f with s := r.1 }

/-- A read returns what comes next, and no more than it asked for; a write takes no more than it
is given. -/
structure Client.Legal (f : Client) (c : Calls) : Prop where
  read : ∀ d, (conn_iter f.s c).2 = .tls_read d →
    d ≠ [] ∧ d <+: f.unread ∧ (d.length : Int) ≤ f.s.room
  write : f.s.pc = .write_request → ∀ n, c.write = .wrote n → n ≤ f.s.req.length - f.s.written

/-- The client sends the requests `qs`; everything else is left open. -/
def clientSystem (qs : List Request) : TransitionSystem Client Calls where
  init f := f = ⟨Conn.fresh, (qs.map Request.bytes).flatten, []⟩
  step f c f' := f.Legal c ∧ f' = f.apply (conn_iter f.s c)

/-- The proxy waits for the client. -/
def Conn.Waits (s : Conn) : Prop :=
  s.pc = .read_headers ∨ (s.pc = .read_body ∧ s.body_in_buf < s.cl)

/-- Each request goes to a connection of its own, whole and alone, and none is left behind. -/
structure ForwardsExactly (qs : List Request) (f : Client) : Prop where
  /-- the connections in turn; the last one may be cut short by its writes -/
  exact : ∃ k part, f.upstreams = (qs.take k).map Request.bytes ++ part
    ∧ (part = [] ∨ ∃ q b, qs[k]? = some q ∧ part = [b] ∧ b <+: q.bytes
        ∧ (f.s.pc = .write_request ∨ f.s.pc = .done .failed))
  /-- when the proxy waits and nothing more is coming, all requests have been forwarded -/
  waits : f.s.Waits → f.unread = [] → f.upstreams = qs.map Request.bytes
  /-- a connection is closed at a request that asks for it -/
  asked : f.s.pc = .done .asked → ∃ k q, f.upstreams = (qs.take (k + 1)).map Request.bytes
    ∧ qs[k]? = some q ∧ ∃ l ∈ q.lines, closesConnection l = true
  /-- or at one that is too large -/
  too_large : f.s.pc = .done .too_large → ∃ q, qs[f.upstreams.length]? = some q
    ∧ f.upstreams = (qs.take f.upstreams.length).map Request.bytes
    ∧ (256 * 1024 < q.head.length ∨ 2 ^ 31 ≤ q.body.length)

/-- A read of headers does not go past the end of the request that is being read. -/
def StaysInside (qs : List Request) (f : Client) (c : Calls) : Prop :=
  f.s.pc = .read_headers → ∀ d, c.tls_read = .data d → ∀ q, qs[f.upstreams.length]? = some q →
    f.s.req.length + d.length ≤ q.bytes.length

/-! ## §2. The head of a request. -/

variable {q : Request} {qs : List Request}

theorem head_eq : q.head = joinLines q.lines ++ crlfcrlf := by
  have hne : q.lines ≠ [] := by simp [Request.lines]
  unfold Request.head
  rw [block_append, ← joinLines_crlf hne]
  simp [crlf, crlfcrlf]

theorem joinLines_length : (joinLines q.lines).length = q.head.length - 4 := by
  rw [head_eq, List.length_append]
  rfl

/-- A part of a request that has the empty line has the whole head. -/
theorem head_of_found {b : Bytes} {e : Nat} (hb : b <+: q.bytes)
    (h : find_double_crlf b = some e) :
    ∃ t, b = q.head ++ t ∧ t <+: q.body ∧ e = q.head.length - 4 := by
  have hlen : q.head.length ≤ b.length := by
    -- a part that ends inside the head has no empty line
    by_contra hlt
    have hpart : b = q.head.take b.length := by
      obtain ⟨t, ht⟩ := hb
      have := congrArg (List.take b.length) ht
      rw [List.take_left, Request.bytes, List.take_append_of_le_length (by omega)] at this
      exact this
    rw [hpart] at h
    have hnone : find_double_crlf (q.head.take b.length) = none :=
      Request.crlfcrlf_partial (by omega)
    rw [hnone] at h
    cases h
  have hhead : q.head <+: b :=
    List.prefix_of_prefix_length_le (List.prefix_append q.head q.body) hb hlen
  obtain ⟨t, rfl⟩ := hhead
  refine ⟨t, rfl, (List.prefix_append_right_inj q.head).mp hb, ?_⟩
  have hfound : find_double_crlf (q.head ++ t) = some (q.head.length - 4) :=
    Request.crlfcrlf_head t
  rw [hfound] at h
  exact (Option.some.inj h).symm

theorem head_not_found {b t : Bytes} (hb : b <+: q.bytes ++ t) (h : find_double_crlf b = none) :
    b.length < q.head.length := by
  by_contra hle
  have hhead : q.head <+: b := by
    refine List.prefix_of_prefix_length_le ?_ hb (by omega)
    unfold Request.bytes
    rw [List.append_assoc]
    exact List.prefix_append _ _
  obtain ⟨u, rfl⟩ := hhead
  have hfound : find_double_crlf (q.head ++ u) = some (q.head.length - 4) :=
    Request.crlfcrlf_head u
  rw [hfound] at h
  cases h

/-- What the parsers make of the head. -/
theorem parse_head (t : Bytes) :
    (parse_content_length (q.head ++ t) (q.head.length - 4)).toNat
        = min LLONG_MAX.toNat q.body.length
      ∧ (has_connection_close (q.head ++ t) (q.head.length - 4) = true →
          ∃ l ∈ q.lines, closesConnection l = true) := by
  have hshape : q.head ++ t = joinLines q.lines ++ Ch.cr :: (Ch.lf :: Ch.cr :: Ch.lf :: t) := by
    rw [head_eq]
    simp [crlfcrlf]
  have hlines : ∀ l ∈ q.lines, IsLine l ∧ l ≠ [] := q.isLine
  rw [hshape, ← joinLines_length]
  constructor
  · -- the line that declares the length is the first one that the loop likes
    rcases q.declares with ⟨pre, l, post, hls, hl, hmiss⟩ | ⟨hzero, hmiss⟩
    · have hq : q.lines = pre ++ l :: post := hls
      rw [hq] at hlines ⊢
      rw [parse_content_length_hit hl hlines hmiss]
      unfold LLONG_MAX
      omega
    · rw [parse_content_length_none (fun l hl => (hlines l hl).1) hmiss, hzero]
      rfl
  · intro hclose
    by_contra hno
    have hkeep : ∀ l ∈ q.lines, closesConnection l = false := by
      intro l hl
      cases hc : closesConnection l with
      | false => rfl
      | true => exact absurd ⟨l, hl, hc⟩ hno
    rw [not_connection_close (fun l hl => (hlines l hl).1) hkeep] at hclose
    cases hclose

/-! ## §3. Where the requests are. -/

/-- The requests from number `k` on. -/
def restOf (qs : List Request) (k : Nat) : Bytes := ((qs.drop k).map Request.bytes).flatten

/-- The first `k` requests. -/
def firstOf (qs : List Request) (k : Nat) : List Bytes := (qs.take k).map Request.bytes

theorem restOf_cons {k : Nat} (hq : qs[k]? = some q) :
    restOf qs k = q.bytes ++ restOf qs (k + 1) := by
  obtain ⟨hk, rfl⟩ := List.getElem?_eq_some_iff.mp hq
  unfold restOf
  rw [List.drop_eq_getElem_cons hk]
  rfl

theorem restOf_end {k : Nat} (hq : qs[k]? = none) : restOf qs k = [] := by
  unfold restOf
  rw [List.drop_of_length_le (List.getElem?_eq_none_iff.mp hq)]
  rfl

theorem firstOf_succ {k : Nat} (hq : qs[k]? = some q) :
    firstOf qs (k + 1) = firstOf qs k ++ [q.bytes] := by
  unfold firstOf
  rw [List.take_add_one, hq]
  simp

theorem firstOf_length {k : Nat} (hk : k ≤ qs.length) : (firstOf qs k).length = k := by
  unfold firstOf
  rw [List.length_map, List.length_take]
  omega

theorem le_of_getElem? {k : Nat} (hq : qs[k]? = some q) : k ≤ qs.length := by
  obtain ⟨hk, -⟩ := List.getElem?_eq_some_iff.mp hq
  omega

/-- The head of the request `q` has been read. -/
structure Parsed (q : Request) (s : Conn) : Prop where
  part : s.req <+: q.bytes
  head : q.head.length ≤ s.req.length
  cl : s.cl = min LLONG_MAX.toNat q.body.length
  body_in_buf : s.body_in_buf = s.req.length - q.head.length
  -- a length that `strtol` cuts is never read
  small : LLONG_MAX.toNat < q.body.length → s.body_in_buf < 2 ^ 31
  close : s.req_close = true → ∃ l ∈ q.lines, closesConnection l = true

/-- The response is on its way. -/
def Pc.Responding (pc : Pc) : Prop :=
  pc = .read_resp_headers ∨ pc = .read_resp_body ∨ pc = .drain ∨ pc = .forward

instance (pc : Pc) : Decidable pc.Responding := inferInstanceAs (Decidable (_ ∨ _))

/-- Where request number `k` is. -/
inductive Stage (qs : List Request) (f : Client) : Prop where
  | headers (k : Nat) (hpc : f.s.pc = .read_headers) (hk : k ≤ qs.length)
      (hup : f.upstreams = firstOf qs k) (hin : f.s.req ++ f.unread = restOf qs k)
      (hnone : find_double_crlf f.s.req = none) (hcap : f.s.cap ≤ 2 ^ 20)
  | body (k : Nat) (q : Request) (hq : qs[k]? = some q)
      (hpc : f.s.pc = .read_body ∨ (f.s.pc = .connect ∧ f.s.req = q.bytes))
      (hup : f.upstreams = firstOf qs k) (hin : f.s.req ++ f.unread = restOf qs k)
      (hparsed : Parsed q f.s)
  | writing (k : Nat) (q : Request) (hq : qs[k]? = some q) (hpc : f.s.pc = .write_request)
      (hup : f.upstreams = firstOf qs k ++ [q.bytes.take f.s.written])
      (hreq : f.s.req = q.bytes) (hle : f.s.written ≤ f.s.req.length)
      (hin : f.unread = restOf qs (k + 1))
      (hclose : f.s.req_close = true → ∃ l ∈ q.lines, closesConnection l = true)
  | responding (k : Nat) (q : Request) (hq : qs[k]? = some q)
      (hpc : f.s.pc.Responding)
      (hup : f.upstreams = firstOf qs (k + 1)) (hin : f.unread = restOf qs (k + 1))
      (hclose : f.s.req_close = true → ∃ l ∈ q.lines, closesConnection l = true)
  | failed (k : Nat) (part : List Bytes) (hpc : f.s.pc = .done .failed)
      (hup : f.upstreams = firstOf qs k ++ part)
      (hpart : part = [] ∨ ∃ q b, qs[k]? = some q ∧ part = [b] ∧ b <+: q.bytes)
  | asked (k : Nat) (q : Request) (hq : qs[k]? = some q) (hpc : f.s.pc = .done .asked)
      (hup : f.upstreams = firstOf qs (k + 1)) (hclose : ∃ l ∈ q.lines, closesConnection l = true)
  | too_large (k : Nat) (q : Request) (hq : qs[k]? = some q) (hpc : f.s.pc = .done .too_large)
      (hup : f.upstreams = firstOf qs k)
      (hlarge : 256 * 1024 < q.head.length ∨ 2 ^ 31 ≤ q.body.length)

theorem writeLast_append (us : List Bytes) (b d : Bytes) :
    writeLast (us ++ [b]) d = us ++ [b ++ d] := by
  unfold writeLast
  rw [List.getLast?_concat, List.dropLast_concat]

/-- While headers are read, the request that they are of is not complete. -/
theorem reading_request {k : Nat} {req unread : Bytes} (hin : req ++ unread = restOf qs k)
    (hnone : find_double_crlf req = none) (hne : req ++ unread ≠ []) :
    ∃ q, qs[k]? = some q ∧ req.length < q.head.length := by
  cases hq : qs[k]? with
  | none =>
      rw [restOf_end hq] at hin
      exact absurd hin hne
  | some q =>
      refine ⟨q, rfl, head_not_found (t := restOf qs (k + 1)) ?_ hnone⟩
      rw [← restOf_cons hq, ← hin]
      exact List.prefix_append _ _

/-! ## §4. One iteration. -/

theorem toInt_le (n : Nat) : toInt n ≤ n := by
  unfold toInt Int.bmod
  dsimp only
  split <;> omega

theorem toInt_pos {n : Nat} (hpos : 0 < n) (hlt : n < 2 ^ 31) : 0 < toInt n := by
  unfold toInt Int.bmod
  dsimp only
  split <;> omega

theorem toInt_LLONG_MAX {b : Nat} (hb : b < 2 ^ 31) : toInt (LLONG_MAX.toNat - b) ≤ 0 := by
  unfold toInt Int.bmod LLONG_MAX
  dsimp only
  split <;> omega

/-- After a read of headers that stays inside the request. -/
theorem Stage.parse {s : Conn} {unread : Bytes} {k : Nat} (hq : qs[k]? = some q)
    (hpc : s.pc = .read_headers) (hin : s.req ++ unread = restOf qs k) (hcap : s.cap ≤ 2 ^ 20)
    (hlen : s.req.length ≤ q.bytes.length) (hsmall : s.req.length < 2 ^ 31) :
    Stage qs ⟨parse_request s, unread, firstOf qs k⟩ := by
  -- a beginning of the stream that is no longer than the request lies inside it
  have hpart : s.req <+: q.bytes := by
    refine List.prefix_of_prefix_length_le ?_ (List.prefix_append q.bytes (restOf qs (k + 1))) hlen
    rw [← restOf_cons hq, ← hin]
    exact List.prefix_append _ _
  unfold parse_request
  cases hfind : find_double_crlf s.req with
  | none => exact .headers k hpc (le_of_getElem? hq) rfl hin hfind hcap
  | some e =>
      obtain ⟨t, ht, -, he⟩ := head_of_found hpart hfind
      obtain ⟨hcl, hclose⟩ := parse_head (q := q) t
      have h4 := Request.four_lt_head (q := q)
      have hle : q.head.length ≤ s.req.length := by
        rw [ht, List.length_append]
        omega
      refine .body k q hq (Or.inl rfl) rfl hin ⟨hpart, hle, ?_, ?_, ?_, ?_⟩
      · show (parse_content_length s.req e).toNat = _
        rw [he, ht]
        exact hcl
      · show s.req.length - (e + 4) = s.req.length - q.head.length
        omega
      · intro _
        show s.req.length - (e + 4) < 2 ^ 31
        omega
      · show has_connection_close s.req e = true → _
        rw [he, ht]
        exact hclose

variable {f : Client} {c : Calls}

theorem Stage.step_headers {k : Nat} (hpc : f.s.pc = .read_headers) (hk : k ≤ qs.length)
    (hup : f.upstreams = firstOf qs k) (hin : f.s.req ++ f.unread = restOf qs k)
    (hnone : find_double_crlf f.s.req = none) (hcap : f.s.cap ≤ 2 ^ 20)
    (hlegal : f.Legal c) (hinside : StaysInside qs f c) :
    Stage qs (f.apply (conn_iter f.s c)) := by
  have hread := hlegal.read
  have hroom : f.s.room = ((if f.s.cap < f.s.req.length + 4096 then f.s.cap * 2 else f.s.cap : Nat)
      : Int) - f.s.req.length - 1 := by
    unfold Conn.room
    rw [hpc]
  have hiter : conn_iter f.s c = read_headers_iter f.s c := by
    unfold conn_iter
    rw [hpc]
  rw [hiter] at hread ⊢
  unfold read_headers_iter at hread ⊢
  by_cases hlarge : 256 * 1024 ≤ f.s.req.length
  · rw [if_pos hlarge]
    -- 256 KiB and still no empty line: it is the head that is too large
    obtain ⟨q, hq, hlt⟩ := reading_request hin hnone (by
      intro hnil
      rw [(List.append_eq_nil_iff.mp hnil).1] at hlarge
      simp at hlarge)
    exact .too_large k q hq rfl hup (Or.inl (by omega))
  · rw [if_neg hlarge] at hread ⊢
    by_cases halloc : f.s.cap < f.s.req.length + 4096 ∧ c.alloc_ok = false
    · rw [if_pos halloc]
      exact .failed k [] rfl (by rw [List.append_nil]; exact hup) (Or.inl rfl)
    · rw [if_neg halloc] at hread ⊢
      have hcap' : (if f.s.cap < f.s.req.length + 4096 then f.s.cap * 2 else f.s.cap) ≤ 2 ^ 20 := by
        split <;> omega
      cases hc : c.tls_read with
      | none err =>
          cases err with
          | error => exact .failed k [] rfl (by rw [List.append_nil]; exact hup) (Or.inl rfl)
          | want_read => exact .headers k hpc hk hup hin hnone hcap'
          | want_write => exact .headers k hpc hk hup hin hnone hcap'
      | data d =>
          rw [hc] at hread
          obtain ⟨hne, ⟨u, hu⟩, hle⟩ := hread d rfl
          have hunread : f.unread.drop d.length = u := by
            rw [← hu, List.drop_left]
          obtain ⟨q, hq, -⟩ := reading_request hin hnone (by
            rw [← hu]
            simp [hne])
          -- the only use of the condition: what was read belongs to this request
          have hlen := hinside hpc d hc q (by rw [hup, firstOf_length hk]; exact hq)
          have hsmall : (f.s.req ++ d).length < 2 ^ 31 := by
            rw [List.length_append]
            omega
          show Stage qs ⟨parse_request _, f.unread.drop d.length, f.upstreams⟩
          rw [hunread, hup]
          refine .parse hq hpc ?_ hcap' (by rw [List.length_append]; exact hlen) hsmall
          show (f.s.req ++ d) ++ u = _
          rw [List.append_assoc, hu, hin]

/-- While a body is read. -/
theorem Stage.step_body {k : Nat} (hq : qs[k]? = some q) (hpc : f.s.pc = .read_body)
    (hup : f.upstreams = firstOf qs k) (hin : f.s.req ++ f.unread = restOf qs k)
    (hparsed : Parsed q f.s) (hlegal : f.Legal c) : Stage qs (f.apply (conn_iter f.s c)) := by
  have hread := hlegal.read
  have hroom : f.s.room = toInt (f.s.cl - f.s.body_in_buf) := by
    unfold Conn.room
    rw [hpc]
  have hiter : conn_iter f.s c = read_body_iter f.s c := by
    unfold conn_iter
    rw [hpc]
  have hpart := hparsed.part.length_le
  have hhead := hparsed.head
  have hcl := hparsed.cl
  have hbuf := hparsed.body_in_buf
  rw [Request.bytes_length] at hpart
  rw [hiter] at hread ⊢
  unfold read_body_iter at hread ⊢
  by_cases hmore : f.s.body_in_buf < f.s.cl
  · rw [if_pos hmore] at hread ⊢
    dsimp only at hread ⊢
    by_cases halloc : f.s.cap < f.s.header_bytes + f.s.cl + 1 ∧ c.alloc_ok = false
    · rw [if_pos halloc]
      exact .failed k [] rfl (by rw [List.append_nil]; exact hup) (Or.inl rfl)
    · rw [if_neg halloc] at hread ⊢
      by_cases hint : toInt (f.s.cl - f.s.body_in_buf) ≤ 0
      · rw [if_pos hint]
        -- `wolfSSL_read` refuses a length that is not positive
        have hbig : 2 ^ 31 ≤ f.s.cl - f.s.body_in_buf := by
          by_contra hlt
          have hpos := toInt_pos (n := f.s.cl - f.s.body_in_buf) (by omega) (by omega)
          omega
        exact .too_large k q hq rfl hup (Or.inr (by omega))
      · rw [if_neg hint] at hread ⊢
        cases hc : c.tls_read with
        | none err =>
            have hsame : Stage qs { f with s := { f.s with
                cap := max f.s.cap (f.s.header_bytes + f.s.cl + 1) } } :=
              .body k q hq (Or.inl hpc) hup hin
                ⟨hparsed.part, hhead, hcl, hbuf, hparsed.small, hparsed.close⟩
            cases err with
            | error => exact .failed k [] rfl (by rw [List.append_nil]; exact hup) (Or.inl rfl)
            | want_read => exact hsame
            | want_write => exact hsame
        | data d =>
            rw [hc] at hread
            obtain ⟨hne, ⟨u, hu⟩, hle⟩ := hread d rfl
            have hfits := toInt_le (f.s.cl - f.s.body_in_buf)
            rw [hroom] at hle
            -- a length that has been cut asks for a negative number of bytes
            have hshort : ¬ LLONG_MAX.toNat < q.body.length := by
              intro hbig
              have hsmall := hparsed.small hbig
              have hcut : f.s.cl = LLONG_MAX.toNat := by omega
              rw [hcut] at hint
              exact hint (toInt_LLONG_MAX hsmall)
            have hin' : (f.s.req ++ d) ++ u = restOf qs k := by
              rw [List.append_assoc, hu, hin]
            have hpart' : f.s.req ++ d <+: q.bytes := by
              refine List.prefix_of_prefix_length_le ?_
                (List.prefix_append q.bytes (restOf qs (k + 1))) ?_
              · rw [← restOf_cons hq, ← hin']
                exact List.prefix_append _ _
              · rw [List.length_append, Request.bytes_length]
                omega
            have hunread : f.unread.drop d.length = u := by
              rw [← hu, List.drop_left]
            refine .body k q hq (Or.inl hpc) hup ?_ ⟨hpart', ?_, hcl, ?_, ?_, hparsed.close⟩
            · show (f.s.req ++ d) ++ f.unread.drop d.length = _
              rw [hunread]
              exact hin'
            · show q.head.length ≤ (f.s.req ++ d).length
              rw [List.length_append]
              omega
            · show f.s.body_in_buf + d.length = (f.s.req ++ d).length - q.head.length
              rw [List.length_append]
              omega
            · intro hbig
              exact absurd hbig hshort
  · rw [if_neg hmore]
    -- `strtol` stops at LLONG_MAX, and a length cut there was refused above
    have hshort : ¬ LLONG_MAX.toNat < q.body.length := by
      intro hbig
      have hsmall := hparsed.small hbig
      unfold LLONG_MAX at *
      omega
    have hwhole : f.s.req = q.bytes := by
      refine hparsed.part.eq_of_length ?_
      rw [Request.bytes_length]
      omega
    exact .body k q hq (Or.inr ⟨rfl, hwhole⟩) hup hin
      ⟨hparsed.part, hhead, hcl, hbuf, hparsed.small, hparsed.close⟩

/-- Connecting. -/
theorem Stage.step_connect {k : Nat} (hq : qs[k]? = some q) (hpc : f.s.pc = .connect)
    (hreq : f.s.req = q.bytes) (hup : f.upstreams = firstOf qs k)
    (hin : f.s.req ++ f.unread = restOf qs k) (hparsed : Parsed q f.s) :
    Stage qs (f.apply (conn_iter f.s c)) := by
  have hiter : conn_iter f.s c = connect_iter f.s c := by
    unfold conn_iter
    rw [hpc]
  rw [hiter]
  unfold connect_iter
  cases hconn : c.connect_ok with
  | false => exact .failed k [] rfl (by rw [List.append_nil]; exact hup) (Or.inl rfl)
  | true =>
      refine .writing k q hq rfl ?_ hreq (Nat.zero_le _) ?_ hparsed.close
      · show f.upstreams ++ [[]] = _
        rw [hup]
        rfl
      · rw [hreq, restOf_cons hq] at hin
        exact List.append_cancel_left hin

/-- Writing a request. -/
theorem Stage.step_writing {k : Nat} (hq : qs[k]? = some q) (hpc : f.s.pc = .write_request)
    (hup : f.upstreams = firstOf qs k ++ [q.bytes.take f.s.written]) (hreq : f.s.req = q.bytes)
    (hle : f.s.written ≤ f.s.req.length) (hin : f.unread = restOf qs (k + 1))
    (hclose : f.s.req_close = true → ∃ l ∈ q.lines, closesConnection l = true)
    (hlegal : f.Legal c) : Stage qs (f.apply (conn_iter f.s c)) := by
  have hwrite := hlegal.write hpc
  have hpart : ∀ pc, pc = Pc.done .failed → Stage qs { f with s := { f.s with pc := pc } } := by
    intro pc h
    exact .failed k _ h hup (Or.inr ⟨q, _, hq, rfl, List.take_prefix _ _⟩)
  have hiter : conn_iter f.s c = write_request_iter f.s c := by
    unfold conn_iter
    rw [hpc]
  rw [hiter]
  unfold write_request_iter
  by_cases hmore : f.s.written < f.s.req.length
  · rw [if_pos hmore]
    cases hc : c.write with
    | eintr => exact .writing k q hq hpc hup hreq hle hin hclose
    | error => exact hpart _ rfl
    | wrote n =>
        have hn := hwrite n hc
        refine .writing k q hq hpc ?_ hreq ?_ hin hclose
        · show writeLast f.upstreams ((f.s.req.drop f.s.written).take n)
            = firstOf qs k ++ [q.bytes.take (f.s.written + n)]
          rw [hup, writeLast_append, hreq, ← List.take_add]
        · show f.s.written + n ≤ f.s.req.length
          omega
  · rw [if_neg hmore]
    cases halloc : c.alloc_ok with
    | false => exact hpart _ rfl
    | true =>
        refine .responding k q hq (Or.inl rfl) ?_ hin hclose
        show f.upstreams = _
        -- everything is written, so the request counts as forwarded
        rw [hup, firstOf_succ hq, List.take_of_length_le]
        rw [← hreq]
        omega

/-- What an iteration makes of the variables while a response is on its way. -/
def Responds (s : Conn) (r : Conn × Event) : Prop :=
  (r.2 = .none ∨ (∃ d, r.2 = .read d) ∨ ∃ d, r.2 = .tls_write d)
    ∧ ((r.1.pc.Responding ∧ r.1.req_close = s.req_close) ∨ r.1.pc = .done .failed
      ∨ (r.1.pc = .done .asked ∧ s.req_close = true) ∨ r.1 = Conn.fresh)

theorem Responds.goes_on {s : Conn} {r : Conn × Event}
    (hev : r.2 = .none ∨ (∃ d, r.2 = .read d) ∨ ∃ d, r.2 = .tls_write d)
    (hpc : r.1.pc.Responding) (hclose : r.1.req_close = s.req_close) : Responds s r :=
  ⟨hev, Or.inl ⟨hpc, hclose⟩⟩

theorem response_headers_pc (s : Conn) (rhdr_end : Option Nat) :
    (response_headers s rhdr_end).pc.Responding := by
  have hpc : (response_headers s rhdr_end).pc = .read_resp_body
      ∨ (response_headers s rhdr_end).pc = .drain := by
    unfold response_headers
    dsimp only
    split
    · split
      · exact Or.inl rfl
      · exact Or.inr rfl
    · split
      · exact Or.inl rfl
      · exact Or.inr rfl
  rcases hpc with hpc | hpc <;> rw [hpc] <;> decide

theorem responds_read_resp_headers {s : Conn} (hpc : s.pc = .read_resp_headers) (c : Calls) :
    Responds s (read_resp_headers_iter s c) := by
  have hresp : s.pc.Responding := Or.inl hpc
  unfold read_resp_headers_iter
  split
  · exact ⟨Or.inl rfl, Or.inr (Or.inl rfl)⟩
  · dsimp only
    split
    · exact .goes_on (Or.inl rfl) hresp rfl
    · exact .goes_on (Or.inl rfl) (response_headers_pc _ _) rfl
    · split
      · exact .goes_on (Or.inl rfl) (response_headers_pc _ _) rfl
      · split
        · exact .goes_on (Or.inr (Or.inl ⟨_, rfl⟩)) (response_headers_pc _ _) rfl
        · exact .goes_on (Or.inr (Or.inl ⟨_, rfl⟩)) hresp rfl

theorem responds_read_resp_body {s : Conn} (hpc : s.pc = .read_resp_body) (c : Calls) :
    Responds s (read_resp_body_iter s c) := by
  have hresp : s.pc.Responding := Or.inr (Or.inl hpc)
  have hforward : Pc.forward.Responding := by decide
  unfold read_resp_body_iter
  split
  · split
    · exact .goes_on (Or.inl rfl) hforward rfl
    · dsimp only
      split
      · exact .goes_on (Or.inl rfl) hresp rfl
      · exact .goes_on (Or.inl rfl) hforward rfl
      · split
        · exact .goes_on (Or.inl rfl) hforward rfl
        · exact .goes_on (Or.inr (Or.inl ⟨_, rfl⟩)) hresp rfl
  · exact .goes_on (Or.inl rfl) hforward rfl

theorem responds_drain {s : Conn} (hpc : s.pc = .drain) (c : Calls) :
    Responds s (drain_iter s c) := by
  have hresp : s.pc.Responding := Or.inr (Or.inr (Or.inl hpc))
  have hforward : Pc.forward.Responding := by decide
  unfold drain_iter
  split
  · exact .goes_on (Or.inl rfl) hforward rfl
  · dsimp only
    split
    · exact .goes_on (Or.inl rfl) hresp rfl
    · exact .goes_on (Or.inl rfl) hforward rfl
    · split
      · exact .goes_on (Or.inl rfl) hforward rfl
      · exact .goes_on (Or.inr (Or.inl ⟨_, rfl⟩)) hresp rfl

theorem responds_forward {s : Conn} (hpc : s.pc = .forward) (c : Calls) :
    Responds s (forward_iter s c) := by
  have hresp : s.pc.Responding := Or.inr (Or.inr (Or.inr hpc))
  unfold forward_iter
  split
  · split
    · exact ⟨Or.inl rfl, Or.inr (Or.inl rfl)⟩
    · split
      · exact .goes_on (Or.inr (Or.inr ⟨_, rfl⟩)) hresp rfl
      · exact ⟨Or.inl rfl, Or.inr (Or.inl rfl)⟩
      · exact .goes_on (Or.inl rfl) hresp rfl
  · split
    next hclose => exact ⟨Or.inl rfl, Or.inr (Or.inr (Or.inl ⟨rfl, hclose⟩))⟩
    next =>
      split
      · exact ⟨Or.inl rfl, Or.inr (Or.inr (Or.inr rfl))⟩
      · exact ⟨Or.inl rfl, Or.inr (Or.inl rfl)⟩

theorem responds_iter {s : Conn} (hpc : s.pc.Responding) (c : Calls) :
    Responds s (conn_iter s c) := by
  unfold conn_iter
  rcases hpc with hpc | hpc | hpc | hpc
  · rw [hpc]
    exact responds_read_resp_headers hpc c
  · rw [hpc]
    exact responds_read_resp_body hpc c
  · rw [hpc]
    exact responds_drain hpc c
  · rw [hpc]
    exact responds_forward hpc c

/-- While a response is on its way. -/
theorem Stage.step_responding {k : Nat} (hq : qs[k]? = some q) (hpc : f.s.pc.Responding)
    (hup : f.upstreams = firstOf qs (k + 1)) (hin : f.unread = restOf qs (k + 1))
    (hclose : f.s.req_close = true → ∃ l ∈ q.lines, closesConnection l = true) :
    Stage qs (f.apply (conn_iter f.s c)) := by
  obtain ⟨hev, hs⟩ := responds_iter hpc c
  have happly : f.apply (conn_iter f.s c) = { f with s := (conn_iter f.s c).1 } := by
    unfold Client.apply
    rcases hev with h | ⟨d, h⟩ | ⟨d, h⟩ <;> rw [h]
  rw [happly]
  rcases hs with ⟨hresp, hsame⟩ | hfailed | ⟨hasked, hyes⟩ | hfresh
  · exact .responding k q hq hresp hup hin (by
      show (conn_iter f.s c).1.req_close = true → _
      rw [hsame]
      exact hclose)
  · exact .failed (k + 1) [] hfailed (by rw [List.append_nil]; exact hup) (Or.inl rfl)
  · exact .asked k q hq hasked hup (hclose hyes)
  · -- a response has been handed over, and the buffer for the next request is a new one
    have hlt : k + 1 ≤ qs.length := by
      obtain ⟨hk, -⟩ := List.getElem?_eq_some_iff.mp hq
      omega
    rw [hfresh]
    exact .headers (k + 1) rfl hlt hup (by rw [← hin]; rfl) rfl (show 65536 ≤ 2 ^ 20 by decide)

/-- **Every iteration keeps track of the requests.** -/
theorem Stage.step (h : Stage qs f) (hlegal : f.Legal c) (hinside : StaysInside qs f c) :
    Stage qs (f.apply (conn_iter f.s c)) := by
  have hdone : ∀ {why}, f.s.pc = .done why → f.apply (conn_iter f.s c) = f := by
    intro why hpc
    have hiter : conn_iter f.s c = (f.s, .none) := by
      unfold conn_iter
      rw [hpc]
    rw [hiter]
    rfl
  cases h with
  | headers k hpc hk hup hin hnone hcap =>
      exact .step_headers hpc hk hup hin hnone hcap hlegal hinside
  | body k q hq hpc hup hin hparsed =>
      rcases hpc with hpc | ⟨hpc, hreq⟩
      · exact .step_body hq hpc hup hin hparsed hlegal
      · exact .step_connect hq hpc hreq hup hin hparsed
  | writing k q hq hpc hup hreq hle hin hclose =>
      exact .step_writing hq hpc hup hreq hle hin hclose hlegal
  | responding k q hq hpc hup hin hclose => exact .step_responding hq hpc hup hin hclose
  | failed k part hpc hup hpart =>
      rw [hdone hpc]
      exact .failed k part hpc hup hpart
  | asked k q hq hpc hup hclose =>
      rw [hdone hpc]
      exact .asked k q hq hpc hup hclose
  | too_large k q hq hpc hup hlarge =>
      rw [hdone hpc]
      exact .too_large k q hq hpc hup hlarge

/-! ## §5. All requests. -/

theorem Client.fresh_stage (qs : List Request) :
    Stage qs ⟨Conn.fresh, (qs.map Request.bytes).flatten, []⟩ :=
  .headers 0 rfl (Nat.zero_le _) rfl rfl rfl (show 65536 ≤ 2 ^ 20 by decide)

theorem firstOf_all {k : Nat} (hk : qs[k]? = none) : firstOf qs k = qs.map Request.bytes := by
  unfold firstOf
  rw [List.take_of_length_le (List.getElem?_eq_none_iff.mp hk)]

/-- With nothing to come, the proxy waits only when all requests have been forwarded. -/
theorem Stage.waits (h : Stage qs f) (hwaits : f.s.Waits) (hnil : f.unread = []) :
    f.upstreams = qs.map Request.bytes := by
  cases h with
  | headers k hpc hk hup hin hnone hcap =>
      cases hq : qs[k]? with
      | none => rw [hup, firstOf_all hq]
      | some q =>
          -- the whole request would have been read
          rw [hnil, List.append_nil, restOf_cons hq] at hin
          have hpre : f.s.req <+: q.bytes ++ restOf qs (k + 1) := hin ▸ List.prefix_rfl
          have hlt := head_not_found hpre hnone
          rw [hin, List.length_append, Request.bytes_length] at hlt
          omega
  | body k q hq hpc hup hin hparsed =>
      rw [hnil, List.append_nil, restOf_cons hq] at hin
      -- all that the client sent has been read, so the body is complete
      have hlen := hparsed.part.length_le
      have hreq : f.s.req = q.bytes := by
        refine hparsed.part.eq_of_length ?_
        have hlen' := congrArg List.length hin
        rw [List.length_append] at hlen'
        omega
      have hcl := hparsed.cl
      have hbuf := hparsed.body_in_buf
      rw [hreq, Request.bytes_length] at hbuf
      rcases hwaits with hpc' | ⟨hpc', hmore⟩
      · rcases hpc with hpc | ⟨hpc, -⟩ <;> rw [hpc] at hpc' <;> cases hpc'
      · omega
  | writing k q hq hpc => rcases hwaits with h | ⟨h, -⟩ <;> rw [hpc] at h <;> cases h
  | responding k q hq hpc =>
      rcases hwaits with h | ⟨h, -⟩ <;> rw [h] at hpc <;> exact absurd hpc (by decide)
  | failed k part hpc => rcases hwaits with h | ⟨h, -⟩ <;> rw [hpc] at h <;> cases h
  | asked k q hq hpc => rcases hwaits with h | ⟨h, -⟩ <;> rw [hpc] at h <;> cases h
  | too_large k q hq hpc => rcases hwaits with h | ⟨h, -⟩ <;> rw [hpc] at h <;> cases h

theorem Stage.exact (h : Stage qs f) :
    ∃ k part, f.upstreams = (qs.take k).map Request.bytes ++ part
      ∧ (part = [] ∨ ∃ q b, qs[k]? = some q ∧ part = [b] ∧ b <+: q.bytes
          ∧ (f.s.pc = .write_request ∨ f.s.pc = .done .failed)) := by
  have hwhole : ∀ {k}, f.upstreams = firstOf qs k → ∃ k part,
      f.upstreams = (qs.take k).map Request.bytes ++ part
        ∧ (part = [] ∨ ∃ q b, qs[k]? = some q ∧ part = [b] ∧ b <+: q.bytes
            ∧ (f.s.pc = .write_request ∨ f.s.pc = .done .failed)) := by
    intro k hup
    exact ⟨k, [], by rw [List.append_nil]; exact hup, Or.inl rfl⟩
  cases h with
  | headers k hpc hk hup => exact hwhole hup
  | body k q hq hpc hup => exact hwhole hup
  | writing k q hq hpc hup =>
      exact ⟨k, _, hup, Or.inr ⟨q, _, hq, rfl, List.take_prefix _ _, Or.inl hpc⟩⟩
  | responding k q hq hpc hup => exact hwhole hup
  | failed k part hpc hup hpart =>
      refine ⟨k, part, hup, ?_⟩
      rcases hpart with hnil | ⟨q, b, hq, hb, hpre⟩
      · exact Or.inl hnil
      · exact Or.inr ⟨q, b, hq, hb, hpre, Or.inr hpc⟩
  | asked k q hq hpc hup => exact hwhole hup
  | too_large k q hq hpc hup => exact hwhole hup

theorem Stage.asked_at (h : Stage qs f) (hpc' : f.s.pc = .done .asked) :
    ∃ k q, f.upstreams = (qs.take (k + 1)).map Request.bytes ∧ qs[k]? = some q
      ∧ ∃ l ∈ q.lines, closesConnection l = true := by
  cases h with
  | asked k q hq hpc hup hclose => exact ⟨k, q, hup, hq, hclose⟩
  | headers k hpc => rw [hpc] at hpc'; cases hpc'
  | body k q hq hpc => rcases hpc with hpc | ⟨hpc, -⟩ <;> rw [hpc] at hpc' <;> cases hpc'
  | writing k q hq hpc => rw [hpc] at hpc'; cases hpc'
  | responding k q hq hpc => rw [hpc'] at hpc; exact absurd hpc (by decide)
  | failed k part hpc => rw [hpc] at hpc'; cases hpc'
  | too_large k q hq hpc => rw [hpc] at hpc'; cases hpc'

theorem Stage.too_large_at (h : Stage qs f) (hpc' : f.s.pc = .done .too_large) :
    ∃ q, qs[f.upstreams.length]? = some q
      ∧ f.upstreams = (qs.take f.upstreams.length).map Request.bytes
      ∧ (256 * 1024 < q.head.length ∨ 2 ^ 31 ≤ q.body.length) := by
  cases h with
  | too_large k q hq hpc hup hlarge =>
      -- no connection has been opened for this request
      have hlen : f.upstreams.length = k := by rw [hup, firstOf_length (le_of_getElem? hq)]
      rw [hlen]
      exact ⟨q, hq, hup, hlarge⟩
  | headers k hpc => rw [hpc] at hpc'; cases hpc'
  | body k q hq hpc => rcases hpc with hpc | ⟨hpc, -⟩ <;> rw [hpc] at hpc' <;> cases hpc'
  | writing k q hq hpc => rw [hpc] at hpc'; cases hpc'
  | responding k q hq hpc => rw [hpc'] at hpc; exact absurd hpc (by decide)
  | failed k part hpc => rw [hpc] at hpc'; cases hpc'
  | asked k q hq hpc => rw [hpc] at hpc'; cases hpc'

/-- `GET /`, without headers. -/
def getRoot : Request where
  line := ascii "GET / HTTP/1.1"
  headers := []
  body := []
  isLine := by
    intro l hl
    revert l
    decide +kernel
  declares := Or.inr ⟨rfl, by decide +kernel⟩

/-- `POST /` with five bytes. -/
def postFive : Request where
  line := ascii "POST / HTTP/1.1"
  headers := [ascii "Content-Length: 5"]
  body := ascii "hello"
  isLine := by
    intro l hl
    revert l
    decide +kernel
  declares := Or.inl ⟨[ascii "POST / HTTP/1.1"], ascii "Content-Length: 5", [], rfl,
    ⟨ascii "Content-Length:", ascii " ", ascii "5", [], by decide +kernel⟩, by decide +kernel⟩

def okResponse : Bytes := ascii "HTTP/1.1 200 OK\r\nContent-Length: 2\r\n\r\nok"

/-- Calls that succeed: a read of the client returns `d`, a write to the gateway takes `n` bytes,
and the gateway answers. -/
def answered (d : Bytes) (n : Nat) : Calls where
  alloc_ok := true
  tls_read := .data d
  connect_ok := true
  write := .wrote n
  read := .data okResponse
  tls_write := .wrote okResponse.length

def Client.start (qs : List Request) : Client := ⟨Conn.fresh, (qs.map Request.bytes).flatten, []⟩

/-- The conditions of a step, to be evaluated. -/
def Client.Allowed (qs : List Request) (inside : Bool) (f : Client) (c : Calls) : Bool :=
  (match (conn_iter f.s c).2 with
    | .tls_read d => decide (d ≠ [] ∧ d.isPrefixOf f.unread ∧ (d.length : Int) ≤ f.s.room)
    | _ => true)
  && (match f.s.pc, c.write with
    | .write_request, .wrote n => decide (n ≤ f.s.req.length - f.s.written)
    | _, _ => true)
  && (match f.s.pc, c.tls_read, qs[f.upstreams.length]? with
    | .read_headers, .data d, some q => decide (inside → f.s.req.length + d.length ≤ q.bytes.length)
    | _, _, _ => true)

theorem Client.Allowed.spec {qs : List Request} {inside : Bool} {f : Client} {c : Calls}
    (h : f.Allowed qs inside c = true) : f.Legal c ∧ (inside = true → StaysInside qs f c) := by
  unfold Client.Allowed at h
  simp only [Bool.and_eq_true] at h
  obtain ⟨⟨hread, hwrite⟩, hin⟩ := h
  refine ⟨⟨?_, ?_⟩, ?_⟩
  · intro d hd
    rw [hd] at hread
    simp only [decide_eq_true_eq] at hread
    exact ⟨hread.1, List.isPrefixOf_iff_prefix.mp hread.2.1, hread.2.2⟩
  · intro hpc n hn
    rw [hpc, hn] at hwrite
    simpa using hwrite
  · intro hinside hpc d hd q hq
    rw [hpc, hd, hq] at hin
    simp only [decide_eq_true_eq] at hin
    exact hin hinside

/-- An iteration, if its calls are allowed. -/
def Client.play (qs : List Request) (inside : Bool) (f : Client) (c : Calls) : Option Client :=
  if f.Allowed qs inside c then some (f.apply (conn_iter f.s c)) else none

theorem reachable_played {qs : List Request} {f : Client} {cs : List Calls} (inside : Bool)
    (h : TransitionSystem.stepAll (Client.play qs inside) (Client.start qs) cs = some f) :
    ((clientSystem qs).restrict fun f c => inside = true → StaysInside qs f c).Reachable f := by
  refine TransitionSystem.Reachable.stepAll (P := fun _ => true) (.init rfl) ?_
    (List.all_eq_true.mpr fun _ _ => rfl) h
  intro f c f' _ hplay
  unfold Client.play at hplay
  split at hplay
  next hallowed =>
    obtain rfl := Option.some.inj hplay
    obtain ⟨hlegal, hinside⟩ := Client.Allowed.spec hallowed
    exact ⟨⟨hlegal, rfl⟩, hinside⟩
  next => cases hplay

/-- `n` iterations that read nothing of the client and write nothing to the gateway. -/
def between (n : Nat) : List Calls := List.replicate n (answered [] 0)

/-- The first request comes in two reads and goes out in two writes; of the second one two bytes
of the body come with the headers. -/
def cutCalls : List Calls :=
  [answered (getRoot.bytes.take 10) 0, answered (getRoot.bytes.drop 10) 0] ++ between 2
    ++ [answered [] 10, answered [] 8] ++ between 5
    ++ [answered (postFive.head ++ ascii "he") 0, answered (ascii "llo") 0] ++ between 2
    ++ [answered [] postFive.bytes.length] ++ between 5

end TlsMigration.Proxy
