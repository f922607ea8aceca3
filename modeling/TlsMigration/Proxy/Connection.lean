/-
  TlsMigration.Proxy.Connection
  ─────────────────────────────
  **ONE CONNECTION OF THE TLS PROXY**
  (`handle_connection` and what it calls, bench2_vanilla_proxy.c).

  The proxy reads a request from its TLS client, opens a connection to the
  gateway, writes the request to it, reads the response, and writes that to
  the client; then comes the next request.  `conn_iter` is what happens from
  one blocking call to the next: the inner loops come back to the state they
  are in.  What the calls return is an argument (`Calls`).

    • `parse_content_length_hit`, `parse_content_length_none` — the length
      header in a block of lines;
    • `conn_iter` — one iteration, and what it moves.
-/
import TlsMigration.Bench2.Session
import TlsMigration.Http.Request

namespace TlsMigration.Proxy

open TlsMigration.Http
open TlsMigration.Bench2 (Want TlsRead TlsWrite)

/-! ## §1. Data. -/

/-- Why the connection is closed. -/
inductive Why where
  /-- the client asked for it -/
  | asked
  /-- `too large` -/
  | too_large
  /-- a call has failed -/
  | failed
  deriving DecidableEq

/-- The loop that `handle_connection` is in. -/
inductive Pc where
  | read_headers
  | read_body
  | connect
  | write_request
  | read_resp_headers
  | read_resp_body
  /-- `No Content-Length: drain until EOF` -/
  | drain
  /-- `wolfssl_write_all` of the response -/
  | forward
  | done (why : Why)
  deriving DecidableEq

/-- What `read` returns; no bytes stand for 0. -/
inductive Read where
  | data (bytes : Bytes)
  | eintr
  | error
  deriving DecidableEq

/-- What `write` returns. -/
inductive Write where
  | wrote (n : Nat)
  | eintr
  | error
  deriving DecidableEq

/-- What the calls of one iteration return. -/
structure Calls where
  /-- `malloc` or `realloc` -/
  alloc_ok : Bool
  tls_read : TlsRead
  connect_ok : Bool
  write : Write
  read : Read
  tls_write : TlsWrite

/-- The variables of `handle_connection`; `req` and `resp` hold `len` and `rlen` bytes, and
`written` and `forwarded` is how far `write_all` and `wolfssl_write_all` have come. -/
structure Conn where
  pc : Pc
  req : Bytes
  cap : Nat
  header_bytes : Nat
  cl : Nat
  req_close : Bool
  body_in_buf : Nat
  written : Nat
  resp : Bytes
  rcap : Nat
  resp_cl : Int
  resp_hdr_bytes : Nat
  resp_body_in : Nat
  forwarded : Nat
  deriving DecidableEq

/-- What an iteration moves from one connection to another. -/
inductive Event where
  | none
  /-- read from the client -/
  | tls_read (bytes : Bytes)
  /-- a new connection to the gateway -/
  | connected
  /-- written to the gateway -/
  | write (bytes : Bytes)
  /-- read from the gateway -/
  | read (bytes : Bytes)
  /-- written to the client -/
  | tls_write (bytes : Bytes)
  deriving DecidableEq

/-! ## §2. Headers. -/

def find_double_crlf (buf : Bytes) : Option Nat := find_subseq buf crlfcrlf

/-- The loop body of `parse_content_length`; `strtol` gives 0 where there is no number, and a
negative number is passed over. -/
def lengthOf (line h mem : Bytes) : Option Int :=
  if startsLower contentLength line then
    let val := (strtoll (mem.drop (contentLength.length
      + ((h.drop contentLength.length).takeWhile isBlank).length))).getD 0
    if 0 ≤ val then some val else none
  else none

/-- `parse_content_length`; the header block comes without the empty line. -/
def parse_content_length (hdr : Bytes) (hdr_len : Nat) : Int :=
  (scanLines lengthOf hdr_len (hdr.take hdr_len) hdr).getD (-1)

/-- `has_connection_close`. -/
def has_connection_close (hdr : Bytes) (hdr_len : Nat) : Bool :=
  (scanLines (fun line _ _ => if closesConnection line then some () else none)
    hdr_len (hdr.take hdr_len) hdr).isSome

/-! ### The headers of a block of lines -/

/-- The value in the line that is the length header; a CR follows the lines. -/
theorem lengthOf_hit {l : Bytes} {v : Nat} (hl : NumberLine contentLength l v) (post : List Bytes)
    (rest line : Bytes) (hline : line = l ∨ line = l ++ [Ch.cr]) :
    lengthOf line (joinLines (l :: post)) (joinLines (l :: post) ++ Ch.cr :: rest)
      = some (min LLONG_MAX (v : Int)) := by
  obtain ⟨t, u, ht, hu⟩ : ∃ t u, joinLines (l :: post) = l ++ t ∧ t ++ Ch.cr :: rest = Ch.cr :: u := by
    cases post with
    | nil => exact ⟨[], rest, (List.append_nil l).symm, rfl⟩
    | cons m post => exact ⟨_, _, rfl, rfl⟩
  obtain ⟨name, blanks, ds, trail, rfl, hname, hblanks, hds, hdig, rfl, htrail⟩ := hl
  have hlen : contentLength.length = name.length := by rw [← hname, List.length_map]
  have hstart : startsLower contentLength line = true := by
    have hself : startsLower contentLength (name ++ (blanks ++ (ds ++ trail))) = true := by
      simp [startsLower, hlen, hname]
    rcases hline with rfl | rfl
    · exact hself
    · rw [startsLower_append_cr (by decide)]
      exact hself
  have hskip : ((joinLines ((name ++ (blanks ++ (ds ++ trail))) :: post)).drop
      contentLength.length).takeWhile isBlank = blanks := by
    rw [ht, hlen, List.append_assoc, List.drop_left, List.append_assoc,
      List.takeWhile_append_of_pos hblanks]
    obtain ⟨d, ds', rfl⟩ := List.exists_cons_of_ne_nil hds
    simp [isBlank_of_isDigit (hdig d (by simp))]
  have hnum : (joinLines ((name ++ (blanks ++ (ds ++ trail))) :: post) ++ Ch.cr :: rest).drop
        (contentLength.length + blanks.length)
      = ds ++ (trail ++ Ch.cr :: u) := by
    rw [ht, List.append_assoc _ t, hu, hlen, ← List.length_append]
    simp only [List.append_assoc]
    rw [← List.append_assoc name blanks, List.drop_left]
  -- the digits end at a blank or at the CR
  have hvalue : strtoll (ds ++ (trail ++ Ch.cr :: u))
      = some (min LLONG_MAX (digitsVal 0 ds : Int)) := by
    cases trail with
    | nil => exact strtoll_digits hds hdig (by decide) _
    | cons b trail => exact strtoll_digits hds hdig (isDigit_of_isBlank (htrail b (by simp))) _
  have hpos : (0 : Int) ≤ min LLONG_MAX (digitsVal 0 ds : Int) := by
    unfold LLONG_MAX
    omega
  rw [lengthOf, if_pos hstart, hskip, hnum, hvalue]
  exact if_pos hpos

theorem lengthOf_miss {l : Bytes} (hmiss : startsLower contentLength l = false) (h mem : Bytes) :
    lengthOf (l ++ [Ch.cr]) h mem = none ∧ lengthOf l h mem = none := by
  have hcr : startsLower contentLength (l ++ [Ch.cr]) = startsLower contentLength l :=
    startsLower_append_cr (by decide)
  simp [lengthOf, hcr, hmiss]

/-- The first length header gives the length. -/
theorem parse_content_length_hit {l : Bytes} {v : Nat} (hl : NumberLine contentLength l v)
    {pre post : List Bytes} (hls : ∀ x ∈ pre ++ l :: post, IsLine x ∧ x ≠ [])
    (hmiss : ∀ x ∈ pre, startsLower contentLength x = false) (rest : Bytes) :
    parse_content_length (joinLines (pre ++ l :: post) ++ Ch.cr :: rest)
        (joinLines (pre ++ l :: post)).length
      = min LLONG_MAX (v : Int) := by
  have hfuel : pre.length < (joinLines (pre ++ l :: post)).length := by
    have hle := length_le_block (pre ++ l :: post)
    have hsome : pre ++ l :: post ≠ [] := by simp
    have hblock := joinLines_crlf hsome
    have hcrlf : crlf.length = 2 := rfl
    rw [← hblock, List.length_append] at hle
    simp only [List.length_append, List.length_cons] at hle
    cases pre with
    | nil =>
        obtain ⟨⟨-, -⟩, hne⟩ := hls l (by simp)
        have hpos : 0 < l.length := List.length_pos_iff.mpr hne
        cases post with
        | nil => exact hpos
        | cons m post =>
            show 0 < (l ++ Ch.cr :: Ch.lf :: joinLines (m :: post)).length
            rw [List.length_append]
            omega
    | cons x pre =>
        simp only [List.length_cons] at hle ⊢
        omega
  unfold parse_content_length
  rw [List.take_left, scanLines_join_hit (Ch.cr :: rest) (hls l (by simp)).1.2 (hls l (by simp)).2
    (fun line hline => lengthOf_hit hl post rest line hline) pre
    (fun x hx => (hls x (by simp [hx])).1.2)
    (fun x hx h mem => (lengthOf_miss (hmiss x hx) h mem).1) _ hfuel]
  rfl

theorem parse_content_length_none {ls : List Bytes} (hls : ∀ l ∈ ls, IsLine l)
    (hmiss : ∀ l ∈ ls, startsLower contentLength l = false) (rest : Bytes) :
    parse_content_length (joinLines ls ++ rest) (joinLines ls).length = -1 := by
  unfold parse_content_length
  rw [List.take_left, scanLines_join_none (fun l hl => (hls l hl).2)]
  · rfl
  · exact fun l hl h mem => lengthOf_miss (hmiss l hl) h mem

/-- Where no line asks for it, the connection is not to be closed. -/
theorem not_connection_close {ls : List Bytes} (hls : ∀ l ∈ ls, IsLine l)
    (hkeep : ∀ l ∈ ls, closesConnection l = false) (rest : Bytes) :
    has_connection_close (joinLines ls ++ rest) (joinLines ls).length = false := by
  unfold has_connection_close
  rw [List.take_left, scanLines_join_none (fun l hl => (hls l hl).2)]
  · rfl
  · intro l hl h mem
    rw [Request.closesConnection_append_cr, hkeep l hl]
    exact ⟨rfl, rfl⟩

/-! ## §3. A request. -/

/-- The variables at the start of a turn of the request loop. -/
def Conn.fresh : Conn where
  pc := .read_headers
  req := []
  cap := 65536
  header_bytes := 0
  cl := 0
  req_close := false
  body_in_buf := 0
  written := 0
  resp := []
  rcap := 0
  resp_cl := -1
  resp_hdr_bytes := 0
  resp_body_in := 0
  forwarded := 0

/-- `(int)` of a `size_t`. -/
def toInt (n : Nat) : Int := (n : Int).bmod (2 ^ 32)

def Conn.close (s : Conn) (why : Why) : Conn := { s with pc := .done why }

/-- What follows a read of headers. -/
def parse_request (s : Conn) : Conn :=
  match find_double_crlf s.req with
  | none => s
  | some hdr_end =>
      { s with
        header_bytes := hdr_end + 4
        cl := (parse_content_length s.req hdr_end).toNat
        req_close := has_connection_close s.req hdr_end
        body_in_buf := s.req.length - (hdr_end + 4)
        pc := .read_body }

/-- `Read HTTP request headers`. -/
def read_headers_iter (s : Conn) (c : Calls) : Conn × Event :=
  if 256 * 1024 ≤ s.req.length then (s.close .too_large, .none)
  else if s.cap < s.req.length + 4096 ∧ c.alloc_ok = false then (s.close .failed, .none)
  else
    let s := { s with cap := if s.cap < s.req.length + 4096 then s.cap * 2 else s.cap }
    match c.tls_read with
    | .data bytes => (parse_request { s with req := s.req ++ bytes }, .tls_read bytes)
    | .none .error => (s.close .failed, .none)
    | .none _ => (s, .none)

/-- `Read remaining body if not already in buffer`; `wolfSSL_read` refuses a size that is not
positive as an `int`. -/
def read_body_iter (s : Conn) (c : Calls) : Conn × Event :=
  if s.body_in_buf < s.cl then
    let want := s.cl - s.body_in_buf
    if s.cap < s.header_bytes + s.cl + 1 ∧ c.alloc_ok = false then (s.close .failed, .none)
    else
      let s := { s with cap := max s.cap (s.header_bytes + s.cl + 1) }
      if toInt want ≤ 0 then (s.close .too_large, .none)
      else
        match c.tls_read with
        | .data bytes =>
            ({ s with req := s.req ++ bytes, body_in_buf := s.body_in_buf + bytes.length },
              .tls_read bytes)
        | .none .error => (s.close .failed, .none)
        | .none _ => (s, .none)
  else ({ s with pc := .connect }, .none)

/-- `connect_tcp`. -/
def connect_iter (s : Conn) (c : Calls) : Conn × Event :=
  if c.connect_ok then ({ s with pc := .write_request, written := 0 }, .connected)
  else (s.close .failed, .none)

/-- `write_all(gw_fd, req, len)`, and the allocation that follows. -/
def write_request_iter (s : Conn) (c : Calls) : Conn × Event :=
  if s.written < s.req.length then
    match c.write with
    | .wrote n => ({ s with written := s.written + n }, .write ((s.req.drop s.written).take n))
    | .eintr => (s, .none)
    | .error => (s.close .failed, .none)
  else if c.alloc_ok then
    ({ s with pc := .read_resp_headers, resp := [], rcap := 65536 }, .none)
  else (s.close .failed, .none)

/-! ## §4. A response. -/

/-- What follows the loop that reads the response headers. -/
def response_headers (s : Conn) (rhdr_end : Option Nat) : Conn :=
  let resp_cl :=
    match rhdr_end with
    | some e => parse_content_length s.resp e
    | none => -1
  let resp_hdr_bytes :=
    match rhdr_end with
    | some e => e + 4
    | none => s.resp.length
  { s with
    resp_cl := resp_cl
    resp_hdr_bytes := resp_hdr_bytes
    resp_body_in := s.resp.length - resp_hdr_bytes
    forwarded := 0
    pc := if 0 < resp_cl then .read_resp_body else .drain }

/-- `Read response headers`. -/
def read_resp_headers_iter (s : Conn) (c : Calls) : Conn × Event :=
  if s.rcap < s.resp.length + 4096 ∧ c.alloc_ok = false then (s.close .failed, .none)
  else
    let s := { s with rcap := if s.rcap < s.resp.length + 4096 then s.rcap * 2 else s.rcap }
    match c.read with
    | .eintr => (s, .none)
    | .error => (response_headers s none, .none)
    | .data bytes =>
        if bytes = [] then (response_headers s none, .none)
        else
          let s := { s with resp := s.resp ++ bytes }
          match find_double_crlf s.resp with
          | some e => (response_headers s (some e), .read bytes)
          | none => (s, .read bytes)

/-- `Read remaining response body`. -/
def read_resp_body_iter (s : Conn) (c : Calls) : Conn × Event :=
  if (s.resp_body_in : Int) < s.resp_cl then
    if s.rcap < s.resp_hdr_bytes + s.resp_cl.toNat + 1 ∧ c.alloc_ok = false then
      ({ s with pc := .forward }, .none)
    else
      let s := { s with rcap := max s.rcap (s.resp_hdr_bytes + s.resp_cl.toNat + 1) }
      match c.read with
      | .eintr => (s, .none)
      | .error => ({ s with pc := .forward }, .none)
      | .data bytes =>
          if bytes = [] then ({ s with pc := .forward }, .none)
          else
            ({ s with resp := s.resp ++ bytes, resp_body_in := s.resp_body_in + bytes.length },
              .read bytes)
  else ({ s with pc := .forward }, .none)

/-- `No Content-Length: drain until EOF`. -/
def drain_iter (s : Conn) (c : Calls) : Conn × Event :=
  if s.rcap < s.resp.length + 4096 ∧ c.alloc_ok = false then ({ s with pc := .forward }, .none)
  else
    let s := { s with rcap := if s.rcap < s.resp.length + 4096 then s.rcap * 2 else s.rcap }
    match c.read with
    | .eintr => (s, .none)
    | .error => ({ s with pc := .forward }, .none)
    | .data bytes =>
        if bytes = [] then ({ s with pc := .forward }, .none)
        else ({ s with resp := s.resp ++ bytes }, .read bytes)

/-- `wolfssl_write_all(ssl, resp, rlen)`, and the end of the turn; `wolfSSL_write` refuses a size
that is not positive as an `int`. -/
def forward_iter (s : Conn) (c : Calls) : Conn × Event :=
  if s.forwarded < s.resp.length then
    if toInt (s.resp.length - s.forwarded) ≤ 0 then (s.close .failed, .none)
    else
      match c.tls_write with
      | .wrote n =>
          ({ s with forwarded := s.forwarded + n }, .tls_write ((s.resp.drop s.forwarded).take n))
      | .none .error => (s.close .failed, .none)
      | .none _ => (s, .none)
  else if s.req_close then (s.close .asked, .none)
  else if c.alloc_ok then (Conn.fresh, .none)
  else (s.close .failed, .none)

/-! ## §5. The loop. -/

/-- One iteration of `handle_connection`. -/
def conn_iter (s : Conn) (c : Calls) : Conn × Event :=
  match s.pc with
  | .read_headers => read_headers_iter s c
  | .read_body => read_body_iter s c
  | .connect => connect_iter s c
  | .write_request => write_request_iter s c
  | .read_resp_headers => read_resp_headers_iter s c
  | .read_resp_body => read_resp_body_iter s c
  | .drain => drain_iter s c
  | .forward => forward_iter s c
  | .done _ => (s, .none)

end TlsMigration.Proxy
