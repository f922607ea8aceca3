/-
  TlsMigration.Vanilla.Session
  ────────────────────────────
  **A SESSION OF THE VANILLA FUNCTION** (bench2_vanilla_fn.c).

  The worker speaks plain HTTP and reads with `recv` and `MSG_DONTWAIT`.
  What `recv` has to offer, and whether `realloc` succeeds, are arguments.

    • `session_recv_more`      — one `recv`, with the room it needs;
    • `session_parse_headers`  — the header block, once it is there;
    • `session_build_response` — the response.
-/
import TlsMigration.Bench2.Session
import TlsMigration.Lib.Chunked

namespace TlsMigration.Vanilla

open TlsMigration.Http
open TlsMigration.Bench2 (headerEnd worker_operation_name decimal)

/-! ## §1. Data. -/

def INITIAL_BUF_CAP : Nat := 65536

def MAX_REQ_BYTES : Nat := 1024 * 1024

/-- `enum session_state`. -/
inductive SessionState where
  | read_headers
  | read_body
  | write_resp
  deriving DecidableEq

/-- The two event sets a session is registered for, both level-triggered. -/
inductive EpollEvents where
  | epollin
  | epollout
  deriving DecidableEq

structure Config (F : Type*) where
  libm : FloatLib F
  s_worker_name : Bytes

/-- `session_t`; `buf` holds `len` bytes, `resp` holds `resp_len`, and `events` is what the
descriptor was last registered for. -/
structure Session (F : Type*) where
  state : SessionState
  req_no : Nat
  buf : Bytes
  cap : Nat
  hdr_bytes : Nat
  body_target : Nat
  body_bytes_read : Nat
  is_chunked : Bool
  should_close : Bool
  content_length : Int
  operand_a : F
  operand_b : F
  resp : Bytes
  resp_off : Nat
  events : EpollEvents

/-- What the socket has to offer to a `recv`; no bytes stand for the end of the stream. -/
inductive Recv where
  | data (bytes : Bytes)
  | eintr
  | eagain
  | error
  deriving DecidableEq

/-- What the calls of `session_recv_more` return. -/
structure RecvCalls where
  realloc_ok : Bool
  recv : Recv

variable {F : Type*}

/-! ## §2. Receiving. -/

/-- `ensure_capacity`; `none` is `-1`. -/
def ensure_capacity (cap needed : Nat) (realloc_ok : Bool) : Option Nat :=
  if needed ≤ cap then some cap
  else
    match growCap 65 needed (if cap = 0 then INITIAL_BUF_CAP else cap) with
    | .room new_cap => if realloc_ok then some new_cap else none
    | _ => none

/-- What a `recv` of at most `room` bytes returns. -/
def Recv.cut (room : Nat) : Recv → Recv
  | .data bytes => .data (bytes.take room)
  | r => r

/-- How `session_recv_more` goes on. -/
inductive More where
  | ret (rc : Int)
  /-- `continue`, after `EINTR` -/
  | again
  deriving DecidableEq

/-- The session, what `recv` has returned if it was called, and how it goes on. -/
structure Received (F : Type*) where
  s : Session F
  got : Option Recv
  more : More

/-- `session_recv_more`, one turn of its loop: a second turn finds the room that the first one
has made. -/
def session_recv_more (s : Session F) (c : RecvCalls) : Received F :=
  match ensure_capacity s.cap ((s.buf.length + 4096 + 1) % 2 ^ 64) c.realloc_ok with
  | none => ⟨s, none, .ret (-1)⟩
  | some cap =>
      let s := { s with cap := cap }
      let got := c.recv.cut (cap - s.buf.length - 1)
      match got with
      | .data bytes =>
          if bytes = [] then ⟨s, some got, .ret 0⟩
          else ⟨{ s with buf := s.buf ++ bytes }, some got, .ret 1⟩
      | .eintr => ⟨s, some got, .again⟩
      | .eagain => ⟨s, some got, .ret 1⟩
      | .error => ⟨s, some got, .ret (-1)⟩

/-! ## §3. The header block. -/

/-- The body of the loop of `header_has_token`; the LF that ends the line is in neither string. -/
def headerToken (header_name token line : Bytes) : Bool :=
  let line := line.dropWhile fun c => c = Ch.cr ∨ c = Ch.lf
  let value := (line.drop header_name.length).dropWhile isBlank
  startsLower header_name line && value.tails.any (startsLower token)

/-- `header_has_token(hdr, hdr_len, header_name, token)`. -/
def header_has_token (hdr : Bytes) (hdr_len : Nat) (header_name token : Bytes) : Bool :=
  (scanLines (fun line _ _ => if headerToken header_name token line then some () else none)
    hdr_len (hdr.take hdr_len) hdr).isSome

def transferEncoding : Bytes := ascii "transfer-encoding:"
def chunked : Bytes := ascii "chunked"

/-- `session_parse_headers`. -/
def session_parse_headers (cfg : Config F) (s : Session F) : Session F × Int :=
  match headerEnd s.buf with
  | none => (s, 0)
  | some hdr_bytes =>
      let content_length := max (parse_content_length s.buf hdr_bytes) 0
      let operands := parse_request_operands cfg.libm (s.buf.take hdr_bytes)
      ({ s with
          hdr_bytes := hdr_bytes
          content_length := content_length
          operand_a := operands.1
          operand_b := operands.2
          is_chunked := header_has_token s.buf hdr_bytes transferEncoding chunked
          should_close := header_has_token s.buf hdr_bytes connection (ascii "close")
          body_target := content_length.toNat
          body_bytes_read := min (s.buf.length - hdr_bytes) content_length.toNat
          state := .read_body }, 1)

/-! ## §4. The response. -/

def responseJson (cfg : Config F) (req_no : Nat) (a b : F) : Bytes :=
  let operation := worker_operation_name cfg.s_worker_name
  let result := if operation = ascii "product" then cfg.libm.mul a b else cfg.libm.add a b
  ascii "\x7b\"worker\":\"" ++ cfg.s_worker_name ++ ascii "\",\"request_no\":" ++ decimal req_no
    ++ ascii ",\"path\":\"vanilla\"" ++ ascii ",\"operation\":\"" ++ operation
    ++ ascii "\",\"a\":" ++ cfg.libm.fmt2 a ++ ascii ",\"b\":" ++ cfg.libm.fmt2 b
    ++ ascii ",\"result\":" ++ cfg.libm.fmt2 result ++ ascii "\x7d\n"

/-- The response of `session_build_response`; `none` when a buffer is too small. -/
def responseBytes (cfg : Config F) (req_no : Nat) (a b : F) (close : Bool) : Option Bytes :=
  let json := responseJson cfg req_no a b
  if 640 ≤ json.length then none
  else
    let resp := ascii "HTTP/1.1 200 OK\r\nContent-Type: application/json\r\nContent-Length: "
      ++ decimal json.length ++ ascii "\r\nConnection: "
      ++ ascii (if close then "close" else "keep-alive") ++ ascii "\r\n\r\n" ++ json
    if 896 ≤ resp.length then none else some resp

/-- `epoll_mod`. -/
def epoll_mod (s : Session F) (events : EpollEvents) (ok : Bool) : Session F × Int :=
  if ok then ({ s with events := events }, 0) else (s, -1)

/-- `session_build_response`. -/
def session_build_response (cfg : Config F) (s : Session F) (epoll_ok : Bool) :
    Session F × Int :=
  match responseBytes cfg s.req_no s.operand_a s.operand_b s.should_close with
  | none => (s, -1)
  | some resp =>
      epoll_mod { s with resp := resp, resp_off := 0, state := .write_resp } .epollout epoll_ok

/-- `session_reset`. -/
def session_reset (cfg : Config F) (s : Session F) : Session F :=
  { s with
    state := .read_headers
    buf := []
    hdr_bytes := 0
    body_target := 0
    body_bytes_read := 0
    is_chunked := false
    should_close := false
    content_length := 0
    operand_a := cfg.libm.ten
    operand_b := cfg.libm.twenty
    resp := []
    resp_off := 0 }

/-! ## §5. The buffer. -/

/-- The buffer has room for its NUL, and is no larger than memory. -/
structure Session.Ok (s : Session F) : Prop where
  room : s.buf.length < s.cap
  cap : s.cap < 2 ^ 64
  hdr : s.hdr_bytes ≤ s.buf.length

theorem ensure_capacity_spec {cap cap' needed : Nat} {ok : Bool} (hpos : 0 < cap)
    (hcap : cap < 2 ^ 64) (h : ensure_capacity cap needed ok = some cap') :
    cap ≤ cap' ∧ needed ≤ cap' ∧ cap' < 2 ^ 64 := by
  unfold ensure_capacity at h
  split at h
  · injection h with h
    omega
  · rw [if_neg (by omega)] at h
    split at h
    next new_cap hgrow =>
      split at h
      · injection h with h
        subst h
        exact growCap_spec hcap hgrow
      · cases h
    next => cases h

/-- The bytes that a `recv` has brought. -/
def gotBytes : Option Recv → Bytes
  | some (.data bytes) => bytes
  | _ => []

/-- **Receiving** appends what has come to the buffer and leaves everything else as it is. -/
theorem session_recv_more_spec {s : Session F} (hs : s.Ok) (c : RecvCalls) :
    ∃ cap', (session_recv_more s c).s
        = { s with buf := s.buf ++ gotBytes (session_recv_more s c).got, cap := cap' }
      ∧ (session_recv_more s c).s.Ok := by
  have hroom := hs.room
  have hhdr := hs.hdr
  unfold session_recv_more
  cases hcap : ensure_capacity s.cap ((s.buf.length + 4096 + 1) % 2 ^ 64) c.realloc_ok with
  | none =>
      refine ⟨s.cap, ?_, hs⟩
      show s = { s with buf := s.buf ++ [], cap := s.cap }
      rw [List.append_nil]
  | some cap =>
      obtain ⟨hge, -, hlt⟩ := ensure_capacity_spec (by omega) hs.cap hcap
      have hsame : ({ s with cap := cap } : Session F).Ok := ⟨by dsimp only; omega, hlt, hhdr⟩
      have hnil : ({ s with cap := cap } : Session F)
          = { s with buf := s.buf ++ [], cap := cap } := by
        rw [List.append_nil]
      cases hrecv : c.recv with
      | data bytes =>
          dsimp only [Recv.cut]
          split
          next hempty =>
            refine ⟨cap, ?_, hsame⟩
            dsimp only [gotBytes]
            rw [hempty]
            exact hnil
          next =>
            refine ⟨cap, rfl, ?_, hlt, ?_⟩
            · show (s.buf ++ bytes.take (cap - s.buf.length - 1)).length < cap
              rw [List.length_append, List.length_take]
              omega
            · show s.hdr_bytes ≤ (s.buf ++ bytes.take (cap - s.buf.length - 1)).length
              rw [List.length_append]
              omega
      | eintr => exact ⟨cap, hnil, hsame⟩
      | eagain => exact ⟨cap, hnil, hsame⟩
      | error => exact ⟨cap, hnil, hsame⟩

end TlsMigration.Vanilla
