/-
  TlsMigration.Bench2.ResponseFraming
  ───────────────────────────────────
  **THE RESPONSES OF THE BENCH2 WORKER, READ BACK AS HTTP**
  (`session_build_response`, bench2_proto_worker.c).

  The response is put together from a JSON text, which must fit in 512 bytes,
  an optional padding line, and fixed headers; the whole must fit in 768.
  The format of the padding line writes the four characters `\r\n` where a
  line end is meant, so the `Connection` header becomes part of its value.

    • `responseBytes_eq`            — the lines of the response;
    • `session_response_framed_iff` — the padding and the sizes with which
                                      the worker fails or sends a response.
-/
import TlsMigration.Http.Response
import TlsMigration.Bench2.Session

namespace TlsMigration.Bench2

open TlsMigration.Http

variable {F S : Type*}

/-! ## §1. Sizes. -/

/-- The length of the JSON text. -/
def jsonSize (cfg : Config F) (req_no : Nat) (a b : F) : Nat :=
  let operation := worker_operation_name cfg.s_function_name
  let result := if operation = ascii "product" then cfg.libm.mul a b else cfg.libm.add a b
  82 + cfg.s_function_name.length + (decimal req_no).length + operation.length
    + (cfg.libm.fmt2 a).length + (cfg.libm.fmt2 b).length + (cfg.libm.fmt2 result).length

/-- The length of the padding line. -/
def padSize (cfg : Config F) : Nat :=
  if 16 ≤ cfg.s_response_pad_bytes then 18 + min (cfg.s_response_pad_bytes - 16) 400 else 0

/-- The length of a response with a JSON text of length `json`. -/
def respSize (cfg : Config F) (json : Nat) (close : Bool) : Nat :=
  83 + (decimal json).length + padSize cfg + (if close then 5 else 10) + json

theorem responseJson_length (cfg : Config F) (req_no : Nat) (a b : F) :
    (responseJson cfg req_no a b).length = jsonSize cfg req_no a b := by
  simp only [responseJson, jsonSize, List.length_append]
  show 11 + _ + 15 + _ + 19 + 14 + _ + 6 + _ + 5 + _ + 10 + _ + 2 = _
  omega

theorem padHeader_length (cfg : Config F) : (padHeader cfg).length = padSize cfg := by
  unfold padHeader padSize
  split
  · simp only [List.length_append, List.length_replicate]
    show 14 + _ + 4 = _
    omega
  · rfl

/-- The sizes of the two buffers are enough. -/
def Fits (cfg : Config F) (s : Session F S) : Prop :=
  jsonSize cfg s.req_no s.operand_a s.operand_b < 512
    ∧ respSize cfg (jsonSize cfg s.req_no s.operand_a s.operand_b) s.should_close < 768

instance (cfg : Config F) (s : Session F S) : Decidable (Fits cfg s) :=
  inferInstanceAs (Decidable (_ ∧ _))

/-! ## §2. Lines. -/

def okStatus : Bytes := ascii "HTTP/1.1 200 OK"

/-- The header lines: the padding is not a line of its own. -/
def responseHeaders (cfg : Config F) (json : Nat) (close : Bool) : List Bytes :=
  [ascii "Content-Type: application/json", ascii "Content-Length: " ++ decimal json,
    padHeader cfg ++ (ascii "Connection: " ++ connectionValue close)]

/-- The text of a response. -/
def responseText (cfg : Config F) (json : Bytes) (close : Bool) : Bytes :=
  block ((okStatus :: responseHeaders cfg json.length close) ++ [[]]) ++ json

theorem connectionValue_length (close : Bool) :
    (connectionValue close).length = if close then 5 else 10 := by
  cases close <;> rfl

theorem responseText_length (cfg : Config F) (json : Bytes) (close : Bool) :
    (responseText cfg json close).length = respSize cfg json.length close := by
  simp only [responseText, responseHeaders, respSize, List.cons_append, List.nil_append, block_cons,
    block_nil, List.length_append, List.length_cons, List.length_nil, padHeader_length,
    connectionValue_length]
  show 15 + (30 + (16 + _ + (_ + (12 + _) + _ + 1 + 1) + 1 + 1) + 1 + 1) + _ = _
  omega

/-- **The response, line by line.** -/
theorem responseBytes_eq (cfg : Config F) (req_no : Nat) (a b : F) (close : Bool) :
    responseBytes cfg req_no a b close
      = if 512 ≤ jsonSize cfg req_no a b
            ∨ 768 ≤ respSize cfg (jsonSize cfg req_no a b) close then none
        else some (responseText cfg (responseJson cfg req_no a b) close) := by
  have htext : ascii "HTTP/1.1 200 OK\r\nContent-Type: application/json\r\nContent-Length: "
      ++ decimal (responseJson cfg req_no a b).length ++ ascii "\r\n" ++ padHeader cfg
      ++ ascii "Connection: " ++ connectionValue close ++ ascii "\r\n\r\n"
      ++ responseJson cfg req_no a b = responseText cfg (responseJson cfg req_no a b) close := by
    have hend : ascii "\r\n" = [Ch.cr, Ch.lf] := rfl
    rw [ascii_start, hend, ascii_crlfcrlf]
    simp [responseText, responseHeaders, okStatus]
  unfold responseBytes
  dsimp only
  rw [connectionValue_eq, htext, responseText_length, responseJson_length]
  by_cases hjson : 512 ≤ jsonSize cfg req_no a b
  · rw [if_pos hjson, if_pos (Or.inl hjson)]
  · rw [if_neg hjson]
    by_cases hresp : 768 ≤ respSize cfg (jsonSize cfg req_no a b) close
    · rw [if_pos hresp, if_pos (Or.inr hresp)]
    · rw [if_neg hresp, if_neg (by omega)]

/-! ### The lines are header lines -/

/-- The padding and what stands behind it are one line. -/
theorem isHeader_padded (cfg : Config F) (close : Bool) :
    IsHeader (padHeader cfg ++ (ascii "Connection: " ++ connectionValue close)) := by
  unfold padHeader
  split
  · have hname : IsHeader (ascii "X-Bench2-Pad: ") :=
      isHeader_of (by decide +kernel) (by decide +kernel) (by decide +kernel)
    have hx : IsLine (List.replicate (min (cfg.s_response_pad_bytes - 16) 400) 120) := by
      constructor
      · intro h
        exact absurd (List.eq_of_mem_replicate h) (by decide)
      · intro h
        exact absurd (List.eq_of_mem_replicate h) (by decide)
    have hend : IsLine (ascii "\\r\\n") := by decide +kernel
    exact ((hname.append hx).append hend).append (isHeader_connection close).1
  · exact isHeader_connection close

theorem isHeader_responseHeaders (cfg : Config F) (json : Nat) (close : Bool) :
    ∀ l ∈ responseHeaders cfg json close, IsHeader l := by
  intro l hl
  simp only [responseHeaders, List.mem_cons, List.not_mem_nil, or_false] at hl
  rcases hl with rfl | rfl | rfl
  · exact isHeader_type
  · exact isHeader_length (isLine_toString json)
  · exact isHeader_padded cfg close

/-- The length header gives the length of the JSON text. -/
theorem oneLength_responseHeaders (cfg : Config F) (json : Nat) (close : Bool) :
    OneLength (responseHeaders cfg json close) json := by
  have hpad : fieldOf contentLength
      (padHeader cfg ++ (ascii "Connection: " ++ connectionValue close)) = none := by
    unfold padHeader
    split
    · rw [List.append_assoc, List.append_assoc]
      rfl
    · rfl
  have hlast : fields contentLength
      [padHeader cfg ++ (ascii "Connection: " ++ connectionValue close)] = [] := by
    unfold fields
    rw [List.filterMap_cons, hpad]
    rfl
  exact oneLength_mid json fields_type hlast

/-- **The `Connection` header is there exactly when there is no padding in front of it.** -/
theorem fields_connection (cfg : Config F) (json : Nat) (close : Bool) :
    fields connection (responseHeaders cfg json close)
      = if 16 ≤ cfg.s_response_pad_bytes then [] else [connectionValue close] := by
  have hlength : fieldOf connection (ascii "Content-Length: " ++ decimal json) = none := rfl
  have hlast : fieldOf connection (padHeader cfg ++ (ascii "Connection: " ++ connectionValue close))
      = if 16 ≤ cfg.s_response_pad_bytes then none else some (connectionValue close) := by
    unfold padHeader
    split
    · rw [List.append_assoc, List.append_assoc]
      rfl
    · cases close <;> rfl
  unfold fields responseHeaders
  rw [List.filterMap_cons, fieldOf_type, List.filterMap_cons, hlength, List.filterMap_cons, hlast]
  by_cases hpad : 16 ≤ cfg.s_response_pad_bytes
  · rw [if_pos hpad, if_pos hpad]
    rfl
  · rw [if_neg hpad, if_neg hpad]
    rfl

/-! ## §3. Framing. -/

/-- What is to be sent is a response, unless there is nothing to send because the function has
failed. -/
def FailsOrFramed (s : Session F S) (r : Session F S × Ctl) : Prop :=
  (r.2 = .ret (-1) ∧ r.1.resp = []) ∨ (r.1.resp_off = 0 ∧ Framed r.1.resp s.should_close)

theorem framed_responseText_iff (cfg : Config F) (json : Bytes) (close : Bool) :
    Framed (responseText cfg json close) close ↔ cfg.s_response_pad_bytes < 16 := by
  unfold responseText okStatus
  rw [framed_iff isStatus_ok (isHeader_responseHeaders cfg json.length close), fields_connection]
  constructor
  · intro ⟨_, hconn⟩
    by_cases hpad : 16 ≤ cfg.s_response_pad_bytes
    · rw [if_pos hpad] at hconn
      cases hconn
    · omega
  · intro hpad
    rw [if_neg (by omega)]
    exact ⟨oneLength_responseHeaders cfg json.length close, rfl⟩

theorem responseText_ne_nil (cfg : Config F) (json : Bytes) (close : Bool) :
    responseText cfg json close ≠ [] := by
  simp [responseText]

theorem session_build_response_fits {cfg : Config F} {s : Session F S} (c : Calls S)
    (h : Fits cfg s) :
    (session_build_response cfg s c).1.resp
        = responseText cfg (responseJson cfg s.req_no s.operand_a s.operand_b) s.should_close
      ∧ (session_build_response cfg s c).1.resp_off = 0 := by
  obtain ⟨hjson, hresp⟩ := h
  unfold session_build_response
  rw [responseBytes_eq, if_neg (by omega)]
  unfold epoll_mod_fd
  dsimp only
  split <;> exact ⟨rfl, rfl⟩

theorem session_build_response_fails {cfg : Config F} {s : Session F S} (c : Calls S)
    (h : ¬ Fits cfg s) : session_build_response cfg s c = (s, .ret (-1)) := by
  unfold session_build_response
  rw [responseBytes_eq, if_pos]
  by_contra hno
  exact h ⟨by omega, by omega⟩

/-- **Responses of the bench2 worker.**  A session with nothing to send is given one whole
response, or nothing, exactly when no padding is configured or a buffer is too small. -/
theorem session_response_framed_iff (cfg : Config F) (s : Session F S) (c : Calls S)
    (hnothing : s.resp = []) :
    FailsOrFramed s (session_build_response cfg s c)
      ↔ cfg.s_response_pad_bytes < 16 ∨ ¬ Fits cfg s := by
  by_cases hfits : Fits cfg s
  · obtain ⟨hresp, hoff⟩ := session_build_response_fits c hfits
    unfold FailsOrFramed
    rw [hresp, hoff, framed_responseText_iff]
    constructor
    · intro h
      rcases h with ⟨-, hnil⟩ | ⟨-, hpad⟩
      · exact absurd hnil (responseText_ne_nil cfg _ _)
      · exact Or.inl hpad
    · intro h
      rcases h with hpad | hno
      · exact Or.inr ⟨rfl, hpad⟩
      · exact absurd hfits hno
  · have hfail := session_build_response_fails c hfits
    constructor
    · intro _
      exact Or.inr hfits
    · intro _
      left
      rw [hfail]
      exact ⟨rfl, hnothing⟩

/-- The worker as it is configured when nothing is said about padding. -/
def defaultWorker : Config Nat := ⟨wholeNumbers, ascii "bench2-fn-a", 114⟩

/-- A session whose first request, for the sum of 10 and 20, has been read. -/
def firstRead : Session Nat Unit := { session_new defaultWorker 5 () with state := .read_body }

/-- All calls succeed. -/
def goodCalls : Calls Unit where
  realloc_ok := true
  read := .none .want_read
  write := .none .want_write
  epoll_mod_ok := true
  serial := some ()
  pending := 0
  ready := 0
  peek := fun _ => none

theorem session_response_framed_unpadded :
    FailsOrFramed firstRead
      (session_build_response { defaultWorker with s_response_pad_bytes := 0 } firstRead goodCalls) :=
  (session_response_framed_iff { defaultWorker with s_response_pad_bytes := 0 } firstRead goodCalls
    rfl).mpr (Or.inl (by decide))

/-- With the default padding the `Connection` header is lost in the padding line. -/
theorem default_padding_unframed :
    ¬ FailsOrFramed firstRead (session_build_response defaultWorker firstRead goodCalls) := by
  have hfits : Fits defaultWorker firstRead := by decide +kernel
  obtain ⟨hresp, -⟩ := session_build_response_fits goodCalls hfits
  intro h
  rcases h with ⟨-, hnil⟩ | ⟨-, hframed⟩
  · rw [hresp] at hnil
    exact responseText_ne_nil _ _ _ hnil
  · rw [hresp, framed_responseText_iff] at hframed
    exact absurd hframed (by decide)

end TlsMigration.Bench2
