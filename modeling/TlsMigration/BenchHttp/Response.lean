/-
  TlsMigration.BenchHttp.Response
  ───────────────────────────────
  **THE RESPONSES OF THE THROUGHPUT WORKER, READ BACK AS HTTP.**

  Both texts are printed into 768 bytes, and the return values of `snprintf`
  are used as they are: a text that does not fit is announced, and sent, with
  the length it would have had.

    • `response_framed_iff`      — when what is to be sent is a response;
    • `respSize_le`              — so it is, with the names that a gateway
                                   can hand over;
    • `framed_selfDelimiting`    — a reader of responses knows where each
                                   one ends.
-/
import TlsMigration.BenchHttp.Session
import TlsMigration.Lib.Server

namespace TlsMigration.BenchHttp

open TlsMigration.Http TlsMigration.HttpKa

variable {F : Type*}

/-! ## §1. Sizes. -/

/-- The length of the JSON text. -/
def jsonSize (cfg : Config F) (req_no : UInt64) (result : F) : Nat :=
  271 + cfg.fn_name.length + (ascii (toString req_no.toNat)).length + (cfg.fmt6g result).length

/-- The length of a response with a JSON text of length `json`. -/
def respSize (json : Nat) (close : Bool) : Nat :=
  83 + (ascii (toString json)).length + (if close then 5 else 10) + json

theorem jsonText_length (cfg : Config F) (req_no : UInt64) (result : F) :
    (jsonText cfg req_no result).length = jsonSize cfg req_no result := by
  have hpad : pad.length = 224 := by decide +kernel
  simp only [jsonText, jsonSize, List.length_append, hpad]
  show 11 + _ + 15 + _ + 10 + _ + 9 + 224 + 2 = _
  omega

theorem digits_length (n k : Nat) (h : n < 10 ^ k) (hk : 0 < k) :
    (ascii (toString n)).length ≤ k := by
  rw [ascii_toString, List.length_map]
  exact (Nat.length_toDigits_le_iff (by decide) hk).mpr h

/-! ## §2. Lines. -/

/-- The header lines. -/
def respHeaders (json : Nat) (close : Bool) : List Bytes :=
  [ascii "Content-Type: application/json", ascii "Content-Length: " ++ ascii (toString json),
    ascii "Connection: " ++ connectionValue close]

/-- A response with the JSON text `json`. -/
def framedText (json : Bytes) (close : Bool) : Bytes :=
  block ((ascii "HTTP/1.1 200 OK" :: respHeaders json.length close) ++ [[]]) ++ json

theorem framedText_length (json : Bytes) (close : Bool) :
    (framedText json close).length = respSize json.length close := by
  have hvalue : (connectionValue close).length = if close then 5 else 10 := by
    cases close <;> rfl
  simp only [framedText, respHeaders, respSize, List.cons_append, List.nil_append, block_cons,
    block_nil, List.length_append, List.length_cons, List.length_nil, hvalue]
  show 15 + (30 + (16 + _ + (12 + _ + (0 + 1 + 1 + 1 + 1) + 1 + 1) + 1 + 1) + 1 + 1) + _ = _
  omega

/-- **The text, line by line**, when the JSON text is whole. -/
theorem respText_eq (cfg : Config F) (req_no : UInt64) (close : Bool) (result : F)
    (h : jsonSize cfg req_no result ≤ 767) :
    respText cfg req_no close result = framedText (jsonText cfg req_no result) close := by
  have hjson : (jsonText cfg req_no result).take 767 = jsonText cfg req_no result :=
    List.take_of_length_le (by rw [jsonText_length]; exact h)
  have hend : ascii "\r\nConnection: " = Ch.cr :: Ch.lf :: ascii "Connection: " := rfl
  unfold respText
  dsimp only
  rw [hjson, connectionValue_eq, ascii_start, hend, ascii_crlfcrlf]
  simp [framedText, respHeaders]

/-- A JSON text that is cut leaves no room for the headers. -/
theorem respText_long (cfg : Config F) (req_no : UInt64) (close : Bool) (result : F)
    (h : 767 < jsonSize cfg req_no result) : 768 < (respText cfg req_no close result).length := by
  have hcut : ((jsonText cfg req_no result).take 767).length = 767 := by
    rw [List.length_take, jsonText_length]
    omega
  simp only [respText, List.length_append, hcut]
  show 768 < 65 + _ + 14 + _ + 4 + 767
  omega

theorem isHeader_respHeaders (json : Nat) (close : Bool) :
    ∀ l ∈ respHeaders json close, IsHeader l := by
  intro l hl
  simp only [respHeaders, List.mem_cons, List.not_mem_nil, or_false] at hl
  rcases hl with rfl | rfl | rfl
  · exact isHeader_type
  · exact isHeader_length (isLine_toString json)
  · exact isHeader_connection close

/-- **A text with the length of its body, and with the header that it announces.** -/
theorem framed_framedText (json : Bytes) (close : Bool) : Framed (framedText json close) close := by
  have hlast : fields contentLength [ascii "Connection: " ++ connectionValue close] = [] := by
    cases close <;> decide +kernel
  have hlength : OneLength (respHeaders json.length close) json.length :=
    oneLength_mid json.length fields_type hlast
  have hconn : fields connection (respHeaders json.length close) = [connectionValue close] := by
    have hnone : fieldOf connection (ascii "Content-Length: " ++ ascii (toString json.length))
        = none := rfl
    unfold fields respHeaders
    rw [List.filterMap_cons, fieldOf_type, List.filterMap_cons, hnone]
    cases close <;> rfl
  unfold framedText
  exact (framed_iff isStatus_ok (isHeader_respHeaders json.length close)).mpr ⟨hlength, hconn⟩

/-! ## §3. What is sent. -/

/-- The text that is printed into `resp` for the session. -/
abbrev Session.respText (cfg : Config F) (s : Session F) : Bytes :=
  BenchHttp.respText cfg s.req_no s.should_close (cfg.compute s.a s.b)

/-- The JSON text in it. -/
abbrev Session.jsonText (cfg : Config F) (s : Session F) : Bytes :=
  BenchHttp.jsonText cfg s.req_no (cfg.compute s.a s.b)

def Session.respSize (cfg : Config F) (s : Session F) : Nat :=
  BenchHttp.respSize (s.jsonText cfg).length s.should_close

/-- What `write` is given lies in `resp`, and is one response with the body `json`. -/
structure Sendable (s : Session F) (json : Bytes) : Prop where
  inside : s.resp_len ≤ s.resp.length
  framed : Framed (s.resp.take s.resp_len) s.should_close
  body : json <:+ s.resp.take s.resp_len

/-- A response that leaves room for the terminator is what was printed. -/
theorem respText_whole {cfg : Config F} {s : Session F} (h : s.respSize cfg ≤ 767) :
    s.respText cfg = framedText (s.jsonText cfg) s.should_close
      ∧ (s.respText cfg).length = s.respSize cfg := by
  have hjson : jsonSize cfg s.req_no (cfg.compute s.a s.b) ≤ 767 := by
    unfold Session.respSize BenchHttp.respSize at h
    rw [← jsonText_length]
    show (s.jsonText cfg).length ≤ 767
    omega
  have htext : s.respText cfg = framedText (s.jsonText cfg) s.should_close :=
    respText_eq _ _ _ _ hjson
  refine ⟨htext, ?_⟩
  rw [htext, framedText_length]
  rfl

theorem session_build_response_text {cfg : Config F} {s : Session F} (c : Calls)
    (h : s.respSize cfg ≤ 767) :
    (session_build_response cfg s c).resp.take (session_build_response cfg s c).resp_len
      = s.respText cfg := by
  obtain ⟨-, hlen⟩ := respText_whole h
  have hall : (s.respText cfg).take 767 = s.respText cfg := List.take_of_length_le (by omega)
  show ((s.respText cfg).take 767 ++ [Ch.nul]).take (s.respText cfg).length = _
  rw [hall]
  exact List.take_left

/-- **One whole response is sent** exactly when it leaves room for the terminator. -/
theorem response_framed_iff (cfg : Config F) (s : Session F) (c : Calls) :
    Sendable (session_build_response cfg s c) (s.jsonText cfg) ↔ s.respSize cfg ≤ 767 := by
  constructor
  · intro h
    obtain ⟨hinside, -, hbody⟩ := h
    by_contra hlong
    have hinside : (s.respText cfg).length ≤ ((s.respText cfg).take 767 ++ [Ch.nul]).length :=
      hinside
    rw [List.length_append, List.length_take, List.length_singleton] at hinside
    -- the JSON text is whole, since the headers are there too
    have hjson : jsonSize cfg s.req_no (cfg.compute s.a s.b) ≤ 767 := by
      by_contra hcut
      have hlong : 768 < (s.respText cfg).length := respText_long _ _ _ _ (by omega)
      omega
    have htext : (s.respText cfg).length = s.respSize cfg := by
      rw [Session.respText, respText_eq _ _ _ _ hjson, framedText_length]
      rfl
    -- so the text is one byte too long, and the terminator stands where its last byte was
    obtain ⟨front, hfront⟩ := hbody
    have hfull : ((s.respText cfg).take 767 ++ [Ch.nul]).take (s.respText cfg).length
        = (s.respText cfg).take 767 ++ [Ch.nul] := by
      apply List.take_of_length_le
      rw [List.length_append, List.length_take, List.length_singleton]
      omega
    have hends : front ++ s.jsonText cfg = (s.respText cfg).take 767 ++ [Ch.nul] :=
      hfront.trans hfull
    have hbrace : (s.jsonText cfg).getLast? = some 125 := by
      have hend : (ascii "\"\x7d").getLast? = some 125 := rfl
      unfold Session.jsonText BenchHttp.jsonText
      rw [List.getLast?_append, hend]
      rfl
    have hlast := congrArg List.getLast? hends
    rw [List.getLast?_append, List.getLast?_append, hbrace] at hlast
    exact absurd (Option.some.inj hlast) (by decide)
  · intro hfits
    obtain ⟨htext, hlen⟩ := respText_whole hfits
    have hsent := session_build_response_text c hfits
    refine ⟨?_, ?_, ?_⟩
    · show (s.respText cfg).length ≤ ((s.respText cfg).take 767 ++ [Ch.nul]).length
      rw [List.length_append, List.length_take]
      omega
    · rw [hsent, htext]
      exact framed_framedText _ _
    · rw [hsent, htext]
      exact List.suffix_append _ _

/-- What bounds a worker's responses: a name that a handoff can carry, and `%.6g`. -/
structure Config.Modest (cfg : Config F) : Prop where
  fn_name : cfg.fn_name.length ≤ 127
  fmt6g : ∀ x, (cfg.fmt6g x).length ≤ 13

theorem Config.Modest.jsonSize_le {cfg : Config F} (h : cfg.Modest) (req_no : UInt64)
    (result : F) : jsonSize cfg req_no result ≤ 431 := by
  have hname := h.fn_name
  have hfmt := h.fmt6g result
  have hno : (ascii (toString req_no.toNat)).length ≤ 20 := by
    have := req_no.toNat_lt
    exact digits_length _ 20 (by omega) (by decide)
  unfold jsonSize
  omega

theorem Config.Modest.respText_le {cfg : Config F} (h : cfg.Modest) (req_no : UInt64)
    (close : Bool) (result : F) : (BenchHttp.respText cfg req_no close result).length ≤ 767 := by
  have hjson := h.jsonSize_le req_no result
  have hdigits : (ascii (toString (jsonSize cfg req_no result))).length ≤ 3 :=
    digits_length _ 3 (by omega) (by decide)
  rw [respText_eq _ _ _ _ (by omega), framedText_length, jsonText_length]
  unfold BenchHttp.respSize
  split <;> omega

/-- **Every response of such a worker fits.** -/
theorem Config.Modest.respSize_le {cfg : Config F} (h : cfg.Modest) (s : Session F) :
    s.respSize cfg ≤ 767 := by
  have hjson := h.jsonSize_le s.req_no (cfg.compute s.a s.b)
  have htext : (s.respText cfg).length = s.respSize cfg := by
    rw [Session.respText, respText_eq _ _ _ _ (by omega), framedText_length]
    rfl
  rw [← htext]
  exact h.respText_le _ _ _

/-! ## §4. Where a response ends. -/

/-- **Responses delimit themselves**: the header block ends where it does, and gives the length
of what follows. -/
theorem framed_selfDelimiting : SelfDelimiting fun b => ∃ close, Framed b close where
  ne_nil := by
    rintro b ⟨close, r, rfl, -⟩ hnil
    have hhead := (List.append_eq_nil_iff.mp hnil).1
    unfold Response.head at hhead
    rw [block_append] at hhead
    exact absurd (List.append_eq_nil_iff.mp hhead).2 (by decide)
  cut := by
    rintro a b x y ⟨close, r, rfl, -⟩ ⟨close', r', rfl, -⟩ h
    unfold Response.bytes Response.head at h
    rw [List.append_assoc, List.append_assoc] at h
    obtain ⟨hlines, hrest⟩ := block_cut Response.isLine Response.isLine h
    -- the same headers declare the same length
    have hheaders : r.headers = r'.headers := (List.cons.inj hlines).2
    have hlen : r.body.length = r'.body.length :=
      r.declares.unique (hheaders ▸ r'.declares)
    obtain ⟨hbody, -⟩ := List.append_inj hrest hlen
    show block (r.lines ++ [[]]) ++ r.body = block (r'.lines ++ [[]]) ++ r'.body
    rw [hlines, hbody]

end TlsMigration.BenchHttp
