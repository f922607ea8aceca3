/-
  TlsMigration.Http.Request
  ─────────────────────────
  **REQUESTS, AND WHAT THE WORKERS' PARSERS MAKE OF THEM.**

  A request is a request line, header lines and a body whose length the
  header lines give.  The parsers see it at the start of a buffer that may
  end inside it, or go on behind it.

    • `Request.crlfcrlf_head`, `Request.crlfcrlf_partial` — where the header
      block ends, once it is there;
    • `Request.content_length`, `Request.not_closing`, `Request.no_hint` —
      the headers;
    • `Request.requestLine_append` — the line.
-/
import TlsMigration.Http.Parse

namespace TlsMigration.Http

/-! ## §1. Requests. -/

/-- The first length header among the lines gives `n`; without one, `n` is zero. -/
def DeclaresLength (ls : List Bytes) (n : Nat) : Prop :=
  (∃ pre l post, ls = pre ++ l :: post ∧ NumberLine contentLength l n
      ∧ ∀ x ∈ pre, startsLower contentLength x = false)
    ∨ (n = 0 ∧ ∀ x ∈ ls, startsLower contentLength x = false)

structure Request where
  line : Bytes
  headers : List Bytes
  body : Bytes
  isLine : ∀ l ∈ line :: headers, IsLine l ∧ l ≠ []
  declares : DeclaresLength (line :: headers) body.length

namespace Request

variable (q : Request)

def lines : List Bytes := q.line :: q.headers

/-- The header block, with the empty line that ends it. -/
def head : Bytes := block (q.lines ++ [[]])

def bytes : Bytes := q.head ++ q.body

/-- No header asks to close the connection. -/
def KeepAlive : Prop := ∀ l ∈ q.lines, closesConnection l = false

/-- No header says `X-Bench2-Single-Owner`. -/
def Unhinted : Prop := ∀ l ∈ q.lines, startsLower singleOwner l = false

variable {q}

theorem isLine_head : ∀ l ∈ q.lines ++ [[]], IsLine l := by
  intro l hl
  rcases List.mem_append.mp hl with h | h
  · exact (q.isLine l h).1
  · rw [List.mem_singleton] at h
    subst h
    exact ⟨by simp, by simp⟩

theorem head_length : q.head.length = (block q.lines).length + 2 := by
  unfold head
  rw [block_append]
  simp

theorem four_lt_head : 4 < q.head.length := by
  have hne : q.line ≠ [] := (q.isLine q.line List.mem_cons_self).2
  have hpos : 0 < q.line.length := List.length_pos_iff.mpr hne
  have hlen : (block q.lines).length = q.line.length + 2 + (block q.headers).length := by
    show (block (q.line :: q.headers)).length = _
    rw [block_cons]
    simp only [List.length_append, List.length_cons]
    omega
  rw [head_length, hlen]
  omega

theorem bytes_length : q.bytes.length = q.head.length + q.body.length := by
  unfold bytes
  rw [List.length_append]

/-! ## §2. The end of the header block. -/

/-- **The empty line is found where the head ends.** -/
theorem crlfcrlf_head (rest : Bytes) :
    find_subseq (q.head ++ rest) crlfcrlf = some (q.head.length - 4) := by
  have hlines : ∀ l ∈ q.lines, IsLine l ∧ l ≠ [] := q.isLine
  obtain ⟨i, hi, hlen⟩ := firstOcc_block_end hlines (by simp [lines]) rest
  have e : i = q.head.length - 4 := by
    unfold head
    omega
  rw [← e]
  exact hi

/-- **In a part of the head it is not found.** -/
theorem crlfcrlf_partial {k : Nat} (hk : k < q.head.length) :
    find_subseq (q.head.take k) crlfcrlf = none := by
  cases hf : find_subseq (q.head.take k) crlfcrlf with
  | none => rfl
  | some i =>
      -- a hit in the part would be the hit in the head, which lies behind the part
      have hwhole := firstOcc_append_of_some (by decide) hf (q.head.drop k)
      rw [List.take_append_drop] at hwhole
      have hhead := crlfcrlf_head (q := q) []
      rw [List.append_nil] at hhead
      have e : i = q.head.length - 4 := Option.some.inj (hwhole.symm.trans hhead)
      have hle := (firstOcc_le hf).resolve_right (by decide)
      have h4 : crlfcrlf.length = 4 := rfl
      have hlt := four_lt_head (q := q)
      rw [List.length_take] at hle
      omega

theorem lflf_partial (k : Nat) : find_subseq (q.head.take k) [Ch.lf, Ch.lf] = none := by
  cases hf : find_subseq (q.head.take k) [Ch.lf, Ch.lf] with
  | none => rfl
  | some i =>
      have hwhole := firstOcc_append_of_some (by decide) hf (q.head.drop k)
      rw [List.take_append_drop] at hwhole
      have hnone : find_subseq q.head [Ch.lf, Ch.lf] = none := firstOcc_block_lflf isLine_head
      exact absurd (hwhole.symm.trans hnone) (by simp)

/-! ## §3. The headers. -/

/-- What the length header declares is what the parser reads, as far as it counts. -/
theorem declared_length (rest : Bytes) :
    max (parse_content_length (q.head ++ rest) q.head.length) 0
      = min LLONG_MAX (q.body.length : Int) := by
  rcases q.declares with ⟨pre, l, post, hls, hl, hmiss⟩ | ⟨hzero, hmiss⟩
  · have hhead : q.head = block (pre ++ l :: (post ++ [[]])) := by
      show block (q.lines ++ [[]]) = _
      rw [show q.lines = pre ++ l :: post from hls]
      simp
    have hisLine : ∀ x ∈ pre ++ l :: (post ++ [[]]), IsLine x := by
      intro x hx
      apply isLine_head (q := q)
      rw [show q.lines = pre ++ l :: post from hls]
      simpa using hx
    have hvalue := parse_header_int64_hit (by decide) hl hisLine hmiss rest
    rw [← hhead] at hvalue
    unfold parse_content_length LLONG_MAX at *
    rw [hvalue]
    omega
  · have hmiss' : ∀ x ∈ q.lines ++ [[]], startsLower contentLength x = false := by
      intro x hx
      rcases List.mem_append.mp hx with h | h
      · exact hmiss x h
      · rw [List.mem_singleton] at h
        subst h
        decide
    have hvalue := parse_header_int64_none (by decide) isLine_head hmiss' rest
    unfold parse_content_length head
    rw [hvalue, hzero]
    decide

theorem content_length (hmax : (q.body.length : Int) ≤ LLONG_MAX) (rest : Bytes) :
    max (parse_content_length (q.head ++ rest) q.head.length) 0 = q.body.length := by
  rw [declared_length, Int.min_eq_right hmax]

/-- A request without the hint header is not hinted. -/
theorem no_hint (h : q.Unhinted) (rest : Bytes) :
    has_single_owner_hint (q.head ++ rest) q.head.length = false := by
  have hmiss : ∀ x ∈ q.lines ++ [[]], startsLower singleOwner x = false := by
    intro x hx
    rcases List.mem_append.mp hx with hx | hx
    · exact h x hx
    · rw [List.mem_singleton] at hx
      subst hx
      decide
  have hvalue := parse_header_int64_none (by decide) isLine_head hmiss rest
  unfold has_single_owner_hint head
  rw [hvalue]
  decide

/-- The CR that ends a line is no part of `close`. -/
theorem closesConnection_append_cr (l : Bytes) :
    closesConnection (l ++ [Ch.cr]) = closesConnection l := by
  have hcr : ∀ t : Bytes, startsLower (ascii "close") (t ++ [Ch.cr]) = startsLower (ascii "close") t :=
    fun t => startsLower_append_cr (by decide)
  have htails : ∀ t : Bytes, (t ++ [Ch.cr]).tails.any (startsLower (ascii "close"))
      = t.tails.any (startsLower (ascii "close")) := by
    intro t
    induction t with
    | nil => decide
    | cons b t ih =>
        show ((b :: t ++ [Ch.cr]) :: (t ++ [Ch.cr]).tails).any _ = ((b :: t) :: t.tails).any _
        rw [List.any_cons, List.any_cons, ih, hcr]
  unfold closesConnection
  rw [startsLower_append_cr (by decide)]
  by_cases hlen : connection.length ≤ l.length
  · rw [List.drop_append_of_le_length hlen, htails]
  · -- too short for the header's name
    have hshort : startsLower connection l = false := by
      unfold startsLower
      rw [decide_eq_false_iff_not]
      intro h
      have := congrArg List.length h
      simp at this
      omega
    rw [hshort]
    rfl

/-- A keep-alive request does not close. -/
theorem not_closing (h : q.KeepAlive) (rest : Bytes) :
    has_connection_close (q.head ++ rest) q.head.length = false := by
  unfold has_connection_close
  rw [List.take_left]
  have hmiss : ∀ l ∈ q.lines ++ [[]], closesConnection (l ++ [Ch.cr]) = false := by
    intro l hl
    rw [closesConnection_append_cr]
    rcases List.mem_append.mp hl with hl | hl
    · exact h l hl
    · rw [List.mem_singleton] at hl
      subst hl
      decide
  have hnone : scanLines (fun line _ _ => if closesConnection line then some () else none)
      q.head.length (block (q.lines ++ [[]])) (q.head ++ rest) = none :=
    scanLines_none (fun l hl => (isLine_head l hl).2)
      (fun l hl _ _ => by rw [hmiss l hl]; rfl) _ _
  have hhead : q.head = block (q.lines ++ [[]]) := rfl
  rw [← hhead] at hnone
  rw [hnone]
  rfl

/-! ## §4. The request line. -/

theorem lf_notMem_line : Ch.lf ∉ q.line ++ [Ch.cr] := by
  simp only [List.mem_append, List.mem_singleton, not_or]
  exact ⟨(q.isLine q.line List.mem_cons_self).1.2, by decide⟩

/-- The first line feed, with what is in front of it and behind it. -/
theorem head_append (rest : Bytes) : q.head ++ rest
    = (q.line ++ [Ch.cr]) ++ Ch.lf :: (block (q.headers ++ [[]]) ++ rest) := by
  show block (q.line :: (q.headers ++ [[]])) ++ rest = _
  rw [block_cons]
  simp

/-- The line of a request ends where its length says. -/
theorem lf_mem_take_iff (rest : Bytes) (size : Nat) :
    Ch.lf ∈ (q.head ++ rest).take size ↔ q.line.length + 2 ≤ size := by
  have hlen : (q.line ++ [Ch.cr]).length = q.line.length + 1 := by simp
  rw [head_append, List.take_append, List.mem_append]
  constructor
  · rintro (hmem | hmem)
    · exact absurd ((List.take_subset _ _) hmem) (q.lf_notMem_line)
    · by_contra hshort
      have hzero : size - (q.line ++ [Ch.cr]).length = 0 := by omega
      rw [hzero, List.take_zero] at hmem
      cases hmem
  · intro hle
    right
    have hpos : size - (q.line ++ [Ch.cr]).length
        = (size - (q.line ++ [Ch.cr]).length - 1) + 1 := by omega
    rw [hpos, List.take_succ_cons]
    exact List.mem_cons_self

theorem requestLine_head (rest : Bytes) : requestLine (q.head ++ rest) = q.line ++ [Ch.cr] := by
  have hlf := q.lf_notMem_line
  have hshape := q.head_append rest
  have hself : ∀ x ∈ q.line ++ [Ch.cr], decide (x ≠ Ch.lf) = true := by
    intro x hx
    simp only [ne_eq, decide_eq_true_eq]
    rintro rfl
    exact hlf hx
  rw [hshape]
  unfold requestLine
  rw [List.takeWhile_append_of_pos hself]
  simp

end Request

end TlsMigration.Http
