/-
  TlsMigration.Http.Parse
  ───────────────────────
  **THE HTTP PARSING HELPERS OF THE WORKERS.**

  The same functions stand in bench2_proto_worker.c, in bench2gw.c and in
  timing_fn_ka_worker.c.  They read a header block that lies at the start of
  a NUL-terminated buffer, so a number may be read past the block's end.

    • `parse_request_owner_iff`     — the owner is the name in the request line;
    • `parse_request_owner_append`  — more bytes do not change it;
    • `parse_header_int64_hit/none` — the value of a header in a block of lines.
-/
import TlsMigration.Lib.Lines

namespace TlsMigration.Http

/-! ## §1. Numbers in headers. -/

/-- `find_subseq`; `-1` is `none`, and every needle it is called with is nonempty. -/
abbrev find_subseq (buf needle : Bytes) : Option Nat := firstOcc needle buf

def LLONG_MAX : Int := 9223372036854775807
def LLONG_MIN : Int := -9223372036854775808

/-- `strtoll(s, &ep, 10)`; `none` when `ep == s`. -/
def strtoll (s : Bytes) : Option Int :=
  let s := s.dropWhile isSpace
  let (neg, s) :=
    match s with
    | c :: s' => if c = Ch.minus then (true, s') else if c = Ch.plus then (false, s') else (false, s)
    | [] => (false, [])
  let digits := s.takeWhile isDigit
  if digits = [] then none
  else
    let v : Int := digitsVal 0 digits
    some (if neg then max LLONG_MIN (-v) else min LLONG_MAX v)

def isBlank (c : UInt8) : Bool := c = Ch.space ∨ c = Ch.tab

/-- The body of the loop of `parse_header_int64`: the blanks are skipped inside the
header block, the number is read from the buffer. -/
def headerValue (needle line h mem : Bytes) : Option Int :=
  if startsLower needle line then
    strtoll (mem.drop (needle.length + ((h.drop needle.length).takeWhile isBlank).length))
  else none

/-- `parse_header_int64(mem, hlen, needle)`. -/
def parse_header_int64 (mem : Bytes) (hlen : Nat) (needle : Bytes) : Int :=
  (scanLines (headerValue needle) hlen (mem.take hlen) mem).getD (-1)

def contentLength : Bytes := ascii "content-length:"
def singleOwner : Bytes := ascii "x-bench2-single-owner:"
def connection : Bytes := ascii "connection:"

def parse_content_length (mem : Bytes) (hlen : Nat) : Int :=
  parse_header_int64 mem hlen contentLength

def has_single_owner_hint (mem : Bytes) (hlen : Nat) : Bool :=
  decide (0 < parse_header_int64 mem hlen singleOwner)

/-- `connection:` followed anywhere in the line by `close`, in any letter case. -/
def closesConnection (line : Bytes) : Bool :=
  startsLower connection line
    && (line.drop connection.length).tails.any (startsLower (ascii "close"))

def has_connection_close (mem : Bytes) (hlen : Nat) : Bool :=
  (scanLines (fun line _ _ => if closesConnection line then some () else none)
    hlen (mem.take hlen) mem).isSome

/-! ## §2. The operands. -/

/-- Doubles and the libc functions on them that the worker calls; `strtod` gives the
value and how many bytes it read. -/
structure FloatLib (F : Type*) where
  strtod : Bytes → F × Nat
  mul : F → F → F
  add : F → F → F
  /-- `%.2f` -/
  fmt2 : F → Bytes
  ten : F
  twenty : F

variable {F : Type*}

/-- `parse_query_double_param`; `none` where the output stays untouched. -/
def parse_query_double_param (L : FloatLib F) (key : Bytes) : Nat → Bytes → Option F
  | 0, _ => none
  | fuel + 1, cursor =>
      if cursor = [] then none
      else
        let segment := cursor.take ((memchr 38 cursor).getD cursor.length)
        if key.length + 1 < segment.length ∧ segment.take key.length = key
            ∧ segment[key.length]? = some 61 then
          let number := segment.drop (key.length + 1)
          -- sizeof(number_buf)
          if 64 ≤ number.length then none
          else
            let (value, used) := L.strtod (cstr number)
            if used = (cstr number).length then some value else none
        else parse_query_double_param L key fuel (cursor.drop (segment.length + 1))

/-- The query string of the request line, when there is one. -/
def queryOf (buf : Bytes) : Option Bytes :=
  let line := buf.take ((memchr Ch.lf buf).getD buf.length)
  (memchr Ch.space line).bind fun space1 =>
    let path := line.drop (space1 + 1)
    (memchr Ch.space path).bind fun space2 =>
      let target := path.take space2
      (memchr Ch.question target).bind fun query =>
        if query + 1 < space2 then some (target.drop (query + 1)) else none

/-- `parse_request_operands`. -/
def parse_request_operands (L : FloatLib F) (buf : Bytes) : F × F :=
  match queryOf buf with
  | none => (L.ten, L.twenty)
  | some q =>
      ((parse_query_double_param L (ascii "a") q.length q).getD L.ten,
        (parse_query_double_param L (ascii "b") q.length q).getD L.twenty)

/-! ## §3. The owner. -/

/-- `"/function/"` -/
def functionPath : Bytes := ascii "/function/"

def endsName (c : UInt8) : Bool := c = Ch.slash ∨ c = Ch.question ∨ c = Ch.space

/-- The bytes before the first LF. -/
def requestLine (buf : Bytes) : Bytes := buf.takeWhile (· ≠ Ch.lf)

/-- `parse_request_owner`; `outsz` is the size of the output buffer. -/
def parse_request_owner (buf : Bytes) (outsz : Nat) : Option Bytes :=
  let line := requestLine buf
  (memchr Ch.space line).bind fun sp1 =>
    let path := line.drop (sp1 + 1)
    (memchr Ch.space path).bind fun rlen =>
      if rlen ≤ functionPath.length ∨ path.take functionPath.length ≠ functionPath then none
      else
        let name := ((path.take rlen).drop functionPath.length).takeWhile (!endsName ·)
        if name = [] ∨ outsz < name.length + 1 then none else some name

/-- What it means for a request line to name a function: a method, and a path that
starts with `/function/<name>` and goes on, if at all, with `/` or `?`. -/
def NamesFunction (line name : Bytes) : Prop :=
  ∃ method more rest : Bytes,
    line = method ++ Ch.space :: (functionPath ++ name ++ more ++ Ch.space :: rest)
      ∧ Ch.space ∉ method ∧ name ≠ [] ∧ (∀ c ∈ name, endsName c = false)
      ∧ Ch.space ∉ more ∧ (∀ c ∈ more.head?, endsName c = true)

theorem space_notMem_functionPath : Ch.space ∉ functionPath := by decide

theorem space_notMem_name {name : Bytes} (h : ∀ c ∈ name, endsName c = false) :
    Ch.space ∉ name := by
  intro hmem
  have := h _ hmem
  simp [endsName] at this

/-- The name is what stands before the first separator. -/
theorem takeWhile_name {name more : Bytes} (hname : ∀ c ∈ name, endsName c = false)
    (hmore : ∀ c ∈ more.head?, endsName c = true) :
    (name ++ more).takeWhile (!endsName ·) = name := by
  rw [List.takeWhile_append_of_pos (by simpa using hname)]
  cases more with
  | nil => simp
  | cons c more =>
      have hc := hmore c (by simp)
      simp [hc]

/-- **The owner is the function that the request line names**, if it fits. -/
theorem parse_request_owner_iff {buf name : Bytes} {outsz : Nat} :
    parse_request_owner buf outsz = some name
      ↔ NamesFunction (requestLine buf) name ∧ name.length < outsz := by
  constructor
  · intro h
    simp only [parse_request_owner, Option.bind_eq_some_iff] at h
    obtain ⟨sp1, hsp1, rlen, hrlen, h⟩ := h
    obtain ⟨method, rest₁, hline, hmethod, hlen₁⟩ := memchr_eq_some.mp hsp1
    have hpath : (requestLine buf).drop (sp1 + 1) = rest₁ := by
      rw [hline, ← hlen₁, List.drop_append]
      simp
    rw [hpath] at hrlen h
    obtain ⟨target, rest, hrest, htarget, hlen₂⟩ := memchr_eq_some.mp hrlen
    have htake : rest₁.take rlen = target := by
      rw [hrest, ← hlen₂, List.take_left]
    rw [htake] at h
    split at h
    next => cases h
    next hguard =>
      push Not at hguard
      obtain ⟨hlong, hfp⟩ := hguard
      split at h
      next => cases h
      next hfit =>
        push Not at hfit
        injection h with h
        -- the path is the literal, the name, and what the scan stopped at
        have hfp' : target.take functionPath.length = functionPath := by
          rw [← htake, List.take_take, Nat.min_eq_left (by omega)]
          exact hfp
        have hsplit : target = functionPath ++ target.drop functionPath.length := by
          conv_lhs => rw [← List.take_append_drop functionPath.length target, hfp']
        set tail := target.drop functionPath.length with htail
        have hnm : tail = name ++ tail.dropWhile (!endsName ·) := by
          rw [← h, List.takeWhile_append_dropWhile]
        refine ⟨⟨method, tail.dropWhile (!endsName ·), rest, ?_, hmethod, ?_, ?_, ?_, ?_⟩, ?_⟩
        · rw [hline, hrest]
          conv_lhs => rw [hsplit, hnm]
          simp only [List.append_assoc]
        · rw [← h]
          exact hfit.1
        · intro c hc
          rw [← h] at hc
          simpa using List.mem_takeWhile_imp hc
        · intro hc
          apply htarget
          rw [hsplit]
          exact List.mem_append_right _ ((List.dropWhile_suffix _).subset hc)
        · intro c hc
          have := List.head?_dropWhile_not (!endsName ·) tail
          rw [Option.mem_def.mp hc] at this
          simpa using this
        · rw [← h]
          omega
  · rintro ⟨⟨method, more, rest, hline, hmethod, hne, hname, hmore, hhead⟩, hfit⟩
    have htarget : Ch.space ∉ functionPath ++ name ++ more := by
      simp only [List.mem_append, not_or]
      exact ⟨⟨space_notMem_functionPath, space_notMem_name hname⟩, hmore⟩
    have hpath : (requestLine buf).drop (method.length + 1)
        = functionPath ++ name ++ more ++ Ch.space :: rest := by
      rw [hline, List.drop_append]
      simp
    have hsp1 : memchr Ch.space (requestLine buf) = some method.length := by
      rw [hline]
      exact memchr_append_cons _ _ hmethod
    have hsp2 := memchr_append_cons (functionPath ++ name ++ more) rest htarget
    have hlen : functionPath.length < (functionPath ++ name ++ more).length := by
      have := List.length_pos_iff.mpr hne
      simp only [List.length_append]
      omega
    have hfp : (functionPath ++ name ++ more ++ Ch.space :: rest).take functionPath.length
        = functionPath := by
      rw [List.append_assoc, List.append_assoc, List.take_left]
    have htail : ((functionPath ++ name ++ more ++ Ch.space :: rest).take
          (functionPath ++ name ++ more).length).drop functionPath.length = name ++ more := by
      rw [List.take_left, List.append_assoc, List.drop_left]
    have hlt : ¬ outsz < name.length + 1 := by omega
    simp only [parse_request_owner, hsp1, Option.bind_some, hpath, hsp2, htail,
      takeWhile_name hname hhead, Nat.not_le.mpr hlen, hfp, hne, hlt, or_self, if_false,
      not_true_eq_false, ne_eq]

theorem requestLine_append_of_mem {buf : Bytes} (h : Ch.lf ∈ buf) (q : Bytes) :
    requestLine (buf ++ q) = requestLine buf := by
  unfold requestLine
  induction buf with
  | nil => simp at h
  | cons b buf ih =>
      by_cases hb : b = Ch.lf
      · simp [hb]
      · have hmem : Ch.lf ∈ buf := by
          rcases List.mem_cons.mp h with e | e
          · exact absurd e.symm hb
          · exact e
        rw [List.cons_append, List.takeWhile_cons_of_pos (by simp [hb]),
            List.takeWhile_cons_of_pos (by simp [hb]), ih hmem]

/-- The request line grows with the buffer. -/
theorem requestLine_append (buf q : Bytes) :
    ∃ more, requestLine (buf ++ q) = requestLine buf ++ more := by
  by_cases h : Ch.lf ∈ buf
  · exact ⟨[], by rw [requestLine_append_of_mem h, List.append_nil]⟩
  · have hall : ∀ b ∈ buf, (decide (b ≠ Ch.lf)) = true := by
      intro b hb
      simp only [ne_eq, decide_eq_true_eq]
      rintro rfl
      exact h hb
    refine ⟨requestLine q, ?_⟩
    unfold requestLine
    rw [List.takeWhile_append_of_pos hall, List.takeWhile_eq_self_iff.mpr hall]

theorem NamesFunction.append {line name : Bytes} (h : NamesFunction line name) (more : Bytes) :
    NamesFunction (line ++ more) name := by
  obtain ⟨method, more', rest, rfl, h⟩ := h
  exact ⟨method, more', rest ++ more, by simp, h⟩

theorem NamesFunction.ne_nil {line name : Bytes} (h : NamesFunction line name) : line ≠ [] := by
  obtain ⟨method, more, rest, rfl, -⟩ := h
  simp

/-- Padding behind the content names nothing. -/
theorem NamesFunction.of_append {line pad name : Bytes} (hpad : Ch.space ∉ pad)
    (h : NamesFunction (line ++ pad) name) : NamesFunction line name := by
  obtain ⟨method, more, rest, hline, h⟩ := h
  rcases List.append_eq_append_iff.mp
      (show line ++ pad = (method ++ Ch.space :: (functionPath ++ name ++ more))
        ++ Ch.space :: rest by rw [hline]; simp) with ⟨l, h₁, h₂⟩ | ⟨l, h₁, h₂⟩
  · exact absurd (by rw [h₂]; simp) hpad
  · cases l with
    | nil =>
        rw [List.nil_append] at h₂
        exact absurd (by rw [← h₂]; simp) hpad
    | cons b l =>
        rw [List.cons_append] at h₂
        injection h₂ with hb _
        exact ⟨method, more, l, by rw [h₁, ← hb]; simp, h⟩

/-- A line names at most one function. -/
theorem NamesFunction.unique {line name name' : Bytes} (h : NamesFunction line name)
    (h' : NamesFunction line name') : name = name' := by
  obtain ⟨method, more, rest, hline, hmethod, hne, hname, hmore, hhead⟩ := h
  obtain ⟨method', more', rest', hline', hmethod', hne', hname', hmore', hhead'⟩ := h'
  have hm : method.length = method'.length := by
    have h₁ := memchr_append_cons method (functionPath ++ name ++ more ++ Ch.space :: rest) hmethod
    have h₂ := memchr_append_cons method' (functionPath ++ name' ++ more' ++ Ch.space :: rest')
      hmethod'
    rw [← hline] at h₁
    rw [← hline', h₁] at h₂
    exact Option.some.inj h₂
  obtain ⟨-, htail⟩ := List.append_inj (hline.symm.trans hline') hm
  injection htail with _ htail
  have htarget : Ch.space ∉ functionPath ++ name ++ more := by
    simp only [List.mem_append, not_or]
    exact ⟨⟨space_notMem_functionPath, space_notMem_name hname⟩, hmore⟩
  have htarget' : Ch.space ∉ functionPath ++ name' ++ more' := by
    simp only [List.mem_append, not_or]
    exact ⟨⟨space_notMem_functionPath, space_notMem_name hname'⟩, hmore'⟩
  have hlen := (memchr_append_cons _ rest htarget).symm.trans
    ((congrArg (memchr Ch.space) htail).trans (memchr_append_cons _ rest' htarget'))
  obtain ⟨hpath, -⟩ := List.append_inj htail (Option.some.inj hlen)
  rw [List.append_assoc, List.append_assoc] at hpath
  have hnames := List.append_cancel_left hpath
  rw [← takeWhile_name hname hhead, hnames, takeWhile_name hname' hhead']

/-- **More bytes do not change the owner.** -/
theorem parse_request_owner_append {buf name : Bytes} {outsz : Nat}
    (h : parse_request_owner buf outsz = some name) (q : Bytes) :
    parse_request_owner (buf ++ q) outsz = some name := by
  obtain ⟨hnames, hfit⟩ := parse_request_owner_iff.mp h
  obtain ⟨more, hmore⟩ := requestLine_append buf q
  exact parse_request_owner_iff.mpr ⟨by rw [hmore]; exact hnames.append more, hfit⟩

/-! ## §4. Headers in a block of lines. -/

/-- A number that something other than a digit ends; one that is too large is cut. -/
theorem strtoll_digits {ds : Bytes} (hds : ds ≠ []) (hdig : ∀ d ∈ ds, isDigit d = true)
    {c : UInt8} (hc : isDigit c = false) (rest : Bytes) :
    strtoll (ds ++ c :: rest) = some (min LLONG_MAX (digitsVal 0 ds : Int)) := by
  obtain ⟨d, ds', rfl⟩ := List.exists_cons_of_ne_nil hds
  have hd : isDigit d = true := hdig d (by simp)
  have hd' : 48 ≤ d ∧ d ≤ 57 := by simpa [isDigit] using hd
  have hspace : isSpace d = false := by
    obtain ⟨h₁, h₂⟩ := hd'
    have h₁ := UInt8.le_iff_toNat_le.mp h₁
    have h₂ := UInt8.le_iff_toNat_le.mp h₂
    simp only [isSpace, decide_eq_false_iff_not, not_or, not_and]
    refine ⟨?_, fun _ h => ?_⟩
    · rintro rfl
      exact absurd h₁ (by decide)
    · have := UInt8.le_iff_toNat_le.mp h
      have e : (48 : UInt8).toNat = 48 := rfl
      have e' : (13 : UInt8).toNat = 13 := rfl
      omega
  have hminus : d ≠ Ch.minus := by
    rintro rfl
    exact absurd hd'.1 (by decide)
  have hplus : d ≠ Ch.plus := by
    rintro rfl
    exact absurd hd'.1 (by decide)
  have htake : (d :: (ds' ++ c :: rest)).takeWhile isDigit = d :: ds' := by
    rw [← List.cons_append, List.takeWhile_append_of_pos hdig]
    simp [hc]
  have hdrop : (d :: (ds' ++ c :: rest)).dropWhile isSpace = d :: (ds' ++ c :: rest) :=
    List.dropWhile_cons_of_neg (by simp [hspace])
  rw [List.cons_append, strtoll, hdrop]
  simp only [hminus, hplus, if_false, htake, reduceCtorEq, Bool.false_eq_true]

/-- White space in front of a number, line ends among it, is skipped. -/
theorem strtoll_spaces {x : Bytes} (hx : ∀ c ∈ x, isSpace c = true) (y : Bytes) :
    strtoll (x ++ y) = strtoll y := by
  unfold strtoll
  rw [List.dropWhile_append_of_pos hx]

/-- **A number does not go past a byte that is no digit**, once it has begun. -/
theorem strtoll_stop {c : UInt8} (hc : isDigit c = false) {x : Bytes}
    (hx : ¬ ∀ b ∈ x, isSpace b = true) (y : Bytes) : strtoll (x ++ c :: y) = strtoll x := by
  have hne : x.dropWhile isSpace ≠ [] := fun h => hx (List.dropWhile_eq_nil_iff.mp h)
  obtain ⟨b, x', hbx⟩ := List.exists_cons_of_ne_nil hne
  have hdrop : (x ++ c :: y).dropWhile isSpace = b :: (x' ++ c :: y) := by
    rw [List.dropWhile_append, hbx]
    rfl
  have htake : ∀ z : Bytes, (z ++ c :: y).takeWhile isDigit = z.takeWhile isDigit :=
    fun z => takeWhile_stop hc z y
  have hcons : (b :: (x' ++ c :: y)).takeWhile isDigit = (b :: x').takeWhile isDigit :=
    htake (b :: x')
  unfold strtoll
  rw [hdrop, hbx]
  -- the sign, if any
  by_cases hminus : b = Ch.minus
  · simp only [hminus, if_true, htake]
  · by_cases hplus : b = Ch.plus
    · have hne : ¬ Ch.plus = Ch.minus := by decide
      simp only [hplus, hne, if_false, if_true, htake]
    · simp only [hminus, hplus, if_false, hcons]

theorem startsLower_append_cr {needle l : Bytes} (hn : Ch.cr ∉ needle) :
    startsLower needle (l ++ [Ch.cr]) = startsLower needle l := by
  unfold startsLower
  by_cases hlen : needle.length ≤ l.length
  · rw [List.take_append_of_le_length hlen]
  · have h₁ : ¬ (l.take needle.length).map lower = needle := by
      intro h
      have := congrArg List.length h
      simp at this
      omega
    have h₂ : ¬ ((l ++ [Ch.cr]).take needle.length).map lower = needle := by
      intro h
      rw [List.take_of_length_le (by simp; omega), List.map_append] at h
      apply hn
      rw [← h]
      simp [lower, Ch.cr]
    simp only [h₁, h₂]

/-- No line of the block is this header: the value is `-1`. -/
theorem parse_header_int64_none {needle : Bytes} (hn : Ch.cr ∉ needle) {ls : List Bytes}
    (hls : ∀ l ∈ ls, IsLine l) (hmiss : ∀ l ∈ ls, startsLower needle l = false) (rest : Bytes) :
    parse_header_int64 (block ls ++ rest) (block ls).length needle = -1 := by
  unfold parse_header_int64
  rw [List.take_left]
  rw [scanLines_none (fun l hl => (hls l hl).2)]
  · rfl
  · intro l hl h mem
    simp [headerValue, startsLower_append_cr hn, hmiss l hl]

/-- The header line of a number: a name that the needle matches, the digits of `v`, and
blanks around them. -/
def NumberLine (needle l : Bytes) (v : Nat) : Prop :=
  ∃ name blanks ds trail : Bytes, l = name ++ (blanks ++ (ds ++ trail))
    ∧ name.map lower = needle ∧ (∀ b ∈ blanks, isBlank b = true)
    ∧ ds ≠ [] ∧ (∀ d ∈ ds, isDigit d = true) ∧ digitsVal 0 ds = v
    ∧ (∀ b ∈ trail, isBlank b = true)

theorem isBlank_of_isDigit {d : UInt8} (h : isDigit d = true) : isBlank d = false := by
  simp only [isDigit, decide_eq_true_eq] at h
  simp only [isBlank, decide_eq_false_iff_not, not_or]
  constructor
  · rintro rfl
    exact absurd h.1 (by decide)
  · rintro rfl
    exact absurd h.1 (by decide)

theorem isDigit_of_isBlank {b : UInt8} (h : isBlank b = true) : isDigit b = false := by
  cases hd : isDigit b with
  | false => rfl
  | true =>
      rw [isBlank_of_isDigit hd] at h
      cases h

/-- The number in the line of a block that is this header. -/
theorem headerValue_hit {needle l : Bytes} {v : Nat} (hl : NumberLine needle l v)
    (post : List Bytes) (rest : Bytes) :
    headerValue needle (l ++ [Ch.cr]) (block (l :: post)) (block (l :: post) ++ rest)
      = some (min LLONG_MAX (v : Int)) := by
  obtain ⟨name, blanks, ds, trail, rfl, hname, hblanks, hds, hdig, rfl, htrail⟩ := hl
  have hlen : needle.length = name.length := by rw [← hname, List.length_map]
  have hstart : startsLower needle (name ++ (blanks ++ (ds ++ trail)) ++ [Ch.cr]) = true := by
    simp [startsLower, hlen, hname]
  have hdrop : (block ((name ++ (blanks ++ (ds ++ trail))) :: post)).drop needle.length
      = blanks ++ (ds ++ (trail ++ Ch.cr :: Ch.lf :: block post)) := by
    rw [hlen, block_cons]
    simp [List.append_assoc]
  have hskip : ((block ((name ++ (blanks ++ (ds ++ trail))) :: post)).drop
      needle.length).takeWhile isBlank = blanks := by
    rw [hdrop, List.takeWhile_append_of_pos hblanks]
    obtain ⟨d, ds', rfl⟩ := List.exists_cons_of_ne_nil hds
    simp [isBlank_of_isDigit (hdig d (by simp))]
  have hnum : (block ((name ++ (blanks ++ (ds ++ trail))) :: post) ++ rest).drop
        (needle.length + blanks.length)
      = ds ++ (trail ++ Ch.cr :: Ch.lf :: (block post ++ rest)) := by
    rw [hlen, block_cons, ← List.length_append]
    simp only [List.append_assoc]
    rw [← List.append_assoc name blanks, List.drop_left]
    simp
  -- the digits end at a blank or at the line's CR
  have hvalue : strtoll (ds ++ (trail ++ Ch.cr :: Ch.lf :: (block post ++ rest)))
      = some (min LLONG_MAX (digitsVal 0 ds : Int)) := by
    cases trail with
    | nil => exact strtoll_digits hds hdig (by decide) _
    | cons b trail => exact strtoll_digits hds hdig (isDigit_of_isBlank (htrail b (by simp))) _
  rw [headerValue, if_pos hstart, hskip, hnum, hvalue]

/-- The first line of the block that is this header gives the value. -/
theorem parse_header_int64_hit {needle l : Bytes} {v : Nat} (hn : Ch.cr ∉ needle)
    (hl : NumberLine needle l v) {pre post : List Bytes}
    (hls : ∀ x ∈ pre ++ l :: post, IsLine x)
    (hmiss : ∀ x ∈ pre, startsLower needle x = false) (rest : Bytes) :
    parse_header_int64 (block (pre ++ l :: post) ++ rest) (block (pre ++ l :: post)).length needle
      = min LLONG_MAX (v : Int) := by
  unfold parse_header_int64
  rw [List.take_left]
  have hfuel : pre.length < (block (pre ++ l :: post)).length := by
    have := length_le_block (pre ++ l :: post)
    simp only [List.length_append, List.length_cons] at this ⊢
    omega
  rw [scanLines_hit rest (hls l (by simp)).2 (headerValue_hit hl post rest) pre
    (fun x hx => (hls x (by simp [hx])).2)
    (fun x hx h mem => by simp [headerValue, startsLower_append_cr hn, hmiss x hx]) _ hfuel]
  rfl

end TlsMigration.Http
