/-
  TlsMigration.Bench2.ContentLength
  ─────────────────────────────────
  **WHERE THE NUMBER OF A HEADER COMES FROM**
  (`parse_header_int64`, bench2_proto_worker.c and bench2_vanilla_fn.c).

  The scan keeps to the lines of the header block, but `strtoll` skips white
  space, line ends among it, and knows no end.  Behind a name with an empty
  value it goes on to the next line, or into the body.

    • `headerValue_line`            — what one line gives;
    • `parse_header_int64_eq`       — what a block of lines gives;
    • `parse_header_int64_own_iff`  — when that is a number of its own line;
    • `content_length_own_iff`      — for the block that the worker finds.
-/
import TlsMigration.Bench2.Session
import TlsMigration.Vanilla.Session

namespace TlsMigration.Vanilla

/-- `parse_header_int64` of bench2_vanilla_fn.c, the worker's with longer names. -/
def parse_header_int64 (hdr : Bytes) (hdr_len : Nat) (needle : Bytes) : Int :=
  Http.parse_header_int64 hdr hdr_len needle

end TlsMigration.Vanilla

namespace TlsMigration.Bench2

open TlsMigration.Http

/-! ## §1. What the lines say. -/

/-- The number that follows the name in a line, after white space. -/
def lineNumber (needle l : Bytes) : Option Int :=
  if startsLower needle l then strtoll (l.drop needle.length) else none

/-- The number of the first line that has one, or -1. -/
def ownNumber (needle : Bytes) (ls : List Bytes) : Int :=
  (ls.findSome? (lineNumber needle)).getD (-1)

/-- A line with the name, and nothing but white space behind it. -/
def blankValue (needle l : Bytes) : Bool :=
  startsLower needle l && (l.drop needle.length).all isSpace

/-- The number that stands behind a line with a blank value, across the line ends, and the lines
there.  It is the first such line that a number follows, in front of those with their own. -/
def strayNumber (needle rest : Bytes) : List Bytes → Option (Int × List Bytes)
  | [] => none
  | l :: later =>
      if (lineNumber needle l).isSome then none
      else if blankValue needle l then
        match strtoll (lfBlock later ++ rest) with
        | some v => some (v, later)
        | none => strayNumber needle rest later
      else strayNumber needle rest later

/-- No number strays in, or it happens to be the right one. -/
def NothingStrays (needle rest : Bytes) (ls : List Bytes) : Prop :=
  ∀ v later, strayNumber needle rest ls = some (v, later) → v = ownNumber needle later

/-! ## §2. What the scan finds. -/

theorem length_le_of_startsLower {needle l : Bytes} (h : startsLower needle l = true) :
    needle.length ≤ l.length := by
  have hlen := congrArg List.length (of_decide_eq_true h)
  rw [List.length_map, List.length_take] at hlen
  omega

theorem isSpace_of_isBlank {c : UInt8} (h : isBlank c = true) : isSpace c = true := by
  rcases of_decide_eq_true h with rfl | rfl
  · rfl
  · rfl

/-- Skipping the blanks first makes no difference to `strtoll`. -/
theorem strtoll_drop_blanks (s : Bytes) :
    strtoll (s.drop (s.takeWhile isBlank).length) = strtoll s := by
  have hblank : ∀ c ∈ s.takeWhile isBlank, isSpace c = true :=
    fun c hc => isSpace_of_isBlank (List.mem_takeWhile_imp hc)
  have hsplit : s = s.takeWhile isBlank ++ s.dropWhile isBlank :=
    List.takeWhile_append_dropWhile.symm
  have hdrop : s.drop (s.takeWhile isBlank).length = s.dropWhile isBlank :=
    (congrArg (List.drop _) hsplit).trans List.drop_left
  calc strtoll (s.drop (s.takeWhile isBlank).length)
      = strtoll (s.dropWhile isBlank) := by rw [hdrop]
    _ = strtoll (s.takeWhile isBlank ++ s.dropWhile isBlank) := (strtoll_spaces hblank _).symm
    _ = strtoll s := by rw [← hsplit]

/-- **What one line gives**: its own number, or behind a blank value what comes next. -/
theorem headerValue_line {needle l : Bytes} (later : List Bytes) (rest : Bytes) :
    headerValue needle l (lfBlock (l :: later)) (lfBlock (l :: later) ++ rest)
      = if blankValue needle l then strtoll (lfBlock later ++ rest) else lineNumber needle l := by
  unfold headerValue blankValue lineNumber
  cases hname : startsLower needle l with
  | false => simp
  | true =>
      have hlen := length_le_of_startsLower hname
      generalize hvalue : l.drop needle.length = value
      have hblock : (lfBlock (l :: later)).drop needle.length
          = value ++ Ch.lf :: lfBlock later := by
        rw [lfBlock_cons, List.drop_append_of_le_length hlen, hvalue]
      -- the blanks end at the LF at the latest
      have hskip : ((lfBlock (l :: later)).drop needle.length).takeWhile isBlank
          = (value ++ Ch.lf :: (lfBlock later ++ rest)).takeWhile isBlank := by
        rw [hblock, takeWhile_stop (by decide), takeWhile_stop (by decide)]
      have hmem : (lfBlock (l :: later) ++ rest).drop needle.length
          = value ++ Ch.lf :: (lfBlock later ++ rest) := by
        rw [lfBlock_cons, List.append_assoc, List.drop_append_of_le_length hlen, hvalue]
        rfl
      rw [if_pos rfl, if_pos rfl, hskip, ← List.drop_drop, hmem, strtoll_drop_blanks]
      by_cases hblank : ∀ c ∈ value, isSpace c = true
      · have hall : value.all isSpace = true := List.all_eq_true.mpr hblank
        have hlf : ∀ c ∈ [Ch.lf], isSpace c = true :=
          fun c hc => congrArg isSpace (List.mem_singleton.mp hc)
        have hnext : strtoll (Ch.lf :: (lfBlock later ++ rest)) = strtoll (lfBlock later ++ rest) :=
          strtoll_spaces hlf _
        rw [hall, strtoll_spaces hblank, hnext]
        exact (if_pos rfl).symm
      · have hall : ¬ (true && value.all isSpace) = true := by
          intro h
          exact hblank (List.all_eq_true.mp h)
        rw [if_neg hall]
        exact strtoll_stop (by decide) hblank _

/-- A blank value has no number of its own. -/
theorem lineNumber_of_blank {needle l : Bytes} (h : blankValue needle l = true) :
    lineNumber needle l = none := by
  obtain ⟨hname, hall⟩ := Bool.and_eq_true_iff.mp h
  unfold lineNumber
  rw [if_pos hname, ← List.append_nil (l.drop needle.length),
    strtoll_spaces (List.all_eq_true.mp hall)]
  rfl

/-- **What the scan gives**: the stray number, if there is one. -/
theorem scanList_headerValue (needle rest : Bytes) (ls : List Bytes) :
    (scanList (headerValue needle) rest ls).getD (-1)
      = match strayNumber needle rest ls with
        | some (v, _) => v
        | none => ownNumber needle ls := by
  unfold ownNumber
  induction ls with
  | nil => rfl
  | cons l later ih =>
      show ((headerValue needle l (lfBlock (l :: later)) (lfBlock (l :: later) ++ rest)).or
        (scanList (headerValue needle) rest later)).getD (-1) = _
      rw [headerValue_line, List.findSome?_cons]
      unfold strayNumber
      by_cases hblank : blankValue needle l = true
      · rw [if_pos hblank, if_pos hblank, lineNumber_of_blank hblank]
        cases strtoll (lfBlock later ++ rest) with
        | none => exact ih
        | some v => rfl
      · rw [if_neg hblank, if_neg hblank]
        cases lineNumber needle l with
        | none => exact ih
        | some v => rfl

theorem parse_header_int64_eq (needle : Bytes) {ls : List Bytes} (hls : ∀ l ∈ ls, Ch.lf ∉ l)
    (rest : Bytes) :
    Http.parse_header_int64 (lfBlock ls ++ rest) (lfBlock ls).length needle
      = match strayNumber needle rest ls with
        | some (v, _) => v
        | none => ownNumber needle ls := by
  unfold Http.parse_header_int64
  rw [List.take_left, scanLines_lfBlock rest hls _ (length_le_lfBlock ls)]
  exact scanList_headerValue needle rest ls

/-- In front of a stray number no line has its own. -/
theorem ownNumber_of_stray {needle rest : Bytes} {v : Int} {later : List Bytes} :
    ∀ {ls : List Bytes}, strayNumber needle rest ls = some (v, later) →
      ownNumber needle ls = ownNumber needle later := by
  intro ls
  unfold ownNumber
  induction ls with
  | nil =>
      intro h
      cases h
  | cons l ls ih =>
      intro h
      unfold strayNumber at h
      obtain ⟨hnone, h⟩ := Option.ite_none_left_eq_some.mp h
      rw [List.findSome?_cons, Option.not_isSome_iff_eq_none.mp hnone]
      by_cases hblank : blankValue needle l = true
      · rw [if_pos hblank] at h
        cases hnext : strtoll (lfBlock ls ++ rest) with
        | none =>
            rw [hnext] at h
            exact ih h
        | some w =>
            rw [hnext] at h
            obtain ⟨-, rfl⟩ := Prod.mk.inj (Option.some.inj h)
            rfl
      · rw [if_neg hblank] at h
        exact ih h

/-! ## §3. When the number is the line's own. -/

theorem parse_header_int64_iff (needle : Bytes) {ls : List Bytes} (hls : ∀ l ∈ ls, Ch.lf ∉ l)
    (rest : Bytes) :
    Http.parse_header_int64 (lfBlock ls ++ rest) (lfBlock ls).length needle = ownNumber needle ls
      ↔ NothingStrays needle rest ls := by
  rw [parse_header_int64_eq needle hls rest]
  unfold NothingStrays
  cases hstray : strayNumber needle rest ls with
  | none =>
      refine iff_of_true rfl ?_
      intro v later h
      cases h
  | some p =>
      obtain ⟨v, later⟩ := p
      rw [ownNumber_of_stray hstray]
      constructor
      · intro h v' later' heq
        obtain ⟨rfl, rfl⟩ := Prod.mk.inj (Option.some.inj heq)
        exact h
      · intro h
        exact h v later rfl

/-- **When the two copies return the number of a line of its own**: for any lines, ended by LF,
and any bytes behind them, if and only if no other number is taken for it. -/
theorem parse_header_int64_own_iff (needle : Bytes) {ls : List Bytes}
    (hls : ∀ l ∈ ls, Ch.lf ∉ l) (rest : Bytes) :
    (Http.parse_header_int64 (lfBlock ls ++ rest) (lfBlock ls).length needle
        = ownNumber needle ls
      ∧ Vanilla.parse_header_int64 (lfBlock ls ++ rest) (lfBlock ls).length needle
        = ownNumber needle ls)
      ↔ NothingStrays needle rest ls := by
  have hworker := parse_header_int64_iff needle hls rest
  constructor
  · intro h
    exact hworker.mp h.1
  · intro h
    exact ⟨hworker.mpr h, hworker.mpr h⟩

/-- A header block with a number, and one without. -/
def lengthFive : List Bytes := [ascii "Content-Length: 5\r", ascii "\r"]
def lengthBlank : List Bytes := [ascii "Content-Length:\r", ascii "\r"]

/-- A number in its own line, in front of a body of digits. -/
theorem content_length_five :
    Http.parse_header_int64 (lfBlock lengthFive ++ ascii "123") (lfBlock lengthFive).length
        contentLength = 5
      ∧ Vanilla.parse_header_int64 (lfBlock lengthFive ++ ascii "123")
        (lfBlock lengthFive).length contentLength = 5 := by
  have hown : ownNumber contentLength lengthFive = 5 := by decide +kernel
  have hstray : strayNumber contentLength (ascii "123") lengthFive = none := by decide +kernel
  have hcopies := (parse_header_int64_own_iff contentLength
    (by decide +kernel : ∀ l ∈ lengthFive, Ch.lf ∉ l) (ascii "123")).mpr (by
      intro v later h
      rw [hstray] at h
      cases h)
  rw [hown] at hcopies
  exact hcopies

/-- **An empty value takes the number of the body.** -/
theorem body_digits_taken :
    lfBlock lengthBlank ++ ascii "123" = ascii "Content-Length:\r\n\r\n123"
      ∧ (∀ l ∈ lengthBlank, Ch.lf ∉ l) ∧ ownNumber contentLength lengthBlank = -1
      ∧ Http.parse_header_int64 (lfBlock lengthBlank ++ ascii "123")
        (lfBlock lengthBlank).length contentLength = 123
      ∧ Vanilla.parse_header_int64 (lfBlock lengthBlank ++ ascii "123")
        (lfBlock lengthBlank).length contentLength = 123 := by
  refine ⟨by decide +kernel, by decide +kernel, by decide +kernel, by decide +kernel,
    by decide +kernel⟩

/-! ## §4. In the worker. -/

/-- The block in front of a body ends in LF. -/
theorem headerEnd_lines {buf : Bytes} {hdr_sz : Nat} (h : headerEnd buf = some hdr_sz) :
    ∃ ls, (∀ l ∈ ls, Ch.lf ∉ l) ∧ buf.take hdr_sz = lfBlock ls
      ∧ (lfBlock ls).length = hdr_sz := by
  -- both needles end in LF
  have hneedle : ∀ (needle front : Bytes) (i : Nat), needle = front ++ [Ch.lf] →
      firstOcc needle buf = some i → hdr_sz = i + needle.length →
      ∃ ls, (∀ l ∈ ls, Ch.lf ∉ l) ∧ buf.take hdr_sz = lfBlock ls
        ∧ (lfBlock ls).length = hdr_sz := by
    intro needle front i hfront hocc hsz
    have hle := (firstOcc_le hocc).resolve_right (by rw [hfront]; simp)
    obtain ⟨tail, htail⟩ := (firstOcc_spec hocc).1
    have htake : buf.take hdr_sz = buf.take i ++ needle := by
      conv_lhs => rw [← List.take_append_drop i buf, ← htail, hsz]
      rw [List.take_append, List.length_take, Nat.min_eq_left (by omega), List.take_take,
        Nat.min_eq_right (by omega), Nat.add_sub_cancel_left, List.take_left]
    obtain ⟨ls, hls, hblock⟩ := exists_lfBlock (buf.take i ++ front)
    refine ⟨ls, hls, ?_, ?_⟩
    · rw [htake, hfront, ← hblock, List.append_assoc]
    · rw [← hblock, List.append_assoc, ← hfront, ← htake, List.length_take]
      omega
  unfold headerEnd at h
  cases hcrlf : find_subseq buf crlfcrlf with
  | some i =>
      rw [hcrlf] at h
      cases h
      exact hneedle crlfcrlf [Ch.cr, Ch.lf, Ch.cr] i rfl hcrlf rfl
  | none =>
      rw [hcrlf] at h
      obtain ⟨i, hi, rfl⟩ := Option.map_eq_some_iff.mp h
      exact hneedle [Ch.lf, Ch.lf] [Ch.lf] i rfl hi rfl

/-- **The length that frames the body** of a request in the worker's buffer. -/
theorem content_length_own_iff {buf : Bytes} {hdr_sz : Nat} (h : headerEnd buf = some hdr_sz) :
    ∃ ls, (∀ l ∈ ls, Ch.lf ∉ l) ∧ buf.take hdr_sz = lfBlock ls
      ∧ (parse_content_length buf hdr_sz = ownNumber contentLength ls
        ↔ NothingStrays contentLength (buf.drop hdr_sz) ls) := by
  obtain ⟨ls, hls, htake, hlen⟩ := headerEnd_lines h
  refine ⟨ls, hls, htake, ?_⟩
  have hiff := parse_header_int64_iff contentLength hls (buf.drop hdr_sz)
  rw [← htake, List.take_append_drop, htake, hlen] at hiff
  exact hiff

end TlsMigration.Bench2
