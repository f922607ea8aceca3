/-
  TlsMigration.Faasd.ConnectionClose
  ──────────────────────────────────
  **THE THREE TESTS FOR `Connection: close`.**

  The HTTP keep-alive worker searches the block for two spellings, the bench2
  worker and the faasd worker look at its lines in any letter case; the faasd
  worker skips the CRs in front of a line.

    • `closesConnection_iff`  — the line test, in its own terms;
    • `should_close_iff`, `has_connection_close_iff`, `header_has_token_iff`
                              — what each test looks for;
    • `workers_agree_iff`     — when all three say what the headers say.
-/
import Mathlib.Data.List.Infix
import TlsMigration.HttpKa.Payload
import TlsMigration.Vanilla.Session

namespace TlsMigration.Faasd

open TlsMigration.Http

/-- `header_has_token` of timing_fn_keepalive_worker.c, the function of bench2_vanilla_fn.c. -/
def header_has_token (headers : Bytes) (headers_len : Nat) (header_name token : Bytes) : Bool :=
  Vanilla.header_has_token headers headers_len header_name token

/-! ## §1. What the headers say. -/

/-- A header with the name `Connection`, and `close` in its value, in any letter case. -/
def IsCloseHeader (l : Bytes) : Prop :=
  ∃ name value : Bytes, l = name ++ 58 :: value ∧ name.map lower = ascii "connection"
    ∧ ∃ before word behind : Bytes, value = before ++ word ++ behind
      ∧ word.map lower = ascii "close"

/-- The two spellings that the keep-alive worker knows. -/
def SpelledOut (l : Bytes) : Prop :=
  ascii "Connection: close" <:+: l ∨ ascii "connection: close" <:+: l

/-- A line without the line ends in front of it. -/
def stripped (l : Bytes) : Bytes := l.dropWhile fun c => c = Ch.cr ∨ c = Ch.lf

/-- A line starts with a needle when some part in front matches it. -/
theorem startsLower_iff {needle l : Bytes} :
    startsLower needle l = true ↔ ∃ w rest, l = w ++ rest ∧ w.map lower = needle := by
  unfold startsLower
  rw [decide_eq_true_eq]
  constructor
  · intro h
    exact ⟨l.take needle.length, l.drop needle.length, (List.take_append_drop _ _).symm, h⟩
  · intro h
    obtain ⟨w, rest, rfl, rfl⟩ := h
    rw [List.length_map, List.take_left]

/-- Some end of a text starts with a needle when the needle stands in it. -/
theorem any_tails_startsLower {needle s : Bytes} :
    s.tails.any (startsLower needle) = true
      ↔ ∃ before w behind, s = before ++ w ++ behind ∧ w.map lower = needle := by
  rw [List.any_eq_true]
  constructor
  · intro h
    obtain ⟨t, ht, hstart⟩ := h
    obtain ⟨before, rfl⟩ := (List.mem_tails _ _).mp ht
    obtain ⟨w, behind, rfl, hw⟩ := startsLower_iff.mp hstart
    exact ⟨before, w, behind, (List.append_assoc _ _ _).symm, hw⟩
  · intro h
    obtain ⟨before, w, behind, rfl, hw⟩ := h
    refine ⟨w ++ behind, ?_, startsLower_iff.mpr ⟨w, behind, rfl, hw⟩⟩
    rw [List.mem_tails, List.append_assoc]
    exact List.suffix_append _ _

theorem lower_eq_colon {c : UInt8} (h : lower c = 58) : c = 58 := by
  unfold lower at h
  split at h
  next hcap =>
    have hlow := UInt8.le_iff_toNat_le.mp hcap.1
    have hhigh := UInt8.le_iff_toNat_le.mp hcap.2
    have hsum := congrArg UInt8.toNat h
    rw [UInt8.toNat_add] at hsum
    have e65 : (65 : UInt8).toNat = 65 := rfl
    have e90 : (90 : UInt8).toNat = 90 := rfl
    have e32 : (32 : UInt8).toNat = 32 := rfl
    have e58 : (58 : UInt8).toNat = 58 := rfl
    omega
  next => exact h

/-- **The test of the bench2 worker on one line.** -/
theorem closesConnection_iff {l : Bytes} : closesConnection l = true ↔ IsCloseHeader l := by
  have hcolon : connection = ascii "connection" ++ [58] := rfl
  unfold closesConnection IsCloseHeader
  rw [Bool.and_eq_true_iff, any_tails_startsLower]
  constructor
  · intro h
    obtain ⟨hstart, hclose⟩ := h
    obtain ⟨w, rest, rfl, hw⟩ := startsLower_iff.mp hstart
    have hlen : connection.length = w.length := by rw [← hw, List.length_map]
    rw [hlen, List.drop_left] at hclose
    -- the last byte of the part that matches is the colon
    obtain ⟨name, last, rfl, hname, hlast⟩ := List.map_eq_append_iff.mp (hw.trans hcolon)
    obtain ⟨c, rfl, hc⟩ := List.map_eq_singleton_iff.mp hlast
    obtain rfl := lower_eq_colon hc
    exact ⟨name, rest, by simp, hname, hclose⟩
  · intro h
    obtain ⟨name, value, rfl, hname, hclose⟩ := h
    have hmap : (name ++ [58]).map lower = connection := by
      rw [List.map_append, hname]
      rfl
    have hsplit : name ++ 58 :: value = (name ++ [58]) ++ value := by simp
    have hlen : connection.length = (name ++ [58]).length := by rw [← hmap, List.length_map]
    rw [hsplit, hlen, List.drop_left]
    exact ⟨startsLower_iff.mpr ⟨_, _, rfl, hmap⟩, hclose⟩

/-! ## §2. What each worker looks for. -/

/-- The keep-alive worker looks for its spellings in every line. -/
theorem should_close_iff (ls : List Bytes) (rest : Bytes) :
    HttpKa.should_close (lfBlock ls ++ rest) (lfBlock ls).length = true
      ↔ ∃ l ∈ ls, SpelledOut l := by
  have hcap : (firstOcc (ascii "Connection: close") (lfBlock ls)).isSome = true
      ↔ ∃ l ∈ ls, ascii "Connection: close" <:+: l :=
    (firstOcc_isSome (by decide)).trans (infix_lfBlock_iff (by decide) (by decide) ls)
  have hlow : (firstOcc (ascii "connection: close") (lfBlock ls)).isSome = true
      ↔ ∃ l ∈ ls, ascii "connection: close" <:+: l :=
    (firstOcc_isSome (by decide)).trans (infix_lfBlock_iff (by decide) (by decide) ls)
  unfold HttpKa.should_close SpelledOut
  rw [List.take_left, Bool.or_eq_true, hcap, hlow]
  constructor
  · intro h
    rcases h with ⟨l, hl, h⟩ | ⟨l, hl, h⟩
    · exact ⟨l, hl, Or.inl h⟩
    · exact ⟨l, hl, Or.inr h⟩
  · intro h
    obtain ⟨l, hl, h | h⟩ := h
    · exact Or.inl ⟨l, hl, h⟩
    · exact Or.inr ⟨l, hl, h⟩

variable {ls : List Bytes}

/-- The bench2 worker looks at every line. -/
theorem has_connection_close_iff (hls : ∀ l ∈ ls, Ch.lf ∉ l) (rest : Bytes) :
    has_connection_close (lfBlock ls ++ rest) (lfBlock ls).length = true
      ↔ ∃ l ∈ ls, IsCloseHeader l := by
  unfold has_connection_close
  rw [List.take_left, scanLines_lf_any closesConnection rest hls, List.any_eq_true]
  exact exists_congr fun l => and_congr_right fun _ => closesConnection_iff

/-- Skipping blanks first does not lose the word. -/
theorem any_tails_dropWhile (s : Bytes) :
    (s.dropWhile isBlank).tails.any (startsLower (ascii "close"))
      = s.tails.any (startsLower (ascii "close")) := by
  induction s with
  | nil => rfl
  | cons c s ih =>
      cases hc : isBlank c with
      | false => rw [List.dropWhile_cons_of_neg (by simp [hc])]
      | true =>
          have hmiss : startsLower (ascii "close") (c :: s) = false := by
            rcases of_decide_eq_true hc with rfl | rfl
            · simp [startsLower, ascii, lower, Ch.space]
            · simp [startsLower, ascii, lower, Ch.tab]
          rw [List.dropWhile_cons_of_pos hc, ih, List.tails_cons, List.any_cons, hmiss,
            Bool.false_or]

theorem headerToken_eq (l : Bytes) :
    Vanilla.headerToken connection (ascii "close") l = closesConnection (stripped l) := by
  unfold Vanilla.headerToken closesConnection stripped
  dsimp only
  rw [any_tails_dropWhile]

/-- The faasd worker looks at every line behind its CRs. -/
theorem header_has_token_iff (hls : ∀ l ∈ ls, Ch.lf ∉ l) (rest : Bytes) :
    header_has_token (lfBlock ls ++ rest) (lfBlock ls).length connection (ascii "close") = true
      ↔ ∃ l ∈ ls, IsCloseHeader (stripped l) := by
  unfold header_has_token Vanilla.header_has_token
  rw [List.take_left, scanLines_lf_any _ rest hls, List.any_eq_true]
  refine exists_congr fun l => and_congr_right fun _ => ?_
  rw [headerToken_eq]
  exact closesConnection_iff

/-- A close header does not start with a line end. -/
theorem stripped_of_close {l : Bytes} (h : IsCloseHeader l) : stripped l = l := by
  obtain ⟨name, value, rfl, hname, -⟩ := h
  cases name with
  | nil => exact absurd hname (by decide)
  | cons c name =>
      have hc : lower c = 99 := (List.cons.inj hname).1
      refine List.dropWhile_cons_of_neg ?_
      rw [decide_eq_true_eq]
      intro h
      rcases h with rfl | rfl
      · exact absurd hc (by decide)
      · exact absurd hc (by decide)

/-! ## §3. When they agree. -/

/-- Some header says that the connection is to be closed. -/
def SaysClose (headers : List Bytes) : Prop := ∃ l ∈ headers, IsCloseHeader l

/-- What the three workers make of a block with `rest` behind it is what its headers say. -/
structure AllFollow (req : Bytes) (headers : List Bytes) (rest : Bytes) : Prop where
  keepalive : HttpKa.should_close (lfBlock (req :: headers) ++ rest)
    (lfBlock (req :: headers)).length = true ↔ SaysClose headers
  bench2 : has_connection_close (lfBlock (req :: headers) ++ rest)
    (lfBlock (req :: headers)).length = true ↔ SaysClose headers
  faasd : header_has_token (lfBlock (req :: headers) ++ rest) (lfBlock (req :: headers)).length
    connection (ascii "close") = true ↔ SaysClose headers

/-- **When all three workers say what the headers say**, for any request line, any header lines
and any bytes behind the block: if and only if

  • one of the two spellings stands in the block exactly when there is a close header, and
  • no line looks like one behind its CRs, nor the request line, unless there is one. -/
theorem workers_agree_iff {req : Bytes} {headers : List Bytes}
    (hls : ∀ l ∈ req :: headers, Ch.lf ∉ l) (rest : Bytes) :
    AllFollow req headers rest
      ↔ ((∃ l ∈ req :: headers, SpelledOut l) ↔ SaysClose headers)
        ∧ ∀ l ∈ req :: headers, IsCloseHeader (stripped l) → SaysClose headers := by
  have hkeepalive := should_close_iff (req :: headers) rest
  have hbench2 := has_connection_close_iff hls rest
  have hfaasd := header_has_token_iff hls rest
  constructor
  · intro h
    refine ⟨hkeepalive.symm.trans h.keepalive, ?_⟩
    intro l hl hclose
    exact h.faasd.mp (hfaasd.mpr ⟨l, hl, hclose⟩)
  · intro h
    obtain ⟨hspelled, hstripped⟩ := h
    -- a close header is one of the lines, and has nothing in front of it to skip
    have hline : SaysClose headers → ∃ l ∈ req :: headers, IsCloseHeader l := by
      intro h
      obtain ⟨l, hl, hclose⟩ := h
      exact ⟨l, List.mem_cons_of_mem _ hl, hclose⟩
    refine ⟨hkeepalive.trans hspelled, hbench2.trans ⟨?_, hline⟩, hfaasd.trans ⟨?_, ?_⟩⟩
    · intro h
      obtain ⟨l, hl, hclose⟩ := h
      refine hstripped l hl ?_
      rw [stripped_of_close hclose]
      exact hclose
    · intro h
      obtain ⟨l, hl, hclose⟩ := h
      exact hstripped l hl hclose
    · intro hsays
      obtain ⟨l, hl, hclose⟩ := hline hsays
      refine ⟨l, hl, ?_⟩
      rw [stripped_of_close hclose]
      exact hclose

/-- The usual spelling. -/
theorem workers_agree_connection_close :
    AllFollow (ascii "GET / HTTP/1.1\r") [ascii "Connection: close\r", ascii "\r"] [] := by
  have hheader : IsCloseHeader (ascii "Connection: close\r") :=
    closesConnection_iff.mp (by decide +kernel)
  have hsays : SaysClose [ascii "Connection: close\r", ascii "\r"] :=
    ⟨_, List.mem_cons_self, hheader⟩
  refine (workers_agree_iff (by decide +kernel) []).mpr ⟨?_, fun _ _ _ => hsays⟩
  exact iff_of_true ⟨_, List.mem_cons_of_mem _ List.mem_cons_self,
    Or.inl (List.prefix_append _ (ascii "\r")).isInfix⟩ hsays

/-- A request that says `Connection: Close`, with a capital letter in the value. -/
def capitalClose : Bytes := ascii "GET / HTTP/1.1\r\nConnection: Close\r\n\r\n"

/-- **A capital letter in the value**: two workers close, the third does not. -/
theorem capital_close_missed :
    lfBlock [ascii "GET / HTTP/1.1\r", ascii "Connection: Close\r", ascii "\r"] = capitalClose
      ∧ SaysClose [ascii "Connection: Close\r", ascii "\r"]
      ∧ HttpKa.should_close capitalClose capitalClose.length = false
      ∧ has_connection_close capitalClose capitalClose.length = true
      ∧ header_has_token capitalClose capitalClose.length connection (ascii "close") = true
      ∧ ¬ AllFollow (ascii "GET / HTTP/1.1\r") [ascii "Connection: Close\r", ascii "\r"] [] := by
  have hblock : lfBlock [ascii "GET / HTTP/1.1\r", ascii "Connection: Close\r", ascii "\r"]
      = capitalClose := by decide +kernel
  have hheader : IsCloseHeader (ascii "Connection: Close\r") :=
    closesConnection_iff.mp (by decide +kernel)
  have hsays : SaysClose [ascii "Connection: Close\r", ascii "\r"] :=
    ⟨_, List.mem_cons_self, hheader⟩
  have hmissed : HttpKa.should_close capitalClose capitalClose.length = false := by
    decide +kernel
  refine ⟨hblock, hsays, hmissed, by decide +kernel, by decide +kernel, fun h => ?_⟩
  have hcloses := h.keepalive.mpr hsays
  rw [List.append_nil, hblock, hmissed] at hcloses
  exact absurd hcloses (by decide)

end TlsMigration.Faasd
