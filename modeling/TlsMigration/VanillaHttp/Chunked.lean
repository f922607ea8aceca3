/-
  TlsMigration.VanillaHttp.Chunked
  ────────────────────────────────
  **THE CHUNKED BODIES OF THE VANILLA HTTP FUNCTION** (`chunked_complete` and
  `decode_chunked_body`, micro-bench-max-throughput-http/…/timing_fn.c).

  The decoder walks over the body with a cursor, and adds to it what the size
  lines say.  Whether the body is all there is decided beforehand, by a search
  for the last chunk's bytes.

    • `decode_encoded`      — decoding undoes the coding;
    • `complete_iff`        — when the search finds the last chunk, and only it;
    • `decoder_returns_iff` — when the decoder stays inside its areas and ends.
-/
import TlsMigration.Http.Parse
import TlsMigration.Lib.Chunked
import TlsMigration.Lib.Doubling

namespace TlsMigration.VanillaHttp

open TlsMigration.Http

/-! ## §1. The two functions. -/

/-- `"\r\n0\r\n\r\n"` -/
def crlfMark : Bytes := crlf ++ [Ch.zero] ++ crlfcrlf

/-- `"\n0\n\n"` -/
def lfMark : Bytes := [Ch.lf, Ch.zero, Ch.lf, Ch.lf]

def chunked_complete (buf : Bytes) : Bool :=
  (find_subseq buf crlfMark).isSome || (find_subseq buf lfMark).isSome

/-- `sizeof(szbuf)` -/
def SZBUF : Nat := 64

/-- `count` bytes from `off` on, in an area of `size` bytes. -/
structure Access where
  off : Nat
  count : Nat
  size : Nat

def Access.inside (a : Access) : Bool := a.off + a.count ≤ a.size

/-- The line at `pos` without its ending, and where the next one starts. -/
def lineAt (in_ : Bytes) (pos : Nat) : Option (Bytes × Nat) :=
  (memchr Ch.lf (in_.drop pos)).map fun line_len =>
    let line := (in_.drop pos).take line_len
    (if line.getLast? = some Ch.cr then line.dropLast else line, pos + line_len + 1)

/-- The size line at `pos`: where the data starts, and `chunk_sz`. -/
def sizeLine (in_ : Bytes) (pos : Nat) : Option (Nat × Nat) :=
  match lineAt in_ pos with
  | none => none
  | some (line, next) =>
      if line = [] ∨ SZBUF ≤ line.length then none
      else (chunkSize line).map fun r => (next, r.value)

/-- The accesses made for the size line: the scan, and the copy in `szbuf` with its NUL. -/
def lineAccesses (in_ : Bytes) (pos : Nat) : List Access :=
  match lineAt in_ pos with
  | none => [⟨pos, in_.length - pos, in_.length⟩]
  | some (line, next) =>
      ⟨pos, next - pos, in_.length⟩
        :: if line = [] ∨ SZBUF ≤ line.length then []
          else [⟨pos, line.length, in_.length⟩, ⟨0, line.length + 1, SZBUF⟩]

/-- `if (pos < in_len && in[pos] == '\r') pos++;`, and the same for `'\n'`. -/
def skipEol (in_ : Bytes) (pos : Nat) : Nat :=
  let pos := if in_[pos]? = some Ch.cr then pos + 1 else pos
  if in_[pos]? = some Ch.lf then pos + 1 else pos

/-- The variables of the loop; `dst` is what has been written to the destination. -/
structure DecodeState where
  pos : Nat
  cap : Nat
  used : Nat
  dst : Bytes

/-- The destination is made larger where it has to be. -/
def grow (realloc_ok : Nat → Bool) (cap needed : Nat) : Room :=
  if cap < needed then
    match doubleCap 65 needed (cap * 2 % 2 ^ 64) with
    | none => .spins
    | some nc => if realloc_ok ((nc + 1) % 2 ^ 64) then .room nc else .failed
  else .room cap

/-- How a turn of the loop ends. -/
inductive Turn where
  | next (s : DecodeState)
  /-- `break` -/
  | last
  /-- `-1` -/
  | failed
  | spins
  /-- an access that is not inside its area -/
  | outside

/-- The part of the loop body behind the size line. -/
def copyChunk (in_ : Bytes) (realloc_ok : Nat → Bool) (s : DecodeState) (pos chunk_sz : Nat) :
    Turn :=
  if in_.length < (pos + chunk_sz) % 2 ^ 64 then .failed
  else
    match grow realloc_ok s.cap ((s.used + chunk_sz) % 2 ^ 64) with
    | .spins => .spins
    | .failed => .failed
    | .room cap =>
        let copied : List Access :=
          [⟨pos, chunk_sz, in_.length⟩, ⟨s.used, chunk_sz, (cap + 1) % 2 ^ 64⟩]
        if copied.all Access.inside then
          .next
            { pos := skipEol in_ ((pos + chunk_sz) % 2 ^ 64)
              cap := cap
              used := (s.used + chunk_sz) % 2 ^ 64
              dst := s.dst ++ (in_.drop pos).take chunk_sz }
        else .outside

/-- The loop body of `decode_chunked_body`. -/
def decodeTurn (in_ : Bytes) (realloc_ok : Nat → Bool) (s : DecodeState) : Turn :=
  if (lineAccesses in_ s.pos).all Access.inside then
    match sizeLine in_ s.pos with
    | none => .failed
    | some (pos, chunk_sz) =>
        if chunk_sz = 0 then .last else copyChunk in_ realloc_ok s pos chunk_sz
  else .outside

/-- What `decode_chunked_body` comes to. -/
inductive Decoded where
  | decoded (out : Bytes)
  /-- `-1` -/
  | failed
  | spins
  | outside
  /-- more turns than were given -/
  | unfinished
  deriving DecidableEq

/-- `dst[used] = '\0'` and the results. -/
def finish (s : DecodeState) : Decoded :=
  if Access.inside ⟨s.used, 1, (s.cap + 1) % 2 ^ 64⟩ then .decoded s.dst else .outside

def decodeLoop (in_ : Bytes) (realloc_ok : Nat → Bool) : Nat → DecodeState → Decoded
  | 0, _ => .unfinished
  | turns + 1, s =>
      if s.pos < in_.length then
        match decodeTurn in_ realloc_ok s with
        | .next s => decodeLoop in_ realloc_ok turns s
        | .last => finish s
        | .failed => .failed
        | .spins => .spins
        | .outside => .outside
      else finish s

def DecodeState.start (in_ : Bytes) : DecodeState where
  pos := 0
  cap := if in_.length = 0 then 1 else in_.length
  used := 0
  dst := []

/-- `decode_chunked_body`; every turn takes a byte or more. -/
def decode_chunked_body (malloc_ok : Bool) (realloc_ok : Nat → Bool) (in_ : Bytes) : Decoded :=
  if malloc_ok then decodeLoop in_ realloc_ok (in_.length + 1) (DecodeState.start in_) else .failed

/-! ## §2. One turn. -/

theorem lineAt_next {in_ : Bytes} {pos : Nat} {line : Bytes} {next : Nat}
    (h : lineAt in_ pos = some (line, next)) :
    pos + line.length < next ∧ next ≤ in_.length := by
  unfold lineAt at h
  obtain ⟨n, hn, heq⟩ := Option.map_eq_some_iff.mp h
  have hlt := memchr_lt hn
  rw [List.length_drop] at hlt
  have hline : (if ((in_.drop pos).take n).getLast? = some Ch.cr then
      ((in_.drop pos).take n).dropLast else (in_.drop pos).take n).length ≤ n := by
    split
    · rw [List.length_dropLast, List.length_take]
      omega
    · rw [List.length_take]
      omega
  injection heq with h₁ h₂
  rw [← h₁, ← h₂]
  omega

theorem sizeLine_next {in_ : Bytes} {pos next chunk_sz : Nat}
    (h : sizeLine in_ pos = some (next, chunk_sz)) :
    pos < next ∧ next ≤ in_.length ∧ chunk_sz < 2 ^ 64 := by
  unfold sizeLine at h
  split at h
  next => cases h
  next line next' hline =>
    split at h
    next => cases h
    next =>
      obtain ⟨r, hr, heq⟩ := Option.map_eq_some_iff.mp h
      have hnext := lineAt_next hline
      injection heq with h₁ h₂
      subst h₁ h₂
      exact ⟨by omega, hnext.2, chunkSize_lt hr⟩

/-- **The size line is read inside the input, and copied inside `szbuf`.** -/
theorem lineAccesses_inside {in_ : Bytes} {pos : Nat} (hpos : pos ≤ in_.length) :
    (lineAccesses in_ pos).all Access.inside = true := by
  rw [List.all_eq_true]
  intro a ha
  unfold Access.inside
  rw [decide_eq_true_eq]
  unfold lineAccesses at ha
  split at ha
  next =>
    rw [List.mem_singleton.mp ha]
    dsimp only
    omega
  next line next hline =>
    have hnext := lineAt_next hline
    rcases List.mem_cons.mp ha with rfl | ha
    · dsimp only
      omega
    · split at ha
      next => cases ha
      next hshort =>
        have hlen : line.length < SZBUF := by
          by_contra hlong
          exact hshort (Or.inr (by omega))
        rcases List.mem_cons.mp ha with rfl | ha
        · dsimp only
          omega
        · rw [List.mem_singleton.mp ha]
          dsimp only
          omega

/-- The loop variables, as long as no size has wrapped. -/
structure DecodeInv (in_ : Bytes) (s : DecodeState) : Prop where
  pos : s.pos ≤ in_.length
  used : s.used ≤ s.pos
  cap : s.cap = if in_.length = 0 then 1 else in_.length
  dst : s.dst.length = s.used

theorem DecodeInv.start (in_ : Bytes) : DecodeInv in_ (DecodeState.start in_) :=
  ⟨Nat.zero_le _, Nat.le_refl 0, rfl, rfl⟩

theorem skipEol_le (in_ : Bytes) {pos : Nat} (h : pos ≤ in_.length) :
    pos ≤ skipEol in_ pos ∧ skipEol in_ pos ≤ in_.length := by
  have hlt : ∀ {i : Nat} {c : UInt8}, in_[i]? = some c → i < in_.length := fun h =>
    (List.getElem?_eq_some_iff.mp h).1
  unfold skipEol
  dsimp only
  split
  next hcr =>
    have hpos := hlt hcr
    split
    next hlf =>
      have hpos' := hlt hlf
      omega
    next => omega
  next =>
    split
    next hlf =>
      have hpos := hlt hlf
      omega
    next => omega

section Turns

variable {in_ : Bytes} {s : DecodeState} {pos chunk_sz : Nat} {realloc_ok : Nat → Bool}

theorem decodeTurn_eq (h : DecodeInv in_ s) : decodeTurn in_ realloc_ok s =
    match sizeLine in_ s.pos with
    | none => .failed
    | some (pos, chunk_sz) =>
        if chunk_sz = 0 then .last else copyChunk in_ realloc_ok s pos chunk_sz := by
  unfold decodeTurn
  rw [lineAccesses_inside h.pos]
  rfl

/-- The state behind a chunk that is all there. -/
def DecodeState.copied (s : DecodeState) (in_ : Bytes) (pos chunk_sz : Nat) : DecodeState :=
  { pos := skipEol in_ (pos + chunk_sz)
    cap := s.cap
    used := s.used + chunk_sz
    dst := s.dst ++ (in_.drop pos).take chunk_sz }

/-- **A chunk that is all there is copied**, and the destination does not grow. -/
theorem copyChunk_fits (hin : in_.length + 1 < 2 ^ 64) (h : DecodeInv in_ s)
    (hpos : s.pos ≤ pos) (hfits : pos + chunk_sz ≤ in_.length) (hne : 0 < chunk_sz) :
    copyChunk in_ realloc_ok s pos chunk_sz = .next (s.copied in_ pos chunk_sz) := by
  have hused := h.used
  have hcap : s.cap = in_.length := by
    rw [h.cap]
    exact if_neg (by omega)
  have e₁ : (pos + chunk_sz) % 2 ^ 64 = pos + chunk_sz := Nat.mod_eq_of_lt (by omega)
  have e₂ : (s.used + chunk_sz) % 2 ^ 64 = s.used + chunk_sz := Nat.mod_eq_of_lt (by omega)
  have e₃ : (s.cap + 1) % 2 ^ 64 = s.cap + 1 := Nat.mod_eq_of_lt (by omega)
  have hgrow : grow realloc_ok s.cap (s.used + chunk_sz) = .room s.cap := by
    unfold grow
    exact if_neg (by omega)
  have hinside : ([⟨pos, chunk_sz, in_.length⟩, ⟨s.used, chunk_sz, s.cap + 1⟩] : List Access).all
      Access.inside = true := by
    simp only [List.all_cons, List.all_nil, Access.inside, Bool.and_true, Bool.and_eq_true,
      decide_eq_true_eq]
    omega
  unfold copyChunk
  rw [e₁, e₂, if_neg (by omega), hgrow]
  dsimp only
  rw [e₃, if_pos hinside]
  rfl

theorem DecodeInv.copied (h : DecodeInv in_ s) (hpos : s.pos ≤ pos)
    (hfits : pos + chunk_sz ≤ in_.length) : DecodeInv in_ (s.copied in_ pos chunk_sz) := by
  have hskip := skipEol_le in_ hfits
  have hused := h.used
  refine ⟨hskip.2, ?_, h.cap, ?_⟩
  · show s.used + chunk_sz ≤ skipEol in_ (pos + chunk_sz)
    omega
  · show (s.dst ++ (in_.drop pos).take chunk_sz).length = s.used + chunk_sz
    rw [List.length_append, List.length_take, List.length_drop, h.dst]
    omega

/-- A chunk that is not all there ends the decoding. -/
theorem copyChunk_short (hsmall : pos + chunk_sz < 2 ^ 64) (hlong : in_.length < pos + chunk_sz) :
    copyChunk in_ realloc_ok s pos chunk_sz = .failed := by
  unfold copyChunk
  rw [Nat.mod_eq_of_lt hsmall, if_pos hlong]

/-- **A size that wraps** passes the check, and is copied or doubled for. -/
theorem copyChunk_wraps (hpos : pos ≤ in_.length) (hin : in_.length < 2 ^ 64)
    (hsz : chunk_sz < 2 ^ 64) (hwrap : 2 ^ 64 ≤ pos + chunk_sz) :
    copyChunk in_ (fun _ => true) s pos chunk_sz = .spins
      ∨ copyChunk in_ (fun _ => true) s pos chunk_sz = .outside := by
  have e : (pos + chunk_sz) % 2 ^ 64 = pos + chunk_sz - 2 ^ 64 := by
    rw [Nat.mod_eq_sub_mod hwrap]
    exact Nat.mod_eq_of_lt (by omega)
  unfold copyChunk
  rw [e, if_neg (by omega)]
  cases hgrow : grow (fun _ => true) s.cap ((s.used + chunk_sz) % 2 ^ 64) with
  | spins => exact Or.inl rfl
  | failed =>
      unfold grow at hgrow
      split at hgrow
      · split at hgrow
        · cases hgrow
        · cases hgrow
      · cases hgrow
  | room cap =>
      right
      dsimp only
      rw [if_neg]
      -- the copy reads `2 ^ 64 - pos` bytes or more from `pos` on
      simp only [List.all_cons, Access.inside, Bool.and_eq_true, decide_eq_true_eq, not_and]
      omega

end Turns

/-! ## §3. The whole input. -/

/-- `-1` or 0: the decoder has ended, inside its areas. -/
def Decoded.Returns (d : Decoded) : Prop := d = .failed ∨ ∃ out, d = .decoded out

/-- The places where the decoder looks for a size line: the start, and behind every chunk that is
all there. -/
inductive LineStart (in_ : Bytes) : Nat → Prop where
  | first : LineStart in_ 0
  | next {pos next chunk_sz : Nat} : LineStart in_ pos → pos < in_.length →
      sizeLine in_ pos = some (next, chunk_sz) → 0 < chunk_sz → next + chunk_sz ≤ in_.length →
      LineStart in_ (skipEol in_ (next + chunk_sz))

/-- No size line gives a size that wraps, added to the place where its data starts. -/
def NoWrap (in_ : Bytes) : Prop :=
  ∀ pos next chunk_sz, LineStart in_ pos → pos < in_.length →
    sizeLine in_ pos = some (next, chunk_sz) → next + chunk_sz < 2 ^ 64

section Runs

variable {in_ : Bytes} {s : DecodeState} {realloc_ok : Nat → Bool}

theorem decodeLoop_next {s' : DecodeState} {turns : Nat} (hlt : s.pos < in_.length)
    (h : decodeTurn in_ realloc_ok s = .next s') :
    decodeLoop in_ realloc_ok (turns + 1) s = decodeLoop in_ realloc_ok turns s' := by
  show (if s.pos < in_.length then _ else _) = _
  rw [if_pos hlt, h]

theorem finish_decoded (hin : in_.length + 1 < 2 ^ 64) (h : DecodeInv in_ s) :
    finish s = .decoded s.dst := by
  have hused := h.used
  have hpos := h.pos
  have hroom : s.used < (s.cap + 1) % 2 ^ 64 := by
    rw [h.cap]
    split
    · rw [Nat.mod_eq_of_lt (by decide)]
      omega
    · rw [Nat.mod_eq_of_lt hin]
      omega
  unfold finish Access.inside
  rw [if_pos]
  rw [decide_eq_true_eq]
  exact hroom

/-- Without a size that wraps, the loop ends inside its areas. -/
theorem decodeLoop_returns (hin : in_.length + 1 < 2 ^ 64) (hsizes : NoWrap in_) (turns : Nat) :
    ∀ s : DecodeState, DecodeInv in_ s → LineStart in_ s.pos → in_.length + 1 ≤ turns + s.pos →
      (decodeLoop in_ realloc_ok turns s).Returns := by
  induction turns with
  | zero =>
      intro s h _ hturns
      have hpos := h.pos
      omega
  | succ turns ih =>
      intro s h hstart hturns
      by_cases hlt : s.pos < in_.length
      · cases hsz : sizeLine in_ s.pos with
        | none =>
            left
            show (if s.pos < in_.length then _ else _) = _
            rw [if_pos hlt, decodeTurn_eq h, hsz]
        | some p =>
            obtain ⟨next, chunk_sz⟩ := p
            have hnext := sizeLine_next hsz
            have hsmall := hsizes _ _ _ hstart hlt hsz
            by_cases hzero : chunk_sz = 0
            · right
              refine ⟨s.dst, ?_⟩
              show (if s.pos < in_.length then _ else _) = _
              rw [if_pos hlt, decodeTurn_eq h, hsz]
              dsimp only
              rw [if_pos hzero]
              exact finish_decoded hin h
            · by_cases hfits : next + chunk_sz ≤ in_.length
              · have hturn : decodeTurn in_ realloc_ok s = .next (s.copied in_ next chunk_sz) := by
                  rw [decodeTurn_eq h, hsz]
                  dsimp only
                  rw [if_neg hzero]
                  exact copyChunk_fits hin h (by omega) hfits (by omega)
                have hskip := skipEol_le in_ hfits
                rw [decodeLoop_next hlt hturn]
                refine ih _ (h.copied (by omega) hfits)
                  (.next hstart hlt hsz (by omega) hfits) ?_
                show in_.length + 1 ≤ turns + skipEol in_ (next + chunk_sz)
                omega
              · left
                show (if s.pos < in_.length then _ else _) = _
                rw [if_pos hlt, decodeTurn_eq h, hsz]
                dsimp only
                rw [if_neg hzero, copyChunk_short hsmall (by omega)]
      · right
        refine ⟨s.dst, ?_⟩
        show (if s.pos < in_.length then _ else _) = _
        rw [if_neg hlt]
        exact finish_decoded hin h

/-- The loop comes to every place where there is a size line. -/
theorem decodeLoop_reaches (realloc_ok : Nat → Bool) (hin : in_.length + 1 < 2 ^ 64) {pos : Nat}
    (hstart : LineStart in_ pos) :
    ∃ s turns, DecodeInv in_ s ∧ s.pos = pos ∧ in_.length + 1 ≤ turns + pos
      ∧ decodeLoop in_ realloc_ok (in_.length + 1) (DecodeState.start in_)
        = decodeLoop in_ realloc_ok turns s := by
  induction hstart with
  | first =>
      exact ⟨DecodeState.start in_, in_.length + 1, DecodeInv.start in_, rfl, Nat.le_refl _, rfl⟩
  | @next pos next chunk_sz _ hlt hsz hne hfits ih =>
      obtain ⟨s, turns, h, rfl, hturns, heq⟩ := ih
      have hnext := sizeLine_next hsz
      have hskip := skipEol_le in_ hfits
      obtain ⟨turns, rfl⟩ : ∃ n, turns = n + 1 := ⟨turns - 1, by omega⟩
      have hturn : decodeTurn in_ realloc_ok s = .next (s.copied in_ next chunk_sz) := by
        rw [decodeTurn_eq h, hsz]
        dsimp only
        rw [if_neg (by omega)]
        exact copyChunk_fits hin h (by omega) hfits hne
      refine ⟨s.copied in_ next chunk_sz, turns, h.copied (by omega) hfits, rfl, by omega, ?_⟩
      rw [heq, decodeLoop_next hlt hturn]

end Runs

/-- **The decoder ends, inside its areas**, whatever the two allocations do, exactly when no size
that it comes to wraps. -/
theorem decoder_returns_iff {in_ : Bytes} (hin : in_.length + 1 < 2 ^ 64) :
    (∀ malloc_ok realloc_ok, (decode_chunked_body malloc_ok realloc_ok in_).Returns)
      ↔ NoWrap in_ := by
  constructor
  · intro hret pos next chunk_sz hstart hlt hsz
    by_contra hwrap
    have hnext := sizeLine_next hsz
    obtain ⟨s, turns, h, rfl, hturns, heq⟩ :=
      decodeLoop_reaches (fun _ => true) hin hstart
    obtain ⟨turns, rfl⟩ : ∃ n, turns = n + 1 := ⟨turns - 1, by omega⟩
    have hdecode := hret true fun _ => true
    unfold decode_chunked_body at hdecode
    rw [if_pos rfl, heq] at hdecode
    have hturn : decodeTurn in_ (fun _ => true) s = .spins
        ∨ decodeTurn in_ (fun _ => true) s = .outside := by
      rw [decodeTurn_eq h, hsz]
      dsimp only
      rw [if_neg (by omega)]
      exact copyChunk_wraps hnext.2.1 (by omega) hnext.2.2 (by omega)
    have hloop : decodeLoop in_ (fun _ => true) (turns + 1) s = .spins
        ∨ decodeLoop in_ (fun _ => true) (turns + 1) s = .outside := by
      show (if s.pos < in_.length then _ else _) = _ ∨ (if s.pos < in_.length then _ else _) = _
      rw [if_pos hlt]
      rcases hturn with hturn | hturn
      · rw [hturn]
        exact Or.inl rfl
      · rw [hturn]
        exact Or.inr rfl
    rcases hloop with hloop | hloop <;> rw [hloop] at hdecode <;>
      rcases hdecode with hdecode | ⟨out, hdecode⟩ <;> cases hdecode
  · intro hsizes malloc_ok realloc_ok
    unfold decode_chunked_body
    split
    · exact decodeLoop_returns hin hsizes _ _ (DecodeInv.start in_) .first (Nat.le_refl _)
    · exact Or.inl rfl

/-! ## §4. Decoding what has been coded. -/

/-- A body in chunked coding, as a client sends it: the size lines fit in `szbuf`, and the body
in memory. -/
structure Encoding extends ChunkedBody where
  short : ∀ c ∈ chunks, c.line.bytes.length < SZBUF
  short_last : last.bytes.length < SZBUF
  fits : toChunkedBody.bytes.length + 1 < 2 ^ 64

/-- A line that ends in CR LF. -/
theorem lineAt_crlf (pre line rest : Bytes) (hlf : Ch.lf ∉ line) :
    lineAt (pre ++ (line ++ crlf ++ rest)) pre.length
      = some (line, pre.length + line.length + 2) := by
  have hdrop : (pre ++ (line ++ crlf ++ rest)).drop pre.length
      = (line ++ [Ch.cr]) ++ Ch.lf :: rest := by
    rw [List.drop_left]
    simp [crlf]
  have hfind := memchr_append_cons (line ++ [Ch.cr]) rest (c := Ch.lf) (by
    rw [List.mem_append, not_or]
    exact ⟨hlf, by decide⟩)
  unfold lineAt
  rw [hdrop, hfind, Option.map_some]
  dsimp only
  rw [List.take_left, List.getLast?_append_of_ne_nil _ (by simp), List.getLast?_singleton,
    if_pos rfl, List.dropLast_concat, List.length_append, List.length_singleton, Nat.add_assoc]
  rfl

theorem sizeLine_bytes {n : Nat} (l : SizeLine n) (pre rest : Bytes) (hn : n ≤ ULONG_MAX)
    (hshort : l.bytes.length < SZBUF) :
    sizeLine (pre ++ (l.bytes ++ crlf ++ rest)) pre.length
      = some (pre.length + l.bytes.length + 2, n) := by
  unfold sizeLine
  rw [lineAt_crlf pre l.bytes rest l.lf_notMem]
  dsimp only
  rw [if_neg, l.chunkSize_bytes hn]
  · rfl
  · rintro (h | h)
    · exact l.bytes_ne h
    · omega

theorem skipEol_crlf (pre rest : Bytes) :
    skipEol (pre ++ (crlf ++ rest)) pre.length = pre.length + 2 := by
  have hcr : (pre ++ (crlf ++ rest))[pre.length]? = some Ch.cr := by simp [crlf]
  have hlf : (pre ++ (crlf ++ rest))[pre.length + 1]? = some Ch.lf := by simp [crlf]
  unfold skipEol
  dsimp only
  rw [if_pos hcr, if_pos hlf]

/-- **From a place between two chunks**, the decoder copies what is left of them. -/
theorem decodeLoop_coded {in_ : Bytes} {realloc_ok : Nat → Bool} (hin : in_.length + 1 < 2 ^ 64)
    (last : SizeLine 0) (hlast : last.bytes.length < SZBUF) (chunks : List Chunk) :
    ∀ (pre : Bytes) (s : DecodeState) (turns : Nat),
      (∀ c ∈ chunks, c.line.bytes.length < SZBUF) →
      in_ = pre ++ ((chunks.map Chunk.bytes).flatten ++ last.bytes ++ crlfcrlf) →
      DecodeInv in_ s → s.pos = pre.length → in_.length + 1 ≤ turns + s.pos →
      decodeLoop in_ realloc_ok turns s = .decoded (s.dst ++ (chunks.map Chunk.data).flatten) := by
  induction chunks with
  | nil =>
      intro pre s turns _ heq h hpos hturns
      have hsz : sizeLine in_ s.pos = some (pre.length + last.bytes.length + 2, 0) := by
        rw [hpos, heq]
        have hline := sizeLine_bytes last pre crlf (Nat.zero_le _) hlast
        rwa [List.append_assoc] at hline
      have hnext := sizeLine_next hsz
      obtain ⟨turns, rfl⟩ : ∃ n, turns = n + 1 := ⟨turns - 1, by omega⟩
      show (if s.pos < in_.length then _ else _) = _
      rw [if_pos (by omega), decodeTurn_eq h, hsz]
      dsimp only
      rw [if_pos rfl]
      dsimp only
      rw [finish_decoded hin h, List.map_nil, List.flatten_nil, List.append_nil]
  | cons c chunks ih =>
      intro pre s turns hshort heq h hpos hturns
      have hrest : in_ = pre ++ (c.line.bytes ++ crlf ++ (c.data ++ (crlf
          ++ ((chunks.map Chunk.bytes).flatten ++ last.bytes ++ crlfcrlf)))) := by
        rw [heq, ← c.bytes_append, List.map_cons, List.flatten_cons]
        simp only [List.append_assoc]
      have hlen : in_.length = pre.length + (c.line.bytes.length + 2 + (c.data.length + (2
          + ((chunks.map Chunk.bytes).flatten ++ last.bytes ++ crlfcrlf).length))) := by
        rw [hrest]
        simp only [List.length_append]
        rfl
      have hne : 0 < c.data.length := List.length_pos_iff.mpr c.nonempty
      have hsz : sizeLine in_ s.pos
          = some (pre.length + c.line.bytes.length + 2, c.data.length) := by
        rw [hpos, hrest]
        exact sizeLine_bytes c.line pre _ (by unfold ULONG_MAX; omega)
          (hshort c List.mem_cons_self)
      have hfits : pre.length + c.line.bytes.length + 2 + c.data.length ≤ in_.length := by omega
      have hturn : decodeTurn in_ realloc_ok s
          = .next (s.copied in_ (pre.length + c.line.bytes.length + 2) c.data.length) := by
        rw [decodeTurn_eq h, hsz]
        dsimp only
        rw [if_neg (by omega)]
        exact copyChunk_fits hin h (by omega) hfits hne
      obtain ⟨turns, rfl⟩ : ∃ n, turns = n + 1 := ⟨turns - 1, by omega⟩
      -- the data, and the line end behind it
      have hdata : (in_.drop (pre.length + c.line.bytes.length + 2)).take c.data.length
          = c.data := by
        have hsplit : in_ = (pre ++ c.line.bytes ++ crlf) ++ (c.data ++ (crlf
            ++ ((chunks.map Chunk.bytes).flatten ++ last.bytes ++ crlfcrlf))) := by
          rw [hrest]
          simp only [List.append_assoc]
        have hn : pre.length + c.line.bytes.length + 2
            = (pre ++ c.line.bytes ++ crlf).length := by
          simp only [List.length_append]
          rfl
        rw [hn, hsplit, List.drop_left, List.take_left]
      have hskip : skipEol in_ (pre.length + c.line.bytes.length + 2 + c.data.length)
          = (pre ++ c.bytes).length := by
        have hsplit : in_ = (pre ++ c.line.bytes ++ crlf ++ c.data) ++ (crlf
            ++ ((chunks.map Chunk.bytes).flatten ++ last.bytes ++ crlfcrlf)) := by
          rw [hrest]
          simp only [List.append_assoc]
        have hn : pre.length + c.line.bytes.length + 2 + c.data.length
            = (pre ++ c.line.bytes ++ crlf ++ c.data).length := by
          simp only [List.length_append]
          rfl
        rw [hn, hsplit, skipEol_crlf, ← hn, List.length_append, c.length_bytes]
        omega
      have hlt : s.pos < in_.length := by omega
      rw [decodeLoop_next hlt hturn, ih (pre ++ c.bytes) _ turns
        (fun c' hc' => hshort c' (List.mem_cons_of_mem _ hc')) ?_ (h.copied (by omega) hfits)
        hskip ?_]
      · show Decoded.decoded ((s.dst ++ (in_.drop _).take _) ++ _) = _
        rw [hdata, List.map_cons, List.flatten_cons, List.append_assoc]
      · rw [heq, List.map_cons, List.flatten_cons]
        simp only [List.append_assoc]
      · have hforward := skipEol_le in_ hfits
        show in_.length + 1 ≤ turns + skipEol in_ _
        omega

/-- **Decoding undoes the coding.** -/
theorem decode_encoded (e : Encoding) (malloc_ok : Bool) (realloc_ok : Nat → Bool) :
    decode_chunked_body malloc_ok realloc_ok e.bytes
      = if malloc_ok then .decoded e.data else .failed := by
  unfold decode_chunked_body
  split
  · exact decodeLoop_coded e.fits e.last e.short_last e.chunks [] _ _ e.short rfl
      (DecodeInv.start _) rfl (Nat.le_refl _)
  · rfl

/-! ## §5. When the body is all there. -/

/-- The search finds the end of the body when it is there, and not before. -/
def CompleteAtEnd (e : Encoding) : Prop :=
  ∀ n, n ≤ e.bytes.length → (chunked_complete (e.bytes.take n) = true ↔ n = e.bytes.length)

/-- There is a chunk, the last size is one digit, and nothing in front of the last byte looks
like the end. -/
structure Encoding.Plain (e : Encoding) : Prop where
  chunks : e.chunks ≠ []
  last : e.last.bytes = [Ch.zero]
  crlf_mark : ¬ crlfMark <:+: e.bytes.dropLast
  lf_mark : ¬ lfMark <:+: e.bytes.dropLast

theorem chunked_complete_iff (b : Bytes) :
    chunked_complete b = true ↔ crlfMark <:+: b ∨ lfMark <:+: b := by
  unfold chunked_complete
  rw [Bool.or_eq_true, firstOcc_isSome (by decide), firstOcc_isSome (by decide)]

/-- An occurrence that is not there without the last byte is at the end. -/
theorem suffix_of_last {needle b : Bytes} (h : needle <:+: b) (hlast : ¬ needle <:+: b.dropLast) :
    needle <:+ b := by
  obtain ⟨l, r, rfl⟩ := h
  by_cases hr : r = []
  · rw [hr, List.append_nil]
    exact List.suffix_append _ _
  · refine absurd ⟨l, r.dropLast, ?_⟩ hlast
    rw [List.dropLast_append_of_ne_nil hr]

theorem Encoding.bytes_ne (e : Encoding) : 0 < e.bytes.length := by
  unfold ChunkedBody.bytes
  rw [List.length_append]
  exact Nat.lt_of_lt_of_le (by decide) (Nat.le_add_left crlfcrlf.length _)

/-- A chunk ends in CR LF. -/
theorem chunkBytes_crlf {e : ChunkedBody} (h : e.chunks ≠ []) : ∃ l, e.chunkBytes = l ++ crlf := by
  obtain ⟨chunks, c, hc⟩ := (List.eq_nil_or_concat' e.chunks).resolve_left h
  refine ⟨(chunks.map Chunk.bytes).flatten ++ (c.line.bytes ++ crlf ++ c.data), ?_⟩
  unfold ChunkedBody.chunkBytes
  rw [hc, List.map_append, List.flatten_append]
  show _ ++ (c.bytes ++ []) = _
  unfold Chunk.bytes
  simp only [List.append_assoc, List.append_nil]

/-- What looks like the end, at the end, is the last chunk behind another. -/
theorem plain_of_suffix {e : Encoding} (h : crlfMark <:+ e.bytes) :
    e.chunks ≠ [] ∧ e.last.bytes = [Ch.zero] := by
  obtain ⟨l, hl⟩ := h
  have hcancel : l ++ crlf ++ [Ch.zero] = e.chunkBytes ++ e.last.bytes := by
    refine List.append_cancel_right (?_ : _ ++ crlfcrlf = _ ++ crlfcrlf)
    unfold crlfMark ChunkedBody.bytes at hl
    rw [← hl]
    simp only [List.append_assoc]
  obtain ⟨line, c, hline⟩ := (List.eq_nil_or_concat' e.last.bytes).resolve_left e.last.bytes_ne
  rw [hline, ← List.append_assoc] at hcancel
  obtain ⟨hbefore, hzero⟩ := List.append_inj' hcancel rfl
  cases hrest : line.reverse with
  | nil =>
      rw [List.reverse_eq_nil_iff] at hrest
      subst hrest
      refine ⟨?_, by rw [hline, ← hzero]; rfl⟩
      intro hnone
      have hempty : e.chunkBytes = [] := by
        unfold ChunkedBody.chunkBytes
        rw [hnone]
        rfl
      rw [hempty] at hbefore
      exact absurd (List.append_eq_nil_iff.mp hbefore).2 (by decide)
  | cons x xs =>
      -- the byte in front of the digit would be the LF of the mark
      exfalso
      have hx : line = xs.reverse ++ [x] := by
        rw [← List.reverse_reverse line, hrest, List.reverse_cons]
      have hlf : l ++ [Ch.cr] ++ [Ch.lf] = e.chunkBytes ++ xs.reverse ++ [x] := by
        rw [List.append_assoc e.chunkBytes, ← hx, ← hbefore, List.append_assoc]
        rfl
      obtain ⟨-, hxlf⟩ := List.append_inj' hlf rfl
      injection hxlf with hxlf
      apply e.last.lf_notMem
      rw [hline, hx, hxlf]
      simp

/-- **The search tells the end of the body**, exactly for the plain ones. -/
theorem complete_iff (e : Encoding) : CompleteAtEnd e ↔ e.Plain := by
  have hpos := e.bytes_ne
  constructor
  · intro h
    have hshort : ¬ (crlfMark <:+: e.bytes.dropLast ∨ lfMark <:+: e.bytes.dropLast) := by
      rw [← chunked_complete_iff, List.dropLast_eq_take, h _ (by omega)]
      omega
    have hwhole : crlfMark <:+: e.bytes ∨ lfMark <:+: e.bytes := by
      have hall := (h e.bytes.length (Nat.le_refl _)).mpr rfl
      rwa [List.take_length, chunked_complete_iff] at hall
    rw [not_or] at hshort
    rcases hwhole with hcrlf | hlf
    · obtain ⟨hchunks, hlast⟩ := plain_of_suffix (suffix_of_last hcrlf hshort.1)
      exact ⟨hchunks, hlast, hshort.1, hshort.2⟩
    · -- the body ends in CR LF CR LF
      have hend : crlfcrlf <:+ e.bytes := List.suffix_append _ _
      have hmark := List.suffix_of_suffix_length_le (suffix_of_last hlf hshort.2) hend (by decide)
      exact absurd hmark (by decide)
  · intro h n hn
    rw [chunked_complete_iff]
    constructor
    · intro hmark
      by_contra hlt
      have hpre : e.bytes.take n <:+: e.bytes.dropLast := by
        rw [List.dropLast_eq_take]
        exact (List.take_prefix_take_left (by omega)).isInfix
      rcases hmark with hmark | hmark
      · exact h.crlf_mark (hmark.trans hpre)
      · exact h.lf_mark (hmark.trans hpre)
    · rintro rfl
      rw [List.take_length]
      obtain ⟨l, hl⟩ := chunkBytes_crlf h.chunks
      refine Or.inl ⟨l, [], ?_⟩
      unfold ChunkedBody.bytes crlfMark
      rw [hl, h.last]
      simp only [List.append_assoc, List.append_nil]

/-- **Coded bodies and all other inputs.**  Decoding undoes the coding; the end of a coded body is
told exactly for the plain ones; and on any input the decoder ends inside its areas exactly when no
size wraps. -/
theorem chunked_iff (e : Encoding) (in_ : Bytes) (hin : in_.length + 1 < 2 ^ 64) :
    (∀ malloc_ok realloc_ok, decode_chunked_body malloc_ok realloc_ok e.bytes
        = if malloc_ok then .decoded e.data else .failed)
      ∧ (CompleteAtEnd e ↔ e.Plain)
      ∧ ((∀ malloc_ok realloc_ok, (decode_chunked_body malloc_ok realloc_ok in_).Returns)
        ↔ NoWrap in_) :=
  ⟨decode_encoded e, complete_iff e, decoder_returns_iff hin⟩

def zeroLine : SizeLine 0 where
  digits := [Ch.zero]
  ext := []
  digits_ne := by decide
  hex := by decide +kernel
  value := by decide
  ext_semicolon := no_ext_semicolon
  ext_lf := List.not_mem_nil

/-- One chunk, with an extension behind its size. -/
def helloChunk : Chunk where
  data := ascii "hello"
  nonempty := by decide
  line :=
    { digits := ascii "005"
      ext := ascii ";a=b"
      digits_ne := by decide
      hex := by decide +kernel
      value := by decide
      ext_semicolon := Or.inr (by decide)
      ext_lf := by decide }

def hello : Encoding where
  chunks := [helloChunk]
  last := zeroLine
  short := by decide +kernel
  short_last := by decide +kernel
  fits := by decide +kernel

theorem chunked_iff_hello :
    decode_chunked_body true (fun _ => true) hello.bytes = .decoded (ascii "hello")
      ∧ CompleteAtEnd hello
      ∧ ∀ malloc_ok realloc_ok,
        (decode_chunked_body malloc_ok realloc_ok (ascii "hello")).Returns := by
  obtain ⟨hdecode, hcomplete, hreturns⟩ := chunked_iff hello (ascii "hello") (by decide +kernel)
  refine ⟨(hdecode true fun _ => true).trans rfl, hcomplete.mpr ?_, hreturns.mpr ?_⟩
  · exact ⟨by decide, by decide, by decide +kernel, by decide +kernel⟩
  · -- there is no line at all
    have hstart : ∀ pos, LineStart (ascii "hello") pos → pos = 0 := by
      intro pos h
      induction h with
      | first => rfl
      | @next pos next chunk_sz _ _ hsz _ _ ih =>
          rw [ih] at hsz
          exact absurd hsz (by rw [show sizeLine (ascii "hello") 0 = none by decide +kernel]; simp)
    intro pos next chunk_sz h _ hsz
    rw [hstart pos h] at hsz
    exact absurd hsz (by rw [show sizeLine (ascii "hello") 0 = none by decide +kernel]; simp)

/-- A body without a chunk. -/
def noChunks : Encoding where
  chunks := []
  last := zeroLine
  short := by decide
  short_last := by decide +kernel
  fits := by decide +kernel

/-- A line that gives the largest size there is. -/
def largestSize : Bytes := ascii "ffffffffffffffff\r\n"

/-- **An empty body is never complete, and the largest size is doubled for without end.** -/
theorem chunked_fails :
    (noChunks.bytes = ascii "0\r\n\r\n" ∧ chunked_complete noChunks.bytes = false
      ∧ ¬ CompleteAtEnd noChunks)
      ∧ largestSize.length = 18
      ∧ decode_chunked_body true (fun _ => true) largestSize = .spins
      ∧ ¬ (decode_chunked_body true (fun _ => true) largestSize).Returns := by
  have hincomplete : chunked_complete noChunks.bytes = false := by decide +kernel
  have hspins : decode_chunked_body true (fun _ => true) largestSize = .spins := by decide +kernel
  refine ⟨⟨by decide +kernel, hincomplete, fun h => ?_⟩, by decide +kernel, hspins, fun h => ?_⟩
  · have hcomplete := (h noChunks.bytes.length (Nat.le_refl _)).mpr rfl
    rw [List.take_length, hincomplete] at hcomplete
    cases hcomplete
  · rw [hspins] at h
    rcases h with h | ⟨out, h⟩
    · cases h
    · cases h

end TlsMigration.VanillaHttp
