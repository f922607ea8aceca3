/-
  TlsMigration.Vanilla.Message
  ────────────────────────────
  **REQUESTS THAT THE VANILLA FUNCTION IS SENT, AND WHAT IT MAKES OF THEM.**

  A request's body has a length that a header gives, or is in chunked coding
  with a trailer.

    • `Message.headerEnd_head`, `Message.is_chunked` — the header block;
    • `Message.not_recv_of_all`                      — a chunked body that is
                                                       all there is decided;
    • `Message.all_of_ret`                           — a part of one is not
                                                       taken for all of it.
-/
import Mathlib.Data.List.Infix
import TlsMigration.Http.Request
import TlsMigration.Vanilla.FinishChunked

namespace TlsMigration.Vanilla

open TlsMigration.Http
open TlsMigration.Bench2 (headerEnd)

/-! ## §1. Requests. -/

/-- `Transfer-Encoding:`, and anywhere behind it `chunked`, in any letter case. -/
def TransferChunked (l : Bytes) : Prop :=
  startsLower transferEncoding l = true
    ∧ ∃ t, t <:+ l.drop transferEncoding.length ∧ startsLower chunked t = true

/-- A request with a body in chunked coding; `request` is its head. -/
structure ChunkedRequest where
  request : Request
  coded : ∃ l ∈ request.lines, TransferChunked l
  body : ChunkedBody
  trailer : List Bytes
  isLine : ∀ l ∈ trailer, IsLine l ∧ l ≠ []

/-- The body as it is sent. -/
def ChunkedRequest.bodyBytes (q : ChunkedRequest) : Bytes :=
  q.body.chunkBytes ++ (q.body.last.bytes ++ crlf ++ block (q.trailer ++ [[]]))

inductive Message where
  | sized (q : Request) (plain : ∀ l ∈ q.lines, startsLower transferEncoding l = false)
  | coded (q : ChunkedRequest)

namespace Message

variable (m : Message)

def request : Message → Request
  | .sized q _ => q
  | .coded q => q.request

def head : Bytes := m.request.head

def body : Message → Bytes
  | .sized q _ => q.body
  | .coded q => q.bodyBytes

def isChunked : Message → Bool
  | .sized _ _ => false
  | .coded _ => true

def bytes : Bytes := m.head ++ m.body

variable {m}

/-! ## §2. The header block. -/

theorem headerEnd_head (rest : Bytes) : headerEnd (m.head ++ rest) = some m.head.length := by
  have hlt := m.request.four_lt_head
  unfold headerEnd head
  rw [Request.crlfcrlf_head]
  show some (m.request.head.length - 4 + 4) = _
  rw [Nat.sub_add_cancel (Nat.le_of_lt hlt)]

theorem headerEnd_cut {k : Nat} (hk : k < m.head.length) : headerEnd (m.head.take k) = none := by
  unfold headerEnd head
  rw [Request.crlfcrlf_partial hk]
  dsimp only
  rw [Request.lflf_partial k]
  rfl

/-- The CR of the line's end, and a line that does not start with one, are in nobody's way. -/
theorem headerToken_cr {name token l : Bytes} (hl : IsLine l) (hname : Ch.cr ∉ name) :
    startsLower name l = false → headerToken name token (l ++ [Ch.cr]) = false := by
  intro hmiss
  unfold headerToken
  dsimp only
  cases l with
  | nil =>
      have hnil : ([] ++ [Ch.cr] : Bytes).dropWhile (fun c => c = Ch.cr ∨ c = Ch.lf) = [] := by
        decide
      rw [hnil, hmiss]
      rfl
  | cons c l =>
      have hc : ¬ (c = Ch.cr ∨ c = Ch.lf) := by
        rintro (rfl | rfl)
        · exact hl.1 List.mem_cons_self
        · exact hl.2 List.mem_cons_self
      have hsame : (c :: l ++ [Ch.cr]).dropWhile (fun c => c = Ch.cr ∨ c = Ch.lf)
          = c :: l ++ [Ch.cr] := by
        rw [List.cons_append, List.dropWhile_cons, if_neg]
        simpa using hc
      rw [hsame, startsLower_append_cr hname, hmiss]
      rfl

/-- Skipping blanks loses no word that does not start with one. -/
theorem suffix_dropWhile {token v t : Bytes} (hne : token ≠ [])
    (hlower : ∀ c, token.head? = some (lower c) → isBlank c = false)
    (ht : t <:+ v) (hs : startsLower token t = true) : t <:+ v.dropWhile isBlank := by
  induction v with
  | nil => exact ht
  | cons c v ih =>
      rw [List.dropWhile_cons]
      split
      next hblank =>
        rcases List.suffix_cons_iff.mp ht with rfl | ht
        · -- the word itself would start with a blank
          exfalso
          obtain ⟨x, xs, rfl⟩ := List.exists_cons_of_ne_nil hne
          unfold startsLower at hs
          have hhead := of_decide_eq_true hs
          rw [List.length_cons, List.take_succ_cons, List.map_cons] at hhead
          injection hhead with hx
          have hno := hlower c (by rw [hx]; rfl)
          rw [hblank] at hno
          cases hno
        · exact ih ht
      next => exact ht

/-- **The line that announces chunked coding is found.** -/
theorem headerToken_chunked {l : Bytes} (hl : IsLine l) (h : TransferChunked l) :
    headerToken transferEncoding chunked (l ++ [Ch.cr]) = true := by
  obtain ⟨hname, t, ht, hs⟩ := h
  have hlen : transferEncoding.length ≤ l.length := by
    have hmap := congrArg List.length (of_decide_eq_true hname)
    rw [List.length_map, List.length_take] at hmap
    omega
  have hlower : ∀ c, chunked.head? = some (lower c) → isBlank c = false := by
    intro c hc
    by_contra hblank
    rw [Bool.not_eq_false] at hblank
    rcases of_decide_eq_true hblank with rfl | rfl
    · revert hc
      decide
    · revert hc
      decide
  have hword : t ++ [Ch.cr] <:+ (l ++ [Ch.cr]).drop transferEncoding.length := by
    rw [List.drop_append_of_le_length hlen]
    obtain ⟨r, hr⟩ := ht
    exact ⟨r, by rw [← hr, List.append_assoc]⟩
  have hcr : startsLower chunked (t ++ [Ch.cr]) = true := by
    rw [startsLower_append_cr (by decide)]
    exact hs
  cases l with
  | nil => exact absurd hlen (by decide)
  | cons c l =>
      have hc : ¬ (c = Ch.cr ∨ c = Ch.lf) := by
        rintro (rfl | rfl)
        · exact hl.1 List.mem_cons_self
        · exact hl.2 List.mem_cons_self
      have hsame : (c :: l ++ [Ch.cr]).dropWhile (fun c => c = Ch.cr ∨ c = Ch.lf)
          = c :: l ++ [Ch.cr] := by
        rw [List.cons_append, List.dropWhile_cons, if_neg]
        simpa using hc
      unfold headerToken
      dsimp only
      rw [hsame, startsLower_append_cr (by decide), hname, Bool.true_and, List.any_eq_true]
      exact ⟨t ++ [Ch.cr], (List.mem_tails _ _).mpr
        (suffix_dropWhile (by decide) hlower hword hcr), hcr⟩

/-- A loop over lines that likes one of them finds something. -/
theorem scanLines_isSome {α : Type*} {find : Bytes → Bytes → Bytes → Option α} {ls : List Bytes}
    (hlf : ∀ l ∈ ls, Ch.lf ∉ l) {l : Bytes} (hl : l ∈ ls)
    (hhit : ∀ h mem, (find (l ++ [Ch.cr]) h mem).isSome = true) :
    ∀ (fuel : Nat) (mem : Bytes), ls.length ≤ fuel →
      (scanLines find fuel (block ls) mem).isSome = true := by
  induction ls with
  | nil => cases hl
  | cons x ls ih =>
      intro fuel mem hfuel
      obtain ⟨fuel, rfl⟩ : ∃ k, fuel = k + 1 :=
        ⟨fuel - 1, by rw [List.length_cons] at hfuel; omega⟩
      rw [scanLines_cons (hlf x List.mem_cons_self)]
      cases hx : find (x ++ [Ch.cr]) (block (x :: ls)) mem with
      | some v => rfl
      | none =>
          rcases List.mem_cons.mp hl with rfl | hl
          · have hsome := hhit (block (l :: ls)) mem
            rw [hx] at hsome
            cases hsome
          · exact ih (fun y hy => hlf y (List.mem_cons_of_mem _ hy)) hl _ _
              (by rw [List.length_cons] at hfuel; omega)

/-- **`is_chunked`** is set for the chunked bodies. -/
theorem is_chunked (rest : Bytes) :
    header_has_token (m.head ++ rest) m.head.length transferEncoding chunked = m.isChunked := by
  have hhead : m.head = block (m.request.lines ++ [[]]) := rfl
  have hlines : ∀ l ∈ m.request.lines ++ [[]], IsLine l := Request.isLine_head
  unfold header_has_token
  rw [List.take_left]
  cases m with
  | sized q plain =>
      have hmiss : ∀ l ∈ q.lines ++ [[]],
          headerToken transferEncoding chunked (l ++ [Ch.cr]) = false := by
        intro l hl
        refine headerToken_cr (hlines l hl) (by decide) ?_
        rcases List.mem_append.mp hl with hl | hl
        · exact plain l hl
        · rw [List.mem_singleton.mp hl]
          decide
      have hnone : scanLines (fun line _ _ =>
            if headerToken transferEncoding chunked line then some () else none)
          (Message.sized q plain).head.length (block (q.lines ++ [[]]))
          ((Message.sized q plain).head ++ rest) = none :=
        scanLines_none (fun l hl => (hlines l hl).2)
          (fun l hl _ _ => by rw [hmiss l hl]; rfl) _ _
      exact congrArg Option.isSome hnone
  | coded q =>
      obtain ⟨l, hl, hcoded⟩ := q.coded
      have hmem : l ∈ q.request.lines ++ [[]] := List.mem_append_left _ hl
      have hhit := headerToken_chunked (hlines l hmem) hcoded
      refine scanLines_isSome (fun l hl => (hlines l hl).2) hmem (fun _ _ => by rw [hhit]; rfl)
        _ _ ?_
      have hlen := length_le_block (q.request.lines ++ [[]])
      show (q.request.lines ++ [[]]).length ≤ (block (q.request.lines ++ [[]])).length
      omega

end Message

/-! ## §3. The scan of a chunked body. -/

theorem find_line_end_crlf (pre line rest : Bytes) (hlf : Ch.lf ∉ line) :
    find_line_end (pre ++ (line ++ crlf ++ rest)) pre.length
      = some (pre.length + line.length, 2) := by
  have hdrop : (pre ++ (line ++ crlf ++ rest)).drop pre.length
      = (line ++ [Ch.cr]) ++ Ch.lf :: rest := by
    rw [List.drop_left]
    simp [crlf]
  have hno : Ch.lf ∉ line ++ [Ch.cr] := by
    rw [List.mem_append, not_or]
    exact ⟨hlf, by decide⟩
  have hcr : (pre ++ (line ++ crlf ++ rest))[pre.length + line.length]? = some Ch.cr := by
    rw [show pre ++ (line ++ crlf ++ rest) = (pre ++ line) ++ (Ch.cr :: Ch.lf :: rest) by
      simp [crlf], ← List.length_append]
    simp
  unfold find_line_end
  rw [hdrop, memchr_append_cons _ _ hno, Option.map_some, List.length_append, List.length_singleton,
    if_pos ⟨by omega, hcr⟩]
  rfl

theorem sizeStep_bytes {n : Nat} (l : SizeLine n) (hn : n ≤ ULONG_MAX) (cursor k : Nat) :
    sizeStep l.bytes cursor k = .ret (-1) k ∨ sizeStep l.bytes cursor k
      = if n = 0 then .goto (.trailer cursor k) else .goto (.data cursor n k) := by
  unfold sizeStep
  split
  · exact Or.inl rfl
  · right
    rw [l.chunkSize_bytes hn]
    rfl

theorem line_step {n : Nat} (l : SizeLine n) (pre rest : Bytes) (k : Nat) :
    chunkStep (pre ++ (l.bytes ++ crlf ++ rest)) (.line pre.length k)
      = sizeStep l.bytes (pre.length + l.bytes.length + 2) k := by
  unfold chunkStep
  dsimp only
  rw [find_line_end_crlf pre l.bytes rest l.lf_notMem]
  dsimp only
  rw [List.drop_left, Nat.add_sub_cancel_left, List.append_assoc, List.take_left]

theorem separator_crlf (pre rest : Bytes) (hlen : (pre ++ (crlf ++ rest)).length < 2 ^ 64) :
    separator (pre ++ (crlf ++ rest)) pre.length = some (pre.length + 2) := by
  have hcr : (pre ++ (crlf ++ rest))[pre.length]? = some Ch.cr := by simp [crlf]
  have hlf : (pre ++ (crlf ++ rest))[pre.length + 1]? = some Ch.lf := by simp [crlf]
  have hsum : (pre ++ (crlf ++ rest)).length = pre.length + (2 + rest.length) := by
    rw [List.length_append, List.length_append]
    rfl
  unfold separator
  rw [left_eq (by omega) hlen, if_pos ⟨by omega, hcr, hlf⟩]

/-- A place where the function stops: it returns, and where it returns 0 the body ends. -/
def EndsAt (full : Bytes) (stop : Pc) : Prop :=
  ∃ rc k, chunkStep full stop = .ret rc k
    ∧ (rc = 0 → ∃ cursor, stop = .trailer cursor k
      ∧ find_line_end full cursor = some (cursor, 2) ∧ cursor + 2 = full.length)

/-- **The trailer** is read to its end. -/
theorem scan_trailer {full : Bytes} (trailer : List Bytes)
    (htrailer : ∀ l ∈ trailer, IsLine l ∧ l ≠ []) (k : Nat) :
    ∀ pre : Bytes, full = pre ++ block (trailer ++ [[]]) →
      ∃ stop, Steps full (.trailer pre.length k) stop ∧ EndsAt full stop := by
  induction trailer with
  | nil =>
      intro pre hfull
      have hfind := find_line_end_crlf pre [] [] (by simp)
      have hshape : full = pre ++ ([] ++ crlf ++ []) := by
        rw [hfull]
        rfl
      rw [← hshape] at hfind
      have hret : chunkStep full (.trailer pre.length k) = .ret 0 k := by
        unfold chunkStep
        dsimp only
        rw [hfind]
        dsimp only
        rw [if_pos (by simp)]
      refine ⟨_, .refl _, 0, k, hret, fun _ => ⟨pre.length, rfl, hfind, ?_⟩⟩
      rw [hshape]
      simp [crlf]
  | cons l trailer ih =>
      intro pre hfull
      obtain ⟨hline, hne⟩ := htrailer l List.mem_cons_self
      have hshape : full = pre ++ (l ++ crlf ++ block (trailer ++ [[]])) := by
        rw [hfull, List.cons_append, block_cons]
        simp [crlf]
      have hfind := find_line_end_crlf pre l (block (trailer ++ [[]])) hline.2
      rw [← hshape] at hfind
      have hpos : 0 < l.length := List.length_pos_iff.mpr hne
      have hstep : chunkStep full (.trailer pre.length k)
          = .goto (.trailer (pre ++ l ++ crlf).length k) := by
        unfold chunkStep
        dsimp only
        rw [hfind]
        dsimp only
        rw [if_neg (by omega), List.length_append, List.length_append]
        rfl
      obtain ⟨stop, hsteps, hends⟩ := ih (fun x hx => htrailer x (List.mem_cons_of_mem _ hx))
        (pre ++ l ++ crlf) (by rw [hshape]; simp only [List.append_assoc])
      exact ⟨stop, .step hstep hsteps, hends⟩

/-- **From a place between two chunks**, the scan comes to an end. -/
theorem scan_chunks {full : Bytes} (hfull : full.length + 1 < 2 ^ 64) (last : SizeLine 0)
    (trailer : List Bytes) (htrailer : ∀ l ∈ trailer, IsLine l ∧ l ≠ []) (chunks : List Chunk) :
    ∀ (pre : Bytes) (k : Nat), full = pre ++ ((chunks.map Chunk.bytes).flatten
        ++ (last.bytes ++ crlf ++ block (trailer ++ [[]]))) →
      ∃ stop, Steps full (.line pre.length k) stop ∧ EndsAt full stop := by
  induction chunks with
  | nil =>
      intro pre k hshape
      rw [List.map_nil, List.flatten_nil, List.nil_append] at hshape
      have hstep := line_step last pre (block (trailer ++ [[]])) k
      rw [← hshape] at hstep
      rcases sizeStep_bytes last (Nat.zero_le _) (pre.length + last.bytes.length + 2) k with hsize | hsize
      · rw [hsize] at hstep
        exact ⟨_, .refl _, -1, k, hstep, fun h => absurd h (by decide)⟩
      · rw [hsize, if_pos rfl] at hstep
        have hcursor : pre.length + last.bytes.length + 2 = (pre ++ last.bytes ++ crlf).length := by
          rw [List.length_append, List.length_append]
          rfl
        rw [hcursor] at hstep
        have hbehind : full = (pre ++ last.bytes ++ crlf) ++ block (trailer ++ [[]]) := by
          rw [hshape]
          simp only [List.append_assoc]
        obtain ⟨stop, hsteps, hends⟩ := scan_trailer trailer htrailer k _ hbehind
        exact ⟨stop, .step hstep hsteps, hends⟩
  | cons c chunks ih =>
      intro pre k hshape
      have hparts : full = pre ++ (c.line.bytes ++ crlf ++ (c.data ++ (crlf
          ++ ((chunks.map Chunk.bytes).flatten
            ++ (last.bytes ++ crlf ++ block (trailer ++ [[]])))))) := by
        rw [hshape, ← c.bytes_append, List.map_cons, List.flatten_cons]
        simp only [List.append_assoc]
      have hlen : full.length = pre.length + (c.line.bytes.length + 2 + (c.data.length + (2
          + ((chunks.map Chunk.bytes).flatten
            ++ (last.bytes ++ crlf ++ block (trailer ++ [[]]))).length))) := by
        rw [hparts]
        simp only [List.length_append]
        rfl
      have hpos : 0 < c.data.length := List.length_pos_iff.mpr c.nonempty
      have hstep := line_step c.line pre (c.data ++ (crlf ++ ((chunks.map Chunk.bytes).flatten
        ++ (last.bytes ++ crlf ++ block (trailer ++ [[]]))))) k
      rw [← hparts] at hstep
      rcases sizeStep_bytes c.line (by unfold ULONG_MAX; omega)
        (pre.length + c.line.bytes.length + 2) k with hsize | hsize
      · rw [hsize] at hstep
        exact ⟨_, .refl _, -1, k, hstep, fun h => absurd h (by decide)⟩
      · rw [hsize, if_neg (by omega)] at hstep
        -- the data, and the line end behind it
        have hbehind : full = (pre ++ c.line.bytes ++ crlf ++ c.data) ++ (crlf
            ++ ((chunks.map Chunk.bytes).flatten
              ++ (last.bytes ++ crlf ++ block (trailer ++ [[]])))) := by
          rw [hparts]
          simp only [List.append_assoc]
        have hend : (pre.length + c.line.bytes.length + 2 + c.data.length) % 2 ^ 64
            = (pre ++ c.line.bytes ++ crlf ++ c.data).length := by
          rw [Nat.mod_eq_of_lt (by omega)]
          simp only [List.length_append]
          rfl
        have hsep := separator_crlf (pre ++ c.line.bytes ++ crlf ++ c.data)
          ((chunks.map Chunk.bytes).flatten
            ++ (last.bytes ++ crlf ++ block (trailer ++ [[]]))) (by rw [← hbehind]; omega)
        rw [← hbehind] at hsep
        have hnext : (pre ++ c.line.bytes ++ crlf ++ c.data).length + 2
            = (pre ++ c.bytes).length := by
          have hall : (pre ++ c.bytes).length = pre.length + c.bytes.length := List.length_append
          rw [hall, c.length_bytes]
          simp only [List.length_append]
          show pre.length + c.line.bytes.length + 2 + c.data.length + 2 = _
          omega
        have hdata : chunkStep full (.data (pre.length + c.line.bytes.length + 2) c.data.length k)
            = .goto (.line (pre ++ c.bytes).length ((k + c.data.length) % 2 ^ 64)) := by
          unfold chunkStep
          dsimp only
          rw [left_eq (by omega) (by omega),
            Nat.mod_eq_of_lt (show c.data.length + 1 < 2 ^ 64 by omega), if_neg (by omega), hend,
            hsep, hnext]
        obtain ⟨stop, hsteps, hends⟩ := ih (pre ++ c.bytes) ((k + c.data.length) % 2 ^ 64)
          (by rw [hshape, List.map_cons, List.flatten_cons]; simp only [List.append_assoc])
        exact ⟨stop, .step hstep (.step hdata hsteps), hends⟩

/-! ## §4. Parts of a body. -/

/-- Two places from which the function stops at the same place, now and when more has come. -/
def SameStop (buf : Bytes) (pc pc' : Pc) : Prop :=
  ∀ q : Bytes, (buf ++ q).length < 2 ^ 64 → ∀ stop, (∀ x, chunkStep (buf ++ q) stop ≠ .goto x) →
    (Steps (buf ++ q) pc stop ↔ Steps (buf ++ q) pc' stop)

section Stops

variable {buf q : Bytes} {pc pc' pc'' stop : Pc}

theorem SameStop.refl (buf : Bytes) (pc : Pc) : SameStop buf pc pc := fun _ _ _ _ => Iff.rfl

theorem SameStop.trans (h : SameStop buf pc pc') (h' : SameStop buf pc' pc'') :
    SameStop buf pc pc'' := fun q hq stop hstop => (h q hq stop hstop).trans (h' q hq stop hstop)

theorem SameStop.append (h : SameStop buf pc pc') (q : Bytes) : SameStop (buf ++ q) pc pc' := by
  intro q' hq'
  rw [List.append_assoc] at hq' ⊢
  exact h (q ++ q') hq'

theorem SameStop.goto (hpc : PcOk buf pc) (h : chunkStep buf pc = .goto pc') :
    SameStop buf pc pc' := by
  intro q hq stop hstop
  rcases chunkStep_goto_append hpc hq h with hstep | ⟨c, n, -, hstep, hstep'⟩
  · exact steps_goto hstep hstop
  · exact (steps_goto hstep hstop).trans (steps_goto hstep' hstop).symm

/-- The function stops at one place only. -/
theorem stop_unique (h : Steps buf pc stop) (hstop : ∀ x, chunkStep buf stop ≠ .goto x) :
    ∀ {stop' : Pc}, Steps buf pc stop' → (∀ x, chunkStep buf stop' ≠ .goto x) → stop' = stop := by
  induction h with
  | refl pc =>
      intro stop' h' hstop'
      cases h' with
      | refl => rfl
      | step hgoto _ => exact absurd hgoto (hstop _)
  | step hgoto _ ih =>
      intro stop' h' hstop'
      exact ih hstop ((steps_goto hgoto hstop').mp h') hstop'

end Stops

namespace Message

section Coded

variable {q : ChunkedRequest} {buf rest : Bytes} {pc : Pc}

/-- **The scan of a chunked body that is all there** comes to an end. -/
theorem scan (hsize : (coded q).bytes.length + 1 < 2 ^ 64) :
    ∃ stop, Steps (coded q).bytes (Pc.start (coded q).head.length) stop
      ∧ EndsAt (coded q).bytes stop :=
  scan_chunks hsize q.body.last q.trailer q.isLine q.body.chunks (coded q).head 0 rfl

/-- With all of the body there, the function does not ask for more. -/
theorem not_recv_of_all (hsize : (coded q).bytes.length + 1 < 2 ^ 64)
    (hsame : SameStop (coded q).bytes (Pc.start (coded q).head.length) pc) :
    chunkStep (coded q).bytes pc ≠ .recv := by
  intro hrecv
  obtain ⟨stop, hsteps, rc, k, hret, -⟩ := scan hsize
  have hnow := hsame []
  rw [List.append_nil] at hnow
  have hpc := (hnow (by omega) pc (recv_stops hrecv)).mpr (.refl pc)
  have heq := stop_unique hsteps (ret_stops hret) hpc (recv_stops hrecv)
  rw [heq, hret] at hrecv
  cases hrecv

/-- **A part of the body is not taken for all of it.** -/
theorem all_of_ret (hsize : (coded q).bytes.length + 1 < 2 ^ 64)
    (hbuf : buf ++ rest = (coded q).bytes) (hpc : PcOk buf pc)
    (hsame : SameStop buf (Pc.start (coded q).head.length) pc) {k : Nat}
    (hret : chunkStep buf pc = .ret 0 k) : rest = [] := by
  have hlen : (buf ++ rest).length < 2 ^ 64 := by
    rw [hbuf]
    omega
  have hret' := chunkStep_ret_append hpc hlen hret
  obtain ⟨stop, hsteps, rc, k', hstop, hends⟩ := scan hsize
  rw [← hbuf] at hsteps hstop hends
  have hat := (hsame rest hlen pc (ret_stops hret')).mpr (.refl pc)
  have heq := stop_unique hsteps (ret_stops hstop) hat (ret_stops hret')
  subst heq
  rw [hret'] at hstop
  injection hstop with hrc hk
  subst hrc hk
  obtain ⟨cursor, rfl, hfind, hend⟩ := hends rfl
  -- the last line end lies inside what is there
  have hinside : cursor + 2 ≤ buf.length := by
    unfold chunkStep at hret
    dsimp only at hret
    cases hline : find_line_end buf cursor with
    | none =>
        rw [hline] at hret
        cases hret
    | some p =>
        have hp := find_line_end_append rest hpc hline
        rw [hfind] at hp
        injection hp with hp
        rw [← hp] at hline
        exact (find_line_end_spec hline).2.2.1
  rw [List.length_append] at hend
  exact List.length_eq_zero_iff.mp (by omega)

end Coded

end Message

end TlsMigration.Vanilla
