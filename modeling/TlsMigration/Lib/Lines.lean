/-
  TlsMigration.Lib.Lines
  ──────────────────────
  **TEXT IN CRLF LINES.**

  `block ls` is the text of the lines `ls`, each ended by CR LF.  What a
  protocol parser asks of such a text:

    • `firstOcc_block_end`   — the empty line that ends a header block is
                               found where the block ends, and not before;
    • `firstOcc_block_lflf`  — two line feeds never meet;
    • `scanLines_hit`        — a loop over the lines stops at the first line
                               it likes;
    • `scanLines_join_hit`   — the same where the last line has no end;
    • `scanLines_lfBlock`    — the loop over any lines, as a search in a list;
    • `infix_lfBlock_iff`    — a text stands in the block when it stands in a
                               line.
-/
import TlsMigration.Lib.Bytes

namespace TlsMigration

variable {α : Type*}

/-! ## §1. Searching past a part that cannot match. -/

theorem firstOcc_skip {c : UInt8} {needle : Bytes} (l x : Bytes) (h : c ∉ l) :
    firstOcc (c :: needle) (l ++ x) = (firstOcc (c :: needle) x).map (· + l.length) := by
  induction l with
  | nil => simp
  | cons b l ih =>
      have hb : c ≠ b := fun e => h (by simp [e])
      have hl : c ∉ l := fun e => h (by simp [e])
      have hpre : (c :: needle).isPrefixOf (b :: (l ++ x)) = false := by
        simp [List.isPrefixOf, hb]
      rw [List.cons_append, firstOcc, hpre, ih hl]
      cases firstOcc (c :: needle) x with
      | none => rfl
      | some i => simp [Nat.add_assoc]

/-- A hit stays the first hit when bytes are appended. -/
theorem firstOcc_append_of_some {needle p : Bytes} {i : Nat} (hne : needle ≠ [])
    (h : firstOcc needle p = some i) (q : Bytes) : firstOcc needle (p ++ q) = some i := by
  obtain ⟨hocc, hfirst⟩ := firstOcc_spec h
  have hlen : i + needle.length ≤ p.length := (firstOcc_le h).resolve_right hne
  apply firstOcc_eq_some hne
  · rw [List.drop_append_of_le_length (by omega)]
    exact hocc.trans (List.prefix_append _ _)
  · intro j hj hpre
    rw [List.drop_append_of_le_length (by omega)] at hpre
    exact hfirst j hj (List.prefix_of_prefix_length_le hpre (List.prefix_append _ _)
      (by rw [List.length_drop]; omega))

/-! ## §2. Blocks of lines. -/

def crlf : Bytes := [Ch.cr, Ch.lf]

/-- The end of a line, and an empty line. -/
def crlfcrlf : Bytes := [Ch.cr, Ch.lf, Ch.cr, Ch.lf]

/-- The lines `ls`, each ended by CR LF. -/
def block (ls : List Bytes) : Bytes := (ls.map (· ++ crlf)).flatten

/-- A line holds neither of the two characters that end lines. -/
def IsLine (l : Bytes) : Prop := Ch.cr ∉ l ∧ Ch.lf ∉ l

instance (l : Bytes) : Decidable (IsLine l) := inferInstanceAs (Decidable (_ ∧ _))

theorem IsLine.append {l m : Bytes} (hl : IsLine l) (hm : IsLine m) : IsLine (l ++ m) := by
  constructor
  · simp only [List.mem_append, not_or]
    exact ⟨hl.1, hm.1⟩
  · simp only [List.mem_append, not_or]
    exact ⟨hl.2, hm.2⟩

@[simp] theorem block_nil : block [] = [] := rfl

@[simp] theorem block_cons (l : Bytes) (ls : List Bytes) :
    block (l :: ls) = l ++ Ch.cr :: Ch.lf :: block ls := by
  simp [block, crlf]

theorem block_append (ls ms : List Bytes) : block (ls ++ ms) = block ls ++ block ms := by
  simp [block]

theorem length_le_block (ls : List Bytes) : 2 * ls.length ≤ (block ls).length := by
  induction ls with
  | nil => simp
  | cons l ls ih =>
      simp only [block_cons, List.length_append, List.length_cons]
      omega

theorem firstOcc_crlfcrlf_skip {l : Bytes} (h : Ch.cr ∉ l) (x : Bytes) :
    firstOcc crlfcrlf (l ++ x) = (firstOcc crlfcrlf x).map (· + l.length) :=
  firstOcc_skip l x h

/-- **The empty line.**  In a block of nonempty lines followed by an empty one, the
first CR LF CR LF is the one that ends it. -/
theorem firstOcc_block_end {ls : List Bytes} (hls : ∀ l ∈ ls, IsLine l ∧ l ≠ [])
    (hne : ls ≠ []) (rest : Bytes) :
    ∃ i, firstOcc crlfcrlf (block (ls ++ [[]]) ++ rest) = some i
      ∧ i + 4 = (block (ls ++ [[]])).length := by
  induction ls with
  | nil => exact absurd rfl hne
  | cons l ls ih =>
      obtain ⟨⟨hcr, -⟩, -⟩ := hls l (by simp)
      cases ls with
      | nil =>
          have hshape : block ([l] ++ [[]]) ++ rest
              = l ++ (Ch.cr :: Ch.lf :: Ch.cr :: Ch.lf :: rest) := by simp
          have hhit : firstOcc crlfcrlf (Ch.cr :: Ch.lf :: Ch.cr :: Ch.lf :: rest) = some 0 := rfl
          refine ⟨l.length, ?_, by simp⟩
          rw [hshape, firstOcc_crlfcrlf_skip hcr, hhit]
          simp
      | cons l' ls =>
          obtain ⟨⟨hcr', -⟩, hne'⟩ := hls l' (by simp)
          obtain ⟨i, hi, hlen⟩ := ih (fun x hx => hls x (by simp [hx])) (by simp)
          obtain ⟨b, l', rfl⟩ := List.exists_cons_of_ne_nil hne'
          have hb : Ch.cr ≠ b := fun e => hcr' (by simp [e])
          have hshape : block ((l :: (b :: l') :: ls) ++ [[]]) ++ rest
              = l ++ (Ch.cr :: Ch.lf :: (block (((b :: l') :: ls) ++ [[]]) ++ rest)) := by
            simp
          -- neither the CR nor the LF after `l` starts an occurrence
          have hmiss₁ : crlfcrlf.isPrefixOf
              (Ch.cr :: Ch.lf :: (block (((b :: l') :: ls) ++ [[]]) ++ rest)) = false := by
            simp [crlfcrlf, List.isPrefixOf, hb]
          have hmiss₂ : crlfcrlf.isPrefixOf
              (Ch.lf :: (block (((b :: l') :: ls) ++ [[]]) ++ rest)) = false := by
            simp [crlfcrlf, List.isPrefixOf, Ch.cr, Ch.lf]
          have hcons : (block ((l :: (b :: l') :: ls) ++ [[]])).length
              = l.length + 2 + (block (((b :: l') :: ls) ++ [[]])).length := by
            simp only [List.cons_append, block_cons, List.length_append, List.length_cons]
            omega
          refine ⟨i + 2 + l.length, ?_, by omega⟩
          rw [hshape, firstOcc_crlfcrlf_skip hcr, firstOcc, hmiss₁, firstOcc, hmiss₂, hi]
          simp

/-- No two line feeds meet in a block. -/
theorem firstOcc_block_lflf {ls : List Bytes} (hls : ∀ l ∈ ls, IsLine l) :
    firstOcc [Ch.lf, Ch.lf] (block ls) = none := by
  induction ls with
  | nil => rfl
  | cons l ls ih =>
      have hlf : Ch.lf ∉ l := (hls l (by simp)).2
      have hrest := ih (fun x hx => hls x (by simp [hx]))
      have hmiss : ([Ch.lf, Ch.lf] : Bytes).isPrefixOf (Ch.lf :: block ls) = false := by
        cases ls with
        | nil => rfl
        | cons l' ls =>
            have hlf' : Ch.lf ∉ l' := (hls l' (by simp)).2
            cases l' with
            | nil => rfl
            | cons b l' =>
                have hb : Ch.lf ≠ b := fun e => hlf' (by simp [e])
                simp [List.isPrefixOf, hb]
      have hcr : ([Ch.lf, Ch.lf] : Bytes).isPrefixOf (Ch.cr :: Ch.lf :: block ls) = false := rfl
      rw [block_cons, firstOcc_skip l _ hlf, firstOcc, hcr, firstOcc, hmiss, hrest]
      rfl

/-! ## §3. Loops over lines. -/

/-- `while (p < end) { nl = memchr(p, '\n', end - p); … p = nl ? nl + 1 : end; }`:
the body sees the line, the text from the line on, and the memory from there on. -/
def scanLines (body : Bytes → Bytes → Bytes → Option α) : Nat → Bytes → Bytes → Option α
  | 0, _, _ => none
  | fuel + 1, h, mem =>
      if h = [] then none
      else
        let ll := (memchr Ch.lf h).getD h.length
        match body (h.take ll) h mem with
        | some v => some v
        | none => scanLines body fuel (h.drop (ll + 1)) (mem.drop (ll + 1))

variable {body : Bytes → Bytes → Bytes → Option α}

/-- One turn of the loop in a block of lines. -/
theorem scanLines_cons {l : Bytes} {ls : List Bytes} (hl : Ch.lf ∉ l) (fuel : Nat)
    (mem : Bytes) :
    scanLines body (fuel + 1) (block (l :: ls)) mem
      = match body (l ++ [Ch.cr]) (block (l :: ls)) mem with
        | some v => some v
        | none => scanLines body fuel (block ls) (mem.drop (l.length + 2)) := by
  have hlf : Ch.lf ∉ l ++ [Ch.cr] := by
    simp only [List.mem_append, List.mem_singleton, not_or]
    exact ⟨hl, by decide⟩
  have hshape : block (l :: ls) = (l ++ [Ch.cr]) ++ Ch.lf :: block ls := by simp
  have hll : (memchr Ch.lf (block (l :: ls))).getD (block (l :: ls)).length = l.length + 1 := by
    rw [hshape, memchr_append_cons _ _ hlf]
    simp
  have hne : block (l :: ls) ≠ [] := by simp
  have htake : (block (l :: ls)).take (l.length + 1) = l ++ [Ch.cr] := by
    rw [hshape, List.take_append_of_le_length (by simp), List.take_of_length_le (by simp)]
  have hdrop : (block (l :: ls)).drop (l.length + 2) = block ls := by
    rw [hshape, List.drop_append]
    simp
  rw [scanLines, if_neg hne]
  simp only [hll, htake, hdrop]

/-- A loop that likes no line. -/
theorem scanLines_none {ls : List Bytes} (hlf : ∀ l ∈ ls, Ch.lf ∉ l)
    (hmiss : ∀ l ∈ ls, ∀ h mem, body (l ++ [Ch.cr]) h mem = none) :
    ∀ (fuel : Nat) (mem : Bytes), scanLines body fuel (block ls) mem = none := by
  induction ls with
  | nil =>
      intro fuel mem
      cases fuel with
      | zero => rfl
      | succ fuel => simp [scanLines]
  | cons l ls ih =>
      intro fuel mem
      cases fuel with
      | zero => rfl
      | succ fuel =>
          rw [scanLines_cons (hlf l (by simp)), hmiss l (by simp)]
          exact ih (fun x hx => hlf x (by simp [hx])) (fun x hx => hmiss x (by simp [hx])) _ _

/-- **A loop stops at the first line it likes.** -/
theorem scanLines_hit {l : Bytes} {post : List Bytes} {v : α} (rest : Bytes)
    (hlf : Ch.lf ∉ l)
    (hhit : body (l ++ [Ch.cr]) (block (l :: post)) (block (l :: post) ++ rest) = some v) :
    ∀ (pre : List Bytes), (∀ x ∈ pre, Ch.lf ∉ x) →
      (∀ x ∈ pre, ∀ h mem, body (x ++ [Ch.cr]) h mem = none) →
      ∀ (fuel : Nat), pre.length < fuel →
        scanLines body fuel (block (pre ++ l :: post)) (block (pre ++ l :: post) ++ rest)
          = some v := by
  intro pre
  induction pre with
  | nil =>
      intro _ _ fuel hfuel
      obtain ⟨fuel, rfl⟩ : ∃ k, fuel = k + 1 := ⟨fuel - 1, by simp at hfuel; omega⟩
      rw [List.nil_append, scanLines_cons hlf, hhit]
  | cons x pre ih =>
      intro hpre hmiss fuel hfuel
      obtain ⟨fuel, rfl⟩ : ∃ k, fuel = k + 1 := ⟨fuel - 1, by simp at hfuel; omega⟩
      have hdrop : (block (x :: (pre ++ l :: post)) ++ rest).drop (x.length + 2)
          = block (pre ++ l :: post) ++ rest := by
        rw [block_cons, List.append_assoc, List.drop_append]
        simp
      rw [List.cons_append, scanLines_cons (hpre x (by simp)), hmiss x (by simp), hdrop]
      exact ih (fun y hy => hpre y (by simp [hy])) (fun y hy => hmiss y (by simp [hy])) fuel
        (by simpa using hfuel)

/-! ## §4. Lines with nothing behind the last one. -/

/-- The lines `ls`, with CR LF between them. -/
def joinLines : List Bytes → Bytes
  | [] => []
  | [l] => l
  | l :: m :: ls => l ++ Ch.cr :: Ch.lf :: joinLines (m :: ls)

theorem joinLines_crlf {ls : List Bytes} (hne : ls ≠ []) : joinLines ls ++ crlf = block ls := by
  induction ls with
  | nil => exact absurd rfl hne
  | cons l ls ih =>
      cases ls with
      | nil => simp [joinLines, crlf]
      | cons m ls =>
          have hrest := ih (by simp)
          show (l ++ Ch.cr :: Ch.lf :: joinLines (m :: ls)) ++ crlf = _
          rw [block_cons, ← hrest]
          simp

theorem scanLines_nil (fuel : Nat) (mem : Bytes) : scanLines body fuel [] mem = none := by
  cases fuel with
  | zero => rfl
  | succ fuel => simp [scanLines]

theorem scanLines_join_cons {l m : Bytes} {ls : List Bytes} (hl : Ch.lf ∉ l) (fuel : Nat)
    (mem : Bytes) :
    scanLines body (fuel + 1) (joinLines (l :: m :: ls)) mem
      = match body (l ++ [Ch.cr]) (joinLines (l :: m :: ls)) mem with
        | some v => some v
        | none => scanLines body fuel (joinLines (m :: ls)) (mem.drop (l.length + 2)) := by
  have hlf : Ch.lf ∉ l ++ [Ch.cr] := by
    simp only [List.mem_append, List.mem_singleton, not_or]
    exact ⟨hl, by decide⟩
  have hshape : joinLines (l :: m :: ls) = (l ++ [Ch.cr]) ++ Ch.lf :: joinLines (m :: ls) := by
    show l ++ Ch.cr :: Ch.lf :: joinLines (m :: ls) = _
    simp
  have hll : (memchr Ch.lf (joinLines (l :: m :: ls))).getD (joinLines (l :: m :: ls)).length
      = l.length + 1 := by
    rw [hshape, memchr_append_cons _ _ hlf]
    simp
  have hne : joinLines (l :: m :: ls) ≠ [] := by
    rw [hshape]
    simp
  have htake : (joinLines (l :: m :: ls)).take (l.length + 1) = l ++ [Ch.cr] := by
    rw [hshape, List.take_append_of_le_length (by simp), List.take_of_length_le (by simp)]
  have hdrop : (joinLines (l :: m :: ls)).drop (l.length + 2) = joinLines (m :: ls) := by
    rw [hshape, List.drop_append]
    simp
  rw [scanLines, if_neg hne]
  simp only [hll, htake, hdrop]

theorem scanLines_join_last {l : Bytes} (hl : Ch.lf ∉ l) (hne : l ≠ []) (fuel : Nat)
    (mem : Bytes) : scanLines body (fuel + 1) (joinLines [l]) mem = body l l mem := by
  have hll : (memchr Ch.lf l).getD l.length = l.length := by
    rw [memchr_eq_none.mpr hl]
    rfl
  show scanLines body (fuel + 1) l mem = _
  rw [scanLines, if_neg hne]
  simp only [hll, List.take_length]
  rw [List.drop_of_length_le (Nat.le_succ _), scanLines_nil]
  cases body l l mem <;> rfl

/-- A loop that likes no line, ended or not. -/
theorem scanLines_join_none {ls : List Bytes} (hlf : ∀ l ∈ ls, Ch.lf ∉ l)
    (hmiss : ∀ l ∈ ls, ∀ h mem, body (l ++ [Ch.cr]) h mem = none ∧ body l h mem = none) :
    ∀ (fuel : Nat) (mem : Bytes), scanLines body fuel (joinLines ls) mem = none := by
  induction ls with
  | nil =>
      intro fuel mem
      exact scanLines_nil fuel mem
  | cons l ls ih =>
      intro fuel mem
      cases fuel with
      | zero => rfl
      | succ fuel =>
          cases ls with
          | nil =>
              by_cases hne : l = []
              · subst hne
                exact scanLines_nil _ mem
              · rw [scanLines_join_last (hlf l (by simp)) hne]
                exact (hmiss l (by simp) l mem).2
          | cons m ls =>
              rw [scanLines_join_cons (hlf l (by simp)), (hmiss l (by simp) _ _).1]
              exact ih (fun x hx => hlf x (by simp [hx])) (fun x hx => hmiss x (by simp [hx])) _ _

/-- **The first line it likes**, which may be the last one. -/
theorem scanLines_join_hit {l : Bytes} {post : List Bytes} {v : α} (rest : Bytes)
    (hlf : Ch.lf ∉ l) (hne : l ≠ [])
    (hhit : ∀ line, line = l ∨ line = l ++ [Ch.cr] →
      body line (joinLines (l :: post)) (joinLines (l :: post) ++ rest) = some v) :
    ∀ (pre : List Bytes), (∀ x ∈ pre, Ch.lf ∉ x) →
      (∀ x ∈ pre, ∀ h mem, body (x ++ [Ch.cr]) h mem = none) →
      ∀ (fuel : Nat), pre.length < fuel →
        scanLines body fuel (joinLines (pre ++ l :: post)) (joinLines (pre ++ l :: post) ++ rest)
          = some v := by
  intro pre
  induction pre with
  | nil =>
      intro _ _ fuel hfuel
      obtain ⟨fuel, rfl⟩ : ∃ k, fuel = k + 1 := ⟨fuel - 1, by simp at hfuel; omega⟩
      cases post with
      | nil =>
          rw [List.nil_append, scanLines_join_last hlf hne]
          exact hhit l (Or.inl rfl)
      | cons m post => rw [List.nil_append, scanLines_join_cons hlf, hhit _ (Or.inr rfl)]
  | cons x pre ih =>
      intro hpre hmiss fuel hfuel
      obtain ⟨fuel, rfl⟩ : ∃ k, fuel = k + 1 := ⟨fuel - 1, by simp at hfuel; omega⟩
      obtain ⟨m, ls, hls⟩ : ∃ m ls, pre ++ l :: post = m :: ls := by
        cases pre with
        | nil => exact ⟨l, post, rfl⟩
        | cons y pre => exact ⟨y, pre ++ l :: post, rfl⟩
      have hdrop : (joinLines (x :: m :: ls) ++ rest).drop (x.length + 2)
          = joinLines (m :: ls) ++ rest := by
        show ((x ++ Ch.cr :: Ch.lf :: joinLines (m :: ls)) ++ rest).drop (x.length + 2) = _
        rw [List.append_assoc, List.drop_append]
        simp
      rw [List.cons_append, hls, scanLines_join_cons (hpre x (by simp)), hmiss x (by simp), hdrop,
        ← hls]
      exact ih (fun y hy => hpre y (by simp [hy])) (fun y hy => hmiss y (by simp [hy])) fuel
        (by simpa using hfuel)

/-! ## §5. Lines that end in LF alone. -/

/-- The lines `ls`, each ended by LF. -/
def lfBlock (ls : List Bytes) : Bytes := (ls.map (· ++ [Ch.lf])).flatten

@[simp] theorem lfBlock_nil : lfBlock [] = [] := rfl

@[simp] theorem lfBlock_cons (l : Bytes) (ls : List Bytes) :
    lfBlock (l :: ls) = l ++ Ch.lf :: lfBlock ls := by
  simp [lfBlock]

theorem length_le_lfBlock (ls : List Bytes) : ls.length ≤ (lfBlock ls).length := by
  induction ls with
  | nil => exact Nat.le_refl 0
  | cons l ls ih =>
      rw [lfBlock_cons, List.length_append, List.length_cons, List.length_cons]
      omega

/-- A text that ends in LF is made of such lines. -/
theorem exists_lfBlock (b : Bytes) :
    ∃ ls, (∀ l ∈ ls, Ch.lf ∉ l) ∧ b ++ [Ch.lf] = lfBlock ls := by
  induction b with
  | nil => exact ⟨[[]], by simp, rfl⟩
  | cons c b ih =>
      obtain ⟨ls, hls, hb⟩ := ih
      by_cases hc : c = Ch.lf
      · refine ⟨[] :: ls, ?_, ?_⟩
        · intro l hl
          rcases List.mem_cons.mp hl with rfl | hl
          · exact List.not_mem_nil
          · exact hls l hl
        · rw [lfBlock_cons, ← hb, hc]
          rfl
      · -- the character belongs to the first line
        cases ls with
        | nil => simp at hb
        | cons l ls =>
            refine ⟨(c :: l) :: ls, ?_, ?_⟩
            · intro x hx
              rcases List.mem_cons.mp hx with rfl | hx
              · have hl := hls l List.mem_cons_self
                simp only [List.mem_cons, not_or]
                exact ⟨fun e => hc e.symm, hl⟩
              · exact hls x (List.mem_cons_of_mem _ hx)
            · rw [lfBlock_cons, List.cons_append, hb, lfBlock_cons]
              rfl

/-- One turn of the loop over such lines. -/
theorem scanLines_lf_cons {l : Bytes} {ls : List Bytes} (hl : Ch.lf ∉ l) (fuel : Nat)
    (mem : Bytes) :
    scanLines body (fuel + 1) (lfBlock (l :: ls)) mem
      = match body l (lfBlock (l :: ls)) mem with
        | some v => some v
        | none => scanLines body fuel (lfBlock ls) (mem.drop (l.length + 1)) := by
  have hshape : lfBlock (l :: ls) = l ++ Ch.lf :: lfBlock ls := lfBlock_cons l ls
  have hll : (memchr Ch.lf (lfBlock (l :: ls))).getD (lfBlock (l :: ls)).length = l.length := by
    rw [hshape, memchr_append_cons _ _ hl]
    rfl
  have hne : lfBlock (l :: ls) ≠ [] := by simp
  have htake : (lfBlock (l :: ls)).take l.length = l := by
    rw [hshape, List.take_left]
  have hdrop : (lfBlock (l :: ls)).drop (l.length + 1) = lfBlock ls := by
    rw [hshape, List.drop_length_add_append]
    rfl
  rw [scanLines, if_neg hne]
  simp only [hll, htake, hdrop]

/-- What a loop finds, line after line, with `rest` behind the lines. -/
def scanList (body : Bytes → Bytes → Bytes → Option α) (rest : Bytes) : List Bytes → Option α
  | [] => none
  | l :: ls => (body l (lfBlock (l :: ls)) (lfBlock (l :: ls) ++ rest)).or (scanList body rest ls)

/-- A loop that looks at nothing but the line does not see what lies behind the block. -/
theorem scanLines_of_line (f : Bytes → Option α) :
    ∀ (fuel : Nat) (h mem mem' : Bytes), scanLines (fun line _ _ => f line) fuel h mem
      = scanLines (fun line _ _ => f line) fuel h mem' := by
  intro fuel
  induction fuel with
  | zero =>
      intro h mem mem'
      rfl
  | succ fuel ih =>
      intro h mem mem'
      unfold scanLines
      dsimp only
      rw [ih _ (mem.drop _) (mem'.drop _)]

/-- **The loop, as a search in the list of lines.** -/
theorem scanLines_lfBlock (rest : Bytes) {ls : List Bytes} (hls : ∀ l ∈ ls, Ch.lf ∉ l) :
    ∀ fuel, ls.length ≤ fuel →
      scanLines body fuel (lfBlock ls) (lfBlock ls ++ rest) = scanList body rest ls := by
  induction ls with
  | nil =>
      intro fuel _
      exact scanLines_nil fuel _
  | cons l ls ih =>
      intro fuel hfuel
      obtain ⟨fuel, rfl⟩ : ∃ k, fuel = k + 1 := ⟨fuel - 1, by simp at hfuel; omega⟩
      have hdrop : (lfBlock (l :: ls) ++ rest).drop (l.length + 1) = lfBlock ls ++ rest := by
        rw [lfBlock_cons, List.append_assoc, List.drop_length_add_append]
        rfl
      rw [scanLines_lf_cons (hls l List.mem_cons_self), hdrop,
        ih (fun x hx => hls x (List.mem_cons_of_mem _ hx)) fuel
          (Nat.le_of_succ_le_succ hfuel)]
      show _ = (body l (lfBlock (l :: ls)) (lfBlock (l :: ls) ++ rest)).or (scanList body rest ls)
      cases body l (lfBlock (l :: ls)) (lfBlock (l :: ls) ++ rest) with
      | none => rfl
      | some v => rfl

/-- A loop that looks at the line alone. -/
theorem scanList_eq_findSome (f : Bytes → Option α) (rest : Bytes) (ls : List Bytes) :
    scanList (fun line _ _ => f line) rest ls = ls.findSome? f := by
  induction ls with
  | nil => rfl
  | cons l ls ih =>
      show (f l).or (scanList _ rest ls) = (l :: ls).findSome? f
      rw [ih, List.findSome?_cons]
      cases f l with
      | none => rfl
      | some v => rfl

/-- A loop that asks whether there is a line of some kind. -/
theorem scanLines_lf_any (f : Bytes → Bool) (rest : Bytes) {ls : List Bytes}
    (hls : ∀ l ∈ ls, Ch.lf ∉ l) :
    (scanLines (fun line _ _ => if f line then some () else none) (lfBlock ls).length
      (lfBlock ls) (lfBlock ls ++ rest)).isSome = ls.any f := by
  rw [scanLines_lfBlock rest hls _ (length_le_lfBlock ls), scanList_eq_findSome]
  induction ls with
  | nil => rfl
  | cons l ls ih =>
      rw [List.findSome?_cons, List.any_cons,
        ← ih fun x hx => hls x (List.mem_cons_of_mem _ hx)]
      cases f l with
      | true => rfl
      | false => rfl

/-- Text without a byte does not go past it. -/
theorem prefix_of_prefix_append_cons {c : UInt8} {needle l t : Bytes} (hc : c ∉ needle)
    (h : needle <+: l ++ c :: t) : needle <+: l := by
  by_cases hlen : needle.length ≤ l.length
  · exact List.prefix_of_prefix_length_le h (List.prefix_append l _) hlen
  · -- it would hold the byte
    have hshape : l ++ c :: t = l ++ [c] ++ t := by simp
    have hshort : l ++ [c] <+: needle := by
      rw [hshape] at h
      refine List.prefix_of_prefix_length_le (List.prefix_append _ t) h ?_
      rw [List.length_append, List.length_singleton]
      omega
    exact absurd (hshort.subset (by simp)) hc

theorem infix_append_cons_iff {c : UInt8} {needle : Bytes} (hc : c ∉ needle)
    (hne : needle ≠ []) (l t : Bytes) :
    needle <:+: l ++ c :: t ↔ needle <:+: l ∨ needle <:+: t := by
  induction l with
  | nil =>
      have hmiss : ¬ needle <+: c :: t := fun h =>
        hne (List.prefix_nil.mp (prefix_of_prefix_append_cons (l := []) hc h))
      rw [List.nil_append, List.infix_cons_iff, List.infix_nil]
      exact or_congr_left ⟨fun h => absurd h hmiss, fun h => absurd h hne⟩
  | cons b l ih =>
      have hpre : needle <+: b :: (l ++ c :: t) ↔ needle <+: b :: l :=
        ⟨fun h => prefix_of_prefix_append_cons (l := b :: l) hc h,
          fun h => h.trans (List.prefix_append (b :: l) (c :: t))⟩
      rw [List.cons_append, List.infix_cons_iff, List.infix_cons_iff, hpre, ih, or_assoc]

/-- **A text without LF stands in one of the lines.** -/
theorem infix_lfBlock_iff {needle : Bytes} (hlf : Ch.lf ∉ needle) (hne : needle ≠ [])
    (ls : List Bytes) : needle <:+: lfBlock ls ↔ ∃ l ∈ ls, needle <:+: l := by
  induction ls with
  | nil =>
      rw [lfBlock_nil, List.infix_nil]
      exact iff_of_false hne (by simp)
  | cons l ls ih =>
      rw [lfBlock_cons, infix_append_cons_iff hlf hne, ih]
      simp

/-! ## §6. Scans that stop at a byte. -/

/-- Such a scan does not see what is behind it. -/
theorem takeWhile_stop {p : UInt8 → Bool} {c : UInt8} (hc : p c = false) (x y : Bytes) :
    (x ++ c :: y).takeWhile p = x.takeWhile p := by
  induction x with
  | nil => simp [hc]
  | cons b x ih =>
      cases hb : p b with
      | true => simp [hb, ih]
      | false => simp [hb]

/-! ## §7. Pieces between separators. -/

/-- The pieces of a text between the bytes `sep`. -/
def pieces (sep : UInt8) : Bytes → List Bytes
  | [] => [[]]
  | c :: s =>
      if c = sep then [] :: pieces sep s
      else
        match pieces sep s with
        | [] => [[c]]
        | p :: ps => (c :: p) :: ps

/-- There is a first piece, and the text starts with it. -/
theorem pieces_eq_cons (sep : UInt8) (s : Bytes) :
    ∃ p ps, pieces sep s = p :: ps ∧ p <+: s := by
  induction s with
  | nil => exact ⟨[], [], rfl, List.nil_prefix⟩
  | cons c s ih =>
      obtain ⟨p, ps, hp, hpre⟩ := ih
      unfold pieces
      by_cases hc : c = sep
      · rw [if_pos hc]
        exact ⟨[], pieces sep s, rfl, List.nil_prefix⟩
      · rw [if_neg hc, hp]
        exact ⟨c :: p, ps, rfl, (List.prefix_cons_inj c).mpr hpre⟩

/-- No piece holds the separator. -/
theorem notMem_of_mem_pieces {sep : UInt8} {p : Bytes} :
    ∀ {s : Bytes}, p ∈ pieces sep s → sep ∉ p := by
  intro s
  induction s generalizing p with
  | nil =>
      intro hp
      rw [List.mem_singleton.mp hp]
      exact List.not_mem_nil
  | cons c s ih =>
      intro hp
      obtain ⟨q, qs, hq, -⟩ := pieces_eq_cons sep s
      unfold pieces at hp
      by_cases hc : c = sep
      · rw [if_pos hc] at hp
        rcases List.mem_cons.mp hp with rfl | hp
        · exact List.not_mem_nil
        · exact ih hp
      · rw [if_neg hc, hq] at hp
        rcases List.mem_cons.mp hp with rfl | hp
        · have hrest := ih (p := q) (by rw [hq]; exact List.mem_cons_self)
          rw [List.mem_cons, not_or]
          exact ⟨fun e => hc e.symm, hrest⟩
        · exact ih (by rw [hq]; exact List.mem_cons_of_mem _ hp)

/-- A piece that is not the first stands behind a separator. -/
theorem infix_of_mem_tail_pieces {sep : UInt8} {p : Bytes} :
    ∀ {s : Bytes}, p ∈ (pieces sep s).tail → sep :: p <:+: s := by
  intro s
  induction s with
  | nil =>
      intro hp
      cases hp
  | cons c s ih =>
      intro hp
      obtain ⟨q, qs, hq, hpre⟩ := pieces_eq_cons sep s
      rw [hq] at ih
      unfold pieces at hp
      by_cases hc : c = sep
      · rw [if_pos hc, hq] at hp
        rcases List.mem_cons.mp hp with rfl | hp
        · rw [hc]
          exact ((List.prefix_cons_inj sep).mpr hpre).isInfix
        · exact List.infix_cons (ih hp)
      · rw [if_neg hc, hq] at hp
        exact List.infix_cons (ih hp)

theorem infix_of_mem_pieces {sep : UInt8} {s p : Bytes} (hp : p ∈ pieces sep s) : p <:+: s := by
  obtain ⟨q, qs, hq, hpre⟩ := pieces_eq_cons sep s
  rw [hq] at hp
  rcases List.mem_cons.mp hp with rfl | hmem
  · exact hpre.isInfix
  · have htail : p ∈ (pieces sep s).tail := by
      rw [hq]
      exact hmem
    exact (List.suffix_cons sep p).isInfix.trans (infix_of_mem_tail_pieces htail)

end TlsMigration
