/-
  TlsMigration.Http.GoRoute
  ─────────────────────────
  **THE ROUTING PARSERS OF THE GO GATEWAYS**
  (`parseFunctionName` of benchhttp/server.go and of
  tlsmigratekeepalive/config.go).

  The two differ in one test on the name, so they are one definition.  The
  line they look at ends at the first CRLF, else at the first LF, else with
  the buffer; white space is trimmed at both ends; and the target ends at a
  blank or with the line.

    • `parseFunctionName_stable_iff` — when more bytes cannot change the name.
-/
import TlsMigration.Http.Parse
import TlsMigration.Lib.Trim

namespace TlsMigration.Http

/-! ## §1. The model. -/

/-- The UTF-8 forms of the characters that `unicode.IsSpace` accepts. -/
def whiteSpace : List Bytes :=
  [[0x09], [0x0A], [0x0B], [0x0C], [0x0D], [0x20], [0xC2, 0x85], [0xC2, 0xA0],
    [0xE1, 0x9A, 0x80],
    [0xE2, 0x80, 0x80], [0xE2, 0x80, 0x81], [0xE2, 0x80, 0x82], [0xE2, 0x80, 0x83],
    [0xE2, 0x80, 0x84], [0xE2, 0x80, 0x85], [0xE2, 0x80, 0x86], [0xE2, 0x80, 0x87],
    [0xE2, 0x80, 0x88], [0xE2, 0x80, 0x89], [0xE2, 0x80, 0x8A],
    [0xE2, 0x80, 0xA8], [0xE2, 0x80, 0xA9], [0xE2, 0x80, 0xAF], [0xE2, 0x81, 0x9F],
    [0xE3, 0x80, 0x80]]

/-- `bytes.TrimSpace`. -/
def TrimSpace (b : Bytes) : Bytes := trim whiteSpace b

/-- `lineEnd`: at the first CRLF, else at the first LF, else with the buffer. -/
def lineEnd (peeked : Bytes) : Nat :=
  (firstOcc crlf peeked).getD ((memchr Ch.lf peeked).getD peeked.length)

/-- `peeked[:lineEnd]`. -/
def goLine (peeked : Bytes) : Bytes := peeked.take (lineEnd peeked)

/-- `parts[1]` of `bytes.SplitN(line, " ", 3)`, if there are two parts. -/
def secondPart (line : Bytes) : Option Bytes :=
  (memchr Ch.space line).map fun sp =>
    (line.drop (sp + 1)).takeWhile (· ≠ Ch.space)

/-- `parseFunctionName`, up to the test on the name. -/
def parseFunctionName (accept : Bytes → Bool) (peeked : Bytes) : Option Bytes :=
  let line := TrimSpace (goLine peeked)
  (secondPart line).bind fun path =>
    if functionPath.isPrefixOf path then
      let name := (path.drop functionPath.length).takeWhile (!endsName ·)
      if name = [] then none else if accept name then some name else none
    else none

/-- Letters, digits, `-`, `_` and `.`. -/
def nameByte (c : UInt8) : Bool :=
  (97 ≤ c ∧ c ≤ 122) ∨ (65 ≤ c ∧ c ≤ 90) ∨ (48 ≤ c ∧ c ≤ 57) ∨ c = 45 ∨ c = 95 ∨ c = 46

namespace Benchhttp

/-- `parseFunctionName` of benchhttp/server.go: any name that is not empty. -/
def parseFunctionName (peeked : Bytes) : Option Bytes :=
  Http.parseFunctionName (fun _ => true) peeked

end Benchhttp

namespace Tlsmigratekeepalive

/-- `parseFunctionName` of tlsmigratekeepalive/config.go. -/
def parseFunctionName (peeked : Bytes) : Option Bytes :=
  Http.parseFunctionName (·.all nameByte) peeked

end Tlsmigratekeepalive

/-! ## §2. What the parser accepts. -/

theorem whiteSpace_bifix : Bifix whiteSpace where
  nonempty := by decide
  prefix_free := by decide +kernel
  suffix_free := by decide +kernel

theorem whiteSpace_length : ∀ e ∈ whiteSpace, e.length ≤ 3 := by decide

/-- A blank, a CR and a LF are white space on their own and in no other character. -/
theorem blank_alone : ∀ e ∈ whiteSpace, Ch.space ∈ e → e = [Ch.space] := by decide

theorem cr_alone : ∀ e ∈ whiteSpace, Ch.cr ∈ e → e = [Ch.cr] := by decide

theorem lf_alone : ∀ e ∈ whiteSpace, Ch.lf ∈ e → e = [Ch.lf] := by decide

/-- The text names the function: a method, a blank, the path, and the name, which ends at
a separator or with the text. -/
def TargetNames (text name : Bytes) : Prop :=
  ∃ method rest : Bytes, text = method ++ Ch.space :: (functionPath ++ (name ++ rest))
    ∧ Ch.space ∉ method ∧ name ≠ [] ∧ (∀ c ∈ name, endsName c = false)
    ∧ (∀ c ∈ rest.head?, endsName c = true)

theorem drop_past (l : Bytes) (c : UInt8) (r : Bytes) : (l ++ c :: r).drop (l.length + 1) = r := by
  rw [List.append_cons, List.drop_left' (by simp)]

theorem secondPart_append {method : Bytes} (h : Ch.space ∉ method) (rest : Bytes) :
    secondPart (method ++ Ch.space :: rest) = some (rest.takeWhile (· ≠ Ch.space)) := by
  unfold secondPart
  rw [memchr_append_cons method rest h, Option.map_some, drop_past]

/-- The first byte of a `takeWhile` is the first byte of the list. -/
theorem head?_takeWhile_of {f g : UInt8 → Bool} {l : Bytes}
    (h : ∀ c ∈ l.head?, g c = true) : ∀ c ∈ (l.takeWhile f).head?, g c = true := by
  intro c hc
  cases l with
  | nil => simp at hc
  | cons d l =>
      by_cases hd : f d = true
      · rw [List.takeWhile_cons_of_pos hd] at hc
        exact h c hc
      · rw [List.takeWhile_cons_of_neg (by simpa using hd)] at hc
        simp at hc

/-- **What `parseFunctionName` accepts.** -/
theorem parseFunctionName_iff {accept : Bytes → Bool} {p name : Bytes} :
    parseFunctionName accept p = some name
      ↔ TargetNames (TrimSpace (goLine p)) name ∧ accept name = true := by
  unfold parseFunctionName
  generalize TrimSpace (goLine p) = text
  dsimp only
  constructor
  · intro hparse
    obtain ⟨path, hsecond, h⟩ := Option.bind_eq_some_iff.mp hparse
    obtain ⟨sp, hsp, hpath⟩ := Option.map_eq_some_iff.mp hsecond
    obtain ⟨method, r, htext, hmethod, hlen⟩ := memchr_eq_some.mp hsp
    rw [htext, ← hlen, drop_past] at hpath
    split at h
    next hfp =>
      obtain ⟨t, ht⟩ := List.isPrefixOf_iff_prefix.mp hfp
      split at h
      next => cases h
      next hne =>
        split at h
        next hacc =>
          injection h with h
          rw [← ht, List.drop_left] at h hne
          refine ⟨⟨method, t.dropWhile (!endsName ·) ++ r.dropWhile (· ≠ Ch.space), ?_, hmethod,
            ?_, ?_, ?_⟩, by rw [← h]; simpa [← ht] using hacc⟩
          · -- the target is the path, the name and the rest of it
            rw [htext, ← h, ← List.append_assoc _ (t.dropWhile _),
              List.takeWhile_append_dropWhile, ← List.append_assoc, ht, ← hpath,
              List.takeWhile_append_dropWhile]
          · rw [← h]
            exact hne
          · intro c hc
            rw [← h] at hc
            simpa using List.mem_takeWhile_imp hc
          · intro c hc
            cases hd : t.dropWhile (!endsName ·) with
            | nil =>
                rw [hd, List.nil_append] at hc
                have := List.head?_dropWhile_not (· ≠ Ch.space) r
                rw [Option.mem_def.mp hc] at this
                have e : c = Ch.space := by simpa using this
                rw [e]
                rfl
            | cons d x =>
                have hnot := List.head?_dropWhile_not (!endsName ·) t
                rw [hd, List.head?_cons] at hnot
                rw [hd, List.cons_append, List.head?_cons] at hc
                rw [← Option.some.inj hc]
                simpa using hnot
        next => cases h
    next => cases h
  · rintro ⟨⟨method, rest, rfl, hmethod, hne, hname, hhead⟩, hacc⟩
    have hall : ∀ c ∈ functionPath ++ name, (decide (c ≠ Ch.space)) = true := by
      intro c hc
      have hc' : Ch.space ∉ functionPath ++ name := by
        rw [List.mem_append, not_or]
        exact ⟨space_notMem_functionPath, space_notMem_name hname⟩
      simp only [ne_eq, decide_eq_true_eq]
      rintro rfl
      exact hc' hc
    have hpath : (functionPath ++ (name ++ rest)).takeWhile (· ≠ Ch.space)
        = functionPath ++ (name ++ rest.takeWhile (· ≠ Ch.space)) := by
      rw [← List.append_assoc, List.takeWhile_append_of_pos hall, List.append_assoc]
    have hpre : functionPath.isPrefixOf
        (functionPath ++ (name ++ rest.takeWhile (· ≠ Ch.space))) = true :=
      List.isPrefixOf_iff_prefix.mpr (List.prefix_append _ _)
    rw [secondPart_append hmethod, hpath, Option.bind_some, if_pos hpre]
    rw [List.drop_left, takeWhile_name hname (head?_takeWhile_of hhead), if_neg hne, if_pos hacc]

/-- A text names at most one function, at one place. -/
theorem TargetNames.unique {m n rest n' : Bytes}
    (h : TargetNames (m ++ Ch.space :: (functionPath ++ (n ++ rest))) n') (hm : Ch.space ∉ m)
    (hn : ∀ c ∈ n, endsName c = false) (hrest : ∀ c ∈ rest.head?, endsName c = true) :
    n' = n := by
  obtain ⟨m', rest', heq, hm', -, hn', hrest'⟩ := h
  have hlen : m.length = m'.length := by
    have h₁ := memchr_append_cons m (functionPath ++ (n ++ rest)) hm
    rw [heq, memchr_append_cons m' _ hm'] at h₁
    exact (Option.some.inj h₁).symm
  obtain ⟨-, htail⟩ := List.append_inj heq hlen
  injection htail with _ htail
  have hnames := List.append_cancel_left htail
  rw [← takeWhile_name hn' hrest', ← hnames, takeWhile_name hn hrest]

/-! ## §3. The line, when bytes are added. -/

theorem crlf_get {b : Bytes} {i : Nat} (h : firstOcc crlf b = some i) :
    b[i]? = some Ch.cr ∧ b[i + 1]? = some Ch.lf := by
  obtain ⟨⟨r, hr⟩, -⟩ := firstOcc_spec h
  have hcr := congrArg (·[0]?) hr
  have hlf := congrArg (·[1]?) hr
  simp only [List.getElem?_drop, Nat.add_zero] at hcr hlf
  exact ⟨hcr.symm, hlf.symm⟩

theorem crlf_of_get {b : Bytes} {i : Nat} (hcr : b[i]? = some Ch.cr)
    (hlf : b[i + 1]? = some Ch.lf) : firstOcc crlf b ≠ none := by
  induction b generalizing i with
  | nil => simp at hcr
  | cons c b ih =>
      unfold firstOcc
      split
      next => simp
      next hno =>
        cases i with
        | zero =>
            refine absurd ?_ hno
            cases b with
            | nil => simp at hlf
            | cons d b =>
                simp only [List.getElem?_cons_zero, Option.some.injEq] at hcr
                simp only [List.getElem?_cons_succ, List.getElem?_cons_zero,
                  Option.some.injEq] at hlf
                rw [hcr, hlf]
                rfl
        | succ i =>
            have hrec := ih (by simpa using hcr) (by simpa using hlf)
            simpa using hrec

/-- Once there is a CRLF the line stays. -/
theorem goLine_append_of_crlf {p : Bytes} {i : Nat} (h : firstOcc crlf p = some i) (q : Bytes) :
    goLine (p ++ q) = goLine p := by
  have hlt := firstOcc_lt h
  unfold goLine lineEnd
  rw [firstOcc_append_of_some (by decide) h q, h]
  exact List.take_append_of_le_length (Nat.le_of_lt hlt)

/-- The line ends at the first CRLF. -/
theorem goLine_of_crlf {l : Bytes} (h : Ch.cr ∉ l) (rest : Bytes) :
    goLine (l ++ (crlf ++ rest)) = l := by
  have hend : firstOcc crlf (crlf ++ rest) = some 0 := rfl
  have hocc : firstOcc crlf (l ++ (crlf ++ rest)) = some l.length := by
    refine (firstOcc_skip l _ h).trans ?_
    rw [show firstOcc [Ch.cr, Ch.lf] (crlf ++ rest) = some 0 from hend, Option.map_some,
      Nat.zero_add]
  unfold goLine lineEnd
  rw [hocc, Option.getD_some, List.take_left]

/-- **Without a CRLF the line may grow** — behind the first LF, if there is one — or lose a
CR that turns out to be the start of its end. -/
theorem goLine_append {p : Bytes} (h : firstOcc crlf p = none) (q : Bytes) :
    (∃ y, goLine (p ++ q) = goLine p ++ y
        ∧ (Ch.lf ∈ p → y = [] ∨ ∃ y', y = Ch.lf :: y'))
      ∨ (Ch.lf ∉ p ∧ goLine p = goLine (p ++ q) ++ [Ch.cr]) := by
  unfold goLine lineEnd
  rw [h, Option.getD_none]
  by_cases hlf : Ch.lf ∈ p
  · -- the line ends at the first LF, and a CRLF ends behind it
    obtain ⟨j, hj⟩ := Option.ne_none_iff_exists'.mp (mt memchr_eq_none.mp (not_not_intro hlf))
    obtain ⟨l, r, rfl, hl, rfl⟩ := memchr_eq_some.mp hj
    rw [hj, Option.getD_some, List.take_left]
    refine Or.inl ?_
    rw [List.append_assoc, List.cons_append]
    cases hc : firstOcc crlf (l ++ Ch.lf :: (r ++ q)) with
    | none =>
        rw [Option.getD_none, memchr_append_cons l _ hl, Option.getD_some, List.take_left]
        exact ⟨[], by simp, fun _ => Or.inl rfl⟩
    | some i =>
        obtain ⟨hcr, hlf'⟩ := crlf_get hc
        have hle : l.length ≤ i := by
          by_contra hlt
          have hlt : i < l.length := Nat.lt_of_not_le hlt
          rw [List.getElem?_append_left hlt] at hcr
          rcases Nat.lt_or_ge (i + 1) l.length with hlt' | hge
          · rw [List.getElem?_append_left hlt'] at hlf'
            exact hl (List.mem_of_getElem? hlf')
          · -- the two bytes are in `p`
            refine crlf_of_get (b := l ++ Ch.lf :: r) (i := i) ?_ ?_ h
            · rw [List.getElem?_append_left hlt]
              exact hcr
            · rw [show i + 1 = l.length by omega, List.getElem?_append_right (Nat.le_refl _)]
              simp
        rw [Option.getD_some, List.take_append, List.take_of_length_le hle]
        refine ⟨(Ch.lf :: (r ++ q)).take (i - l.length), rfl, fun _ => ?_⟩
        cases i - l.length with
        | zero => exact Or.inl rfl
        | succ k => exact Or.inr ⟨(r ++ q).take k, rfl⟩
  · rw [memchr_eq_none.mpr hlf, Option.getD_none, List.take_length]
    cases hc : firstOcc crlf (p ++ q) with
    | none =>
        rw [Option.getD_none]
        refine Or.inl ⟨q.take ((memchr Ch.lf (p ++ q)).getD (p ++ q).length - p.length), ?_,
          fun h => absurd h hlf⟩
        rw [List.take_append, List.take_of_length_le]
        cases hm : memchr Ch.lf (p ++ q) with
        | none => simp
        | some k =>
            obtain ⟨l, r, heq, -, rfl⟩ := memchr_eq_some.mp hm
            by_contra hlt
            have hlt : l.length < p.length := Nat.lt_of_not_le hlt
            have hget := congrArg (·[l.length]?) heq
            rw [List.getElem?_append_left hlt, List.getElem?_append_right (Nat.le_refl _)] at hget
            exact hlf (List.mem_of_getElem? (by simpa using hget))
    | some i =>
        obtain ⟨hcr, hlf'⟩ := crlf_get hc
        rw [Option.getD_some]
        rcases Nat.lt_or_ge i p.length with hlt | hge
        · have hend : i + 1 = p.length := by
            by_contra hne
            have hlt' : i + 1 < p.length := by omega
            rw [List.getElem?_append_left hlt'] at hlf'
            exact hlf (List.mem_of_getElem? hlf')
          refine Or.inr ⟨hlf, ?_⟩
          rw [List.getElem?_append_left hlt] at hcr
          rw [List.take_append_of_le_length (Nat.le_of_lt hlt)]
          obtain ⟨hlt', hget⟩ := List.getElem?_eq_some_iff.mp hcr
          rw [← hget, List.take_append_getElem, hend, List.take_length]
        · refine Or.inl ⟨q.take (i - p.length), ?_, fun h => absurd h hlf⟩
          rw [List.take_append, List.take_of_length_le hge]

/-- The bytes behind the line start with a LF, or there are none. -/
theorem goLine_tail {p : Bytes} (h : firstOcc crlf p = none) :
    ∃ t, p = goLine p ++ t ∧ (t = [] ∨ ∃ t', t = Ch.lf :: t') := by
  unfold goLine lineEnd
  rw [h, Option.getD_none]
  cases hl : memchr Ch.lf p with
  | none => exact ⟨[], by simp, Or.inl rfl⟩
  | some j =>
      obtain ⟨l, r, rfl, -, rfl⟩ := memchr_eq_some.mp hl
      refine ⟨Ch.lf :: r, ?_, Or.inr ⟨r, rfl⟩⟩
      rw [Option.getD_some, List.take_left]

/-- The line of a text with a CRLF ends before a CR. -/
theorem goLine_before_cr {b : Bytes} (h : firstOcc crlf b ≠ none) :
    ∃ r, b = goLine b ++ Ch.cr :: r := by
  obtain ⟨i, hi⟩ := Option.ne_none_iff_exists'.mp h
  obtain ⟨hlt, hget⟩ := List.getElem?_eq_some_iff.mp (crlf_get hi).1
  refine ⟨b.drop (i + 1), ?_⟩
  unfold goLine lineEnd
  rw [hi, Option.getD_some, ← hget, List.getElem_cons_drop, List.take_append_drop]

/-! ## §4. Stability. -/

/-- The name's last character is white space. -/
def EndsInSpace (name : Bytes) : Prop := ∃ e ∈ whiteSpace, e <:+ name

/-- White space that may lack the end of its last character. -/
def Completable (x : Bytes) : Prop := ∃ q, Spelled whiteSpace (x ++ q)

/-- Inside the line the name is followed by a separator, and one that trimming cannot
reach: it is not a blank between a name that ends in white space and what may still become
white space. -/
def NameEnds (p name : Bytes) : Prop :=
  ∃ method c x, trimLeft whiteSpace (goLine p)
      = method ++ Ch.space :: (functionPath ++ (name ++ c :: x))
    ∧ Ch.space ∉ method ∧ endsName c = true
    ∧ ¬ (c = Ch.space ∧ Ch.lf ∉ p ∧ EndsInSpace name ∧ Completable x)

/-- The line names the function. -/
def Routes (p name : Bytes) : Prop := TargetNames (TrimSpace (goLine p)) name

variable {p n m x l : Bytes} {c : UInt8}

theorem endsName_cases (h : endsName c = true) :
    c = Ch.slash ∨ c = Ch.question ∨ c = Ch.space := by
  simpa [endsName] using h

theorem slash_notMem {s : Bytes} (h : Spelled whiteSpace s) : Ch.slash ∉ s := by
  intro hc
  obtain ⟨e, he, hce⟩ := h.mem hc
  revert e
  decide

theorem question_notMem {s : Bytes} (h : Spelled whiteSpace s) : Ch.question ∉ s := by
  intro hc
  obtain ⟨e, he, hce⟩ := h.mem hc
  revert e
  decide

theorem spelled_blank : Spelled whiteSpace [Ch.space] := ⟨[[Ch.space]], by decide, rfl⟩

theorem spelled_cr : Spelled whiteSpace [Ch.cr] := ⟨[[Ch.cr]], by decide, rfl⟩

theorem spelled_crlf : Spelled whiteSpace crlf := ⟨[[Ch.cr], [Ch.lf]], by decide, rfl⟩

/-- Trimming at the end does not reach the name. -/
theorem names_kept (hm : Ch.space ∉ m) (hne : n ≠ []) (hn : ∀ c ∈ n, endsName c = false)
    (hc : endsName c = true) (hbad : ¬ (c = Ch.space ∧ EndsInSpace n ∧ Spelled whiteSpace x)) :
    TargetNames (trimRight whiteSpace (m ++ Ch.space :: (functionPath ++ (n ++ c :: x)))) n := by
  obtain ⟨s, hs, heq, -⟩ := trimRight_spec whiteSpace_bifix
    (m ++ Ch.space :: (functionPath ++ (n ++ c :: x)))
  generalize trimRight whiteSpace (m ++ Ch.space :: (functionPath ++ (n ++ c :: x))) = t at heq
  have hshape : (m ++ Ch.space :: (functionPath ++ n)) ++ c :: x = t ++ s := by
    rw [← heq]
    simp
  rcases List.append_eq_append_iff.mp hshape with ⟨z, ht, hz⟩ | ⟨z, ht, hz⟩
  · -- the name is left, and `z` of what follows it
    refine ⟨m, z, by rw [ht]; simp, hm, hne, hn, fun d hd => ?_⟩
    cases z with
    | nil => simp at hd
    | cons d' z =>
        rw [List.cons_append] at hz
        injection hz with hd' _
        have e : d' = d := by simpa using hd
        rw [← e, ← hd']
        exact hc
  · by_cases hz0 : z = []
    · subst hz0
      exact ⟨m, [], by rw [List.append_nil] at ht; rw [← ht]; simp, hm, hne, hn, by simp⟩
    · -- the separator is cut off, and part of the name
      exfalso
      have hcs : c ∈ s := by
        rw [hz]
        simp
      rcases endsName_cases hc with rfl | rfl | rfl
      · exact slash_notMem hs hcs
      · exact question_notMem hs hcs
      · rw [hz] at hs
        obtain ⟨hsz, hsx⟩ := hs.split blank_alone
        obtain ⟨e, he, hez⟩ := hsz.ends_with hz0
        refine hbad ⟨rfl, ⟨e, he, ?_⟩, hsx⟩
        have hshape' : (m ++ Ch.space :: functionPath) ++ n = t ++ z := by
          rw [← ht]
          simp
        rcases List.append_eq_append_iff.mp hshape' with ⟨k, -, hk⟩ | ⟨k, hk, hkz⟩
        · exact hez.trans ⟨k, hk.symm⟩
        · cases k with
          | nil =>
              rw [List.nil_append] at hkz
              rw [← hkz]
              exact hez
          | cons d k =>
              -- otherwise the path's last slash would be white space
              exfalso
              refine slash_notMem hsz ?_
              have hlast : (d :: k).getLast? = some Ch.slash := by
                have := congrArg List.getLast? hk
                rw [List.getLast?_append_of_ne_nil _ (by simp),
                  List.getLast?_append_of_ne_nil _ (by simp)] at this
                rw [← this]
                decide
              rw [hkz]
              exact List.mem_append_left _ (List.mem_of_getLast? hlast)

/-- Trimming at the end cuts into a name that ends in white space. -/
theorem names_cut (hm : Ch.space ∉ m) (hn : EndsInSpace n) (hx : Spelled whiteSpace x) :
    ¬ TargetNames (trimRight whiteSpace
        (m ++ Ch.space :: (functionPath ++ (n ++ Ch.space :: x)))) n := by
  rintro ⟨m', rest, ht, hm', -, -, -⟩
  have hshape : m ++ Ch.space :: (functionPath ++ (n ++ Ch.space :: x))
      = (m ++ Ch.space :: (functionPath ++ n)) ++ ([Ch.space] ++ x) := by simp
  rw [hshape, trimRight_append_spelled whiteSpace_bifix (spelled_blank.append hx)] at ht
  obtain ⟨s, -, heq, hno⟩ := trimRight_spec whiteSpace_bifix (m ++ Ch.space :: (functionPath ++ n))
  rw [ht] at heq hno
  -- the text that is left would be as long as the whole
  have hlen : m'.length = m.length := by
    have h₁ := memchr_append_cons m (functionPath ++ n) hm
    rw [heq, List.append_assoc, List.cons_append, memchr_append_cons m' _ hm'] at h₁
    exact Option.some.inj h₁
  have hs : s = [] := by
    have := congrArg List.length heq
    simp only [List.length_append, List.length_cons] at this
    exact List.length_eq_zero_iff.mp (by omega)
  obtain ⟨e, he, hen⟩ := hn
  refine hno e he ?_
  rw [hs, List.append_nil] at heq
  rw [← heq]
  exact hen.trans ⟨m ++ Ch.space :: functionPath, by simp⟩

/-- The trimmed line, when bytes are added: it grows, or loses a last CR. -/
theorem trimLeft_goLine_append (h : firstOcc crlf p = none)
    (hlen : 3 ≤ (trimLeft whiteSpace (goLine p)).length) (q : Bytes) :
    (∃ y, trimLeft whiteSpace (goLine (p ++ q)) = trimLeft whiteSpace (goLine p) ++ y
        ∧ goLine (p ++ q) = goLine p ++ y ∧ (Ch.lf ∈ p → y = [] ∨ ∃ y', y = Ch.lf :: y'))
      ∨ (Ch.lf ∉ p
        ∧ trimLeft whiteSpace (goLine p) = trimLeft whiteSpace (goLine (p ++ q)) ++ [Ch.cr]
        ∧ goLine p = goLine (p ++ q) ++ [Ch.cr]) := by
  rcases goLine_append h q with ⟨y, hy, hlf⟩ | ⟨hlf, hcr⟩
  · refine Or.inl ⟨y, ?_, hy, hlf⟩
    rw [hy]
    exact trimLeft_append whiteSpace_bifix whiteSpace_length hlen y
  · refine Or.inr ⟨hlf, ?_, hcr⟩
    obtain ⟨s, hs, heq, hno⟩ := trimLeft_spec whiteSpace_bifix.nonempty (goLine p)
    rcases List.eq_nil_or_concat (trimLeft whiteSpace (goLine p)) with hnil | ⟨l, d, hl⟩
    · rw [hnil] at hlen
      exact absurd hlen (by simp)
    · rw [List.concat_eq_append] at hl
      rw [hl, ← List.append_assoc, hcr] at heq
      obtain ⟨hline, hd⟩ := List.append_inj' heq rfl
      injection hd with hd _
      have hcut : trimLeft whiteSpace (goLine (p ++ q)) = l := by
        rw [hline]
        refine trimLeft_eq whiteSpace_bifix hs fun e he hpre => hno e he ?_
        rw [hl]
        exact hpre.trans (List.prefix_append _ _)
      rw [hcut, hl, hd]

theorem Routes.three_le (h : Routes p n) : 3 ≤ (trimLeft whiteSpace (goLine p)).length := by
  obtain ⟨m, rest, ht, -⟩ := h
  obtain ⟨s, -, heq, -⟩ := trimRight_spec whiteSpace_bifix (trimLeft whiteSpace (goLine p))
  rw [show trimRight whiteSpace (trimLeft whiteSpace (goLine p)) = TrimSpace (goLine p) from rfl,
    ht] at heq
  rw [heq]
  simp only [List.length_append, List.length_cons]
  have : functionPath.length = 10 := rfl
  omega

/-- A CR that the line loses is behind the separator. -/
theorem separator_before_cr (hc : endsName c = true)
    (h : m ++ Ch.space :: (functionPath ++ (n ++ c :: x)) = l ++ [Ch.cr]) :
    ∃ x', x = x' ++ [Ch.cr] ∧ l = m ++ Ch.space :: (functionPath ++ (n ++ c :: x')) := by
  rcases List.eq_nil_or_concat x with rfl | ⟨x', d, rfl⟩
  · rw [show m ++ Ch.space :: (functionPath ++ (n ++ [c]))
      = (m ++ Ch.space :: (functionPath ++ n)) ++ [c] by simp] at h
    have hd : c = Ch.cr := by simpa using (List.append_inj' h rfl).2
    rw [hd] at hc
    exact absurd hc (by decide)
  · rw [List.concat_eq_append, show m ++ Ch.space :: (functionPath ++ (n ++ c :: (x' ++ [d])))
      = (m ++ Ch.space :: (functionPath ++ (n ++ c :: x'))) ++ [d] by simp] at h
    obtain ⟨hl, hd⟩ := List.append_inj' h rfl
    refine ⟨x', ?_, hl.symm⟩
    rw [List.concat_eq_append, hd]

/-- **A name that ends inside the line stays.** -/
theorem Routes.append (h : Routes p n) (hend : NameEnds p n) (q : Bytes) : Routes (p ++ q) n := by
  cases hcrlf : firstOcc crlf p with
  | some i =>
      unfold Routes
      rw [goLine_append_of_crlf hcrlf]
      exact h
  | none =>
      obtain ⟨m', rest, -, -, hne, hn, -⟩ := id h
      obtain ⟨m, c, x, hline, hm, hc, hbad⟩ := hend
      have hname : TargetNames (trimRight whiteSpace (trimLeft whiteSpace (goLine p))) n := h
      -- the separator is not a blank that trimming could take with the name
      have hkept : ¬ (c = Ch.space ∧ EndsInSpace n ∧ Spelled whiteSpace x) := by
        rintro ⟨rfl, hspace, hx⟩
        rw [hline] at hname
        exact names_cut hm hspace hx hname
      show TargetNames (trimRight whiteSpace (trimLeft whiteSpace (goLine (p ++ q)))) n
      rcases trimLeft_goLine_append hcrlf h.three_le q with ⟨y, hy, -, hlf⟩ | ⟨hlf, hcr, -⟩
      · have hshape : trimLeft whiteSpace (goLine (p ++ q))
            = m ++ Ch.space :: (functionPath ++ (n ++ c :: (x ++ y))) := by
          rw [hy, hline]
          simp
        rw [hshape]
        apply names_kept hm hne hn hc
        rintro ⟨hblank, hspace, hxy⟩
        by_cases hmem : Ch.lf ∈ p
        · rcases hlf hmem with rfl | ⟨y', rfl⟩
          · rw [List.append_nil] at hxy
            exact hkept ⟨hblank, hspace, hxy⟩
          · exact hkept ⟨hblank, hspace, (hxy.split lf_alone).1⟩
        · exact hbad ⟨hblank, hmem, hspace, y, hxy⟩
      · rw [hline] at hcr
        obtain ⟨x', rfl, hl⟩ := separator_before_cr hc hcr
        rw [hl]
        apply names_kept hm hne hn hc
        rintro ⟨hblank, hspace, hx'⟩
        exact hkept ⟨hblank, hspace, hx'.append spelled_cr⟩

/-- An `x` and the end of the line, behind a text without a CRLF. -/
theorem goLine_append_x (h : firstOcc crlf p = none) :
    goLine (p ++ [120, Ch.cr, Ch.lf]) = p ++ [120] := by
  have hsome : firstOcc crlf (p ++ [120, Ch.cr, Ch.lf]) ≠ none := by
    apply crlf_of_get (i := p.length + 1)
    · rw [List.getElem?_append_right (by omega), show p.length + 1 - p.length = 1 by omega]
      rfl
    · rw [List.getElem?_append_right (by omega), show p.length + 1 + 1 - p.length = 2 by omega]
      rfl
  obtain ⟨i, hi⟩ := Option.ne_none_iff_exists'.mp hsome
  obtain ⟨hcr, hlf⟩ := crlf_get hi
  -- the CRLF that was added is the only one
  have hlen : i = p.length + 1 := by
    rcases Nat.lt_trichotomy i (p.length + 1) with hlt | e | hgt
    · exfalso
      rcases Nat.lt_trichotomy (i + 1) p.length with hlt' | e | hgt
      · rw [List.getElem?_append_left (by omega)] at hcr
        rw [List.getElem?_append_left hlt'] at hlf
        exact crlf_of_get hcr hlf h
      · rw [List.getElem?_append_right (by omega), e, Nat.sub_self] at hlf
        simp [Ch.lf] at hlf
      · have e : i = p.length := by omega
        rw [e, List.getElem?_append_right (Nat.le_refl _), Nat.sub_self] at hcr
        simp [Ch.cr] at hcr
    · exact e
    · exfalso
      have := firstOcc_lt hi
      simp only [List.length_append, List.length_cons, List.length_nil] at this
      have e : i + 1 - p.length = 3 := by omega
      rw [List.getElem?_append_right (by omega), e] at hlf
      simp at hlf
  unfold goLine lineEnd
  rw [hi, Option.getD_some, hlen, List.take_append, List.take_of_length_le (by omega)]
  simp

/-- Where the name ends with the line, one more byte makes it longer. -/
theorem Routes.grows (h : Routes p n) (hcrlf : firstOcc crlf p = none) {m w : Bytes}
    (hline : trimLeft whiteSpace (goLine p) = m ++ Ch.space :: (functionPath ++ (n ++ w)))
    (hm : Ch.space ∉ m) (hw : ∀ d ∈ w.head?, endsName d = false) :
    ¬ Routes (p ++ [120, Ch.cr, Ch.lf]) n := by
  obtain ⟨-, -, -, -, -, hn, -⟩ := id h
  obtain ⟨t, hp, ht⟩ := goLine_tail hcrlf
  intro hroutes
  have hx : ∀ e ∈ whiteSpace, (120 : UInt8) ∉ e := by decide
  have hleft : trimLeft whiteSpace (p ++ [120])
      = m ++ Ch.space :: (functionPath ++ (n ++ (w ++ (t ++ [120])))) := by
    have := trimLeft_append whiteSpace_bifix whiteSpace_length h.three_le (t ++ [120])
    rw [← List.append_assoc, ← hp, hline] at this
    rw [this]
    simp
  -- nothing is trimmed behind the new byte
  have hright : TrimSpace (goLine (p ++ [120, Ch.cr, Ch.lf]))
      = m ++ Ch.space :: (functionPath ++ (n ++ (w ++ (t ++ [120])))) := by
    rw [goLine_append_x hcrlf]
    show trimRight whiteSpace (trimLeft whiteSpace (p ++ [120])) = _
    rw [hleft]
    have hcut := trimRight_eq whiteSpace_bifix .nil
      (r := m ++ Ch.space :: (functionPath ++ (n ++ (w ++ (t ++ [120]))))) (by
        intro e he hsuf
        rcases List.eq_nil_or_concat e with rfl | ⟨e', d, rfl⟩
        · exact whiteSpace_bifix.nonempty [] he rfl
        · obtain ⟨k, hk⟩ := hsuf
          rw [List.concat_eq_append] at hk
          have hd : d = 120 := by
            have hshape : m ++ Ch.space :: (functionPath ++ (n ++ (w ++ (t ++ [120]))))
                = (m ++ Ch.space :: (functionPath ++ (n ++ (w ++ t)))) ++ [120] := by simp
            rw [hshape, ← List.append_assoc] at hk
            have := (List.append_inj' hk rfl).2
            simpa using this
          refine hx _ he ?_
          rw [List.concat_eq_append, hd]
          simp)
    rwa [List.append_nil] at hcut
  -- so the name goes on
  have hhead : ∀ d ∈ (w ++ (t ++ [120])).head?, endsName d = false := by
    intro d hd
    cases w with
    | cons d' w => exact hw d hd
    | nil =>
        rcases ht with rfl | ⟨t', rfl⟩
        · have e : 120 = d := by simpa using hd
          rw [← e]
          rfl
        · have e : Ch.lf = d := by simpa using hd
          rw [← e]
          rfl
  obtain ⟨d, more, hmore⟩ := List.exists_cons_of_ne_nil
    (show w ++ (t ++ [120]) ≠ [] by simp)
  rw [hmore] at hright hhead
  have hd : endsName d = false := hhead d (by simp)
  unfold Routes at hroutes
  rw [hright] at hroutes
  have hsplit : n ++ (d :: more)
      = (n ++ (d :: more).takeWhile (!endsName ·)) ++ (d :: more).dropWhile (!endsName ·) := by
    rw [List.append_assoc, List.takeWhile_append_dropWhile]
  rw [hsplit] at hroutes
  have hlong := hroutes.unique hm ?_ ?_
  · rw [List.takeWhile_cons_of_pos (by simp [hd])] at hlong
    exact absurd (List.self_eq_append_right.mp hlong) (by simp)
  · intro c hc
    rcases List.mem_append.mp hc with hc | hc
    · exact hn c hc
    · simpa using List.mem_takeWhile_imp hc
  · intro c hc
    have hnot := List.head?_dropWhile_not (!endsName ·) (d :: more)
    rw [Option.mem_def.mp hc] at hnot
    simpa using hnot

/-- Where a blank stands between a name that ends in white space and what may still become
white space, completing that takes the end of the name away. -/
theorem Routes.shrinks (h : Routes p n) (hcrlf : firstOcc crlf p = none)
    (hline : trimLeft whiteSpace (goLine p)
      = m ++ Ch.space :: (functionPath ++ (n ++ Ch.space :: x)))
    (hm : Ch.space ∉ m) (hlf : Ch.lf ∉ p) (hspace : EndsInSpace n) {q : Bytes}
    (hq : Spelled whiteSpace (x ++ q)) : ¬ Routes (p ++ (q ++ crlf)) n := by
  intro hroutes
  have hfull : Spelled whiteSpace (x ++ (q ++ crlf)) := by
    rw [← List.append_assoc]
    exact hq.append spelled_crlf
  have hroutes : TargetNames
      (trimRight whiteSpace (trimLeft whiteSpace (goLine (p ++ (q ++ crlf))))) n := hroutes
  rcases trimLeft_goLine_append hcrlf h.three_le (q ++ crlf) with ⟨y, hy, hgo, -⟩ | ⟨-, hcr, -⟩
  · -- what stands before the line's end is white space
    have hadd : firstOcc crlf (p ++ (q ++ crlf)) ≠ none := by
      apply crlf_of_get (i := p.length + q.length)
      · rw [List.getElem?_append_right (by omega), List.getElem?_append_right (by omega)]
        simp [crlf]
      · rw [List.getElem?_append_right (by omega), List.getElem?_append_right (by omega),
          show p.length + q.length + 1 - p.length - q.length = 1 by omega]
        rfl
    obtain ⟨r, hr⟩ := goLine_before_cr hadd
    have hp : goLine p = p := by
      obtain ⟨t, hpt, rfl | ⟨t', rfl⟩⟩ := goLine_tail hcrlf
      · rw [List.append_nil] at hpt
        exact hpt.symm
      · exact absurd (by rw [hpt]; simp) hlf
    rw [hgo, hp, List.append_assoc] at hr
    rw [List.append_cancel_left hr, ← List.append_assoc] at hfull
    rw [hy, hline] at hroutes
    refine names_cut hm hspace (hfull.split cr_alone).1 ?_
    simpa using hroutes
  · rw [hline] at hcr
    obtain ⟨x', rfl, hl⟩ := separator_before_cr rfl hcr
    rw [List.append_assoc] at hfull
    rw [hl] at hroutes
    exact names_cut hm hspace (hfull.split cr_alone).1 hroutes

/-- **When more bytes cannot change the route**: the line is complete, or the name is. -/
theorem Routes.stable_iff (h : Routes p n) :
    (∀ q, Routes (p ++ q) n) ↔ firstOcc crlf p ≠ none ∨ NameEnds p n := by
  constructor
  · intro hall
    by_cases hcrlf : firstOcc crlf p = none
    · right
      obtain ⟨m, rest, ht, hm, hne, hn, hrest⟩ := id h
      have ht : trimRight whiteSpace (trimLeft whiteSpace (goLine p))
          = m ++ Ch.space :: (functionPath ++ (n ++ rest)) := ht
      obtain ⟨w, -, hline, -⟩ :=
        trimRight_spec whiteSpace_bifix (trimLeft whiteSpace (goLine p))
      rw [ht] at hline
      have hshape : trimLeft whiteSpace (goLine p)
          = m ++ Ch.space :: (functionPath ++ (n ++ (rest ++ w))) := by
        rw [hline]
        simp
      -- the name is followed by a separator, or it would grow
      by_cases hhead : ∀ d ∈ (rest ++ w).head?, endsName d = false
      · exact absurd (hall _) (h.grows hcrlf hshape hm hhead)
      · push Not at hhead
        obtain ⟨c, hc, hends⟩ := hhead
        obtain ⟨x, hx⟩ : ∃ x, rest ++ w = c :: x := List.head?_eq_some_iff.mp hc
        rw [hx] at hshape
        refine ⟨m, c, x, hshape, hm, by simpa using hends, ?_⟩
        rintro ⟨rfl, hlf, hspace, q, hq⟩
        exact h.shrinks hcrlf hshape hm hlf hspace hq (hall _)
    · exact Or.inl hcrlf
  · rintro (hcrlf | hend) q
    · obtain ⟨i, hi⟩ := Option.ne_none_iff_exists'.mp hcrlf
      unfold Routes
      rw [goLine_append_of_crlf hi]
      exact h
    · exact h.append hend q

/-- A name the parser accepts stays exactly when its route does. -/
theorem parseFunctionName_stable_iff {accept : Bytes → Bool}
    (h : parseFunctionName accept p = some n) :
    (∀ q, parseFunctionName accept (p ++ q) = some n)
      ↔ firstOcc crlf p ≠ none ∨ NameEnds p n := by
  obtain ⟨hroutes, hacc⟩ := parseFunctionName_iff.mp h
  rw [← Routes.stable_iff hroutes]
  constructor
  · exact fun hall q => (parseFunctionName_iff.mp (hall q)).1
  · exact fun hall q => parseFunctionName_iff.mpr ⟨hall q, hacc⟩

/-- **Both gateways route on what has arrived so far**: a name they accept is the name of
every extension exactly when the line is complete, or the name is. -/
theorem routing_stable_iff (p n : Bytes) :
    (Benchhttp.parseFunctionName p = some n →
      ((∀ q, Benchhttp.parseFunctionName (p ++ q) = some n)
        ↔ firstOcc crlf p ≠ none ∨ NameEnds p n))
    ∧ (Tlsmigratekeepalive.parseFunctionName p = some n →
      ((∀ q, Tlsmigratekeepalive.parseFunctionName (p ++ q) = some n)
        ↔ firstOcc crlf p ≠ none ∨ NameEnds p n)) :=
  ⟨parseFunctionName_stable_iff, parseFunctionName_stable_iff⟩

theorem routing_stable_iff_complete :
    (∀ q, Benchhttp.parseFunctionName (ascii "GET /function/a H" ++ q) = some (ascii "a"))
      ∧ ∀ q, Tlsmigratekeepalive.parseFunctionName (ascii "GET /function/a H" ++ q)
        = some (ascii "a") := by
  have hends : NameEnds (ascii "GET /function/a H") (ascii "a") := by
    refine ⟨ascii "GET", Ch.space, ascii "H", by decide +kernel, by decide, by decide, ?_⟩
    rintro ⟨-, -, hspace, -⟩
    exact absurd hspace (by unfold EndsInSpace; decide)
  obtain ⟨hb, hk⟩ := routing_stable_iff (ascii "GET /function/a H") (ascii "a")
  exact ⟨(hb (by decide +kernel)).mpr (Or.inr hends), (hk (by decide +kernel)).mpr (Or.inr hends)⟩

/-- The end of the buffer is taken for the end of the name. -/
theorem routing_partial_name :
    Benchhttp.parseFunctionName (ascii "GET /function/ab") = some (ascii "ab")
      ∧ Benchhttp.parseFunctionName (ascii "GET /function/ab" ++ ascii "c HTTP/1.1\r\n")
        = some (ascii "abc")
      ∧ Tlsmigratekeepalive.parseFunctionName (ascii "GET /function/ab") = some (ascii "ab")
      ∧ Tlsmigratekeepalive.parseFunctionName
          (ascii "GET /function/ab" ++ ascii "c HTTP/1.1\r\n") = some (ascii "abc") := by
  decide +kernel

end TlsMigration.Http
