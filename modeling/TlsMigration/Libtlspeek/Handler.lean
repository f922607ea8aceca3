/-
  TlsMigration.Libtlspeek.Handler
  ───────────────────────────────
  **WHICH REQUEST THE HANDLER ANSWERS**
  (`handle_http_request`, libtlspeek/worker/handler.c).

  The operation and the operands are looked for with `strstr`, in the whole
  of the request.  The path and the query are only the first place where they
  may be found.

    • `usedOp_iff`          — when the operation is the one in the path;
    • `numberText_laws`     — what `atof` sees of the text behind `a=`;
    • `handler_answers_iff` — when the request that was asked is answered.
-/
import TlsMigration.Libtlspeek.Worker

namespace TlsMigration.Libtlspeek

open TlsMigration.Http TlsMigration.Tlspeek

/-! ## §1. What is asked. -/

/-- What is between the target and the version number. -/
def version : Bytes := ascii " HTTP/"

/-- A request, with anything behind the start of its request line. -/
structure AskedRequest where
  method : Bytes
  target : Bytes
  rest : Bytes
  method_ok : Ch.space ∉ method ∧ Ch.nul ∉ method
  target_ok : Ch.space ∉ target ∧ Ch.nul ∉ target

inductive Op where
  | sum
  | product
  | hello
  deriving DecidableEq, Repr

namespace AskedRequest

def text (r : AskedRequest) : Bytes :=
  r.method ++ Ch.space :: (r.target ++ (version ++ r.rest))

def path (r : AskedRequest) : Bytes := r.target.takeWhile (· ≠ Ch.question)

def query (r : AskedRequest) : Bytes := (r.target.dropWhile (· ≠ Ch.question)).drop 1

/-- The operation that the path names, with one of its segments. -/
def op (r : AskedRequest) : Op :=
  let segments := (pieces Ch.slash r.path).tail
  if ascii "sum" ∈ segments then .sum
  else if ascii "product" ∈ segments then .product
  else .hello

/-- The value of the first parameter with this name. -/
def param (r : AskedRequest) (name : UInt8) : Option Bytes :=
  (pieces 38 r.query).findSome? fun p => if p.take 2 = [name, 61] then some (p.drop 2) else none

/-- The operand that is asked for. -/
def operand {F : Type*} (r : AskedRequest) (cfg : WorkerConfig F) (name : UInt8) : F :=
  match r.param name with
  | some v => (cfg.libm.strtod v).1
  | none => cfg.zero

end AskedRequest

/-! ## §2. What is used. -/

/-- The branch that `handle_http_request` takes. -/
def usedOp (request : Bytes) : Op :=
  if functionOf request = ascii "sum" then .sum
  else if functionOf request = ascii "product" then .product
  else .hello

section Body

variable {F : Type*}

/-- The body for an operation and two operands. -/
def answer (cfg : WorkerConfig F) (op : Op) (a b : F) : Bytes :=
  let worker := ascii "\x7b\"worker\":" ++ showInt cfg.worker_id
  match op with
  | .sum =>
      worker ++ ascii ",\"result\":" ++ cfg.libm.fmt2 (cfg.libm.add a b)
        ++ ascii ",\"op\":\"sum\"\x7d\n"
  | .product =>
      worker ++ ascii ",\"result\":" ++ cfg.libm.fmt2 (cfg.libm.mul a b)
        ++ ascii ",\"op\":\"product\"\x7d\n"
  | .hello => worker ++ ascii ",\"message\":\"Hello from Hot Potato Worker\"\x7d\n"

/-- The response depends on nothing else. -/
theorem bodyText_eq (cfg : WorkerConfig F) (request : Bytes) :
    bodyText cfg request
      = answer cfg (usedOp request) (doubleAfter cfg request (ascii "a="))
          (doubleAfter cfg request (ascii "b=")) := by
  unfold bodyText usedOp
  dsimp only
  split
  · rfl
  · split
    · rfl
    · rfl

end Body

theorem usedOp_eq (request : Bytes) :
    usedOp request
      = if strstr request (ascii "/sum") then .sum
        else if strstr request (ascii "/product") then .product
        else .hello := by
  unfold usedOp functionOf
  -- whatever the three searches find
  generalize strstr request (ascii "/sum") = sum
  generalize strstr request (ascii "/product") = product
  generalize strstr request (ascii "/hello") = hello
  revert sum product hello
  decide

namespace AskedRequest

variable (r : AskedRequest)

/-- The C string that the handler reads. -/
theorem cstr_text :
    cstr r.text = r.method ++ Ch.space :: (r.target ++ (version ++ cstr r.rest)) := by
  have hplain : ∀ (b q : Bytes), Ch.nul ∉ b → cstr (b ++ q) = b ++ cstr q := by
    intro b q hb
    refine List.takeWhile_append_of_pos ?_
    intro c hc
    rw [decide_eq_true_eq]
    rintro rfl
    exact hb hc
  have hsplit : r.text = (r.method ++ [Ch.space]) ++ (r.target ++ (version ++ r.rest)) := by
    unfold text
    simp
  have hfront : Ch.nul ∉ r.method ++ [Ch.space] := by
    rw [List.mem_append, List.mem_singleton, not_or]
    exact ⟨r.method_ok.2, by decide⟩
  rw [hsplit, hplain _ _ hfront, hplain _ _ r.target_ok.2, hplain version _ (by decide)]
  simp

theorem target_infix : r.target <:+: cstr r.text :=
  ⟨r.method ++ [Ch.space], version ++ cstr r.rest, by rw [cstr_text]; simp⟩

/-- A segment of the path stands in the request, behind its slash. -/
theorem segment_infix {name : Bytes} (h : name ∈ (pieces Ch.slash r.path).tail) :
    Ch.slash :: name <:+: cstr r.text :=
  (infix_of_mem_tail_pieces h).trans
    ((List.takeWhile_prefix _).isInfix.trans r.target_infix)

/-- Neither operation stands anywhere that the path does not name. -/
def OpClear : Prop :=
  match r.op with
  | .sum => True
  | .product => ¬ ascii "/sum" <:+: cstr r.text
  | .hello => ¬ ascii "/sum" <:+: cstr r.text ∧ ¬ ascii "/product" <:+: cstr r.text

/-- **When the operation is the one in the path.** -/
theorem usedOp_iff : usedOp r.text = r.op ↔ r.OpClear := by
  have hsum : strstr r.text (ascii "/sum") = true ↔ ascii "/sum" <:+: cstr r.text :=
    firstOcc_isSome (by decide)
  have hproduct : strstr r.text (ascii "/product") = true ↔ ascii "/product" <:+: cstr r.text :=
    firstOcc_isSome (by decide)
  rw [usedOp_eq]
  unfold OpClear
  rw [← hsum, ← hproduct]
  unfold op
  dsimp only
  by_cases hs : ascii "sum" ∈ (pieces Ch.slash r.path).tail
  · rw [if_pos hs, if_pos (hsum.mpr (r.segment_infix hs))]
    exact iff_of_true rfl trivial
  rw [if_neg hs]
  by_cases hp : ascii "product" ∈ (pieces Ch.slash r.path).tail
  · rw [if_pos hp, hproduct.mpr (r.segment_infix hp)]
    cases strstr r.text (ascii "/sum") with
    | true => decide
    | false => decide
  · rw [if_neg hp]
    cases strstr r.text (ascii "/sum") with
    | true => simp
    | false =>
        cases strstr r.text (ascii "/product") with
        | true => simp
        | false => simp

/-- A parameter stands in the request; its value ends at `&` or at the target's end. -/
theorem param_eq_some {name : UInt8} {v : Bytes} (h : r.param name = some v) :
    [name, 61] <:+: cstr r.text ∧ 38 ∉ v ∧ Ch.space ∉ v := by
  obtain ⟨p, hp, hv⟩ := List.exists_of_findSome?_eq_some h
  obtain ⟨htake, hdrop⟩ := Option.ite_none_right_eq_some.mp hv
  obtain rfl := Option.some.inj hdrop
  have hsplit : p = [name, 61] ++ p.drop 2 := by
    rw [← htake, List.take_append_drop]
  have htarget : p <:+: r.target :=
    (infix_of_mem_pieces hp).trans
      ((List.drop_suffix 1 _).isInfix.trans (List.dropWhile_suffix _).isInfix)
  have hvalue : p.drop 2 <:+: p := (List.drop_suffix 2 p).isInfix
  refine ⟨?_, ?_, ?_⟩
  · have hname : [name, 61] <:+: p := (htake ▸ List.take_prefix 2 p).isInfix
    exact hname.trans (htarget.trans r.target_infix)
  · intro hmem
    exact notMem_of_mem_pieces hp (hvalue.subset hmem)
  · intro hmem
    exact r.target_ok.1 (htarget.subset (hvalue.subset hmem))

end AskedRequest

/-! ## §3. What `atof` sees. -/

/-- No number goes on behind `&`, or behind the blank in front of the version; an empty text is
no number, and counts as 0. -/
structure AtofLaws {F : Type*} (cfg : WorkerConfig F) : Prop where
  empty : (cfg.libm.strtod []).1 = cfg.zero
  ampersand : ∀ v s, (cfg.libm.strtod (v ++ 38 :: s)).1 = (cfg.libm.strtod v).1
  version : ∀ v s, (cfg.libm.strtod (v ++ (version ++ s))).1 = (cfg.libm.strtod v).1

/-- The text up to the first `&`, or the first version. -/
def numberText : Bytes → Bytes
  | [] => []
  | c :: s => if c = 38 ∨ version <+: c :: s then [] else c :: numberText s

/-- Where the text is cut. -/
theorem numberText_cut (s : Bytes) :
    s = numberText s ∨ (∃ t, s = numberText s ++ 38 :: t)
      ∨ ∃ t, s = numberText s ++ (version ++ t) := by
  induction s with
  | nil => exact Or.inl rfl
  | cons c s ih =>
      unfold numberText
      by_cases hc : c = 38
      · rw [if_pos (Or.inl hc), hc]
        exact Or.inr (Or.inl ⟨s, rfl⟩)
      by_cases hv : version <+: c :: s
      · rw [if_pos (Or.inr hv)]
        obtain ⟨t, ht⟩ := hv
        exact Or.inr (Or.inr ⟨t, ht.symm⟩)
      rw [if_neg (not_or.mpr ⟨hc, hv⟩)]
      rcases ih with h | ⟨t, h⟩ | ⟨t, h⟩
      · exact Or.inl (congrArg (List.cons c) h)
      · exact Or.inr (Or.inl ⟨t, congrArg (List.cons c) h⟩)
      · exact Or.inr (Or.inr ⟨t, congrArg (List.cons c) h⟩)

/-- **`atof` sees the text up to there.** -/
theorem AtofLaws.numberText {F : Type*} {cfg : WorkerConfig F} (h : AtofLaws cfg) (s : Bytes) :
    (cfg.libm.strtod s).1 = (cfg.libm.strtod (numberText s)).1 := by
  rcases numberText_cut s with hs | ⟨t, hs⟩ | ⟨t, hs⟩
  · rw [← hs]
  · conv_lhs => rw [hs]
    exact h.ampersand _ _
  · conv_lhs => rw [hs]
    exact h.version _ _

/-- Behind a first byte, a version does not reach over a byte that it holds only in front. -/
theorem version_prefix_iff {y : UInt8} (hy : y ∉ version.tail) (c : UInt8) (v s : Bytes) :
    version <+: c :: v ++ y :: s ↔ version <+: c :: v := by
  have hshape : version = Ch.space :: version.tail := rfl
  rw [hshape, List.cons_append, List.cons_prefix_cons, List.cons_prefix_cons]
  refine and_congr_right fun _ => ⟨prefix_of_prefix_append_cons hy, ?_⟩
  exact fun h => h.trans (List.prefix_append v _)

/-- A cut stays where it is when something is put in front. -/
theorem numberText_append {y : UInt8} {s : Bytes} (hy : y ∉ version.tail)
    (hcut : y = 38 ∨ version <+: y :: s) (v : Bytes) : numberText (v ++ y :: s) = numberText v := by
  induction v with
  | nil =>
      show numberText (y :: s) = []
      unfold numberText
      rw [if_pos hcut]
  | cons c v ih =>
      show numberText (c :: (v ++ y :: s)) = numberText (c :: v)
      unfold numberText
      rw [ih]
      exact if_congr (or_congr_right (version_prefix_iff hy c v s)) rfl rfl

theorem numberText_of_notMem {v : Bytes} (hamp : 38 ∉ v) (hspace : Ch.space ∉ v) :
    numberText v = v := by
  rcases numberText_cut v with h | ⟨t, h⟩ | ⟨t, h⟩
  · exact h.symm
  · exact absurd (by rw [h]; simp) hamp
  · exact absurd (by rw [h]; simp [version, ascii, Ch.space]) hspace

/-- Texts as numbers: no law holds of them but those of `atof`. -/
def textLib : WorkerConfig Bytes where
  libm :=
    { strtod := fun s => (numberText s, 0)
      mul := fun a b => a ++ b
      add := fun a b => a ++ b
      fmt2 := id
      ten := []
      twenty := [] }
  zero := []
  worker_id := 0

theorem numberText_laws : AtofLaws textLib where
  empty := rfl
  ampersand v s := numberText_append (by decide) (Or.inl rfl) v
  version v s := numberText_append (y := Ch.space) (by decide) (Or.inr (List.prefix_append _ s)) v

/-! ## §4. When the answer is the one that was asked for. -/

/-- The operation and the operands that are used are those of the request line, whatever `atof`
makes of a text. -/
structure AsAsked (r : AskedRequest) : Prop where
  op : usedOp r.text = r.op
  operands : ∀ {F : Type} (cfg : WorkerConfig F), AtofLaws cfg →
    doubleAfter cfg r.text (ascii "a=") = r.operand cfg 97
      ∧ doubleAfter cfg r.text (ascii "b=") = r.operand cfg 98

/-- The first place where a name stands with `=` is the parameter, or else has no number. -/
def OperandClear (r : AskedRequest) (name : UInt8) : Prop :=
  ∀ i, firstOcc [name, 61] (cstr r.text) = some i →
    numberText ((cstr r.text).drop (i + 2)) = (r.param name).getD []

/-- An operand that is found in its place, for every `atof`. -/
theorem operand_of_clear {F : Type*} {cfg : WorkerConfig F} (hlaws : AtofLaws cfg)
    {r : AskedRequest} {name : UInt8} (h : OperandClear r name) :
    doubleAfter cfg r.text [name, 61] = r.operand cfg name := by
  have hasked : r.operand cfg name = (cfg.libm.strtod ((r.param name).getD [])).1 := by
    unfold AskedRequest.operand
    cases r.param name with
    | none => exact hlaws.empty.symm
    | some v => rfl
  unfold doubleAfter
  cases hfound : find_subseq (cstr r.text) [name, 61] with
  | some i =>
      rw [hasked, ← h i hfound]
      exact hlaws.numberText _
  | none =>
      -- the parameter itself would have been found
      have hnone : r.param name = none := by
        cases hp : r.param name with
        | none => rfl
        | some v =>
            have hocc := (firstOcc_isSome (by simp)).mpr (r.param_eq_some hp).1
            rw [show firstOcc [name, 61] (cstr r.text) = none from hfound] at hocc
            cases hocc
      rw [hasked, hnone]
      exact hlaws.empty.symm

/-- Read as texts, the operands are the same only if they are the same text. -/
theorem clear_of_operand {r : AskedRequest} {name : UInt8}
    (h : doubleAfter textLib r.text [name, 61] = r.operand textLib name) :
    OperandClear r name := by
  intro i hi
  unfold doubleAfter at h
  rw [show find_subseq (cstr r.text) [name, 61] = some i from hi] at h
  have hused : numberText ((cstr r.text).drop (i + 2)) = r.operand textLib name := h
  rw [hused]
  unfold AskedRequest.operand
  cases hp : r.param name with
  | none => rfl
  | some v =>
      obtain ⟨-, hamp, hspace⟩ := r.param_eq_some hp
      exact numberText_of_notMem hamp hspace

/-- **When the request that was asked is answered**, for any method, any target and anything
behind them: if and only if

  • `/sum` stands nowhere unless the path names it, and `/product` nowhere unless the path
    names one of the two, and
  • behind the first `a=`, and the first `b=`, of the whole request, up to `&` or the version,
    is the value of that parameter, or nothing if there is none. -/
theorem handler_answers_iff (r : AskedRequest) :
    AsAsked r ↔ r.OpClear ∧ OperandClear r 97 ∧ OperandClear r 98 := by
  constructor
  · intro h
    have htext := h.operands textLib numberText_laws
    exact ⟨r.usedOp_iff.mp h.op, clear_of_operand htext.1, clear_of_operand htext.2⟩
  · intro h
    obtain ⟨hop, ha, hb⟩ := h
    refine ⟨r.usedOp_iff.mpr hop, ?_⟩
    intro F cfg hlaws
    exact ⟨operand_of_clear hlaws ha, operand_of_clear hlaws hb⟩

/-- A header with `/sum` in a request for `/hello`. -/
def helloWithReferer : AskedRequest where
  method := ascii "GET"
  target := ascii "/hello"
  rest := ascii "1.1\r\nReferer: https://a/sum\r\n\r\n"
  method_ok := by decide
  target_ok := by decide

/-- A parameter whose name ends in `a`, before `a` itself. -/
def sumOfData : AskedRequest where
  method := ascii "GET"
  target := ascii "/sum?data=5&a=3"
  rest := ascii "1.1\r\n\r\n"
  method_ok := by decide
  target_ok := by decide

/-- **A header changes the operation**, and another parameter an operand. -/
theorem referer_is_summed :
    (helloWithReferer.op = .hello
      ∧ (∀ {F : Type} (cfg : WorkerConfig F),
        bodyText cfg helloWithReferer.text = answer cfg .sum cfg.zero cfg.zero)
      ∧ ¬ AsAsked helloWithReferer)
      ∧ sumOfData.param 97 = some (ascii "3")
      ∧ doubleAfter textLib sumOfData.text (ascii "a=") = ascii "5"
      ∧ ¬ AsAsked sumOfData := by
  have hop : helloWithReferer.op = .hello := by decide +kernel
  have hused : usedOp helloWithReferer.text = .sum := by decide +kernel
  have hnone : ∀ name ∈ [ascii "a=", ascii "b="],
      find_subseq (cstr helloWithReferer.text) name = none := by decide +kernel
  refine ⟨⟨hop, fun cfg => ?_, fun h => ?_⟩, by decide +kernel, by decide +kernel, fun h => ?_⟩
  · -- no parameter is found, and both operands are 0
    rw [bodyText_eq, hused]
    unfold doubleAfter
    rw [hnone _ (by decide), hnone _ (by decide)]
  · have hasked := h.op
    rw [hop, hused] at hasked
    cases hasked
  · exact absurd (h.operands textLib numberText_laws).1 (by decide +kernel)

/-- **The body of the answer** is then the one for the request line. -/
theorem bodyText_as_asked {r : AskedRequest} (h : AsAsked r) {F : Type} {cfg : WorkerConfig F}
    (hlaws : AtofLaws cfg) :
    bodyText cfg r.text = answer cfg r.op (r.operand cfg 97) (r.operand cfg 98) := by
  obtain ⟨ha, hb⟩ := h.operands cfg hlaws
  rw [bodyText_eq, h.op, ha, hb]

end TlsMigration.Libtlspeek
