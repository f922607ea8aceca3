/-
  TlsMigration.Http.Response
  ──────────────────────────
  **RESPONSES, AND BYTE STRINGS THAT ARE ONE.**

  A response is a status line, header lines and a body, whose length one of
  the header lines gives.  `Framed b close` says that the bytes `b` are such a
  response, nothing missing and nothing left over, and that its one
  `Connection` header says whether the connection closes.

    • `digitsVal_toString` — the digits of a number give the number;
    • `block_cut`          — a header block is cut into lines in one way, so a
                             byte string is at most one response;
    • `framed_iff`         — when text put together from lines is a response.
-/
import TlsMigration.Http.Parse

namespace TlsMigration.Http

/-! ## §1. Numbers in decimal digits. -/

theorem digit_bounds {c : Char} (h : c.isDigit = true) : 48 ≤ c.toNat ∧ c.toNat ≤ 57 := by
  simp only [Char.isDigit, Bool.and_eq_true, decide_eq_true_eq, ge_iff_le, UInt32.le_iff_toNat_le]
    at h
  exact h

theorem toNat_digit {c : Char} (h : c.isDigit = true) : c.toNat.toUInt8.toNat = c.toNat := by
  obtain ⟨-, hle⟩ := digit_bounds h
  rw [Nat.toUInt8_eq, UInt8.toNat_ofNat']
  omega

theorem ascii_toString (n : Nat) :
    ascii (toString n) = (Nat.toDigits 10 n).map fun c => c.toNat.toUInt8 := by
  unfold ascii
  rw [Nat.toString_eq_repr, Nat.toList_repr]

/-- The digits of a number. -/
theorem isDigit_of_mem_toString {n : Nat} {d : UInt8} (h : d ∈ ascii (toString n)) :
    isDigit d = true := by
  rw [ascii_toString] at h
  obtain ⟨c, hc, rfl⟩ := List.mem_map.mp h
  have hdigit := Nat.isDigit_of_mem_toDigits (by decide) (by decide) hc
  obtain ⟨hlo, hhi⟩ := digit_bounds hdigit
  have hnat := toNat_digit hdigit
  unfold isDigit
  rw [decide_eq_true_eq, UInt8.le_iff_toNat_le, UInt8.le_iff_toNat_le, hnat]
  exact ⟨hlo, hhi⟩

theorem toString_ne_nil (n : Nat) : ascii (toString n) ≠ [] := by
  rw [ascii_toString]
  intro h
  exact Nat.toDigits_ne_nil (List.map_eq_nil_iff.mp h)

theorem digitsVal_map {cs : List Char} (h : ∀ c ∈ cs, c.isDigit = true) :
    ∀ acc : Nat, digitsVal acc (cs.map fun c => c.toNat.toUInt8) = Nat.ofDigitChars 10 cs acc := by
  induction cs with
  | nil =>
      intro acc
      rw [Nat.ofDigitChars_nil]
      rfl
  | cons c cs ih =>
      intro acc
      have hc := toNat_digit (h c (by simp))
      have hrest := ih (fun x hx => h x (by simp [hx])) (acc * 10 + (c.toNat - 48))
      have hzero : '0'.toNat = 48 := rfl
      rw [Nat.ofDigitChars_cons, hzero, Nat.mul_comm 10 acc, ← hrest]
      unfold digitsVal
      rw [List.map_cons, List.foldl_cons]
      unfold digitVal
      rw [hc]

/-- **The digits of a number give the number.** -/
theorem digitsVal_toString (n : Nat) : digitsVal 0 (ascii (toString n)) = n := by
  have hdigits : ∀ c ∈ Nat.toDigits 10 n, c.isDigit = true :=
    fun c hc => Nat.isDigit_of_mem_toDigits (by decide) (by decide) hc
  rw [ascii_toString, digitsVal_map hdigits, Nat.ofDigitChars_ten_toDigits]

/-- A digit ends no line. -/
theorem isLine_toString (n : Nat) : IsLine (ascii (toString n)) := by
  constructor
  · intro h
    have := isDigit_of_mem_toString h
    exact absurd this (by decide)
  · intro h
    have := isDigit_of_mem_toString h
    exact absurd this (by decide)

/-! ## §2. Header lines. -/

def colon : UInt8 := 58

/-- A name, a colon and a value. -/
def IsHeader (l : Bytes) : Prop :=
  IsLine l ∧ ∃ name value, l = name ++ colon :: value ∧ colon ∉ name ∧ name ≠ []

theorem IsHeader.ne_nil {l : Bytes} (h : IsHeader l) : l ≠ [] := by
  obtain ⟨-, name, value, rfl, -, -⟩ := h
  simp

/-- A line with a colon that is not its first byte. -/
theorem isHeader_of {l : Bytes} (hline : IsLine l) (hcolon : colon ∈ l)
    (hname : l.head? ≠ some colon) : IsHeader l := by
  refine ⟨hline, ?_⟩
  cases hfirst : memchr colon l with
  | none => exact absurd hcolon (memchr_eq_none.mp hfirst)
  | some i =>
      obtain ⟨name, value, rfl, hno, -⟩ := memchr_eq_some.mp hfirst
      refine ⟨name, value, rfl, hno, ?_⟩
      intro hnil
      rw [hnil] at hname
      exact hname rfl

/-- More of the value. -/
theorem IsHeader.append {l more : Bytes} (h : IsHeader l) (hmore : IsLine more) :
    IsHeader (l ++ more) := by
  obtain ⟨hline, name, value, rfl, hno, hne⟩ := h
  exact ⟨hline.append hmore, name, value ++ more, by simp, hno, hne⟩

/-- The value of a header line that has this name, which is in lower case and ends with the
colon. -/
def fieldOf (name l : Bytes) : Option Bytes :=
  if startsLower name l then some ((l.drop name.length).dropWhile isBlank) else none

/-- The values of the headers of this name, in turn. -/
def fields (name : Bytes) (ls : List Bytes) : List Bytes := ls.filterMap (fieldOf name)

/-- Exactly one length header stands among the lines, and gives `n` in digits. -/
def OneLength (ls : List Bytes) (n : Nat) : Prop :=
  ∃ ds, fields contentLength ls = [ds] ∧ ds ≠ [] ∧ (∀ d ∈ ds, isDigit d = true) ∧ digitsVal 0 ds = n

theorem OneLength.unique {ls : List Bytes} {n m : Nat} (h : OneLength ls n) (h' : OneLength ls m) :
    n = m := by
  obtain ⟨ds, hds, -, -, hn⟩ := h
  obtain ⟨ds', hds', -, -, hm⟩ := h'
  rw [hds] at hds'
  rw [← hn, ← hm, List.cons.inj hds' |>.1]

theorem fieldOf_length (n : Nat) :
    fieldOf contentLength (ascii "Content-Length: " ++ ascii (toString n))
      = some (ascii (toString n)) := by
  have hblank : (ascii (toString n)).dropWhile isBlank = ascii (toString n) := by
    rw [List.dropWhile_eq_self_iff]
    intro hpos hblank
    have hdigit := isDigit_of_mem_toString (List.getElem_mem hpos)
    simp only [isBlank, decide_eq_true_eq] at hblank
    rcases hblank with h | h
    · rw [h] at hdigit
      exact absurd hdigit (by decide)
    · rw [h] at hdigit
      exact absurd hdigit (by decide)
  calc fieldOf contentLength (ascii "Content-Length: " ++ ascii (toString n))
      = some ((ascii (toString n)).dropWhile isBlank) := rfl
    _ = some (ascii (toString n)) := by rw [hblank]

/-- The length header among lines that are none. -/
theorem oneLength_mid (n : Nat) {pre post : List Bytes}
    (hpre : fields contentLength pre = []) (hpost : fields contentLength post = []) :
    OneLength (pre ++ (ascii "Content-Length: " ++ ascii (toString n)) :: post) n := by
  refine ⟨ascii (toString n), ?_, toString_ne_nil n, fun d hd => isDigit_of_mem_toString hd,
    digitsVal_toString n⟩
  unfold fields at *
  rw [List.filterMap_append, hpre, List.filterMap_cons, fieldOf_length, hpost]
  rfl

/-! ## §3. Responses. -/

def httpVersion : Bytes := ascii "HTTP/1.1 "

structure Response where
  status : Bytes
  headers : List Bytes
  body : Bytes
  isStatus : IsLine status ∧ httpVersion <+: status
  isHeader : ∀ l ∈ headers, IsHeader l
  declares : OneLength headers body.length

namespace Response

variable (r : Response)

def lines : List Bytes := r.status :: r.headers

/-- The header block, with the empty line that ends it. -/
def head : Bytes := block (r.lines ++ [[]])

def bytes : Bytes := r.head ++ r.body

variable {r}

theorem isLine : ∀ l ∈ r.lines, IsLine l ∧ l ≠ [] := by
  intro l hl
  rcases List.mem_cons.mp hl with h | h
  · subst h
    refine ⟨r.isStatus.1, ?_⟩
    intro hnil
    have hpre := r.isStatus.2
    rw [hnil, List.prefix_nil] at hpre
    exact absurd hpre (by decide)
  · exact ⟨(r.isHeader l h).1, (r.isHeader l h).ne_nil⟩

end Response

/-- What the `Connection` header says. -/
def connectionValue (close : Bool) : Bytes := ascii (if close then "close" else "keep-alive")

/-- The bytes are one response, with exactly one `Connection` header, which says whether the
connection closes. -/
def Framed (b : Bytes) (close : Bool) : Prop :=
  ∃ r : Response, r.bytes = b ∧ fields connection r.headers = [connectionValue close]

/-! ### The lines that the workers write -/

/-- How the formats of both workers start. -/
theorem ascii_start :
    ascii "HTTP/1.1 200 OK\r\nContent-Type: application/json\r\nContent-Length: "
      = ascii "HTTP/1.1 200 OK" ++ Ch.cr :: Ch.lf :: (ascii "Content-Type: application/json"
        ++ Ch.cr :: Ch.lf :: ascii "Content-Length: ") := rfl

theorem ascii_crlfcrlf : ascii "\r\n\r\n" = [Ch.cr, Ch.lf, Ch.cr, Ch.lf] := rfl

theorem connectionValue_eq (close : Bool) :
    ascii (if close = true then "close" else "keep-alive") = connectionValue close := rfl

theorem isStatus_ok : IsLine (ascii "HTTP/1.1 200 OK") ∧ httpVersion <+: ascii "HTTP/1.1 200 OK" :=
  ⟨by decide +kernel, ascii "200 OK", rfl⟩

theorem isLine_connectionValue (close : Bool) : IsLine (connectionValue close) := by
  cases close <;> decide +kernel

theorem isHeader_type : IsHeader (ascii "Content-Type: application/json") :=
  isHeader_of (by decide +kernel) (by decide +kernel) (by decide +kernel)

theorem isHeader_length {digits : Bytes} (h : IsLine digits) :
    IsHeader (ascii "Content-Length: " ++ digits) := by
  have hstart : IsHeader (ascii "Content-Length: ") :=
    isHeader_of (by decide +kernel) (by decide +kernel) (by decide +kernel)
  exact hstart.append h

theorem isHeader_connection (close : Bool) :
    IsHeader (ascii "Connection: " ++ connectionValue close) := by
  have hstart : IsHeader (ascii "Connection: ") :=
    isHeader_of (by decide +kernel) (by decide +kernel) (by decide +kernel)
  exact hstart.append (isLine_connectionValue close)

theorem fields_type : fields contentLength [ascii "Content-Type: application/json"] = [] := by
  decide +kernel

theorem fieldOf_type : fieldOf connection (ascii "Content-Type: application/json") = none := by
  decide +kernel

/-! ## §4. A header block is cut in one way. -/

theorem block_cut {ls : List Bytes} (hls : ∀ l ∈ ls, IsLine l ∧ l ≠ []) :
    ∀ {ms : List Bytes} {x y : Bytes}, (∀ m ∈ ms, IsLine m ∧ m ≠ []) →
      block (ls ++ [[]]) ++ x = block (ms ++ [[]]) ++ y → ls = ms ∧ x = y := by
  -- a line ends at the first CR, and an empty line ends the block
  have hline : ∀ {l m a b : Bytes}, Ch.cr ∉ l → Ch.cr ∉ m →
      l ++ Ch.cr :: Ch.lf :: a = m ++ Ch.cr :: Ch.lf :: b → l = m ∧ a = b := by
    intro l m a b hl hm h
    have hlen : some l.length = some m.length := by
      rw [← memchr_append_cons l (Ch.lf :: a) hl, h, memchr_append_cons m (Ch.lf :: b) hm]
    obtain ⟨hlm, htail⟩ := List.append_inj h (Option.some.inj hlen)
    exact ⟨hlm, by simpa using htail⟩
  induction ls with
  | nil =>
      intro ms x y hms h
      cases ms with
      | nil => exact ⟨rfl, by simpa using h⟩
      | cons m ms =>
          obtain ⟨⟨hcr, -⟩, hne⟩ := hms m (by simp)
          have h' : [] ++ Ch.cr :: Ch.lf :: x
              = m ++ Ch.cr :: Ch.lf :: (block (ms ++ [[]]) ++ y) := by simpa using h
          exact absurd (hline (by simp) hcr h').1.symm hne
  | cons l ls ih =>
      intro ms x y hms h
      obtain ⟨⟨hcr, -⟩, hne⟩ := hls l (by simp)
      cases ms with
      | nil =>
          have h' : l ++ Ch.cr :: Ch.lf :: (block (ls ++ [[]]) ++ x)
              = [] ++ Ch.cr :: Ch.lf :: y := by simpa using h
          exact absurd (hline hcr (by simp) h').1 hne
      | cons m ms =>
          obtain ⟨⟨hcr', -⟩, -⟩ := hms m (by simp)
          have h' : l ++ Ch.cr :: Ch.lf :: (block (ls ++ [[]]) ++ x)
              = m ++ Ch.cr :: Ch.lf :: (block (ms ++ [[]]) ++ y) := by simpa using h
          obtain ⟨rfl, hrest⟩ := hline hcr hcr' h'
          obtain ⟨rfl, rfl⟩ := ih (fun x hx => hls x (by simp [hx]))
            (fun x hx => hms x (by simp [hx])) hrest
          exact ⟨rfl, rfl⟩

/-- **Text that is put together from a status line, header lines and a body is a response
exactly when the headers are right.** -/
theorem framed_iff {status body : Bytes} {headers : List Bytes} {close : Bool}
    (hstatus : IsLine status ∧ httpVersion <+: status) (hheaders : ∀ l ∈ headers, IsHeader l) :
    Framed (block ((status :: headers) ++ [[]]) ++ body) close
      ↔ OneLength headers body.length ∧ fields connection headers = [connectionValue close] := by
  constructor
  · intro ⟨r, hbytes, hconn⟩
    have hlines : ∀ l ∈ status :: headers, IsLine l ∧ l ≠ [] := by
      intro l hl
      rcases List.mem_cons.mp hl with h | h
      · subst h
        refine ⟨hstatus.1, ?_⟩
        intro hnil
        have hpre := hstatus.2
        rw [hnil, List.prefix_nil] at hpre
        exact absurd hpre (by decide)
      · exact ⟨(hheaders l h).1, (hheaders l h).ne_nil⟩
    obtain ⟨hcut, hbody⟩ := block_cut Response.isLine hlines hbytes
    obtain ⟨-, hhead⟩ := List.cons.inj hcut
    have hlen := r.declares
    rw [hhead, hbody] at hlen
    rw [hhead] at hconn
    exact ⟨hlen, hconn⟩
  · intro ⟨hlen, hconn⟩
    exact ⟨⟨status, headers, body, hstatus, hheaders, hlen⟩, rfl, hconn⟩

end TlsMigration.Http
