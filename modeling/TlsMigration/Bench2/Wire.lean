/-
  TlsMigration.Bench2.Wire
  ────────────────────────
  **THE TLS STREAM UNDER A SESSION.**

  Three places hold plaintext that a session has not used yet: complete
  records in the socket buffer, the record wolfSSL has opened, and the
  session's own buffer.  `Wire` is the first two.  `wolfSSL_read` gives
  bytes of one record only, and any positive number of them; a peek shows
  the first record of the socket buffer, whatever wolfSSL still holds.
-/
import TlsMigration.Tlspeek.Peek
import TlsMigration.Bench2.Session

namespace TlsMigration.Bench2

open TlsMigration.Tlspeek TlsMigration.Http

/-! ## §1. Reading. -/

/-- The receive side of a connection. -/
structure Wire where
  /-- opened by wolfSSL and not read yet -/
  plain : Bytes
  /-- complete records in the socket buffer -/
  kernel : List Record

/-- All plaintext ahead, in order. -/
def contents (rs : List Record) : Bytes := (rs.map Record.content).flatten

def Wire.ahead (w : Wire) : Bytes := w.plain ++ contents w.kernel

@[simp] theorem contents_nil : contents [] = [] := rfl

@[simp] theorem contents_cons (r : Record) (rs : List Record) :
    contents (r :: rs) = r.content ++ contents rs := by simp [contents]

@[simp] theorem contents_append (rs ts : List Record) :
    contents (rs ++ ts) = contents rs ++ contents ts := by simp [contents]

/-- `wolfSSL_read` of at most `want` bytes returns `d`: bytes of the record it has
open, or of the next one that holds any. -/
inductive Wire.Data : Wire → Nat → Bytes → Wire → Prop where
  | take {d rest : Bytes} {ks : List Record} {want : Nat} :
      d ≠ [] → d.length ≤ want → Data ⟨d ++ rest, ks⟩ want d ⟨rest, ks⟩
  | next {r : Record} {ks : List Record} {want : Nat} {d : Bytes} {w' : Wire} :
      Data ⟨r.content, ks⟩ want d w' → Data ⟨[], r :: ks⟩ want d w'

/-- What a read does to the stream: data moves it on, anything else leaves it. -/
def Wire.Reads (w : Wire) (want : Nat) (res : TlsRead) (w' : Wire) : Prop :=
  match res with
  | .data d => w.Data want d w'
  | .none _ => w' = w

namespace Wire.Data

variable {w w' : Wire} {want : Nat} {d : Bytes}

theorem ne_nil (h : w.Data want d w') : d ≠ [] := by
  induction h with
  | take hd _ => exact hd
  | next _ ih => exact ih

theorem length_le (h : w.Data want d w') : d.length ≤ want := by
  induction h with
  | take _ hle => exact hle
  | next _ ih => exact ih

/-- Nothing is lost in a read. -/
theorem ahead_eq (h : w.Data want d w') : w.ahead = d ++ w'.ahead := by
  induction h with
  | take _ _ => simp [Wire.ahead]
  | next _ ih => simpa [Wire.ahead] using ih

/-- A read is served from the open record, or else from the next one. -/
theorem inv (h : w.Data want d w') :
    (w.plain = d ++ w'.plain ∧ w'.kernel = w.kernel)
      ∨ ∃ r ks, w.plain = [] ∧ w.kernel = r :: ks ∧ Wire.Data ⟨r.content, ks⟩ want d w' := by
  cases h with
  | take _ _ => exact Or.inl ⟨rfl, rfl⟩
  | next h => exact Or.inr ⟨_, _, rfl, rfl, h⟩

/-- What wolfSSL had open comes first. -/
theorem extends_plain (h : w.Data want d w') : ∃ more, d ++ w'.plain = w.plain ++ more := by
  rcases h.inv with ⟨hp, -⟩ | ⟨r, ks, hp, -, -⟩
  · exact ⟨[], by rw [hp, List.append_nil]⟩
  · exact ⟨d ++ w'.plain, by rw [hp, List.nil_append]⟩

/-- With nothing open, the first record is opened. -/
theorem first {r : Record} {ks : List Record} (hne : r.content ≠ []) (hp : w.plain = [])
    (hk : w.kernel = r :: ks) (h : w.Data want d w') :
    d ++ w'.plain = r.content ∧ w'.kernel = ks := by
  rcases h.inv with ⟨h₁, -⟩ | ⟨r', ks', -, hk', h'⟩
  · rw [hp] at h₁
    exact absurd (List.append_eq_nil_iff.mp h₁.symm).1 h.ne_nil
  · rw [hk] at hk'
    injection hk' with hr hks
    subst hr hks
    rcases h'.inv with ⟨h₂, h₃⟩ | ⟨_, _, h₂, -, -⟩
    · exact ⟨h₂.symm, h₃⟩
    · exact absurd h₂ hne

/-- Records leave the socket buffer from the front. -/
theorem kernel_suffix (h : w.Data want d w') : w'.kernel <:+ w.kernel := by
  induction h with
  | take _ _ => exact List.suffix_rfl
  | next _ ih => exact ih.trans (List.suffix_cons _ _)

end Wire.Data

/-! ## §2. Peeking. -/

/-- `tls_read_peek` on the socket buffer of this stream: it fails, or it shows the
start of the first record's peeked plaintext. -/
def Wire.Peeks (w : Wire) (peek : Nat → Option Bytes) : Prop :=
  ∃ r ks, w.kernel = r :: ks
    ∧ ∀ want, peek want = none ∨ peek want = some (r.peeked.take want)

/-- The owner a peek finds is one that the start of the record shows. -/
theorem peekOwnerLoop_some {peek : Nat → Option Bytes} {wants : List Nat} {owner : Bytes}
    (h : peekOwnerLoop peek wants = some owner) :
    ∃ want b name, peek want = some b
      ∧ parse_request_owner b BENCH2_KA_TARGET_LEN = some name ∧ owner = cstr name := by
  induction wants with
  | nil => cases h
  | cons want wants ih =>
      simp only [peekOwnerLoop] at h
      split at h
      next => cases h
      next b hb =>
        split at h
        next => cases h
        next =>
          split at h
          next name hname =>
            injection h with h
            exact ⟨want, b, name, hb, hname, h.symm⟩
          next => exact ih h

/-- Peeks of growing sizes, up to `size`, show the function that the record's content
names in its first `size` bytes, however the record's padding looks. -/
theorem peekOwnerLoop_names {peek : Nat → Option Bytes} {r : Record} {name : Bytes} {size : Nat}
    (hpeek : ∀ want, 0 < want → peek want = some (r.peeked.take want))
    (hfit : name.length < BENCH2_KA_TARGET_LEN)
    (hnames : NamesFunction (requestLine (r.content.take size)) name) :
    ∀ wants : List Nat, (∀ want ∈ wants, 0 < want ∧ want ≤ size) → wants.getLast? = some size →
      peekOwnerLoop peek wants = some (cstr name) := by
  obtain ⟨pad, hpad⟩ := r.content_prefix_peeked
  -- what a longer peek shows starts with what a shorter one shows
  have hgrow : ∀ {k m : Nat} {name' : Bytes}, k ≤ m →
      NamesFunction (requestLine (r.peeked.take k)) name' →
      NamesFunction (requestLine (r.peeked.take m)) name' := by
    intro k m name' hkm h
    obtain ⟨more, hmore⟩ := requestLine_append (r.peeked.take k) ((r.peeked.take m).drop k)
    have hsplit : r.peeked.take k ++ (r.peeked.take m).drop k = r.peeked.take m := by
      have := List.take_append_drop k (r.peeked.take m)
      rwa [List.take_take, Nat.min_eq_left hkm] at this
    rw [hsplit] at hmore
    rw [hmore]
    exact h.append more
  have hlast : NamesFunction (requestLine (r.peeked.take size)) name := by
    obtain ⟨more, hmore⟩ := requestLine_append (r.content.take size)
      (pad.take (size - r.content.length))
    rw [← hpad, List.take_append, hmore]
    exact hnames.append more
  have hparse : ∀ {want : Nat} {name' : Bytes}, want ≤ size →
      parse_request_owner (r.peeked.take want) BENCH2_KA_TARGET_LEN = some name' → name' = name :=
    fun hle h => (hgrow hle (parse_request_owner_iff.mp h).1).unique hlast
  have hne : r.content ≠ [] := by
    intro e
    rw [e, List.take_nil] at hnames
    exact hnames.ne_nil rfl
  have hshows : ∀ {want : Nat}, 0 < want → r.peeked.take want ≠ [] := by
    intro want hwant h
    rw [← hpad] at h
    have hnil : r.content = [] := by
      have := congrArg List.length h
      simp only [List.length_take, List.length_append, List.length_nil] at this
      exact List.length_eq_zero_iff.mp (by omega)
    exact hne hnil
  -- every size asked for shows the name or nothing, and the last one shows it
  intro wants
  induction wants with
  | nil =>
      intro _ h
      cases h
  | cons want wants ih =>
      intro hle hend
      obtain ⟨hpos, hmax⟩ := hle want (by simp)
      simp only [peekOwnerLoop, hpeek want hpos, hshows hpos, if_false]
      cases hp : parse_request_owner (r.peeked.take want) BENCH2_KA_TARGET_LEN with
      | some name' => rw [hparse hmax hp]
      | none =>
          cases wants with
          | nil =>
              have e : want = size := by simpa using hend
              rw [e, parse_request_owner_iff.mpr ⟨hlast, hfit⟩] at hp
              cases hp
          | cons w ws =>
              exact ih (fun x hx => hle x (by simp [hx])) (by simpa using hend)

/-- The worker's sizes end with 8192. -/
theorem peek_owner_from_kernel_names {peek : Nat → Option Bytes} {r : Record} {name : Bytes}
    (hpeek : ∀ want, 0 < want → peek want = some (r.peeked.take want))
    (hfit : name.length < BENCH2_KA_TARGET_LEN)
    (hnames : NamesFunction (requestLine (r.content.take 8192)) name) :
    peek_owner_from_kernel peek = some (cstr name) :=
  peekOwnerLoop_names hpeek hfit hnames peekSizes (by decide) (by decide)

/-- The request line of a record's peeked plaintext names what the record's content
does. -/
theorem names_content_of_peeked {r : Record} {want : Nat} {name : Bytes}
    (h : NamesFunction (requestLine (r.peeked.take want)) name) :
    NamesFunction (requestLine r.content) name := by
  -- grow the prefix to the whole peeked plaintext, then drop the padding
  obtain ⟨m, hm⟩ := requestLine_append (r.peeked.take want) (r.peeked.drop want)
  rw [List.take_append_drop] at hm
  have hall : NamesFunction (requestLine r.peeked) name := by
    rw [hm]
    exact h.append m
  obtain ⟨pad, hpad⟩ := r.content_prefix_peeked
  have hspace : Ch.space ∉ pad := by
    cases hp : r.pad with
    | zero =>
        rw [Record.peeked_of_unpadded hp] at hpad
        rw [List.append_right_eq_self.mp hpad]
        simp
    | succ k =>
        rw [Record.peeked_of_padded hp] at hpad
        rw [List.append_cancel_left hpad]
        simp [Ch.space]
  by_cases hlf : Ch.lf ∈ r.content
  · rw [← hpad, requestLine_append_of_mem hlf] at hall
    exact hall
  · have hself : ∀ {b : Bytes}, Ch.lf ∉ b → requestLine b = b := by
      intro b hb
      unfold requestLine
      rw [List.takeWhile_eq_self_iff]
      intro x hx
      simp only [ne_eq, decide_eq_true_eq]
      rintro rfl
      exact hb hx
    have hline : requestLine r.peeked = r.content ++ requestLine pad := by
      rw [← hpad]
      unfold requestLine
      rw [List.takeWhile_append_of_pos]
      intro x hx
      simp only [ne_eq, decide_eq_true_eq]
      rintro rfl
      exact hlf hx
    rw [hline] at hall
    rw [hself hlf]
    exact hall.of_append (fun h => hspace ((List.takeWhile_prefix _).subset h))

/-! ## §3. One iteration. -/

variable {F S : Type*}

/-- How the calls of one iteration fit the stream. -/
def Answers (s : Session F S) (w : Wire) (c : Calls S) (w' : Wire) : Prop :=
  match s.state with
  | .peek_owner => w' = w ∧ (0 < c.ready → w.Peeks c.peek)
  -- the size asked for: `readRoom_of_capacity`
  | .read_headers => w.Reads 8192 c.read w'
  | .read_body =>
      if s.body_in < s.body_target then
        w.Reads (min (s.body_target - s.body_in) 8192) c.read w'
      else w' = w
  | .write_response => w' = w ∧ c.pending = w.plain.length

theorem answers_peek {s : Session F S} {w : Wire} {c : Calls S} (hst : s.state = .peek_owner)
    (h : w.Peeks c.peek) : Answers s w c w := by
  simp only [Answers, hst]
  exact ⟨trivial, fun _ => h⟩

end TlsMigration.Bench2
