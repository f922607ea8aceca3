/-
  TlsMigration.Migration.SamePlaintext
  ────────────────────────────────────
  **EVERY PEEK SEES THE SAME PLAINTEXT** (`tlspeek_serialize` and
  `tlspeek_restore_peek_ctx` of tlspeek_serial.c, `tls_read_peek` of
  tlspeek.c).

  A context can peek as it is, or be packed, carried to another process and
  rebuilt there.  Both look at the same record, and as `recv` is called with
  `MSG_PEEK`, neither takes anything away.

    • `readPeek_eq`      — a peek is the plaintext of the first record, cut
                           to the size of the buffer;
    • `plaintext_append` — a plaintext that is seen stays the one that is seen;
    • `every_peek_agrees` — two peeks, and any run of peeks and arrivals.
-/
import TlsMigration.Migration.Live

namespace TlsMigration.Migration

open TlsMigration.Tlspeek

/-! ## §1. The model. -/

variable {β : Type*} (W : WolfCrypt)

/-- `tlspeek_serialize`; `blob` is what `wolfSSL_tls_export` wrote, if it succeeded. -/
def tlspeek_serialize (ctx : TlspeekCtx) (blob : Option β) : TlspeekSerial β where
  magic := TLSPEEK_MAGIC
  cipher_suite := ctx.cipher_suite
  client_write_key := ctx.client_write_key
  client_write_iv := ctx.client_write_iv
  read_seq_num := ctx.read_seq_num
  tls_blob := blob

/-- `recv` on an open connection: what it stores, and the receive buffer after it.  There
is no connection behind a negative descriptor. -/
def recv (msg_peek : Bool) (fd : Int) (kernel : Bytes) (len : Nat) : Option Bytes × Bytes :=
  if fd < 0 then (none, kernel)
  else (some (kernel.take len), if msg_peek then kernel else kernel.drop len)

/-- `tls_read_peek` on the descriptor of its context: the result, and the receive buffer
after it. -/
def readPeek (ctx : TlspeekCtx) (kernel : Bytes) (size : Nat) : Option Bytes × Bytes :=
  if size = 0 ∨ ctx.keys_ready = false then (none, kernel)
  else
    match recv true ctx.tcp_fd kernel rawSize with
    | (none, kernel) => (none, kernel)
    | (some raw, kernel) => (tls_read_peek W ctx raw size, kernel)

/-- A peek in another process: the context is rebuilt first. -/
def restoredPeek (tcp_fd : Int) (serial : TlspeekSerial β) (kernel : Bytes) (size : Nat) :
    Option Bytes × Bytes :=
  match tlspeek_restore_peek_ctx tcp_fd serial with
  | none => (none, kernel)
  | some ctx => readPeek W ctx kernel size

/-- A connection before its first consuming read. -/
structure Endpoint (β : Type*) where
  kernel : Bytes
  ctx : TlspeekCtx
  serial : TlspeekSerial β

/-- What may happen before that read. -/
inductive PeekEvent where
  | peek (size : Nat)
  | restoredPeek (size : Nat)
  | arrive (bytes : Bytes)

/-- One event, and what a peek answered to its size. -/
def Endpoint.step (e : Endpoint β) : PeekEvent → Endpoint β × List (Nat × Option Bytes)
  | .peek size =>
      let r := readPeek W e.ctx e.kernel size
      ({ e with kernel := r.2 }, [(size, r.1)])
  | .restoredPeek size =>
      let r := Migration.restoredPeek W e.ctx.tcp_fd e.serial e.kernel size
      ({ e with kernel := r.2 }, [(size, r.1)])
  | .arrive bytes => ({ e with kernel := e.kernel ++ bytes }, [])

def Endpoint.run (e : Endpoint β) : List PeekEvent → Endpoint β × List (Nat × Option Bytes)
  | [] => (e, [])
  | event :: events =>
      let r := e.step W event
      let rest := r.1.run events
      (rest.1, r.2 ++ rest.2)

/-- The bytes that arrive in a run. -/
def arrivals : List PeekEvent → Bytes
  | [] => []
  | .arrive bytes :: events => bytes ++ arrivals events
  | _ :: events => arrivals events

/-! ## §2. One plaintext. -/

/-- The plaintext of the first record of the buffer, as a peek takes it. -/
def plaintext (ctx : TlspeekCtx) (kernel : Bytes) : Option Bytes :=
  if kernel = [] then none
  else
    (peekCall ctx (kernel.take rawSize)).bind fun call =>
      (W.decrypt call).map fun p => p.take (call.ciphertext.length - 1)

variable {W} {ctx : TlspeekCtx} {kernel : Bytes} {size : Nat}

/-- **A peek is the plaintext, cut to the size of the buffer.** -/
theorem tls_read_peek_eq (hready : ctx.keys_ready = true) (hsize : 0 < size) (kernel : Bytes) :
    tls_read_peek W ctx kernel size = (plaintext W ctx kernel).map (·.take size) := by
  have hne : ¬ (size = 0 ∨ ctx.keys_ready = false) := by
    rw [hready]
    rintro (h | h)
    · omega
    · cases h
  unfold tls_read_peek plaintext
  rw [if_neg hne]
  by_cases hk : kernel = []
  · subst hk
    rfl
  · have hraw : kernel.take rawSize ≠ [] := by
      intro h
      rcases List.take_eq_nil_iff.mp h with h | h
      · exact absurd h (by decide)
      · exact hk h
    rw [if_neg hk]
    dsimp only
    rw [if_neg hraw]
    cases peekCall ctx (kernel.take rawSize) with
    | none => rfl
    | some call =>
        dsimp only [Option.bind_some]
        cases W.decrypt call with
        | none => rfl
        | some p =>
            dsimp only [Option.map_some]
            rw [List.take_take, Nat.min_comm]

/-- What `recv` has stored is all that a peek looks at. -/
theorem plaintext_take (kernel : Bytes) :
    plaintext W ctx (kernel.take rawSize) = plaintext W ctx kernel := by
  unfold plaintext
  rw [List.take_take, Nat.min_self]
  by_cases hk : kernel = []
  · subst hk
    rfl
  · have hraw : kernel.take rawSize ≠ [] := by
      intro h
      rcases List.take_eq_nil_iff.mp h with h | h
      · exact absurd h (by decide)
      · exact hk h
    rw [if_neg hk, if_neg hraw]

/-- What a peek on an open connection sees. -/
def seen (W : WolfCrypt) (ctx : TlspeekCtx) (kernel : Bytes) : Option Bytes :=
  if ctx.tcp_fd < 0 then none else plaintext W ctx kernel

/-- **One peek**: what it answers, and that it leaves the buffer as it was. -/
theorem readPeek_eq (hready : ctx.keys_ready = true) (kernel : Bytes) (size : Nat) :
    readPeek W ctx kernel size
      = (if size = 0 then none else (seen W ctx kernel).map (·.take size), kernel) := by
  unfold readPeek seen recv
  by_cases hsize : size = 0
  · rw [if_pos (Or.inl hsize), if_pos hsize]
  · have hne : ¬ (size = 0 ∨ ctx.keys_ready = false) := by
      rw [hready]
      rintro (h | h)
      · exact hsize h
      · cases h
    rw [if_neg hne, if_neg hsize]
    by_cases hfd : ctx.tcp_fd < 0
    · rw [if_pos hfd, if_pos hfd]
      rfl
    · rw [if_neg hfd, if_neg hfd]
      dsimp only
      rw [tls_read_peek_eq hready (Nat.pos_of_ne_zero hsize), plaintext_take]
      rfl

/-- **What is rebuilt peeks like the original**: the conversions keep every field that a
peek reads. -/
theorem restoredPeek_eq (hready : ctx.keys_ready = true) (blob : Option β) (kernel : Bytes)
    (size : Nat) :
    restoredPeek W ctx.tcp_fd (tlspeek_serialize ctx blob) kernel size
      = readPeek W ctx kernel size := by
  unfold restoredPeek tlspeek_restore_peek_ctx
  by_cases hfd : ctx.tcp_fd < 0
  · rw [if_pos (Or.inr hfd), readPeek_eq hready]
    unfold seen
    rw [if_pos hfd]
    simp
  · have hok : ¬ ((tlspeek_serialize ctx blob).magic ≠ TLSPEEK_MAGIC ∨ ctx.tcp_fd < 0) := by
      rintro (h | h)
      · exact h rfl
      · exact hfd h
    rw [if_neg hok]
    dsimp only
    rw [readPeek_eq rfl, readPeek_eq hready]
    rfl

/-! ## §3. Bytes that arrive later. -/

/-- A part of the buffer that is there already. -/
theorem part_append {raw : Bytes} {n m : Nat} (h : n + m ≤ raw.length) (more : Bytes) :
    ((raw ++ more).drop n).take m = (raw.drop n).take m := by
  rw [List.drop_append_of_le_length (by omega), List.take_append_of_le_length]
  rw [List.length_drop]
  omega

/-- The AEAD call is fixed by the bytes of the first record. -/
theorem peekCall_append {raw : Bytes} {call : AeadCall} (h : peekCall ctx raw = some call)
    (more : Bytes) : peekCall ctx (raw ++ more) = some call := by
  unfold peekCall at h ⊢
  split at h
  next => cases h
  next hheader =>
    have hget : ∀ i < 5, (raw ++ more).getD i 0 = raw.getD i 0 := by
      intro i hi
      have hfive : TLSPEEK_HEADER_SIZE = 5 := rfl
      exact getD_append (by omega) more
    rw [if_neg (by rw [List.length_append]; omega)]
    rw [hget 0 (by decide), hget 3 (by decide), hget 4 (by decide)]
    dsimp only at h ⊢
    generalize be16 (raw.getD 3 0) (raw.getD 4 0) = record_len at h ⊢
    split at h
    next => cases h
    next htype =>
      split at h
      next => cases h
      next hwhole =>
        split at h
        next => cases h
        next hlong =>
          -- header, ciphertext and tag lie in the part that was there
          rw [if_neg htype, if_neg (by rw [List.length_append]; omega), if_neg hlong,
            part_append (by omega), part_append (by omega),
            List.take_append_of_le_length (by omega)]
          exact h

/-- **A plaintext that is seen stays the one that is seen.** -/
theorem plaintext_append {p : Bytes} (h : plaintext W ctx kernel = some p) (more : Bytes) :
    plaintext W ctx (kernel ++ more) = some p := by
  unfold plaintext at h ⊢
  split at h
  · cases h
  next hne =>
    obtain ⟨call, hcall, hp⟩ := Option.bind_eq_some_iff.mp h
    have hgrown : (kernel ++ more).take rawSize
        = kernel.take rawSize ++ more.take (rawSize - kernel.length) := by
      rw [List.take_append]
    rw [if_neg (by simp [hne]), hgrown, peekCall_append hcall]
    exact hp

theorem seen_append {p : Bytes} (h : seen W ctx kernel = some p) (more : Bytes) :
    seen W ctx (kernel ++ more) = some p := by
  unfold seen at h ⊢
  split at h
  next => cases h
  next hfd =>
    rw [if_neg hfd]
    exact plaintext_append h more

/-! ## §4. Runs. -/

/-- The connection with this buffer. -/
def endpoint (ctx : TlspeekCtx) (blob : Option β) (kernel : Bytes) : Endpoint β :=
  ⟨kernel, ctx, tlspeek_serialize ctx blob⟩

/-- The answer of one peek to a buffer. -/
def answered (W : WolfCrypt) (ctx : TlspeekCtx) (kernel : Bytes) (size : Nat) : Option Bytes :=
  if size = 0 then none else (seen W ctx kernel).map (·.take size)

/-- One event changes the buffer by what arrives, and nothing else. -/
theorem step_eq (hready : ctx.keys_ready = true) (blob : Option β) (kernel : Bytes) (event : PeekEvent) :
    ((endpoint ctx blob kernel).step W event).1
        = endpoint ctx blob (kernel ++ arrivals [event])
      ∧ ∀ o ∈ ((endpoint ctx blob kernel).step W event).2,
          o.2 = answered W ctx kernel o.1 ∧ arrivals [event] = [] := by
  cases event with
  | peek size =>
      show { endpoint ctx blob kernel with kernel := (readPeek W ctx kernel size).2 } = _
        ∧ ∀ o ∈ [(size, (readPeek W ctx kernel size).1)], _
      rw [readPeek_eq hready]
      simp [endpoint, arrivals, answered]
  | restoredPeek size =>
      show { endpoint ctx blob kernel with
          kernel := (restoredPeek W ctx.tcp_fd (tlspeek_serialize ctx blob) kernel size).2 } = _
        ∧ ∀ o ∈ [(size,
          (restoredPeek W ctx.tcp_fd (tlspeek_serialize ctx blob) kernel size).1)], _
      rw [restoredPeek_eq hready, readPeek_eq hready]
      simp [endpoint, arrivals, answered]
  | arrive bytes =>
      simp [Endpoint.step, endpoint, arrivals]

theorem arrivals_cons (event : PeekEvent) (events : List PeekEvent) :
    arrivals (event :: events) = arrivals [event] ++ arrivals events := by
  cases event <;> simp [arrivals]

/-- **A run** leaves the context and the serial as they are, and the buffer with what has
arrived; each of its peeks answers to the buffer of its time. -/
theorem run_spec (hready : ctx.keys_ready = true) (blob : Option β) (events : List PeekEvent) :
    ∀ kernel : Bytes,
      ((endpoint ctx blob kernel).run W events).1
          = endpoint ctx blob (kernel ++ arrivals events)
        ∧ ∀ o ∈ ((endpoint ctx blob kernel).run W events).2, ∃ more, more <+: arrivals events
            ∧ o.2 = answered W ctx (kernel ++ more) o.1 := by
  induction events with
  | nil =>
      intro kernel
      simp [Endpoint.run, arrivals]
  | cons event events ih =>
      intro kernel
      obtain ⟨hstate, hanswers⟩ := step_eq (W := W) hready blob kernel event
      obtain ⟨hrun, hrest⟩ := ih (kernel ++ arrivals [event])
      have hunfold : (endpoint ctx blob kernel).run W (event :: events)
          = (((endpoint ctx blob (kernel ++ arrivals [event])).run W events).1,
            ((endpoint ctx blob kernel).step W event).2
              ++ ((endpoint ctx blob (kernel ++ arrivals [event])).run W events).2) := by
        rw [← hstate]
        rfl
      rw [hunfold, arrivals_cons event events]
      refine ⟨?_, ?_⟩
      · rw [← List.append_assoc]
        exact hrun
      · intro o ho
        rcases List.mem_append.mp ho with ho | ho
        · refine ⟨[], List.nil_prefix, ?_⟩
          rw [List.append_nil]
          exact (hanswers o ho).1
        · obtain ⟨more, hmore, he⟩ := hrest o ho
          refine ⟨arrivals [event] ++ more, (List.prefix_append_right_inj _).mpr hmore, ?_⟩
          rw [← List.append_assoc]
          exact he

/-- A peek that succeeded has seen the plaintext that the whole buffer shows. -/
theorem answered_take {more all b : Bytes} (h : more <+: all)
    (hb : answered W ctx (kernel ++ more) size = some b) :
    ∃ p, seen W ctx (kernel ++ all) = some p ∧ b = p.take size := by
  unfold answered at hb
  split at hb
  next => cases hb
  next =>
    obtain ⟨p, hp, he⟩ := Option.map_eq_some_iff.mp hb
    obtain ⟨behind, hall⟩ := h
    refine ⟨p, ?_, he.symm⟩
    rw [← hall, ← List.append_assoc]
    exact seen_append hp behind

theorem answered_none (W : WolfCrypt) (ctx : TlspeekCtx) (kernel : Bytes) {s₁ s₂ : Nat}
    (h₁ : 0 < s₁) (h₂ : 0 < s₂) :
    answered W ctx kernel s₁ = none ↔ answered W ctx kernel s₂ = none := by
  unfold answered
  rw [if_neg (by omega), if_neg (by omega), Option.map_eq_none_iff, Option.map_eq_none_iff]

/-- **Every peek sees the same plaintext.**  A peek on a ready context and one on the
context rebuilt from its serial are the plaintext of the first record, each cut to its buffer, so
they fail together and one answer is a prefix of the other.  In a run of such peeks, with bytes
arriving in between, all answers are prefixes of one plaintext; the run leaves context and serial
alone and the buffer with what arrived, and where nothing arrives its peeks fail or succeed
together. -/
theorem every_peek_agrees (W : WolfCrypt) (ctx : TlspeekCtx) (hready : ctx.keys_ready = true)
    (blob : Option β) (kernel : Bytes) :
    (∀ s₁ s₂ : Nat, 0 < s₁ → 0 < s₂ →
      let r₁ := readPeek W ctx kernel s₁
      let r₂ := restoredPeek W ctx.tcp_fd (tlspeek_serialize ctx blob) kernel s₂
      r₁.2 = kernel ∧ r₂.2 = kernel ∧ (r₁.1 = none ↔ r₂.1 = none)
        ∧ r₁.1 = (seen W ctx kernel).map (·.take s₁) ∧ r₂.1 = (seen W ctx kernel).map (·.take s₂)
        ∧ ∀ b₁ ∈ r₁.1, ∀ b₂ ∈ r₂.1, (b₁.length ≤ b₂.length → b₁ <+: b₂)
            ∧ (b₂.length ≤ b₁.length → b₂ <+: b₁))
    ∧ ∀ events : List PeekEvent,
      let r := (endpoint ctx blob kernel).run W events
      r.1 = endpoint ctx blob (kernel ++ arrivals events)
        ∧ (∀ o ∈ r.2, ∀ b ∈ o.2, ∃ p, seen W ctx (kernel ++ arrivals events) = some p
            ∧ b = p.take o.1)
        ∧ (arrivals events = [] → ∀ o ∈ r.2, ∀ o' ∈ r.2, 0 < o.1 → 0 < o'.1 →
            (o.2 = none ↔ o'.2 = none)) := by
  constructor
  · intro s₁ s₂ h₁ h₂
    dsimp only
    rw [restoredPeek_eq hready, readPeek_eq hready, readPeek_eq hready, if_neg (by omega),
      if_neg (by omega)]
    refine ⟨rfl, rfl, ?_, rfl, rfl, ?_⟩
    · rw [Option.map_eq_none_iff, Option.map_eq_none_iff]
    · intro b₁ hb₁ b₂ hb₂
      obtain ⟨p, hp, rfl⟩ := Option.map_eq_some_iff.mp hb₁
      obtain ⟨p', hp', rfl⟩ := Option.map_eq_some_iff.mp hb₂
      obtain rfl := Option.some.inj (hp.symm.trans hp')
      have hpre₁ : p.take s₁ <+: p := List.take_prefix _ _
      have hpre₂ : p.take s₂ <+: p := List.take_prefix _ _
      exact ⟨List.prefix_of_prefix_length_le hpre₁ hpre₂,
        List.prefix_of_prefix_length_le hpre₂ hpre₁⟩
  · intro events
    obtain ⟨hstate, hanswers⟩ := run_spec (W := W) hready blob events kernel
    refine ⟨hstate, ?_, ?_⟩
    · intro o ho b hb
      obtain ⟨more, hmore, he⟩ := hanswers o ho
      rw [he] at hb
      exact answered_take hmore hb
    · intro hnone o ho o' ho' hpos hpos'
      obtain ⟨more, hmore, he⟩ := hanswers o ho
      obtain ⟨more', hmore', he'⟩ := hanswers o' ho'
      rw [hnone] at hmore hmore'
      rw [he, he', List.prefix_nil.mp hmore, List.prefix_nil.mp hmore']
      exact answered_none W ctx _ hpos hpos'

/-- A record with a request, and a part of the next one. -/
def sumRecord : Bytes :=
  sealRecord plainCrypt.aesGcm zeroKeyCtx.client_write_key.bytes zeroKeyCtx.client_write_iv.bytes
    zeroKeyCtx.read_seq_num ⟨ascii "GET /function/sum", 0⟩ ++ ascii "more"

/-- A peek of 4 bytes, then bytes arrive, then one of 64 with a rebuilt context. -/
def peekTwice : List PeekEvent := [.peek 4, .arrive (ascii "of it"), .restoredPeek 64]

/-- The record seen from both sides. -/
theorem every_peek_agrees_record :
    (readPeek plainCrypt zeroKeyCtx sumRecord 4).1 = some (ascii "GET ")
      ∧ (restoredPeek plainCrypt zeroKeyCtx.tcp_fd (tlspeek_serialize zeroKeyCtx (some ()))
        sumRecord 64).1 = some (ascii "GET /function/sum")
      ∧ ascii "GET " <+: ascii "GET /function/sum"
      ∧ ((endpoint zeroKeyCtx (some ()) sumRecord).run plainCrypt peekTwice).1
        = endpoint zeroKeyCtx (some ()) (sumRecord ++ ascii "of it") := by
  have hseen : seen plainCrypt zeroKeyCtx sumRecord = some (ascii "GET /function/sum") := by
    decide +kernel
  obtain ⟨hpeeks, hruns⟩ := every_peek_agrees plainCrypt zeroKeyCtx rfl (some ()) sumRecord
  obtain ⟨-, -, -, hshort, hlong, hfronts⟩ := hpeeks 4 64 (by decide) (by decide)
  rw [hseen] at hshort hlong
  exact ⟨hshort, hlong, (hfronts _ hshort _ hlong).1 (by decide), (hruns peekTwice).1⟩

end TlsMigration.Migration
