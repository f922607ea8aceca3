/-
  TlsMigration.Migration.RecordBoundaries
  ───────────────────────────────────────
  **ROUTING AND THE BORDERS OF TLS RECORDS** (`bench2gw_conn_step`,
  `tls_record_ready` and `progressive_peek_owner` of bench2gw.c).

  A client may cut its plaintext into records as it likes, and the network
  the records into segments.  The gateway steps a connection while bytes
  arrive; it waits for the first record, and decides by that one alone.

    • `firstRecord_decides` — what a step makes of the first record;
    • `routes_iff`          — when the cut into records makes no difference.
-/
import TlsMigration.Migration.Gateway

namespace TlsMigration.Migration

open TlsMigration.Tlspeek TlsMigration.Bench2 TlsMigration.Http

/-! ## §1. The client. -/

/-- `METHOD SP /function/<name> SP HTTP/1.1 CRLF`, and what follows it. -/
structure RoutedRequest where
  method : Bytes
  name : Bytes
  rest : Bytes
  method_plain : Ch.space ∉ method ∧ Ch.lf ∉ method
  name_ne : name ≠ []
  name_le : name.length ≤ 127
  name_plain : ∀ c ∈ name, endsName c = false ∧ c ≠ Ch.lf

namespace RoutedRequest

variable (q : RoutedRequest)

/-- The request line up to the end of the name. -/
def named : Bytes := q.method ++ Ch.space :: (functionPath ++ q.name)

def line : Bytes := q.named ++ Ch.space :: ascii "HTTP/1.1\r\n"

def bytes : Bytes := q.line ++ q.rest

end RoutedRequest

/-- A client after its handshake: its session, and the records it has cut its plaintext
into. -/
structure RecordClient where
  live : Live
  seq : Nat
  numbered : live.read_seq = seq.toUInt64
  q : RoutedRequest
  records : List Record
  spells : contents records = q.bytes
  fits : ∀ r ∈ records, r.Fits

/-- One call of `bench2gw_conn_step`: what `wolfSSL_accept` answers if it is asked, and how
many bytes of the records have arrived. -/
structure StepCall where
  accept : Accept
  arrived : Nat

variable {β : Type*} (wolf : WolfSession β) (W : WolfCrypt) (fd : Nat) (c : RecordClient)

namespace RecordClient

/-- The receive buffer. -/
def kernel (arrived : Nat) : Bytes := (c.live.secrets.wire W c.seq c.records).take arrived

/-- What the calls of one step return. -/
def calls (call : StepCall) : GwCalls β where
  accept := call.accept
  keys_ready := true
  ready := tls_record_ready (c.kernel W call.arrived)
  serial := some (export_live_serial wolf c.live)
  peek serial want := peekWith W fd serial (c.kernel W call.arrived) want

/-- Steps, until one of them decides. -/
def run (peek_buf_sz : Nat) (conn : GwConn) :
    List StepCall → GwConn × Int × Option (Payload (TlspeekSerial β) × Bytes)
  | [] => (conn, 0, none)
  | call :: rest =>
      let r := bench2gw_conn_step conn (c.calls wolf W fd call) peek_buf_sz
      if r.2.1 = 0 then run peek_buf_sz r.1 rest else r

/-- The records that carry the request line have arrived. -/
def LineArrived (arrived : Nat) : Prop :=
  ∃ k, (c.live.secrets.wire W c.seq (c.records.take k)).length ≤ arrived
    ∧ c.q.line.length ≤ (contents (c.records.take k)).length

/-- The answer that the request asks for. -/
def Routed (r : GwConn × Int × Option (Payload (TlspeekSerial β) × Bytes)) : Prop :=
  r.2.1 = 1 ∧ ∃ payload peeked, r.2.2 = some (payload, peeked)
    ∧ payload.target_function = Area.ofBytes _ c.q.name

/-- **Routing does not fail**: no run of a connection ends but with the request's function,
and one in which the handshake ends and the line arrives does end. -/
def Routes (peek_buf_sz : Nat) : Prop :=
  ∀ (conn : GwConn) (before : List StepCall) (call : StepCall) (after : List StepCall),
    conn.state = .handshake → (∀ d ∈ before ++ call :: after, d.accept ≠ .error) →
    (before ++ call :: after).Pairwise (fun d d' => d.arrived ≤ d'.arrived) →
    let r := c.run wolf W fd peek_buf_sz conn (before ++ call :: after)
    (r.2.1 = 0 ∨ c.Routed r)
      ∧ ((∃ d ∈ before ++ [call], d.accept = .success) → c.LineArrived W call.arrived →
          c.Routed r)

end RecordClient

/-! ## §2. The request line in the first record. -/

namespace RoutedRequest

variable {q : RoutedRequest}

/-- The name is shown once the blank behind it is. -/
theorem names_of_long {b rest : Bytes} (h : b ++ rest = q.bytes)
    (hlen : q.named.length + 1 ≤ b.length) : NamesFunction (requestLine b) q.name := by
  have hcut : b = q.named ++ [Ch.space] ++ b.drop (q.named.length + 1) := by
    have htake : b.take (q.named.length + 1) = q.named ++ [Ch.space] := by
      have hall : (b ++ rest).take (q.named.length + 1) = q.named ++ [Ch.space] := by
        have hsplit : q.bytes = q.named ++ [Ch.space] ++ (ascii "HTTP/1.1\r\n" ++ q.rest) := by
          simp [bytes, line]
        have hl : q.named.length + 1 = (q.named ++ [Ch.space]).length := by simp
        rw [h, hsplit, hl, List.take_left]
      rwa [List.take_append_of_le_length hlen] at hall
    rw [← htake, List.take_append_drop]
  have hplain : requestLine (q.named ++ [Ch.space]) = q.named ++ [Ch.space] := by
    unfold requestLine
    rw [List.takeWhile_eq_self_iff]
    intro x hx
    simp only [ne_eq, decide_eq_true_eq]
    rintro rfl
    simp only [named, List.append_assoc, List.cons_append, List.mem_append, List.mem_cons] at hx
    rcases hx with hx | hx | hx | hx | hx
    · exact q.method_plain.2 hx
    · exact absurd hx (by decide)
    · exact absurd hx (by decide)
    · exact (q.name_plain _ hx).2 rfl
    · rcases hx with hx | hx
      · exact absurd hx (by decide)
      · cases hx
  obtain ⟨more, hmore⟩ := requestLine_append (q.named ++ [Ch.space])
    (b.drop (q.named.length + 1))
  rw [hcut, hmore, hplain]
  refine NamesFunction.append ?_ more
  refine ⟨q.method, [], [], by simp [named], q.method_plain.1, q.name_ne,
    fun c hc => (q.name_plain c hc).1, by simp, by simp⟩

/-- Before that there are not the two blanks that a name stands between. -/
theorem names_none {b rest name : Bytes} (h : b ++ rest = q.bytes)
    (hlen : b.length ≤ q.named.length) : ¬ NamesFunction (requestLine b) name := by
  rintro ⟨method, more, tail, hline, -⟩
  have htwo : 2 ≤ b.count Ch.space := by
    have hle : (requestLine b).count Ch.space ≤ b.count Ch.space :=
      (List.takeWhile_sublist _).count_le _
    refine Nat.le_trans ?_ hle
    rw [hline]
    simp [List.count_append]
    omega
  have hone : q.named.count Ch.space = 1 := by
    have hname : q.name.count Ch.space = 0 :=
      List.count_eq_zero.mpr (space_notMem_name fun c hc => (q.name_plain c hc).1)
    have hmethod : q.method.count Ch.space = 0 := List.count_eq_zero.mpr q.method_plain.1
    have hpath : functionPath.count Ch.space = 0 := by decide
    simp [named, List.count_append, hname, hmethod, hpath]
  have hpart : b <+: q.named := by
    have hb : b <+: q.bytes := ⟨rest, h⟩
    have hn : q.named <+: q.bytes := ⟨Ch.space :: (ascii "HTTP/1.1\r\n" ++ q.rest), by
      simp [bytes, line]⟩
    exact List.prefix_of_prefix_length_le hb hn hlen
  have hcount := hpart.sublist.count_le Ch.space
  omega

end RoutedRequest

/-! ## §3. One step. -/

/-- The owner that a peek of the loop has found. -/
theorem progressiveLoop_some {peek : Nat → Option Bytes} {wants : List Nat}
    {owner peeked : Bytes} (h : progressiveLoop peek wants = some (owner, peeked)) :
    ∃ want ∈ wants, peek want = some peeked
      ∧ parse_request_owner peeked BENCH2_KA_TARGET_LEN = some owner := by
  induction wants with
  | nil => cases h
  | cons want wants ih =>
      have hlater : progressiveLoop peek wants = some (owner, peeked) →
          ∃ w ∈ want :: wants, peek w = some peeked
            ∧ parse_request_owner peeked BENCH2_KA_TARGET_LEN = some owner := by
        intro h
        obtain ⟨w, hw, hfound⟩ := ih h
        exact ⟨w, List.mem_cons_of_mem _ hw, hfound⟩
      unfold progressiveLoop at h
      split at h
      next => cases h
      next b hb =>
        split at h
        next => cases h
        next =>
          split at h
          next name hname =>
            injection h with h
            injection h with hn hp
            subst hn hp
            exact ⟨want, List.mem_cons_self, hb, hname⟩
          next => exact hlater h

/-- **The first record decides**: a loop of peeks at it finds the name that its content
shows, and no other. -/
theorem firstRecord_decides {peek : Nat → Option Bytes} {r : Record} {peek_buf_sz : Nat}
    (hsize : 0 < peek_buf_sz) (hpeek : ∀ want, 0 < want → peek want = some (r.peeked.take want)) :
    (∀ owner peeked, progressive_peek_owner peek peek_buf_sz = some (owner, peeked) →
        NamesFunction (requestLine r.content) owner)
      ∧ ∀ name, name.length ≤ 127 → NamesFunction (requestLine (r.content.take peek_buf_sz)) name →
        ∃ peeked, progressive_peek_owner peek peek_buf_sz = some (name, peeked) := by
  obtain ⟨hall, hlast⟩ := windows_spec peek_buf_sz (min 256 peek_buf_sz) (by omega)
    (by omega : min 256 peek_buf_sz ≤ peek_buf_sz) (by omega)
  have hshown : ∀ owner peeked, progressive_peek_owner peek peek_buf_sz = some (owner, peeked) →
      NamesFunction (requestLine r.content) owner := by
    intro owner peeked hfound
    obtain ⟨want, hwant, hp, hparse⟩ := progressiveLoop_some hfound
    rw [hpeek want (hall want hwant).1] at hp
    injection hp with hp
    rw [← hp] at hparse
    exact names_content_of_peeked (parse_request_owner_iff.mp hparse).1
  refine ⟨hshown, ?_⟩
  intro name hlen hnames
  have hlt : name.length < BENCH2_KA_TARGET_LEN := by
    unfold BENCH2_KA_TARGET_LEN
    omega
  have hloop := peekOwnerLoop_names hpeek hlt hnames _ hall hlast
  rw [← progressiveLoop_owner] at hloop
  obtain ⟨⟨owner, peeked⟩, hfound, -⟩ := Option.map_eq_some_iff.mp hloop
  -- the content shows one name only
  have hwhole : NamesFunction (requestLine r.content) name := by
    obtain ⟨more, hmore⟩ := requestLine_append (r.content.take peek_buf_sz)
      (r.content.drop peek_buf_sz)
    rw [List.take_append_drop] at hmore
    rw [hmore]
    exact hnames.append more
  have hone := (hshown owner peeked hfound).unique hwhole
  exact ⟨peeked, by rw [← hone]; exact hfound⟩

section Steps

variable {wolf : WolfSession β} {W : WolfCrypt} {fd : Nat} {c : RecordClient} {r : Record}
  {rs : List Record} {peek_buf_sz : Nat}

/-- The first record is there. -/
theorem kernel_whole (hrec : c.records = r :: rs) {arrived : Nat}
    (h : TLSPEEK_HEADER_SIZE + r.wireLen ≤ arrived) :
    ∃ rest, c.kernel W arrived = c.live.secrets.wire W c.seq [r] ++ rest := by
  have hlen : (c.live.secrets.wire W c.seq [r]).length = TLSPEEK_HEADER_SIZE + r.wireLen := by
    unfold Secrets.wire sealRecords sealRecords
    rw [List.append_nil, length_sealRecord]
  have hsplit : c.live.secrets.wire W c.seq (r :: rs)
      = c.live.secrets.wire W c.seq [r] ++ c.live.secrets.wire W (c.seq + 1) rs := by
    simp [Secrets.wire, sealRecords]
  refine ⟨(c.live.secrets.wire W (c.seq + 1) rs).take (arrived - (TLSPEEK_HEADER_SIZE + r.wireLen)), ?_⟩
  unfold RecordClient.kernel
  rw [hrec, hsplit, List.take_append, hlen, List.take_of_length_le (by omega)]

theorem fits_first (hrec : c.records = r :: rs) : r.Fits :=
  c.fits r (by rw [hrec]; exact List.mem_cons_self)

/-- Before that a step waits. -/
theorem connPeek_waits (wolf : WolfSession β) (W : WolfCrypt) (fd peek_buf_sz : Nat)
    (hrec : c.records = r :: rs) {call : StepCall} (conn : GwConn)
    (h : call.arrived < TLSPEEK_HEADER_SIZE + r.wireLen) :
    connPeek conn (c.calls wolf W fd call) peek_buf_sz
      = ({ conn with want_events := 1 }, 0, none) := by
  have hready : (c.calls wolf W fd call).ready = 0 := by
    show tls_record_ready (c.kernel W call.arrived) = 0
    unfold RecordClient.kernel
    rw [hrec]
    exact tls_record_ready_part W c.live.secrets c.seq (fits_first hrec) rs h
  unfold connPeek
  rw [hready, if_pos (Int.le_refl 0)]

/-- From then on it exports the session and peeks at that record. -/
theorem connPeek_whole (wolf : WolfSession β) (W : WolfCrypt) (fd : Nat)
    (hrec : c.records = r :: rs) {call : StepCall}
    (h : TLSPEEK_HEADER_SIZE + r.wireLen ≤ call.arrived) :
    (c.calls wolf W fd call).ready = 1
      ∧ ∀ want, 0 < want → (c.calls wolf W fd call).peek (export_live_serial wolf c.live) want
        = some (r.peeked.take want) := by
  obtain ⟨rest, hkernel⟩ := kernel_whole (W := W) hrec h
  have hfit := fits_first hrec
  constructor
  · show tls_record_ready (c.kernel W call.arrived) = 1
    rw [hkernel]
    exact tls_record_ready_record W c.live.secrets c.seq hfit [] rest
  · intro want hwant
    show peekWith W fd _ (c.kernel W call.arrived) want = _
    rw [hkernel]
    exact peekWith_export wolf W c.live.secrets c.seq hfit [] rest fd hwant rfl c.numbered

/-- It is routed by a record that reaches past the name. -/
theorem connPeek_routed (hrec : c.records = r :: rs) {call : StepCall} (conn : GwConn)
    (h : TLSPEEK_HEADER_SIZE + r.wireLen ≤ call.arrived)
    (hline : c.q.line.length ≤ peek_buf_sz) (hlong : c.q.named.length + 1 ≤ r.content.length) :
    c.Routed (connPeek conn (c.calls wolf W fd call) peek_buf_sz) := by
  obtain ⟨hready, hpeek⟩ := connPeek_whole wolf W fd hrec h
  have hshort : c.q.named.length + 1 ≤ c.q.line.length := by
    unfold RoutedRequest.line
    simp
  have hspells := c.spells
  rw [hrec, contents_cons] at hspells
  have hnames : NamesFunction (requestLine (r.content.take peek_buf_sz)) c.q.name := by
    have hsplit : r.content.take peek_buf_sz ++ (r.content.drop peek_buf_sz ++ contents rs)
        = c.q.bytes := by
      rw [← List.append_assoc, List.take_append_drop]
      exact hspells
    refine RoutedRequest.names_of_long hsplit ?_
    rw [List.length_take]
    omega
  obtain ⟨peeked, hfound⟩ := (firstRecord_decides (by omega) hpeek).2 c.q.name c.q.name_le hnames
  have hserial : (c.calls wolf W fd call).serial = some (export_live_serial wolf c.live) := rfl
  unfold connPeek
  rw [hready, if_neg (by decide), hserial]
  dsimp only
  rw [hfound]
  exact ⟨rfl, _, peeked, rfl, rfl⟩

/-- And refused by one that does not. -/
theorem connPeek_refused (hrec : c.records = r :: rs) {call : StepCall} (conn : GwConn)
    (h : TLSPEEK_HEADER_SIZE + r.wireLen ≤ call.arrived) (hsize : 0 < peek_buf_sz)
    (hshort : r.content.length ≤ c.q.named.length) :
    connPeek conn (c.calls wolf W fd call) peek_buf_sz = (conn, -1, none) := by
  obtain ⟨hready, hpeek⟩ := connPeek_whole wolf W fd hrec h
  have hspells := c.spells
  rw [hrec, contents_cons] at hspells
  have hserial : (c.calls wolf W fd call).serial = some (export_live_serial wolf c.live) := rfl
  unfold connPeek
  rw [hready, if_neg (by decide), hserial]
  dsimp only
  cases hfound : progressive_peek_owner
      ((c.calls wolf W fd call).peek (export_live_serial wolf c.live)) peek_buf_sz with
  | none => rfl
  | some found =>
      obtain ⟨owner, peeked⟩ := found
      have hnames := (firstRecord_decides hsize hpeek).1 owner peeked hfound
      exact absurd hnames (RoutedRequest.names_none hspells hshort)

/-- **One step** of a connection that has not been decided: it goes on waiting, for the
handshake or for the first record, or it routes the connection. -/
theorem step_waits_or_routes (wolf : WolfSession β) (W : WolfCrypt) (fd : Nat)
    (hrec : c.records = r :: rs) (hline : c.q.line.length ≤ peek_buf_sz)
    (hlong : c.q.named.length + 1 ≤ r.content.length) {conn : GwConn} {call : StepCall}
    (hst : conn.state ≠ .done) (hok : call.accept ≠ .error) :
    c.Routed (bench2gw_conn_step conn (c.calls wolf W fd call) peek_buf_sz)
      ∨ ((bench2gw_conn_step conn (c.calls wolf W fd call) peek_buf_sz).2.1 = 0
        ∧ ((conn.state = .handshake ∧ call.accept ≠ .success
            ∧ (bench2gw_conn_step conn (c.calls wolf W fd call) peek_buf_sz).1.state = .handshake)
          ∨ (call.arrived < TLSPEEK_HEADER_SIZE + r.wireLen
            ∧ (bench2gw_conn_step conn (c.calls wolf W fd call) peek_buf_sz).1.state = .peek))) := by
  have hsize : peek_buf_sz ≠ 0 := by
    unfold RoutedRequest.line at hline
    simp at hline
    omega
  -- what happens once the handshake is over
  have hpeeks : ∀ conn : GwConn, conn.state = .peek →
      c.Routed (connPeek conn (c.calls wolf W fd call) peek_buf_sz)
        ∨ ((connPeek conn (c.calls wolf W fd call) peek_buf_sz).2.1 = 0
          ∧ call.arrived < TLSPEEK_HEADER_SIZE + r.wireLen
          ∧ (connPeek conn (c.calls wolf W fd call) peek_buf_sz).1.state = .peek) := by
    intro conn hconn
    by_cases harr : TLSPEEK_HEADER_SIZE + r.wireLen ≤ call.arrived
    · exact Or.inl (connPeek_routed hrec conn harr hline hlong)
    · have hwait := connPeek_waits wolf W fd peek_buf_sz hrec conn
        (by omega : call.arrived < TLSPEEK_HEADER_SIZE + r.wireLen)
      rw [hwait]
      exact Or.inr ⟨rfl, by omega, hconn⟩
  unfold bench2gw_conn_step
  rw [if_neg hsize]
  cases hstate : conn.state with
  | done => exact absurd hstate hst
  | peek =>
      dsimp only
      rcases hpeeks conn hstate with h | ⟨h, harr, hnext⟩
      · exact Or.inl h
      · exact Or.inr ⟨h, Or.inr ⟨harr, hnext⟩⟩
  | handshake =>
      have haccept : (c.calls wolf W fd call).accept = call.accept := rfl
      dsimp only
      rw [haccept]
      cases hacc : call.accept with
      | error => exact absurd hacc hok
      | want_read => exact Or.inr ⟨rfl, Or.inl ⟨rfl, by simp, rfl⟩⟩
      | want_write => exact Or.inr ⟨rfl, Or.inl ⟨rfl, by simp, rfl⟩⟩
      | success =>
          have hkeys : ¬ (c.calls wolf W fd call).keys_ready = false := by
            show ¬ true = false
            decide
          dsimp only
          rw [if_neg hkeys]
          rcases hpeeks { conn with state := .peek, want_events := 1 } rfl with h | ⟨h, harr, hnext⟩
          · exact Or.inl h
          · exact Or.inr ⟨h, Or.inr ⟨harr, hnext⟩⟩

/-! ## §4. Runs. -/

/-- **A run** goes on waiting or routes the connection. -/
theorem run_waits_or_routes (hrec : c.records = r :: rs) (hline : c.q.line.length ≤ peek_buf_sz)
    (hlong : c.q.named.length + 1 ≤ r.content.length) (calls : List StepCall) :
    ∀ conn : GwConn, conn.state ≠ .done → (∀ d ∈ calls, d.accept ≠ .error) →
      (c.run wolf W fd peek_buf_sz conn calls).2.1 = 0
        ∨ c.Routed (c.run wolf W fd peek_buf_sz conn calls) := by
  induction calls with
  | nil => exact fun _ _ _ => Or.inl rfl
  | cons call calls ih =>
      intro conn hst hok
      have hstep := step_waits_or_routes wolf W fd hrec hline hlong hst
        (hok call List.mem_cons_self)
      unfold RecordClient.run
      dsimp only
      rcases hstep with h | ⟨hzero, hnext⟩
      · rw [if_neg (by rw [h.1]; decide)]
        exact Or.inr h
      · rw [if_pos hzero]
        refine ih _ ?_ fun d hd => hok d (List.mem_cons_of_mem _ hd)
        rcases hnext with ⟨-, -, h⟩ | ⟨-, h⟩ <;> rw [h] <;> decide

/-- **A run in which the handshake ends and the first record arrives** routes it. -/
theorem run_routes (hrec : c.records = r :: rs) (hline : c.q.line.length ≤ peek_buf_sz)
    (hlong : c.q.named.length + 1 ≤ r.content.length) {call : StepCall} (after : List StepCall)
    (harr : TLSPEEK_HEADER_SIZE + r.wireLen ≤ call.arrived) (before : List StepCall) :
    ∀ conn : GwConn, conn.state ≠ .done →
      (∀ d ∈ before ++ call :: after, d.accept ≠ .error) →
      (conn.state = .peek ∨ ∃ d ∈ before ++ [call], d.accept = .success) →
      c.Routed (c.run wolf W fd peek_buf_sz conn (before ++ call :: after)) := by
  induction before with
  | nil =>
      intro conn hst hok hdone
      have hstep := step_waits_or_routes wolf W fd hrec hline hlong hst
        (hok call List.mem_cons_self)
      show c.Routed (c.run wolf W fd peek_buf_sz conn (call :: after))
      unfold RecordClient.run
      dsimp only
      rcases hstep with h | ⟨-, ⟨hshake, hacc, -⟩ | ⟨hlate, -⟩⟩
      · rw [if_neg (by rw [h.1]; decide)]
        exact h
      · -- the handshake ends with this call
        rcases hdone with hpeek | ⟨d, hd, hsucc⟩
        · rw [hpeek] at hshake
          cases hshake
        · have he : d = call := by simpa using hd
          rw [he] at hsucc
          exact absurd hsucc hacc
      · omega
  | cons first before ih =>
      intro conn hst hok hdone
      have hstep := step_waits_or_routes wolf W fd hrec hline hlong hst
        (hok first List.mem_cons_self)
      show c.Routed (c.run wolf W fd peek_buf_sz conn (first :: (before ++ call :: after)))
      unfold RecordClient.run
      dsimp only
      rcases hstep with h | ⟨hzero, hnext⟩
      · rw [if_neg (by rw [h.1]; decide)]
        exact h
      · rw [if_pos hzero]
        have hrest : ∀ d ∈ before ++ call :: after, d.accept ≠ .error :=
          fun d hd => hok d (List.mem_cons_of_mem _ hd)
        rcases hnext with ⟨hshake, hacc, hstate⟩ | ⟨-, hstate⟩
        · refine ih _ (by rw [hstate]; decide) hrest (Or.inr ?_)
          rcases hdone with hpeek | ⟨d, hd, hsucc⟩
          · rw [hpeek] at hshake
            cases hshake
          · rcases List.mem_cons.mp hd with he | hd
            · rw [he] at hsucc
              exact absurd hsucc hacc
            · exact ⟨d, hd, hsucc⟩
        · exact ih _ (by rw [hstate]; decide) hrest (Or.inl hstate)

end Steps

/-- A request has a first record. -/
theorem RecordClient.exists_first (c : RecordClient) : ∃ r rs, c.records = r :: rs := by
  cases hrec : c.records with
  | nil =>
      have hspells := c.spells
      rw [hrec] at hspells
      simp [RoutedRequest.bytes, RoutedRequest.line] at hspells
  | cons r rs => exact ⟨r, rs, rfl⟩

/-- The line has not arrived before the first record. -/
theorem RecordClient.LineArrived.first {W : WolfCrypt} {c : RecordClient} {r : Record}
    {rs : List Record} {arrived : Nat} (h : c.LineArrived W arrived) (hrec : c.records = r :: rs) :
    TLSPEEK_HEADER_SIZE + r.wireLen ≤ arrived := by
  obtain ⟨k, hwire, hline⟩ := h
  cases k with
  | zero =>
      simp [RoutedRequest.line] at hline
  | succ k =>
      refine Nat.le_trans ?_ hwire
      rw [hrec, List.take_succ_cons]
      unfold Secrets.wire sealRecords
      rw [List.length_append, length_sealRecord]
      exact Nat.le_add_right _ _

/-- **Routing does not depend on the borders of records** exactly when the first record
carries the request line up to the blank behind the function's name. -/
theorem routes_iff (wolf : WolfSession β) (W : WolfCrypt) (fd : Nat) (c : RecordClient)
    (peek_buf_sz : Nat) (hline : c.q.line.length ≤ peek_buf_sz) :
    c.Routes wolf W fd peek_buf_sz
      ↔ ∀ r ∈ c.records.head?, c.q.named.length + 1 ≤ r.content.length := by
  obtain ⟨r, rs, hrec⟩ := c.exists_first
  have hhead : (∀ r ∈ c.records.head?, c.q.named.length + 1 ≤ r.content.length)
      ↔ c.q.named.length + 1 ≤ r.content.length := by
    rw [hrec]
    simp
  rw [hhead]
  constructor
  · intro h
    by_contra hshort
    have hsize : 0 < peek_buf_sz := by
      unfold RoutedRequest.line at hline
      simp at hline
      omega
    -- the handshake ends, and all records are there
    let call : StepCall := ⟨.success, TLSPEEK_HEADER_SIZE + r.wireLen⟩
    let conn : GwConn := ⟨fd, c.live, .handshake, 1⟩
    have hrun := (h conn [] call [] rfl (by simp [call]) (by simp)).1
    have hrefused : (c.run wolf W fd peek_buf_sz conn ([] ++ [call])).2.1 = -1 := by
      have hstep : bench2gw_conn_step conn (c.calls wolf W fd call) peek_buf_sz
          = ({ conn with state := .peek, want_events := 1 }, -1, none) := by
        unfold bench2gw_conn_step
        rw [if_neg (by omega)]
        exact connPeek_refused hrec _ (Nat.le_refl _) hsize (by omega)
      show (c.run wolf W fd peek_buf_sz conn [call]).2.1 = -1
      unfold RecordClient.run
      dsimp only
      rw [hstep]
      rfl
    rcases hrun with hrun | ⟨hrun, -⟩
    · rw [hrefused] at hrun
      cases hrun
    · rw [hrefused] at hrun
      cases hrun
  · intro hlong conn before call after hst hok _
    have hne : conn.state ≠ .done := by
      rw [hst]
      decide
    refine ⟨run_waits_or_routes hrec hline hlong _ conn hne hok, ?_⟩
    intro hsucc harr
    exact run_routes hrec hline hlong after (harr.first hrec) before conn hne hok (Or.inr hsucc)

/-! ### Two clients -/

def sumRequest : RoutedRequest where
  method := ascii "POST"
  name := ascii "sum"
  rest := ascii "Content-Length: 0\r\n\r\n"
  method_plain := by decide +kernel
  name_ne := by decide
  name_le := by decide
  name_plain := by decide +kernel

/-- The request in two records, cut at `n`. -/
def cutClient (n : Nat) : RecordClient where
  live := ⟨zeroSecrets, 0, 0⟩
  seq := 0
  numbered := rfl
  q := sumRequest
  records := [⟨sumRequest.bytes.take n, 0⟩, ⟨sumRequest.bytes.drop n, 0⟩]
  spells := by simp
  fits := by
    have hlen : sumRequest.bytes.length ≤ 100 := by decide +kernel
    intro r hr
    unfold Record.Fits
    rw [Record.length_inner]
    rcases List.mem_cons.mp hr with rfl | hr
    · simp only [List.length_take, TLSPEEK_MAX_RECORD]
      omega
    · rcases List.mem_cons.mp hr with rfl | hr
      · simp only [List.length_drop, TLSPEEK_MAX_RECORD]
        omega
      · cases hr

theorem routes_iff_behind_name : (cutClient 19).Routes plainSession plainCrypt 7 4096 := by
  refine (routes_iff plainSession plainCrypt 7 (cutClient 19) 4096 (by decide +kernel)).mpr ?_
  intro r hr
  have he : r = ⟨sumRequest.bytes.take 19, 0⟩ := by
    simpa [cutClient, eq_comm] using hr
  subst he
  decide +kernel

/-- A cut in front of the name: the whole request is there, and the step refuses it. -/
theorem routing_refused :
    (cutClient 15).LineArrived plainCrypt 200
      ∧ (bench2gw_conn_step ⟨7, (cutClient 15).live, .handshake, 1⟩
        ((cutClient 15).calls plainSession plainCrypt 7 ⟨.success, 200⟩) 4096).2.1 = -1
      ∧ ¬ (cutClient 15).Routes plainSession plainCrypt 7 4096 := by
  have harr : (cutClient 15).LineArrived plainCrypt 200 := ⟨2, by decide +kernel, by decide +kernel⟩
  have hstep : (bench2gw_conn_step ⟨7, (cutClient 15).live, .handshake, 1⟩
      ((cutClient 15).calls plainSession plainCrypt 7 ⟨.success, 200⟩) 4096).2.1 = -1 := by
    decide +kernel
  refine ⟨harr, hstep, fun h => ?_⟩
  have hrouted := (h ⟨7, (cutClient 15).live, .handshake, 1⟩ [] ⟨.success, 200⟩ [] rfl (by simp)
    (by simp)).2 ⟨_, List.mem_cons_self, rfl⟩ harr
  have hone := hrouted.1
  unfold RecordClient.run at hone
  dsimp only [List.nil_append] at hone
  rw [hstep, if_neg (by decide), hstep] at hone
  cases hone

end TlsMigration.Migration
