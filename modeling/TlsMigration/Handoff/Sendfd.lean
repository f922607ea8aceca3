/-
  TlsMigration.Handoff.Sendfd
  ───────────────────────────
  **THE BLOCKING HANDOFF** (libtlspeek/common/sendfd.c and the inline receive
  of libtlspeek/worker/worker.c).

  Both ends make ONE system call and take any positive byte count for
  success.  `recvfd_roundTrip_iff` and `worker_roundTrip_iff` say exactly
  which counts carry the whole payload across.
-/
import TlsMigration.Handoff.UnixStream

namespace TlsMigration.Handoff

/-! ## §1. The model. -/

/-- Result of `sendfd_with_state`: its return value, the stream, and whether it
closed the sender's copy of the descriptor. -/
structure SendOutcome where
  rc : Int
  stream : UnixStream
  closed : Bool

/-- `sendfd_with_state` on a fresh connection; `sent` is what `sendmsg` returns,
`none` for `-1`. -/
def sendfd_with_state (fd_to_send : Fd) (payload : Bytes) (sent : Option Nat) : SendOutcome :=
  match sent with
  | none => ⟨-1, .empty, false⟩
  | some k => ⟨0, ⟨payload.take k, [fd_to_send]⟩, true⟩

/-- `recvfd_with_state`: return value, `*received_fd`, and the payload buffer. -/
def recvfd_with_state {n : Nat} (payload : Area n) (r : RecvResult) :
    Int × Option Fd × Area n :=
  match r with
  | .error => (-1, none, payload)
  | .data bytes ctrunc cmsg =>
      if bytes.length = 0 then (-1, none, payload)
      else
        let payload := payload.write bytes
        if ctrunc then (-1, none, payload)
        else
          match cmsg with
          | none => (-1, none, payload)
          | some c =>
              match c.scm_rights, c.fds with
              | true, [fd] => (0, some fd, payload)
              | _, _ => (-1, none, payload)

/-- What the worker's main loop does with one accepted connection. -/
inductive FirstMessage (n : Nat) where
  /-- `n <= 0`: the connection is closed. -/
  | dropped
  /-- SCM_RIGHTS came along: `tlspeek_restore` gets this struct. -/
  | migration (client_fd : Fd) (serial : Area n)
  /-- No descriptor: the bytes are taken for a plain HTTP request. -/
  | plain (request : Bytes)
  deriving DecidableEq

/-- The inline receive of the worker: `memset` of the struct, one `recvmsg`, and
the type of the first control message. -/
def worker_receive (n : Nat) (r : RecvResult) : FirstMessage n :=
  match r with
  | .error => .dropped
  | .data bytes _ cmsg =>
      if bytes.length = 0 then .dropped
      else
        match cmsg with
        | some ⟨true, fd :: _⟩ => .migration fd ((Area.zero n).write bytes)
        | _ => .plain bytes

/-! ## §2. What a receive leaves in the buffer. -/

/-- The queue one successful send leaves. -/
theorem sendfd_stream (fd : Fd) (payload : Bytes) (k : Nat) :
    (sendfd_with_state fd payload (some k)).stream = ⟨payload.take k, [fd]⟩ := rfl

/-- Writing the first `m` bytes of the payload gives the payload exactly when the
buffer holds the rest of it already. -/
theorem write_take_eq_iff {n m : Nat} (buf payload : Area n) (hm : m ≤ n) :
    buf.write (payload.bytes.take m) = payload
      ↔ payload.bytes.drop m = buf.bytes.drop m := by
  have hlen : (payload.bytes.take m).length = m := by simp [hm]
  have hsplit : payload.bytes.take m ++ payload.bytes.drop m = payload.bytes :=
    List.take_append_drop _ _
  have hw : (buf.write (payload.bytes.take m)).bytes
      = payload.bytes.take m ++ buf.bytes.drop m := by
    rw [Area.write_bytes, List.take_of_length_le (by omega), hlen]
  constructor
  · intro h
    have h := congrArg Area.bytes h
    rw [hw] at h
    exact (List.append_cancel_left (h.trans hsplit.symm)).symm
  · intro h
    apply Area.ext
    rw [hw, ← h, hsplit]

/-! ## §3. The round trip. -/

/-- The claim made of one transfer: if both calls return 0, the whole buffer is the
payload and exactly the descriptor that was sent arrived. -/
def RecvfdRoundTrip {n : Nat} (fd : Fd) (payload : Area n) (sent : Option Nat)
    (buf : Area n) (r : RecvResult) : Prop :=
  (sendfd_with_state fd payload.bytes sent).rc = 0 → (recvfd_with_state buf r).1 = 0 →
    (recvfd_with_state buf r).2 = (some fd, payload)

/-- The same for the inline receive: if it proceeds to `tlspeek_restore`, it does so
with the descriptor and the struct that were sent. -/
def WorkerRoundTrip {n : Nat} (fd : Fd) (payload : Area n) (sent : Option Nat)
    (r : RecvResult) : Prop :=
  (sendfd_with_state fd payload.bytes sent).rc = 0 →
    ∀ client_fd serial, worker_receive n r = .migration client_fd serial →
      client_fd = fd ∧ serial = payload

/-- The bytes behind the received ones are in the buffer already. -/
def RestInPlace {n : Nat} (payload buf : Area n) (r : RecvResult) : Prop :=
  r.count = 0 ∨ payload.bytes.drop r.count = buf.bytes.drop r.count

instance {n : Nat} (payload buf : Area n) (r : RecvResult) :
    Decidable (RestInPlace payload buf r) := inferInstanceAs (Decidable (_ ∨ _))

section RoundTrip

variable {n : Nat} {fd : Fd} {payload buf : Area n} {sent : Option Nat} {r : RecvResult}

/-- What can be received after a send of `k` bytes: an error, or a first part of
the payload together with the descriptor. -/
theorem recv_cases {k : Nat} (hk : 0 < k) (hkn : k ≤ n)
    (h : (sendfd_with_state fd payload.bytes (some k)).stream.Recv n r) :
    r = .error ∨ ∃ m, 0 < m ∧ m ≤ k
      ∧ r = .data (payload.bytes.take m) false (some ⟨true, [fd]⟩) := by
  rw [sendfd_stream] at h
  cases h with
  | error => exact Or.inl rfl
  | eof hnil =>
      exfalso
      have := congrArg List.length hnil
      simp at this
      omega
  | data m hm _ hmq =>
      right
      have hmk : m ≤ k := by
        simp at hmq
        omega
      refine ⟨m, hm, hmk, ?_⟩
      simp [rightsCmsg, List.take_take, Nat.min_eq_left hmk]

/-- The receive of `m > 0` payload bytes with the descriptor succeeds. -/
theorem recvfd_with_state_data {bytes : Bytes} (h : bytes ≠ []) :
    recvfd_with_state buf (.data bytes false (some ⟨true, [fd]⟩))
      = (0, some fd, buf.write bytes) := by
  have hpos : ¬ bytes.length = 0 := by simpa using h
  simp only [recvfd_with_state, hpos, if_false, Bool.false_eq_true]

theorem worker_receive_data {bytes : Bytes} (h : bytes ≠ []) :
    worker_receive n (.data bytes false (some ⟨true, [fd]⟩))
      = .migration fd ((Area.zero n).write bytes) := by
  have hpos : ¬ bytes.length = 0 := by simpa using h
  simp only [worker_receive, hpos, if_false]

theorem take_ne_nil {m : Nat} (hm : 0 < m) (hmn : m ≤ n) : payload.bytes.take m ≠ [] := by
  intro h
  have := congrArg List.length h
  simp at this
  omega

theorem restInPlace_data {m : Nat} (hm : 0 < m) (hmn : m ≤ n) (c : Option Cmsg) :
    RestInPlace payload buf (.data (payload.bytes.take m) false c)
      ↔ buf.write (payload.bytes.take m) = payload := by
  have hcount : (RecvResult.data (payload.bytes.take m) false c).count = m := by
    simp [RecvResult.count, hmn]
  rw [write_take_eq_iff buf payload hmn, RestInPlace, hcount]
  constructor
  · rintro (h | h)
    · omega
    · exact h
  · exact Or.inr

theorem recvfd_iff (hsent : ∀ k, sent = some k → 0 < k ∧ k ≤ n)
    (hr : (sendfd_with_state fd payload.bytes sent).stream.Recv n r) :
    RecvfdRoundTrip fd payload sent buf r ↔ sent = none ∨ RestInPlace payload buf r := by
  cases sent with
  | none => simp [RecvfdRoundTrip, sendfd_with_state]
  | some k =>
      obtain ⟨hk, hkn⟩ := hsent k rfl
      rcases recv_cases hk hkn hr with rfl | ⟨m, hm, hmk, rfl⟩
      · simp [RecvfdRoundTrip, recvfd_with_state, RestInPlace, RecvResult.count]
      · have hmn : m ≤ n := by omega
        rw [restInPlace_data hm hmn, RecvfdRoundTrip,
            recvfd_with_state_data (take_ne_nil hm hmn)]
        simp [sendfd_with_state]

theorem worker_iff (hsent : ∀ k, sent = some k → 0 < k ∧ k ≤ n)
    (hr : (sendfd_with_state fd payload.bytes sent).stream.Recv n r) :
    WorkerRoundTrip fd payload sent r ↔ sent = none ∨ RestInPlace payload (Area.zero n) r := by
  cases sent with
  | none => simp [WorkerRoundTrip, sendfd_with_state]
  | some k =>
      obtain ⟨hk, hkn⟩ := hsent k rfl
      rcases recv_cases hk hkn hr with rfl | ⟨m, hm, hmk, rfl⟩
      · simp [WorkerRoundTrip, worker_receive, RestInPlace, RecvResult.count]
      · have hmn : m ≤ n := by omega
        rw [restInPlace_data hm hmn, WorkerRoundTrip,
            worker_receive_data (take_ne_nil hm hmn)]
        simp [sendfd_with_state]

/-- **The blocking handoff carries the payload across exactly when the receive ends
where the payload does** (or the bytes behind it were in the buffer already; the
inline receive starts from a zeroed buffer): for every payload, every count that
`sendmsg` accepts and everything `recvmsg` may then return. -/
theorem handoff_roundTrip_iff (hsent : ∀ k, sent = some k → 0 < k ∧ k ≤ n)
    (hr : (sendfd_with_state fd payload.bytes sent).stream.Recv n r) :
    (RecvfdRoundTrip fd payload sent buf r ↔ sent = none ∨ RestInPlace payload buf r)
      ∧ (WorkerRoundTrip fd payload sent r
          ↔ sent = none ∨ RestInPlace payload (Area.zero n) r) :=
  ⟨recvfd_iff hsent hr, worker_iff hsent hr⟩

end RoundTrip

/-- All three bytes of a payload are taken and come in one receive. -/
theorem handoff_roundTrip_complete :
    RecvfdRoundTrip 5 (Area.ofBytes 3 [1, 2, 3]) (some 3) (Area.zero 3)
        (.data [1, 2, 3] false (some ⟨true, [5]⟩))
      ∧ WorkerRoundTrip 5 (Area.ofBytes 3 [1, 2, 3]) (some 3)
        (.data [1, 2, 3] false (some ⟨true, [5]⟩)) := by
  have hsent : ∀ k, some 3 = some k → 0 < k ∧ k ≤ 3 := by simp
  have hr : (sendfd_with_state 5 (Area.ofBytes 3 [1, 2, 3]).bytes (some 3)).stream.Recv 3
      (.data [1, 2, 3] false (some ⟨true, [5]⟩)) := .data 3 (by decide) (by decide) (by decide)
  have hrest : RestInPlace (Area.ofBytes 3 [1, 2, 3]) (Area.zero 3)
      (.data [1, 2, 3] false (some ⟨true, [5]⟩)) := by decide
  exact (handoff_roundTrip_iff hsent hr).imp (fun h => h.mpr (Or.inr hrest))
    (fun h => h.mpr (Or.inr hrest))

/-- `sendmsg` takes two of three bytes: both ends return 0, and the receiver's last
byte is its own. -/
theorem handoff_short_send :
    (sendfd_with_state 5 [1, 2, 3] (some 2)).rc = 0
      ∧ (recvfd_with_state (Area.zero 3) (.data [1, 2] false (some ⟨true, [5]⟩)))
        = (0, some 5, Area.ofBytes 3 [1, 2, 0])
      ∧ worker_receive 3 (.data [1, 2] false (some ⟨true, [5]⟩))
        = .migration 5 (Area.ofBytes 3 [1, 2, 0])
      ∧ ¬ RecvfdRoundTrip 5 (Area.ofBytes 3 [1, 2, 3]) (some 2) (Area.zero 3)
        (.data [1, 2] false (some ⟨true, [5]⟩))
      ∧ ¬ WorkerRoundTrip 5 (Area.ofBytes 3 [1, 2, 3]) (some 2)
        (.data [1, 2] false (some ⟨true, [5]⟩)) := by
  refine ⟨by decide, by decide, by decide, ?_, ?_⟩
  · intro h
    exact absurd (h (by decide) (by decide)) (by decide)
  · intro h
    exact absurd (h (by decide) 5 ((Area.zero 3).write [1, 2]) (by decide)).2 (by decide)

end TlsMigration.Handoff
