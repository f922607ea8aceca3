/-
  TlsMigration.MemIo.Transport
  ────────────────────────────
  **THE IN-MEMORY TRANSPORT OF THE DECRYPTION BENCHMARK**
  (micro-bench-tls-decryption-cost/bench_tls_decrypt_memio.c).

  A queue is a block that grows by doubling: a push copies behind `len`, a pop
  copies from the front and moves the rest down.  Two of them connect the TLS
  peers.  Copies are checked, sizes are those of a `size_t`, and every
  allocation may fail.

    • `reserveLoop_cases`         — the doubling ends and does not wrap;
    • `queue_push_spec`, `queue_pop_spec` — one call on a queue in order;
    • `queue_is_fifo`             — every run of calls on a queue;
    • `transport_is_two_streams`  — every run of the callbacks of both peers.
-/
import Mathlib.Logic.Relation
import TlsMigration.Lib.Doubling
import TlsMigration.Lib.Fifo
import TlsMigration.Lib.Memory

namespace TlsMigration.MemIo

/-! ## §1. The queue. -/

/-- `memio_queue_t` -/
structure Queue where
  data : Bytes
  len : Nat
  cap : Nat
  deriving DecidableEq

/-- An allocation may fail; new memory holds anything. -/
structure Alloc where
  ok : Bool
  fresh : Nat → UInt8

def SIZE_MAX : Nat := 2 ^ 64 - 1

/-- `queue_init`; `none` for -1. -/
def queue_init (a : Alloc) (cap : Nat) : Option Queue :=
  if a.ok then some ⟨reallocBlock [] cap a.fresh, 0, cap⟩ else none

/-- The loop of `queue_reserve`, for a number of turns. -/
def reserveLoop (len additional : Nat) : Nat → Nat → Room
  | 0, _ => .spins
  | turns + 1, new_cap =>
      if subSize new_cap len < additional then
        if SIZE_MAX / 2 < new_cap then .failed
        else reserveLoop len additional turns (new_cap * 2 % 2 ^ 64)
      else .room new_cap

/-- The capacity that the loop starts with. -/
def Queue.startCap (queue : Queue) : Nat := if queue.cap = 0 then 4096 else queue.cap

/-- `queue_reserve`; `none` if the loop does not end. -/
def queue_reserve (a : Alloc) (queue : Queue) (additional : Nat) : Option (Int × Queue) :=
  if additional ≤ subSize queue.cap queue.len then some (0, queue)
  else
    match reserveLoop queue.len additional 65 queue.startCap with
    | .spins => none
    | .failed => some (-1, queue)
    | .room new_cap =>
        if a.ok then
          some (0, { queue with data := reallocBlock queue.data new_cap a.fresh, cap := new_cap })
        else some (-1, queue)

/-- `queue_push`; `none` if it does not end or leaves a block. -/
def queue_push (a : Alloc) (queue : Queue) (data : Bytes) (sz : Int) : Option (Int × Queue) :=
  if sz < 0 then some (-1, queue)
  else
    (queue_reserve a queue (castSize sz)).bind fun (rc, queue) =>
      if rc ≠ 0 then some (-1, queue)
      else
        (loadAt data 0 (castSize sz)).bind fun src =>
        (storeAt queue.data queue.len src).map fun block =>
          (0, { queue with data := block, len := (queue.len + castSize sz) % 2 ^ 64 })

/-- `queue_pop`: what it returns, what it copies to `data`, and the queue. -/
def queue_pop (queue : Queue) (sz : Int) : Option (Int × Bytes × Queue) :=
  if queue.len = 0 then some (0, [], queue)
  else
    let read_sz := castInt (if castSize sz < queue.len then castSize sz else queue.len)
    if queue.len < castSize read_sz then some (-1, [], queue)
    else
      (loadAt queue.data 0 (castSize read_sz)).bind fun out =>
      (loadAt queue.data (castSize read_sz) (queue.len - castSize read_sz)).bind fun rest =>
      (storeAt queue.data 0 rest).map fun block =>
        (read_sz, out, { queue with data := block, len := queue.len - castSize read_sz })

/-! ## §2. The doubling. -/

/-- One turn of the loop. -/
def ReserveTurn (len additional new_cap new_cap' : Nat) : Prop :=
  subSize new_cap len < additional ∧ ¬ SIZE_MAX / 2 < new_cap ∧ new_cap' = new_cap * 2 % 2 ^ 64

/-- The guard is what keeps a turn from wrapping. -/
theorem ReserveTurn.eq {len additional c c' : Nat} (h : ReserveTurn len additional c c') :
    c' = c * 2 ∧ c * 2 < 2 ^ 64 := by
  obtain ⟨_, hguard, rfl⟩ := h
  unfold SIZE_MAX at hguard
  omega

/-- The capacities on the way are sizes that hold what is queued. -/
theorem reserveTurns_bounds {len additional start c : Nat} (hlen : len ≤ start)
    (hstart : start < 2 ^ 64) (h : Relation.ReflTransGen (ReserveTurn len additional) start c) :
    len ≤ c ∧ c < 2 ^ 64 := by
  induction h with
  | refl => exact ⟨hlen, hstart⟩
  | tail _ hturn ih =>
      obtain ⟨rfl, hlt⟩ := hturn.eq
      omega

/-- **The loop ends**: at the guard, or with room for what is to be added.  Each turn doubles, so
the capacity reaches 2⁶⁴ within as many turns as it takes. -/
theorem reserveLoop_cases {len additional : Nat} : ∀ (turns new_cap : Nat), len ≤ new_cap →
    new_cap < 2 ^ 64 → 2 ^ 64 ≤ new_cap * 2 ^ turns →
      reserveLoop len additional (turns + 1) new_cap = .failed
        ∨ ∃ c, reserveLoop len additional (turns + 1) new_cap = .room c
          ∧ new_cap ≤ c ∧ c < 2 ^ 64 ∧ additional ≤ c - len := by
  intro turns
  induction turns with
  | zero =>
      intro new_cap _ hlt hturns
      omega
  | succ turns ih =>
      intro new_cap hlen hlt hturns
      unfold reserveLoop
      rw [subSize_eq hlen hlt]
      by_cases hmore : new_cap - len < additional
      · rw [if_pos hmore]
        by_cases hguard : SIZE_MAX / 2 < new_cap
        · rw [if_pos hguard]
          exact Or.inl rfl
        · rw [if_neg hguard]
          unfold SIZE_MAX at hguard
          have hwrap : new_cap * 2 % 2 ^ 64 = new_cap * 2 := Nat.mod_eq_of_lt (by omega)
          rw [hwrap]
          have hnext : 2 ^ 64 ≤ new_cap * 2 * 2 ^ turns := by
            calc 2 ^ 64 ≤ new_cap * 2 ^ (turns + 1) := hturns
              _ = new_cap * 2 * 2 ^ turns := by rw [Nat.pow_succ', Nat.mul_assoc]
          rcases ih (new_cap * 2) (by omega) (by omega) hnext with hfail | ⟨c, hc, hle, hroom⟩
          · exact Or.inl hfail
          · exact Or.inr ⟨c, hc, by omega, hroom⟩
      · rw [if_neg hmore]
        exact Or.inr ⟨new_cap, rfl, Nat.le_refl _, hlt, by omega⟩

/-! ## §3. One call. -/

/-- What is queued. -/
def Queue.held (queue : Queue) : Bytes := queue.data.take queue.len

/-- The fields are in order. -/
structure Queue.Ok (queue : Queue) : Prop where
  size : queue.data.length = queue.cap
  len_le : queue.len ≤ queue.cap
  cap_lt : queue.cap < 2 ^ 64

section Calls

variable {queue : Queue}

theorem Queue.Ok.init {a : Alloc} {cap : Nat} (hcap : cap < 2 ^ 64)
    (h : queue_init a cap = some queue) : queue.Ok ∧ queue.held = [] := by
  obtain ⟨-, h⟩ := Option.ite_none_right_eq_some.mp h
  obtain rfl := Option.some.inj h
  exact ⟨⟨length_reallocBlock a.fresh (Nat.zero_le cap), Nat.zero_le _, hcap⟩, List.take_zero⟩

theorem Queue.Ok.length_held (h : queue.Ok) : queue.held.length = queue.len := by
  have hsize := h.size
  have hle := h.len_le
  unfold Queue.held
  rw [List.length_take]
  omega

theorem Queue.Ok.startCap (h : queue.Ok) :
    queue.len ≤ queue.startCap ∧ 0 < queue.startCap ∧ queue.startCap < 2 ^ 64
      ∧ queue.cap ≤ queue.startCap := by
  have hle := h.len_le
  have hlt := h.cap_lt
  unfold Queue.startCap
  split <;> omega

/-- The 65 turns of the model are enough. -/
theorem Queue.Ok.loop_cases (h : queue.Ok) (additional : Nat) :
    reserveLoop queue.len additional 65 queue.startCap = .failed
      ∨ ∃ c, reserveLoop queue.len additional 65 queue.startCap = .room c
        ∧ queue.cap ≤ c ∧ c < 2 ^ 64 ∧ additional ≤ c - queue.len := by
  obtain ⟨hstart, hpos, hlt, hcap⟩ := h.startCap
  have hcases : reserveLoop queue.len additional 65 queue.startCap = .failed
      ∨ ∃ c, reserveLoop queue.len additional 65 queue.startCap = .room c
        ∧ queue.startCap ≤ c ∧ c < 2 ^ 64 ∧ additional ≤ c - queue.len :=
    reserveLoop_cases 64 queue.startCap hstart hlt (by omega)
  rcases hcases with hfail | ⟨c, hc, hle, hclt, hroom⟩
  · exact Or.inl hfail
  · exact Or.inr ⟨c, hc, Nat.le_trans hcap hle, hclt, hroom⟩

/-- The same bytes in a larger block. -/
theorem Queue.Ok.realloc (h : queue.Ok) {new_cap : Nat} (hle : queue.cap ≤ new_cap)
    (hlt : new_cap < 2 ^ 64) (fresh : Nat → UInt8) :
    Queue.Ok { queue with data := reallocBlock queue.data new_cap fresh, cap := new_cap } := by
  have hsize := h.size
  have hlen := h.len_le
  refine ⟨length_reallocBlock fresh (by omega), ?_, hlt⟩
  show queue.len ≤ new_cap
  omega

/-- **`queue_reserve` ends**, and what is queued stays. -/
theorem queue_reserve_spec (h : queue.Ok) (a : Alloc) (additional : Nat) :
    ∃ rc queue', queue_reserve a queue additional = some (rc, queue')
      ∧ queue'.Ok ∧ queue'.held = queue.held ∧ queue'.len = queue.len
      ∧ (rc = 0 → additional ≤ queue'.cap - queue'.len) ∧ (rc ≠ 0 → queue' = queue) := by
  have hsize := h.size
  have hlen := h.len_le
  unfold queue_reserve
  rw [subSize_eq hlen h.cap_lt]
  by_cases hfits : additional ≤ queue.cap - queue.len
  · rw [if_pos hfits]
    exact ⟨0, queue, rfl, h, rfl, rfl, fun _ => hfits, fun _ => rfl⟩
  rw [if_neg hfits]
  rcases h.loop_cases additional with hfail | ⟨c, hc, hle, hclt, hroom⟩
  · rw [hfail]
    exact ⟨-1, queue, rfl, h, rfl, rfl, fun h => by omega, fun _ => rfl⟩
  rw [hc]
  dsimp only
  cases a.ok with
  | true =>
      refine ⟨0, _, if_pos rfl, h.realloc hle hclt a.fresh, ?_, rfl, fun _ => hroom,
        fun hne => absurd rfl hne⟩
      exact take_reallocBlock c a.fresh (hlen.trans hsize.ge)
  | false =>
      refine ⟨-1, queue, if_neg (by decide), h, rfl, rfl, ?_, fun _ => rfl⟩
      intro hrc
      omega

/-- **A push puts its bytes behind what is queued, or changes nothing.** -/
theorem queue_push_spec (h : queue.Ok) (a : Alloc) {data : Bytes} {sz : Int} (hsz : 0 ≤ sz)
    (hint : sz < 2 ^ 31) (hdata : sz ≤ data.length) :
    ∃ rc queue', queue_push a queue data sz = some (rc, queue') ∧ queue'.Ok
      ∧ (rc = 0 → queue'.held = queue.held ++ data.take sz.toNat)
      ∧ (rc ≠ 0 → queue' = queue) := by
  obtain ⟨n, rfl⟩ := Int.eq_ofNat_of_zero_le hsz
  have hcast : castSize n = n := castSize_natCast (by omega)
  -- everything that can fail is in `queue_reserve`
  obtain ⟨rc, q, hreserve, hok, hheld, -, hroom, hsame⟩ := queue_reserve_spec h a n
  unfold queue_push
  rw [if_neg (by omega), hcast, hreserve, Option.bind_some]
  dsimp only
  by_cases hrc : rc = 0
  · -- there is room behind `len`
    have hroom := hroom hrc
    have hsize := hok.size
    have hlen := hok.len_le
    have hlt := hok.cap_lt
    have hload : loadAt data 0 n = some (data.take n) := loadAt_of_le (by omega)
    have htake : (data.take n).length = n := by
      rw [List.length_take]
      omega
    obtain ⟨block, hstore, hblock, hfront⟩ := storeAt_take q.data (data.take n)
      (show q.len + (data.take n).length ≤ q.data.length by omega)
    rw [if_neg (by omega), hload, Option.bind_some, hstore, Option.map_some,
      Nat.mod_eq_of_lt (by omega)]
    refine ⟨0, _, rfl, ⟨hblock.trans hsize, ?_, hlt⟩, fun _ => ?_, fun hne => absurd rfl hne⟩
    · show q.len + n ≤ q.cap
      omega
    · show block.take (q.len + n) = queue.held ++ data.take n
      rw [htake] at hfront
      rw [hfront, ← hheld]
      rfl
  · rw [if_pos hrc]
    refine ⟨-1, q, rfl, hok, ?_, fun _ => hsame hrc⟩
    intro hzero
    omega

/-- **A pop takes as much as it can off the front.** -/
theorem queue_pop_spec (h : queue.Ok) {sz : Int} (hsz : 0 ≤ sz) (hint : sz < 2 ^ 31) :
    ∃ queue', queue_pop queue sz
        = some (((queue.held.take sz.toNat).length : Int), queue.held.take sz.toNat, queue')
      ∧ queue'.Ok ∧ queue'.held = queue.held.drop sz.toNat := by
  obtain ⟨n, rfl⟩ := Int.eq_ofNat_of_zero_le hsz
  have hcast : castSize n = n := castSize_natCast (by omega)
  have hsize := h.size
  have hlen := h.len_le
  have hlt := h.cap_lt
  have hheld := h.length_held
  show ∃ queue', queue_pop queue n
      = some (((queue.held.take n).length : Int), queue.held.take n, queue')
    ∧ queue'.Ok ∧ queue'.held = queue.held.drop n
  unfold queue_pop
  by_cases hempty : queue.len = 0
  · have hnil : queue.held = [] := List.eq_nil_of_length_eq_zero (by omega)
    rw [if_pos hempty, hnil]
    exact ⟨queue, by simp, h, by simp [hnil]⟩
  rw [if_neg hempty, hcast]
  dsimp only
  -- the two sizes that are compared, and the smaller one as an `int`
  have hmin : (if n < queue.len then n else queue.len) = min n queue.len := by
    split <;> omega
  rw [hmin]
  generalize hk : min n queue.len = k
  rw [castInt_of_lt (show k < 2 ^ 31 by omega), castSize_natCast (show k < 2 ^ 64 by omega),
    if_neg (by omega)]
  have hload : loadAt queue.data 0 k = some (queue.data.take k) := loadAt_of_le (by omega)
  -- `memmove`: the source is read before anything is written
  have hrest : loadAt queue.data k (queue.len - k)
      = some ((queue.data.drop k).take (queue.len - k)) := loadAt_of_le (by omega)
  have hrestlen : ((queue.data.drop k).take (queue.len - k)).length = queue.len - k := by
    rw [List.length_take, List.length_drop]
    omega
  obtain ⟨block, hstore, hblock, hfront⟩ := storeAt_take queue.data
    ((queue.data.drop k).take (queue.len - k)) (show 0 + _ ≤ queue.data.length by omega)
  rw [hload, Option.bind_some, hrest, Option.bind_some, hstore, Option.map_some]
  have hout : queue.held.take n = queue.data.take k := by
    show (queue.data.take queue.len).take n = queue.data.take k
    rw [List.take_take, hk]
  have houtlen : (queue.data.take k).length = k := by
    rw [List.length_take]
    omega
  refine ⟨{ queue with data := block, len := queue.len - k }, ?_,
    ⟨hblock.trans hsize, ?_, hlt⟩, ?_⟩
  · rw [hout, houtlen]
  · show queue.len - k ≤ queue.cap
    omega
  · rw [hrestlen] at hfront
    have hdrop : queue.held.drop n = (queue.data.drop n).take (queue.len - n) := List.drop_take
    show block.take (queue.len - k) = queue.held.drop n
    rw [hdrop]
    have hblockfront : block.take (queue.len - k)
        = (queue.data.drop k).take (queue.len - k) := by
      rw [Nat.zero_add] at hfront
      exact hfront
    rw [hblockfront]
    by_cases hle : n ≤ queue.len
    · rw [show k = n by omega]
    · rw [show queue.len - k = 0 by omega, show queue.len - n = 0 by omega, List.take_zero,
        List.take_zero]

/-- A push as an operation on a stream: one that fails moves nothing. -/
theorem queue_push_op (h : queue.Ok) (a : Alloc) {data : Bytes} {sz : Int} (hsz : 0 ≤ sz)
    (hint : sz < 2 ^ 31) (hdata : sz ≤ data.length) :
    ∃ rc queue', queue_push a queue data sz = some (rc, queue') ∧ queue'.Ok
      ∧ ∀ pushed popped : Bytes, ∃ op,
        (⟨queue'.held, pushed ++ if rc = 0 then data.take sz.toNat else [], popped⟩ : Stream UInt8)
          = (⟨queue.held, pushed, popped⟩ : Stream UInt8).apply op := by
  obtain ⟨rc, queue', hpush, hok, hzero, hsame⟩ := queue_push_spec h a hsz hint hdata
  refine ⟨rc, queue', hpush, hok, ?_⟩
  intro pushed popped
  by_cases hrc : rc = 0
  · refine ⟨.push (data.take sz.toNat), ?_⟩
    rw [hzero hrc, if_pos hrc]
    rfl
  · refine ⟨.push [], ?_⟩
    rw [hsame hrc, if_neg hrc, List.append_nil, Stream.apply_push_nil]

/-- And a pop. -/
theorem queue_pop_op (h : queue.Ok) {sz : Int} (hsz : 0 ≤ sz) (hint : sz < 2 ^ 31) :
    ∃ out queue', queue_pop queue sz = some ((out.length : Int), out, queue') ∧ queue'.Ok
      ∧ ∀ pushed popped : Bytes, ∃ op,
        (⟨queue'.held, pushed, popped ++ out⟩ : Stream UInt8)
          = (⟨queue.held, pushed, popped⟩ : Stream UInt8).apply op := by
  obtain ⟨queue', hpop, hok, hheld⟩ := queue_pop_spec h hsz hint
  refine ⟨queue.held.take sz.toNat, queue', hpop, hok, ?_⟩
  intro pushed popped
  refine ⟨.pop sz.toNat, ?_⟩
  rw [hheld]
  rfl

end Calls

/-! ## §4. Runs of calls on a queue. -/

/-- A queue, and all that was pushed onto it and popped off it. -/
structure Ledger where
  queue : Queue
  pushed : Bytes
  popped : Bytes
  deriving DecidableEq

inductive QueueCall where
  | push (a : Alloc) (data : Bytes) (sz : Int)
  | pop (sz : Int)
  | reserve (a : Alloc) (additional : Nat)

/-- Sizes that are not negative, and a source of as many bytes as are pushed. -/
def QueueCall.Legal : QueueCall → Prop
  | .push _ data sz => 0 ≤ sz ∧ sz < 2 ^ 31 ∧ sz ≤ data.length
  | .pop sz => 0 ≤ sz ∧ sz < 2 ^ 31
  | .reserve _ additional => additional < 2 ^ 64

def Ledger.next (st : Ledger) : QueueCall → Option Ledger
  | .push a data sz =>
      (queue_push a st.queue data sz).map fun (rc, queue) =>
        ⟨queue, st.pushed ++ if rc = 0 then data.take sz.toNat else [], st.popped⟩
  | .pop sz =>
      (queue_pop st.queue sz).map fun (_, out, queue) => ⟨queue, st.pushed, st.popped ++ out⟩
  | .reserve a additional =>
      (queue_reserve a st.queue additional).map fun (_, queue) => { st with queue := queue }

/-- A queue that was initialised with any capacity, and any calls on it. -/
def queueSystem : TransitionSystem Ledger QueueCall where
  init st := ∃ a cap queue, cap < 2 ^ 64 ∧ queue_init a cap = some queue ∧ st = ⟨queue, [], []⟩
  step st c st' := c.Legal ∧ st.next c = some st'

/-- The queue as a stream. -/
def Ledger.stream (st : Ledger) : Stream UInt8 := ⟨st.queue.held, st.pushed, st.popped⟩

/-- **Each call returns, and is an operation on the stream.** -/
theorem Ledger.next_spec {st : Ledger} (h : st.queue.Ok) {c : QueueCall} (hc : c.Legal) :
    ∃ st', st.next c = some st' ∧ st'.queue.Ok ∧ ∃ op, st'.stream = st.stream.apply op := by
  cases c with
  | push a data sz =>
      obtain ⟨hsz, hint, hdata⟩ := hc
      obtain ⟨rc, queue', hpush, hok, hop⟩ := queue_push_op h a hsz hint hdata
      exact ⟨_, congrArg (Option.map _) hpush, hok, hop st.pushed st.popped⟩
  | pop sz =>
      obtain ⟨out, queue', hpop, hok, hop⟩ := queue_pop_op h hc.1 hc.2
      exact ⟨_, congrArg (Option.map _) hpop, hok, hop st.pushed st.popped⟩
  | reserve a additional =>
      obtain ⟨rc, queue', hreserve, hok, hheld, -⟩ := queue_reserve_spec h a additional
      refine ⟨_, congrArg (Option.map _) hreserve, hok, .push [], ?_⟩
      show (⟨queue'.held, st.pushed, st.popped⟩ : Stream UInt8) = _
      rw [hheld, Stream.apply_push_nil]
      rfl

theorem queue_streams : Streams queueSystem (fun st => st.queue.Ok) Ledger.stream where
  init := by
    intro st h
    obtain ⟨a, cap, queue, hcap, hinit, rfl⟩ := h
    obtain ⟨hok, hheld⟩ := Queue.Ok.init hcap hinit
    refine ⟨hok, ?_⟩
    show (⟨queue.held, [], []⟩ : Stream UInt8) = Stream.empty
    rw [hheld]
    rfl
  step := by
    intro st c st' hok hstep
    obtain ⟨st₁, hnext, hspec⟩ := Ledger.next_spec hok hstep.1
    obtain rfl := Option.some.inj (hnext.symm.trans hstep.2)
    exact hspec

/-- What holds of a queue, whatever has been called on it. -/
structure FifoQueue (st : Ledger) : Prop where
  size : st.queue.data.length = st.queue.cap
  len_le : st.queue.len ≤ st.queue.cap
  popped_prefix : st.popped <+: st.pushed
  /-- the rest of what was pushed is queued, in order -/
  rest : st.pushed = st.popped ++ st.queue.held
  /-- no call goes on for ever or leaves a block -/
  returns : ∀ c : QueueCall, c.Legal → ∃ st', st.next c = some st'
  failed_push : ∀ a data sz rc queue', (QueueCall.push a data sz).Legal →
    queue_push a st.queue data sz = some (rc, queue') → rc ≠ 0 → queue' = st.queue
  /-- the loop of `queue_reserve` ends, and on its way neither size wraps -/
  loop_ends : ∀ additional, reserveLoop st.queue.len additional 65 st.queue.startCap ≠ .spins
  loop_exact : ∀ additional new_cap,
    Relation.ReflTransGen (ReserveTurn st.queue.len additional) st.queue.startCap new_cap →
      subSize new_cap st.queue.len = new_cap - st.queue.len ∧ st.queue.len ≤ new_cap
        ∧ ∀ new_cap', ReserveTurn st.queue.len additional new_cap new_cap' →
            new_cap' = new_cap * 2 ∧ new_cap * 2 < 2 ^ 64

/-- **The queue is a first-in first-out stream**, in every state that any calls lead to. -/
theorem queue_is_fifo {st : Ledger} (h : queueSystem.Reachable st) : FifoQueue st := by
  obtain ⟨hok, hlaw⟩ := queue_streams.conserved h
  obtain ⟨hstart, -, hlt, -⟩ := hok.startCap
  refine ⟨hok.size, hok.len_le, hlaw.popped_prefix, hlaw, ?_, ?_, ?_, ?_⟩
  · intro c hc
    obtain ⟨st', hnext, -⟩ := Ledger.next_spec hok hc
    exact ⟨st', hnext⟩
  · intro a data sz rc queue' hlegal hpush hrc
    obtain ⟨hsz, hint, hdata⟩ := hlegal
    obtain ⟨rc₁, queue₁, hspec, -, -, hsame⟩ := queue_push_spec hok a hsz hint hdata
    obtain ⟨rfl, rfl⟩ := Prod.mk.inj (Option.some.inj (hpush.symm.trans hspec))
    exact hsame hrc
  · intro additional hspins
    rcases hok.loop_cases additional with hfail | ⟨c, hc, -⟩
    · rw [hfail] at hspins
      cases hspins
    · rw [hc] at hspins
      cases hspins
  · intro additional new_cap hturns
    obtain ⟨hle, hsize⟩ := reserveTurns_bounds hstart hlt hturns
    exact ⟨subSize_eq hle hsize, hle, fun new_cap' hturn => hturn.eq⟩

/-- Two bytes pushed onto a queue of one byte, and one of them popped. -/
theorem queue_is_fifo_two_bytes :
    FifoQueue ⟨⟨[98, 98], 1, 2⟩, [97, 98], [97]⟩ := by
  have hinit : queueSystem.init ⟨⟨[0], 0, 1⟩, [], []⟩ :=
    ⟨⟨true, fun _ => 0⟩, 1, _, by decide, rfl, rfl⟩
  have hpush : queueSystem.step ⟨⟨[0], 0, 1⟩, [], []⟩ (.push ⟨true, fun _ => 0⟩ [97, 98] 2)
      ⟨⟨[97, 98], 2, 2⟩, [97, 98], []⟩ :=
    ⟨⟨by decide, by decide, by decide⟩, by decide +kernel⟩
  have hpop : queueSystem.step ⟨⟨[97, 98], 2, 2⟩, [97, 98], []⟩ (.pop 1)
      ⟨⟨[98, 98], 1, 2⟩, [97, 98], [97]⟩ :=
    ⟨⟨by decide, by decide⟩, by decide +kernel⟩
  exact queue_is_fifo (.step (.step (.init hinit) hpush) hpop)

/-! ## §5. The callbacks of the peers. -/

/-- `memio_transport_t`, a queue for each direction. -/
structure Transport where
  c2s : Queue
  s2c : Queue

/-- The queue that the server, or the client, writes to. -/
def Transport.queue (t : Transport) (of_server : Bool) : Queue :=
  if of_server then t.s2c else t.c2s

def Transport.set (t : Transport) (of_server : Bool) (queue : Queue) : Transport :=
  if of_server then { t with s2c := queue } else { t with c2s := queue }

/-- What a callback returns to wolfSSL. -/
inductive CbResult where
  | bytes (n : Int)
  | want_read
  | want_write
  | general
  deriving DecidableEq

/-- `memio_send_cb` -/
def memio_send_cb (a : Alloc) (is_server : Bool) (t : Transport) (data : Bytes) (sz : Int) :
    Option (CbResult × Transport) :=
  (queue_push a (t.queue is_server) data sz).map fun (rc, queue) =>
    (if rc ≠ 0 then .want_write else .bytes sz, t.set is_server queue)

/-- `memio_recv_cb`: what it returns, what it copies to `data`, and the transport. -/
def memio_recv_cb (is_server : Bool) (t : Transport) (sz : Int) :
    Option (CbResult × Bytes × Transport) :=
  (queue_pop (t.queue (!is_server)) sz).map fun (ret, out, queue) =>
    (if ret < 0 then .general else if ret = 0 then .want_read else .bytes ret, out,
      t.set (!is_server) queue)

/-- The transport, and for each direction what wolfSSL was told has been sent and what it was
given. -/
structure Wire where
  transport : Transport
  sent : Bool → Bytes
  received : Bool → Bytes

/-- A call of wolfSSL, by the server or the client. -/
inductive CbCall where
  | send (is_server : Bool) (a : Alloc) (data : Bytes) (sz : Int)
  | recv (is_server : Bool) (sz : Int)

def CbCall.Legal : CbCall → Prop
  | .send _ _ data sz => 0 ≤ sz ∧ sz < 2 ^ 31 ∧ sz ≤ data.length
  | .recv _ sz => 0 ≤ sz ∧ sz < 2 ^ 31

/-- Bytes count as sent or received when a callback returns their number. -/
def countedBytes (r : CbResult) (data : Bytes) : Bytes :=
  match r with
  | .bytes n => data.take n.toNat
  | _ => []

def Wire.next (w : Wire) : CbCall → Option Wire
  | .send is_server a data sz =>
      (memio_send_cb a is_server w.transport data sz).map fun (r, t) =>
        ⟨t, Function.update w.sent is_server (w.sent is_server ++ countedBytes r data),
          w.received⟩
  | .recv is_server sz =>
      (memio_recv_cb is_server w.transport sz).map fun (r, out, t) =>
        ⟨t, w.sent, Function.update w.received (!is_server)
          (w.received (!is_server) ++ countedBytes r out)⟩

def wireSystem : TransitionSystem Wire CbCall where
  init w := ∃ a a' cap cap' c2s s2c, cap < 2 ^ 64 ∧ cap' < 2 ^ 64
    ∧ queue_init a cap = some c2s ∧ queue_init a' cap' = some s2c
    ∧ w = ⟨⟨c2s, s2c⟩, fun _ => [], fun _ => []⟩
  step w c w' := c.Legal ∧ w.next c = some w'

/-- One direction as a stream. -/
def Wire.stream (w : Wire) (of_server : Bool) : Stream UInt8 :=
  ⟨(w.transport.queue of_server).held, w.sent of_server, w.received of_server⟩

/-- Both queues are in order. -/
def Transport.Ok (t : Transport) : Prop := ∀ of_server, (t.queue of_server).Ok

theorem Transport.queue_set (t : Transport) (dir dir' : Bool) (queue : Queue) :
    (t.set dir queue).queue dir' = if dir' = dir then queue else t.queue dir' := by
  cases dir <;> cases dir' <;> rfl

theorem Transport.Ok.set {t : Transport} (h : t.Ok) (dir : Bool) {queue : Queue}
    (hq : queue.Ok) : (t.set dir queue).Ok := by
  intro dir'
  rw [Transport.queue_set]
  split
  · exact hq
  · exact h dir'

/-- **Each callback returns, and is an operation on both streams**; on the one it does not touch,
it moves nothing. -/
theorem Wire.next_spec {w : Wire} (h : w.transport.Ok) {c : CbCall} (hc : c.Legal) :
    ∃ w', w.next c = some w' ∧ w'.transport.Ok
      ∧ ∀ dir, ∃ op, w'.stream dir = (w.stream dir).apply op := by
  cases c with
  | send is_server a data sz =>
      obtain ⟨hsz, hint, hdata⟩ := hc
      obtain ⟨rc, queue', hpush, hok, hop⟩ := queue_push_op (h is_server) a hsz hint hdata
      have hsend : memio_send_cb a is_server w.transport data sz
          = some (if rc ≠ 0 then .want_write else .bytes sz, w.transport.set is_server queue') :=
        congrArg (Option.map _) hpush
      refine ⟨_, congrArg (Option.map _) hsend, h.set _ hok, ?_⟩
      intro dir
      -- what wolfSSL is told has been sent
      have hcount : countedBytes (if rc ≠ 0 then .want_write else .bytes sz) data
          = if rc = 0 then data.take sz.toNat else [] := by
        by_cases hrc : rc = 0
        · rw [if_neg (not_not.mpr hrc), if_pos hrc]
          rfl
        · rw [if_pos hrc, if_neg hrc]
          rfl
      show ∃ op, (⟨((w.transport.set is_server queue').queue dir).held,
        Function.update w.sent is_server (w.sent is_server
          ++ countedBytes (if rc ≠ 0 then .want_write else .bytes sz) data) dir,
        w.received dir⟩ : Stream UInt8) = _
      rw [Transport.queue_set, hcount]
      by_cases hdir : dir = is_server
      · subst hdir
        rw [if_pos rfl, Function.update_self]
        exact hop (w.sent dir) (w.received dir)
      · refine ⟨.push [], ?_⟩
        rw [if_neg hdir, Function.update_of_ne hdir, Stream.apply_push_nil]
        rfl
  | recv is_server sz =>
      obtain ⟨out, queue', hpop, hok, hop⟩ := queue_pop_op (h (!is_server)) hc.1 hc.2
      have hrecv : memio_recv_cb is_server w.transport sz
          = some (if (out.length : Int) < 0 then .general
              else if (out.length : Int) = 0 then .want_read else .bytes out.length, out,
            w.transport.set (!is_server) queue') := congrArg (Option.map _) hpop
      refine ⟨_, congrArg (Option.map _) hrecv, h.set _ hok, ?_⟩
      intro dir
      -- what is copied is what the result says, also when it is nothing
      have hcount : countedBytes (if (out.length : Int) < 0 then CbResult.general
          else if (out.length : Int) = 0 then .want_read else .bytes out.length) out = out := by
        rw [if_neg (by omega)]
        by_cases hnil : out = []
        · rw [hnil]
          rfl
        · have hpos := List.length_pos_of_ne_nil hnil
          rw [if_neg (by omega)]
          exact List.take_length
      show ∃ op, (⟨((w.transport.set (!is_server) queue').queue dir).held, w.sent dir,
        Function.update w.received (!is_server) (w.received (!is_server)
          ++ countedBytes (if (out.length : Int) < 0 then .general
            else if (out.length : Int) = 0 then .want_read else .bytes out.length) out) dir⟩ :
        Stream UInt8) = _
      rw [Transport.queue_set, hcount]
      by_cases hdir : dir = !is_server
      · subst hdir
        rw [if_pos rfl, Function.update_self]
        exact hop (w.sent _) (w.received _)
      · refine ⟨.push [], ?_⟩
        rw [if_neg hdir, Function.update_of_ne hdir, Stream.apply_push_nil]
        rfl

theorem wire_streams (dir : Bool) :
    Streams wireSystem (fun w => w.transport.Ok) (fun w => w.stream dir) where
  init := by
    intro w h
    obtain ⟨a, a', cap, cap', c2s, s2c, hcap, hcap', hc2s, hs2c, rfl⟩ := h
    obtain ⟨hok, hheld⟩ := Queue.Ok.init hcap hc2s
    obtain ⟨hok', hheld'⟩ := Queue.Ok.init hcap' hs2c
    cases dir with
    | false => exact ⟨fun d => by cases d <;> assumption, congrArg (Stream.mk · [] []) hheld⟩
    | true => exact ⟨fun d => by cases d <;> assumption, congrArg (Stream.mk · [] []) hheld'⟩
  step := by
    intro w c w' hok hstep
    obtain ⟨w₁, hnext, hok₁, hspec⟩ := Wire.next_spec hok hstep.1
    obtain rfl := Option.some.inj (hnext.symm.trans hstep.2)
    exact ⟨hok₁, hspec dir⟩

/-- **The TLS peers are connected by two streams**: what either has been given is the front of
what the other was told has been sent, and the rest is queued. -/
theorem transport_is_two_streams {w : Wire} (h : wireSystem.Reachable w) (of_server : Bool) :
    w.sent of_server = w.received of_server ++ (w.transport.queue of_server).held :=
  ((wire_streams of_server).conserved h).2

/-- The client sends five bytes into a queue with room for four, and the server takes three. -/
theorem transport_is_two_streams_hello : ∃ w : Wire,
    w.sent false = w.received false ++ (w.transport.queue false).held
      ∧ w.sent false = [104, 101, 108, 108, 111] ∧ w.received false = [104, 101, 108] := by
  have hrun : (((queue_init ⟨true, fun _ => 0⟩ 4).bind fun q =>
      (Wire.next ⟨⟨q, q⟩, fun _ => [], fun _ => []⟩
        (.send false ⟨true, fun _ => 0⟩ [104, 101, 108, 108, 111] 5)).bind fun w =>
        w.next (.recv true 3)).map fun w => (w.sent false, w.received false))
      = some ([104, 101, 108, 108, 111], [104, 101, 108]) := by decide +kernel
  obtain ⟨w, hw, hvalues⟩ := Option.map_eq_some_iff.mp hrun
  obtain ⟨hsent, hreceived⟩ := Prod.mk.inj hvalues
  obtain ⟨q, hq, hw⟩ := Option.bind_eq_some_iff.mp hw
  obtain ⟨u, hu, hw⟩ := Option.bind_eq_some_iff.mp hw
  have hstart : wireSystem.init ⟨⟨q, q⟩, fun _ => [], fun _ => []⟩ :=
    ⟨_, _, 4, 4, q, q, by decide, by decide, hq, hq, rfl⟩
  have hsend : (CbCall.send false ⟨true, fun _ => 0⟩ [104, 101, 108, 108, 111] 5).Legal :=
    ⟨by decide, by decide, by decide⟩
  have hrecv : (CbCall.recv true 3).Legal := ⟨by decide, by decide⟩
  have hreach : wireSystem.Reachable w := .step (.step (.init hstart) ⟨hsend, hu⟩) ⟨hrecv, hw⟩
  exact ⟨w, transport_is_two_streams hreach false, hsent, hreceived⟩

end TlsMigration.MemIo
