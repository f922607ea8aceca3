/-
  TlsMigration.Faasd.KeepaliveWorker
  ──────────────────────────────────
  **THE KEEP-ALIVE WORKER OF THE FAASD PROTOTYPE**
  (timing_fn_keepalive_worker.c).

  The worker reads the owner of a request from the bytes the gateway has
  routed on, with a parser of its own; and it gives its client's descriptor
  back in three functions that tell each other with return codes who closed
  it.

    • `owner_agrees_iff`              — when worker and gateway read one name;
    • `wellFormed_agrees`             — well-formed request lines are such;
    • `process_session_released_iff`  — when the descriptor is closed once.
-/
import TlsMigration.Handoff.Transfer
import TlsMigration.Http.GoRoute
import TlsMigration.Bench2.Payload
import TlsMigration.Tlspeek.Context

namespace TlsMigration.Faasd

open TlsMigration.Http TlsMigration.Handoff TlsMigration.Tlspeek
open TlsMigration.Bench2 (Payload targetOf)

/-! ## §1. The owner of a request. -/

def TLSMIGRATE_KEEPALIVE_TARGET_LEN : Nat := 128

/-- `parse_request_owner`; an empty line is refused before the blanks are looked for. -/
def parse_request_owner (buf : Bytes) (owner_out_sz : Nat) : Option Bytes :=
  if requestLine buf = [] then none else Http.parse_request_owner buf owner_out_sz

theorem parse_request_owner_eq (buf : Bytes) (sz : Nat) :
    parse_request_owner buf sz = Http.parse_request_owner buf sz := by
  unfold parse_request_owner
  split
  next h => simp [Http.parse_request_owner, h, memchr]
  next => rfl

/-- **Worker and gateway read the same owner** exactly when the bytes before the first LF,
with nothing trimmed, name it between two blanks and the name fits the worker's buffer. -/
theorem owner_agrees_iff (b n : Bytes) :
    Tlsmigratekeepalive.parseFunctionName b = some n →
      (parse_request_owner b TLSMIGRATE_KEEPALIVE_TARGET_LEN = some n
        ↔ NamesFunction (requestLine b) n ∧ n.length < TLSMIGRATE_KEEPALIVE_TARGET_LEN) := by
  intro _
  rw [parse_request_owner_eq]
  exact parse_request_owner_iff

theorem owner_agrees_iff_get :
    parse_request_owner (ascii "GET /function/a HTTP/1.1\r\n") TLSMIGRATE_KEEPALIVE_TARGET_LEN
      = some (ascii "a") :=
  (owner_agrees_iff (ascii "GET /function/a HTTP/1.1\r\n") (ascii "a") (by decide +kernel)).mpr
    ⟨⟨ascii "GET", [], ascii "HTTP/1.1\r", by decide +kernel, by decide +kernel,
      by decide +kernel, by decide +kernel, by decide +kernel, by decide +kernel⟩,
      by decide +kernel⟩

/-- A first record that ends inside the request line. -/
theorem owner_cut_line :
    Tlsmigratekeepalive.parseFunctionName (ascii "GET /function/fn-a") = some (ascii "fn-a")
      ∧ parse_request_owner (ascii "GET /function/fn-a") TLSMIGRATE_KEEPALIVE_TARGET_LEN
        = none := by
  decide +kernel

/-- A request line of a method in capital letters, a target under the path of a function
that the gateway accepts, and anything behind a blank. -/
structure WellFormed (method name more version : Bytes) : Prop where
  method : method ≠ [] ∧ ∀ c ∈ method, 65 ≤ c ∧ c ≤ 90
  name : name ≠ [] ∧ ∀ c ∈ name, nameByte c = true
  more : Ch.space ∉ more ∧ IsLine more ∧ ∀ c ∈ more.head?, endsName c = true
  version : IsLine version

theorem nameByte_plain {c : UInt8} (h : nameByte c = true) :
    endsName c = false ∧ c ≠ Ch.cr ∧ c ≠ Ch.lf := by
  refine ⟨?_, ?_, ?_⟩
  · cases he : endsName c with
    | false => rfl
    | true =>
        rcases endsName_cases he with rfl | rfl | rfl <;> exact absurd h (by decide)
  · rintro rfl
    exact absurd h (by decide)
  · rintro rfl
    exact absurd h (by decide)

/-- An accepted name does not end in white space. -/
theorem name_not_blank {n : Bytes} (h : ∀ c ∈ n, nameByte c = true) : ¬ EndsInSpace n := by
  rintro ⟨e, he, hsuf⟩
  have hbytes : ∀ e ∈ whiteSpace, ∀ c ∈ e, nameByte c = false := by decide +kernel
  obtain ⟨c, x, rfl⟩ := List.exists_cons_of_ne_nil (whiteSpace_bifix.nonempty e he)
  have hc := h c (hsuf.subset List.mem_cons_self)
  rw [hbytes _ he c List.mem_cons_self] at hc
  cases hc

namespace WellFormed

variable {method name more version : Bytes}

/-- The line without its end. -/
abbrev line (method name more version : Bytes) : Bytes :=
  method ++ Ch.space :: (functionPath ++ (name ++ (more ++ Ch.space :: version)))

theorem method_notMem (h : WellFormed method name more version) {c : UInt8}
    (hc : ¬ (65 ≤ c ∧ c ≤ 90)) : c ∉ method := fun hmem => hc (h.method.2 c hmem)

theorem isLine (h : WellFormed method name more version) :
    IsLine (line method name more version) := by
  have hname : Ch.cr ∉ name ∧ Ch.lf ∉ name :=
    ⟨fun hc => (nameByte_plain (h.name.2 _ hc)).2.1 rfl,
      fun hc => (nameByte_plain (h.name.2 _ hc)).2.2 rfl⟩
  have hpath : Ch.cr ∉ functionPath ∧ Ch.lf ∉ functionPath := by decide
  have hcr : Ch.cr ≠ Ch.space ∧ Ch.lf ≠ Ch.space := by decide
  constructor
  · simp [h.method_notMem (c := Ch.cr) (by decide), hname.1, hpath.1, hcr.1, h.more.2.1.1,
      h.version.1]
  · simp [h.method_notMem (c := Ch.lf) (by decide), hname.2, hpath.2, hcr.2, h.more.2.1.2,
      h.version.2]

theorem goLine_eq (h : WellFormed method name more version) (rest : Bytes) :
    goLine (line method name more version ++ (crlf ++ rest)) = line method name more version :=
  goLine_of_crlf h.isLine.1 rest

theorem requestLine_eq (h : WellFormed method name more version) (rest : Bytes) :
    requestLine (line method name more version ++ (crlf ++ rest))
      = line method name more version ++ [Ch.cr] := by
  have hall : ∀ c ∈ line method name more version ++ [Ch.cr],
      (decide (c ≠ Ch.lf)) = true := by
    intro c hc
    simp only [ne_eq, decide_eq_true_eq]
    rintro rfl
    rcases List.mem_append.mp hc with hc | hc
    · exact h.isLine.2 hc
    · exact absurd hc (by decide)
  have hshape : line method name more version ++ (crlf ++ rest)
      = (line method name more version ++ [Ch.cr]) ++ Ch.lf :: rest := by simp [crlf]
  unfold requestLine
  rw [hshape, List.takeWhile_append_of_pos hall]
  simp

/-- The gateway finds the name. -/
theorem gateway (h : WellFormed method name more version) (rest : Bytes) :
    Tlsmigratekeepalive.parseFunctionName (line method name more version ++ (crlf ++ rest))
      = some name := by
  refine parseFunctionName_iff.mpr ⟨?_, List.all_eq_true.mpr h.name.2⟩
  rw [h.goLine_eq, TrimSpace, trim]
  have hleft : trimLeft whiteSpace (line method name more version)
      = line method name more version := by
    refine trimLeft_eq whiteSpace_bifix .nil fun e he hpre => ?_
    have hfirst : ∀ e ∈ whiteSpace, ∀ c ∈ e.head?, ¬ (65 ≤ c ∧ c ≤ 90) := by decide +kernel
    obtain ⟨c, x, rfl⟩ := List.exists_cons_of_ne_nil (whiteSpace_bifix.nonempty e he)
    obtain ⟨d, y, hmethod⟩ := List.exists_cons_of_ne_nil h.method.1
    obtain ⟨z, hz⟩ := hpre
    rw [hmethod] at hz
    injection hz with hcd _
    refine hfirst _ he c rfl ?_
    rw [hcd]
    exact h.method.2 d (by rw [hmethod]; exact List.mem_cons_self)
  have hnames : ∀ c ∈ name, endsName c = false := fun c hc => (nameByte_plain (h.name.2 c hc)).1
  have hmethod := h.method_notMem (c := Ch.space) (by decide)
  have hblank := name_not_blank h.name.2
  rw [hleft]
  cases hm : more with
  | nil => exact names_kept hmethod h.name.1 hnames rfl fun hbad => hblank hbad.2.1
  | cons c more' =>
      have hc : endsName c = true := h.more.2.2 c (by rw [hm]; rfl)
      exact names_kept hmethod h.name.1 hnames hc fun hbad => hblank hbad.2.1

/-- And so does the worker, if it fits. -/
theorem worker (h : WellFormed method name more version) (rest : Bytes)
    (hlen : name.length < TLSMIGRATE_KEEPALIVE_TARGET_LEN) :
    parse_request_owner (line method name more version ++ (crlf ++ rest))
      TLSMIGRATE_KEEPALIVE_TARGET_LEN = some name := by
  rw [parse_request_owner_eq]
  refine parse_request_owner_iff.mpr ⟨?_, hlen⟩
  rw [h.requestLine_eq]
  refine ⟨method, more, version ++ [Ch.cr], by simp [line], ?_, h.name.1, ?_, h.more.1,
    h.more.2.2⟩
  · exact h.method_notMem (by decide)
  · exact fun c hc => (nameByte_plain (h.name.2 c hc)).1

end WellFormed

/-! ## §2. The life of a session. -/

/-- What the calls of one turn of the loop return. -/
structure RequestCalls (β : Type*) where
  /-- `tls_read_peek` on the restored context -/
  peek : TlspeekCtx → Option Bytes
  /-- `read_one_request`: `should_close`, or `-1` -/
  read : Option Bool
  /-- `send_response` returned 0 -/
  responded : Bool
  /-- `export_live_serial`, or `-1` -/
  serial : Option (TlspeekSerial β)
  connect : ConnectCalls
  /-- `sendmsg` succeeded -/
  sent : Bool

/-- What all calls of one session return. -/
structure SessionCalls (β : Type*) where
  wolfSSL_new_ok : Bool
  restore_ok : Bool
  request : Nat → RequestCalls β

variable {β : Type*}

/-- `peek_owner_from_kernel`; `none` is `-1`. -/
def peek_owner_from_kernel (client_fd : Fd) (serial : TlspeekSerial β)
    (peek : TlspeekCtx → Option Bytes) : Option Bytes :=
  (tlspeek_restore_peek_ctx client_fd serial).bind fun ctx =>
    match peek ctx with
    | none | some [] => none
    | some buf => parse_request_owner buf TLSMIGRATE_KEEPALIVE_TARGET_LEN

/-- `relay_to_gateway`: the table, the return value, and the payload that was sent. -/
def relay_to_gateway (t : FdTable) (client_fd : Fd) (file : FileId)
    (payload : Payload (TlspeekSerial β)) (c : RequestCalls β) :
    FdTable × Int × Option (Payload (TlspeekSerial β)) :=
  match unix_client_connect t c.connect with
  | (t, none) => (t.close client_fd file, -1, none)
  | (t, some relay_fd) =>
      let (t, rc) := transferFd t relay_fd client_fd file c.sent
      if rc ≠ 0 then ((t.close relay_fd.1 relay_fd.2).close client_fd file, -1, none)
      else (t.close relay_fd.1 relay_fd.2, 0, some payload)

/-- How a turn of the loop ends. -/
inductive Turn (β : Type*) where
  | next (fds : FdTable) (state : Payload (TlspeekSerial β))
  /-- `goto out`; `held` is `client_fd >= 0` -/
  | out (fds : FdTable) (held : Bool) (rc : Int) (relayed : Option (Payload (TlspeekSerial β)))

/-- One turn of the loop of `process_session`. -/
def session_turn (t : FdTable) (client_fd : Fd) (file : FileId) (function_name : Bytes)
    (state : Payload (TlspeekSerial β)) (c : RequestCalls β) : Turn β :=
  let t := t.use client_fd file
  match peek_owner_from_kernel client_fd state.serial c.peek with
  | none => .out t true 0 none
  | some request_owner =>
      if cstr request_owner ≠ function_name then
        let state := { state with target_function := targetOf (cstr request_owner) }
        let r := relay_to_gateway t client_fd file state c
        if r.2.1 ≠ 0 then .out r.1 true (-1) r.2.2 else .out r.1 false 0 r.2.2
      else
        let t := t.use client_fd file
        match c.read with
        | none => .out t true (-1) none
        | some should_close =>
            let t := t.use client_fd file
            if c.responded = false then .out t true (-1) none
            else if should_close then .out t true 0 none
            else
              match c.serial with
              | none => .out t true (-1) none
              | some serial => .next t { state with serial := serial }

/-- The loop: the table, whether `client_fd` is still set, and the return value; `none`
where the session goes on. -/
def session_loop (client_fd : Fd) (file : FileId) (function_name : Bytes) :
    Nat → FdTable → Payload (TlspeekSerial β) → (Nat → RequestCalls β) →
      Option (FdTable × Bool × Int)
  | 0, _, _, _ => none
  | fuel + 1, t, state, calls =>
      match session_turn t client_fd file function_name state (calls 0) with
      | .next t state =>
          session_loop client_fd file function_name fuel t state fun k => calls (k + 1)
      | .out t held rc _ => some (t, held, rc)

/-- `process_session`, for as many requests as `fuel` says. -/
def process_session (fuel : Nat) (t : FdTable) (client_fd : Fd) (file : FileId)
    (initial_payload : Payload (TlspeekSerial β)) (function_name : Bytes)
    (c : SessionCalls β) : Option (FdTable × Int) :=
  if c.wolfSSL_new_ok = false then some (t.close client_fd file, -1)
  else if c.restore_ok = false then some (t.close client_fd file, -1)
  else
    (session_loop client_fd file function_name fuel t initial_payload c.request).map
      fun (t, held, rc) => (if held then t.close client_fd file else t, rc)

/-! ## §3. Who closes the descriptor. -/

/-- The session comes to a request of another function, and the relay fails. -/
inductive RelayFails (client_fd : Fd) (function_name : Bytes) :
    TlspeekSerial β → (Nat → RequestCalls β) → Prop where
  | here {serial : TlspeekSerial β} {calls : Nat → RequestCalls β} {owner : Bytes} :
      peek_owner_from_kernel client_fd serial (calls 0).peek = some owner →
      cstr owner ≠ function_name →
      ¬ ((calls 0).connect.socket.isSome ∧ (calls 0).connect.connect_ok = true
        ∧ (calls 0).sent = true) →
      RelayFails client_fd function_name serial calls
  | later {serial serial' : TlspeekSerial β} {calls : Nat → RequestCalls β} {owner : Bytes} :
      peek_owner_from_kernel client_fd serial (calls 0).peek = some owner →
      cstr owner = function_name → (calls 0).read = some false → (calls 0).responded = true →
      (calls 0).serial = some serial' →
      RelayFails client_fd function_name serial' (fun k => calls (k + 1)) →
      RelayFails client_fd function_name serial calls

section Scopes

variable {t₀ t : FdTable} {client_fd : Fd} {file : FileId}

/-- `relay_to_gateway` closes the descriptor or sends it away; its return value says which. -/
theorem relay_to_gateway_scope (h₀ : t₀.Ok) (hfile : t₀.files client_fd = some file)
    (hep : t₀.epoll client_fd = false) (h : FdTable.Scope [] t₀ t)
    (payload : Payload (TlspeekSerial β)) (c : RequestCalls β) (hfresh : c.connect.Fresh t₀) :
    FdTable.Scope [file] t₀ (relay_to_gateway t client_fd file payload c).1
      ∧ ((relay_to_gateway t client_fd file payload c).2.1 ≠ 0
        ↔ ¬ (c.connect.socket.isSome ∧ c.connect.connect_ok = true ∧ c.sent = true)) := by
  have hfresh := hfresh.of_scope h
  have hiff := connected_iff t c.connect
  unfold relay_to_gateway
  split
  next t' hconn =>
    have hnone := congrArg Prod.snd hconn
    have hx := connect_failed h h₀ hfresh hnone
    rw [hconn] at hx
    refine ⟨hx.close h₀ hfile (by simp), iff_of_true (by simp) ?_⟩
    rintro ⟨hs, hc, -⟩
    obtain ⟨p, hp⟩ := hiff.mpr ⟨hs, hc⟩
    rw [hnone] at hp
    cases hp
  next t' relay_fd hconn =>
    have hsome := congrArg Prod.snd hconn
    obtain ⟨hs, hc⟩ := hiff.mp ⟨relay_fd, hsome⟩
    have hx := exchange h h₀ hfresh hsome hfile (by simp) hep c.sent
    rw [hconn] at hx
    cases hsent : c.sent with
    | true =>
        rw [hsent] at hx
        exact ⟨hx, iff_of_false (by simp [transferFd]) (fun hno => hno ⟨hs, hc, rfl⟩)⟩
    | false =>
        rw [hsent] at hx
        exact ⟨hx.close h₀ hfile (by simp), iff_of_true (by simp [transferFd])
          (fun hno => by cases hno.2.2)⟩

/-- **One turn**: the session goes on with its descriptor; or the relay failed, and the
descriptor is closed although `client_fd` is still set; or `client_fd` says who has it. -/
theorem session_turn_scope (h₀ : t₀.Ok) (hfile : t₀.files client_fd = some file)
    (hep : t₀.epoll client_fd = false) (h : FdTable.Scope [] t₀ t) (function_name : Bytes)
    (state : Payload (TlspeekSerial β)) (calls : Nat → RequestCalls β)
    (hfresh : (calls 0).connect.Fresh t₀) :
    (∃ t' serial', session_turn t client_fd file function_name state (calls 0)
          = .next t' { state with serial := serial' } ∧ FdTable.Scope [] t₀ t'
        ∧ (RelayFails client_fd function_name state.serial calls
          ↔ RelayFails client_fd function_name serial' fun k => calls (k + 1)))
      ∨ (∃ t' rc p, session_turn t client_fd file function_name state (calls 0)
          = .out t' true rc p ∧ FdTable.Scope [file] t₀ t'
        ∧ RelayFails client_fd function_name state.serial calls)
      ∨ ∃ t' held rc p, session_turn t client_fd file function_name state (calls 0)
          = .out t' held rc p ∧ FdTable.Scope (if held then [] else [file]) t₀ t'
        ∧ ¬ RelayFails client_fd function_name state.serial calls := by
  have h₁ := h.use hfile (by simp)
  have h₂ := h₁.use hfile (by simp)
  have h₃ := h₂.use hfile (by simp)
  unfold session_turn
  dsimp only
  cases hpeek : peek_owner_from_kernel client_fd state.serial (calls 0).peek with
  | none =>
      refine Or.inr (Or.inr ⟨_, _, _, _, rfl, h₁, fun hr => ?_⟩)
      cases hr with
      | here hp _ _ => rw [hpeek] at hp; cases hp
      | later hp _ _ _ _ _ => rw [hpeek] at hp; cases hp
  | some owner =>
      dsimp only
      by_cases howner : cstr owner ≠ function_name
      · rw [if_pos howner]
        obtain ⟨hx, hrc⟩ := relay_to_gateway_scope h₀ hfile hep h₁
          { state with target_function := targetOf (cstr owner) } (calls 0) hfresh
        split
        next hne =>
          exact Or.inr (Or.inl ⟨_, _, _, rfl, hx, .here hpeek howner (hrc.mp hne)⟩)
        next hok =>
          refine Or.inr (Or.inr ⟨_, _, _, _, rfl, hx, fun hr => ?_⟩)
          cases hr with
          | here hp _ hbad => exact hok (hrc.mpr hbad)
          | later hp heq _ _ _ _ =>
              rw [hpeek] at hp
              injection hp with hp
              exact howner (hp ▸ heq)
      · rw [if_neg howner]
        have howner : cstr owner = function_name := not_not.mp howner
        -- a relay that fails comes later, if at all
        have hlater : ∀ {P : Prop}, (∀ serial', (calls 0).read = some false →
            (calls 0).responded = true → (calls 0).serial = some serial' →
            RelayFails client_fd function_name serial' (fun k => calls (k + 1)) → P) →
            RelayFails client_fd function_name state.serial calls → P := by
          intro P hp hr
          cases hr with
          | here hp' hne _ =>
              rw [hpeek] at hp'
              injection hp' with hp'
              exact absurd howner (hp' ▸ hne)
          | later _ _ h₁ h₂ h₃ h₄ => exact hp _ h₁ h₂ h₃ h₄
        cases hread : (calls 0).read with
        | none =>
            refine Or.inr (Or.inr ⟨_, _, _, _, rfl, h₂, hlater fun s hr _ _ _ => ?_⟩)
            rw [hread] at hr
            cases hr
        | some should_close =>
            dsimp only
            split
            next hres =>
              refine Or.inr (Or.inr ⟨_, _, _, _, rfl, h₃, hlater fun s _ hr _ _ => ?_⟩)
              rw [hres] at hr
              cases hr
            next hres =>
            cases should_close with
            | true =>
                refine Or.inr (Or.inr ⟨_, _, _, _, rfl, h₃, hlater fun s hr _ _ _ => ?_⟩)
                rw [hread] at hr
                cases hr
            | false =>
                cases hserial : (calls 0).serial with
                | none =>
                    refine Or.inr (Or.inr ⟨_, _, _, _, rfl, h₃, hlater fun s _ _ hr _ => ?_⟩)
                    rw [hserial] at hr
                    cases hr
                | some serial' =>
                    refine Or.inl ⟨_, serial', rfl, h₃, ?_, ?_⟩
                    · refine hlater fun s _ _ hs hr => ?_
                      rw [hserial] at hs
                      injection hs with hs
                      exact hs ▸ hr
                    · exact fun hr => .later hpeek howner hread (by simpa using hres) hserial hr

/-- **A run of the loop.** -/
theorem session_loop_scope (h₀ : t₀.Ok) (hfile : t₀.files client_fd = some file)
    (hep : t₀.epoll client_fd = false) (function_name : Bytes) (fuel : Nat) :
    ∀ (t : FdTable) (state : Payload (TlspeekSerial β)) (calls : Nat → RequestCalls β),
      FdTable.Scope [] t₀ t → (∀ k, (calls k).connect.Fresh t₀) → ∀ t' held rc,
      session_loop client_fd file function_name fuel t state calls = some (t', held, rc) →
      (RelayFails client_fd function_name state.serial calls ∧ held = true
          ∧ FdTable.Scope [file] t₀ t')
        ∨ (¬ RelayFails client_fd function_name state.serial calls
          ∧ FdTable.Scope (if held then [] else [file]) t₀ t') := by
  induction fuel with
  | zero =>
      intro t state calls _ _ t' held rc hloop
      cases hloop
  | succ fuel ih =>
      intro t state calls h hfresh t' held rc hloop
      unfold session_loop at hloop
      rcases session_turn_scope h₀ hfile hep h function_name state calls (hfresh 0) with
        ⟨t₁, serial', hturn, hs, hiff⟩ | ⟨t₁, rc₁, p, hturn, hs, hfails⟩
          | ⟨t₁, held₁, rc₁, p, hturn, hs, hno⟩
      · rw [hturn] at hloop
        rw [hiff]
        exact ih t₁ _ _ hs (fun k => hfresh (k + 1)) t' held rc hloop
      · rw [hturn] at hloop
        simp only [Option.some.injEq, Prod.mk.injEq] at hloop
        obtain ⟨rfl, rfl, rfl⟩ := hloop
        exact Or.inl ⟨hfails, rfl, hs⟩
      · rw [hturn] at hloop
        simp only [Option.some.injEq, Prod.mk.injEq] at hloop
        obtain ⟨rfl, rfl, rfl⟩ := hloop
        exact Or.inr ⟨hno, hs⟩

end Scopes

/-- **`process_session` gives its client's descriptor back once**, and with one close,
exactly when the session is not one that comes to a relay and fails there. -/
theorem process_session_released_iff {t : FdTable} (ht : t.Ok) {client_fd : Fd} {file : FileId}
    (hfile : t.files client_fd = some file) (hep : t.epoll client_fd = false)
    (payload : Payload (TlspeekSerial β)) (function_name : Bytes) (c : SessionCalls β)
    (hfresh : ∀ k, (c.request k).connect.Fresh t) {fuel : Nat} {t' : FdTable} {rc : Int}
    (hret : process_session fuel t client_fd file payload function_name c = some (t', rc)) :
    Released t t' file
      ↔ ¬ (c.wolfSSL_new_ok = true ∧ c.restore_ok = true
        ∧ RelayFails client_fd function_name payload.serial c.request) := by
  have h₀ := FdTable.Scope.refl ht
  have hclosed := Released.of_scope (h₀.close ht hfile (by simp)) ht hfile (by simp)
  unfold process_session at hret
  split at hret
  next hnew =>
    simp only [Option.some.injEq, Prod.mk.injEq] at hret
    obtain ⟨rfl, rfl⟩ := hret
    refine iff_of_true hclosed fun h => ?_
    rw [hnew] at h
    cases h.1
  next hnew =>
  split at hret
  next hres =>
    simp only [Option.some.injEq, Prod.mk.injEq] at hret
    obtain ⟨rfl, rfl⟩ := hret
    refine iff_of_true hclosed fun h => ?_
    rw [hres] at h
    cases h.2.1
  next hres =>
  obtain ⟨⟨t₁, held, rc₁⟩, hloop, hend⟩ := Option.map_eq_some_iff.mp hret
  simp only [Prod.mk.injEq] at hend
  obtain ⟨rfl, rfl⟩ := hend
  rcases session_loop_scope ht hfile hep function_name fuel t payload c.request h₀ hfresh t₁ held
    rc₁ hloop with ⟨hfails, rfl, hs⟩ | ⟨hno, hs⟩
  · -- `relay_to_gateway` has closed the descriptor, and `out:` closes it again
    refine iff_of_false ?_ (not_not_intro ⟨by simpa using hnew, by simpa using hres, hfails⟩)
    intro hr
    have htwice := (hs.close_again ht hfile (by simp)).1
    have hone := hr.once
    rw [if_pos rfl] at hone
    omega
  · refine iff_of_true ?_ fun h => hno h.2.2
    cases held with
    | true => exact Released.of_scope (hs.close ht hfile (by simp)) ht hfile (by simp)
    | false => exact Released.of_scope hs ht hfile (by simp)

/-! ### A request of another function -/

/-- The payload of a session that has just been handed over. -/
def handedOver : Payload (TlspeekSerial Unit) where
  magic := 0x544D4B41
  version := 1
  serial :=
    { magic := TLSPEEK_MAGIC, cipher_suite := 0, client_write_key := Area.zero _
      client_write_iv := Area.zero _, read_seq_num := 0, tls_blob := some () }
  target_function := targetOf (ascii "a")

/-- The next request is for `b`; the relay socket takes the connection, or does not. -/
def otherOwner (connect_ok : Bool) : SessionCalls Unit where
  wolfSSL_new_ok := true
  restore_ok := true
  request := fun _ =>
    { peek := fun _ => some (ascii "GET /function/b HTTP/1.1\r\n")
      read := none, responded := false, serial := none
      connect := ⟨some 7, connect_ok⟩, sent := true }

theorem otherOwner_fresh (connect_ok : Bool) (k : Nat) :
    ((otherOwner connect_ok).request k).connect.Fresh (FdTable.single 4) := by
  intro fd hfd
  injection hfd with hfd
  subst hfd
  rfl

theorem process_session_released_iff_relayed :
    ∃ t' rc, process_session 1 (FdTable.single 4) 4 0 handedOver (ascii "a") (otherOwner true)
        = some (t', rc) ∧ Released (FdTable.single 4) t' 0 := by
  have hret : (process_session 1 (FdTable.single 4) 4 0 handedOver (ascii "a")
      (otherOwner true)).isSome := by decide +kernel
  obtain ⟨⟨t', rc⟩, hret⟩ := Option.isSome_iff_exists.mp hret
  refine ⟨t', rc, hret, (process_session_released_iff (FdTable.single_ok 4) rfl rfl handedOver
    (ascii "a") (otherOwner true) (otherOwner_fresh true) hret).mpr ?_⟩
  rintro ⟨-, -, hfails⟩
  cases hfails with
  | here _ _ hbad => exact hbad ⟨rfl, rfl, rfl⟩
  | later _ _ hread _ _ _ => cases hread

/-- The relay socket refuses, and the descriptor is closed twice. -/
theorem process_session_closes_twice :
    ∃ t' rc, process_session 1 (FdTable.single 4) 4 0 handedOver (ascii "a") (otherOwner false)
        = some (t', rc) ∧ t'.closes 0 = 2 ∧ ¬ Released (FdTable.single 4) t' 0 := by
  have hret : (process_session 1 (FdTable.single 4) 4 0 handedOver (ascii "a")
      (otherOwner false)).map (fun r => (r.1.closes 0, r.1.sends 0)) = some (2, 0) := by
    decide +kernel
  obtain ⟨⟨t', rc⟩, hret, hcounts⟩ := Option.map_eq_some_iff.mp hret
  simp only [Prod.mk.injEq] at hcounts
  refine ⟨t', rc, hret, hcounts.1, fun hr => ?_⟩
  have hone := hr.once
  rw [hcounts.1, hcounts.2] at hone
  cases hone

end TlsMigration.Faasd
