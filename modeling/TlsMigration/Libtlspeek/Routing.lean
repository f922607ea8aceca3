/-
  TlsMigration.Libtlspeek.Routing
  ───────────────────────────────
  **WHAT THE ROUTING OF A CONNECTION DEPENDS ON**
  (`route_request`, libtlspeek/gateway/router.c).

  The router is to match a prefix of the request line, but `strstr` searches
  the whole of what was peeked.  A pattern in a header or in the body diverts
  a request if the request line has none that is tried before it.

    • `route_request_eq`         — the worker, from the patterns in the first
                                   line and those behind it;
    • `handle_connection_socket` — where a connection is sent;
    • `routes_alike_iff`         — when two connections whose requests start
                                   with the same line go to the same worker.
-/
import Mathlib.Data.List.Infix
import TlsMigration.Http.Parse
import TlsMigration.Libtlspeek.Gateway

namespace TlsMigration.Libtlspeek

open TlsMigration.Tlspeek TlsMigration.Handoff TlsMigration.Http

/-! ## §1. The first line and what is behind it. -/

/-- The first line of what was peeked, as a C string. -/
def firstLine (headers : Bytes) : Bytes := cstr (requestLine headers)

/-- The C string behind the first line. -/
def behindLine (headers : Bytes) : Bytes := ((cstr headers).dropWhile (· ≠ Ch.lf)).drop 1

/-- The C string up to its first LF is that of the first line. -/
theorem takeWhile_cstr (headers : Bytes) :
    (cstr headers).takeWhile (· ≠ Ch.lf) = firstLine headers := by
  unfold firstLine cstr requestLine
  rw [List.takeWhile_takeWhile, List.takeWhile_takeWhile]
  refine congrArg (fun p => headers.takeWhile p) (funext fun c => ?_)
  exact decide_eq_decide.mpr And.comm

/-- A pattern stands in the first line or behind it. -/
theorem strstr_iff {pattern : Bytes} (hlf : Ch.lf ∉ pattern) (hne : pattern ≠ [])
    (headers : Bytes) :
    strstr headers pattern = true
      ↔ pattern <:+: firstLine headers ∨ pattern <:+: behindLine headers := by
  have hsplit : firstLine headers ++ (cstr headers).dropWhile (· ≠ Ch.lf) = cstr headers := by
    rw [← takeWhile_cstr, List.takeWhile_append_dropWhile]
  unfold strstr behindLine
  rw [firstOcc_isSome hne]
  cases hrest : (cstr headers).dropWhile (· ≠ Ch.lf) with
  | nil =>
      -- no line end, and so nothing behind the line
      rw [hrest, List.append_nil] at hsplit
      rw [hsplit, List.drop_nil, List.infix_nil]
      exact ⟨Or.inl, fun h => h.resolve_right hne⟩
  | cons c rest =>
      have hc : c = Ch.lf := by
        have hhead := List.head?_dropWhile_not (· ≠ Ch.lf) (cstr headers)
        rw [hrest] at hhead
        simpa using hhead
      rw [hrest, hc] at hsplit
      rw [← hsplit]
      exact infix_append_cons_iff hlf hne _ _

/-! ## §2. The worker. -/

/-- The patterns, in the order in which they are tried. -/
structure Patterns where
  hello : Bool
  compute : Bool
  echo : Bool
  status : Bool

/-- Those that stand in a text. -/
def patternsIn (text : Bytes) : Patterns where
  hello := decide (ascii "GET /function/hello" <:+: text)
  compute := decide (ascii "GET /function/compute" <:+: text)
  echo := decide (ascii "POST /function/echo" <:+: text)
  status := decide (ascii "GET /function/status" <:+: text)

/-- The worker of the first pattern that stands in one of two texts. -/
def Patterns.worker (p q : Patterns) : Int :=
  if p.hello || q.hello then 0
  else if p.compute || q.compute then 1
  else if p.echo || q.echo then 0
  else if p.status || q.status then 1
  else 0

/-- The patterns behind the line change the worker: they are tried before those in the line, and
the first of them is for the other worker. -/
def Diverted (line behind : Patterns) : Prop :=
  if line.hello then False
  else if line.compute then behind.hello = true
  else if line.echo then behind.compute = true ∧ behind.hello = false
  else if line.status then
    behind.hello = true ∨ (behind.echo = true ∧ behind.compute = false)
  else
    behind.hello = false
      ∧ (behind.compute = true ∨ (behind.status = true ∧ behind.echo = false))

instance (line behind : Patterns) : Decidable (Diverted line behind) := by
  unfold Diverted
  infer_instance

/-- The worker of the line by itself. -/
def Patterns.own (line : Patterns) : Int := line.worker ⟨false, false, false, false⟩

/-- There are two workers, so a diverted request goes to the other one. -/
theorem Patterns.worker_eq (line behind : Patterns) :
    line.worker behind = if Diverted line behind then 1 - line.own else line.own := by
  obtain ⟨h, c, e, s⟩ := line
  obtain ⟨h', c', e', s'⟩ := behind
  revert h c e s h' c' e' s'
  decide

theorem Patterns.own_cases (line : Patterns) : line.own = 0 ∨ line.own = 1 := by
  obtain ⟨h, c, e, s⟩ := line
  revert h c e s
  decide

/-- **The worker that is chosen**: by the first pattern anywhere. -/
theorem route_request_eq (headers : Bytes) :
    route_request headers
      = (patternsIn (firstLine headers)).worker (patternsIn (behindLine headers)) := by
  have hpattern : ∀ pattern : Bytes, Ch.lf ∉ pattern → pattern ≠ [] →
      strstr headers pattern = (decide (pattern <:+: firstLine headers)
        || decide (pattern <:+: behindLine headers)) := by
    intro pattern hlf hne
    rw [Bool.eq_iff_iff, strstr_iff hlf hne, Bool.or_eq_true, decide_eq_true_eq,
      decide_eq_true_eq]
  unfold route_request Patterns.worker patternsIn
  rw [hpattern (ascii "GET /function/hello") (by decide) (by decide),
    hpattern (ascii "GET /function/compute") (by decide) (by decide),
    hpattern (ascii "POST /function/echo") (by decide) (by decide),
    hpattern (ascii "GET /function/status") (by decide) (by decide)]
  by_cases hnil : headers = []
  · -- nothing stands in an empty text
    rw [if_pos hnil, hnil]
    decide +kernel
  · -- the fifth pattern, "GET /function/", has the answer of the default
    rw [if_neg hnil, ite_self]

/-! ## §3. Two connections. -/

variable {β : Type*}

/-- **Where a connection is sent** is the socket of the worker that is chosen for its request. -/
theorem handle_connection_socket {t : FdTable} {client_fd : Fd} {file : FileId} {n_workers : Int}
    {c : ConnectionCalls β} {headers : Bytes} {sent : Bytes × TlspeekSerial β}
    (hpeek : c.peek = some headers)
    (h : (handle_connection t client_fd file n_workers c).2 = some sent) :
    sent.1 = workerSocket (chooseWorker headers n_workers) := by
  unfold handle_connection at h
  rw [hpeek] at h
  -- every early exit sends nothing
  split at h
  · cases h
  dsimp only at h
  split at h
  · cases h
  split at h
  · cases h
  cases headers with
  | nil => cases h
  | cons b bs =>
      dsimp only at h
      split at h
      · cases h
      split at h
      · cases h
      split at h
      · cases h
      · obtain rfl := Option.some.inj h
        rfl

/-- Both requests are routed alike, and both connections, if they are handed over, to the same
worker. -/
structure RoutedAlike (headers headers' : Bytes) : Prop where
  route : route_request headers = route_request headers'
  handed_over : ∀ (β : Type) (n_workers : Int) (t t' : FdTable) (fd fd' : Fd)
    (file file' : FileId) (c c' : ConnectionCalls β) (sent sent' : Bytes × TlspeekSerial β),
    c.peek = some headers → c'.peek = some headers' →
    (handle_connection t fd file n_workers c).2 = some sent →
    (handle_connection t' fd' file' n_workers c').2 = some sent' → sent.1 = sent'.1

/-- **When two requests with the same first line go to the same worker**: if and only if both or
neither is diverted by what stands behind that line. -/
theorem routes_alike_iff {headers headers' : Bytes}
    (hline : requestLine headers = requestLine headers') :
    RoutedAlike headers headers'
      ↔ (Diverted (patternsIn (firstLine headers)) (patternsIn (behindLine headers))
        ↔ Diverted (patternsIn (firstLine headers)) (patternsIn (behindLine headers'))) := by
  -- the patterns in the line are the same for both
  have hfirst : firstLine headers' = firstLine headers := congrArg cstr hline.symm
  have hroute := route_request_eq headers
  have hroute' := route_request_eq headers'
  rw [hfirst] at hroute'
  generalize patternsIn (firstLine headers) = line at *
  generalize patternsIn (behindLine headers) = behind at *
  generalize patternsIn (behindLine headers') = behind' at *
  rw [Patterns.worker_eq] at hroute hroute'
  have hown := line.own_cases
  constructor
  · intro h
    have hsame := h.route
    rw [hroute, hroute'] at hsame
    by_cases hd : Diverted line behind
    · by_cases hd' : Diverted line behind'
      · exact iff_of_true hd hd'
      · rw [if_pos hd, if_neg hd'] at hsame
        omega
    · by_cases hd' : Diverted line behind'
      · rw [if_neg hd, if_pos hd'] at hsame
        omega
      · exact iff_of_false hd hd'
  · intro h
    have hsame : route_request headers = route_request headers' := by
      rw [hroute, hroute']
      exact if_congr h rfl rfl
    refine ⟨hsame, ?_⟩
    intro β n_workers t t' fd fd' file file' c c' sent sent' hpeek hpeek' hsent hsent'
    rw [handle_connection_socket hpeek hsent, handle_connection_socket hpeek' hsent']
    unfold chooseWorker
    rw [hsame]

/-- No pattern stands behind either first line. -/
theorem routes_alike_plain_headers :
    RoutedAlike (ascii "GET /function/compute?a=1 HTTP/1.1\r\nHost: a\r\n\r\n")
      (ascii "GET /function/compute?a=1 HTTP/1.1\r\nHost: b\r\n\r\nbody") :=
  (routes_alike_iff (by decide +kernel)).mpr (by decide +kernel)

def getRoot : Bytes := ascii "GET / HTTP/1.1\r\n\r\n"

def getRootWithReferer : Bytes :=
  ascii "GET / HTTP/1.1\r\nReferer: GET /function/compute\r\n\r\n"

/-- **A pattern in a header diverts a request.** -/
theorem header_diverts :
    requestLine getRoot = requestLine getRootWithReferer
      ∧ route_request getRoot = 0 ∧ route_request getRootWithReferer = 1
      ∧ ¬ RoutedAlike getRoot getRootWithReferer := by
  have hplain : route_request getRoot = 0 := by decide +kernel
  have hreferer : route_request getRootWithReferer = 1 := by decide +kernel
  refine ⟨by decide +kernel, hplain, hreferer, fun h => ?_⟩
  have hroute := h.route
  rw [hplain, hreferer] at hroute
  exact absurd hroute (by decide)

end TlsMigration.Libtlspeek
