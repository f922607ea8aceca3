/-
  TlsMigration.HttpKa.Dispatch
  ────────────────────────────
  **FROM A NAME TO A SOCKET** (`dispatchToFunction` of benchhttp/server.go,
  `httpmigrate_ka_send_fd` of httpmigrate_ka.c).

  The path goes through `C.CString` and a `strncpy` into `sun_path`.  The
  first ends at a NUL and the second after 107 bytes, and neither says so.

    • `dispatch_exact_iff` — when two names are dispatched each to its own
      socket.
-/
import TlsMigration.Http.GoDispatch
import TlsMigration.Bench2gw.Ownership

namespace TlsMigration.HttpKa

open TlsMigration.Http TlsMigration.Handoff FdTable
open TlsMigration.Migration (sunPath)

/-! ## §1. The model. -/

/-- What the calls of `httpmigrate_ka_send_fd` return: `socket` depends on what is open,
`connect` on the address. -/
structure SendCalls where
  socket : FdTable → Option Fd
  connect_ok : Bytes → Bool
  /-- `sendmsg` succeeded -/
  sent : Bool

/-- A new socket has a number that is not in use. -/
def SendCalls.Fresh (o : SendCalls) : Prop := ∀ t fd, o.socket t = some fd → t.files fd = none

/-- `httpmigrate_ka_send_fd`: the table, the address that was connected to, and the return
value. -/
def httpmigrate_ka_send_fd (t : FdTable) (unix_sock_path : Bytes) (client_fd : Fd)
    (file : FileId) (o : SendCalls) : FdTable × Option Bytes × Int :=
  let sun_path := sunPath unix_sock_path
  match unix_client_connect t ⟨o.socket t, o.connect_ok sun_path⟩ with
  | (t, none) => (t.close client_fd file, none, -1)
  | (t, some uds_fd) =>
      let r := transferFd t uds_fd client_fd file o.sent
      let t := r.1.close uds_fd.1 uds_fd.2
      if r.2 ≠ 0 then (t.close client_fd file, some sun_path, r.2) else (t, some sun_path, r.2)

/-- `dispatchToFunction`; the last component says that the error is `nil`. -/
def dispatchToFunction (t : FdTable) (socketDir fnName : Bytes) (client : Held)
    (o : SendCalls) : FdTable × Option Bytes × Bool :=
  match httpmigrate_ka_send_fd t (sockPath socketDir fnName) client.1 client.2 o with
  | (t, address, rc) => (t, address, rc = 0)

/-! ## §2. One dispatch. -/

variable {t : FdTable} {fd : Fd} {id : FileId} {o : SendCalls}

/-- The descriptor is handed over at the address, or it is closed. -/
theorem httpmigrate_ka_send_fd_spec (path : Bytes) (ht : t.Ok) (hid : t.files fd = some id)
    (hep : t.epoll fd = false) (hfresh : o.Fresh) :
    (∃ t', Scope [id] t t' ∧ httpmigrate_ka_send_fd t path fd id o = (t', some (sunPath path), 0))
    ∨ ∃ t' address, Scope [] t t'
        ∧ httpmigrate_ka_send_fd t path fd id o = (t'.close fd id, address, -1) := by
  have hfree : ConnectCalls.Fresh ⟨o.socket t, o.connect_ok (sunPath path)⟩ t :=
    fun r hr => hfresh t r hr
  unfold httpmigrate_ka_send_fd
  dsimp only
  cases hc : unix_client_connect t ⟨o.socket t, o.connect_ok (sunPath path)⟩ with
  | mk t' uds =>
      cases uds with
      | none =>
          have hscope := connect_failed (.refl ht) ht hfree (by rw [hc])
          rw [hc] at hscope
          exact Or.inr ⟨t', none, hscope, rfl⟩
      | some r =>
          have hscope := exchange (.refl ht) ht hfree (by rw [hc]) hid (by simp) hep o.sent
          rw [hc] at hscope
          dsimp only at hscope ⊢
          unfold transferFd at hscope ⊢
          cases hs : o.sent with
          | true =>
              rw [hs] at hscope
              exact Or.inl ⟨_, hscope, rfl⟩
          | false =>
              rw [hs] at hscope
              exact Or.inr ⟨_, some (sunPath path), hscope, rfl⟩

/-- A descriptor that was still open is closed once by a `close`. -/
theorem closed_once {t' : FdTable} (h : Scope [] t t') (hid : t.files fd = some id) :
    (t'.close fd id).closes id = 1 := by
  have hopen := h.still_open hid (by simp)
  have hnone := (h.ok.open_fresh hopen).1
  show Function.update t'.closes id (t'.closes id + 1) id = 1
  rw [Function.update_self, hnone]

/-! ## §3. The address. -/

/-- The path goes into `sun_path` as it is. -/
structure Fits (path : Bytes) : Prop where
  nul : Ch.nul ∉ path
  length : path.length ≤ 107

theorem sunPath_eq_iff {path : Bytes} : sunPath path = path ↔ Fits path := by
  unfold sunPath
  constructor
  · intro h
    have hlen : path.length ≤ 107 := by
      rw [← h, List.length_take]
      exact Nat.min_le_left _ _
    refine ⟨fun hnul => ?_, hlen⟩
    -- the path is a part of its own C string
    rw [← h] at hnul
    exact nul_notMem_cstr _ (List.mem_of_mem_take hnul)
  · rintro ⟨hnul, hlen⟩
    rw [cstr_of_no_nul hnul, List.take_of_length_le hlen]

/-- Every dispatch of the name disposes of the client, and either fails and closes it, or
has connected to the socket of the name. -/
def Exact (socketDir fnName : Bytes) : Prop :=
  ∀ (t : FdTable) (client : Held) (o : SendCalls), t.Ok → t.files client.1 = some client.2 →
    t.epoll client.1 = false → o.Fresh →
    let r := dispatchToFunction t socketDir fnName client o
    Released t r.1 client.2
      ∧ if r.2.2 then r.2.1 = some (sockPath socketDir fnName) else r.1.closes client.2 = 1

/-- The calls of a dispatch that succeeds; the socket gets the number 1. -/
def succeeding : SendCalls := ⟨fun t => if t.files 1 = none then some 1 else none, fun _ => true, true⟩

theorem succeeding_fresh : succeeding.Fresh := by
  intro t fd hfd
  unfold succeeding at hfd
  dsimp only at hfd
  split at hfd
  next hfree =>
    injection hfd with hfd
    rw [← hfd]
    exact hfree
  next => cases hfd

/-- **A dispatch is exact** exactly when the path fits. -/
theorem exact_iff (socketDir fnName : Bytes) :
    Exact socketDir fnName ↔ Fits (sockPath socketDir fnName) := by
  rw [← sunPath_eq_iff]
  constructor
  · intro h
    -- descriptor 0 is the only one open, and all goes well
    have hrun := (h (FdTable.single 0) (0, 0) succeeding (single_ok 0) rfl rfl
      succeeding_fresh).2
    have haddress : some (sunPath (sockPath socketDir fnName))
        = some (sockPath socketDir fnName) := hrun
    exact Option.some.inj haddress
  · intro hfit t client o ht hid hep hfresh
    unfold dispatchToFunction
    rcases httpmigrate_ka_send_fd_spec (sockPath socketDir fnName) ht hid hep hfresh with
      ⟨t', hscope, hrun⟩ | ⟨t', address, hscope, hrun⟩
    · rw [hrun]
      refine ⟨Released.of_scope hscope ht hid List.mem_cons_self, ?_⟩
      show some (sunPath (sockPath socketDir fnName)) = _
      rw [hfit]
    · rw [hrun]
      have hgone := hscope.close ht hid (by simp)
      exact ⟨Released.of_scope hgone ht hid List.mem_cons_self, closed_once hscope hid⟩

/-! ## §4. Two names. -/

/-- The file name of an accepted name is one element of a path. -/
theorem sock_ordinary {p n : Bytes} (h : Benchhttp.parseFunctionName p = some n) :
    GoPath.Ordinary (n ++ ascii ".sock") := by
  obtain ⟨-, -, -, -, hne, hends, -⟩ := (parseFunctionName_iff.mp h).1
  have hslash : Ch.slash ∉ n := by
    intro hmem
    exact absurd (hends _ hmem) (by decide)
  -- it is longer than `.` and `..`
  have hlong : 5 < (n ++ ascii ".sock").length := by
    have hpos := List.length_pos_of_ne_nil hne
    rw [List.length_append]
    show 5 < n.length + 5
    omega
  refine ⟨?_, ?_, ?_, ?_⟩
  · intro he
    rw [he] at hlong
    simp at hlong
  · intro he
    rw [he] at hlong
    exact absurd hlong (by decide)
  · intro he
    rw [he] at hlong
    exact absurd hlong (by decide)
  · intro hmem
    rcases List.mem_append.mp hmem with hmem | hmem
    · exact hslash hmem
    · exact absurd hmem (by decide)

/-- **Two names have two paths.** -/
theorem sockPath_injective {socketDir p₁ p₂ n₁ n₂ : Bytes}
    (h₁ : Benchhttp.parseFunctionName p₁ = some n₁)
    (h₂ : Benchhttp.parseFunctionName p₂ = some n₂)
    (heq : sockPath socketDir n₁ = sockPath socketDir n₂) : n₁ = n₂ := by
  have hname := GoPath.Join_injective socketDir (sock_ordinary h₁) (sock_ordinary h₂) heq
  exact List.append_cancel_right hname

/-- **Two functions are never delivered to the same socket, and each is delivered to its
own,** exactly when both paths go into `sun_path` as they are. -/
theorem dispatch_exact_iff (socketDir p₁ p₂ n₁ n₂ : Bytes)
    (h₁ : Benchhttp.parseFunctionName p₁ = some n₁)
    (h₂ : Benchhttp.parseFunctionName p₂ = some n₂) (hne : n₁ ≠ n₂) :
    (Exact socketDir n₁ ∧ Exact socketDir n₂
        ∧ sunPath (sockPath socketDir n₁) ≠ sunPath (sockPath socketDir n₂))
      ↔ Fits (sockPath socketDir n₁) ∧ Fits (sockPath socketDir n₂) := by
  rw [exact_iff, exact_iff]
  constructor
  · exact fun h => ⟨h.1, h.2.1⟩
  · rintro ⟨hfit₁, hfit₂⟩
    refine ⟨hfit₁, hfit₂, fun heq => ?_⟩
    rw [sunPath_eq_iff.mpr hfit₁, sunPath_eq_iff.mpr hfit₂] at heq
    exact hne (sockPath_injective h₁ h₂ heq)

theorem dispatch_exact_iff_two :
    Exact (ascii "/run/socks") (ascii "sum") ∧ Exact (ascii "/run/socks") (ascii "prod") := by
  have hfits : Fits (sockPath (ascii "/run/socks") (ascii "sum"))
      ∧ Fits (sockPath (ascii "/run/socks") (ascii "prod")) :=
    ⟨⟨by decide +kernel, by decide +kernel⟩, ⟨by decide +kernel, by decide +kernel⟩⟩
  have h := (dispatch_exact_iff (ascii "/run/socks") (ascii "GET /function/sum HTTP/1.1")
    (ascii "GET /function/prod HTTP/1.1") (ascii "sum") (ascii "prod") (by decide +kernel)
    (by decide +kernel) (by decide)).mpr hfits
  exact ⟨h.1, h.2.1⟩

/-- Two names that are the same up to their 107th byte, and two that are the same up to a
NUL: in either case both go to one socket. -/
theorem dispatch_merges :
    (∃ p₁ p₂ n₁ n₂, Benchhttp.parseFunctionName p₁ = some n₁
      ∧ Benchhttp.parseFunctionName p₂ = some n₂ ∧ n₁ ≠ n₂ ∧ 107 ≤ n₁.length
      ∧ sunPath (sockPath (ascii "/run") n₁) = sunPath (sockPath (ascii "/run") n₂))
    ∧ ∃ p₁ p₂ n₁ n₂, Benchhttp.parseFunctionName p₁ = some n₁
      ∧ Benchhttp.parseFunctionName p₂ = some n₂ ∧ n₁ ≠ n₂ ∧ n₁.length ≤ 107
      ∧ sunPath (sockPath (ascii "/run") n₁) = sunPath (sockPath (ascii "/run") n₂) := by
  constructor
  · let stem : Bytes := List.replicate 107 97
    exact ⟨ascii "GET /function/" ++ (stem ++ ascii "x"), ascii "GET /function/" ++ (stem ++ ascii "y"),
      stem ++ ascii "x", stem ++ ascii "y", by decide +kernel, by decide +kernel,
      by decide +kernel, by decide +kernel, by decide +kernel⟩
  · let a : Bytes := ascii "a" ++ 0 :: ascii "x"
    let b : Bytes := ascii "a" ++ 0 :: ascii "y"
    exact ⟨ascii "GET /function/" ++ a, ascii "GET /function/" ++ b, a, b, by decide +kernel,
      by decide +kernel, by decide +kernel, by decide +kernel, by decide +kernel⟩

end TlsMigration.HttpKa
