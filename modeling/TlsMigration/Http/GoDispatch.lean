/-
  TlsMigration.Http.GoDispatch
  ────────────────────────────
  **THE TARGET NAME IN THE PAYLOAD** (`setPayloadTarget` and `payloadTarget`
  of benchhttp/server.go and of tlsmigratekeepalive/server.go).

  A name that a routing parser has accepted goes two ways: as text into the
  128-byte field of the payload, and as a path to the function's socket.
  The field is a copy of fixed size, and it is read back as a C string.

    • `target_survives_iff` — when the field gives the name back.
-/
import TlsMigration.Lib.GoPath
import TlsMigration.Http.GoRoute
import TlsMigration.Bench2.Payload

namespace TlsMigration.Http

open TlsMigration.GoPath

/-! ## §1. The target field. -/

def targetSize : Nat := 128

/-- The field after `setPayloadTarget`: zeros, and as much of the name as there is room
for. -/
def targetField (target : Bytes) : Area targetSize := Area.ofBytes _ target

/-- `payloadTarget`: the field up to its first zero byte, or to its end. -/
def payloadTarget (target_function : Area targetSize) : Bytes := cstr target_function.bytes

/-- The socket of a function. -/
def sockPath (socketDir fnName : Bytes) : Bytes := Join socketDir (fnName ++ ascii ".sock")

namespace Benchhttp

/-- `httpmigrate_ka_payload_t` of the gateway. -/
structure Payload where
  magic : UInt32
  version : UInt32
  target_function : Area targetSize

def setPayloadTarget (payload : Payload) (target : Bytes) : Payload :=
  { payload with target_function := targetField target }

end Benchhttp

namespace Tlsmigratekeepalive

/-- `setPayloadTarget` on a `tlsmigrate_keepalive_payload_t`. -/
def setPayloadTarget {S : Type*} (payload : Bench2.Payload S) (target : Bytes) :
    Bench2.Payload S :=
  { payload with target_function := targetField target }

end Tlsmigratekeepalive

/-- The field is terminated, and gives the name to Go, to C whatever lies behind the field,
and to a dispatch by payload. -/
structure Decodes (target_function : Area targetSize) (name : Bytes) : Prop where
  terminated : Ch.nul ∈ target_function.bytes
  payloadTarget : payloadTarget target_function = name
  cstring : ∀ behind, cstr (target_function.bytes ++ behind) = name
  dispatch : ∀ socketDir, sockPath socketDir (Http.payloadTarget target_function)
    = sockPath socketDir name

variable {name : Bytes}

/-- A name with room for a zero behind it. -/
theorem targetField_short (h : name.length ≤ 127) :
    ∃ zeros, (targetField name).bytes = name ++ Ch.nul :: zeros := by
  have hroom : 128 - name.length = (127 - name.length) + 1 := by omega
  refine ⟨List.replicate (127 - name.length) 0, ?_⟩
  show name.take 128 ++ List.replicate (128 - name.length) 0 = _
  rw [List.take_of_length_le (by omega), hroom, List.replicate_succ]
  rfl

/-- A name without one. -/
theorem targetField_long (h : 128 ≤ name.length) : (targetField name).bytes = name.take 128 := by
  show name.take 128 ++ List.replicate (128 - name.length) 0 = _
  rw [Nat.sub_eq_zero_of_le h, List.replicate_zero, List.append_nil]

/-- **A field gives its name back** exactly when the name leaves room for the terminator and
holds none itself. -/
theorem decodes_iff : Decodes (targetField name) name ↔ name.length ≤ 127 ∧ Ch.nul ∉ name := by
  constructor
  · intro h
    have hnul : Ch.nul ∉ name := by
      rw [← h.payloadTarget]
      exact nul_notMem_cstr _
    refine ⟨?_, hnul⟩
    by_contra hlong
    have hfield := @targetField_long name (by omega)
    -- the field is full of the name, so no byte of it is the terminator
    have hterm := h.terminated
    rw [hfield] at hterm
    exact hnul (List.mem_of_mem_take hterm)
  · rintro ⟨hlen, hnul⟩
    obtain ⟨zeros, hfield⟩ := targetField_short hlen
    have hread : ∀ behind, cstr ((targetField name).bytes ++ behind) = name := by
      intro behind
      rw [hfield, List.append_assoc, List.cons_append, cstr_append_nul]
      exact cstr_of_no_nul hnul
    have hgo : payloadTarget (targetField name) = name := by
      have := hread []
      rwa [List.append_nil] at this
    refine ⟨?_, hgo, hread, fun socketDir => by rw [hgo]⟩
    rw [hfield]
    simp

/-- What tlsmigratekeepalive accepts holds no NUL. -/
theorem nul_notMem_name (h : name.all nameByte = true) : Ch.nul ∉ name := by
  intro hnul
  have hbyte := List.all_eq_true.mp h _ hnul
  exact absurd hbyte (by decide)

/-- **The target name survives the payload** exactly when it is at most 127 bytes long and,
in benchhttp, holds no NUL; the parser of tlsmigratekeepalive refuses the latter itself. -/
theorem target_survives_iff (peeked n : Bytes) :
    (Benchhttp.parseFunctionName peeked = some n → ∀ payload : Benchhttp.Payload,
      (Decodes (Benchhttp.setPayloadTarget payload n).target_function n
        ↔ n.length ≤ 127 ∧ Ch.nul ∉ n))
    ∧ (Tlsmigratekeepalive.parseFunctionName peeked = some n →
      ∀ {S : Type} (payload : Bench2.Payload S),
        (Decodes (Tlsmigratekeepalive.setPayloadTarget payload n).target_function n
          ↔ n.length ≤ 127)) := by
  constructor
  · exact fun _ _ => decodes_iff
  · intro hparse S payload
    have haccept := (parseFunctionName_iff.mp hparse).2
    refine Iff.trans decodes_iff ?_
    exact and_iff_left (nul_notMem_name haccept)

/-- The longest name that survives, and a request for it. -/
theorem target_survives_iff_longest :
    ∃ peeked n, n.length = 127 ∧ Benchhttp.parseFunctionName peeked = some n
      ∧ Tlsmigratekeepalive.parseFunctionName peeked = some n
      ∧ (∀ payload : Benchhttp.Payload,
        Decodes (Benchhttp.setPayloadTarget payload n).target_function n)
      ∧ ∀ payload : Bench2.Payload Unit,
        Decodes (Tlsmigratekeepalive.setPayloadTarget payload n).target_function n := by
  let name : Bytes := List.replicate 127 97
  let peeked := ascii "GET /function/" ++ name ++ ascii " HTTP/1.1"
  have hb : Benchhttp.parseFunctionName peeked = some name := by decide +kernel
  have hk : Tlsmigratekeepalive.parseFunctionName peeked = some name := by decide +kernel
  have hlen : name.length ≤ 127 := (List.length_replicate).le
  have hnul : Ch.nul ∉ name := by decide +kernel
  obtain ⟨hfirst, hsecond⟩ := target_survives_iff peeked name
  exact ⟨peeked, name, List.length_replicate, hb, hk, fun payload => (hfirst hb payload).mpr ⟨hlen, hnul⟩,
    fun payload => (hsecond hk payload).mpr hlen⟩

/-- One byte more, and no terminator is left; and a NUL that benchhttp lets through cuts
the name. -/
theorem target_does_not_survive :
    (∃ peeked n, Tlsmigratekeepalive.parseFunctionName peeked = some n
      ∧ ∀ payload : Bench2.Payload Unit,
        ¬ Decodes (Tlsmigratekeepalive.setPayloadTarget payload n).target_function n)
    ∧ ∃ peeked n, Benchhttp.parseFunctionName peeked = some n
      ∧ ∀ payload : Benchhttp.Payload,
        ¬ Decodes (Benchhttp.setPayloadTarget payload n).target_function n := by
  constructor
  · refine ⟨ascii "GET /function/" ++ List.replicate 128 97, List.replicate 128 97,
      by decide +kernel, fun payload h => ?_⟩
    have hlen := (decodes_iff.mp h).1
    rw [List.length_replicate] at hlen
    omega
  · refine ⟨ascii "GET /function/a" ++ 0 :: ascii "b", ascii "a" ++ 0 :: ascii "b",
      by decide +kernel, fun payload h => ?_⟩
    exact (decodes_iff.mp h).2 (by decide)

end TlsMigration.Http
