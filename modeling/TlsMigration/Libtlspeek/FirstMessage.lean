/-
  TlsMigration.Libtlspeek.FirstMessage
  ────────────────────────────────────
  **A PLAIN FIRST MESSAGE AND ITS REQUEST BUFFER.**

  The bound that is tested in front of the copy is the size of the struct the
  message was received into, 24648 bytes.  The buffer it is copied to has
  8192 bytes, and the terminator takes one more than the message:

    • `copyRequest_of_lt`     — a shorter message is copied whole, and the
                                request is its C string;
    • `copyRequest_of_le`     — a message of 8192 bytes or more runs over the
                                end of the buffer;
    • `plain_in_bounds_iff`   — so the path is in bounds below 8192, and only
                                there.
-/
import TlsMigration.Libtlspeek.Worker

namespace TlsMigration.Libtlspeek

open TlsMigration.Http TlsMigration.Tlspeek TlsMigration.Handoff

/-! ## §1. The copy. -/

/-- The struct is three times as large as the request buffer. -/
theorem SERIAL_SIZE_eq : SERIAL_SIZE = 24648 := by decide +kernel

theorem store_of_le {n : Nat} {a : Area n} {off : Nat} {src : Bytes}
    (h : off + src.length ≤ n) : store a off src = some (a.writeAt off src) :=
  if_pos h

theorem store_of_lt {n : Nat} {a : Area n} {off : Nat} {src : Bytes}
    (h : n < off + src.length) : store a off src = none :=
  if_neg (by omega)

/-- The struct holds the message from its start. -/
theorem take_receiveSerial {bytes : Bytes} (hle : bytes.length ≤ SERIAL_SIZE) :
    (receiveSerial bytes).bytes.take bytes.length = bytes :=
  Area.take_write hle

/-- A message that leaves room for the terminator. -/
theorem copyRequest_of_lt (stack : Area REQUEST_SIZE) {bytes : Bytes}
    (hle : bytes.length ≤ SERIAL_SIZE) (hlt : bytes.length < REQUEST_SIZE) :
    ∃ request : Area REQUEST_SIZE,
      copyRequest stack (receiveSerial bytes) bytes.length = some request
        ∧ request.bytes = bytes ++ Ch.nul :: stack.bytes.drop (bytes.length + 1) := by
  have hcopy : store stack 0 bytes = some (stack.writeAt 0 bytes) :=
    store_of_le (by omega)
  have hnul : store (stack.writeAt 0 bytes) bytes.length [Ch.nul]
      = some ((stack.writeAt 0 bytes).writeAt bytes.length [Ch.nul]) :=
    store_of_le (by simp only [List.length_singleton]; omega)
  refine ⟨(stack.writeAt 0 bytes).writeAt bytes.length [Ch.nul], ?_, ?_⟩
  · unfold copyRequest
    rw [take_receiveSerial hle, hcopy, Option.bind_some, hnul]
  · have hstart : (stack.writeAt 0 bytes).bytes = bytes ++ stack.bytes.drop bytes.length := by
      rw [Area.writeAt_bytes, List.take_zero, List.nil_append, Nat.zero_add,
        List.take_of_length_le (by omega)]
    rw [Area.writeAt_bytes, hstart, List.take_left,
      List.take_of_length_le (by simp only [List.length_singleton]; omega),
      List.drop_append, List.drop_of_length_le (by simp), List.drop_drop]
    simp

/-- A message that does not. -/
theorem copyRequest_of_le (stack : Area REQUEST_SIZE) {bytes : Bytes}
    (hle : bytes.length ≤ SERIAL_SIZE) (hlong : REQUEST_SIZE ≤ bytes.length) :
    copyRequest stack (receiveSerial bytes) bytes.length = none := by
  unfold copyRequest
  rw [take_receiveSerial hle]
  cases store stack 0 bytes with
  | none => rfl
  | some request =>
      -- at 8192 bytes only the terminator is outside
      show store request bytes.length [Ch.nul] = none
      apply store_of_lt
      simp only [List.length_singleton]
      omega

/-! ## §2. The message. -/

theorem first_message_plain (stack : Area REQUEST_SIZE) {bytes : Bytes}
    (hpos : 0 < bytes.length) (hle : bytes.length ≤ SERIAL_SIZE) :
    first_message stack (.some bytes none)
      = .plain (copyRequest stack (receiveSerial bytes) bytes.length) :=
  if_pos ⟨hpos, hle⟩

/-- **A short request reaches the handler as it was sent**, up to its first NUL. -/
theorem first_message_request (stack : Area REQUEST_SIZE) {bytes : Bytes}
    (hpos : 0 < bytes.length) (hlt : bytes.length < REQUEST_SIZE) :
    ∃ request : Area REQUEST_SIZE,
      first_message stack (.some bytes none) = .plain (some request)
        ∧ Ch.nul ∈ request.bytes ∧ cstr request.bytes = cstr bytes := by
  have hle : bytes.length ≤ SERIAL_SIZE := by
    rw [SERIAL_SIZE_eq]
    unfold REQUEST_SIZE at hlt
    omega
  obtain ⟨request, hcopy, hbytes⟩ := copyRequest_of_lt stack hle hlt
  refine ⟨request, ?_, ?_, ?_⟩
  · rw [first_message_plain stack hpos hle, hcopy]
  · rw [hbytes]
    simp
  · rw [hbytes]
    exact cstr_append_nul _ _

/-- The path of a plain first message stays in the request buffer. -/
structure PlainInBounds (stack : Area REQUEST_SIZE) (bytes : Bytes) : Prop where
  /-- the indices that are written -/
  indices : ∀ i, i ≤ bytes.length → i < REQUEST_SIZE
  /-- what the handler gets is a C string of the buffer -/
  terminated : ∃ request : Area REQUEST_SIZE,
    first_message stack (.some bytes none) = .plain (some request) ∧ Ch.nul ∈ request.bytes

/-- **The path is in bounds for the messages shorter than the buffer, and for no others.** -/
theorem plain_in_bounds_iff (stack : Area REQUEST_SIZE) (bytes : Bytes)
    (hpos : 0 < bytes.length) (hle : bytes.length ≤ SERIAL_SIZE) :
    PlainInBounds stack bytes ↔ bytes.length < REQUEST_SIZE := by
  constructor
  · intro h
    -- already the copy has a result only below the size of the buffer
    obtain ⟨request, hrequest, -⟩ := h.terminated
    by_contra hlong
    rw [first_message_plain stack hpos hle, copyRequest_of_le stack hle (by omega)] at hrequest
    simp at hrequest
  · intro hlt
    obtain ⟨request, hrequest, hnul, -⟩ := first_message_request stack hpos hlt
    exact ⟨fun i hi => by omega, request, hrequest, hnul⟩

theorem plain_in_bounds_get :
    PlainInBounds (Area.zero REQUEST_SIZE) (ascii "GET /sum?a=1&b=2 HTTP/1.1\r\n\r\n") :=
  (plain_in_bounds_iff (Area.zero REQUEST_SIZE) (ascii "GET /sum?a=1&b=2 HTTP/1.1\r\n\r\n")
    (by decide +kernel) (by decide +kernel)).mpr (by decide +kernel)

/-- A message as long as the buffer: `request[8192] = '\0'`. -/
theorem full_message_out_of_bounds :
    0 < (List.replicate 8192 (65 : UInt8)).length
      ∧ (List.replicate 8192 (65 : UInt8)).length ≤ SERIAL_SIZE
      ∧ ¬ PlainInBounds (Area.zero REQUEST_SIZE) (List.replicate 8192 65) := by
  rw [SERIAL_SIZE_eq, List.length_replicate]
  refine ⟨by omega, by omega, ?_⟩
  intro h
  have hlast := h.indices 8192 (by rw [List.length_replicate])
  unfold REQUEST_SIZE at hlast
  omega

end TlsMigration.Libtlspeek
