/-
  TlsMigration.HttpKa.Payload
  ───────────────────────────
  What the keep-alive workers of the HTTP integration share
  (both timing_fn_ka_worker.c): the struct that travels with a connection,
  and the reading of a header block.  There is no TLS here, so a connection
  takes nothing with it but its name and the time its request came.
-/
import TlsMigration.Http.Parse
import TlsMigration.Lib.Area

namespace TlsMigration.HttpKa

open TlsMigration.Http

def HTTPMIGRATE_MAGIC : UInt32 := 0x484D4B41
def HTTPMIGRATE_VERSION : UInt32 := 2
def HTTPMIGRATE_TARGET_LEN : Nat := 128
def CNTFRQ : UInt64 := 1000000000

/-- `httpmigrate_ka_payload_t` -/
structure KaPayload where
  magic : UInt32
  version : UInt32
  top1_rdtsc : UInt64
  cntfrq : UInt64
  top1_set : UInt8
  target_function : Area HTTPMIGRATE_TARGET_LEN

/-- The payload of a connection that is given back for another function. -/
def relayPayload (top1 : UInt64) (owner : Bytes) : KaPayload where
  magic := HTTPMIGRATE_MAGIC
  version := HTTPMIGRATE_VERSION
  top1_rdtsc := top1
  cntfrq := CNTFRQ
  top1_set := 1
  target_function := Area.ofBytes _ ((cstr owner).take (HTTPMIGRATE_TARGET_LEN - 1))

/-- The end of a header block, and how long the separator is. -/
def headerEnd (buf : Bytes) : Option (Nat × Nat) :=
  match find_subseq buf crlfcrlf with
  | some i => some (i, 4)
  | none => (find_subseq buf [Ch.lf, Ch.lf]).map (·, 2)

/-- `cl < 0 ? 0 : cl` -/
def bodyLength (mem : Bytes) (hdr_sz : Nat) : Nat := (parse_content_length mem hdr_sz).toNat

/-- The two spellings that are looked for. -/
def should_close (buf : Bytes) (hdr_sz : Nat) : Bool :=
  (find_subseq (buf.take hdr_sz) (ascii "Connection: close")).isSome
    || (find_subseq (buf.take hdr_sz) (ascii "connection: close")).isSome

end TlsMigration.HttpKa
