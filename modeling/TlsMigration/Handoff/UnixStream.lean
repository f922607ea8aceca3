/-
  TlsMigration.Handoff.UnixStream
  ───────────────────────────────
  A SOCK_STREAM Unix socket with SCM_RIGHTS, as POSIX leaves it open:
  `sendmsg` may take any positive part of a request, `recvmsg` may return any
  positive part of what is queued, and passed descriptors travel with the
  first byte of the message that carried them.
-/
import TlsMigration.Lib.Area

namespace TlsMigration.Handoff

/-- A descriptor number. -/
abbrev Fd := Nat

/-- Bytes not yet received, and the descriptors that come with the first of them. -/
structure UnixStream where
  bytes : Bytes
  rights : List Fd
  deriving DecidableEq

def UnixStream.empty : UnixStream := ⟨[], []⟩

/-- The control message of one `recvmsg`: whether it is (SOL_SOCKET, SCM_RIGHTS),
and the descriptors in it. -/
structure Cmsg where
  scm_rights : Bool
  fds : List Fd
  deriving DecidableEq

/-- What one `recvmsg` returns. -/
inductive RecvResult where
  /-- `-1` -/
  | error
  /-- `rcvd ≥ 0` bytes, the MSG_CTRUNC flag, the first control message. -/
  | data (bytes : Bytes) (ctrunc : Bool) (cmsg : Option Cmsg)
  deriving DecidableEq

/-- Number of payload bytes delivered. -/
def RecvResult.count : RecvResult → Nat
  | .error => 0
  | .data bytes _ _ => bytes.length

/-- The control message that carries the given descriptors. -/
def rightsCmsg (fds : List Fd) : Option Cmsg := if fds = [] then none else some ⟨true, fds⟩

/-- The results `recvmsg` may return when at most `want` bytes are asked for. -/
inductive UnixStream.Recv (q : UnixStream) (want : Nat) : RecvResult → Prop where
  | error : Recv q want .error
  | eof : q.bytes = [] → Recv q want (.data [] false none)
  | data (m : Nat) : 0 < m → m ≤ want → m ≤ q.bytes.length →
      Recv q want (.data (q.bytes.take m) false (rightsCmsg q.rights))

end TlsMigration.Handoff
