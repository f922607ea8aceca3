import TlsMigration.Lib.Transition
import TlsMigration.Tlspeek.Suites
import TlsMigration.Handoff.Sendfd
import TlsMigration.Handoff.Reassembly
import TlsMigration.Libtlspeek.Gateway
import TlsMigration.Faasd.KeepaliveWorker
import TlsMigration.Bench2.OwnerCheck
import TlsMigration.Bench2.Linear
import TlsMigration.Bench2.KeepAlive
import TlsMigration.HttpKa.BlockingWorker
import TlsMigration.HttpKa.Operands
import TlsMigration.HttpKa.Gateway
import TlsMigration.Migration.Safety
import TlsMigration.HttpKa.Linear
import TlsMigration.HttpKa.ExactlyOnce
import TlsMigration.Bench2gw.Linear
import TlsMigration.HttpKa.Dispatch
import TlsMigration.Migration.SamePlaintext
import TlsMigration.Migration.Windows
import TlsMigration.Migration.RecordBoundaries
import TlsMigration.Faasd.PartialRecord
import TlsMigration.HttpKa.OwnerPeek
import TlsMigration.VanillaHttp.Chunked
import TlsMigration.SumProd.ResponseFraming
import TlsMigration.Proxy.Responses
import TlsMigration.Tlspeek.PeekBounds
import TlsMigration.Tlspeek.Hex
import TlsMigration.Tlspeek.Nonce
import TlsMigration.Tlspeek.HkdfLabel
import TlsMigration.MemIo.Transport
import TlsMigration.Bench2.ContentLength
import TlsMigration.Faasd.ConnectionClose
import TlsMigration.Libtlspeek.Routing
import TlsMigration.Libtlspeek.Handler
import TlsMigration.Migration.Readiness
import TlsMigration.Bench2.Representation
import TlsMigration.Libtlspeek.FirstMessage
import TlsMigration.Libtlspeek.Responses
import TlsMigration.Vanilla.EventLoop
import TlsMigration.Bench2.ResponseFraming
import TlsMigration.BenchHttp.Progress
import TlsMigration.Faasd.Refinement
import TlsMigration.BenchHttps.Conn
import TlsMigration.BenchHttp.Tunnel
