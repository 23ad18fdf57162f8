import AppComponts.Application
import AppComponts.ApplicationLog
import AppComponts.Bidirectional
import AppComponts.CaCert
import AppComponts.CaExport
import AppComponts.CaIdentity
import AppComponts.Capture
import AppComponts.CapturedText
import AppComponts.Connections
import AppComponts.Copy
import AppComponts.CopyFlush
import AppComponts.CopyRelay
import AppComponts.CopyReturns
import AppComponts.CopyRounds
import AppComponts.DebugStream
import AppComponts.HalfClose
import AppComponts.Library.AsyncIo
import AppComponts.Library.Focus
import AppComponts.Library.Interleaving
import AppComponts.Library.LetterCase
import AppComponts.Library.Mailbox
import AppComponts.Library.Overlay
import AppComponts.Library.Panics
import AppComponts.Library.Pipe
import AppComponts.Library.Serving
import AppComponts.Library.Text
import AppComponts.Library.Transition
import AppComponts.Library.Utf8
import AppComponts.Library.Window
import AppComponts.LogDelivery
import AppComponts.LogSends
import AppComponts.LogStore
import AppComponts.LogTable
import AppComponts.LogTruth
import AppComponts.LogWindow
import AppComponts.Logs
import AppComponts.MethodCase
import AppComponts.PlainHttp
import AppComponts.PlainLog
import AppComponts.Prelude
import AppComponts.ProxyControl
import AppComponts.ProxyStart
import AppComponts.RequestStable
import AppComponts.RequestText
import AppComponts.ResponseText
import AppComponts.Routing
import AppComponts.Session
import AppComponts.SessionLog
import AppComponts.SessionWire
import AppComponts.Shutdown
import AppComponts.Tabs
import AppComponts.TransferService
import AppComponts.TunnelCapture
import AppComponts.TunnelLog
import AppComponts.TunnelPanics
import AppComponts.TunnelRelay
import AppComponts.TunnelResolves
import AppComponts.TunnelSession
import AppComponts.WindDown
