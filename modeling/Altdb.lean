import Altdb.Fallible
import Altdb.Transition
import Altdb.Config
import Altdb.Store
import Altdb.Ipc
import Altdb.ServiceName
import Altdb.Daemon
import Altdb.DaemonLoop
import Altdb.DaemonEffects
import Altdb.DaemonAuthorization
import Altdb.DaemonSupervision
import Altdb.PairingWindow
import Altdb.DaemonPolicy
import Altdb.NativeMonitor
import Altdb.Protocol
import Altdb.PacketFormat
import Altdb.Connection
import Altdb.ConnectionSteps
import Altdb.StreamHistory
import Altdb.ServicePass
import Altdb.StreamSteps
import Altdb.History
import Altdb.StreamQueue
import Altdb.StreamDelivery
import Altdb.StreamOutput
import Altdb.StreamAcknowledgement
import Altdb.StreamLifecycle
import Altdb.Link
import Altdb.LinkSession
import Altdb.LinkInvariant
import Altdb.LinkSteps
import Altdb.LinkAgreement
import Altdb.LinkFlow
import Altdb.Broker
import Altdb.BrokerExchange
import Altdb.DaemonMessages
import Altdb.Worker
import Altdb.System
import Altdb.SystemExchange
import Altdb.WorkerThreads
import Altdb.Revocation
import Altdb.Disconnection
import Altdb.PairingCommit
import Altdb.Files
import Altdb.StateFile
import Altdb.JsonText
import Altdb.Base64
import Altdb.HostKeys
import Altdb.StoreInvariant
import Altdb.Serialize
import Altdb.StateDirectory
import Altdb.StoreCommit
import Altdb.StateSize
import Altdb.Reopening
import Altdb.MessageSize
import Altdb.MessageLimits
import Altdb.ConnectionInvariant
import Altdb.RequestLimits
import Altdb.Totals
import Altdb.StreamBounds
import Altdb.RemoteIds
import Altdb.ReverseTable
import Altdb.ReverseAccept
import Altdb.TlsOutput
import Altdb.OutputLimit
import Altdb.Framing
import Altdb.PacketParse
import Altdb.ServiceIds
import Altdb.ServiceOwners
import Altdb.NativeSettings
import Altdb.Hexadecimal
import Altdb.ReverseReplies
import Altdb.Mdns
import Altdb.MdnsQueries
import Altdb.MdnsResponse
import Altdb.MdnsNames
import Altdb.ShellFrames
import Altdb.ShellOutput
import Altdb.ShellInput
import Altdb.Pake
import Altdb.WaitForIo
import Altdb.Sync
import Altdb.SyncSend
import Altdb.SyncClient
import Altdb.SyncAnswers
import Altdb.PairingExchange
import Altdb.TlsAccept
import Altdb.SoftState
import Altdb.Network
import Altdb.Credentials
import Altdb.DaemonNetwork
import Altdb.Confinement
import Altdb.MdnsPublisher
import Altdb.TransportRun
import Altdb.JsonValue
import Altdb.CommandLine
import Altdb.ControlChannel
import Altdb.ControlAuthority
import Altdb.Watchdog
import Altdb.WorkerLimits
