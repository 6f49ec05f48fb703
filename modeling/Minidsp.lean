import Minidsp.Transition
import Minidsp.Buffer
import Minidsp.Packet
import Minidsp.Wire
import Minidsp.Abandoned
import Minidsp.AddressWire
import Minidsp.Codec
import Minidsp.DeviceTask
import Minidsp.FixedSize
import Minidsp.LockOrder
import Minidsp.Locks
import Minidsp.ResponseWire
import Minidsp.MockDevice
import Minidsp.FirUpload
import Minidsp.Levels
import Minidsp.MasterControl
import Minidsp.Coordinator
import Minidsp.Polling
import Minidsp.Subscription
import Minidsp.WireOrder
import Minidsp.FixedPoint
import Minidsp.Volume
import Minidsp.Report
import Minidsp.FirReject
import Minidsp.Readers
import Minidsp.XmlConfig
import Minidsp.Xover
import Minidsp.Logger
import Minidsp.Shutdown
import Minidsp.WsLoop
import Minidsp.Views
import Minidsp.SizeInference
import Minidsp.XoverConfig
import Minidsp.PeqImport
import Minidsp.RewText
import Minidsp.HexString
import Minidsp.Discovery
import Minidsp.Codegen
import Minidsp.MediaPlayer
import Minidsp.Serial
import Minidsp.Sharing
import Minidsp.Service
import Minidsp.OneCall
import Minidsp.Atomicity
import Minidsp.Roundtrip
import Minidsp.Effects
import Minidsp.Config
import Minidsp.Controls
import Minidsp.ConfigItems
import Minidsp.Settings
import Minidsp.ConfigApply
import Minidsp.Handlers
import Minidsp.TcpServer
import Minidsp.TcpClients
import Minidsp.TcpProgress
import Minidsp.HidLink
import Minidsp.SourceSelect
import Minidsp.Recorder
import Minidsp.LogFile
import Minidsp.NameMap
import Minidsp.MemoryDump
import Minidsp.Regions
import Minidsp.Products
import Minidsp.Layout
import Minidsp.NoPanic
