import Mtrtk.FrameScan
import Mtrtk.FrameChunking
import Mtrtk.FrameForm
import Mtrtk.FrameResync
import Mtrtk.Link
import Mtrtk.LinkValget
import Mtrtk.LinkValset
import Mtrtk.BaseMode
import Mtrtk.Receiver
import Mtrtk.BaseVerify
import Mtrtk.Daemon
import Mtrtk.Reconnect
import Mtrtk.PutMode
import Mtrtk.Epochs
import Mtrtk.EpochsOnce
import Mtrtk.RawLog
import Mtrtk.KeepMark
import Mtrtk.FrozenClock
import Mtrtk.Base64
import Mtrtk.NtripRequest
import Mtrtk.NtripSession
import Mtrtk.Caster
import Mtrtk.SbgAnchors
import Mtrtk.Alerts
import Mtrtk.AlertEdges
import Mtrtk.Database
import Mtrtk.Transactions
import Mtrtk.Isolation
import Mtrtk.Jobs
import Mtrtk.JobStatus
import Mtrtk.JobDelete
import Mtrtk.PruneKeep
import Mtrtk.EnvFile
import Mtrtk.EnvUpdate
import Mtrtk.EnvRoundTrip
import Mtrtk.WsHub
import Mtrtk.WsFanOut
import Mtrtk.Sampler
import Mtrtk.Rollups
import Mtrtk.Serial
import Mtrtk.SerialLog
import Mtrtk.SitesCalls
import Mtrtk.Sessions
import Mtrtk.PointAverage
import Mtrtk.PointCollector
import Mtrtk.RoverNtrip
import Mtrtk.SbgFrames
import Mtrtk.SbgFraming
import Mtrtk.Readings
import Mtrtk.VnFields
import Mtrtk.VnFrames
import Mtrtk.VnFraming
import Mtrtk.BasePoll
import Mtrtk.Bisect
import Mtrtk.EnvFrame
import Mtrtk.ReceiverRun
import Mtrtk.Replay
import Mtrtk.Bus
import Mtrtk.Keyed
import Mtrtk.Satellites
import Mtrtk.Debounce
import Mtrtk.AlertDebounce
import Mtrtk.NtripRetry
import Mtrtk.Convbin
import Mtrtk.Events
import Mtrtk.FetchChunks
import Mtrtk.Publish
import Mtrtk.HeaderTime
import Mtrtk.PublishManifest
import Mtrtk.Pos
import Mtrtk.Dict
import Mtrtk.RtkConf
import Mtrtk.RtkConfRoundTrip
import Mtrtk.Delimited
import Mtrtk.SerialSink
import Mtrtk.Backup
import Mtrtk.BackupMask
import Mtrtk.CrcBits
import Mtrtk.JsonDump
import Mtrtk.ManifestSize
import Mtrtk.NameCodes
import Mtrtk.IntText
import Mtrtk.BinaryOutput
import Mtrtk.FrameBudget
import Mtrtk.LoginThrottle
import Mtrtk.SbgRawGnss
import Mtrtk.BackStep
import Mtrtk.Packing
import Mtrtk.NmeaOut
import Mtrtk.NmeaFraming
import Mtrtk.NmeaRead
import Mtrtk.Device
import Mtrtk.SbgCommands
import Mtrtk.SbgAtomic
import Mtrtk.SbgConfig
import Mtrtk.SbgConfigRun
import Mtrtk.SbgConfigSafe
import Mtrtk.SbgConfigSettles
import Mtrtk.NmeaPublisher
import Mtrtk.NmeaDelivery
import Mtrtk.Migrations
import Mtrtk.RawRecovery
import Mtrtk.Splice
import Mtrtk.BackupRestore
