import Terminator.Java.TimSort
import Terminator.Plugin.Extractor
import Terminator.Server.Record
import Terminator.Server.Correlation
import Terminator.Storage.StorageFactory
import Terminator.Server.Replay
import Terminator.Server.Stub
import Terminator.Server.StubPriority
import Terminator.Server.StubOrder
import Terminator.Server.Chunked
import Terminator.Server.Link
import Terminator.Server.RecordReplay
import Terminator.Server.StoreInvariant
import Terminator.Plugin.MD5OfString
import Terminator.Run.Invariant
import Terminator.Storage.Streams
import Terminator.Storage.FileHistory
import Terminator.Storage.TornWrites
import Terminator.Storage.FileConcurrency
import Terminator.Storage.Database
import Terminator.Storage.Interchange
import Terminator.Manager.InStep
import Terminator.Manager.Stoppable
import Terminator.Manager.SignerChange
import Terminator.Server.WorkModeChange
import Terminator.Manager.LinkTable
import Terminator.Manager.LinkControl
import Terminator.Manager.Agreement
import Terminator.Manager.LostEdit
import Terminator.Manager.Recovery
import Terminator.Manager.FailedCalls
import Terminator.Server.StubForms
import Terminator.Server.BackPressure
import Terminator.Plugin.SharedExtractor
import Terminator.Storage.Resigning
import Terminator.Server.MalformedBody
import Terminator.Storage.CacheResigning
import Terminator.Server.StubTraffic
import Terminator.Manager.LogService
import Terminator.Manager.LogFollowing
import Terminator.Java.Collections
import Terminator.Register.ProtocolRegister
import Terminator.Java.Blocks
import Terminator.Plugin.CipherUtil
import Terminator.Plugin.LoginSigner
import Terminator.Encoding.Rfc4648
import Terminator.Plugin.Base64ForAPP
import Terminator.Plugin.Base64Decoding
import Terminator.Java.Linked
import Terminator.Netty.HeaderTable
import Terminator.Netty.HeaderTableRefines
import Terminator.Netty.HeaderObjects
import Terminator.Netty.BufferIndices
import Terminator.Netty.HttpVersions
import Terminator.Server.TunnelConnection
import Terminator.Server.TunnelClose
import Terminator.Manager.Storages
import Terminator.Manager.Wiring
import Terminator.Manager.LinkLoggers
import Terminator.Manager.RunningLogs
import Terminator.Manager.LoggerRaces
import Terminator.Manager.OrphanManagers
import Terminator.Manager.Console
import Terminator.Manager.Restart
import Terminator.Cache.Lru
import Terminator.Storage.LocalCache
import Terminator.Server.Evicted
import Terminator.Java.LeadingRuns
import Terminator.Java.Loop
import Terminator.Java.MergeRuns
