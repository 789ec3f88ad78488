import Apm.Core.DependencyGraph
import Apm.Crypto.Sha256
import Apm.Install.Install
import Apm.Lib.Effect
import Apm.Util.Disk
import Apm.Core.Security
import Apm.Install.Deb
import Apm.Install.Gate
import Apm.Install.Records
import Apm.Install.Remove
import Apm.Install.Upgrade
import Apm.Core.ReleaseParser
import Apm.Core.RepoIndex
import Apm.Core.RepoUpdate
import Apm.Core.RepoCache
import Apm.Ipc.Protocol
import Apm.Lib.Frames
import Apm.Ipc.Request
import Apm.Ipc.Client
import Apm.Install.Autoremove
import Apm.Core.TarExtractor
import Apm.Util.Trace
import Apm.Core.DebExtractor
import Apm.Install.Payload
import Apm.Install.Confined
import Apm.Ams.ModuleInfo
import Apm.Ams.ModuleManager
import Apm.Ams.ModuleConfined
import Apm.Core.RepoSources
import Apm.Core.StanzaText
import Apm.Install.Closure
import Apm.Install.StatusText
import Apm.Ipc.Server
import Apm.Core.Number
import Apm.Lib.Run
import Apm.Core.Session
import Apm.Daemon.SecurityManager
import Apm.Daemon.Handling
import Apm.Daemon.Secret
import Apm.Daemon.Sessions
import Apm.Daemon.Lockout
import Apm.Daemon.SharedSession
import Apm.Ams.BootCounter
import Apm.Ams.ModuleState
import Apm.Lib.FileTree
import Apm.Util.Tree
import Apm.Lib.MountStack
import Apm.Ams.BindBackend
import Apm.Ams.BindRun
import Apm.Ams.BindUnmount
import Apm.Ams.BindView
import Apm.Ams.ModuleInstall
import Apm.Core.ManualPackage
import Apm.Daemon.Migration
import Apm.Install.RootState
import Apm.Install.RootAgreement
import Apm.Install.Simulate
import Apm.Lib.Base64
import Apm.Util.LineText
import Apm.Crypto.Armor
import Apm.Crypto.Clearsign
import Apm.Util.ProcessLock
import Apm.Daemon.Shims
import Apm.Install.Candidate
import Apm.Install.Interference
import Apm.Util.Volume
import Apm.Install.RemoveRetry
import Apm.Install.Ownership
import Apm.Ams.OverlayTargets
import Apm.Install.VersionOrder
import Apm.Core.CacheNames
import Apm.Core.TarLinks
import Apm.Cli.ManualInstall
import Apm.Core.DebArchive
import Apm.Install.TermuxTree
import Apm.Daemon.RepoSourceFiles
import Apm.Daemon.IndexCache
import Apm.Crypto.Sha256File
import Apm.Core.StanzaRoundTrip
import Apm.Core.ControlParser
import Apm.Lib.BigEndian
import Apm.Crypto.Packets
import Apm.Crypto.SignaturePacket
import Apm.Lib.Resolve
import Apm.Util.RemoveTree
import Apm.Core.StatusWrite
import Apm.Lib.Greatest
import Apm.Ams.MountTable
import Apm.Daemon.CommandIndex
import Apm.Daemon.ShimPruning
import Apm.Daemon.IndexReading
import Apm.Daemon.CanonicalShims
import Apm.Core.Downloader
import Apm.Core.ReleaseText
import Apm.Daemon.QuestionText
import Apm.Lib.Replace
import Apm.Install.TermuxScript
import Apm.Lib.ShellWords
import Apm.Daemon.ShellScripts
import Apm.Daemon.PathRemap
import Apm.Core.JsonNumber
import Apm.Crypto.TrustedKeys
import Apm.Crypto.KeyImports
import Apm.Ipc.Exchange
import Apm.Daemon.Answers
import Apm.Cli.Terminal
import Apm.Cli.SessionUnlock
import Apm.Cli.Recovery
import Apm.Ams.PartitionMonitor
