import ContainerRs.Lib.Bytes
import ContainerRs.Lib.Lines
import ContainerRs.Lib.Occurrences
import ContainerRs.Lib.Json
import ContainerRs.Lib.Outcomes
import ContainerRs.Lib.Runs
import ContainerRs.Lib.Slices
import ContainerRs.Lib.Checked
import ContainerRs.Lib.Utf8
import ContainerRs.Lib.Base64
import ContainerRs.Lib.ResponseDecoder
import ContainerRs.Lib.SortedMap
import ContainerRs.Lib.Paths
import ContainerRs.Lib.Ustar
import ContainerRs.Lib.Fields
import ContainerRs.Lib.IpAddr
import ContainerRs.Lib.RawJson
import ContainerRs.Lib.ByteOffsets
import ContainerRs.Lib.Priority
import ContainerRs.Lib.PercentEncoding
import ContainerRs.Lib.RefCount
import ContainerRs.SharedLogBuffer
import ContainerRs.FrameDemuxer
import ContainerRs.LogStream
import ContainerRs.StrictDemux
import ContainerRs.LogWaitStrategy
import ContainerRs.Watchdog
import ContainerRs.WatchdogAccounting
import ContainerRs.WaitState
import ContainerRs.ContainerLog
import ContainerRs.FollowFdReader
import ContainerRs.Restart
import ContainerRs.MacExitCode
import ContainerRs.RefreshLogs
import ContainerRs.Line
import ContainerRs.ReadLines
import ContainerRs.LogConsumerTask
import ContainerRs.DockerTar
import ContainerRs.UstarPath
import ContainerRs.UstarAtomic
import ContainerRs.ParseUstar
import ContainerRs.HostTree
import ContainerRs.CopyTo
import ContainerRs.CreateContainer
import ContainerRs.BindMounts
import ContainerRs.Ports
import ContainerRs.MacPorts
import ContainerRs.RegistryAuth
import ContainerRs.PullReference
import ContainerRs.ExecEnv
import ContainerRs.UrlEncoding
import ContainerRs.ImageReference
import ContainerRs.ImageIndex
import ContainerRs.HttpDecode
import ContainerRs.FetchLogs
import ContainerRs.XpcReply
import ContainerRs.ExecReaders
import ContainerRs.Lib.Programs
import ContainerRs.MacConfig
import ContainerRs.ClientCalls
import ContainerRs.HttpWait
import ContainerRs.WaitStrategies
import ContainerRs.WaitObservations
import ContainerRs.ContainerHandle
import ContainerRs.StartLedger
import ContainerRs.MacResolve
import ContainerRs.StartLinux
import ContainerRs.StartMac
import ContainerRs.UniqueSuffix
import ContainerRs.Lib.Handles
import ContainerRs.LogFds
import ContainerRs.SharedRuntime
import ContainerRs.DockerClient
import ContainerRs.DockerStart
