import WslPlus.Channel.MessageWriter
import WslPlus.Channel.Sequence
import WslPlus.Channel.TransactionOrder
import WslPlus.Cli.OutputSpec
import WslPlus.Cli.ParsedArguments
import WslPlus.Cli.ParserSteps
import WslPlus.CommandLine.Groups
import WslPlus.ConfigFile.Copy
import WslPlus.ConfigFile.Grammar
import WslPlus.ConfigFile.PathSetting
import WslPlus.ConfigFile.Twice
import WslPlus.HandleIo.DockerRelay
import WslPlus.HandleIo.LogLines
import WslPlus.HandleIo.RelayHandle
import WslPlus.Images.Refinement
import WslPlus.NetConfig.Acl
import WslPlus.Network.Consomme
import WslPlus.Network.DnsRequests
import WslPlus.Network.DnsResolver
import WslPlus.Network.DnsResponses
import WslPlus.Network.DnsServers
import WslPlus.Network.DnsUdp
import WslPlus.Network.EndpointPrefix
import WslPlus.Network.GnsRetry
import WslPlus.Network.ListeningSockets
import WslPlus.Network.MirroredEndpoints
import WslPlus.Network.MirroredRoutes
import WslPlus.Network.MirroredTracking
import WslPlus.Network.PortHost
import WslPlus.Network.PortRelease
import WslPlus.Network.SocketRelay
import WslPlus.Paths.MountInfo
import WslPlus.Paths.PathList
import WslPlus.Paths.Plan9Mount
import WslPlus.Paths.VirtioFsTags
import WslPlus.Plan9.AsyncLockFairness
import WslPlus.Plan9.Confinement
import WslPlus.Plan9.DirectoryEntry
import WslPlus.Plan9.FlushOrder
import WslPlus.Plan9.FlushWaits
import WslPlus.Plan9.Paging
import WslPlus.Plan9.SchedulerOwner
import WslPlus.Plan9.SchedulerQueue
import WslPlus.Plan9.Stream
import WslPlus.Plan9.UserContext
import WslPlus.Plan9.WOpenDirectory
import WslPlus.Plan9.WOpenStatus
import WslPlus.Plan9.Walk
import WslPlus.Plugins.Errors
import WslPlus.Session.Default
import WslPlus.Session.Lifetime
import WslPlus.Session.Locking
import WslPlus.Session.Names
import WslPlus.Snapshot.Restore
import WslPlus.Store.Devices
import WslPlus.Store.Networks
import WslPlus.Store.UsbWatch
import WslPlus.Text.Hostname
import WslPlus.Text.MemorySize
import WslPlus.Wslc.CrashedVm
import WslPlus.Wslc.EventTracker
import WslPlus.Wslc.Events
import WslPlus.Wslc.Leases
import WslPlus.Wslc.MountCollection
import WslPlus.Wslc.Notifications
import WslPlus.Wslc.PortRelay
import WslPlus.Wslc.Sessions
import WslPlus.Wslc.VmPorts
