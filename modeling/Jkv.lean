import Jkv.Cluster.Acknowledged
import Jkv.Cluster.Dropped
import Jkv.Cluster.Durable
import Jkv.Cluster.Hosts
import Jkv.Cluster.Jraft
import Jkv.Cluster.Linearizability
import Jkv.Cluster.Rejections
import Jkv.Cluster.Settled
import Jkv.Common.Config
import Jkv.Common.Fatal
import Jkv.Core.Causality
import Jkv.Core.Fallible
import Jkv.Core.KeyedTable
import Jkv.Core.Machine
import Jkv.Core.RaftTrace
import Jkv.Core.SortedQueue
import Jkv.Core.Steps
import Jkv.Echo.Client
import Jkv.Echo.Server
import Jkv.Echo.System
import Jkv.Host.Calls
import Jkv.Host.Connections
import Jkv.Host.Destinations
import Jkv.Host.Loop
import Jkv.Host.Network
import Jkv.Host.Peers
import Jkv.Host.Routing
import Jkv.Pb.Messages
import Jkv.Peer.MemberText
import Jkv.Peer.Members
import Jkv.Peer.MergeJoin
import Jkv.Peer.Peer
import Jkv.Peer.PeerHost
import Jkv.Peer.RawNode
import Jkv.Peer.Spec
import Jkv.Peer.TrioNode
import Jkv.Peer.Voters
import Jkv.Server.Admission
import Jkv.Server.Closures
import Jkv.Server.Fate
import Jkv.Server.History
import Jkv.Server.Ledger
import Jkv.Server.Lifecycle
import Jkv.Server.Proposals
import Jkv.Server.Replica
import Jkv.Server.Restart
import Jkv.Server.Stranded
import Jkv.Server.Workload
import Jkv.Service.KvService
import Jkv.Service.RaftMsgService
import Jkv.Storage.DiskStorage
import Jkv.Store.Command
