import Openraft.Basic
import Openraft.LogIdList
import Openraft.Membership
import Openraft.RaftState
import Openraft.Engine.Types
import Openraft.Engine.Handlers
import Openraft.Engine.Impl
import Openraft.Engine.Run
import Openraft.Proofs.MembershipState
import Openraft.Proofs.MembershipChange
import Openraft.Proofs.EngineFrame
import Openraft.Proofs.VoteInvariant
import Openraft.Proofs.VoteRequest
import Openraft.Proofs.PurgeLog
import Openraft.Cluster
import Openraft.Replication
import Openraft.Proofs.ElectionSafety
import Openraft.Proofs.ClusterRuns
import Openraft.Proofs.AppendEntries
import Openraft.Proofs.NodeSteps
import Openraft.Proofs.LogMatching
import Openraft.Proofs.LogOrder
import Openraft.Proofs.LeaderLog
import Openraft.Proofs.Deliveries
import Openraft.Proofs.Lifecycle
import Openraft.Proofs.LeaderHandler
