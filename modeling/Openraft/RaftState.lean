import Openraft.LogIdList
import Openraft.Membership

/-!
`RaftState`: the replica state the engine owns — the vote, the log ids,
the committed and purge watermarks, the membership configs, the last
snapshot's meta and the server state.

# What is modelled from where

`RaftState` is declared outside `src/`; its fields are the spec's (§3),
and its readers are what `engine_impl.rs` calls on it and
`raft_state_test.rs` pins: `last_log_id`, `get_log_id`, `prev_log_id`,
`has_log_id`, `last_purged_log_id` (`None` until a prefix was purged,
then the first key of `log_ids`), `forward_to_leader`. Fields that no
modelled function reads are left out: `accepted`, the I/O progress
besides `building_snapshot`, the snapshot id.
-/

namespace Openraft

/-- `ServerState`: the role the node reports (§4.7). -/
inductive ServerState
  | learner
  | follower
  | candidate
  | leader
  deriving Repr, DecidableEq

/-- Modelled from the spec: a snapshot's meta, its last log id and the
last membership config it covers. -/
structure SnapshotMeta where
  lastLogId : WithBot LogId
  lastMembership : EffectiveMembership
  deriving Repr, DecidableEq

/-- Modelled from the spec: `ForwardToLeader`, the leader a non-leader
points a client to, when it knows one. -/
structure ForwardToLeader where
  leaderId : Option NodeId
  leaderNode : Option Nat
  deriving Repr, DecidableEq

/-- `ForwardToLeader::empty`. -/
def ForwardToLeader.empty : ForwardToLeader := ⟨none, none⟩

/-- Modelled from the spec: `RaftState` (§3). -/
structure RaftState where
  vote : Vote
  voteLastModified : Option Instant
  committed : WithBot LogId
  purgedNext : Nat
  logIds : LogIdList
  membershipState : MembershipState
  snapshotMeta : SnapshotMeta
  serverState : ServerState
  buildingSnapshot : Bool
  purgeUpto : WithBot LogId

namespace RaftState

/-- The empty membership config a fresh node starts with. -/
def emptyMembership : EffectiveMembership := ⟨⊥, ⟨[], []⟩⟩

/-- `RaftState::default()`: no log, the zero vote, a learner. -/
def default : RaftState where
  vote := Vote.default
  voteLastModified := none
  committed := ⊥
  purgedNext := 0
  logIds := ⟨[]⟩
  membershipState := ⟨emptyMembership, emptyMembership⟩
  snapshotMeta := ⟨⊥, emptyMembership⟩
  serverState := .learner
  buildingSnapshot := false
  purgeUpto := ⊥

/-- `last_log_id`. -/
def lastLogId (st : RaftState) : WithBot LogId := st.logIds.last

/-- `get_log_id`. -/
def getLogId (st : RaftState) (index : Nat) : Option LogId := st.logIds.get index

/-- `prev_log_id`: the log id before `index`. -/
def prevLogId (st : RaftState) (index : Nat) : Option LogId :=
  if index = 0 then none else st.getLogId (index - 1)

/-- `last_purged_log_id`: none until a prefix was purged, then the first
key of the log ids. -/
def lastPurgedLogId (st : RaftState) : WithBot LogId :=
  if st.purgedNext = 0 then ⊥ else st.logIds.first

/-- `snapshot_last_log_id`. -/
def snapshotLastLogId (st : RaftState) : WithBot LogId := st.snapshotMeta.lastLogId

/-- `has_log_id`: every log id up to the committed index is consistent with
the leader; above it, the log must hold exactly this id. -/
def hasLogId (st : RaftState) (logId : LogId) : Bool :=
  if logId.index < nextIndex st.committed then true
  else st.getLogId logId.index = some logId

/-- `is_initialized`: the node has a log or has voted. -/
def isInitialized (st : RaftState) : Bool :=
  st.lastLogId ≠ ⊥ || decide (st.vote ≠ Vote.default)

/-- Modelled from the spec: `is_leading` (declared outside `src/`), the vote
is this node's and the node is a voter. The voter condition follows §4.7's
"Leader → Learner: commits a membership entry that excludes self" and
scenario S5: a node the effective membership drops leads no more. -/
def isLeading (st : RaftState) (id : NodeId) : Bool :=
  st.vote.leaderId.nodeId = id && st.membershipState.isVoter id

/-- Modelled from the spec: `is_leader`, leading (with the voter condition
of §4.7 and S5) on a committed vote. -/
def isLeader (st : RaftState) (id : NodeId) : Bool :=
  st.isLeading id && st.vote.isCommitted

/-- Modelled from the spec: `calc_server_state` (§4.7) — leader or
candidate on this node's own vote, follower or learner by membership. -/
def calcServerState (st : RaftState) (id : NodeId) : ServerState :=
  if st.isLeading id then
    if st.vote.isCommitted then .leader else .candidate
  else if st.membershipState.isVoter id then .follower
  else .learner

/-- `forward_to_leader`: the committed vote's node, when the effective
config knows it. -/
def forwardToLeader (st : RaftState) : ForwardToLeader :=
  if st.vote.isCommitted then
    let id := st.vote.leaderId.nodeId
    match st.membershipState.effective.membership.getNode id with
    | some node => ⟨some id, some node⟩
    | none => .empty
  else .empty

end RaftState

end Openraft
