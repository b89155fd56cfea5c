import Openraft.RaftState

/-!
The engine's record and the values that cross its boundary: config,
entries, the RPC payloads, the commands it emits, and its two proposer
states.

# The record

`Engine` is `engine_impl.rs`'s struct field for field: the config, the
replica state, the greater-log flag, the greatest vote seen, the optional
`Leader` and `Candidate` (two independent options, which may coexist
during a term bump), and the output queue, a list of commands in the
order they must run.

# Modelled from the spec

`Candidate`, `Leader`, `Command`, the entry type and the RPC payloads are
declared outside `src/`; they carry the fields the spec gives them (§3,
§6) and that the modelled functions read. A reply channel (`tx`) is a
handle the runtime owns; the engine only passes it on. A grant is
counted per joint voter set and wins when each set has a majority
(§9 Quorum sets).
-/

namespace Openraft

/-- `EngineConfig`: this node's id, the leader lease of its timer config,
and the purge policy's number of logs kept after a snapshot. -/
structure EngineConfig where
  id : NodeId
  leaderLease : Duration
  maxInSnapshotLogToKeep : Nat
  deriving Repr, DecidableEq

/-- A reply channel, owned by the runtime. -/
abbrev Tx := Nat

/-- Modelled from the spec: an entry's payload — blank, application data,
or a membership config. -/
inductive EntryPayload
  | blank
  | normal
  | membership (m : Membership)
  deriving Repr, DecidableEq

/-- Modelled from the spec: a log entry. -/
structure Entry where
  logId : LogId
  payload : EntryPayload
  deriving Repr, DecidableEq

/-- `RaftEntry::new_blank`. -/
def Entry.newBlank (logId : LogId) : Entry := ⟨logId, .blank⟩

/-- `RaftPayload::get_membership`. -/
def Entry.getMembership (e : Entry) : Option Membership :=
  match e.payload with
  | .membership m => some m
  | _ => none

/-- `VoteRequest`: the candidate's vote and last log id. -/
structure VoteRequest where
  vote : Vote
  lastLogId : WithBot LogId
  deriving Repr, DecidableEq

/-- `VoteResponse`: the responder's vote and last log id (its
`vote_granted` flag is never read, per the `TODO` in `handle_vote_resp`). -/
structure VoteResponse where
  vote : Vote
  lastLogId : WithBot LogId
  deriving Repr, DecidableEq

/-- Modelled from the spec: a snapshot, through its meta (the data stays
with the runtime). -/
structure Snapshot where
  meta : SnapshotMeta
  deriving Repr

/-- `SnapshotResponse`: the receiver's vote. -/
structure SnapshotResponse where
  vote : Vote
  deriving Repr

/-- `RejectVoteRequest`: the local vote is greater. -/
inductive RejectVoteRequest
  | byVote (vote : Vote)
  deriving Repr

/-- `RejectAppendEntries`: a greater local vote, or no local log at the
leader's `prev_log_id`. -/
inductive RejectAppendEntries
  | byVote (vote : Vote)
  | byConflictingLogId (expect : LogId) (localLogId : Option LogId)
  deriving Repr

/-- `AppendEntriesResponse`, made `From` a rejection. -/
inductive AppendEntriesResponse
  | success
  | conflict
  | higherVote (vote : Vote)
  deriving Repr

/-- `From<Result<(), RejectAppendEntries>> for AppendEntriesResponse`. -/
def AppendEntriesResponse.ofResult : Except RejectAppendEntries Unit → AppendEntriesResponse
  | .ok () => .success
  | .error (.byVote v) => .higherVote v
  | .error (.byConflictingLogId _ _) => .conflict

/-- `InitializeError`: a node with a log or a vote, or a config without it. -/
inductive InitializeError
  | notAllowed (lastLogId : WithBot LogId) (vote : Vote)
  | notInMembers (nodeId : NodeId) (membership : Membership)
  deriving Repr

/-- Modelled from the spec: a wait condition of a command (§6). -/
inductive Condition
  | logFlushed (logId : LogId)
  | snapshot (logId : LogId)
  deriving Repr

/-- A response carried by a `Respond` command. -/
inductive Response
  | appendEntries (resp : AppendEntriesResponse)
  | snapshot (resp : SnapshotResponse)
  deriving Repr

/-- Modelled from the spec: the commands the engine emits (§6). -/
inductive Command
  | sendVote (voteReq : VoteRequest)
  | saveVote (vote : Vote)
  | appendInputEntries (vote : Vote) (entries : List Entry)
  | truncateLog (since : Nat)
  | purgeLog (upto : LogId)
  | commit (alreadyCommitted upto : WithBot LogId)
  | rebuildReplicationStreams (targets : List NodeId)
  | replicate (target : NodeId)
  | updateMembership (membership : EffectiveMembership)
  | respond (when : Option Condition) (resp : Response) (tx : Tx)
  | installFullSnapshot (meta : SnapshotMeta)
  | beginReceivingSnapshot (tx : Tx)
  | serverStateUpdate (serverState : ServerState)
  deriving Repr

-- ========================================================== proposers

/-- Modelled from the spec: a candidate — its vote, the last log id it
campaigns with, the joint voter sets, the learners, and who granted. -/
structure Candidate where
  startingTime : Instant
  vote : Vote
  lastLogId : WithBot LogId
  quorumSet : List (List NodeId)
  learnerIds : List NodeId
  granted : List NodeId
  deriving Repr

/-- A joint quorum: a majority of every voter set. -/
def isQuorum (quorumSet : List (List NodeId)) (granted : List NodeId) : Bool :=
  quorumSet.all fun voters => voters.length < 2 * (voters.filter (· ∈ granted)).length

/-- `Candidate::new`: no grant yet. -/
def Candidate.new (now : Instant) (vote : Vote) (lastLogId : WithBot LogId)
    (quorumSet : List (List NodeId)) (learnerIds : List NodeId) : Candidate :=
  ⟨now, vote, lastLogId, quorumSet, learnerIds, []⟩

/-- `Candidate::grant_by`: record a grant, and whether a quorum has granted. -/
def Candidate.grantBy (c : Candidate) (target : NodeId) : Candidate × Bool :=
  let c := { c with granted := target :: c.granted }
  (c, isQuorum c.quorumSet c.granted)

/-- Modelled from the spec: a leader — its vote, its last log id, and the
matching log id of every replication target (§4.4). -/
structure Leader where
  vote : Vote
  lastLogId : WithBot LogId
  progress : List (NodeId × WithBot LogId)
  deriving Repr

/-- `Leader::new`: every voter and learner a target with nothing matched. -/
def Leader.new (vote : Vote) (quorumSet : List (List NodeId)) (learnerIds : List NodeId)
    (lastLogId : WithBot LogId) : Leader :=
  ⟨vote, lastLogId, (quorumSet.flatten ++ learnerIds).eraseDups.map fun id => (id, ⊥)⟩

/-- Modelled from the spec: `Candidate::into_leader` — the vote a quorum
granted becomes committed (§4.1 establish_leader). -/
def Candidate.intoLeader (c : Candidate) : Leader :=
  Leader.new c.vote.commit c.quorumSet c.learnerIds c.lastLogId

/-- `RaftState::new_leader`: a leader for the state's own vote. -/
def RaftState.newLeader (st : RaftState) : Leader :=
  let m := st.membershipState.effective.membership
  Leader.new st.vote m.toQuorumSet m.learnerIds st.lastLogId

-- ============================================================ the engine

/-- `Engine`, field for field. -/
structure Engine where
  config : EngineConfig
  state : RaftState
  seenGreaterLog : Bool
  lastSeenVote : Vote
  leader : Option Leader
  candidate : Option Candidate
  output : List Command

namespace Engine

/-- `Engine::new`: no proposer, the state's vote as the greatest seen. -/
def new (initState : RaftState) (config : EngineConfig) : Engine where
  config := config
  state := initState
  seenGreaterLog := false
  lastSeenVote := initState.vote
  leader := none
  candidate := none
  output := []

/-- `EngineOutput::push_command`. -/
def pushCommand (e : Engine) (cmd : Command) : Engine := { e with output := e.output ++ [cmd] }

@[simp] theorem pushCommand_state (e : Engine) (c : Command) : (e.pushCommand c).state = e.state :=
  rfl

@[simp] theorem pushCommand_config (e : Engine) (c : Command) :
    (e.pushCommand c).config = e.config := rfl

@[simp] theorem pushCommand_lastSeenVote (e : Engine) (c : Command) :
    (e.pushCommand c).lastSeenVote = e.lastSeenVote := rfl

@[simp] theorem pushCommand_leader (e : Engine) (c : Command) :
    (e.pushCommand c).leader = e.leader := rfl

@[simp] theorem pushCommand_candidate (e : Engine) (c : Command) :
    (e.pushCommand c).candidate = e.candidate := rfl

end Engine

end Openraft
