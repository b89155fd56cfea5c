import Openraft.Engine.Handlers

/-!
`engine_impl.rs`: the engine's events, translated method by method.

# Translation

Each `&mut self` method is a function from the engine (and the clock
reading `now` where the method reads `InstantOf::<C>::now()`) to the
engine after it, with the method's return value beside it. Panics —
`unwrap()` on `None` or `Err`, `expect`, `unreachable!`, a failing
`debug_assert!`, an arithmetic overflow in a debug build — are the error
of `Except String`, carrying the source's message (a formatted message
with its `{}` arguments left out). The handlers a method
borrows are the functions of `Handlers.lean`; `replication_handler()`
and `following_handler()` keep their own checks (`unreachable!` without a
leader, `debug_assert!(self.leader.is_none())`).

Logging is left out. `get_leader_handler_or_reject`, `calc_server_state`
and the testing helpers are not events and are left out too.
-/

namespace Openraft

namespace Engine

/-- `following_handler()`: its `debug_assert!(self.leader.is_none())`. -/
def followingHandler (e : Engine) : Except String Unit :=
  if e.leader.isNone then pure () else throw "assertion failed: self.leader.is_none()"

/-- `leader_handler()`: the leader, if its vote is committed; otherwise the
leader to forward to. -/
def leaderHandler (e : Engine) : Except ForwardToLeader Leader :=
  match e.leader with
  | none => .error e.state.forwardToLeader
  | some l => if l.vote.isCommitted then .ok l else .error e.state.forwardToLeader

/-- `set_greater_log`. -/
def setGreaterLog (e : Engine) : Engine := { e with seenGreaterLog := true }

/-- `reset_greater_log`. -/
def resetGreaterLog (e : Engine) : Engine := { e with seenGreaterLog := false }

/-- `new_candidate`: a candidate for `vote` with the last log id and the
effective config's voter sets and learners. -/
def newCandidate (e : Engine) (now : Instant) (vote : Vote) : Engine × Candidate :=
  let m := e.state.membershipState.effective.membership
  let c := Candidate.new now vote e.state.lastLogId m.toQuorumSet m.learnerIds
  ({ e with candidate := some c }, c)

/-- `check_initialize`: only a node without log and vote initializes. -/
def checkInitialize (e : Engine) : Except InitializeError Unit :=
  if !e.state.isInitialized then .ok () else .error (.notAllowed e.state.lastLogId e.state.vote)

/-- `check_members_contain_me`. -/
def checkMembersContainMe (e : Engine) (m : Membership) : Except InitializeError Unit :=
  if !m.isVoter e.config.id then .error (.notInMembers e.config.id m) else .ok ()

/-- `elect`: a candidate for the term after the greatest vote seen, which
votes for itself, asks the others, and reports its new server state. -/
def elect (e : Engine) (now : Instant) : Except String Engine :=
  if ¬ e.state.vote ≤ e.lastSeenVote then throw "expect: last_seen_vote >= state.vote, when elect()"
  else
    let newTerm := e.lastSeenVote.leaderId.term + 1
    if u64Max < newTerm then throw "attempt to add with overflow"
    else
      let newVote := Vote.new newTerm e.config.id
      let (e, candidate) := e.newCandidate now newVote
      match e.updateVote now newVote with
      | (_, .error _) => throw "called `Result::unwrap()` on an `Err` value"
      | (e, .ok ()) =>
        pure ((e.pushCommand (.sendVote ⟨newVote, candidate.lastLogId⟩)).updateServerStateIfChanged)

/-- `EstablishHandler::establish`, modelled from the spec (§4.7): the
candidate's committed vote makes the leader, unless the current leader's
vote is not below the candidate's. -/
def establish (e : Engine) (c : Candidate) : Option Engine :=
  match e.leader with
  | some l => if l.vote < c.vote then some { e with leader := some c.intoLeader } else none
  | none => some { e with leader := some c.intoLeader }

/-- `establish_leader`: a quorum granted the candidate's vote; the leader
takes it, commits it, and proposes a blank entry. -/
def establishLeader (e : Engine) (now : Instant) : Except String Engine := do
  let some c := e.candidate | throw "called `Option::unwrap()` on a `None` value"
  let e := { e with candidate := none }
  match e.establish c with
  | none => pure e
  | some e =>
    let some l := e.leader | pure e
    let vote := l.vote
    e.replicationHandler
    let e := e.rebuildReplicationStreams
    let (e, res) := e.updateVote now vote
    if res matches .error _ then throw "commit vote can not fail but: "
    match e.leaderHandler with
    | .error _ => throw "called `Result::unwrap()` on an `Err` value"
    | .ok l => e.leaderAppendEntries l [Entry.newBlank LogId.default]

/-- `startup`: a node that was the leader restores its leader state and
replication; another becomes a follower or a learner. -/
def startup (e : Engine) : Except String Engine := do
  if e.state.isLeader e.config.id then
    let e := e.updateInternalServerState
    e.replicationHandler
    let e := e.updateLocalProgress e.state.lastLogId
    pure e.initiateReplication
  else
    let serverState :=
      if e.state.membershipState.effective.membership.isVoter e.config.id then ServerState.follower
      else .learner
    pure { e with state := { e.state with serverState := serverState } }

/-- `initialize` (a keyword here): the first log, a membership entry listing this node, at
log id `(0, 0)`, then an election. -/
def initializeNode (e : Engine) (now : Instant) (entry : Entry) :
    Except String (Engine × Except InitializeError Unit) := do
  match e.checkInitialize with
  | .error err => pure (e, .error err)
  | .ok () =>
    let entry := { entry with logId := LogId.default }
    let some m := entry.getMembership
      | throw "the only log entry for initializing has to be membership log"
    match e.checkMembersContainMe m with
    | .error err => pure (e, .error err)
    | .ok () =>
      e.followingHandler
      let e ← e.doAppendEntries [entry] 0
      let e ← e.elect now
      pure (e, .ok ())

/-- `handle_vote_req`: refuse under an unexpired lease of a committed vote
or to a candidate with a smaller last log id; otherwise `update_vote`. The
reply always carries the vote and last log id after the call. -/
def handleVoteReq (e : Engine) (now : Instant) (req : VoteRequest) : Engine × VoteResponse :=
  let lease := e.config.leaderLease
  let voteUtime := e.state.voteLastModified.getD (now - lease - 1)
  if e.state.vote.isCommitted ∧ now ≤ voteUtime + lease then
    (e, ⟨e.state.vote, e.state.lastLogId⟩)
  else if ¬ e.state.lastLogId ≤ req.lastLogId then
    (e, ⟨e.state.vote, e.state.lastLogId⟩)
  else
    let (e, _res) := e.updateVote now req.vote
    (e, ⟨e.state.vote, e.state.lastLogId⟩)

/-- `handle_vote_resp`: record the vote seen; a reply carrying the
candidate's own vote is a grant, and a quorum of grants establishes the
leader; another vote with a greater log marks the greater log seen. -/
def handleVoteResp (e : Engine) (now : Instant) (target : NodeId) (resp : VoteResponse) :
    Except String Engine :=
  let e := e.updateLastSeen resp.vote
  match e.candidate with
  | none => pure e
  | some c =>
    if resp.vote = c.vote then
      let (c, quorumGranted) := c.grantBy target
      let e := { e with candidate := some c }
      if quorumGranted then e.establishLeader now else pure e
    else if e.state.lastLogId < resp.lastLogId then pure e.setGreaterLog
    else pure e

/-- `append_entries`: accept the leader's vote, check the log holds
`prev_log_id`, append. -/
def appendEntries (e : Engine) (now : Instant) (vote : Vote) (prevLogId : WithBot LogId)
    (entries : List Entry) : Except String (Engine × Except RejectAppendEntries Unit) := do
  match e.updateVote now vote with
  | (e, .error (.byVote v)) => pure (e, .error (.byVote v))
  | (e, .ok ()) =>
    e.followingHandler
    match e.ensureLogConsecutive prevLogId with
    | .error r => pure (e, .error r)
    | .ok () =>
      let e ← e.followingAppendEntries entries
      pure (e, .ok ())

/-- `handle_append_entries`: `append_entries`, and its result sent back
when there is a channel. -/
def handleAppendEntries (e : Engine) (now : Instant) (vote : Vote) (prevLogId : WithBot LogId)
    (entries : List Entry) (tx : Option Tx) : Except String (Engine × Bool) := do
  let (e, res) ← e.appendEntries now vote prevLogId entries
  let isOk := res matches .ok ()
  match tx with
  | some tx =>
    pure (e.pushCommand (.respond none (.appendEntries (.ofResult res)) tx), isOk)
  | none => pure (e, isOk)

/-- `handle_commit_entries`. -/
def handleCommitEntries (e : Engine) (leaderCommitted : WithBot LogId) :
    Except String Engine := do
  e.followingHandler
  e.commitEntries leaderCommitted

/-- `handle_install_full_snapshot`: accept the leader's vote (a rejection
is answered at once, the second component), install, and answer once the
snapshot is installed. -/
def handleInstallFullSnapshot (e : Engine) (now : Instant) (vote : Vote) (snapshot : Snapshot)
    (tx : Tx) : Except String (Engine × Option SnapshotResponse) := do
  match e.acceptVote now vote fun st => SnapshotResponse.mk st.vote with
  | (e, some reply) => pure (e, some reply)
  | (e, none) =>
    e.followingHandler
    let (e, cond) ← e.installFullSnapshot snapshot
    pure (e.pushCommand (.respond cond (.snapshot ⟨e.state.vote⟩) tx), none)

/-- `handle_begin_receiving_snapshot`. -/
def handleBeginReceivingSnapshot (e : Engine) (tx : Tx) : Engine :=
  e.pushCommand (.beginReceivingSnapshot tx)

/-- `leader_step_down`: once the effective config is committed, the server
state follows it. -/
def leaderStepDown (e : Engine) : Engine :=
  if e.state.membershipState.effective.logId ≤ e.state.committed then
    e.updateInternalServerState
  else e

/-- `try_purge_log`: a leader purges behind its replication, others at once. -/
def tryPurgeLog (e : Engine) : Engine :=
  if e.leader.isSome then e.replicationTryPurgeLog else e.purgeLog

/-- `finish_building_snapshot`: keep the newer snapshot and purge by policy. -/
def finishBuildingSnapshot (e : Engine) (meta : SnapshotMeta) : Engine :=
  let e := { e with state := { e.state with buildingSnapshot := false } }
  let (e, updated) := e.updateSnapshot meta
  if !updated then e else e.schedulePolicyBasedPurge.tryPurgeLog

/-- `trigger_purge_log`: schedule a purge up to `index`, capped at the
snapshot; nothing without a snapshot or below what is scheduled. -/
def triggerPurgeLog (e : Engine) (index : Nat) : Except String Engine := do
  let some snapshotLastLogId := e.state.snapshotLastLogId | pure e
  let scheduled := e.state.purgeUpto
  if u64Max < nextIndex scheduled then throw "attempt to add with overflow"
  if index < nextIndex scheduled then return e
  let index := if index > snapshotLastLogId.index then snapshotLastLogId.index else index
  let some logId := e.state.getLogId index | throw "called `Option::unwrap()` on a `None` value"
  pure (e.updatePurgeUpto logId).tryPurgeLog

end Engine

end Openraft
