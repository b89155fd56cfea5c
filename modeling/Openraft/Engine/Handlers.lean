import Openraft.Engine.Types

/-!
The handlers `engine_impl.rs` lends its fields to: vote, log, snapshot,
replication, leader, following and server-state handlers.

# Modelled from the spec

None of the handlers is under `src/`. Each is written from its section
of the spec (§4.2 – §4.7) and from how `engine_impl.rs` calls it, and
says so in its doc comment. Three choices the spec leaves open are fixed
here, each from the code that calls the handler:

- `update_vote` records a granted vote as seen: the engine's
  `last_seen_vote` is documented as the greatest vote the node has ever
  seen, and `elect` asserts it is not below `state.vote`;
- `update_vote` keeps a leader of this node when the vote moves to
  another vote of this node (a committed vote of the same leader id, or
  a term bump that leaves the leader next to a new candidate, §9), and
  drops it when the vote becomes another node's; a candidate stays only
  while its vote is the state's vote;
- the establish handler sees only the config and the current leader (as
  `establish_handler()` lends them): a current leader with a vote not
  below the candidate's is the "superseding vote".

The handlers never panic except through the `MembershipState` calls
they make, whose assertions stay.
-/

namespace Openraft

namespace Engine

-- ================================================ server state handler

/-- Modelled from the spec: `ServerStateHandler::update_server_state_if_changed`
(§4.7) — recompute the server state, and report it when it changed. -/
def updateServerStateIfChanged (e : Engine) : Engine :=
  let s := e.state.calcServerState e.config.id
  if s = e.state.serverState then e
  else ({ e with state := { e.state with serverState := s } }).pushCommand (.serverStateUpdate s)

-- ========================================================= vote handler

/-- What a new vote leaves of the leader: one of the same leader id takes
the vote, another one of this node stays, none stays on another node's
vote. -/
def leaderAfterVote (id : NodeId) (vote : Vote) : Option Leader → Option Leader
  | none => none
  | some l =>
    if vote.leaderId.nodeId = id then
      some (if l.vote.leaderId = vote.leaderId then { l with vote := vote } else l)
    else none

/-- Modelled from the spec: `VoteHandler::update_vote` (§4.2). A smaller
vote is rejected. A greater one is granted: saved, recorded as seen, the
lease restarted at `now`, the proposers it supersedes dropped, the server
state recomputed. The same vote is an idempotent success. -/
def updateVote (e : Engine) (now : Instant) (vote : Vote) :
    Engine × Except RejectVoteRequest Unit :=
  if vote < e.state.vote then (e, .error (.byVote e.state.vote))
  else if e.state.vote < vote then
    let e' : Engine :=
      { e with
        state := { e.state with vote := vote, voteLastModified := some now }
        lastSeenVote := max e.lastSeenVote vote
        leader := leaderAfterVote e.config.id vote e.leader
        candidate := e.candidate.filter fun c => decide (c.vote = vote) }
    ((e'.pushCommand (.saveVote vote)).updateServerStateIfChanged, .ok ())
  else (e, .ok ())

/-- Modelled from the spec: `VoteHandler::update_last_seen` (§4.2). -/
def updateLastSeen (e : Engine) (vote : Vote) : Engine :=
  { e with lastSeenVote := max e.lastSeenVote vote }

/-- Modelled from the spec: `VoteHandler::accept_vote` (§4.2) —
`update_vote`, and on rejection the reply `onReject` builds from the state,
sent at once through the channel (the second component). -/
def acceptVote {α : Type} (e : Engine) (now : Instant) (vote : Vote)
    (onReject : RaftState → α) : Engine × Option α :=
  match e.updateVote now vote with
  | (e, .ok ()) => (e, none)
  | (e, .error _) => (e, some (onReject e.state))

/-- Modelled from the spec: `VoteHandler::update_internal_server_state` —
restore the leader of a committed vote of this node (§4.1 startup), keep
the proposers while the vote is this node's, drop the leader once the vote
is another node's or this node left the voters (§4.7 Leader → Learner). -/
def updateInternalServerState (e : Engine) : Engine :=
  let e :=
    if e.state.isLeader e.config.id then
      if e.leader.isSome then e else { e with leader := some e.state.newLeader }
    else if e.state.isLeading e.config.id then e
    else { e with leader := none }
  e.updateServerStateIfChanged

-- ============================================ log and snapshot handlers

/-- Modelled from the spec: `LogHandler::update_purge_upto` — schedule a
purge up to `logId` (§4.1 trigger_purge_log). -/
def updatePurgeUpto (e : Engine) (logId : LogId) : Engine :=
  { e with state := { e.state with purgeUpto := logId } }

/-- Purge the log ids up to `upto`, and tell the runtime. -/
def purgeUpto (e : Engine) (upto : LogId) : Engine :=
  ({ e with state := { e.state with logIds := e.state.logIds.purge upto,
                                    purgedNext := upto.index + 1 } }).pushCommand (.purgeLog upto)

/-- Purge up to `upto` when it is past the last purged log id. -/
def purgeIfPast (e : Engine) : WithBot LogId → Engine
  | none => e
  | some upto => if (upto : WithBot LogId) ≤ e.state.lastPurgedLogId then e else e.purgeUpto upto

/-- Modelled from the spec: `LogHandler::purge_log` — purge up to
`purge_upto` at once (§4.1 try_purge_log). -/
def purgeLog (e : Engine) : Engine := e.purgeIfPast e.state.purgeUpto

/-- Modelled from the spec: `LogHandler::calc_purge_upto` — the policy's
purge point, the configured number of logs before the snapshot's end
kept (§4.3). -/
def calcPurgeUpto (e : Engine) : Option LogId :=
  let purgeEnd := nextIndex e.state.snapshotLastLogId - e.config.maxInSnapshotLogToKeep
  if purgeEnd ≤ nextIndex e.state.lastPurgedLogId then none
  else e.state.getLogId (purgeEnd - 1)

/-- Modelled from the spec: `LogHandler::schedule_policy_based_purge` (§4.3). -/
def schedulePolicyBasedPurge (e : Engine) : Engine :=
  match e.calcPurgeUpto with
  | some logId => if e.state.purgeUpto < (logId : WithBot LogId) then e.updatePurgeUpto logId else e
  | none => e

/-- Modelled from the spec: `SnapshotHandler::update_snapshot` — keep the
snapshot meta with the greatest last log id; say whether it changed (§4.3). -/
def updateSnapshot (e : Engine) (meta : SnapshotMeta) : Engine × Bool :=
  if meta.lastLogId ≤ e.state.snapshotMeta.lastLogId then (e, false)
  else ({ e with state := { e.state with snapshotMeta := meta } }, true)

-- ===================================================== replication handler

/-- `replication_handler()`: the leader must be there to be lent. -/
def replicationHandler (e : Engine) : Except String Unit :=
  if e.leader.isSome then pure ()
  else throw "internal error: entered unreachable code: There is no leader, can not handle replication"

/-- Change the leader, when there is one. -/
def mapLeader (e : Engine) (f : Leader → Leader) : Engine := { e with leader := e.leader.map f }

/-- The replication targets: every progress entry but this node. -/
def targets (e : Engine) : List NodeId :=
  match e.leader with
  | some l => (l.progress.map Prod.fst).filter (· ≠ e.config.id)
  | none => []

/-- Modelled from the spec: `ReplicationHandler::rebuild_replication_streams`
(§4.4). -/
def rebuildReplicationStreams (e : Engine) : Engine :=
  e.pushCommand (.rebuildReplicationStreams e.targets)

/-- Modelled from the spec: `ReplicationHandler::update_local_progress` —
this node's own matching log id. -/
def updateLocalProgress (e : Engine) (logId : WithBot LogId) : Engine :=
  e.mapLeader fun l =>
    { l with progress := l.progress.map fun p => if p.1 = e.config.id then (p.1, logId) else p }

/-- Modelled from the spec: `ReplicationHandler::initiate_replication` —
replicate to every target (§4.4). -/
def initiateReplication (e : Engine) : Engine :=
  e.targets.foldl (fun e t => e.pushCommand (.replicate t)) e

/-- Modelled from the spec: `ReplicationHandler::try_purge_log` — purge no
further than the least matching log id of the targets (§4.4). -/
def replicationTryPurgeLog (e : Engine) : Engine :=
  match e.leader with
  | some l => e.purgeIfPast
      (l.progress.foldl (fun acc (p : NodeId × WithBot LogId) => min acc p.2) e.state.purgeUpto)
  | none => e.purgeIfPast e.state.purgeUpto

-- ======================================================= following handler

/-- Modelled from the spec: `FollowingHandler::ensure_log_consecutive`
(§4.5) — the log must hold the leader's `prev_log_id`. -/
def ensureLogConsecutive (e : Engine) (prevLogId : WithBot LogId) :
    Except RejectAppendEntries Unit :=
  match prevLogId with
  | none => .ok ()
  | some p =>
    if e.state.hasLogId p then .ok () else .error (.byConflictingLogId p (e.state.getLogId p.index))

/-- Record one entry in the local log: its log id, and the membership config
it carries. -/
def appendEntryLocal (e : Engine) (entry : Entry) : Except String Engine :=
  let e := { e with state := { e.state with logIds := e.state.logIds.append entry.logId } }
  match entry.getMembership with
  | none => pure e
  | some m => do
    let em : EffectiveMembership := ⟨entry.logId, m⟩
    let ms ← e.state.membershipState.append em
    pure (({ e with state := { e.state with membershipState := ms } }).pushCommand
      (.updateMembership em))

/-- Record entries one after another. -/
def appendEntriesLocal : Engine → List Entry → Except String Engine
  | e, [] => pure e
  | e, entry :: rest => do
    let e ← e.appendEntryLocal entry
    appendEntriesLocal e rest

/-- Modelled from the spec: `FollowingHandler::do_append_entries` — append
the entries from position `since` on and tell the runtime (§4.5). -/
def doAppendEntries (e : Engine) (entries : List Entry) (since : Nat) :
    Except String Engine := do
  let entries := entries.drop since
  if entries.isEmpty then pure e
  else
    let e ← e.appendEntriesLocal entries
    pure (e.pushCommand (.appendInputEntries e.state.vote entries))

/-- Modelled from the spec: `FollowingHandler::truncate_logs` — cut the log
from `since` on, reverting an effective config in the cut part (§4.1). -/
def truncateLogs (e : Engine) (since : Nat) : Except String Engine := do
  let (ms, changed) ← e.state.membershipState.truncate since
  let e := { e with state := { e.state with logIds := e.state.logIds.truncate since,
                                            membershipState := ms } }
  let e := match changed with
    | some m => e.pushCommand (.updateMembership m)
    | none => e
  pure (e.pushCommand (.truncateLog since))

/-- Modelled from the spec: `FollowingHandler::append_entries` — skip the
entries the log holds, cut the local entry the first new one conflicts
with, append the rest (§4.1 step 3). -/
def followingAppendEntries (e : Engine) (entries : List Entry) : Except String Engine := do
  let since := entries.findIdx fun entry => !e.state.hasLogId entry.logId
  match entries.get? since with
  | none => pure e
  | some first =>
    let e ← if (e.state.getLogId first.logId.index).isSome then e.truncateLogs first.logId.index
      else pure e
    e.doAppendEntries entries since

/-- Modelled from the spec: `FollowingHandler::commit_entries` — advance
`committed` to the leader's, bounded by the last log id, commit the
membership config it reaches, and apply (§4.5). -/
def commitEntries (e : Engine) (leaderCommitted : WithBot LogId) : Except String Engine := do
  let committed := min leaderCommitted e.state.lastLogId
  if committed ≤ e.state.committed then pure e
  else
    let prev := e.state.committed
    let ms ← e.state.membershipState.commit committed
    let e := { e with state := { e.state with committed := committed, membershipState := ms } }
    pure ((e.pushCommand (.commit prev committed)).updateServerStateIfChanged)

/-- Modelled from the spec: `FollowingHandler::install_full_snapshot`
(§4.1 step 2) — a snapshot newer than the last one becomes it, advances
`committed`, commits its membership config, and has the log purged up to
it; the condition returned holds once it is installed. -/
def installFullSnapshot (e : Engine) (snapshot : Snapshot) :
    Except String (Engine × Option Condition) := do
  let meta := snapshot.meta
  match meta.lastLogId with
  | none => pure (e, none)
  | some snapLast =>
    let (e, updated) := e.updateSnapshot meta
    if !updated then pure (e, none)
    else
      let (ms, changed) ← e.state.membershipState.updateCommitted meta.lastMembership
      let e := { e with state := { e.state with committed := max e.state.committed snapLast,
                                                membershipState := ms } }
      let e := match changed with
        | some m => e.pushCommand (.updateMembership m)
        | none => e
      let e := e.pushCommand (.installFullSnapshot meta)
      let e := if e.state.purgeUpto < (snapLast : WithBot LogId) then e.updatePurgeUpto snapLast
        else e
      pure (e.purgeLog, some (.snapshot snapLast))

-- ========================================================== leader handler

/-- Modelled from the spec: `LeaderHandler::leader_append_entries` (§4.6) —
successive log ids of the leader's vote after the last log id, appended
locally, the leader's own progress advanced, replicated. -/
def leaderAppendEntries (e : Engine) (l : Leader) (entries : List Entry) :
    Except String Engine := do
  let start := nextIndex e.state.lastLogId
  let entries := entries.enum.map fun (i, entry) =>
    { entry with logId := LogId.new l.vote.leaderId (start + i) }
  match entries.getLast? with
  | none => pure e
  | some last =>
    let e ← e.appendEntriesLocal entries
    let e := (e.pushCommand (.appendInputEntries l.vote entries)).mapLeader fun l =>
      { l with lastLogId := last.logId }
    pure (e.updateLocalProgress last.logId).initiateReplication

end Engine

end Openraft
