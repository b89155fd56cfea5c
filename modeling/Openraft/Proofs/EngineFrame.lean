import Openraft.Engine.Run

/-!
Frame lemmas: which handlers leave the engine's voting part alone.

# The voting part

Everything the election invariants read of an engine is `Engine.voting`: the
node's id, its vote, the greatest vote it has seen, the vote its candidate
campaigns with, and whether it has a leader. Only the vote handler, the establish handler and
`update_internal_server_state` change it. Every other handler — log,
snapshot, replication, leader and following handlers, the server-state
handler, the output queue — leaves it as it was, panics apart; this file
proves that once per handler, so that the invariant proofs never unfold
one.
-/

namespace Openraft

namespace Engine

/-- The part of an engine the vote invariants read. -/
structure Voting where
  id : NodeId
  vote : Vote
  lastSeenVote : Vote
  candidateVote : Option Vote
  hasLeader : Bool

/-- The voting part of an engine. -/
def voting (e : Engine) : Voting :=
  ⟨e.config.id, e.state.vote, e.lastSeenVote, e.candidate.map (·.vote), e.leader.isSome⟩

variable {e e' : Engine}

@[simp] theorem voting_pushCommand (c : Command) : (e.pushCommand c).voting = e.voting := rfl

/-- The server-state handler changes the server state and the output only. -/
theorem updateServerStateIfChanged_eq (e : Engine) :
    ∃ s out, e.updateServerStateIfChanged =
      { e with state := { e.state with serverState := s }, output := out } := by
  unfold updateServerStateIfChanged
  dsimp only
  split
  · exact ⟨_, _, rfl⟩
  · exact ⟨_, _, rfl⟩

@[simp] theorem voting_updateServerStateIfChanged :
    e.updateServerStateIfChanged.voting = e.voting := by
  obtain ⟨s, out, h⟩ := updateServerStateIfChanged_eq e
  rw [h]
  rfl

@[simp] theorem updateServerStateIfChanged_leader :
    e.updateServerStateIfChanged.leader = e.leader := by
  obtain ⟨s, out, h⟩ := updateServerStateIfChanged_eq e
  rw [h]

@[simp] theorem updateServerStateIfChanged_vote :
    e.updateServerStateIfChanged.state.vote = e.state.vote := by
  obtain ⟨s, out, h⟩ := updateServerStateIfChanged_eq e
  rw [h]

@[simp] theorem updateServerStateIfChanged_candidate :
    e.updateServerStateIfChanged.candidate = e.candidate := by
  obtain ⟨s, out, h⟩ := updateServerStateIfChanged_eq e
  rw [h]

@[simp] theorem updateServerStateIfChanged_config :
    e.updateServerStateIfChanged.config = e.config := by
  obtain ⟨s, out, h⟩ := updateServerStateIfChanged_eq e
  rw [h]

@[simp] theorem updateServerStateIfChanged_membershipState :
    e.updateServerStateIfChanged.state.membershipState = e.state.membershipState := by
  obtain ⟨s, out, h⟩ := updateServerStateIfChanged_eq e
  rw [h]

@[simp] theorem updateServerStateIfChanged_committed :
    e.updateServerStateIfChanged.state.committed = e.state.committed := by
  obtain ⟨s, out, h⟩ := updateServerStateIfChanged_eq e
  rw [h]

@[simp] theorem updateServerStateIfChanged_logIds :
    e.updateServerStateIfChanged.state.logIds = e.state.logIds := by
  obtain ⟨s, out, h⟩ := updateServerStateIfChanged_eq e
  rw [h]

@[simp] theorem voting_updatePurgeUpto (l : LogId) : (e.updatePurgeUpto l).voting = e.voting :=
  rfl

@[simp] theorem voting_purgeUpto (l : LogId) : (e.purgeUpto l).voting = e.voting := rfl

@[simp] theorem voting_purgeIfPast (upto : WithBot LogId) :
    (e.purgeIfPast upto).voting = e.voting := by
  cases upto with
  | bot => rfl
  | coe upto => simp only [purgeIfPast]; split <;> simp

@[simp] theorem voting_purgeLog : e.purgeLog.voting = e.voting := voting_purgeIfPast _

@[simp] theorem voting_schedulePolicyBasedPurge : e.schedulePolicyBasedPurge.voting = e.voting := by
  unfold schedulePolicyBasedPurge
  split
  · split <;> simp
  · rfl

@[simp] theorem voting_updateSnapshot (m : SnapshotMeta) :
    (e.updateSnapshot m).1.voting = e.voting := by
  unfold updateSnapshot
  split <;> rfl

@[simp] theorem voting_mapLeader (f : Leader → Leader) : (e.mapLeader f).voting = e.voting := by
  simp [mapLeader, voting]

@[simp] theorem voting_rebuildReplicationStreams : e.rebuildReplicationStreams.voting = e.voting :=
  rfl

@[simp] theorem voting_updateLocalProgress (l : WithBot LogId) :
    (e.updateLocalProgress l).voting = e.voting := voting_mapLeader _

/-- `initiate_replication` only queues one `Replicate` per target. -/
theorem initiateReplication_eq (e : Engine) :
    e.initiateReplication = { e with output := e.output ++ e.targets.map Command.replicate } := by
  unfold initiateReplication
  generalize e.targets = ts
  induction ts generalizing e with
  | nil => simp
  | cons t ts ih => rw [List.foldl_cons, ih]; simp [pushCommand]

@[simp] theorem voting_initiateReplication : e.initiateReplication.voting = e.voting := by
  rw [initiateReplication_eq]
  rfl

@[simp] theorem voting_replicationTryPurgeLog : e.replicationTryPurgeLog.voting = e.voting := by
  unfold replicationTryPurgeLog
  split <;> simp

@[simp] theorem voting_setGreaterLog : e.setGreaterLog.voting = e.voting := rfl

@[simp] theorem voting_resetGreaterLog : e.resetGreaterLog.voting = e.voting := rfl

@[simp] theorem voting_tryPurgeLog : e.tryPurgeLog.voting = e.voting := by
  unfold tryPurgeLog
  split <;> simp

@[simp] theorem voting_finishBuildingSnapshot (m : SnapshotMeta) :
    (e.finishBuildingSnapshot m).voting = e.voting := by
  unfold finishBuildingSnapshot
  dsimp only
  split <;> simp only [voting_tryPurgeLog, voting_schedulePolicyBasedPurge, voting_updateSnapshot] <;>
    rfl

@[simp] theorem voting_handleBeginReceivingSnapshot (tx : Tx) :
    (e.handleBeginReceivingSnapshot tx).voting = e.voting := rfl

-- ============================================ handlers that may panic

theorem voting_appendEntryLocal {entry : Entry} (h : e.appendEntryLocal entry = .ok e') :
    e'.voting = e.voting := by
  unfold appendEntryLocal at h
  split at h
  · cases h
    rfl
  · obtain ⟨ms, -, h⟩ := bind_eq_ok.mp h
    cases h
    rfl

theorem voting_appendEntriesLocal {entries : List Entry}
    (h : e.appendEntriesLocal entries = .ok e') : e'.voting = e.voting := by
  induction entries generalizing e with
  | nil =>
    cases h
    rfl
  | cons entry rest ih =>
    obtain ⟨e₁, h₁, h₂⟩ := bind_eq_ok.mp h
    exact (ih h₂).trans (voting_appendEntryLocal h₁)

theorem voting_doAppendEntries {entries : List Entry} {since : Nat}
    (h : e.doAppendEntries entries since = .ok e') : e'.voting = e.voting := by
  unfold doAppendEntries at h
  dsimp only at h
  split at h
  · cases h
    rfl
  · obtain ⟨e₁, h₁, h₂⟩ := bind_eq_ok.mp h
    cases h₂
    simpa using voting_appendEntriesLocal h₁

theorem voting_truncateLogs {since : Nat} (h : e.truncateLogs since = .ok e') :
    e'.voting = e.voting := by
  unfold truncateLogs at h
  obtain ⟨⟨ms, changed⟩, -, h⟩ := bind_eq_ok.mp h
  cases changed <;> cases h <;> rfl

theorem voting_followingAppendEntries {entries : List Entry}
    (h : e.followingAppendEntries entries = .ok e') : e'.voting = e.voting := by
  unfold followingAppendEntries at h
  dsimp only at h
  split at h
  · cases h
    rfl
  · split at h
    · obtain ⟨e₁, h₁, h₂⟩ := bind_eq_ok.mp h
      rw [voting_doAppendEntries h₂, voting_truncateLogs h₁]
    · exact voting_doAppendEntries h

theorem voting_commitEntries {c : WithBot LogId} (h : e.commitEntries c = .ok e') :
    e'.voting = e.voting := by
  unfold commitEntries at h
  dsimp only at h
  split at h
  · cases h
    rfl
  · obtain ⟨ms, -, h⟩ := bind_eq_ok.mp h
    cases h
    exact voting_updateServerStateIfChanged.trans rfl

theorem voting_installFullSnapshot {s : Snapshot} {r : Engine × Option Condition}
    (h : e.installFullSnapshot s = .ok r) : r.1.voting = e.voting := by
  unfold installFullSnapshot at h
  dsimp only at h
  split at h
  · cases h
    rfl
  · split at h
    · cases h
      simp
    · obtain ⟨⟨ms, changed⟩, -, h⟩ := bind_eq_ok.mp h
      cases h
      cases changed <;> split <;>
        simp only [voting_purgeLog, voting_updatePurgeUpto, voting_pushCommand] <;>
        exact voting_updateSnapshot _

theorem voting_leaderAppendEntries {l : Leader} {entries : List Entry}
    (h : e.leaderAppendEntries l entries = .ok e') : e'.voting = e.voting := by
  unfold leaderAppendEntries at h
  dsimp only at h
  split at h
  · cases h
    rfl
  · obtain ⟨e₁, h₁, h₂⟩ := bind_eq_ok.mp h
    cases h₂
    simpa using voting_appendEntriesLocal h₁

/-- What `trigger_purge_log` does when it returns: nothing, or a new
`purge_upto` followed by `try_purge_log`. -/
theorem triggerPurgeLog_eq_ok {i : Nat} (h : e.triggerPurgeLog i = .ok e') :
    e' = e ∨ ∃ logId, e' = (e.updatePurgeUpto logId).tryPurgeLog := by
  unfold triggerPurgeLog at h
  split at h
  · dsimp only at h
    split at h
    · cases h
    · split at h
      · exact .inl (Except.ok.inj h).symm
      · split at h
        · exact .inr ⟨_, (Except.ok.inj h).symm⟩
        · cases h
  · exact .inl (Except.ok.inj h).symm

theorem voting_triggerPurgeLog {i : Nat} (h : e.triggerPurgeLog i = .ok e') :
    e'.voting = e.voting := by
  rcases triggerPurgeLog_eq_ok h with rfl | ⟨_, rfl⟩
  · rfl
  · simp

end Engine

end Openraft
