import Openraft.Proofs.Lifecycle

/-!
The leader state and `leader_handler`: a node's leader always runs on a
committed vote, so `leader_handler` lends every leader there is.

# The invariant

`LeaderVoteInv`: a leader's vote is committed and at most the node's
vote. Three places make a leader or change its vote.

- `establish_leader` makes one from the candidate a quorum granted;
  `Candidate::into_leader` commits the candidate's vote, and the
  `update_vote` right after raises the node's vote to it.
- `update_internal_server_state` makes one on the node's own vote, only
  when that vote is committed (`is_leader`).
- `update_vote` takes a greater vote, and a leader of the same leader id
  would take it too. That never happens: a committed vote is the greatest
  of its leader id, and the leader's vote is at most the node's. The
  leader stays, below the new vote, or is dropped.

Every other handler leaves the leader's vote and the node's vote alone,
or runs behind `following_handler`, which finds no leader.

# `leader_handler`

It lends the leader when the leader's vote is committed and otherwise
forwards to the leader the node knows of. On every run a leader only
meets the first case: the check "this leader is not accepted by a quorum
yet" never fails.
-/

namespace Openraft

/-- A committed vote is the greatest of its leader id. -/
theorem Vote.le_of_committed {a b : Vote} (ha : a.committed = true) (h : a.leaderId = b.leaderId) :
    b ≤ a := by
  obtain rfl : a = b.commit := by
    cases a
    cases b
    simp_all [Vote.commit]
  exact Vote.le_commit b

namespace Engine

/-- A leader runs on a committed vote, at most the node's vote. -/
def LeaderVoteInv (e : Engine) : Prop :=
  ∀ l, e.leader = some l → l.vote.committed = true ∧ l.vote ≤ e.state.vote

variable {e e' : Engine} {now : Instant}

namespace LeaderVoteInv

/-- With no leader there is nothing to keep. -/
theorem of_none (h : e.leader = none) : e.LeaderVoteInv := fun _ hl => by simp [h] at hl

/-- A handler that keeps the leader's vote and does not lower the node's
keeps the invariant. -/
theorem frame (h : e.LeaderVoteInv) (hl : e'.leader.map Leader.vote = e.leader.map Leader.vote)
    (hv : e.state.vote ≤ e'.state.vote) : e'.LeaderVoteInv := by
  intro l' hl'
  rw [hl', Option.map_some'] at hl
  obtain ⟨l, hL, heq⟩ := Option.map_eq_some'.mp hl.symm
  rw [← heq]
  exact (h l hL).imp_right (·.trans hv)

end LeaderVoteInv

-- ============================================= handlers that keep the leader

/-- `following_handler()` returned: there is no leader. -/
theorem leader_eq_none_of_followingHandler (h : e.followingHandler = .ok ()) : e.leader = none := by
  unfold followingHandler at h
  split_ifs at h with hn
  exact Option.isNone_iff_eq_none.mp hn

/-- A handler that leaves the voting part makes no leader. -/
theorem leader_eq_none_of_voting (hv : e'.voting = e.voting) (h : e.leader = none) : e'.leader = none :=
  Option.not_isSome_iff_eq_none.mp fun hs => by simpa [voting, h, hs] using congrArg Voting.hasLeader hv

@[simp] theorem purgeIfPast_leader (u : WithBot LogId) : (e.purgeIfPast u).leader = e.leader := by
  obtain ⟨_, _, _, h⟩ := purgeIfPast_eq e u
  rw [h]

@[simp] theorem tryPurgeLog_leader : e.tryPurgeLog.leader = e.leader := by
  unfold tryPurgeLog replicationTryPurgeLog purgeLog
  split
  · split <;> simp
  · simp

@[simp] theorem updateSnapshot_leader (m : SnapshotMeta) : (e.updateSnapshot m).1.leader = e.leader := by
  unfold updateSnapshot
  split <;> rfl

@[simp] theorem schedulePolicyBasedPurge_leader : e.schedulePolicyBasedPurge.leader = e.leader := by
  unfold schedulePolicyBasedPurge
  split
  · split <;> rfl
  · rfl

@[simp] theorem finishBuildingSnapshot_leader (m : SnapshotMeta) :
    (e.finishBuildingSnapshot m).leader = e.leader := by
  unfold finishBuildingSnapshot
  dsimp only
  split <;> simp only [tryPurgeLog_leader, schedulePolicyBasedPurge_leader, updateSnapshot_leader]

theorem triggerPurgeLog_leader {i : Nat} (h : e.triggerPurgeLog i = .ok e') : e'.leader = e.leader := by
  rcases triggerPurgeLog_eq_ok h with rfl | ⟨_, rfl⟩
  · rfl
  · simp [updatePurgeUpto]

theorem appendEntryLocal_leader {entry : Entry} (h : e.appendEntryLocal entry = .ok e') :
    e'.leader = e.leader := by
  unfold appendEntryLocal at h
  split at h
  · cases h
    rfl
  · obtain ⟨ms, -, h⟩ := bind_eq_ok.mp h
    cases h
    rfl

theorem appendEntriesLocal_leader {entries : List Entry} (h : e.appendEntriesLocal entries = .ok e') :
    e'.leader = e.leader := by
  induction entries generalizing e with
  | nil =>
    cases h
    rfl
  | cons entry rest ih =>
    obtain ⟨e₁, h₁, h₂⟩ := bind_eq_ok.mp h
    exact (ih h₂).trans (appendEntryLocal_leader h₁)

@[simp] theorem updateLocalProgress_leaderVote (x : WithBot LogId) :
    (e.updateLocalProgress x).leader.map Leader.vote = e.leader.map Leader.vote := by
  cases h : e.leader <;> simp [updateLocalProgress, mapLeader, h]

/-- `leader_append_entries` keeps the leader's vote and the node's. -/
theorem leaderAppendEntries_leaderVote {l : Leader} {entries : List Entry}
    (h : e.leaderAppendEntries l entries = .ok e') :
    e'.leader.map Leader.vote = e.leader.map Leader.vote ∧ e'.state.vote = e.state.vote := by
  refine ⟨?_, congrArg Voting.vote (voting_leaderAppendEntries h)⟩
  unfold leaderAppendEntries at h
  dsimp only at h
  split at h
  · cases h
    rfl
  · obtain ⟨e₁, h₁, h₂⟩ := bind_eq_ok.mp h
    cases h₂
    cases hl : e₁.leader <;> simp [initiateReplication_eq, mapLeader, hl, ← appendEntriesLocal_leader h₁]

-- ================================================= handlers that change it

/-- `update_vote` keeps the invariant: a greater vote never goes to a
leader of its leader id. -/
theorem leaderVoteInv_updateVote (h : e.LeaderVoteInv) (now : Instant) (v : Vote) :
    (e.updateVote now v).1.LeaderVoteInv := by
  intro l' hl'
  rw [updateVote_leader] at hl'
  rw [updateVote_vote]
  split_ifs at hl' with hlt
  · cases hL : e.leader with
    | none => simp [hL, leaderAfterVote] at hl'
    | some l =>
      obtain ⟨hc, hle⟩ := h l hL
      simp only [hL, leaderAfterVote] at hl'
      split_ifs at hl' with hn hid
      · exact absurd (Vote.le_of_committed hc hid) (not_le.mpr (hle.trans_lt hlt))
      · cases hl'
        exact ⟨hc, hle.trans (le_max_left _ _)⟩
  · exact (h l' hl').imp_right (·.trans (le_max_left _ _))

/-- `update_internal_server_state` makes a leader only on a committed vote. -/
theorem leaderVoteInv_updateInternalServerState (h : e.LeaderVoteInv) :
    e.updateInternalServerState.LeaderVoteInv := by
  unfold updateInternalServerState
  dsimp only
  intro l hl
  rw [updateServerStateIfChanged_leader] at hl
  rw [updateServerStateIfChanged_vote]
  split_ifs at hl ⊢ with h₁
  · exact h l hl
  · cases hl
    simp only [RaftState.isLeader, Bool.and_eq_true] at h₁
    exact ⟨h₁.2, le_rfl⟩
  · exact h l hl

/-- `elect` takes its vote through `update_vote`. -/
theorem leaderVoteInv_elect (h : e.LeaderVoteInv) (he : e.elect now = .ok e') : e'.LeaderVoteInv := by
  unfold elect at he
  dsimp only at he
  split_ifs at he
  split at he
  · cases he
  · rename_i e₂ heq
    cases he
    rw [show e₂ = _ from (congrArg Prod.fst heq).symm]
    generalize Vote.new (e.lastSeenVote.leaderId.term + 1) e.config.id = v
    exact (leaderVoteInv_updateVote (e := (e.newCandidate now v).1) h now v).frame (by simp) (by simp)

/-- `establish_leader` makes its leader on the committed vote it then takes. -/
theorem leaderVoteInv_establishLeader (h : e.LeaderVoteInv)
    (hown : ∀ c, e.candidate = some c → c.vote.leaderId.nodeId = e.config.id)
    (he : e.establishLeader now = .ok e') : e'.LeaderVoteInv := by
  obtain ⟨c, hc, rfl | ⟨e₃, he₃, -, he⟩⟩ := establishLeader_eq_ok he
  · exact h
  have hself : (e₃.updateVote now c.intoLeader.vote).1.leader = some c.intoLeader :=
    updateVote_leader_self (he₃ ▸ rfl) (by rw [← he₃]; exact hown c hc)
  obtain ⟨hl, hv⟩ := leaderAppendEntries_leaderVote he
  refine LeaderVoteInv.frame (fun l hl' => ?_) hl hv.ge
  rw [hself] at hl'
  cases hl'
  rw [updateVote_vote]
  exact ⟨rfl, le_max_right _ _⟩

/-- `handle_vote_resp` establishes its own candidate, a candidate of this
node's vote. -/
theorem leaderVoteInv_handleVoteResp (h : e.LeaderVoteInv) (hv : e.voting.Inv) {target : NodeId}
    {resp : VoteResponse} (hs : e.handleVoteResp now target resp = .ok e') : e'.LeaderVoteInv := by
  unfold handleVoteResp at hs
  dsimp only at hs
  split at hs
  · cases hs
    exact h
  rename_i c hc
  replace hc : e.candidate = some c := hc
  split_ifs at hs
  · refine leaderVoteInv_establishLeader (e := { e.updateLastSeen resp.vote with candidate := _ }) h
      (fun c' hc' => ?_) hs
    cases hc'
    exact (hv.candidate c.vote (by simp [voting, hc])).2
  all_goals
    cases hs
    exact h

/-- `append_entries` takes the vote through `update_vote`, and appends
only behind `following_handler`. -/
theorem leaderVoteInv_appendEntries (h : e.LeaderVoteInv) {vote : Vote} {prev : WithBot LogId}
    {entries : List Entry} {r : Engine × Except RejectAppendEntries Unit}
    (hr : e.appendEntries now vote prev entries = .ok r) : r.1.LeaderVoteInv := by
  rcases appendEntries_eq_ok hr with ⟨-, rfl⟩ | ⟨-, hfh, ⟨rej, -, rfl⟩ | ⟨-, e₂, h₂, rfl⟩⟩
  · exact h
  · exact leaderVoteInv_updateVote h now vote
  · exact .of_none (leader_eq_none_of_voting (voting_followingAppendEntries h₂)
      (leader_eq_none_of_followingHandler hfh))

/-- `handle_install_full_snapshot` takes the vote through `accept_vote`, and
installs only behind `following_handler`. -/
theorem leaderVoteInv_handleInstallFullSnapshot (h : e.LeaderVoteInv) {vote : Vote} {s : Snapshot}
    {tx : Tx} {r : Engine × Option SnapshotResponse}
    (hs : e.handleInstallFullSnapshot now vote s tx = .ok r) : r.1.LeaderVoteInv := by
  rcases handleInstallFullSnapshot_eq_ok hs with h' | ⟨hfh, e₂, cond, h₂, h'⟩ <;> rw [h']
  · exact leaderVoteInv_updateVote h now vote
  · exact .of_none (leader_eq_none_of_voting (voting_installFullSnapshot h₂)
      (leader_eq_none_of_followingHandler hfh))

/-- `startup` restores a leader through `update_internal_server_state`. -/
theorem leaderVoteInv_startup (h : e.LeaderVoteInv) (hs : e.startup = .ok e') : e'.LeaderVoteInv := by
  unfold startup at hs
  split_ifs at hs
  · obtain ⟨-, -, hs⟩ := bind_eq_ok.mp hs
    cases hs
    exact (leaderVoteInv_updateInternalServerState h).frame (by simp [initiateReplication_eq])
      (by simp [initiateReplication_eq, updateLocalProgress, mapLeader])
  all_goals
    cases hs
    exact h

/-- `initialize` elects behind `following_handler`. -/
theorem leaderVoteInv_initializeNode {entry : Entry} {r : Engine × Except InitializeError Unit}
    (h : e.LeaderVoteInv) (hs : e.initializeNode now entry = .ok r) : r.1.LeaderVoteInv := by
  rcases initializeNode_eq_ok hs with ⟨err, rfl⟩ | ⟨hfh, e₁, h₁, h₂, -⟩
  · exact h
  · exact leaderVoteInv_elect (.of_none (leader_eq_none_of_voting (voting_doAppendEntries h₁)
      (leader_eq_none_of_followingHandler hfh))) h₂

/-- Every event keeps the invariant, on an engine whose voting part keeps
its own. -/
theorem leaderVoteInv_step (h : e.LeaderVoteInv) (hv : e.voting.Inv) {ev : Event}
    (hs : e.step now ev = .ok e') : e'.LeaderVoteInv := by
  cases ev with
  | startup => exact leaderVoteInv_startup h hs
  | initializeNode entry =>
    obtain ⟨r, hr, rfl⟩ := map_eq_ok.mp hs
    exact leaderVoteInv_initializeNode h hr
  | elect => exact leaderVoteInv_elect h hs
  | handleVoteReq req =>
    cases hs
    rw [handleVoteReq_fst]
    split_ifs
    · exact h
    · exact leaderVoteInv_updateVote h now req.vote
  | handleVoteResp target resp => exact leaderVoteInv_handleVoteResp h hv hs
  | handleAppendEntries vote prevLogId entries tx =>
    obtain ⟨r, hr, rfl⟩ := map_eq_ok.mp hs
    obtain ⟨⟨e₁, res⟩, h₁, hr⟩ := bind_eq_ok.mp hr
    cases tx <;> cases hr <;> exact leaderVoteInv_appendEntries h h₁
  | handleCommitEntries leaderCommitted =>
    obtain ⟨u, hfh, hs⟩ := bind_eq_ok.mp hs
    exact .of_none (leader_eq_none_of_voting (voting_commitEntries hs) (leader_eq_none_of_followingHandler hfh))
  | handleInstallFullSnapshot vote snapshot tx =>
    obtain ⟨r, hr, rfl⟩ := map_eq_ok.mp hs
    exact leaderVoteInv_handleInstallFullSnapshot h hr
  | leaderStepDown =>
    cases hs
    unfold leaderStepDown
    split_ifs
    · exact leaderVoteInv_updateInternalServerState h
    · exact h
  | triggerPurgeLog index =>
    exact h.frame (by rw [triggerPurgeLog_leader hs]) (congrArg Voting.vote (voting_triggerPurgeLog hs)).ge
  | finishBuildingSnapshot m =>
    cases hs
    exact h.frame (by simp) (congrArg Voting.vote (voting_finishBuildingSnapshot m)).ge
  | tryPurgeLog =>
    cases hs
    exact h.frame (by simp) (congrArg Voting.vote voting_tryPurgeLog).ge
  | handleBeginReceivingSnapshot _ | resetGreaterLog =>
    cases hs
    exact h

/-- The invariant holds on every run from `Engine::new`. -/
theorem leaderVoteInv_of_reachable {st : RaftState} {cfg : EngineConfig}
    (hr : Reachable (Engine.new st cfg) e) : e.LeaderVoteInv := by
  induction hr with
  | init => exact .of_none rfl
  | step hr hs ih => exact leaderVoteInv_step ih (voteInv_reachable hr) hs

-- ========================================================= leader_handler

/-- `leader_handler` lends every leader: on every run from `Engine::new`, a
node's leader runs on a committed vote, at most the node's vote, so the
handler returns it and never forwards a node that leads — its check "this
leader is not accepted by a quorum yet" never fails. -/
theorem leaderHandler_lends_leader {st : RaftState} {cfg : EngineConfig}
    (hr : Reachable (Engine.new st cfg) e) {l : Leader} (hl : e.leader = some l) :
    e.leaderHandler = .ok l ∧ l.vote ≤ e.state.vote := by
  obtain ⟨hc, hle⟩ := leaderVoteInv_of_reachable hr l hl
  refine ⟨?_, hle⟩
  simp [leaderHandler, hl, Vote.isCommitted, hc]

/-- Node 1, elected alone after `initialize`, is lent to its leader handler. -/
theorem solo_leader_lent :
    ∃ e l, Reachable (Engine.new RaftState.default ⟨1, 0, 0⟩) e ∧ e.leader = some l ∧
      e.leaderHandler = .ok l ∧ l.vote ≤ e.state.vote := by
  obtain ⟨e₁, h₁⟩ : ∃ e₁, (Engine.new RaftState.default ⟨1, 0, 0⟩).step 0 (.initializeNode soloConfigEntry) =
      .ok e₁ := ⟨_, rfl⟩
  have he₁ := Except.ok.inj (h₁.symm.trans rfl)
  obtain ⟨e, h₂⟩ : ∃ e, e₁.step 0 (.handleVoteResp 1 ⟨Vote.new 1 1, ⊥⟩) = .ok e := by
    rw [he₁]
    exact ⟨_, rfl⟩
  have hr : Reachable (Engine.new RaftState.default ⟨1, 0, 0⟩) e := .step (.step .init h₁) h₂
  obtain ⟨l, hl⟩ : ∃ l, e.leader = some l := by
    rw [he₁] at h₂
    rw [Except.ok.inj (h₂.symm.trans rfl)]
    exact ⟨_, rfl⟩
  exact ⟨e, l, hr, hl, leaderHandler_lends_leader hr hl⟩

end Engine

end Openraft
