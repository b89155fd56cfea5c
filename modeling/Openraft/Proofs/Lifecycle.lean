import Openraft.Proofs.NodeSteps

/-!
A node's lifecycle on its own: cluster formation by `initialize`, a
leader stepping down with `leader_step_down`, and a restart by `startup`.

# One successful `initialize` per run

`check_initialize` admits only a node with no log and the default vote.
A call that passes it ends with `elect`, which votes for this node in the
term after every term seen, so the vote is then above the default one.
No event lowers the vote: `update_vote` keeps the greater of two votes,
and every other handler leaves the voting part alone (`Voting.Advances`,
proved here for each event of `Engine.step` and, by induction, for every
run). So after an `initialize` that returned `Ok`, every further call on
the same run is refused with `NotAllowed` and changes nothing.

# A new node

On the engine `Engine::new` makes of a state with no log, the default
vote and no config in its log, `initialize` with a membership entry that
lists the node as a voter returns: the entry becomes the log's only one,
at log id `(0, 0)`, its config becomes the effective one, and the node
campaigns in term 1.

# Stepping down

`leader_step_down` calls `update_internal_server_state` once the
effective config is committed. A leader runs on this node's own vote
(`Voting.Inv`), so it stays while the node is a voter of that config and
is dropped otherwise, the server state then becoming `Learner`: the
function's comment, "keep acting as leader until a membership without
this node is committed".

# Restarting

`startup` on the engine `Engine::new` makes of a stored state restores a
leader exactly when the state says this node is the leader, and never
reaches `replication_handler`'s `unreachable!`: in that branch
`update_internal_server_state` has just made the leader.
-/

namespace Openraft

/-- With no config in the log, appending a logged config cannot fail: it
becomes the effective one and the old effective one the committed. -/
theorem MembershipState.append_of_unlogged {s : MembershipState} (h : s.effective.logId = ⊥)
    (x : LogId) (m : Membership) : s.append ⟨x, m⟩ = .ok ⟨s.effective, ⟨x, m⟩⟩ := by
  simp [append, h]
  rfl

namespace Engine

variable {e e' : Engine} {now : Instant}

-- ================================================= every event advances

/-- `update_internal_server_state` moves only the leader. -/
theorem advances_updateInternalServerState : e.voting.Advances e.updateInternalServerState.voting := by
  unfold updateInternalServerState
  dsimp only
  rw [voting_updateServerStateIfChanged]
  split_ifs <;> exact ⟨rfl, le_rfl, le_rfl, fun _ h => .inl h⟩

/-- `startup` restores a leader through `update_internal_server_state`. -/
theorem advances_startup (hs : e.startup = .ok e') : e.voting.Advances e'.voting := by
  unfold startup at hs
  split_ifs at hs
  · obtain ⟨-, -, hs⟩ := bind_eq_ok.mp hs
    cases hs
    simpa using @advances_updateInternalServerState e
  all_goals
    cases hs
    exact .refl _

/-- What a returning `initialize` did: it refused and left the engine, or
it found no leader, appended the entry at log id `(0, 0)` and elected. -/
theorem initializeNode_eq_ok {entry : Entry} {r : Engine × Except InitializeError Unit}
    (hs : e.initializeNode now entry = .ok r) :
    (∃ err, r = (e, .error err)) ∨
      e.followingHandler = .ok () ∧ ∃ e₁, e.doAppendEntries [{ entry with logId := LogId.default }] 0 = .ok e₁ ∧
        e₁.elect now = .ok r.1 ∧ r.2 = .ok () := by
  unfold initializeNode at hs
  split at hs
  · cases hs
    exact .inl ⟨_, rfl⟩
  dsimp only at hs
  split at hs
  · split at hs
    · cases hs
      exact .inl ⟨_, rfl⟩
    obtain ⟨u, hfh, hs⟩ := bind_eq_ok.mp hs
    obtain ⟨e₁, h₁, hs⟩ := bind_eq_ok.mp hs
    obtain ⟨e₂, h₂, hs⟩ := bind_eq_ok.mp hs
    cases hs
    exact .inr ⟨hfh, e₁, h₁, h₂, rfl⟩
  · cases hs

/-- `initialize` moves the voting part through `elect` only. -/
theorem advances_initializeNode {entry : Entry} {r : Engine × Except InitializeError Unit}
    (hs : e.initializeNode now entry = .ok r) : e.voting.Advances r.1.voting := by
  rcases initializeNode_eq_ok hs with ⟨err, rfl⟩ | ⟨-, e₁, h₁, h₂, -⟩
  · exact .refl _
  · rw [← voting_doAppendEntries h₁]
    exact advances_elect h₂

/-- What a returning `handle_install_full_snapshot` did: `accept_vote`
rejected the vote, or the snapshot was installed behind
`following_handler` and the reply queued. -/
theorem handleInstallFullSnapshot_eq_ok {vote : Vote} {s : Snapshot} {tx : Tx}
    {r : Engine × Option SnapshotResponse} (hs : e.handleInstallFullSnapshot now vote s tx = .ok r) :
    r.1 = (e.updateVote now vote).1 ∨
      (e.updateVote now vote).1.followingHandler = .ok () ∧
        ∃ e₂ cond, (e.updateVote now vote).1.installFullSnapshot s = .ok (e₂, cond) ∧
          r.1 = e₂.pushCommand (.respond cond (.snapshot ⟨e₂.state.vote⟩) tx) := by
  unfold handleInstallFullSnapshot at hs
  split at hs <;> rename_i e₁ _ heq <;>
    rw [← acceptVote_fst vote (fun st => SnapshotResponse.mk st.vote), heq]
  · cases hs
    exact .inl rfl
  · obtain ⟨u, hfh, hs⟩ := bind_eq_ok.mp hs
    obtain ⟨⟨e₂, cond⟩, h₂, hs⟩ := bind_eq_ok.mp hs
    cases hs
    exact .inr ⟨hfh, e₂, cond, h₂, rfl⟩

/-- `handle_install_full_snapshot` moves the voting part as `update_vote`
does. -/
theorem handleInstallFullSnapshot_voting {vote : Vote} {s : Snapshot} {tx : Tx}
    {r : Engine × Option SnapshotResponse} (hs : e.handleInstallFullSnapshot now vote s tx = .ok r) :
    r.1.voting = (e.updateVote now vote).1.voting := by
  rcases handleInstallFullSnapshot_eq_ok hs with h | ⟨-, e₂, cond, h₂, h⟩ <;> rw [h]
  exact voting_installFullSnapshot h₂

/-- No event lowers the vote or the greatest vote seen, or changes the id. -/
theorem advances_step {ev : Event} (hs : e.step now ev = .ok e') : e.voting.Advances e'.voting := by
  cases ev with
  | startup => exact advances_startup hs
  | initializeNode entry =>
    obtain ⟨r, hr, rfl⟩ := map_eq_ok.mp hs
    exact advances_initializeNode hr
  | elect => exact advances_elect hs
  | handleVoteReq req =>
    cases hs
    exact advances_handleVoteReq now req
  | handleVoteResp target resp => exact (handleVoteResp_spec hs).1
  | handleAppendEntries vote prevLogId entries tx =>
    obtain ⟨r, hr, rfl⟩ := map_eq_ok.mp hs
    obtain ⟨⟨e₁, res⟩, h₁, hr⟩ := bind_eq_ok.mp hr
    cases tx <;> cases hr <;> exact advances_appendEntries h₁
  | handleCommitEntries leaderCommitted =>
    obtain ⟨-, -, hs⟩ := bind_eq_ok.mp hs
    exact .of_eq (voting_commitEntries hs)
  | handleInstallFullSnapshot vote snapshot tx =>
    obtain ⟨r, hr, rfl⟩ := map_eq_ok.mp hs
    exact handleInstallFullSnapshot_voting hr ▸ advances_updateVote now vote
  | leaderStepDown =>
    cases hs
    unfold leaderStepDown
    split_ifs
    · exact advances_updateInternalServerState
    · exact .refl _
  | triggerPurgeLog index => exact .of_eq (voting_triggerPurgeLog hs)
  | handleBeginReceivingSnapshot _ | finishBuildingSnapshot _ | tryPurgeLog | resetGreaterLog =>
    cases hs
    exact .of_eq (by simp)

/-- Along every run the voting part advances. -/
theorem advances_of_reachable {e₀ : Engine} (hr : Reachable e₀ e) : e₀.voting.Advances e.voting := by
  induction hr with
  | init => exact .refl _
  | step _ hs ih => exact ih.trans (advances_step hs)

-- ============================================================ initialize

/-- A node whose vote is above the default one is initialized. -/
theorem isInitialized_of_voted (h : Vote.default < e.state.vote) : e.state.isInitialized := by
  simp [RaftState.isInitialized, h.ne']

/-- `initialize` refuses an initialized node with its last log id and vote,
and leaves it as it is. -/
theorem initializeNode_of_initialized (h : e.state.isInitialized) (entry : Entry) :
    e.initializeNode now entry = .ok (e, .error (.notAllowed e.state.lastLogId e.state.vote)) := by
  simp [initializeNode, checkInitialize, h]
  rfl

/-- An `initialize` that returned `Ok` leaves a vote above the default one:
`elect`'s, in the term after the greatest seen. -/
theorem default_lt_of_initializeNode {entry : Entry} (hs : e.initializeNode now entry = .ok (e', .ok ())) :
    Vote.default < e'.state.vote := by
  rcases initializeNode_eq_ok hs with ⟨err, h⟩ | ⟨-, e₁, -, h₂, -⟩
  · cases h
  obtain ⟨-, -, hv⟩ := elect_eq_ok h₂
  rw [show e'.state.vote = e₁.electVote from congrArg Voting.vote hv]
  exact Vote.lt_of_term_lt (by simp [electVote, Vote.default])

/-- Cluster formation is one-shot: on every run after an `initialize` that
returned `Ok`, each further `initialize` is refused with `NotAllowed`,
carrying the node's last log id and vote, and leaves the engine as it is. -/
theorem initialize_refused_after_success {e₀ e₁ : Engine} {now₀ : Instant} {entry₀ : Entry}
    (h₁ : e₀.initializeNode now₀ entry₀ = .ok (e₁, .ok ())) (hr : Reachable e₁ e) (entry : Entry) :
    e.initializeNode now entry = .ok (e, .error (.notAllowed e.state.lastLogId e.state.vote)) :=
  initializeNode_of_initialized
    (isInitialized_of_voted ((default_lt_of_initializeNode h₁).trans_le (advances_of_reachable hr).vote)) entry

/-- A config of node 1 alone. -/
def soloConfig : Membership := ⟨[[1]], [(1, 0)]⟩

/-- The entry node 1 is initialized with. -/
def soloConfigEntry : Entry := ⟨LogId.default, .membership soloConfig⟩

/-- Node 1 initializes alone, its own grant makes it leader, and a second
`initialize` is refused. -/
theorem solo_leader_refuses_initialize :
    ∃ e₁ e, (Engine.new RaftState.default ⟨1, 0, 0⟩).initializeNode 0 soloConfigEntry = .ok (e₁, .ok ()) ∧
      e₁.step 0 (.handleVoteResp 1 ⟨Vote.new 1 1, ⊥⟩) = .ok e ∧ e.leader.isSome ∧
      e.initializeNode 0 soloConfigEntry = .ok (e, .error (.notAllowed e.state.lastLogId e.state.vote)) := by
  obtain ⟨e₁, h₁⟩ : ∃ e₁, (Engine.new RaftState.default ⟨1, 0, 0⟩).initializeNode 0 soloConfigEntry =
      .ok (e₁, .ok ()) := ⟨_, rfl⟩
  have he₁ := (Prod.mk.inj (Except.ok.inj (h₁.symm.trans rfl))).1
  obtain ⟨e, he⟩ : ∃ e, e₁.step 0 (.handleVoteResp 1 ⟨Vote.new 1 1, ⊥⟩) = .ok e := by
    rw [he₁]
    exact ⟨_, rfl⟩
  have hl : e.leader.isSome := by
    rw [he₁] at he
    rw [Except.ok.inj (he.symm.trans rfl)]
    rfl
  exact ⟨e₁, e, h₁, he, hl, initialize_refused_after_success h₁ (.step .init he) soloConfigEntry⟩

-- ============================================================ a new node

/-- `do_append_entries` of one config entry on a node with no config in
its log: the log id is appended, the config becomes effective, and the
runtime is told both. -/
theorem doAppendEntries_config (h : e.state.membershipState.effective.logId = ⊥) (x : LogId)
    (m : Membership) :
    e.doAppendEntries [⟨x, .membership m⟩] 0 =
      .ok (((({ e with state := { e.state with logIds := e.state.logIds.append x,
                                                membershipState := ⟨e.state.membershipState.effective, ⟨x, m⟩⟩ } } :
        Engine).pushCommand (.updateMembership ⟨x, m⟩)).pushCommand
          (.appendInputEntries e.state.vote [⟨x, .membership m⟩]))) := by
  simp [doAppendEntries, appendEntriesLocal, appendEntryLocal, Entry.getMembership,
    MembershipState.append_of_unlogged h]

/-- A new node forms a cluster: on the engine `Engine::new` makes of a state
with no log, the default vote and no config in its log, `initialize` with a
membership entry listing the node as a voter returns `Ok`; the entry is then
the log's only one, at log id `(0, 0)`, its config is the effective one,
and the node campaigns in term 1. -/
theorem initialize_new_node {st : RaftState} {cfg : EngineConfig} (hlog : st.logIds = ⟨[]⟩)
    (hvote : st.vote = Vote.default) (hms : st.membershipState.effective.logId = ⊥) {entry : Entry}
    {m : Membership} (hm : entry.getMembership = some m) (hvoter : m.isVoter cfg.id) (now : Instant) :
    ∃ e', (Engine.new st cfg).initializeNode now entry = .ok (e', .ok ()) ∧
      e'.state.logIds = ⟨[LogId.default]⟩ ∧
      e'.state.membershipState = ⟨st.membershipState.effective, ⟨LogId.default, m⟩⟩ ∧
      e'.state.vote = Vote.new 1 cfg.id ∧ e'.candidate.map (·.vote) = some (Vote.new 1 cfg.id) := by
  obtain ⟨x, _ | _ | m'⟩ := entry <;> simp only [Entry.getMembership, reduceCtorEq, Option.some.injEq] at hm
  subst m'
  -- the entry appended, the config effective, the voting part as `Engine::new` left it
  obtain ⟨e₁, happ, hlog₁, hms₁⟩ : ∃ e₁, (Engine.new st cfg).doAppendEntries [⟨LogId.default, .membership m⟩] 0 =
      .ok e₁ ∧ e₁.state.logIds = ⟨[LogId.default]⟩ ∧
      e₁.state.membershipState = ⟨st.membershipState.effective, ⟨LogId.default, m⟩⟩ :=
    ⟨_, doAppendEntries_config hms _ _, by simp [Engine.new, hlog]; rfl, rfl⟩
  have hw := voting_doAppendEntries happ
  have hv₁ : e₁.state.vote = Vote.default := (congrArg Voting.vote hw).trans hvote
  have hs₁ : e₁.lastSeenVote = Vote.default := (congrArg Voting.lastSeenVote hw).trans hvote
  obtain ⟨e', he'⟩ := elect_isOk now (hv₁.trans hs₁.symm).le (by simp [hs₁, Vote.default, u64Max])
  obtain ⟨-, -, hv⟩ := elect_eq_ok he'
  have hvote' : e₁.electVote = Vote.new 1 cfg.id := by
    simp [electVote, hs₁, Vote.default, show e₁.config.id = cfg.id from congrArg Voting.id hw]
  refine ⟨e', ?_, (elect_log he').1.trans hlog₁, (elect_candidate he').2.1.trans hms₁,
    (congrArg Voting.vote hv).trans hvote', (congrArg Voting.candidateVote hv).trans (congrArg some hvote')⟩
  have hchk : (Engine.new st cfg).checkInitialize = .ok () := by
    simp [checkInitialize, RaftState.isInitialized, RaftState.lastLogId, LogIdList.last, Engine.new, hlog, hvote]
    rfl
  have hcm : (Engine.new st cfg).checkMembersContainMe m = .ok () := by
    simp [checkMembersContainMe, Engine.new, hvoter]
  have hfh : (Engine.new st cfg).followingHandler = .ok () := rfl
  simp [initializeNode, hchk, hcm, hfh, Entry.getMembership, happ]
  simp only [bind, Except.bind, he']
  rfl

/-- Node 1 forms a cluster of itself, and campaigns in term 1. -/
theorem solo_node_initializes :
    soloConfigEntry.getMembership = some soloConfig ∧ soloConfig.isVoter 1 ∧
      ∃ e', (Engine.new RaftState.default ⟨1, 0, 0⟩).initializeNode 0 soloConfigEntry = .ok (e', .ok ()) ∧
        e'.state.logIds = ⟨[LogId.default]⟩ ∧
        e'.state.membershipState = ⟨RaftState.default.membershipState.effective, ⟨LogId.default, soloConfig⟩⟩ ∧
        e'.state.vote = Vote.new 1 1 ∧ e'.candidate.map (·.vote) = some (Vote.new 1 1) :=
  ⟨rfl, rfl, @initialize_new_node RaftState.default ⟨1, 0, 0⟩ rfl rfl rfl soloConfigEntry soloConfig rfl rfl 0⟩

-- ========================================================== stepping down

/-- `update_server_state_if_changed` leaves the server state
`calc_server_state` computes. -/
theorem updateServerStateIfChanged_serverState (e : Engine) :
    e.updateServerStateIfChanged.state.serverState = e.state.calcServerState e.config.id := by
  unfold updateServerStateIfChanged
  dsimp only
  split_ifs with h
  · exact h.symm
  · rfl

/-- `update_internal_server_state` keeps a leader of this node's vote while
the node is a voter of the effective config, and drops it otherwise. -/
theorem updateInternalServerState_leader (hown : e.state.vote.leaderId.nodeId = e.config.id)
    (hl : e.leader.isSome) :
    e.updateInternalServerState.leader =
      if e.state.membershipState.isVoter e.config.id then e.leader else none := by
  unfold updateInternalServerState
  by_cases hv : e.state.membershipState.isVoter e.config.id <;>
    simp [RaftState.isLeader, RaftState.isLeading, hown, hv, hl]

/-- `update_internal_server_state` leaves the server state of the state it
found. -/
theorem updateInternalServerState_serverState (e : Engine) :
    e.updateInternalServerState.state.serverState = e.state.calcServerState e.config.id := by
  unfold updateInternalServerState
  split_ifs <;> exact updateServerStateIfChanged_serverState _

/-- A leader steps down exactly when a config without it is committed: on
every run from `Engine::new`, `leader_step_down` drops a node's leader if
and only if the effective config is committed and does not list the node
as a voter, and a node that stepped down is a learner. -/
theorem leader_steps_down_on_committed_config {st : RaftState} {cfg : EngineConfig}
    (hr : Reachable (Engine.new st cfg) e) (hl : e.leader.isSome) :
    (e.leaderStepDown.leader = none ↔
      e.state.membershipState.effective.logId ≤ e.state.committed ∧
        e.state.membershipState.isVoter e.config.id = false) ∧
    (e.leaderStepDown.leader = none → e.leaderStepDown.state.serverState = .learner) := by
  have hown := (voteInv_reachable hr).leader hl
  have hsome : e.leader ≠ none := Option.isSome_iff_ne_none.mp hl
  unfold leaderStepDown
  split_ifs with hc
  · rw [updateInternalServerState_leader hown hl, updateInternalServerState_serverState]
    by_cases hv : e.state.membershipState.isVoter e.config.id
    · simp [hv, hsome]
    · simp [hv, hc, RaftState.calcServerState, RaftState.isLeading]
  · simp [hc, hsome]

/-- A state whose committed config, not in the log, has voters 2 and 3. -/
def outsiderState : RaftState :=
  { RaftState.default with membershipState :=
      ⟨⟨⊥, ⟨[[2, 3]], [(2, 0), (3, 0)]⟩⟩, ⟨⊥, ⟨[[2, 3]], [(2, 0), (3, 0)]⟩⟩⟩ }

/-- Node 1, no voter of that config, campaigns and is granted by nodes 2
and 3; it then steps down to a learner. -/
theorem outsider_leader_steps_down :
    ∃ e, Reachable (Engine.new outsiderState ⟨1, 0, 0⟩) e ∧ e.leader.isSome ∧
      e.leaderStepDown.leader = none ∧ e.leaderStepDown.state.serverState = .learner := by
  obtain ⟨e₁, h₁⟩ : ∃ e₁, (Engine.new outsiderState ⟨1, 0, 0⟩).step 0 .elect = .ok e₁ := ⟨_, rfl⟩
  have he₁ := Except.ok.inj (h₁.symm.trans rfl)
  obtain ⟨e₂, h₂⟩ : ∃ e₂, e₁.step 0 (.handleVoteResp 2 ⟨Vote.new 1 1, ⊥⟩) = .ok e₂ := by
    rw [he₁]
    exact ⟨_, rfl⟩
  have he₂ := h₂
  rw [he₁] at he₂
  replace he₂ := Except.ok.inj (he₂.symm.trans rfl)
  obtain ⟨e, h₃⟩ : ∃ e, e₂.step 0 (.handleVoteResp 3 ⟨Vote.new 1 1, ⊥⟩) = .ok e := by
    rw [he₂]
    exact ⟨_, rfl⟩
  have he := h₃
  rw [he₂] at he
  replace he := Except.ok.inj (he.symm.trans rfl)
  have hr : Reachable (Engine.new outsiderState ⟨1, 0, 0⟩) e := .step (.step (.step .init h₁) h₂) h₃
  have hl : e.leader.isSome := by
    rw [he]
    rfl
  have hc : e.state.membershipState.effective.logId ≤ e.state.committed ∧
      e.state.membershipState.isVoter e.config.id = false := by
    rw [he]
    decide
  have hd := leader_steps_down_on_committed_config hr hl
  exact ⟨e, hr, hl, hd.1.mpr hc, hd.2 (hd.1.mpr hc)⟩

-- ============================================================== restarting

/-- A restarted node resumes its role: `startup` on the engine `Engine::new`
makes of any stored state returns — its `replication_handler` always finds
the leader it needs — and restores a leader, on the stored vote, exactly
when the state says this node is the leader; the server state becomes
`Leader`, or else `Follower` for a voter and `Learner` for a non-voter. -/
theorem startup_resumes_role (st : RaftState) (cfg : EngineConfig) :
    ∃ e', (Engine.new st cfg).startup = .ok e' ∧
      e'.leader.map (·.vote) = (if st.isLeader cfg.id then some st.vote else none) ∧
      e'.state.serverState =
        if st.isLeader cfg.id then .leader
        else if st.membershipState.effective.membership.isVoter cfg.id then .follower else .learner := by
  have h' : (Engine.new st cfg).state.isLeader (Engine.new st cfg).config.id = st.isLeader cfg.id := rfl
  unfold startup
  by_cases h : st.isLeader cfg.id
  · -- `update_internal_server_state` makes the leader `replication_handler` asserts
    have hu : (Engine.new st cfg).updateInternalServerState.leader = some st.newLeader := by
      simp [updateInternalServerState, Engine.new, h]
    have hrh : (Engine.new st cfg).updateInternalServerState.replicationHandler = .ok () := by
      simp [replicationHandler, hu]
      rfl
    rw [if_pos (h'.trans h)]
    simp only [hrh]
    refine ⟨_, rfl, ?_, ?_⟩
    · simp [initiateReplication_eq, updateLocalProgress, mapLeader, hu, h, RaftState.newLeader, Leader.new]
    · rw [initiateReplication_eq]
      have hl := h
      simp only [RaftState.isLeader, Bool.and_eq_true] at hl
      simp [updateLocalProgress, mapLeader, updateInternalServerState_serverState, RaftState.calcServerState,
        Engine.new, h, hl.1, hl.2]
  · rw [if_neg (h' ▸ h)]
    refine ⟨_, rfl, by simp [Engine.new, h], ?_⟩
    simp [h]
    rfl

/-- Node 1's stored state after it led alone with the committed vote `(1, 1)`. -/
def soloLeaderState : RaftState :=
  { RaftState.default with vote := Vote.newCommitted 1 1,
                           membershipState := ⟨⟨⊥, soloConfig⟩, ⟨⊥, soloConfig⟩⟩ }

/-- Restarted from that state, node 1 is the leader again on its vote. -/
theorem solo_leader_restarts :
    ∃ e', (Engine.new soloLeaderState ⟨1, 0, 0⟩).startup = .ok e' ∧
      e'.leader.map (·.vote) = some (Vote.newCommitted 1 1) ∧ e'.state.serverState = .leader := by
  obtain ⟨e', h, hl, hs⟩ := startup_resumes_role soloLeaderState ⟨1, 0, 0⟩
  exact ⟨e', h, hl, hs⟩

end Engine

end Openraft
