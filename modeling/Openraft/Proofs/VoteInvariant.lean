import Openraft.Proofs.EngineFrame

/-!
The election invariant of one engine: what ties its vote, the greatest
vote it has seen, its candidate and its leader together, on every run
from `Engine::new`.

# The invariant

`Voting.Inv` asks three things of the voting part:

- the vote is at most the greatest vote seen (`elect`'s `debug_assert!`);
- a candidate campaigns with the node's vote, and that vote is for this
  node;
- a node with a leader votes for itself.

`update_vote` keeps it for any vote: a greater vote is seen as it is
taken, drops a candidate of another vote, and drops the leader when it is
another node's. `elect` restores it (its candidate's vote is the vote it
takes), and `establish_leader` keeps it (the vote it commits is the
candidate's). Every other handler leaves the voting part alone
(`EngineFrame.lean`).

# What follows

From a state with the invariant, `handle_vote_resp` returns:
`establish_leader`'s two `unwrap()`s and its `debug_assert!` on the
committed vote all hold. And once `update_vote` has taken a vote of
another node, there is no leader for `following_handler`'s assertion to
find.
-/

namespace Openraft

namespace Engine

/-- The election invariant of an engine's voting part. -/
structure Voting.Inv (w : Voting) : Prop where
  /-- The vote is at most the greatest vote seen. -/
  seen : w.vote ≤ w.lastSeenVote
  /-- A candidate campaigns with the vote, a vote for this node. -/
  candidate : ∀ c, w.candidateVote = some c → c = w.vote ∧ c.leaderId.nodeId = w.id
  /-- A node with a leader votes for itself. -/
  leader : w.hasLeader = true → w.vote.leaderId.nodeId = w.id

variable {e e' : Engine} {now : Instant}

-- ============================================================ update_vote

/-- A leader survives a new vote only when the vote is this node's. -/
theorem leaderAfterVote_isSome {id : NodeId} {v : Vote} {l : Option Leader}
    (h : (leaderAfterVote id v l).isSome) : v.leaderId.nodeId = id := by
  cases l with
  | none => cases h
  | some l =>
    unfold leaderAfterVote at h
    split_ifs at h with hv
    · exact hv
    · cases h

/-- A leader of this node keeps itself through its own vote. -/
theorem leaderAfterVote_self {id : NodeId} {l : Leader} (h : l.vote.leaderId.nodeId = id) :
    leaderAfterVote id l.vote (some l) = some l := by
  simp [leaderAfterVote, h]

/-- `update_vote` rejects exactly a smaller vote. -/
theorem updateVote_snd (now : Instant) (v : Vote) :
    (e.updateVote now v).2 = if v < e.state.vote then .error (.byVote e.state.vote) else .ok () := by
  unfold updateVote
  split_ifs <;> rfl

/-- `update_vote` leaves the greater of the two votes. -/
theorem updateVote_vote (v : Vote) : (e.updateVote now v).1.state.vote = max e.state.vote v := by
  unfold updateVote
  split_ifs with h₁ h₂
  · exact (max_eq_left h₁.le).symm
  · simp [max_eq_right h₂.le]
  · exact (max_eq_left (not_lt.mp h₂)).symm

/-- `update_vote` moves the leader only for a greater vote. -/
theorem updateVote_leader (now : Instant) (v : Vote) :
    (e.updateVote now v).1.leader =
      if e.state.vote < v then leaderAfterVote e.config.id v e.leader else e.leader := by
  unfold updateVote
  split_ifs <;> first | exact (lt_asymm ‹v < e.state.vote› ‹e.state.vote < v›).elim | rfl | simp

/-- `update_vote` on the voting part: a greater vote is taken and seen, the
candidate kept only for it, the leader as `leaderAfterVote` leaves it; any
other vote changes nothing. -/
theorem updateVote_voting (v : Vote) :
    (e.updateVote now v).1.voting =
      if e.state.vote < v then
        ⟨e.config.id, v, max e.lastSeenVote v,
          (e.candidate.filter fun c => decide (c.vote = v)).map (·.vote),
          (leaderAfterVote e.config.id v e.leader).isSome⟩
      else e.voting := by
  unfold updateVote
  split_ifs <;> first
    | exact (lt_asymm ‹v < e.state.vote› ‹e.state.vote < v›).elim
    | rfl
    | (simp only [voting_updateServerStateIfChanged, voting_pushCommand]; rfl)

-- ================================================= keeping the invariant

/-- `update_vote` keeps the invariant, whatever the vote. -/
theorem voteInv_updateVote (h : e.voting.Inv) (now : Instant) (v : Vote) : (e.updateVote now v).1.voting.Inv := by
  rw [updateVote_voting]
  split_ifs
  · refine ⟨le_max_right _ _, fun c hc => ?_, leaderAfterVote_isSome⟩
    obtain ⟨c', hc', rfl⟩ := Option.map_eq_some'.mp hc
    obtain ⟨hmem, hv⟩ := Option.filter_eq_some.mp hc'
    exact ⟨of_decide_eq_true hv, (h.candidate c'.vote (by simp [voting, Option.mem_def.mp hmem])).2⟩
  · exact h

/-- `update_last_seen` only raises the greatest vote seen. -/
theorem voteInv_updateLastSeen (h : e.voting.Inv) (v : Vote) : (e.updateLastSeen v).voting.Inv :=
  ⟨h.seen.trans (le_max_left _ _), h.candidate, h.leader⟩

/-- `update_internal_server_state` makes a leader only for a committed vote
of this node. -/
theorem voteInv_updateInternalServerState (h : e.voting.Inv) :
    e.updateInternalServerState.voting.Inv := by
  unfold updateInternalServerState
  dsimp only
  rw [voting_updateServerStateIfChanged]
  split_ifs with h₁
  · exact h
  · refine ⟨h.seen, h.candidate, fun _ => ?_⟩
    simp only [RaftState.isLeader, RaftState.isLeading, Bool.and_eq_true, decide_eq_true_eq] at h₁
    exact h₁.1.1
  · exact h
  · exact ⟨h.seen, h.candidate, nofun⟩

-- ================================================================= elect

/-- The vote `elect` campaigns with: the term after the greatest vote seen. -/
def electVote (e : Engine) : Vote := Vote.new (e.lastSeenVote.leaderId.term + 1) e.config.id

theorem lastSeenVote_lt_electVote (e : Engine) : e.lastSeenVote < e.electVote :=
  Vote.lt_of_term_lt (by simp [electVote])

/-- What a returning `elect` did: its assertion and the term bound held, and
the node votes for itself in the new term, has seen that vote and
campaigns with it. -/
theorem elect_eq_ok (h : e.elect now = .ok e') :
    e.state.vote ≤ e.lastSeenVote ∧ e.lastSeenVote.leaderId.term + 1 ≤ u64Max ∧
      e'.voting = ⟨e.config.id, e.electVote, e.electVote, some e.electVote,
        (leaderAfterVote e.config.id e.electVote e.leader).isSome⟩ := by
  unfold elect at h
  dsimp only at h
  split_ifs at h with h₁ h₂
  refine ⟨h₁, not_lt.mp h₂, ?_⟩
  split at h
  · cases h
  · rename_i e₂ heq
    cases h
    have hseen : e.lastSeenVote < Vote.new (e.lastSeenVote.leaderId.term + 1) e.config.id :=
      lastSeenVote_lt_electVote e
    rw [voting_updateServerStateIfChanged, voting_pushCommand,
      show e₂ = _ from (congrArg Prod.fst heq).symm, updateVote_voting]
    simp [newCandidate, Candidate.new, electVote, h₁.trans_lt hseen, max_eq_right hseen.le]

/-- `elect` campaigns once its assertion holds and the new term fits a
`u64`: its own `update_vote` cannot reject the new vote. -/
theorem elect_isOk (now : Instant) (h₁ : e.state.vote ≤ e.lastSeenVote)
    (h₂ : e.lastSeenVote.leaderId.term + 1 ≤ u64Max) : ∃ e', e.elect now = .ok e' := by
  have hseen : e.lastSeenVote < Vote.new (e.lastSeenVote.leaderId.term + 1) e.config.id :=
    lastSeenVote_lt_electVote e
  unfold elect
  dsimp only
  rw [if_neg (not_not.mpr h₁), if_neg (not_lt.mpr h₂)]
  split
  · rename_i heq
    have hsnd := congrArg Prod.snd heq
    simp [updateVote_snd, newCandidate, not_lt.mpr (h₁.trans hseen.le)] at hsnd
  · exact ⟨_, rfl⟩

/-- With the greatest term seen at `u64::MAX`, `elect`'s `term + 1`
overflows. -/
theorem elect_overflow (h₁ : e.state.vote ≤ e.lastSeenVote)
    (h₂ : u64Max < e.lastSeenVote.leaderId.term + 1) :
    e.elect now = .error "attempt to add with overflow" := by
  unfold elect
  dsimp only
  rw [if_neg (not_not.mpr h₁), if_pos h₂]
  rfl

/-- A returning `elect` leaves the invariant, whatever it started from. -/
theorem voteInv_elect (h : e.elect now = .ok e') : e'.voting.Inv := by
  obtain ⟨-, -, hv⟩ := elect_eq_ok h
  rw [hv]
  exact ⟨le_rfl, fun c hc => ⟨(Option.some.inj hc).symm, by simp [← Option.some.inj hc, electVote]⟩,
    leaderAfterVote_isSome⟩

-- ====================================================== establish_leader

/-- A leader of this node keeps itself through `update_vote` of its own vote. -/
theorem updateVote_leader_self {l : Leader} (hl : e.leader = some l)
    (hown : l.vote.leaderId.nodeId = e.config.id) : (e.updateVote now l.vote).1.leader = some l := by
  rw [updateVote_leader, hl, leaderAfterVote_self hown, ite_self]

/-- Appending a blank entry never panics: it carries no membership config. -/
theorem leaderAppendEntries_blank_isOk (l : Leader) (logId : LogId) :
    ∃ e', e.leaderAppendEntries l [Entry.newBlank logId] = .ok e' := ⟨_, rfl⟩

/-- `establish` refuses, or makes the candidate the leader and changes
nothing else. -/
theorem establish_eq (e : Engine) (c : Candidate) :
    e.establish c = none ∨ e.establish c = some { e with leader := some c.intoLeader } := by
  unfold establish
  split
  · split_ifs <;> simp
  · simp

/-- From a state with the invariant, `establish_leader` on the candidate
returns and keeps the invariant: the leader's vote is the candidate's
committed, not below the node's vote, so committing it cannot fail, and
the committed leader is there for `leader_handler().unwrap()`. -/
theorem establishLeader_isOk (h : e.voting.Inv) {c : Candidate} (hc : e.candidate = some c) :
    ∃ e', e.establishLeader now = .ok e' ∧ e'.voting.Inv := by
  obtain ⟨hcv, hown⟩ := h.candidate c.vote (by simp [voting, hc])
  unfold establishLeader
  simp only [hc]
  rcases establish_eq { e with candidate := none } c with hE | hE
  · rw [hE]
    exact ⟨_, rfl, h.seen, nofun, h.leader⟩
  · rw [hE]
    dsimp only
    generalize he₃ : ({ e with candidate := none, leader := some c.intoLeader } :
      Engine).rebuildReplicationStreams = e₃
    have h₃ : e₃.voting.Inv := he₃ ▸ ⟨h.seen, nofun, fun _ => hcv ▸ hown⟩
    have hv : e₃.state.vote = c.vote := by rw [← he₃]; exact hcv.symm
    have hsnd : (e₃.updateVote now c.intoLeader.vote).2 = .ok () := by
      rw [updateVote_snd, if_neg (not_lt.mpr (hv ▸ Vote.le_commit c.vote))]
    have hlead : (e₃.updateVote now c.intoLeader.vote).1.leaderHandler = .ok c.intoLeader := by
      rw [leaderHandler, updateVote_leader_self (he₃ ▸ rfl) (he₃ ▸ hown)]
      rfl
    obtain ⟨e', he'⟩ :=
      @leaderAppendEntries_blank_isOk (e₃.updateVote now c.intoLeader.vote).1 c.intoLeader LogId.default
    refine ⟨e', ?_, (voting_leaderAppendEntries he').symm ▸ voteInv_updateVote h₃ now _⟩
    simp [replicationHandler, hsnd, hlead, he']

-- ================================================================ events

/-- From a state with the invariant, `handle_vote_resp` returns and keeps
the invariant. -/
theorem handleVoteResp_isOk (h : e.voting.Inv) (now : Instant) (target : NodeId) (resp : VoteResponse) :
    ∃ e', e.handleVoteResp now target resp = .ok e' ∧ e'.voting.Inv := by
  have h₁ := voteInv_updateLastSeen h resp.vote
  unfold handleVoteResp
  dsimp only
  split
  · exact ⟨_, rfl, h₁⟩
  · rename_i c hc
    have h₂ : ({ e.updateLastSeen resp.vote with candidate := some (c.grantBy target).1 } :
        Engine).voting.Inv :=
      ⟨h₁.seen, fun v hv => h₁.candidate v (by simpa [voting, hc, Candidate.grantBy] using hv),
        h₁.leader⟩
    split_ifs
    · exact establishLeader_isOk h₂ rfl
    · exact ⟨_, rfl, h₂⟩
    · exact ⟨_, rfl, h₁⟩
    · exact ⟨_, rfl, h₁⟩

/-- `handle_vote_req` keeps the invariant: it changes the engine only
through `update_vote`. -/
theorem voteInv_handleVoteReq (h : e.voting.Inv) (req : VoteRequest) :
    (e.handleVoteReq now req).1.voting.Inv := by
  unfold handleVoteReq
  dsimp only
  split_ifs <;> first | exact h | exact voteInv_updateVote h now req.vote

/-- `append_entries` keeps the invariant: `update_vote`, then handlers that
leave the voting part alone. -/
theorem voteInv_appendEntries (h : e.voting.Inv) {vote : Vote} {prevLogId : WithBot LogId}
    {entries : List Entry} {r : Engine × Except RejectAppendEntries Unit}
    (hs : e.appendEntries now vote prevLogId entries = .ok r) : r.1.voting.Inv := by
  have hu := voteInv_updateVote h now vote
  unfold appendEntries at hs
  split at hs
  · rename_i heq
    cases hs
    simpa [heq] using hu
  · rename_i e₁ heq
    rw [heq] at hu
    obtain ⟨-, -, hs⟩ := bind_eq_ok.mp hs
    split at hs
    · cases hs
      exact hu
    · obtain ⟨e₂, h₂, hs⟩ := bind_eq_ok.mp hs
      cases hs
      exact (voting_followingAppendEntries h₂).symm ▸ hu

/-- `accept_vote` leaves the engine `update_vote` leaves. -/
theorem acceptVote_fst {α : Type} (v : Vote) (onReject : RaftState → α) :
    (e.acceptVote now v onReject).1 = (e.updateVote now v).1 := by
  unfold acceptVote
  split <;> rename_i heq <;> rw [heq]

/-- `handle_install_full_snapshot` keeps the invariant: `accept_vote`, then
handlers that leave the voting part alone. -/
theorem voteInv_handleInstallFullSnapshot (h : e.voting.Inv) {vote : Vote} {s : Snapshot}
    {tx : Tx} {r : Engine × Option SnapshotResponse}
    (hs : e.handleInstallFullSnapshot now vote s tx = .ok r) : r.1.voting.Inv := by
  have hu := voteInv_updateVote h now vote
  unfold handleInstallFullSnapshot at hs
  split at hs <;> rename_i e₁ _ heq <;>
    rw [← acceptVote_fst vote (fun st => SnapshotResponse.mk st.vote), heq] at hu
  · cases hs
    exact hu
  · obtain ⟨-, -, hs⟩ := bind_eq_ok.mp hs
    obtain ⟨⟨e₂, cond⟩, h₂, hs⟩ := bind_eq_ok.mp hs
    cases hs
    exact (voting_installFullSnapshot h₂).symm ▸ hu

/-- `startup` keeps the invariant: a leader is restored only for a
committed vote of this node. -/
theorem voteInv_startup (h : e.voting.Inv) (hs : e.startup = .ok e') : e'.voting.Inv := by
  unfold startup at hs
  split_ifs at hs
  · obtain ⟨-, -, hs⟩ := bind_eq_ok.mp hs
    cases hs
    simpa using voteInv_updateInternalServerState h
  all_goals
    cases hs
    exact h

/-- `initialize` keeps the invariant: it ends with `elect`. -/
theorem voteInv_initializeNode (h : e.voting.Inv) {entry : Entry}
    {r : Engine × Except InitializeError Unit} (hs : e.initializeNode now entry = .ok r) :
    r.1.voting.Inv := by
  unfold initializeNode at hs
  split at hs
  · cases hs
    exact h
  · dsimp only at hs
    split at hs
    · split at hs
      · cases hs
        exact h
      · obtain ⟨-, -, hs⟩ := bind_eq_ok.mp hs
        obtain ⟨e₁, -, hs⟩ := bind_eq_ok.mp hs
        obtain ⟨e₂, h₂, hs⟩ := bind_eq_ok.mp hs
        cases hs
        exact voteInv_elect h₂
    · cases hs

/-- Every event keeps the invariant. -/
theorem voteInv_step (h : e.voting.Inv) {ev : Event} (hs : e.step now ev = .ok e') :
    e'.voting.Inv := by
  cases ev with
  | startup => exact voteInv_startup h hs
  | initializeNode entry =>
    obtain ⟨r, hr, rfl⟩ := map_eq_ok.mp hs
    exact voteInv_initializeNode h hr
  | elect => exact voteInv_elect hs
  | handleVoteReq req =>
    cases hs
    exact voteInv_handleVoteReq h req
  | handleVoteResp target resp =>
    obtain ⟨e'', he'', hi⟩ := handleVoteResp_isOk h now target resp
    rw [step, he''] at hs
    cases hs
    exact hi
  | handleAppendEntries vote prevLogId entries tx =>
    obtain ⟨r, hr, rfl⟩ := map_eq_ok.mp hs
    unfold handleAppendEntries at hr
    obtain ⟨⟨e₁, res⟩, h₁, hr⟩ := bind_eq_ok.mp hr
    have hi := voteInv_appendEntries h h₁
    cases tx <;> cases hr <;> exact hi
  | handleCommitEntries leaderCommitted =>
    obtain ⟨-, -, hs⟩ := bind_eq_ok.mp hs
    exact (voting_commitEntries hs).symm ▸ h
  | handleInstallFullSnapshot vote snapshot tx =>
    obtain ⟨r, hr, rfl⟩ := map_eq_ok.mp hs
    exact voteInv_handleInstallFullSnapshot h hr
  | handleBeginReceivingSnapshot tx =>
    cases hs
    exact h
  | leaderStepDown =>
    cases hs
    unfold leaderStepDown
    split_ifs
    · exact voteInv_updateInternalServerState h
    · exact h
  | finishBuildingSnapshot meta =>
    cases hs
    exact (voting_finishBuildingSnapshot meta).symm ▸ h
  | tryPurgeLog =>
    cases hs
    exact voting_tryPurgeLog.symm ▸ h
  | triggerPurgeLog index => exact (voting_triggerPurgeLog hs).symm ▸ h
  | resetGreaterLog =>
    cases hs
    exact h

/-- The invariant holds on every run from `Engine::new`. -/
theorem voteInv_reachable {st : RaftState} {cfg : EngineConfig}
    (hr : Reachable (Engine.new st cfg) e) : e.voting.Inv := by
  induction hr with
  | init => exact ⟨le_rfl, nofun, nofun⟩
  | step _ hs ih => exact voteInv_step ih hs

-- =========================================================== on every run

section Runs

variable {st : RaftState} {cfg : EngineConfig}

/-- On every run from `Engine::new`, the greatest vote seen is at least the
vote, so `elect`'s `debug_assert!` never fires. -/
theorem lastSeenVote_ge_vote_on_runs (hr : Reachable (Engine.new st cfg) e) :
    e.state.vote ≤ e.lastSeenVote ∧
      ∀ now, e.elect now ≠ .error "expect: last_seen_vote >= state.vote, when elect()" := by
  have hseen := (voteInv_reachable hr).seen
  refine ⟨hseen, fun now => ?_⟩
  by_cases ht : u64Max < e.lastSeenVote.leaderId.term + 1
  · rw [elect_overflow hseen ht]
    exact fun h => absurd (Except.error.inj h) (by decide)
  · obtain ⟨e', he'⟩ := elect_isOk now hseen (not_lt.mp ht)
    rw [he']
    nofun

/-- Node 1 initializes the voter set `{1, 2, 3}`, which starts its election
for term 1; it counts its own grant and node 2's and becomes leader; then,
still leading, it starts an election for term 2. -/
def reelectionRun : List (Instant × Event) :=
  [(0, .initializeNode ⟨LogId.default, .membership ⟨[[1, 2, 3]], [(1, 0), (2, 0), (3, 0)]⟩⟩),
   (1, .handleVoteResp 1 ⟨Vote.new 1 1, WithBot.some LogId.default⟩),
   (1, .handleVoteResp 2 ⟨Vote.new 1 1, WithBot.some LogId.default⟩),
   (2, .elect)]

/-- At the end of the re-election run the node holds a leader and a
candidate at once. -/
theorem lastSeenVote_ge_vote_while_reelecting :
    ∃ e, (Engine.new RaftState.default ⟨1, 0, 0⟩).run reelectionRun = .ok e ∧
      e.leader.isSome ∧ e.candidate.isSome ∧ e.state.vote ≤ e.lastSeenVote ∧
      ∀ now, e.elect now ≠ .error "expect: last_seen_vote >= state.vote, when elect()" := by
  obtain ⟨e, h⟩ : ∃ e, (Engine.new RaftState.default ⟨1, 0, 0⟩).run reelectionRun = .ok e :=
    ⟨_, rfl⟩
  have he := Except.ok.inj (h.symm.trans rfl)
  exact ⟨e, h, by rw [he]; rfl, by rw [he]; rfl, lastSeenVote_ge_vote_on_runs (.of_run .init h)⟩

/-- On every run from `Engine::new`: a candidate campaigns with the node's
vote, and a node with a leader votes for itself. Hence `handle_vote_resp`
never panics, and once `update_vote` has taken a vote of another node (the
first step of `append_entries` and of `handle_install_full_snapshot`,
whose `following_handler()` then runs on the engine it leaves), no leader
is there for the handler's assertion. -/
theorem vote_handlers_never_panic_on_runs (hr : Reachable (Engine.new st cfg) e) :
    (∀ c, e.candidate = some c → c.vote = e.state.vote) ∧
      (e.leader.isSome → e.state.vote.leaderId.nodeId = e.config.id) ∧
      (∀ now target resp, ∃ e', e.handleVoteResp now target resp = .ok e') ∧
      ∀ now (v : Vote) e₁, v.leaderId.nodeId ≠ e.config.id →
        e.updateVote now v = (e₁, .ok ()) → e₁.followingHandler = .ok () := by
  have h := voteInv_reachable hr
  refine ⟨fun c hc => (h.candidate c.vote (by simp [voting, hc])).1, h.leader,
    fun now target resp => ?_, fun now v e₁ hv hu => ?_⟩
  · obtain ⟨e', he', -⟩ := handleVoteResp_isOk h now target resp
    exact ⟨e', he'⟩
  · have hl : e₁.leader = if e.state.vote < v then leaderAfterVote e.config.id v e.leader
        else e.leader := by
      rw [← updateVote_leader now, hu]
    have hsnd : (Except.ok () : Except RejectVoteRequest Unit) =
        if v < e.state.vote then .error (.byVote e.state.vote) else .ok () := by
      rw [← updateVote_snd now, hu]
    have hnone : e₁.leader = none := by
      rw [hl]
      split_ifs with hlt
      · exact Option.not_isSome_iff_eq_none.mp fun hs => hv (leaderAfterVote_isSome hs)
      · have hge : ¬ v < e.state.vote := fun hlt' => by rw [if_pos hlt'] at hsnd; cases hsnd
        have heq : v = e.state.vote := le_antisymm (not_lt.mp hlt) (not_lt.mp hge)
        exact Option.not_isSome_iff_eq_none.mp fun hs => hv (heq ▸ h.leader hs)
    simp [followingHandler, hnone]
    rfl

/-- At the end of the re-election run, with a leader and a candidate. -/
theorem vote_handlers_never_panic_while_reelecting :
    ∃ e, (Engine.new RaftState.default ⟨1, 0, 0⟩).run reelectionRun = .ok e ∧
      e.leader.isSome ∧ e.candidate.isSome ∧
      (∀ c, e.candidate = some c → c.vote = e.state.vote) ∧
      (e.leader.isSome → e.state.vote.leaderId.nodeId = e.config.id) ∧
      (∀ now target resp, ∃ e', e.handleVoteResp now target resp = .ok e') ∧
      ∀ now (v : Vote) e₁, v.leaderId.nodeId ≠ e.config.id →
        e.updateVote now v = (e₁, .ok ()) → e₁.followingHandler = .ok () := by
  obtain ⟨e, h⟩ : ∃ e, (Engine.new RaftState.default ⟨1, 0, 0⟩).run reelectionRun = .ok e :=
    ⟨_, rfl⟩
  have he := Except.ok.inj (h.symm.trans rfl)
  exact ⟨e, h, by rw [he]; rfl, by rw [he]; rfl, vote_handlers_never_panic_on_runs (.of_run .init h)⟩

/-- From every state of a run, `elect` returns exactly when the term after
the greatest term seen fits a `u64`; and when it returns, the vote it takes
is greater than the node's vote before. -/
theorem elect_returns_iff_term_fits (hr : Reachable (Engine.new st cfg) e) (now : Instant) :
    ((∃ e', e.elect now = .ok e') ↔ e.lastSeenVote.leaderId.term < u64Max) ∧
      ∀ e', e.elect now = .ok e' → e.state.vote < e'.state.vote := by
  have hseen := (voteInv_reachable hr).seen
  refine ⟨⟨fun ⟨e', he'⟩ => ?_, fun ht => elect_isOk now hseen (by omega)⟩, fun e' he' => ?_⟩
  · have := (elect_eq_ok he').2.1
    omega
  · have hv : e'.state.vote = e.electVote := congrArg Voting.vote (elect_eq_ok he').2.2
    exact hseen.trans_lt (hv ▸ lastSeenVote_lt_electVote e)

/-- At the end of the re-election run, leading in term 1 and campaigning
in term 2, the node can campaign again. -/
theorem elect_returns_while_reelecting :
    ∃ e, (Engine.new RaftState.default ⟨1, 0, 0⟩).run reelectionRun = .ok e ∧
      e.leader.isSome ∧ e.lastSeenVote.leaderId.term = 2 ∧
      ((∃ e', e.elect 3 = .ok e') ↔ e.lastSeenVote.leaderId.term < u64Max) ∧
      ∀ e', e.elect 3 = .ok e' → e.state.vote < e'.state.vote := by
  obtain ⟨e, h⟩ : ∃ e, (Engine.new RaftState.default ⟨1, 0, 0⟩).run reelectionRun = .ok e :=
    ⟨_, rfl⟩
  have he := Except.ok.inj (h.symm.trans rfl)
  exact ⟨e, h, by rw [he]; rfl, by rw [he]; rfl, elect_returns_iff_term_fits (.of_run .init h) 3⟩

/-- A peer's term is never range-checked: a reply carrying a vote of term
`u64::MAX` is recorded as seen, and the next `elect` overflows. -/
theorem elect_overflows_after_max_term_reply :
    Reachable (Engine.new RaftState.default ⟨1, 0, 0⟩)
        ((Engine.new RaftState.default ⟨1, 0, 0⟩).updateLastSeen (Vote.new u64Max 2)) ∧
      ((Engine.new RaftState.default ⟨1, 0, 0⟩).updateLastSeen (Vote.new u64Max 2)).elect 0 =
        .error "attempt to add with overflow" :=
  ⟨@Reachable.step _ _ _ 0 (.handleVoteResp 2 ⟨Vote.new u64Max 2, ⊥⟩) .init rfl,
    elect_overflow (by decide) (by decide)⟩

end Runs

end Engine

end Openraft
