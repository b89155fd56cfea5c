import Openraft.Proofs.LogMatching

/-!
Append deliveries never panic: on a replicating run, every request on the
wire can be handed to any node but its sender, and `handle_append_entries`
returns.

# Where the follower path can panic

Three assertions stand on the path of `append_entries`:
`following_handler` asserts the node holds no leader state, and
`MembershipState::truncate` and `MembershipState::append` assert that a
cut never reaches the committed config and that a new config comes after
the effective one.

# Why none of them fires

A request carries its sender's vote, a vote for the sender: it is read
only from a node holding leader state, whose vote is its own
(`request_vote_node`). At another node, `update_vote` either rejects that
vote and changes nothing, or takes a greater one and drops the leader
state, which is for the node's own votes; an equal vote is the node's own
only at the sender. The membership asserts need configs in the log: the
runtime here lets a leader send any payloads, so the theorem is for runs
whose requests carry no membership entry, from configs that no log entry
carries (`MembershipState.Unlogged`), which then never change.
-/

namespace Openraft

-- ================================================== configs out of the log

/-- Neither membership config comes from a log entry. -/
def MembershipState.Unlogged (s : MembershipState) : Prop :=
  s.committed.logId = ⊥ ∧ s.effective.logId = ⊥

/-- With no config in the log, a cut reaches no committed config and
reverts nothing. -/
theorem MembershipState.truncate_of_unlogged {s : MembershipState} (h : s.Unlogged) (since : Nat) :
    s.truncate since = .ok (s, none) := by
  simp [truncate, h.1, h.2]
  rfl

namespace Engine

variable {e : Engine} {now : Instant}

-- ====================================================== the follower path

/-- Cutting the log returns while no config is logged, and leaves the
configs. -/
theorem truncateLogs_isOk (h : e.state.membershipState.Unlogged) (since : Nat) :
    ∃ e', e.truncateLogs since = .ok e' ∧ e'.state.membershipState = e.state.membershipState := by
  unfold truncateLogs
  rw [MembershipState.truncate_of_unlogged h]
  exact ⟨_, rfl, rfl⟩

/-- Recording an entry that carries no config returns, and leaves the
configs. -/
theorem appendEntryLocal_isOk {entry : Entry} (hm : entry.getMembership = none) :
    ∃ e', e.appendEntryLocal entry = .ok e' ∧ e'.state.membershipState = e.state.membershipState := by
  unfold appendEntryLocal
  rw [hm]
  exact ⟨_, rfl, rfl⟩

/-- Recording entries that carry no config returns, and leaves the
configs. -/
theorem appendEntriesLocal_isOk {entries : List Entry} (hent : ∀ entry ∈ entries, entry.getMembership = none) :
    ∃ e', e.appendEntriesLocal entries = .ok e' ∧ e'.state.membershipState = e.state.membershipState := by
  induction entries generalizing e with
  | nil => exact ⟨e, rfl, rfl⟩
  | cons entry rest ih =>
    obtain ⟨e₁, h₁, hm₁⟩ := @appendEntryLocal_isOk e entry (hent entry (List.mem_cons_self _ _))
    obtain ⟨e₂, h₂, hm₂⟩ := @ih e₁ fun x hx => hent x (List.mem_cons_of_mem _ hx)
    refine ⟨e₂, ?_, hm₂.trans hm₁⟩
    show (e.appendEntryLocal entry >>= fun e => e.appendEntriesLocal rest) = _
    rw [h₁]
    exact h₂

/-- `do_append_entries` returns on entries that carry no config, and
leaves the configs. -/
theorem doAppendEntries_isOk {entries : List Entry} (hent : ∀ entry ∈ entries, entry.getMembership = none)
    (since : Nat) :
    ∃ e', e.doAppendEntries entries since = .ok e' ∧ e'.state.membershipState = e.state.membershipState := by
  unfold doAppendEntries
  dsimp only
  split
  · exact ⟨e, rfl, rfl⟩
  · obtain ⟨e₁, h₁, hm₁⟩ := @appendEntriesLocal_isOk e _ fun x hx => hent x (List.mem_of_mem_drop hx)
    rw [h₁]
    exact ⟨_, rfl, hm₁⟩

/-- The follower's `append_entries` returns while no config is logged, on
entries that carry none, and leaves the configs. -/
theorem followingAppendEntries_isOk (h : e.state.membershipState.Unlogged) {entries : List Entry}
    (hent : ∀ entry ∈ entries, entry.getMembership = none) :
    ∃ e', e.followingAppendEntries entries = .ok e' ∧ e'.state.membershipState = e.state.membershipState := by
  unfold followingAppendEntries
  dsimp only
  split
  · exact ⟨e, rfl, rfl⟩
  split_ifs
  · obtain ⟨e₁, h₁, hm₁⟩ := truncateLogs_isOk h _
    obtain ⟨e₂, h₂, hm₂⟩ := @doAppendEntries_isOk e₁ _ hent _
    rw [h₁]
    exact ⟨e₂, h₂, hm₂.trans hm₁⟩
  · exact doAppendEntries_isOk hent _

/-- `append_entries` on a vote for another node returns while no config is
logged, on entries that carry none, and leaves the configs: `update_vote`
leaves no leader state behind, since a greater vote drops the leader state
of a vote that is not the node's, and the node's own vote is not the one
delivered. -/
theorem appendEntries_isOk (hv : e.voting.Inv) {vote : Vote} (hnode : vote.leaderId.nodeId ≠ e.config.id)
    (h : e.state.membershipState.Unlogged) {prev : WithBot LogId} {entries : List Entry}
    (hent : ∀ entry ∈ entries, entry.getMembership = none) :
    ∃ r, e.appendEntries now vote prev entries = .ok r ∧
      r.1.state.membershipState = e.state.membershipState := by
  by_cases hlt : vote < e.state.vote
  · exact ⟨_, by rw [appendEntries, updateVote_of_lt hlt]; rfl, rfl⟩
  have hleader : (e.updateVote now vote).1.leader = none := by
    rw [updateVote_leader]
    split_ifs with hgt
    · exact Option.not_isSome_iff_eq_none.mp fun hs => hnode (leaderAfterVote_isSome hs)
    · have heq : vote = e.state.vote := le_antisymm (not_lt.mp hgt) (not_lt.mp hlt)
      exact Option.not_isSome_iff_eq_none.mp fun hs => hnode (heq ▸ hv.leader hs)
  obtain ⟨e₁, hu, he₁⟩ : ∃ e₁, e.updateVote now vote = (e₁, .ok ()) ∧ e₁ = (e.updateVote now vote).1 :=
    ⟨_, Prod.ext rfl (by rw [updateVote_snd, if_neg hlt]), rfl⟩
  have hfh : e₁.followingHandler = .ok () := by
    rw [followingHandler, he₁, hleader]
    rfl
  have hms : e₁.state.membershipState = e.state.membershipState :=
    he₁ ▸ updateVote_membershipState now vote
  unfold appendEntries
  rw [hu]
  simp only [hfh, bind, Except.bind]
  cases hc : e₁.ensureLogConsecutive prev with
  | error rej => exact ⟨_, rfl, hms⟩
  | ok u =>
    obtain ⟨e₂, h₂, hm₂⟩ := followingAppendEntries_isOk (hms ▸ h) hent
    exact ⟨_, by rw [h₂]; rfl, hm₂.trans hms⟩

/-- A returning `append_entries` leaves the configs while none is logged
and the entries carry none. -/
theorem appendEntries_membership {vote : Vote} {prev : WithBot LogId} {entries : List Entry}
    {r : Engine × Except RejectAppendEntries Unit} (hr : e.appendEntries now vote prev entries = .ok r)
    (h : e.state.membershipState.Unlogged) (hent : ∀ entry ∈ entries, entry.getMembership = none) :
    r.1.state.membershipState = e.state.membershipState := by
  rcases appendEntries_eq_ok hr with ⟨-, rfl⟩ | ⟨-, -, ⟨rej, -, rfl⟩ | ⟨-, e₂, h₂, rfl⟩⟩
  · rfl
  · exact updateVote_membershipState now vote
  · have hms : (e.updateVote now vote).1.state.membershipState = e.state.membershipState :=
      updateVote_membershipState now vote
    obtain ⟨e₃, h₃, hm₃⟩ := followingAppendEntries_isOk (hms ▸ h) hent
    obtain rfl : e₂ = e₃ := Except.ok.inj (h₂.symm.trans h₃)
    exact hm₃.trans hms

end Engine

-- ================================================================ the run

namespace ReplCluster

variable {s s' : ReplCluster} {st : NodeId → RaftState} {cfg : NodeId → EngineConfig}

/-- An event keeps every request on the wire. -/
theorem appends_sub {ev : ReplEvent} (hs : s.step ev = some s') : ∀ x ∈ s.appends, x ∈ s'.appends := by
  cases ev with
  | vote ev =>
    obtain ⟨c, -, rfl⟩ := Option.map_eq_some'.mp hs
    exact fun _ => id
  | replicate src dst prev entries =>
    obtain ⟨-, -, rfl⟩ := replicate_spec hs
    exact fun _ => List.mem_append_left _
  | deliverAppend src dst req now =>
    obtain ⟨-, -, -, -, ha⟩ := deliverAppend_eq hs
    exact fun _ hx => ha ▸ hx

/-- Every request on the wire carries a vote for its sender: it is read
only from a node holding leader state, whose vote is its own. -/
theorem request_vote_node (hid : ∀ i, (cfg i).id = i) (hempty : ∀ i, (st i).logIds = ⟨[]⟩)
    (hcom : ∀ i, (st i).committed = ⊥) (hr : ReplReachable (init st cfg) s) :
    ∀ a b req, (a, b, req) ∈ s.appends → req.vote.leaderId.nodeId = a := by
  induction hr with
  | init => exact fun _ _ _ => nofun
  | step hr hs ih =>
    have hi := inv_of_reachable hid hempty hcom hr
    rename_i ev
    cases ev with
    | replicate src dst prev entries =>
      obtain ⟨hl, -, rfl⟩ := replicate_spec hs
      exact forall_append_request ih (((hi.voting src).leader hl).trans (hi.id src))
    | vote ev =>
      obtain ⟨-, -, -, ha, -⟩ := vote_spec hi.voting hs
      exact ha ▸ ih
    | deliverAppend src dst req now =>
      obtain ⟨-, -, -, -, ha⟩ := deliverAppend_eq hs
      exact ha ▸ ih

/-- On a run whose requests carry no membership entry, every node keeps the
membership configs it started with. -/
theorem membership_of_reachable (hid : ∀ i, (cfg i).id = i) (hempty : ∀ i, (st i).logIds = ⟨[]⟩)
    (hcom : ∀ i, (st i).committed = ⊥) (hms : ∀ i, (st i).membershipState.Unlogged)
    (hr : ReplReachable (init st cfg) s)
    (hno : ∀ a b req, (a, b, req) ∈ s.appends → ∀ entry ∈ req.entries, entry.getMembership = none)
    (i : NodeId) : (s.nodes i).state.membershipState = (st i).membershipState := by
  revert hno i
  induction hr with
  | init => exact fun _ _ => rfl
  | step hr hs ih =>
    intro hno i
    have hi := inv_of_reachable hid hempty hcom hr
    -- the requests of the run so far are requests of the whole run
    have hs₀ := ih fun a b req h => hno a b req (appends_sub hs _ h)
    rename_i ev
    cases ev with
    | vote ev =>
      obtain ⟨k, e', hn, -, -, -, -, hm, -⟩ := vote_spec hi.voting hs
      rcases update_cases hn i with ⟨rfl, h⟩ | h <;> rw [h]
      exacts [hm.trans (hs₀ _), hs₀ i]
    | replicate src dst prev entries =>
      obtain ⟨-, -, rfl⟩ := replicate_spec hs
      exact hs₀ i
    | deliverAppend src dst req now =>
      obtain ⟨hm, r, h₁, hn, -⟩ := deliverAppend_eq hs
      rcases update_cases hn i with ⟨rfl, h⟩ | h <;> rw [h]
      · exact (Engine.appendEntries_membership h₁ ((hs₀ _).symm ▸ hms _)
          (hno _ _ _ (appends_sub hs _ hm))).trans (hs₀ _)
      · exact hs₀ i

/-- Append deliveries never panic: in every run of a cluster whose node
`i` has id `i` and starts from `Engine::new` with an empty log and no
config in the log, whose requests carry no membership entry, every node
keeps its initial configs, and every request on the wire can be delivered
to any node but its sender, with `handle_append_entries` returning. -/
theorem append_deliveries_never_panic (hid : ∀ i, (cfg i).id = i) (hempty : ∀ i, (st i).logIds = ⟨[]⟩)
    (hcom : ∀ i, (st i).committed = ⊥) (hms : ∀ i, (st i).membershipState.Unlogged)
    (hr : ReplReachable (init st cfg) s)
    (hno : ∀ a b req, (a, b, req) ∈ s.appends → ∀ entry ∈ req.entries, entry.getMembership = none) :
    (∀ i, (s.nodes i).state.membershipState = (st i).membershipState) ∧
      ∀ src dst req, (src, dst, req) ∈ s.appends → dst ≠ src →
        ∀ now, (s.step (.deliverAppend src dst req now)).isSome := by
  have hkeep := membership_of_reachable hid hempty hcom hms hr hno
  refine ⟨hkeep, fun src dst req hm hne now => ?_⟩
  have hi := inv_of_reachable hid hempty hcom hr
  have hnode : req.vote.leaderId.nodeId ≠ (s.nodes dst).config.id := by
    rw [request_vote_node hid hempty hcom hr _ _ _ hm, hi.id dst]
    exact hne.symm
  obtain ⟨r, h₁, -⟩ : ∃ r, (s.nodes dst).appendEntries now req.vote req.prevLogId req.entries = .ok r ∧ _ :=
    Engine.appendEntries_isOk (hi.voting dst) hnode (hkeep dst ▸ hms dst) (hno _ _ _ hm)
  simp [step, hm, Engine.handleAppendEntries, h₁]

/-- The request node 1 sends node 2 in the replication run. -/
def blankRequest : AppendRequest :=
  ⟨Vote.newCommitted 1 1, ⊥, [⟨⟨⟨1, 1⟩, 0⟩, .blank⟩], ⟨[⟨⟨1, 1⟩, 0⟩]⟩⟩

/-- Before its delivery, the request of the replication run is the only
one on the wire and carries no membership entry; every node still has its
initial configs, and the request can be delivered. -/
theorem blank_request_deliverable :
    ∃ s, (init threeVoters fun i => ⟨i, 0, 0⟩).run replicationRun.dropLast = some s ∧
      (∀ a b req, (a, b, req) ∈ s.appends → ∀ entry ∈ req.entries, entry.getMembership = none) ∧
      (1, 2, blankRequest) ∈ s.appends ∧
      (∀ i, (s.nodes i).state.membershipState = (threeVoters i).membershipState) ∧
      (s.step (.deliverAppend 1 2 blankRequest 0)).isSome := by
  obtain ⟨s, hs⟩ : ∃ s, (init threeVoters fun i => ⟨i, 0, 0⟩).run replicationRun.dropLast = some s :=
    ⟨_, rfl⟩
  have happ : s.appends = [(1, 2, blankRequest)] := by
    rw [Option.some.inj (hs.symm.trans rfl)]
    rfl
  have hno : ∀ a b req, (a, b, req) ∈ s.appends → ∀ entry ∈ req.entries, entry.getMembership = none := by
    rw [happ]
    intro a b req h entry he
    simp only [List.mem_singleton, Prod.mk.injEq] at h
    obtain ⟨-, -, rfl⟩ := h
    rw [List.mem_singleton.mp he]
    rfl
  have hm : (1, 2, blankRequest) ∈ s.appends := happ ▸ List.mem_singleton_self _
  have hx := append_deliveries_never_panic (fun _ => rfl) (fun _ => rfl) (fun _ => rfl)
    (fun _ => ⟨rfl, rfl⟩) (ReplReachable.init.of_run hs) hno
  exact ⟨s, hs, hno, hm, hx.1, hx.2 1 2 blankRequest hm (by decide) 0⟩

end ReplCluster

end Openraft
