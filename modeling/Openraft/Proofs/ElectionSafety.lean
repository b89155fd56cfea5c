import Openraft.Cluster
import Openraft.Proofs.VoteRequest

/-!
Election safety of a cluster: what a quorum of grants guarantees, and
what the vote order lets through.

# Quorum-backed leaderships

A node establishes leadership only through a reply that completes a quorum
of grants, and a grant is a reply carrying the candidate's vote. So every
leadership established in a run is backed by a quorum of replies carrying
its vote, and, the voter sets being shared, any two such quorums meet:
every two leaderships have a voter that replied with both votes
(`established_leaders_share_a_voter`).

# Two leaders in one term

That is all the handlers guarantee. `update_vote` grants any vote greater
than the node's, and with the vote order `(term, committed, voted_for)`
the vote `(1, 2)` is greater than `(1, 1)`: a voter that granted node 1
in term 1 grants node 2 in term 1 as well, and both become leaders of
term 1 (`two_leaders_in_one_term`).

# The invariant

`Cluster.Inv` says: every node shares the voter sets; a candidate counts
in those voter sets and was granted only by nodes whose replies carry its
vote; every leadership established has such a quorum. The three events
keep it; the engine-level facts they need — what `elect`,
`handle_vote_req` and `handle_vote_resp` do to a candidate and to the
membership configs — come first.
-/

namespace Openraft

namespace Engine

variable {e e' : Engine} {now : Instant}

-- ===================================== candidates and configs, per handler

/-- `update_vote` keeps a candidate only for the vote it takes. -/
theorem updateVote_candidate (now : Instant) (v : Vote) :
    (e.updateVote now v).1.candidate =
      if e.state.vote < v then e.candidate.filter fun c => decide (c.vote = v) else e.candidate := by
  unfold updateVote
  split_ifs <;> first | exact (lt_asymm ‹v < e.state.vote› ‹e.state.vote < v›).elim | rfl | simp

/-- `update_vote` leaves the membership configs alone. -/
@[simp] theorem updateVote_membershipState (now : Instant) (v : Vote) :
    (e.updateVote now v).1.state.membershipState = e.state.membershipState := by
  unfold updateVote
  split_ifs <;> simp

/-- `update_vote` leaves the config alone. -/
@[simp] theorem updateVote_config (now : Instant) (v : Vote) :
    (e.updateVote now v).1.config = e.config := by
  unfold updateVote
  split_ifs <;> simp

/-- A candidate after `update_vote` was there before. -/
theorem candidate_of_updateVote {v : Vote} {c : Candidate}
    (h : (e.updateVote now v).1.candidate = some c) : e.candidate = some c := by
  rw [updateVote_candidate] at h
  split_ifs at h
  · exact Option.mem_def.mp (Option.filter_eq_some.mp h).1
  · exact h

/-- `elect` campaigns with a fresh candidate of the node's voter sets, and
leaves the membership configs and the config alone. -/
theorem elect_candidate (h : e.elect now = .ok e') :
    e'.candidate = some (e.newCandidate now e.electVote).2 ∧
      e'.state.membershipState = e.state.membershipState ∧ e'.config = e.config := by
  unfold elect at h
  dsimp only at h
  split_ifs at h with h₁ h₂
  split at h
  · cases h
  · rename_i e₂ heq
    cases h
    have hseen : e.lastSeenVote < Vote.new (e.lastSeenVote.leaderId.term + 1) e.config.id :=
      lastSeenVote_lt_electVote e
    rw [show e₂ = _ from (congrArg Prod.fst heq).symm]
    simp [updateVote_candidate, newCandidate, Candidate.new, electVote, h₁.trans_lt hseen]

/-- A candidate after `handle_vote_req` was there before; the membership
configs and the config stay. -/
theorem handleVoteReq_frame (now : Instant) (req : VoteRequest) :
    (∀ c, (e.handleVoteReq now req).1.candidate = some c → e.candidate = some c) ∧
      (e.handleVoteReq now req).1.state.membershipState = e.state.membershipState ∧
      (e.handleVoteReq now req).1.config = e.config := by
  rw [handleVoteReq_fst]
  split_ifs
  · exact ⟨fun _ => id, rfl, rfl⟩
  · exact ⟨fun _ => candidate_of_updateVote, updateVote_membershipState now req.vote,
      updateVote_config now req.vote⟩

/-- Appending a blank entry leaves the candidate, the membership configs
and the config alone. -/
theorem leaderAppendEntries_blank_frame {l : Leader} {logId : LogId}
    (h : e.leaderAppendEntries l [Entry.newBlank logId] = .ok e') :
    e'.candidate = e.candidate ∧ e'.state.membershipState = e.state.membershipState ∧
      e'.config = e.config := by
  simp only [leaderAppendEntries, appendEntriesLocal, appendEntryLocal, Entry.getMembership,
    Entry.newBlank, List.enum_cons, List.enumFrom_nil, List.map_cons, List.map_nil,
    List.getLast?_singleton, bind, Except.bind, pure, Except.pure, Except.ok.injEq] at h
  subst h
  simp [initiateReplication_eq, updateLocalProgress, mapLeader]

/-- `establish_leader` consumes the candidate and leaves the membership
configs and the config alone. -/
theorem establishLeader_frame (h : e.establishLeader now = .ok e') :
    e'.candidate = none ∧ e'.state.membershipState = e.state.membershipState ∧
      e'.config = e.config := by
  unfold establishLeader at h
  split at h
  case h_2 => cases h
  dsimp only at h
  split at h
  · cases h
    exact ⟨rfl, rfl, rfl⟩
  rename_i c _ _ e₂ hE
  obtain rfl : e₂ = { e with candidate := none, leader := some c.intoLeader } := by
    rcases establish_eq { e with candidate := none } c with h | h <;> rw [h] at hE
    · cases hE
    · exact (Option.some.inj hE).symm
  obtain ⟨-, -, h⟩ := bind_eq_ok.mp h
  split at h
  · obtain ⟨_, h, -⟩ := bind_eq_ok.mp h
    cases h
  obtain ⟨-, -, h⟩ := bind_eq_ok.mp h
  split at h
  · cases h
  obtain ⟨hc, hm, hcfg⟩ := leaderAppendEntries_blank_frame h
  refine ⟨hc.trans ?_, hm.trans (by simp [rebuildReplicationStreams]),
    hcfg.trans (by simp [rebuildReplicationStreams])⟩
  rw [updateVote_candidate]
  split_ifs <;> simp [rebuildReplicationStreams]

/-- A candidate after `handle_vote_resp` is the one before, or the one
before with the replier's grant added when the reply carries its vote; the
membership configs and the config stay. -/
theorem handleVoteResp_frame {target : NodeId} {resp : VoteResponse}
    (h : e.handleVoteResp now target resp = .ok e') :
    (∀ c', e'.candidate = some c' → ∃ c, e.candidate = some c ∧
        (c' = c ∨ (resp.vote = c.vote ∧ c' = (c.grantBy target).1))) ∧
      e'.state.membershipState = e.state.membershipState ∧ e'.config = e.config := by
  unfold handleVoteResp at h
  dsimp only at h
  split at h
  · cases h
    exact ⟨fun c' hc' => by simp_all [updateLastSeen], rfl, rfl⟩
  · rename_i c hc
    split_ifs at h with hv hq
    · obtain ⟨hnone, hm, hcfg⟩ := establishLeader_frame h
      exact ⟨fun c' hc' => by simp [hnone] at hc', hm, hcfg⟩
    · cases h
      exact ⟨fun c' hc' => ⟨c, hc, .inr ⟨hv, (Option.some.inj hc').symm⟩⟩, rfl, rfl⟩
    all_goals
      cases h
      exact ⟨fun c' hc' => ⟨c, hc, .inl (Option.some.inj (hc'.symm.trans hc))⟩, rfl, rfl⟩

/-- A reply establishes the candidate's vote with a quorum that adds the
replier to its grants. -/
theorem establishedBy_eq_some {target : NodeId} {resp : VoteResponse} {v : Vote}
    (h : e.establishedBy target resp = some v) :
    ∃ c, e.candidate = some c ∧ v = c.vote ∧ resp.vote = c.vote ∧
      isQuorum c.quorumSet (target :: c.granted) = true := by
  unfold establishedBy at h
  split at h
  · rename_i c hc
    split_ifs at h with hq
    exact ⟨c, hc, (Option.some.inj h).symm, hq.1, hq.2⟩
  · cases h

end Engine

-- ========================================================== quorums meet

/-- Two sublists of disjoint members are no longer than the list. -/
theorem length_filter_add_le {α : Type} (p q : α → Bool) :
    ∀ l : List α, (∀ x ∈ l, ¬ (p x = true ∧ q x = true)) →
      (l.filter p).length + (l.filter q).length ≤ l.length
  | [], _ => le_rfl
  | x :: l, h => by
    have ih := length_filter_add_le p q l fun y hy => h y (List.mem_cons_of_mem x hy)
    have hx := h x (List.mem_cons_self x l)
    simp only [List.filter_cons, List.length_cons]
    split_ifs <;> simp_all <;> omega

/-- Two quorums of the same non-empty voter sets share a voter. -/
theorem isQuorum_inter {Q : List (List NodeId)} (hQ : Q ≠ []) {G₁ G₂ : List NodeId}
    (h₁ : isQuorum Q G₁ = true) (h₂ : isQuorum Q G₂ = true) :
    ∃ g, (∃ voters ∈ Q, g ∈ voters) ∧ g ∈ G₁ ∧ g ∈ G₂ := by
  obtain ⟨voters, hv⟩ := List.exists_mem_of_ne_nil Q hQ
  have m₁ := of_decide_eq_true (List.all_eq_true.mp h₁ voters hv)
  have m₂ := of_decide_eq_true (List.all_eq_true.mp h₂ voters hv)
  by_contra hno
  have := length_filter_add_le (fun g => decide (g ∈ G₁)) (fun g => decide (g ∈ G₂)) voters
    fun g hg hg₁₂ => hno ⟨g, ⟨voters, hv, hg⟩, by simpa using hg₁₂.1, by simpa using hg₁₂.2⟩
  omega

-- ====================================================== the invariant

namespace Cluster

/-- A reply from `g` carrying the vote `v` has been sent: `g` granted `v`. -/
def Granted (s : Cluster) (g : NodeId) (v : Vote) : Prop :=
  ∃ dst l, (g, dst, ⟨v, l⟩) ∈ s.replies

/-- What the invariant asks of one node, given the grants sent so far: it
shares the voter sets `Q`, and its candidate counts in them and was
granted only by nodes whose replies carry its vote. -/
structure NodeInv (Q : List (List NodeId)) (granted : NodeId → Vote → Prop) (e : Engine) :
    Prop where
  config : e.state.membershipState.effective.membership.toQuorumSet = Q
  candidate : ∀ c, e.candidate = some c → c.quorumSet = Q ∧ ∀ g ∈ c.granted, granted g c.vote

/-- The election invariant of a cluster sharing the voter sets `Q`. -/
structure Inv (Q : List (List NodeId)) (s : Cluster) : Prop where
  nodes : ∀ i, NodeInv Q s.Granted (s.nodes i)
  established : ∀ i v, (i, v) ∈ s.established → ∃ G, isQuorum Q G = true ∧ ∀ g ∈ G, s.Granted g v

variable {Q : List (List NodeId)} {s : Cluster}

/-- More grants keep a node's part of the invariant. -/
theorem NodeInv.mono {granted granted' : NodeId → Vote → Prop} {e : Engine}
    (h : NodeInv Q granted e) (hg : ∀ g v, granted g v → granted' g v) : NodeInv Q granted' e :=
  ⟨h.config, fun c hc => ⟨(h.candidate c hc).1, fun g hg' => hg g _ ((h.candidate c hc).2 g hg')⟩⟩

/-- Setting one node to an engine that keeps its part keeps every node's. -/
theorem nodeInv_setNode {granted : NodeId → Vote → Prop} {i : NodeId} {e : Engine}
    (hs : ∀ j, NodeInv Q granted (s.nodes j)) (he : NodeInv Q granted e) (j : NodeId) :
    NodeInv Q granted ((s.setNode i e).nodes j) := by
  by_cases hj : j = i
  · subst hj
    simpa using he
  · rw [setNode_nodes_of_ne _ _ hj]
    exact hs j

/-- A reply added to the wire keeps every grant sent before. -/
theorem granted_append {g : NodeId} {v : Vote} (r : List (NodeId × NodeId × VoteResponse))
    (h : s.Granted g v) : Granted { s with replies := s.replies ++ r } g v :=
  let ⟨d, l, hm⟩ := h
  ⟨d, l, List.mem_append_left _ hm⟩

/-- `elect` keeps the invariant: its candidate is fresh and counts in the
node's voter sets. -/
theorem inv_elect (h : s.Inv Q) {i : NodeId} {now : Instant} {e : Engine}
    (he : (s.nodes i).elect now = .ok e) : (s.setNode i e).Inv Q := by
  obtain ⟨hc, hm, -⟩ := Engine.elect_candidate he
  refine ⟨nodeInv_setNode h.nodes ⟨hm ▸ (h.nodes i).config, fun c hc' => ?_⟩, h.established⟩
  obtain rfl := Option.some.inj (hc.symm.trans hc')
  exact ⟨(h.nodes i).config, nofun⟩

/-- Delivering a vote request keeps the invariant: the receiver's candidate
only drops, and the reply only adds a grant. -/
theorem inv_deliverVoteReq (h : s.Inv Q) (src dst : NodeId) (req : VoteRequest) (now : Instant) :
    Inv Q { s.setNode dst ((s.nodes dst).handleVoteReq now req).1 with
      replies := s.replies ++ [(dst, src, ((s.nodes dst).handleVoteReq now req).2)] } := by
  obtain ⟨hc, hm, -⟩ := (s.nodes dst).handleVoteReq_frame now req
  have hmono := fun g v => @granted_append s g v [(dst, src, ((s.nodes dst).handleVoteReq now req).2)]
  refine ⟨fun j => ?_, fun i v hv => ?_⟩
  · refine NodeInv.mono (nodeInv_setNode h.nodes ?_ j) hmono
    exact ⟨hm ▸ (h.nodes dst).config, fun c hc' => (h.nodes dst).candidate c (hc c hc')⟩
  · obtain ⟨G, hq, hG⟩ := h.established i v hv
    exact ⟨G, hq, fun g hg => hmono g v (hG g hg)⟩

/-- Delivering a reply keeps the invariant: a reply carrying the
candidate's vote adds a grant the wire holds, and the leadership it
establishes has the quorum of grants the candidate counted. -/
theorem inv_deliverVoteResp (h : s.Inv Q) {src dst : NodeId} {resp : VoteResponse} {now : Instant}
    {e : Engine} (hm : (src, dst, resp) ∈ s.replies) (he : (s.nodes dst).handleVoteResp now src resp = .ok e) :
    Inv Q { s.setNode dst e with
      established := s.established ++ ((s.nodes dst).establishedBy src resp).toList.map (dst, ·) } := by
  obtain ⟨hc, hms, -⟩ := Engine.handleVoteResp_frame he
  -- a reply carrying the candidate's vote adds a grant the wire holds
  have hadd : ∀ c, (s.nodes dst).candidate = some c → resp.vote = c.vote →
      ∀ g ∈ src :: c.granted, s.Granted g c.vote := fun c hc hv g hg =>
    (List.mem_cons.mp hg).elim (fun hg => hg ▸ hv ▸ ⟨dst, resp.lastLogId, hm⟩)
      (((h.nodes dst).candidate c hc).2 g)
  refine ⟨nodeInv_setNode h.nodes ⟨hms ▸ (h.nodes dst).config, fun c' hc' => ?_⟩, fun i v hv => ?_⟩
  · obtain ⟨c, hc, rfl | ⟨hv, rfl⟩⟩ := hc c' hc'
    · exact (h.nodes dst).candidate _ hc
    · exact ⟨((h.nodes dst).candidate c hc).1, hadd c hc hv⟩
  · rcases List.mem_append.mp hv with hv | hv
    · exact h.established i v hv
    · obtain ⟨v', hv', ⟨⟩⟩ := List.mem_map.mp hv
      obtain ⟨c, hc, rfl, hrv, hq⟩ := Engine.establishedBy_eq_some (Option.mem_toList.mp hv')
      exact ⟨src :: c.granted, ((h.nodes dst).candidate c hc).1 ▸ hq, hadd c hc hrv⟩

/-- Every event keeps the invariant. -/
theorem inv_step (h : s.Inv Q) {ev : ClusterEvent} {s' : Cluster} (hs : s.step ev = some s') :
    s'.Inv Q := by
  cases ev with
  | elect i now =>
    simp only [step] at hs
    split at hs <;> cases hs
    exact inv_elect h ‹_›
  | deliverVoteReq src dst req now =>
    simp only [step] at hs
    split_ifs at hs
    cases hs
    exact inv_deliverVoteReq h src dst req now
  | deliverVoteResp src dst resp now =>
    simp only [step] at hs
    split_ifs at hs with hm
    split at hs <;> cases hs
    exact inv_deliverVoteResp h hm ‹_›

/-- Nodes that start sharing the voter sets `Q`, with no candidate, keep
the invariant along every run. -/
theorem inv_of_reachable {st : NodeId → RaftState} {cfg : NodeId → EngineConfig}
    (hcfg : ∀ i, (st i).membershipState.effective.membership.toQuorumSet = Q)
    (hr : ClusterReachable (Cluster.init st cfg) s) : s.Inv Q := by
  induction hr with
  | init => exact ⟨fun i => ⟨hcfg i, nofun⟩, nofun⟩
  | step _ hs ih => exact inv_step ih hs

end Cluster

-- ================================================== election safety

/-- Election safety as far as quorums reach: in a cluster whose nodes
share non-empty voter sets, any two leaderships established in a run —
by any nodes, in any terms — have a voter that granted both votes. -/
theorem established_leaders_share_a_voter {Q : List (List NodeId)} (hQ : Q ≠ [])
    {st : NodeId → RaftState} {cfg : NodeId → EngineConfig}
    (hcfg : ∀ i, (st i).membershipState.effective.membership.toQuorumSet = Q)
    {s : Cluster} (hr : ClusterReachable (Cluster.init st cfg) s) :
    ∀ a va b vb, (a, va) ∈ s.established → (b, vb) ∈ s.established →
      ∃ g, (∃ voters ∈ Q, g ∈ voters) ∧ s.Granted g va ∧ s.Granted g vb := by
  intro a va b vb ha hb
  have hi := Cluster.inv_of_reachable hcfg hr
  obtain ⟨G₁, hq₁, hG₁⟩ := hi.established a va ha
  obtain ⟨G₂, hq₂, hG₂⟩ := hi.established b vb hb
  obtain ⟨g, hv, hg₁, hg₂⟩ := isQuorum_inter hQ hq₁ hq₂
  exact ⟨g, hv, hG₁ g hg₁, hG₂ g hg₂⟩

/-- Three nodes sharing the voter set `{1, 2, 3}`, nothing logged. -/
def threeVoters : NodeId → RaftState := fun _ =>
  { RaftState.default with membershipState :=
      ⟨⟨⊥, ⟨[[1, 2, 3]], [(1, 0), (2, 0), (3, 0)]⟩⟩, ⟨⊥, ⟨[[1, 2, 3]], [(1, 0), (2, 0), (3, 0)]⟩⟩⟩ }

/-- Nodes 1 and 2 both campaign in term 1; node 3 grants `(1, 1)` and
then the greater `(1, 2)`, and each candidate counts its own grant. -/
def twoLeadersRun : List ClusterEvent :=
  [.elect 1 0, .elect 2 0,
   .deliverVoteReq 1 1 ⟨Vote.new 1 1, ⊥⟩ 0, .deliverVoteResp 1 1 ⟨Vote.new 1 1, ⊥⟩ 0,
   .deliverVoteReq 1 3 ⟨Vote.new 1 1, ⊥⟩ 0, .deliverVoteResp 3 1 ⟨Vote.new 1 1, ⊥⟩ 0,
   .deliverVoteReq 2 2 ⟨Vote.new 1 2, ⊥⟩ 0, .deliverVoteResp 2 2 ⟨Vote.new 1 2, ⊥⟩ 0,
   .deliverVoteReq 2 3 ⟨Vote.new 1 2, ⊥⟩ 0, .deliverVoteResp 3 2 ⟨Vote.new 1 2, ⊥⟩ 0]

/-- In the two-leader run, the leaderships of nodes 1 and 2 share the
voter 3. -/
theorem two_leaders_share_voter_three :
    ∃ s, (Cluster.init threeVoters fun i => ⟨i, 0, 0⟩).run twoLeadersRun = some s ∧
      ∃ g, (∃ voters ∈ [[1, 2, 3]], g ∈ voters) ∧ s.Granted g (Vote.new 1 1) ∧
        s.Granted g (Vote.new 1 2) := by
  obtain ⟨s, hs⟩ : ∃ s, (Cluster.init threeVoters fun i => ⟨i, 0, 0⟩).run twoLeadersRun = some s :=
    ⟨_, rfl⟩
  refine ⟨s, hs, @established_leaders_share_a_voter _ (List.cons_ne_nil [1, 2, 3] []) threeVoters _
    (fun _ => rfl) _ (ClusterReachable.init.of_run hs) 1 _ 2 _ ?_ ?_⟩
  all_goals
    rw [Option.some.inj (hs.symm.trans rfl)]
    decide

/-- Two leaders of term 1: with the vote order `(term, committed,
voted_for)`, a voter grants `(1, 1)` and then `(1, 2)`, and nodes 1 and 2
both establish leadership in term 1 and hold a committed vote of it. -/
theorem two_leaders_in_one_term :
    ∃ (st : NodeId → RaftState) (s : Cluster),
      (∀ i, (st i).membershipState.effective.membership.toQuorumSet = [[1, 2, 3]]) ∧
      ClusterReachable (Cluster.init st fun i => ⟨i, 0, 0⟩) s ∧
      (1, Vote.new 1 1) ∈ s.established ∧ (2, Vote.new 1 2) ∈ s.established ∧
      (s.nodes 1).state.vote = Vote.newCommitted 1 1 ∧ (s.nodes 2).state.vote = Vote.newCommitted 1 2 := by
  obtain ⟨s, hs⟩ : ∃ s, (Cluster.init threeVoters fun i => ⟨i, 0, 0⟩).run twoLeadersRun = some s :=
    ⟨_, rfl⟩
  have hs' := Option.some.inj (hs.symm.trans rfl)
  refine ⟨threeVoters, s, fun _ => rfl, ClusterReachable.init.of_run hs, ?_⟩
  subst hs'
  decide

end Openraft
