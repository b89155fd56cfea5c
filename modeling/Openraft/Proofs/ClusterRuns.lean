import Openraft.Proofs.ElectionSafety

/-!
What a cluster run is to each of its nodes, and election safety when
voters grant once per term.

# Every node is on an engine run

The three cluster events are engine events — `elect`, and
`handle_vote_req` or `handle_vote_resp` on the message delivered — so each
node's engine is reachable from its `Engine::new` by its own events
(`ClusterReachable.nodes_reachable`), and what holds on every engine run
holds of every node of every cluster run. In particular the election
invariant of `VoteInvariant.lean` does: a reply on the wire can always be
delivered, and a node can always campaign unless the greatest term it has
seen is `u64::MAX` (`vote_deliveries_never_panic`).

# One grant per term

Two leaderships of one run share a voter (`ElectionSafety.lean`). When no
voter replies with votes for two leader ids of one term, the shared voter
gives two votes of one term one leader id. A leader's committed vote
answering a request of its own term keeps that leader id, so the
condition holds on such runs. A candidate's vote is an uncommitted vote
for its own node, and the handlers never change a node's config, so in a
cluster whose node `i` has id `i` the two leaderships are one node's, with
one vote (`one_leader_per_term_of_single_grant`). The vote order of the spec is
what lets a voter grant twice (`two_leaders_in_one_term`).
-/

namespace Openraft

namespace Cluster

variable {st : NodeId → RaftState} {cfg : NodeId → EngineConfig} {s : Cluster}

-- ============================================= the engine invariant, per node

/-- Every node of a cluster run keeps its engine's election invariant. -/
theorem voteInv_nodes (hr : ClusterReachable (Cluster.init st cfg) s) (i : NodeId) :
    (s.nodes i).voting.Inv :=
  Engine.voteInv_reachable (hr.nodes_reachable i)

/-- On every cluster run, a reply on the wire can be delivered without a
panic, and `elect` runs exactly while the greatest term a node has seen is
below `u64::MAX`. -/
theorem vote_deliveries_never_panic (hr : ClusterReachable (Cluster.init st cfg) s) :
    (∀ src dst resp now, (src, dst, resp) ∈ s.replies →
      (s.step (.deliverVoteResp src dst resp now)).isSome) ∧
    ∀ i now, (s.step (.elect i now)).isSome ↔ (s.nodes i).lastSeenVote.leaderId.term < u64Max := by
  refine ⟨fun src dst resp now hm => ?_, fun i now => ⟨fun h => ?_, fun h => ?_⟩⟩
  · obtain ⟨e, he, -⟩ := Engine.handleVoteResp_isOk (voteInv_nodes hr dst) now src resp
    simp [step, hm, he]
  · simp only [step] at h
    split at h
    · exact (Engine.elect_eq_ok ‹_›).2.1
    · cases h
  · obtain ⟨e, he⟩ := Engine.elect_isOk now (voteInv_nodes hr i).seen h
    simp [step, he]

/-- The two leaders' run: a reply on the wire can still be delivered, and
every node can still campaign. -/
theorem vote_deliveries_never_panic_after_two_leaders :
    ∃ s, (Cluster.init threeVoters fun i => ⟨i, 0, 0⟩).run twoLeadersRun = some s ∧
      (∀ src dst resp now, (src, dst, resp) ∈ s.replies →
        (s.step (.deliverVoteResp src dst resp now)).isSome) ∧
      ∀ i now, (s.step (.elect i now)).isSome ↔ (s.nodes i).lastSeenVote.leaderId.term < u64Max := by
  obtain ⟨s, hs⟩ : ∃ s, (Cluster.init threeVoters fun i => ⟨i, 0, 0⟩).run twoLeadersRun = some s :=
    ⟨_, rfl⟩
  exact ⟨s, hs, vote_deliveries_never_panic (ClusterReachable.init.of_run hs)⟩

-- ================================================================ identities

/-- What a run keeps of the nodes' identities: the configs they started
with, candidates campaigning with uncommitted votes, and every leadership
established for an uncommitted vote of its own node. -/
structure IdInv (cfg : NodeId → EngineConfig) (s : Cluster) : Prop where
  config : ∀ i, (s.nodes i).config = cfg i
  candidate : ∀ i c, (s.nodes i).candidate = some c → c.vote.committed = false
  established : ∀ i v, (i, v) ∈ s.established → v.leaderId.nodeId = (cfg i).id ∧ v.committed = false

/-- Every event keeps the identities: no handler changes a config, a
candidate campaigns with a fresh vote for its own node, and a grant keeps
the candidate's vote. -/
theorem idInv_step (hv : ∀ i, (s.nodes i).voting.Inv) (h : IdInv cfg s) {ev : ClusterEvent}
    {s' : Cluster} (hs : s.step ev = some s') : IdInv cfg s' := by
  -- a node moved by a handler that keeps its config and its candidate's vote
  have hnode : ∀ {i : NodeId} {e : Engine}, e.config = (s.nodes i).config →
      (∀ c, e.candidate = some c → c.vote.committed = false) →
      (∀ j, ((s.setNode i e).nodes j).config = cfg j) ∧
        ∀ j c, ((s.setNode i e).nodes j).candidate = some c → c.vote.committed = false := by
    intro i e he hc
    refine ⟨fun j => ?_, fun j => ?_⟩ <;> by_cases hj : j = i
    · subst hj
      simpa using he.trans (h.config j)
    · rw [setNode_nodes_of_ne _ _ hj]
      exact h.config j
    · subst hj
      simpa using hc
    · rw [setNode_nodes_of_ne _ _ hj]
      exact h.candidate j
  cases ev with
  | elect i now =>
    simp only [step] at hs
    split at hs <;> cases hs
    obtain ⟨hc, -, hcfg⟩ := Engine.elect_candidate ‹_›
    obtain ⟨h₁, h₂⟩ := hnode hcfg fun c hc' => by
      rw [← Option.some.inj (hc.symm.trans hc')]
      rfl
    exact ⟨h₁, h₂, h.established⟩
  | deliverVoteReq src dst req now =>
    simp only [step] at hs
    split_ifs at hs
    cases hs
    obtain ⟨hc, -, hcfg⟩ := (s.nodes dst).handleVoteReq_frame now req
    obtain ⟨h₁, h₂⟩ := hnode hcfg fun c hc' => h.candidate dst c (hc c hc')
    exact ⟨h₁, h₂, h.established⟩
  | deliverVoteResp src dst resp now =>
    simp only [step] at hs
    split_ifs at hs
    split at hs <;> cases hs
    obtain ⟨hc, -, hcfg⟩ := Engine.handleVoteResp_frame ‹_›
    -- a grant keeps the candidate's vote
    obtain ⟨h₁, h₂⟩ := hnode hcfg fun c' hc' => by
      obtain ⟨c, hc, rfl | ⟨-, rfl⟩⟩ := hc c' hc'
      · exact h.candidate dst _ hc
      · exact h.candidate dst c hc
    refine ⟨h₁, h₂, fun i v hiv => ?_⟩
    rcases List.mem_append.mp hiv with hiv | hiv
    · exact h.established i v hiv
    · obtain ⟨v', hv', ⟨⟩⟩ := List.mem_map.mp hiv
      obtain ⟨c, hc, rfl, -, -⟩ := Engine.establishedBy_eq_some (Option.mem_toList.mp hv')
      exact ⟨((hv dst).candidate c.vote (by simp [Engine.voting, hc])).2.trans
        (congrArg EngineConfig.id (h.config dst)), h.candidate dst c hc⟩

/-- The identities hold along every run. -/
theorem idInv_of_reachable (hr : ClusterReachable (Cluster.init st cfg) s) : IdInv cfg s := by
  induction hr with
  | init => exact ⟨fun _ => rfl, fun _ _ => nofun, nofun⟩
  | step hr hs ih => exact idInv_step (voteInv_nodes hr) ih hs

-- ================================================== one grant per term

/-- Two uncommitted votes for one leader id are one vote. -/
theorem Vote.eq_of_leaderId_eq {v w : Vote} (hl : v.leaderId = w.leaderId)
    (hv : v.committed = false) (hw : w.committed = false) : v = w := by
  cases v
  cases w
  simp_all

/-- Election safety under one grant per term: in a cluster whose node `i`
has id `i` and whose nodes share non-empty voter sets, if no voter replies
with votes for two leader ids of one term, then two leaderships
established in one term are one node's, with one vote. A leader answering
a request of its own term with its committed vote replies for the same
leader id, so such runs are included. -/
theorem one_leader_per_term_of_single_grant {Q : List (List NodeId)} (hQ : Q ≠ [])
    (hcfg : ∀ i, (st i).membershipState.effective.membership.toQuorumSet = Q)
    (hid : ∀ i, (cfg i).id = i) (hr : ClusterReachable (Cluster.init st cfg) s)
    (honce : ∀ g v w, s.Granted g v → s.Granted g w → v.leaderId.term = w.leaderId.term →
      v.leaderId = w.leaderId) :
    ∀ a va b vb, (a, va) ∈ s.established → (b, vb) ∈ s.established →
      va.leaderId.term = vb.leaderId.term → a = b ∧ va = vb := by
  intro a va b vb ha hb ht
  have hi := inv_of_reachable hcfg hr
  obtain ⟨G₁, hq₁, hG₁⟩ := hi.established a va ha
  obtain ⟨G₂, hq₂, hG₂⟩ := hi.established b vb hb
  obtain ⟨g, -, hg₁, hg₂⟩ := isQuorum_inter hQ hq₁ hq₂
  -- the shared voter granted one leader id of the term
  have hl := honce g va vb (hG₁ g hg₁) (hG₂ g hg₂) ht
  have hids := idInv_of_reachable hr
  obtain ⟨hna, hca⟩ := hids.established a va ha
  obtain ⟨hnb, hcb⟩ := hids.established b vb hb
  refine ⟨?_, Vote.eq_of_leaderId_eq hl hca hcb⟩
  calc a = (cfg a).id := (hid a).symm
    _ = va.leaderId.nodeId := hna.symm
    _ = vb.leaderId.nodeId := congrArg LeaderId.nodeId hl
    _ = (cfg b).id := hnb
    _ = b := hid b

/-- The two leaders' run stopped before node 3 grants `(1, 2)`, then node
2's request delivered to node 1, which leads under the lease and refuses
it with its committed vote. -/
def leaderRefusesRun : List ClusterEvent :=
  twoLeadersRun.take 6 ++ [.deliverVoteReq 2 1 ⟨Vote.new 1 2, ⊥⟩ 0]

/-- In that run node 1 replies with `(1, 1)` and with the committed
`(1, 1)`, two votes of one leader id; every reply is for leader id `(1, 1)`,
and node 1 is the one leader of term 1. -/
theorem one_leader_after_a_refused_request :
    ∃ s, (Cluster.init threeVoters fun i => ⟨i, 0, 0⟩).run leaderRefusesRun = some s ∧
      (1, Vote.new 1 1) ∈ s.established ∧ s.Granted 1 (Vote.new 1 1) ∧
      s.Granted 1 (Vote.newCommitted 1 1) ∧
      ∀ a va b vb, (a, va) ∈ s.established → (b, vb) ∈ s.established →
        va.leaderId.term = vb.leaderId.term → a = b ∧ va = vb := by
  obtain ⟨s, hs⟩ :
      ∃ s, (Cluster.init threeVoters fun i => ⟨i, 0, 0⟩).run leaderRefusesRun = some s :=
    ⟨_, rfl⟩
  have hs' := Option.some.inj (hs.symm.trans rfl)
  have hrep : s.replies = [(1, 1, ⟨Vote.new 1 1, ⊥⟩), (3, 1, ⟨Vote.new 1 1, ⊥⟩),
      (1, 2, ⟨Vote.newCommitted 1 1, WithBot.some ⟨⟨1, 1⟩, 0⟩⟩)] := by
    subst hs'
    rfl
  have hone : ∀ g v, s.Granted g v → v.leaderId = ⟨1, 1⟩ := by
    rintro g v ⟨d, l, h⟩
    simp only [hrep, List.mem_cons, Prod.mk.injEq, VoteResponse.mk.injEq, List.not_mem_nil,
      or_false] at h
    rcases h with ⟨-, -, rfl, -⟩ | ⟨-, -, rfl, -⟩ | ⟨-, -, rfl, -⟩ <;> rfl
  refine ⟨s, hs, by subst hs'; decide, ⟨1, ⊥, by rw [hrep]; simp⟩,
    ⟨2, WithBot.some ⟨⟨1, 1⟩, 0⟩, by rw [hrep]; simp⟩, ?_⟩
  exact @one_leader_per_term_of_single_grant threeVoters _ s _ (List.cons_ne_nil [1, 2, 3] [])
    (fun _ => rfl) (fun _ => rfl) (ClusterReachable.init.of_run hs)
    fun g v w hv hw _ => (hone g v hv).trans (hone g w hw).symm

end Cluster

end Openraft
