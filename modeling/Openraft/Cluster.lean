import Openraft.Engine.Run

/-!
A cluster of engines electing a leader: the runtime around
`engine_impl.rs`, as far as elections need it.

# The network

Each node runs its own engine. `elect` leaves a `SendVote` command in the
node's output; the runtime may deliver that request to any node's
`handle_vote_req`, and hands the `VoteResponse` it returns back to the
candidate's `handle_vote_resp`. Nothing is ever taken off the wire: a
delivery reads a message sent so far, so a message may be delivered late,
twice, or never. The requests on the wire are the `SendVote` commands in
the output queues, which only grow; the replies are kept in `replies`.
An event whose handler panics does not happen.

# What the run records

`established` is kept beside the run, not in any node: a delivery that
makes `handle_vote_resp` call `establish_leader` (the reply carries the
candidate's vote and completes a quorum of grants) records the node and
the vote.
-/

namespace Openraft

/-- The vote requests a node's `SendVote` commands put on the wire. -/
def Engine.sentVoteRequests (e : Engine) : List VoteRequest :=
  e.output.filterMap fun
    | .sendVote req => some req
    | _ => none

/-- The vote a reply establishes: the candidate's, when the reply carries
it and completes a quorum of grants — the case in which `handle_vote_resp`
calls `establish_leader`. -/
def Engine.establishedBy (e : Engine) (target : NodeId) (resp : VoteResponse) : Option Vote :=
  match e.candidate with
  | some c => if resp.vote = c.vote ∧ (c.grantBy target).2 = true then some c.vote else none
  | none => none

/-- The nodes, the replies sent so far (from, to, reply), and the
leaderships established so far (node, vote). -/
structure Cluster where
  nodes : NodeId → Engine
  replies : List (NodeId × NodeId × VoteResponse)
  established : List (NodeId × Vote)

/-- What the runtime may do next, at clock reading `now`. -/
inductive ClusterEvent
  | elect (node : NodeId) (now : Instant)
  | deliverVoteReq (src dst : NodeId) (req : VoteRequest) (now : Instant)
  | deliverVoteResp (src dst : NodeId) (resp : VoteResponse) (now : Instant)

namespace Cluster

/-- Every node's engine from `Engine::new`, nothing on the wire. -/
def init (st : NodeId → RaftState) (cfg : NodeId → EngineConfig) : Cluster :=
  ⟨fun i => Engine.new (st i) (cfg i), [], []⟩

/-- Node `i` moves to engine `e`. -/
def setNode (s : Cluster) (i : NodeId) (e : Engine) : Cluster :=
  { s with nodes := Function.update s.nodes i e }

/-- One event; `none` when the message is not on the wire or the handler
panics. -/
def step (s : Cluster) : ClusterEvent → Option Cluster
  | .elect i now =>
    match (s.nodes i).elect now with
    | .ok e => some (s.setNode i e)
    | .error _ => none
  | .deliverVoteReq src dst req now =>
    if req ∈ (s.nodes src).sentVoteRequests then
      let (e, resp) := (s.nodes dst).handleVoteReq now req
      some { s.setNode dst e with replies := s.replies ++ [(dst, src, resp)] }
    else none
  | .deliverVoteResp src dst resp now =>
    if (src, dst, resp) ∈ s.replies then
      match (s.nodes dst).handleVoteResp now src resp with
      | .ok e =>
        some { s.setNode dst e with
          established := s.established ++ ((s.nodes dst).establishedBy src resp).toList.map (dst, ·) }
      | .error _ => none
    else none

/-- Events one after another, while each happens. -/
def run (s : Cluster) : List ClusterEvent → Option Cluster
  | [] => some s
  | ev :: evs => (s.step ev).bind fun s => s.run evs

@[simp] theorem setNode_nodes_self (s : Cluster) (i : NodeId) (e : Engine) :
    (s.setNode i e).nodes i = e := Function.update_same _ _ _

theorem setNode_nodes_of_ne (s : Cluster) {i j : NodeId} (e : Engine) (h : j ≠ i) :
    (s.setNode i e).nodes j = s.nodes j := Function.update_noteq h _ _

/-- One event moves one node by one of its engine's events — `elect`,
`handle_vote_req` or `handle_vote_resp` — and leaves every other node. -/
theorem step_nodes {s s' : Cluster} {ev : ClusterEvent} (hs : s.step ev = some s') (j : NodeId) :
    s'.nodes j = s.nodes j ∨ ∃ now ev', (s.nodes j).step now ev' = .ok (s'.nodes j) := by
  -- the node an event moves, and the engine event that moves it
  have hset : ∀ {i : NodeId} {e : Engine}, (∃ now ev', (s.nodes i).step now ev' = .ok e) →
      s'.nodes = (s.setNode i e).nodes →
      s'.nodes j = s.nodes j ∨ ∃ now ev', (s.nodes j).step now ev' = .ok (s'.nodes j) := by
    intro i e he h'
    rw [h']
    by_cases hj : j = i
    · subst hj
      exact .inr (by simpa using he)
    · exact .inl (setNode_nodes_of_ne _ _ hj)
  cases ev with
  | elect i now =>
    simp only [step] at hs
    split at hs <;> cases hs
    exact hset ⟨now, .elect, ‹_›⟩ rfl
  | deliverVoteReq src dst req now =>
    simp only [step] at hs
    split_ifs at hs
    cases hs
    exact hset ⟨now, .handleVoteReq req, rfl⟩ rfl
  | deliverVoteResp src dst resp now =>
    simp only [step] at hs
    split_ifs at hs
    split at hs <;> cases hs
    exact hset ⟨now, .handleVoteResp src resp, ‹_›⟩ rfl

end Cluster

/-- The clusters a run from `s₀` reaches. -/
inductive ClusterReachable (s₀ : Cluster) : Cluster → Prop
  | init : ClusterReachable s₀ s₀
  | step {s s' : Cluster} {ev : ClusterEvent} :
      ClusterReachable s₀ s → s.step ev = some s' → ClusterReachable s₀ s'

/-- A cluster run moves every node along a run of its own engine from
`Engine::new`: whatever holds on every engine run holds of every node. -/
theorem ClusterReachable.nodes_reachable {st : NodeId → RaftState} {cfg : NodeId → EngineConfig}
    {s : Cluster} (hr : ClusterReachable (Cluster.init st cfg) s) (i : NodeId) :
    Reachable (Engine.new (st i) (cfg i)) (s.nodes i) := by
  induction hr with
  | init => exact .init
  | step _ hs ih =>
    rcases Cluster.step_nodes hs i with h | ⟨now, ev, h⟩
    · exact h ▸ ih
    · exact ih.step h

/-- A run that happens reaches its last cluster. -/
theorem ClusterReachable.of_run {s₀ s s' : Cluster} (h : ClusterReachable s₀ s) :
    ∀ {evs : List ClusterEvent}, s.run evs = some s' → ClusterReachable s₀ s'
  | [], hr => Option.some.inj hr ▸ h
  | ev :: evs, hr => by
    obtain ⟨s₁, h₁, hr⟩ := Option.bind_eq_some.mp hr
    exact (h.step h₁).of_run hr

end Openraft
