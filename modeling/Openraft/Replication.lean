import Openraft.Cluster

/-!
The election cluster of `Cluster.lean` with replication: a node holding
leader state sends `AppendEntries` requests, and the runtime hands any
request on the wire to its target's `handle_append_entries`.

# Requests

A leader's replication stream reads the leader's log: a request carries
the leader's vote, a `prev_log_id` the leader's log holds, and entries
whose log ids are the leader's at the indexes after it. Their payloads are
what the leader's storage holds, which the engine does not keep: any
payloads go. As with vote messages, nothing is taken off the wire, so a
request may be delivered late, twice, or never, and after its sender has
lost leadership.

# Runs of the engines

Each event moves at most one node, by one of its engine's own events
(`ReplCluster.step_nodes`), so every node of a replicating run is on a run
of its engine from `Engine::new` (`ReplReachable.nodes_reachable`).

# What the run records

Beside each request the run keeps the log ids its sender held when it was
sent (`AppendRequest.sentFrom`). No node reads them: they are what the
log-matching argument compares a request with.
-/

namespace Openraft

/-- An `AppendEntries` request: the leader's vote, `prev_log_id` and the
entries; and, kept by the run and not sent, the sender's log ids when it
was sent. -/
structure AppendRequest where
  vote : Vote
  prevLogId : WithBot LogId
  entries : List Entry
  sentFrom : LogIdList
  deriving DecidableEq

/-- A log holds `prev_log_id` and has the entries' log ids at the indexes
after it. -/
def LogIdList.Reads (l : LogIdList) (prevLogId : WithBot LogId) (entries : List Entry) : Prop :=
  (∀ p ∈ Option.toList prevLogId, l.get p.index = some p) ∧
    ∀ k (hk : k < entries.length), l.get (nextIndex prevLogId + k) = some entries[k].logId

instance (l : LogIdList) (prevLogId : WithBot LogId) (entries : List Entry) :
    Decidable (l.Reads prevLogId entries) :=
  inferInstanceAs (Decidable (_ ∧ _))

/-- The entries of a request read from a log sit at the indexes after
`prev_log_id`. -/
theorem LogIdList.Reads.index_eq {l : LogIdList} {prev : WithBot LogId} {entries : List Entry}
    (h : l.Reads prev entries) (k : Nat) (hk : k < entries.length) :
    entries[k].logId.index = nextIndex prev + k :=
  LogIdList.get_index (h.2 k hk)

/-- The election cluster with the append requests sent so far (from, to,
request). -/
structure ReplCluster extends Cluster where
  appends : List (NodeId × NodeId × AppendRequest)

/-- What the runtime may do next: an election event, a leader's request
read from its log, or the delivery of a request on the wire at clock
reading `now`. -/
inductive ReplEvent
  | vote (ev : ClusterEvent)
  | replicate (src dst : NodeId) (prevLogId : WithBot LogId) (entries : List Entry)
  | deliverAppend (src dst : NodeId) (req : AppendRequest) (now : Instant)

namespace ReplCluster

/-- Every node's engine from `Engine::new`, nothing on the wire. -/
def init (st : NodeId → RaftState) (cfg : NodeId → EngineConfig) : ReplCluster :=
  ⟨Cluster.init st cfg, []⟩

/-- One event; `none` when the sender is not a leader or its log does not
read so, when the request is not on the wire, or when the handler panics.
A delivery's reply goes back to the leader's replication stream, which
this model does not follow. -/
def step (s : ReplCluster) : ReplEvent → Option ReplCluster
  | .vote ev => (s.toCluster.step ev).map fun c => { s with toCluster := c }
  | .replicate src dst prevLogId entries =>
    let e := s.nodes src
    if e.leader.isSome ∧ e.state.logIds.Reads prevLogId entries then
      some { s with
        appends := s.appends ++ [(src, dst, ⟨e.state.vote, prevLogId, entries, e.state.logIds⟩)] }
    else none
  | .deliverAppend src dst req now =>
    if (src, dst, req) ∈ s.appends then
      match (s.nodes dst).handleAppendEntries now req.vote req.prevLogId req.entries none with
      | .ok (e, _) => some { s with toCluster := s.toCluster.setNode dst e }
      | .error _ => none
    else none

/-- Events one after another, while each happens. -/
def run (s : ReplCluster) : List ReplEvent → Option ReplCluster
  | [] => some s
  | ev :: evs => (s.step ev).bind fun s => s.run evs

end ReplCluster

/-- The clusters a run from `s₀` reaches. -/
inductive ReplReachable (s₀ : ReplCluster) : ReplCluster → Prop
  | init : ReplReachable s₀ s₀
  | step {s s' : ReplCluster} {ev : ReplEvent} :
      ReplReachable s₀ s → s.step ev = some s' → ReplReachable s₀ s'

/-- A run that happens reaches its last cluster. -/
theorem ReplReachable.of_run {s₀ s s' : ReplCluster} (h : ReplReachable s₀ s) :
    ∀ {evs : List ReplEvent}, s.run evs = some s' → ReplReachable s₀ s'
  | [], hr => Option.some.inj hr ▸ h
  | ev :: evs, hr => by
    obtain ⟨s₁, h₁, hr⟩ := Option.bind_eq_some.mp hr
    exact (h.step h₁).of_run hr

/-- An event moves each node by a step of its own engine, or leaves it. -/
theorem ReplCluster.step_nodes {s s' : ReplCluster} {ev : ReplEvent} (hs : s.step ev = some s')
    (j : NodeId) : s'.nodes j = s.nodes j ∨ ∃ now ev', (s.nodes j).step now ev' = .ok (s'.nodes j) := by
  cases ev with
  | vote ev =>
    obtain ⟨c, hc, rfl⟩ := Option.map_eq_some'.mp hs
    exact Cluster.step_nodes hc j
  | replicate src dst prev entries =>
    simp only [ReplCluster.step] at hs
    split_ifs at hs
    cases hs
    exact .inl rfl
  | deliverAppend src dst req now =>
    simp only [ReplCluster.step] at hs
    split_ifs at hs
    split at hs
    · rename_i e isOk heq
      cases hs
      by_cases hj : j = dst
      · subst hj
        refine .inr ⟨now, .handleAppendEntries req.vote req.prevLogId req.entries none, ?_⟩
        rw [Cluster.setNode_nodes_self, Engine.step, heq]
        rfl
      · exact .inl (Cluster.setNode_nodes_of_ne _ _ hj)
    · cases hs

/-- A replicating run moves every node along a run of its own engine from
`Engine::new`: whatever holds on every engine run holds of every node. -/
theorem ReplReachable.nodes_reachable {st : NodeId → RaftState} {cfg : NodeId → EngineConfig}
    {s : ReplCluster} (hr : ReplReachable (ReplCluster.init st cfg) s) (i : NodeId) :
    Reachable (Engine.new (st i) (cfg i)) (s.nodes i) := by
  induction hr with
  | init => exact .init
  | step _ hs ih =>
    rcases ReplCluster.step_nodes hs i with h | ⟨now, ev, h⟩
    · exact h ▸ ih
    · exact ih.step h

end Openraft
