import Openraft.Proofs.LogOrder

/-!
Leaders never lose log ids: an event of a replicating run after which a
node leads leaves every log id its log held in place — Raft's leader
append-only, whatever state the node was in before the event.

# Why it holds

Three handlers of the run can move a log. `append_entries` takes the
request's vote first, and `following_handler` asserts there is no leader:
a leader still there after `update_vote` makes the call panic, so a
delivery that returns leaves no leader unless it rejected the vote and
changed nothing (`Engine.appendEntries_leader`). `establish_leader`
appends its blank entry after the last log id. `elect` and
`handle_vote_req` leave the log, and a leader's request moves no node.
-/

namespace Openraft

namespace ReplCluster

variable {s s' : ReplCluster}

/-- Leaders never lose log ids: in every run from `Engine::new` on empty
logs, of a cluster whose node `i` has id `i`, an event after which a node
leads leaves each log id its log held at its index. -/
theorem leader_keeps_log {st : NodeId → RaftState} {cfg : NodeId → EngineConfig}
    (hid : ∀ i, (cfg i).id = i) (hempty : ∀ i, (st i).logIds = ⟨[]⟩)
    (hcom : ∀ i, (st i).committed = ⊥) (hr : ReplReachable (init st cfg) s) {ev : ReplEvent}
    (hs : s.step ev = some s') {i : NodeId} (hl : (s'.nodes i).leader.isSome) {j : Nat} {x : LogId}
    (hx : (s.nodes i).state.getLogId j = some x) : (s'.nodes i).state.getLogId j = some x := by
  have hi := inv_of_reachable hid hempty hcom hr
  cases ev with
  | vote ev =>
    -- the log stays, or gains the blank entry at the next index
    obtain ⟨k, e', hn, -, -, -, -, -, hlog⟩ := vote_spec hi.voting hs
    rcases update_cases hn i with ⟨rfl, h⟩ | h <;> rw [h]
    · rcases hlog with hlog | ⟨c, -, -, hlog⟩ <;> rw [RaftState.getLogId, hlog]
      · exact hx
      · exact LogIdList.get_append_of_get (hi.shape _).sorted (fun _ h => RaftState.index_next _ h)
          (fun _ hj => RaftState.getLogId_eq_none hj) hx
    · exact hx
  | replicate src dst prev entries =>
    obtain ⟨-, -, rfl⟩ := replicate_spec hs
    exact hx
  | deliverAppend src dst req now =>
    -- a delivery that leaves a leader changed nothing
    obtain ⟨-, e', hn, -, -, -, hlead, -⟩ := deliverAppend_spec hi hs
    rcases update_cases hn i with ⟨rfl, h⟩ | h <;> rw [h] at hl ⊢
    · rw [hlead hl]
      exact hx
    · exact hx

/-- The reply completing node 2's quorum in term 2 makes it leader, and it
keeps the blank entry of term 1 it held. -/
theorem elected_node_keeps_entry :
    ∃ s s', (init threeVoters fun i => ⟨i, 0, 0⟩).run secondLeaderRun.dropLast = some s ∧
      s.step (.vote (.deliverVoteResp 3 2 ⟨Vote.new 2 2, ⊥⟩ 0)) = some s' ∧
      (s'.nodes 2).leader.isSome ∧ (s.nodes 2).state.getLogId 0 = some ⟨⟨1, 1⟩, 0⟩ ∧
      (s'.nodes 2).state.getLogId 0 = some ⟨⟨1, 1⟩, 0⟩ := by
  obtain ⟨s, hs⟩ : ∃ s, (init threeVoters fun i => ⟨i, 0, 0⟩).run secondLeaderRun.dropLast = some s :=
    ⟨_, rfl⟩
  have hs₀ := Option.some.inj (hs.symm.trans rfl)
  obtain ⟨s', hs'⟩ : ∃ s', s.step (.vote (.deliverVoteResp 3 2 ⟨Vote.new 2 2, ⊥⟩ 0)) = some s' := by
    rw [hs₀]
    exact ⟨_, rfl⟩
  have hl : (s'.nodes 2).leader.isSome := by
    rw [hs₀] at hs'
    rw [Option.some.inj (hs'.symm.trans rfl)]
    rfl
  have h₀ : (s.nodes 2).state.getLogId 0 = some ⟨⟨1, 1⟩, 0⟩ := by
    rw [hs₀]
    rfl
  exact ⟨s, s', hs, hs', hl, h₀, leader_keeps_log (fun _ => rfl) (fun _ => rfl) (fun _ => rfl)
    (ReplReachable.init.of_run hs) hs' hl h₀⟩

end ReplCluster

end Openraft
