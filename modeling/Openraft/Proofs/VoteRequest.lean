import Mathlib.Order.MinMax
import Openraft.Proofs.VoteInvariant

/-!
`handle_vote_req`, the acceptor side of an election, against the three
rules of spec §4.1.

# The rules

The handler refuses while the leader lease of a committed vote runs, and
refuses a candidate whose last log id is below the node's; otherwise its
only effect is `update_vote` of the request's vote. Its reply always
carries the vote and the last log id after the call.

The lease runs from the vote's last modification. The source reads an
absent `vote_last_modified` as `now - lease - 1 ms`, a time whose lease has
expired: `leaseHeld` says so by holding only for a recorded time.
-/

namespace Openraft

namespace Engine

/-- The leader lease of a committed vote still runs at `now`. -/
def leaseHeld (e : Engine) (now : Instant) : Bool :=
  e.state.vote.isCommitted &&
    match e.state.voteLastModified with
    | some t => decide (now ≤ t + e.config.leaderLease)
    | none => false

/-- The source's lease guard, with its default modification time, is
`leaseHeld`. -/
theorem lease_guard_iff (e : Engine) (now : Instant) :
    (e.state.vote.isCommitted = true ∧
        now ≤ e.state.voteLastModified.getD (now - e.config.leaderLease - 1) +
          e.config.leaderLease) ↔
      e.leaseHeld now = true := by
  unfold leaseHeld
  cases e.state.voteLastModified with
  | none =>
    simp only [Option.getD_none, Bool.and_false, Bool.false_eq_true, iff_false, not_and]
    have expired : ∀ t : Int, ¬ t ≤ t - (e.config.leaderLease : Int) - 1 + e.config.leaderLease :=
      fun t => by omega
    exact fun _ => expired now
  | some t => simp

/-- What `handle_vote_req` leaves: the engine itself under a running lease
or for a candidate with less log, the engine `update_vote` leaves
otherwise. -/
theorem handleVoteReq_fst (e : Engine) (now : Instant) (req : VoteRequest) :
    (e.handleVoteReq now req).1 =
      if e.leaseHeld now ∨ req.lastLogId < e.state.lastLogId then e
      else (e.updateVote now req.vote).1 := by
  unfold handleVoteReq
  dsimp only
  simp only [lease_guard_iff, ← not_le, ite_or]
  split_ifs <;> rfl

/-- The reply carries the vote and last log id the call leaves. -/
theorem handleVoteReq_snd (e : Engine) (now : Instant) (req : VoteRequest) :
    (e.handleVoteReq now req).2 =
      ⟨(e.handleVoteReq now req).1.state.vote, (e.handleVoteReq now req).1.state.lastLogId⟩ := by
  unfold handleVoteReq
  dsimp only
  split_ifs <;> rfl

/-- `handle_vote_req` (spec §4.1): the engine is unchanged under a running
lease or for a candidate with less log; otherwise the call is exactly
`update_vote` of the request's vote, so the vote never decreases and, if it
changes, becomes the request's; the reply carries the vote and last log id
after the call. -/
theorem handleVoteReq_spec (e : Engine) (now : Instant) (req : VoteRequest) :
    ((e.leaseHeld now ∨ req.lastLogId < e.state.lastLogId) →
        (e.handleVoteReq now req).1 = e) ∧
      (¬ e.leaseHeld now → e.state.lastLogId ≤ req.lastLogId →
        (e.handleVoteReq now req).1 = (e.updateVote now req.vote).1) ∧
      e.state.vote ≤ (e.handleVoteReq now req).1.state.vote ∧
      ((e.handleVoteReq now req).1.state.vote ≠ e.state.vote →
        (e.handleVoteReq now req).1.state.vote = req.vote) ∧
      (e.handleVoteReq now req).2 =
        ⟨(e.handleVoteReq now req).1.state.vote, (e.handleVoteReq now req).1.state.lastLogId⟩ := by
  rw [handleVoteReq_snd, handleVoteReq_fst]
  refine ⟨fun h => if_pos h, fun h₁ h₂ => if_neg (by simpa [h₁] using h₂), ?_, ?_, rfl⟩
  · split_ifs
    · exact le_rfl
    · exact (updateVote_vote req.vote).symm ▸ le_max_left _ _
  · split_ifs
    · exact fun h => absurd rfl h
    · rw [updateVote_vote]
      exact fun h => (max_choice _ _).resolve_left h

/-- Spec scenario S2: a committed vote of node 2 in term 5, modified at
time 1000 under a 300 ms lease, refuses a request at time 1100. -/
theorem handleVoteReq_keeps_state_under_lease :
    (Engine.new { RaftState.default with vote := Vote.newCommitted 5 2, voteLastModified := some 1000 }
        ⟨1, 300, 0⟩).leaseHeld 1100 = true ∧
      ((Engine.new { RaftState.default with
            vote := Vote.newCommitted 5 2, voteLastModified := some 1000 } ⟨1, 300, 0⟩).handleVoteReq
          1100 ⟨Vote.new 6 3, WithBot.some ⟨⟨5, 2⟩, 10⟩⟩).1 =
        Engine.new { RaftState.default with vote := Vote.newCommitted 5 2, voteLastModified := some 1000 }
          ⟨1, 300, 0⟩ :=
  ⟨rfl, (handleVoteReq_spec _ _ _).1 (Or.inl rfl)⟩

end Engine

end Openraft
