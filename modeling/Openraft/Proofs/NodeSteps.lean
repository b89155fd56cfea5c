import Openraft.Proofs.AppendEntries
import Openraft.Proofs.ElectionSafety

/-!
What the handlers a replicating cluster calls — `elect`,
`handle_vote_req`, `handle_vote_resp` and `append_entries` — do to a
node's voting part and to its log.

# The voting part

Each of them keeps the config, only raises the greatest vote seen, and
leaves a candidate that is the one before or, from `elect`, one that
campaigns in a term above every term seen before (`Voting.Advances`).

# The log

Only two of them write the log. A reply completing a quorum makes
`handle_vote_resp` call `establish_leader`, which appends one blank entry
at the next index under the candidate's leader id
(`handleVoteResp_log`); `append_entries` is `AppendEntries.lean`'s. None
of them moves `committed`.
-/

namespace Openraft

namespace Engine

/-- What one handler may do to the voting part: the id stays, the vote and
the greatest vote seen only grow, and a candidate is the one before or
campaigns in a term above every term seen before. -/
structure Voting.Advances (w w' : Voting) : Prop where
  id : w'.id = w.id
  vote : w.vote ≤ w'.vote
  seen : w.lastSeenVote ≤ w'.lastSeenVote
  candidate : ∀ v, w'.candidateVote = some v →
    w.candidateVote = some v ∨ w.lastSeenVote.leaderId.term < v.leaderId.term

namespace Voting.Advances

theorem refl (w : Voting) : w.Advances w := ⟨rfl, le_rfl, le_rfl, fun _ h => .inl h⟩

/-- A handler that leaves the voting part alone advances it. -/
theorem of_eq {w w' : Voting} (h : w' = w) : w.Advances w' := h ▸ refl w

theorem trans {w₁ w₂ w₃ : Voting} (h₁ : w₁.Advances w₂) (h₂ : w₂.Advances w₃) :
    w₁.Advances w₃ where
  id := h₂.id.trans h₁.id
  vote := h₁.vote.trans h₂.vote
  seen := h₁.seen.trans h₂.seen
  candidate v hv := (h₂.candidate v hv).elim (h₁.candidate v) fun ht =>
    .inr ((Vote.term_le_of_le h₁.seen).trans_lt ht)

end Voting.Advances

variable {e e' : Engine} {now : Instant}

-- ======================================================= the voting part

/-- `update_vote` keeps a candidate only for the vote it takes. -/
theorem advances_updateVote (now : Instant) (v : Vote) :
    e.voting.Advances (e.updateVote now v).1.voting := by
  rw [updateVote_voting]
  split_ifs with hlt
  · refine ⟨rfl, hlt.le, le_max_left _ _, fun u hu => .inl ?_⟩
    obtain ⟨c, hc, rfl⟩ := Option.map_eq_some'.mp hu
    simp [voting, Option.mem_def.mp (Option.filter_eq_some.mp hc).1]
  · exact .refl _

/-- `elect` campaigns in the term after the greatest seen. -/
theorem advances_elect (h : e.elect now = .ok e') : e.voting.Advances e'.voting := by
  obtain ⟨hle, -, hv⟩ := elect_eq_ok h
  rw [hv]
  have hlt := lastSeenVote_lt_electVote e
  refine ⟨rfl, hle.trans hlt.le, hlt.le, fun v hv => .inr ?_⟩
  obtain rfl := Option.some.inj hv
  simp [electVote, voting]

/-- `handle_vote_req` changes the engine through `update_vote` only. -/
theorem advances_handleVoteReq (now : Instant) (req : VoteRequest) :
    e.voting.Advances (e.handleVoteReq now req).1.voting := by
  rw [handleVoteReq_fst]
  split_ifs
  · exact .refl _
  · exact advances_updateVote now req.vote

/-- `append_entries` changes the voting part through `update_vote` only. -/
theorem advances_appendEntries {vote : Vote} {prev : WithBot LogId} {entries : List Entry}
    {r : Engine × Except RejectAppendEntries Unit} (h : e.appendEntries now vote prev entries = .ok r) :
    e.voting.Advances r.1.voting := by
  have hu := @advances_updateVote e now vote
  unfold appendEntries at h
  split at h
  · rename_i heq
    cases h
    simpa [heq] using hu
  · rename_i e₁ heq
    rw [heq] at hu
    obtain ⟨-, -, h⟩ := bind_eq_ok.mp h
    split at h
    · cases h
      exact hu
    · obtain ⟨e₂, h₂, h⟩ := bind_eq_ok.mp h
      cases h
      exact (voting_followingAppendEntries h₂).symm ▸ hu

-- ================================================================ the log

/-- An `append_entries` call that leaves a leader is a rejected vote and
changes nothing: a leader still there after `update_vote` fails
`following_handler`'s assertion. -/
theorem appendEntries_leader {vote : Vote} {prev : WithBot LogId} {entries : List Entry}
    {r : Engine × Except RejectAppendEntries Unit} (h : e.appendEntries now vote prev entries = .ok r)
    (hl : r.1.leader.isSome) : r.1 = e := by
  rcases appendEntries_eq_ok h with ⟨-, rfl⟩ | ⟨-, hfh, hr⟩
  · rfl
  -- `following_handler` found no leader, and appending makes none
  have hnone : (e.updateVote now vote).1.leader.isSome = false := by
    unfold followingHandler at hfh
    split_ifs at hfh with hn
    exact Option.not_isSome.mpr hn
  rcases hr with ⟨rej, -, rfl⟩ | ⟨-, e₂, h₂, rfl⟩
  · exact absurd hl (by rw [hnone]; decide)
  · have h₂l : e₂.leader.isSome = (e.updateVote now vote).1.leader.isSome :=
      congrArg Voting.hasLeader (voting_followingAppendEntries h₂)
    exact absurd hl (by rw [h₂l, hnone]; decide)


/-- `elect` leaves the log and `committed`. -/
theorem elect_log (h : e.elect now = .ok e') :
    e'.state.logIds = e.state.logIds ∧ e'.state.committed = e.state.committed := by
  unfold elect at h
  dsimp only at h
  split_ifs at h
  split at h
  · cases h
  · rename_i e₂ heq
    cases h
    rw [show e₂ = _ from (congrArg Prod.fst heq).symm]
    simp [newCandidate]

/-- `handle_vote_req` leaves the log and `committed`. -/
theorem handleVoteReq_log (now : Instant) (req : VoteRequest) :
    (e.handleVoteReq now req).1.state.logIds = e.state.logIds ∧
      (e.handleVoteReq now req).1.state.committed = e.state.committed := by
  rw [handleVoteReq_fst]
  split_ifs <;> simp

-- ====================================================== establishing a leader

/-- A leader `L` taking its own vote stays or is dropped. -/
theorem updateVote_own_leader {L : Leader} (hL : e.leader = some L) :
    (e.updateVote now L.vote).1.leader = some L ∨ (e.updateVote now L.vote).1.leader = none := by
  rw [updateVote_leader, hL]
  split_ifs
  · unfold leaderAfterVote
    split_ifs <;> simp
  · simp

/-- The leader lent after the leader `L` takes its own vote is `L`. -/
theorem leaderHandler_updateVote {L l : Leader} (hL : e.leader = some L)
    (h : (e.updateVote now L.vote).1.leaderHandler = .ok l) : l = L := by
  unfold leaderHandler at h
  rcases @updateVote_own_leader e now L hL with h' | h' <;> rw [h'] at h
  · dsimp only at h
    split_ifs at h
    exact (Except.ok.inj h).symm
  · cases h

/-- A leader's blank entry goes at the next index under its leader id;
`committed` stays. -/
theorem leaderAppendEntries_blank_log {l : Leader} {x : LogId}
    (h : e.leaderAppendEntries l [Entry.newBlank x] = .ok e') :
    e'.state.logIds = e.state.logIds.append (LogId.new l.vote.leaderId (nextIndex e.state.lastLogId)) ∧
      e'.state.committed = e.state.committed := by
  simp only [leaderAppendEntries, appendEntriesLocal, appendEntryLocal, Entry.getMembership,
    Entry.newBlank, List.enum_cons, List.enumFrom_nil, List.map_cons, List.map_nil,
    List.getLast?_singleton, bind, Except.bind, pure, Except.pure, Except.ok.injEq] at h
  subst h
  simp [initiateReplication_eq, updateLocalProgress, mapLeader]

/-- How a returning `establish_leader` ran: it consumed the candidate `c`,
and `establish` refused it, or the leader of `c`'s committed vote took
that vote, was lent, and appended the blank entry. -/
theorem establishLeader_eq_ok (h : e.establishLeader now = .ok e') :
    ∃ c, e.candidate = some c ∧ (e' = { e with candidate := none } ∨
      ∃ e₃, ({ e with candidate := none, leader := some c.intoLeader } : Engine).rebuildReplicationStreams = e₃ ∧
        (e₃.updateVote now c.intoLeader.vote).1.leaderHandler = .ok c.intoLeader ∧
        (e₃.updateVote now c.intoLeader.vote).1.leaderAppendEntries c.intoLeader
          [Entry.newBlank LogId.default] = .ok e') := by
  unfold establishLeader at h
  split at h
  case h_2 => cases h
  rename_i c hc
  refine ⟨c, hc, ?_⟩
  dsimp only at h
  split at h
  · cases h
    exact .inl rfl
  rename_i e₂ hE
  obtain rfl : e₂ = { e with candidate := none, leader := some c.intoLeader } := by
    rcases establish_eq { e with candidate := none } c with h | h <;> rw [h] at hE
    · cases hE
    · exact (Option.some.inj hE).symm
  obtain ⟨-, -, h⟩ := bind_eq_ok.mp h
  split at h
  · obtain ⟨_, h, -⟩ := bind_eq_ok.mp h
    cases h
  obtain ⟨-, -, h⟩ := bind_eq_ok.mp h
  split at h
  · cases h
  rename_i l hl
  generalize he₃ : ({ e with candidate := none, leader := some c.intoLeader } :
    Engine).rebuildReplicationStreams = e₃ at h hl
  obtain rfl := leaderHandler_updateVote (he₃ ▸ rfl : e₃.leader = some c.intoLeader) hl
  exact .inr ⟨e₃, rfl, hl, h⟩

/-- What a returning `establish_leader` does: it consumes the candidate
`c`, the voting part advances, `committed` stays, and the log is as it was
or has `c`'s blank entry at the next index. -/
theorem establishLeader_spec (h : e.establishLeader now = .ok e') :
    ∃ c, e.candidate = some c ∧ e'.candidate = none ∧ e.voting.Advances e'.voting ∧
      e'.state.committed = e.state.committed ∧
      (e'.state.logIds = e.state.logIds ∨
        e'.state.logIds = e.state.logIds.append (LogId.new c.vote.leaderId (nextIndex e.state.lastLogId))) := by
  obtain ⟨c, hc, rfl | ⟨e₃, he₃, -, h⟩⟩ := establishLeader_eq_ok h
  · exact ⟨c, hc, rfl, ⟨rfl, le_rfl, le_rfl, nofun⟩, rfl, .inl rfl⟩
  refine ⟨c, hc, ?_⟩
  obtain ⟨hlog₁, hc₁⟩ := @updateVote_log e₃ now c.intoLeader.vote
  obtain ⟨hlog₂, hc₂⟩ := leaderAppendEntries_blank_log h
  have hadv : e.voting.Advances e₃.voting := he₃ ▸ ⟨rfl, le_rfl, le_rfl, nofun⟩
  refine ⟨?_, ?_, by rw [hc₂, hc₁, ← he₃]; rfl, .inr ?_⟩
  · rw [(leaderAppendEntries_blank_frame h).1, updateVote_candidate, ← he₃]
    split_ifs <;> rfl
  · exact (voting_leaderAppendEntries h).symm ▸ hadv.trans (advances_updateVote now _)
  · rw [hlog₂, RaftState.lastLogId, hlog₁, ← he₃]
    rfl

/-- What a returning `handle_vote_resp` does: the voting part advances,
`committed` stays, and the log is as it was unless the candidate `c` is
established, which consumes it and appends its blank entry. -/
theorem handleVoteResp_spec {target : NodeId} {resp : VoteResponse}
    (h : e.handleVoteResp now target resp = .ok e') :
    e.voting.Advances e'.voting ∧ e'.state.committed = e.state.committed ∧
      (e'.state.logIds = e.state.logIds ∨ ∃ c, e.candidate = some c ∧ e'.candidate = none ∧
        e'.state.logIds = e.state.logIds.append (LogId.new c.vote.leaderId (nextIndex e.state.lastLogId))) := by
  have hseen : e.voting.Advances (e.updateLastSeen resp.vote).voting :=
    ⟨rfl, le_rfl, le_max_left _ _, fun _ h => .inl h⟩
  unfold handleVoteResp at h
  dsimp only at h
  split at h
  · cases h
    exact ⟨hseen, rfl, .inl rfl⟩
  rename_i c hc
  replace hc : e.candidate = some c := hc
  -- the candidate with the replier's grant campaigns with the same vote
  have hgrant : e.voting.Advances
      ({ e.updateLastSeen resp.vote with candidate := some (c.grantBy target).1 } : Engine).voting :=
    ⟨rfl, le_rfl, le_max_left _ _, fun v hv => .inl (by simpa [voting, hc, Candidate.grantBy] using hv)⟩
  split_ifs at h
  · obtain ⟨c', hc', hnone, hadv, hcom, hlog⟩ := establishLeader_spec h
    obtain rfl : c' = (c.grantBy target).1 := (Option.some.inj hc').symm
    exact ⟨hgrant.trans hadv, hcom, hlog.imp id fun hl => ⟨c, hc, hnone, hl⟩⟩
  · cases h
    exact ⟨hgrant, rfl, .inl rfl⟩
  all_goals
    cases h
    exact ⟨hseen, rfl, .inl rfl⟩

end Engine

/-- A log id at the next index is one past the last log id. -/
theorem RaftState.index_next {st : RaftState} (L : LeaderId) {lst : LogId}
    (h : st.logIds.last = some lst) : (LogId.new L (nextIndex st.lastLogId)).index = lst.index + 1 := by
  rw [RaftState.lastLogId, h]
  rfl

/-- One more log id at the next index keeps the shape of the log. -/
theorem RaftState.LogShape.append_next {st st' : RaftState} (h : st.LogShape) (L : LeaderId)
    (hl : st'.logIds = st.logIds.append (LogId.new L (nextIndex st.lastLogId)))
    (hc : st'.committed = st.committed) : st'.LogShape :=
  RaftState.LogShape.of_foldl_append (List.cons_ne_nil _ []) h.sorted h.answers h.committed_le
    (fun k hk => by obtain rfl : k = 0 := (by simpa using hk); rfl)
    (fun lst hlst => by rw [RaftState.lastLogId, hlst]; rfl) hl hc

end Openraft
