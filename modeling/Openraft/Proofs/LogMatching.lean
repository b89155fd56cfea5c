import Openraft.Replication
import Openraft.Proofs.NodeSteps

/-!
Log matching on a replicating cluster: two nodes whose logs hold one log
id hold the same log ids up to it (spec §8, property 6, for every log id
a log holds and not only the committed ones).

# The logs of the system

The argument is about every log the system holds: each node's, and the
log each request on the wire was read from (`ReplCluster.Holds`). Any two
of them agree up to a log id both hold (`LogIdList.Matches`).

# Why it holds

A log id is made once. Only `establish_leader` makes one: a blank entry
at the next index under the candidate's leader id. That leader id is new
to the system, since every log id the system holds carries a term its
node has seen, and a node campaigns in a term above every term it has
seen (`Voting.Seen`). A delivery copies: a follower accepts a request
only when it holds `prev_log_id`, so up to there it agrees with the log
the request was read from; from there on it holds that log's entries, and
past them its log ends, unless nothing changed. Elections and vote
deliveries move no log.

# Scope

Nodes start with empty logs and `committed` at none, and nothing in this
cluster commits: `has_log_id` then reads the log alone, which is what
lets a follower skip exactly the entries it holds.
-/

namespace Openraft

-- ============================================================ matching logs

/-- Two logs that both hold a log id agree at every index up to it. -/
def LogIdList.Matches (a b : LogIdList) : Prop :=
  ∀ x, a.get x.index = some x → b.get x.index = some x → ∀ j ≤ x.index, a.get j = b.get j

/-- What a log that agrees with `g` below `n` and ends there answers, `g`
answers too, below `n`. -/
theorem LogIdList.get_of_agrees {a g : LogIdList} {n : Nat} (hlow : ∀ j < n, a.get j = g.get j)
    (hhigh : ∀ j, n ≤ j → a.get j = none) {j : Nat} {y : LogId} (h : a.get j = some y) :
    j < n ∧ g.get j = some y := by
  have hj : j < n := by
    by_contra hge
    rw [hhigh _ (not_lt.mp hge)] at h
    cases h
  exact ⟨hj, hlow j hj ▸ h⟩

namespace LogIdList.Matches

theorem refl (a : LogIdList) : a.Matches a := fun _ _ _ _ _ => rfl

theorem symm {a b : LogIdList} (h : a.Matches b) : b.Matches a :=
  fun x hb ha j hj => (h x ha hb j hj).symm

/-- A log id appended at the next index, one the other log does not hold,
keeps a match. -/
theorem append {a b : LogIdList} {x : LogId} (hs : a.IndexSorted)
    (hx : ∀ lst, a.last = some lst → x.index = lst.index + 1)
    (hend : ∀ j, x.index ≤ j → a.get j = none) (hab : a.Matches b) (hb : b.get x.index ≠ some x) :
    (a.append x).Matches b := by
  intro y ha hb' j hj
  rw [get_append hs hx] at ha
  by_cases hyx : y.index = x.index
  · rw [if_pos hyx] at ha
    obtain rfl := Option.some.inj ha
    exact absurd hb' hb
  rw [if_neg hyx] at ha
  have hy : y.index < x.index := by
    by_contra hge
    rw [hend _ (not_lt.mp hge)] at ha
    cases ha
  rw [get_append hs hx, if_neg (by omega)]
  exact hab y ha hb' j hj

/-- A log that agrees with a log `g` below `n` and ends there matches
whatever `g` matches. -/
theorem copy {a g b : LogIdList} {n : Nat} (hlow : ∀ j < n, a.get j = g.get j)
    (hhigh : ∀ j, n ≤ j → a.get j = none) (hgb : g.Matches b) : a.Matches b := by
  intro y ha hb j hj
  obtain ⟨hy, hg⟩ := get_of_agrees hlow hhigh ha
  rw [hlow j (by omega)]
  exact hgb y hg hb j hj

end LogIdList.Matches

-- ================================================== log ids a node has seen

namespace Engine

/-- A log id whose term the node has seen, below the term of any vote it
campaigns with. -/
structure Voting.Seen (w : Voting) (y : LogId) : Prop where
  seen : y.leaderId.term ≤ w.lastSeenVote.leaderId.term
  candidate : ∀ v, w.candidateVote = some v → y.leaderId.term < v.leaderId.term

/-- A node that advances keeps every log id it has seen. -/
theorem Voting.Seen.advance {w w' : Voting} {y : LogId} (h : w.Seen y) (hadv : w.Advances w') :
    w'.Seen y where
  seen := h.seen.trans (Vote.term_le_of_le hadv.seen)
  candidate v hv := (hadv.candidate v hv).elim (h.candidate v) (h.seen.trans_lt ·)

end Engine

namespace ReplCluster

variable {s s' : ReplCluster}

/-- The logs the system holds: each node's, and the log each request on
the wire was read from. -/
def Holds (s : ReplCluster) (l : LogIdList) : Prop :=
  (∃ i, (s.nodes i).state.logIds = l) ∨ ∃ src dst req, (src, dst, req) ∈ s.appends ∧ req.sentFrom = l

/-- What a replicating run keeps: node `i` has id `i` and keeps the
election invariant, nothing commits, every node's log has the shape,
every request reads the log it was sent from, any two logs of the system
match, and every log id they hold carries a term its node has seen. -/
structure Inv (s : ReplCluster) : Prop where
  id : ∀ i, (s.nodes i).config.id = i
  voting : ∀ i, (s.nodes i).voting.Inv
  committed : ∀ i, (s.nodes i).state.committed = ⊥
  shape : ∀ i, (s.nodes i).state.LogShape
  reads : ∀ src dst req, (src, dst, req) ∈ s.appends → req.sentFrom.Reads req.prevLogId req.entries
  matching : ∀ a b, s.Holds a → s.Holds b → a.Matches b
  fresh : ∀ l, s.Holds l → ∀ y, l.get y.index = some y → (s.nodes y.leaderId.nodeId).voting.Seen y

-- ==================================================== one node moves

section Update

variable {i : NodeId} {e' : Engine} (hn : s'.nodes = Function.update s.nodes i e')
  (ha : s'.appends = s.appends) (hadv : (s.nodes i).voting.Advances e'.voting)

include hn in
/-- After node `i` moves, a node is the new engine or unchanged. -/
theorem update_cases (j : NodeId) : j = i ∧ s'.nodes j = e' ∨ s'.nodes j = s.nodes j := by
  rw [hn, Function.update_apply]
  split_ifs with h
  exacts [.inl ⟨h, rfl⟩, .inr rfl]

include hn ha in
/-- After node `i` moves, a log of the system is its new log or one the
system held before. -/
theorem holds_update {l : LogIdList} (h : s'.Holds l) : l = e'.state.logIds ∨ s.Holds l := by
  rcases h with ⟨j, rfl⟩ | ⟨src, dst, req, hm, rfl⟩
  · rcases update_cases hn j with ⟨-, h⟩ | h <;> rw [h]
    exacts [.inl rfl, .inr (.inl ⟨j, rfl⟩)]
  · exact .inr (.inr ⟨src, dst, req, ha ▸ hm, rfl⟩)

include hn hadv in
/-- Every node keeps the log ids it has seen when node `i` advances. -/
theorem seen_update {y : LogId} {n : NodeId} (h : (s.nodes n).voting.Seen y) :
    (s'.nodes n).voting.Seen y := by
  rcases update_cases hn n with ⟨rfl, h'⟩ | h' <;> rw [h']
  exacts [h.advance hadv, h]

include hn ha hadv in
/-- Node `i` moving to `e'` keeps the invariant when `e'` keeps the
node's facts, its log matches every log of the system, and every log id
it holds carries a term its node has seen. -/
theorem Inv.update (hi : s.Inv) (hv : e'.voting.Inv) (hc : e'.state.committed = ⊥)
    (hshape : e'.state.LogShape) (hmatch : ∀ b, s.Holds b → e'.state.logIds.Matches b)
    (hfresh : ∀ y, e'.state.getLogId y.index = some y → (s'.nodes y.leaderId.nodeId).voting.Seen y) :
    s'.Inv where
  id j := by
    rcases update_cases hn j with ⟨rfl, h⟩ | h <;> rw [h]
    exacts [hadv.id.trans (hi.id j), hi.id j]
  voting j := by
    rcases update_cases hn j with ⟨-, h⟩ | h <;> rw [h]
    exacts [hv, hi.voting j]
  committed j := by
    rcases update_cases hn j with ⟨-, h⟩ | h <;> rw [h]
    exacts [hc, hi.committed j]
  shape j := by
    rcases update_cases hn j with ⟨-, h⟩ | h <;> rw [h]
    exacts [hshape, hi.shape j]
  reads := ha ▸ hi.reads
  matching a b ha' hb' := by
    rcases holds_update hn ha ha' with rfl | ha'
    · rcases holds_update hn ha hb' with rfl | hb'
      · exact .refl _
      · exact hmatch b hb'
    · rcases holds_update hn ha hb' with rfl | hb'
      · exact (hmatch a ha').symm
      · exact hi.matching a b ha' hb'
  fresh l hl y hy := by
    rcases holds_update hn ha hl with rfl | hl
    · exact hfresh y hy
    · exact seen_update hn hadv (hi.fresh l hl y hy)

include hn ha hadv in
/-- Node `i` moving without touching its log keeps the invariant. -/
theorem Inv.update_same (hi : s.Inv) (hv : e'.voting.Inv)
    (hl : e'.state.logIds = (s.nodes i).state.logIds)
    (hc : e'.state.committed = (s.nodes i).state.committed) : s'.Inv :=
  hi.update hn ha hadv hv (hc.trans (hi.committed i)) ((hi.shape i).congr hl hc)
    (fun b hb => hl ▸ hi.matching _ b (.inl ⟨i, rfl⟩) hb) fun y hy =>
      seen_update hn hadv (hi.fresh _ (.inl ⟨i, rfl⟩) y (by rwa [RaftState.getLogId, hl] at hy))

include hn ha hadv in
/-- Node `i` establishing its candidate `c` — a blank entry at the next
index under `c`'s leader id — keeps the invariant: no log of the system
holds that log id yet. -/
theorem Inv.update_establish (hi : s.Inv) (hv : e'.voting.Inv) {c : Candidate}
    (hcand : (s.nodes i).candidate = some c) (hnone : e'.candidate = none)
    (hl : e'.state.logIds = (s.nodes i).state.logIds.append
      (LogId.new c.vote.leaderId (nextIndex (s.nodes i).state.lastLogId)))
    (hc : e'.state.committed = (s.nodes i).state.committed) : s'.Inv := by
  obtain ⟨hcv, hown⟩ := (hi.voting i).candidate c.vote (by simp [Engine.voting, hcand])
  -- the new log id is node `i`'s
  have hnode : c.vote.leaderId.nodeId = i := hown.trans (hi.id i)
  generalize hx : LogId.new c.vote.leaderId (nextIndex (s.nodes i).state.lastLogId) = x at hl
  have hxl : x.leaderId = c.vote.leaderId := by rw [← hx]; rfl
  have hsorted := (hi.shape i).sorted
  have hnext : ∀ lst, (s.nodes i).state.logIds.last = some lst → x.index = lst.index + 1 :=
    fun _ h => hx ▸ RaftState.index_next _ h
  have hend : ∀ j, x.index ≤ j → (s.nodes i).state.logIds.get j = none :=
    fun j hj => RaftState.getLogId_eq_none (by rw [← hx] at hj; exact hj)
  -- no log of the system holds it: node `i` campaigns in its term
  have hnew : ∀ b, s.Holds b → b.get x.index ≠ some x := fun b hb hbx => by
    have := (hi.fresh b hb x hbx).candidate c.vote
    rw [hxl, hnode] at this
    exact lt_irrefl _ (hxl ▸ this (by simp [Engine.voting, hcand]))
  refine hi.update hn ha hadv hv (hc.trans (hi.committed i))
    ((hi.shape i).append_next _ (hx ▸ hl) hc)
    (fun b hb => hl ▸ (hi.matching _ b (.inl ⟨i, rfl⟩) hb).append hsorted hnext hend (hnew b hb))
    fun y hy => ?_
  rw [RaftState.getLogId, hl, LogIdList.get_append hsorted hnext] at hy
  split_ifs at hy
  · -- the new log id: node `i` has seen its term and campaigns no more
    obtain rfl := Option.some.inj hy
    rw [hxl, hnode, hn, Function.update_same]
    refine ⟨?_, fun v hv => by simp [Engine.voting, hnone] at hv⟩
    exact hxl ▸ Vote.term_le_of_le ((hcv ▸ (hi.voting i).seen).trans hadv.seen)
  · exact seen_update hn hadv (hi.fresh _ (.inl ⟨i, rfl⟩) y hy)

include hn ha hadv in
/-- Node `i` taking a log that agrees with a log `g` of the system below
`n` and ends there keeps the invariant. -/
theorem Inv.update_copy (hi : s.Inv) (hv : e'.voting.Inv) (hc : e'.state.committed = ⊥)
    (hshape : e'.state.LogShape) {g : LogIdList} {n : Nat} (hg : s.Holds g)
    (hlow : ∀ j < n, e'.state.getLogId j = g.get j)
    (hhigh : ∀ j, n ≤ j → e'.state.getLogId j = none) : s'.Inv :=
  hi.update hn ha hadv hv hc hshape (fun b hb => .copy hlow hhigh (hi.matching g b hg hb))
    fun y hy => seen_update hn hadv (hi.fresh g hg y (LogIdList.get_of_agrees hlow hhigh hy).2)

end Update

-- ================================================================ events

/-- With `committed` at none, a log id held is one the log answers at its
index. -/
theorem RaftState.get_of_hasLogId {st : RaftState} {x : LogId} (hc : st.committed = ⊥)
    (h : st.hasLogId x = true) : st.getLogId x.index = some x :=
  (Engine.hasLogId_iff.mp h).resolve_left (by rw [hc]; exact Nat.not_lt_zero _)

/-- Which node an election event moves, and by which handler. -/
theorem vote_step_cases {c c' : Cluster} {ev : ClusterEvent} (hs : c.step ev = some c') :
    ∃ i e', c'.nodes = Function.update c.nodes i e' ∧
      ((∃ now, (c.nodes i).elect now = .ok e') ∨
        (∃ now req, ((c.nodes i).handleVoteReq now req).1 = e') ∨
        ∃ now target resp, (c.nodes i).handleVoteResp now target resp = .ok e') := by
  cases ev with
  | elect i now =>
    simp only [Cluster.step] at hs
    split at hs <;> cases hs
    exact ⟨i, _, rfl, .inl ⟨now, ‹_›⟩⟩
  | deliverVoteReq src dst req now =>
    simp only [Cluster.step] at hs
    split_ifs at hs
    cases hs
    exact ⟨dst, _, rfl, .inr (.inl ⟨now, req, rfl⟩)⟩
  | deliverVoteResp src dst resp now =>
    simp only [Cluster.step] at hs
    split_ifs at hs
    split at hs <;> cases hs
    exact ⟨dst, _, rfl, .inr (.inr ⟨now, src, resp, ‹_›⟩)⟩

/-- What an election event does to the node it moves: the voting part
advances, `committed` and the membership configs stay, and the log is as
it was or has the established candidate's blank entry at the next index. -/
theorem vote_spec (hv : ∀ i, (s.nodes i).voting.Inv) {ev : ClusterEvent}
    (hs : s.step (.vote ev) = some s') :
    ∃ i e', s'.nodes = Function.update s.nodes i e' ∧ s'.appends = s.appends ∧
      (s.nodes i).voting.Advances e'.voting ∧ e'.voting.Inv ∧
      e'.state.committed = (s.nodes i).state.committed ∧
      e'.state.membershipState = (s.nodes i).state.membershipState ∧
      (e'.state.logIds = (s.nodes i).state.logIds ∨
        ∃ c, (s.nodes i).candidate = some c ∧ e'.candidate = none ∧
          e'.state.logIds = (s.nodes i).state.logIds.append
            (LogId.new c.vote.leaderId (nextIndex (s.nodes i).state.lastLogId))) := by
  obtain ⟨c, hc, rfl⟩ := Option.map_eq_some'.mp hs
  obtain ⟨i, e', hn, h⟩ := vote_step_cases hc
  refine ⟨i, e', hn, rfl, ?_⟩
  rcases h with ⟨now, h⟩ | ⟨now, req, rfl⟩ | ⟨now, target, resp, h⟩
  · obtain ⟨hl, hcom⟩ := Engine.elect_log h
    exact ⟨Engine.advances_elect h, Engine.voteInv_elect h, hcom, (Engine.elect_candidate h).2.1, .inl hl⟩
  · obtain ⟨hl, hcom⟩ := Engine.handleVoteReq_log now req
    exact ⟨Engine.advances_handleVoteReq now req, Engine.voteInv_handleVoteReq (hv i) req, hcom,
      ((s.nodes i).handleVoteReq_frame now req).2.1, .inl hl⟩
  · obtain ⟨e'', he'', hvi⟩ := Engine.handleVoteResp_isOk (hv i) now target resp
    obtain rfl : e' = e'' := Except.ok.inj (h.symm.trans he'')
    obtain ⟨hadv, hcom, hl⟩ := Engine.handleVoteResp_spec h
    exact ⟨hadv, hvi, hcom, (Engine.handleVoteResp_frame h).2.1, hl⟩

/-- An election event keeps the invariant: `elect` and `handle_vote_req`
leave the log, and `handle_vote_resp` leaves it or establishes the
candidate. -/
theorem Inv.vote (hi : s.Inv) {ev : ClusterEvent} (hs : s.step (.vote ev) = some s') : s'.Inv := by
  obtain ⟨i, e', hn, ha, hadv, hv, hcom, -, hl | ⟨c, hcand, hnone, hl⟩⟩ := vote_spec hi.voting hs
  · exact hi.update_same hn ha hadv hv hl hcom
  · exact hi.update_establish hn ha hadv hv hcand hnone hl hcom

/-- A leader's request: the sender is a leader whose log reads so, and the
request, read from that log with the sender's vote, joins the wire. -/
theorem replicate_spec {src dst : NodeId} {prev : WithBot LogId} {entries : List Entry}
    (hs : s.step (.replicate src dst prev entries) = some s') :
    (s.nodes src).leader.isSome ∧ (s.nodes src).state.logIds.Reads prev entries ∧
      s' = { s with appends := s.appends ++
        [(src, dst, ⟨(s.nodes src).state.vote, prev, entries, (s.nodes src).state.logIds⟩)] } := by
  simp only [step] at hs
  split_ifs at hs with hg
  exact ⟨hg.1, hg.2, (Option.some.inj hs).symm⟩

/-- A fact of every request on the wire that a new request also has. -/
theorem forall_append_request {l : List (NodeId × NodeId × AppendRequest)}
    {P : NodeId → NodeId → AppendRequest → Prop} (h : ∀ a b req, (a, b, req) ∈ l → P a b req)
    {src dst : NodeId} {r : AppendRequest} (hr : P src dst r) :
    ∀ a b req, (a, b, req) ∈ l ++ [(src, dst, r)] → P a b req := by
  intro a b req hm
  rcases List.mem_append.mp hm with hm | hm
  · exact h a b req hm
  · simp only [List.mem_singleton, Prod.mk.injEq] at hm
    obtain ⟨rfl, rfl, rfl⟩ := hm
    exact hr

/-- A request read from a log of the system adds no log to it. -/
theorem holds_of_replicate {src dst : NodeId} {r : AppendRequest} (hr : s.Holds r.sentFrom)
    {l : LogIdList} (h : Holds { s with appends := s.appends ++ [(src, dst, r)] } l) : s.Holds l := by
  rcases h with ⟨j, rfl⟩ | ⟨a, b, req, hm, rfl⟩
  · exact .inl ⟨j, rfl⟩
  · rcases List.mem_append.mp hm with hm | hm
    · exact .inr ⟨a, b, req, hm, rfl⟩
    · simp only [List.mem_singleton, Prod.mk.injEq] at hm
      obtain ⟨-, -, rfl⟩ := hm
      exact hr

/-- A leader's request keeps the invariant: it is read from the leader's
log, a log of the system. -/
theorem Inv.replicate (hi : s.Inv) {src dst : NodeId} {prev : WithBot LogId} {entries : List Entry}
    (hs : s.step (.replicate src dst prev entries) = some s') : s'.Inv := by
  obtain ⟨-, hread, rfl⟩ := replicate_spec hs
  have hh := @holds_of_replicate s src dst ⟨(s.nodes src).state.vote, prev, entries, _⟩ (.inl ⟨src, rfl⟩)
  exact ⟨hi.id, hi.voting, hi.committed, hi.shape, forall_append_request hi.reads hread,
    fun a b ha hb => hi.matching a b (hh ha) (hh hb), fun l hl => hi.fresh l (hh hl)⟩

/-- A follower that accepted a request holds the log the request was read
from up to the last entry sent: below `prev_log_id` because it held
`prev_log_id`, from there on because it holds every entry sent. -/
theorem Inv.accepted_agrees (hi : s.Inv) {src dst : NodeId} {req : AppendRequest} {e' : Engine}
    (hm : (src, dst, req) ∈ s.appends)
    (hacc : Engine.AppendAccepted (s.nodes dst) e' req.vote req.prevLogId req.entries)
    (hc : e'.state.committed = ⊥) (j : Nat) (hj : j < nextIndex req.prevLogId + req.entries.length) :
    e'.state.getLogId j = req.sentFrom.get j := by
  have hreads := hi.reads src dst req hm
  by_cases hjp : j < nextIndex req.prevLogId
  · -- below `prev_log_id`: the follower held it, as the request's log does
    rw [hacc.keepsBelow j hjp]
    cases hp : req.prevLogId with
    | bot => rw [hp] at hjp; exact absurd hjp (Nat.not_lt_zero _)
    | coe p =>
      rw [hp] at hjp
      have h₂p := RaftState.get_of_hasLogId hc (hacc.holdsPrev p hp)
      have hep : (s.nodes dst).state.getLogId p.index = some p :=
        (hacc.keepsBelow p.index (by rw [hp]; exact Nat.lt_succ_self _)).symm.trans h₂p
      exact hi.matching _ _ (.inl ⟨dst, rfl⟩) (.inr ⟨src, dst, req, hm, rfl⟩) p hep
        (hreads.1 p (by rw [hp]; exact List.mem_singleton_self p)) j (Nat.lt_succ_iff.mp hjp)
  · -- an entry sent: held, so answered at its index
    obtain ⟨k, rfl⟩ : ∃ k, j = nextIndex req.prevLogId + k := ⟨j - nextIndex req.prevLogId, by omega⟩
    have hk : k < req.entries.length := by omega
    rw [hreads.2 k hk, ← hreads.index_eq k hk]
    exact RaftState.get_of_hasLogId hc (hacc.holdsEntries _ (List.getElem_mem hk))

/-- A delivery: the request is on the wire, and the receiver moves to what
`append_entries` returns. -/
theorem deliverAppend_eq {src dst : NodeId} {req : AppendRequest} {now : Instant}
    (hs : s.step (.deliverAppend src dst req now) = some s') :
    (src, dst, req) ∈ s.appends ∧ ∃ r, (s.nodes dst).appendEntries now req.vote req.prevLogId req.entries =
      .ok r ∧ s'.nodes = Function.update s.nodes dst r.1 ∧ s'.appends = s.appends := by
  simp only [step] at hs
  split_ifs at hs with hm
  refine ⟨hm, ?_⟩
  split at hs
  swap
  · cases hs
  rename_i e' isOk heq
  cases hs
  -- with no channel, `handle_append_entries` leaves what `append_entries` leaves
  unfold Engine.handleAppendEntries at heq
  obtain ⟨⟨e₁, res⟩, h₁, heq⟩ := bind_eq_ok.mp heq
  cases heq
  exact ⟨_, h₁, rfl, rfl⟩

/-- What a delivery does: the request is on the wire, and the receiver's
voting part advances; a receiver left a leader is left as it was; its log
and `committed` stay, or it takes the request's vote and holds the log the
request was read from up to the last entry sent, and nothing past it. -/
theorem deliverAppend_spec (hi : s.Inv) {src dst : NodeId} {req : AppendRequest} {now : Instant}
    (hs : s.step (.deliverAppend src dst req now) = some s') :
    (src, dst, req) ∈ s.appends ∧ ∃ e', s'.nodes = Function.update s.nodes dst e' ∧
      s'.appends = s.appends ∧ (s.nodes dst).voting.Advances e'.voting ∧ e'.voting.Inv ∧
      (e'.leader.isSome → e' = s.nodes dst) ∧
      ((e'.state.logIds = (s.nodes dst).state.logIds ∧
          e'.state.committed = (s.nodes dst).state.committed) ∨
        e'.state.vote = req.vote ∧ e'.state.committed = ⊥ ∧ e'.state.LogShape ∧
          (∀ j < nextIndex req.prevLogId + req.entries.length,
            e'.state.getLogId j = req.sentFrom.get j) ∧
          ∀ j, nextIndex req.prevLogId + req.entries.length ≤ j → e'.state.getLogId j = none) := by
  obtain ⟨hm, ⟨e', res⟩, h₁, hn, ha⟩ := deliverAppend_eq hs
  refine ⟨hm, e', hn, ha, Engine.advances_appendEntries h₁,
    Engine.voteInv_appendEntries (hi.voting dst) h₁, Engine.appendEntries_leader h₁, ?_⟩
  rcases Engine.appendEntries_eq_ok h₁ with ⟨-, hr⟩ | ⟨hvl, -, ⟨rej, -, hr⟩ | ⟨hprev', e₂, h₂, hr⟩⟩
  · -- a smaller vote: nothing changes
    obtain ⟨rfl, -⟩ := Prod.mk.inj hr
    exact .inl ⟨rfl, rfl⟩
  · -- `prev_log_id` missing: the vote is taken, the log stays
    obtain ⟨rfl, -⟩ := Prod.mk.inj hr
    exact .inl (@Engine.updateVote_log (s.nodes dst) now req.vote)
  obtain ⟨rfl, -⟩ := Prod.mk.inj hr
  have hacc := Engine.appendEntries_ok_spec (hi.shape dst) (hi.reads src dst req hm).index_eq hvl hprev' h₂
  refine hacc.tail.imp (fun hl => ⟨hl, hacc.committed⟩) fun hhigh => ?_
  have hc : e'.state.committed = ⊥ := hacc.committed.trans (hi.committed dst)
  exact ⟨hacc.vote, hc, hacc.shape, hi.accepted_agrees hm hacc hc, hhigh⟩

/-- A delivery keeps the invariant. A rejection leaves the log. An
acceptance leaves it, or makes it the request's log up to the last entry
sent, with nothing past it. -/
theorem Inv.deliverAppend (hi : s.Inv) {src dst : NodeId} {req : AppendRequest} {now : Instant}
    (hs : s.step (.deliverAppend src dst req now) = some s') : s'.Inv := by
  obtain ⟨hm, e', hn, ha, hadv, hv, -, ⟨hl, hc⟩ | ⟨-, hc, hshape, hlow, hhigh⟩⟩ := deliverAppend_spec hi hs
  · exact hi.update_same hn ha hadv hv hl hc
  · exact hi.update_copy hn ha hadv hv hc hshape (.inr ⟨src, dst, req, hm, rfl⟩) hlow hhigh

/-- Every event keeps the invariant. -/
theorem Inv.step (hi : s.Inv) {ev : ReplEvent} (hs : s.step ev = some s') : s'.Inv := by
  cases ev with
  | vote ev => exact hi.vote hs
  | replicate src dst prev entries => exact hi.replicate hs
  | deliverAppend src dst req now => exact hi.deliverAppend hs

-- ================================================================== runs

section Runs

variable {st : NodeId → RaftState} {cfg : NodeId → EngineConfig}

/-- At the start every log of the system is empty. -/
theorem get_of_holds_init (hempty : ∀ i, (st i).logIds = ⟨[]⟩) {l : LogIdList}
    (h : (init st cfg).Holds l) (j : Nat) : l.get j = none := by
  rcases h with ⟨i, rfl⟩ | ⟨_, _, _, h, -⟩
  · show (st i).logIds.get j = none
    rw [hempty i]
    rfl
  · cases h

/-- The invariant holds from `Engine::new` on empty logs, for nodes whose
id is their index. -/
theorem inv_init (hid : ∀ i, (cfg i).id = i) (hempty : ∀ i, (st i).logIds = ⟨[]⟩)
    (hcom : ∀ i, (st i).committed = ⊥) : (init st cfg).Inv where
  id := hid
  voting _ := Engine.voteInv_reachable .init
  committed := hcom
  shape i := by
    show (st i).LogShape
    refine ⟨by unfold LogIdList.IndexSorted; rw [hempty i]; exact List.Pairwise.nil, fun j _ h => ?_,
      by rw [hcom i]; exact Nat.zero_le _⟩
    rw [RaftState.lastLogId, hempty i] at h
    exact absurd h (Nat.not_lt_zero j)
  reads _ _ _ := nofun
  matching _ _ ha _ x hx := by rw [get_of_holds_init hempty ha] at hx; cases hx
  fresh _ hl y hy := by rw [get_of_holds_init hempty hl] at hy; cases hy

/-- The invariant holds along every run from `Engine::new` on empty logs. -/
theorem inv_of_reachable (hid : ∀ i, (cfg i).id = i) (hempty : ∀ i, (st i).logIds = ⟨[]⟩)
    (hcom : ∀ i, (st i).committed = ⊥) (hr : ReplReachable (init st cfg) s) : s.Inv := by
  induction hr with
  | init => exact inv_init hid hempty hcom
  | step _ hs ih => exact ih.step hs

end Runs

/-- Log matching (spec §8, property 6): in every run of elections,
leader requests and deliveries — delayed, duplicated or dropped — of a
cluster whose node `i` has id `i` and starts from `Engine::new` with an
empty log, two nodes whose logs hold one log id hold the same log ids at
every index up to it. -/
theorem log_matching {st : NodeId → RaftState} {cfg : NodeId → EngineConfig}
    (hid : ∀ i, (cfg i).id = i) (hempty : ∀ i, (st i).logIds = ⟨[]⟩)
    (hcom : ∀ i, (st i).committed = ⊥) (hr : ReplReachable (init st cfg) s) {a b : NodeId}
    {x : LogId} (ha : (s.nodes a).state.getLogId x.index = some x)
    (hb : (s.nodes b).state.getLogId x.index = some x) :
    ∀ j ≤ x.index, (s.nodes a).state.getLogId j = (s.nodes b).state.getLogId j :=
  (inv_of_reachable hid hempty hcom hr).matching _ _ (.inl ⟨a, rfl⟩) (.inl ⟨b, rfl⟩) x ha hb

/-- Node 1 is elected in term 1 with node 2's grant, appends its blank
entry, and replicates it to node 2. -/
def replicationRun : List ReplEvent :=
  [.vote (.elect 1 0),
   .vote (.deliverVoteReq 1 1 ⟨Vote.new 1 1, ⊥⟩ 0), .vote (.deliverVoteResp 1 1 ⟨Vote.new 1 1, ⊥⟩ 0),
   .vote (.deliverVoteReq 1 2 ⟨Vote.new 1 1, ⊥⟩ 0), .vote (.deliverVoteResp 2 1 ⟨Vote.new 1 1, ⊥⟩ 0),
   .replicate 1 2 ⊥ [⟨⟨⟨1, 1⟩, 0⟩, .blank⟩],
   .deliverAppend 1 2 ⟨Vote.newCommitted 1 1, ⊥, [⟨⟨⟨1, 1⟩, 0⟩, .blank⟩], ⟨[⟨⟨1, 1⟩, 0⟩]⟩⟩ 0]

/-- After the replication run nodes 1 and 2 both hold the blank entry of
term 1, and agree up to it. -/
theorem blank_entry_replicated :
    ∃ s, (init threeVoters fun i => ⟨i, 0, 0⟩).run replicationRun = some s ∧
      (s.nodes 1).state.getLogId 0 = some ⟨⟨1, 1⟩, 0⟩ ∧ (s.nodes 2).state.getLogId 0 = some ⟨⟨1, 1⟩, 0⟩ ∧
      ∀ j ≤ (⟨⟨1, 1⟩, 0⟩ : LogId).index, (s.nodes 1).state.getLogId j = (s.nodes 2).state.getLogId j := by
  obtain ⟨s, hs⟩ : ∃ s, (init threeVoters fun i => ⟨i, 0, 0⟩).run replicationRun = some s :=
    ⟨_, rfl⟩
  have hs' := Option.some.inj (hs.symm.trans rfl)
  have h₁ : (s.nodes 1).state.getLogId 0 = some ⟨⟨1, 1⟩, 0⟩ := by subst hs'; rfl
  have h₂ : (s.nodes 2).state.getLogId 0 = some ⟨⟨1, 1⟩, 0⟩ := by subst hs'; rfl
  exact ⟨s, hs, h₁, h₂, log_matching (fun _ => rfl) (fun _ => rfl) (fun _ => rfl)
    (ReplReachable.init.of_run hs) h₁ h₂⟩

end ReplCluster

end Openraft
