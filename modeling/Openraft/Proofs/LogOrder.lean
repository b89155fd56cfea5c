import Openraft.Proofs.LogMatching

/-!
Log order on a replicating cluster: the log ids a node holds increase
with their index, and its last log id is the greatest of them — the log
id `handle_vote_req` compares for the whole log.

# Terms along a log

Log ids are ordered by term, then index. The log ids of a log increase
with their index exactly when their terms never fall
(`LogIdList.TermsSorted`).

# Why it holds

Two bounds come first. Every log id a node holds has a term at most its
vote's (`own`), and every request on the wire was read from a log whose
terms are at most the request's vote's (`sent`): the leader read it from
its own log, with its own vote. A vote only grows. An established
candidate's blank entry carries the candidate's vote, which is the
node's, so it is at least every term of the log it ends; a follower that
accepts a request takes the request's vote and holds a prefix of the
request's log (`LogMatching.lean`). So every log of the system stays
sorted.
-/

namespace Openraft

-- ======================================================= terms along a log

namespace LogIdList

/-- Every log id the log answers has a term at most `t`. -/
def TermsBelow (l : LogIdList) (t : Nat) : Prop :=
  ∀ y, l.get y.index = some y → y.leaderId.term ≤ t

/-- The terms of the log ids the log answers never fall with the index. -/
def TermsSorted (l : LogIdList) : Prop :=
  ∀ x y, l.get x.index = some x → l.get y.index = some y → x.index ≤ y.index →
    x.leaderId.term ≤ y.leaderId.term

theorem TermsBelow.mono {l : LogIdList} {t t' : Nat} (h : l.TermsBelow t) (ht : t ≤ t') :
    l.TermsBelow t' :=
  fun y hy => (h y hy).trans ht

section Copy

variable {a g : LogIdList} {n : Nat} (hlow : ∀ j < n, a.get j = g.get j)
  (hhigh : ∀ j, n ≤ j → a.get j = none)

include hlow hhigh in
/-- A log that agrees with `g` below `n` and ends there has `g`'s bound. -/
theorem TermsBelow.copy {t : Nat} (hg : g.TermsBelow t) : a.TermsBelow t :=
  fun y hy => hg y (get_of_agrees hlow hhigh hy).2

include hlow hhigh in
/-- A log that agrees with a sorted `g` below `n` and ends there is sorted. -/
theorem TermsSorted.copy (hg : g.TermsSorted) : a.TermsSorted :=
  fun x y hx hy => hg x y (get_of_agrees hlow hhigh hx).2 (get_of_agrees hlow hhigh hy).2

end Copy

section Append

variable {l : LogIdList} {x : LogId} (hs : l.IndexSorted)
  (hx : ∀ lst, l.last = some lst → x.index = lst.index + 1)

include hs hx in
/-- A log id at the next index with a term at most `t` keeps the bound. -/
theorem TermsBelow.append {t : Nat} (h : l.TermsBelow t) (hxt : x.leaderId.term ≤ t) :
    (l.append x).TermsBelow t := by
  intro y hy
  rw [get_append hs hx] at hy
  split_ifs at hy
  · exact Option.some.inj hy ▸ hxt
  · exact h y hy

include hs hx in
/-- A log id at the next index, past everything the log holds, with a
term at least every term of the log, keeps it sorted. -/
theorem TermsSorted.append (hend : ∀ j, x.index ≤ j → l.get j = none) (h : l.TermsSorted)
    (hb : l.TermsBelow x.leaderId.term) : (l.append x).TermsSorted := by
  intro y z hy hz hyz
  rw [get_append hs hx] at hy hz
  split_ifs at hy hz with hyx hzx hzx
  · rw [← Option.some.inj hy, ← Option.some.inj hz]
  · -- `z` would be past the log
    rw [hend _ (hyx ▸ hyz)] at hz
    cases hz
  · exact Option.some.inj hz ▸ hb y hy
  · exact h y z hy hz hyz

end Append

/-- In a sorted log the last log id is the greatest log id it answers. -/
theorem TermsSorted.le_last {l : LogIdList} (h : l.TermsSorted) {x : LogId}
    (hx : l.get x.index = some x) : (x : WithBot LogId) ≤ l.last := by
  obtain ⟨⟨lst, hlst, hle⟩, -⟩ := get_eq_some hx
  have hlast : l.last = some lst := hlst
  rw [hlast]
  refine WithBot.coe_le_coe.mpr ?_
  rcases hle.lt_or_eq with hlt | heq
  · rcases (h x lst hx (get_last hlast) hlt.le).lt_or_eq with ht | ht
    · exact (LogId.lt_of_term_lt ht).le
    · exact (LogId.lt_of_term_eq_of_index_lt ht hlt).le
  · exact (Option.some.inj ((heq ▸ hx).symm.trans (get_last hlast))).le

end LogIdList

-- ============================================================ the invariant

namespace ReplCluster

variable {s s' : ReplCluster}

/-- What a replicating run keeps of terms: every log id a node holds has a
term at most its vote's, every request was read from a log with terms at
most the request's vote's, and every log of the system is sorted. -/
structure OrderInv (s : ReplCluster) : Prop where
  own : ∀ i, (s.nodes i).state.logIds.TermsBelow (s.nodes i).state.vote.leaderId.term
  sent : ∀ src dst req, (src, dst, req) ∈ s.appends → req.sentFrom.TermsBelow req.vote.leaderId.term
  sorted : ∀ l, s.Holds l → l.TermsSorted

section Update

variable {i : NodeId} {e' : Engine} (hn : s'.nodes = Function.update s.nodes i e')
  (ha : s'.appends = s.appends)

include hn ha in
/-- Node `i` moving to `e'` keeps the invariant when `e'`'s log has terms
at most its vote's and is sorted. -/
theorem OrderInv.update (ho : s.OrderInv)
    (hown : e'.state.logIds.TermsBelow e'.state.vote.leaderId.term) (hsorted : e'.state.logIds.TermsSorted) :
    s'.OrderInv where
  own j := by
    rcases update_cases hn j with ⟨-, h⟩ | h <;> rw [h]
    exacts [hown, ho.own j]
  sent := ha ▸ ho.sent
  sorted l hl := (holds_update hn ha hl).elim (· ▸ hsorted) (ho.sorted l)

include hn ha in
/-- Node `i` moving with its log and a vote not below keeps the invariant. -/
theorem OrderInv.update_same (ho : s.OrderInv) (hl : e'.state.logIds = (s.nodes i).state.logIds)
    (hv : (s.nodes i).state.vote ≤ e'.state.vote) : s'.OrderInv :=
  ho.update hn ha (hl ▸ (ho.own i).mono (Vote.term_le_of_le hv)) (hl ▸ ho.sorted _ (.inl ⟨i, rfl⟩))

end Update

/-- An election event keeps the invariant: a vote only grows, and an
established candidate's blank entry carries the node's vote. -/
theorem OrderInv.vote (hi : s.Inv) (ho : s.OrderInv) {ev : ClusterEvent}
    (hs : s.step (.vote ev) = some s') : s'.OrderInv := by
  obtain ⟨i, e', hn, ha, hadv, -, -, -, hl | ⟨c, hcand, -, hl⟩⟩ := vote_spec hi.voting hs
  · exact ho.update_same hn ha hl hadv.vote
  have hcv : c.vote = (s.nodes i).state.vote :=
    ((hi.voting i).candidate c.vote (by simp [Engine.voting, hcand])).1
  have hs := (hi.shape i).sorted
  have hnext := fun lst (h : (s.nodes i).state.logIds.last = some lst) =>
    RaftState.index_next c.vote.leaderId h
  -- every term of the log is at most the blank entry's
  have hown : (s.nodes i).state.logIds.TermsBelow c.vote.leaderId.term := hcv ▸ ho.own i
  refine ho.update hn ha ?_ ?_
  · rw [hl]
    exact (hown.append hs hnext (le_refl _)).mono (hcv ▸ Vote.term_le_of_le hadv.vote)
  · rw [hl]
    exact (ho.sorted _ (.inl ⟨i, rfl⟩)).append hs hnext (fun _ hj => RaftState.getLogId_eq_none hj) hown

/-- A leader's request keeps the invariant: it is read from the leader's
log with the leader's vote. -/
theorem OrderInv.replicate (ho : s.OrderInv) {src dst : NodeId} {prev : WithBot LogId}
    {entries : List Entry} (hs : s.step (.replicate src dst prev entries) = some s') : s'.OrderInv := by
  obtain ⟨-, -, rfl⟩ := replicate_spec hs
  exact ⟨ho.own, forall_append_request ho.sent (ho.own src),
    fun l hl => ho.sorted l (holds_of_replicate (.inl ⟨src, rfl⟩) hl)⟩

/-- A delivery keeps the invariant: a follower that takes a request takes
its vote and a prefix of its log. -/
theorem OrderInv.deliverAppend (hi : s.Inv) (ho : s.OrderInv) {src dst : NodeId}
    {req : AppendRequest} {now : Instant} (hs : s.step (.deliverAppend src dst req now) = some s') :
    s'.OrderInv := by
  obtain ⟨hm, e', hn, ha, hadv, -, -, ⟨hl, -⟩ | ⟨hv, -, -, hlow, hhigh⟩⟩ := deliverAppend_spec hi hs
  · exact ho.update_same hn ha hl hadv.vote
  · exact ho.update hn ha (hv ▸ (ho.sent src dst req hm).copy hlow hhigh)
      ((ho.sorted _ (.inr ⟨src, dst, req, hm, rfl⟩)).copy hlow hhigh)

/-- Every event keeps the invariant. -/
theorem OrderInv.step (hi : s.Inv) (ho : s.OrderInv) {ev : ReplEvent} (hs : s.step ev = some s') :
    s'.OrderInv := by
  cases ev with
  | vote ev => exact ho.vote hi hs
  | replicate src dst prev entries => exact ho.replicate hs
  | deliverAppend src dst req now => exact ho.deliverAppend hi hs

section Runs

variable {st : NodeId → RaftState} {cfg : NodeId → EngineConfig}

/-- The invariant holds along every run from `Engine::new` on empty logs. -/
theorem orderInv_of_reachable (hid : ∀ i, (cfg i).id = i) (hempty : ∀ i, (st i).logIds = ⟨[]⟩)
    (hcom : ∀ i, (st i).committed = ⊥) (hr : ReplReachable (init st cfg) s) : s.OrderInv := by
  induction hr with
  | init =>
    refine ⟨fun i y hy => ?_, fun _ _ _ => nofun, fun l hl x _ hx => ?_⟩
    · rw [get_of_holds_init hempty (.inl ⟨i, rfl⟩)] at hy
      cases hy
    · rw [get_of_holds_init hempty hl] at hx
      cases hx
  | step hr hs ih => exact ih.step (inv_of_reachable hid hempty hcom hr) hs

end Runs

/-- Log order: in every run of elections, leader requests and deliveries
— delayed, duplicated or dropped — of a cluster whose node `i` has id `i`
and starts from `Engine::new` with an empty log, the log ids a node holds
increase with their index, and its last log id is the greatest of them. -/
theorem log_ids_increase {st : NodeId → RaftState} {cfg : NodeId → EngineConfig}
    (hid : ∀ i, (cfg i).id = i) (hempty : ∀ i, (st i).logIds = ⟨[]⟩)
    (hcom : ∀ i, (st i).committed = ⊥) (hr : ReplReachable (init st cfg) s) (a : NodeId) :
    (∀ x y : LogId, (s.nodes a).state.getLogId x.index = some x →
      (s.nodes a).state.getLogId y.index = some y → x.index < y.index → x < y) ∧
    ∀ x : LogId, (s.nodes a).state.getLogId x.index = some x → (x : WithBot LogId) ≤ (s.nodes a).state.lastLogId := by
  have hsorted := (orderInv_of_reachable hid hempty hcom hr).sorted _ (.inl ⟨a, rfl⟩)
  refine ⟨fun x y hx hy hxy => ?_, fun x hx => hsorted.le_last hx⟩
  rcases (hsorted x y hx hy hxy.le).lt_or_eq with ht | ht
  · exact LogId.lt_of_term_lt ht
  · exact LogId.lt_of_term_eq_of_index_lt ht hxy

/-- After node 1's blank entry of term 1 reached node 2, node 2 is elected
in term 2 with node 3's grant and appends its own blank entry. -/
def secondLeaderRun : List ReplEvent :=
  replicationRun ++
    [.vote (.elect 2 0),
     .vote (.deliverVoteReq 2 2 ⟨Vote.new 2 2, some ⟨⟨1, 1⟩, 0⟩⟩ 0),
     .vote (.deliverVoteResp 2 2 ⟨Vote.new 2 2, some ⟨⟨1, 1⟩, 0⟩⟩ 0),
     .vote (.deliverVoteReq 2 3 ⟨Vote.new 2 2, some ⟨⟨1, 1⟩, 0⟩⟩ 0),
     .vote (.deliverVoteResp 3 2 ⟨Vote.new 2 2, ⊥⟩ 0)]

/-- After the second election node 2 holds the blank entries of terms 1
and 2 at indexes 0 and 1, in increasing order, the second one last. -/
theorem second_leader_log_increases :
    ∃ s, (init threeVoters fun i => ⟨i, 0, 0⟩).run secondLeaderRun = some s ∧
      (s.nodes 2).state.getLogId 0 = some ⟨⟨1, 1⟩, 0⟩ ∧ (s.nodes 2).state.getLogId 1 = some ⟨⟨2, 2⟩, 1⟩ ∧
      (⟨⟨1, 1⟩, 0⟩ : LogId) < ⟨⟨2, 2⟩, 1⟩ ∧
      ((⟨⟨2, 2⟩, 1⟩ : LogId) : WithBot LogId) ≤ (s.nodes 2).state.lastLogId := by
  obtain ⟨s, hs⟩ : ∃ s, (init threeVoters fun i => ⟨i, 0, 0⟩).run secondLeaderRun = some s :=
    ⟨_, rfl⟩
  have hs' := Option.some.inj (hs.symm.trans rfl)
  have h₀ : (s.nodes 2).state.getLogId 0 = some ⟨⟨1, 1⟩, 0⟩ := by subst hs'; rfl
  have h₁ : (s.nodes 2).state.getLogId 1 = some ⟨⟨2, 2⟩, 1⟩ := by subst hs'; rfl
  have hinc := log_ids_increase (fun _ => rfl) (fun _ => rfl) (fun _ => rfl)
    (ReplReachable.init.of_run hs) 2
  exact ⟨s, hs, h₀, h₁, hinc.1 _ _ h₀ h₁ Nat.zero_lt_one, hinc.2 _ h₁⟩

end ReplCluster

end Openraft
