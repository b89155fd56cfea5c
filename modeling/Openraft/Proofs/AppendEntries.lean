import Openraft.Proofs.VoteInvariant
import Openraft.Proofs.PurgeLog

/-!
The follower's side of replication: `append_entries` and the handlers it
calls, against spec §4.1 (step 3) and its round-trip rule.

# What the follower's log holds afterwards

`append_entries` takes the leader's vote, checks that the log holds
`prev_log_id`, and hands the entries to the following handler, which
skips the entries the log holds, cuts the log at the first one it does
not hold when something sits at that index, and appends the rest. Read
through `get` (`LogIdList.get_truncate`, `LogIdList.get_foldl_append`),
afterwards the log holds `prev_log_id` and every entry sent, and is
unchanged below them (`appendEntries_holds_entries`).

# Replaying it

So a second call with the same arguments finds the vote it took, the
same `prev_log_id`, and every entry held: it changes nothing and gives
the same reply (`appendEntries_replay`). A rejection is replayed as the
same rejection.

# The shape of the log

Both need the entries at consecutive indexes after `prev_log_id`, and a
log whose keys increase by index, with no hole above `committed` and
`committed` within it (`RaftState.LogShape`): otherwise an entry could be
appended past a gap, which the source's `LogIdList::append` asserts
against. Every returning call keeps that shape.

# Runs of deliveries

A leader's deliveries carry their consecutive indexes (`AppendDelivery`),
so along any run of them the shape holds at every step. No run changes
`committed` or the log up to it: an entry at or below `committed` counts
as held, so the cut is always above it (`runAppends_keeps_committed`).
And a delivery duplicated right after itself leaves the run's outcome as
it was (`runAppends_duplicate`).
-/

namespace Openraft

/-- What the follower's append path needs of the log: keys sorted by
index, every index above `committed` up to the last log id answered, and
`committed` within the log. -/
structure RaftState.LogShape (st : RaftState) : Prop where
  sorted : st.logIds.IndexSorted
  answers : ∀ i, nextIndex st.committed ≤ i → i < nextIndex st.lastLogId → (st.getLogId i).isSome
  committed_le : nextIndex st.committed ≤ nextIndex st.lastLogId

/-- The shape reads the log ids and `committed` only. -/
theorem RaftState.LogShape.congr {st st' : RaftState} (h : st.LogShape)
    (hl : st'.logIds = st.logIds) (hc : st'.committed = st.committed) : st'.LogShape where
  sorted := hl ▸ h.sorted
  answers i h₁ h₂ := by
    simpa only [RaftState.getLogId, hl] using
      h.answers i (hc ▸ h₁) (by simpa only [RaftState.lastLogId, hl] using h₂)
  committed_le := by simpa only [RaftState.lastLogId, hl, hc] using h.committed_le

/-- An index up to `committed`, or one the log answers, is within the
log. -/
theorem RaftState.LogShape.lt_nextIndex_last {st : RaftState} (h : st.LogShape) {j : Nat}
    (hj : j < nextIndex st.committed ∨ (st.getLogId j).isSome) : j < nextIndex st.lastLogId := by
  rcases hj with hj | hj
  · exact lt_of_lt_of_le hj h.committed_le
  · obtain ⟨x, hx⟩ := Option.isSome_iff_exists.mp hj
    exact coe_le_optIndex_iff.mp (Engine.le_lastLogId_of_get hx)

/-- Log ids appended at consecutive indexes from `m`, onto a log that ends
just before `m` and answers every index from `committed` up to `m`, give
a log of the shape. -/
theorem RaftState.LogShape.of_foldl_append {st st' : RaftState} {ids : List LogId} {m : Nat}
    (hne : ids ≠ []) (hs : st.logIds.IndexSorted)
    (hans : ∀ i, nextIndex st.committed ≤ i → i < m → (st.getLogId i).isSome)
    (hcm : nextIndex st.committed ≤ m) (hcons : ∀ k (hk : k < ids.length), ids[k].index = m + k)
    (hlast : ∀ lst, st.logIds.last = some lst → m = lst.index + 1)
    (hl : st'.logIds = ids.foldl LogIdList.append st.logIds) (hc : st'.committed = st.committed) :
    st'.LogShape := by
  obtain ⟨hs', hget, hbelow⟩ := LogIdList.get_foldl_append hs hcons hlast
  have hx : nextIndex st'.lastLogId = m + ids.length := by
    rw [RaftState.lastLogId, hl, LogIdList.nextIndex_last_foldl_append _ hne hcons]
  refine ⟨hl ▸ hs', fun i hi₁ hi₂ => ?_, by rw [hc, hx]; omega⟩
  rw [hx] at hi₂
  by_cases him : i < m
  · rw [RaftState.getLogId, hl, hbelow i him]
    exact hans i (hc ▸ hi₁) him
  · have hj : i - m < ids.length := by omega
    have hy := hget _ (List.getElem_mem hj)
    rw [hcons _ hj, show m + (i - m) = i by omega] at hy
    rw [RaftState.getLogId, hl, hy]
    rfl

/-- Past the last log id the log answers nothing. -/
theorem RaftState.getLogId_eq_none {st : RaftState} {i : Nat} (h : nextIndex st.lastLogId ≤ i) :
    st.getLogId i = none := by
  cases hx : st.getLogId i with
  | none => rfl
  | some x => exact absurd (coe_le_optIndex_iff.mp (Engine.le_lastLogId_of_get hx)) (not_lt.mpr h)

namespace Engine

variable {e e' : Engine} {now : Instant}

-- ================================================= the log, per handler

/-- Recording one entry appends its log id and leaves `committed`. -/
theorem appendEntryLocal_log {entry : Entry} (h : e.appendEntryLocal entry = .ok e') :
    e'.state.logIds = e.state.logIds.append entry.logId ∧ e'.state.committed = e.state.committed := by
  unfold appendEntryLocal at h
  split at h
  · cases h
    exact ⟨rfl, rfl⟩
  · obtain ⟨ms, -, h⟩ := bind_eq_ok.mp h
    cases h
    exact ⟨rfl, rfl⟩

/-- Recording entries appends their log ids in order. -/
theorem appendEntriesLocal_log {entries : List Entry} (h : e.appendEntriesLocal entries = .ok e') :
    e'.state.logIds = (entries.map (·.logId)).foldl LogIdList.append e.state.logIds ∧
      e'.state.committed = e.state.committed := by
  induction entries generalizing e with
  | nil =>
    cases h
    exact ⟨rfl, rfl⟩
  | cons entry rest ih =>
    obtain ⟨e₁, h₁, h₂⟩ := bind_eq_ok.mp h
    obtain ⟨hl₁, hc₁⟩ := appendEntryLocal_log h₁
    obtain ⟨hl₂, hc₂⟩ := ih h₂
    exact ⟨by rw [hl₂, hl₁]; rfl, hc₂.trans hc₁⟩

/-- `do_append_entries` appends the entries from `since` on. -/
theorem doAppendEntries_log {entries : List Entry} {since : Nat}
    (h : e.doAppendEntries entries since = .ok e') :
    e'.state.logIds = ((entries.drop since).map (·.logId)).foldl LogIdList.append e.state.logIds ∧
      e'.state.committed = e.state.committed := by
  unfold doAppendEntries at h
  dsimp only at h
  split at h
  · rename_i hnil
    cases h
    simp [List.isEmpty_iff.mp hnil]
  · obtain ⟨e₁, h₁, h₂⟩ := bind_eq_ok.mp h
    cases h₂
    obtain ⟨hl, hc⟩ := appendEntriesLocal_log h₁
    exact ⟨hl, hc⟩

/-- `truncate_logs` cuts the log ids at `since`. -/
theorem truncateLogs_log {since : Nat} (h : e.truncateLogs since = .ok e') :
    e'.state.logIds = e.state.logIds.truncate since ∧ e'.state.committed = e.state.committed := by
  unfold truncateLogs at h
  obtain ⟨⟨ms, changed⟩, -, h⟩ := bind_eq_ok.mp h
  cases changed <;> cases h <;> exact ⟨rfl, rfl⟩

-- ========================================================= has_log_id

/-- A log id is held up to `committed`, and above it when the log
answers it at its index. -/
theorem hasLogId_iff {st : RaftState} {x : LogId} :
    st.hasLogId x = true ↔ x.index < nextIndex st.committed ∨ st.getLogId x.index = some x := by
  unfold RaftState.hasLogId
  split_ifs with h <;> simp [h]

/-- A log id the log answers at its index is held. -/
theorem hasLogId_of_get {st : RaftState} {x : LogId} (h : st.getLogId x.index = some x) :
    st.hasLogId x = true :=
  hasLogId_iff.mpr (.inr h)

/-- `has_log_id` reads `committed` and the log id at the index only. -/
theorem hasLogId_congr {st st' : RaftState} {x : LogId} (hc : st'.committed = st.committed)
    (hg : st'.getLogId x.index = st.getLogId x.index) : st'.hasLogId x = st.hasLogId x := by
  simp only [RaftState.hasLogId, hc, hg]

-- ========================================= the following handler's append

/-- The log the following handler appends to: cut at index `n` when the
log answers there, as it was otherwise. Either way it ends just before
`n` and is unchanged below it. -/
theorem cutAt_spec {e₁ : Engine} {n : Nat} (hlog : e.state.LogShape)
    (hcommit : nextIndex e.state.committed ≤ n)
    (hreach : ∀ j, j + 1 = n → j < nextIndex e.state.lastLogId)
    (h : (if (e.state.getLogId n).isSome then e.truncateLogs n else pure e) = .ok e₁) :
    e₁.state.committed = e.state.committed ∧ e₁.state.logIds.IndexSorted ∧
      (∀ i < n, e₁.state.getLogId i = e.state.getLogId i) ∧
      ∀ lst, e₁.state.logIds.last = some lst → n = lst.index + 1 := by
  split_ifs at h with hsome
  · -- a conflicting entry: truncate at `n`
    obtain ⟨hl, hc⟩ := truncateLogs_log h
    obtain ⟨x, hx⟩ := Option.isSome_iff_exists.mp hsome
    obtain ⟨⟨lst, hlst, hle⟩, -⟩ := LogIdList.get_eq_some hx
    refine ⟨hc, hl ▸ hlog.sorted.truncate _, fun i hi => ?_, fun l' hl' => ?_⟩
    · simp only [RaftState.getLogId, hl, LogIdList.get_truncate hlog.sorted, if_pos hi]
    · exact (LogIdList.last_truncate ⟨lst, List.mem_of_getLast?_eq_some hlst, hle⟩ (hl ▸ hl')).symm
  · -- nothing at `n`: the log ends just before it
    cases h
    refine ⟨rfl, hlog.sorted, fun _ _ => rfl, fun lst hlst => ?_⟩
    have hnext : nextIndex e.state.lastLogId = lst.index + 1 := by
      rw [RaftState.lastLogId, hlst]; rfl
    have hlt : lst.index < n := by
      by_contra hge
      exact hsome (hlog.answers _ hcommit (by omega))
    have := hreach (n - 1)
    omega

/-- `FollowingHandler::append_entries` on entries at consecutive indexes
from `n`, into a log that reaches `n - 1`: `committed` stays, every entry
is held afterwards, the log below `n` and up to `committed` is as it was,
the log keeps its shape, and it ends with the entries unless nothing was
appended. -/
theorem followingAppendEntries_spec {entries : List Entry} {n : Nat}
    (hlog : e.state.LogShape)
    (hcons : ∀ k (hk : k < entries.length), entries[k].logId.index = n + k)
    (hbefore : ∀ j, j + 1 = n → j < nextIndex e.state.committed ∨ (e.state.getLogId j).isSome)
    (h : e.followingAppendEntries entries = .ok e') :
    e'.state.committed = e.state.committed ∧ (∀ entry ∈ entries, e'.state.hasLogId entry.logId) ∧
      (∀ i < max n (nextIndex e.state.committed), e'.state.getLogId i = e.state.getLogId i) ∧
      e'.state.LogShape ∧ (e' = e ∨ ∀ j, n + entries.length ≤ j → e'.state.getLogId j = none) := by
  unfold followingAppendEntries at h
  dsimp only at h
  generalize hsince : entries.findIdx (fun entry => !e.state.hasLogId entry.logId) = since at h
  split at h
  · -- every entry is held already
    rename_i hnone
    cases h
    have hlen := le_antisymm (hsince ▸ List.findIdx_le_length _) (List.get?_eq_none.mp hnone)
    refine ⟨rfl, fun entry hentry => ?_, fun _ _ => rfl, hlog, .inl rfl⟩
    simpa using List.findIdx_eq_length.mp (hsince.trans hlen) entry hentry
  rename_i first hfirst
  obtain ⟨hlt, hgetfirst⟩ := List.get?_eq_some.mp hfirst
  have hfi : first.logId.index = n + since := by rw [← hgetfirst]; exact hcons since hlt
  -- the entries before `first` are held, `first` is not
  have hheld : ∀ k (hk : k < entries.length), k < since → e.state.hasLogId entries[k].logId = true :=
    fun k _ hks => by
      have := List.not_of_lt_findIdx (hsince ▸ hks)
      rwa [Bool.not_eq_false'] at this
  have hcommit : nextIndex e.state.committed ≤ first.logId.index := by
    have hnot := @List.findIdx_getElem _ _ entries (hsince ▸ hlt)
    simp only [hsince, Bool.not_eq_true', List.get_eq_getElem] at hnot hgetfirst
    rw [hgetfirst, ← Bool.not_eq_true, hasLogId_iff] at hnot
    exact not_lt.mp fun hc => hnot (.inl hc)
  -- the log reaches the index before `first`
  have hreach : ∀ j, j + 1 = first.logId.index → j < nextIndex e.state.lastLogId := fun j hj =>
    hlog.lt_nextIndex_last <| by
      rcases Nat.eq_zero_or_pos since with h0 | hpos
      · exact hbefore j (by omega)
      · have hidx := hcons (since - 1) (by omega)
        rw [show j = entries[since - 1].logId.index by omega]
        exact (hasLogId_iff.mp (hheld (since - 1) (by omega) (by omega))).imp id fun h => by simp [h]
  have h' : (if (e.state.getLogId first.logId.index).isSome then e.truncateLogs first.logId.index
      else pure e) >>= (·.doAppendEntries entries since) = .ok e' := by
    split_ifs at h ⊢ <;> exact h
  obtain ⟨e₁, h₁, h₂⟩ := bind_eq_ok.mp h'
  obtain ⟨hc₁, hs₁, hbelow₁, hlast₁⟩ := cutAt_spec hlog hcommit hreach h₁
  obtain ⟨hl₂, hc₂⟩ := doAppendEntries_log h₂
  have hcons' : ∀ k (hk : k < ((entries.drop since).map Entry.logId).length),
      ((entries.drop since).map Entry.logId)[k].index = first.logId.index + k := fun k hk => by
    simp only [List.getElem_map, List.getElem_drop]
    rw [hcons, hfi]
    omega
  obtain ⟨-, happ, hbelow₂⟩ := LogIdList.get_foldl_append hs₁ hcons' hlast₁
  have hans₁ : ∀ i, nextIndex e₁.state.committed ≤ i → i < first.logId.index →
      (e₁.state.getLogId i).isSome := fun i hi₁ hi₂ => by
    have := hreach (first.logId.index - 1)
    rw [hbelow₁ i hi₂]
    exact hlog.answers i (hc₁ ▸ hi₁) (by omega)
  -- below `first` nothing changes
  have hkeep : ∀ i < first.logId.index, e'.state.getLogId i = e.state.getLogId i := fun i hi => by
    rw [RaftState.getLogId, hl₂, hbelow₂ i hi]
    exact hbelow₁ i hi
  have hne : (entries.drop since).map Entry.logId ≠ [] := by simp; omega
  -- the log ends with the entries
  have htail : ∀ j, n + entries.length ≤ j → e'.state.getLogId j = none := fun j hj =>
    RaftState.getLogId_eq_none (by
      rw [RaftState.lastLogId, hl₂, LogIdList.nextIndex_last_foldl_append _ hne hcons']
      simp only [List.length_map, List.length_drop]
      omega)
  refine ⟨by rw [hc₂, hc₁], fun entry hentry => ?_, fun i hi => hkeep i (by omega),
    RaftState.LogShape.of_foldl_append hne hs₁ hans₁ (hc₁ ▸ hcommit) hcons' hlast₁ hl₂ hc₂, .inr htail⟩
  obtain ⟨k, hk, rfl⟩ := List.mem_iff_getElem.mp hentry
  by_cases hks : k < since
  · -- held before, and below the cut
    have hidx := hcons k hk
    rw [hasLogId_congr (hc₂.trans hc₁) (hkeep _ (by omega))]
    exact hheld k hk hks
  · -- appended
    apply hasLogId_of_get
    rw [RaftState.getLogId, hl₂]
    refine happ _ (List.mem_map_of_mem _ ?_)
    exact List.mem_drop_iff_getElem.mpr ⟨k - since, by omega, by congr 1; omega⟩

/-- With every entry held, the following handler's append does nothing. -/
theorem followingAppendEntries_of_held {entries : List Entry}
    (h : ∀ entry ∈ entries, e.state.hasLogId entry.logId) : e.followingAppendEntries entries = .ok e := by
  have hlen : entries.findIdx (fun entry => !e.state.hasLogId entry.logId) = entries.length :=
    List.findIdx_eq_length.mpr fun x hx => by simp [h x hx]
  unfold followingAppendEntries
  simp only [hlen, List.get?_eq_none.mpr le_rfl]
  rfl

-- ======================================================== update_vote

/-- `update_vote` rejects a smaller vote and changes nothing. -/
theorem updateVote_of_lt {v : Vote} (h : v < e.state.vote) :
    e.updateVote now v = (e, .error (.byVote e.state.vote)) := by
  unfold updateVote
  rw [if_pos h]

/-- `update_vote` of the node's own vote changes nothing. -/
theorem updateVote_of_eq {v : Vote} (h : e.state.vote = v) : e.updateVote now v = (e, .ok ()) := by
  unfold updateVote
  rw [if_neg (h ▸ lt_irrefl _), if_neg (h ▸ lt_irrefl _)]

/-- `update_vote` leaves the log and `committed`. -/
@[simp] theorem updateVote_log (now : Instant) (v : Vote) :
    (e.updateVote now v).1.state.logIds = e.state.logIds ∧
      (e.updateVote now v).1.state.committed = e.state.committed := by
  unfold updateVote
  split_ifs <;> simp

-- ===================================================== append_entries

/-- `following_handler()`'s assertion reads whether there is a leader. -/
theorem followingHandler_eq (e : Engine) :
    e.followingHandler =
      if e.voting.hasLeader then throw "assertion failed: self.leader.is_none()" else pure () := by
  unfold followingHandler voting
  cases e.leader <;> rfl

/-- What a returning `append_entries` did: a smaller vote is rejected with
nothing changed; otherwise the vote is taken, the following handler's
assertion holds, and a log without `prev_log_id` is rejected, or the
entries are appended. -/
theorem appendEntries_eq_ok {vote : Vote} {prev : WithBot LogId} {entries : List Entry}
    {r : Engine × Except RejectAppendEntries Unit} (h : e.appendEntries now vote prev entries = .ok r) :
    (vote < e.state.vote ∧ r = (e, .error (.byVote e.state.vote))) ∨
      (¬ vote < e.state.vote ∧ (e.updateVote now vote).1.followingHandler = .ok () ∧
        ((∃ rej, (e.updateVote now vote).1.ensureLogConsecutive prev = .error rej ∧
            r = ((e.updateVote now vote).1, .error rej)) ∨
          ((e.updateVote now vote).1.ensureLogConsecutive prev = .ok () ∧
            ∃ e₂, (e.updateVote now vote).1.followingAppendEntries entries = .ok e₂ ∧ r = (e₂, .ok ())))) := by
  unfold appendEntries at h
  by_cases hv : vote < e.state.vote
  · rw [updateVote_of_lt hv] at h
    exact .inl ⟨hv, (Except.ok.inj h).symm⟩
  have hsnd : (e.updateVote now vote).2 = .ok () := by rw [updateVote_snd, if_neg hv]
  rw [show e.updateVote now vote = ((e.updateVote now vote).1, .ok ()) from Prod.ext rfl hsnd] at h
  obtain ⟨u, hfh, h⟩ := bind_eq_ok.mp h
  refine .inr ⟨hv, hfh, ?_⟩
  split at h
  · exact .inl ⟨_, ‹_›, (Except.ok.inj h).symm⟩
  · obtain ⟨e₂, h₂, h⟩ := bind_eq_ok.mp h
    exact .inr ⟨‹_›, e₂, h₂, (Except.ok.inj h).symm⟩

/-- What an accepted `append_entries` leaves: a log of the shape, with
`committed` and the log up to it as they were; the leader's vote; and
`prev_log_id` and every entry held, over the log below them as it was. -/
structure AppendAccepted (e e₂ : Engine) (vote : Vote) (prev : WithBot LogId) (entries : List Entry) :
    Prop where
  shape : e₂.state.LogShape
  committed : e₂.state.committed = e.state.committed
  keepsCommitted : ∀ i < nextIndex e.state.committed, e₂.state.getLogId i = e.state.getLogId i
  vote : e₂.state.vote = vote
  holdsPrev : ∀ p, prev = some p → e₂.state.hasLogId p
  holdsEntries : ∀ entry ∈ entries, e₂.state.hasLogId entry.logId
  keepsBelow : ∀ i < nextIndex prev, e₂.state.getLogId i = e.state.getLogId i
  tail : e₂.state.logIds = e.state.logIds ∨
    ∀ j, nextIndex prev + entries.length ≤ j → e₂.state.getLogId j = none

/-- The entries are appended once the vote is taken and `prev_log_id` is
held, and the call is accepted. -/
theorem appendEntries_ok_spec {vote : Vote} {prev : WithBot LogId} {entries : List Entry} {e₂ : Engine}
    (hlog : e.state.LogShape)
    (hcons : ∀ k (hk : k < entries.length), entries[k].logId.index = nextIndex prev + k)
    (hv : ¬ vote < e.state.vote) (hprev : (e.updateVote now vote).1.ensureLogConsecutive prev = .ok ())
    (h₂ : (e.updateVote now vote).1.followingAppendEntries entries = .ok e₂) :
    AppendAccepted e e₂ vote prev entries := by
  obtain ⟨hl, hc⟩ := @updateVote_log e now vote
  -- `prev_log_id` is held once the vote is taken
  have hheld : ∀ p, prev = some p → (e.updateVote now vote).1.state.hasLogId p := by
    rintro p rfl
    by_contra hp
    simp [ensureLogConsecutive, hp] at hprev
  have hbefore : ∀ j, j + 1 = nextIndex prev → j < nextIndex (e.updateVote now vote).1.state.committed ∨
      ((e.updateVote now vote).1.state.getLogId j).isSome := by
    intro j hj
    cases prev with
    | bot => exact absurd hj (Nat.succ_ne_zero j)
    | coe p =>
      obtain rfl : j = p.index := Nat.succ.inj hj
      exact (hasLogId_iff.mp (hheld p rfl)).imp id fun h => by simp [h]
  obtain ⟨hc₂, hentries, hbelow, hshape, htail⟩ :=
    followingAppendEntries_spec (hlog.congr hl hc) hcons hbefore h₂
  have hkeep : ∀ i < max (nextIndex prev) (nextIndex e.state.committed),
      e₂.state.getLogId i = e.state.getLogId i := fun i hi =>
    (hbelow i (by rwa [hc])).trans (by rw [RaftState.getLogId, hl]; rfl)
  refine ⟨hshape, hc₂.trans hc, fun i hi => hkeep i (by omega), ?_, fun p hp => ?_, hentries,
    fun i hi => hkeep i (by omega), htail.imp (fun h => by rw [h, hl]) id⟩
  · rw [show e₂.state.vote = (e.updateVote now vote).1.state.vote from
      congrArg Voting.vote (voting_followingAppendEntries h₂), updateVote_vote, max_eq_right (not_lt.mp hv)]
  · subst hp
    rw [hasLogId_congr hc₂ (hbelow p.index (Nat.lt_of_lt_of_le (Nat.lt_succ_self _) (le_max_left _ _)))]
    exact hheld p rfl

/-- `append_entries` (spec §4.1 step 3): when it accepts, the node votes
for the leader's vote and holds `prev_log_id` and every entry sent, and
its log below `prev_log_id`'s next index is as it was. -/
theorem appendEntries_holds_entries {vote : Vote} {prev : WithBot LogId} {entries : List Entry}
    {e₁ : Engine} (hlog : e.state.LogShape)
    (hcons : ∀ k (hk : k < entries.length), entries[k].logId.index = nextIndex prev + k)
    (h : e.appendEntries now vote prev entries = .ok (e₁, .ok ())) :
    e₁.state.vote = vote ∧ (∀ p, prev = some p → e₁.state.hasLogId p) ∧
      (∀ entry ∈ entries, e₁.state.hasLogId entry.logId) ∧
      ∀ i < nextIndex prev, e₁.state.getLogId i = e.state.getLogId i := by
  rcases appendEntries_eq_ok h with ⟨-, h⟩ | ⟨hv, -, ⟨rej, -, h⟩ | ⟨hprev, e₂, h₂, h⟩⟩
  · exact absurd (congrArg Prod.snd h) nofun
  · exact absurd (congrArg Prod.snd h) nofun
  · obtain ⟨rfl, -⟩ := Prod.mk.inj h
    have hacc := appendEntries_ok_spec hlog hcons hv hprev h₂
    exact ⟨hacc.vote, hacc.holdsPrev, hacc.holdsEntries, hacc.keepsBelow⟩

/-- A follower of term 1, node 3, holding `(1,0), (1,1), (1,2)` with
`(1,0)` committed. -/
def termOneFollower : Engine :=
  Engine.new
    { RaftState.default with
      vote := Vote.newCommitted 1 1
      committed := WithBot.some ⟨⟨1, 1⟩, 0⟩
      logIds := ⟨[⟨⟨1, 1⟩, 0⟩, ⟨⟨1, 1⟩, 2⟩]⟩ }
    ⟨3, 0, 0⟩

/-- Term 2's leader, node 2: its entries at indexes 2 and 3, after `(1,1)`. -/
def termTwoEntries : List Entry := [⟨⟨⟨2, 2⟩, 2⟩, .blank⟩, ⟨⟨⟨2, 2⟩, 3⟩, .normal⟩]

theorem termOneFollower_logShape : termOneFollower.state.LogShape where
  sorted := by unfold LogIdList.IndexSorted; decide
  answers _ _ h₂ := LogIdList.get_isSome rfl rfl (Nat.zero_le _) (Nat.le_of_lt_succ h₂)
  committed_le := by decide

/-- The term-1 follower accepts term 2's entries after `(1,1)`: the
conflicting `(1,2)` is cut, and it holds `(1,1)`, `(2,2)` and `(2,3)`. -/
theorem appendEntries_holds_entries_after_conflict :
    ∃ e₁, termOneFollower.appendEntries 0 (Vote.newCommitted 2 2) (WithBot.some ⟨⟨1, 1⟩, 1⟩)
        termTwoEntries = .ok (e₁, .ok ()) ∧
      e₁.state.vote = Vote.newCommitted 2 2 ∧
      (∀ p, WithBot.some ⟨⟨1, 1⟩, 1⟩ = some p → e₁.state.hasLogId p) ∧
      (∀ entry ∈ termTwoEntries, e₁.state.hasLogId entry.logId) ∧
      ∀ i < nextIndex (WithBot.some (⟨⟨1, 1⟩, 1⟩ : LogId)), e₁.state.getLogId i = termOneFollower.state.getLogId i := by
  obtain ⟨e₁, h⟩ : ∃ e₁, termOneFollower.appendEntries 0 (Vote.newCommitted 2 2)
      (WithBot.some ⟨⟨1, 1⟩, 1⟩) termTwoEntries = .ok (e₁, .ok ()) := ⟨_, rfl⟩
  exact ⟨e₁, h, appendEntries_holds_entries termOneFollower_logShape (by decide) h⟩

/-- Replaying `append_entries` with the same arguments, at any time, gives
the same engine and the same reply: a rejection by vote or by log is
rejected again, and accepted entries are all held, so nothing is
appended twice. -/
theorem appendEntries_replay {vote : Vote} {prev : WithBot LogId} {entries : List Entry}
    {r : Engine × Except RejectAppendEntries Unit} (now' : Instant) (hlog : e.state.LogShape)
    (hcons : ∀ k (hk : k < entries.length), entries[k].logId.index = nextIndex prev + k)
    (h : e.appendEntries now vote prev entries = .ok r) :
    r.1.appendEntries now' vote prev entries = .ok r := by
  rcases appendEntries_eq_ok h with ⟨hv, rfl⟩ | ⟨hv, hfh, ⟨rej, hrej, rfl⟩ | ⟨hprev, e₂, h₂, rfl⟩⟩
  · -- a smaller vote, rejected again
    unfold appendEntries
    rw [updateVote_of_lt hv]
    rfl
  · -- the vote is the node's now; `prev_log_id` is still missing
    have hvote : (e.updateVote now vote).1.state.vote = vote := by
      rw [updateVote_vote, max_eq_right (not_lt.mp hv)]
    unfold appendEntries
    rw [updateVote_of_eq hvote]
    simp only [bind, Except.bind, hfh, hrej]
    rfl
  · -- every entry is held: nothing to append
    obtain ⟨-, -, -, hvote, hprev₂, hentries, -, -⟩ := appendEntries_ok_spec hlog hcons hv hprev h₂
    have hfh₂ : e₂.followingHandler = .ok () := by
      rwa [followingHandler_eq, voting_followingAppendEntries h₂, ← followingHandler_eq]
    have hprev₂' : e₂.ensureLogConsecutive prev = .ok () := by
      cases prev with
      | bot => rfl
      | coe p => simp [ensureLogConsecutive, hprev₂ p rfl]
    unfold appendEntries
    rw [updateVote_of_eq hvote]
    simp only [bind, Except.bind, hfh₂, hprev₂', followingAppendEntries_of_held hentries]
    rfl

-- ==================================================== runs of deliveries

/-- Every returning `append_entries`, accepting or rejecting, keeps the
shape of the log, `committed`, and the log up to it. -/
theorem appendEntries_keeps_committed {vote : Vote} {prev : WithBot LogId} {entries : List Entry}
    {r : Engine × Except RejectAppendEntries Unit} (hlog : e.state.LogShape)
    (hcons : ∀ k (hk : k < entries.length), entries[k].logId.index = nextIndex prev + k)
    (h : e.appendEntries now vote prev entries = .ok r) :
    r.1.state.LogShape ∧ r.1.state.committed = e.state.committed ∧
      ∀ i < nextIndex e.state.committed, r.1.state.getLogId i = e.state.getLogId i := by
  rcases appendEntries_eq_ok h with ⟨-, rfl⟩ | ⟨hv, -, ⟨rej, -, rfl⟩ | ⟨hprev, e₂, h₂, rfl⟩⟩
  · exact ⟨hlog, rfl, fun _ _ => rfl⟩
  · obtain ⟨hl, hc⟩ := @updateVote_log e now vote
    exact ⟨hlog.congr hl hc, hc, fun i _ => by rw [RaftState.getLogId, hl]; rfl⟩
  · have hacc := appendEntries_ok_spec hlog hcons hv hprev h₂
    exact ⟨hacc.shape, hacc.committed, hacc.keepsCommitted⟩

/-- A run of deliveries continues a run of the engine: each delivery is
a `handle_append_entries` event with no channel. -/
theorem reachable_runAppends {e₀ : Engine} (hr : Reachable e₀ e) {ds : List AppendDelivery}
    (h : e.runAppends ds = .ok e') : Reachable e₀ e' := by
  induction ds generalizing e with
  | nil => cases h; exact hr
  | cons d ds ih =>
    obtain ⟨r, hd, h⟩ := bind_eq_ok.mp h
    refine ih (@Reachable.step e₀ e r.1 d.now (.handleAppendEntries d.vote d.prevLogId d.entries none)
      hr ?_) h
    simp only [step, handleAppendEntries, hd]
    rfl

/-- Deliveries split anywhere: the run goes on from where the first part
ended. -/
theorem runAppends_append (e : Engine) (ds₁ ds₂ : List AppendDelivery) :
    e.runAppends (ds₁ ++ ds₂) = e.runAppends ds₁ >>= (·.runAppends ds₂) := by
  induction ds₁ generalizing e with
  | nil => rfl
  | cons d ds₁ ih => simp only [List.cons_append, List.append_eq, runAppends, bind_assoc, ih]

/-- Every run of deliveries keeps the shape of the log. -/
theorem runAppends_logShape (hlog : e.state.LogShape) {ds : List AppendDelivery}
    (h : e.runAppends ds = .ok e') : e'.state.LogShape := by
  induction ds generalizing e with
  | nil => cases h; exact hlog
  | cons d ds ih =>
    obtain ⟨r, hd, h⟩ := bind_eq_ok.mp h
    exact ih (appendEntries_keeps_committed hlog d.consecutive hd).1 h

/-- Term 2's entries after `(1,1)`, sent by node 2. -/
def termTwoDelivery : AppendDelivery :=
  ⟨0, Vote.newCommitted 2 2, WithBot.some ⟨⟨1, 1⟩, 1⟩, termTwoEntries, by decide⟩

/-- A term-3 leader's entries from index 0, conflicting with the log at
the committed index 0 and at 1. -/
def termThreeDelivery : AppendDelivery :=
  ⟨5, Vote.newCommitted 3 3, ⊥, [⟨⟨⟨3, 3⟩, 0⟩, .blank⟩, ⟨⟨⟨3, 3⟩, 1⟩, .normal⟩], by decide⟩

/-- No run of deliveries, however conflicting, changes `committed` or the
log up to it: a follower never cuts a committed entry, and keeps the
shape of its log. -/
theorem runAppends_keeps_committed (hlog : e.state.LogShape) {ds : List AppendDelivery}
    (h : e.runAppends ds = .ok e') :
    e'.state.LogShape ∧ e'.state.committed = e.state.committed ∧
      ∀ i < nextIndex e.state.committed, e'.state.getLogId i = e.state.getLogId i := by
  induction ds generalizing e with
  | nil => cases h; exact ⟨hlog, rfl, fun _ _ => rfl⟩
  | cons d ds ih =>
    obtain ⟨r, hd, h⟩ := bind_eq_ok.mp h
    obtain ⟨hs₁, hc₁, hg₁⟩ := appendEntries_keeps_committed hlog d.consecutive hd
    obtain ⟨hs₂, hc₂, hg₂⟩ := ih hs₁ h
    exact ⟨hs₂, hc₂.trans hc₁, fun i hi => (hg₂ i (hc₁ ▸ hi)).trans (hg₁ i hi)⟩

/-- The term-1 follower given term 2's entries and then term 3's: the
entry at the committed index 0 stays `(1,0)`, while `(1,1)` is cut. -/
theorem committed_entry_survives_term_three :
    ∃ e', termOneFollower.runAppends [termTwoDelivery, termThreeDelivery] = .ok e' ∧
      e'.state.LogShape ∧ e'.state.committed = termOneFollower.state.committed ∧
      ∀ i < nextIndex termOneFollower.state.committed,
        e'.state.getLogId i = termOneFollower.state.getLogId i := by
  obtain ⟨e', h⟩ :
      ∃ e', termOneFollower.runAppends [termTwoDelivery, termThreeDelivery] = .ok e' := ⟨_, rfl⟩
  exact ⟨e', h, runAppends_keeps_committed termOneFollower_logShape h⟩

/-- A delivery delivered again right after itself, at any clock reading,
changes nothing: a run with the duplicate ends where the run without it
does, or fails as it does. -/
theorem runAppends_duplicate (hlog : e.state.LogShape) (ds₁ ds₂ : List AppendDelivery)
    (d : AppendDelivery) (now : Instant) :
    e.runAppends (ds₁ ++ d :: d.redeliver now :: ds₂) = e.runAppends (ds₁ ++ d :: ds₂) := by
  rw [runAppends_append, runAppends_append]
  cases hp : e.runAppends ds₁ with
  | error err => rfl
  | ok e₁ =>
    show e₁.runAppends (d :: d.redeliver now :: ds₂) = e₁.runAppends (d :: ds₂)
    cases hd : e₁.appendEntries d.now d.vote d.prevLogId d.entries with
    | error err => simp only [runAppends, hd]; rfl
    | ok r =>
      have hre := appendEntries_replay now (runAppends_logShape hlog hp) d.consecutive hd
      simp only [runAppends, hd, bind, Except.bind, AppendDelivery.redeliver, hre]

/-- Term 3's delivery duplicated at clock reading 9, after term 2's: the
run ends where the run without the duplicate does. -/
theorem duplicate_term_three_delivery :
    ∃ e', termOneFollower.runAppends [termTwoDelivery, termThreeDelivery] = .ok e' ∧
      termOneFollower.runAppends
        ([termTwoDelivery] ++ termThreeDelivery :: termThreeDelivery.redeliver 9 :: []) = .ok e' := by
  obtain ⟨e', h⟩ :
      ∃ e', termOneFollower.runAppends [termTwoDelivery, termThreeDelivery] = .ok e' := ⟨_, rfl⟩
  exact ⟨e', h, (runAppends_duplicate termOneFollower_logShape [termTwoDelivery] [] termThreeDelivery 9).trans h⟩


end Engine

end Openraft
