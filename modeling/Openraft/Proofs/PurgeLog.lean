import Openraft.Engine.Run

/-!
`trigger_purge_log`: the request to purge the log up to an index, and the
"safe unwrap" of the log id it reads there.

# When the unwrap is safe

The method does nothing without a snapshot or for an index below what is
already scheduled, and caps the index at the snapshot's last index; the
log id it then reads must be in the log. That index lies between the next
index of `purge_upto` and the snapshot's index. The log holds every index
of that range when `purge_upto` and the snapshot's last log id are log
ids of the log and nothing was purged while `purge_upto` is absent
(`last_purged_log_id <= purge_upto`). Without that condition the range
starts at 0 and reaches into the purged prefix. `next_index()` adds 1 to
the index of `purge_upto`, a `u64`: at `u64::MAX` it overflows before any
of this (`triggerPurgeLog_overflow`).

# What `purge_upto` becomes

The log id read becomes `purge_upto`; `try_purge_log` after it purges the
log but leaves `purge_upto` and the snapshot alone. Log ids of a
well-formed log are ordered as their indexes (`LogIdList.get_mono`), so
the new `purge_upto` lies between the old one and the snapshot's.
-/

namespace Openraft

namespace Engine

variable {e : Engine}

-- ================================================== purging leaves the plan

/-- Purging changes the log ids, the purged watermark and the output only. -/
theorem purgeIfPast_eq (e : Engine) (u : WithBot LogId) :
    ∃ logIds purgedNext out, e.purgeIfPast u =
      { e with state := { e.state with logIds := logIds, purgedNext := purgedNext }, output := out } := by
  cases u with
  | bot => exact ⟨_, _, _, rfl⟩
  | coe u =>
    simp only [purgeIfPast]
    split
    · exact ⟨_, _, _, rfl⟩
    · exact ⟨_, _, _, rfl⟩

/-- `try_purge_log` keeps what is scheduled. -/
@[simp] theorem tryPurgeLog_purgeUpto : e.tryPurgeLog.state.purgeUpto = e.state.purgeUpto := by
  unfold tryPurgeLog replicationTryPurgeLog purgeLog
  split
  · split <;>
    · obtain ⟨_, _, _, h⟩ := purgeIfPast_eq e _
      rw [h]
  · obtain ⟨_, _, _, h⟩ := purgeIfPast_eq e _
    rw [h]

-- ======================================================== the capped index

/-- A log id the log holds has its index at most the last one's. -/
theorem le_lastLogId_of_get {st : RaftState} {i : Nat} {x : LogId} (h : st.getLogId i = some x) :
    WithBot.some i ≤ optIndex st.lastLogId := by
  obtain ⟨⟨lst, hlst, hi⟩, -⟩ := LogIdList.get_eq_some h
  simp only [RaftState.lastLogId, LogIdList.last] at hlst ⊢
  rw [hlst]
  exact WithBot.coe_le_coe.mpr hi

/-- An index the log holds is not below the last purged one. -/
theorem lastPurged_le_of_get {st : RaftState} (hwf : st.logIds.WellFormed) {i : Nat} {x : LogId}
    (h : st.getLogId i = some x) : optIndex st.lastPurgedLogId ≤ WithBot.some i := by
  unfold RaftState.lastPurgedLogId
  split
  · exact bot_le
  · cases hf : st.logIds.first with
    | bot => exact bot_le
    | coe f => exact WithBot.coe_le_coe.mpr (LogIdList.first_index_le_of_get hwf hf h)

section Trigger

variable (index : Nat)
  (hanswers : ∀ i, optIndex e.state.lastPurgedLogId ≤ WithBot.some i →
    WithBot.some i ≤ optIndex e.state.lastLogId → (e.state.getLogId i).isSome)
  (hwf : e.state.logIds.WellFormed)
  (hpurged : e.state.lastPurgedLogId ≤ e.state.purgeUpto)
  (hps : e.state.purgeUpto ≤ e.state.snapshotLastLogId)
  (hpheld : ∀ p, e.state.purgeUpto = some p → e.state.getLogId p.index = some p)
  (hsheld : ∀ s, e.state.snapshotLastLogId = some s → e.state.getLogId s.index = some s)
  (hfits : nextIndex e.state.purgeUpto ≤ u64Max)

/-- With a snapshot, a `purge_upto` at index `u64::MAX` makes
`scheduled.next_index()` overflow, whatever the index. -/
theorem triggerPurgeLog_overflow {s : LogId} (hs : e.state.snapshotLastLogId = some s)
    (hover : u64Max < nextIndex e.state.purgeUpto) :
    e.triggerPurgeLog index = .error "attempt to add with overflow" := by
  simp [triggerPurgeLog, hs, hover]
  rfl

include hanswers hwf hpurged hps hpheld hsheld hfits in
/-- Under the log's invariants, with `purge_upto` not below the last purged
log id, its index below `u64::MAX`, and the log ids compared taken from
the log, `trigger_purge_log` never panics; afterwards `purge_upto` is at least what it was and at most
the snapshot's last log id, and nothing changes without a snapshot or for
an index below what is scheduled. -/
theorem triggerPurgeLog_safe :
    ∃ e', e.triggerPurgeLog index = .ok e' ∧
      e.state.purgeUpto ≤ e'.state.purgeUpto ∧ e'.state.purgeUpto ≤ e.state.snapshotLastLogId ∧
      (e.state.snapshotLastLogId = ⊥ ∨ index < nextIndex e.state.purgeUpto → e' = e) := by
  cases hs : e.state.snapshotLastLogId with
  | bot => exact ⟨e, by simp [triggerPurgeLog, hs]; rfl, le_rfl, hs ▸ hps, fun _ => rfl⟩
  | coe s =>
    have hno : ¬ u64Max < nextIndex e.state.purgeUpto := not_lt.mpr hfits
    by_cases hlt : index < nextIndex e.state.purgeUpto
    · exact ⟨e, by simp [triggerPurgeLog, hs, hno, hlt]; rfl, le_rfl, hs ▸ hps, fun _ => rfl⟩
    have hsl := hsheld s hs
    -- `purge_upto` is below the snapshot by index too
    have hp_le_s : ∀ p, e.state.purgeUpto = some p → p.index ≤ s.index := fun p hp => by
      by_contra hgt
      have hsp := LogIdList.get_mono hwf hsl (hpheld p hp) (by omega)
      have hps' := hps
      rw [hp, hs] at hps'
      replace hps' : p ≤ s := WithBot.coe_le_coe.mp hps'
      exact hgt (le_antisymm hps' hsp ▸ le_rfl)
    -- the index the source reads
    have hcap : (if index > s.index then s.index else index) ≤ s.index := by split <;> omega
    have hlow : ∀ p, e.state.purgeUpto = some p → p.index ≤ (if index > s.index then s.index else index) :=
      fun p hp => by
        have := hp_le_s p hp
        have hnext : nextIndex e.state.purgeUpto = p.index + 1 := by rw [hp]; rfl
        split <;> omega
    obtain ⟨logId, hget⟩ := Option.isSome_iff_exists.mp <| hanswers _ (by
        cases hp : e.state.purgeUpto with
        | bot =>
          have : e.state.lastPurgedLogId = ⊥ := le_bot_iff.mp (hp ▸ hpurged)
          simp [this]
        | coe p =>
          exact (lastPurged_le_of_get hwf (hpheld p hp)).trans (WithBot.coe_le_coe.mpr (hlow p hp)))
      ((WithBot.coe_le_coe.mpr hcap).trans (le_lastLogId_of_get hsl))
    refine ⟨(e.updatePurgeUpto logId).tryPurgeLog, by simp [triggerPurgeLog, hs, hno, hlt, hget]; rfl, ?_, ?_,
      fun h => absurd (h.resolve_left WithBot.coe_ne_bot) hlt⟩
    · rw [tryPurgeLog_purgeUpto]
      cases hp : e.state.purgeUpto with
      | bot => exact bot_le
      | coe p => exact WithBot.coe_le_coe.mpr (LogIdList.get_mono hwf (hpheld p hp) hget (hlow p hp))
    · rw [tryPurgeLog_purgeUpto]
      exact WithBot.coe_le_coe.mpr (LogIdList.get_mono hwf hget hsl hcap)

/-- A log purged up to `(1, 49)`, with the snapshot at `(1, 60)` and
`purge_upto` there too: purging up to 70 moves `purge_upto` to the
snapshot's last log id. -/
theorem triggerPurgeLog_safe_to_snapshot :
    let e := Engine.new { RaftState.default with
      purgedNext := 50, logIds := ⟨[⟨⟨1, 0⟩, 49⟩, ⟨⟨1, 0⟩, 100⟩]⟩, committed := WithBot.some ⟨⟨1, 0⟩, 70⟩,
      snapshotMeta := ⟨WithBot.some ⟨⟨1, 0⟩, 60⟩, RaftState.emptyMembership⟩,
      purgeUpto := WithBot.some ⟨⟨1, 0⟩, 49⟩ } ⟨1, 0, 0⟩
    ∃ e', e.triggerPurgeLog 70 = .ok e' ∧
      e.state.purgeUpto ≤ e'.state.purgeUpto ∧ e'.state.purgeUpto ≤ e.state.snapshotLastLogId ∧
      (e.state.snapshotLastLogId = ⊥ ∨ 70 < nextIndex e.state.purgeUpto → e' = e) :=
  triggerPurgeLog_safe 70
    (fun _ h₁ h₂ => LogIdList.get_isSome rfl rfl (WithBot.coe_le_coe.mp h₁) (WithBot.coe_le_coe.mp h₂))
    (by unfold LogIdList.WellFormed; decide) (by decide) (by decide)
    (fun _ hp => by cases hp; rfl) (fun _ hs => by cases hs; rfl) (by decide)

end Trigger

/-- The log-shape and watermark invariants allow a purged prefix while nothing is
scheduled (`purge_upto` absent): the index to purge up to then falls in
the purged prefix and the "safe" unwrap panics. -/
theorem triggerPurgeLog_panics_below_purged :
    ∃ st : RaftState,
      (∀ i, optIndex st.lastPurgedLogId ≤ WithBot.some i → WithBot.some i ≤ optIndex st.lastLogId →
        (st.getLogId i).isSome) ∧
      st.purgeUpto ≤ st.snapshotLastLogId ∧ st.snapshotLastLogId ≤ st.committed ∧
      st.committed ≤ st.lastLogId ∧
      (Engine.new st ⟨1, 0, 0⟩).triggerPurgeLog 10 =
        .error "called `Option::unwrap()` on a `None` value" :=
  ⟨{ RaftState.default with
      purgedNext := 50, logIds := ⟨[⟨⟨1, 0⟩, 49⟩, ⟨⟨1, 0⟩, 100⟩]⟩, committed := WithBot.some ⟨⟨1, 0⟩, 70⟩,
      snapshotMeta := ⟨WithBot.some ⟨⟨1, 0⟩, 60⟩, RaftState.emptyMembership⟩ },
    fun _ h₁ h₂ => LogIdList.get_isSome rfl rfl (WithBot.coe_le_coe.mp h₁) (WithBot.coe_le_coe.mp h₂),
    by decide, by decide, by decide, rfl⟩

end Engine

end Openraft
