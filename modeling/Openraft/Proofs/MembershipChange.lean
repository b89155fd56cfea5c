import Mathlib.Logic.Relation
import Openraft.Membership

/-!
At most one uncommitted membership entry on a leader: the Raft rule that
`append`'s unconditional `committed = effective` relies on.

# The run

A leader proposes membership changes and learns how far its log is
committed. `LeaderStep` runs a `MembershipState` together with that
commit watermark `w` and the membership entries the leader appended:

- `propose`: `next_membership` returns `Ok(m)` and the config is appended
  at a log id above the effective one (as a log id and by index) and
  above `w` — a fresh entry of the leader's log;
- `refuse`: `next_membership` returns an error and nothing is appended;
- `commit`: `w` grows to `w'` and `commit(&w')` runs.

# The invariant

`LeaderInv`: the committed config is at or below `w`; every appended entry
is at or below the effective one, in increasing order; and an appended
entry above `w` is the effective one. `propose` keeps it because
`next_membership`'s `InProgress` refusal lets it through only when the
effective config is the committed one, so at or below `w`; `commit` keeps
it because `w` only grows and `commit` moves the committed slot only to an
effective config it reaches.
-/

namespace Openraft

/-- A leader's membership state, its commit watermark, and the membership
entries it appended. -/
structure LeaderMembership where
  state : MembershipState
  watermark : WithBot LogId
  appended : List EffectiveMembership

/-- One step of the leader-side run; `nextSafe` is `Membership::next_safe`. -/
inductive LeaderStep (nextSafe : Membership → List NodeId → Bool → Membership) :
    LeaderMembership → LeaderMembership → Prop
  | propose {v : LeaderMembership} {changes : ChangeMembers} {removedToLearner : Bool}
      {m : Membership} {l : LogId} {s' : MembershipState} :
      v.state.nextMembership nextSafe changes removedToLearner = .ok (.ok m) →
      v.state.effective.logId < l → optIndex v.state.effective.logId < WithBot.some l.index →
      v.watermark < l → v.state.append ⟨l, m⟩ = .ok s' →
      LeaderStep nextSafe v ⟨s', v.watermark, v.appended ++ [⟨l, m⟩]⟩
  | refuse {v : LeaderMembership} {changes : ChangeMembers} {removedToLearner : Bool}
      {err : ChangeMembershipError} :
      v.state.nextMembership nextSafe changes removedToLearner = .ok (.error err) →
      LeaderStep nextSafe v v
  | commit {v : LeaderMembership} {w' : WithBot LogId} {s' : MembershipState} :
      v.watermark ≤ w' → v.state.commit w' = .ok s' →
      LeaderStep nextSafe v ⟨s', w', v.appended⟩

/-- The run invariant of the module doc. -/
structure LeaderInv (v : LeaderMembership) : Prop where
  committed_le : v.state.committed.logId ≤ v.watermark
  le_effective : ∀ x ∈ v.appended, x.logId ≤ v.state.effective.logId
  increasing : v.appended.Pairwise fun a b => a.logId < b.logId
  above_is_effective : ∀ x ∈ v.appended, v.watermark < x.logId → x = v.state.effective

/-- While the invariant holds, a proposal gets through only when every
appended entry is at or below the watermark. -/
theorem LeaderInv.all_le_of_nextMembership {v : LeaderMembership} (h : LeaderInv v)
    {nextSafe : Membership → List NodeId → Bool → Membership} {changes : ChangeMembers}
    {removedToLearner : Bool} {m : Membership}
    (hn : v.state.nextMembership nextSafe changes removedToLearner = .ok (.ok m)) :
    v.state.effective.logId ≤ v.watermark ∧ ∀ x ∈ v.appended, x.logId ≤ v.watermark := by
  have he : v.state.effective.logId ≤ v.watermark :=
    MembershipState.nextMembership_eq_ok hn ▸ h.committed_le
  exact ⟨he, fun x hx => (h.le_effective x hx).trans he⟩

/-- A list increasing by log id whose entries are all one config has at
most one entry. -/
private theorem length_le_one_of_increasing {l : List EffectiveMembership}
    {e : EffectiveMembership} (hp : l.Pairwise fun a b => a.logId < b.logId)
    (hall : ∀ x ∈ l, x = e) : l.length ≤ 1 := by
  rcases l with _ | ⟨a, _ | ⟨b, l⟩⟩
  · simp
  · simp
  · have hab := List.rel_of_pairwise_cons hp (List.mem_cons_self b _)
    rw [hall a (by simp), hall b (by simp)] at hab
    exact absurd hab (lt_irrefl _)

/-- Entries above the watermark: at most one. -/
theorem LeaderInv.length_above_le_one {v : LeaderMembership} (h : LeaderInv v) :
    (v.appended.filter fun x => v.watermark < x.logId).length ≤ 1 :=
  length_le_one_of_increasing (h.increasing.filter _) fun x hx => by
    obtain ⟨hx, hw⟩ := List.mem_filter.mp hx
    exact h.above_is_effective x hx (of_decide_eq_true hw)

/-- One leader step keeps the invariant. -/
theorem leaderInv_step {nextSafe : Membership → List NodeId → Bool → Membership}
    {v v' : LeaderMembership} (h : LeaderInv v) (hs : LeaderStep nextSafe v v') :
    LeaderInv v' := by
  cases hs with
  | propose hn hl _ hw ha =>
    obtain ⟨-, -, rfl⟩ := MembershipState.append_eq_ok ha
    obtain ⟨he, hall⟩ := h.all_le_of_nextMembership hn
    refine ⟨he, fun x hx => ?_, ?_, fun x hx hx' => ?_⟩
    · rcases List.mem_append.mp hx with hx | hx
      · exact (h.le_effective x hx).trans hl.le
      · rw [List.mem_singleton.mp hx]
    · refine List.pairwise_append.mpr ⟨h.increasing, by simp, fun a ha b hb => ?_⟩
      rw [List.mem_singleton.mp hb]
      exact (h.le_effective a ha).trans_lt hl
    · rcases List.mem_append.mp hx with hx | hx
      · exact absurd hx' (not_lt.mpr (hall x hx))
      · exact List.mem_singleton.mp hx
  | refuse _ => exact h
  | commit hw hc =>
    rcases MembershipState.commit_eq_ok hc with ⟨he, -, rfl⟩ | ⟨-, rfl⟩
    · exact ⟨he, h.le_effective, h.increasing,
        fun x hx hx' => h.above_is_effective x hx (lt_of_le_of_lt hw hx')⟩
    · exact ⟨h.committed_le.trans hw, h.le_effective, h.increasing,
        fun x hx hx' => h.above_is_effective x hx (lt_of_le_of_lt hw hx')⟩

/-- On a leader that starts with its effective config committed and at or
below the watermark, every state of the run has the committed config at or
below the watermark and at most one appended entry above it, the effective
one; and `next_membership` returns `Ok` only when no appended entry is
above the watermark. -/
theorem leader_one_uncommitted_membership
    (nextSafe : Membership → List NodeId → Bool → Membership)
    {s₀ : MembershipState} {w₀ : WithBot LogId}
    (h0 : s₀.committed.logId = s₀.effective.logId) (hw : s₀.effective.logId ≤ w₀)
    {v : LeaderMembership} (hrun : Relation.ReflTransGen (LeaderStep nextSafe) ⟨s₀, w₀, []⟩ v) :
    v.state.committed.logId ≤ v.watermark ∧
      (v.appended.filter fun x => v.watermark < x.logId).length ≤ 1 ∧
      (∀ x ∈ v.appended, v.watermark < x.logId → x = v.state.effective) ∧
      ∀ changes removedToLearner m,
        v.state.nextMembership nextSafe changes removedToLearner = .ok (.ok m) →
        ∀ x ∈ v.appended, x.logId ≤ v.watermark := by
  have hinv : LeaderInv v := by
    induction hrun with
    | refl => exact ⟨h0 ▸ hw, by simp, List.Pairwise.nil, by simp⟩
    | tail _ hs ih => exact leaderInv_step ih hs
  exact ⟨hinv.committed_le, hinv.length_above_le_one, hinv.above_is_effective,
    fun _ _ _ hn => (hinv.all_le_of_nextMembership hn).2⟩

/-- The run's invariant after a leader whose config `(1, 3)` is committed
proposes a config at `(1, 4)`, has a second proposal refused while that one
is in progress, and commits it. -/
theorem leader_one_uncommitted_membership_after_commit :
    let m : Membership := ⟨[[1]], [(1, 0)]⟩
    let f : EffectiveMembership := ⟨(LogId.new ⟨1, 1⟩ 4 : LogId), m⟩
    let v : LeaderMembership := ⟨⟨f, f⟩, f.logId, [f]⟩
    v.state.committed.logId ≤ v.watermark ∧
      (v.appended.filter fun x => v.watermark < x.logId).length ≤ 1 ∧
      (∀ x ∈ v.appended, v.watermark < x.logId → x = v.state.effective) ∧
      ∀ changes removedToLearner m,
        v.state.nextMembership (fun m _ _ => m) changes removedToLearner = .ok (.ok m) →
        ∀ x ∈ v.appended, x.logId ≤ v.watermark := by
  intro m f v
  let e : EffectiveMembership := ⟨(LogId.new ⟨1, 1⟩ 3 : LogId), m⟩
  let changes : ChangeMembers := ⟨fun _ => [1]⟩
  have h₁ : LeaderStep (fun m _ _ => m) ⟨⟨e, e⟩, e.logId, []⟩ ⟨⟨e, f⟩, e.logId, [f]⟩ :=
    @LeaderStep.propose _ ⟨⟨e, e⟩, e.logId, []⟩ changes false m (LogId.new ⟨1, 1⟩ 4) ⟨e, f⟩
      rfl (by decide) (by decide) (by decide) rfl
  have h₂ : LeaderStep (fun m _ _ => m) ⟨⟨e, f⟩, e.logId, [f]⟩ ⟨⟨e, f⟩, e.logId, [f]⟩ :=
    @LeaderStep.refuse _ ⟨⟨e, f⟩, e.logId, [f]⟩ changes false (.inProgress e.logId f.logId) rfl
  have h₃ : LeaderStep (fun m _ _ => m) ⟨⟨e, f⟩, e.logId, [f]⟩ v :=
    @LeaderStep.commit _ ⟨⟨e, f⟩, e.logId, [f]⟩ f.logId ⟨f, f⟩ (by decide) rfl
  exact @leader_one_uncommitted_membership (fun m _ _ => m) ⟨e, e⟩ e.logId rfl le_rfl _
    (((Relation.ReflTransGen.single h₁).tail h₂).tail h₃)

end Openraft
