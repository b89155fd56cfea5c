import Openraft.Membership

/-!
Two properties of `MembershipState` on its own: what `update_committed`
keeps of `validate()`, and the design argument of the type's doc comment —
two stored configs are enough to follow the membership entries of the log
through any sequence of `commit`, `append` and `truncate`.

# `update_committed` and a conflicting effective config

The effective config follows a newly committed config `c` by index and
the committed one follows it by log id, as the function's comment says
it must. On a local effective config that `c` conflicts with — a greater
index but a smaller log id, the comment's `(2, 10)` against `(10, 5)` —
the two comparisons part: `c` becomes committed and the effective config
stays, below it. That is the only way the call breaks `validate()`
(`updateCommitted_keeps_order`, after `updateCommitted_conflict_not_valid`).

# The log refinement

`LogRun` runs operations on a state together with the list `L` of the
log's membership entries: `append` pushes, `truncate` deletes from `since`
on, `commit` leaves the list. Each step is taken under the assertions the
source makes of it. `LogInv` is the whole argument: `L` is in log order,
the effective config is its last entry, and the committed one is the same
entry or the one just before. `append` keeps it because it moves the
effective config into the committed slot; `truncate` keeps it because its
assertion keeps the committed entry out of the cut.
-/

namespace Openraft

namespace MembershipState

-- =================================================== update_committed

/-- The local effective config conflicts with `c`: a greater index, a
smaller log id. -/
def ConflictsWith (s : MembershipState) (c : EffectiveMembership) : Prop :=
  optIndex c.logId < optIndex s.effective.logId ∧ s.effective.logId < c.logId

/-- The function's own example: `c = (10, 5)` against a local effective
`(2, 10)` leaves a committed config after the effective one. -/
theorem updateCommitted_conflict_not_valid :
    let m : Membership := ⟨[[1]], [(1, 0)]⟩
    let s : MembershipState :=
      ⟨⟨(LogId.new ⟨1, 0⟩ 1 : LogId), m⟩, ⟨(LogId.new ⟨2, 0⟩ 10 : LogId), m⟩⟩
    let c : EffectiveMembership := ⟨(LogId.new ⟨10, 0⟩ 5 : LogId), m⟩
    s.validate ∧ s.committed.logId ≤ c.logId ∧ optIndex s.committed.logId ≤ optIndex c.logId ∧
      ∃ s' r, s.updateCommitted c = .ok (s', r) ∧ ¬ s'.validate ∧ s'.effective.logId < c.logId :=
  ⟨by decide, by decide, by decide, _, _, rfl, by decide, by decide⟩

/-- `update_committed` with a `c` not below the committed config: it panics only on a log id shared with the committed config but
not its membership; otherwise the committed config is at least `c`, the
effective one at least `c` by index, and `validate()` holds (with the
effective config at least `c`) exactly when the effective config does not
conflict with `c`. -/
theorem updateCommitted_keeps_order (s : MembershipState) (c : EffectiveMembership)
    (h1 : s.committed.logId ≤ c.logId) :
    (∀ msg, s.updateCommitted c = .error msg →
      c.logId = s.committed.logId ∧ c.membership.sameAs s.committed.membership = false) ∧
    ∀ s' r, s.updateCommitted c = .ok (s', r) →
      c.logId ≤ s'.committed.logId ∧ optIndex c.logId ≤ optIndex s'.effective.logId ∧
        optIndex s'.committed.logId ≤ optIndex s'.effective.logId ∧
        (s'.validate ↔ ¬ s.ConflictsWith c) ∧ (c.logId ≤ s'.effective.logId ↔ ¬ s.ConflictsWith c) := by
  refine ⟨fun _ h => updateCommitted_eq_error h, fun s' r h => ?_⟩
  obtain ⟨he, hc⟩ := updateCommitted_eq_ok h
  -- the committed slot always ends at `c`'s log id: `c` itself, or an equal one
  have hcl : s'.committed.logId = c.logId := by
    rw [hc]
    split_ifs with hl
    · rfl
    · exact le_antisymm h1 (not_lt.mp hl)
  simp only [ConflictsWith, validate, hcl, le_refl, true_and]
  by_cases hi : optIndex s.effective.logId ≤ optIndex c.logId
  · simp [he, if_pos hi, not_lt.mpr hi]
  · have hlt := lt_of_not_le hi
    simp [he, if_neg hi, hlt, hlt.le]

/-- On the function's own example the effective config `(2, 10)` conflicts
with `c = (10, 5)`: the call returns, and `validate()` fails. -/
theorem updateCommitted_keeps_order_comment_example :
    let m : Membership := ⟨[[1]], [(1, 0)]⟩
    let s : MembershipState :=
      ⟨⟨(LogId.new ⟨1, 0⟩ 1 : LogId), m⟩, ⟨(LogId.new ⟨2, 0⟩ 10 : LogId), m⟩⟩
    let c : EffectiveMembership := ⟨(LogId.new ⟨10, 0⟩ 5 : LogId), m⟩
    (∀ msg, s.updateCommitted c = .error msg →
      c.logId = s.committed.logId ∧ c.membership.sameAs s.committed.membership = false) ∧
    ∀ s' r, s.updateCommitted c = .ok (s', r) →
      c.logId ≤ s'.committed.logId ∧ optIndex c.logId ≤ optIndex s'.effective.logId ∧
        optIndex s'.committed.logId ≤ optIndex s'.effective.logId ∧
        (s'.validate ↔ ¬ s.ConflictsWith c) ∧ (c.logId ≤ s'.effective.logId ↔ ¬ s.ConflictsWith c) := by
  intro m s c
  exact updateCommitted_keeps_order s c (by decide)

end MembershipState

-- ================================================= the log refinement

/-- Log order on membership entries: later both as a log id and by index. -/
def Precedes (a b : EffectiveMembership) : Prop :=
  a.logId < b.logId ∧ optIndex a.logId < optIndex b.logId

instance : DecidableRel Precedes := fun _ _ => inferInstanceAs (Decidable (_ ∧ _))

theorem Precedes.trans {a b c : EffectiveMembership} (h1 : Precedes a b) (h2 : Precedes b c) :
    Precedes a c :=
  ⟨h1.1.trans h2.1, h1.2.trans h2.2⟩

/-- One call on a `MembershipState`, as the log sees it. -/
inductive MembershipOp
  | commit (committedLogId : WithBot LogId)
  | append (m : EffectiveMembership)
  | truncate (since : Nat)

namespace MembershipOp

/-- The log's membership entries after the operation: `append` pushes,
`truncate` deletes every entry whose index is `since` or more. -/
def applyLog : MembershipOp → List EffectiveMembership → List EffectiveMembership
  | .commit _, L => L
  | .append m, L => L ++ [m]
  | .truncate since, L => L.filter fun e => optIndex e.logId < WithBot.some since

/-- What the source asserts of the call: `append`'s two assertions and
`truncate`'s one; `commit` takes any log id. -/
def Allowed (s : MembershipState) : MembershipOp → Prop
  | .commit _ => True
  | .append m => s.effective.logId < m.logId ∧ optIndex s.effective.logId < optIndex m.logId
  | .truncate since => nextIndex s.committed.logId ≤ since

/-- The call on the state; a panic ends the run. -/
def run (s : MembershipState) : MembershipOp → Except String MembershipState
  | .commit c => s.commit c
  | .append m => s.append m
  | .truncate since => (s.truncate since).map Prod.fst

end MembershipOp

/-- The log's membership entries and the state a run of calls reaches. -/
inductive LogRun (start : List EffectiveMembership × MembershipState) :
    List EffectiveMembership × MembershipState → Prop
  | refl : LogRun start start
  | step {L : List EffectiveMembership} {s s' : MembershipState} {op : MembershipOp} :
      LogRun start (L, s) → op.Allowed s → op.run s = .ok s' → LogRun start (op.applyLog L, s')

/-- The refinement invariant: the log's entries in log order, the effective
config last, the committed one the same entry or the one just before. -/
structure LogInv (L : List EffectiveMembership) (s : MembershipState) : Prop where
  sorted : L.Pairwise Precedes
  last : L.getLast? = some s.effective
  adjacent : s.committed = s.effective ∨ ∃ pre, L = pre ++ [s.committed, s.effective]

namespace LogInv

variable {L : List EffectiveMembership} {s : MembershipState}

/-- The committed entry is before the effective one, or is it. -/
theorem committed_precedes (h : LogInv L s) :
    s.committed = s.effective ∨ Precedes s.committed s.effective := by
  obtain heq | ⟨pre, rfl⟩ := h.adjacent
  · exact .inl heq
  · have hs := h.sorted
    simp only [List.pairwise_append, List.pairwise_cons, List.mem_singleton] at hs
    exact .inr (hs.2.1.1 _ rfl)

theorem validate (h : LogInv L s) : s.validate := by
  rcases h.committed_precedes with heq | hp
  · exact ⟨heq ▸ le_rfl, heq ▸ le_rfl⟩
  · exact ⟨hp.1.le, hp.2.le⟩

theorem committed_mem (h : LogInv L s) : s.committed ∈ L := by
  rcases h.adjacent with heq | ⟨pre, rfl⟩
  · exact heq ▸ List.mem_of_getLast?_eq_some h.last
  · simp

/-- No entry of the log lies strictly between the committed and the
effective entries. -/
theorem not_between (h : LogInv L s) (e : EffectiveMembership) (he : e ∈ L) :
    ¬ (s.committed.logId < e.logId ∧ e.logId < s.effective.logId) := by
  rintro ⟨h1, h2⟩
  rcases h.adjacent with heq | ⟨pre, rfl⟩
  · exact absurd (h1.trans h2) (heq ▸ lt_irrefl _)
  · have hs := h.sorted
    simp only [List.pairwise_append, List.pairwise_cons, List.mem_singleton, List.mem_cons,
      List.mem_append] at hs he
    rcases he with he | rfl | rfl | he
    · exact absurd ((hs.2.2 e he _ (.inl rfl)).1.trans h1) (lt_irrefl _)
    · exact lt_irrefl _ h1
    · exact lt_irrefl _ h2
    · simp at he

/-- Every entry is at most the effective one by index. -/
theorem index_le (h : LogInv L s) (e : EffectiveMembership) (he : e ∈ L) :
    optIndex e.logId ≤ optIndex s.effective.logId := by
  obtain ⟨pre, rfl⟩ := List.getLast?_eq_some_iff.mp h.last
  have hs := h.sorted
  simp only [List.pairwise_append, List.pairwise_cons, List.mem_singleton] at hs
  rcases List.mem_append.mp he with he | he
  · exact (hs.2.2 e he _ rfl).2.le
  · rw [List.mem_singleton.mp he]

end LogInv

/-- One allowed call keeps the refinement invariant. -/
theorem logInv_step {L : List EffectiveMembership} {s s' : MembershipState} {op : MembershipOp}
    (h : LogInv L s) (ha : op.Allowed s) (hr : op.run s = .ok s') :
    LogInv (op.applyLog L) s' := by
  cases op with
  | commit c =>
    rcases MembershipState.commit_eq_ok hr with ⟨-, -, rfl⟩ | ⟨-, rfl⟩
    · exact ⟨h.sorted, h.last, .inl rfl⟩
    · exact h
  | append m =>
    obtain ⟨-, -, rfl⟩ := MembershipState.append_eq_ok hr
    obtain ⟨pre, rfl⟩ := List.getLast?_eq_some_iff.mp h.last
    have hs := h.sorted
    refine ⟨?_, by simp [MembershipOp.applyLog], .inr ⟨pre, by simp [MembershipOp.applyLog]⟩⟩
    simp only [MembershipOp.applyLog, List.pairwise_append, List.pairwise_cons,
      List.mem_singleton, List.mem_append] at hs ⊢
    refine ⟨hs, by simp, fun a ha' b hb => hb ▸ ?_⟩
    rcases ha' with ha' | rfl
    · exact (hs.2.2 a ha' _ rfl).trans ha
    · exact ha
  | truncate since =>
    have hc : optIndex s.committed.logId < WithBot.some since := optIndex_lt_iff.mpr ha
    simp only [MembershipOp.run, MembershipState.truncate_of_le ha] at hr
    have hsorted := h.sorted.filter fun e => decide (optIndex e.logId < WithBot.some since)
    split_ifs at hr with hle
    · -- the effective entry is cut: it is not the committed one, which stays last
      cases hr
      obtain heq | ⟨pre, hL⟩ := h.adjacent
      · exact absurd (heq ▸ hc) (not_lt.mpr hle)
      subst hL
      have hs := h.sorted
      simp only [List.pairwise_append, List.pairwise_cons, List.mem_singleton] at hs
      have hpre : pre.filter (fun e => decide (optIndex e.logId < WithBot.some since)) = pre :=
        List.filter_eq_self.mpr fun x hx => decide_eq_true ((hs.2.2 x hx _ (by simp)).2.trans hc)
      have hcut : MembershipOp.applyLog (.truncate since) (pre ++ [s.committed, s.effective]) =
          pre ++ [s.committed] := by
        simp [MembershipOp.applyLog, List.filter_append, hpre, hc, not_lt.mpr hle]
      exact ⟨hsorted, by rw [hcut]; simp, .inl rfl⟩
    · -- nothing is cut: every entry is at or below the effective index
      cases hr
      have hkeep : MembershipOp.applyLog (.truncate since) L = L :=
        List.filter_eq_self.mpr fun x hx =>
          decide_eq_true ((h.index_le x hx).trans_lt (lt_of_not_le hle))
      rw [hkeep]
      exact h

/-- `truncate` from an invariant state: it returns the old committed config
exactly when the effective entry is cut, and makes it the effective one. -/
theorem LogInv.truncate_spec {L : List EffectiveMembership} {s : MembershipState}
    (h : LogInv L s) {since : Nat} (ha : nextIndex s.committed.logId ≤ since) :
    ∃ r, s.truncate since = .ok r ∧
      (r.2.isSome ↔ s.effective ∉ (MembershipOp.truncate since).applyLog L) ∧
      ∀ e, r.2 = some e → e = s.committed ∧ r.1.effective = s.committed := by
  have hmem := List.mem_of_getLast?_eq_some h.last
  refine ⟨_, MembershipState.truncate_of_le ha, ?_, fun e he => ?_⟩
  · simp only [MembershipOp.applyLog, List.mem_filter, hmem, true_and, decide_eq_true_eq,
      not_lt]
    split_ifs with hle <;> simp [hle]
  · -- the `None` branch was closed by `split_ifs`
    split_ifs at he
    simp_all

/-- Every state a run reaches keeps the invariant. -/
theorem logInv_of_logRun {start p : List EffectiveMembership × MembershipState}
    (h0 : LogInv start.1 start.2) (hrun : LogRun start p) : LogInv p.1 p.2 := by
  induction hrun with
  | refl => exact h0
  | step _ ha hr ih => exact logInv_step ih ha hr

/-- Two configs follow the log: from entries in log order with the effective
config last and the committed one last or just before it, every run of
`commit`, `append` and `truncate` under the source's assertions keeps the
effective config last, the committed one an entry with nothing between the
two, `validate()` true, and `truncate` returning the old committed config,
now effective, exactly when it cuts the effective entry. -/
theorem membershipState_tracks_log {L₀ : List EffectiveMembership} {s₀ : MembershipState}
    (hsorted : L₀.Pairwise Precedes) (hlast : L₀.getLast? = some s₀.effective)
    (hcom : s₀.committed = s₀.effective ∨ ∃ pre, L₀ = pre ++ [s₀.committed, s₀.effective])
    {L : List EffectiveMembership} {s : MembershipState} (hrun : LogRun (L₀, s₀) (L, s)) :
    L.getLast? = some s.effective ∧ s.committed ∈ L ∧
      (∀ e ∈ L, ¬ (s.committed.logId < e.logId ∧ e.logId < s.effective.logId)) ∧ s.validate ∧
      ∀ since, nextIndex s.committed.logId ≤ since → ∃ r, s.truncate since = .ok r ∧
        (r.2.isSome ↔ s.effective ∉ (MembershipOp.truncate since).applyLog L) ∧
        ∀ e, r.2 = some e → e = s.committed ∧ r.1.effective = s.committed := by
  have h : LogInv L s := @logInv_of_logRun (L₀, s₀) (L, s) ⟨hsorted, hlast, hcom⟩ hrun
  exact ⟨h.last, h.committed_mem, h.not_between, h.validate, fun _ ha => h.truncate_spec ha⟩

/-- The refinement after a run from one config that appends `(2, 5)`,
commits it, appends `(3, 8)`, truncates from index 7 (cutting that entry,
so the committed config is effective again) and appends `(4, 7)`. -/
theorem membershipState_tracks_log_through_cut :
    let m : Membership := ⟨[[1]], [(1, 0)]⟩
    let e₁ : EffectiveMembership := ⟨(LogId.new ⟨1, 1⟩ 1 : LogId), m⟩
    let e₂ : EffectiveMembership := ⟨(LogId.new ⟨2, 1⟩ 5 : LogId), m⟩
    let e₄ : EffectiveMembership := ⟨(LogId.new ⟨4, 1⟩ 7 : LogId), m⟩
    [e₁, e₂, e₄].getLast? = some e₄ ∧ e₂ ∈ [e₁, e₂, e₄] ∧
      (∀ e ∈ [e₁, e₂, e₄], ¬ (e₂.logId < e.logId ∧ e.logId < e₄.logId)) ∧
      (MembershipState.mk e₂ e₄).validate ∧
      ∀ since, nextIndex e₂.logId ≤ since → ∃ r, (MembershipState.mk e₂ e₄).truncate since = .ok r ∧
        (r.2.isSome ↔ e₄ ∉ (MembershipOp.truncate since).applyLog [e₁, e₂, e₄]) ∧
        ∀ e, r.2 = some e → e = e₂ ∧ r.1.effective = e₂ := by
  intro m e₁ e₂ e₄
  let e₃ : EffectiveMembership := ⟨(LogId.new ⟨3, 1⟩ 8 : LogId), m⟩
  have h₁ : LogRun ([e₁], ⟨e₁, e₁⟩) ([e₁, e₂], ⟨e₁, e₂⟩) :=
    @LogRun.step _ [e₁] _ _ (.append e₂) .refl ⟨by decide, by decide⟩ rfl
  have h₂ : LogRun ([e₁], ⟨e₁, e₁⟩) ([e₁, e₂], ⟨e₂, e₂⟩) :=
    @LogRun.step _ _ _ _ (.commit e₂.logId) h₁ trivial rfl
  have h₃ : LogRun ([e₁], ⟨e₁, e₁⟩) ([e₁, e₂, e₃], ⟨e₂, e₃⟩) :=
    @LogRun.step _ _ _ _ (.append e₃) h₂ ⟨by decide, by decide⟩ rfl
  have h₄ : LogRun ([e₁], ⟨e₁, e₁⟩) ([e₁, e₂], ⟨e₂, e₂⟩) :=
    @LogRun.step _ _ _ _ (.truncate 7) h₃ (by decide : nextIndex e₂.logId ≤ 7) rfl
  exact @membershipState_tracks_log [e₁] ⟨e₁, e₁⟩ (List.pairwise_singleton _ _) rfl (.inl rfl) _ _
    (@LogRun.step _ _ _ _ (.append e₄) h₄ ⟨by decide, by decide⟩ rfl)

end Openraft
