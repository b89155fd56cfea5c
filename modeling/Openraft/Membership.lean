import Openraft.Basic

/-!
`membership_state.rs`: the two membership configs a node keeps, the
committed one and the effective (last appended) one, and the transitions
that move them.

# What is translated and what is a parameter

`MembershipState` and its methods are translated from the source as a
debug build runs them: each `debug_assert!` is a panic. Their `Result`s
are kept as values inside the panic monad `Except String`, whose error is
the panic's message.

`Membership`, `EffectiveMembership` and `ChangeMembers` are declared
outside `src/`. `Membership` is modelled from the spec (§3: joint voter
sets, learners, a node map; `is_voter(n)` iff `n` is in every voter
set). Its voter sets and node map are lists; where the source compares two
configs, in `update_committed`, they compare as the crate's `BTreeSet`s
and `BTreeMap` do (`Membership.sameAs`). `ChangeMembers` and
`Membership::next_safe` are taken as they are used: a change is the voter
set its `apply_to` makes of the last config, and `next_safe` is a
parameter of `next_membership`.
-/

namespace Openraft

/-- Modelled from the spec: a membership config — the joint voter sets
(one set when stable, two during a change) and the node map, a node's
endpoint standing for its `Node` value. -/
structure Membership where
  configs : List (List NodeId)
  nodes : List (NodeId × Nat)
  deriving Repr, DecidableEq

namespace Membership

/-- `Membership::get_joint_config`. -/
def getJointConfig (m : Membership) : List (List NodeId) := m.configs

/-- Modelled from the spec: `is_voter(n)`, `n` is in every voter set. -/
def isVoter (m : Membership) (id : NodeId) : Bool := m.configs.all fun c => c.contains id

/-- `Membership::contains`: `id` has an entry in the node map. -/
def contains (m : Membership) (id : NodeId) : Bool := m.nodes.any fun n => n.1 == id

/-- `Membership::get_node`. -/
def getNode (m : Membership) (id : NodeId) : Option Nat := m.nodes.lookup id

/-- `Membership::learner_ids`: the nodes that are not voters. -/
def learnerIds (m : Membership) : List NodeId :=
  (m.nodes.map Prod.fst).filter fun n => !m.isVoter n

/-- `Membership::to_quorum_set`: the joint voter sets a grant is counted in. -/
def toQuorumSet (m : Membership) : List (List NodeId) := m.configs

/-- Two lists holding the same elements, in any order and with any
repetition: how two `BTreeSet`s, or the entries of two `BTreeMap`s, compare. -/
def sameElems {α : Type} [BEq α] (l l' : List α) : Bool := l.all l'.contains && l'.all l.contains

/-- `Membership`'s derived `PartialEq`, over the crate's collections: the
voter sets (a `Vec` of `BTreeSet`s) compare position by position as sets,
and the node maps (`BTreeMap`s) by their entries. -/
def sameAs (m m' : Membership) : Bool :=
  m.configs.length == m'.configs.length &&
    (m.configs.zip m'.configs).all (fun p => sameElems p.1 p.2) && sameElems m.nodes m'.nodes

end Membership

/-- Modelled from the spec: a membership config and the log id of the
entry that carries it. -/
structure EffectiveMembership where
  logId : WithBot LogId
  membership : Membership
  deriving Repr, DecidableEq

/-- `EffectiveMembership::contains`. -/
def EffectiveMembership.contains (em : EffectiveMembership) (id : NodeId) : Bool :=
  em.membership.contains id

/-- `ChangeMembers`, through its one use in `next_membership`: the voter
set its `apply_to` makes of the last config. -/
structure ChangeMembers where
  applyTo : List NodeId → List NodeId

/-- `ChangeMembershipError`, the three refusals of `next_membership`. -/
inductive ChangeMembershipError
  | emptyMembership
  | learnerNotFound (nodeId : NodeId)
  | inProgress (committed membershipLogId : WithBot LogId)
  deriving Repr, DecidableEq

/-- `MembershipState`: the committed and the effective membership. -/
structure MembershipState where
  committed : EffectiveMembership
  effective : EffectiveMembership
  deriving Repr, DecidableEq

namespace MembershipState

/-- `MembershipState::is_voter`: read from the effective config. -/
def isVoter (s : MembershipState) (id : NodeId) : Bool := s.effective.membership.isVoter id

/-- `MembershipState::next_membership`: the config a change proposes,
refused when it leaves no voter, names a voter with no node, or while the
effective config is not committed. `nextSafe` is `Membership::next_safe`. -/
def nextMembership (nextSafe : Membership → List NodeId → Bool → Membership)
    (s : MembershipState) (changes : ChangeMembers) (removedToLearner : Bool) :
    Except String (Except ChangeMembershipError Membership) :=
  match s.effective.membership.getJointConfig.getLast? with
  | none => throw "called `Option::unwrap()` on a `None` value"
  | some last =>
    let newVoterIds := changes.applyTo last
    if newVoterIds.isEmpty then pure (.error .emptyMembership)
    else
      match newVoterIds.find? fun n => !s.effective.contains n with
      | some n => pure (.error (.learnerNotFound n))
      | none =>
        if s.committed.logId = s.effective.logId then
          pure (.ok (nextSafe s.effective.membership newVoterIds removedToLearner))
        else pure (.error (.inProgress s.committed.logId s.effective.logId))

/-- `MembershipState::commit`: the effective config becomes committed once
the committed log id reaches it. -/
def commit (s : MembershipState) (committedLogId : WithBot LogId) :
    Except String MembershipState :=
  if s.effective.logId ≤ committedLogId then
    if optIndex s.effective.logId ≤ optIndex committedLogId then
      pure { s with committed := s.effective }
    else throw "assertion failed: committed_log_id.index() >= self.effective().log_id.index()"
  else pure s

/-- `MembershipState::update_committed`: a committed config `c` was found;
it replaces the effective one when its index is not smaller, and the
committed one when its log id is greater. Returns the new effective
config when its membership changed. -/
def updateCommitted (s : MembershipState) (c : EffectiveMembership) :
    Except String (MembershipState × Option EffectiveMembership) :=
  let byIndex := decide (optIndex s.effective.logId ≤ optIndex c.logId)
  let changed := byIndex && !c.membership.sameAs s.effective.membership
  let effective := if byIndex then c else s.effective
  if c.logId = s.committed.logId ∧ c.membership.sameAs s.committed.membership = false then
    throw "the same log id implies the same membership"
  else
    let committed := if s.committed.logId < c.logId then c else s.committed
    pure (⟨committed, effective⟩, if changed then some effective else none)

/-- `MembershipState::append`: a new config after the effective one; the
effective one becomes the committed one. -/
def append (s : MembershipState) (m : EffectiveMembership) : Except String MembershipState :=
  if ¬ s.effective.logId < m.logId then throw "new membership has to have a greater log_id"
  else if ¬ optIndex s.effective.logId < optIndex m.logId then
    throw "new membership has to have a greater index"
  else pure { committed := s.effective, effective := m }

/-- `MembershipState::truncate`: the log is cut from `since` on; an
effective config in the cut part reverts to the committed one, which is
returned. -/
def truncate (s : MembershipState) (since : Nat) :
    Except String (MembershipState × Option EffectiveMembership) :=
  if since < nextIndex s.committed.logId then
    throw "committed log should never be truncated: committed membership can not conflict with the leader"
  else if WithBot.some since ≤ optIndex s.effective.logId then
    pure ({ s with effective := s.committed }, some s.committed)
  else pure (s, none)

/-- `Validate for MembershipState`: committed is not after effective, as a
log id and by index. -/
def validate (s : MembershipState) : Prop :=
  s.committed.logId ≤ s.effective.logId ∧ optIndex s.committed.logId ≤ optIndex s.effective.logId

instance : DecidablePred validate := fun _ => inferInstanceAs (Decidable (_ ∧ _))

-- ===================================================== one spec per method

/-- `next_membership` proposes only when the effective config is the
committed one. -/
theorem nextMembership_eq_ok {nextSafe : Membership → List NodeId → Bool → Membership}
    {s : MembershipState} {changes : ChangeMembers} {removedToLearner : Bool} {m : Membership}
    (h : s.nextMembership nextSafe changes removedToLearner = .ok (.ok m)) :
    s.committed.logId = s.effective.logId := by
  by_contra hc
  unfold nextMembership at h
  split at h
  · cases h
  · simp only [hc, if_false] at h
    split_ifs at h
    · cases h
    · split at h <;> cases h

/-- What `commit` does, when it does not panic. -/
theorem commit_eq_ok {s s' : MembershipState} {c : WithBot LogId} (h : s.commit c = .ok s') :
    (s.effective.logId ≤ c ∧ optIndex s.effective.logId ≤ optIndex c ∧
        s' = { s with committed := s.effective }) ∨
      (¬ s.effective.logId ≤ c ∧ s' = s) := by
  unfold commit at h
  split_ifs at h with h1 h2
  · exact .inl ⟨h1, h2, (Except.ok.inj h).symm⟩
  · exact .inr ⟨h1, (Except.ok.inj h).symm⟩

/-- What `append` does, when it does not panic. -/
theorem append_eq_ok {s s' : MembershipState} {m : EffectiveMembership}
    (h : s.append m = .ok s') :
    s.effective.logId < m.logId ∧ optIndex s.effective.logId < optIndex m.logId ∧
      s' = ⟨s.effective, m⟩ := by
  unfold append at h
  split_ifs at h with h1 h2
  exact ⟨h1, h2, (Except.ok.inj h).symm⟩

/-- `append` under its two assertions. -/
theorem append_of_lt {s : MembershipState} {m : EffectiveMembership}
    (h1 : s.effective.logId < m.logId) (h2 : optIndex s.effective.logId < optIndex m.logId) :
    s.append m = .ok ⟨s.effective, m⟩ := by
  rw [append, if_neg (not_not.mpr h1), if_neg (not_not.mpr h2)]
  rfl

/-- What `truncate` does, when it does not panic. -/
theorem truncate_eq_ok {s : MembershipState} {since : Nat} {r}
    (h : s.truncate since = .ok r) :
    nextIndex s.committed.logId ≤ since ∧
      (WithBot.some since ≤ optIndex s.effective.logId ∧
          r = ({ s with effective := s.committed }, some s.committed) ∨
        ¬ WithBot.some since ≤ optIndex s.effective.logId ∧ r = (s, none)) := by
  unfold truncate at h
  split_ifs at h with h1 h2
  · exact ⟨not_lt.mp h1, .inl ⟨h2, (Except.ok.inj h).symm⟩⟩
  · exact ⟨not_lt.mp h1, .inr ⟨h2, (Except.ok.inj h).symm⟩⟩

/-- `truncate` under its assertion. -/
theorem truncate_of_le {s : MembershipState} {since : Nat}
    (h : nextIndex s.committed.logId ≤ since) :
    s.truncate since = .ok (if WithBot.some since ≤ optIndex s.effective.logId then
      ({ s with effective := s.committed }, some s.committed) else (s, none)) := by
  unfold truncate
  rw [if_neg (not_lt.mpr h)]
  split_ifs <;> rfl

/-- When `update_committed` panics: `c` has the committed config's log id
but another membership. -/
theorem updateCommitted_eq_error {s : MembershipState} {c : EffectiveMembership} {msg : String}
    (h : s.updateCommitted c = .error msg) :
    c.logId = s.committed.logId ∧ c.membership.sameAs s.committed.membership = false := by
  by_contra hc
  simp only [updateCommitted, if_neg hc] at h
  cases h

/-- What `update_committed` does, when it does not panic: the effective
config follows `c` by index, the committed one follows it by log id. -/
theorem updateCommitted_eq_ok {s s' : MembershipState} {c : EffectiveMembership} {r}
    (h : s.updateCommitted c = .ok (s', r)) :
    s'.effective = (if optIndex s.effective.logId ≤ optIndex c.logId then c else s.effective) ∧
      s'.committed = (if s.committed.logId < c.logId then c else s.committed) := by
  by_cases hc : c.logId = s.committed.logId ∧ c.membership.sameAs s.committed.membership = false
  · simp only [updateCommitted, if_pos hc] at h
    cases h
  · simp only [updateCommitted, if_neg hc] at h
    cases h
    simp

end MembershipState

end Openraft
