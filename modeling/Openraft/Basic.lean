import Mathlib.Data.Prod.Lex
import Mathlib.Data.Bool.Basic
import Mathlib.Order.WithBot

/-!
The value types every part of the engine compares: node ids, clock
readings, leader ids, log ids and votes, with the orders the engine's
guards are written against.

# Where the types come from

`engine_impl.rs` and `membership_state.rs` use `LogId`, `Vote` and the
clock through their orders only; the types themselves are declared
elsewhere in the repository and are modelled from the spec (§3 Data
model, §5 Time):

- a log id is a committed leader id (term and node, as the tests build
  it with `CommittedLeaderId::new(term, 0)`) and an index, ordered by
  `(term, index)`; the node id breaks the remaining ties so that the
  order is linear;
- a vote is a leader id and a committed flag, ordered by
  `(term, committed, voted_for)`: a committed vote outranks every
  uncommitted vote of its term;
- `Option<LogId>` is ordered as Rust orders options, `None` below every
  log id: that is `WithBot LogId`.

Terms and indexes are `u64` in the source. They are `Nat` here, and the
source files add to them in three places, each of which a debug build
checks for overflow:

- `elect`'s `last_seen_vote.leader_id().term + 1` and
  `trigger_purge_log`'s `scheduled.next_index()` are checked against
  `u64Max` in the model and panic with the overflow's message;
- `MembershipState::truncate` asserts `since >= committed.log_id.next_index()`.
  At a committed index of `u64::MAX` the addition overflows, and every
  `u64` value of `since` fails the assertion, so the model, which compares
  in `Nat`, panics on the same calls, with the assertion's message.

The handlers modelled from the spec count indexes in `Nat` as the spec
does.
-/

namespace Openraft

/-- Node ids: `u64` in the repository's tests. -/
abbrev NodeId := Nat

/-- Modelled from the spec: the injected monotonic clock (§5), read in
milliseconds on an unbounded line. -/
abbrev Instant := Int

/-- Modelled from the spec: a `Duration` in milliseconds. -/
abbrev Duration := Nat

/-- The largest `u64`: a term above it does not fit the source's type. -/
def u64Max : Nat := 18446744073709551615

-- ============================================================ leader ids

/-- Modelled from the spec: the leader id carried by votes and log ids —
the term and the node that leads it. -/
structure LeaderId where
  term : Nat
  nodeId : NodeId
  deriving Repr, DecidableEq

-- =============================================================== log ids

/-- Modelled from the spec: a log id, the leader id of the entry's term
and its index. -/
structure LogId where
  leaderId : LeaderId
  index : Nat
  deriving Repr

/-- The order key of a log id: term, then index, then node. -/
def LogId.key (l : LogId) : Nat ×ₗ Nat ×ₗ Nat :=
  toLex (l.leaderId.term, toLex (l.index, l.leaderId.nodeId))

theorem LogId.key_injective : Function.Injective LogId.key := by
  rintro ⟨⟨t, n⟩, i⟩ ⟨⟨t', n'⟩, i'⟩ h
  simp only [LogId.key, toLex_inj, Prod.mk.injEq] at h
  obtain ⟨rfl, rfl, rfl⟩ := h
  rfl

instance : LinearOrder LogId := LinearOrder.lift' LogId.key LogId.key_injective

/-- `LogId::default()`: term 0, node 0, index 0 — the id the very first
log gets at initialization. -/
def LogId.default : LogId := ⟨⟨0, 0⟩, 0⟩

/-- `LogId::new`. -/
def LogId.new (leaderId : LeaderId) (index : Nat) : LogId := ⟨leaderId, index⟩

theorem LogId.le_iff_key {a b : LogId} : a ≤ b ↔ a.key ≤ b.key := Iff.rfl

theorem LogId.lt_iff_key {a b : LogId} : a < b ↔ a.key < b.key := Iff.rfl

/-- Within one term, log ids are ordered by index first. -/
theorem LogId.lt_of_term_eq_of_index_lt {a b : LogId}
    (ht : a.leaderId.term = b.leaderId.term) (hi : a.index < b.index) : a < b := by
  rw [LogId.lt_iff_key, LogId.key, LogId.key, ht]
  exact Prod.Lex.right _ (Prod.Lex.left _ _ hi)

/-- A greater term makes a greater log id, whatever the indexes. -/
theorem LogId.lt_of_term_lt {a b : LogId} (ht : a.leaderId.term < b.leaderId.term) :
    a < b := by
  rw [LogId.lt_iff_key]
  exact Prod.Lex.left _ _ ht

/-- A greater log id has a term at least as great. -/
theorem LogId.term_le_of_le {a b : LogId} (h : a ≤ b) : a.leaderId.term ≤ b.leaderId.term :=
  ((Prod.Lex.le_iff _ _).mp h).elim le_of_lt fun h => h.1.le

-- ========================================== optional log ids (`Option<LogId>`)

/-- `LogIdOptionExt::index`: the index of an optional log id. -/
def optIndex (l : WithBot LogId) : WithBot Nat := l.map LogId.index

/-- `LogIdOptionExt::next_index`: one past the index, `0` for none. -/
def nextIndex : WithBot LogId → Nat
  | none => 0
  | some l => l.index + 1

@[simp] theorem optIndex_bot : optIndex ⊥ = ⊥ := rfl

@[simp] theorem optIndex_coe (l : LogId) : optIndex l = WithBot.some l.index := rfl

@[simp] theorem nextIndex_bot : nextIndex ⊥ = 0 := rfl

@[simp] theorem nextIndex_coe (l : LogId) : nextIndex l = l.index + 1 := rfl

/-- An index below the next index is at most the index. -/
theorem le_optIndex_of_lt_nextIndex {l : WithBot LogId} {i : Nat} (h : i < nextIndex l) :
    WithBot.some i ≤ optIndex l := by
  cases l with
  | bot => simp at h
  | coe l =>
    simp only [nextIndex_coe] at h
    exact WithBot.coe_le_coe.mpr (by omega)

/-- `Some(i) <= index` on optional indexes: `i` is at most a present index. -/
theorem coe_le_optIndex_iff {l : WithBot LogId} {i : Nat} :
    WithBot.some i ≤ optIndex l ↔ i < nextIndex l := by
  cases l with
  | bot => simp
  | coe l => simp [Nat.lt_succ_iff]

/-- An optional index is below `i` exactly when the next index is at most `i`. -/
theorem optIndex_lt_iff {l : WithBot LogId} {i : Nat} :
    optIndex l < WithBot.some i ↔ nextIndex l ≤ i := by
  rw [← not_le, coe_le_optIndex_iff, not_lt]

-- ================================================================= votes

/-- Modelled from the spec: a vote, the leader id it was granted to and
whether a quorum accepted it. -/
structure Vote where
  leaderId : LeaderId
  committed : Bool
  deriving Repr

/-- The order key of a vote: term, then committed flag, then node. -/
def Vote.key (v : Vote) : Nat ×ₗ Bool ×ₗ Nat :=
  toLex (v.leaderId.term, toLex (v.committed, v.leaderId.nodeId))

theorem Vote.key_injective : Function.Injective Vote.key := by
  rintro ⟨⟨t, n⟩, c⟩ ⟨⟨t', n'⟩, c'⟩ h
  simp only [Vote.key, toLex_inj, Prod.mk.injEq] at h
  obtain ⟨rfl, rfl, rfl⟩ := h
  rfl

instance : LinearOrder Vote := LinearOrder.lift' Vote.key Vote.key_injective

/-- `Vote::new`: an uncommitted vote for `nodeId` in `term`. -/
def Vote.new (term : Nat) (nodeId : NodeId) : Vote := ⟨⟨term, nodeId⟩, false⟩

/-- `Vote::new_committed`. -/
def Vote.newCommitted (term : Nat) (nodeId : NodeId) : Vote := ⟨⟨term, nodeId⟩, true⟩

/-- `Vote::default()`: the zero vote a fresh node starts with. -/
def Vote.default : Vote := Vote.new 0 0

/-- `Vote::commit`: the same leader id, accepted by a quorum. -/
def Vote.commit (v : Vote) : Vote := { v with committed := true }

/-- `Vote::is_committed`. -/
def Vote.isCommitted (v : Vote) : Bool := v.committed

theorem Vote.lt_iff_key {a b : Vote} : a < b ↔ a.key < b.key := Iff.rfl

/-- A vote of a greater term is greater, whoever it is for. -/
theorem Vote.lt_of_term_lt {a b : Vote} (ht : a.leaderId.term < b.leaderId.term) :
    a < b := by
  rw [Vote.lt_iff_key]
  exact Prod.Lex.left _ _ ht

/-- A greater vote has a term at least as great. -/
theorem Vote.term_le_of_le {a b : Vote} (h : a ≤ b) : a.leaderId.term ≤ b.leaderId.term :=
  ((Prod.Lex.le_iff _ _).mp h).elim le_of_lt fun h => h.1.le

/-- Committing an uncommitted vote raises it. -/
theorem Vote.lt_commit {v : Vote} (hv : v.committed = false) : v < v.commit := by
  rw [Vote.lt_iff_key, Vote.key, Vote.key, Vote.commit, hv]
  exact Prod.Lex.right _ (Prod.Lex.left _ _ Bool.false_lt_true)

/-- Committing never lowers a vote. -/
theorem Vote.le_commit (v : Vote) : v ≤ v.commit := by
  cases hv : v.committed
  · exact (Vote.lt_commit hv).le
  · exact le_of_eq (by cases v; simp_all [Vote.commit])

@[simp] theorem Vote.commit_leaderId (v : Vote) : v.commit.leaderId = v.leaderId := rfl

@[simp] theorem Vote.commit_committed (v : Vote) : v.commit.committed = true := rfl

@[simp] theorem Vote.new_leaderId (t : Nat) (n : NodeId) :
    (Vote.new t n).leaderId = ⟨t, n⟩ := rfl

@[simp] theorem Vote.new_committed (t : Nat) (n : NodeId) :
    (Vote.new t n).committed = false := rfl

-- ============================================================= panics

/-- A `do` block in the panic monad returned: so did its first computation. -/
theorem bind_eq_ok {ε α β : Type} {x : Except ε α} {f : α → Except ε β} {b : β} :
    x >>= f = .ok b ↔ ∃ a, x = .ok a ∧ f a = .ok b := by
  cases x <;> simp [bind, Except.bind]

/-- A mapped computation in the panic monad returned: so did the computation. -/
theorem map_eq_ok {ε α β : Type} {x : Except ε α} {f : α → β} {b : β} :
    x.map f = .ok b ↔ ∃ a, x = .ok a ∧ f a = b := by
  cases x <;> simp [Except.map]

end Openraft
