import Openraft.Engine.Impl

/-!
Runs of one engine: the events its runtime can feed it, with any
arguments and any clock readings, from `Engine::new` on.

An event whose method panics ends the run: `Reachable` only extends by
steps that return. Return values that are not engine state (the vote
reply, the append result, the snapshot reply) go to the runtime and are
dropped here. `Engine.run` feeds a list of events in order, and the
engine it ends in is reachable (`Reachable.of_run`).
-/

namespace Openraft

/-- The events `engine_impl.rs` offers its runtime. -/
inductive Event
  | startup
  | initializeNode (entry : Entry)
  | elect
  | handleVoteReq (req : VoteRequest)
  | handleVoteResp (target : NodeId) (resp : VoteResponse)
  | handleAppendEntries (vote : Vote) (prevLogId : WithBot LogId) (entries : List Entry)
      (tx : Option Tx)
  | handleCommitEntries (leaderCommitted : WithBot LogId)
  | handleInstallFullSnapshot (vote : Vote) (snapshot : Snapshot) (tx : Tx)
  | handleBeginReceivingSnapshot (tx : Tx)
  | leaderStepDown
  | finishBuildingSnapshot (meta : SnapshotMeta)
  | tryPurgeLog
  | triggerPurgeLog (index : Nat)
  | resetGreaterLog

namespace Engine

/-- One event at clock reading `now`. -/
def step (e : Engine) (now : Instant) : Event → Except String Engine
  | .startup => e.startup
  | .initializeNode entry => (e.initializeNode now entry).map Prod.fst
  | .elect => e.elect now
  | .handleVoteReq req => pure (e.handleVoteReq now req).1
  | .handleVoteResp target resp => e.handleVoteResp now target resp
  | .handleAppendEntries vote prevLogId entries tx =>
    (e.handleAppendEntries now vote prevLogId entries tx).map Prod.fst
  | .handleCommitEntries leaderCommitted => e.handleCommitEntries leaderCommitted
  | .handleInstallFullSnapshot vote snapshot tx =>
    (e.handleInstallFullSnapshot now vote snapshot tx).map Prod.fst
  | .handleBeginReceivingSnapshot tx => pure (e.handleBeginReceivingSnapshot tx)
  | .leaderStepDown => pure e.leaderStepDown
  | .finishBuildingSnapshot meta => pure (e.finishBuildingSnapshot meta)
  | .tryPurgeLog => pure e.tryPurgeLog
  | .triggerPurgeLog index => e.triggerPurgeLog index
  | .resetGreaterLog => pure e.resetGreaterLog

/-- Events one after another, each at its own clock reading; the first
panic ends the run. -/
def run (e : Engine) : List (Instant × Event) → Except String Engine
  | [] => pure e
  | (now, ev) :: evs => do (← e.step now ev).run evs

end Engine

/-- An `append_entries` call as a leader sends it: entries at consecutive
indexes after `prev_log_id`, at clock reading `now`. -/
structure AppendDelivery where
  now : Instant
  vote : Vote
  prevLogId : WithBot LogId
  entries : List Entry
  consecutive : ∀ k (hk : k < entries.length), entries[k].logId.index = nextIndex prevLogId + k

/-- The same call delivered again at clock reading `now`. -/
def AppendDelivery.redeliver (d : AppendDelivery) (now : Instant) : AppendDelivery :=
  { d with now := now }

namespace Engine

/-- A follower's deliveries one after another, each reply dropped: the
`handle_append_entries` events of a run, with no channel to answer on. -/
def runAppends : Engine → List AppendDelivery → Except String Engine
  | e, [] => pure e
  | e, d :: ds => do
    let r ← e.appendEntries d.now d.vote d.prevLogId d.entries
    r.1.runAppends ds

end Engine

/-- The engines a run from `e₀` reaches. -/
inductive Reachable (e₀ : Engine) : Engine → Prop
  | init : Reachable e₀ e₀
  | step {e e' : Engine} {now : Instant} {ev : Event} :
      Reachable e₀ e → e.step now ev = .ok e' → Reachable e₀ e'

/-- The engine a list of events ends in is reachable. -/
theorem Reachable.of_run {e₀ e e' : Engine} (h : Reachable e₀ e) :
    ∀ {evs : List (Instant × Event)}, e.run evs = .ok e' → Reachable e₀ e'
  | [], hr => Except.ok.inj hr ▸ h
  | (_, _) :: _, hr => by
    obtain ⟨e₁, h₁, hr⟩ := bind_eq_ok.mp hr
    exact (h.step h₁).of_run hr

end Openraft
