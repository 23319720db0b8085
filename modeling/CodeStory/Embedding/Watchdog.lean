import CodeStory.Engine.RequestClass
import CodeStory.Lib.Stillness

/-!
# The watchdog of the embedding server

`scheduler.rs`: a thread polls what is active and how far the engine has come, for the queries, for
the bulk requests and for a server that drains, and stops the process once one of them has been
active for too long without progress. A poll is what the thread reads in one turn of its loop.
-/

set_option autoImplicit false

namespace CodeStory.Embedding

open Stillness

structure ActiveRequestClasses where
  query : Bool
  bulk : Bool
  deriving DecidableEq, Repr

structure WatchdogProgressSnapshot where
  overall : Nat
  query : Nat
  bulk : Nat
  deriving DecidableEq, Repr

structure WatchdogStall where
  sequence : Nat
  lastProgressNs : Nat
  deriving DecidableEq, Repr

structure WatchdogClassProgress where
  sequence : Nat
  lastProgressNs : Nat
  wasActive : Bool
  deriving DecidableEq, Repr

def WatchdogClassProgress.new (nowNs : Nat) : WatchdogClassProgress := ⟨0, nowNs, false⟩

/-- One reading of the clock in each branch. -/
def WatchdogClassProgress.observe (progress : WatchdogClassProgress) (active : Bool)
    (sequence nowNs timeout : Nat) : WatchdogClassProgress × Option WatchdogStall :=
  if ¬ active then (⟨sequence, nowNs, false⟩, none)
  else if ¬ progress.wasActive ∨ sequence ≠ progress.sequence then (⟨sequence, nowNs, true⟩, none)
  else
    (progress, if timeout ≤ nowNs - progress.lastProgressNs then
      some ⟨sequence, progress.lastProgressNs⟩ else none)

/-- What one turn reads: the class of each active request, unless the lock on them is poisoned; the
progress of the engine, if there is one; and the clock, once for each of the three. -/
structure Poll where
  draining : Bool
  active : Option (List EmbeddingRequestClass)
  progress : Option WatchdogProgressSnapshot
  queryNs : Nat
  bulkNs : Nat
  drainingNs : Nat

def Poll.activeClasses (poll : Poll) : ActiveRequestClasses :=
  match poll.active with
  | none => ⟨false, false⟩
  | some classes => ⟨classes.any (· = .query), classes.any (· = .bulk)⟩

def Poll.snapshot (poll : Poll) : WatchdogProgressSnapshot := poll.progress.getD ⟨0, 0, 0⟩

structure WatchdogState where
  queryProgress : WatchdogClassProgress
  bulkProgress : WatchdogClassProgress
  drainingProgress : WatchdogClassProgress

def WatchdogState.new (startedNs : Nat) : WatchdogState :=
  ⟨.new startedNs, .new startedNs, .new startedNs⟩

/-- One turn; a class is observed only if none before it has stalled. -/
def WatchdogState.poll (state : WatchdogState) (poll : Poll) (noProgress : Nat) :
    WatchdogState × Option WatchdogStall :=
  let active := poll.activeClasses
  let progress := poll.snapshot
  match state.queryProgress.observe active.query progress.query poll.queryNs noProgress with
  | (query, some stall) => ({ state with queryProgress := query }, some stall)
  | (query, none) =>
    match state.bulkProgress.observe active.bulk progress.bulk poll.bulkNs noProgress with
    | (bulk, some stall) => ({ state with queryProgress := query, bulkProgress := bulk },
      some stall)
    | (bulk, none) =>
      let (draining, stall) := state.drainingProgress.observe
        (poll.draining && !active.query && !active.bulk) progress.overall poll.drainingNs noProgress
      (⟨query, bulk, draining⟩, stall)

/-- The loop, up to the stall that stops the process. -/
def watchdog (noProgress : Nat) : WatchdogState → List Poll → Option WatchdogStall
  | _, [] => none
  | state, poll :: later =>
    match state.poll poll noProgress with
    | (_, some stall) => some stall
    | (state, none) => watchdog noProgress state later

/-! ## What is watched -/

inductive Watched where
  | query
  | bulk
  | draining
  deriving DecidableEq, Repr

/-- The sequence of what is watched while it is active. -/
def Poll.reading (poll : Poll) : Watched → Reading Nat
  | .query => ⟨if poll.activeClasses.query then some poll.snapshot.query else none, poll.queryNs⟩
  | .bulk => ⟨if poll.activeClasses.bulk then some poll.snapshot.bulk else none, poll.bulkNs⟩
  | .draining =>
    ⟨if poll.draining && !poll.activeClasses.query && !poll.activeClasses.bulk then
      some poll.snapshot.overall else none, poll.drainingNs⟩

def readings (polls : List Poll) (watched : Watched) : List (Reading Nat) :=
  polls.map (·.reading watched)

def WatchdogClassProgress.standing (progress : WatchdogClassProgress) : Standing Nat :=
  if progress.wasActive then some (progress.sequence, progress.lastProgressNs) else none

def WatchdogState.standing (state : WatchdogState) : Watched → Standing Nat
  | .query => state.queryProgress.standing
  | .bulk => state.bulkProgress.standing
  | .draining => state.drainingProgress.standing

section Refinement

variable {state : WatchdogState} {progress : WatchdogClassProgress} {active : Bool}
  {sequence nowNs noProgress : Nat}

/-- An observation is a reading: it stalls where the alarm is raised, and what stands goes on. -/
theorem observe_spec :
    (progress.observe active sequence nowNs noProgress).2.isSome =
        alarmed noProgress progress.standing ⟨if active then some sequence else none, nowNs⟩ ∧
      (progress.observe active sequence nowNs noProgress).1.standing =
        advance progress.standing ⟨if active then some sequence else none, nowNs⟩ := by
  unfold WatchdogClassProgress.observe WatchdogClassProgress.standing alarmed advance
  cases active with
  | false => cases progress.wasActive <;> simp
  | true =>
    cases hactive : progress.wasActive with
    | false => simp
    | true =>
      by_cases hsame : sequence = progress.sequence
      · by_cases hlate : noProgress ≤ nowNs - progress.lastProgressNs
        · simp [hsame, hlate, hactive]
        · simp [hsame, hlate, hactive]
      · simp [hsame]

/-- A turn stalls exactly if the alarm of one of the three is raised. -/
theorem poll_stalls_iff (poll : Poll) :
    (state.poll poll noProgress).2.isSome = true ↔
      ∃ watched, alarmed noProgress (state.standing watched) (poll.reading watched) = true := by
  have hquery := (@observe_spec state.queryProgress poll.activeClasses.query poll.snapshot.query
    poll.queryNs noProgress).1
  have hbulk := (@observe_spec state.bulkProgress poll.activeClasses.bulk poll.snapshot.bulk
    poll.bulkNs noProgress).1
  have hdraining := (@observe_spec state.drainingProgress
    (poll.draining && !poll.activeClasses.query && !poll.activeClasses.bulk) poll.snapshot.overall
    poll.drainingNs noProgress).1
  have hthree : (∃ watched, alarmed noProgress (state.standing watched) (poll.reading watched) =
      true) ↔
      alarmed noProgress (state.standing .query) (poll.reading .query) = true ∨
        alarmed noProgress (state.standing .bulk) (poll.reading .bulk) = true ∨
          alarmed noProgress (state.standing .draining) (poll.reading .draining) = true := by
    constructor
    · rintro ⟨watched, h⟩
      cases watched with
      | query => exact .inl h
      | bulk => exact .inr (.inl h)
      | draining => exact .inr (.inr h)
    · rintro (h | h | h)
      · exact ⟨_, h⟩
      · exact ⟨_, h⟩
      · exact ⟨_, h⟩
  rw [hthree]
  change _ ↔ alarmed noProgress state.queryProgress.standing (poll.reading .query) = true ∨
    alarmed noProgress state.bulkProgress.standing (poll.reading .bulk) = true ∨
      alarmed noProgress state.drainingProgress.standing (poll.reading .draining) = true
  unfold Poll.reading
  dsimp only
  rw [← hquery, ← hbulk, ← hdraining]
  unfold WatchdogState.poll
  dsimp only
  generalize state.queryProgress.observe poll.activeClasses.query poll.snapshot.query poll.queryNs
    noProgress = query
  generalize state.bulkProgress.observe poll.activeClasses.bulk poll.snapshot.bulk poll.bulkNs
    noProgress = bulk
  obtain ⟨query, queryStall⟩ := query
  obtain ⟨bulk, bulkStall⟩ := bulk
  cases queryStall with
  | some stall => simp
  | none =>
    cases bulkStall with
    | some stall => simp
    | none => simp

/-- A turn without a stall has observed all three. -/
theorem poll_advances (poll : Poll) (hnone : (state.poll poll noProgress).2 = none)
    (watched : Watched) :
    (state.poll poll noProgress).1.standing watched =
      advance (state.standing watched) (poll.reading watched) := by
  have hquery := (@observe_spec state.queryProgress poll.activeClasses.query poll.snapshot.query
    poll.queryNs noProgress).2
  have hbulk := (@observe_spec state.bulkProgress poll.activeClasses.bulk poll.snapshot.bulk
    poll.bulkNs noProgress).2
  have hdraining := (@observe_spec state.drainingProgress
    (poll.draining && !poll.activeClasses.query && !poll.activeClasses.bulk) poll.snapshot.overall
    poll.drainingNs noProgress).2
  unfold WatchdogState.poll at hnone ⊢
  dsimp only at hnone ⊢
  generalize state.queryProgress.observe poll.activeClasses.query poll.snapshot.query poll.queryNs
    noProgress = query at hquery hnone ⊢
  generalize state.bulkProgress.observe poll.activeClasses.bulk poll.snapshot.bulk poll.bulkNs
    noProgress = bulk at hbulk hnone ⊢
  obtain ⟨query, queryStall⟩ := query
  obtain ⟨bulk, bulkStall⟩ := bulk
  cases queryStall with
  | some stall => cases hnone
  | none =>
    cases bulkStall with
    | some stall => cases hnone
    | none =>
      cases watched with
      | query => exact hquery
      | bulk => exact hbulk
      | draining => exact hdraining

theorem watchdog_iff_alarms (polls : List Poll) :
    (watchdog noProgress state polls).isSome = true ↔
      ∃ watched, alarms noProgress (state.standing watched) (readings polls watched) = true := by
  induction polls generalizing state with
  | nil =>
    refine iff_of_false (fun h => nomatch h) ?_
    rintro ⟨watched, h⟩
    cases h
  | cons poll later ih =>
    have hstalls := @poll_stalls_iff state noProgress poll
    have hadvances := @poll_advances state noProgress poll
    have hunfold : ∀ watched, alarms noProgress (state.standing watched)
        (readings (poll :: later) watched) = (alarmed noProgress (state.standing watched)
          (poll.reading watched) || alarms noProgress (advance (state.standing watched)
            (poll.reading watched)) (readings later watched)) := fun _ => rfl
    unfold watchdog
    generalize state.poll poll noProgress = result at hstalls hadvances
    obtain ⟨next, stall⟩ := result
    cases stall with
    | some stall =>
      refine iff_of_true rfl ?_
      obtain ⟨watched, halarmed⟩ := hstalls.mp rfl
      refine ⟨watched, ?_⟩
      rw [hunfold, halarmed]
      rfl
    | none =>
      have hquiet : ∀ watched, alarmed noProgress (state.standing watched) (poll.reading watched) =
          false := by
        intro watched
        apply Bool.eq_false_iff.mpr
        intro halarmed
        exact absurd (hstalls.mpr ⟨watched, halarmed⟩) Bool.false_ne_true
      dsimp only
      rw [ih]
      apply exists_congr
      intro watched
      have hnext : next.standing watched =
        advance (state.standing watched) (poll.reading watched) :=
        hadvances rfl watched
      rw [hunfold, hquiet, hnext, Bool.false_or]

end Refinement

/-- Over any polls in the order of time the watchdog stops the process exactly if the queries, the
bulk requests or the draining have been active throughout a stretch of polls that lasts as long as
the budget, all with one sequence of progress. -/
theorem watchdog_stops_iff_stuck (noProgress startedNs : Nat) (polls : List Poll)
    (horder : ∀ watched, InOrder (readings polls watched)) :
    (watchdog noProgress (.new startedNs) polls).isSome = true ↔
      ∃ watched, Still noProgress (readings polls watched) := by
  rw [watchdog_iff_alarms]
  apply exists_congr
  intro watched
  have hnone : (WatchdogState.new startedNs).standing watched = none := by
    cases watched <;> rfl
  rw [hnone, alarms_iff_still (horder watched)]

/-- A query that makes no progress while the bulk requests do. -/
def stuckPolls : List Poll :=
  [⟨false, some [.query, .bulk], some ⟨5, 1, 4⟩, 10, 11, 12⟩,
    ⟨false, some [.query, .bulk], some ⟨6, 1, 5⟩, 30, 31, 32⟩]

theorem stuckPolls_in_order (watched : Watched) : InOrder (readings stuckPolls watched) := by
  unfold InOrder
  cases watched <;> decide

theorem stuck_query_stops :
    (watchdog 20 (.new 0) stuckPolls).isSome = true ↔
      ∃ watched, Still 20 (readings stuckPolls watched) :=
  watchdog_stops_iff_stuck 20 0 stuckPolls stuckPolls_in_order

example : watchdog 20 (.new 0) stuckPolls = some ⟨1, 10⟩ := by decide

end CodeStory.Embedding
