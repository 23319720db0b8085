import Mathlib.Algebra.Ring.Nat
import CodeStory.Engine.RequestClass

/-!
# Lifecycle of one request, admission counters and residency clock

These are the pieces of the native engine that are changed in one atomic operation each:
the lifecycle cell of a request context, the state behind the admission mutex, and the
owner's own residency tracker. Counters are 64-bit and saturate.
-/

set_option autoImplicit false

namespace CodeStory.Engine

inductive RequestLifecycle where
  | queued
  | active
  | committed
  | cancelled
  deriving DecidableEq, Repr

namespace RequestLifecycle

/-- The compare-exchange loop of `cancel`: the cell afterwards and the returned flag. -/
def cancel : RequestLifecycle → RequestLifecycle × Bool
  | queued => (cancelled, true)
  | active => (cancelled, true)
  | committed => (committed, false)
  | cancelled => (cancelled, false)

def activate : RequestLifecycle → RequestLifecycle × Bool
  | queued => (active, true)
  | other => (other, false)

def commit : RequestLifecycle → RequestLifecycle × Bool
  | active => (committed, true)
  | other => (other, false)

def isCancelled (l : RequestLifecycle) : Bool := l = cancelled

/-- A committed or cancelled cell never changes again. -/
def Final (l : RequestLifecycle) : Prop := l = committed ∨ l = cancelled

theorem Final.cancel {l : RequestLifecycle} (h : l.Final) : l.cancel = (l, false) := by
  rcases h with rfl | rfl <;> rfl

theorem Final.activate {l : RequestLifecycle} (h : l.Final) : l.activate = (l, false) := by
  rcases h with rfl | rfl <;> rfl

theorem Final.commit {l : RequestLifecycle} (h : l.Final) : l.commit = (l, false) := by
  rcases h with rfl | rfl <;> rfl

end RequestLifecycle

inductive EmbeddingOwnerState where
  | unloaded
  | waking
  | ready
  | sleeping
  | draining
  deriving DecidableEq, Repr

def u64Max : Nat := 2 ^ 64 - 1

def saturatingSucc (n : Nat) : Nat := min (n + 1) u64Max

structure ActiveRequest where
  requestId : String
  requestClass : EmbeddingRequestClass
  deriving DecidableEq, Repr

structure AdmissionState where
  ownerState : EmbeddingOwnerState
  active : List ActiveRequest
  leaseCount : Nat
  eventSequence : Nat
  progressSequence : Nat
  queryProgressSequence : Nat
  bulkProgressSequence : Nat
  completedRequestCount : Nat
  cancelledRequestCount : Nat
  failedRequestCount : Nat
  deriving DecidableEq, Repr

namespace AdmissionState

def default : AdmissionState := ⟨.waking, [], 0, 0, 0, 0, 0, 0, 0, 0⟩

def recordEvent (s : AdmissionState) : AdmissionState :=
  { s with eventSequence := saturatingSucc s.eventSequence }

def recordProgress (s : AdmissionState) (c : EmbeddingRequestClass) : AdmissionState :=
  let s := { s with progressSequence := saturatingSucc s.progressSequence }
  match c with
  | .query => { s with queryProgressSequence := saturatingSucc s.queryProgressSequence }
  | .bulk => { s with bulkProgressSequence := saturatingSucc s.bulkProgressSequence }

def setOwnerState (s : AdmissionState) (owner : EmbeddingOwnerState) : AdmissionState :=
  { s with ownerState := owner }.recordEvent

/-- `begin` after the context was activated. -/
def begin (s : AdmissionState) (requestId : String) (c : EmbeddingRequestClass) :
    AdmissionState :=
  let s := { s with active := s.active ++ [(⟨requestId, c⟩ : ActiveRequest)] }
  s.recordEvent.recordProgress c

def progress (s : AdmissionState) (c : EmbeddingRequestClass) : AdmissionState :=
  s.recordEvent.recordProgress c

/-- Remove the last entry with this id, as `rposition` finds it. -/
def removeActive (requestId : String) (active : List ActiveRequest) : List ActiveRequest :=
  (active.reverse.eraseP fun entry => entry.requestId == requestId).reverse

def finish (s : AdmissionState) (requestId : String) (c : EmbeddingRequestClass)
    (succeeded cancelled : Bool) : AdmissionState × Nat :=
  let s := { s with active := removeActive requestId s.active }
  let s :=
    if cancelled then
      { s with cancelledRequestCount := saturatingSucc s.cancelledRequestCount }
    else if succeeded then
      { s with completedRequestCount := saturatingSucc s.completedRequestCount }
    else
      { s with failedRequestCount := saturatingSucc s.failedRequestCount }
  let s := s.recordEvent.recordProgress c
  (s, s.completedRequestCount)

def cancelled (s : AdmissionState) : AdmissionState :=
  { s with cancelledRequestCount := saturatingSucc s.cancelledRequestCount }.recordEvent

def leaseAcquired (s : AdmissionState) : AdmissionState :=
  { s with leaseCount := s.leaseCount + 1 }.recordEvent

def leaseReleased (s : AdmissionState) : AdmissionState :=
  { s with leaseCount := s.leaseCount - 1 }.recordEvent

/-- The three counters of processed requests. -/
def counters (s : AdmissionState) : Nat × Nat × Nat :=
  (s.completedRequestCount, s.cancelledRequestCount, s.failedRequestCount)

section Counters
variable (s : AdmissionState) (c : EmbeddingRequestClass) (id : String)

@[simp] theorem counters_recordEvent : s.recordEvent.counters = s.counters := rfl

@[simp] theorem counters_recordProgress : (s.recordProgress c).counters = s.counters := by
  cases c <;> rfl

@[simp] theorem counters_setOwnerState (owner : EmbeddingOwnerState) :
    (s.setOwnerState owner).counters = s.counters := rfl

@[simp] theorem counters_begin : (s.begin id c).counters = s.counters := by
  unfold begin
  rw [counters_recordProgress]
  rfl

@[simp] theorem counters_progress : (s.progress c).counters = s.counters := by
  simp [progress]

@[simp] theorem counters_cancelled : s.cancelled.counters =
    (s.completedRequestCount, saturatingSucc s.cancelledRequestCount, s.failedRequestCount) :=
  rfl

@[simp] theorem counters_leaseAcquired : s.leaseAcquired.counters = s.counters := rfl

@[simp] theorem counters_leaseReleased : s.leaseReleased.counters = s.counters := rfl

theorem counters_finish (succeeded cancelled : Bool) :
    (s.finish id c succeeded cancelled).1.counters =
      if cancelled then
        (s.completedRequestCount, saturatingSucc s.cancelledRequestCount, s.failedRequestCount)
      else if succeeded then
        (saturatingSucc s.completedRequestCount, s.cancelledRequestCount, s.failedRequestCount)
      else
        (s.completedRequestCount, s.cancelledRequestCount,
          saturatingSucc s.failedRequestCount) := by
  unfold finish
  simp only [counters_recordProgress, counters_recordEvent]
  split
  · rfl
  · split <;> rfl

end Counters

end AdmissionState

structure ResidencyTracker where
  idleTimeout : Nat
  lastActivity : Nat
  leases : Nat
  deriving DecidableEq, Repr

namespace ResidencyTracker

def new (idleTimeout now : Nat) : ResidencyTracker := ⟨idleTimeout, now, 0⟩

def completeActivity (t : ResidencyTracker) (now : Nat) : ResidencyTracker :=
  { t with lastActivity := now }

def acquireLease (t : ResidencyTracker) : ResidencyTracker := { t with leases := t.leases + 1 }

def releaseLease (t : ResidencyTracker) (now : Nat) : ResidencyTracker :=
  { t with leases := t.leases - 1, lastActivity := now }

def remaining (t : ResidencyTracker) (now : Nat) : Nat :=
  if t.leases > 0 then t.idleTimeout else t.idleTimeout - (now - t.lastActivity)

def shouldSleep (t : ResidencyTracker) (now : Nat) : Bool :=
  t.leases == 0 && decide (now - t.lastActivity ≥ t.idleTimeout)

end ResidencyTracker

end CodeStory.Engine
