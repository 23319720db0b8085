import CodeStory.Engine.Accounting
import CodeStory.Lib.Census

/-!
# What the admission snapshot shows, and when the engine has nothing left to do

The tracker lists the requests that have entered `handle_request` and counts the leases that
are held. A request is in neither the queue depth nor that list between the pop that takes
it and the end of `begin`: the snapshot cannot see it. An engine is quiet when there is no
request it could still begin; without a new submission it stays quiet.
-/

set_option autoImplicit false

namespace CodeStory.Engine

open Transition

/-- The phases in which a request is listed as active. -/
def Phase.entered : Phase → Bool
  | .activate | .refused | .enter | .reply _ => false
  | _ => true

def Frame.listing (f : Frame) : ActiveRequest := ⟨f.request.context.requestId, f.requestClass⟩

def Caller.holds : Caller → Bool
  | .holding _ => true
  | _ => false

/-- The part of the state that the snapshot reads, and the callers it counts. -/
structure Roster where
  active : List ActiveRequest
  leaseCount : Nat
  callers : Nat → Caller

namespace Roster

structure Agrees (r : Roster) (frames : List Frame) : Prop where
  waiting : ∀ g ∈ frames.tail, ∃ tokens offset, g.phase = .recheck tokens offset
  active : r.active = ((frames.filter fun f => f.phase.entered).map Frame.listing).reverse
  leases : Census (fun c => Caller.holds c = true) r.callers r.leaseCount

namespace Agrees
variable {r : Roster} {f : Frame} {below : List Frame}

theorem take (h : r.Agrees []) (q : EmbeddingRequest) (c : EmbeddingRequestClass) :
    r.Agrees [⟨q, c, .activate⟩] :=
  ⟨fun g hg => absurd hg (by simp), h.active, h.leases⟩

theorem advance (h : r.Agrees (f :: below)) {phase : Phase}
    (hentered : phase.entered = f.phase.entered) :
    r.Agrees ({ f with phase := phase } :: below) := by
  refine ⟨h.waiting, ?_, h.leases⟩
  rw [h.active]
  cases he : f.phase.entered with
  | false => simp [he, hentered]
  | true => simp [he, hentered, Frame.listing]

/-- `begin` lists the innermost request last. -/
theorem enter (h : r.Agrees (f :: below)) {phase : Phase} (hbefore : f.phase.entered = false)
    (hafter : phase.entered = true) :
    ({ r with active := r.active ++ [f.listing] } : Roster).Agrees
      ({ f with phase := phase } :: below) := by
  refine ⟨h.waiting, ?_, h.leases⟩
  dsimp only
  rw [h.active]
  simp [hbefore, hafter, Frame.listing]

/-- The last entry with the id of the innermost request is its own. -/
theorem finish (h : r.Agrees (f :: below)) {phase : Phase} (hbefore : f.phase.entered = true)
    (hafter : phase.entered = false) :
    ({ r with active :=
        AdmissionState.removeActive f.request.context.requestId r.active } : Roster).Agrees
      ({ f with phase := phase } :: below) := by
  refine ⟨h.waiting, ?_, h.leases⟩
  dsimp only
  rw [h.active]
  unfold AdmissionState.removeActive
  rw [List.reverse_reverse]
  simp [hbefore, hafter, Frame.listing]

theorem leave (h : r.Agrees (f :: below)) (hleft : f.phase.entered = false) :
    r.Agrees below := by
  refine ⟨fun g hg => h.waiting g (List.mem_of_mem_tail hg), ?_, h.leases⟩
  rw [h.active]
  simp [hleft]

theorem interleave (h : r.Agrees (f :: below)) (hentered : f.phase.entered = true)
    (q : EmbeddingRequest) (tokens : List Nat) (offset : Nat) :
    r.Agrees (⟨q, .query, .activate⟩ :: { f with phase := .recheck tokens offset } :: below) := by
  have houter : r.Agrees ({ f with phase := .recheck tokens offset } :: below) :=
    h.advance hentered.symm
  refine ⟨?_, ?_, h.leases⟩
  · intro g hg
    rcases List.mem_cons.mp hg with rfl | hg
    · exact ⟨tokens, offset, rfl⟩
    · exact h.waiting g hg
  · rw [houter.active]
    rfl

/-- A caller moves on without taking or giving up a lease. -/
theorem caller {frames : List Frame} (h : r.Agrees frames) {i : Nat} {next : Caller}
    (hsame : next.holds = (r.callers i).holds) :
    ({ r with callers := Function.update r.callers i next } : Roster).Agrees frames :=
  ⟨h.waiting, h.active, h.leases.keep (by rw [hsame])⟩

theorem acquire {frames : List Frame} (h : r.Agrees frames) {i : Nat} {next : Caller}
    (hbefore : (r.callers i).holds = false) (hafter : next.holds = true) :
    (⟨r.active, r.leaseCount + 1, Function.update r.callers i next⟩ : Roster).Agrees frames :=
  ⟨h.waiting, h.active, h.leases.gain (by simp [hbefore]) hafter⟩

theorem release {frames : List Frame} (h : r.Agrees frames) {i : Nat} {next : Caller}
    (hbefore : (r.callers i).holds = true) (hafter : next.holds = false) :
    (⟨r.active, r.leaseCount - 1, Function.update r.callers i next⟩ : Roster).Agrees frames :=
  ⟨h.waiting, h.active, h.leases.lose hbefore (by simp [hafter])⟩

end Agrees

end Roster

namespace AdmissionState
variable (t : AdmissionState) (c : EmbeddingRequestClass) (id : String)

/-- The two parts of the snapshot that the tracker itself keeps. -/
def standing : List ActiveRequest × Nat := (t.active, t.leaseCount)

@[simp] theorem standing_recordEvent : t.recordEvent.standing = t.standing := rfl

@[simp] theorem standing_recordProgress : (t.recordProgress c).standing = t.standing := by
  cases c <;> rfl

@[simp] theorem standing_setOwnerState (owner : EmbeddingOwnerState) :
    (t.setOwnerState owner).standing = t.standing := rfl

@[simp] theorem standing_progress : (t.progress c).standing = t.standing := by
  simp [progress]

@[simp] theorem standing_cancelled : t.cancelled.standing = t.standing := rfl

theorem standing_begin :
    (t.begin id c).standing = (t.active ++ [⟨id, c⟩], t.leaseCount) := by
  unfold begin
  rw [standing_recordProgress]
  rfl

theorem standing_finish (succeeded cancelled : Bool) :
    (t.finish id c succeeded cancelled).1.standing = (removeActive id t.active, t.leaseCount) := by
  unfold finish
  simp only [standing_recordProgress, standing_recordEvent]
  split
  · rfl
  · split <;> rfl

theorem standing_dropped (dropped : List EmbeddingRequest) :
    ∀ t : AdmissionState, (dropped.foldl (fun t _ => t.cancelled) t).standing = t.standing := by
  induction dropped with
  | nil => exact fun t => rfl
  | cons r rest ih => exact fun t => ih t.cancelled

end AdmissionState

namespace State
variable {s t : State} {cfg : EngineConfig} {w : World}

def roster (s : State) : Roster := ⟨s.tracker.active, s.tracker.leaseCount, s.callers⟩

def Listed (s : State) : Prop := s.roster.Agrees s.pc.frames

theorem roster_eq (hstanding : t.tracker.standing = s.tracker.standing)
    (hcallers : t.callers = s.callers) : t.roster = s.roster := by
  have hactive : t.tracker.active = s.tracker.active := congrArg Prod.fst hstanding
  have hcount : t.tracker.leaseCount = s.tracker.leaseCount := congrArg Prod.snd hstanding
  unfold roster
  rw [hactive, hcount, hcallers]

theorem roster_withTracker {tracker : AdmissionState} {active : List ActiveRequest} {n : Nat}
    (h : tracker.standing = (active, n)) :
    (s.withTracker tracker).roster = ⟨active, n, s.callers⟩ := by
  have hactive : tracker.active = active := congrArg Prod.fst h
  have hcount : tracker.leaseCount = n := congrArg Prod.snd h
  unfold roster withTracker
  rw [hactive, hcount]

section Owner

theorem roster_prune (c : EmbeddingRequestClass) (late : List Nat) :
    (s.pruneCancelled c late).roster = s.roster :=
  roster_eq (AdmissionState.standing_dropped _ _) rfl

theorem roster_tryPop (c : EmbeddingRequestClass) (late : List Nat) :
    (s.tryPop c late).1.roster = s.roster := by
  unfold tryPop
  dsimp only
  split
  · exact roster_prune c late
  · exact roster_prune c late

theorem roster_submit (c : EmbeddingRequestClass) (context : RequestContext)
    (inputs : List String) (late : List Nat) :
    (s.submit c context inputs late).roster = s.roster := by
  unfold submit tryPush
  dsimp only
  split
  · rfl
  · split
    · exact roster_prune c late
    · exact roster_prune c late

/-- Outside its request handling the owner lists nobody. -/
theorem listed_goto {pc : OwnerPc} (h : s.roster.Agrees []) (ht : t.roster = s.roster)
    (hframes : pc.frames = []) : (t.goto pc).Listed := by
  unfold Listed
  change t.roster.Agrees pc.frames
  rw [ht, hframes]
  exact h

theorem confirmResident_agrees {frames : List Frame} (h : s.roster.Agrees frames)
    (caller : Nat) (result : Option Nat) :
    (s.confirmResident caller result).roster.Agrees frames := by
  unfold confirmResident
  split
  · rename_i hcaller
    exact h.caller (by
      change (Caller.ensured result).holds = (s.callers caller).holds
      rw [hcaller]
      rfl)
  · exact h

theorem grantResidencyLease_agrees {frames : List Frame} (h : s.roster.Agrees frames)
    (caller : Nat) : (s.grantResidencyLease caller).roster.Agrees frames := by
  unfold grantResidencyLease
  split
  · rename_i hcaller
    exact h.caller (by
      change (Caller.granted s.generation).holds = (s.callers caller).holds
      rw [hcaller]
      rfl)
  · exact h

theorem refuseLease_agrees {frames : List Frame} (h : s.roster.Agrees frames)
    (caller : Nat) : (s.refuseLease caller).roster.Agrees frames := by
  unfold refuseLease
  split
  · rename_i hcaller
    exact h.caller (by
      change Caller.refused.holds = (s.callers caller).holds
      rw [hcaller]
      rfl)
  · exact h

theorem handleResidentControl_listed (h : s.roster.Agrees []) (message : Control)
    (next : OwnerPc) (hframes : next.frames = []) :
    (s.handleResidentControl message next).Listed := by
  cases message with
  | shutdown => exact listed_goto h rfl rfl
  | ensureResident caller =>
    exact listed_goto (confirmResident_agrees (s := s.completeActivity) h caller _) rfl hframes
  | acquireLease caller =>
    exact listed_goto (grantResidencyLease_agrees h caller) rfl hframes
  | releaseLease => exact listed_goto h rfl hframes

theorem failWake_listed (wake : WakeReason) (h : s.roster.Agrees []) :
    (s.failWake wake).Listed := by
  cases wake with
  | startup => exact listed_goto h rfl rfl
  | request c r => exact listed_goto h rfl rfl
  | ensureResident caller => exact listed_goto (confirmResident_agrees h caller none) rfl rfl
  | acquireLease caller => exact listed_goto (refuseLease_agrees h caller) rfl rfl

theorem serveWake_listed (wake : WakeReason) (h : s.roster.Agrees []) :
    (s.serveWake wake).Listed := by
  cases wake with
  | startup => exact listed_goto h rfl rfl
  | request c r => exact h.take r c
  | ensureResident caller =>
    exact listed_goto (confirmResident_agrees (s := s.completeActivity) h caller _) rfl rfl
  | acquireLease caller => exact listed_goto (grantResidencyLease_agrees h caller) rfl rfl

theorem schedulerPop_listed (c : EmbeddingRequestClass) (second : Bool) (late : List Nat)
    (h : s.roster.Agrees []) : (s.schedulerPop c second late).Listed := by
  have hpop := s.roster_tryPop c late
  unfold schedulerPop
  split
  · rename_i r hresult
    rw [hresult] at hpop
    rw [← hpop] at h
    exact h.take r c
  · rename_i hresult
    rw [hresult] at hpop
    split
    · exact listed_goto h hpop rfl
    · exact listed_goto h hpop rfl

theorem toPhase_listed {f : Frame} {below : List Frame} {woken : Bool} {phase : Phase}
    (h : s.roster.Agrees (f :: below)) (ht : t.roster = s.roster)
    (hentered : phase.entered = f.phase.entered) : (t.toPhase f below woken phase).Listed := by
  unfold Listed
  change t.roster.Agrees ({ f with phase := phase } :: below)
  rw [ht]
  exact h.advance hentered

theorem tokenizePhase_entered (inputs : List String) (tokenCount : String → Option Nat) :
    (tokenizePhase inputs tokenCount).entered = true := by
  unfold tokenizePhase
  split
  · rfl
  · split
    · rfl
    · split <;> rfl

theorem handleStep_listed {f : Frame} {below : List Frame} {woken : Bool}
    (hpc : s.pc = .handling f below woken) (h : s.Listed) :
    (s.handleStep cfg w f below woken).Listed := by
  have hs : s.roster.Agrees (f :: below) := by
    unfold Listed at h
    rw [hpc] at h
    exact h
  obtain ⟨r, c, phase⟩ := f
  cases phase with
  | activate | encode tokens offset | recheck tokens offset | test result | commit result =>
    refine toPhase_listed hs rfl ?_
    split <;> rfl
  | refused => exact toPhase_listed hs rfl rfl
  | enter =>
    unfold Listed
    change (s.withTracker (s.tracker.begin r.context.requestId c)).roster.Agrees
      (⟨r, c, .hold⟩ :: below)
    rw [roster_withTracker (s.tracker.standing_begin c r.context.requestId)]
    exact hs.enter rfl rfl
  | hold =>
    unfold handleStep
    dsimp only
    split
    · split
      · exact toPhase_listed hs rfl rfl
      · exact h
    · exact toPhase_listed hs rfl rfl
  | tokenize => exact toPhase_listed hs rfl (tokenizePhase_entered _ _)
  | live tokens offset =>
    refine toPhase_listed hs rfl ?_
    split
    · split <;> rfl
    · rfl
  | progress tokens offset =>
    refine toPhase_listed hs (roster_eq (AdmissionState.standing_progress _ c) rfl) ?_
    split <;> rfl
  | between tokens offset =>
    have hpop := s.roster_tryPop .query w.late
    unfold handleStep
    dsimp only
    split
    · rename_i q hresult
      rw [hresult] at hpop
      rw [← hpop] at hs
      exact hs.interleave rfl q tokens offset
    · rename_i hresult
      rw [hresult] at hpop
      exact toPhase_listed hs hpop rfl
  | finish result cancelled =>
    unfold Listed handleStep toPhase goto
    dsimp only
    change (s.withTracker (s.tracker.finish r.context.requestId c (result = .vectors)
      cancelled).1).roster.Agrees (_ :: below)
    rw [roster_withTracker (s.tracker.standing_finish c r.context.requestId _ cancelled)]
    exact hs.finish rfl rfl
  | reply response =>
    have hleft := hs.leave rfl
    unfold Listed handleStep leaveFrame
    dsimp only
    split
    · exact hleft
    · exact hleft

theorem residentSelect_listed {deadline : Nat} (h : s.roster.Agrees [])
    (hstep : s.residentSelect deadline = some t) : t.Listed := by
  unfold residentSelect at hstep
  split at hstep
  · rename_i message rest _
    obtain rfl := Option.some.inj hstep
    exact handleResidentControl_listed (s := s.withControl rest) h message .top rfl
  · split at hstep
    · obtain rfl := Option.some.inj hstep
      exact listed_goto h rfl rfl
    · split at hstep
      · obtain rfl := Option.some.inj hstep
        exact listed_goto h rfl rfl
      · split at hstep
        · obtain rfl := Option.some.inj hstep
          split
          · exact listed_goto h rfl rfl
          · exact listed_goto h rfl rfl
        · exact absurd hstep (by simp)

theorem waitForWake_listed (hpc : s.pc = .asleep) (h : s.roster.Agrees [])
    (hstep : s.waitForWake = some t) : t.Listed := by
  unfold waitForWake at hstep
  split at hstep
  · obtain rfl := Option.some.inj hstep
    exact listed_goto h rfl rfl
  · obtain rfl := Option.some.inj hstep
    exact listed_goto h rfl rfl
  · obtain rfl := Option.some.inj hstep
    exact listed_goto h rfl rfl
  · obtain rfl := Option.some.inj hstep
    unfold Listed
    change s.roster.Agrees s.pc.frames
    rw [hpc]
    exact h
  · split at hstep
    · obtain rfl := Option.some.inj hstep
      exact listed_goto h rfl rfl
    · split at hstep
      · obtain rfl := Option.some.inj hstep
        exact listed_goto h rfl rfl
      · exact absurd hstep (by simp)

theorem ownerStep_listed (h : s.Listed) (hstep : s.ownerStep cfg w = some t) : t.Listed := by
  have hs := h
  unfold Listed at hs
  unfold ownerStep at hstep
  cases hpc : s.pc with
  | loading wake =>
    rw [hpc] at hstep hs
    obtain rfl := Option.some.inj hstep
    split
    · exact hs
    · apply failWake_listed
      unfold noteLoadFailure
      split
      · exact hs
      · exact hs
  | entry wake =>
    rw [hpc] at hs
    simp only [hpc] at hstep
    split at hstep
    · rename_i message rest _
      obtain rfl := Option.some.inj hstep
      exact handleResidentControl_listed (s := s.withControl rest) hs message (.waking wake) rfl
    · obtain rfl := Option.some.inj hstep
      exact listed_goto hs rfl rfl
  | waking wake =>
    rw [hpc] at hstep hs
    obtain rfl := Option.some.inj hstep
    exact serveWake_listed wake hs
  | top =>
    rw [hpc] at hs
    simp only [hpc] at hstep
    split at hstep
    · rename_i message rest _
      obtain rfl := Option.some.inj hstep
      exact handleResidentControl_listed (s := s.withControl rest) hs message .top rfl
    · obtain rfl := Option.some.inj hstep
      exact listed_goto hs rfl rfl
  | popping c second =>
    rw [hpc] at hstep hs
    obtain rfl := Option.some.inj hstep
    exact schedulerPop_listed c second w.late hs
  | selecting deadline =>
    rw [hpc] at hstep hs
    exact residentSelect_listed hs hstep
  | handling f below woken =>
    rw [hpc] at hstep
    obtain rfl := Option.some.inj hstep
    exact handleStep_listed hpc h
  | asleep =>
    rw [hpc] at hstep hs
    exact waitForWake_listed hpc hs hstep
  | wakePop c =>
    rw [hpc] at hs
    have hpop := s.roster_tryPop c w.late
    simp only [hpc] at hstep
    split at hstep
    · rename_i hresult
      obtain rfl := Option.some.inj hstep
      rw [hresult] at hpop
      exact listed_goto hs hpop rfl
    · rename_i hresult
      obtain rfl := Option.some.inj hstep
      rw [hresult] at hpop
      exact listed_goto hs hpop rfl
  | wakeCheck c r =>
    rw [hpc] at hs
    simp only [hpc] at hstep
    split at hstep
    · obtain rfl := Option.some.inj hstep
      exact listed_goto hs rfl rfl
    · obtain rfl := Option.some.inj hstep
      exact listed_goto hs rfl rfl
  | wakeReply r =>
    rw [hpc] at hstep hs
    obtain rfl := Option.some.inj hstep
    exact listed_goto hs rfl rfl
  | stopped =>
    rw [hpc] at hstep
    exact absurd hstep (by simp)

end Owner

theorem callerStep_agrees {a : Action} {frames : List Frame} (h : s.roster.Agrees frames)
    (hstep : s.callerStep a = some t) : t.roster.Agrees frames := by
  have hmove : ∀ (i : Nat) (next : Caller), next.holds = false →
      (s.callers i).holds = false → (s.setCaller i next).roster.Agrees frames := by
    intro i next hnext hbefore
    exact h.caller (hnext.trans hbefore.symm)
  unfold callerStep at hstep
  split at hstep
  · split at hstep
    · rename_i i hready
      obtain rfl := Option.some.inj hstep
      exact hmove i .ensuring rfl (by rw [hready.2]; rfl)
    · exact absurd hstep (by simp)
  · split at hstep
    · rename_i i hready
      obtain rfl := Option.some.inj hstep
      exact hmove i .acquiring rfl (by rw [hready.2]; rfl)
    · exact absurd hstep (by simp)
  · split at hstep
    · rename_i i hwaiting
      obtain rfl := Option.some.inj hstep
      refine hmove i .done rfl ?_
      rcases hwaiting with hi | hi
      · rw [hi]
        rfl
      · rw [hi]
        rfl
    · exact absurd hstep (by simp)
  · split at hstep
    · rename_i i _ g hi
      obtain rfl := Option.some.inj hstep
      exact hmove i (.received g) rfl (by rw [hi]; rfl)
    · exact absurd hstep (by simp)
  · split at hstep
    · rename_i i _ g hi
      obtain rfl := Option.some.inj hstep
      exact h.acquire (i := i) (congrArg Caller.holds hi) rfl
    · exact absurd hstep (by simp)
  · split at hstep
    · rename_i i _ g hi
      obtain rfl := Option.some.inj hstep
      exact h.release (i := i) (congrArg Caller.holds hi) rfl
    · exact absurd hstep (by simp)
  · split at hstep
    · rename_i i _ g hi
      obtain rfl := Option.some.inj hstep
      exact hmove i .done rfl (by rw [hi]; rfl)
    · exact absurd hstep (by simp)
  · exact absurd hstep (by simp)

theorem step_listed (cfg : EngineConfig) (s : State) (a : Action) (t : State)
    (h : s.Listed) (hstep : step cfg s a = some t) : t.Listed := by
  unfold step at hstep
  split at hstep
  · split at hstep
    · obtain rfl := Option.some.inj hstep
      unfold Listed
      rw [pc_submit, roster_submit]
      exact h
    · exact absurd hstep (by simp)
  · obtain rfl := Option.some.inj hstep
    exact h
  · split at hstep
    · obtain rfl := Option.some.inj hstep
      exact h
    · exact absurd hstep (by simp)
  · obtain rfl := Option.some.inj hstep
    exact h
  · obtain rfl := Option.some.inj hstep
    exact h
  · exact ownerStep_listed h hstep
  · obtain ⟨-, hpc⟩ := callerStep_frame hstep
    unfold Listed
    rw [hpc]
    exact callerStep_agrees h hstep

end State

/-- The request that the owner has taken and not yet listed, and whether it is activated. -/
def OwnerPc.beginning : OwnerPc → Option (EmbeddingRequest × Bool)
  | .loading (.request _ r) | .entry (.request _ r) | .waking (.request _ r) => some (r, false)
  | .wakeCheck _ r => some (r, false)
  | .handling ⟨r, _, .activate⟩ _ _ => some (r, false)
  | .handling ⟨r, _, .enter⟩ _ _ => some (r, true)
  | _ => none

/-- Nothing that the owner has in hand will be listed as active. -/
structure OwnerPc.Rests (pc : OwnerPc) (lifecycle : Nat → RequestLifecycle) : Prop where
  beginning : ∀ r activated, pc.beginning = some (r, activated) →
    activated = false ∧ lifecycle r.context.lifecycle ≠ .queued
  entered : ∀ f ∈ pc.frames, f.phase.entered = false
  alone : pc.frames.tail = []

namespace OwnerPc
variable {pc : OwnerPc} {lifecycle : Nat → RequestLifecycle} {r : EmbeddingRequest}

theorem rests_empty (hframes : pc.frames = []) (hbeginning : pc.beginning = none) :
    pc.Rests lifecycle := by
  refine ⟨?_, ?_, ?_⟩
  · intro r activated hr
    exact absurd (hbeginning.symm.trans hr) (by simp)
  · intro f hf
    rw [hframes] at hf
    exact absurd hf (by simp)
  · rw [hframes]
    rfl

/-- A request in hand that can no longer be begun. -/
theorem rests_hand (hr : lifecycle r.context.lifecycle ≠ .queued)
    (hbeginning : pc.beginning = some (r, false))
    (hentered : ∀ f ∈ pc.frames, f.phase.entered = false) (halone : pc.frames.tail = []) :
    pc.Rests lifecycle := by
  refine ⟨?_, hentered, halone⟩
  intro r' activated hr'
  obtain ⟨rfl, rfl⟩ := Prod.mk.inj (Option.some.inj (hbeginning.symm.trans hr'))
  exact ⟨rfl, hr⟩

/-- The same request in hand at another place. -/
theorem Rests.move {next : OwnerPc} (h : pc.Rests lifecycle)
    (hbeginning : next.beginning = pc.beginning) (hframes : next.frames = []) :
    next.Rests lifecycle := by
  refine ⟨?_, ?_, ?_⟩
  · rw [hbeginning]
    exact h.beginning
  · intro f hf
    rw [hframes] at hf
    exact absurd hf (by simp)
  · rw [hframes]
    rfl

theorem rests_activate {c : EmbeddingRequestClass} {woken : Bool}
    (hr : lifecycle r.context.lifecycle ≠ .queued) :
    (OwnerPc.handling ⟨r, c, .activate⟩ [] woken).Rests lifecycle := by
  refine rests_hand hr rfl ?_ rfl
  intro f hf
  obtain rfl := List.mem_singleton.mp hf
  rfl

end OwnerPc

namespace State
variable {s t : State} {cfg : EngineConfig} {w : World}

/-- `CancellableRequestQueue::depth`. -/
def depth (s : State) (c : EmbeddingRequestClass) : Nat :=
  ((s.queue c).filter fun r => !s.isCancelled r).length

/-- A request that was taken from its queue is about to become active and not listed yet. -/
def unlisted (s : State) : Bool :=
  match s.pc.beginning with
  | none => false
  | some (r, activated) => activated || s.lifecycle r.context.lifecycle = .queued

/-- No request in a queue can still be begun, and none is listed. -/
structure Spent (s : State) : Prop where
  queued : ∀ c, ∀ r ∈ s.queue c, s.lifecycle r.context.lifecycle = .cancelled
  active : s.tracker.active = []

structure Quiet (s : State) : Prop where
  spent : s.Spent
  rests : s.pc.Rests s.lifecycle

theorem Quiet.depth_eq_zero (h : s.Quiet) (c : EmbeddingRequestClass) : s.depth c = 0 := by
  unfold depth
  rw [List.length_eq_zero_iff, List.filter_eq_nil_iff]
  intro r hr
  have hcancelled : s.isCancelled r = true := decide_eq_true (h.spent.queued c r hr)
  simp [hcancelled]

/-- What the snapshot shows is enough, unless a request is in the gap between pop and
`begin`. -/
theorem Listed.quiet (h : s.Listed) (hdepth : ∀ c, s.depth c = 0)
    (hactive : s.tracker.active = []) (hlisted : s.unlisted = false) : s.Quiet := by
  have hentered : ∀ f ∈ s.pc.frames, f.phase.entered = false := by
    have hempty := h.active.symm.trans hactive
    rw [List.reverse_eq_nil_iff, List.map_eq_nil_iff, List.filter_eq_nil_iff] at hempty
    intro f hf
    exact Bool.eq_false_of_not_eq_true (hempty f hf)
  refine ⟨⟨?_, hactive⟩, ⟨?_, hentered, ?_⟩⟩
  · intro c r hr
    have hnone := hdepth c
    unfold depth at hnone
    rw [List.length_eq_zero_iff, List.filter_eq_nil_iff] at hnone
    have hcancelled : s.isCancelled r = true := by simpa using hnone r hr
    exact lifecycle_of_isCancelled hcancelled
  · intro r activated hbeginning
    unfold unlisted at hlisted
    rw [hbeginning] at hlisted
    simpa using hlisted
  · by_contra hne
    obtain ⟨g, hg⟩ := List.exists_mem_of_ne_nil _ hne
    obtain ⟨tokens, offset, hphase⟩ := h.waiting g hg
    have hfalse := hentered g (List.mem_of_mem_tail hg)
    rw [hphase] at hfalse
    exact absurd hfalse (by simp [Phase.entered])

section Stable

/-- The queues, the cells and the listed requests. -/
def pendingWork (s : State) :
    (EmbeddingRequestClass → List EmbeddingRequest) × (Nat → RequestLifecycle) ×
      List ActiveRequest :=
  (s.queue, s.lifecycle, s.tracker.active)

theorem Spent.congr (h : s.Spent) (ht : t.pendingWork = s.pendingWork) : t.Spent := by
  have hqueue : t.queue = s.queue := congrArg Prod.fst ht
  have hlifecycle : t.lifecycle = s.lifecycle := congrArg (fun b => b.2.1) ht
  have hactive : t.tracker.active = s.tracker.active := congrArg (fun b => b.2.2) ht
  refine ⟨?_, hactive.trans h.active⟩
  rw [hqueue, hlifecycle]
  exact h.queued

theorem quiet_goto {pc : OwnerPc} (h : s.Spent) (ht : t.pendingWork = s.pendingWork)
    (hpc : pc.Rests s.lifecycle) : (t.goto pc).Quiet := by
  have hlifecycle : t.lifecycle = s.lifecycle := congrArg (fun b => b.2.1) ht
  refine ⟨h.congr ht, ?_⟩
  change pc.Rests t.lifecycle
  rw [hlifecycle]
  exact hpc

theorem Spent.prune (h : s.Spent) (c : EmbeddingRequestClass) (late : List Nat) :
    (s.pruneCancelled c late).Spent := by
  constructor
  · intro c' r hr
    apply h.queued c'
    unfold pruneCancelled at hr
    dsimp only at hr
    by_cases hc : c' = c
    · subst hc
      rw [Function.update_self] at hr
      exact List.mem_of_mem_filter hr
    · rw [Function.update_of_ne hc] at hr
      exact hr
  · exact (congrArg Prod.fst (AdmissionState.standing_dropped _ s.tracker)).trans h.active

/-- A pop finds only requests that were cancelled. -/
theorem Spent.pop (h : s.Spent) (c : EmbeddingRequestClass) (late : List Nat) :
    (s.tryPop c late).1.Spent ∧ (s.tryPop c late).1.lifecycle = s.lifecycle ∧
    ∀ r, (s.tryPop c late).2 = some r → s.lifecycle r.context.lifecycle ≠ .queued := by
  have hp := h.prune c late
  refine ⟨?_, lifecycle_tryPop c late, ?_⟩
  · unfold tryPop
    dsimp only
    split
    · exact hp
    · rename_i r rest hqueue
      refine ⟨?_, hp.active⟩
      intro c' r' hr'
      apply hp.queued c'
      dsimp only at hr'
      by_cases hc : c' = c
      · subst hc
        rw [Function.update_self] at hr'
        rw [hqueue]
        exact List.mem_cons_of_mem r hr'
      · rw [Function.update_of_ne hc] at hr'
        exact hr'
  · intro r hr
    unfold tryPop at hr
    dsimp only at hr
    split at hr
    · exact absurd hr (by simp)
    · rename_i r' rest hqueue
      obtain rfl := Option.some.inj hr
      have hcancelled := hp.queued c r' (by rw [hqueue]; exact List.mem_cons_self)
      intro hfalse
      exact absurd (hcancelled.symm.trans hfalse) (by simp)

theorem pendingWork_confirmResident (caller : Nat) (result : Option Nat) :
    (s.confirmResident caller result).pendingWork = s.pendingWork := by
  unfold confirmResident
  split <;> rfl

theorem pendingWork_grantResidencyLease (caller : Nat) :
    (s.grantResidencyLease caller).pendingWork = s.pendingWork := by
  unfold grantResidencyLease
  split <;> rfl

theorem pendingWork_refuseLease (caller : Nat) :
    (s.refuseLease caller).pendingWork = s.pendingWork := by
  unfold refuseLease
  split <;> rfl

theorem handleResidentControl_quiet (h : s.Spent) (message : Control) {next : OwnerPc}
    (hnext : next.Rests s.lifecycle) : (s.handleResidentControl message next).Quiet := by
  cases message with
  | shutdown => exact quiet_goto h rfl (OwnerPc.rests_empty rfl rfl)
  | ensureResident caller =>
    exact quiet_goto h (pendingWork_confirmResident (s := s.completeActivity) caller _) hnext
  | acquireLease caller => exact quiet_goto h (pendingWork_grantResidencyLease caller) hnext
  | releaseLease => exact quiet_goto h rfl hnext

theorem failWake_quiet (h : s.Spent) (wake : WakeReason) : (s.failWake wake).Quiet := by
  have hasleep : OwnerPc.asleep.Rests s.lifecycle := OwnerPc.rests_empty rfl rfl
  cases wake with
  | startup => exact quiet_goto h rfl (OwnerPc.rests_empty rfl rfl)
  | request c r => exact quiet_goto h rfl hasleep
  | ensureResident caller => exact quiet_goto h (pendingWork_confirmResident caller none) hasleep
  | acquireLease caller => exact quiet_goto h (pendingWork_refuseLease caller) hasleep

theorem serveWake_quiet {wake : WakeReason} (h : s.Spent)
    (hwake : (OwnerPc.waking wake).Rests s.lifecycle) : (s.serveWake wake).Quiet := by
  have htop : OwnerPc.top.Rests s.lifecycle := OwnerPc.rests_empty rfl rfl
  cases wake with
  | startup => exact quiet_goto h rfl htop
  | request c r =>
    exact quiet_goto h rfl (OwnerPc.rests_activate (hwake.beginning r false rfl).2)
  | ensureResident caller =>
    exact quiet_goto h (pendingWork_confirmResident (s := s.completeActivity) caller _) htop
  | acquireLease caller => exact quiet_goto h (pendingWork_grantResidencyLease caller) htop

theorem schedulerPop_quiet (h : s.Spent) (c : EmbeddingRequestClass) (second : Bool)
    (late : List Nat) : (s.schedulerPop c second late).Quiet := by
  obtain ⟨hspent, hlifecycle, hpopped⟩ := h.pop c late
  unfold schedulerPop
  split
  · rename_i r hresult
    rw [hresult] at hspent hlifecycle hpopped
    refine quiet_goto hspent rfl (OwnerPc.rests_activate ?_)
    rw [hlifecycle]
    exact hpopped r rfl
  · rename_i hresult
    rw [hresult] at hspent
    split
    · exact quiet_goto hspent rfl (OwnerPc.rests_empty rfl rfl)
    · exact quiet_goto hspent rfl (OwnerPc.rests_empty rfl rfl)

/-- Only the three phases outside the list are left, and activation fails. -/
theorem handleStep_quiet {f : Frame} {below : List Frame} {woken : Bool}
    (hpc : s.pc = .handling f below woken) (h : s.Quiet) :
    (s.handleStep cfg w f below woken).Quiet := by
  have hspent := h.spent
  have hrests := h.rests
  rw [hpc] at hrests
  obtain rfl : below = [] := hrests.alone
  obtain ⟨r, c, phase⟩ := f
  have hentered := hrests.entered ⟨r, c, phase⟩ List.mem_cons_self
  have hout : ∀ next : Phase, next.entered = false → next ≠ .activate → next ≠ .enter →
      (OwnerPc.handling ⟨r, c, next⟩ [] woken).Rests s.lifecycle := by
    intro next hnext hactivate henter
    refine ⟨?_, ?_, rfl⟩
    · intro r' activated hr'
      cases next <;> first
        | exact absurd rfl hactivate
        | exact absurd rfl henter
        | exact absurd hr' (by simp [OwnerPc.beginning])
    · intro f hf
      obtain rfl := List.mem_singleton.mp hf
      exact hnext
  cases phase with
  | activate =>
    have hcell := (hrests.beginning r false rfl).2
    have hfails : (s.lifecycle r.context.lifecycle).activate =
        (s.lifecycle r.context.lifecycle, false) := by
      cases hl : s.lifecycle r.context.lifecycle with
      | queued => exact absurd hl hcell
      | active => rfl
      | committed => rfl
      | cancelled => rfl
    have hsame : (s.withLifecycle r.context.lifecycle
      (s.lifecycle r.context.lifecycle)).pendingWork =
        s.pendingWork := by
      unfold withLifecycle pendingWork
      rw [Function.update_eq_self]
    unfold handleStep toPhase
    dsimp only
    rw [hfails]
    exact quiet_goto hspent hsame (hout .refused rfl (by simp) (by simp))
  | refused => exact quiet_goto hspent rfl (hout _ rfl (by simp) (by simp))
  | enter => exact absurd (hrests.beginning r true rfl).1 (by simp)
  | reply response => exact quiet_goto hspent rfl (OwnerPc.rests_empty rfl rfl)
  | hold | tokenize | live tokens offset | encode tokens offset | progress tokens offset
  | between tokens offset | recheck tokens offset | test result | commit result
  | finish result cancelled => exact absurd hentered (by simp [Phase.entered])

theorem residentSelect_quiet {deadline : Nat} (h : s.Spent)
    (hstep : s.residentSelect deadline = some t) : t.Quiet := by
  have htop : OwnerPc.top.Rests s.lifecycle := OwnerPc.rests_empty rfl rfl
  unfold residentSelect at hstep
  split at hstep
  · rename_i message rest _
    obtain rfl := Option.some.inj hstep
    exact handleResidentControl_quiet (s := s.withControl rest) (h.congr rfl) message htop
  · split at hstep
    · obtain rfl := Option.some.inj hstep
      exact quiet_goto h rfl htop
    · split at hstep
      · obtain rfl := Option.some.inj hstep
        exact quiet_goto h rfl htop
      · split at hstep
        · obtain rfl := Option.some.inj hstep
          split
          · exact quiet_goto h rfl (OwnerPc.rests_empty rfl rfl)
          · exact quiet_goto h rfl htop
        · exact absurd hstep (by simp)

theorem waitForWake_quiet (h : s.Quiet) (hstep : s.waitForWake = some t) : t.Quiet := by
  have hspent := h.spent
  unfold waitForWake at hstep
  split at hstep
  · obtain rfl := Option.some.inj hstep
    exact quiet_goto hspent rfl (OwnerPc.rests_empty rfl rfl)
  · obtain rfl := Option.some.inj hstep
    exact quiet_goto hspent rfl (OwnerPc.rests_empty rfl rfl)
  · obtain rfl := Option.some.inj hstep
    exact quiet_goto hspent rfl (OwnerPc.rests_empty rfl rfl)
  · obtain rfl := Option.some.inj hstep
    exact ⟨hspent.congr rfl, h.rests⟩
  · split at hstep
    · obtain rfl := Option.some.inj hstep
      exact quiet_goto hspent rfl (OwnerPc.rests_empty rfl rfl)
    · split at hstep
      · obtain rfl := Option.some.inj hstep
        exact quiet_goto hspent rfl (OwnerPc.rests_empty rfl rfl)
      · exact absurd hstep (by simp)

theorem ownerStep_quiet (h : s.Quiet) (hstep : s.ownerStep cfg w = some t) : t.Quiet := by
  have hspent := h.spent
  have hrests := h.rests
  unfold ownerStep at hstep
  cases hpc : s.pc with
  | loading wake =>
    rw [hpc] at hstep hrests
    obtain rfl := Option.some.inj hstep
    split
    · have hentry : (OwnerPc.entry wake).Rests s.lifecycle :=
        hrests.move (by cases wake <;> rfl) rfl
      exact ⟨hspent.congr rfl, hentry⟩
    · apply failWake_quiet
      apply hspent.congr
      unfold noteLoadFailure
      split <;> rfl
  | entry wake =>
    rw [hpc] at hrests
    have hwaking : (OwnerPc.waking wake).Rests s.lifecycle :=
      hrests.move (by cases wake <;> rfl) rfl
    simp only [hpc] at hstep
    split at hstep
    · rename_i message rest _
      obtain rfl := Option.some.inj hstep
      exact handleResidentControl_quiet (s := s.withControl rest) (hspent.congr rfl) message hwaking
    · obtain rfl := Option.some.inj hstep
      exact quiet_goto hspent rfl hwaking
  | waking wake =>
    rw [hpc] at hstep hrests
    obtain rfl := Option.some.inj hstep
    exact serveWake_quiet hspent hrests
  | top =>
    have htop : OwnerPc.top.Rests s.lifecycle := OwnerPc.rests_empty rfl rfl
    simp only [hpc] at hstep
    split at hstep
    · rename_i message rest _
      obtain rfl := Option.some.inj hstep
      exact handleResidentControl_quiet (s := s.withControl rest) (hspent.congr rfl) message htop
    · obtain rfl := Option.some.inj hstep
      exact quiet_goto hspent rfl (OwnerPc.rests_empty rfl rfl)
  | popping c second =>
    rw [hpc] at hstep
    obtain rfl := Option.some.inj hstep
    exact schedulerPop_quiet hspent c second w.late
  | selecting deadline =>
    rw [hpc] at hstep
    exact residentSelect_quiet hspent hstep
  | handling f below woken =>
    rw [hpc] at hstep
    obtain rfl := Option.some.inj hstep
    exact handleStep_quiet hpc h
  | asleep =>
    rw [hpc] at hstep
    exact waitForWake_quiet h hstep
  | wakePop c =>
    obtain ⟨hnext, hlifecycle, hpopped⟩ := hspent.pop c w.late
    simp only [hpc] at hstep
    split at hstep
    · rename_i r hresult
      obtain rfl := Option.some.inj hstep
      rw [hresult] at hnext hlifecycle hpopped
      refine quiet_goto hnext rfl (OwnerPc.rests_hand (r := r) ?_ rfl ?_ rfl)
      · rw [hlifecycle]
        exact hpopped r rfl
      · intro f hf
        exact absurd hf (by simp [OwnerPc.frames])
    · rename_i hresult
      obtain rfl := Option.some.inj hstep
      rw [hresult] at hnext
      exact quiet_goto hnext rfl (OwnerPc.rests_empty rfl rfl)
  | wakeCheck c r =>
    rw [hpc] at hrests
    simp only [hpc] at hstep
    split at hstep
    · obtain rfl := Option.some.inj hstep
      exact quiet_goto hspent rfl (OwnerPc.rests_empty rfl rfl)
    · obtain rfl := Option.some.inj hstep
      exact quiet_goto hspent rfl (hrests.move rfl rfl)
  | wakeReply r =>
    rw [hpc] at hstep
    obtain rfl := Option.some.inj hstep
    exact quiet_goto hspent rfl (OwnerPc.rests_empty rfl rfl)
  | stopped =>
    rw [hpc] at hstep
    exact absurd hstep (by simp)

end Stable

/-- Cancelling leaves no cell queued that was not. -/
theorem Quiet.cancel (h : s.Quiet) (cell : Nat) :
    (s.withLifecycle cell (s.lifecycle cell).cancel.1).Quiet := by
  have hcell : ∀ i, s.lifecycle i ≠ .queued →
      Function.update s.lifecycle cell (s.lifecycle cell).cancel.1 i ≠ .queued := by
    intro i hi
    by_cases hic : i = cell
    · subst hic
      rw [Function.update_self]
      cases s.lifecycle i <;> simp [RequestLifecycle.cancel]
    · rw [Function.update_of_ne hic]
      exact hi
  refine ⟨⟨?_, h.spent.active⟩, ⟨?_, h.rests.entered, h.rests.alone⟩⟩
  · intro c r hr
    have hcancelled := h.spent.queued c r hr
    change Function.update s.lifecycle cell (s.lifecycle cell).cancel.1 _ = .cancelled
    by_cases hic : r.context.lifecycle = cell
    · rw [← hic, Function.update_self, hcancelled]
      rfl
    · rw [Function.update_of_ne hic]
      exact hcancelled
  · intro r activated hr
    obtain ⟨hactivated, hqueued⟩ := h.rests.beginning r activated hr
    exact ⟨hactivated, hcell _ hqueued⟩

theorem callerStep_pendingWork {a : Action} (hstep : s.callerStep a = some t) :
    t.pendingWork = s.pendingWork := by
  unfold callerStep at hstep
  split at hstep
  all_goals
    first
    | split at hstep
      · obtain rfl := Option.some.inj hstep
        rfl
      · exact absurd hstep (by simp)
    | exact absurd hstep (by simp)

/-- Without a submission a quiet engine stays quiet. -/
theorem step_quiet {a : Action} (h : s.Quiet)
    (hsubmit : ∀ c context inputs late, a ≠ .submit c context inputs late)
    (hstep : step cfg s a = some t) : t.Quiet := by
  unfold step at hstep
  split at hstep
  · exact absurd rfl (hsubmit _ _ _ _)
  · obtain rfl := Option.some.inj hstep
    exact h.cancel _
  · split at hstep
    · obtain rfl := Option.some.inj hstep
      exact ⟨h.spent.congr rfl, h.rests⟩
    · exact absurd hstep (by simp)
  · obtain rfl := Option.some.inj hstep
    exact ⟨h.spent.congr rfl, h.rests⟩
  · obtain rfl := Option.some.inj hstep
    exact ⟨h.spent.congr rfl, h.rests⟩
  · exact ownerStep_quiet h hstep
  · have hpendingWork := callerStep_pendingWork hstep
    have hlifecycle : t.lifecycle = s.lifecycle := congrArg (fun b => b.2.1) hpendingWork
    obtain ⟨-, hpc⟩ := callerStep_frame hstep
    refine ⟨h.spent.congr hpendingWork, ?_⟩
    rw [hpc, hlifecycle]
    exact h.rests

section Callers

/-- An owner step as the others see it: it answers callers that wait and nobody else, and it
only ever takes requests out of the queues. -/
structure Serves (s t : State) : Prop where
  callers : ∀ i, t.callers i = s.callers i ∨
    (s.callers i = .ensuring ∧ ∃ g, t.callers i = .ensured g) ∨
    (s.callers i = .acquiring ∧ (t.callers i = .refused ∨ ∃ g, t.callers i = .granted g))
  grants : (∀ i, s.callers i ≠ .acquiring) → t.grants = s.grants
  queue : ∀ c, ∀ r ∈ t.queue c, r ∈ s.queue c

/-- Who waits, how many leases were granted, and the queues. -/
def front (s : State) : (Nat → Caller) × Nat × (EmbeddingRequestClass → List EmbeddingRequest) :=
  (s.callers, s.grants, s.queue)

theorem serves_of_eq (h : t.front = s.front) : s.Serves t := by
  have hcallers : t.callers = s.callers := congrArg Prod.fst h
  have hgrants : t.grants = s.grants := congrArg (fun f => f.2.1) h
  have hqueue : t.queue = s.queue := congrArg (fun f => f.2.2) h
  refine ⟨fun i => .inl (congrFun hcallers i), fun _ => hgrants, ?_⟩
  intro c r hr
  rw [hqueue] at hr
  exact hr

theorem Serves.of_same {p : State} (h : p.Serves t) (hp : p.front = s.front) : s.Serves t := by
  have hcallers : p.callers = s.callers := congrArg Prod.fst hp
  have hgrants : p.grants = s.grants := congrArg (fun f => f.2.1) hp
  have hqueue : p.queue = s.queue := congrArg (fun f => f.2.2) hp
  refine ⟨?_, ?_, ?_⟩
  · rw [← hcallers]
    exact h.callers
  · rw [← hcallers, ← hgrants]
    exact h.grants
  · rw [← hqueue]
    exact h.queue

theorem Serves.to_same {p : State} (h : s.Serves p) (hp : t.front = p.front) : s.Serves t := by
  have hcallers : t.callers = p.callers := congrArg Prod.fst hp
  have hgrants : t.grants = p.grants := congrArg (fun f => f.2.1) hp
  have hqueue : t.queue = p.queue := congrArg (fun f => f.2.2) hp
  refine ⟨?_, ?_, ?_⟩
  · rw [hcallers]
    exact h.callers
  · rw [hgrants]
    exact h.grants
  · rw [hqueue]
    exact h.queue

theorem serves_confirm (caller : Nat) (result : Option Nat) (pc : OwnerPc) :
    s.Serves ((s.confirmResident caller result).goto pc) := by
  unfold confirmResident
  split
  · rename_i hcaller
    refine ⟨?_, fun _ => rfl, fun _ _ hr => hr⟩
    intro i
    by_cases hi : i = caller
    · subst hi
      exact .inr (.inl ⟨hcaller, result, Function.update_self ..⟩)
    · exact .inl (Function.update_of_ne hi ..)
  · exact serves_of_eq rfl

theorem serves_grant (caller : Nat) (pc : OwnerPc) :
    s.Serves ((s.grantResidencyLease caller).goto pc) := by
  unfold grantResidencyLease
  split
  · rename_i hcaller
    refine ⟨?_, fun hnone => absurd hcaller (hnone caller), fun _ _ hr => hr⟩
    intro i
    by_cases hi : i = caller
    · subst hi
      exact .inr (.inr ⟨hcaller, .inr ⟨s.generation, Function.update_self ..⟩⟩)
    · exact .inl (Function.update_of_ne hi ..)
  · exact serves_of_eq rfl

theorem serves_refuse (caller : Nat) (pc : OwnerPc) :
    s.Serves ((s.refuseLease caller).goto pc) := by
  unfold refuseLease
  split
  · rename_i hcaller
    refine ⟨?_, fun _ => rfl, fun _ _ hr => hr⟩
    intro i
    by_cases hi : i = caller
    · subst hi
      exact .inr (.inr ⟨hcaller, .inl (Function.update_self ..)⟩)
    · exact .inl (Function.update_of_ne hi ..)
  · exact serves_of_eq rfl

theorem handleResidentControl_serves (message : Control) (rest : List Control) (next : OwnerPc) :
    s.Serves ((s.withControl rest).handleResidentControl message next) := by
  cases message with
  | shutdown => exact serves_of_eq rfl
  | ensureResident caller =>
    exact (serves_confirm (s := (s.withControl rest).completeActivity) caller _ next).of_same rfl
  | acquireLease caller =>
    exact (serves_grant (s := s.withControl rest) caller next).of_same rfl
  | releaseLease => exact serves_of_eq rfl

theorem tryPop_serves (c : EmbeddingRequestClass) (late : List Nat) :
    s.Serves (s.tryPop c late).1 := by
  have hprune : ∀ c', ∀ r ∈ (s.pruneCancelled c late).queue c', r ∈ s.queue c' := by
    intro c' r hr
    unfold pruneCancelled at hr
    dsimp only at hr
    by_cases hc : c' = c
    · subst hc
      rw [Function.update_self] at hr
      exact List.mem_of_mem_filter hr
    · rw [Function.update_of_ne hc] at hr
      exact hr
  unfold tryPop
  dsimp only
  split
  · exact ⟨fun i => .inl rfl, fun _ => rfl, hprune⟩
  · rename_i r rest hqueue
    refine ⟨fun i => .inl rfl, fun _ => rfl, ?_⟩
    intro c' r' hr'
    apply hprune c'
    dsimp only at hr'
    by_cases hc : c' = c
    · subst hc
      rw [Function.update_self] at hr'
      rw [hqueue]
      exact List.mem_cons_of_mem r hr'
    · rw [Function.update_of_ne hc] at hr'
      exact hr'

theorem handleStep_serves (f : Frame) (below : List Frame) (woken : Bool) :
    s.Serves (s.handleStep cfg w f below woken) := by
  obtain ⟨r, c, phase⟩ := f
  cases phase with
  | hold =>
    unfold handleStep
    dsimp only
    split
    · split
      · exact serves_of_eq rfl
      · exact serves_of_eq rfl
    · exact serves_of_eq rfl
  | between tokens offset =>
    have hpop := s.tryPop_serves .query w.late
    unfold handleStep
    dsimp only
    split
    · rename_i hresult
      rw [hresult] at hpop
      exact hpop.to_same rfl
    · rename_i hresult
      rw [hresult] at hpop
      exact hpop.to_same rfl
  | reply response =>
    cases below with
    | nil => exact serves_of_eq rfl
    | cons outer rest => exact serves_of_eq rfl
  | activate | refused | enter | tokenize | live tokens offset | encode tokens offset
  | progress tokens offset | recheck tokens offset | test result | commit result
  | finish result cancelled => exact serves_of_eq rfl

theorem residentSelect_serves {deadline : Nat} (hstep : s.residentSelect deadline = some t) :
    s.Serves t := by
  unfold residentSelect at hstep
  split at hstep
  · obtain rfl := Option.some.inj hstep
    exact handleResidentControl_serves _ _ _
  · split at hstep
    · obtain rfl := Option.some.inj hstep
      exact serves_of_eq rfl
    · split at hstep
      · obtain rfl := Option.some.inj hstep
        exact serves_of_eq rfl
      · split at hstep
        · obtain rfl := Option.some.inj hstep
          split
          · exact serves_of_eq rfl
          · exact serves_of_eq rfl
        · exact absurd hstep (by simp)

theorem waitForWake_serves (hstep : s.waitForWake = some t) : s.Serves t := by
  unfold waitForWake at hstep
  split at hstep
  · obtain rfl := Option.some.inj hstep
    exact serves_of_eq rfl
  · obtain rfl := Option.some.inj hstep
    exact serves_of_eq rfl
  · obtain rfl := Option.some.inj hstep
    exact serves_of_eq rfl
  · obtain rfl := Option.some.inj hstep
    exact serves_of_eq rfl
  · split at hstep
    · obtain rfl := Option.some.inj hstep
      exact serves_of_eq rfl
    · split at hstep
      · obtain rfl := Option.some.inj hstep
        exact serves_of_eq rfl
      · exact absurd hstep (by simp)

theorem failWake_serves (wake : WakeReason) : s.Serves (s.noteLoadFailure.failWake wake) := by
  have hnote : s.noteLoadFailure.front = s.front := by
    unfold noteLoadFailure
    split <;> rfl
  have hwake : s.noteLoadFailure.Serves (s.noteLoadFailure.failWake wake) := by
    cases wake with
    | startup => exact serves_of_eq rfl
    | request c r => exact serves_of_eq rfl
    | ensureResident caller => exact serves_confirm caller none .asleep
    | acquireLease caller => exact serves_refuse caller .asleep
  exact hwake.of_same hnote

theorem serveWake_serves (wake : WakeReason) : s.Serves (s.serveWake wake) := by
  cases wake with
  | startup => exact serves_of_eq rfl
  | request c r => exact serves_of_eq rfl
  | ensureResident caller =>
    exact (serves_confirm (s := s.completeActivity) caller _ .top).of_same rfl
  | acquireLease caller => exact serves_grant caller .top

theorem ownerStep_serves (hstep : s.ownerStep cfg w = some t) : s.Serves t := by
  unfold ownerStep at hstep
  split at hstep
  · obtain rfl := Option.some.inj hstep
    split
    · exact serves_of_eq rfl
    · exact failWake_serves _
  · split at hstep
    · obtain rfl := Option.some.inj hstep
      exact handleResidentControl_serves _ _ _
    · obtain rfl := Option.some.inj hstep
      exact serves_of_eq rfl
  · obtain rfl := Option.some.inj hstep
    exact serveWake_serves _
  · split at hstep
    · obtain rfl := Option.some.inj hstep
      exact handleResidentControl_serves _ _ _
    · obtain rfl := Option.some.inj hstep
      exact serves_of_eq rfl
  · rename_i c second _
    obtain rfl := Option.some.inj hstep
    have hpop := s.tryPop_serves c w.late
    unfold schedulerPop
    split
    · rename_i hresult
      rw [hresult] at hpop
      exact hpop.to_same rfl
    · rename_i hresult
      rw [hresult] at hpop
      split
      · exact hpop.to_same rfl
      · exact hpop.to_same rfl
  · exact residentSelect_serves hstep
  · obtain rfl := Option.some.inj hstep
    exact handleStep_serves _ _ _
  · exact waitForWake_serves hstep
  · rename_i c _
    have hpop := s.tryPop_serves c w.late
    split at hstep
    · rename_i hresult
      obtain rfl := Option.some.inj hstep
      rw [hresult] at hpop
      exact hpop.to_same rfl
    · rename_i hresult
      obtain rfl := Option.some.inj hstep
      rw [hresult] at hpop
      exact hpop.to_same rfl
  · split at hstep
    · obtain rfl := Option.some.inj hstep
      exact serves_of_eq rfl
    · obtain rfl := Option.some.inj hstep
      exact serves_of_eq rfl
  · obtain rfl := Option.some.inj hstep
    exact serves_of_eq rfl
  · exact absurd hstep (by simp)

/-- A caller's step concerns itself alone, and neither grants nor queues anything. -/
theorem callerStep_callers {a : Action} (hstep : s.callerStep a = some t) :
    t.grants = s.grants ∧ t.queue = s.queue ∧
    ∀ i, t.callers i = s.callers i ∨
      (t.callers i = .acquiring → a = .acquireLease i) ∧
      ((t.callers i).holds = true → a = .leaseAcquired i) := by
  have hone : ∀ (j : Nat) (next : Caller), (next = .acquiring → a = .acquireLease j) →
      (next.holds = true → a = .leaseAcquired j) → ∀ i,
      Function.update s.callers j next i = s.callers i ∨
        (Function.update s.callers j next i = .acquiring → a = .acquireLease i) ∧
        ((Function.update s.callers j next i).holds = true → a = .leaseAcquired i) := by
    intro j next hacquiring hholds i
    by_cases hi : i = j
    · subst hi
      rw [Function.update_self]
      exact .inr ⟨hacquiring, hholds⟩
    · exact .inl (Function.update_of_ne hi _ _)
  unfold callerStep at hstep
  split at hstep
  · split at hstep
    · obtain rfl := Option.some.inj hstep
      exact ⟨rfl, rfl, hone _ .ensuring (by simp) (by simp [Caller.holds])⟩
    · exact absurd hstep (by simp)
  · split at hstep
    · obtain rfl := Option.some.inj hstep
      exact ⟨rfl, rfl, hone _ .acquiring (fun _ => rfl) (by simp [Caller.holds])⟩
    · exact absurd hstep (by simp)
  · split at hstep
    · obtain rfl := Option.some.inj hstep
      exact ⟨rfl, rfl, hone _ .done (by simp) (by simp [Caller.holds])⟩
    · exact absurd hstep (by simp)
  · split at hstep
    · rename_i g _
      obtain rfl := Option.some.inj hstep
      exact ⟨rfl, rfl, hone _ (.received g) (by simp) (by simp [Caller.holds])⟩
    · exact absurd hstep (by simp)
  · split at hstep
    · rename_i g _
      obtain rfl := Option.some.inj hstep
      exact ⟨rfl, rfl, hone _ (.holding g) (by simp) (fun _ => rfl)⟩
    · exact absurd hstep (by simp)
  · split at hstep
    · rename_i g _
      obtain rfl := Option.some.inj hstep
      exact ⟨rfl, rfl, hone _ (.releasing g) (by simp) (by simp [Caller.holds])⟩
    · exact absurd hstep (by simp)
  · split at hstep
    · obtain rfl := Option.some.inj hstep
      exact ⟨rfl, rfl, hone _ .done (by simp) (by simp [Caller.holds])⟩
    · exact absurd hstep (by simp)
  · exact absurd hstep (by simp)

theorem submit_callers (c : EmbeddingRequestClass) (context : RequestContext)
    (inputs : List String) (late : List Nat) :
    (s.submit c context inputs late).callers = s.callers ∧
      (s.submit c context inputs late).grants = s.grants := by
  unfold submit tryPush
  dsimp only
  split
  · exact ⟨rfl, rfl⟩
  · split
    · exact ⟨rfl, rfl⟩
    · exact ⟨rfl, rfl⟩

/-- Who waits for a lease or holds one after a step did so before, or this was its step; and
leases are granted only to those who wait. -/
theorem step_callers {a : Action} (hstep : step cfg s a = some t) :
    (∀ i, t.callers i = .acquiring → s.callers i = .acquiring ∨ a = .acquireLease i) ∧
    (∀ i, (t.callers i).holds = true → (s.callers i).holds = true ∨ a = .leaseAcquired i) ∧
    ((∀ i, s.callers i ≠ .acquiring) → t.grants = s.grants) := by
  have hsame : t.callers = s.callers → t.grants = s.grants →
      (∀ i, t.callers i = .acquiring → s.callers i = .acquiring ∨ a = .acquireLease i) ∧
      (∀ i, (t.callers i).holds = true → (s.callers i).holds = true ∨ a = .leaseAcquired i) ∧
      ((∀ i, s.callers i ≠ .acquiring) → t.grants = s.grants) := by
    intro hcallers hgrants
    rw [hcallers]
    exact ⟨fun _ hi => .inl hi, fun _ hi => .inl hi, fun _ => hgrants⟩
  unfold step at hstep
  split at hstep
  · rename_i c context inputs late
    split at hstep
    · obtain rfl := Option.some.inj hstep
      obtain ⟨hcallers, hgrants⟩ := s.submit_callers c context inputs late
      exact hsame hcallers hgrants
    · exact absurd hstep (by simp)
  · obtain rfl := Option.some.inj hstep
    exact hsame rfl rfl
  · split at hstep
    · obtain rfl := Option.some.inj hstep
      exact hsame rfl rfl
    · exact absurd hstep (by simp)
  · obtain rfl := Option.some.inj hstep
    exact hsame rfl rfl
  · obtain rfl := Option.some.inj hstep
    exact hsame rfl rfl
  · have hserves := ownerStep_serves hstep
    refine ⟨?_, ?_, hserves.grants⟩
    · intro i hi
      rcases hserves.callers i with heq | ⟨-, g, hg⟩ | ⟨-, hr | ⟨g, hg⟩⟩
      · exact .inl (heq ▸ hi)
      · exact absurd (hg.symm.trans hi) (by simp)
      · exact absurd (hr.symm.trans hi) (by simp)
      · exact absurd (hg.symm.trans hi) (by simp)
    · intro i hi
      rcases hserves.callers i with heq | ⟨-, g, hg⟩ | ⟨-, hr | ⟨g, hg⟩⟩
      · exact .inl (heq ▸ hi)
      · rw [hg] at hi
        exact absurd hi (by simp [Caller.holds])
      · rw [hr] at hi
        exact absurd hi (by simp [Caller.holds])
      · rw [hg] at hi
        exact absurd hi (by simp [Caller.holds])
  · obtain ⟨hgrants, -, hcallers⟩ := callerStep_callers hstep
    refine ⟨?_, ?_, fun _ => hgrants⟩
    · intro i hi
      rcases hcallers i with heq | ⟨hacquiring, -⟩
      · exact .inl (heq ▸ hi)
      · exact .inr (hacquiring hi)
    · intro i hi
      rcases hcallers i with heq | ⟨-, hholds⟩
      · exact .inl (heq ▸ hi)
      · exact .inr (hholds hi)

/-- A lease is held until its own release. -/
theorem callerStep_holder {a : Action} (hstep : s.callerStep a = some t) {i : Nat}
    (hi : (s.callers i).holds = true) : (t.callers i).holds = true ∨ a = .leaseReleased i := by
  have hone : ∀ (j : Nat) (next : Caller), ((s.callers j).holds = true → a = .leaseReleased j) →
      (Function.update s.callers j next i).holds = true ∨ a = .leaseReleased i := by
    intro j next hbefore
    by_cases hij : i = j
    · subst hij
      exact .inr (hbefore hi)
    · rw [Function.update_of_ne hij]
      exact .inl hi
  unfold callerStep at hstep
  split at hstep
  · split at hstep
    · rename_i j hidle
      obtain rfl := Option.some.inj hstep
      exact hone j .ensuring (by simp [hidle.2, Caller.holds])
    · exact absurd hstep (by simp)
  · split at hstep
    · rename_i j hidle
      obtain rfl := Option.some.inj hstep
      exact hone j .acquiring (by simp [hidle.2, Caller.holds])
    · exact absurd hstep (by simp)
  · split at hstep
    · rename_i j hwaits
      obtain rfl := Option.some.inj hstep
      apply hone j .done
      rcases hwaits with hwaits | hwaits
      · simp [hwaits, Caller.holds]
      · simp [hwaits, Caller.holds]
    · exact absurd hstep (by simp)
  · split at hstep
    · rename_i g hgranted
      obtain rfl := Option.some.inj hstep
      exact hone _ (.received g) (by simp [hgranted, Caller.holds])
    · exact absurd hstep (by simp)
  · split at hstep
    · rename_i g hreceived
      obtain rfl := Option.some.inj hstep
      exact hone _ (.holding g) (by simp [hreceived, Caller.holds])
    · exact absurd hstep (by simp)
  · split at hstep
    · rename_i g _
      obtain rfl := Option.some.inj hstep
      exact hone _ (.releasing g) (fun _ => rfl)
    · exact absurd hstep (by simp)
  · split at hstep
    · rename_i g hreleasing
      obtain rfl := Option.some.inj hstep
      exact hone _ .done (by simp [hreleasing, Caller.holds])
    · exact absurd hstep (by simp)
  · exact absurd hstep (by simp)

theorem step_holder {a : Action} (hstep : step cfg s a = some t) {i : Nat}
    (hi : (s.callers i).holds = true) : (t.callers i).holds = true ∨ a = .leaseReleased i := by
  unfold step at hstep
  split at hstep
  · rename_i c context inputs late
    split at hstep
    · obtain rfl := Option.some.inj hstep
      rw [(s.submit_callers c context inputs late).1]
      exact .inl hi
    · exact absurd hstep (by simp)
  · obtain rfl := Option.some.inj hstep
    exact .inl hi
  · split at hstep
    · obtain rfl := Option.some.inj hstep
      exact .inl hi
    · exact absurd hstep (by simp)
  · obtain rfl := Option.some.inj hstep
    exact .inl hi
  · obtain rfl := Option.some.inj hstep
    exact .inl hi
  · rcases (ownerStep_serves hstep).callers i with heq | ⟨hensuring, -⟩ | ⟨hacquiring, -⟩
    · rw [heq]
      exact .inl hi
    · rw [hensuring] at hi
      exact absurd hi (by simp [Caller.holds])
    · rw [hacquiring] at hi
      exact absurd hi (by simp [Caller.holds])
  · exact callerStep_holder hstep hi

/-- The owner alone gives nobody a lease, and asks for none. -/
theorem run_owner_callers {actions : List Action} (howner : ∀ a ∈ actions, ∃ w, a = .owner w)
    (hrun : run (step cfg) s actions = some t) :
    ((∀ i, (s.callers i).holds = false) → ∀ i, (t.callers i).holds = false) ∧
      ((∀ i, s.callers i ≠ .acquiring) → ∀ i, t.callers i ≠ .acquiring) := by
  refine ⟨?_, ?_⟩
  · apply run_invariant (I := fun s => ∀ i, (s.callers i).holds = false) _ hrun
    intro a ha s t hs hstep i
    obtain ⟨w, rfl⟩ := howner a ha
    by_contra hi
    rcases (step_callers hstep).2.1 i (Bool.of_not_eq_false hi) with hbefore | hacquired
    · exact absurd ((hs i).symm.trans hbefore) (by simp)
    · exact absurd hacquired (by simp)
  · apply run_invariant (I := fun s => ∀ i, s.callers i ≠ .acquiring) _ hrun
    intro a ha s t hs hstep i hi
    obtain ⟨w, rfl⟩ := howner a ha
    rcases (step_callers hstep).1 i hi with hbefore | hasked
    · exact hs i hbefore
    · exact absurd hasked (by simp)

/-- Only a submission puts requests into a queue. -/
theorem step_queue {a : Action} (hsubmit : ∀ c context inputs late,
      a ≠ .submit c context inputs late) (hstep : step cfg s a = some t)
    (c : EmbeddingRequestClass) : ∀ r ∈ t.queue c, r ∈ s.queue c := by
  unfold step at hstep
  split at hstep
  · exact absurd rfl (hsubmit _ _ _ _)
  · obtain rfl := Option.some.inj hstep
    exact fun _ hr => hr
  · split at hstep
    · obtain rfl := Option.some.inj hstep
      exact fun _ hr => hr
    · exact absurd hstep (by simp)
  · obtain rfl := Option.some.inj hstep
    exact fun _ hr => hr
  · obtain rfl := Option.some.inj hstep
    exact fun _ hr => hr
  · exact (ownerStep_serves hstep).queue c
  · obtain ⟨-, hqueue, -⟩ := callerStep_callers hstep
    rw [hqueue]
    exact fun _ hr => hr

/-- A depth that is zero stays zero without a submission: cancelled cells stay cancelled. -/
theorem step_depth {a : Action} (hsubmit : ∀ c context inputs late,
      a ≠ .submit c context inputs late) (hstep : step cfg s a = some t)
    {c : EmbeddingRequestClass} (hdepth : s.depth c = 0) : t.depth c = 0 := by
  unfold depth at hdepth ⊢
  rw [List.length_eq_zero_iff, List.filter_eq_nil_iff] at hdepth ⊢
  intro r hr
  have hbefore := hdepth r (step_queue hsubmit hstep c r hr)
  have hcancelled := lifecycle_of_isCancelled (r := r) (by simpa using hbefore)
  have hkept := step_keeps cfg s a t hstep r.context.lifecycle (.inr hcancelled)
  have hafter : t.isCancelled r = true := decide_eq_true (hkept.trans hcancelled)
  simp [hafter]

end Callers

/-- An engine that nobody has used yet: before it is initialised. -/
structure Fresh (s : State) : Prop where
  started : s.started = false
  queue : ∀ c, s.queue c = []
  callers : ∀ i, s.callers i = .idle
  active : s.tracker.active = []
  pc : s.pc = .loading .startup

theorem Fresh.quiet (h : s.Fresh) : s.Quiet := by
  refine ⟨⟨?_, h.active⟩, ?_⟩
  · intro c r hr
    rw [h.queue c] at hr
    exact absurd hr (by simp)
  · rw [h.pc]
    exact OwnerPc.rests_empty rfl rfl

/-- Nothing can be asked of it. -/
theorem Fresh.step_none (h : s.Fresh) {a : Action}
    (hcancel : ∀ cell, a ≠ .cancel cell) (hhold : ∀ c held, a ≠ .hold c held)
    (htick : a ≠ .tick) (howner : ∀ w, a ≠ .owner w) : step cfg s a = none := by
  have hcallers := h.callers
  have hstarted := h.started
  cases a with
  | cancel cell => exact absurd rfl (hcancel cell)
  | hold c held => exact absurd rfl (hhold c held)
  | tick => exact absurd rfl htick
  | owner w => exact absurd rfl (howner w)
  | submit c context inputs late | shutdown => simp [step, hstarted]
  | ensureResident i | acquireLease i => simp [step, callerStep, hstarted]
  | abandon i | receive i | leaseAcquired i | leaseReleased i | sendRelease i =>
    simp [step, callerStep, hcallers]

end State

end CodeStory.Engine
