import CodeStory.Embedding.Gate

/-!
# What the steps of a handler leave alone

A handler's step moves that handler, and changes the shared state in one place only. Which
place it is depends on where the handler stands: only a registered one talks to the engine,
and only one that has found draining not begun may initialise it.
-/

set_option autoImplicit false

namespace CodeStory.Server

open Transition

namespace State
variable {s t : State} {cfg : Config} {i : Nat}

/-- An engine step that neither submits a request nor asks for a lease. -/
def Idles (cfg : Config) (e e' : Engine.State) : Prop :=
  e' = e ∨ e' = e.withTracker (e.tracker.setOwnerState .draining) ∨
    ∃ a, (∀ c context inputs late, a ≠ .submit c context inputs late) ∧
      (∀ j, a ≠ .acquireLease j) ∧ Engine.State.step cfg.engine e a = some e'

/-- What a step of handler `i` leaves alone. -/
structure HandlerFrame (cfg : Config) (s t : State) (i : Nat) : Prop where
  loop : t.loop = s.loop
  clock : t.clock = s.clock
  drained : s.drained = true → t.drained = true
  begins : t.drained = s.drained ∨ ∃ d, s.handlers i = .hello d
  others : ∀ j, j ≠ i → t.handlers j = s.handlers j
  slot : t.slot = s.slot ∨ ∃ op, s.handlers i = .openEngine op
  native : Idles cfg s.native t.native ∨
    ∃ op, s.handlers i = .openEngine op ∨ s.handlers i = .ready op

theorem frame_of (next : Handler) (hloop : t.loop = s.loop) (hclock : t.clock = s.clock)
    (hdrained : s.drained = true → t.drained = true)
    (hbegins : t.drained = s.drained ∨ ∃ d, s.handlers i = .hello d)
    (hhandlers : t.handlers = Function.update s.handlers i next)
    (hslot : t.slot = s.slot ∨ ∃ op, s.handlers i = .openEngine op)
    (hnative : Idles cfg s.native t.native ∨
      ∃ op, s.handlers i = .openEngine op ∨ s.handlers i = .ready op) :
    HandlerFrame cfg s t i := by
  refine ⟨hloop, hclock, hdrained, hbegins, ?_, hslot, hnative⟩
  intro j hj
  rw [hhandlers, Function.update_of_ne hj]

/-- The handler moves on, and at most permits, entries, the gate and the window change. -/
theorem frame_set (next : Handler) (ht : t.loop = s.loop ∧ t.clock = s.clock ∧
      t.drained = s.drained ∧ t.slot = s.slot ∧ t.native = s.native)
    (hhandlers : t.handlers = Function.update s.handlers i next) : HandlerFrame cfg s t i := by
  obtain ⟨hloop, hclock, hdrained, hslot, hnative⟩ := ht
  exact frame_of next hloop hclock (fun h => hdrained.trans h) (.inl hdrained) hhandlers
    (.inl hslot) (.inl (.inl hnative))

theorem idles_cancel (cell : Nat) :
    Idles cfg s.native (s.native.withLifecycle cell (s.native.lifecycle cell).cancel.1) :=
  .inr (.inr ⟨.cancel cell, by simp, by simp, rfl⟩)

theorem frame_leave (course : Course) : HandlerFrame cfg s (s.leave i course) i := by
  unfold State.leave
  split
  · exact frame_of (.finishActive false) rfl rfl id (.inl rfl) rfl (.inl rfl)
      (.inl (s.idles_cancel i))
  · exact frame_set (.finishActive false) ⟨rfl, rfl, rfl, rfl, rfl⟩ rfl

theorem frame_engine (next : Handler) {a : Engine.Action}
    (haction : (∀ c context inputs late, a ≠ .submit c context inputs late) ∧
        (∀ j, a ≠ .acquireLease j) ∨
      ∃ op, s.handlers i = .openEngine op ∨ s.handlers i = .ready op)
    (hstep : (s.engineStep cfg a).map (fun s => s.setHandler i next) = some t) :
    HandlerFrame cfg s t i := by
  obtain ⟨u, hu, rfl⟩ := Option.map_eq_some_iff.mp hstep
  obtain ⟨native, hnative, rfl⟩ := Option.map_eq_some_iff.mp hu
  refine frame_of next rfl rfl id (.inl rfl) rfl (.inl rfl) ?_
  rcases haction with ⟨hsubmit, hacquire⟩ | hasks
  · exact .inl (.inr (.inr ⟨a, hsubmit, hacquire, hnative⟩))
  · exact .inr hasks

theorem frame_releasePermit (next : Handler) :
    HandlerFrame cfg s ((s.releasePermit i).setHandler i next) i := by
  unfold State.releasePermit
  split
  · exact frame_set next ⟨rfl, rfl, rfl, rfl, rfl⟩ rfl
  · exact frame_set next ⟨rfl, rfl, rfl, rfl, rfl⟩ rfl

/-- What an operation of `begin_draining_if_idle` leaves alone. -/
structure DrainKeeps (s t : State) : Prop where
  clock : t.clock = s.clock
  active : t.active = s.active
  window : t.lastWorkEndedNs = s.lastWorkEndedNs
  permits : t.permits = s.permits
  depths : t.depths = s.depths
  cancellations : t.cancellations = s.cancellations
  drained : s.drained = true → t.drained = true

theorem drainStep_keeps {me : Thread} {d : Drain} {r : Drain ⊕ Bool}
    (hdrain : s.drainStep me d = some (t, r)) : DrainKeeps s t := by
  obtain ⟨gate, draining, drained, native, rfl, hdrained, -⟩ := drainStep_updates hdrain
  exact ⟨rfl, rfl, rfl, rfl, rfl, rfl, hdrained⟩

theorem frame_hello {d : Drain} {turn : Turn} (hpc : s.handlers i = .hello d)
    (hstep : s.handlerStep cfg i turn = some t) : HandlerFrame cfg s t i := by
  simp only [handlerStep, hpc] at hstep
  obtain ⟨⟨u, r⟩, hdrain, rfl⟩ := Option.map_eq_some_iff.mp hstep
  obtain ⟨-, hloop, hhandlers, -, hslot, hnative⟩ := drainStep_frame hdrain
  obtain ⟨hclock, -, -, -, -, -, hdrained⟩ := drainStep_keeps hdrain
  have hidles : Idles cfg s.native u.native := by
    rcases hnative with hsame | htracker
    · exact .inl hsame
    · exact .inr (.inl htracker)
  have hset : ∀ next : Handler, HandlerFrame cfg s (u.setHandler i next) i := by
    intro next
    refine frame_of next hloop hclock hdrained (.inr ⟨d, hpc⟩) ?_ (.inl hslot) (.inl hidles)
    rw [← hhandlers]
    rfl
  cases r with
  | inl d' => exact hset (.hello d')
  | inr result => exact hset .done

theorem frame_callEngine {op : Operation} {w : Engine.World} (hpc : s.handlers i = .ready op)
    (hstep : s.callEngine cfg i op w = some t) : HandlerFrame cfg s t i := by
  cases op with
  | embed c requestId inputs | ensureResident | acquireLease =>
    exact frame_engine _ (.inr ⟨_, .inr hpc⟩) hstep

theorem frame_openEngine {op : Operation} {turn : Turn} (hpc : s.handlers i = .openEngine op)
    (hstep : s.handlerStep cfg i turn = some t) : HandlerFrame cfg s t i := by
  simp only [handlerStep, hpc] at hstep
  split at hstep
  · obtain rfl := Option.some.inj hstep
    exact frame_set _ ⟨rfl, rfl, rfl, rfl, rfl⟩ rfl
  · split at hstep
    · rename_i u hu
      obtain rfl := Option.some.inj hstep
      unfold State.initializeEngine at hu
      split at hu
      · obtain ⟨native, -, rfl⟩ := Option.map_eq_some_iff.mp hu
        exact frame_of _ rfl rfl id (.inl rfl) rfl (.inr ⟨op, hpc⟩) (.inr ⟨op, .inl hpc⟩)
      · exact absurd hu (by simp)
    · obtain rfl := Option.some.inj hstep
      exact frame_set _ ⟨rfl, rfl, rfl, rfl, rfl⟩ rfl

theorem frame_leasing {turn : Turn} (hpc : s.handlers i = .leasing)
    (hstep : s.handlerStep cfg i turn = some t) : HandlerFrame cfg s t i := by
  simp only [handlerStep, hpc] at hstep
  split at hstep
  · obtain ⟨native, hnative, rfl⟩ := Option.map_eq_some_iff.mp hstep
    exact ⟨rfl, rfl, id, .inl rfl, fun _ _ => rfl, .inl rfl,
      .inl (.inr (.inr ⟨_, by simp, by simp, hnative⟩))⟩
  · exact frame_engine _ (.inl ⟨by simp, by simp⟩) hstep
  · obtain rfl := Option.some.inj hstep
    exact frame_leave .fail
  · exact absurd hstep (by simp)

theorem handlerStep_frame {turn : Turn} (hstep : s.handlerStep cfg i turn = some t) :
    HandlerFrame cfg s t i := by
  cases hpc : s.handlers i with
  | hello d => exact frame_hello hpc hstep
  | openEngine op => exact frame_openEngine hpc hstep
  | leasing => exact frame_leasing hpc hstep
  | idle | done =>
    simp only [handlerStep, hpc] at hstep
    exact absurd hstep (by simp)
  | admitting op | checkBegin op | insertBegin op | unlockBegin op ok | checkEngine op
  | unlockEngine op ok | leased | holding | dropRestart thenFinish | finishActive keepsLease
  | finishRestart keepsLease =>
    simp only [handlerStep, hpc] at hstep
    obtain rfl := Option.some.inj hstep
    exact frame_set _ ⟨rfl, rfl, rfl, rfl, rfl⟩ rfl
  | acquiring op activeExecution =>
    simp only [handlerStep, hpc] at hstep
    obtain rfl := Option.some.inj hstep
    unfold tryAcquire
    dsimp only
    split
    · exact frame_set .done ⟨rfl, rfl, rfl, rfl, rfl⟩ rfl
    · exact frame_set (.admitted op) ⟨rfl, rfl, rfl, rfl, rfl⟩ rfl
  | admitted op =>
    simp only [handlerStep, hpc] at hstep
    split at hstep
    · obtain rfl := Option.some.inj hstep
      exact frame_of .dropPermit rfl rfl id (.inl rfl) rfl (.inl rfl) (.inl (s.idles_cancel i))
    · obtain rfl := Option.some.inj hstep
      exact frame_set _ ⟨rfl, rfl, rfl, rfl, rfl⟩ rfl
  | lockBegin op | lockEngine op =>
    simp only [handlerStep, hpc] at hstep
    split at hstep
    · obtain rfl := Option.some.inj hstep
      exact frame_set _ ⟨rfl, rfl, rfl, rfl, rfl⟩ rfl
    · exact absurd hstep (by simp)
  | dropPermit =>
    simp only [handlerStep, hpc] at hstep
    obtain rfl := Option.some.inj hstep
    exact frame_releasePermit _
  | registered op =>
    simp only [handlerStep, hpc] at hstep
    split at hstep
    · obtain rfl := Option.some.inj hstep
      exact frame_leave .giveUp
    · obtain rfl := Option.some.inj hstep
      exact frame_set _ ⟨rfl, rfl, rfl, rfl, rfl⟩ rfl
  | ready op =>
    simp only [handlerStep, hpc] at hstep
    split at hstep
    · exact frame_callEngine hpc hstep
    · obtain rfl := Option.some.inj hstep
      exact frame_leave _
  | submitted =>
    simp only [handlerStep, hpc] at hstep
    split at hstep
    · split at hstep
      · obtain rfl := Option.some.inj hstep
        exact frame_leave .fail
      · exact absurd hstep (by simp)
    · obtain rfl := Option.some.inj hstep
      exact frame_leave _
  | ensuring =>
    simp only [handlerStep, hpc] at hstep
    split at hstep
    · obtain rfl := Option.some.inj hstep
      exact frame_leave .fail
    · exact absurd hstep (by simp)
  | dropRelease thenFinish | dropSend thenFinish =>
    simp only [handlerStep, hpc] at hstep
    exact frame_engine _ (.inl ⟨by simp, by simp⟩) hstep
  | finishCancellation keepsLease =>
    simp only [handlerStep, hpc] at hstep
    obtain rfl := Option.some.inj hstep
    have hframe : HandlerFrame cfg s
        ((s.releasePermit i).setHandler i (.finishRestart keepsLease)) i := frame_releasePermit _
    exact ⟨hframe.loop, hframe.clock, hframe.drained, hframe.begins, hframe.others, hframe.slot,
      hframe.native⟩

section Draining

/-- Where a thread stands in `begin_draining_if_idle`, if it is in it. -/
def drainAt (s : State) : Thread → Option Drain
  | .acceptLoop =>
    match s.loop with
    | .drain d => some d
    | _ => none
  | .handler i =>
    match s.handlers i with
    | .hello d => some d
    | _ => none

theorem marks_drainAt {th : Thread} {d : Drain} (hd : s.drainAt th = some d) :
    s.view.marks th = d.marks := by
  cases th with
  | acceptLoop =>
    simp only [drainAt] at hd
    split at hd
    · rename_i hloop
      obtain rfl := Option.some.inj hd
      exact congrArg AcceptLoop.marks hloop
    · exact absurd hd (by simp)
  | handler i =>
    simp only [drainAt] at hd
    split at hd
    · rename_i hhandler
      obtain rfl := Option.some.inj hd
      exact congrArg Handler.marks hhandler
    · exact absurd hd (by simp)

theorem drainAt_hello {d : Drain} (hpc : s.handlers i = .hello d) :
    s.drainAt (.handler i) = some d := by
  simp only [drainAt, hpc]

theorem drainAt_none (hpc : ∀ d, s.handlers i ≠ .hello d) : s.drainAt (.handler i) = none := by
  cases h : s.handlers i with
  | hello d => exact absurd h (hpc d)
  | _ => simp only [drainAt, h]

theorem drainAt_congr (hloop : t.loop = s.loop) {th : Thread}
    (hth : ∀ j, th = .handler j → t.handlers j = s.handlers j) : t.drainAt th = s.drainAt th := by
  cases th with
  | acceptLoop => simp only [drainAt, hloop]
  | handler j => simp only [drainAt, hth j rfl]

end Draining

end State

end CodeStory.Server
