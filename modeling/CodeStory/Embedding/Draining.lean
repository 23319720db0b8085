import CodeStory.Embedding.Shutdown

/-!
# What draining has found, and what follows it

Once draining has begun nothing is registered, no engine is initialised and no lease is
granted. That the native engine has no request left either rests on its snapshot, and the
snapshot does not show a request that the owner has popped and not begun.
-/

set_option autoImplicit false

namespace CodeStory.Server

open Transition

/-- What the reads of the engine's snapshot have shown so far. -/
def Drain.FoundQuiet (d : Drain) (e : Engine.State) : Prop :=
  match d with
  | .native (.bulk true) => e.depth .query = 0
  | .native (.tracker true) => e.depth .query = 0 ∧ e.depth .bulk = 0
  | .owner | .unlock true true => e.Quiet
  | _ => True

namespace State
variable {s t : State} {cfg : Config} {i : Nat}

section Idles
variable {e e' : Engine.State}

theorem Idles.depth (h : Idles cfg e e') {c : EmbeddingRequestClass} (hdepth : e.depth c = 0) :
    e'.depth c = 0 := by
  rcases h with rfl | rfl | ⟨a, hsubmit, -, hstep⟩
  · exact hdepth
  · exact hdepth
  · exact Engine.State.step_depth hsubmit hstep hdepth

theorem Idles.quiet (h : Idles cfg e e') (hquiet : e.Quiet) : e'.Quiet := by
  rcases h with rfl | rfl | ⟨a, hsubmit, -, hstep⟩
  · exact hquiet
  · exact ⟨⟨hquiet.spent.queued, hquiet.spent.active⟩, hquiet.rests⟩
  · exact Engine.State.step_quiet hquiet hsubmit hstep

theorem Idles.found (h : Idles cfg e e') {d : Drain} (hfound : d.FoundQuiet e) :
    d.FoundQuiet e' := by
  unfold Drain.FoundQuiet at hfound ⊢
  split
  · exact h.depth hfound
  · exact ⟨h.depth hfound.1, h.depth hfound.2⟩
  · exact h.quiet hfound
  · exact h.quiet hfound
  · trivial

theorem Idles.acquiring (h : Idles cfg e e') (j : Nat) (hj : e'.callers j = .acquiring) :
    e.callers j = .acquiring := by
  rcases h with rfl | rfl | ⟨a, -, hacquire, hstep⟩
  · exact hj
  · exact hj
  · rcases (Engine.State.step_callers hstep).1 j hj with hbefore | rfl
    · exact hbefore
    · exact absurd rfl (hacquire j)

theorem Idles.grants (h : Idles cfg e e') (hnone : ∀ j, e.callers j ≠ .acquiring) :
    e'.grants = e.grants := by
  rcases h with rfl | rfl | ⟨a, -, -, hstep⟩
  · rfl
  · rfl
  · exact (Engine.State.step_callers hstep).2.2 hnone

end Idles

theorem native_releasePermit (s : State) (i : Nat) : (s.releasePermit i).native = s.native := by
  unfold State.releasePermit
  split <;> rfl

theorem loopStep_idles {accepted : Accepted} (hstep : s.loopStep cfg accepted = some t) :
    Idles cfg s.native t.native ∧ t.slot = s.slot ∧ (s.drained = true → t.drained = true) := by
  unfold loopStep at hstep
  split at hstep
  case h_5 d _ =>
    obtain ⟨⟨u, r⟩, hdrain, rfl⟩ := Option.map_eq_some_iff.mp hstep
    obtain ⟨-, -, -, -, hslot, hnative⟩ := drainStep_frame hdrain
    have hidles : Idles cfg s.native u.native := hnative.imp id .inl
    have hdrained := (drainStep_keeps hdrain).drained
    cases r with
    | inl d' => exact ⟨hidles, hslot, hdrained⟩
    | inr result => exact ⟨hidles, hslot, hdrained⟩
  case h_9 => exact absurd hstep (by simp)
  case h_2 =>
    split at hstep
    all_goals
      obtain rfl := Option.some.inj hstep
      exact ⟨.inl rfl, rfl, id⟩
  case h_6 =>
    split at hstep
    all_goals
      obtain rfl := Option.some.inj hstep
      exact ⟨.inl rfl, rfl, id⟩
  all_goals
    obtain rfl := Option.some.inj hstep
    exact ⟨.inl rfl, rfl, id⟩

/-- While nothing is registered, nobody submits a request, asks for a lease or initialises
the engine. -/
theorem step_idles {a : Action} (h : s.Safe) (hactive : s.active = ∅)
    (hstep : step cfg s a = some t) : Idles cfg s.native t.native ∧ t.slot = s.slot := by
  have hengine : ∀ b, (∀ c context inputs late, b ≠ .submit c context inputs late) →
      (∀ j, b ≠ .acquireLease j) → s.engineStep cfg b = some t →
      Idles cfg s.native t.native ∧ t.slot = s.slot := by
    intro b hsubmit hacquire hb
    obtain ⟨native, hnative, rfl⟩ := Option.map_eq_some_iff.mp hb
    exact ⟨.inr (.inr ⟨b, hsubmit, hacquire, hnative⟩), rfl⟩
  cases a with
  | loop accepted =>
    obtain ⟨hidles, hslot, -⟩ := loopStep_idles hstep
    exact ⟨hidles, hslot⟩
  | handler i turn =>
    have hframe := handlerStep_frame hstep
    have hunregistered : (s.handlers i).marks.registered = false := by
      by_contra hregistered
      have hmem := h.mem_active rfl (Bool.of_not_eq_false hregistered)
      rw [hactive] at hmem
      exact absurd hmem (by simp)
    refine ⟨?_, ?_⟩
    · rcases hframe.native with hidles | ⟨op, hpc | hpc⟩
      · exact hidles
      · rw [hpc] at hunregistered
        exact absurd hunregistered (by simp [Handler.marks])
      · rw [hpc] at hunregistered
        exact absurd hunregistered (by simp [Handler.marks])
    · rcases hframe.slot with hsame | ⟨op, hpc⟩
      · exact hsame
      · rw [hpc] at hunregistered
        exact absurd hunregistered (by simp [Handler.marks])
  | cancel i =>
    obtain rfl := Option.some.inj hstep
    unfold State.cancel
    split
    · refine ⟨?_, ?_⟩
      · rw [native_releasePermit]
        exact s.idles_cancel i
      · unfold State.releasePermit
        split <;> rfl
    · exact ⟨.inl rfl, rfl⟩
  | owner w | nativeTick =>
    simp only [step] at hstep
    split at hstep
    · exact hengine _ (by simp) (by simp) hstep
    · exact absurd hstep (by simp)
  | tick =>
    obtain rfl := Option.some.inj hstep
    exact ⟨.inl rfl, rfl⟩

/-- Nothing is claimed of the engine before the registrations have been looked at. -/
theorem foundQuiet_of_unseen {d : Drain} (hsees : d.marks.seesInactive = false)
    (e : Engine.State) : d.FoundQuiet e := by
  unfold Drain.FoundQuiet
  split
  · exact absurd hsees (by simp [Drain.marks])
  · exact absurd hsees (by simp [Drain.marks])
  · exact absurd hsees (by simp [Drain.marks])
  · exact absurd hsees (by simp [Drain.marks])
  · trivial

/-- The engine's snapshot, read once more under the gate. -/
theorem native_foundQuiet {l : Look} (h : s.Safe) (hfound : (Drain.native l).FoundQuiet s.native)
    (hlisted : ∀ clear, l = .tracker clear → s.native.unlisted = false) :
    (∀ next, s.look l = .inl next → (Drain.native next).FoundQuiet s.native) ∧
      (s.look l = .inr true → s.native.Quiet) := by
  cases l with
  | active =>
    refine ⟨?_, ?_⟩
    · intro next hlook
      simp only [look] at hlook
      split at hlook
      · obtain rfl := Sum.inl.inj hlook
        trivial
      · exact absurd hlook (by simp)
    · intro hlook
      exact absurd (h.look_true hlook).1 (by simp [Look.pastActive])
  | depths =>
    refine ⟨?_, ?_⟩
    · intro next hlook
      simp only [look] at hlook
      split at hlook
      · obtain rfl := Sum.inl.inj hlook
        trivial
      · exact absurd hlook (by simp)
    · intro hlook
      exact absurd (look_true_pastDepths hlook) (by simp [Look.pastDepths])
  | slot =>
    refine ⟨?_, ?_⟩
    · intro next hlook
      simp only [look] at hlook
      split at hlook
      · obtain rfl := Sum.inl.inj hlook
        trivial
      · exact absurd hlook (by simp)
    · intro hlook
      simp only [look] at hlook
      split at hlook
      · exact absurd hlook (by simp)
      · rename_i hslot
        exact (h.fresh (Bool.eq_false_of_not_eq_true hslot)).quiet
  | query =>
    refine ⟨?_, by simp [look]⟩
    intro next hlook
    obtain rfl := Sum.inl.inj hlook
    by_cases hdepth : s.native.depth .query = 0
    · rw [decide_eq_true hdepth]
      exact hdepth
    · rw [decide_eq_false hdepth]
      trivial
  | bulk clear =>
    refine ⟨?_, by simp [look]⟩
    intro next hlook
    obtain rfl := Sum.inl.inj hlook
    cases clear with
    | false => trivial
    | true =>
      by_cases hdepth : s.native.depth .bulk = 0
      · rw [decide_eq_true hdepth]
        exact ⟨hfound, hdepth⟩
      · rw [decide_eq_false hdepth]
        trivial
  | tracker clear =>
    refine ⟨by simp [look], ?_⟩
    intro hlook
    have hread := Sum.inr.inj hlook
    rw [Bool.and_eq_true, Bool.and_eq_true] at hread
    obtain ⟨⟨rfl, hactive⟩, -⟩ := hread
    obtain ⟨hquery, hbulk⟩ := hfound
    refine h.listed.quiet ?_ (List.isEmpty_iff.mp hactive) (hlisted _ rfl)
    intro c
    cases c with
    | query => exact hquery
    | bulk => exact hbulk

theorem drainStep_foundQuiet {me : Thread} {d d' : Drain} (h : s.Safe)
    (hfound : d.FoundQuiet s.native)
    (hlisted : ∀ clear, d = .native (.tracker clear) → s.native.unlisted = false)
    (hdrain : s.drainStep me d = some (t, .inl d')) : d'.FoundQuiet t.native := by
  cases d with
  | lock =>
    simp only [drainStep] at hdrain
    split at hdrain
    · obtain ⟨-, hd'⟩ := Prod.mk.inj (Option.some.inj hdrain)
      obtain rfl := Sum.inl.inj hd'
      trivial
    · exact absurd hdrain (by simp)
  | exchange | idle l =>
    simp only [drainStep] at hdrain
    split at hdrain
    all_goals
      obtain ⟨-, hd'⟩ := Prod.mk.inj (Option.some.inj hdrain)
      obtain rfl := Sum.inl.inj hd'
      trivial
  | again l =>
    simp only [drainStep] at hdrain
    split at hdrain
    · obtain ⟨-, hd'⟩ := Prod.mk.inj (Option.some.inj hdrain)
      obtain rfl := Sum.inl.inj hd'
      trivial
    · rename_i result _
      obtain ⟨-, hd'⟩ := Prod.mk.inj (Option.some.inj hdrain)
      obtain rfl := Sum.inl.inj hd'
      cases result <;> trivial
  | slot =>
    simp only [drainStep] at hdrain
    obtain ⟨rfl, hd'⟩ := Prod.mk.inj (Option.some.inj hdrain)
    obtain rfl := Sum.inl.inj hd'
    split
    · trivial
    · rename_i hslot
      exact (h.fresh (Bool.eq_false_of_not_eq_true hslot)).quiet
  | native l =>
    obtain ⟨hnext, hquiet⟩ :=
      native_foundQuiet h hfound (fun clear hl => hlisted clear (by rw [hl]))
    simp only [drainStep] at hdrain
    split at hdrain
    · rename_i next hlook
      obtain ⟨rfl, hd'⟩ := Prod.mk.inj (Option.some.inj hdrain)
      obtain rfl := Sum.inl.inj hd'
      exact hnext next hlook
    · rename_i hlook
      obtain ⟨rfl, hd'⟩ := Prod.mk.inj (Option.some.inj hdrain)
      obtain rfl := Sum.inl.inj hd'
      exact hquiet hlook
    · obtain ⟨-, hd'⟩ := Prod.mk.inj (Option.some.inj hdrain)
      obtain rfl := Sum.inl.inj hd'
      trivial
  | owner =>
    simp only [drainStep] at hdrain
    obtain ⟨rfl, hd'⟩ := Prod.mk.inj (Option.some.inj hdrain)
    obtain rfl := Sum.inl.inj hd'
    have hquiet : s.native.Quiet := hfound
    exact ⟨⟨hquiet.spent.queued, hquiet.spent.active⟩, hquiet.rests⟩
  | withdraw =>
    simp only [drainStep] at hdrain
    obtain ⟨-, hd'⟩ := Prod.mk.inj (Option.some.inj hdrain)
    obtain rfl := Sum.inl.inj hd'
    trivial
  | unlock result exchanged => exact absurd hdrain (by simp [drainStep])

/-- When a call takes its second look at the engine's tracker, no live request is between
its queue and the tracker. -/
def snapshotsListed (s : State) (a : Action) : Bool :=
  match a.actor.bind s.drainAt with
  | some (.native (.tracker _)) => !s.native.unlisted
  | _ => true

/-- The looks at the engine were right, and draining that has begun found it quiet. -/
structure Stilled (s : State) : Prop where
  found : ∀ th d, s.drainAt th = some d → d.FoundQuiet s.native
  settled : s.drained = true → s.native.Quiet

theorem step_stilled {a : Action} (h : s.Safe) (hstilled : s.Stilled)
    (hlisted : s.snapshotsListed a = true) (hstep : step cfg s a = some t) : t.Stilled := by
  refine ⟨?_, ?_⟩
  · intro th d hd
    rcases step_drainAt hstep hd with hbefore | rfl | ⟨d₀, u, hactor, hd₀, hdrain, hnative, -⟩
    · cases hsees : d.marks.seesInactive with
      | false => exact foundQuiet_of_unseen hsees t.native
      | true =>
        have hactive : s.active = ∅ := by
          apply (h.view.vouches th).seesInactive
          rw [marks_drainAt hbefore]
          exact hsees
        exact (step_idles h hactive hstep).1.found (hstilled.found th d hbefore)
    · trivial
    · rw [hnative]
      refine drainStep_foundQuiet h (hstilled.found th d₀ hd₀) ?_ hdrain
      rintro clear rfl
      unfold snapshotsListed at hlisted
      rw [hactor, Option.bind_some, hd₀] at hlisted
      simpa using hlisted
  · intro hdrained
    rcases step_drained hstep hdrained with hbefore | ⟨th, hth, hnative⟩
    · have hactive : s.active = ∅ := (h.view.settled hbefore).1
      exact (step_idles h hactive hstep).1.quiet (hstilled.settled hbefore)
    · rw [hnative]
      exact hstilled.found th _ hth

/-- Who waits for a lease is a handler of the server. -/
def Asking (s : State) : Prop := ∀ j, s.native.callers j = .acquiring → s.handlers j = .leasing

/-- A handler that waits for a lease is blocked until the owner answers. -/
theorem leasing_blocked {turn : Turn} (hpc : s.handlers i = .leasing)
    (hasks : s.native.callers i = .acquiring) : s.handlerStep cfg i turn = none := by
  simp only [handlerStep, hpc, hasks]

theorem openEngine_asking {turn : Turn} {op : Operation} (h : s.Safe)
    (hpc : s.handlers i = .openEngine op) (hstep : s.handlerStep cfg i turn = some t)
    {j : Nat} (hj : t.native.callers j = .acquiring) : s.native.callers j = .acquiring := by
  simp only [handlerStep, hpc] at hstep
  split at hstep
  · obtain rfl := Option.some.inj hstep
    exact hj
  · rename_i hslot
    split at hstep
    · rename_i u hu
      obtain rfl := Option.some.inj hstep
      unfold State.initializeEngine at hu
      split at hu
      · obtain ⟨native, hrun, rfl⟩ := Option.map_eq_some_iff.mp hu
        have hfresh := h.fresh (Bool.eq_false_of_not_eq_true hslot)
        have howner : ∀ a ∈ [Engine.Action.owner turn.world, .owner turn.world,
            .owner turn.world], ∃ w, a = .owner w := by
          intro a ha
          simp only [List.mem_cons, List.not_mem_nil, or_false] at ha
          rcases ha with rfl | rfl | rfl
          all_goals exact ⟨turn.world, rfl⟩
        have hnone : ∀ k, s.native.callers k ≠ .acquiring := by
          intro k
          rw [hfresh.callers k]
          simp
        exact absurd hj ((Engine.State.run_owner_callers howner hrun).2 hnone j)
      · exact absurd hu (by simp)
    · obtain rfl := Option.some.inj hstep
      exact hj

theorem ready_asking {turn : Turn} {op : Operation} (hpc : s.handlers i = .ready op)
    (hstep : s.handlerStep cfg i turn = some t) {j : Nat}
    (hj : t.native.callers j = .acquiring) :
    s.native.callers j = .acquiring ∨ j = i ∧ t.handlers i = .leasing := by
  have hasks : ∀ {a : Engine.Action} {next : Handler},
      (s.engineStep cfg a).map (fun s => s.setHandler i next) = some t →
      s.native.callers j = .acquiring ∨ a = .acquireLease j := by
    intro a next ha
    obtain ⟨u, hu, rfl⟩ := Option.map_eq_some_iff.mp ha
    obtain ⟨native, hnative, rfl⟩ := Option.map_eq_some_iff.mp hu
    exact (Engine.State.step_callers hnative).1 j hj
  simp only [handlerStep, hpc] at hstep
  split at hstep
  · cases op with
    | embed c requestId inputs | ensureResident =>
      rcases hasks hstep with hbefore | hfalse
      · exact .inl hbefore
      · exact absurd hfalse (by simp)
    | acquireLease =>
      rcases hasks hstep with hbefore | haction
      · exact .inl hbefore
      · obtain rfl := Engine.Action.acquireLease.inj haction
        obtain ⟨u, -, rfl⟩ := Option.map_eq_some_iff.mp hstep
        exact .inr ⟨rfl, Function.update_self ..⟩
  · obtain rfl := Option.some.inj hstep
    refine .inl ?_
    unfold State.leave at hj
    split at hj
    · exact hj
    · exact hj

theorem step_asking {a : Action} (h : s.Safe) (hasking : s.Asking)
    (hstep : step cfg s a = some t) : t.Asking := by
  intro j hj
  have hengine : ∀ b, (∀ k, b ≠ .acquireLease k) → s.engineStep cfg b = some t →
      t.handlers j = .leasing := by
    intro b hacquire hb
    obtain ⟨native, hnative, rfl⟩ := Option.map_eq_some_iff.mp hb
    rcases (Engine.State.step_callers hnative).1 j hj with hbefore | rfl
    · exact hasking j hbefore
    · exact absurd rfl (hacquire j)
  cases a with
  | loop accepted =>
    have hbefore := hasking j ((loopStep_idles hstep).1.acquiring j hj)
    rcases (loopStep_keeps h hstep).2.2.2 j with hsame | ⟨hidle, -⟩
    · exact hsame.trans hbefore
    · exact absurd (hidle.symm.trans hbefore) (by simp)
  | handler i turn =>
    have hframe := handlerStep_frame hstep
    have hbefore : s.native.callers j = .acquiring ∨ j = i ∧ t.handlers i = .leasing := by
      rcases hframe.native with hidles | ⟨op, hpc | hpc⟩
      · exact .inl (hidles.acquiring j hj)
      · exact .inl (openEngine_asking h hpc hstep hj)
      · exact ready_asking hpc hstep hj
    rcases hbefore with hbefore | ⟨rfl, hleasing⟩
    · have hleasing := hasking j hbefore
      by_cases hji : j = i
      · subst hji
        exact absurd ((leasing_blocked hleasing hbefore).symm.trans hstep) (by simp)
      · rw [hframe.others j hji]
        exact hleasing
    · exact hleasing
  | cancel i =>
    obtain rfl := Option.some.inj hstep
    unfold State.cancel at hj ⊢
    split at hj
    · rename_i hcancel
      rw [native_releasePermit] at hj
      rw [if_pos hcancel, handlers_releasePermit]
      exact hasking j hj
    · rename_i hcancel
      rw [if_neg hcancel]
      exact hasking j hj
  | owner w | nativeTick =>
    simp only [step] at hstep
    split at hstep
    · exact hengine _ (by simp) hstep
    · exact absurd hstep (by simp)
  | tick =>
    obtain rfl := Option.some.inj hstep
    exact hasking j hj

theorem step_drained_lasts {a : Action} (hstep : step cfg s a = some t)
    (hdrained : s.drained = true) : t.drained = true := by
  cases a with
  | loop accepted => exact (loopStep_idles hstep).2.2 hdrained
  | handler i turn => exact (handlerStep_frame hstep).drained hdrained
  | cancel i =>
    obtain rfl := Option.some.inj hstep
    unfold State.cancel State.releasePermit
    split
    · split
      · exact hdrained
      · exact hdrained
    · exact hdrained
  | owner w | nativeTick =>
    simp only [step] at hstep
    split at hstep
    · obtain ⟨native, -, rfl⟩ := Option.map_eq_some_iff.mp hstep
      exact hdrained
    · exact absurd hstep (by simp)
  | tick =>
    obtain rfl := Option.some.inj hstep
    exact hdrained

theorem initial_asking : initial.Asking := fun j hj => absurd hj (by
  simp [initial, Engine.State.initial])

theorem initial_stilled : initial.Stilled := by
  refine ⟨?_, fun hdrained => absurd hdrained (by simp [initial])⟩
  intro th d hd
  cases th with
  | acceptLoop => exact absurd hd (by simp [drainAt, initial])
  | handler i => exact absurd hd (by simp [drainAt, initial])

/-- What holds between a state in which draining has begun and any later one. -/
structure Closed (s t : State) : Prop where
  safe : t.Safe
  asking : t.Asking
  drained : t.drained = true
  slot : t.slot = s.slot
  grants : t.native.grants = s.native.grants

theorem step_closed {r : State} {a : Action} (hclosed : Closed r s)
    (hstep : step cfg s a = some t) : Closed r t := by
  have hactive : s.active = ∅ := (hclosed.safe.view.settled hclosed.drained).1
  obtain ⟨hidles, hslot⟩ := step_idles hclosed.safe hactive hstep
  refine ⟨step_safe cfg s a t hclosed.safe hstep, step_asking hclosed.safe hclosed.asking hstep,
    step_drained_lasts hstep hclosed.drained, hslot.trans hclosed.slot, ?_⟩
  rw [hidles.grants ?_]
  · exact hclosed.grants
  · intro j hj
    have hmem := hclosed.safe.mem_active (hclosed.asking j hj) rfl
    rw [hactive] at hmem
    exact absurd hmem (by simp)

/-- Nothing is live: no registration, no lease, no queued and no active native request. -/
structure NoWork (s : State) : Prop where
  active : s.active = ∅
  leases : s.Unleased
  queued : ∀ c, s.native.depth c = 0
  running : s.native.tracker.active = []

/-- The gate is safe in every run in which the engine's tracker is looked at only while no
live request is between its queue and the tracker: a call that is about to return true after
its own exchange has found no work, and in every state after that no `begin_request` gets
past its check, the engine is not initialised, no lease is granted and none is held. -/
theorem draining_is_final (cfg : Config) {s : State}
    (hreach : Reach (guarded (fun s a => s.snapshotsListed a = true) (step cfg)) initial s) :
    (∀ th, s.drainAt th = some (.unlock true true) → s.NoWork) ∧
    (s.drained = true → s.NoWork ∧ ∀ t, Reach (step cfg) s t →
      t.active = ∅ ∧ (∀ i op, t.handlers i ≠ .insertBegin op) ∧ t.slot = s.slot ∧
        t.native.grants = s.native.grants ∧ t.Unleased) := by
  have hinvariant : s.Safe ∧ s.Stilled ∧ s.Asking := by
    refine Reach.invariant (I := fun s => s.Safe ∧ s.Stilled ∧ s.Asking) ?_ hreach
      ⟨initial_safe, initial_stilled, initial_asking⟩
    intro s a t hs hstep
    obtain ⟨hlisted, hstep⟩ := guarded_eq_some.mp hstep
    exact ⟨step_safe cfg s a t hs.1 hstep, step_stilled hs.1 hs.2.1 hlisted hstep,
      step_asking hs.1 hs.2.2 hstep⟩
  obtain ⟨hsafe, hstilled, hasking⟩ := hinvariant
  refine ⟨?_, ?_⟩
  · intro th hth
    have hquiet : s.native.Quiet := hstilled.found th _ hth
    have hvouches := hsafe.view.vouches th
    rw [marks_drainAt hth] at hvouches
    exact ⟨hvouches.seesInactive rfl, hvouches.seesUnleased rfl, hquiet.depth_eq_zero,
      hquiet.spent.active⟩
  · intro hdrained
    have hquiet := hstilled.settled hdrained
    obtain ⟨hactive, hunleased⟩ := hsafe.view.settled hdrained
    refine ⟨⟨hactive, hunleased, hquiet.depth_eq_zero, hquiet.spent.active⟩, ?_⟩
    intro t hlater
    have hclosed : Closed s t :=
      Reach.invariant (I := Closed s) (fun _ _ _ hs hstep => step_closed hs hstep) hlater
        ⟨hsafe, hasking, hdrained, rfl, rfl⟩
    obtain ⟨hactive, hunleased⟩ := hclosed.safe.view.settled hclosed.drained
    refine ⟨hactive, ?_, hclosed.slot, hclosed.grants, hunleased⟩
    intro i op hpc
    have hvouches := hclosed.safe.view.vouches (.handler i)
    rw [marks_handler hpc] at hvouches
    have hfalse : t.drained = false := hvouches.entering rfl
    exact absurd (hfalse.symm.trans hclosed.drained) (by simp)

/-- Handler 0 has registered an embedding request and put it into the engine's queue, and a
client with an incompatible executable has connected. -/
def submitRun : List Action :=
  List.replicate 6 (Action.loop .nothing) ++
    [Action.loop (.connection (.serve (.embed .query "r" ["x"])))] ++
    List.replicate 13 (Action.handler 0 plainTurn) ++
    [Action.loop .nothing, .loop .nothing, .loop (.connection .incompatibleHello)]

def failedTurn : Turn := { plainTurn with course := .fail }

/-- The request is served, its handler leaves, and the next call begins draining. -/
theorem draining_is_final_after_request :
    let s := after (guarded (fun s a => s.snapshotsListed a = true) (step smallServer)) initial
      (submitRun ++ List.replicate 14 (Action.owner plainTurn.world) ++
        List.replicate 4 (Action.handler 0 plainTurn) ++
        List.replicate 13 (Action.handler 1 plainTurn))
    s.slot = true ∧ s.drainAt (.handler 1) = some (.unlock true true) ∧ s.NoWork := by
  intro s
  have hunlock : s.drainAt (.handler 1) = some (.unlock true true) := by decide
  exact ⟨by decide, hunlock,
    (draining_is_final smallServer (reach_after ..)).1 (.handler 1) hunlock⟩

/-- The owner has popped the request when its handler fails and leaves. The call of handler 1
finds nothing, and the owner goes on with the request. -/
theorem drains_under_request : ∃ s, Reach (step smallServer) initial s ∧
    s.drainAt (.handler 1) = some (.unlock true true) ∧ ¬ s.NoWork := by
  refine ⟨after (step smallServer) initial
    (submitRun ++ List.replicate 3 (Action.owner plainTurn.world) ++
      List.replicate 4 (Action.handler 0 failedTurn) ++
      List.replicate 13 (Action.handler 1 plainTurn) ++ [Action.owner plainTurn.world]),
    reach_after .., by decide, ?_⟩
  intro hnone
  exact absurd hnone.running (by decide)

end State

end CodeStory.Server
