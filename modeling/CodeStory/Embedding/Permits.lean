import CodeStory.Lib.Census
import CodeStory.Embedding.Frame

/-!
# Permits and cancellation entries

The depths count the permits that are out. A registered request's permit is also in its
cancellation entry, and that entry goes one step after the registration, so nothing
registered does not yet mean no such permit: `true_idle` looks at the depths as well.
-/

set_option autoImplicit false

namespace CodeStory.Server

open Transition

/-- Has not asked for a permit yet. -/
def Handler.unpermitted : Handler → Bool
  | .idle | .hello _ | .admitting _ | .acquiring _ _ => true
  | _ => false

/-- May have a cancellation entry. -/
def Handler.entered : Handler → Bool
  | .finishCancellation _ => true
  | h => h.marks.registered

/-- Past the second read of `true_idle`. -/
def Look.pastDepths : Look → Bool
  | .active | .depths => false
  | _ => true

/-- Has found that no permit is out. -/
def Drain.pastDepths : Drain → Bool
  | .again l | .idle l => l.pastDepths
  | .slot | .native _ | .owner => true
  | .unlock result _ => result
  | .lock | .exchange | .withdraw => false

theorem Handler.not_entered {h : Handler} (hunpermitted : h.unpermitted = true) :
    h.entered = false := by
  cases h with
  | idle => rfl
  | hello d => cases d <;> rfl
  | admitting => rfl
  | acquiring => rfl
  | _ => exact absurd hunpermitted (by simp [Handler.unpermitted])

theorem Drain.gated_of_pastDepths {d : Drain} (hpast : d.pastDepths = true) :
    d.marks.gated = true := by
  cases d with
  | lock => exact absurd hpast (by simp [Drain.pastDepths])
  | _ => rfl

/-- The thread that takes a step. -/
def Action.actor : Action → Option Thread
  | .loop _ => some .acceptLoop
  | .handler i _ => some (.handler i)
  | _ => none

namespace State
variable {s t : State} {cfg : Config} {i : Nat}

/-- What one step does to the permits. -/
inductive PermitMove (s t : State) (i : Nat) : Prop where
  | keep (permits : t.permits = s.permits) (depths : t.depths = s.depths)
  | take (c : EmbeddingRequestClass) (before : (s.handlers i).unpermitted = true)
      (permits : t.permits = Function.update s.permits i (.held c))
      (depths : t.depths = s.depths.increment c)
  | give (c : EmbeddingRequestClass) (before : s.permits i = .held c)
      (permits : t.permits = Function.update s.permits i .released)
      (depths : t.depths = s.depths.decrement c)

theorem permitMove_release (hpermits : t.permits = (s.releasePermit i).permits)
    (hdepths : t.depths = (s.releasePermit i).depths) : PermitMove s t i := by
  unfold State.releasePermit at hpermits hdepths
  cases hc : s.permits i with
  | held c =>
    rw [hc] at hpermits hdepths
    exact .give c hc hpermits hdepths
  | _ =>
    rw [hc] at hpermits hdepths
    exact .keep hpermits hdepths

/-- What a step of handler `i` does to the permits, the entries and the place of `i`. -/
structure HandlerMove (s t : State) (i : Nat) : Prop where
  permits : PermitMove s t i
  entries : ∀ j ∈ t.cancellations,
    j ∈ s.cancellations ∨ j = i ∧ (s.handlers i).marks.entering = true
  entered : i ∈ t.cancellations →
    (s.handlers i).entered = true ∨ (s.handlers i).marks.entering = true →
      (t.handlers i).entered = true
  asked : (t.handlers i).unpermitted = true →
    (s.handlers i).unpermitted = true ∧ t.permits = s.permits
  stays : ∀ d, t.handlers i = .hello d → ∃ d', s.handlers i = .hello d'

/-- Every operation but those on permits and entries. -/
theorem handlerMove_set {next : Handler} (hpermits : t.permits = s.permits)
    (hdepths : t.depths = s.depths) (hcancellations : t.cancellations = s.cancellations)
    (hhandler : t.handlers i = next)
    (hentered : (s.handlers i).entered = true ∨ (s.handlers i).marks.entering = true →
      next.entered = true)
    (hasked : next.unpermitted = true → (s.handlers i).unpermitted = true)
    (hstays : ∀ d, next = .hello d → ∃ d', s.handlers i = .hello d') :
    HandlerMove s t i := by
  refine ⟨.keep hpermits hdepths, ?_, ?_, ?_, fun d hd => hstays d (hhandler.symm.trans hd)⟩
  · intro j hj
    rw [hcancellations] at hj
    exact .inl hj
  · intro _ hbefore
    rw [hhandler]
    exact hentered hbefore
  · intro hnext
    rw [hhandler] at hnext
    exact ⟨hasked hnext, hpermits⟩

theorem handlerMove_leave (course : Course) :
    HandlerMove s (s.leave i course) i := by
  unfold State.leave
  split
  · exact handlerMove_set rfl rfl rfl (Function.update_self ..) (fun _ => rfl) (by
      simp [Handler.unpermitted]) (by simp)
  · exact handlerMove_set rfl rfl rfl (Function.update_self ..) (fun _ => rfl) (by
      simp [Handler.unpermitted]) (by simp)

theorem handlerMove_engine (next : Handler) {a : Engine.Action}
    (hstep : (s.engineStep cfg a).map (fun s => s.setHandler i next) = some t)
    (hentered : (s.handlers i).entered = true ∨ (s.handlers i).marks.entering = true →
      next.entered = true)
    (hasked : next.unpermitted = false) : HandlerMove s t i := by
  obtain ⟨u, hu, rfl⟩ := Option.map_eq_some_iff.mp hstep
  obtain ⟨native, -, rfl⟩ := Option.map_eq_some_iff.mp hu
  refine handlerMove_set rfl rfl rfl (Function.update_self ..) hentered ?_ ?_
  · intro hnext
    exact absurd (hasked.symm.trans hnext) (by simp)
  · rintro d rfl
    exact absurd hasked (by simp [Handler.unpermitted])

theorem handlerMove_hello {d : Drain} {turn : Turn} (hpc : s.handlers i = .hello d)
    (hstep : s.handlerStep cfg i turn = some t) : HandlerMove s t i := by
  simp only [handlerStep, hpc] at hstep
  obtain ⟨⟨u, r⟩, hdrain, rfl⟩ := Option.map_eq_some_iff.mp hstep
  obtain ⟨-, -, -, hpermits, hdepths, hcancellations, -⟩ := drainStep_keeps hdrain
  have hblank : ¬ ((s.handlers i).entered = true ∨ (s.handlers i).marks.entering = true) := by
    rw [hpc]
    cases d <;> simp [Handler.entered, Handler.marks, Drain.marks, Marks.none]
  cases r with
  | inl d' =>
    refine handlerMove_set hpermits hdepths hcancellations
      (Function.update_self ..) (fun h => absurd h hblank) ?_ (fun _ _ => ⟨d, hpc⟩)
    rw [hpc]
    exact fun _ => rfl
  | inr result =>
    exact handlerMove_set hpermits hdepths hcancellations
      (Function.update_self ..) (fun h => absurd h hblank) (by simp [Handler.unpermitted])
      (fun _ _ => ⟨d, hpc⟩)

/-- A handler that is past its request for a permit, and keeps the entry it may have. -/
theorem handlerMove_next {before : Handler} (next : Handler) (hpc : s.handlers i = before)
    (hkept : (t.permits, t.depths, t.cancellations) = (s.permits, s.depths, s.cancellations))
    (hhandler : t.handlers i = next)
    (hentered : (!(before.entered || before.marks.entering) || next.entered) = true)
    (hnext : next.unpermitted = false) : HandlerMove s t i := by
  subst hpc
  obtain ⟨hpermits, hrest⟩ := Prod.mk.inj hkept
  obtain ⟨hdepths, hcancellations⟩ := Prod.mk.inj hrest
  refine handlerMove_set hpermits hdepths hcancellations hhandler ?_ ?_ ?_
  · intro hbefore
    rcases hbefore with h | h
    · simpa [h] using hentered
    · simpa [h] using hentered
  · exact fun htrue => absurd (hnext.symm.trans htrue) (by simp)
  · rintro d rfl
    exact absurd hnext (by simp [Handler.unpermitted])

theorem handlerStep_move {turn : Turn} (hstep : s.handlerStep cfg i turn = some t) :
    HandlerMove s t i := by
  have hself : ∀ next : Handler, Function.update s.handlers i next i = next :=
    fun next => Function.update_self ..
  cases hpc : s.handlers i with
  | hello d => exact handlerMove_hello hpc hstep
  | idle | done =>
    simp only [handlerStep, hpc] at hstep
    exact absurd hstep (by simp)
  | admitting op =>
    simp only [handlerStep, hpc] at hstep
    obtain rfl := Option.some.inj hstep
    refine handlerMove_set rfl rfl rfl (hself _) ?_ ?_ (by simp)
    · rw [hpc]
      exact fun h => absurd h (by simp [Handler.entered, Handler.marks, Marks.none])
    · rw [hpc]
      exact fun _ => rfl
  | acquiring op activeExecution =>
    simp only [handlerStep, hpc] at hstep
    obtain rfl := Option.some.inj hstep
    unfold tryAcquire
    dsimp only
    split
    · exact handlerMove_next .done hpc rfl (hself _) rfl rfl
    · refine ⟨.take op.requestClass (by rw [hpc]; rfl) rfl rfl, fun j hj => .inl hj,
        fun _ h => absurd h ?_, ?_, ?_⟩
      · simp [hpc, Handler.entered, Handler.marks, Marks.none]
      · intro hnext
        exact absurd ((congrArg Handler.unpermitted (hself (.admitted op))).symm.trans hnext) (by
          simp [Handler.unpermitted])
      · intro d hd
        exact absurd ((hself (.admitted op)).symm.trans hd) (by simp)
  | admitted op =>
    simp only [handlerStep, hpc] at hstep
    split at hstep
    all_goals
      obtain rfl := Option.some.inj hstep
      exact handlerMove_next _ hpc rfl (hself _) rfl rfl
  | lockBegin op | lockEngine op =>
    simp only [handlerStep, hpc] at hstep
    split at hstep
    · obtain rfl := Option.some.inj hstep
      exact handlerMove_next _ hpc rfl (hself _) rfl rfl
    · exact absurd hstep (by simp)
  | checkBegin op | finishRestart keepsLease =>
    simp only [handlerStep, hpc] at hstep
    obtain rfl := Option.some.inj hstep
    refine handlerMove_next _ hpc rfl (hself _) rfl ?_
    split <;> rfl
  | insertBegin op =>
    simp only [handlerStep, hpc] at hstep
    obtain rfl := Option.some.inj hstep
    have hnext := hself (.unlockBegin op true)
    refine ⟨.keep rfl rfl, ?_, ?_, ?_, fun d hd => absurd (hnext.symm.trans hd) (by simp)⟩
    · intro j hj
      rcases Finset.mem_insert.mp hj with rfl | hj
      · exact .inr ⟨rfl, by rw [hpc]; rfl⟩
      · exact .inl hj
    · intro _ _
      exact congrArg Handler.entered hnext
    · intro hasked
      exact absurd ((congrArg Handler.unpermitted hnext).symm.trans hasked) (by
        simp [Handler.unpermitted])
  | unlockBegin op ok =>
    simp only [handlerStep, hpc] at hstep
    obtain rfl := Option.some.inj hstep
    cases ok with
    | true => exact handlerMove_next (.registered op) hpc rfl (hself _) rfl rfl
    | false => exact handlerMove_next .dropPermit hpc rfl (hself _) rfl rfl
  | dropPermit =>
    simp only [handlerStep, hpc] at hstep
    obtain rfl := Option.some.inj hstep
    have hcancellations : (s.releasePermit i).cancellations = s.cancellations := by
      unfold State.releasePermit
      split <;> rfl
    have hnext : ((s.releasePermit i).setHandler i .done).handlers i = .done :=
      Function.update_self ..
    refine ⟨permitMove_release rfl rfl, ?_, ?_, ?_,
      fun d hd => absurd (hnext.symm.trans hd) (by simp)⟩
    · intro j hj
      change j ∈ (s.releasePermit i).cancellations at hj
      rw [hcancellations] at hj
      exact .inl hj
    · rw [hpc]
      exact fun _ h => absurd h (by simp [Handler.entered, Handler.marks, Marks.none])
    · rw [hnext]
      exact fun htrue => absurd htrue (by simp [Handler.unpermitted])
  | registered op =>
    simp only [handlerStep, hpc] at hstep
    split at hstep
    · obtain rfl := Option.some.inj hstep
      exact handlerMove_leave .giveUp
    · obtain rfl := Option.some.inj hstep
      exact handlerMove_next (.lockEngine op) hpc rfl (hself _) rfl rfl
  | checkEngine op | unlockEngine op ok | leased =>
    simp only [handlerStep, hpc] at hstep
    obtain rfl := Option.some.inj hstep
    refine handlerMove_next _ hpc rfl (hself _) ?_ ?_
    · split <;> rfl
    · split <;> rfl
  | openEngine op =>
    simp only [handlerStep, hpc] at hstep
    split at hstep
    · obtain rfl := Option.some.inj hstep
      exact handlerMove_next (.unlockEngine op true) hpc rfl (hself _) rfl rfl
    · split at hstep
      · rename_i u hu
        obtain rfl := Option.some.inj hstep
        unfold State.initializeEngine at hu
        split at hu
        · obtain ⟨native, -, rfl⟩ := Option.map_eq_some_iff.mp hu
          exact handlerMove_next (.unlockEngine op true) hpc rfl (hself _) rfl rfl
        · exact absurd hu (by simp)
      · obtain rfl := Option.some.inj hstep
        exact handlerMove_next (.unlockEngine op false) hpc rfl (hself _) rfl rfl
  | ready op =>
    simp only [handlerStep, hpc] at hstep
    split at hstep
    · unfold callEngine at hstep
      split at hstep
      · refine handlerMove_engine _ hstep ?_ ?_
        · split <;> exact fun _ => rfl
        · split <;> rfl
      · exact handlerMove_engine _ hstep (fun _ => rfl) rfl
      · exact handlerMove_engine _ hstep (fun _ => rfl) rfl
    · obtain rfl := Option.some.inj hstep
      exact handlerMove_leave _
  | submitted =>
    simp only [handlerStep, hpc] at hstep
    split at hstep
    · split at hstep
      · obtain rfl := Option.some.inj hstep
        exact handlerMove_leave .fail
      · exact absurd hstep (by simp)
    · obtain rfl := Option.some.inj hstep
      exact handlerMove_leave _
  | ensuring =>
    simp only [handlerStep, hpc] at hstep
    split at hstep
    · obtain rfl := Option.some.inj hstep
      exact handlerMove_leave .fail
    · exact absurd hstep (by simp)
  | leasing =>
    simp only [handlerStep, hpc] at hstep
    split at hstep
    · obtain ⟨native, -, rfl⟩ := Option.map_eq_some_iff.mp hstep
      exact handlerMove_next .leasing hpc rfl hpc rfl rfl
    · exact handlerMove_engine _ hstep (fun _ => rfl) rfl
    · obtain rfl := Option.some.inj hstep
      exact handlerMove_leave .fail
    · exact absurd hstep (by simp)
  | holding | finishActive keepsLease =>
    simp only [handlerStep, hpc] at hstep
    obtain rfl := Option.some.inj hstep
    exact handlerMove_next _ hpc rfl (hself _) rfl rfl
  | dropRestart thenFinish =>
    simp only [handlerStep, hpc] at hstep
    obtain rfl := Option.some.inj hstep
    refine handlerMove_next (.dropRelease thenFinish) hpc rfl (hself _) ?_ rfl
    cases thenFinish <;> rfl
  | dropRelease thenFinish =>
    simp only [handlerStep, hpc] at hstep
    refine handlerMove_engine _ hstep ?_ rfl
    rw [hpc]
    cases thenFinish <;> simp [Handler.entered, Handler.marks, Marks.none]
  | dropSend thenFinish =>
    simp only [handlerStep, hpc] at hstep
    refine handlerMove_engine _ hstep ?_ ?_
    · rw [hpc]
      cases thenFinish <;> simp [Handler.entered, Handler.marks, Marks.none]
    · cases thenFinish <;> rfl
  | finishCancellation keepsLease =>
    simp only [handlerStep, hpc] at hstep
    obtain rfl := Option.some.inj hstep
    have hnext : ((s.releasePermit i).setHandler i (.finishRestart keepsLease)).handlers i =
        .finishRestart keepsLease := Function.update_self ..
    refine ⟨permitMove_release rfl rfl, ?_, ?_, ?_,
      fun d hd => absurd (hnext.symm.trans hd) (by simp)⟩
    · intro j hj
      exact .inl (Finset.mem_of_mem_erase hj)
    · intro hi
      exact absurd hi (Finset.notMem_erase i _)
    · intro hasked
      exact absurd ((congrArg Handler.unpermitted hnext).symm.trans hasked) (by
        simp [Handler.unpermitted])

section Calls

theorem handlerStep_drainAt {turn : Turn} (hstep : s.handlerStep cfg i turn = some t)
    {th : Thread} {d : Drain} (hd : t.drainAt th = some d) :
    s.drainAt th = some d ∨ d = .lock ∨
      ∃ d₀ u, (Action.handler i turn).actor = some th ∧ s.drainAt th = some d₀ ∧
        s.drainStep th d₀ = some (u, .inl d) ∧ t.native = u.native ∧
        t.permits = u.permits := by
  have hframe := handlerStep_frame hstep
  have hmove := handlerStep_move hstep
  by_cases hth : th = .handler i
  · subst hth
    have hhello : t.handlers i = .hello d := by
      by_contra hne
      cases h : t.handlers i with
      | hello d' =>
        obtain rfl := Option.some.inj ((drainAt_hello h).symm.trans hd)
        exact hne h
      | _ => simp only [drainAt, h, reduceCtorEq] at hd
    obtain ⟨d₀, hd₀⟩ := hmove.stays d hhello
    simp only [handlerStep, hd₀] at hstep
    obtain ⟨⟨u, r⟩, hdrain, rfl⟩ := Option.map_eq_some_iff.mp hstep
    cases r with
    | inl d' =>
      have hself : (u.setHandler i (.hello d')).handlers i = .hello d' := Function.update_self ..
      obtain rfl := Handler.hello.inj (hself.symm.trans hhello)
      exact .inr (.inr ⟨d₀, u, rfl, drainAt_hello hd₀, hdrain, rfl, rfl⟩)
    | inr result =>
      have hself : (u.setHandler i .done).handlers i = .done := Function.update_self ..
      exact absurd (hself.symm.trans hhello) (by simp)
  · refine .inl ?_
    rw [← hd, drainAt_congr hframe.loop]
    rintro j rfl
    apply hframe.others
    rintro rfl
    exact hth rfl

theorem drainAt_spawn {task : Task} {j : Nat} {d : Drain}
    (hd : (s.spawn task).drainAt (.handler j) = some d) :
    s.drainAt (.handler j) = some d ∨ d = .lock := by
  by_cases hj : j = s.connections
  · subst hj
    cases task with
    | incompatibleHello =>
      have hself : (s.spawn .incompatibleHello).handlers s.connections = .hello .lock :=
        Function.update_self ..
      exact .inr (Option.some.inj ((drainAt_hello hself).symm.trans hd)).symm
    | serve op =>
      have hself : (s.spawn (.serve op)).handlers s.connections = .admitting op :=
        Function.update_self ..
      have hnone : (s.spawn (.serve op)).drainAt (.handler s.connections) = none :=
        drainAt_none (fun d hd => absurd (hself.symm.trans hd) (by simp))
      exact absurd (hnone.symm.trans hd) (by simp)
  · refine .inl ?_
    have hloop : (s.spawn task).loop = s.loop := rfl
    rw [← hd, drainAt_congr hloop]
    intro k hk
    obtain rfl := Thread.handler.inj hk
    exact Function.update_of_ne hj ..

/-- The accept loop outside `begin_draining_if_idle`. -/
theorem setLoop_drainAt {l : AcceptLoop} (hl : ∀ d, l = .drain d → d = .lock) {th : Thread}
    {d : Drain} (hd : (s.setLoop l).drainAt th = some d) : s.drainAt th = some d ∨ d = .lock := by
  cases th with
  | handler j => exact .inl hd
  | acceptLoop =>
    cases l with
    | drain d' =>
      obtain rfl := Option.some.inj hd
      exact .inr (hl _ rfl)
    | _ => exact absurd hd (by simp [drainAt, State.setLoop])

theorem loopDrain_drainAt {d₀ : Drain} (hloop : s.loop = .drain d₀) {u : State} {r : Drain ⊕ Bool}
    (hdrain : s.drainStep .acceptLoop d₀ = some (u, r)) {l : AcceptLoop}
    (hl : ∀ e, l = .drain e → r = .inl e) {th : Thread} {d : Drain}
    (hd : (u.setLoop l).drainAt th = some d) :
    s.drainAt th = some d ∨ th = .acceptLoop ∧ s.drainAt th = some d₀ ∧ r = .inl d := by
  cases th with
  | handler j =>
    obtain ⟨-, -, hhandlers, -, -, -⟩ := drainStep_frame hdrain
    refine .inl ?_
    change u.drainAt (.handler j) = some d at hd
    simp only [drainAt, hhandlers] at hd
    exact hd
  | acceptLoop =>
    cases l with
    | drain d' =>
      obtain rfl := Option.some.inj hd
      refine .inr ⟨rfl, ?_, hl _ rfl⟩
      simp only [drainAt, hloop]
    | _ => exact absurd hd (by simp [drainAt, State.setLoop])

theorem loopStep_drainAt {accepted : Accepted} (hstep : s.loopStep cfg accepted = some t)
    {th : Thread} {d : Drain} (hd : t.drainAt th = some d) :
    s.drainAt th = some d ∨ d = .lock ∨
      ∃ d₀ u, (Action.loop accepted).actor = some th ∧ s.drainAt th = some d₀ ∧
        s.drainStep th d₀ = some (u, .inl d) ∧ t.native = u.native ∧
        t.permits = u.permits := by
  have hplain : ∀ {l : AcceptLoop}, (∀ d, l = .drain d → d = .lock) → t = s.setLoop l →
      s.drainAt th = some d ∨ d = .lock ∨
      ∃ d₀ u, (Action.loop accepted).actor = some th ∧ s.drainAt th = some d₀ ∧
        s.drainStep th d₀ = some (u, .inl d) ∧ t.native = u.native ∧
        t.permits = u.permits := by
    rintro l hl rfl
    exact (setLoop_drainAt hl hd).imp id .inl
  cases hloop : s.loop with
  | top | elapsed stamp =>
    simp only [loopStep, hloop] at hstep
    refine hplain ?_ (Option.some.inj hstep).symm
    split <;> simp
  | idleTest l =>
    simp only [loopStep, hloop] at hstep
    split at hstep
    all_goals exact hplain (by simp) (Option.some.inj hstep).symm
  | stamp | acceptFailed =>
    simp only [loopStep, hloop] at hstep
    exact hplain (by simp) (Option.some.inj hstep).symm
  | drain d₀ =>
    simp only [loopStep, hloop] at hstep
    obtain ⟨⟨u, r⟩, hdrain, rfl⟩ := Option.map_eq_some_iff.mp hstep
    cases r with
    | inl d' =>
      rcases loopDrain_drainAt hloop hdrain (by simp) hd with hbefore | ⟨rfl, hd₀, hr⟩
      · exact .inl hbefore
      · rw [hr] at hdrain
        exact .inr (.inr ⟨d₀, u, rfl, hd₀, hdrain, rfl, rfl⟩)
    | inr result =>
      have hnot : ∀ e, (if result then AcceptLoop.stopped .beganDraining else .accept) =
          .drain e → (.inr result : Drain ⊕ Bool) = .inl e := by
        split <;> simp
      rcases loopDrain_drainAt hloop hdrain hnot hd with hbefore | ⟨-, -, hr⟩
      · exact .inl hbefore
      · exact absurd hr (by simp)
  | accept =>
    simp only [loopStep, hloop] at hstep
    split at hstep
    · exact hplain (by simp) (Option.some.inj hstep).symm
    · obtain rfl := Option.some.inj hstep
      rcases setLoop_drainAt (by simp) hd with hbefore | hlock
      · cases th with
        | acceptLoop => exact .inl hbefore
        | handler j => exact (drainAt_spawn hbefore).imp id .inl
      · exact .inr (.inl hlock)
    · exact hplain (by simp) (Option.some.inj hstep).symm
  | stopped reason =>
    simp only [loopStep, hloop] at hstep
    obtain rfl := Option.some.inj hstep
    have hbefore : (s.setLoop (.closed reason)).drainAt th = some d := hd
    exact (setLoop_drainAt (by simp) hbefore).imp id .inl
  | closed reason =>
    simp only [loopStep, hloop] at hstep
    exact absurd hstep (by simp)

/-- Where a thread stands in `begin_draining_if_idle` after a step: where it stood, at the
start, or one operation further. -/
theorem step_drainAt {a : Action} (hstep : step cfg s a = some t) {th : Thread} {d : Drain}
    (hd : t.drainAt th = some d) :
    s.drainAt th = some d ∨ d = .lock ∨
      ∃ d₀ u, a.actor = some th ∧ s.drainAt th = some d₀ ∧
        s.drainStep th d₀ = some (u, .inl d) ∧ t.native = u.native ∧
        t.permits = u.permits := by
  cases a with
  | loop accepted => exact loopStep_drainAt hstep hd
  | handler i turn => exact handlerStep_drainAt hstep hd
  | cancel i =>
    obtain rfl := Option.some.inj hstep
    refine .inl ?_
    rw [← hd]
    unfold State.cancel State.releasePermit
    split
    · split
      · rfl
      · rfl
    · rfl
  | owner w | nativeTick =>
    simp only [step] at hstep
    split at hstep
    · obtain ⟨native, -, rfl⟩ := Option.map_eq_some_iff.mp hstep
      exact .inl hd
    · exact absurd hstep (by simp)
  | tick =>
    obtain rfl := Option.some.inj hstep
    exact .inl hd

theorem drainStep_drained {me : Thread} {d : Drain} {r : Drain ⊕ Bool}
    (hdrain : s.drainStep me d = some (t, r)) (hdrained : t.drained = true) :
    s.drained = true ∨ d = .unlock true true ∧ t.native = s.native := by
  unfold drainStep at hdrain
  split at hdrain
  case h_9 result exchanged =>
    obtain ⟨rfl, -⟩ := Prod.mk.inj (Option.some.inj hdrain)
    rcases Bool.or_eq_true_iff.mp hdrained with hbefore | hresult
    · exact .inl hbefore
    · obtain ⟨rfl, rfl⟩ := Bool.and_eq_true_iff.mp hresult
      exact .inr ⟨rfl, rfl⟩
  case h_1 =>
    split at hdrain
    · obtain ⟨rfl, -⟩ := Prod.mk.inj (Option.some.inj hdrain)
      exact .inl hdrained
    · exact absurd hdrain (by simp)
  case h_5 | h_7 | h_8 =>
    obtain ⟨rfl, -⟩ := Prod.mk.inj (Option.some.inj hdrain)
    exact .inl hdrained
  all_goals
    split at hdrain
    all_goals
      obtain ⟨rfl, -⟩ := Prod.mk.inj (Option.some.inj hdrain)
      exact .inl hdrained

/-- Draining begins when a call returns true after its own exchange. -/
theorem step_drained {a : Action} (hstep : step cfg s a = some t) (hdrained : t.drained = true) :
    s.drained = true ∨
      ∃ th, s.drainAt th = some (.unlock true true) ∧ t.native = s.native := by
  cases a with
  | loop accepted =>
    cases hloop : s.loop with
    | drain d =>
      simp only [step, loopStep, hloop] at hstep
      obtain ⟨⟨u, r⟩, hdrain, rfl⟩ := Option.map_eq_some_iff.mp hstep
      have hu : u.drained = true := by
        cases r with
        | inl d' => exact hdrained
        | inr result => exact hdrained
      rcases drainStep_drained hdrain hu with hbefore | ⟨rfl, hnative⟩
      · exact .inl hbefore
      · refine .inr ⟨.acceptLoop, by simp only [drainAt, hloop], ?_⟩
        cases r with
        | inl d' => exact hnative
        | inr result => exact hnative
    | closed reason =>
      simp only [step, loopStep, hloop] at hstep
      exact absurd hstep (by simp)
    | idleTest l | accept =>
      simp only [step, loopStep, hloop] at hstep
      split at hstep
      all_goals
        obtain rfl := Option.some.inj hstep
        exact .inl hdrained
    | _ =>
      simp only [step, loopStep, hloop] at hstep
      obtain rfl := Option.some.inj hstep
      exact .inl hdrained
  | handler i turn =>
    rcases (handlerStep_frame hstep).begins with hsame | ⟨d, hd⟩
    · exact .inl (hsame.symm.trans hdrained)
    · simp only [step, handlerStep, hd] at hstep
      obtain ⟨⟨u, r⟩, hdrain, rfl⟩ := Option.map_eq_some_iff.mp hstep
      have hu : u.drained = true := by
        cases r with
        | inl d' => exact hdrained
        | inr result => exact hdrained
      rcases drainStep_drained hdrain hu with hbefore | ⟨rfl, hnative⟩
      · exact .inl hbefore
      · refine .inr ⟨.handler i, drainAt_hello hd, ?_⟩
        cases r with
        | inl d' => exact hnative
        | inr result => exact hnative
  | cancel i =>
    obtain rfl := Option.some.inj hstep
    unfold State.cancel State.releasePermit at hdrained
    split at hdrained
    · split at hdrained
      · exact .inl hdrained
      · exact .inl hdrained
    · exact .inl hdrained
  | owner w | nativeTick =>
    simp only [step] at hstep
    split at hstep
    · obtain ⟨native, -, rfl⟩ := Option.map_eq_some_iff.mp hstep
      exact .inl hdrained
    · exact absurd hstep (by simp)
  | tick =>
    obtain rfl := Option.some.inj hstep
    exact .inl hdrained

end Calls

/-- Some call has read the depths as zero, or draining has begun. -/
def FoundClear (s : State) : Prop :=
  s.drained = true ∨ ∃ th d, s.drainAt th = some d ∧ d.pastDepths = true

/-- The depths count the permits; entries belong to handlers that have registered; and once
the depths have been read as zero, or draining has begun, no entry has a permit. -/
structure Ledger (s : State) : Prop where
  counted : ∀ c, Census (· = .held c) s.permits (s.depths.depth c)
  asked : ∀ i, (s.handlers i).unpermitted = true → s.permits i = .absent
  entered : ∀ i ∈ s.cancellations, (s.handlers i).entered = true
  released : s.FoundClear → ∀ i ∈ s.cancellations, ∀ c, s.permits i ≠ .held c

section Ledger

theorem PermitMove.counted (hmove : PermitMove s t i) (hledger : s.Ledger)
    (c : EmbeddingRequestClass) : Census (· = .held c) t.permits (t.depths.depth c) := by
  have hcounted := hledger.counted c
  cases hmove with
  | keep hpermits hdepths =>
    rw [hpermits, hdepths]
    exact hcounted
  | take c' hbefore hpermits hdepths =>
    have habsent := hledger.asked i hbefore
    rw [hpermits, hdepths, Admission.ServerRequestAdmissionDepths.depth_increment]
    by_cases hc : c' = c
    · subst hc
      rw [if_pos rfl]
      exact hcounted.gain (by rw [habsent]; simp) rfl
    · rw [if_neg hc, Nat.add_zero]
      exact hcounted.keep (by simp [habsent, hc])
  | give c' hbefore hpermits hdepths =>
    rw [hpermits, hdepths, Admission.ServerRequestAdmissionDepths.depth_decrement]
    by_cases hc : c' = c
    · subst hc
      rw [if_pos rfl]
      exact hcounted.lose hbefore (by simp)
    · rw [if_neg hc, Nat.sub_zero]
      exact hcounted.keep (by simp [hbefore, hc])

/-- A permit is only ever taken by a handler without an entry. -/
theorem PermitMove.not_held (hmove : PermitMove s t i) (hledger : s.Ledger) {j : Nat}
    {c : EmbeddingRequestClass} (hj : j ∈ s.cancellations) (hfree : s.permits j ≠ .held c) :
    t.permits j ≠ .held c := by
  cases hmove with
  | keep hpermits _ =>
    rw [hpermits]
    exact hfree
  | take c' hbefore hpermits _ =>
    have hji : j ≠ i := by
      rintro rfl
      have hentered := hledger.entered j hj
      exact absurd ((Handler.not_entered hbefore).symm.trans hentered) (by simp)
    rw [hpermits, Function.update_of_ne hji]
    exact hfree
  | give c' hbefore hpermits _ =>
    rw [hpermits]
    by_cases hji : j = i
    · subst hji
      rw [Function.update_self]
      simp
    · rw [Function.update_of_ne hji]
      exact hfree

/-- When the depths are read as zero, no permit is out. -/
theorem Ledger.unheld (hledger : s.Ledger) (hdepths : s.depths = ⟨0, 0⟩) (j : Nat)
    (c : EmbeddingRequestClass) : s.permits j ≠ .held c := by
  have hcounted := hledger.counted c
  rw [hdepths] at hcounted
  have hzero : (⟨0, 0⟩ : Admission.ServerRequestAdmissionDepths).depth c = 0 := by
    cases c <;> rfl
  rw [hzero] at hcounted
  exact hcounted.of_zero j

theorem look_pastDepths {l next : Look} (hlook : s.look l = .inl next)
    (hnext : next.pastDepths = true) : l.pastDepths = true ∨ s.depths = ⟨0, 0⟩ := by
  cases l with
  | active =>
    simp only [look] at hlook
    split at hlook
    · obtain rfl := Sum.inl.inj hlook
      exact absurd hnext (by simp [Look.pastDepths])
    · exact absurd hlook (by simp)
  | depths =>
    simp only [look] at hlook
    split at hlook
    · rename_i hdepths
      exact .inr hdepths
    · exact absurd hlook (by simp)
  | slot => exact .inl rfl
  | query => exact .inl rfl
  | bulk => exact .inl rfl
  | tracker => exact .inl rfl

theorem look_true_pastDepths {l : Look} (hlook : s.look l = .inr true) :
    l.pastDepths = true := by
  cases l with
  | active | depths =>
    simp only [look] at hlook
    split at hlook
    · exact absurd hlook (by simp)
    · exact absurd hlook (by simp)
  | slot | query | bulk | tracker => rfl

theorem drainStep_pastDepths {me : Thread} {d d' : Drain}
    (hdrain : s.drainStep me d = some (t, .inl d')) (hpast : d'.pastDepths = true) :
    d.pastDepths = true ∨ s.depths = ⟨0, 0⟩ := by
  cases d with
  | lock =>
    simp only [drainStep] at hdrain
    split at hdrain
    · obtain ⟨-, hd'⟩ := Prod.mk.inj (Option.some.inj hdrain)
      obtain rfl := Sum.inl.inj hd'
      exact absurd hpast (by simp [Drain.pastDepths])
    · exact absurd hdrain (by simp)
  | exchange =>
    simp only [drainStep] at hdrain
    split at hdrain
    all_goals
      obtain ⟨-, hd'⟩ := Prod.mk.inj (Option.some.inj hdrain)
      obtain rfl := Sum.inl.inj hd'
      exact absurd hpast (by simp [Drain.pastDepths, Look.pastDepths])
  | again l =>
    simp only [drainStep] at hdrain
    split at hdrain
    · rename_i hlook
      obtain ⟨-, hd'⟩ := Prod.mk.inj (Option.some.inj hdrain)
      obtain rfl := Sum.inl.inj hd'
      exact look_pastDepths hlook hpast
    · rename_i result hlook
      obtain ⟨-, hd'⟩ := Prod.mk.inj (Option.some.inj hdrain)
      obtain rfl := Sum.inl.inj hd'
      obtain rfl : result = true := hpast
      exact .inl (look_true_pastDepths hlook)
  | idle l =>
    simp only [drainStep] at hdrain
    split at hdrain
    · rename_i hlook
      obtain ⟨-, hd'⟩ := Prod.mk.inj (Option.some.inj hdrain)
      obtain rfl := Sum.inl.inj hd'
      exact look_pastDepths hlook hpast
    · rename_i hlook
      exact .inl (look_true_pastDepths hlook)
    · obtain ⟨-, hd'⟩ := Prod.mk.inj (Option.some.inj hdrain)
      obtain rfl := Sum.inl.inj hd'
      exact absurd hpast (by simp [Drain.pastDepths])
  | withdraw =>
    simp only [drainStep] at hdrain
    obtain ⟨-, hd'⟩ := Prod.mk.inj (Option.some.inj hdrain)
    obtain rfl := Sum.inl.inj hd'
    exact absurd hpast (by simp [Drain.pastDepths])
  | unlock result exchanged => exact absurd hdrain (by simp [drainStep])
  | slot => exact .inl rfl
  | native l => exact .inl rfl
  | owner => exact .inl rfl

/-- The depths are found to be zero by the step of a call, and by nothing else. -/
theorem step_foundClear {a : Action} (hstep : step cfg s a = some t) (hclear : t.FoundClear) :
    s.FoundClear ∨ s.depths = ⟨0, 0⟩ ∧ t.permits = s.permits ∧
      ∃ th d, a.actor = some th ∧ s.drainAt th = some d := by
  rcases hclear with hdrained | ⟨th, d, hd, hpast⟩
  · rcases step_drained hstep hdrained with hbefore | ⟨th, hth, -⟩
    · exact .inl (.inl hbefore)
    · exact .inl (.inr ⟨th, _, hth, rfl⟩)
  · rcases step_drainAt hstep hd with hbefore | rfl | ⟨d₀, u, hactor, hd₀, hdrain, -, hpermits⟩
    · exact .inl (.inr ⟨th, d, hbefore, hpast⟩)
    · exact absurd hpast (by simp [Drain.pastDepths])
    · rcases drainStep_pastDepths hdrain hpast with hbefore | hzero
      · exact .inl (.inr ⟨th, d₀, hd₀, hbefore⟩)
      · exact .inr ⟨hzero, hpermits.trans (drainStep_keeps hdrain).permits, th, d₀, hactor, hd₀⟩

/-- A step that leaves permits and entries alone. -/
theorem Ledger.keep (hledger : s.Ledger) (hpermits : t.permits = s.permits)
    (hdepths : t.depths = s.depths) (hcancellations : t.cancellations = s.cancellations)
    (hasked : ∀ j, (t.handlers j).unpermitted = true → (s.handlers j).unpermitted = true)
    (hentered : ∀ j, (s.handlers j).entered = true → (t.handlers j).entered = true)
    (hfound : t.FoundClear → s.FoundClear ∨ s.depths = ⟨0, 0⟩) : t.Ledger := by
  refine ⟨?_, ?_, ?_, ?_⟩
  · rw [hpermits, hdepths]
    exact hledger.counted
  · intro j hj
    rw [hpermits]
    exact hledger.asked j (hasked j hj)
  · intro j hj
    rw [hcancellations] at hj
    exact hentered j (hledger.entered j hj)
  · intro hclear j hj c
    rw [hcancellations] at hj
    rw [hpermits]
    rcases hfound hclear with hbefore | hzero
    · exact hledger.released hbefore j hj c
    · exact hledger.unheld hzero j c

/-- Whoever has read the depths as zero has the gate. -/
theorem not_foundClear (h : s.Safe) (hdrained : s.drained = false) {me : Thread}
    (hgated : (s.view.marks me).gated = true) (hme : s.drainAt me = none) : ¬ s.FoundClear := by
  rintro (htrue | ⟨th, d, hd, hpast⟩)
  · exact absurd (hdrained.symm.trans htrue) (by simp)
  · have hother : th ≠ me := by
      rintro rfl
      exact absurd (hme.symm.trans hd) (by simp)
    have hungated := h.view.others_ungated (.inr ((h.view.vouches me).gated hgated)) th hother
    rw [marks_drainAt hd, Drain.gated_of_pastDepths hpast] at hungated
    exact absurd hungated (by simp)

theorem handlerStep_ledger {turn : Turn} (h : s.Safe) (hledger : s.Ledger)
    (hstep : s.handlerStep cfg i turn = some t) : t.Ledger := by
  have hframe := handlerStep_frame hstep
  have hmove := handlerStep_move hstep
  refine ⟨hmove.permits.counted hledger, ?_, ?_, ?_⟩
  · intro j hj
    by_cases hji : j = i
    · subst hji
      obtain ⟨hbefore, hpermits⟩ := hmove.asked hj
      rw [hpermits]
      exact hledger.asked j hbefore
    · rw [hframe.others j hji] at hj
      have habsent := hledger.asked j hj
      cases hmove.permits with
      | keep hpermits _ =>
        rw [hpermits]
        exact habsent
      | take c _ hpermits _ | give c _ hpermits _ =>
        rw [hpermits, Function.update_of_ne hji]
        exact habsent
  · intro j hj
    by_cases hji : j = i
    · subst hji
      apply hmove.entered hj
      rcases hmove.entries j hj with hbefore | ⟨-, hentering⟩
      · exact .inl (hledger.entered j hbefore)
      · exact .inr hentering
    · rw [hframe.others j hji]
      rcases hmove.entries j hj with hbefore | ⟨rfl, -⟩
      · exact hledger.entered j hbefore
      · exact absurd rfl hji
  · intro hclear j hj c
    rcases hmove.entries j hj with hbefore | ⟨rfl, hentering⟩
    · rcases step_foundClear (a := .handler i turn) hstep hclear with
        hfound | ⟨hzero, hpermits, -⟩
      · exact hmove.permits.not_held hledger hbefore (hledger.released hfound j hbefore c)
      · rw [hpermits]
        exact hledger.unheld hzero j c
    · -- the handler that makes an entry has the gate, and draining has not begun
      have hgated : (s.view.marks (.handler j)).gated = true := by
        by_contra hungated
        have hnone := ((h.view.wellFormed (.handler j)).ungated
          (Bool.eq_false_of_not_eq_true hungated)).1
        exact absurd (hnone.symm.trans hentering) (by simp)
      have hdrained : s.drained = false := (h.view.vouches (.handler j)).entering hentering
      have hhello : ∀ d, s.handlers j ≠ .hello d := by
        intro d hd
        rw [hd] at hentering
        cases d <;> exact absurd hentering (by simp [Handler.marks, Drain.marks, Marks.none])
      rcases step_foundClear (a := .handler j turn) hstep hclear with
        hfound | ⟨-, -, th, d, hactor, hd⟩
      · exact absurd hfound (not_foundClear h hdrained hgated (drainAt_none hhello))
      · obtain rfl := Option.some.inj hactor
        exact absurd ((drainAt_none hhello).symm.trans hd) (by simp)

/-- A cancellation releases the permit early; its entry stays. -/
theorem Ledger.releasePermit (hledger : s.Ledger) (i : Nat) : (s.releasePermit i).Ledger := by
  have hmove : PermitMove s (s.releasePermit i) i := permitMove_release rfl rfl
  have hsame : (s.releasePermit i).handlers = s.handlers ∧
      (s.releasePermit i).cancellations = s.cancellations ∧
      ((s.releasePermit i).FoundClear → s.FoundClear) := by
    unfold State.releasePermit
    split
    · exact ⟨rfl, rfl, id⟩
    · exact ⟨rfl, rfl, id⟩
  obtain ⟨hhandlers, hcancellations, hfound⟩ := hsame
  refine ⟨hmove.counted hledger, ?_, ?_, ?_⟩
  · intro j hj
    rw [hhandlers] at hj
    have habsent := hledger.asked j hj
    unfold State.releasePermit
    split
    · rename_i c hheld
      have hji : j ≠ i := by
        rintro rfl
        exact absurd (habsent.symm.trans hheld) (by simp)
      exact (Function.update_of_ne hji ..).trans habsent
    · exact habsent
  · intro j hj
    rw [hcancellations] at hj
    rw [hhandlers]
    exact hledger.entered j hj
  · intro hclear j hj c
    rw [hcancellations] at hj
    exact hmove.not_held hledger hj (hledger.released (hfound hclear) j hj c)

/-- What a step of the accept loop leaves alone; a connection gets a handler of its own. -/
theorem loopStep_keeps {accepted : Accepted} (h : s.Safe)
    (hstep : s.loopStep cfg accepted = some t) :
    t.permits = s.permits ∧ t.depths = s.depths ∧ t.cancellations = s.cancellations ∧
      ∀ j, t.handlers j = s.handlers j ∨
        s.handlers j = .idle ∧
          (t.handlers j = .hello .lock ∨ ∃ op, t.handlers j = .admitting op) := by
  unfold loopStep at hstep
  split at hstep
  case h_5 d _ =>
    obtain ⟨⟨u, r⟩, hdrain, rfl⟩ := Option.map_eq_some_iff.mp hstep
    obtain ⟨-, -, hhandlers, -, -, -⟩ := drainStep_frame hdrain
    obtain ⟨-, -, -, hpermits, hdepths, hcancellations, -⟩ := drainStep_keeps hdrain
    cases r with
    | inl d' => exact ⟨hpermits, hdepths, hcancellations, fun j => .inl (congrFun hhandlers j)⟩
    | inr result =>
      exact ⟨hpermits, hdepths, hcancellations, fun j => .inl (congrFun hhandlers j)⟩
  case h_9 => exact absurd hstep (by simp)
  case h_2 =>
    split at hstep
    all_goals
      obtain rfl := Option.some.inj hstep
      exact ⟨rfl, rfl, rfl, fun _ => .inl rfl⟩
  case h_6 =>
    split at hstep
    case h_2 task =>
      obtain rfl := Option.some.inj hstep
      refine ⟨rfl, rfl, rfl, ?_⟩
      intro j
      by_cases hj : j = s.connections
      · subst hj
        refine .inr ⟨h.unspawned _ le_rfl, ?_⟩
        cases task with
        | incompatibleHello => exact .inl (Function.update_self ..)
        | serve op => exact .inr ⟨op, Function.update_self ..⟩
      · exact .inl (Function.update_of_ne hj ..)
    all_goals
      obtain rfl := Option.some.inj hstep
      exact ⟨rfl, rfl, rfl, fun _ => .inl rfl⟩
  all_goals
    obtain rfl := Option.some.inj hstep
    exact ⟨rfl, rfl, rfl, fun _ => .inl rfl⟩

theorem loopStep_ledger {accepted : Accepted} (h : s.Safe) (hledger : s.Ledger)
    (hstep : s.loopStep cfg accepted = some t) : t.Ledger := by
  obtain ⟨hpermits, hdepths, hcancellations, hhandlers⟩ := loopStep_keeps h hstep
  refine hledger.keep hpermits hdepths hcancellations ?_ ?_ ?_
  · intro j hj
    rcases hhandlers j with hsame | ⟨hidle, -⟩
    · rw [hsame] at hj
      exact hj
    · rw [hidle]
      rfl
  · intro j hj
    rcases hhandlers j with hsame | ⟨hidle, -⟩
    · rw [hsame]
      exact hj
    · rw [hidle] at hj
      exact absurd hj (by simp [Handler.entered, Handler.marks, Marks.none])
  · intro hclear
    rcases step_foundClear (a := .loop accepted) hstep hclear with hbefore | ⟨hzero, -⟩
    · exact .inl hbefore
    · exact .inr hzero

theorem step_ledger (cfg : Config) {a : Action} (h : s.Safe) (hledger : s.Ledger)
    (hstep : step cfg s a = some t) : t.Ledger := by
  have hengine : ∀ a, s.engineStep cfg a = some t → t.Ledger := by
    intro a ha
    obtain ⟨native, -, rfl⟩ := Option.map_eq_some_iff.mp ha
    exact hledger.keep rfl rfl rfl (fun _ => id) (fun _ => id) .inl
  cases a with
  | loop accepted => exact loopStep_ledger h hledger hstep
  | handler i turn => exact handlerStep_ledger h hledger hstep
  | cancel i =>
    obtain rfl := Option.some.inj hstep
    unfold State.cancel
    split
    · have hcancelled : (s.cancelContext i).Ledger :=
        hledger.keep rfl rfl rfl (fun _ => id) (fun _ => id) .inl
      exact hcancelled.releasePermit i
    · exact hledger
  | owner w | nativeTick =>
    simp only [step] at hstep
    split at hstep
    · exact hengine _ hstep
    · exact absurd hstep (by simp)
  | tick =>
    obtain rfl := Option.some.inj hstep
    exact hledger.keep rfl rfl rfl (fun _ => id) (fun _ => id) .inl

theorem initial_ledger : initial.Ledger where
  counted c := by
    cases c with
    | query => exact Census.none (by simp [initial])
    | bulk => exact Census.none (by simp [initial])
  asked i _ := rfl
  entered i hi := absurd hi (by simp [initial])
  released _ i hi := absurd hi (by simp [initial])

end Ledger

end State

end CodeStory.Server
