import CodeStory.Embedding.Permits

/-!
# When the accept loop stops

The draining flag is set before it is known whether draining begins, and the loop reads it
without the gate. A loop that reads it only when it stands stops over an empty server.
-/

set_option autoImplicit false

namespace CodeStory.Server

open Transition

namespace State
variable {s t : State} {cfg : Config} {i : Nat}

/-- Some call has set the draining flag and not yet decided whether it stays. -/
def speculating (s : State) : Bool :=
  match s.gate with
  | none => false
  | some th => (s.view.marks th).speculates

/-- The accept loop reads the draining flag only while it is nobody's speculation. -/
def readsDecided (s : State) : Action → Bool
  | .loop _ => !((s.loop = .top || s.loop = .acceptFailed) && s.speculating)
  | _ => true

/-- What the loop knows once it has seen the flag, or has found it set by another call. -/
def AcceptLoop.SeesDrained : AcceptLoop → Prop
  | .drain (.again _) | .drain (.unlock _ false) => True
  | .stopped reason | .closed reason => reason ≠ .failed
  | _ => False

def LoopTrusts (s : State) : Prop := AcceptLoop.SeesDrained s.loop → s.drained = true

section Stop

/-- A flag that is set and not in doubt means that draining has begun. -/
theorem Safe.drained_of_draining (h : s.Safe) (hdraining : s.draining = true)
    (hdecided : ∀ th, (s.view.marks th).speculates = false)
    (hopen : s.loop.isClosed = false) : s.drained = true := by
  rcases h.view.reason hdraining with hdrained | ⟨th, hth⟩ | hclosed
  · exact hdrained
  · exact absurd ((hdecided th).symm.trans hth) (by simp)
  · exact absurd (hopen.symm.trans hclosed) (by simp)

theorem Safe.decided (h : s.Safe) (hspeculating : s.speculating = false) (th : Thread) :
    (s.view.marks th).speculates = false := by
  by_contra hth
  have hspeculates := Bool.of_not_eq_false hth
  have hgated : (s.view.marks th).gated = true := by
    by_contra hungated
    have hnone := ((h.view.wellFormed th).ungated (Bool.eq_false_of_not_eq_true hungated)).2.1
    exact absurd (hnone.symm.trans hspeculates) (by simp)
  have hgate : s.gate = some th := (h.view.vouches th).gated hgated
  unfold speculating at hspeculating
  rw [hgate] at hspeculating
  exact absurd (hspeculating.symm.trans hspeculates) (by simp)

/-- The holder of the gate that does not speculate itself sees no speculation. -/
theorem Safe.decided_of_gate (h : s.Safe) (me : Thread) (hgated : (s.view.marks me).gated = true)
    (hme : (s.view.marks me).speculates = false) (th : Thread) :
    (s.view.marks th).speculates = false := by
  by_cases hth : th = me
  · subst hth
    exact hme
  · have hungated := h.view.others_ungated (.inr ((h.view.vouches me).gated hgated)) th hth
    exact ((h.view.wellFormed th).ungated hungated).2.1

theorem loopDrain_trusts {d : Drain} {u : State} {r : Drain ⊕ Bool} (h : s.Safe)
    (hloop : s.loop = .drain d) (htrusts : s.LoopTrusts)
    (hdrain : s.drainStep .acceptLoop d = some (u, r)) :
    (∀ d', r = .inl d' → (u.setLoop (.drain d')).LoopTrusts) ∧
      (r = .inr true → u.drained = true) := by
  have hmarks : s.view.marks .acceptLoop = d.marks := congrArg AcceptLoop.marks hloop
  have hkept := (drainStep_keeps hdrain).drained
  have hblind : ∀ {v : State} {next : Drain}, some (v, Sum.inl next) = some (u, r) →
      ¬ AcceptLoop.SeesDrained (.drain next) →
      (∀ d', r = .inl d' → (u.setLoop (.drain d')).LoopTrusts) ∧
        (r = .inr true → u.drained = true) := by
    intro v next hsome hnot
    obtain ⟨rfl, rfl⟩ := Prod.mk.inj (Option.some.inj hsome)
    refine ⟨?_, by simp⟩
    intro d' hd' hsees
    obtain rfl := Sum.inl.inj hd'
    exact absurd hsees hnot
  cases d with
  | exchange =>
    simp only [drainStep] at hdrain
    split at hdrain
    · rename_i hdraining
      obtain ⟨rfl, rfl⟩ := Prod.mk.inj (Option.some.inj hdrain)
      refine ⟨?_, by simp⟩
      intro d' _ _
      refine h.drained_of_draining hdraining (h.decided_of_gate .acceptLoop ?_ ?_)
        (by rw [hloop]; rfl)
      · rw [hmarks]
        rfl
      · rw [hmarks]
        rfl
    · exact hblind hdrain (by simp [AcceptLoop.SeesDrained])
  | again l =>
    have hdrained : u.drained = true := hkept (htrusts (by rw [hloop]; trivial))
    exact ⟨fun _ _ _ => hdrained, fun _ => hdrained⟩
  | unlock result exchanged =>
    simp only [drainStep] at hdrain
    obtain ⟨rfl, rfl⟩ := Prod.mk.inj (Option.some.inj hdrain)
    refine ⟨by simp, ?_⟩
    intro hresult
    obtain rfl := Sum.inr.inj hresult
    cases exchanged with
    | true => exact Bool.or_true _
    | false =>
      have hdrained := htrusts (by rw [hloop]; trivial)
      change (s.drained || _) = true
      rw [hdrained, Bool.true_or]
  | lock =>
    simp only [drainStep] at hdrain
    split at hdrain
    · exact hblind hdrain (by simp [AcceptLoop.SeesDrained])
    · exact absurd hdrain (by simp)
  | idle l | native l =>
    simp only [drainStep] at hdrain
    split at hdrain
    all_goals exact hblind hdrain (by simp [AcceptLoop.SeesDrained])
  | slot =>
    simp only [drainStep] at hdrain
    refine hblind hdrain ?_
    split <;> simp [AcceptLoop.SeesDrained]
  | owner | withdraw =>
    simp only [drainStep] at hdrain
    exact hblind hdrain (by simp [AcceptLoop.SeesDrained])

theorem loopStep_trusts {accepted : Accepted} (h : s.Safe) (htrusts : s.LoopTrusts)
    (hdecided : s.readsDecided (.loop accepted) = true)
    (hstep : s.loopStep cfg accepted = some t) : t.LoopTrusts := by
  have hblind : ∀ {u : State} {l : AcceptLoop}, ¬ AcceptLoop.SeesDrained l →
      (u.setLoop l).LoopTrusts := fun hl hsees => absurd hsees hl
  have hsettled : (s.loop = .top ∨ s.loop = .acceptFailed) → s.draining = true →
      s.drained = true := by
    intro hloop hdraining
    have hspeculating : s.speculating = false := by
      unfold readsDecided at hdecided
      rcases hloop with hloop | hloop
      · simpa [hloop] using hdecided
      · simpa [hloop] using hdecided
    refine h.drained_of_draining hdraining (h.decided hspeculating) ?_
    rcases hloop with hloop | hloop
    · rw [hloop]
      rfl
    · rw [hloop]
      rfl
  cases hloop : s.loop with
  | top =>
    simp only [loopStep, hloop] at hstep
    obtain rfl := Option.some.inj hstep
    split
    · rename_i hdraining
      exact fun _ => hsettled (.inl hloop) hdraining
    · exact hblind (by simp [AcceptLoop.SeesDrained])
  | idleTest l | accept =>
    simp only [loopStep, hloop] at hstep
    split at hstep
    all_goals
      obtain rfl := Option.some.inj hstep
      exact hblind (by simp [AcceptLoop.SeesDrained])
  | stamp =>
    simp only [loopStep, hloop] at hstep
    obtain rfl := Option.some.inj hstep
    exact hblind (by simp [AcceptLoop.SeesDrained])
  | elapsed stamp =>
    simp only [loopStep, hloop] at hstep
    obtain rfl := Option.some.inj hstep
    split
    · exact hblind (by simp [AcceptLoop.SeesDrained])
    · exact hblind (by simp [AcceptLoop.SeesDrained])
  | drain d =>
    simp only [loopStep, hloop] at hstep
    obtain ⟨⟨u, r⟩, hdrain, rfl⟩ := Option.map_eq_some_iff.mp hstep
    obtain ⟨hnext, hstop⟩ := loopDrain_trusts h hloop htrusts hdrain
    cases r with
    | inl d' => exact hnext d' rfl
    | inr result =>
      cases result with
      | true => exact fun _ => hstop rfl
      | false => exact hblind (by simp [AcceptLoop.SeesDrained])
  | acceptFailed =>
    simp only [loopStep, hloop] at hstep
    obtain rfl := Option.some.inj hstep
    split
    · rename_i hdraining
      exact fun _ => hsettled (.inr hloop) hdraining
    · exact hblind (by simp [AcceptLoop.SeesDrained])
  | stopped reason =>
    simp only [loopStep, hloop] at hstep
    obtain rfl := Option.some.inj hstep
    intro hreason
    apply htrusts
    rw [hloop]
    exact hreason
  | closed reason =>
    simp only [loopStep, hloop] at hstep
    exact absurd hstep (by simp)

theorem LoopTrusts.mono (htrusts : s.LoopTrusts) (hloop : t.loop = s.loop)
    (hdrained : s.drained = true → t.drained = true) : t.LoopTrusts := by
  intro hsees
  rw [hloop] at hsees
  exact hdrained (htrusts hsees)

theorem step_trusts {a : Action} (h : s.Safe) (htrusts : s.LoopTrusts)
    (hdecided : s.readsDecided a = true) (hstep : step cfg s a = some t) : t.LoopTrusts := by
  have hengine : ∀ a, s.engineStep cfg a = some t → t.LoopTrusts := by
    intro a ha
    obtain ⟨native, -, rfl⟩ := Option.map_eq_some_iff.mp ha
    exact htrusts.mono rfl id
  cases a with
  | loop accepted => exact loopStep_trusts h htrusts hdecided hstep
  | handler i turn =>
    have hframe := handlerStep_frame hstep
    exact htrusts.mono hframe.loop hframe.drained
  | cancel i =>
    obtain rfl := Option.some.inj hstep
    unfold State.cancel State.releasePermit
    split
    · split
      · exact htrusts.mono rfl id
      · exact htrusts.mono rfl id
    · exact htrusts
  | owner w | nativeTick =>
    simp only [step] at hstep
    split at hstep
    · exact hengine _ hstep
    · exact absurd hstep (by simp)
  | tick =>
    obtain rfl := Option.some.inj hstep
    exact htrusts.mono rfl id

end Stop

theorem reach_ledger (hreach : Reach (step cfg) initial s) : s.Ledger := by
  have hboth : s.Safe ∧ s.Ledger := by
    refine Reach.invariant (I := fun s => s.Safe ∧ s.Ledger) ?_ hreach
      ⟨initial_safe, initial_ledger⟩
    intro s a t hs hstep
    exact ⟨step_safe cfg s a t hs.1 hstep, step_ledger cfg hs.1 hs.2 hstep⟩
  exact hboth.2

/-- The server does not shut down under live work, in every run in which the accept loop does
not read the draining flag while a call has set it and not decided: when the loop has ended
on that flag or on its own idle test, no request is registered, no permit of a request that
has registered is out, and no lease is held. -/
theorem stops_without_work (cfg : Config) {s : State}
    (hreach : Reach (guarded (fun s a => s.readsDecided a = true) (step cfg)) initial s)
    (hstopped : s.loop = .stopped .observedDraining ∨ s.loop = .stopped .beganDraining) :
    s.active = ∅ ∧ (∀ i ∈ s.cancellations, ∀ c, s.permits i ≠ .held c) ∧ s.Unleased := by
  have htrusts : s.Safe ∧ s.LoopTrusts := by
    refine Reach.invariant (I := fun s => s.Safe ∧ s.LoopTrusts) ?_ hreach ⟨initial_safe, ?_⟩
    · intro s a t hs hstep
      obtain ⟨hdecided, hstep⟩ := guarded_eq_some.mp hstep
      exact ⟨step_safe cfg s a t hs.1 hstep, step_trusts hs.1 hs.2 hdecided hstep⟩
    · exact fun hsees => absurd hsees (by simp [initial, AcceptLoop.SeesDrained])
  obtain ⟨hsafe, htrusts⟩ := htrusts
  have hledger := reach_ledger hreach.of_guarded
  have hdrained : s.drained = true := by
    apply htrusts
    rcases hstopped with hloop | hloop
    · rw [hloop]
      exact StopReason.noConfusion
    · rw [hloop]
      exact StopReason.noConfusion
  obtain ⟨hactive, hunleased⟩ := hsafe.view.settled hdrained
  exact ⟨hactive, hledger.released (.inl hdrained), hunleased⟩

def smallServer : Config := ⟨1, ⟨1, 8, 1, Nat.one_pos⟩⟩

def plainTurn : Turn := ⟨.proceed, false, ⟨true, true, fun _ => some 1, []⟩⟩

/-- Handler 0 registers its request. -/
def registerRun : List Action :=
  List.replicate 6 (Action.loop .nothing) ++ [Action.loop (.connection (.serve .ensureResident))] ++
    List.replicate 7 (Action.handler 0 plainTurn)

def givenUpTurn : Turn := { plainTurn with course := .giveUp }

/-- A request is registered, given up and finished, and the loop stops after the idle window. -/
theorem stops_without_work_after_request :
    let kept := guarded (fun s a => s.readsDecided a = true) (step smallServer)
    let s := after kept initial (registerRun ++ [Action.handler 0 givenUpTurn] ++
      List.replicate 3 (Action.handler 0 plainTurn) ++ [.tick] ++
      List.replicate 13 (.loop .nothing))
    0 ∈ (after kept initial registerRun).active ∧ s.loop = .stopped .beganDraining ∧
      s.active = ∅ ∧ (∀ i ∈ s.cancellations, ∀ c, s.permits i ≠ .held c) ∧ s.Unleased := by
  intro kept s
  have hloop : s.loop = .stopped .beganDraining := by decide
  exact ⟨by decide, hloop, stops_without_work smallServer (reach_after ..) (.inr hloop)⟩

/-- Handler 0 has registered its request; handler 1 greets with an incompatible executable and
has exchanged the draining flag when the loop reads it. -/
def speculativeRun : List Action :=
  registerRun ++ [Action.loop .nothing, .loop .nothing, .loop (.connection .incompatibleHello)] ++
    [Action.handler 1 plainTurn, .handler 1 plainTurn, .loop .nothing]

/-- The loop leaves on a flag that the call is about to withdraw, and the request is there. -/
theorem stops_under_work : ∃ s, Reach (step smallServer) initial s ∧
    s.loop = .stopped .observedDraining ∧ s.active ≠ ∅ :=
  ⟨after (step smallServer) initial speculativeRun, reach_after .., by decide,
    by decide⟩

end State

end CodeStory.Server
