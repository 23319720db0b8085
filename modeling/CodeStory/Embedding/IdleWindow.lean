import CodeStory.Embedding.Draining

/-!
# The idle window

The loop looks whether the server is idle, reads when work last ended, compares that with the
clock and only then calls `begin_draining_if_idle`. A request leaves the registrations before
its end is written down, and nothing is compared again under the gate. The loop waits out the
window in the runs in which neither comes between.
-/

set_option autoImplicit false

namespace CodeStory.Server

open Transition

/-- Neither finishing a request nor dropping a lease. -/
def Handler.plain : Handler → Bool
  | .finishActive _ | .finishCancellation _ | .finishRestart _ | .dropRelease _ => false
  | _ => true

/-- Past the registrations, before the end is written down. -/
def Handler.ending : Handler → Bool
  | .finishCancellation _ | .finishRestart _ => true
  | _ => false

/-- About to end a registration or to release a lease. -/
def Handler.endsWork : Handler → Bool
  | .finishActive _ | .dropRelease _ => true
  | _ => false

def Handler.dropping : Handler → Bool
  | .dropRelease _ => true
  | _ => false

/-- The loop has read when work last ended, and has not decided. -/
def AcceptLoop.deciding : AcceptLoop → Bool
  | .elapsed _ | .drain _ => true
  | _ => false

namespace State
variable {s t : State} {cfg : Config} {i : Nat}

/-- A request is registered or a residency lease is held. -/
def Busy (s : State) : Prop := s.active ≠ ∅ ∨ ∃ j, (s.native.callers j).holds = true

/-- A request has left the registrations and its end is not written down. -/
def Ending (s : State) : Prop := ∃ j, (s.handlers j).ending = true

/-- What a step of handler `i` does to the registrations, the leases and the window. -/
structure WindowFrame (s t : State) (i : Nat) : Prop where
  active : s.active ⊆ t.active ∨ ∃ k, s.handlers i = .finishActive k
  leases : ∀ j, (s.native.callers j).holds = true →
    (t.native.callers j).holds = true ∨ ∃ k, s.handlers i = .dropRelease k
  window : t.lastWorkEndedNs = s.lastWorkEndedNs ∨ t.lastWorkEndedNs = s.clock
  ending : (∃ k, s.handlers i = .finishActive k ∨ s.handlers i = .finishCancellation k) →
    t.Ending
  restart : ∀ k, s.handlers i = .finishRestart k → t.lastWorkEndedNs = s.clock
  drops : ∀ k, t.handlers i = .dropRelease k → t.lastWorkEndedNs = s.clock

/-- The handler is at none of the places that the window is about. -/
theorem windowFrame_plain {next : Handler} (hplain : (s.handlers i).plain = true)
    (hactive : s.active ⊆ t.active)
    (hleases : ∀ j, (s.native.callers j).holds = true → (t.native.callers j).holds = true)
    (hwindow : t.lastWorkEndedNs = s.lastWorkEndedNs) (hhandler : t.handlers i = next)
    (hnext : ∀ k, next ≠ .dropRelease k) : WindowFrame s t i := by
  refine ⟨.inl hactive, fun j hj => .inl (hleases j hj), .inl hwindow, ?_, ?_, ?_⟩
  · rintro ⟨k, hk | hk⟩
    · rw [hk] at hplain
      exact absurd hplain (by simp [Handler.plain])
    · rw [hk] at hplain
      exact absurd hplain (by simp [Handler.plain])
  · intro k hk
    rw [hk] at hplain
    exact absurd hplain (by simp [Handler.plain])
  · intro k hk
    exact absurd (hhandler.symm.trans hk) (hnext k)

theorem windowFrame_leave (hplain : (s.handlers i).plain = true) (course : Course) :
    WindowFrame s (s.leave i course) i := by
  unfold State.leave
  split
  · exact windowFrame_plain hplain (fun _ => id) (fun _ => id) rfl (Function.update_self ..)
      (by simp)
  · exact windowFrame_plain hplain (fun _ => id) (fun _ => id) rfl (Function.update_self ..)
      (by simp)

theorem windowFrame_engine {next : Handler} {a : Engine.Action}
    (hplain : (s.handlers i).plain = true) (haction : ∀ j, a ≠ .leaseReleased j)
    (hstep : (s.engineStep cfg a).map (fun s => s.setHandler i next) = some t)
    (hnext : ∀ k, next ≠ .dropRelease k) : WindowFrame s t i := by
  obtain ⟨u, hu, rfl⟩ := Option.map_eq_some_iff.mp hstep
  obtain ⟨native, hnative, rfl⟩ := Option.map_eq_some_iff.mp hu
  refine windowFrame_plain hplain (fun _ => id) ?_ rfl (Function.update_self ..) hnext
  intro j hj
  rcases Engine.State.step_holder hnative hj with hkeeps | hreleased
  · exact hkeeps
  · exact absurd hreleased (haction j)

theorem windowFrame_releasePermit {next : Handler} (hplain : (s.handlers i).plain = true)
    (hnext : ∀ k, next ≠ .dropRelease k) :
    WindowFrame s ((s.releasePermit i).setHandler i next) i := by
  have hself : ((s.releasePermit i).setHandler i next).handlers i = next :=
    Function.update_self ..
  unfold State.releasePermit at hself ⊢
  split at hself
  · exact windowFrame_plain hplain (fun _ => id) (fun _ => id) rfl hself hnext
  · exact windowFrame_plain hplain (fun _ => id) (fun _ => id) rfl hself hnext

theorem windowFrame_hello {d : Drain} {turn : Turn} (hpc : s.handlers i = .hello d)
    (hstep : s.handlerStep cfg i turn = some t) : WindowFrame s t i := by
  simp only [handlerStep, hpc] at hstep
  obtain ⟨⟨u, r⟩, hdrain, rfl⟩ := Option.map_eq_some_iff.mp hstep
  have hkeeps := drainStep_keeps hdrain
  obtain ⟨-, -, -, -, -, hnative⟩ := drainStep_frame hdrain
  have hplain : (s.handlers i).plain = true := by
    rw [hpc]
    rfl
  have hleases : ∀ j, (s.native.callers j).holds = true → (u.native.callers j).holds = true := by
    intro j hj
    rcases hnative with heq | heq
    · rw [heq]
      exact hj
    · rw [heq]
      exact hj
  cases r with
  | inl d' | inr result =>
    exact windowFrame_plain hplain hkeeps.active.superset hleases hkeeps.window
      (Function.update_self ..) (by simp)

theorem windowFrame_openEngine {op : Operation} {turn : Turn} (h : s.Safe)
    (hpc : s.handlers i = .openEngine op)
    (hstep : s.handlerStep cfg i turn = some t) : WindowFrame s t i := by
  have hplain : (s.handlers i).plain = true := by
    rw [hpc]
    rfl
  simp only [handlerStep, hpc] at hstep
  split at hstep
  · obtain rfl := Option.some.inj hstep
    exact windowFrame_plain hplain (fun _ => id) (fun _ => id) rfl (Function.update_self ..)
      (by simp)
  · rename_i hslot
    split at hstep
    · rename_i u hu
      obtain rfl := Option.some.inj hstep
      unfold State.initializeEngine at hu
      split at hu
      · obtain ⟨native, -, rfl⟩ := Option.map_eq_some_iff.mp hu
        refine windowFrame_plain hplain (fun _ => id) ?_ rfl (Function.update_self ..) (by simp)
        intro j hj
        have hunleased := h.unleased_of_fresh (Bool.eq_false_of_not_eq_true hslot) j
        exact absurd (hunleased.symm.trans hj) (by simp)
      · exact absurd hu (by simp)
    · obtain rfl := Option.some.inj hstep
      exact windowFrame_plain hplain (fun _ => id) (fun _ => id) rfl (Function.update_self ..)
        (by simp)

theorem windowFrame_leasing {turn : Turn} (hpc : s.handlers i = .leasing)
    (hstep : s.handlerStep cfg i turn = some t) : WindowFrame s t i := by
  have hplain : (s.handlers i).plain = true := by
    rw [hpc]
    rfl
  simp only [handlerStep, hpc] at hstep
  split at hstep
  · obtain ⟨native, hnative, rfl⟩ := Option.map_eq_some_iff.mp hstep
    refine windowFrame_plain hplain (fun _ => id) ?_ rfl hpc (by simp)
    intro j hj
    rcases Engine.State.step_holder hnative hj with hkeeps | hreleased
    · exact hkeeps
    · exact absurd hreleased (by simp)
  · exact windowFrame_engine hplain (by simp) hstep (by simp)
  · obtain rfl := Option.some.inj hstep
    exact windowFrame_leave hplain .fail
  · exact absurd hstep (by simp)

/-- A lease is dropped: the window starts again, then the lease is released. -/
theorem windowFrame_drop {turn : Turn} {k : Bool}
    (hpc : s.handlers i = .dropRestart k ∨ s.handlers i = .dropRelease k ∨
      s.handlers i = .dropSend k)
    (hstep : s.handlerStep cfg i turn = some t) : WindowFrame s t i := by
  rcases hpc with hpc | hpc | hpc
  · simp only [handlerStep, hpc] at hstep
    obtain rfl := Option.some.inj hstep
    refine ⟨.inl fun _ => id, fun j hj => .inl hj, .inr rfl, ?_, fun _ _ => rfl, fun _ _ => rfl⟩
    rintro ⟨k', hk' | hk'⟩
    · exact absurd (hpc.symm.trans hk') (by simp)
    · exact absurd (hpc.symm.trans hk') (by simp)
  · simp only [handlerStep, hpc] at hstep
    obtain ⟨u, hu, rfl⟩ := Option.map_eq_some_iff.mp hstep
    obtain ⟨native, -, rfl⟩ := Option.map_eq_some_iff.mp hu
    refine ⟨.inl fun _ => id, fun _ _ => .inr ⟨k, hpc⟩, .inl rfl, ?_, ?_, ?_⟩
    · rintro ⟨k', hk' | hk'⟩
      · exact absurd (hpc.symm.trans hk') (by simp)
      · exact absurd (hpc.symm.trans hk') (by simp)
    · intro k' hk'
      exact absurd (hpc.symm.trans hk') (by simp)
    · intro k' hk'
      have hself : Function.update s.handlers i (.dropSend k) i = .dropSend k :=
        Function.update_self ..
      exact absurd (hself.symm.trans hk') (by simp)
  · simp only [handlerStep, hpc] at hstep
    refine windowFrame_engine (by rw [hpc]; rfl) (by simp) hstep ?_
    split <;> simp

theorem windowFrame_finish {turn : Turn} {k : Bool}
    (hpc : s.handlers i = .finishActive k ∨ s.handlers i = .finishCancellation k ∨
      s.handlers i = .finishRestart k)
    (hstep : s.handlerStep cfg i turn = some t) : WindowFrame s t i := by
  rcases hpc with hpc | hpc | hpc
  · simp only [handlerStep, hpc] at hstep
    obtain rfl := Option.some.inj hstep
    have hself : (s.setHandler i (.finishCancellation k)).handlers i = .finishCancellation k :=
      Function.update_self ..
    refine ⟨.inr ⟨k, hpc⟩, fun j hj => .inl hj, .inl rfl,
      fun _ => ⟨i, congrArg Handler.ending hself⟩, ?_, ?_⟩
    · intro k' hk'
      exact absurd (hpc.symm.trans hk') (by simp)
    · intro k' hk'
      exact absurd (hself.symm.trans hk') (by simp)
  · simp only [handlerStep, hpc] at hstep
    obtain rfl := Option.some.inj hstep
    have hself : ((s.releasePermit i).setHandler i (.finishRestart k)).handlers i =
        .finishRestart k := Function.update_self ..
    have hkept : (s.releasePermit i).active = s.active ∧
        (s.releasePermit i).lastWorkEndedNs = s.lastWorkEndedNs := by
      unfold State.releasePermit
      split <;> exact ⟨rfl, rfl⟩
    refine ⟨.inl hkept.1.superset, ?_, .inl hkept.2,
      fun _ => ⟨i, congrArg Handler.ending hself⟩, ?_, ?_⟩
    · intro j hj
      refine .inl ?_
      change ((s.releasePermit i).native.callers j).holds = true
      rw [native_releasePermit]
      exact hj
    · intro k' hk'
      exact absurd (hpc.symm.trans hk') (by simp)
    · intro k' hk'
      exact absurd (hself.symm.trans hk') (by simp)
  · simp only [handlerStep, hpc] at hstep
    obtain rfl := Option.some.inj hstep
    refine ⟨.inl fun _ => id, fun j hj => .inl hj, .inr rfl, ?_, fun _ _ => rfl, fun _ _ => rfl⟩
    rintro ⟨k', hk' | hk'⟩
    · exact absurd (hpc.symm.trans hk') (by simp)
    · exact absurd (hpc.symm.trans hk') (by simp)

theorem handlerStep_window {turn : Turn} (h : s.Safe)
    (hstep : s.handlerStep cfg i turn = some t) : WindowFrame s t i := by
  have hset : (s.handlers i).plain = true → ∀ {u : State} (next : Handler),
      s.active ⊆ u.active → u.native = s.native → u.lastWorkEndedNs = s.lastWorkEndedNs →
      u.handlers i = next → (∀ k, next ≠ .dropRelease k) → WindowFrame s u i := by
    intro hplain u next hactive hnative hwindow hhandler hnext
    refine windowFrame_plain hplain hactive ?_ hwindow hhandler hnext
    rw [hnative]
    exact fun _ => id
  cases hpc : s.handlers i with
  | hello d => exact windowFrame_hello hpc hstep
  | openEngine op => exact windowFrame_openEngine h hpc hstep
  | leasing => exact windowFrame_leasing hpc hstep
  | dropRestart k => exact windowFrame_drop (.inl hpc) hstep
  | dropRelease k => exact windowFrame_drop (.inr (.inl hpc)) hstep
  | dropSend k => exact windowFrame_drop (.inr (.inr hpc)) hstep
  | finishActive k => exact windowFrame_finish (.inl hpc) hstep
  | finishCancellation k => exact windowFrame_finish (.inr (.inl hpc)) hstep
  | finishRestart k => exact windowFrame_finish (.inr (.inr hpc)) hstep
  | idle | done =>
    simp only [handlerStep, hpc] at hstep
    exact absurd hstep (by simp)
  | admitting op | holding =>
    simp only [handlerStep, hpc] at hstep
    obtain rfl := Option.some.inj hstep
    exact hset (by rw [hpc]; rfl) _ (fun _ => id) rfl rfl (Function.update_self ..) (by simp)
  | acquiring op activeExecution =>
    simp only [handlerStep, hpc] at hstep
    obtain rfl := Option.some.inj hstep
    unfold tryAcquire
    dsimp only
    split
    · exact hset (by rw [hpc]; rfl) _ (fun _ => id) rfl rfl (Function.update_self ..) (by simp)
    · exact hset (by rw [hpc]; rfl) _ (fun _ => id) rfl rfl (Function.update_self ..) (by simp)
  | admitted op =>
    simp only [handlerStep, hpc] at hstep
    split at hstep
    · obtain rfl := Option.some.inj hstep
      exact windowFrame_plain (by rw [hpc]; rfl) (fun _ => id) (fun _ => id) rfl
        (Function.update_self ..) (by simp)
    · obtain rfl := Option.some.inj hstep
      exact hset (by rw [hpc]; rfl) _ (fun _ => id) rfl rfl (Function.update_self ..) (by simp)
  | lockBegin op | lockEngine op =>
    simp only [handlerStep, hpc] at hstep
    split at hstep
    · obtain rfl := Option.some.inj hstep
      exact hset (by rw [hpc]; rfl) _ (fun _ => id) rfl rfl (Function.update_self ..) (by simp)
    · exact absurd hstep (by simp)
  | checkBegin op | checkEngine op | unlockBegin op ok | unlockEngine op ok | leased =>
    simp only [handlerStep, hpc] at hstep
    obtain rfl := Option.some.inj hstep
    refine hset (by rw [hpc]; rfl) _ (fun _ => id) rfl rfl (Function.update_self ..) ?_
    split <;> simp
  | insertBegin op =>
    simp only [handlerStep, hpc] at hstep
    obtain rfl := Option.some.inj hstep
    exact hset (by rw [hpc]; rfl) (.unlockBegin op true) (Finset.subset_insert i _) rfl rfl
      (Function.update_self ..) (by simp)
  | dropPermit =>
    simp only [handlerStep, hpc] at hstep
    obtain rfl := Option.some.inj hstep
    exact windowFrame_releasePermit (by rw [hpc]; rfl) (by simp)
  | registered op =>
    simp only [handlerStep, hpc] at hstep
    split at hstep
    · obtain rfl := Option.some.inj hstep
      exact windowFrame_leave (by rw [hpc]; rfl) .giveUp
    · obtain rfl := Option.some.inj hstep
      exact hset (by rw [hpc]; rfl) _ (fun _ => id) rfl rfl (Function.update_self ..) (by simp)
  | ready op =>
    simp only [handlerStep, hpc] at hstep
    split at hstep
    · unfold callEngine at hstep
      split at hstep
      · refine windowFrame_engine (by rw [hpc]; rfl) (by simp) hstep ?_
        split <;> simp
      · exact windowFrame_engine (by rw [hpc]; rfl) (by simp) hstep (by simp)
      · exact windowFrame_engine (by rw [hpc]; rfl) (by simp) hstep (by simp)
    · obtain rfl := Option.some.inj hstep
      exact windowFrame_leave (by rw [hpc]; rfl) _
  | submitted =>
    simp only [handlerStep, hpc] at hstep
    split at hstep
    · split at hstep
      · obtain rfl := Option.some.inj hstep
        exact windowFrame_leave (by rw [hpc]; rfl) .fail
      · exact absurd hstep (by simp)
    · obtain rfl := Option.some.inj hstep
      exact windowFrame_leave (by rw [hpc]; rfl) _
  | ensuring =>
    simp only [handlerStep, hpc] at hstep
    split at hstep
    · obtain rfl := Option.some.inj hstep
      exact windowFrame_leave (by rw [hpc]; rfl) .fail
    · exact absurd hstep (by simp)

section Window

/-- What the accept loop does to the window: it reads when work last ended, and compares. -/
theorem loopStep_window {accepted : Accepted} (hstep : s.loopStep cfg accepted = some t) :
    t.clock = s.clock ∧ t.lastWorkEndedNs = s.lastWorkEndedNs ∧ t.active = s.active ∧
      (∀ stamp, t.loop = .elapsed stamp → s.loop = .stamp ∧ stamp = s.lastWorkEndedNs) ∧
      ∀ d, t.loop = .drain d → (∃ d', s.loop = .drain d') ∨
        ∃ stamp, s.loop = .elapsed stamp ∧ s.clock - stamp ≥ cfg.idleTimeout := by
  cases hloop : s.loop with
  | top =>
    simp only [loopStep, hloop] at hstep
    obtain rfl := Option.some.inj hstep
    refine ⟨rfl, rfl, rfl, ?_, ?_⟩
    · intro stamp hstamp
      change ite _ _ _ = _ at hstamp
      split at hstamp
      · exact absurd hstamp (by simp)
      · exact absurd hstamp (by simp)
    · intro d hd
      change ite _ _ _ = _ at hd
      split at hd
      · exact absurd hd (by simp)
      · exact absurd hd (by simp)
  | stamp =>
    simp only [loopStep, hloop] at hstep
    obtain rfl := Option.some.inj hstep
    refine ⟨rfl, rfl, rfl, ?_, by simp [setLoop]⟩
    intro stamp hstamp
    exact ⟨rfl, (AcceptLoop.elapsed.inj hstamp).symm⟩
  | elapsed stamp =>
    simp only [loopStep, hloop] at hstep
    obtain rfl := Option.some.inj hstep
    refine ⟨rfl, rfl, rfl, ?_, ?_⟩
    · intro stamp' hstamp
      change ite _ _ _ = _ at hstamp
      split at hstamp
      · exact absurd hstamp (by simp)
      · exact absurd hstamp (by simp)
    · intro d hd
      change ite _ _ _ = _ at hd
      split at hd
      · rename_i hlate
        exact .inr ⟨stamp, rfl, hlate⟩
      · exact absurd hd (by simp)
  | drain d =>
    simp only [loopStep, hloop] at hstep
    obtain ⟨⟨u, r⟩, hdrain, rfl⟩ := Option.map_eq_some_iff.mp hstep
    have hkeeps := drainStep_keeps hdrain
    cases r with
    | inl d' =>
      exact ⟨hkeeps.clock, hkeeps.window, hkeeps.active, by simp [setLoop],
        fun _ _ => .inl ⟨d, rfl⟩⟩
    | inr result =>
      refine ⟨hkeeps.clock, hkeeps.window, hkeeps.active, ?_, fun _ _ => .inl ⟨d, rfl⟩⟩
      intro stamp hstamp
      change ite _ _ _ = _ at hstamp
      split at hstamp
      · exact absurd hstamp (by simp)
      · exact absurd hstamp (by simp)
  | idleTest l | accept =>
    simp only [loopStep, hloop] at hstep
    split at hstep
    all_goals
      obtain rfl := Option.some.inj hstep
      exact ⟨rfl, rfl, rfl, by simp [setLoop], by simp [setLoop]⟩
  | acceptFailed | stopped reason =>
    simp only [loopStep, hloop] at hstep
    obtain rfl := Option.some.inj hstep
    exact ⟨rfl, rfl, rfl, by simp [setLoop], by simp [setLoop]⟩
  | closed reason =>
    simp only [loopStep, hloop] at hstep
    exact absurd hstep (by simp)

theorem loopStep_callers {accepted : Accepted} (hstep : s.loopStep cfg accepted = some t) :
    t.native.callers = s.native.callers := by
  unfold loopStep at hstep
  split at hstep
  case h_5 d _ =>
    obtain ⟨⟨u, r⟩, hdrain, rfl⟩ := Option.map_eq_some_iff.mp hstep
    obtain ⟨-, -, -, -, -, hnative⟩ := drainStep_frame hdrain
    have hcallers : u.native.callers = s.native.callers := by
      rcases hnative with heq | heq
      · rw [heq]
      · rw [heq]
        rfl
    cases r with
    | inl d' => exact hcallers
    | inr result => exact hcallers
  case h_9 => exact absurd hstep (by simp)
  case h_2 =>
    split at hstep
    all_goals
      obtain rfl := Option.some.inj hstep
      rfl
  case h_6 =>
    split at hstep
    all_goals
      obtain rfl := Option.some.inj hstep
      rfl
  all_goals
    obtain rfl := Option.some.inj hstep
    rfl

/-- The loop reads when work last ended while no end is still to be written down; no work ends
while the loop decides; and the clock stands while a lease is between its restart of the
window and its release. -/
def keepsWindow (s : State) : Action → Bool
  | .loop _ =>
    !(s.loop = .stamp && (List.range s.connections).any fun i => (s.handlers i).ending)
  | .handler i _ => !((s.handlers i).endsWork && s.loop.deciding)
  | .tick => !(List.range s.connections).any fun i => (s.handlers i).dropping
  | _ => true

/-- A handler that drops a lease has just restarted the window. -/
def DropsNow (s : State) : Prop :=
  ∀ j, (s.handlers j).dropping = true → s.lastWorkEndedNs = s.clock

/-- What stands between a moment `c` of work and the loop's decision. -/
structure Window (cfg : Config) (c : Nat) (s : State) : Prop where
  past : c ≤ s.clock
  covered : s.Busy ∨ s.Ending ∨ c ≤ s.lastWorkEndedNs
  stamped : ∀ stamp, s.loop = .elapsed stamp → s.Busy ∨ c ≤ stamp
  draining : ∀ d, s.loop = .drain d → s.Busy ∨ c + cfg.idleTimeout ≤ s.clock

theorem Busy.window (h : s.Busy) : Window cfg s.clock s :=
  ⟨le_rfl, .inl h, fun _ _ => .inl h, fun _ _ => .inl h⟩

theorem Busy.of_same (h : s.Busy) (hactive : t.active = s.active)
    (hcallers : t.native.callers = s.native.callers) : t.Busy := by
  unfold Busy
  rw [hactive, hcallers]
  exact h

/-- Work goes on unless this step ends a registration or releases a lease. -/
theorem handlerStep_busy {turn : Turn} (h : s.Safe) (hbusy : s.Busy)
    (hstep : s.handlerStep cfg i turn = some t) :
    t.Busy ∨ (∃ k, s.handlers i = .finishActive k) ∨ ∃ k, s.handlers i = .dropRelease k := by
  have hframe := handlerStep_window h hstep
  rcases hbusy with hactive | ⟨j, hj⟩
  · rcases hframe.active with hsubset | hfinish
    · refine .inl (.inl ?_)
      rw [← Finset.nonempty_iff_ne_empty] at hactive ⊢
      exact hactive.mono hsubset
    · exact .inr (.inl hfinish)
  · rcases hframe.leases j hj with hkeeps | hdrop
    · exact .inl (.inr ⟨j, hkeeps⟩)
    · exact .inr (.inr hdrop)

theorem engineStep_busy {a : Engine.Action} (hbusy : s.Busy) (haction : ∀ j, a ≠ .leaseReleased j)
    (hstep : s.engineStep cfg a = some t) : t.Busy := by
  obtain ⟨native, hnative, rfl⟩ := Option.map_eq_some_iff.mp hstep
  rcases hbusy with hactive | ⟨j, hj⟩
  · exact .inl hactive
  · rcases Engine.State.step_holder hnative hj with hkeeps | hreleased
    · exact .inr ⟨j, hkeeps⟩
    · exact absurd hreleased (haction j)

/-- A step that leaves work, handlers and the loop alone, and lets the clock go on. -/
theorem Window.keep {c : Nat} (hw : Window cfg c s) (hbusy : s.Busy → t.Busy)
    (hhandlers : t.handlers = s.handlers) (hwindow : t.lastWorkEndedNs = s.lastWorkEndedNs)
    (hloop : t.loop = s.loop) (hclock : s.clock ≤ t.clock) : Window cfg c t := by
  have hpast := hw.past
  refine ⟨by omega, ?_, ?_, ?_⟩
  · rcases hw.covered with h | ⟨j, hj⟩ | h
    · exact .inl (hbusy h)
    · refine .inr (.inl ⟨j, ?_⟩)
      rw [hhandlers]
      exact hj
    · refine .inr (.inr ?_)
      rw [hwindow]
      exact h
  · intro stamp hstamp
    rw [hloop] at hstamp
    exact (hw.stamped stamp hstamp).imp hbusy id
  · intro d hd
    rw [hloop] at hd
    rcases hw.draining d hd with h | h
    · exact .inl (hbusy h)
    · exact .inr (by omega)

theorem loopStep_keepsWindow {c : Nat} {accepted : Accepted} (h : s.Safe) (hw : Window cfg c s)
    (hguard : s.keepsWindow (.loop accepted) = true)
    (hstep : s.loopStep cfg accepted = some t) : Window cfg c t := by
  obtain ⟨hclock, hwindow, hactive, hstamp, hdrain⟩ := loopStep_window hstep
  have hbusy : s.Busy → t.Busy := fun hb => hb.of_same hactive (loopStep_callers hstep)
  refine ⟨by rw [hclock]; exact hw.past, ?_, ?_, ?_⟩
  · rcases hw.covered with hb | ⟨j, hj⟩ | hended
    · exact .inl (hbusy hb)
    · refine .inr (.inl ⟨j, ?_⟩)
      rcases (loopStep_keeps h hstep).2.2.2 j with hsame | ⟨hidle, -⟩
      · rw [hsame]
        exact hj
      · rw [hidle] at hj
        exact absurd hj (by simp [Handler.ending])
    · refine .inr (.inr ?_)
      rw [hwindow]
      exact hended
  · -- the loop reads when work last ended, and nothing is still to be written down
    intro stamp ht
    obtain ⟨hloop, rfl⟩ := hstamp stamp ht
    rcases hw.covered with hb | ⟨j, hj⟩ | hended
    · exact .inl (hbusy hb)
    · have hspawned : j < s.connections := by
        by_contra hle
        rw [h.unspawned j (by omega)] at hj
        exact absurd hj (by simp [Handler.ending])
      have hany : (List.range s.connections).any (fun i => (s.handlers i).ending) = true :=
        List.any_eq_true.mpr ⟨j, List.mem_range.mpr hspawned, hj⟩
      simp only [keepsWindow, hloop, hany] at hguard
      exact absurd hguard (by simp)
    · exact .inr hended
  · intro d ht
    rw [hclock]
    rcases hdrain d ht with ⟨d', hloop⟩ | ⟨stamp, hloop, hlate⟩
    · exact (hw.draining d' hloop).imp hbusy id
    · rcases hw.stamped stamp hloop with hb | hle
      · exact .inl (hbusy hb)
      · have hpast := hw.past
        exact .inr (by omega)

theorem handlerStep_keepsWindow {c : Nat} {turn : Turn} (h : s.Safe) (hnow : s.DropsNow)
    (hw : Window cfg c s) (hguard : s.keepsWindow (.handler i turn) = true)
    (hstep : s.handlerStep cfg i turn = some t) : Window cfg c t := by
  have hframe := handlerStep_frame hstep
  have hwindow := handlerStep_window h hstep
  have hpast := hw.past
  have hbusy : s.loop.deciding = true → s.Busy → t.Busy := by
    intro hdeciding hb
    simp only [keepsWindow, hdeciding, Bool.and_true, Bool.not_eq_true'] at hguard
    rcases handlerStep_busy h hb hstep with hgoes | ⟨k, hk⟩ | ⟨k, hk⟩
    · exact hgoes
    · rw [hk] at hguard
      exact absurd hguard (by simp [Handler.endsWork])
    · rw [hk] at hguard
      exact absurd hguard (by simp [Handler.endsWork])
  have hended : c ≤ s.lastWorkEndedNs → c ≤ t.lastWorkEndedNs := by
    intro hle
    rcases hwindow.window with heq | heq
    · omega
    · omega
  refine ⟨by rw [hframe.clock]; exact hpast, ?_, ?_, ?_⟩
  · rcases hw.covered with hb | ⟨j, hj⟩ | hle
    · rcases handlerStep_busy h hb hstep with hgoes | ⟨k, hk⟩ | ⟨k, hk⟩
      · exact .inl hgoes
      · exact .inr (.inl (hwindow.ending ⟨k, .inl hk⟩))
      · -- the window was restarted at this very moment
        have heq := hnow i (by rw [hk]; rfl)
        exact .inr (.inr (hended (by omega)))
    · by_cases hji : j = i
      · subst hji
        cases hpc : s.handlers j with
        | finishCancellation k => exact .inr (.inl (hwindow.ending ⟨k, .inr hpc⟩))
        | finishRestart k =>
          have heq := hwindow.restart k hpc
          exact .inr (.inr (by omega))
        | _ =>
          rw [hpc] at hj
          exact absurd hj (by simp [Handler.ending])
      · refine .inr (.inl ⟨j, ?_⟩)
        rw [hframe.others j hji]
        exact hj
    · exact .inr (.inr (hended hle))
  · intro stamp hstamp
    rw [hframe.loop] at hstamp
    exact (hw.stamped stamp hstamp).imp (hbusy (by rw [hstamp]; rfl)) id
  · intro d hd
    rw [hframe.loop] at hd
    rw [hframe.clock]
    exact (hw.draining d hd).imp (hbusy (by rw [hd]; rfl)) id

theorem step_keepsWindow {c : Nat} {a : Action} (h : s.Safe) (hnow : s.DropsNow)
    (hw : Window cfg c s) (hguard : s.keepsWindow a = true) (hstep : step cfg s a = some t) :
    Window cfg c t := by
  cases a with
  | loop accepted => exact loopStep_keepsWindow h hw hguard hstep
  | handler i turn => exact handlerStep_keepsWindow h hnow hw hguard hstep
  | cancel i =>
    obtain rfl := Option.some.inj hstep
    unfold State.cancel State.releasePermit
    split
    · split
      · exact hw.keep id rfl rfl rfl le_rfl
      · exact hw.keep id rfl rfl rfl le_rfl
    · exact hw
  | owner w | nativeTick =>
    simp only [step] at hstep
    split at hstep
    · have hbusy : s.Busy → t.Busy := fun hb => engineStep_busy hb (by simp) hstep
      obtain ⟨native, -, rfl⟩ := Option.map_eq_some_iff.mp hstep
      exact hw.keep hbusy rfl rfl rfl le_rfl
    · exact absurd hstep (by simp)
  | tick =>
    obtain rfl := Option.some.inj hstep
    exact hw.keep id rfl rfl rfl (Nat.le_succ _)

theorem DropsNow.keep (hnow : s.DropsNow) (hhandlers : t.handlers = s.handlers)
    (hwindow : t.lastWorkEndedNs = s.lastWorkEndedNs) (hclock : t.clock = s.clock) :
    t.DropsNow := by
  intro j hj
  rw [hhandlers] at hj
  rw [hwindow, hclock]
  exact hnow j hj

theorem step_dropsNow {a : Action} (h : s.Safe) (hnow : s.DropsNow)
    (hguard : s.keepsWindow a = true) (hstep : step cfg s a = some t) : t.DropsNow := by
  cases a with
  | loop accepted =>
    obtain ⟨hclock, hwindow, -⟩ := loopStep_window hstep
    intro j hj
    rw [hclock, hwindow]
    rcases (loopStep_keeps h hstep).2.2.2 j with hsame | ⟨-, hnew | ⟨op, hnew⟩⟩
    · rw [hsame] at hj
      exact hnow j hj
    · rw [hnew] at hj
      exact absurd hj (by simp [Handler.dropping])
    · rw [hnew] at hj
      exact absurd hj (by simp [Handler.dropping])
  | handler i turn =>
    have hframe := handlerStep_frame hstep
    have hwindow := handlerStep_window h hstep
    intro j hj
    rw [hframe.clock]
    by_cases hji : j = i
    · subst hji
      cases hpc : t.handlers j with
      | dropRelease k => exact hwindow.drops k hpc
      | _ =>
        rw [hpc] at hj
        exact absurd hj (by simp [Handler.dropping])
    · rw [hframe.others j hji] at hj
      rcases hwindow.window with heq | heq
      · exact heq.trans (hnow j hj)
      · exact heq
  | cancel i =>
    obtain rfl := Option.some.inj hstep
    unfold State.cancel State.releasePermit
    split
    · split
      · exact hnow.keep rfl rfl rfl
      · exact hnow.keep rfl rfl rfl
    · exact hnow
  | owner w | nativeTick =>
    simp only [step] at hstep
    split at hstep
    · obtain ⟨native, -, rfl⟩ := Option.map_eq_some_iff.mp hstep
      exact hnow.keep rfl rfl rfl
    · exact absurd hstep (by simp)
  | tick =>
    obtain rfl := Option.some.inj hstep
    intro j hj
    have hspawned : j < s.connections := by
      by_contra hle
      change (s.handlers j).dropping = true at hj
      rw [h.unspawned j (by omega)] at hj
      exact absurd hj (by simp [Handler.dropping])
    have hany : (List.range s.connections).any (fun i => (s.handlers i).dropping) = true :=
      List.any_eq_true.mpr ⟨j, List.mem_range.mpr hspawned, hj⟩
    simp only [keepsWindow, hany] at hguard
    exact absurd hguard (by simp)

/-- The idle window is waited out: in every run whose steps keep the window, when the accept
loop's idle test succeeds, the timeout has passed since every moment of that run at which a
request was registered or a lease was held. -/
theorem idle_window_elapsed (cfg : Config) {u s : State}
    (hbefore : Reach (guarded (fun s a => s.keepsWindow a = true) (step cfg)) initial u)
    (hbusy : u.Busy)
    (hreach : Reach (guarded (fun s a => s.keepsWindow a = true) (step cfg)) u s)
    (hsucceeds : ∃ exchanged, s.loop = .drain (.unlock true exchanged)) :
    u.clock + cfg.idleTimeout ≤ s.clock := by
  have hstart : u.Safe ∧ u.DropsNow := by
    refine Reach.invariant (I := fun s => s.Safe ∧ s.DropsNow) ?_ hbefore
      ⟨initial_safe, fun _ _ => rfl⟩
    intro s a t hs hstep
    obtain ⟨hguard, hstep⟩ := guarded_eq_some.mp hstep
    exact ⟨step_safe cfg s a t hs.1 hstep, step_dropsNow hs.1 hs.2 hguard hstep⟩
  have hend : s.Safe ∧ s.DropsNow ∧ Window cfg u.clock s := by
    refine Reach.invariant (I := fun s => s.Safe ∧ s.DropsNow ∧ Window cfg u.clock s) ?_ hreach
      ⟨hstart.1, hstart.2, hbusy.window⟩
    intro s a t hs hstep
    obtain ⟨hguard, hstep⟩ := guarded_eq_some.mp hstep
    exact ⟨step_safe cfg s a t hs.1 hstep, step_dropsNow hs.1 hs.2.1 hguard hstep,
      step_keepsWindow hs.1 hs.2.1 hs.2.2 hguard hstep⟩
  obtain ⟨hsafe, -, hw⟩ := hend
  obtain ⟨exchanged, hloop⟩ := hsucceeds
  -- the test succeeds only when nothing is registered and no lease is held
  have hmarks : s.view.marks .acceptLoop = (Drain.unlock true exchanged).marks :=
    congrArg AcceptLoop.marks hloop
  have hvouches := hsafe.view.vouches .acceptLoop
  rw [hmarks] at hvouches
  have hactive : s.active = ∅ := hvouches.seesInactive rfl
  have hunleased : s.Unleased := hvouches.seesUnleased rfl
  rcases hw.draining _ hloop with (hregistered | ⟨j, hj⟩) | hlate
  · exact absurd hactive hregistered
  · exact absurd ((hunleased j).symm.trans hj) (by simp)
  · exact hlate

/-- The handler gives up and finishes, the clock goes on, and the loop's test succeeds. -/
theorem idle_window_elapsed_after_request :
    let kept := guarded (fun s a => s.keepsWindow a = true) (step smallServer)
    let u := after kept initial registerRun
    let s := after kept u ([Action.handler 0 givenUpTurn] ++
      List.replicate 3 (Action.handler 0 plainTurn) ++ [Action.tick] ++
      List.replicate 12 (Action.loop .nothing))
    s.loop = .drain (.unlock true true) ∧ u.clock + smallServer.idleTimeout ≤ s.clock := by
  intro kept u s
  have hbusy : u.Busy := .inl (by decide)
  have hloop : s.loop = .drain (.unlock true true) := by decide
  exact ⟨hloop, idle_window_elapsed smallServer (reach_after ..) hbusy (reach_after ..)
    ⟨true, hloop⟩⟩

/-- The request is gone from the registrations and has released its permit, and the window
has not been restarted: the loop reads the old timestamp and stops at once. -/
theorem idle_window_stale : ∃ u s, Reach (step smallServer) initial u ∧ u.Busy ∧
    Reach (step smallServer) u s ∧ s.loop = .drain (.unlock true true) ∧
    ¬ u.clock + smallServer.idleTimeout ≤ s.clock := by
  let u := after (step smallServer) initial (registerRun ++ [Action.tick])
  let s := after (step smallServer) u ([Action.handler 0 givenUpTurn] ++
    List.replicate 2 (Action.handler 0 plainTurn) ++ List.replicate 12 (Action.loop .nothing))
  exact ⟨u, s, reach_after .., .inl (by decide), reach_after .., by decide,
    by decide⟩

end Window

end State

end CodeStory.Server
