import CodeStory.Engine.Accounting
import CodeStory.Engine.Delivery

/-!
# Fairness between the two queues

While the model stays resident one scheduler serves both queues. It remembers which class it
served last and looks at the other queue first. A pop is two looks at most, each under the
lock of its queue, and other threads act between them.

A query that is taken between two batches of a bulk request does not go through the
scheduler and is not counted; neither is the request that wakes a sleeping engine.
-/

set_option autoImplicit false

namespace CodeStory.Engine

open Transition

/-- The places where nothing is in mind but the class that comes next. -/
def OwnerPc.isNeutral : OwnerPc → Bool
  | .top | .selecting _ | .handling _ _ false | .asleep | .wakePop _ | .wakeCheck _ _
  | .wakeReply _ | .stopped | .loading _ => true
  | _ => false

def OwnerPc.isPopping : OwnerPc → Bool
  | .popping _ _ => true
  | _ => false

namespace State
variable {cfg : EngineConfig} {s t : State} {c : EmbeddingRequestClass} {r : EmbeddingRequest}
  {inVain : Prop}

/-- The class that the scheduler serves in this step. -/
def servedBy (s : State) (a : Action) : Option EmbeddingRequestClass :=
  match a, s.pc with
  | .owner w, .popping c _ => if (s.tryPop c w.late).2.isSome then some c else none
  | _, _ => none

/-- The model is loaded in this step, and a new scheduler begins. -/
def entersGeneration (s : State) (a : Action) : Bool :=
  match a, s.pc with
  | .owner w, .loading _ => w.loaded
  | _, _ => false

/-- What the scheduler has in mind after it served `c`, until it serves again; `inVain` says
whether it may have looked at the other queue and found nothing. -/
structure Prefers (c : EmbeddingRequestClass) (inVain : Prop) (s : State) : Prop where
  next : s.nextWhenBothReady = c.other
  first : ∀ d, s.pc = .popping d false → d = c.other
  second : ∀ d, s.pc = .popping d true → d = c ∧ inVain
  woken : ∀ frame below, s.pc ≠ .handling frame below true
  entry : ∀ wake, s.pc ≠ .entry wake
  waking : ∀ wake, s.pc ≠ .waking wake

theorem Prefers.of_neutral (hnext : s.nextWhenBothReady = c.other)
    (hpc : s.pc.isNeutral = true) : s.Prefers c inVain where
  next := hnext
  first := by
    intro d hd
    rw [hd] at hpc
    cases hpc
  second := by
    intro d hd
    rw [hd] at hpc
    cases hpc
  woken := by
    intro frame below hd
    rw [hd] at hpc
    cases hpc
  entry := by
    intro wake hd
    rw [hd] at hpc
    cases hpc
  waking := by
    intro wake hd
    rw [hd] at hpc
    cases hpc

theorem Prefers.of_eq (h : s.Prefers c inVain) (hnext : t.nextWhenBothReady = s.nextWhenBothReady)
    (hpc : t.pc = s.pc) : t.Prefers c inVain where
  next := hnext.trans h.next
  first := by
    rw [hpc]
    exact h.first
  second := by
    rw [hpc]
    exact h.second
  woken := by
    rw [hpc]
    exact h.woken
  entry := by
    rw [hpc]
    exact h.entry
  waking := by
    rw [hpc]
    exact h.waking

/-! ## Frames -/

theorem callerStep_next {a : Action} (hstep : s.callerStep a = some t) :
    t.nextWhenBothReady = s.nextWhenBothReady ∧ t.pc = s.pc ∧ t.queue = s.queue := by
  unfold callerStep at hstep
  split at hstep
  all_goals
    first
    | split at hstep
      · obtain rfl := Option.some.inj hstep
        exact ⟨rfl, rfl, rfl⟩
      · exact absurd hstep (by simp)
    | exact absurd hstep (by simp)

theorem queue_pruneCancelled (d : EmbeddingRequestClass) (late : List Nat)
    (hr : r ∈ s.queue c) (hlive : s.isCancelled r = false) :
    r ∈ (s.pruneCancelled d late).queue c := by
  unfold pruneCancelled
  dsimp only
  by_cases hc : c = d
  · subst hc
    rw [Function.update_self, List.mem_filter]
    refine ⟨hr, ?_⟩
    simp [drops, hlive]
  · rw [Function.update_of_ne hc]
    exact hr

theorem queue_submit {d : EmbeddingRequestClass} (context : RequestContext)
    (inputs : List String) (late : List Nat) (hr : r ∈ s.queue c)
    (hlive : s.isCancelled r = false) : r ∈ (s.submit d context inputs late).queue c := by
  have hpruned := queue_pruneCancelled d late hr hlive
  unfold submit tryPush
  dsimp only
  split
  · exact hr
  · split
    · exact hpruned
    · dsimp only
      by_cases hc : c = d
      · subst hc
        rw [Function.update_self]
        exact List.mem_append_left _ hpruned
      · rw [Function.update_of_ne hc]
        exact hpruned

theorem next_submit (d : EmbeddingRequestClass) (context : RequestContext)
    (inputs : List String) (late : List Nat) :
    (s.submit d context inputs late).nextWhenBothReady = s.nextWhenBothReady := by
  unfold submit tryPush
  dsimp only
  split
  · rfl
  · split <;> rfl

/-- The other threads neither move the owner nor take a live request out of a queue. -/
theorem outside_frame {a : Action} (ha : ∀ w, a ≠ .owner w) (hstep : step cfg s a = some t) :
    t.pc = s.pc ∧ t.nextWhenBothReady = s.nextWhenBothReady ∧
      ∀ c r, r ∈ s.queue c → s.isCancelled r = false → r ∈ t.queue c := by
  unfold step at hstep
  split at hstep
  · split at hstep
    · obtain rfl := Option.some.inj hstep
      refine ⟨pc_submit _ _ _ _, next_submit _ _ _ _, ?_⟩
      intro c r hr hlive
      exact queue_submit _ _ _ hr hlive
    · exact absurd hstep (by simp)
  · obtain rfl := Option.some.inj hstep
    exact ⟨rfl, rfl, fun _ _ hr _ => hr⟩
  · split at hstep
    · obtain rfl := Option.some.inj hstep
      exact ⟨rfl, rfl, fun _ _ hr _ => hr⟩
    · exact absurd hstep (by simp)
  · obtain rfl := Option.some.inj hstep
    exact ⟨rfl, rfl, fun _ _ hr _ => hr⟩
  · obtain rfl := Option.some.inj hstep
    exact ⟨rfl, rfl, fun _ _ hr _ => hr⟩
  · exact absurd rfl (ha _)
  · obtain ⟨hnext, hpc, hqueue⟩ := callerStep_next hstep
    rw [hqueue]
    exact ⟨hpc, hnext, fun _ _ hr _ => hr⟩

theorem next_tryPop (d : EmbeddingRequestClass) (late : List Nat) :
    (s.tryPop d late).1.nextWhenBothReady = s.nextWhenBothReady := by
  unfold tryPop
  dsimp only
  split <;> rfl

/-- A look that finds nothing has found cancelled requests only. -/
theorem cancelled_of_tryPop_none {late : List Nat} (hnone : (s.tryPop c late).2 = none)
    (hr : r ∈ s.queue c) : s.isCancelled r = true := by
  by_contra hlive
  have hin := queue_pruneCancelled c late hr (by simpa using hlive)
  unfold tryPop at hnone
  dsimp only at hnone
  split at hnone
  · rename_i hempty
    rw [hempty] at hin
    cases hin
  · cases hnone

/-! ## The owner -/

theorem handleResidentControl_prefers (hnext : s.nextWhenBothReady = c.other) (message : Control) :
    (s.handleResidentControl message .top).Prefers c inVain := by
  cases message with
  | shutdown => exact .of_neutral hnext rfl
  | ensureResident caller =>
    refine .of_neutral ?_ rfl
    simp only [handleResidentControl, confirmResident]
    split <;> exact hnext
  | acquireLease caller =>
    refine .of_neutral ?_ rfl
    simp only [handleResidentControl, grantResidencyLease]
    split <;> exact hnext
  | releaseLease => exact .of_neutral hnext rfl

theorem failWake_prefers (hnext : s.nextWhenBothReady = c.other) (wake : WakeReason) :
    (s.noteLoadFailure.failWake wake).Prefers c inVain := by
  have hnote : s.noteLoadFailure.nextWhenBothReady = c.other := by
    unfold noteLoadFailure
    split <;> exact hnext
  cases wake with
  | startup => exact .of_neutral hnote rfl
  | request d r => exact .of_neutral hnote rfl
  | ensureResident caller =>
    refine .of_neutral ?_ rfl
    simp only [failWake, confirmResident]
    split <;> exact hnote
  | acquireLease caller =>
    refine .of_neutral ?_ rfl
    simp only [failWake, refuseLease]
    split <;> exact hnote

theorem residentSelect_prefers (hnext : s.nextWhenBothReady = c.other) {deadline : Nat}
    (hstep : s.residentSelect deadline = some t) : t.Prefers c inVain := by
  unfold residentSelect at hstep
  split at hstep
  · rename_i message rest _
    obtain rfl := Option.some.inj hstep
    exact handleResidentControl_prefers (s := s.withControl rest) hnext message
  · split at hstep
    · obtain rfl := Option.some.inj hstep
      exact .of_neutral hnext rfl
    · split at hstep
      · obtain rfl := Option.some.inj hstep
        exact .of_neutral hnext rfl
      · split at hstep
        · obtain rfl := Option.some.inj hstep
          split
          · exact .of_neutral hnext rfl
          · exact .of_neutral hnext rfl
        · exact absurd hstep (by simp)

theorem waitForWake_prefers (h : s.Prefers c inVain) (hstep : s.waitForWake = some t) :
    t.Prefers c inVain := by
  have hnext := h.next
  unfold waitForWake at hstep
  split at hstep
  · obtain rfl := Option.some.inj hstep
    exact .of_neutral hnext rfl
  · obtain rfl := Option.some.inj hstep
    exact .of_neutral hnext rfl
  · obtain rfl := Option.some.inj hstep
    exact .of_neutral hnext rfl
  · obtain rfl := Option.some.inj hstep
    exact h.of_eq rfl rfl
  · split at hstep
    · obtain rfl := Option.some.inj hstep
      exact .of_neutral hnext rfl
    · split at hstep
      · obtain rfl := Option.some.inj hstep
        exact .of_neutral hnext rfl
      · exact absurd hstep (by simp)

theorem leaveFrame_prefers (hnext : s.nextWhenBothReady = c.other) (d : EmbeddingRequestClass)
    (below : List Frame) : (s.leaveFrame d below false).Prefers c inVain := by
  cases below with
  | nil => exact .of_neutral hnext rfl
  | cons outer rest => exact .of_neutral hnext rfl

theorem handleStep_prefers (h : s.Prefers c inVain) (w : World) (f : Frame) (below : List Frame) :
    (handleStep cfg w s f below false).Prefers c inVain := by
  have hnext := h.next
  obtain ⟨request, d, phase⟩ := f
  cases phase with
  | hold =>
    simp only [handleStep]
    split
    · split
      · exact .of_neutral hnext rfl
      · exact h
    · exact .of_neutral hnext rfl
  | between tokens offset =>
    have hpop : (s.tryPop .query w.late).1.nextWhenBothReady = c.other :=
      (next_tryPop _ _).trans hnext
    simp only [handleStep]
    split
    · rename_i hresult
      rw [hresult] at hpop
      exact .of_neutral hpop rfl
    · rename_i hresult
      rw [hresult] at hpop
      exact .of_neutral hpop rfl
  | reply response => exact leaveFrame_prefers (s := s.answer request response) hnext d below
  | _ => exact .of_neutral hnext rfl

theorem other_ne (c : EmbeddingRequestClass) : c.other ≠ c := by
  cases c <;> decide

theorem other_other (c : EmbeddingRequestClass) : c.other.other = c := by
  cases c <;> rfl

/-- A pop leaves the other class in mind. -/
theorem prefers_of_served {a : Action} (hserved : s.servedBy a = some c)
    (hstep : step cfg s a = some t) : t.Prefers c inVain := by
  unfold servedBy at hserved
  split at hserved
  · rename_i w d second hpc
    split at hserved
    · rename_i hsome
      obtain rfl := Option.some.inj hserved
      have hpop : s.schedulerPop d second w.late = t := by
        simpa [step, ownerStep, hpc] using hstep
      subst hpop
      unfold schedulerPop
      split
      · exact .of_neutral rfl rfl
      · rename_i hresult
        rw [hresult] at hsome
        cases hsome
    · cases hserved
  · cases hserved

/-- Nothing but a pop and a new scheduler changes what is in mind. -/
theorem Prefers.step (h : s.Prefers c inVain) {a : Action} (hserved : s.servedBy a = none)
    (hsame : s.entersGeneration a = false)
    (hlook : ∀ w, a = .owner w → s.pc = .popping c.other false →
      (s.tryPop c.other w.late).2 = none → inVain)
    (hstep : step cfg s a = some t) : t.Prefers c inVain := by
  by_cases ha : ∀ w, a ≠ .owner w
  · obtain ⟨hpc, hnext, -⟩ := outside_frame ha hstep
    exact h.of_eq hnext hpc
  simp only [not_forall, not_not] at ha
  obtain ⟨w, rfl⟩ := ha
  have hstep : s.ownerStep cfg w = some t := hstep
  have hnext := h.next
  unfold ownerStep at hstep
  cases hpc : s.pc with
  | loading wake =>
    rw [hpc] at hstep
    have hloaded : w.loaded = false := by simpa [entersGeneration, hpc] using hsame
    simp only [hloaded] at hstep
    obtain rfl := Option.some.inj hstep
    exact failWake_prefers hnext wake
  | entry wake => exact absurd hpc (h.entry wake)
  | waking wake => exact absurd hpc (h.waking wake)
  | top =>
    rw [hpc] at hstep
    dsimp only at hstep
    split at hstep
    · rename_i message rest _
      obtain rfl := Option.some.inj hstep
      exact handleResidentControl_prefers (s := s.withControl rest) hnext message
    · obtain rfl := Option.some.inj hstep
      rw [hnext]
      refine ⟨hnext, ?_, ?_, ?_, ?_, ?_⟩
      · intro d hd
        cases hd
        rfl
      · intro d hd
        cases hd
      all_goals
        intros
        intro hd
        cases hd
  | popping d second =>
    rw [hpc] at hstep
    obtain rfl := Option.some.inj hstep
    have hnone : (s.tryPop d w.late).2 = none := by simpa [servedBy, hpc] using hserved
    have hpop : (s.tryPop d w.late).1.nextWhenBothReady = c.other := (next_tryPop _ _).trans hnext
    unfold schedulerPop
    split
    · rename_i hresult
      rw [hresult] at hnone
      cases hnone
    · rename_i hresult
      rw [hresult] at hpop
      split
      · exact .of_neutral hpop rfl
      · rename_i hfirst
        have hpc' : s.pc = .popping d false := by simpa [hfirst] using hpc
        obtain rfl : d = c.other := h.first d hpc'
        refine ⟨hpop, ?_, ?_, ?_, ?_, ?_⟩
        · intro d hd
          cases hd
        · intro d hd
          cases hd
          exact ⟨other_other c, hlook w rfl hpc' hnone⟩
        all_goals
          intros
          intro hd
          cases hd
  | selecting deadline =>
    rw [hpc] at hstep
    exact residentSelect_prefers hnext hstep
  | handling f below woken =>
    cases woken with
    | true => exact absurd hpc (h.woken f below)
    | false =>
      rw [hpc] at hstep
      obtain rfl := Option.some.inj hstep
      exact handleStep_prefers h w f below
  | asleep =>
    rw [hpc] at hstep
    exact waitForWake_prefers h hstep
  | wakePop d =>
    rw [hpc] at hstep
    have hpop : (s.tryPop d w.late).1.nextWhenBothReady = c.other := (next_tryPop _ _).trans hnext
    dsimp only at hstep
    split at hstep
    · rename_i hresult
      rw [hresult] at hpop
      obtain rfl := Option.some.inj hstep
      exact .of_neutral hpop rfl
    · rename_i hresult
      rw [hresult] at hpop
      obtain rfl := Option.some.inj hstep
      exact .of_neutral hpop rfl
  | wakeCheck d r =>
    rw [hpc] at hstep
    dsimp only at hstep
    split at hstep
    · obtain rfl := Option.some.inj hstep
      exact .of_neutral hnext rfl
    · obtain rfl := Option.some.inj hstep
      exact .of_neutral hnext rfl
  | wakeReply r =>
    rw [hpc] at hstep
    obtain rfl := Option.some.inj hstep
    exact .of_neutral hnext rfl
  | stopped =>
    rw [hpc] at hstep
    cases hstep

/-! ## Alternation -/

/-- The steps between two pops of one scheduler. -/
def BetweenPops (s : State) (a : Action) : Prop :=
  s.servedBy a = none ∧ s.entersGeneration a = false

instance (s : State) (a : Action) : Decidable (s.BetweenPops a) :=
  inferInstanceAs (Decidable (_ ∧ _))

/-- The steps while the scheduler is looking. -/
def WithinPop (s : State) (a : Action) : Prop :=
  s.pc.isPopping = true ∧ s.servedBy a = none

instance (s : State) (a : Action) : Decidable (s.WithinPop a) :=
  inferInstanceAs (Decidable (_ ∧ _))

theorem isCancelled_step {a : Action} (hstep : step cfg s a = some t)
    (h : s.isCancelled r = true) : t.isCancelled r = true := by
  have hcell : s.lifecycle r.context.lifecycle = .cancelled := of_decide_eq_true h
  have hkept := step_keeps cfg s a t hstep r.context.lifecycle (.inr hcell)
  exact decide_eq_true (hkept.trans hcell)

/-- While the queue of `d` has not been looked at yet, its requests stay unless they are
cancelled; after it, they are cancelled. -/
theorem waiting_within_pop {d : EmbeddingRequestClass} {u : State} (hr : r ∈ s.queue d)
    (hpc : s.pc = .popping d false)
    (h : Reach (guarded WithinPop (step cfg)) s u) :
    u.isCancelled r = true ∨ r ∈ u.queue d ∧ u.pc = .popping d false := by
  refine h.invariant (I := fun u =>
    u.isCancelled r = true ∨ r ∈ u.queue d ∧ u.pc = .popping d false) ?_ (.inr ⟨hr, hpc⟩)
  intro s a t hs hstep
  obtain ⟨⟨-, hserved⟩, hstep⟩ := guarded_eq_some.mp hstep
  by_cases hcancelled : s.isCancelled r = true
  · exact .inl (isCancelled_step hstep hcancelled)
  obtain ⟨hr, hpc⟩ := hs.resolve_left hcancelled
  by_cases ha : ∀ w, a ≠ .owner w
  · obtain ⟨hsame, -, hqueue⟩ := outside_frame ha hstep
    exact .inr ⟨hqueue d r hr (by simpa using hcancelled), hsame.trans hpc⟩
  · simp only [not_forall, not_not] at ha
    obtain ⟨w, rfl⟩ := ha
    have hnone : (s.tryPop d w.late).2 = none := by simpa [servedBy, hpc] using hserved
    exact absurd (cancelled_of_tryPop_none hnone hr) hcancelled

theorem pc_of_servedBy {a : Action} (h : s.servedBy a = some c) :
    ∃ second, s.pc = .popping c second := by
  unfold servedBy at h
  split at h
  · rename_i w d second hpc
    split at h
    · obtain rfl := Option.some.inj h
      exact ⟨second, hpc⟩
    · cases h
  · cases h

/-- Between the pop of `s` and the pop of `u` there is none, and `v` is the second pop before
its first look. -/
theorem served_twice_of_cancelled {v u : State} {a b : Action} {d : EmbeddingRequestClass}
    (hserved : s.servedBy a = some c) (hstep : step cfg s a = some t)
    (hbetween : Reach (guarded BetweenPops (step cfg)) t v) (hv : v.pc = .popping d false)
    (hwithin : Reach (guarded WithinPop (step cfg)) v u) (hagain : u.servedBy b = some c)
    (hr : r ∈ v.queue c.other) : u.isCancelled r = true := by
  have hprefers : v.Prefers c True := by
    refine hbetween.invariant (I := Prefers c True) ?_ (prefers_of_served hserved hstep)
    intro s a t hs hstep
    obtain ⟨⟨hnone, hsame⟩, hstep⟩ := guarded_eq_some.mp hstep
    exact hs.step hnone hsame (fun _ _ _ _ => trivial) hstep
  obtain rfl := hprefers.first d hv
  rcases waiting_within_pop hr hv hwithin with hcancelled | ⟨-, hu⟩
  · exact hcancelled
  · obtain ⟨second, hpc⟩ := pc_of_servedBy hagain
    rw [hu] at hpc
    exact absurd (OwnerPc.popping.inj hpc).1 (other_ne c)

/-! ## Bypasses -/

/-- How often the scheduler serves the class in a run. -/
def pops (cfg : EngineConfig) (c : EmbeddingRequestClass) : State → List Action → Nat
  | _, [] => 0
  | s, a :: actions =>
    (if s.servedBy a = some c then 1 else 0) +
      match step cfg s a with
      | some t => pops cfg c t actions
      | none => 0

/-- `r` is at the head of its queue and live, and not served in this step. -/
def Waits (c : EmbeddingRequestClass) (r : EmbeddingRequest) (s : State) (a : Action) : Prop :=
  (s.queue c).head? = some r ∧ s.isCancelled r = false ∧ s.servedBy a ≠ some c ∧
    s.entersGeneration a = false

instance (c : EmbeddingRequestClass) (r : EmbeddingRequest) (s : State) (a : Action) :
    Decidable (s.Waits c r a) :=
  inferInstanceAs (Decidable (_ ∧ _))

/-- A look at a queue whose head is live finds it. -/
theorem tryPop_of_head {late : List Nat} (hhead : (s.queue c).head? = some r)
    (hlive : s.isCancelled r = false) : (s.tryPop c late).2 ≠ none := by
  intro hnone
  have hr : r ∈ s.queue c := List.mem_of_mem_head? hhead
  rw [cancelled_of_tryPop_none hnone hr] at hlive
  cases hlive

/-- Once the other class has been served, the head of the queue comes next. -/
theorem pops_of_prefers {actions : List Action} {u : State} (h : s.Prefers c.other False)
    (hrun : run (guarded (Waits c r) (step cfg)) s actions = some u) :
    pops cfg c.other s actions = 0 := by
  induction actions generalizing s with
  | nil => rfl
  | cons a actions ih =>
    obtain ⟨t, hguarded, hrest⟩ := exists_of_run_cons hrun
    obtain ⟨⟨hhead, hlive, hown, hsame⟩, hstep⟩ := guarded_eq_some.mp hguarded
    have hother : s.servedBy a ≠ some c.other := by
      intro hserved
      obtain ⟨second, hpc⟩ := pc_of_servedBy hserved
      cases second with
      | false => exact other_ne _ (h.first _ hpc).symm
      | true => exact (h.second _ hpc).2
    have hnone : s.servedBy a = none := by
      cases hserved : s.servedBy a with
      | none => rfl
      | some d =>
        cases c <;> cases d <;> simp_all [EmbeddingRequestClass.other]
    have ht : t.Prefers c.other False := by
      refine h.step hnone hsame ?_ hstep
      intro w _ _ hvain
      rw [other_other] at hvain
      exact tryPop_of_head hhead hlive hvain
    simp only [pops, if_neg hother, hstep, ih ht hrest]

/-- While a live request is at the head of its queue, the scheduler serves the other class at
most once. -/
theorem pops_while_waiting {actions : List Action} {u : State}
    (hrun : run (guarded (Waits c r) (step cfg)) s actions = some u) :
    pops cfg c.other s actions ≤ 1 := by
  induction actions generalizing s with
  | nil => exact Nat.zero_le 1
  | cons a actions ih =>
    obtain ⟨t, hguarded, hrest⟩ := exists_of_run_cons hrun
    obtain ⟨-, hstep⟩ := guarded_eq_some.mp hguarded
    simp only [pops, hstep]
    by_cases hserved : s.servedBy a = some c.other
    · have ht : t.Prefers c.other False := prefers_of_served hserved hstep
      have hnone := pops_of_prefers ht hrest
      rw [if_pos hserved]
      omega
    · rw [if_neg hserved]
      have := ih hrest
      omega

/-- Dispatch is fair: the scheduler serves a class twice in a row only when every request
that the other queue held as the second pop began is cancelled, and a live request at the head
of its queue is bypassed by the scheduler at most once. -/
theorem dispatch_is_fair (cfg : EngineConfig) (c : EmbeddingRequestClass) (r : EmbeddingRequest) :
    (∀ (s t v u : State) (a b : Action) (d : EmbeddingRequestClass),
      s.servedBy a = some c → step cfg s a = some t →
        Reach (guarded BetweenPops (step cfg)) t v → v.pc = .popping d false →
          Reach (guarded WithinPop (step cfg)) v u → u.servedBy b = some c →
            r ∈ v.queue c.other → u.isCancelled r = true) ∧
      ∀ (s u : State) (actions : List Action),
        run (guarded (Waits c r) (step cfg)) s actions = some u →
          pops cfg c.other s actions ≤ 1 := by
  refine ⟨?_, ?_⟩
  · intro s t v u a b d hserved hstep hbetween hv hwithin hagain hr
    exact served_twice_of_cancelled hserved hstep hbetween hv hwithin hagain hr
  · intro s u actions hrun
    exact pops_while_waiting hrun

section Inputs

def plainWorld : World := ⟨true, true, fun _ => some 1, []⟩

def smallConfig : EngineConfig := ⟨1, 8, 8, eight_pos⟩

def work (n : Nat) : List Action := List.replicate n (.owner plainWorld)

/-- Two queries and a bulk request are queued, and the scheduler is about to look. -/
def threeQueued : State :=
  Transition.after (step smallConfig) initial
    (work 3 ++ [Action.submit .query ⟨"q1", 1⟩ ["a"] [], .submit .query ⟨"q2", 2⟩ ["b"] [],
      .submit .bulk ⟨"b1", 3⟩ ["c"] []] ++ work 1)

def bulkRequest : EmbeddingRequest := ⟨⟨"b1", 3⟩, ["c"], 2⟩

def firstServed : State := Transition.after (step smallConfig) threeQueued (work 1)

/-- The first query is answered, the bulk request cancelled, and the next pop begins. -/
def secondPop : State :=
  Transition.after (guarded BetweenPops (step smallConfig)) firstServed
    (work 12 ++ [Action.cancel 3] ++ work 1)

/-- The bulk queue has been looked at. -/
def secondLook : State :=
  Transition.after (guarded WithinPop (step smallConfig)) secondPop (work 1)

/-- A second query in a row, past a cancelled bulk request; and a bulk request that waits while
one query is served. -/
theorem dispatch_of_three :
    (firstServed.nextWhenBothReady = .bulk ∧ secondLook.servedBy (.owner plainWorld) = some .query ∧
      secondLook.isCancelled bulkRequest = true) ∧
      (pops smallConfig .query threeQueued (work 14) = 1 ∧
        pops smallConfig .query threeQueued (work 14) ≤ 1) := by
  have hstep : step smallConfig threeQueued (.owner plainWorld) = some firstServed := by rfl
  have htwice := (dispatch_is_fair smallConfig .query bulkRequest).1 threeQueued firstServed
    secondPop secondLook (.owner plainWorld) (.owner plainWorld) .bulk (by decide) hstep
    (reach_after _ _ _) (by decide) (reach_after _ _ _) (by decide) (by decide)
  have hrun : ∃ u, run (guarded (Waits .bulk bulkRequest) (step smallConfig)) threeQueued
      (work 14) = some u := Option.isSome_iff_exists.mp (by decide)
  obtain ⟨u, hrun⟩ := hrun
  have hbypass := (dispatch_is_fair smallConfig .bulk bulkRequest).2 threeQueued u (work 14) hrun
  exact ⟨⟨by decide, by decide, htwice⟩, by decide, hbypass⟩

end Inputs

end State
end CodeStory.Engine
