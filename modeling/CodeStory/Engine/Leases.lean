import CodeStory.Engine.Owner
import CodeStory.Lib.Census

/-!
# A residency lease pins its load generation

`LeaseBook` is what leases depend on: the callers, the control channel, the owner's count
and whether a model is resident. Everything else the engine does leaves the book alone.
The owner's count is exact: it is the number of callers that were granted a lease and have
not sent its release, plus the releases still in the channel.
-/

set_option autoImplicit false

namespace CodeStory.Engine

open Transition

inductive Residence where
  | resident
  | away
  | stopped
  deriving DecidableEq, Repr

def OwnerPc.residence : OwnerPc → Residence
  | .entry _ | .waking _ | .top | .popping _ _ | .selecting _ | .handling _ _ _ => .resident
  | .loading _ | .asleep | .wakePop _ | .wakeCheck _ _ | .wakeReply _ => .away
  | .stopped => .stopped

/-- The generation that a caller has been granted and has not finished releasing. -/
def Caller.pinned : Caller → Option Nat
  | .granted g | .received g | .holding g | .releasing g => some g
  | _ => none

def Caller.Pins (c : Caller) : Prop := c.pinned ≠ none

structure LeaseBook where
  callers : Nat → Caller
  control : List Control
  leases : Nat
  generation : Nat
  grants : Nat
  releases : Nat
  residence : Residence

/-- The owner's count is exact, nothing is pinned while no model is resident, and what is
pinned is the current generation. -/
structure LeaseBook.Balanced (b : LeaseBook) : Prop where
  count : ∃ n, Census Caller.Pins b.callers n ∧
    b.leases = n + b.control.count .releaseLease
  away : b.residence = .away → b.leases = 0
  current : ∀ i g, (b.callers i).pinned = some g → g = b.generation
  total : b.grants = b.releases + b.leases

namespace LeaseBook
variable {b : LeaseBook}

theorem Balanced.none_pinned (h : b.Balanced) (hzero : b.leases = 0) :
    (∀ i, ¬ (b.callers i).Pins) ∧ b.control.count .releaseLease = 0 := by
  obtain ⟨n, hcensus, hcount⟩ := h.count
  obtain rfl : n = 0 := by omega
  exact ⟨hcensus.of_zero, by omega⟩

theorem Balanced.resident_of_pins (h : b.Balanced) (hrunning : b.residence ≠ .stopped)
    {i : Nat} (hpins : (b.callers i).Pins) : b.residence = .resident := by
  cases hresidence : b.residence with
  | resident => rfl
  | away => exact absurd hpins ((h.none_pinned (h.away hresidence)).1 i)
  | stopped => exact absurd hresidence hrunning

/-- A caller moves on without gaining or losing a pin. -/
theorem Balanced.move (h : b.Balanced) (i : Nat) (next : Caller)
    (hsame : next.pinned = (b.callers i).pinned) :
    { b with callers := Function.update b.callers i next }.Balanced := by
  obtain ⟨n, hcensus, hcount⟩ := h.count
  refine ⟨⟨n, hcensus.keep ?_, hcount⟩, h.away, ?_, h.total⟩
  · unfold Caller.Pins
    rw [hsame]
  · intro j g hj
    by_cases hji : j = i
    · subst hji
      dsimp only at hj
      rw [Function.update_self, hsame] at hj
      exact h.current j g hj
    · dsimp only at hj
      rw [Function.update_of_ne hji] at hj
      exact h.current j g hj

theorem Balanced.send (h : b.Balanced) {message : Control} (hother : message ≠ .releaseLease) :
    { b with control := b.control ++ [message] }.Balanced := by
  obtain ⟨n, hcensus, hcount⟩ := h.count
  refine ⟨⟨n, hcensus, ?_⟩, h.away, h.current, h.total⟩
  dsimp only
  rw [List.count_append, List.count_singleton, if_neg (by simpa using hother)]
  exact hcount

theorem Balanced.take (h : b.Balanced) {message : Control} {rest : List Control}
    (hcontrol : b.control = message :: rest) (hother : message ≠ .releaseLease) :
    { b with control := rest }.Balanced := by
  obtain ⟨n, hcensus, hcount⟩ := h.count
  refine ⟨⟨n, hcensus, ?_⟩, h.away, h.current, h.total⟩
  rw [hcontrol, List.count_cons_of_ne hother] at hcount
  exact hcount

theorem Balanced.grant (h : b.Balanced) (hresident : b.residence = .resident) {i : Nat}
    (hi : b.callers i = .acquiring) :
    { b with
      callers := Function.update b.callers i (.granted b.generation)
      leases := b.leases + 1
      grants := b.grants + 1 }.Balanced := by
  obtain ⟨n, hcensus, hcount⟩ := h.count
  refine ⟨⟨n + 1, hcensus.gain ?_ ?_, ?_⟩, ?_, ?_, ?_⟩
  · rw [hi]
    exact fun hpins => hpins rfl
  · exact fun hnone => absurd hnone (by simp [Caller.pinned])
  · dsimp only
    omega
  · intro haway
    exact absurd (hresident.symm.trans haway) (by simp)
  · intro j g hj
    by_cases hji : j = i
    · subst hji
      dsimp only at hj ⊢
      rw [Function.update_self] at hj
      exact (Option.some.inj hj).symm
    · dsimp only at hj
      rw [Function.update_of_ne hji] at hj
      exact h.current j g hj
  · have := h.total
    dsimp only
    omega

/-- The drop of a lease: the pin becomes a release in the channel. -/
theorem Balanced.dropLease (h : b.Balanced) {i : Nat} (hi : (b.callers i).Pins) :
    { b with
      callers := Function.update b.callers i .done
      control := b.control ++ [Control.releaseLease] }.Balanced := by
  obtain ⟨n, hcensus, hcount⟩ := h.count
  have hpos := hcensus.pos hi
  refine ⟨⟨n - 1, hcensus.lose hi (fun hpins => hpins rfl), ?_⟩, h.away, ?_, h.total⟩
  · dsimp only
    rw [List.count_append, List.count_singleton_self]
    omega
  · intro j g hj
    by_cases hji : j = i
    · subst hji
      dsimp only at hj
      rw [Function.update_self] at hj
      exact absurd hj (by simp [Caller.pinned])
    · dsimp only at hj
      rw [Function.update_of_ne hji] at hj
      exact h.current j g hj

/-- The owner takes a release from the channel. It never finds its count at zero. -/
theorem Balanced.release (h : b.Balanced) {rest : List Control}
    (hcontrol : b.control = .releaseLease :: rest) :
    0 < b.leases ∧
    { b with
      control := rest
      leases := b.leases - 1
      releases := b.releases + 1 }.Balanced := by
  obtain ⟨n, hcensus, hcount⟩ := h.count
  have htotal := h.total
  rw [hcontrol, List.count_cons_self] at hcount
  have hpos : 0 < b.leases := by omega
  refine ⟨hpos, ⟨n, hcensus, ?_⟩, ?_, h.current, ?_⟩
  · dsimp only
    omega
  · intro haway
    have := h.away haway
    omega
  · dsimp only
    omega

/-- With no lease outstanding the model may come and go. -/
theorem Balanced.relocate (h : b.Balanced) (hzero : b.leases = 0) (generation : Nat)
    (residence : Residence) :
    { b with generation := generation, residence := residence }.Balanced := by
  refine ⟨h.count, fun _ => hzero, ?_, h.total⟩
  intro i g hi
  exact absurd hi (by
    intro hsome
    exact (h.none_pinned hzero).1 i (by simp only [Caller.Pins]; rw [hsome]; simp))

end LeaseBook

namespace State

def leaseBook (s : State) : LeaseBook :=
  ⟨s.callers, s.control, s.residency.leases, s.generation, s.grants, s.releases,
    s.pc.residence⟩

/-- Once the owner has stopped there is no count to keep. -/
def LeasesBalanced (s : State) : Prop :=
  s.pc.residence ≠ .stopped → s.leaseBook.Balanced

theorem leasesBalanced_of_stopped {s : State} (h : s.pc.residence = .stopped) :
    s.LeasesBalanced := fun hne => absurd h hne

theorem LeasesBalanced.congr {s t : State} (h : s.LeasesBalanced)
    (hbook : t.leaseBook = s.leaseBook) : t.LeasesBalanced := by
  intro hrunning
  have hsame : t.pc.residence = s.pc.residence := congrArg LeaseBook.residence hbook
  rw [hbook]
  exact h (hsame ▸ hrunning)

section Frame
variable (s : State) (c : EmbeddingRequestClass) (late : List Nat)

@[simp] theorem leaseBook_answer (r : EmbeddingRequest) (response : Response) :
    (s.answer r response).leaseBook = s.leaseBook := rfl

@[simp] theorem leaseBook_pruneCancelled : (s.pruneCancelled c late).leaseBook = s.leaseBook :=
  rfl

theorem leaseBook_submit (context : RequestContext) (inputs : List String) :
    (s.submit c context inputs late).leaseBook = s.leaseBook := by
  unfold submit tryPush
  dsimp only
  split
  · rfl
  · split <;> rfl

theorem leaseBook_tryPop : (s.tryPop c late).1.leaseBook = s.leaseBook := by
  unfold tryPop
  dsimp only
  split <;> rfl

theorem pc_tryPop : (s.tryPop c late).1.pc = s.pc := by
  unfold tryPop
  dsimp only
  split <;> rfl

end Frame

theorem leaseBook_goto {s : State} {x : Residence} (hs : s.pc.residence = x) {pc : OwnerPc}
    (hpc : pc.residence = x) : (s.goto pc).leaseBook = s.leaseBook := by
  unfold goto leaseBook generation
  dsimp only
  rw [hpc, hs]

/-- A step that only moves the owner on, without entering or leaving residence. -/
theorem goto_balanced {s : State} (h : s.leaseBook.Balanced) {x : Residence}
    (hs : s.pc.residence = x) {pc : OwnerPc} (hpc : pc.residence = x) :
    (s.goto pc).LeasesBalanced := by
  intro _
  rw [leaseBook_goto hs hpc]
  exact h

theorem leaseBook_leaveFrame {s : State} (hresident : s.pc.residence = .resident)
    (c : EmbeddingRequestClass) (below : List Frame) (woken : Bool) :
    (s.leaveFrame c below woken).leaseBook = s.leaseBook := by
  unfold leaveFrame
  cases below with
  | nil =>
    exact leaseBook_goto (s := { s.completeActivity with nextWhenBothReady := _ }) hresident rfl
  | cons outer rest => exact leaseBook_goto hresident rfl

/-- The whole of `handle_request` leaves the book alone. -/
theorem leaseBook_handleStep (cfg : EngineConfig) (w : World) {s : State} {f : Frame}
    {below : List Frame} {woken : Bool} (hpc : s.pc = .handling f below woken) :
    (s.handleStep cfg w f below woken).leaseBook = s.leaseBook := by
  have hresident : s.pc.residence = .resident := by rw [hpc]; rfl
  have hmove : ∀ (t : State) (phase : Phase), t.leaseBook = s.leaseBook →
      (t.toPhase f below woken phase).leaseBook = s.leaseBook := by
    intro t phase hbook
    have hsame : t.pc.residence = .resident :=
      (congrArg LeaseBook.residence hbook).trans hresident
    exact (leaseBook_goto hsame rfl).trans hbook
  unfold handleStep
  dsimp only
  split
  · exact hmove _ _ rfl
  · exact hmove _ _ rfl
  · exact hmove _ _ rfl
  · split
    · split
      · exact hmove _ _ rfl
      · rfl
    · exact hmove _ _ rfl
  · exact hmove _ _ rfl
  · exact hmove _ _ rfl
  · exact hmove _ _ rfl
  · exact hmove _ _ rfl
  · have hpop := s.leaseBook_tryPop .query w.late
    cases hresult : s.tryPop .query w.late with
    | mk t popped =>
      rw [hresult] at hpop
      have hsame : t.pc.residence = .resident :=
        (congrArg LeaseBook.residence hpop).trans hresident
      cases popped with
      | none => exact hmove _ _ hpop
      | some q => exact (leaseBook_goto hsame rfl).trans hpop
  · exact hmove _ _ rfl
  · exact hmove _ _ rfl
  · exact hmove _ _ rfl
  · exact hmove _ _ rfl
  · rename_i response _
    have hanswered : (s.answer f.request response).pc.residence = .resident := hresident
    exact leaseBook_leaveFrame hanswered _ _ _

section Operations
variable {s : State}

theorem grantResidencyLease_balanced (h : s.leaseBook.Balanced)
    (hresident : s.pc.residence = .resident) (i : Nat) :
    (s.grantResidencyLease i).leaseBook.Balanced ∧
      (s.grantResidencyLease i).pc = s.pc := by
  unfold grantResidencyLease
  split
  · rename_i hi
    exact ⟨h.grant hresident hi, rfl⟩
  · exact ⟨h, rfl⟩

theorem confirmResident_balanced (h : s.leaseBook.Balanced) (i : Nat) (result : Option Nat) :
    (s.confirmResident i result).leaseBook.Balanced ∧
      (s.confirmResident i result).pc = s.pc := by
  unfold confirmResident
  split
  · rename_i hi
    exact ⟨h.move i (.ensured result) (congrArg Caller.pinned hi).symm, rfl⟩
  · exact ⟨h, rfl⟩

theorem refuseLease_balanced (h : s.leaseBook.Balanced) (i : Nat) :
    (s.refuseLease i).leaseBook.Balanced ∧ (s.refuseLease i).pc = s.pc := by
  unfold refuseLease
  split
  · rename_i hi
    exact ⟨h.move i .refused (congrArg Caller.pinned hi).symm, rfl⟩
  · exact ⟨h, rfl⟩

/-- The owner handles one message of the channel. -/
theorem handleResidentControl_balanced (h : s.leaseBook.Balanced)
    (hresident : s.pc.residence = .resident) {message : Control} {rest : List Control}
    (hcontrol : s.control = message :: rest) {next : OwnerPc}
    (hnext : next.residence = .resident) :
    ((s.withControl rest).handleResidentControl message next).LeasesBalanced := by
  unfold handleResidentControl
  cases message with
  | shutdown => exact leasesBalanced_of_stopped rfl
  | ensureResident i =>
    have htaken := h.take hcontrol (by simp)
    obtain ⟨hbalanced, hpc⟩ := confirmResident_balanced
      (s := (s.withControl rest).completeActivity) htaken i (some s.generation)
    exact goto_balanced hbalanced ((congrArg OwnerPc.residence hpc).trans hresident) hnext
  | acquireLease i =>
    have htaken := h.take hcontrol (by simp)
    obtain ⟨hbalanced, hpc⟩ := grantResidencyLease_balanced
      (s := s.withControl rest) htaken hresident i
    exact goto_balanced hbalanced ((congrArg OwnerPc.residence hpc).trans hresident) hnext
  | releaseLease =>
    exact goto_balanced (s := (s.withControl rest).releaseLease) (h.release hcontrol).2
      hresident hnext

theorem enterGeneration_balanced (h : s.leaseBook.Balanced) (haway : s.pc.residence = .away)
    (cfg : EngineConfig) (wake : WakeReason) :
    (s.enterGeneration cfg wake).LeasesBalanced := by
  intro _
  have hzero : s.leaseBook.leases = 0 := h.away haway
  have hmoved := h.relocate hzero s.generation .resident
  unfold leaseBook at hmoved hzero
  dsimp only at hmoved hzero
  rw [hzero] at hmoved
  exact hmoved

/-- A failed load changes at most one caller, and none that holds anything. -/
theorem failWake_balanced (h : s.leaseBook.Balanced) (haway : s.pc.residence = .away)
    (wake : WakeReason) : (s.failWake wake).LeasesBalanced := by
  unfold failWake
  cases wake with
  | startup => exact leasesBalanced_of_stopped rfl
  | request c r => exact goto_balanced (s := s.answer r .failed) h haway rfl
  | ensureResident i =>
    obtain ⟨hbalanced, hpc⟩ := confirmResident_balanced h i none
    exact goto_balanced hbalanced ((congrArg OwnerPc.residence hpc).trans haway) rfl
  | acquireLease i =>
    obtain ⟨hbalanced, hpc⟩ := refuseLease_balanced h i
    exact goto_balanced hbalanced ((congrArg OwnerPc.residence hpc).trans haway) rfl

theorem leaseBook_noteLoadFailure : s.noteLoadFailure.leaseBook = s.leaseBook := by
  unfold noteLoadFailure
  split <;> rfl

theorem startLoading_balanced (h : s.leaseBook.Balanced) (haway : s.pc.residence = .away)
    (wake : WakeReason) : (s.startLoading wake).LeasesBalanced := by
  unfold startLoading
  exact goto_balanced (s := s.withTracker _) h haway rfl

theorem serveWake_balanced (h : s.leaseBook.Balanced) (hresident : s.pc.residence = .resident)
    (wake : WakeReason) : (s.serveWake wake).LeasesBalanced := by
  unfold serveWake
  cases wake with
  | startup => exact goto_balanced (s := { s with started := true }) h hresident rfl
  | request c r => exact goto_balanced h hresident rfl
  | ensureResident i =>
    obtain ⟨hbalanced, hpc⟩ := confirmResident_balanced (s := s.completeActivity) h i
      (some s.generation)
    exact goto_balanced hbalanced ((congrArg OwnerPc.residence hpc).trans hresident) rfl
  | acquireLease i =>
    obtain ⟨hbalanced, hpc⟩ := grantResidencyLease_balanced h hresident i
    exact goto_balanced hbalanced ((congrArg OwnerPc.residence hpc).trans hresident) rfl

theorem schedulerPop_balanced (h : s.leaseBook.Balanced)
    (hresident : s.pc.residence = .resident) (c : EmbeddingRequestClass) (second : Bool)
    (late : List Nat) : (s.schedulerPop c second late).LeasesBalanced := by
  have hbook := s.leaseBook_tryPop c late
  have hpc := s.pc_tryPop c late
  unfold schedulerPop
  cases hresult : s.tryPop c late with
  | mk t popped =>
    rw [hresult] at hbook hpc
    have hbalanced : t.leaseBook.Balanced := hbook ▸ h
    have ht : t.pc.residence = .resident := by
      rw [hpc]
      exact hresident
    cases popped with
    | some r => exact goto_balanced (s := { t with nextWhenBothReady := c.other }) hbalanced ht rfl
    | none =>
      dsimp only
      split
      · exact goto_balanced hbalanced ht rfl
      · exact goto_balanced hbalanced ht rfl

theorem sleep_balanced (h : s.leaseBook.Balanced) (hsleep : s.residency.shouldSleep s.clock) :
    s.sleep.LeasesBalanced := by
  intro _
  have hzero : s.leaseBook.leases = 0 := by
    unfold ResidencyTracker.shouldSleep at hsleep
    simp only [Bool.and_eq_true, beq_iff_eq] at hsleep
    exact hsleep.1
  exact h.relocate hzero (s.generation + 1) .away

theorem residentSelect_balanced (h : s.leaseBook.Balanced)
    (hresident : s.pc.residence = .resident) {deadline : Nat} {t : State}
    (hstep : s.residentSelect deadline = some t) : t.LeasesBalanced := by
  unfold residentSelect at hstep
  split at hstep
  · rename_i message rest hcontrol
    obtain rfl := Option.some.inj hstep
    exact handleResidentControl_balanced h hresident hcontrol rfl
  · split at hstep
    · obtain rfl := Option.some.inj hstep
      exact goto_balanced (s := s.takeToken .query) h hresident rfl
    · split at hstep
      · obtain rfl := Option.some.inj hstep
        exact goto_balanced (s := s.takeToken .bulk) h hresident rfl
      · split at hstep
        · obtain rfl := Option.some.inj hstep
          split
          · rename_i hsleep
            exact sleep_balanced h hsleep
          · exact goto_balanced h hresident rfl
        · exact absurd hstep (by simp)

/-- While the engine sleeps no release can be in the channel. -/
theorem waitForWake_balanced (h : s.leaseBook.Balanced) (haway : s.pc.residence = .away)
    {t : State} (hstep : s.waitForWake = some t) : t.LeasesBalanced := by
  unfold waitForWake at hstep
  split at hstep
  · obtain rfl := Option.some.inj hstep
    exact leasesBalanced_of_stopped rfl
  · rename_i i rest hcontrol
    obtain rfl := Option.some.inj hstep
    have htaken := h.take hcontrol (by simp)
    exact startLoading_balanced (s := s.withControl rest) htaken haway _
  · rename_i i rest hcontrol
    obtain rfl := Option.some.inj hstep
    have htaken := h.take hcontrol (by simp)
    exact startLoading_balanced (s := s.withControl rest) htaken haway _
  · rename_i rest hcontrol
    have hzero : s.leaseBook.leases = 0 := h.away haway
    have hpos := (h.release hcontrol).1
    omega
  · split at hstep
    · obtain rfl := Option.some.inj hstep
      exact goto_balanced (s := s.takeToken .query) h haway rfl
    · split at hstep
      · obtain rfl := Option.some.inj hstep
        exact goto_balanced (s := s.takeToken .bulk) h haway rfl
      · exact absurd hstep (by simp)

/-- Every operation of the owner keeps the book balanced. -/
theorem ownerStep_balanced {cfg : EngineConfig} {w : World} (h : s.LeasesBalanced) {t : State}
    (hstep : s.ownerStep cfg w = some t) : t.LeasesBalanced := by
  unfold ownerStep at hstep
  cases hpc : s.pc with
  | loading wake =>
    have haway : s.pc.residence = .away := by rw [hpc]; rfl
    have hb := h (by rw [haway]; simp)
    rw [hpc] at hstep
    obtain rfl := Option.some.inj hstep
    split
    · exact enterGeneration_balanced hb haway cfg wake
    · have hnoted : s.noteLoadFailure.pc.residence = .away := by
        rw [← haway]
        exact congrArg LeaseBook.residence leaseBook_noteLoadFailure
      rw [← leaseBook_noteLoadFailure] at hb
      exact failWake_balanced hb hnoted wake
  | entry wake | top =>
    have hresident : s.pc.residence = .resident := by rw [hpc]; rfl
    have hb := h (by rw [hresident]; simp)
    simp only [hpc] at hstep
    split at hstep
    · rename_i message rest hcontrol
      obtain rfl := Option.some.inj hstep
      exact handleResidentControl_balanced hb hresident hcontrol rfl
    · obtain rfl := Option.some.inj hstep
      exact goto_balanced hb hresident rfl
  | waking wake =>
    have hresident : s.pc.residence = .resident := by rw [hpc]; rfl
    rw [hpc] at hstep
    obtain rfl := Option.some.inj hstep
    exact serveWake_balanced (h (by rw [hresident]; simp)) hresident wake
  | popping c second =>
    have hresident : s.pc.residence = .resident := by rw [hpc]; rfl
    rw [hpc] at hstep
    obtain rfl := Option.some.inj hstep
    exact schedulerPop_balanced (h (by rw [hresident]; simp)) hresident c second _
  | selecting deadline =>
    have hresident : s.pc.residence = .resident := by rw [hpc]; rfl
    rw [hpc] at hstep
    exact residentSelect_balanced (h (by rw [hresident]; simp)) hresident hstep
  | handling f below woken =>
    rw [hpc] at hstep
    obtain rfl := Option.some.inj hstep
    exact h.congr (leaseBook_handleStep cfg w hpc)
  | asleep =>
    have haway : s.pc.residence = .away := by rw [hpc]; rfl
    rw [hpc] at hstep
    exact waitForWake_balanced (h (by rw [haway]; simp)) haway hstep
  | wakePop c =>
    have haway : s.pc.residence = .away := by rw [hpc]; rfl
    have hb := h (by rw [haway]; simp)
    have hbook := s.leaseBook_tryPop c w.late
    have haway : (s.tryPop c w.late).1.pc.residence = .away := by
      rw [s.pc_tryPop]
      exact haway
    rw [← hbook] at hb
    simp only [hpc] at hstep
    split at hstep
    · rename_i hresult
      obtain rfl := Option.some.inj hstep
      rw [hresult] at hb haway
      exact goto_balanced hb haway rfl
    · rename_i hresult
      obtain rfl := Option.some.inj hstep
      rw [hresult] at hb haway
      exact goto_balanced hb haway rfl
  | wakeCheck c r =>
    have haway : s.pc.residence = .away := by rw [hpc]; rfl
    have hb := h (by rw [haway]; simp)
    simp only [hpc] at hstep
    split at hstep
    · obtain rfl := Option.some.inj hstep
      exact goto_balanced (s := s.withTracker _) hb haway rfl
    · obtain rfl := Option.some.inj hstep
      exact startLoading_balanced hb haway _
  | wakeReply r =>
    have haway : s.pc.residence = .away := by rw [hpc]; rfl
    rw [hpc] at hstep
    obtain rfl := Option.some.inj hstep
    exact goto_balanced (s := s.answer r .cancelled) (h (by rw [haway]; simp)) haway rfl
  | stopped =>
    rw [hpc] at hstep
    exact absurd hstep (by simp)

/-- Callers only come and go through the channel and the owner's grants. -/
theorem callerStep_balanced {a : Action} (h : s.LeasesBalanced) {t : State}
    (hstep : s.callerStep a = some t) : t.LeasesBalanced := by
  unfold callerStep at hstep
  split at hstep
  · split at hstep
    · rename_i i hidle
      obtain rfl := Option.some.inj hstep
      intro hrunning
      have hsame : Caller.ensuring.pinned = (s.callers i).pinned := by rw [hidle.2]; rfl
      exact ((h hrunning).move i .ensuring hsame).send (by simp)
    · exact absurd hstep (by simp)
  · split at hstep
    · rename_i i hidle
      obtain rfl := Option.some.inj hstep
      intro hrunning
      have hsame : Caller.acquiring.pinned = (s.callers i).pinned := by rw [hidle.2]; rfl
      exact ((h hrunning).move i .acquiring hsame).send (by simp)
    · exact absurd hstep (by simp)
  · split at hstep
    · rename_i i hwaiting
      obtain rfl := Option.some.inj hstep
      intro hrunning
      have hsame : Caller.done.pinned = (s.callers i).pinned := by
        rcases hwaiting with hi | hi <;> rw [hi] <;> rfl
      exact (h hrunning).move i .done hsame
    · exact absurd hstep (by simp)
  · split at hstep
    · rename_i i _ g hi
      obtain rfl := Option.some.inj hstep
      intro hrunning
      exact (h hrunning).move i (.received g) (congrArg Caller.pinned hi).symm
    · exact absurd hstep (by simp)
  · split at hstep
    · rename_i i _ g hi
      obtain rfl := Option.some.inj hstep
      intro hrunning
      exact (h hrunning).move i (.holding g) (congrArg Caller.pinned hi).symm
    · exact absurd hstep (by simp)
  · split at hstep
    · rename_i i _ g hi
      obtain rfl := Option.some.inj hstep
      intro hrunning
      exact (h hrunning).move i (.releasing g) (congrArg Caller.pinned hi).symm
    · exact absurd hstep (by simp)
  · split at hstep
    · rename_i i _ g hi
      obtain rfl := Option.some.inj hstep
      intro hrunning
      have hpinned : (s.leaseBook.callers i).pinned = some g := congrArg Caller.pinned hi
      refine (h hrunning).dropLease (i := i) ?_
      unfold Caller.Pins
      rw [hpinned]
      simp
    · exact absurd hstep (by simp)
  · exact absurd hstep (by simp)

end Operations

theorem step_balanced (cfg : EngineConfig) (s : State) (a : Action) (t : State)
    (h : s.LeasesBalanced) (hstep : step cfg s a = some t) : t.LeasesBalanced := by
  unfold step at hstep
  split at hstep
  · rename_i c context inputs late
    split at hstep
    · obtain rfl := Option.some.inj hstep
      exact h.congr (s.leaseBook_submit c late context inputs)
    · exact absurd hstep (by simp)
  · obtain rfl := Option.some.inj hstep
    exact h
  · split at hstep
    · obtain rfl := Option.some.inj hstep
      intro hrunning
      exact (h hrunning).send (by simp)
    · exact absurd hstep (by simp)
  · obtain rfl := Option.some.inj hstep
    exact h
  · obtain rfl := Option.some.inj hstep
    exact h
  · exact ownerStep_balanced h hstep
  · exact callerStep_balanced h hstep

theorem initial_balanced : initial.LeasesBalanced := fun _ =>
  ⟨⟨0, Census.none fun _ hpins => hpins rfl, rfl⟩, fun _ => rfl,
    fun _ _ hpinned => absurd hpinned (by simp [leaseBook, initial, Caller.pinned]), rfl⟩

/-- A lease pins its generation. In every state of every run in which the owner has not
shut down: the model of a live lease is resident, in the generation the lease was granted
in; the owner's count is the grants sent minus the releases consumed; and a release is
never in the channel while the engine sleeps or loads, so none is discarded or reaches a
later generation. -/
theorem lease_pins_generation (cfg : EngineConfig) {s : State}
    (hreach : Reach (step cfg) initial s) (hrunning : s.pc ≠ .stopped) :
    (∀ i g, s.callers i = .holding g → s.pc.residence = .resident ∧ s.generation = g) ∧
    s.residency.leases = s.grants - s.releases ∧ s.releases ≤ s.grants ∧
    (s.pc.residence = .away → Control.releaseLease ∉ s.control) := by
  have hresidence : s.pc.residence ≠ .stopped := by
    intro h
    cases hpc : s.pc <;> rw [hpc] at h hrunning <;>
      first | exact absurd rfl hrunning | exact absurd h (by simp [OwnerPc.residence])
  have hbalanced := hreach.invariant (step_balanced cfg) initial_balanced hresidence
  have htotal : s.grants = s.releases + s.residency.leases := hbalanced.total
  refine ⟨?_, by omega, by omega, ?_⟩
  · intro i g hi
    have hpinned : (s.leaseBook.callers i).pinned = some g := congrArg Caller.pinned hi
    have hpins : (s.leaseBook.callers i).Pins := by
      unfold Caller.Pins
      rw [hpinned]
      simp
    exact ⟨hbalanced.resident_of_pins hresidence hpins, (hbalanced.current i g hpinned).symm⟩
  · intro haway
    exact List.count_eq_zero.mp (hbalanced.none_pinned (hbalanced.away haway)).2

/-- The engine starts, sleeps, and is woken by a caller that then holds its lease. -/
def wokenForLease : List Action :=
  List.replicate 6 Action.smooth ++ [Action.tick, .smooth, .acquireLease 0] ++
    List.replicate 4 Action.smooth ++ [Action.receive 0, .leaseAcquired 0]

theorem lease_pins_generation_two :
    (afterRun wokenForLease).callers 0 = .holding 2 ∧ (afterRun wokenForLease).generation = 2 := by
  refine ⟨by decide, ?_⟩
  exact ((lease_pins_generation _ (reach_afterRun wokenForLease) (by decide)).1 0 2
    (by decide)).2

end State

end CodeStory.Engine
