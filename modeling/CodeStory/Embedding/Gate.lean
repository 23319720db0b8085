import CodeStory.Embedding.Server

/-!
# The admission gate

What a thread knows of the shared state depends on where it stands, and only the holder of
the gate knows anything: that the draining flag is its own, that nothing is registered, that
no lease is held. `View` keeps of a state what this knowledge is about, and of each thread
the marks that say what it knows. Other threads cannot take the knowledge away, since what
would take it away needs the gate or a registration.
-/

set_option autoImplicit false

namespace CodeStory.Server

open Transition

/-- What a thread has and knows: the gate, a registered request, that draining had not begun
when it checked, that the draining flag is its own speculation, that nothing is registered,
that no lease is held. -/
structure Marks where
  gated : Bool
  registered : Bool
  entering : Bool
  speculates : Bool
  seesInactive : Bool
  seesUnleased : Bool
  deriving DecidableEq, Repr

namespace Marks

def none : Marks := ⟨false, false, false, false, false, false⟩

/-- Whatever is known, is known under the gate, and leases are looked at last. -/
structure WellFormed (m : Marks) : Prop where
  ungated : m.gated = false → m.entering = false ∧ m.speculates = false ∧
    m.seesInactive = false ∧ m.seesUnleased = false
  unleased : m.seesUnleased = true → m.seesInactive = true

theorem wellFormed_none (registered : Bool) :
    ({ Marks.none with registered := registered } : Marks).WellFormed :=
  ⟨fun _ => ⟨rfl, rfl, rfl, rfl⟩, fun htrue => absurd htrue (by simp [Marks.none])⟩

theorem wellFormed_of_gated {m : Marks} (hgated : m.gated = true)
    (hunleased : m.seesUnleased = true → m.seesInactive = true) : m.WellFormed :=
  ⟨fun hfalse => absurd (hgated.symm.trans hfalse) (by simp), hunleased⟩

end Marks

/-- Past the first read of `true_idle`. -/
def Look.pastActive : Look → Bool
  | .active => false
  | _ => true

def Drain.marks : Drain → Marks
  | .lock => .none
  | .exchange => ⟨true, false, false, false, false, false⟩
  | .again l => ⟨true, false, false, false, l.pastActive, false⟩
  | .idle l => ⟨true, false, false, true, l.pastActive, false⟩
  | .slot | .native _ | .owner => ⟨true, false, false, true, true, true⟩
  | .withdraw => ⟨true, false, false, true, false, false⟩
  | .unlock result exchanged => ⟨true, false, false, result && exchanged, result, result⟩

def Handler.marks : Handler → Marks
  | .hello d => d.marks
  | .checkBegin _ | .unlockBegin _ false => ⟨true, false, false, false, false, false⟩
  | .insertBegin _ => ⟨true, false, true, false, false, false⟩
  | .unlockBegin _ true | .checkEngine _ | .unlockEngine _ _ =>
    ⟨true, true, false, false, false, false⟩
  | .openEngine _ => ⟨true, true, true, false, false, false⟩
  | .registered _ | .lockEngine _ | .ready _ | .submitted | .ensuring | .leasing | .leased
  | .dropRestart true | .dropRelease true | .dropSend true | .finishActive _ =>
    ⟨false, true, false, false, false, false⟩
  | .idle | .admitting _ | .acquiring _ _ | .admitted _ | .lockBegin _ | .dropPermit | .holding
  | .dropRestart false | .dropRelease false | .dropSend false | .finishCancellation _
  | .finishRestart _ | .done => .none

def AcceptLoop.marks : AcceptLoop → Marks
  | .drain d => d.marks
  | _ => .none

def AcceptLoop.isClosed : AcceptLoop → Bool
  | .closed _ => true
  | _ => false

theorem Drain.marks_wellFormed (d : Drain) : d.marks.WellFormed := by
  cases d with
  | lock => exact Marks.wellFormed_none false
  | unlock result exchanged => exact Marks.wellFormed_of_gated rfl fun hresult => hresult
  | exchange | again l | idle l | slot | native l | owner | withdraw =>
    exact Marks.wellFormed_of_gated rfl (by simp [Drain.marks])

theorem Handler.marks_wellFormed (h : Handler) : h.marks.WellFormed := by
  unfold Handler.marks
  split
  · exact Drain.marks_wellFormed _
  all_goals
    first
    | exact Marks.wellFormed_none _
    | exact Marks.wellFormed_of_gated rfl (by simp)

theorem AcceptLoop.marks_wellFormed (l : AcceptLoop) : l.marks.WellFormed := by
  unfold AcceptLoop.marks
  split
  · exact Drain.marks_wellFormed _
  · exact Marks.wellFormed_none false

structure View where
  gate : Option Thread
  draining : Bool
  drained : Bool
  active : Finset Nat
  unleased : Prop
  closed : Bool
  marks : Thread → Marks

namespace View

/-- A thread's marks are right. -/
structure Vouches (v : View) (th : Thread) (m : Marks) : Prop where
  gated : m.gated = true → v.gate = some th
  entering : m.entering = true → v.drained = false
  speculates : m.speculates = true → v.draining = true ∧ v.drained = false
  seesInactive : m.seesInactive = true → v.active = ∅
  seesUnleased : m.seesUnleased = true → v.unleased

/-- All marks are right; the draining flag has a reason; and draining that has begun found
nothing registered and no lease, and that stays so. -/
structure Sound (v : View) : Prop where
  wellFormed : ∀ th, (v.marks th).WellFormed
  vouches : ∀ th, v.Vouches th (v.marks th)
  active : ∀ i, i ∈ v.active ↔ (v.marks (.handler i)).registered = true
  draining : v.drained = true → v.draining = true
  reason : v.draining = true →
    v.drained = true ∨ (∃ th, (v.marks th).speculates = true) ∨ v.closed = true
  settled : v.drained = true → v.active = ∅ ∧ v.unleased

variable {v w : View} {th me : Thread} {m : Marks}

theorem vouches_of_ungated (hm : m.WellFormed) (h : m.gated = false) : v.Vouches th m := by
  obtain ⟨hentering, hspeculates, hinactive, hunleased⟩ := hm.ungated h
  refine ⟨?_, ?_, ?_, ?_, ?_⟩
  · intro hgated
    exact absurd (h.symm.trans hgated) (by simp)
  · intro htrue
    exact absurd (hentering.symm.trans htrue) (by simp)
  · intro htrue
    exact absurd (hspeculates.symm.trans htrue) (by simp)
  · intro htrue
    exact absurd (hinactive.symm.trans htrue) (by simp)
  · intro htrue
    exact absurd (hunleased.symm.trans htrue) (by simp)

/-- Nobody else has the gate while `me` has it, or while nobody has it. -/
theorem Sound.others_ungated (h : v.Sound) (hgate : v.gate = none ∨ v.gate = some me) :
    ∀ th, th ≠ me → (v.marks th).gated = false := by
  intro th hth
  by_contra hgated
  have hheld := (h.vouches th).gated (Bool.of_not_eq_false hgated)
  rcases hgate with hnone | hme
  · exact absurd (hnone.symm.trans hheld) (by simp)
  · have heq := hme.symm.trans hheld
    exact hth (Option.some.inj heq).symm

/-- A step of `me` that may change anything but the marks of others. Since nobody else has
the gate, nobody else's knowledge is at stake. -/
theorem Sound.exclusive (h : v.Sound) (hgate : v.gate = none ∨ v.gate = some me)
    (hmarks : w.marks = Function.update v.marks me m) (hm : m.WellFormed)
    (hvouches : w.Vouches me m)
    (hactive : ∀ i, i ∈ w.active ↔ (w.marks (.handler i)).registered = true)
    (hdraining : w.drained = true → w.draining = true)
    (hreason : w.draining = true →
      w.drained = true ∨ (∃ th, (w.marks th).speculates = true) ∨ w.closed = true)
    (hsettled : w.drained = true → w.active = ∅ ∧ w.unleased) : w.Sound := by
  have hothers := h.others_ungated hgate
  refine ⟨?_, ?_, hactive, hdraining, hreason, hsettled⟩
  · intro th
    rw [hmarks]
    by_cases hth : th = me
    · subst hth
      rw [Function.update_self]
      exact hm
    · rw [Function.update_of_ne hth]
      exact h.wellFormed th
  · intro th
    rw [hmarks]
    by_cases hth : th = me
    · subst hth
      rw [Function.update_self]
      exact hvouches
    · rw [Function.update_of_ne hth]
      exact vouches_of_ungated (h.wellFormed th) (hothers th hth)

/-- The registrations do not change when the mark for them does not. -/
theorem Sound.same_active (h : v.Sound) (hregistered : m.registered = (v.marks me).registered)
    (i : Nat) :
    i ∈ v.active ↔ (Function.update v.marks me m (.handler i)).registered = true := by
  rw [h.active i]
  by_cases hi : Thread.handler i = me
  · subst hi
    rw [Function.update_self, hregistered]
  · rw [Function.update_of_ne hi]

/-- A speculation that gives the draining flag its reason is not that of `me`. -/
theorem Sound.reason_other (h : v.Sound) (hme : (v.marks me).speculates = false) (m : Marks)
    (hdraining : v.draining = true) :
    v.drained = true ∨ (∃ th, (Function.update v.marks me m th).speculates = true) ∨
      v.closed = true := by
  rcases h.reason hdraining with hdrained | ⟨th, hth⟩ | hclosed
  · exact .inl hdrained
  · refine .inr (.inl ⟨th, ?_⟩)
    rw [Function.update_of_ne]
    · exact hth
    · rintro rfl
      exact absurd (hme.symm.trans hth) (by simp)
  · exact .inr (.inr hclosed)

theorem Sound.lock (h : v.Sound) (hgate : v.gate = none) (hm : (v.marks me).gated = false) :
    ({ v with
      gate := some me
      marks := Function.update v.marks me { v.marks me with gated := true } } : View).Sound := by
  obtain ⟨hentering, hspeculates, hinactive, hunleased⟩ := (h.wellFormed me).ungated hm
  refine h.exclusive (.inl hgate) rfl ?_ ?_ (h.same_active rfl) h.draining ?_ h.settled
  · exact Marks.wellFormed_of_gated rfl (h.wellFormed me).unleased
  · refine ⟨fun _ => rfl, ?_, ?_, ?_, ?_⟩
    · intro htrue
      exact absurd (hentering.symm.trans htrue) (by simp)
    · intro htrue
      exact absurd (hspeculates.symm.trans htrue) (by simp)
    · intro htrue
      exact absurd (hinactive.symm.trans htrue) (by simp)
    · intro htrue
      exact absurd (hunleased.symm.trans htrue) (by simp)
  · exact h.reason_other hspeculates _

/-- The gate is given back, and with it everything that was known. Draining has begun when
the speculation stood. -/
theorem Sound.unlock (h : v.Sound) (hm : (v.marks me).gated = true) (begun : Bool)
    (hbegun : begun = (v.marks me).speculates)
    (hknown : begun = true → (v.marks me).seesInactive = true ∧ (v.marks me).seesUnleased = true) :
    ({ v with
      gate := none
      drained := v.drained || begun
      marks := Function.update v.marks me
        { Marks.none with registered := (v.marks me).registered } } : View).Sound := by
  have hvouches := h.vouches me
  refine h.exclusive (.inr (hvouches.gated hm)) rfl ?_ ?_ (h.same_active rfl) ?_ ?_ ?_
  · exact Marks.wellFormed_none _
  · exact vouches_of_ungated (Marks.wellFormed_none _) rfl
  · intro hdrained
    rcases Bool.or_eq_true_iff.mp hdrained with hdrained | htrue
    · exact h.draining hdrained
    · exact (hvouches.speculates (hbegun.symm.trans htrue)).1
  · intro hdraining
    cases hb : begun with
    | true => exact .inl (by simp)
    | false =>
      have hme : (v.marks me).speculates = false := hbegun.symm.trans hb
      simpa using h.reason_other hme { Marks.none with registered := (v.marks me).registered }
        hdraining
  · intro hdrained
    rcases Bool.or_eq_true_iff.mp hdrained with hdrained | htrue
    · exact h.settled hdrained
    · obtain ⟨hinactive, hunleased⟩ := hknown htrue
      exact ⟨hvouches.seesInactive hinactive, hvouches.seesUnleased hunleased⟩

/-- The holder of the gate learns or forgets something; its speculation stays what it was. -/
theorem Sound.learn (h : v.Sound) (hm : (v.marks me).gated = true)
    (hregistered : m.registered = (v.marks me).registered)
    (hspeculates : m.speculates = (v.marks me).speculates)
    (hentering : m.entering = true → v.draining = false)
    (hinactive : m.seesInactive = true → v.active = ∅)
    (hunleased : m.seesUnleased = true → v.unleased)
    (hwellFormed : m.WellFormed) :
    ({ v with marks := Function.update v.marks me m } : View).Sound := by
  have hvouches := h.vouches me
  refine h.exclusive (.inr (hvouches.gated hm)) rfl hwellFormed ?_ (h.same_active hregistered)
    h.draining ?_ h.settled
  · refine ⟨fun _ => hvouches.gated hm, ?_, ?_, hinactive, hunleased⟩
    · intro htrue
      have hfalse := hentering htrue
      by_contra hdrained
      have hdraining := h.draining (Bool.of_not_eq_false hdrained)
      exact absurd (hfalse.symm.trans hdraining) (by simp)
    · rw [hspeculates]
      exact hvouches.speculates
  · intro hdraining
    rcases h.reason hdraining with hdrained | ⟨th, hth⟩ | hclosed
    · exact .inl hdrained
    · refine .inr (.inl ⟨th, ?_⟩)
      by_cases hthme : th = me
      · subst hthme
        dsimp only
        rw [Function.update_self, hspeculates]
        exact hth
      · dsimp only
        rw [Function.update_of_ne hthme]
        exact hth
    · exact .inr (.inr hclosed)

/-- `compare_exchange(false, true)` succeeds. -/
theorem Sound.exchange (h : v.Sound) (hm : v.marks me = ⟨true, false, false, false, false, false⟩)
    (hdraining : v.draining = false) :
    ({ v with
      draining := true
      marks := Function.update v.marks me ⟨true, false, false, true, false, false⟩ } :
      View).Sound := by
  have hvouches := h.vouches me
  have hgate : v.gate = some me := hvouches.gated (by rw [hm])
  have hdrained : v.drained = false := by
    by_contra hne
    have htrue := h.draining (Bool.of_not_eq_false hne)
    exact absurd (hdraining.symm.trans htrue) (by simp)
  refine h.exclusive (.inr hgate) rfl ?_ ?_ (h.same_active (by rw [hm])) (fun _ => rfl) ?_ ?_
  · exact Marks.wellFormed_of_gated rfl (by simp)
  · refine ⟨fun _ => hgate, ?_, fun _ => ⟨rfl, hdrained⟩, ?_, ?_⟩
    · exact fun htrue => absurd htrue (by simp)
    · exact fun htrue => absurd htrue (by simp)
    · exact fun htrue => absurd htrue (by simp)
  · intro _
    refine .inr (.inl ⟨me, ?_⟩)
    dsimp only
    rw [Function.update_self]
  · intro htrue
    exact absurd (hdrained.symm.trans htrue) (by simp)

/-- The speculation is withdrawn. -/
theorem Sound.withdraw (h : v.Sound) (hm : v.marks me = ⟨true, false, false, true, false, false⟩) :
    ({ v with
      draining := false
      marks := Function.update v.marks me ⟨true, false, false, false, false, false⟩ } :
      View).Sound := by
  have hvouches := h.vouches me
  have hgate : v.gate = some me := hvouches.gated (by rw [hm])
  have hdrained : v.drained = false := (hvouches.speculates (by rw [hm])).2
  refine h.exclusive (.inr hgate) rfl ?_ ?_ (h.same_active (by rw [hm])) ?_ ?_ ?_
  · exact Marks.wellFormed_of_gated rfl (by simp)
  · refine ⟨fun _ => hgate, ?_, ?_, ?_, ?_⟩
    · exact fun htrue => absurd htrue (by simp)
    · exact fun htrue => absurd htrue (by simp)
    · exact fun htrue => absurd htrue (by simp)
    · exact fun htrue => absurd htrue (by simp)
  · intro htrue
    exact absurd (hdrained.symm.trans htrue) (by simp)
  · intro htrue
    exact absurd htrue (by simp)
  · intro htrue
    exact absurd (hdrained.symm.trans htrue) (by simp)

/-- A request is registered: under the gate, and before draining has begun. -/
theorem Sound.register (h : v.Sound) {i : Nat}
    (hm : v.marks (.handler i) = ⟨true, false, true, false, false, false⟩) :
    ({ v with
      active := insert i v.active
      marks := Function.update v.marks (.handler i) ⟨true, true, false, false, false, false⟩ } :
      View).Sound := by
  have hvouches := h.vouches (.handler i)
  have hgate : v.gate = some (.handler i) := hvouches.gated (by rw [hm])
  have hdrained : v.drained = false := hvouches.entering (by rw [hm])
  refine h.exclusive (.inr hgate) rfl ?_ ?_ ?_ h.draining ?_ ?_
  · exact Marks.wellFormed_of_gated rfl (by simp)
  · refine ⟨fun _ => hgate, ?_, ?_, ?_, ?_⟩
    · exact fun htrue => absurd htrue (by simp)
    · exact fun htrue => absurd htrue (by simp)
    · exact fun htrue => absurd htrue (by simp)
    · exact fun htrue => absurd htrue (by simp)
  · intro j
    dsimp only
    rw [Finset.mem_insert]
    by_cases hj : j = i
    · subst hj
      rw [Function.update_self]
      simp
    · rw [Function.update_of_ne (by simpa using hj), h.active j]
      simp [hj]
  · exact h.reason_other (by rw [hm]) _
  · intro htrue
    exact absurd (hdrained.symm.trans htrue) (by simp)

/-- A registration ends, without the gate. -/
theorem Sound.unregister (h : v.Sound) {i : Nat}
    (hm : v.marks (.handler i) = ⟨false, true, false, false, false, false⟩) :
    ({ v with
      active := v.active.erase i
      marks := Function.update v.marks (.handler i) .none } : View).Sound := by
  have hempty : v.active = ∅ → v.active.erase i = ∅ := by
    intro hactive
    rw [hactive]
    exact Finset.erase_empty i
  refine ⟨?_, ?_, ?_, h.draining, ?_, ?_⟩
  · intro th
    dsimp only
    by_cases hth : th = .handler i
    · subst hth
      rw [Function.update_self]
      exact Marks.wellFormed_none false
    · rw [Function.update_of_ne hth]
      exact h.wellFormed th
  · intro th
    dsimp only
    by_cases hth : th = .handler i
    · subst hth
      rw [Function.update_self]
      exact vouches_of_ungated (Marks.wellFormed_none false) rfl
    · rw [Function.update_of_ne hth]
      have hvouches := h.vouches th
      exact ⟨hvouches.gated, hvouches.entering, hvouches.speculates,
        fun hsees => hempty (hvouches.seesInactive hsees), hvouches.seesUnleased⟩
  · intro j
    dsimp only
    rw [Finset.mem_erase]
    by_cases hj : j = i
    · subst hj
      rw [Function.update_self]
      simp [Marks.none]
    · rw [Function.update_of_ne (by simpa using hj), h.active j]
      simp [hj]
  · exact h.reason_other (by rw [hm]) _
  · intro hdrained
    obtain ⟨hactive, hunleased⟩ := h.settled hdrained
    exact ⟨hempty hactive, hunleased⟩

/-- Leases may end at any time; one is taken only by a registered request. -/
theorem Sound.leases (h : v.Sound) {unleased : Prop}
    (hunleased : v.unleased → v.active = ∅ → unleased) :
    ({ v with unleased := unleased } : View).Sound := by
  refine ⟨h.wellFormed, ?_, h.active, h.draining, h.reason, ?_⟩
  · intro th
    have hvouches := h.vouches th
    refine ⟨hvouches.gated, hvouches.entering, hvouches.speculates, hvouches.seesInactive, ?_⟩
    intro hsees
    exact hunleased (hvouches.seesUnleased hsees)
      (hvouches.seesInactive ((h.wellFormed th).unleased hsees))
  · intro hdrained
    obtain ⟨hactive, hleases⟩ := h.settled hdrained
    exact ⟨hactive, hunleased hleases hactive⟩

/-- The accept loop has ended and stores the flag. -/
theorem Sound.close (h : v.Sound) :
    ({ v with draining := true, closed := true } : View).Sound := by
  refine ⟨h.wellFormed, ?_, h.active, fun _ => rfl, fun _ => .inr (.inr rfl), h.settled⟩
  intro th
  have hvouches := h.vouches th
  exact ⟨hvouches.gated, hvouches.entering, fun hspec => ⟨rfl, (hvouches.speculates hspec).2⟩,
    hvouches.seesInactive, hvouches.seesUnleased⟩

end View

namespace State
variable {s t : State} {cfg : Config} {me : Thread}

/-- No residency lease is held. -/
def Unleased (s : State) : Prop := ∀ i, (s.native.callers i).holds = false

def view (s : State) : View where
  gate := s.gate
  draining := s.draining
  drained := s.drained
  active := s.active
  unleased := s.Unleased
  closed := s.loop.isClosed
  marks
    | .acceptLoop => s.loop.marks
    | .handler i => (s.handlers i).marks

structure Safe (s : State) : Prop where
  view : s.view.Sound
  listed : s.native.Listed
  fresh : s.slot = false → s.native.Fresh
  unspawned : ∀ i, s.connections ≤ i → s.handlers i = .idle

theorem marks_setHandler (i : Nat) (h : Handler) :
    (s.setHandler i h).view.marks = Function.update s.view.marks (.handler i) h.marks := by
  funext th
  cases th with
  | acceptLoop =>
    rw [Function.update_of_ne (by simp)]
    rfl
  | handler j =>
    by_cases hj : j = i
    · subst hj
      rw [Function.update_self]
      exact congrArg Handler.marks (Function.update_self ..)
    · rw [Function.update_of_ne (by simpa using hj)]
      exact congrArg Handler.marks (Function.update_of_ne hj ..)

theorem marks_setLoop (l : AcceptLoop) :
    (s.setLoop l).view.marks = Function.update s.view.marks .acceptLoop l.marks := by
  funext th
  cases th with
  | acceptLoop => rw [Function.update_self]; rfl
  | handler j => rw [Function.update_of_ne (by simp)]; rfl

theorem view_setHandler (i : Nat) (h : Handler) :
    (s.setHandler i h).view =
      { s.view with marks := Function.update s.view.marks (.handler i) h.marks } := by
  rw [← marks_setHandler]
  rfl

theorem view_setLoop (l : AcceptLoop) (hclosed : l.isClosed = s.loop.isClosed) :
    (s.setLoop l).view =
      { s.view with marks := Function.update s.view.marks .acceptLoop l.marks } := by
  rw [← marks_setLoop]
  unfold view
  rw [← hclosed]
  rfl

section Looks

theorem Safe.unleased_of_fresh (h : s.Safe) (hslot : s.slot = false) : s.Unleased := by
  intro i
  rw [(h.fresh hslot).callers i]
  rfl

/-- `lease_count` is zero only when no lease is held. -/
theorem Safe.unleased_of_count (h : s.Safe) (hcount : s.native.tracker.leaseCount = 0) :
    s.Unleased := by
  intro i
  have hleases := h.listed.leases
  change Census _ s.native.callers s.native.tracker.leaseCount at hleases
  rw [hcount] at hleases
  exact Bool.eq_false_of_not_eq_true (hleases.of_zero i)

theorem look_next {l next : Look} (hlook : s.look l = .inl next) :
    next.pastActive = true ∧ (l.pastActive = true ∨ s.active = ∅) := by
  cases l with
  | active =>
    simp only [look] at hlook
    split at hlook
    · rename_i hactive
      obtain rfl := Sum.inl.inj hlook
      exact ⟨rfl, .inr hactive⟩
    · exact absurd hlook (by simp)
  | depths | slot =>
    simp only [look] at hlook
    split at hlook
    · obtain rfl := Sum.inl.inj hlook
      exact ⟨rfl, .inl rfl⟩
    · exact absurd hlook (by simp)
  | query | bulk clear =>
    obtain rfl := Sum.inl.inj hlook
    exact ⟨rfl, .inl rfl⟩
  | tracker clear => exact absurd hlook (by simp [look])

/-- `true_idle` answers true only after the first read, and only without leases. -/
theorem Safe.look_true (h : s.Safe) {l : Look} (hlook : s.look l = .inr true) :
    l.pastActive = true ∧ s.Unleased := by
  cases l with
  | active | depths =>
    simp only [look] at hlook
    split at hlook
    · exact absurd hlook (by simp)
    · exact absurd hlook (by simp)
  | slot =>
    simp only [look] at hlook
    split at hlook
    · exact absurd hlook (by simp)
    · rename_i hslot
      exact ⟨rfl, h.unleased_of_fresh (Bool.eq_false_of_not_eq_true hslot)⟩
  | query | bulk clear => exact absurd hlook (by simp [look])
  | tracker clear =>
    have hread := Sum.inr.inj hlook
    rw [Bool.and_eq_true, beq_iff_eq] at hread
    exact ⟨rfl, h.unleased_of_count hread.2⟩

end Looks

/-- The marks of a thread after one operation of `begin_draining_if_idle`. -/
def marksAfter : Drain ⊕ Bool → Marks
  | .inl next => next.marks
  | .inr _ => .none

/-- What an operation of `begin_draining_if_idle` can change. -/
def DrainUpdates (s t : State) : Prop :=
  ∃ gate draining drained native,
    t = { s with gate := gate, draining := draining, drained := drained, native := native } ∧
    (s.drained = true → drained = true) ∧
    (native = s.native ∨
      native = s.native.withTracker (s.native.tracker.setOwnerState .draining))

theorem drainStep_updates {d : Drain} {r : Drain ⊕ Bool} (hstep : s.drainStep me d = some (t, r)) :
    s.DrainUpdates t := by
  have hgate : ∀ {gate draining} {next : Drain ⊕ Bool},
      some (({ s with gate := gate, draining := draining } : State), next) = some (t, r) →
        s.DrainUpdates t := by
    intro gate draining next hsome
    obtain ⟨rfl, -⟩ := Prod.mk.inj (Option.some.inj hsome)
    exact ⟨gate, draining, s.drained, s.native, rfl, id, .inl rfl⟩
  unfold drainStep at hstep
  split at hstep
  · split at hstep
    · exact hgate hstep
    · exact absurd hstep (by simp)
  · split at hstep <;> exact hgate hstep
  · split at hstep <;> exact hgate hstep
  · split at hstep <;> exact hgate hstep
  · exact hgate hstep
  · split at hstep <;> exact hgate hstep
  · obtain ⟨rfl, -⟩ := Prod.mk.inj (Option.some.inj hstep)
    exact ⟨s.gate, s.draining, s.drained, _, rfl, id, .inr rfl⟩
  · exact hgate hstep
  · rename_i result exchanged
    obtain ⟨rfl, -⟩ := Prod.mk.inj (Option.some.inj hstep)
    refine ⟨none, s.draining, s.drained || (result && exchanged), s.native, rfl, ?_, .inl rfl⟩
    intro hdrained
    rw [hdrained, Bool.true_or]

theorem drainStep_frame {d : Drain} {r : Drain ⊕ Bool} (hstep : s.drainStep me d = some (t, r)) :
    t.view.marks = s.view.marks ∧ t.loop = s.loop ∧ t.handlers = s.handlers ∧
      t.connections = s.connections ∧ t.slot = s.slot ∧
      (t.native = s.native ∨
        t.native = s.native.withTracker (s.native.tracker.setOwnerState .draining)) := by
  obtain ⟨gate, draining, drained, native, rfl, -, hnative⟩ := drainStep_updates hstep
  exact ⟨rfl, rfl, rfl, rfl, rfl, hnative⟩

/-- A read of `true_idle` under the gate: the holder learns what it saw. -/
theorem Safe.learn_looking (h : s.Safe) (next : Drain) {d : Drain}
    (hme : s.view.marks me = d.marks) (hgated : d.marks.gated = true)
    (hregistered : next.marks.registered = d.marks.registered)
    (hspeculates : next.marks.speculates = d.marks.speculates)
    (hentering : next.marks.entering = false)
    (hinactive : next.marks.seesInactive = true → d.marks.seesInactive = true ∨ s.active = ∅)
    (hunleased : next.marks.seesUnleased = true → s.Unleased) :
    ({ s.view with marks := Function.update s.view.marks me next.marks } : View).Sound := by
  refine h.view.learn ?_ ?_ ?_ ?_ ?_ hunleased next.marks_wellFormed
  · rw [hme]
    exact hgated
  · rw [hme]
    exact hregistered
  · rw [hme]
    exact hspeculates
  · intro htrue
    exact absurd (hentering.symm.trans htrue) (by simp)
  · intro hsees
    rcases hinactive hsees with hd | hactive
    · apply (h.view.vouches me).seesInactive
      rw [hme]
      exact hd
    · exact hactive

theorem Safe.same_marks (h : s.Safe) {m : Marks} (hme : s.view.marks me = m) :
    ({ s.view with marks := Function.update s.view.marks me m } : View).Sound := by
  rw [← hme, Function.update_eq_self]
  exact h.view

theorem drainStep_sound (h : s.Safe) {d : Drain} {r : Drain ⊕ Bool}
    (hme : s.view.marks me = d.marks) (hstep : s.drainStep me d = some (t, r)) :
    ({ t.view with marks := Function.update s.view.marks me (marksAfter r) } : View).Sound := by
  cases d with
  | lock =>
    simp only [drainStep] at hstep
    split at hstep
    · rename_i hgate
      obtain ⟨rfl, rfl⟩ := Prod.mk.inj (Option.some.inj hstep)
      have hgated : (s.view.marks me).gated = false := by
        rw [hme]
        rfl
      have hlock := h.view.lock hgate hgated
      rw [hme] at hlock
      exact hlock
    · exact absurd hstep (by simp)
  | exchange =>
    simp only [drainStep] at hstep
    split at hstep
    · obtain ⟨rfl, rfl⟩ := Prod.mk.inj (Option.some.inj hstep)
      exact h.same_marks hme
    · rename_i hdraining
      obtain ⟨rfl, rfl⟩ := Prod.mk.inj (Option.some.inj hstep)
      exact h.view.exchange hme (Bool.eq_false_of_not_eq_true hdraining)
  | again l =>
    simp only [drainStep] at hstep
    split at hstep
    · rename_i next hlook
      obtain ⟨rfl, rfl⟩ := Prod.mk.inj (Option.some.inj hstep)
      exact h.learn_looking (.again next) hme rfl rfl rfl rfl (fun _ => (look_next hlook).2)
        (by simp [Drain.marks])
    · rename_i result hlook
      obtain ⟨rfl, rfl⟩ := Prod.mk.inj (Option.some.inj hstep)
      cases result with
      | false =>
        exact h.learn_looking (.unlock false false) hme rfl rfl rfl rfl
          (by simp [Drain.marks]) (by simp [Drain.marks])
      | true =>
        obtain ⟨hpast, hunleased⟩ := h.look_true hlook
        exact h.learn_looking (.unlock true false) hme rfl rfl rfl rfl
          (fun _ => .inl hpast) fun _ => hunleased
  | idle l =>
    simp only [drainStep] at hstep
    split at hstep
    · rename_i next hlook
      obtain ⟨rfl, rfl⟩ := Prod.mk.inj (Option.some.inj hstep)
      exact h.learn_looking (.idle next) hme rfl rfl rfl rfl (fun _ => (look_next hlook).2)
        (by simp [Drain.marks])
    · rename_i hlook
      obtain ⟨rfl, rfl⟩ := Prod.mk.inj (Option.some.inj hstep)
      obtain ⟨hpast, hunleased⟩ := h.look_true hlook
      exact h.learn_looking .slot hme rfl rfl rfl rfl (fun _ => .inl hpast)
        fun _ => hunleased
    · obtain ⟨rfl, rfl⟩ := Prod.mk.inj (Option.some.inj hstep)
      exact h.learn_looking .withdraw hme rfl rfl rfl rfl (by simp [Drain.marks])
        (by simp [Drain.marks])
  | slot =>
    simp only [drainStep] at hstep
    obtain ⟨rfl, rfl⟩ := Prod.mk.inj (Option.some.inj hstep)
    split
    · exact h.same_marks hme
    · exact h.same_marks hme
  | native l =>
    simp only [drainStep] at hstep
    split at hstep
    · obtain ⟨rfl, rfl⟩ := Prod.mk.inj (Option.some.inj hstep)
      exact h.same_marks hme
    · obtain ⟨rfl, rfl⟩ := Prod.mk.inj (Option.some.inj hstep)
      exact h.same_marks hme
    · obtain ⟨rfl, rfl⟩ := Prod.mk.inj (Option.some.inj hstep)
      exact h.learn_looking .withdraw hme rfl rfl rfl rfl (by simp [Drain.marks])
        (by simp [Drain.marks])
  | owner =>
    simp only [drainStep] at hstep
    obtain ⟨rfl, rfl⟩ := Prod.mk.inj (Option.some.inj hstep)
    exact h.same_marks hme
  | withdraw =>
    simp only [drainStep] at hstep
    obtain ⟨rfl, rfl⟩ := Prod.mk.inj (Option.some.inj hstep)
    exact h.view.withdraw hme
  | unlock result exchanged =>
    simp only [drainStep] at hstep
    obtain ⟨rfl, rfl⟩ := Prod.mk.inj (Option.some.inj hstep)
    have hgated : (s.view.marks me).gated = true := by
      rw [hme]
      rfl
    have hunlock := h.view.unlock hgated (result && exchanged) (by rw [hme]; rfl) (by
      intro hbegun
      rw [hme]
      have hresult := (Bool.and_eq_true_iff.mp hbegun).1
      exact ⟨hresult, hresult⟩)
    rw [hme] at hunlock
    exact hunlock

section Handlers
variable {i : Nat} {p next : Handler}

/-- Permits, cancellation entries, the clock and the idle window are nobody's mark. -/
theorem Safe.congr (h : s.Safe) (hview : t.view = s.view) (hnative : t.native = s.native)
    (hslot : t.slot = s.slot) (hhandlers : t.handlers = s.handlers)
    (hconnections : t.connections = s.connections) : t.Safe := by
  refine ⟨?_, ?_, ?_, ?_⟩
  · rw [hview]
    exact h.view
  · rw [hnative]
    exact h.listed
  · rw [hslot, hnative]
    exact h.fresh
  · rw [hhandlers, hconnections]
    exact h.unspawned

theorem Safe.releasePermit (h : s.Safe) (i : Nat) : (s.releasePermit i).Safe := by
  unfold State.releasePermit
  split
  · exact h.congr rfl rfl rfl rfl rfl
  · exact h

theorem Safe.restartIdleWindow (h : s.Safe) : s.restartIdleWindow.Safe :=
  h.congr rfl rfl rfl rfl rfl

/-- A cancellation touches one cell. -/
theorem Safe.cancelContext (h : s.Safe) (i : Nat) : (s.cancelContext i).Safe := by
  refine ⟨h.view, h.listed, ?_, h.unspawned⟩
  intro hslot
  have hfresh := h.fresh hslot
  exact ⟨hfresh.started, hfresh.queue, hfresh.callers, hfresh.active, hfresh.pc⟩

/-- A handler that was spawned is below the number of connections, wherever it goes. -/
theorem Safe.unspawned_set (h : s.Safe) (hpc : s.handlers i = p) (hp : p ≠ .idle) (next : Handler)
    (j : Nat) (hj : s.connections ≤ j) : Function.update s.handlers i next j = .idle := by
  have hji : j ≠ i := by
    rintro rfl
    exact hp (hpc.symm.trans (h.unspawned j hj))
  rw [Function.update_of_ne hji]
  exact h.unspawned j hj

/-- The view follows from one of the rules above; nothing else changes. -/
theorem Safe.place (h : s.Safe) (hpc : s.handlers i = p) (hp : p ≠ .idle)
    (hview : t.view.Sound) (hhandlers : t.handlers = Function.update s.handlers i next)
    (hnative : t.native = s.native) (hslot : t.slot = s.slot)
    (hconnections : t.connections = s.connections) : t.Safe := by
  refine ⟨hview, ?_, ?_, ?_⟩
  · rw [hnative]
    exact h.listed
  · rw [hslot, hnative]
    exact h.fresh
  · rw [hhandlers, hconnections]
    exact h.unspawned_set hpc hp next

/-- The handler moves on with the same marks. -/
theorem Safe.pass (h : s.Safe) (hpc : s.handlers i = p) (hp : p ≠ .idle)
    (hmarks : next.marks = p.marks) : (s.setHandler i next).Safe := by
  refine h.place hpc hp ?_ rfl rfl rfl rfl
  rw [view_setHandler]
  apply h.same_marks
  rw [hmarks, ← hpc]
  rfl

theorem marks_handler (hpc : s.handlers i = p) : s.view.marks (.handler i) = p.marks :=
  congrArg Handler.marks hpc

theorem Safe.lockGate (h : s.Safe) (hpc : s.handlers i = p) (hp : p ≠ .idle)
    (hgate : s.gate = none) (hgated : p.marks.gated = false)
    (hmarks : next.marks = { p.marks with gated := true }) :
    ({ s.setHandler i next with gate := some (.handler i) } : State).Safe := by
  refine h.place hpc hp ?_ rfl rfl rfl rfl
  have hme := marks_handler hpc
  have hungated : (s.view.marks (.handler i)).gated = false := by
    rw [hme]
    exact hgated
  have hlock := h.view.lock hgate hungated
  rw [hme, ← hmarks, ← marks_setHandler] at hlock
  exact hlock

theorem Safe.unlockGate (h : s.Safe) (hpc : s.handlers i = p) (hp : p ≠ .idle)
    (hgated : p.marks.gated = true) (hspeculates : p.marks.speculates = false)
    (hmarks : next.marks = { Marks.none with registered := p.marks.registered }) :
    ({ s.setHandler i next with gate := none } : State).Safe := by
  refine h.place hpc hp ?_ rfl rfl rfl rfl
  have hme := marks_handler hpc
  have hheld : (s.view.marks (.handler i)).gated = true := by
    rw [hme]
    exact hgated
  have hunlock := h.view.unlock hheld false (by rw [hme]; exact hspeculates.symm) (by simp)
  rw [hme, ← hmarks, ← marks_setHandler, Bool.or_false] at hunlock
  exact hunlock

/-- Past the check of the draining flag. -/
theorem Safe.enter (h : s.Safe) (hpc : s.handlers i = p) (hp : p ≠ .idle)
    (hdraining : s.draining = false) (hgated : p.marks.gated = true)
    (hmarks : next.marks = { p.marks with entering := true })
    (hknows : p.marks.seesInactive = false ∧ p.marks.seesUnleased = false) :
    (s.setHandler i next).Safe := by
  refine h.place hpc hp ?_ rfl rfl rfl rfl
  have hme := marks_handler hpc
  rw [view_setHandler]
  refine h.view.learn ?_ ?_ ?_ (fun _ => hdraining) ?_ ?_ next.marks_wellFormed
  · rw [hme]
    exact hgated
  · rw [hme, hmarks]
  · rw [hme, hmarks]
  · intro hsees
    rw [hmarks] at hsees
    exact absurd (hknows.1.symm.trans hsees) (by simp)
  · intro hsees
    rw [hmarks] at hsees
    exact absurd (hknows.2.symm.trans hsees) (by simp)

/-- Any engine operation by which nobody gets a lease, or a registered request does. -/
theorem Safe.engineStep (h : s.Safe) {a : Engine.Action}
    (hlease : ∀ j, a = .leaseAcquired j → j ∈ s.active)
    (hasked : s.slot = false → Engine.State.step cfg.engine s.native a = none)
    (hstep : s.engineStep cfg a = some t) : t.Safe := by
  unfold State.engineStep at hstep
  obtain ⟨native, hnative, rfl⟩ := Option.map_eq_some_iff.mp hstep
  obtain ⟨-, hholds, -⟩ := Engine.State.step_callers hnative
  refine ⟨?_, ?_, ?_, h.unspawned⟩
  · apply h.view.leases
    intro hunleased hactive j
    by_contra hj
    rcases hholds j (Bool.of_not_eq_false hj) with hbefore | rfl
    · exact absurd ((hunleased j).symm.trans hbefore) (by simp)
    · have hmem : j ∈ s.active := hlease j rfl
      change s.active = ∅ at hactive
      rw [hactive] at hmem
      exact absurd hmem (by simp)
  · exact Engine.State.step_listed cfg.engine s.native a native h.listed hnative
  · intro hslot
    exact absurd ((hasked hslot).symm.trans hnative) (by simp)

theorem handlers_engineStep {a : Engine.Action} (hstep : s.engineStep cfg a = some t) :
    t.handlers = s.handlers ∧ t.active = s.active := by
  unfold State.engineStep at hstep
  obtain ⟨native, -, rfl⟩ := Option.map_eq_some_iff.mp hstep
  exact ⟨rfl, rfl⟩

/-- A handler asks the engine for something and moves on with the same marks. -/
theorem Safe.ask (h : s.Safe) {a : Engine.Action}
    (hstep : (s.engineStep cfg a).map (fun s => s.setHandler i next) = some t)
    (hpc : s.handlers i = p) (hp : p ≠ .idle) (hmarks : next.marks = p.marks)
    (hlease : ∀ j, a = .leaseAcquired j → j ∈ s.active)
    (hasked : s.native.Fresh → Engine.State.step cfg.engine s.native a = none) : t.Safe := by
  obtain ⟨u, hu, rfl⟩ := Option.map_eq_some_iff.mp hstep
  have hsafe := h.engineStep hlease (fun hslot => hasked (h.fresh hslot)) hu
  refine hsafe.pass (p := p) ?_ hp hmarks
  rw [(handlers_engineStep hu).1]
  exact hpc

theorem Safe.leave (h : s.Safe) (hpc : s.handlers i = p) (hp : p ≠ .idle)
    (hmarks : p.marks = ⟨false, true, false, false, false, false⟩) (course : Course) :
    (s.leave i course).Safe := by
  unfold State.leave
  split
  · exact (h.cancelContext i).pass hpc hp hmarks.symm
  · exact h.pass hpc hp hmarks.symm

theorem Safe.mem_active (h : s.Safe) (hpc : s.handlers i = p) (hp : p.marks.registered = true) :
    i ∈ s.active := by
  apply (h.view.active i).mpr
  rw [marks_handler hpc]
  exact hp

theorem Safe.callEngine (h : s.Safe) {op : Operation} {w : Engine.World}
    (hpc : s.handlers i = .ready op) (hstep : s.callEngine cfg i op w = some t) : t.Safe := by
  cases op with
  | embed c requestId inputs =>
    refine h.ask hstep hpc (by simp) ?_ (by simp) ?_
    · split <;> rfl
    · intro hfresh
      exact hfresh.step_none (by simp) (by simp) (by simp) (by simp)
  | ensureResident | acquireLease =>
    refine h.ask hstep hpc (by simp) rfl (by simp) ?_
    intro hfresh
    exact hfresh.step_none (by simp) (by simp) (by simp) (by simp)

theorem handlerStep_leasing (h : s.Safe) (hpc : s.handlers i = .leasing) {turn : Turn}
    (hstep : s.handlerStep cfg i turn = some t) : t.Safe := by
  have hnone : ∀ a : Engine.Action, (∀ cell, a ≠ .cancel cell) → (∀ c held, a ≠ .hold c held) →
      a ≠ .tick → (∀ w, a ≠ .owner w) → s.native.Fresh →
      Engine.State.step cfg.engine s.native a = none :=
    fun a hcancel hhold htick howner hfresh => hfresh.step_none hcancel hhold htick howner
  simp only [handlerStep, hpc] at hstep
  split at hstep
  · exact h.engineStep (by simp)
      (fun hslot => hnone _ (by simp) (by simp) (by simp) (by simp) (h.fresh hslot)) hstep
  · refine h.ask hstep hpc (by simp) rfl ?_ ?_
    · intro j hj
      obtain rfl := Engine.Action.leaseAcquired.inj hj
      exact h.mem_active hpc rfl
    · exact hnone _ (by simp) (by simp) (by simp) (by simp)
  · obtain rfl := Option.some.inj hstep
    exact h.leave hpc (by simp) rfl .fail
  · exact absurd hstep (by simp)

theorem Safe.initializeEngine (h : s.Safe) (hslot : ¬ s.slot = true) {w : Engine.World}
    (hstep : s.initializeEngine cfg w = some t) : t.Safe ∧ t.handlers = s.handlers := by
  have hunleased := h.unleased_of_fresh (Bool.eq_false_of_not_eq_true hslot)
  unfold State.initializeEngine at hstep
  split at hstep
  · obtain ⟨native, hrun, rfl⟩ := Option.map_eq_some_iff.mp hstep
    have hreach := reach_of_run hrun
    have hlisted := hreach.invariant (Engine.State.step_listed cfg.engine) h.listed
    refine ⟨⟨?_, hlisted, fun hfalse => absurd hfalse (by simp), h.unspawned⟩, rfl⟩
    apply h.view.leases
    intro _ _
    refine (Engine.State.run_owner_callers ?_ hrun).1 hunleased
    intro a ha
    simp only [List.mem_cons, List.not_mem_nil, or_false] at ha
    exact ⟨w, by rcases ha with rfl | rfl | rfl <;> rfl⟩
  · exact absurd hstep (by simp)

theorem handlers_releasePermit (j : Nat) : (s.releasePermit j).handlers i = s.handlers i := by
  unfold State.releasePermit
  split <;> rfl

/-- Draining is no longer in doubt once the engine is there. -/
theorem Safe.openEngine_done (h : s.Safe) {op : Operation} (hpc : s.handlers i = .openEngine op)
    (ok : Bool) : (s.setHandler i (.unlockEngine op ok)).Safe := by
  refine h.place hpc (by simp) ?_ rfl rfl rfl rfl
  have hme := marks_handler hpc
  rw [view_setHandler]
  refine h.view.learn ?_ ?_ ?_ ?_ ?_ ?_ (Handler.marks_wellFormed _)
  · rw [hme]
    rfl
  · rw [hme]
    rfl
  · rw [hme]
    rfl
  · exact fun htrue => absurd htrue (by simp [Handler.marks])
  · exact fun htrue => absurd htrue (by simp [Handler.marks])
  · exact fun htrue => absurd htrue (by simp [Handler.marks])

/-- Apart from the marks, `begin_draining_if_idle` leaves the server as it is. -/
theorem Safe.drain (h : s.Safe) {d : Drain} {r : Drain ⊕ Bool} {u : State}
    (hdrain : s.drainStep me d = some (u, r)) (hview : t.view.Sound)
    (hnative : t.native = u.native) (hslot : t.slot = u.slot)
    (hconnections : t.connections = u.connections)
    (hunspawned : ∀ j, s.connections ≤ j → t.handlers j = .idle) : t.Safe := by
  obtain ⟨-, -, -, hconn, hslot', hnative'⟩ := drainStep_frame hdrain
  refine ⟨hview, ?_, ?_, ?_⟩
  · rw [hnative]
    rcases hnative' with heq | heq
    · rw [heq]
      exact h.listed
    · rw [heq]
      exact h.listed
  · rw [hslot, hslot', hnative]
    intro hfalse
    have hfresh := h.fresh hfalse
    rcases hnative' with heq | heq
    · rw [heq]
      exact hfresh
    · rw [heq]
      exact ⟨hfresh.started, hfresh.queue, hfresh.callers, hfresh.active, hfresh.pc⟩
  · rw [hconnections, hconn]
    exact hunspawned

theorem handlerStep_safe (h : s.Safe) {turn : Turn} (hstep : s.handlerStep cfg i turn = some t) :
    t.Safe := by
  cases hpc : s.handlers i with
  | idle | done =>
    simp only [handlerStep, hpc] at hstep
    exact absurd hstep (by simp)
  | hello d =>
    simp only [handlerStep, hpc] at hstep
    obtain ⟨⟨u, r⟩, hdrain, rfl⟩ := Option.map_eq_some_iff.mp hstep
    have hsound := drainStep_sound h (marks_handler hpc) hdrain
    obtain ⟨hmarks, -, hhandlers, -⟩ := drainStep_frame hdrain
    have hu : ∀ next : Handler, next.marks = marksAfter r → (u.setHandler i next).Safe := by
      intro next hnext
      refine h.drain hdrain ?_ rfl rfl rfl ?_
      · rw [view_setHandler, hmarks, hnext]
        exact hsound
      · change ∀ j, s.connections ≤ j → Function.update u.handlers i next j = .idle
        rw [hhandlers]
        exact h.unspawned_set hpc (by simp) next
    cases r with
    | inl d' => exact hu (.hello d') rfl
    | inr result => exact hu .done rfl
  | admitting op | holding =>
    simp only [handlerStep, hpc] at hstep
    obtain rfl := Option.some.inj hstep
    exact h.pass hpc (by simp) rfl
  | acquiring op activeExecution =>
    simp only [handlerStep, hpc] at hstep
    obtain rfl := Option.some.inj hstep
    unfold tryAcquire
    dsimp only
    split
    · exact h.pass hpc (by simp) rfl
    · have hnext : (s.setHandler i (.admitted op)).Safe := h.pass hpc (by simp) rfl
      exact hnext.congr rfl rfl rfl rfl rfl
  | admitted op =>
    simp only [handlerStep, hpc] at hstep
    split at hstep
    · obtain rfl := Option.some.inj hstep
      exact (h.cancelContext i).pass hpc (by simp) rfl
    · obtain rfl := Option.some.inj hstep
      exact h.pass hpc (by simp) rfl
  | lockBegin op | lockEngine op =>
    simp only [handlerStep, hpc] at hstep
    split at hstep
    · rename_i hgate
      obtain rfl := Option.some.inj hstep
      exact h.lockGate hpc (by simp) hgate rfl rfl
    · exact absurd hstep (by simp)
  | checkBegin op | checkEngine op =>
    simp only [handlerStep, hpc] at hstep
    obtain rfl := Option.some.inj hstep
    split
    · exact h.pass hpc (by simp) rfl
    · rename_i hdraining
      exact h.enter hpc (by simp) (Bool.eq_false_of_not_eq_true hdraining) rfl rfl ⟨rfl, rfl⟩
  | insertBegin op =>
    simp only [handlerStep, hpc] at hstep
    obtain rfl := Option.some.inj hstep
    refine h.place hpc (by simp) ?_ rfl rfl rfl rfl
    have hregister := h.view.register (marks_handler hpc)
    have hmarks := s.marks_setHandler i (.unlockBegin op true)
    change _ = Function.update s.view.marks (.handler i) ⟨true, true, false, false, false, false⟩
      at hmarks
    rw [← hmarks] at hregister
    exact hregister
  | unlockBegin op ok | unlockEngine op ok =>
    simp only [handlerStep, hpc] at hstep
    obtain rfl := Option.some.inj hstep
    cases ok with
    | true => exact h.unlockGate hpc (by simp) rfl rfl rfl
    | false => exact h.unlockGate hpc (by simp) rfl rfl rfl
  | dropPermit =>
    simp only [handlerStep, hpc] at hstep
    obtain rfl := Option.some.inj hstep
    exact (h.releasePermit i).pass ((handlers_releasePermit i).trans hpc) (by simp) rfl
  | registered op =>
    simp only [handlerStep, hpc] at hstep
    split at hstep
    · obtain rfl := Option.some.inj hstep
      exact h.leave hpc (by simp) rfl .giveUp
    · obtain rfl := Option.some.inj hstep
      exact h.pass hpc (by simp) rfl
  | openEngine op =>
    simp only [handlerStep, hpc] at hstep
    split at hstep
    · obtain rfl := Option.some.inj hstep
      exact h.openEngine_done hpc true
    · rename_i hslot
      split at hstep
      · rename_i u hu
        obtain rfl := Option.some.inj hstep
        obtain ⟨hsafe, hhandlers⟩ := h.initializeEngine hslot hu
        exact hsafe.openEngine_done ((congrFun hhandlers i).trans hpc) true
      · obtain rfl := Option.some.inj hstep
        exact h.openEngine_done hpc false
  | ready op =>
    simp only [handlerStep, hpc] at hstep
    split at hstep
    · exact h.callEngine hpc hstep
    · obtain rfl := Option.some.inj hstep
      exact h.leave hpc (by simp) rfl _
  | submitted =>
    simp only [handlerStep, hpc] at hstep
    split at hstep
    · split at hstep
      · obtain rfl := Option.some.inj hstep
        exact h.leave hpc (by simp) rfl .fail
      · exact absurd hstep (by simp)
    · obtain rfl := Option.some.inj hstep
      exact h.leave hpc (by simp) rfl _
  | ensuring =>
    simp only [handlerStep, hpc] at hstep
    split at hstep
    · obtain rfl := Option.some.inj hstep
      exact h.leave hpc (by simp) rfl .fail
    · exact absurd hstep (by simp)
  | leasing => exact handlerStep_leasing h hpc hstep
  | leased =>
    simp only [handlerStep, hpc] at hstep
    obtain rfl := Option.some.inj hstep
    split
    · exact h.pass hpc (by simp) rfl
    · exact h.pass hpc (by simp) rfl
  | dropRestart thenFinish =>
    simp only [handlerStep, hpc] at hstep
    obtain rfl := Option.some.inj hstep
    refine h.restartIdleWindow.pass hpc (by simp) ?_
    cases thenFinish <;> rfl
  | dropRelease thenFinish | dropSend thenFinish =>
    simp only [handlerStep, hpc] at hstep
    refine h.ask hstep hpc (by simp) ?_ (by simp) ?_
    · cases thenFinish <;> rfl
    · intro hfresh
      exact hfresh.step_none (by simp) (by simp) (by simp) (by simp)
  | finishActive keepsLease =>
    simp only [handlerStep, hpc] at hstep
    obtain rfl := Option.some.inj hstep
    refine h.place hpc (by simp) ?_ rfl rfl rfl rfl
    have hunregister := h.view.unregister (marks_handler hpc)
    have hmarks := s.marks_setHandler i (.finishCancellation keepsLease)
    change _ = Function.update s.view.marks (.handler i) Marks.none at hmarks
    rw [← hmarks] at hunregister
    exact hunregister
  | finishCancellation keepsLease =>
    simp only [handlerStep, hpc] at hstep
    obtain rfl := Option.some.inj hstep
    have hnext : ((s.releasePermit i).setHandler i (.finishRestart keepsLease)).Safe :=
      (h.releasePermit i).pass ((handlers_releasePermit i).trans hpc) (by simp) rfl
    exact hnext.congr rfl rfl rfl rfl rfl
  | finishRestart keepsLease =>
    simp only [handlerStep, hpc] at hstep
    obtain rfl := Option.some.inj hstep
    refine h.restartIdleWindow.pass hpc (by simp) ?_
    cases keepsLease <;> rfl

end Handlers

section Loop

theorem Safe.setLoop (h : s.Safe) {l : AcceptLoop} (hclosed : l.isClosed = s.loop.isClosed)
    (hmarks : l.marks = s.loop.marks) : (s.setLoop l).Safe := by
  refine ⟨?_, h.listed, h.fresh, h.unspawned⟩
  rw [view_setLoop l hclosed]
  exact h.same_marks hmarks.symm

theorem Safe.spawn (h : s.Safe) (task : Task) : (s.spawn task).Safe := by
  have hidle := h.unspawned s.connections (Nat.le_refl _)
  refine ⟨?_, h.listed, h.fresh, ?_⟩
  · have hsame : ∀ next : Handler, next.marks = .none →
        (s.setHandler s.connections next).view.Sound := by
      intro next hnext
      rw [view_setHandler, hnext]
      apply h.same_marks
      exact marks_handler hidle
    cases task with
    | incompatibleHello => exact hsame (.hello .lock) rfl
    | serve op => exact hsame (.admitting op) rfl
  · intro j hj
    have hlt : s.connections < j := hj
    change Function.update s.handlers s.connections _ j = .idle
    rw [Function.update_of_ne (by omega)]
    exact h.unspawned j (by omega)

theorem loopStep_safe (h : s.Safe) {accepted : Accepted}
    (hstep : s.loopStep cfg accepted = some t) : t.Safe := by
  cases hloop : s.loop with
  | top | elapsed stamp =>
    simp only [loopStep, hloop] at hstep
    obtain rfl := Option.some.inj hstep
    split
    · exact h.setLoop (by rw [hloop]; rfl) (by rw [hloop]; rfl)
    · exact h.setLoop (by rw [hloop]; rfl) (by rw [hloop]; rfl)
  | idleTest l =>
    simp only [loopStep, hloop] at hstep
    split at hstep
    · obtain rfl := Option.some.inj hstep
      exact h.setLoop (by rw [hloop]; rfl) (by rw [hloop]; rfl)
    · obtain rfl := Option.some.inj hstep
      exact h.setLoop (by rw [hloop]; rfl) (by rw [hloop]; rfl)
    · obtain rfl := Option.some.inj hstep
      exact h.setLoop (by rw [hloop]; rfl) (by rw [hloop]; rfl)
  | stamp | acceptFailed =>
    simp only [loopStep, hloop] at hstep
    obtain rfl := Option.some.inj hstep
    exact h.setLoop (by rw [hloop]; rfl) (by rw [hloop]; rfl)
  | drain d =>
    simp only [loopStep, hloop] at hstep
    obtain ⟨⟨u, r⟩, hdrain, rfl⟩ := Option.map_eq_some_iff.mp hstep
    have hme : s.view.marks .acceptLoop = d.marks := congrArg AcceptLoop.marks hloop
    have hsound := drainStep_sound h hme hdrain
    obtain ⟨hmarks, huloop, hhandlers, -⟩ := drainStep_frame hdrain
    have hu : ∀ l : AcceptLoop, l.isClosed = false → l.marks = marksAfter r →
        (u.setLoop l).Safe := by
      intro l hclosed hl
      refine h.drain hdrain ?_ rfl rfl rfl ?_
      · rw [view_setLoop l (by rw [hclosed, huloop, hloop]; rfl), hmarks, hl]
        exact hsound
      · change ∀ j, s.connections ≤ j → u.handlers j = .idle
        rw [hhandlers]
        exact h.unspawned
    cases r with
    | inl d' => exact hu (.drain d') rfl rfl
    | inr result =>
      cases result with
      | true => exact hu (.stopped .beganDraining) rfl rfl
      | false => exact hu .accept rfl rfl
  | accept =>
    simp only [loopStep, hloop] at hstep
    split at hstep
    · obtain rfl := Option.some.inj hstep
      exact h.setLoop (by rw [hloop]; rfl) (by rw [hloop]; rfl)
    · rename_i task
      obtain rfl := Option.some.inj hstep
      have hsame : (s.spawn task).loop = .accept := hloop
      exact (h.spawn task).setLoop (by rw [hsame]; rfl) (by rw [hsame]; rfl)
    · obtain rfl := Option.some.inj hstep
      exact h.setLoop (by rw [hloop]; rfl) (by rw [hloop]; rfl)
  | stopped reason =>
    simp only [loopStep, hloop] at hstep
    obtain rfl := Option.some.inj hstep
    refine ⟨?_, h.listed, h.fresh, h.unspawned⟩
    have hclose := h.view.close
    have hmarks := s.marks_setLoop (.closed reason)
    have hsame : s.view.marks .acceptLoop = (AcceptLoop.closed reason).marks := by
      change s.loop.marks = _
      rw [hloop]
      rfl
    rw [← hsame, Function.update_eq_self] at hmarks
    rw [← hmarks] at hclose
    exact hclose
  | closed reason =>
    simp only [loopStep, hloop] at hstep
    exact absurd hstep (by simp)

end Loop

theorem step_safe (cfg : Config) (s : State) (a : Action) (t : State) (h : s.Safe)
    (hstep : step cfg s a = some t) : t.Safe := by
  cases a with
  | loop accepted => exact loopStep_safe h hstep
  | handler i turn => exact handlerStep_safe h hstep
  | cancel i =>
    obtain rfl := Option.some.inj hstep
    unfold State.cancel
    split
    · exact (h.cancelContext i).releasePermit i
    · exact h
  | owner w | nativeTick =>
    simp only [step] at hstep
    split at hstep
    · rename_i hslot
      exact h.engineStep (by simp) (fun hfalse => absurd (hslot.symm.trans hfalse) (by simp)) hstep
    · exact absurd hstep (by simp)
  | tick =>
    obtain rfl := Option.some.inj hstep
    exact h.congr rfl rfl rfl rfl rfl

theorem initial_safe : initial.Safe where
  view := by
    have hnone : ∀ th, initial.view.marks th = .none := by
      intro th
      cases th <;> rfl
    refine ⟨?_, ?_, ?_, ?_, ?_, ?_⟩
    · intro th
      rw [hnone th]
      exact Marks.wellFormed_none false
    · intro th
      rw [hnone th]
      exact View.vouches_of_ungated (Marks.wellFormed_none false) rfl
    · intro i
      rw [hnone]
      simp [view, initial, Marks.none]
    · exact fun hfalse => absurd hfalse (by simp [view, initial])
    · exact fun hfalse => absurd hfalse (by simp [view, initial])
    · exact fun hfalse => absurd hfalse (by simp [view, initial])
  listed := ⟨fun g hg => absurd hg (by simp [initial, Engine.State.initial, Engine.OwnerPc.frames]),
    rfl, Census.none fun _ => by simp [Engine.State.roster, initial, Engine.State.initial,
      Engine.Caller.holds]⟩
  fresh := fun _ => ⟨rfl, fun _ => rfl, fun _ => rfl, rfl, rfl⟩
  unspawned := fun _ _ => rfl

end State

end CodeStory.Server
