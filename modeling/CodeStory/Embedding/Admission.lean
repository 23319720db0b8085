import CodeStory.Lib.Transition
import CodeStory.Engine.RequestClass

/-!
# Front-door admission by request class

The depth counters, the permits and their reference-counted clones. One permit family
is one `ServerRequestAdmissionPermitInner` behind an `Arc`; all its handles are equal,
so a family records only how many of them are alive. Explicit `release`, cancellation
and the drop of any handle go through the same swap of `released`.

`lastGrant`, `decrements` and `saturated` are histories of what the code did. No
operation reads them.
-/

set_option autoImplicit false

namespace CodeStory.Admission

open Transition

structure ServerRequestAdmissionDepths where
  query : Nat
  bulk : Nat
  deriving DecidableEq, Repr

namespace ServerRequestAdmissionDepths

def depth (d : ServerRequestAdmissionDepths) : EmbeddingRequestClass → Nat
  | .query => d.query
  | .bulk => d.bulk

def capacity : EmbeddingRequestClass → Nat
  | .query => embeddingQueryQueueCapacity
  | .bulk => embeddingBulkQueueCapacity

def increment (d : ServerRequestAdmissionDepths) :
    EmbeddingRequestClass → ServerRequestAdmissionDepths
  | .query => { d with query := d.query + 1 }
  | .bulk => { d with bulk := d.bulk + 1 }

/-- Truncated subtraction is the source's `saturating_sub`. -/
def decrement (d : ServerRequestAdmissionDepths) :
    EmbeddingRequestClass → ServerRequestAdmissionDepths
  | .query => { d with query := d.query - 1 }
  | .bulk => { d with bulk := d.bulk - 1 }

@[simp] theorem depth_increment (d : ServerRequestAdmissionDepths)
    (c c' : EmbeddingRequestClass) :
    (d.increment c).depth c' = d.depth c' + if c = c' then 1 else 0 := by
  cases c <;> cases c' <;> rfl

@[simp] theorem depth_decrement (d : ServerRequestAdmissionDepths)
    (c c' : EmbeddingRequestClass) :
    (d.decrement c).depth c' = d.depth c' - if c = c' then 1 else 0 := by
  cases c <;> cases c' <;> rfl

end ServerRequestAdmissionDepths

structure ServerRequestAdmissionPermitInner where
  requestClass : EmbeddingRequestClass
  released : Bool
  handles : Nat
  decrements : Nat
  deriving DecidableEq, Repr

structure ServerRequestAdmission where
  depths : ServerRequestAdmissionDepths
  permits : List ServerRequestAdmissionPermitInner
  lastGrant : List (EmbeddingRequestClass × Bool)
  saturated : Bool
  deriving DecidableEq, Repr

namespace ServerRequestAdmission

def default : ServerRequestAdmission := ⟨⟨0, 0⟩, [], [], false⟩

/-- The permit is named by its position in `permits`; a refusal returns the depths. -/
def tryAcquire (s : ServerRequestAdmission) (requestClass : EmbeddingRequestClass)
    (activeExecution : Bool) :
    ServerRequestAdmission × Except ServerRequestAdmissionDepths Nat :=
  let inFlightCapacity :=
    ServerRequestAdmissionDepths.capacity requestClass + activeExecution.toNat
  if s.depths.depth requestClass ≥ inFlightCapacity then
    (s, .error s.depths)
  else
    ({ s with
        depths := s.depths.increment requestClass
        permits := s.permits ++ [⟨requestClass, false, 1, 0⟩]
        lastGrant := (requestClass, activeExecution) :: s.lastGrant },
      .ok s.permits.length)

/-- `released.swap(true)`, then the decrement when the swap found `false`. -/
def release (s : ServerRequestAdmission) (i : Nat)
    (p : ServerRequestAdmissionPermitInner) : ServerRequestAdmission :=
  if p.released then s
  else
    { s with
      depths := s.depths.decrement p.requestClass
      permits := s.permits.set i
        { p with released := true, decrements := p.decrements + 1 }
      saturated := s.saturated || s.depths.depth p.requestClass == 0 }

/-- Change the number of live handles of a family. -/
def setHandles (s : ServerRequestAdmission) (i n : Nat) : ServerRequestAdmission :=
  { s with permits := s.permits.modify i fun p => { p with handles := n } }

end ServerRequestAdmission

inductive AdmissionOp where
  | tryAcquire (requestClass : EmbeddingRequestClass) (activeExecution : Bool)
  | clone (permit : Nat)
  | release (permit : Nat)
  | drop (permit : Nat)
  deriving DecidableEq, Repr

/-- The family of a handle that is still alive; a dropped handle cannot be used. -/
def livePermit (s : ServerRequestAdmission) (i : Nat) :
    Option ServerRequestAdmissionPermitInner :=
  (s.permits[i]?).filter fun p => p.handles ≠ 0

def admissionStep (s : ServerRequestAdmission) : AdmissionOp → Option ServerRequestAdmission
  | .tryAcquire requestClass activeExecution =>
    some (s.tryAcquire requestClass activeExecution).1
  | .clone i => (livePermit s i).map fun p => s.setHandles i (p.handles + 1)
  | .release i => (livePermit s i).map fun p => s.release i p
  | .drop i => (livePermit s i).map fun p => (s.release i p).setHandles i (p.handles - 1)

/-- Granted permits of a class that have not been released yet. -/
def outstanding (s : ServerRequestAdmission) (c : EmbeddingRequestClass) : Nat :=
  s.permits.countP fun p => p.requestClass == c && !p.released

/-- The active-execution flag of the last grant of a class. -/
def lastGrantOf (s : ServerRequestAdmission) (c : EmbeddingRequestClass) : Option Bool :=
  (s.lastGrant.find? fun g => g.1 == c).map Prod.snd

structure Accounted (s : ServerRequestAdmission) : Prop where
  depth_eq : ∀ c, s.depths.depth c = outstanding s c
  bounded : ∀ c, s.depths.depth c ≤ ServerRequestAdmissionDepths.capacity c + 1
  inactive : ∀ c, lastGrantOf s c = some false →
    s.depths.depth c ≤ ServerRequestAdmissionDepths.capacity c
  once : ∀ p ∈ s.permits, p.decrements = p.released.toNat
  dropped : ∀ p ∈ s.permits, p.handles = 0 → p.released = true
  exact : s.saturated = false

theorem accounted_default : Accounted .default := by
  have hdepth : ∀ c, ServerRequestAdmission.default.depths.depth c = 0 := by
    intro c
    cases c <;> rfl
  refine ⟨fun c => hdepth c, fun c => ?_, fun c _ => ?_, ?_, ?_, rfl⟩
  · rw [hdepth c]
    omega
  · rw [hdepth c]
    omega
  · intro p hp
    exact absurd hp List.not_mem_nil
  · intro p hp
    exact absurd hp List.not_mem_nil

theorem accounted_tryAcquire {s : ServerRequestAdmission} (hs : Accounted s)
    (c : EmbeddingRequestClass) (active : Bool) : Accounted (s.tryAcquire c active).1 := by
  unfold ServerRequestAdmission.tryAcquire
  dsimp only
  split
  · exact hs
  · rename_i hroom
    have hactive : active.toNat ≤ 1 := Bool.toNat_le active
    refine ⟨?_, ?_, ?_, ?_, ?_, hs.exact⟩
    · intro c'
      have := hs.depth_eq c'
      simp only [outstanding, ServerRequestAdmissionDepths.depth_increment,
        List.countP_append, List.countP_singleton] at this ⊢
      by_cases h : c = c' <;> simp [h, this]
    · intro c'
      have := hs.bounded c'
      simp only [ServerRequestAdmissionDepths.depth_increment]
      split
      · subst c'; omega
      · omega
    · intro c' hlast
      have hold := hs.inactive c'
      simp only [lastGrantOf, List.find?_cons] at hlast hold
      simp only [ServerRequestAdmissionDepths.depth_increment]
      by_cases h : c = c'
      · subst c'
        have : active = false := by simpa using hlast
        subst active
        simp only [Bool.toNat_false, if_true] at hroom ⊢
        omega
      · have hne : (c == c') = false := by simpa using h
        rw [hne] at hlast
        simpa [h] using hold hlast
    · intro p hp
      rcases List.mem_append.mp hp with hp | hp
      · exact hs.once p hp
      · obtain rfl := List.mem_singleton.mp hp
        rfl
    · intro p hp
      rcases List.mem_append.mp hp with hp | hp
      · exact hs.dropped p hp
      · obtain rfl := List.mem_singleton.mp hp
        intro h
        exact absurd h Nat.one_ne_zero

/-- Releasing a live permit takes exactly one from its class, and nothing when the
family was released before. -/
theorem accounted_release {s : ServerRequestAdmission} (hs : Accounted s) {i : Nat}
    {p : ServerRequestAdmissionPermitInner} (hp : s.permits[i]? = some p) :
    Accounted (s.release i p) := by
  obtain ⟨hi, hget⟩ := List.getElem?_eq_some_iff.mp hp
  have hmem : p ∈ s.permits := List.mem_of_getElem? hp
  unfold ServerRequestAdmission.release
  split
  · exact hs
  · rename_i hreleased
    have hrel : p.released = false := by simpa using hreleased
    have hpos : 0 < s.depths.depth p.requestClass := by
      rw [hs.depth_eq]
      exact List.countP_pos_iff.mpr ⟨p, hmem, by simp [hrel]⟩
    refine ⟨?_, ?_, ?_, ?_, ?_, ?_⟩
    · intro c
      have := hs.depth_eq c
      simp only [outstanding, ServerRequestAdmissionDepths.depth_decrement,
        List.countP_set hi, hget, hrel] at this ⊢
      rw [this]
      simp
    · intro c
      have := hs.bounded c
      simp only [ServerRequestAdmissionDepths.depth_decrement]
      omega
    · intro c hlast
      have := hs.inactive c hlast
      simp only [ServerRequestAdmissionDepths.depth_decrement]
      omega
    · intro q hq
      rcases List.mem_or_eq_of_mem_set hq with hq | rfl
      · exact hs.once q hq
      · simp [hs.once p hmem, hrel]
    · intro q hq
      rcases List.mem_or_eq_of_mem_set hq with hq | rfl
      · exact hs.dropped q hq
      · intro _
        rfl
    · have hne : (s.depths.depth p.requestClass == 0) = false := by
        simpa using Nat.ne_of_gt hpos
      simp [hs.exact, hne]

theorem getElem?_release (s : ServerRequestAdmission) {i : Nat}
    {p : ServerRequestAdmissionPermitInner} (hp : s.permits[i]? = some p) :
    ∃ q, (s.release i p).permits[i]? = some q ∧ q.released = true := by
  obtain ⟨hi, -⟩ := List.getElem?_eq_some_iff.mp hp
  unfold ServerRequestAdmission.release
  split
  · rename_i hreleased
    exact ⟨p, hp, hreleased⟩
  · exact ⟨{ p with released := true, decrements := p.decrements + 1 }, by simp [hi], rfl⟩

theorem accounted_setHandles {s : ServerRequestAdmission} (hs : Accounted s) {i n : Nat}
    {p : ServerRequestAdmissionPermitInner} (hp : s.permits[i]? = some p)
    (hn : n = 0 → p.released = true) : Accounted (s.setHandles i n) := by
  obtain ⟨hi, hget⟩ := List.getElem?_eq_some_iff.mp hp
  have hmem : p ∈ s.permits := List.mem_of_getElem? hp
  have hset : s.setHandles i n =
      { s with permits := s.permits.set i { p with handles := n } } := by
    simp [ServerRequestAdmission.setHandles, List.modify_eq_set_getElem?, hp]
  rw [hset]
  refine ⟨?_, hs.bounded, hs.inactive, ?_, ?_, hs.exact⟩
  · intro c
    rw [hs.depth_eq c]
    simp only [outstanding, List.countP_set hi, hget]
    split
    · rename_i hcount
      have : 0 < s.permits.countP fun p => p.requestClass == c && !p.released :=
        List.countP_pos_iff.mpr ⟨p, hmem, hcount⟩
      omega
    · omega
  · intro q hq
    rcases List.mem_or_eq_of_mem_set hq with hq | rfl
    · exact hs.once q hq
    · exact hs.once p hmem
  · intro q hq
    rcases List.mem_or_eq_of_mem_set hq with hq | rfl
    · exact hs.dropped q hq
    · exact hn

theorem livePermit_eq_some {s : ServerRequestAdmission} {i : Nat}
    {p : ServerRequestAdmissionPermitInner} (h : livePermit s i = some p) :
    s.permits[i]? = some p ∧ p.handles ≠ 0 := by
  simpa [livePermit, Option.filter_eq_some_iff] using h

theorem accounted_step (s : ServerRequestAdmission) (op : AdmissionOp)
    (t : ServerRequestAdmission) (hs : Accounted s) (h : admissionStep s op = some t) :
    Accounted t := by
  cases op with
  | tryAcquire c active =>
    obtain rfl : (s.tryAcquire c active).1 = t := by simpa [admissionStep] using h
    exact accounted_tryAcquire hs c active
  | clone i =>
    obtain ⟨p, hp, rfl⟩ := Option.map_eq_some_iff.mp h
    exact accounted_setHandles hs (livePermit_eq_some hp).1 (by omega)
  | release i =>
    obtain ⟨p, hp, rfl⟩ := Option.map_eq_some_iff.mp h
    exact accounted_release hs (livePermit_eq_some hp).1
  | drop i =>
    obtain ⟨p, hp, rfl⟩ := Option.map_eq_some_iff.mp h
    have hget := (livePermit_eq_some hp).1
    obtain ⟨q, hq, hrel⟩ := getElem?_release s hget
    exact accounted_setHandles (accounted_release hs hget) hq fun _ => hrel

/-- Admission accounting over every sequence of grants, clones, releases and drops. -/
theorem front_door_accounting {s : ServerRequestAdmission}
    (h : Reach admissionStep ServerRequestAdmission.default s) :
    (∀ c, s.depths.depth c = outstanding s c) ∧
    (∀ c, s.depths.depth c ≤ ServerRequestAdmissionDepths.capacity c + 1) ∧
    (∀ c, lastGrantOf s c = some false →
      s.depths.depth c ≤ ServerRequestAdmissionDepths.capacity c) ∧
    (∀ p ∈ s.permits, p.decrements = p.released.toNat ∧
      (p.handles = 0 → p.decrements = 1)) ∧
    s.saturated = false := by
  have hs := h.invariant accounted_step accounted_default
  refine ⟨hs.depth_eq, hs.bounded, hs.inactive, ?_, hs.exact⟩
  intro p hp
  refine ⟨hs.once p hp, fun hdead => ?_⟩
  rw [hs.once p hp, hs.dropped p hp hdead]
  rfl

/-- One family released twice through two handles beside a live query permit. -/
theorem front_door_accounting_two_families :
    ∃ s, Reach admissionStep ServerRequestAdmission.default s ∧
      s.depths = ⟨1, 0⟩ ∧ outstanding s .query = 1 ∧ s.saturated = false := by
  have hrun : run admissionStep ServerRequestAdmission.default
      [.tryAcquire .bulk true, .clone 0, .tryAcquire .query false, .release 0, .drop 0,
        .drop 0] =
      some ⟨⟨1, 0⟩, [⟨.bulk, true, 0, 1⟩, ⟨.query, false, 1, 0⟩],
        [(.query, false), (.bulk, true)], false⟩ := by decide
  have hreach := reach_of_run hrun
  have haccount := front_door_accounting hreach
  exact ⟨_, hreach, rfl, (haccount.1 .query).symm, haccount.2.2.2.2⟩

end CodeStory.Admission
