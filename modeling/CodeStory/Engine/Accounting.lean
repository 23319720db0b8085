import Mathlib.Data.List.Basic
import CodeStory.Engine.Delivery

/-!
# One winner between cancellation and completion, and the counters

A cell that is committed or cancelled stays so, and vectors are only sent for a committed
one. The three counters agree with the responses as long as three things do not happen: a
cancellation between the owner's last look at the cell and its commit is counted as a
failure although the response says cancelled; a request answered by `fail_wake` is not
counted at all; and a request without inputs is answered by `submit`, which neither counts
it nor commits its cell.
-/

set_option autoImplicit false

namespace CodeStory.Engine

open Transition

namespace Response

def isVectors : Response → Bool
  | .vectors _ => true
  | _ => false

def isCancelled : Response → Bool
  | .cancelled => true
  | _ => false

def isFailed : Response → Bool
  | .failed => true
  | _ => false

/-- How a response is counted: completed, cancelled or failed. -/
def count : Response → Nat × Nat × Nat → Nat × Nat × Nat
  | .vectors _, (done, stopped, lost) => (saturatingSucc done, stopped, lost)
  | .cancelled, (done, stopped, lost) => (done, saturatingSucc stopped, lost)
  | .failed, (done, stopped, lost) => (done, stopped, saturatingSucc lost)

/-- The counters that a list of responses should leave. -/
def tally (l : List Response) : Nat × Nat × Nat :=
  (min (l.countP isVectors) u64Max, min (l.countP isCancelled) u64Max,
    min (l.countP isFailed) u64Max)

theorem saturatingSucc_min (n : Nat) :
    saturatingSucc (min n u64Max) = min (n + 1) u64Max := by
  unfold saturatingSucc
  omega

/-- One more response counts once, wherever it stands. -/
theorem tally_insert (l l' : List Response) (response : Response) :
    tally (l ++ response :: l') = response.count (tally (l ++ l')) := by
  unfold tally
  cases response <;>
    simp [count, saturatingSucc_min, isVectors, isCancelled, isFailed, List.countP_cons,
      Nat.add_assoc]

end Response

open Response (tally tally_insert)

/-- The response that was counted and is about to be sent. -/
def Phase.pending : Phase → List Response
  | .reply response => [response]
  | _ => []

def Phase.committing : Phase → Bool
  | .commit _ => true
  | _ => false

/-- Between a successful activation and the commit. -/
def Phase.begun : Phase → Bool
  | .activate | .refused | .finish _ _ | .reply _ => false
  | _ => true

/-- What is true of a request's cell while its frame is in this phase. -/
def Phase.Agrees : Phase → RequestLifecycle → Prop
  | .activate, _ | .refused, _ => True
  | .test .cancelled, l => l = .cancelled
  | .commit result, l => l = .active ∧ result ≠ .cancelled
  | .finish result cancelled, l =>
    (result = .vectors → l = .committed) ∧ (cancelled = true ↔ result = .cancelled)
  | .reply response, l => response.isVectors = true → l = .committed
  | _, l => l = .active ∨ l = .cancelled

def Frame.cell (f : Frame) : Nat := f.request.context.lifecycle

def OwnerPc.frames : OwnerPc → List Frame
  | .handling f below _ => f :: below
  | _ => []

def OwnerPc.pending : OwnerPc → List Response
  | .handling f _ _ => f.phase.pending
  | .wakeReply _ => [.cancelled]
  | _ => []

theorem counters_dropped {pending : List Response} (dropped : List EmbeddingRequest) :
    ∀ {tracker : AdmissionState} {sent : List Response},
      tracker.counters = tally (sent ++ pending) →
      (dropped.foldl (fun t _ => t.cancelled) tracker).counters =
        tally (sent ++ dropped.map (fun _ => .cancelled) ++ pending) := by
  induction dropped with
  | nil =>
    intro tracker sent h
    simpa using h
  | cons r rest ih =>
    intro tracker sent h
    have hone : tracker.cancelled.counters = tally ((sent ++ [.cancelled]) ++ pending) := by
      rw [List.append_assoc, List.singleton_append, tally_insert, ← h]
      rfl
    have hrest := ih hone
    rw [List.append_assoc sent] at hrest
    exact hrest

/-- The part of the state that the accounting is about. -/
structure Account where
  lifecycle : Nat → RequestLifecycle
  answered : List (EmbeddingRequest × Response)
  direct : List EmbeddingRequest
  counters : Nat × Nat × Nat

namespace Account

/-- The frames are those of the owner, the innermost first; `pending` is what was counted
and not yet sent. -/
structure Agrees (a : Account) (frames : List Frame) (pending : List Response) : Prop where
  phases : ∀ f ∈ frames, f.phase.Agrees (a.lifecycle f.cell)
  apart : frames.Pairwise fun f g => f.phase.begun = true → f.cell ≠ g.cell
  waiting : ∀ g ∈ frames.tail, ∃ tokens offset, g.phase = .recheck tokens offset
  direct : a.direct = []
  committed : ∀ p ∈ a.answered, p.2.isVectors = true →
    a.lifecycle p.1.context.lifecycle = .committed
  counted : a.counters = tally (a.answered.map Prod.snd ++ pending)

namespace Agrees
variable {a : Account} {frames below : List Frame} {pending : List Response} {f : Frame}

/-- The owner takes a request into its hands. -/
theorem take (h : a.Agrees [] []) (r : EmbeddingRequest) (c : EmbeddingRequestClass) :
    a.Agrees [⟨r, c, .activate⟩] [] := by
  refine ⟨?_, List.pairwise_singleton _ _, fun g hg => absurd hg (by simp), h.direct,
    h.committed, h.counted⟩
  intro g hg
  obtain rfl := List.mem_singleton.mp hg
  trivial

/-- The innermost request moves on, to a phase that its cell agrees with. -/
theorem advance (h : a.Agrees (f :: below) pending) {phase : Phase}
    (hagrees : phase.Agrees (a.lifecycle f.cell))
    (hbegun : phase.begun = true → f.phase.begun = true) :
    a.Agrees ({ f with phase := phase } :: below) pending := by
  obtain ⟨hfirst, hrest⟩ := List.pairwise_cons.mp h.apart
  refine ⟨?_, ?_, h.waiting, h.direct, h.committed, h.counted⟩
  · intro g hg
    rcases List.mem_cons.mp hg with rfl | hg
    · exact hagrees
    · exact h.phases g (List.mem_cons_of_mem f hg)
  · apply List.pairwise_cons.mpr
    refine ⟨?_, hrest⟩
    intro g hg hphase
    exact hfirst g hg (hbegun hphase)

/-- The frames below the innermost one hold an active or a cancelled cell. -/
theorem below_cell (h : a.Agrees (f :: below) pending) {g : Frame} (hg : g ∈ below) :
    a.lifecycle g.cell = .active ∨ a.lifecycle g.cell = .cancelled := by
  obtain ⟨tokens, offset, hphase⟩ := h.waiting g hg
  have hagrees := h.phases g (List.mem_cons_of_mem f hg)
  rw [hphase] at hagrees
  exact hagrees

/-- The cell of the innermost request changes. The others keep theirs: either it is another
one, or it does not change where it is active, cancelled or committed. -/
theorem change (h : a.Agrees (f :: below) pending) {l : RequestLifecycle} {phase : Phase}
    (hagrees : phase.Agrees l)
    (hbelow : ∀ g ∈ below, g.cell = f.cell → l = a.lifecycle f.cell)
    (hbegun : phase.begun = true → ∀ g ∈ below, f.cell ≠ g.cell)
    (hcommitted : a.lifecycle f.cell = .committed → l = .committed) :
    ({ a with lifecycle := Function.update a.lifecycle f.cell l } : Account).Agrees
      ({ f with phase := phase } :: below) pending := by
  obtain ⟨hfirst, hrest⟩ := List.pairwise_cons.mp h.apart
  refine ⟨?_, ?_, h.waiting, h.direct, ?_, h.counted⟩
  · intro g hg
    rcases List.mem_cons.mp hg with rfl | hg
    · change phase.Agrees (Function.update a.lifecycle f.cell l f.cell)
      rw [Function.update_self]
      exact hagrees
    · have hg' := h.phases g (List.mem_cons_of_mem f hg)
      dsimp only
      by_cases hcell : g.cell = f.cell
      · rw [hcell, Function.update_self, hbelow g hg hcell, ← hcell]
        exact hg'
      · rw [Function.update_of_ne hcell]
        exact hg'
  · apply List.pairwise_cons.mpr
    exact ⟨fun g hg hphase => hbegun hphase g hg, hrest⟩
  · intro p hp hvectors
    have hp' := h.committed p hp hvectors
    dsimp only
    by_cases hcell : p.1.context.lifecycle = f.cell
    · rw [hcell, Function.update_self]
      rw [hcell] at hp'
      exact hcommitted hp'
    · rw [Function.update_of_ne hcell]
      exact hp'

/-- A successful activation finds no other frame on the same cell. -/
theorem activate (h : a.Agrees (f :: below) pending) :
    ({ a with lifecycle :=
        Function.update a.lifecycle f.cell (a.lifecycle f.cell).activate.1 } : Account).Agrees
      ({ f with phase := if (a.lifecycle f.cell).activate.2 then .enter else .refused } :: below)
      pending := by
  apply h.change
  · cases a.lifecycle f.cell with
    | queued => exact .inl rfl
    | active => trivial
    | committed => trivial
    | cancelled => trivial
  · intro g hg hcell
    have hl := h.below_cell hg
    rw [hcell] at hl
    rcases hl with hl | hl
    · rw [hl]
      rfl
    · rw [hl]
      rfl
  · intro hbegun g hg hcell
    have hl := h.below_cell hg
    rw [← hcell] at hl
    rcases hl with hl | hl
    · rw [hl] at hbegun
      exact absurd hbegun (by simp [RequestLifecycle.activate, Phase.begun])
    · rw [hl] at hbegun
      exact absurd hbegun (by simp [RequestLifecycle.activate, Phase.begun])
  · intro hcommitted
    rw [hcommitted]
    rfl

/-- A commit that nothing has raced with succeeds. -/
theorem commit (h : a.Agrees (f :: below) pending) {result : EmbedResult}
    (hphase : f.phase = .commit result) :
    ({ a with lifecycle :=
        Function.update a.lifecycle f.cell (a.lifecycle f.cell).commit.1 } : Account).Agrees
      ({ f with phase := if (a.lifecycle f.cell).commit.2 then .finish result false
          else .finish .cancelled false } :: below) pending := by
  have hagrees := h.phases f List.mem_cons_self
  rw [hphase] at hagrees
  obtain ⟨hactive, hresult⟩ := hagrees
  have hfirst := (List.pairwise_cons.mp h.apart).1
  apply h.change
  · rw [hactive]
    refine ⟨fun _ => rfl, ?_⟩
    exact ⟨fun hfalse => absurd hfalse (by simp), fun hcancelled => absurd hcancelled hresult⟩
  · intro g hg hcell
    exact absurd hcell.symm (hfirst g hg (by rw [hphase]; rfl))
  · intro hbegun
    rw [hactive] at hbegun
    exact absurd hbegun (by simp [RequestLifecycle.commit, Phase.begun])
  · intro hcommitted
    rw [hactive] at hcommitted
    exact absurd hcommitted (by simp)

/-- Whatever a phase knows of its cell survives a cancellation, except between the last
look at the cell and the commit. -/
theorem agrees_cancel {phase : Phase} {l : RequestLifecycle} (h : phase.Agrees l)
    (hcommitting : phase.committing = false) : phase.Agrees l.cancel.1 := by
  have hopen : l = .active ∨ l = .cancelled → l.cancel.1 = .active ∨ l.cancel.1 = .cancelled := by
    rintro (rfl | rfl)
    · exact .inr rfl
    · exact .inr rfl
  have hcommitted : l = .committed → l.cancel.1 = .committed := by
    rintro rfl
    rfl
  cases phase with
  | activate | refused => trivial
  | commit result => exact absurd hcommitting (by simp [Phase.committing])
  | finish result cancelled => exact ⟨fun hr => hcommitted (h.1 hr), h.2⟩
  | reply response => exact fun hr => hcommitted (h hr)
  | test result =>
    cases result with
    | cancelled =>
      obtain rfl : l = .cancelled := h
      rfl
    | vectors => exact hopen h
    | failed => exact hopen h
  | enter | hold | tokenize | live tokens offset | encode tokens offset | progress tokens offset
  | between tokens offset | recheck tokens offset => exact hopen h

theorem cancel (h : a.Agrees frames pending) {cell : Nat}
    (hcommitting : ∀ f ∈ frames, f.cell = cell → f.phase.committing = false) :
    ({ a with lifecycle :=
        Function.update a.lifecycle cell (a.lifecycle cell).cancel.1 } : Account).Agrees
      frames pending := by
  refine ⟨?_, h.apart, h.waiting, h.direct, ?_, h.counted⟩
  · intro f hf
    have hagrees := h.phases f hf
    dsimp only
    by_cases hcell : f.cell = cell
    · rw [hcell] at hagrees
      rw [hcell, Function.update_self]
      exact agrees_cancel hagrees (hcommitting f hf hcell)
    · rw [Function.update_of_ne hcell]
      exact hagrees
  · intro p hp hvectors
    have hcommitted := h.committed p hp hvectors
    dsimp only
    by_cases hcell : p.1.context.lifecycle = cell
    · rw [hcell] at hcommitted
      rw [hcell, Function.update_self, hcommitted]
      rfl
    · rw [Function.update_of_ne hcell]
      exact hcommitted

/-- A response is counted before it is sent. -/
theorem count (h : a.Agrees frames []) (response : Response) :
    ({ a with counters := response.count a.counters } : Account).Agrees frames [response] := by
  refine ⟨h.phases, h.apart, h.waiting, h.direct, h.committed, ?_⟩
  dsimp only
  rw [tally_insert, h.counted]

theorem answer {response : Response} (h : a.Agrees frames [response]) (r : EmbeddingRequest)
    (hr : response.isVectors = true → a.lifecycle r.context.lifecycle = .committed) :
    ({ a with answered := a.answered ++ [(r, response)] } : Account).Agrees frames [] := by
  refine ⟨h.phases, h.apart, h.waiting, h.direct, ?_, ?_⟩
  · intro p hp hvectors
    rcases List.mem_append.mp hp with hp | hp
    · exact h.committed p hp hvectors
    · obtain rfl := List.mem_singleton.mp hp
      exact hr hvectors
  · dsimp only
    rw [h.counted, List.map_append, List.append_nil]
    rfl

/-- Pruned entries are answered and counted in one locked section. -/
theorem prune {tracker : AdmissionState} (h : a.Agrees frames pending)
    (hcounters : tracker.counters = a.counters) (dropped : List EmbeddingRequest) :
    ({ a with
      answered := a.answered ++ dropped.map fun r => (r, .cancelled)
      counters := (dropped.foldl (fun t _ => t.cancelled) tracker).counters } : Account).Agrees
      frames pending := by
  refine ⟨h.phases, h.apart, h.waiting, h.direct, ?_, ?_⟩
  · intro p hp hvectors
    rcases List.mem_append.mp hp with hp | hp
    · exact h.committed p hp hvectors
    · obtain ⟨r, -, rfl⟩ := List.mem_map.mp hp
      exact absurd hvectors (by simp [Response.isVectors])
  · have hcounted : tracker.counters = tally (a.answered.map Prod.snd ++ pending) :=
      hcounters.trans h.counted
    dsimp only
    rw [List.map_append, List.map_map]
    exact counters_dropped dropped hcounted

/-- Leaving the innermost frame. -/
theorem leave (h : a.Agrees (f :: below) pending) : a.Agrees below pending := by
  refine ⟨fun g hg => h.phases g (List.mem_cons_of_mem f hg),
    (List.pairwise_cons.mp h.apart).2, ?_, h.direct, h.committed, h.counted⟩
  intro g hg
  exact h.waiting g (List.mem_of_mem_tail hg)

/-- A query is taken between two batches of a bulk request, which waits at its recheck. -/
theorem interleave (h : a.Agrees (f :: below) pending)
    (hopen : a.lifecycle f.cell = .active ∨ a.lifecycle f.cell = .cancelled)
    (hbegun : f.phase.begun = true) (q : EmbeddingRequest) (tokens : List Nat) (offset : Nat) :
    a.Agrees (⟨q, .query, .activate⟩ :: { f with phase := .recheck tokens offset } :: below)
      pending := by
  have houter : a.Agrees ({ f with phase := .recheck tokens offset } :: below) pending :=
    h.advance hopen fun _ => hbegun
  refine ⟨?_, ?_, ?_, h.direct, h.committed, h.counted⟩
  · intro g hg
    rcases List.mem_cons.mp hg with rfl | hg
    · trivial
    · exact houter.phases g hg
  · apply List.pairwise_cons.mpr
    exact ⟨fun g _ hphase => absurd hphase (by simp [Phase.begun]), houter.apart⟩
  · intro g hg
    rcases List.mem_cons.mp hg with rfl | hg
    · exact ⟨tokens, offset, rfl⟩
    · exact h.waiting g hg

end Agrees

end Account

/-- A request is waiting for the load that it caused. -/
def OwnerPc.loadsForRequest : OwnerPc → Bool
  | .loading (.request _ _) => true
  | _ => false

namespace State
variable {s t : State} {cfg : EngineConfig} {w : World}

def account (s : State) : Account := ⟨s.lifecycle, s.answered, s.direct, s.tracker.counters⟩

def Accounted (s : State) : Prop := s.account.Agrees s.pc.frames s.pc.pending

/-- The steps that keep responses and counters together: requests have inputs, nobody
cancels between the last look at a cell and its commit, and a load that a request waits
for succeeds. -/
def orderly (s : State) : Action → Bool
  | .submit _ _ inputs _ => !inputs.isEmpty
  | .cancel cell => s.pc.frames.all fun f => f.cell != cell || !f.phase.committing
  | .owner w => w.loaded || !s.pc.loadsForRequest
  | _ => true

section Queues
variable {frames : List Frame} {pending : List Response}
variable (c : EmbeddingRequestClass) (late : List Nat)

theorem agrees_prune (h : s.account.Agrees frames pending) :
    (s.pruneCancelled c late).account.Agrees frames pending :=
  h.prune rfl _

theorem agrees_submit (h : s.account.Agrees frames pending) (context : RequestContext)
    {inputs : List String} (hinputs : inputs ≠ []) :
    (s.submit c context inputs late).account.Agrees frames pending := by
  unfold submit tryPush
  dsimp only
  rw [if_neg hinputs]
  split
  · exact agrees_prune c late h
  · exact agrees_prune c late h

theorem agrees_tryPop (h : s.account.Agrees frames pending) :
    (s.tryPop c late).1.account.Agrees frames pending := by
  unfold tryPop
  dsimp only
  split
  · exact agrees_prune c late h
  · exact agrees_prune c late h

end Queues

section Owner

theorem account_confirmResident (caller : Nat) (result : Option Nat) :
    (s.confirmResident caller result).account = s.account := by
  unfold confirmResident
  split <;> rfl

theorem account_grantResidencyLease (caller : Nat) :
    (s.grantResidencyLease caller).account = s.account := by
  unfold grantResidencyLease
  split <;> rfl

theorem account_refuseLease (caller : Nat) : (s.refuseLease caller).account = s.account := by
  unfold refuseLease
  split <;> rfl

/-- Outside its request handling the owner has nothing in hand and nothing to send. -/
theorem accounted_goto {pc : OwnerPc} (h : s.account.Agrees [] []) (ht : t.account = s.account)
    (hframes : pc.frames = []) (hpending : pc.pending = []) : (t.goto pc).Accounted := by
  unfold Accounted
  change t.account.Agrees pc.frames pc.pending
  rw [ht, hframes, hpending]
  exact h

theorem handleResidentControl_accounted (h : s.account.Agrees [] []) (message : Control)
    (next : OwnerPc) (hframes : next.frames = []) (hpending : next.pending = []) :
    (s.handleResidentControl message next).Accounted := by
  cases message with
  | shutdown => exact accounted_goto h rfl rfl rfl
  | ensureResident caller =>
    exact accounted_goto h (account_confirmResident caller _) hframes hpending
  | acquireLease caller =>
    exact accounted_goto h (account_grantResidencyLease caller) hframes hpending
  | releaseLease => exact accounted_goto h rfl hframes hpending

theorem failWake_accounted {wake : WakeReason} (h : s.account.Agrees [] [])
    (hwake : ∀ c r, wake ≠ .request c r) : (s.failWake wake).Accounted := by
  cases wake with
  | startup => exact accounted_goto h rfl rfl rfl
  | request c r => exact absurd rfl (hwake c r)
  | ensureResident caller => exact accounted_goto h (account_confirmResident caller _) rfl rfl
  | acquireLease caller => exact accounted_goto h (account_refuseLease caller) rfl rfl

theorem serveWake_accounted {wake : WakeReason} (h : s.account.Agrees [] []) :
    (s.serveWake wake).Accounted := by
  cases wake with
  | startup => exact accounted_goto h rfl rfl rfl
  | request c r => exact h.take r c
  | ensureResident caller => exact accounted_goto h (account_confirmResident caller _) rfl rfl
  | acquireLease caller => exact accounted_goto h (account_grantResidencyLease caller) rfl rfl

theorem schedulerPop_accounted {c : EmbeddingRequestClass} {second : Bool} (late : List Nat)
    (h : s.account.Agrees [] []) : (s.schedulerPop c second late).Accounted := by
  have hpop := agrees_tryPop c late h
  unfold schedulerPop
  split
  · rename_i r hresult
    rw [hresult] at hpop
    exact hpop.take r c
  · rename_i hresult
    rw [hresult] at hpop
    split
    · exact hpop
    · exact hpop

theorem leaveFrame_accounted (c : EmbeddingRequestClass) {below : List Frame} (woken : Bool)
    (hbelow : ∀ g ∈ below, g.phase.pending = [])
    (h : s.account.Agrees below []) : (s.leaveFrame c below woken).Accounted := by
  cases below with
  | nil => exact h
  | cons outer rest =>
    have hpending := hbelow outer List.mem_cons_self
    unfold Accounted
    change s.account.Agrees (outer :: rest) outer.phase.pending
    rw [hpending]
    exact h

/-- What `finish` counts is what the reply says, when it was called with the flag that
belongs to the result. -/
theorem counters_finish_respond {tracker : AdmissionState} (id : String)
    (c : EmbeddingRequestClass) {result : EmbedResult} {cancelled : Bool} (n : Nat)
    (hcancelled : cancelled = true ↔ result = .cancelled) :
    (tracker.finish id c (result = .vectors) cancelled).1.counters =
      (result.respond n).count tracker.counters := by
  rw [AdmissionState.counters_finish]
  cases result with
  | vectors | failed =>
    obtain rfl : cancelled = false := by simpa using hcancelled
    rfl
  | cancelled =>
    obtain rfl : cancelled = true := hcancelled.mpr rfl
    rfl

/-- A phase that only asks for an active or a cancelled cell. -/
theorem toPhase_accounted {f : Frame} {below : List Frame} {woken : Bool} {phase : Phase}
    (h : s.account.Agrees (f :: below) []) (ht : t.account = s.account)
    (hagrees : phase.Agrees (s.lifecycle f.cell))
    (hbegun : phase.begun = true → f.phase.begun = true) (hpending : phase.pending = []) :
    (t.toPhase f below woken phase).Accounted := by
  unfold Accounted
  change t.account.Agrees ({ f with phase := phase } :: below) phase.pending
  rw [ht, hpending]
  exact h.advance hagrees hbegun

theorem tokenizePhase_agrees (inputs : List String) (tokenCount : String → Option Nat)
    {l : RequestLifecycle} (h : l = .active ∨ l = .cancelled) :
    (tokenizePhase inputs tokenCount).Agrees l ∧
      (tokenizePhase inputs tokenCount).pending = [] := by
  unfold tokenizePhase
  split
  · exact ⟨h, rfl⟩
  · split
    · exact ⟨h, rfl⟩
    · split
      · exact ⟨h, rfl⟩
      · exact ⟨h, rfl⟩

/-- A cancelled cell is seen by the next look at it. -/
theorem lifecycle_of_isCancelled {r : EmbeddingRequest} (h : s.isCancelled r = true) :
    s.lifecycle r.context.lifecycle = .cancelled := by
  unfold isCancelled RequestLifecycle.isCancelled at h
  exact of_decide_eq_true h

theorem lifecycle_of_not_isCancelled {r : EmbeddingRequest} (h : ¬ s.isCancelled r = true)
    (hopen : s.lifecycle r.context.lifecycle = .active ∨
      s.lifecycle r.context.lifecycle = .cancelled) :
    s.lifecycle r.context.lifecycle = .active := by
  rcases hopen with hl | hl
  · exact hl
  · exact absurd (decide_eq_true hl) h

/-- The two results of `embed_inputs` that are tested against an open cell. -/
theorem test_accounted {r : EmbeddingRequest} {c : EmbeddingRequestClass} {result : EmbedResult}
    {below : List Frame} {woken : Bool}
    (h : s.account.Agrees (⟨r, c, .test result⟩ :: below) []) :
    (s.toPhase ⟨r, c, .test result⟩ below woken
      (if s.isCancelled r then .finish .cancelled true else .commit result)).Accounted := by
  have hagrees := h.phases _ List.mem_cons_self
  split
  · exact toPhase_accounted h rfl ⟨fun hr => absurd hr (by simp), by simp⟩
      (fun hbegun => absurd hbegun (by simp [Phase.begun])) rfl
  · rename_i hcancelled
    cases result with
    | cancelled =>
      have hl : s.lifecycle r.context.lifecycle = .cancelled := hagrees
      exact absurd (decide_eq_true hl) hcancelled
    | vectors | failed =>
      have hactive := lifecycle_of_not_isCancelled hcancelled hagrees
      exact toPhase_accounted h rfl ⟨hactive, by simp⟩ (fun _ => rfl) rfl

theorem handleStep_accounted {f : Frame} {below : List Frame} {woken : Bool}
    (hpc : s.pc = .handling f below woken) (h : s.Accounted) :
    (s.handleStep cfg w f below woken).Accounted := by
  have hs : s.account.Agrees (f :: below) f.phase.pending := by
    unfold Accounted at h
    rw [hpc] at h
    exact h
  have hagrees := hs.phases f List.mem_cons_self
  obtain ⟨r, c, phase⟩ := f
  cases phase with
  | activate =>
    have hnext := hs.activate
    have hpending : (if (s.lifecycle r.context.lifecycle).activate.2 then Phase.enter
        else .refused).pending = [] := by split <;> rfl
    unfold Accounted handleStep toPhase goto OwnerPc.frames OwnerPc.pending
    dsimp only
    rw [hpending]
    exact hnext
  | refused =>
    have hmove : s.account.Agrees (⟨r, c, .reply .cancelled⟩ :: below) [] :=
      hs.advance (fun hvectors => absurd hvectors (by simp [Response.isVectors]))
        fun hbegun => absurd hbegun (by simp [Phase.begun])
    exact hmove.count .cancelled
  | enter =>
    refine toPhase_accounted hs ?_ hagrees (fun _ => rfl) rfl
    simp [account, withTracker]
  | hold =>
    unfold handleStep
    dsimp only
    split
    · split
      · exact toPhase_accounted hs rfl ⟨fun hr => absurd hr (by simp), by simp⟩
          (fun hbegun => absurd hbegun (by simp [Phase.begun])) rfl
      · exact h
    · exact toPhase_accounted hs rfl hagrees (fun _ => rfl) rfl
  | tokenize =>
    obtain ⟨hnext, hpending⟩ := tokenizePhase_agrees r.inputs w.tokenCount hagrees
    exact toPhase_accounted hs rfl hnext (fun _ => rfl) hpending
  | live tokens offset =>
    unfold handleStep
    dsimp only
    split
    · split
      · rename_i hcancelled
        exact toPhase_accounted hs rfl (lifecycle_of_isCancelled hcancelled) (fun _ => rfl) rfl
      · exact toPhase_accounted hs rfl hagrees (fun _ => rfl) rfl
    · exact toPhase_accounted hs rfl hagrees (fun _ => rfl) rfl
  | encode tokens offset =>
    unfold handleStep
    dsimp only
    split
    · exact toPhase_accounted hs rfl hagrees (fun _ => rfl) rfl
    · exact toPhase_accounted hs rfl hagrees (fun _ => rfl) rfl
  | progress tokens offset =>
    have hcounters : (s.withTracker (s.tracker.progress c)).account = s.account := by
      simp [account, withTracker]
    unfold handleStep
    dsimp only
    split
    · exact toPhase_accounted hs hcounters hagrees (fun _ => rfl) rfl
    · exact toPhase_accounted hs hcounters hagrees (fun _ => rfl) rfl
  | between tokens offset =>
    have hpop := agrees_tryPop .query w.late hs
    unfold handleStep
    dsimp only
    split
    · rename_i hresult
      rw [hresult] at hpop
      exact hpop.interleave (hpop.phases _ List.mem_cons_self) rfl _ tokens offset
    · rename_i hresult
      rw [hresult] at hpop
      exact toPhase_accounted hpop rfl (hpop.phases _ List.mem_cons_self) (fun _ => rfl) rfl
  | recheck tokens offset =>
    unfold handleStep
    dsimp only
    split
    · rename_i hcancelled
      exact toPhase_accounted hs rfl (lifecycle_of_isCancelled hcancelled) (fun _ => rfl) rfl
    · exact toPhase_accounted hs rfl hagrees (fun _ => rfl) rfl
  | test result => exact test_accounted hs
  | commit result =>
    have hnext := hs.commit rfl
    have hpending : (if (s.lifecycle r.context.lifecycle).commit.2 then
        Phase.finish result false else .finish .cancelled false).pending = [] := by split <;> rfl
    unfold Accounted handleStep toPhase goto OwnerPc.frames OwnerPc.pending
    dsimp only
    rw [hpending]
    exact hnext
  | finish result cancelled =>
    obtain ⟨hcommitted, hcancelled⟩ := hagrees
    generalize hn : (s.tracker.finish r.context.requestId c (result = .vectors) cancelled).2 = n
    have hmove : s.account.Agrees (⟨r, c, .reply (result.respond n)⟩ :: below) [] := by
      refine hs.advance ?_ fun hbegun => absurd hbegun (by simp [Phase.begun])
      intro hvectors
      cases result with
      | vectors => exact hcommitted rfl
      | cancelled | failed =>
        exact absurd hvectors (by simp [EmbedResult.respond, Response.isVectors])
    have hnext := hmove.count (result.respond n)
    unfold Accounted handleStep toPhase goto withTracker account
    dsimp only
    rw [hn, counters_finish_respond _ _ n hcancelled]
    exact hnext
  | reply response =>
    have hanswered := hs.answer r hagrees
    refine leaveFrame_accounted c woken ?_ hanswered.leave
    intro g hg
    obtain ⟨tokens, offset, hphase⟩ := hs.waiting g hg
    rw [hphase]
    rfl

theorem residentSelect_accounted {deadline : Nat} (h : s.account.Agrees [] [])
    (hstep : s.residentSelect deadline = some t) : t.Accounted := by
  unfold residentSelect at hstep
  split at hstep
  · rename_i message rest _
    obtain rfl := Option.some.inj hstep
    exact handleResidentControl_accounted (s := s.withControl rest) h message .top rfl rfl
  · split at hstep
    · obtain rfl := Option.some.inj hstep
      exact accounted_goto h rfl rfl rfl
    · split at hstep
      · obtain rfl := Option.some.inj hstep
        exact accounted_goto h rfl rfl rfl
      · split at hstep
        · obtain rfl := Option.some.inj hstep
          split
          · exact accounted_goto h rfl rfl rfl
          · exact accounted_goto h rfl rfl rfl
        · exact absurd hstep (by simp)

theorem waitForWake_accounted (hpc : s.pc = .asleep) (h : s.account.Agrees [] [])
    (hstep : s.waitForWake = some t) : t.Accounted := by
  unfold waitForWake at hstep
  split at hstep
  · obtain rfl := Option.some.inj hstep
    exact accounted_goto h rfl rfl rfl
  · obtain rfl := Option.some.inj hstep
    exact accounted_goto h rfl rfl rfl
  · obtain rfl := Option.some.inj hstep
    exact accounted_goto h rfl rfl rfl
  · obtain rfl := Option.some.inj hstep
    unfold Accounted
    change s.account.Agrees s.pc.frames s.pc.pending
    rw [hpc]
    exact h
  · split at hstep
    · obtain rfl := Option.some.inj hstep
      exact accounted_goto h rfl rfl rfl
    · split at hstep
      · obtain rfl := Option.some.inj hstep
        exact accounted_goto h rfl rfl rfl
      · exact absurd hstep (by simp)

theorem loading_accounted {wake : WakeReason} (hpc : s.pc = .loading wake)
    (h : s.account.Agrees [] []) (horderly : s.orderly (.owner w) = true)
    (hloaded : ¬ w.loaded = true) : (s.noteLoadFailure.failWake wake).Accounted := by
  have hnote : s.noteLoadFailure.account = s.account := by
    unfold noteLoadFailure
    split <;> rfl
  apply failWake_accounted
  · rw [hnote]
    exact h
  · rintro c r rfl
    unfold orderly at horderly
    rw [hpc] at horderly
    simp [hloaded, OwnerPc.loadsForRequest] at horderly

theorem ownerStep_accounted (horderly : s.orderly (.owner w) = true) (h : s.Accounted)
    (hstep : s.ownerStep cfg w = some t) : t.Accounted := by
  have hs := h
  unfold Accounted at hs
  unfold ownerStep at hstep
  cases hpc : s.pc with
  | loading wake =>
    rw [hpc] at hstep hs
    obtain rfl := Option.some.inj hstep
    split
    · exact hs
    · rename_i hloaded
      exact loading_accounted hpc hs horderly hloaded
  | entry wake =>
    rw [hpc] at hs
    simp only [hpc] at hstep
    split at hstep
    · rename_i message rest _
      obtain rfl := Option.some.inj hstep
      exact handleResidentControl_accounted (s := s.withControl rest) hs message (.waking wake)
        rfl rfl
    · obtain rfl := Option.some.inj hstep
      exact accounted_goto hs rfl rfl rfl
  | waking wake =>
    rw [hpc] at hstep hs
    obtain rfl := Option.some.inj hstep
    exact serveWake_accounted hs
  | top =>
    rw [hpc] at hs
    simp only [hpc] at hstep
    split at hstep
    · rename_i message rest _
      obtain rfl := Option.some.inj hstep
      exact handleResidentControl_accounted (s := s.withControl rest) hs message .top rfl rfl
    · obtain rfl := Option.some.inj hstep
      exact accounted_goto hs rfl rfl rfl
  | popping c second =>
    rw [hpc] at hstep hs
    obtain rfl := Option.some.inj hstep
    exact schedulerPop_accounted w.late hs
  | selecting deadline =>
    rw [hpc] at hstep hs
    exact residentSelect_accounted hs hstep
  | handling f below woken =>
    rw [hpc] at hstep
    obtain rfl := Option.some.inj hstep
    exact handleStep_accounted hpc h
  | asleep =>
    rw [hpc] at hstep hs
    exact waitForWake_accounted hpc hs hstep
  | wakePop c =>
    rw [hpc] at hs
    have hpop := agrees_tryPop c w.late hs
    simp only [hpc] at hstep
    split at hstep
    · rename_i hresult
      obtain rfl := Option.some.inj hstep
      rw [hresult] at hpop
      exact accounted_goto hpop rfl rfl rfl
    · rename_i hresult
      obtain rfl := Option.some.inj hstep
      rw [hresult] at hpop
      exact accounted_goto hpop rfl rfl rfl
  | wakeCheck c r =>
    rw [hpc] at hs
    simp only [hpc] at hstep
    split at hstep
    · obtain rfl := Option.some.inj hstep
      exact Account.Agrees.count hs .cancelled
    · obtain rfl := Option.some.inj hstep
      exact accounted_goto hs rfl rfl rfl
  | wakeReply r =>
    rw [hpc] at hstep hs
    obtain rfl := Option.some.inj hstep
    exact Account.Agrees.answer hs r fun hvectors => absurd hvectors (by simp [Response.isVectors])
  | stopped =>
    rw [hpc] at hstep
    exact absurd hstep (by simp)

end Owner

theorem callerStep_account {a : Action} (hstep : s.callerStep a = some t) :
    t.account = s.account := by
  unfold callerStep at hstep
  split at hstep
  all_goals
    first
    | split at hstep
      · obtain rfl := Option.some.inj hstep
        rfl
      · exact absurd hstep (by simp)
    | exact absurd hstep (by simp)

theorem step_accounted (cfg : EngineConfig) (s : State) (a : Action) (t : State)
    (h : s.Accounted) (horderly : s.orderly a = true) (hstep : step cfg s a = some t) :
    t.Accounted := by
  unfold step at hstep
  split at hstep
  · rename_i c context inputs late
    split at hstep
    · obtain rfl := Option.some.inj hstep
      have hinputs : inputs ≠ [] := by
        rintro rfl
        exact absurd horderly (by simp [orderly])
      unfold Accounted
      rw [pc_submit]
      exact agrees_submit c late h context hinputs
    · exact absurd hstep (by simp)
  · rename_i cell
    obtain rfl := Option.some.inj hstep
    apply Account.Agrees.cancel h
    intro f hf hcell
    have hf' := List.all_eq_true.mp horderly f hf
    simpa [hcell] using hf'
  · split at hstep
    · obtain rfl := Option.some.inj hstep
      exact h
    · exact absurd hstep (by simp)
  · obtain rfl := Option.some.inj hstep
    exact h
  · obtain rfl := Option.some.inj hstep
    exact h
  · exact ownerStep_accounted horderly h hstep
  · obtain ⟨-, hpc⟩ := callerStep_frame hstep
    unfold Accounted
    rw [callerStep_account hstep, hpc]
    exact h

theorem initial_accounted : initial.Accounted where
  phases := fun f hf => absurd hf (by simp [initial, OwnerPc.frames])
  apart := List.Pairwise.nil
  waiting := fun g hg => absurd hg (by simp [initial, OwnerPc.frames])
  direct := rfl
  committed := fun p hp => absurd hp (by simp [account, initial])
  counted := rfl

/-- A step leaves committed and cancelled cells as they are. -/
def Keeps (s t : State) : Prop :=
  ∀ cell, (s.lifecycle cell).Final → t.lifecycle cell = s.lifecycle cell

section Lifecycle

theorem keeps_of_eq (h : t.lifecycle = s.lifecycle) : s.Keeps t := fun cell _ =>
  congrFun h cell

theorem keeps_update {cell : Nat} {l : RequestLifecycle}
    (h : (s.lifecycle cell).Final → l = s.lifecycle cell)
    (ht : t.lifecycle = Function.update s.lifecycle cell l) : s.Keeps t := by
  intro cell' hfinal
  rw [ht]
  by_cases hcell : cell' = cell
  · subst hcell
    rw [Function.update_self]
    exact h hfinal
  · rw [Function.update_of_ne hcell]

theorem lifecycle_submit (c : EmbeddingRequestClass) (context : RequestContext)
    (inputs : List String) (late : List Nat) :
    (s.submit c context inputs late).lifecycle = s.lifecycle := by
  unfold submit tryPush
  dsimp only
  split
  · rfl
  · split <;> rfl

theorem lifecycle_tryPop (c : EmbeddingRequestClass) (late : List Nat) :
    (s.tryPop c late).1.lifecycle = s.lifecycle := by
  unfold tryPop
  dsimp only
  split <;> rfl

theorem lifecycle_handleResidentControl (message : Control) (next : OwnerPc) :
    (s.handleResidentControl message next).lifecycle = s.lifecycle := by
  cases message with
  | shutdown => rfl
  | ensureResident caller =>
    exact congrArg Account.lifecycle (account_confirmResident (s := s.completeActivity) caller _)
  | acquireLease caller => exact congrArg Account.lifecycle (account_grantResidencyLease caller)
  | releaseLease => rfl

theorem lifecycle_failWake (wake : WakeReason) :
    (s.noteLoadFailure.failWake wake).lifecycle = s.lifecycle := by
  have hnote : s.noteLoadFailure.lifecycle = s.lifecycle := by
    unfold noteLoadFailure
    split <;> rfl
  rw [← hnote]
  cases wake with
  | startup => rfl
  | request c r => rfl
  | ensureResident caller =>
    exact congrArg Account.lifecycle (account_confirmResident caller none)
  | acquireLease caller => exact congrArg Account.lifecycle (account_refuseLease caller)

theorem lifecycle_serveWake (wake : WakeReason) :
    (s.serveWake wake).lifecycle = s.lifecycle := by
  cases wake with
  | startup => rfl
  | request c r => rfl
  | ensureResident caller =>
    exact congrArg Account.lifecycle (account_confirmResident (s := s.completeActivity) caller _)
  | acquireLease caller => exact congrArg Account.lifecycle (account_grantResidencyLease caller)

theorem lifecycle_leaveFrame (c : EmbeddingRequestClass) (below : List Frame) (woken : Bool) :
    (s.leaveFrame c below woken).lifecycle = s.lifecycle := by
  cases below <;> rfl

theorem handleStep_keeps (f : Frame) (below : List Frame) (woken : Bool) :
    s.Keeps (s.handleStep cfg w f below woken) := by
  obtain ⟨r, c, phase⟩ := f
  cases phase with
  | activate =>
    exact keeps_update (fun hfinal => congrArg Prod.fst hfinal.activate) rfl
  | commit result =>
    exact keeps_update (fun hfinal => congrArg Prod.fst hfinal.commit) rfl
  | hold =>
    apply keeps_of_eq
    unfold handleStep
    dsimp only
    split
    · split <;> rfl
    · rfl
  | between tokens offset =>
    apply keeps_of_eq
    have hpop := s.lifecycle_tryPop .query w.late
    unfold handleStep
    dsimp only
    split
    · rename_i hresult
      rw [hresult] at hpop
      exact hpop
    · rename_i hresult
      rw [hresult] at hpop
      exact hpop
  | reply response => exact keeps_of_eq (lifecycle_leaveFrame c below woken)
  | refused | enter | tokenize | live tokens offset | encode tokens offset
  | progress tokens offset | recheck tokens offset | test result | finish result cancelled =>
    exact keeps_of_eq rfl

theorem residentSelect_lifecycle {deadline : Nat}
    (hstep : s.residentSelect deadline = some t) : t.lifecycle = s.lifecycle := by
  unfold residentSelect at hstep
  split at hstep
  · obtain rfl := Option.some.inj hstep
    exact lifecycle_handleResidentControl _ _
  · split at hstep
    · obtain rfl := Option.some.inj hstep
      rfl
    · split at hstep
      · obtain rfl := Option.some.inj hstep
        rfl
      · split at hstep
        · obtain rfl := Option.some.inj hstep
          split <;> rfl
        · exact absurd hstep (by simp)

theorem waitForWake_lifecycle (hstep : s.waitForWake = some t) : t.lifecycle = s.lifecycle := by
  unfold waitForWake at hstep
  split at hstep
  · obtain rfl := Option.some.inj hstep
    rfl
  · obtain rfl := Option.some.inj hstep
    rfl
  · obtain rfl := Option.some.inj hstep
    rfl
  · obtain rfl := Option.some.inj hstep
    rfl
  · split at hstep
    · obtain rfl := Option.some.inj hstep
      rfl
    · split at hstep
      · obtain rfl := Option.some.inj hstep
        rfl
      · exact absurd hstep (by simp)

theorem schedulerPop_lifecycle (c : EmbeddingRequestClass) (second : Bool) (late : List Nat) :
    (s.schedulerPop c second late).lifecycle = s.lifecycle := by
  have hpop := s.lifecycle_tryPop c late
  unfold schedulerPop
  split
  · rename_i hresult
    rw [hresult] at hpop
    exact hpop
  · rename_i hresult
    rw [hresult] at hpop
    split
    · exact hpop
    · exact hpop

theorem ownerStep_keeps (hstep : s.ownerStep cfg w = some t) : s.Keeps t := by
  unfold ownerStep at hstep
  split at hstep
  · obtain rfl := Option.some.inj hstep
    apply keeps_of_eq
    split
    · rfl
    · exact lifecycle_failWake _
  · split at hstep
    · obtain rfl := Option.some.inj hstep
      exact keeps_of_eq (lifecycle_handleResidentControl _ _)
    · obtain rfl := Option.some.inj hstep
      exact keeps_of_eq rfl
  · obtain rfl := Option.some.inj hstep
    exact keeps_of_eq (lifecycle_serveWake _)
  · split at hstep
    · obtain rfl := Option.some.inj hstep
      exact keeps_of_eq (lifecycle_handleResidentControl _ _)
    · obtain rfl := Option.some.inj hstep
      exact keeps_of_eq rfl
  · obtain rfl := Option.some.inj hstep
    exact keeps_of_eq (schedulerPop_lifecycle _ _ _)
  · exact keeps_of_eq (residentSelect_lifecycle hstep)
  · obtain rfl := Option.some.inj hstep
    exact handleStep_keeps _ _ _
  · exact keeps_of_eq (waitForWake_lifecycle hstep)
  · rename_i c _
    have hpop := s.lifecycle_tryPop c w.late
    split at hstep
    · rename_i hresult
      obtain rfl := Option.some.inj hstep
      rw [hresult] at hpop
      exact keeps_of_eq hpop
    · rename_i hresult
      obtain rfl := Option.some.inj hstep
      rw [hresult] at hpop
      exact keeps_of_eq hpop
  · split at hstep
    · obtain rfl := Option.some.inj hstep
      exact keeps_of_eq rfl
    · obtain rfl := Option.some.inj hstep
      exact keeps_of_eq rfl
  · obtain rfl := Option.some.inj hstep
    exact keeps_of_eq rfl
  · exact absurd hstep (by simp)

theorem step_keeps (cfg : EngineConfig) (s : State) (a : Action) (t : State)
    (hstep : step cfg s a = some t) : s.Keeps t := by
  unfold step at hstep
  split at hstep
  · split at hstep
    · obtain rfl := Option.some.inj hstep
      exact keeps_of_eq (lifecycle_submit _ _ _ _)
    · exact absurd hstep (by simp)
  · obtain rfl := Option.some.inj hstep
    exact keeps_update (fun hfinal => congrArg Prod.fst hfinal.cancel) rfl
  · split at hstep
    · obtain rfl := Option.some.inj hstep
      exact keeps_of_eq rfl
    · exact absurd hstep (by simp)
  · obtain rfl := Option.some.inj hstep
    exact keeps_of_eq rfl
  · obtain rfl := Option.some.inj hstep
    exact keeps_of_eq rfl
  · exact ownerStep_keeps hstep
  · exact keeps_of_eq (congrArg Account.lifecycle (callerStep_account hstep))

theorem reach_keeps (hreach : Reach (step cfg) s t) : s.Keeps t := by
  refine hreach.relation (fun s cell _ => rfl) ?_ (step_keeps cfg)
  intro s t u hst htu cell hfinal
  have hcell := hst cell hfinal
  rw [← hcell] at hfinal ⊢
  exact htu cell hfinal

end Lifecycle

/-- Every response that has been sent, also those of `submit` itself. -/
def responses (s : State) : List (EmbeddingRequest × Response) :=
  s.answered ++ s.direct.map fun r => (r, .vectors 0)

/-- The responses that are decided: sent, or counted and about to be sent. -/
def decided (s : State) : List Response := s.responses.map Prod.snd ++ s.pc.pending

/-- What `cancel` on this cell would return. -/
def cancelReturns (s : State) (cell : Nat) : Bool := (s.lifecycle cell).cancel.2

/-- The run takes orderly steps only. -/
def OrderlyReach (cfg : EngineConfig) : State → State → Prop :=
  Reach (guarded (fun s a => s.orderly a = true) (step cfg))

theorem OrderlyReach.accounted (hreach : OrderlyReach cfg s t) (h : s.Accounted) :
    t.Accounted := by
  refine Reach.invariant ?_ hreach h
  intro s a t hs hstep
  obtain ⟨horderly, hstep⟩ := guarded_eq_some.mp hstep
  exact step_accounted cfg s a t hs horderly hstep

theorem Accounted.responses_eq (h : s.Accounted) : s.responses = s.answered := by
  have hdirect : s.direct = [] := h.direct
  unfold responses
  rw [hdirect]
  exact List.append_nil _

/-- Vectors are sent for committed cells only. -/
theorem Accounted.committed_of_vectors (h : s.Accounted) {p : EmbeddingRequest × Response}
    (hp : p ∈ s.responses) (hvectors : p.2.isVectors = true) :
    s.lifecycle p.1.context.lifecycle = .committed := by
  rw [h.responses_eq] at hp
  exact h.committed p hp hvectors

theorem Accounted.counters (h : s.Accounted) (hbound : s.decided.length ≤ u64Max) :
    s.tracker.completedRequestCount = s.decided.countP Response.isVectors ∧
    s.tracker.cancelledRequestCount = s.decided.countP Response.isCancelled ∧
    s.tracker.failedRequestCount = s.decided.countP Response.isFailed := by
  have hcounted : s.tracker.counters = tally s.decided := by
    unfold decided
    rw [h.responses_eq]
    exact h.counted
  have hle : ∀ p : Response → Bool, min (s.decided.countP p) u64Max = s.decided.countP p := by
    intro p
    apply Nat.min_eq_left
    exact Nat.le_trans List.countP_le_length hbound
  have hfirst := congrArg Prod.fst hcounted
  have hsecond := congrArg (fun p => p.2.1) hcounted
  have hthird := congrArg (fun p => p.2.2) hcounted
  exact ⟨hfirst.trans (hle _), hsecond.trans (hle _), hthird.trans (hle _)⟩

/-- After a `cancel` that returned true its cell stays cancelled. -/
theorem cancelled_of_cancelReturns {cell : Nat} (hcancel : s.cancelReturns cell = true) :
    (s.withLifecycle cell (s.lifecycle cell).cancel.1).lifecycle cell = .cancelled := by
  unfold cancelReturns at hcancel
  change Function.update s.lifecycle cell (s.lifecycle cell).cancel.1 cell = .cancelled
  rw [Function.update_self]
  cases hl : s.lifecycle cell with
  | queued => rfl
  | active => rfl
  | committed =>
    rw [hl] at hcancel
    exact absurd hcancel (by simp [RequestLifecycle.cancel])
  | cancelled => rfl

/-- One winner, and counters that agree with it, in every run of orderly steps. A request
for which a `cancel` returned true is never answered with vectors; one that was answered
with vectors makes every later `cancel` return false; and the three counters are the
numbers of vectors, of `Cancelled` and of other errors among the decided responses, as
long as these fit in 64 bits. -/
theorem cancellation_has_one_winner (cfg : EngineConfig) {s t : State}
    (hs : OrderlyReach cfg initial s) (ht : OrderlyReach cfg s t) :
    (∀ cell, s.cancelReturns cell = true → s.orderly (.cancel cell) = true →
      ∀ u, OrderlyReach cfg (s.withLifecycle cell (s.lifecycle cell).cancel.1) u →
        ∀ p ∈ u.responses, p.1.context.lifecycle = cell → p.2.isVectors = false) ∧
    (∀ p ∈ s.responses, p.2.isVectors = true →
      t.cancelReturns p.1.context.lifecycle = false) ∧
    (s.decided.length ≤ u64Max →
      s.tracker.completedRequestCount = s.decided.countP Response.isVectors ∧
      s.tracker.cancelledRequestCount = s.decided.countP Response.isCancelled ∧
      s.tracker.failedRequestCount = s.decided.countP Response.isFailed) := by
  have haccounted : s.Accounted := hs.accounted initial_accounted
  refine ⟨?_, ?_, haccounted.counters⟩
  · intro cell hcancel horderly u hu p hp hcell
    have hafter : (s.withLifecycle cell (s.lifecycle cell).cancel.1).Accounted :=
      step_accounted cfg s (.cancel cell) _ haccounted horderly rfl
    have hcancelled := cancelled_of_cancelReturns hcancel
    have hkept := reach_keeps (Reach.of_guarded hu) cell (.inr hcancelled)
    by_contra hvectors
    have hcommitted := (OrderlyReach.accounted hu hafter).committed_of_vectors hp
      (Bool.of_not_eq_false hvectors)
    rw [hcell, hkept, hcancelled] at hcommitted
    exact absurd hcommitted (by simp)
  · intro p hp hvectors
    have hcommitted := haccounted.committed_of_vectors hp hvectors
    have hkept := reach_keeps (Reach.of_guarded ht) _ (.inl hcommitted)
    unfold cancelReturns
    rw [hkept, hcommitted]
    rfl

/-- The state after a list of orderly actions. -/
def afterOrderly (actions : List Action) : State :=
  after (guarded (fun s a => s.orderly a = true) (step ⟨1, 8, 8, eight_pos⟩)) initial actions

/-- A query served from start to end. -/
def servedQuery : List Action :=
  List.replicate 6 Action.smooth ++ [Action.submit .query ⟨"q", 0⟩ ["a"] []] ++
    List.replicate 15 Action.smooth

theorem cancellation_has_one_winner_served :
    (afterOrderly servedQuery).cancelReturns 0 = false ∧
    (afterOrderly servedQuery).tracker.completedRequestCount = 1 := by
  have h := cancellation_has_one_winner ⟨1, 8, 8, by decide⟩ (s := afterOrderly servedQuery)
    (reach_after _ initial _) (.refl _)
  refine ⟨h.2.1 (⟨⟨"q", 0⟩, ["a"], 0⟩, .vectors 1) (by decide) rfl, ?_⟩
  rw [(h.2.2 (by decide)).1]
  decide

/-- The same query, cancelled when its result is there and not yet committed. -/
def racedQuery : List Action :=
  List.replicate 6 Action.smooth ++ [Action.submit .query ⟨"q", 0⟩ ["a"] []] ++
    List.replicate 12 Action.smooth ++ [Action.cancel 0] ++ List.replicate 3 Action.smooth

/-- A query that wakes a sleeping engine whose load then fails. -/
def failedLoad : List Action :=
  List.replicate 6 Action.smooth ++ [Action.tick, .smooth, .submit .query ⟨"q", 0⟩ ["a"] []] ++
    List.replicate 3 Action.smooth ++ [Action.owner ⟨false, true, fun _ => some 1, []⟩]

/-- Three runs that are not orderly: a `Cancelled` response counted as a failure, a failure
that is not counted, and vectors sent for a cell that can still be cancelled. -/
theorem cancellation_miscounted :
    (∃ s, Reach (step ⟨1, 8, 8, by decide⟩) initial s ∧ s.decided = [.cancelled] ∧
      s.tracker.cancelledRequestCount = 0 ∧ s.tracker.failedRequestCount = 1) ∧
    (∃ s, Reach (step ⟨1, 8, 8, by decide⟩) initial s ∧ s.decided = [.failed] ∧
      s.tracker.failedRequestCount = 0) ∧
    (∃ s, Reach (step ⟨1, 8, 8, by decide⟩) initial s ∧
      s.responses = [(⟨⟨"q", 0⟩, [], 0⟩, .vectors 0)] ∧ s.cancelReturns 0 = true ∧
      s.tracker.completedRequestCount = 0) := by
  refine ⟨⟨_, reach_afterRun racedQuery, ?_⟩, ⟨_, reach_afterRun failedLoad, ?_⟩,
    ⟨_, reach_afterRun (List.replicate 6 Action.smooth ++
      [Action.submit .bulk ⟨"q", 0⟩ [] []]), ?_⟩⟩
  · decide
  · decide
  · decide

end State

end CodeStory.Engine
