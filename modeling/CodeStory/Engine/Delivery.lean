import Mathlib.Data.List.Nodup
import CodeStory.Engine.Owner

/-!
# Where an accepted request is, in which order requests leave, and who is woken

`Sound` follows every accepted request from its queue, through the owner's hands, to its
one response. It also says which queues may be non-empty without a token: none that the
owner could block on.
-/

set_option autoImplicit false

namespace CodeStory.Engine

open Transition

def WakeReason.hands : WakeReason → List EmbeddingRequest
  | .request _ r => [r]
  | _ => []

/-- The requests that the owner has taken and not answered; nothing is claimed about them
once it has shut down. -/
def OwnerPc.hands : OwnerPc → Option (List EmbeddingRequest)
  | .loading wake | .entry wake | .waking wake => some wake.hands
  | .handling f below _ => some (f.request :: below.map Frame.request)
  | .wakeCheck _ r | .wakeReply r => some [r]
  | .top | .popping _ _ | .selecting _ | .asleep | .wakePop _ => some []
  | .stopped => none

/-- The queues the owner relies on being told about: it has found them empty since it last
took their token, and has not come back to look. -/
def OwnerPc.covers : OwnerPc → EmbeddingRequestClass → Bool
  | .loading _, _ | .asleep, _ | .selecting _, _ | .wakeCheck _ _, _ | .wakeReply _, _ => true
  | .wakePop c, c' => c' = c.other
  | .popping c true, c' => c' = c.other
  | _, _ => false

/-- The part of the state that requests move through. -/
structure Ledger where
  queue : EmbeddingRequestClass → List EmbeddingRequest
  token : EmbeddingRequestClass → Bool
  accepted : EmbeddingRequestClass → List EmbeddingRequest
  dispatched : EmbeddingRequestClass → List EmbeddingRequest
  pruned : EmbeddingRequestClass → List EmbeddingRequest
  answered : List (EmbeddingRequest × Response)
  cancelled : Nat → Bool
  channels : Nat

namespace State

def ledger (s : State) : Ledger :=
  ⟨s.queue, s.token, s.accepted, s.dispatched, s.pruned, s.answered,
    fun cell => (s.lifecycle cell).isCancelled, s.channels⟩

/-- How often a request has left a queue. -/
def removedCount (s : State) (r : EmbeddingRequest) : Nat :=
  (s.dispatched .query).count r + (s.pruned .query).count r +
    ((s.dispatched .bulk).count r + (s.pruned .bulk).count r)

structure Sound (s : State) (hands : Option (List EmbeddingRequest))
    (covers : EmbeddingRequestClass → Bool) : Prop where
  removed : ∀ c r, (s.accepted c).count r =
    (s.queue c).count r + (s.dispatched c).count r + (s.pruned c).count r
  answered : ∀ taken, hands = some taken → ∀ r,
    s.removedCount r = taken.count r + (s.answered.map Prod.fst).count r
  fresh : ∀ c, ∀ r ∈ s.accepted c, r.response < s.channels
  distinct : ∀ c, ((s.accepted c).map EmbeddingRequest.response).Nodup
  apart : ∀ r ∈ s.accepted .query, ∀ r' ∈ s.accepted .bulk, r.response ≠ r'.response
  ordered : ∀ c, (s.accepted c).filter (fun r => !s.isCancelled r) =
    (s.dispatched c ++ s.queue c).filter fun r => !s.isCancelled r
  awake : ∀ c, covers c = true → s.queue c ≠ [] → s.token c = true

variable {s t : State} {hands : Option (List EmbeddingRequest)}
variable {covers covers' : EmbeddingRequestClass → Bool}

/-- A step outside the ledger may only give up claims about tokens. -/
theorem Sound.frame (h : s.Sound hands covers) (hledger : t.ledger = s.ledger)
    (hcovers : ∀ c, covers' c = true → covers c = true) : t.Sound hands covers' := by
  have hqueue : t.queue = s.queue := congrArg Ledger.queue hledger
  have htoken : t.token = s.token := congrArg Ledger.token hledger
  have haccepted : t.accepted = s.accepted := congrArg Ledger.accepted hledger
  have hdispatched : t.dispatched = s.dispatched := congrArg Ledger.dispatched hledger
  have hpruned : t.pruned = s.pruned := congrArg Ledger.pruned hledger
  have hanswered : t.answered = s.answered := congrArg Ledger.answered hledger
  have hchannels : t.channels = s.channels := congrArg Ledger.channels hledger
  have hcancelled : t.isCancelled = s.isCancelled := by
    funext r
    exact congrFun (congrArg Ledger.cancelled hledger) r.context.lifecycle
  refine ⟨?_, ?_, ?_, ?_, ?_, ?_, ?_⟩
  · rw [haccepted, hqueue, hdispatched, hpruned]
    exact h.removed
  · unfold removedCount
    rw [hdispatched, hpruned, hanswered]
    exact h.answered
  · rw [haccepted, hchannels]
    exact h.fresh
  · rw [haccepted]
    exact h.distinct
  · rw [haccepted]
    exact h.apart
  · rw [haccepted, hdispatched, hqueue, hcancelled]
    exact h.ordered
  · intro c hc
    rw [hqueue, htoken]
    exact h.awake c (hcovers c hc)

section Filter
variable {α : Type}

/-- A stronger filter forgets nothing that a weaker one has not. -/
theorem filter_eq_of_imp {p q : α → Bool} (hqp : ∀ a, q a = true → p a = true)
    {l l' : List α} (h : l.filter p = l'.filter p) : l.filter q = l'.filter q := by
  have hboth : ∀ k : List α, k.filter q = (k.filter p).filter q := by
    intro k
    rw [List.filter_filter]
    apply List.filter_congr
    intro a _
    cases hq : q a with
    | false => simp
    | true => simp [hqp a hq]
  rw [hboth l, hboth l', h]

theorem count_filter_add [DecidableEq α] (a : α) (l : List α) (p : α → Bool) :
    (l.filter p).count a + (l.filter fun b => !p b).count a = l.count a := by
  induction l with
  | nil => rfl
  | cons b l ih =>
    by_cases hb : p b = true
    · simp only [List.filter_cons, hb, Bool.not_true, Bool.false_eq_true, if_true, if_false,
        List.count_cons]
      omega
    · simp only [List.filter_cons, hb, Bool.not_false, Bool.false_eq_true, if_true, if_false,
        List.count_cons]
      omega

end Filter

/-- Cancelling only ever removes obligations. -/
theorem Sound.cancel (h : s.Sound hands covers) (cell : Nat) :
    (s.withLifecycle cell (s.lifecycle cell).cancel.1).Sound hands covers := by
  refine ⟨h.removed, h.answered, h.fresh, h.distinct, h.apart, ?_, h.awake⟩
  intro c
  refine filter_eq_of_imp ?_ (h.ordered c)
  intro r hr
  simp only [isCancelled, withLifecycle, Bool.not_eq_true'] at hr ⊢
  by_cases hcell : r.context.lifecycle = cell
  · rw [hcell] at hr ⊢
    rw [Function.update_self] at hr
    cases hl : s.lifecycle cell with
    | cancelled =>
      rw [hl] at hr
      exact hr
    | queued => rfl
    | active => rfl
    | committed => rfl
  · rw [Function.update_of_ne hcell] at hr
    exact hr

/-- Activation and commit leave every cancellation as it is. -/
theorem ledger_activate (cell : Nat) :
    (s.withLifecycle cell (s.lifecycle cell).activate.1).ledger = s.ledger := by
  unfold withLifecycle ledger
  dsimp only
  congr
  funext i
  by_cases hi : i = cell
  · subst hi
    rw [Function.update_self]
    cases s.lifecycle i <;> rfl
  · rw [Function.update_of_ne hi]

theorem ledger_commit (cell : Nat) :
    (s.withLifecycle cell (s.lifecycle cell).commit.1).ledger = s.ledger := by
  unfold withLifecycle ledger
  dsimp only
  congr
  funext i
  by_cases hi : i = cell
  · subst hi
    rw [Function.update_self]
    cases s.lifecycle i <;> rfl
  · rw [Function.update_of_ne hi]

section Queues
variable (c : EmbeddingRequestClass) (late : List Nat)

theorem map_fst_pruned (l : List EmbeddingRequest) :
    (l.map fun r => (r, Response.cancelled)).map Prod.fst = l := by
  rw [List.map_map]
  exact List.map_id l

/-- Pruning answers what it removes, and removes only what was cancelled. -/
theorem Sound.prune (h : s.Sound hands covers) :
    (s.pruneCancelled c late).Sound hands covers := by
  have hsplit := fun r => count_filter_add r (s.queue c) (s.drops late)
  refine ⟨?_, ?_, h.fresh, h.distinct, h.apart, ?_, ?_⟩
  · intro c' r
    have hr := h.removed c' r
    have hs := hsplit r
    unfold pruneCancelled
    dsimp only
    by_cases hc : c' = c
    · subst hc
      rw [Function.update_self, Function.update_self, List.count_append]
      omega
    · rw [Function.update_of_ne hc, Function.update_of_ne hc]
      exact hr
  · intro taken htaken r
    have hr := h.answered taken htaken r
    unfold removedCount pruneCancelled at *
    dsimp only
    rw [List.map_append, map_fst_pruned, List.count_append]
    cases c with
    | query | bulk =>
      rw [Function.update_self, Function.update_of_ne (by decide), List.count_append]
      omega
  · intro c'
    have ho := h.ordered c'
    by_cases hc : c' = c
    · subst hc
      unfold pruneCancelled
      dsimp only
      rw [Function.update_self, List.filter_append, List.filter_filter]
      rw [List.filter_append] at ho
      refine ho.trans (congrArg _ ?_)
      apply List.filter_congr
      intro r _
      change (!s.isCancelled r) = (!s.isCancelled r && !s.drops late r)
      unfold drops
      cases s.isCancelled r <;> rfl
    · unfold pruneCancelled
      dsimp only
      rw [Function.update_of_ne hc]
      exact ho
  · intro c' hcovers hne
    apply h.awake c' hcovers
    intro hempty
    apply hne
    unfold pruneCancelled
    dsimp only
    by_cases hc : c' = c
    · subst hc
      rw [Function.update_self, hempty]
      rfl
    · rw [Function.update_of_ne hc]
      exact hempty

/-- A push hands out a fresh response channel and leaves a token. -/
theorem Sound.push (h : s.Sound hands covers) (context : RequestContext)
    (inputs : List String) : (s.submit c context inputs late).Sound hands covers := by
  have hp := h.prune c late
  unfold submit tryPush
  dsimp only
  split
  · refine ⟨h.removed, h.answered, ?_, h.distinct, h.apart, h.ordered, h.awake⟩
    intro c' q hq
    exact Nat.lt_succ_of_lt (h.fresh c' q hq)
  generalize hs : s.pruneCancelled c late = p at hp ⊢
  have hchannels : s.channels = p.channels := by rw [← hs]; rfl
  rw [hchannels]
  generalize hr : (⟨context, inputs, p.channels⟩ : EmbeddingRequest) = r
  have hresponse : r.response = p.channels := by rw [← hr]
  split
  · refine ⟨hp.removed, hp.answered, ?_, hp.distinct, hp.apart, hp.ordered, hp.awake⟩
    intro c' q hq
    exact Nat.lt_succ_of_lt (hp.fresh c' q hq)
  · refine ⟨?_, hp.answered, ?_, ?_, ?_, ?_, ?_⟩
    · intro c' q
      have hq := hp.removed c' q
      dsimp only
      by_cases hc : c' = c
      · subst hc
        rw [Function.update_self, Function.update_self, List.count_append, List.count_append]
        omega
      · rw [Function.update_of_ne hc, Function.update_of_ne hc]
        exact hq
    · intro c' q hq
      dsimp only at hq ⊢
      by_cases hc : c' = c
      · subst hc
        rw [Function.update_self, List.mem_append, List.mem_singleton] at hq
        rcases hq with hq | rfl
        · exact Nat.lt_succ_of_lt (hp.fresh c' q hq)
        · omega
      · rw [Function.update_of_ne hc] at hq
        exact Nat.lt_succ_of_lt (hp.fresh c' q hq)
    · intro c'
      dsimp only
      by_cases hc : c' = c
      · subst hc
        rw [Function.update_self, List.map_append, List.map_singleton]
        refine List.nodup_append.mpr ⟨hp.distinct c', List.nodup_singleton _, ?_⟩
        intro n hn m hm
        obtain ⟨q, hq, rfl⟩ := List.mem_map.mp hn
        rw [List.mem_singleton] at hm
        have := hp.fresh c' q hq
        omega
      · rw [Function.update_of_ne hc]
        exact hp.distinct c'
    · intro q hq q' hq'
      cases c with
      | query =>
        dsimp only at hq hq'
        rw [Function.update_of_ne (by decide)] at hq'
        rw [Function.update_self, List.mem_append, List.mem_singleton] at hq
        rcases hq with hq | rfl
        · exact hp.apart q hq q' hq'
        · have := hp.fresh .bulk q' hq'
          omega
      | bulk =>
        dsimp only at hq hq'
        rw [Function.update_of_ne (by decide)] at hq
        rw [Function.update_self, List.mem_append, List.mem_singleton] at hq'
        rcases hq' with hq' | rfl
        · exact hp.apart q hq q' hq'
        · have := hp.fresh .query q hq
          omega
    · intro c'
      have ho := hp.ordered c'
      by_cases hc : c' = c
      · subst hc
        dsimp only
        rw [Function.update_self, Function.update_self, ← List.append_assoc, List.filter_append,
          List.filter_append]
        exact congrArg (· ++ List.filter (fun r => !p.isCancelled r) [r]) ho
      · dsimp only
        rw [Function.update_of_ne hc, Function.update_of_ne hc]
        exact ho
    · intro c' hcovers hne
      dsimp only at hne ⊢
      by_cases hc : c' = c
      · rw [hc, Function.update_self]
      · rw [Function.update_of_ne hc] at hne ⊢
        exact hp.awake c' hcovers hne

/-- A pop puts the front of the pruned queue into the owner's hands. Afterwards the queue
is empty or has a token. -/
theorem Sound.pop {taken : List EmbeddingRequest} (h : s.Sound (some taken) covers)
    (hcovers : ∀ c', covers' c' = true → covers c' = true ∨ c' = c) :
    (s.tryPop c late).1.Sound (some ((s.tryPop c late).2.toList ++ taken)) covers' := by
  have hp := h.prune c late
  unfold tryPop
  dsimp only
  generalize s.pruneCancelled c late = p at hp ⊢
  split
  · rename_i hempty
    refine ⟨hp.removed, hp.answered, hp.fresh, hp.distinct, hp.apart, hp.ordered, ?_⟩
    intro c' hc' hne
    rcases hcovers c' hc' with hold | rfl
    · exact hp.awake c' hold hne
    · exact absurd hempty hne
  · rename_i r rest hqueue
    refine ⟨?_, ?_, hp.fresh, hp.distinct, hp.apart, ?_, ?_⟩
    · intro c' q
      have hq := hp.removed c' q
      dsimp only
      by_cases hc : c' = c
      · subst hc
        rw [hqueue, List.count_cons] at hq
        rw [Function.update_self, Function.update_self, List.count_append,
          List.count_singleton]
        omega
      · rw [Function.update_of_ne hc, Function.update_of_ne hc]
        exact hq
    · intro held hheld q
      obtain rfl := Option.some.inj hheld
      have hq := hp.answered taken rfl q
      unfold removedCount at hq ⊢
      dsimp only [Option.toList]
      rw [List.count_append, List.count_singleton]
      cases c with
      | query | bulk =>
        rw [Function.update_self, Function.update_of_ne (by decide), List.count_append,
          List.count_singleton]
        omega
    · intro c'
      have ho := hp.ordered c'
      dsimp only
      by_cases hc : c' = c
      · subst hc
        rw [hqueue] at ho
        rw [Function.update_self, Function.update_self, List.append_assoc]
        exact ho
      · rw [Function.update_of_ne hc, Function.update_of_ne hc]
        exact ho
    · intro c' hc' hne
      dsimp only at hne ⊢
      by_cases hc : c' = c
      · subst hc
        rw [Function.update_self] at hne
        rw [if_neg hne, Function.update_self]
      · rw [Function.update_of_ne hc] at hne
        have htoken := hp.awake c' ((hcovers c' hc').resolve_right hc) hne
        split
        · exact htoken
        · rw [Function.update_of_ne hc]
          exact htoken

end Queues

theorem Sound.answer {taken : List EmbeddingRequest} {r : EmbeddingRequest}
    (h : s.Sound (some (r :: taken)) covers) (response : Response) :
    (s.answer r response).Sound (some taken) covers := by
  refine ⟨h.removed, ?_, h.fresh, h.distinct, h.apart, h.ordered, h.awake⟩
  intro held hheld q
  obtain rfl := Option.some.inj hheld
  have hq := h.answered _ rfl q
  unfold removedCount State.answer at *
  rw [List.count_cons] at hq
  rw [List.map_append, List.count_append, List.map_singleton, List.count_singleton]
  dsimp only
  omega

/-- Taking a token gives up the claim on its queue. -/
theorem Sound.takeToken (h : s.Sound hands covers) (c : EmbeddingRequestClass)
    (hcovers : ∀ c', covers' c' = true → covers c' = true ∧ c' ≠ c) :
    (s.takeToken c).Sound hands covers' := by
  refine ⟨h.removed, h.answered, h.fresh, h.distinct, h.apart, h.ordered, ?_⟩
  intro c' hc' hne
  obtain ⟨hold, hother⟩ := hcovers c' hc'
  unfold State.takeToken
  dsimp only
  rw [Function.update_of_ne hother]
  exact h.awake c' hold hne

theorem Sound.stop (h : s.Sound hands covers) : s.Sound none fun _ => false :=
  ⟨h.removed, fun _ hnone => absurd hnone (by simp), h.fresh, h.distinct, h.apart, h.ordered,
    fun _ hfalse => absurd hfalse (by simp)⟩

/-- The invariant at the place where the owner stands. -/
def Delivering (s : State) : Prop := s.Sound s.pc.hands s.pc.covers

theorem Sound.goto {pc : OwnerPc} (h : s.Sound hands covers)
    (hhands : pc.hands = hands) (hcovers : ∀ c, pc.covers c = true → covers c = true) :
    (s.goto pc).Delivering := by
  subst hhands
  exact h.frame rfl hcovers

/-- The owner ends. -/
theorem Sound.goto_stopped (h : s.Sound hands covers) : (s.goto .stopped).Delivering :=
  h.stop.frame rfl fun _ hc => hc

theorem ledger_confirmResident (i : Nat) (result : Option Nat) :
    (s.confirmResident i result).ledger = s.ledger := by
  unfold confirmResident
  split <;> rfl

theorem ledger_grantResidencyLease (i : Nat) :
    (s.grantResidencyLease i).ledger = s.ledger := by
  unfold grantResidencyLease
  split <;> rfl

theorem ledger_refuseLease (i : Nat) : (s.refuseLease i).ledger = s.ledger := by
  unfold refuseLease
  split <;> rfl

theorem ledger_noteLoadFailure : s.noteLoadFailure.ledger = s.ledger := by
  unfold noteLoadFailure
  split <;> rfl

section Owner
variable {cfg : EngineConfig} {w : World}

/-- Control messages never touch a request. -/
theorem handleResidentControl_delivering (h : s.Sound hands covers) (message : Control)
    (rest : List Control) {next : OwnerPc} (hhands : next.hands = hands)
    (hcovers : ∀ c, next.covers c = true → covers c = true) :
    ((s.withControl rest).handleResidentControl message next).Delivering := by
  unfold handleResidentControl
  cases message with
  | shutdown =>
    have h' : ((s.withControl rest).withTracker
        ((s.withControl rest).tracker.setOwnerState .draining)).Sound hands covers :=
      h.frame rfl fun _ hc => hc
    exact h'.goto_stopped
  | ensureResident i =>
    have h' : ((s.withControl rest).completeActivity.confirmResident i
        (some (s.withControl rest).generation)).Sound hands covers :=
      h.frame (ledger_confirmResident i _) fun _ hc => hc
    exact h'.goto hhands hcovers
  | acquireLease i =>
    have h' : ((s.withControl rest).grantResidencyLease i).Sound hands covers :=
      h.frame (ledger_grantResidencyLease i) fun _ hc => hc
    exact h'.goto hhands hcovers
  | releaseLease =>
    have h' : (s.withControl rest).releaseLease.Sound hands covers := h.frame rfl fun _ hc => hc
    exact h'.goto hhands hcovers

theorem failWake_delivering {wake : WakeReason}
    (h : s.Sound (some wake.hands) fun _ => true) : (s.failWake wake).Delivering := by
  unfold failWake
  cases wake with
  | startup => exact h.goto_stopped
  | request c r => exact (h.answer .failed).goto rfl fun _ hc => hc
  | ensureResident i =>
    have h' : (s.confirmResident i none).Sound (some (WakeReason.ensureResident i).hands)
        fun _ => true :=
      h.frame (ledger_confirmResident i none) fun _ hc => hc
    exact h'.goto rfl fun _ hc => hc
  | acquireLease i =>
    have h' : (s.refuseLease i).Sound (some (WakeReason.acquireLease i).hands) fun _ => true :=
      h.frame (ledger_refuseLease i) fun _ hc => hc
    exact h'.goto rfl fun _ hc => hc

theorem serveWake_delivering {wake : WakeReason} (h : s.Sound (some wake.hands) covers) :
    (s.serveWake wake).Delivering := by
  unfold serveWake
  cases wake with
  | startup =>
    have h' : { s with started := true }.Sound (some []) covers := h.frame rfl fun _ hc => hc
    exact h'.goto rfl fun _ hc => absurd hc (by simp [OwnerPc.covers])
  | request c r => exact h.goto rfl fun _ hc => absurd hc (by simp [OwnerPc.covers])
  | ensureResident i =>
    have h' : (s.completeActivity.confirmResident i (some s.generation)).Sound (some [])
        covers := h.frame (ledger_confirmResident i _) fun _ hc => hc
    exact h'.goto rfl fun _ hc => absurd hc (by simp [OwnerPc.covers])
  | acquireLease i =>
    have h' : (s.grantResidencyLease i).Sound (some []) covers :=
      h.frame (ledger_grantResidencyLease i) fun _ hc => hc
    exact h'.goto rfl fun _ hc => absurd hc (by simp [OwnerPc.covers])

/-- The scheduler blocks only after it has found both queues empty. -/
theorem schedulerPop_delivering {c : EmbeddingRequestClass} {second : Bool} (late : List Nat)
    (h : s.Sound (some []) (OwnerPc.popping c second).covers) :
    (s.schedulerPop c second late).Delivering := by
  have hpop : (s.tryPop c late).1.Sound (some ((s.tryPop c late).2.toList ++ []))
      fun c' => c' = c || (OwnerPc.popping c second).covers c' := by
    apply h.pop
    intro c' hc'
    simp only [Bool.or_eq_true, decide_eq_true_eq] at hc'
    exact hc'.symm
  unfold schedulerPop
  cases hresult : s.tryPop c late with
  | mk t popped =>
    rw [hresult] at hpop
    cases popped with
    | some r =>
      have h' : { t with nextWhenBothReady := c.other }.Sound (some [r]) fun _ => false :=
        hpop.frame rfl fun _ hc => absurd hc (by simp)
      exact h'.goto rfl fun _ hc => hc
    | none =>
      cases second with
      | true =>
        refine hpop.goto rfl ?_
        intro c' _
        simp only [Bool.or_eq_true, decide_eq_true_eq]
        cases c <;> cases c' <;> simp [OwnerPc.covers, EmbeddingRequestClass.other]
      | false =>
        refine hpop.goto rfl ?_
        intro c' hc'
        simp only [Bool.or_eq_true, decide_eq_true_eq]
        left
        cases c <;> cases c' <;> simp [OwnerPc.covers, EmbeddingRequestClass.other] at hc' ⊢

theorem toPhase_delivering {f : Frame} {below : List Frame} (woken : Bool) (phase : Phase)
    (h : s.Sound (some (f.request :: below.map Frame.request)) covers) :
    (s.toPhase f below woken phase).Delivering :=
  h.goto rfl fun _ hc => absurd hc (by simp [OwnerPc.covers])

theorem leaveFrame_delivering {below : List Frame} (c : EmbeddingRequestClass) (woken : Bool)
    (h : s.Sound (some (below.map Frame.request)) covers) :
    (s.leaveFrame c below woken).Delivering := by
  unfold leaveFrame
  cases below with
  | nil =>
    have h' : { s.completeActivity with nextWhenBothReady :=
        if woken then c.other else s.nextWhenBothReady }.Sound (some []) covers :=
      h.frame rfl fun _ hc => hc
    exact h'.goto rfl fun _ hc => absurd hc (by simp [OwnerPc.covers])
  | cons outer rest => exact h.goto rfl fun _ hc => absurd hc (by simp [OwnerPc.covers])

/-- A request in the owner's hands stays there until its reply. -/
theorem handleStep_delivering {f : Frame} {below : List Frame} {woken : Bool}
    (hpc : s.pc = .handling f below woken) (h : s.Delivering) :
    (s.handleStep cfg w f below woken).Delivering := by
  have hs : s.Sound (some (f.request :: below.map Frame.request)) fun _ => false := by
    unfold Delivering at h
    rw [hpc] at h
    exact h
  have hmove : ∀ (t : State) (phase : Phase), t.ledger = s.ledger →
      (t.toPhase f below woken phase).Delivering := fun t phase hledger =>
    toPhase_delivering woken phase (hs.frame hledger fun _ hc => hc)
  unfold handleStep
  dsimp only
  split
  · exact hmove _ _ (ledger_activate _)
  · exact hmove _ _ rfl
  · exact hmove _ _ rfl
  · split
    · split
      · exact hmove _ _ rfl
      · exact h
    · exact hmove _ _ rfl
  · exact hmove _ _ rfl
  · exact hmove _ _ rfl
  · exact hmove _ _ rfl
  · exact hmove _ _ rfl
  · have hpop := hs.pop .query w.late (fun _ hc => .inl hc)
    cases hresult : s.tryPop .query w.late with
    | mk t popped =>
      rw [hresult] at hpop
      cases popped with
      | none => exact toPhase_delivering woken _ hpop
      | some q => exact hpop.goto rfl fun _ hc => hc
  · exact hmove _ _ rfl
  · exact hmove _ _ rfl
  · exact hmove _ _ (ledger_commit _)
  · exact hmove _ _ rfl
  · exact leaveFrame_delivering _ woken (hs.answer _)

theorem residentSelect_delivering {deadline : Nat} (hpc : s.pc = .selecting deadline)
    (h : s.Delivering) (hstep : s.residentSelect deadline = some t) : t.Delivering := by
  have hs : s.Sound (some []) fun _ => true := by
    unfold Delivering at h
    rw [hpc] at h
    exact h
  have htaken : ∀ c, (s.takeToken c).Sound (some []) fun _ => false := fun c =>
    hs.takeToken c fun _ hc => absurd hc (by simp)
  unfold residentSelect at hstep
  split at hstep
  · obtain rfl := Option.some.inj hstep
    exact handleResidentControl_delivering hs _ _ rfl
      fun _ hc => absurd hc (by simp [OwnerPc.covers])
  · split at hstep
    · obtain rfl := Option.some.inj hstep
      exact (htaken .query).goto rfl fun _ hc => hc
    · split at hstep
      · obtain rfl := Option.some.inj hstep
        exact (htaken .bulk).goto rfl fun _ hc => hc
      · split at hstep
        · obtain rfl := Option.some.inj hstep
          split
          · unfold sleep
            have h' : ({ s with loadGeneration := s.generation }.withTracker
                (s.tracker.setOwnerState .sleeping)).Sound (some []) fun _ => true :=
              hs.frame rfl fun _ hc => hc
            exact h'.goto rfl fun _ hc => hc
          · exact hs.goto rfl fun _ hc => absurd hc (by simp [OwnerPc.covers])
        · exact absurd hstep (by simp)

theorem startLoading_delivering {wake : WakeReason}
    (h : s.Sound (some wake.hands) fun _ => true) : (s.startLoading wake).Delivering := by
  have h' : (s.withTracker (s.tracker.setOwnerState .waking)).Sound (some wake.hands)
      fun _ => true := h.frame rfl fun _ hc => hc
  exact h'.goto rfl fun _ hc => hc

theorem waitForWake_delivering (hpc : s.pc = .asleep) (h : s.Delivering)
    (hstep : s.waitForWake = some t) : t.Delivering := by
  have hs : s.Sound (some []) fun _ => true := by
    unfold Delivering at h
    rw [hpc] at h
    exact h
  have htaken : ∀ c, (s.takeToken c).Sound (some []) (OwnerPc.wakePop c).covers := by
    intro c
    apply hs.takeToken c
    intro c' hc'
    refine ⟨rfl, ?_⟩
    rintro rfl
    cases c' <;> simp [OwnerPc.covers, EmbeddingRequestClass.other] at hc'
  have hcontrol : ∀ rest, (s.withControl rest).Sound (some []) fun _ => true :=
    fun rest => hs.frame rfl fun _ hc => hc
  unfold waitForWake at hstep
  split at hstep
  · obtain rfl := Option.some.inj hstep
    exact (hcontrol _).goto_stopped
  · obtain rfl := Option.some.inj hstep
    exact startLoading_delivering (hcontrol _)
  · obtain rfl := Option.some.inj hstep
    exact startLoading_delivering (hcontrol _)
  · obtain rfl := Option.some.inj hstep
    exact h.frame rfl fun _ hc => hc
  · split at hstep
    · obtain rfl := Option.some.inj hstep
      exact (htaken .query).goto rfl fun _ hc => hc
    · split at hstep
      · obtain rfl := Option.some.inj hstep
        exact (htaken .bulk).goto rfl fun _ hc => hc
      · exact absurd hstep (by simp)

theorem ownerStep_delivering (h : s.Delivering) (hstep : s.ownerStep cfg w = some t) :
    t.Delivering := by
  have hs := h
  unfold Delivering at hs
  unfold ownerStep at hstep
  cases hpc : s.pc with
  | loading wake =>
    rw [hpc] at hstep hs
    obtain rfl := Option.some.inj hstep
    split
    · exact hs.frame rfl fun _ hc => absurd hc (by simp [enterGeneration, OwnerPc.covers])
    · exact failWake_delivering (hs.frame ledger_noteLoadFailure fun _ hc => hc)
  | entry wake =>
    rw [hpc] at hs
    simp only [hpc] at hstep
    split at hstep
    · obtain rfl := Option.some.inj hstep
      exact handleResidentControl_delivering hs _ _ rfl fun _ hc => hc
    · obtain rfl := Option.some.inj hstep
      exact hs.goto rfl fun _ hc => hc
  | waking wake =>
    rw [hpc] at hstep hs
    obtain rfl := Option.some.inj hstep
    exact serveWake_delivering hs
  | top =>
    rw [hpc] at hs
    simp only [hpc] at hstep
    split at hstep
    · obtain rfl := Option.some.inj hstep
      exact handleResidentControl_delivering hs _ _ rfl fun _ hc => hc
    · obtain rfl := Option.some.inj hstep
      exact hs.goto rfl fun _ hc => absurd hc (by simp [OwnerPc.covers])
  | popping c second =>
    rw [hpc] at hstep hs
    obtain rfl := Option.some.inj hstep
    exact schedulerPop_delivering _ hs
  | selecting deadline =>
    rw [hpc] at hstep
    exact residentSelect_delivering hpc h hstep
  | handling f below woken =>
    rw [hpc] at hstep
    obtain rfl := Option.some.inj hstep
    exact handleStep_delivering hpc h
  | asleep =>
    rw [hpc] at hstep
    exact waitForWake_delivering hpc h hstep
  | wakePop c =>
    rw [hpc] at hs
    have hpop : (s.tryPop c w.late).1.Sound (some ((s.tryPop c w.late).2.toList ++ []))
        fun _ => true := by
      apply hs.pop
      intro c' _
      cases c <;> cases c' <;> simp [OwnerPc.covers, EmbeddingRequestClass.other]
    simp only [hpc] at hstep
    split at hstep
    · rename_i hresult
      obtain rfl := Option.some.inj hstep
      rw [hresult] at hpop
      exact hpop.goto rfl fun _ hc => hc
    · rename_i hresult
      obtain rfl := Option.some.inj hstep
      rw [hresult] at hpop
      exact hpop.goto rfl fun _ hc => hc
  | wakeCheck c r =>
    rw [hpc] at hs
    simp only [hpc] at hstep
    split at hstep
    · obtain rfl := Option.some.inj hstep
      have h' : (s.withTracker s.tracker.cancelled).Sound (some [r]) fun _ => true :=
        hs.frame rfl fun _ hc => hc
      exact h'.goto rfl fun _ hc => hc
    · obtain rfl := Option.some.inj hstep
      exact startLoading_delivering hs
  | wakeReply r =>
    rw [hpc] at hstep hs
    obtain rfl := Option.some.inj hstep
    exact (hs.answer .cancelled).goto rfl fun _ hc => hc
  | stopped =>
    rw [hpc] at hstep
    exact absurd hstep (by simp)

end Owner

theorem callerStep_frame {a : Action} (hstep : s.callerStep a = some t) :
    t.ledger = s.ledger ∧ t.pc = s.pc := by
  unfold callerStep at hstep
  split at hstep
  all_goals
    first
    | split at hstep
      · obtain rfl := Option.some.inj hstep
        exact ⟨rfl, rfl⟩
      · exact absurd hstep (by simp)
    | exact absurd hstep (by simp)

theorem pc_submit (c : EmbeddingRequestClass) (context : RequestContext)
    (inputs : List String) (late : List Nat) :
    (s.submit c context inputs late).pc = s.pc := by
  unfold submit tryPush
  dsimp only
  split
  · rfl
  · split <;> rfl

theorem step_delivering (cfg : EngineConfig) (s : State) (a : Action) (t : State)
    (h : s.Delivering) (hstep : step cfg s a = some t) : t.Delivering := by
  unfold step at hstep
  split at hstep
  · rename_i c context inputs late
    split at hstep
    · obtain rfl := Option.some.inj hstep
      unfold Delivering
      rw [pc_submit]
      exact Sound.push c late h context inputs
    · exact absurd hstep (by simp)
  · obtain rfl := Option.some.inj hstep
    exact Sound.cancel h _
  · split at hstep
    · obtain rfl := Option.some.inj hstep
      exact h.frame rfl fun _ hc => hc
    · exact absurd hstep (by simp)
  · obtain rfl := Option.some.inj hstep
    exact h.frame rfl fun _ hc => hc
  · obtain rfl := Option.some.inj hstep
    exact h.frame rfl fun _ hc => hc
  · exact ownerStep_delivering h hstep
  · obtain ⟨hledger, hpc⟩ := callerStep_frame hstep
    unfold Delivering
    rw [hpc]
    exact Sound.frame h hledger fun _ hc => hc

theorem initial_delivering : initial.Delivering where
  removed := fun _ _ => rfl
  answered := by
    intro taken htaken r
    obtain rfl := Option.some.inj htaken
    rfl
  fresh := fun _ r hr => absurd hr (by simp [initial])
  distinct := fun _ => List.nodup_nil
  apart := fun r hr => absurd hr (by simp [initial])
  ordered := fun _ => rfl
  awake := fun _ _ hne => absurd rfl hne

theorem reach_delivering {cfg : EngineConfig} (hreach : Reach (step cfg) initial s) :
    s.Delivering :=
  hreach.invariant (step_delivering cfg) initial_delivering

end State

end CodeStory.Engine
