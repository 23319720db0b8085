import CodeStory.Embedding.Client

/-!
# How often a client submits

A pure call has two nested retry loops that share one replay flag. The results here say
what its log can look like at every point of every script: which submissions it holds,
what lies between them, and what the caller had last observed before each.
-/

set_option autoImplicit false

namespace CodeStory.Client

open Wire Prog

def isPureRpc : EmbeddingOperation → Bool
  | .embedQuery .. | .embedDocuments .. => true
  | _ => false

/-- Events that a call may add to its log without making an attempt of its own. -/
structure Background (quiet : Event → Bool) : Prop where
  cancelledRead : ∀ value, quiet (.cancelledRead value) = true
  deadlineRead : ∀ now deadline, quiet (.deadlineRead now deadline) = true
  hello : ∀ id compatibility intent pid start sha version, quiet
    (.submitted (request id compatibility (.hello intent pid start sha version))) = true

/-- Only quiet events were added, and identifiers were drawn in order. -/
def quietly (quiet : Event → Bool) : Frame ClientState where
  rel s t := (∃ new, t.log = new ++ s.log ∧ ∀ e ∈ new, quiet e = true) ∧ s.uuids ≤ t.uuids
  refl s := ⟨⟨[], rfl, by simp⟩, Nat.le_refl _⟩
  trans := by
    rintro s t u ⟨⟨new, hnew, hquiet⟩, hst⟩ ⟨⟨later, hlater, hquiet'⟩, htu⟩
    refine ⟨⟨later ++ new, ?_, ?_⟩, Nat.le_trans hst htu⟩
    · rw [hlater, hnew, List.append_assoc]
    · exact List.forall_mem_append.mpr ⟨hquiet', hquiet⟩

section Quiet
variable {quiet : Event → Bool}

theorem emit_keeps {e : Event} (he : quiet e = true) : Keeps (quietly quiet) (emit e) := by
  apply keeps_modify
  intro s
  refine ⟨⟨[e], rfl, ?_⟩, Nat.le_refl _⟩
  intro e' he'
  obtain rfl := List.mem_singleton.mp he'
  exact he

variable (hq : Background quiet)
include hq

theorem check_keeps (control : EmbeddingCallControl) :
    Keeps (quietly quiet) control.check := by
  unfold EmbeddingCallControl.check
  refine keeps_bind (keeps_query _) fun cancelled =>
    keeps_bind (emit_keeps (hq.cancelledRead cancelled)) fun _ => ?_
  split
  · exact keeps_fail _
  · split
    · exact keeps_pure _
    · refine keeps_bind (keeps_query _) fun now =>
        keeps_bind (emit_keeps (hq.deadlineRead now _)) fun _ => ?_
      split
      · exact keeps_fail _
      · exact keeps_pure _

omit hq in
theorem instantCheckedAdd_keeps (now timeout : Nat) :
    Keeps (quietly quiet) (instantCheckedAdd now timeout) := by
  unfold instantCheckedAdd
  split
  · exact keeps_pure _
  · exact keeps_fail _

omit hq in
theorem deadlineAfter_keeps (timeout : Option Nat) :
    Keeps (quietly quiet) (EmbeddingCallControl.deadlineAfter timeout) := by
  cases timeout with
  | none => exact keeps_pure _
  | some timeout =>
    exact keeps_bind (keeps_query _) fun now =>
      keeps_bind (instantCheckedAdd_keeps now timeout) fun _ => keeps_pure _

theorem new_keeps (operationTimeout : Nat) (outerTimeout : Option Nat) :
    Keeps (quietly quiet) (EmbeddingCallControl.new operationTimeout outerTimeout) := by
  unfold EmbeddingCallControl.new
  split
  · exact keeps_fail _
  · exact keeps_bind (deadlineAfter_keeps outerTimeout) fun outer =>
      keeps_bind (check_keeps hq _) fun _ => keeps_pure _

theorem remaining_keeps (control : EmbeddingCallControl) (maximum : Nat) :
    Keeps (quietly quiet) (control.remaining maximum) := by
  unfold EmbeddingCallControl.remaining EmbeddingCallControl.timeLeft
  refine keeps_bind (check_keeps hq control) fun _ => keeps_bind ?_ fun left => ?_
  · split
    · exact keeps_pure _
    · exact keeps_bind (keeps_query _) fun now =>
        keeps_bind (emit_keeps (hq.deadlineRead now _)) fun _ => keeps_pure _
  · split
    · exact keeps_bind (check_keeps hq control) fun _ => keeps_fail _
    · exact keeps_pure _

theorem arm_keeps (control : EmbeddingCallControl) :
    Keeps (quietly quiet) control.arm := by
  unfold EmbeddingCallControl.arm EmbeddingCallControl.setOperationDeadline
  refine keeps_bind ?_ fun armed => keeps_bind (check_keeps hq armed) fun _ => keeps_pure _
  split
  · exact keeps_pure _
  · exact keeps_bind (keeps_query _) fun now =>
      keeps_bind (instantCheckedAdd_keeps now _) fun _ => keeps_pure _

theorem checkControl_keeps (control : Option EmbeddingCallControl) :
    Keeps (quietly quiet) (checkControl control) := by
  cases control with
  | none => exact keeps_pure _
  | some control => exact check_keeps hq control

theorem remainingOr_keeps (budget : Nat) (control : Option EmbeddingCallControl) :
    Keeps (quietly quiet) (remainingOr budget control) := by
  cases control with
  | none => exact keeps_pure _
  | some control => exact remaining_keeps hq control budget

variable {V : Type} (client : PerUserEmbeddingClient V)

omit hq in
theorem newUuid_keeps : Keeps (quietly quiet) (newUuid client) := by
  unfold newUuid
  intro s
  simp only [wp_bind, wp_read, wp_modify, wp_pure]
  have hstep : (quietly quiet).rel s { s with uuids := s.uuids + 1 } :=
    ⟨⟨[], rfl, by simp⟩, Nat.le_succ _⟩
  exact ⟨hstep, hstep⟩

omit hq in
theorem configureExchangeTimeout_keeps (timeout : Nat) :
    Keeps (quietly quiet) (configureExchangeTimeout client timeout) := by
  unfold configureExchangeTimeout
  split
  · exact keeps_fail _
  · refine keeps_bind (keeps_query _) fun setRead => ?_
    split
    · exact keeps_fail _
    · refine keeps_bind (keeps_query _) fun setWrite => ?_
      split
      · exact keeps_fail _
      · exact keeps_pure _

omit hq in
theorem readResponse_keeps (sent : EmbeddingProtocolRequest) :
    Keeps (quietly quiet) (readResponse client sent) := by
  unfold readResponse
  refine keeps_bind (keeps_query _) fun frame => ?_
  split
  · exact keeps_fail _
  · split
    · exact keeps_fail _
    · split
      · exact keeps_fail _
      · exact keeps_pure _

omit hq in
theorem submit_keeps {sent : EmbeddingProtocolRequest}
    (hsent : quiet (.submitted sent) = true) : Keeps (quietly quiet) (submit client sent) := by
  unfold submit
  refine keeps_bind (emit_keeps hsent) fun _ => keeps_bind (keeps_query _) fun written => ?_
  split
  · exact keeps_fail _
  · exact keeps_pure _

omit hq in
theorem exchange_keeps {sent : EmbeddingProtocolRequest}
    (hsent : quiet (.submitted sent) = true) :
    Keeps (quietly quiet) (exchange client sent) :=
  keeps_bind (submit_keeps client hsent) fun _ => readResponse_keeps client sent

theorem hello_keeps (intent : EmbeddingConnectIntent) (stream : EmbeddingTransportIdentity) :
    Keeps (quietly quiet) (hello client intent stream) := by
  unfold hello
  refine keeps_bind (newUuid_keeps client) fun requestId =>
    keeps_bind (exchange_keeps client (hq.hello _ _ _ _ _ _ _)) fun answer =>
      keeps_bind (keeps_ofExcept _) fun result => ?_
  split
  · refine keeps_bind (keeps_ofExcept _) fun digest => ?_
    split
    · exact keeps_fail _
    · exact keeps_bind (keeps_ofExcept _) fun _ => keeps_pure _
  · exact keeps_fail _

theorem waitForConvergence_keeps (control : Option EmbeddingCallControl) (startedAtNs : Nat) :
    Keeps (quietly quiet) (waitForConvergence client control startedAtNs) := by
  unfold waitForConvergence
  refine keeps_bind (checkControl_keeps hq control) fun _ =>
    keeps_bind (keeps_query _) fun now => ?_
  split
  · exact keeps_fail _
  · exact keeps_bind (remainingOr_keeps hq _ control) fun _ => keeps_pure _

omit hq in
theorem recoveryStart_keeps (startedAtNs : Option Nat) :
    Keeps (quietly quiet) (recoveryStart startedAtNs) := by
  unfold recoveryStart
  split
  · exact keeps_pure _
  · exact keeps_query _

theorem connectLoop_keeps (intent : EmbeddingConnectIntent) (maySpawn : Bool)
    (control : Option EmbeddingCallControl) (recover : Bool) (fuel : Nat) :
    ∀ spawnedAtNs recoveryStartedAtNs, Keeps (quietly quiet)
      (connectLoop client intent maySpawn control recover fuel spawnedAtNs
        recoveryStartedAtNs) := by
  induction fuel with
  | zero =>
    intro spawnedAtNs recoveryStartedAtNs
    exact keeps_stuck
  | succ fuel ih =>
    intro spawnedAtNs recoveryStartedAtNs
    unfold connectLoop
    refine keeps_bind (checkControl_keeps hq control) fun _ =>
      keeps_bind (remainingOr_keeps hq _ control) fun connectBudget =>
        keeps_bind (keeps_query _) fun outcome => ?_
    split
    · exact keeps_fail _
    · refine keeps_bind (configureExchangeTimeout_keeps client _) fun _ =>
        keeps_bind (keeps_attempt (hello_keeps hq client _ _)) fun greeted => ?_
      split
      · exact keeps_bind (checkControl_keeps hq control) fun _ => keeps_pure _
      · split
        · exact keeps_bind (recoveryStart_keeps _) fun startedAtNs =>
            keeps_bind (waitForConvergence_keeps hq client control _) fun _ => ih _ _
        · exact keeps_fail _
    · split
      · refine keeps_bind (keeps_query _) fun spawned => ?_
        split
        · exact keeps_fail _
        · exact keeps_bind (keeps_query _) fun now => ih _ _
      · exact keeps_fail _
      · exact keeps_bind (waitForConvergence_keeps hq client control _) fun _ => ih _ _
    · split
      · exact keeps_bind (waitForConvergence_keeps hq client control _) fun _ => ih _ _
      · split
        · exact keeps_bind (recoveryStart_keeps _) fun startedAtNs =>
            keeps_bind (waitForConvergence_keeps hq client control _) fun _ => ih _ _
        · exact keeps_fail _

theorem connectWithControl_keeps (fuel : Nat) (intent : EmbeddingConnectIntent)
    (maySpawn : Bool) (control : Option EmbeddingCallControl) (recover : Bool) :
    Keeps (quietly quiet)
      (connectWithControl client fuel intent maySpawn control recover) :=
  connectLoop_keeps hq client intent maySpawn control recover fuel none none

variable (hcancel : ∀ id compatibility target token,
  quiet (.submitted (request id compatibility (.cancel target token))) = true)
include hcancel

theorem sendCancel_keeps (fuel : Nat) (targetRequestId cancelToken : String) :
    Keeps (quietly quiet) (sendCancel client fuel targetRequestId cancelToken) := by
  unfold sendCancel
  refine keeps_bind (connectWithControl_keeps hq client _ _ _ _ _) fun _ =>
    keeps_bind (configureExchangeTimeout_keeps client _) fun _ =>
      keeps_bind (newUuid_keeps client) fun requestId =>
        keeps_bind (exchange_keeps client (hcancel _ _ _ _)) fun answer =>
          keeps_bind (keeps_ofExcept _) fun result => ?_
  split
  · exact keeps_pure _
  · exact keeps_pure _
  · exact keeps_fail _

theorem watchControlledCancellation_keeps (fuel : Nat) (requestId cancelToken : String) :
    Keeps (quietly quiet) (watchControlledCancellation client fuel requestId cancelToken) := by
  unfold watchControlledCancellation
  refine keeps_bind (keeps_query _) fun triggered => ?_
  split
  · exact keeps_bind (keeps_attempt (sendCancel_keeps hq client hcancel _ _ _)) fun _ =>
      keeps_pure _
  · exact keeps_pure _

omit hcancel in
theorem resolveCall_keeps (control : EmbeddingCallControl) (snapshot : EmbeddingServerSnapshot)
    (exchanged : Except ClientError (EmbeddingProtocolResponse × List UInt8)) :
    Keeps (quietly quiet) (resolveCall control snapshot exchanged) := by
  unfold resolveCall
  exact keeps_bind (check_keeps hq control) fun _ =>
    keeps_bind (keeps_ofExcept _) fun answer =>
      keeps_bind (keeps_ofExcept _) fun result =>
        keeps_bind (keeps_ofExcept _) fun _ => keeps_pure _

end Quiet

def quietRpc : Event → Bool
  | .submitted r => !isPureRpc r.operation
  | .attemptEnded _ => false
  | .cancelledRead _ | .deadlineRead _ _ => true

theorem quietRpc_background : Background quietRpc where
  cancelledRead _ := rfl
  deadlineRead _ _ := rfl
  hello _ _ _ _ _ _ _ := rfl

def isPureSubmission : Event → Bool
  | .submitted r => isPureRpc r.operation
  | _ => false

def lastCancelled (log : List Event) : Option Bool :=
  log.findSome? fun
    | .cancelledRead value => some value
    | _ => none

def lastDeadline (log : List Event) : Option (Nat × Nat) :=
  log.findSome? fun
    | .deadlineRead now deadline => some (now, deadline)
    | _ => none

/-- The last thing the caller's control showed: not cancelled, and a clock reading before
the active deadline. -/
def ControlLive (log : List Event) : Prop :=
  lastCancelled log = some false ∧
    ∃ now deadline, lastDeadline log = some (now, deadline) ∧ now < deadline

/-- The attempt that submitted `r` ended in a server loss, with nothing else submitted or
ended in between. -/
def EndedInLoss (r : EmbeddingProtocolRequest) (log : List Event) : Prop :=
  ∃ after error during before,
    log = after ++ .attemptEnded (some error) :: (during ++ .submitted r :: before) ∧
    isServerLoss error = true ∧ ∀ e ∈ during, quietRpc e = true

/-- What holds of the log of one pure call at every point of it, newest event first. -/
structure ReplayBound (log : List Event) : Prop where
  at_most_two : log.countP isPureSubmission ≤ 2
  second_submission : ∀ later r₂ earlier, log = later ++ .submitted r₂ :: earlier →
    isPureRpc r₂.operation = true →
    ∀ r₁, .submitted r₁ ∈ earlier → isPureRpc r₁.operation = true →
      r₁.requestId ≠ r₂.requestId ∧ EndedInLoss r₁ earlier ∧ ControlLive earlier
  no_replay : ∀ later error earlier, log = later ++ .attemptEnded (some error) :: earlier →
    isServerLoss error = false →
    ∀ r, .submitted r ∈ later → isPureRpc r.operation = false

theorem replayBound_nil : ReplayBound [] where
  at_most_two := by simp
  second_submission := by simp
  no_replay := by simp

theorem replayBound_quiet {e : Event} {log : List Event} (he : quietRpc e = true)
    (h : ReplayBound log) : ReplayBound (e :: log) := by
  have hsub : isPureSubmission e = false := by
    cases e <;> simp_all [quietRpc, isPureSubmission]
  refine ⟨?_, ?_, ?_⟩
  · rw [List.countP_cons_of_neg (by simp [hsub])]
    exact h.at_most_two
  · intro later r₂ earlier heq hpure
    rcases List.cons_eq_append_iff.mp heq with ⟨-, hcons⟩ | ⟨rest, -, hrest⟩
    · obtain ⟨rfl, -⟩ := List.cons.inj hcons
      simp [quietRpc, hpure] at he
    · exact h.second_submission rest r₂ earlier hrest hpure
  · intro later error earlier heq hloss r hr
    rcases List.cons_eq_append_iff.mp heq with ⟨rfl, -⟩ | ⟨rest, rfl, hrest⟩
    · exact absurd hr List.not_mem_nil
    · rcases List.mem_cons.mp hr with rfl | hr
      · simpa [quietRpc] using he
      · exact h.no_replay rest error earlier hrest hloss r hr

theorem replayBound_append {new log : List Event} (hnew : ∀ e ∈ new, quietRpc e = true)
    (h : ReplayBound log) : ReplayBound (new ++ log) := by
  induction new with
  | nil => exact h
  | cons e new ih =>
    refine replayBound_quiet (hnew e List.mem_cons_self) (ih ?_)
    intro e' he'
    exact hnew e' (List.mem_cons_of_mem e he')

theorem replayBound_ended {ended : Option ClientError} {log : List Event}
    (h : ReplayBound log) : ReplayBound (.attemptEnded ended :: log) := by
  refine ⟨?_, ?_, ?_⟩
  · rw [List.countP_cons_of_neg (by simp [isPureSubmission])]
    exact h.at_most_two
  · intro later r₂ earlier heq hpure
    rcases List.cons_eq_append_iff.mp heq with ⟨-, hcons⟩ | ⟨rest, -, hrest⟩
    · exact absurd (List.cons.inj hcons).1 (by simp)
    · exact h.second_submission rest r₂ earlier hrest hpure
  · intro later error earlier heq hloss r hr
    rcases List.cons_eq_append_iff.mp heq with ⟨rfl, -⟩ | ⟨rest, rfl, hrest⟩
    · exact absurd hr List.not_mem_nil
    · rcases List.mem_cons.mp hr with hr | hr
      · exact absurd hr (by simp)
      · exact h.no_replay rest error earlier hrest hloss r hr

section Replay
variable {V : Type} (client : PerUserEmbeddingClient V)

/-- One earlier submission, lost, whose identifier was drawn before the `drawn`-th. -/
def LostOnce (drawn : Nat) (log : List Event) : Prop :=
  ∃ after error during r before,
    log = after ++ .attemptEnded (some error) :: (during ++ .submitted r :: before) ∧
    isServerLoss error = true ∧ isPureRpc r.operation = true ∧
    (∃ i < drawn, r.requestId = client.uuid i) ∧
    (∀ e ∈ after, quietRpc e = true) ∧ (∀ e ∈ during, quietRpc e = true) ∧
    (∀ e ∈ before, quietRpc e = true)

/-- Between attempts: nothing was submitted yet, or the replay was spent on a loss. -/
def Ready (replayed : Bool) (drawn : Nat) (log : List Event) : Prop :=
  (∀ e ∈ log, quietRpc e = true) ∨ (replayed = true ∧ LostOnce client drawn log)

/-- During an attempt: its request went out while the control was live. -/
def InFlight (replayed : Bool) (s : ClientState) : Prop :=
  ∃ during r before,
    s.log = during ++ .submitted r :: before ∧
    (∀ e ∈ during, quietRpc e = true) ∧ isPureRpc r.operation = true ∧
    ControlLive before ∧
    ∃ i < s.uuids, r.requestId = client.uuid i ∧ Ready client replayed i before

theorem ready_append {replayed : Bool} {drawn : Nat} {new log : List Event}
    (h : Ready client replayed drawn log) (hnew : ∀ e ∈ new, quietRpc e = true) :
    Ready client replayed drawn (new ++ log) := by
  rcases h with hquiet | ⟨hreplayed, after, error, during, r, before, rfl, hloss, hpure, hid,
    hafter, hduring, hbefore⟩
  · exact .inl (List.forall_mem_append.mpr ⟨hnew, hquiet⟩)
  · refine .inr ⟨hreplayed, new ++ after, error, during, r, before, ?_, hloss, hpure, hid,
      List.forall_mem_append.mpr ⟨hnew, hafter⟩, hduring, hbefore⟩
    rw [List.append_assoc]

theorem ready_mono {replayed : Bool} {drawn drawn' : Nat} {log : List Event}
    (h : Ready client replayed drawn log) (hle : drawn ≤ drawn') :
    Ready client replayed drawn' log := by
  rcases h with hquiet | ⟨hreplayed, after, error, during, r, before, heq, hloss, hpure,
    ⟨i, hi, hid⟩, hrest⟩
  · exact .inl hquiet
  · exact .inr ⟨hreplayed, after, error, during, r, before, heq, hloss, hpure,
      ⟨i, Nat.lt_of_lt_of_le hi hle, hid⟩, hrest⟩

theorem ready_of_quietly {replayed : Bool} {s t : ClientState}
    (h : Ready client replayed s.uuids s.log) (hst : (quietly quietRpc).rel s t) :
    Ready client replayed t.uuids t.log := by
  obtain ⟨⟨new, hlog, hnew⟩, hdrawn⟩ := hst
  rw [hlog]
  exact ready_append client (ready_mono client h hdrawn) hnew

theorem inFlight_of_quietly {replayed : Bool} {s t : ClientState}
    (h : InFlight client replayed s) (hst : (quietly quietRpc).rel s t) :
    InFlight client replayed t := by
  obtain ⟨⟨new, hlog, hnew⟩, hdrawn⟩ := hst
  obtain ⟨during, r, before, heq, hduring, hpure, hlive, i, hi, hid, hready⟩ := h
  refine ⟨new ++ during, r, before, ?_, ?_, hpure, hlive, i, Nat.lt_of_lt_of_le hi hdrawn,
    hid, hready⟩
  · rw [hlog, heq, List.append_assoc]
  · exact List.forall_mem_append.mpr ⟨hnew, hduring⟩

theorem not_submitted_of_quiet {log : List Event} (hquiet : ∀ e ∈ log, quietRpc e = true)
    {r : EmbeddingProtocolRequest} (hr : .submitted r ∈ log) :
    isPureRpc r.operation = false := by
  simpa [quietRpc] using hquiet _ hr

theorem countP_eq_zero_of_quiet {log : List Event}
    (hquiet : ∀ e ∈ log, quietRpc e = true) : log.countP isPureSubmission = 0 := by
  rw [List.countP_eq_zero]
  intro e he
  have := hquiet e he
  cases e <;> simp_all [quietRpc, isPureSubmission]

theorem ready_count {replayed : Bool} {drawn : Nat} {log : List Event}
    (h : Ready client replayed drawn log) : log.countP isPureSubmission ≤ 1 := by
  rcases h with hquiet | ⟨-, after, error, during, r, before, rfl, -, hpure, -, hafter,
    hduring, hbefore⟩
  · rw [countP_eq_zero_of_quiet hquiet]
    exact Nat.zero_le 1
  · rw [List.countP_append, List.countP_cons, List.countP_append, List.countP_cons,
      countP_eq_zero_of_quiet hafter, countP_eq_zero_of_quiet hduring,
      countP_eq_zero_of_quiet hbefore]
    simp [isPureSubmission, hpure]

/-- Every attempt that ended before a further attempt is ready ended in a loss. -/
theorem ready_ended {replayed : Bool} {drawn : Nat} {log : List Event}
    (h : Ready client replayed drawn log) {ended : Option ClientError}
    (hended : .attemptEnded ended ∈ log) :
    ∃ error, ended = some error ∧ isServerLoss error = true := by
  have hnot : ∀ l : List Event, (∀ e ∈ l, quietRpc e = true) →
      .attemptEnded ended ∉ l := by
    intro l hl hmem
    exact absurd (hl _ hmem) (by simp [quietRpc])
  rcases h with hquiet | ⟨-, after, error, during, r, before, rfl, hloss, -, -, hafter,
    hduring, hbefore⟩
  · exact absurd hended (hnot _ hquiet)
  · rcases List.mem_append.mp hended with hmem | hmem
    · exact absurd hmem (hnot _ hafter)
    · rcases List.mem_cons.mp hmem with heq | hmem
      · exact ⟨error, Event.attemptEnded.inj heq, hloss⟩
      · rcases List.mem_append.mp hmem with hmem | hmem
        · exact absurd hmem (hnot _ hduring)
        · rcases List.mem_cons.mp hmem with heq | hmem
          · exact absurd heq (by simp)
          · exact absurd hmem (hnot _ hbefore)

theorem ready_submitted {replayed : Bool} {drawn : Nat} {log : List Event}
    (h : Ready client replayed drawn log) {r₁ : EmbeddingProtocolRequest}
    (hr₁ : .submitted r₁ ∈ log) (hpure₁ : isPureRpc r₁.operation = true) :
    EndedInLoss r₁ log ∧ ∃ i < drawn, r₁.requestId = client.uuid i := by
  have hnot : ∀ l : List Event, (∀ e ∈ l, quietRpc e = true) → .submitted r₁ ∉ l := by
    intro l hl hmem
    have := not_submitted_of_quiet hl hmem
    rw [this] at hpure₁
    exact absurd hpure₁ (by simp)
  rcases h with hquiet | ⟨-, after, error, during, r, before, rfl, hloss, -, hid, hafter,
    hduring, hbefore⟩
  · exact absurd hr₁ (hnot _ hquiet)
  · rcases List.mem_append.mp hr₁ with hmem | hmem
    · exact absurd hmem (hnot _ hafter)
    · rcases List.mem_cons.mp hmem with heq | hmem
      · exact absurd heq (by simp)
      · rcases List.mem_append.mp hmem with hmem | hmem
        · exact absurd hmem (hnot _ hduring)
        · rcases List.mem_cons.mp hmem with heq | hmem
          · obtain rfl := Event.submitted.inj heq
            exact ⟨⟨after, error, during, before, rfl, hloss, hduring⟩, hid⟩
          · exact absurd hmem (hnot _ hbefore)

/-- A returned `remaining` has just seen the control live. -/
theorem remaining_live {control : EmbeddingCallControl} {deadline : Nat}
    (hdeadline : control.activeDeadline = some deadline) (maximum : Nat) (s : ClientState) :
    wp Exits.any (control.remaining maximum) (fun _ t => ControlLive t.log) s := by
  unfold EmbeddingCallControl.remaining EmbeddingCallControl.check
    EmbeddingCallControl.timeLeft emit
  simp only [hdeadline, wp_bind, wp_query, wp_modify]
  intro a _
  refine ⟨trivial, ?_⟩
  split
  · exact trivial
  · rename_i hcancelled
    simp only [wp_bind, wp_query, wp_modify]
    intro b _
    refine ⟨trivial, ?_⟩
    split
    · exact trivial
    · simp only [wp_pure]
      intro c _
      refine ⟨trivial, ?_⟩
      split
      · rw [wp_bind]
        exact wp_any (fun _ _ => trivial) _ _
      · rename_i hleft
        refine ⟨by simpa [lastCancelled] using hcancelled, c.instant, deadline, rfl, ?_⟩
        omega

theorem arm_deadline (control : EmbeddingCallControl) (s : ClientState) :
    wp Exits.any control.arm (fun c _ => ∃ deadline, c.activeDeadline = some deadline) s := by
  have harmed : ∀ c : EmbeddingCallControl, c.operationDeadline ≠ none →
      ∃ deadline, c.activeDeadline = some deadline := by
    intro c hc
    unfold EmbeddingCallControl.activeDeadline
    split
    · exact ⟨_, rfl⟩
    · exact ⟨_, rfl⟩
    · exact ⟨_, rfl⟩
    · rename_i hnone
      exact absurd hnone hc
  unfold EmbeddingCallControl.arm
  rw [wp_bind]
  unfold EmbeddingCallControl.setOperationDeadline
  split
  · rename_i deadline hset
    rw [wp_pure, wp_bind]
    exact wp_any (fun _ _ => harmed control (by rw [hset]; simp)) _ _
  · simp only [wp_bind, wp_query]
    intro a _
    unfold instantCheckedAdd
    split
    · rw [wp_pure, wp_pure]
      exact wp_any (fun _ _ => harmed _ (by simp)) _ _
    · exact trivial

/-- Nothing ended in an error that was not a server loss. -/
def AllLost (log : List Event) : Prop :=
  ∀ error, .attemptEnded (some error) ∈ log → isServerLoss error = true

/-- Where a pure call can be interrupted, fail or run out of fuel. -/
def callExits : Exits World ClientState ClientError where
  answers _ := True
  passed s := ReplayBound s.log
  failed e s := ReplayBound s.log ∧
    ∀ error, .attemptEnded (some error) ∈ s.log → isServerLoss error = false → error = e
  stuck s := ReplayBound s.log ∧ AllLost s.log

def Between (replayed : Bool) (s : ClientState) : Prop :=
  Ready client replayed s.uuids s.log ∧ ReplayBound s.log

def Sent (replayed : Bool) (s : ClientState) : Prop :=
  InFlight client replayed s ∧ ReplayBound s.log

theorem replayBound_of_quietly {s t : ClientState} (h : ReplayBound s.log)
    (hst : (quietly quietRpc).rel s t) : ReplayBound t.log := by
  obtain ⟨⟨new, hlog, hnew⟩, -⟩ := hst
  rw [hlog]
  exact replayBound_append hnew h

theorem between_of_quietly {replayed : Bool} {s t : ClientState}
    (h : Between client replayed s) (hst : (quietly quietRpc).rel s t) :
    Between client replayed t :=
  ⟨ready_of_quietly client h.1 hst, replayBound_of_quietly h.2 hst⟩

theorem sent_of_quietly {replayed : Bool} {s t : ClientState}
    (h : Sent client replayed s) (hst : (quietly quietRpc).rel s t) :
    Sent client replayed t :=
  ⟨inFlight_of_quietly client h.1 hst, replayBound_of_quietly h.2 hst⟩

theorem between_allLost {replayed : Bool} {s : ClientState} (h : Between client replayed s) :
    AllLost s.log := by
  intro error herror
  obtain ⟨error', heq, hloss⟩ := ready_ended client h.1 herror
  obtain rfl := Option.some.inj heq
  exact hloss

theorem sent_allLost {replayed : Bool} {s : ClientState} (h : Sent client replayed s) :
    AllLost s.log := by
  obtain ⟨⟨during, r, before, hlog, hduring, -, -, i, -, -, hready⟩, -⟩ := h
  intro error herror
  rw [hlog] at herror
  rcases List.mem_append.mp herror with hmem | hmem
  · exact absurd (hduring _ hmem) (by simp [quietRpc])
  · rcases List.mem_cons.mp hmem with heq | hmem
    · exact absurd heq (by simp)
    · obtain ⟨error', heq, hloss⟩ := ready_ended client hready hmem
      obtain rfl := Option.some.inj heq
      exact hloss

theorem callExits_failed_of_allLost {s : ClientState} (hbound : ReplayBound s.log)
    (hlost : AllLost s.log) (e : ClientError) : callExits.failed e s := by
  refine ⟨hbound, ?_⟩
  intro error herror hloss
  rw [hlost error herror] at hloss
  exact absurd hloss (by simp)

/-- A condition that quiet events keep and that is fit to stop in. -/
structure Phase (I : ClientState → Prop) : Prop where
  keeps : ∀ {s t}, I s → (quietly quietRpc).rel s t → I t
  bound : ∀ {s}, I s → ReplayBound s.log
  lost : ∀ {s}, I s → AllLost s.log

theorem between_phase (replayed : Bool) : Phase (Between client replayed) where
  keeps := between_of_quietly client
  bound := fun h => h.2
  lost := between_allLost client

theorem sent_phase (replayed : Bool) : Phase (Sent client replayed) where
  keeps := sent_of_quietly client
  bound := fun h => h.2
  lost := sent_allLost client

/-- Between attempts, with the `i`-th identifier drawn for the next one. -/
def Drawn (replayed : Bool) (i : Nat) (s : ClientState) : Prop :=
  Between client replayed s ∧ i < s.uuids ∧ Ready client replayed i s.log

theorem drawn_phase (replayed : Bool) (i : Nat) : Phase (Drawn client replayed i) where
  keeps := by
    rintro s t ⟨hs, hi, hready⟩ hst
    refine ⟨between_of_quietly client hs hst, Nat.lt_of_lt_of_le hi hst.2, ?_⟩
    obtain ⟨⟨new, hlog, hnew⟩, -⟩ := hst
    rw [hlog]
    exact ready_append client hready hnew
  bound := fun h => h.1.2
  lost := fun h => between_allLost client h.1

theorem emit_wp {e : Event} {X : Exits World ClientState ClientError}
    {Q : Unit → ClientState → Prop} {s : ClientState} :
    wp X (emit e) Q s ↔
      X.passed { s with log := e :: s.log } ∧ Q () { s with log := e :: s.log } := Iff.rfl

theorem newUuid_wp {X : Exits World ClientState ClientError} {Q : String → ClientState → Prop}
    {s : ClientState} :
    wp X (newUuid client) Q s ↔
      X.passed { s with uuids := s.uuids + 1 } ∧
        Q (client.uuid s.uuids) { s with uuids := s.uuids + 1 } := Iff.rfl

/-- Setting the stream's timeouts leaves the whole state as it was. -/
theorem configureExchangeTimeout_silent (timeout : Nat) {Q : Unit → ClientState → Prop}
    {s : ClientState} (hs : ReplayBound s.log ∧ AllLost s.log) (hQ : Q () s) :
    wp callExits (configureExchangeTimeout client timeout) Q s := by
  have hfailed : ∀ e, callExits.failed e s := callExits_failed_of_allLost hs.1 hs.2
  unfold configureExchangeTimeout
  split
  · exact hfailed _
  · rw [wp_bind, wp_query]
    intro a _
    split
    · exact hfailed _
    · rw [wp_bind, wp_query]
      intro b _
      split
      · exact hfailed _
      · exact hQ

/-- A quiet computation stays in its phase wherever it stops, its failures caught or not. -/
theorem Phase.wp {I : ClientState → Prop} (hI : Phase I) {α : Type} {p : Call α}
    (hp : Keeps (quietly quietRpc) p) {s : ClientState} (hs : I s)
    {failed : ClientError → ClientState → Prop} {Q : α → ClientState → Prop}
    (hfailed : ∀ e t, I t → failed e t) (hQ : ∀ a t, I t → Q a t) :
    p.wp { callExits with failed := failed } Q s := by
  refine hp.wp ?_ ?_ ?_ ?_
  · intro t hst
    exact hI.bound (hI.keeps hs hst)
  · intro e t hst
    exact hfailed e t (hI.keeps hs hst)
  · intro t hst
    have ht := hI.keeps hs hst
    exact ⟨hI.bound ht, hI.lost ht⟩
  · intro a t hst
    exact hQ a t (hI.keeps hs hst)

theorem Phase.wp_post {I : ClientState → Prop} (hI : Phase I) {α : Type} {p : Call α}
    (hp : Keeps (quietly quietRpc) p) {s : ClientState} (hs : I s)
    {Q Q' : α → ClientState → Prop} (hpost : p.wp Exits.any Q' s)
    (hQ : ∀ a t, I t → Q' a t → Q a t) : p.wp callExits Q s := by
  refine hp.wp_post hpost ?_ ?_ ?_ ?_
  · intro t hst
    exact hI.bound (hI.keeps hs hst)
  · intro e t hst
    have ht := hI.keeps hs hst
    exact callExits_failed_of_allLost (hI.bound ht) (hI.lost ht) e
  · intro t hst
    have ht := hI.keeps hs hst
    exact ⟨hI.bound ht, hI.lost ht⟩
  · intro a t hst hpost
    exact hQ a t (hI.keeps hs hst) hpost

theorem Phase.failed {I : ClientState → Prop} (hI : Phase I) (e : ClientError)
    (s : ClientState) (hs : I s) : callExits.failed e s :=
  callExits_failed_of_allLost (hI.bound hs) (hI.lost hs) e

variable (huuid : Function.Injective client.uuid)
include huuid

theorem replayBound_submit {replayed : Bool} {i : Nat} {r : EmbeddingProtocolRequest}
    {log : List Event} (hready : Ready client replayed i log) (hlive : ControlLive log)
    (hid : r.requestId = client.uuid i) (h : ReplayBound log) :
    ReplayBound (.submitted r :: log) := by
  refine ⟨?_, ?_, ?_⟩
  · have := ready_count client hready
    rw [List.countP_cons]
    split <;> omega
  · intro later r₂ earlier heq hpure r₁ hr₁ hpure₁
    rcases List.cons_eq_append_iff.mp heq with ⟨-, hcons⟩ | ⟨rest, -, hrest⟩
    · obtain ⟨hr, rfl⟩ := List.cons.inj hcons
      obtain rfl := Event.submitted.inj hr
      obtain ⟨hlost, j, hj, hjd⟩ := ready_submitted client hready hr₁ hpure₁
      refine ⟨?_, hlost, hlive⟩
      rw [hjd, hid]
      intro hsame
      exact absurd (huuid hsame) (Nat.ne_of_lt hj)
    · exact h.second_submission rest r₂ earlier hrest hpure r₁ hr₁ hpure₁
  · intro later error earlier heq hloss
    rcases List.cons_eq_append_iff.mp heq with ⟨-, hcons⟩ | ⟨rest, -, hrest⟩
    · exact absurd (List.cons.inj hcons).1 (by simp)
    · have hmem : .attemptEnded (some error) ∈ log := by
        rw [hrest]
        simp
      obtain ⟨error', herror, hloss'⟩ := ready_ended client hready hmem
      obtain rfl := Option.some.inj herror
      rw [hloss'] at hloss
      exact absurd hloss (by simp)

/-- Once the request is handed to the stream, the attempt is in flight wherever it stops. -/
theorem watchedExchange_wp {replayed : Bool} {s : ClientState} {i : Nat}
    (hs : Between client replayed s) (hlive : ControlLive s.log) (hi : i < s.uuids)
    (hready : Ready client replayed i s.log) {sent : EmbeddingProtocolRequest}
    (hid : sent.requestId = client.uuid i) (hpure : isPureRpc sent.operation = true)
    (fuel : Nat) (cancelToken : String)
    {Q : Except ClientError (EmbeddingProtocolResponse × List UInt8) → ClientState → Prop}
    (hQ : ∀ a t, Sent client replayed t → Q a t) :
    wp callExits (attempt (watchedExchange client fuel sent.requestId cancelToken sent)) Q s := by
  have hsent : Sent client replayed { s with log := .submitted sent :: s.log } :=
    ⟨⟨[], sent, s.log, rfl, by simp, hpure, hlive, i, hi, hid, hready⟩,
      replayBound_submit client huuid hready hlive hid hs.2⟩
  have hwatch := watchControlledCancellation_keeps quietRpc_background client
    (fun _ _ _ _ => rfl) fuel sent.requestId cancelToken
  rw [wp_attempt]
  unfold watchedExchange submit emit
  simp only [wp_bind, wp_attempt, wp_modify, wp_query]
  refine ⟨hsent.2, ?_⟩
  intro a _
  split
  · rw [wp_fail]
    refine (sent_phase client replayed).wp hwatch hsent (fun e t ht => hQ _ t ht) ?_
    intro _ t ht
    exact hQ _ t ht
  · rw [wp_pure]
    refine (sent_phase client replayed).wp hwatch hsent (fun e t ht => hQ _ t ht) ?_
    intro _ t ht
    exact (sent_phase client replayed).wp (readResponse_keeps client sent) ht
      (fun e u hu => hQ _ u hu) fun _ u hu => hQ _ u hu

omit huuid in
/-- An attempt that began before any replay and ended in a loss leaves exactly one lost
submission behind. -/
theorem between_of_lost {s : ClientState} (hs : Sent client false s) {error : ClientError}
    (hloss : isServerLoss error = true) :
    Between client true { s with log := .attemptEnded (some error) :: s.log } := by
  refine ⟨?_, replayBound_ended hs.2⟩
  obtain ⟨⟨during, r, before, hlog, hduring, hpure, -, i, hi, hid, hready⟩, -⟩ := hs
  have hbefore : ∀ e ∈ before, quietRpc e = true := by
    rcases hready with hquiet | ⟨hreplayed, -⟩
    · exact hquiet
    · exact absurd hreplayed (by simp)
  right
  refine ⟨rfl, [], error, during, r, before, ?_, hloss, hpure, ⟨i, hi, hid⟩, by simp,
    hduring, hbefore⟩
  simp [hlog]

theorem replayLoop_wp (operationTimeout : Nat) (operation : Nat → String → EmbeddingOperation)
    (hpure : ∀ deadlineMs token, isPureRpc (operation deadlineMs token) = true) (fuel : Nat) :
    ∀ control replayed recover attempts s, Between client replayed s →
      wp callExits (replayLoop client operationTimeout operation fuel control replayed recover
        attempts) (fun _ t => ReplayBound t.log ∧ AllLost t.log) s := by
  induction fuel with
  | zero =>
    intro control replayed recover attempts s hs
    exact ⟨hs.2, between_allLost client hs⟩
  | succ fuel ih =>
    intro control replayed recover attempts s hs
    have hbetween := between_phase client replayed
    unfold replayLoop
    rw [wp_bind]
    refine hbetween.wp (check_keeps quietRpc_background control) hs hbetween.failed ?_
    intro _ s₁ hs₁
    rw [wp_bind, wp_attempt]
    refine hbetween.wp (connectWithControl_keeps quietRpc_background client _ _ _ _ _) hs₁ ?_ ?_
    · intro error s₂ hs₂
      dsimp only
      split
      · rename_i hcond
        have hfresh : replayed = false := by simp_all
        rw [wp_bind]
        refine hbetween.wp (check_keeps quietRpc_background control) hs₂ hbetween.failed ?_
        intro _ s₃ hs₃
        refine ih control true recover attempts s₃ ⟨?_, hs₃.2⟩
        rcases hs₃.1 with hquiet | ⟨hreplayed, -⟩
        · exact .inl hquiet
        · rw [hfresh] at hreplayed
          exact absurd hreplayed (by simp)
      · exact hbetween.failed error s₂ hs₂
    · intro connection s₂ hs₂
      dsimp only
      rw [wp_bind]
      refine hbetween.wp_post (arm_keeps quietRpc_background control) hs₂
        (arm_deadline control s₂) ?_
      rintro armed s₃ hs₃ ⟨deadline, hdeadline⟩
      have hdrawn : Drawn client replayed s₃.uuids { s₃ with uuids := s₃.uuids + 1 + 1 } :=
        ⟨⟨ready_mono client hs₃.1 (Nat.le_add_right _ 2), hs₃.2⟩,
          Nat.lt_succ_of_lt (Nat.lt_succ_self _),
          hs₃.1⟩
      rw [wp_bind, newUuid_wp]
      refine ⟨hs₃.2, ?_⟩
      rw [wp_bind, newUuid_wp]
      refine ⟨hs₃.2, ?_⟩
      rw [wp_bind]
      refine (drawn_phase client replayed _).wp_post
        (remaining_keeps quietRpc_background armed operationTimeout) hdrawn
        (remaining_live hdeadline operationTimeout _) ?_
      intro remaining s₄ hs₄ hlive
      rw [wp_bind]
      refine configureExchangeTimeout_silent client remaining
        ⟨hs₄.1.2, between_allLost client hs₄.1⟩ ?_
      rw [wp_bind, wp_query]
      intro submittedWorld _
      rw [wp_bind]
      refine watchedExchange_wp client huuid hs₄.1 hlive hs₄.2.1 hs₄.2.2 rfl (hpure _ _) fuel _ ?_
      intro exchanged s₅ hs₅
      have hsent := sent_phase client replayed
      rw [wp_bind, wp_attempt]
      refine hsent.wp (resolveCall_keeps quietRpc_background armed _ exchanged) hs₅ ?_ ?_
      · intro error s₆ hs₆
        rw [wp_bind, wp_query]
        intro completedWorld _
        rw [wp_bind, emit_wp]
        refine ⟨replayBound_ended hs₆.2, ?_⟩
        dsimp only [errorOf]
        split
        · rename_i hcond
          obtain ⟨rfl, hloss⟩ : replayed = false ∧ isServerLoss error = true := by simp_all
          have hlost := between_of_lost client hs₆ hloss
          have hreplayed := between_phase client true
          rw [wp_bind]
          refine hreplayed.wp (check_keeps quietRpc_background armed) hlost hreplayed.failed ?_
          intro _ s₇ hs₇
          exact ih armed true true _ s₇ hs₇
        · refine ⟨replayBound_ended hs₆.2, ?_⟩
          intro error' herror' hloss
          rcases List.mem_cons.mp herror' with heq | hmem
          · exact Option.some.inj (Event.attemptEnded.inj heq)
          · rw [sent_allLost client hs₆ error' hmem] at hloss
            exact absurd hloss (by simp)
      · intro result s₆ hs₆
        rw [wp_bind, wp_query]
        intro completedWorld _
        rw [wp_bind, emit_wp]
        refine ⟨replayBound_ended hs₆.2, replayBound_ended hs₆.2, ?_⟩
        intro error herror
        rcases List.mem_cons.mp herror with heq | hmem
        · exact absurd (Event.attemptEnded.inj heq) (by simp [errorOf])
        · exact sent_allLost client hs₆ error hmem

theorem callPure_wp (fuel operationTimeout : Nat) (outerTimeout : Option Nat)
    (operation : Nat → String → EmbeddingOperation)
    (hpure : ∀ deadlineMs token, isPureRpc (operation deadlineMs token) = true) (drawn : Nat) :
    wp callExits (callPureWithReplayControlledAndAttempts client fuel operationTimeout
      outerTimeout operation) (fun _ t => ReplayBound t.log ∧ AllLost t.log) ⟨[], drawn⟩ := by
  have hstart : Between client false ⟨[], drawn⟩ := ⟨.inl (by simp), replayBound_nil⟩
  have hbetween := between_phase client false
  unfold callPureWithReplayControlledAndAttempts
  rw [wp_bind]
  refine hbetween.wp (new_keeps quietRpc_background operationTimeout outerTimeout) hstart
    hbetween.failed ?_
  intro control s hs
  exact replayLoop_wp client huuid operationTimeout operation hpure fuel control false false []
    s hs

omit huuid in
/-- Checks on the answer end the call without touching the log. -/
theorem ofExcept_wp {α : Type} (r : Except ClientError α) {Q : α → ClientState → Prop}
    {s : ClientState} (hs : ReplayBound s.log ∧ AllLost s.log) (hQ : ∀ a, Q a s) :
    wp callExits (ofExcept r : Call α) Q s :=
  wp_ofExcept (fun a _ => hQ a) fun e _ => callExits_failed_of_allLost hs.1 hs.2 e

theorem embedQuery_wp (fuel : Nat) (text : String) (maximumTimeout : Option Nat)
    (drawn : Nat) :
    wp callExits (embedQuery client fuel text maximumTimeout)
      (fun _ t => ReplayBound t.log ∧ AllLost t.log) ⟨[], drawn⟩ := by
  unfold embedQuery
  rw [wp_bind]
  refine ofExcept_wp _ ⟨replayBound_nil, by simp [AllLost]⟩ fun _ => ?_
  rw [wp_bind]
  refine wp_mono (callPure_wp client huuid fuel _ maximumTimeout _ (fun _ _ => rfl) drawn)
    (fun _ h => h) (fun _ h => h) (fun _ _ h => h) (fun _ h => h) ?_
  intro answer t ht
  rw [wp_bind]
  exact ofExcept_wp _ ht fun _ => ht

theorem embedDocuments_wp (fuel : Nat) (texts : List String) (maximumTimeout : Option Nat)
    (drawn : Nat) :
    wp callExits (embedDocuments client fuel texts maximumTimeout)
      (fun _ t => ReplayBound t.log ∧ AllLost t.log) ⟨[], drawn⟩ := by
  unfold embedDocuments
  split
  · exact ⟨replayBound_nil, by simp [AllLost]⟩
  · rw [wp_bind]
    refine ofExcept_wp _ ⟨replayBound_nil, by simp [AllLost]⟩ fun _ => ?_
    rw [wp_bind]
    refine wp_mono (callPure_wp client huuid fuel _ maximumTimeout _ (fun _ _ => rfl) drawn)
      (fun _ h => h) (fun _ h => h) (fun _ _ h => h) (fun _ h => h) ?_
    intro answer t ht
    rw [wp_bind]
    exact ofExcept_wp _ ht fun _ => ht

end Replay

/-- A submission of an operation other than the handshake of a new connection. -/
def isOperation : Event → Bool
  | .submitted r =>
    match r.operation with
    | .hello .. => false
    | _ => true
  | _ => false

/-- At most `n` operations were submitted so far. -/
def Submitted (n : Nat) (s : ClientState) : Prop := s.log.countP isOperation ≤ n

def onceExits : Exits World ClientState ClientError :=
  ⟨fun _ => True, Submitted 1, fun _ => Submitted 1, Submitted 1⟩

def quietOperation (e : Event) : Bool := !isOperation e

theorem quietOperation_background : Background quietOperation where
  cancelledRead _ := rfl
  deadlineRead _ _ := rfl
  hello _ _ _ _ _ _ _ := rfl

theorem submitted_of_quietly {n : Nat} {s t : ClientState} (hs : Submitted n s)
    (hst : (quietly quietOperation).rel s t) : Submitted n t := by
  obtain ⟨⟨new, hlog, hnew⟩, -⟩ := hst
  have hzero : new.countP isOperation = 0 := by
    rw [List.countP_eq_zero]
    intro e he
    simpa [quietOperation] using hnew e he
  unfold Submitted at hs ⊢
  rw [hlog, List.countP_append, hzero, Nat.zero_add]
  exact hs

theorem submitted_wp {n : Nat} (hn : n ≤ 1) {α : Type} {p : Call α}
    (hp : Keeps (quietly quietOperation) p) {s : ClientState} (hs : Submitted n s)
    {Q : α → ClientState → Prop} (hQ : ∀ a t, Submitted n t → Q a t) :
    p.wp onceExits Q s := by
  have honce : ∀ t, (quietly quietOperation).rel s t → Submitted 1 t := fun t hst =>
    Nat.le_trans (submitted_of_quietly hs hst) hn
  exact hp.wp honce (fun _ => honce) honce fun a t hst => hQ a t (submitted_of_quietly hs hst)

section Lease
variable {V : Type} (client : PerUserEmbeddingClient V)

/-- An exchange on an idle connection and what the caller makes of the answer. -/
theorem exchange_once {timeout : Nat} {operation : EmbeddingOperation} {α : Type}
    {use : EmbeddingProtocolResponse × List UInt8 → Call α}
    (huse : ∀ answer, Keeps (quietly quietOperation) (use answer))
    {s : ClientState} (hs : Submitted 0 s) :
    wp onceExits (do
      configureExchangeTimeout client timeout
      let requestId ← newUuid client
      let answer ← exchange client (request requestId client.compatibility operation)
      use answer) (fun _ => Submitted 1) s := by
  rw [wp_bind]
  refine submitted_wp (Nat.zero_le 1) (configureExchangeTimeout_keeps client timeout) hs ?_
  intro _ s₁ hs₁
  rw [wp_bind]
  refine submitted_wp (Nat.zero_le 1) (newUuid_keeps client) hs₁ ?_
  intro requestId s₂ hs₂
  rw [wp_bind]
  unfold exchange submit
  rw [wp_bind, wp_bind, emit_wp]
  have hs₃ : Submitted 1 { s₂ with
      log := .submitted (request requestId client.compatibility operation) :: s₂.log } := by
    unfold Submitted at hs₂ ⊢
    rw [List.countP_cons]
    split <;> omega
  refine ⟨hs₃, ?_⟩
  have hrest : ∀ (answer : EmbeddingProtocolResponse × List UInt8) t, Submitted 1 t →
      wp onceExits (use answer) (fun _ => Submitted 1) t := fun answer t ht =>
    submitted_wp (Nat.le_refl 1) (huse answer) ht fun _ _ h => h
  rw [wp_bind, wp_query]
  intro a _
  split
  · exact hs₃
  · exact submitted_wp (Nat.le_refl 1) (readResponse_keeps client _) hs₃ hrest

theorem acquireResidencyLease_wp (fuel drawn : Nat) :
    wp onceExits (acquireResidencyLease client fuel) (fun _ => Submitted 1) ⟨[], drawn⟩ := by
  have hstart : Submitted 0 ⟨[], drawn⟩ := Nat.le_refl 0
  unfold acquireResidencyLease
  rw [wp_bind]
  refine submitted_wp (Nat.zero_le 1)
    (connectWithControl_keeps quietOperation_background client _ _ _ _ _) hstart ?_
  intro connection s hs
  refine exchange_once client (fun answer => ?_) hs
  refine keeps_bind (keeps_ofExcept _) fun result => ?_
  split
  · exact keeps_bind (keeps_ofExcept _) fun _ => keeps_bind (keeps_ofExcept _) fun _ =>
      keeps_bind (keeps_ofExcept _) fun _ => keeps_pure _
  · exact keeps_fail _

theorem revalidate_wp (held : PerUserEmbeddingResidencyLease) (drawn : Nat) :
    wp onceExits (revalidate client held) (fun _ => Submitted 1) ⟨[], drawn⟩ := by
  unfold revalidate
  split
  · exact Nat.zero_le 1
  · refine exchange_once client (fun answer => ?_) (Nat.le_refl 0)
    refine keeps_bind (keeps_ofExcept _) fun result => ?_
    split
    · split
      · exact keeps_fail _
      · exact keeps_bind (keeps_ofExcept _) fun _ => keeps_bind (keeps_ofExcept _) fun _ =>
          keeps_bind (keeps_ofExcept _) fun _ => keeps_bind (keeps_ofExcept _) fun _ =>
            keeps_pure _
    · exact keeps_fail _

theorem releaseInner_wp (held : PerUserEmbeddingResidencyLease) (drawn : Nat) :
    wp onceExits (releaseInner client held) (fun _ => Submitted 1) ⟨[], drawn⟩ := by
  unfold releaseInner
  split
  · exact Nat.zero_le 1
  · refine exchange_once client (fun answer => ?_) (Nat.le_refl 0)
    refine keeps_bind (keeps_ofExcept _) fun result => ?_
    split
    · exact keeps_pure _
    · exact keeps_fail _

/-- The `Drop` that follows a release finds the stream taken and submits nothing. -/
theorem release_wp (held : PerUserEmbeddingResidencyLease) (drawn : Nat) :
    wp onceExits (release client held) (fun _ => Submitted 1) ⟨[], drawn⟩ := by
  unfold release
  rw [wp_bind, wp_attempt]
  have hdrop : ∀ (released : Except ClientError Unit) t, Submitted 1 t →
      wp onceExits (do
        let _ ← attempt (releaseInner client { held with stream := none })
        ofExcept released) (fun _ => Submitted 1) t := by
    intro released t ht
    rw [wp_bind, wp_attempt]
    exact wp_ofExcept (fun _ _ => ht) fun _ _ => ht
  exact wp_mono (releaseInner_wp client held drawn) (fun _ h => h) (fun _ h => h)
    (fun e t ht => hdrop (.error e) t ht) (fun _ h => h) fun a t ht => hdrop (.ok a) t ht

end Lease

/-- One pure call on one script: its log obeys the replay rule at every point, and an
attempt that ended in an error other than a server loss makes the call return it. -/
def ReplaysAtMostOnce {α : Type} (r : Result ClientState ClientError α) : Prop :=
  (∀ s ∈ r.final :: r.visited, ReplayBound s.log) ∧
  ∀ error, .attemptEnded (some error) ∈ r.final.log → isServerLoss error = false →
    r.outcome = .failed error

def SubmitsAtMostOnce {α : Type} (r : Result ClientState ClientError α) : Prop :=
  ∀ s ∈ r.final :: r.visited, s.log.countP isOperation ≤ 1

theorem replaysAtMostOnce_of_wp {α : Type} {p : Call α} {s : ClientState}
    (h : wp callExits p (fun _ t => ReplayBound t.log ∧ AllLost t.log) s)
    (world : Nat → World) (t : Nat) : ReplaysAtMostOnce (p.run world t s) := by
  obtain ⟨hvisited, hend⟩ := wp_run h (fun _ => trivial) t
  have hlostFinal : AllLost (p.run world t s).final.log →
      ∀ error, .attemptEnded (some error) ∈ (p.run world t s).final.log →
        isServerLoss error = false → (p.run world t s).outcome = .failed error := by
    intro hlost error herror hloss
    rw [hlost error herror] at hloss
    exact absurd hloss (by simp)
  cases houtcome : (p.run world t s).outcome with
  | returned a | stuck =>
    rw [houtcome] at hend
    exact ⟨List.forall_mem_cons.mpr ⟨hend.1, hvisited⟩, hlostFinal hend.2⟩
  | failed e =>
    rw [houtcome] at hend
    refine ⟨List.forall_mem_cons.mpr ⟨hend.1, hvisited⟩, ?_⟩
    intro error herror hloss
    rw [houtcome, hend.2 error herror hloss]

theorem submitsAtMostOnce_of_wp {α : Type} {p : Call α} {s : ClientState}
    (h : wp onceExits p (fun _ => Submitted 1) s) (world : Nat → World) (t : Nat) :
    SubmitsAtMostOnce (p.run world t s) := by
  obtain ⟨hvisited, hend⟩ := wp_run h (fun _ => trivial) t
  refine List.forall_mem_cons.mpr ⟨?_, hvisited⟩
  split at hend
  · exact hend
  · exact hend
  · exact hend

/-- The replay bound of pure calls and the single submission of lease calls, on every
script of the world. -/
theorem pure_rpc_replay_bound {V : Type} (client : PerUserEmbeddingClient V)
    (huuid : Function.Injective client.uuid) (world : Nat → World) (fuel t drawn : Nat)
    (text : String) (texts : List String) (maximumTimeout : Option Nat)
    (held : PerUserEmbeddingResidencyLease) :
    ReplaysAtMostOnce ((embedQuery client fuel text maximumTimeout).run world t ⟨[], drawn⟩) ∧
    ReplaysAtMostOnce
      ((embedDocuments client fuel texts maximumTimeout).run world t ⟨[], drawn⟩) ∧
    SubmitsAtMostOnce ((acquireResidencyLease client fuel).run world t ⟨[], drawn⟩) ∧
    SubmitsAtMostOnce ((revalidate client held).run world t ⟨[], drawn⟩) ∧
    SubmitsAtMostOnce ((release client held).run world t ⟨[], drawn⟩) := by
  refine ⟨?_, ?_, ?_, ?_, ?_⟩
  · exact replaysAtMostOnce_of_wp
      (embedQuery_wp client huuid fuel text maximumTimeout drawn) world t
  · exact replaysAtMostOnce_of_wp
      (embedDocuments_wp client huuid fuel texts maximumTimeout drawn) world t
  · exact submitsAtMostOnce_of_wp (acquireResidencyLease_wp client fuel drawn) world t
  · exact submitsAtMostOnce_of_wp (revalidate_wp client held drawn) world t
  · exact submitsAtMostOnce_of_wp (release_wp client held drawn) world t

def unaryUuid (n : Nat) : String := String.ofList (List.replicate n 'a')

theorem unaryUuid_injective : Function.Injective unaryUuid := by
  intro m n h
  have hlist := String.ofList_injective h
  simpa using congrArg List.length hlist

def sampleSnapshot : EmbeddingServerSnapshot :=
  ⟨1, ⟨1, 1, "protocol", "constants", "measurement"⟩, ⟨"namespace", "lifetime", "listener", true⟩,
    ⟨"server", 7, "start", "sha", "1.0"⟩⟩

def sampleIdentity : EmbeddingEngineIdentity :=
  ⟨"server", 1, true, none, "model", "ggml", "policy", "model"⟩

def sampleStream : EmbeddingTransportIdentity :=
  ⟨"namespace", "lifetime", "listener", true, some 7, some "start"⟩

def sampleClient : PerUserEmbeddingClient Unit where
  compatibility := ⟨"model", "ggml", "policy"⟩
  compatibilityDigest := .ok "digest"
  scopeId := "scope"
  executableIdentity := ⟨7, "start", "sha", "1.0"⟩
  protocolCurrent := sampleSnapshot.protocol
  budgets := ⟨1000, 1000, 100, 1000, 1000⟩
  currentRetryAfter := 100
  uuid := unaryUuid
  decodeVectors _ _ _ := .ok [()]
  normalizeAndValidateVectors := .ok

def sampleResponse (drawn : Nat) (result : EmbeddingResult) :
    EmbeddingProtocolResponse × List UInt8 :=
  (⟨perUserEmbeddingProtocolV1, 1, unaryUuid drawn, some result, none⟩, [])

/-- The first embedding exchange is reset by the peer; the second is answered. -/
def resetThenAnswer (t : Nat) : World where
  cancelled := false
  instant := 0
  clockNs := 0
  connect := .ok (.connected sampleStream)
  spawnExactCurrentExe := .ok ()
  setReadTimeout := .ok ()
  setWriteTimeout := .ok ()
  writeFrame := .ok ()
  readFrame :=
    if t = 8 then .ok (sampleResponse 0 (.hello "digest" sampleSnapshot))
    else if t = 21 then .error ⟨some .connectionReset, "reset", "lost"⟩
    else if t = 38 then .ok (sampleResponse 3 (.hello "digest" sampleSnapshot))
    else .ok (sampleResponse 4 (.vectors 1 1 "f32_le" sampleIdentity))
  watchTriggered := false

/-- A run with a replay: two submissions, and the replay rule between them. -/
theorem pure_rpc_replay_bound_after_reset :
    ((embedQuery sampleClient 3 "fn main" none).run resetThenAnswer 0
      ⟨[], 0⟩).final.log.countP isPureSubmission = 2 ∧
    ReplaysAtMostOnce
      ((embedQuery sampleClient 3 "fn main" none).run resetThenAnswer 0 ⟨[], 0⟩) :=
  ⟨by decide,
    (pure_rpc_replay_bound sampleClient unaryUuid_injective resetThenAnswer 3 0 0 "fn main" []
      none ⟨none, ⟨"token", "server", 1, "digest"⟩, sampleIdentity, sampleSnapshot⟩).1⟩

end CodeStory.Client
