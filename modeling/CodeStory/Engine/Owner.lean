import Mathlib.Logic.Function.Basic
import Mathlib.Data.List.Basic
import CodeStory.Engine.Tracker
import CodeStory.Lib.Text
import CodeStory.Lib.Transition

/-!
# The native engine: its owner thread and everyone who talks to it

One owner thread loads the model, serves two request queues and a control channel while
the model is resident, and goes to sleep when idle. Any number of other threads submit
and cancel requests and acquire and drop residency leases. A step is one atomic operation
of one thread: one locked section, one compare-exchange, one channel operation.

A queue operation prunes cancelled entries while it holds the queue lock. A cancellation
that lands after its entry was looked at is missed; the world names these entries as late.

Loading and encoding are the world's: either may fail, and the world counts tokens. The
channels are never disconnected before `Shutdown` is sent, and mutexes are not poisoned.
-/

set_option autoImplicit false

namespace CodeStory.Engine

open Text

structure EngineConfig where
  idleTimeout : Nat
  batchTokens : Nat
  maxBatchSequences : Nat
  maxBatchSequences_pos : 0 < maxBatchSequences

structure RequestContext where
  requestId : String
  lifecycle : Nat
  deriving DecidableEq, Repr

/-- `response` is the number of the request's own response channel. -/
structure EmbeddingRequest where
  context : RequestContext
  inputs : List String
  response : Nat
  deriving DecidableEq, Repr

def queueCapacity : EmbeddingRequestClass → Nat
  | .query => embeddingQueryQueueCapacity
  | .bulk => embeddingBulkQueueCapacity

/-- What `embed_inputs` returns, without the vectors and without which error it was. -/
inductive EmbedResult where
  | vectors
  | cancelled
  | failed
  deriving DecidableEq, Repr

inductive Response where
  | vectors (completionSequence : Nat)
  | cancelled
  | failed
  deriving DecidableEq, Repr

def EmbedResult.respond : EmbedResult → Nat → Response
  | vectors, sequence => .vectors sequence
  | cancelled, _ => .cancelled
  | failed, _ => .failed

inductive Control where
  | shutdown
  | ensureResident (caller : Nat)
  | acquireLease (caller : Nat)
  | releaseLease
  deriving DecidableEq, Repr

inductive WakeReason where
  | startup
  | request (c : EmbeddingRequestClass) (r : EmbeddingRequest)
  | ensureResident (caller : Nat)
  | acquireLease (caller : Nat)
  deriving DecidableEq, Repr

/-- Where `handle_request`, and `embed_inputs` inside it, stand. -/
inductive Phase where
  | activate
  | refused
  | enter
  | hold
  | tokenize
  | live (tokens : List Nat) (offset : Nat)
  | encode (tokens : List Nat) (offset : Nat)
  | progress (tokens : List Nat) (offset : Nat)
  | between (tokens : List Nat) (offset : Nat)
  | recheck (tokens : List Nat) (offset : Nat)
  | test (result : EmbedResult)
  | commit (result : EmbedResult)
  | finish (result : EmbedResult) (cancelled : Bool)
  | reply (response : Response)
  deriving DecidableEq, Repr

structure Frame where
  request : EmbeddingRequest
  requestClass : EmbeddingRequestClass
  phase : Phase
  deriving DecidableEq, Repr

/-- Where the owner thread stands. `woken` says that the request at the bottom of the
frames is the one that woke the engine. -/
inductive OwnerPc where
  | loading (wake : WakeReason)
  | entry (wake : WakeReason)
  | waking (wake : WakeReason)
  | top
  | popping (c : EmbeddingRequestClass) (second : Bool)
  | selecting (deadline : Nat)
  | handling (frame : Frame) (below : List Frame) (woken : Bool)
  | asleep
  | wakePop (c : EmbeddingRequestClass)
  | wakeCheck (c : EmbeddingRequestClass) (r : EmbeddingRequest)
  | wakeReply (r : EmbeddingRequest)
  | stopped
  deriving DecidableEq, Repr

/-- One call of `ensure_resident`, or of `acquire_residency_lease` with the life of the
lease it returns. Numbers are load generations. -/
inductive Caller where
  | idle
  | ensuring
  | ensured (generation : Option Nat)
  | acquiring
  | refused
  | granted (generation : Nat)
  | received (generation : Nat)
  | holding (generation : Nat)
  | releasing (generation : Nat)
  | done
  deriving DecidableEq, Repr

structure State where
  queue : EmbeddingRequestClass → List EmbeddingRequest
  token : EmbeddingRequestClass → Bool
  control : List Control
  lifecycle : Nat → RequestLifecycle
  tracker : AdmissionState
  callers : Nat → Caller
  held : EmbeddingRequestClass → Bool
  clock : Nat
  started : Bool
  pc : OwnerPc
  residency : ResidencyTracker
  nextWhenBothReady : EmbeddingRequestClass
  loadGeneration : Nat
  channels : Nat
  -- history
  accepted : EmbeddingRequestClass → List EmbeddingRequest
  dispatched : EmbeddingRequestClass → List EmbeddingRequest
  pruned : EmbeddingRequestClass → List EmbeddingRequest
  answered : List (EmbeddingRequest × Response)
  direct : List EmbeddingRequest
  grants : Nat
  releases : Nat

/-- The world's part in one owner step. -/
structure World where
  loaded : Bool
  encoded : Bool
  tokenCount : String → Option Nat
  late : List Nat

namespace State

def goto (s : State) (pc : OwnerPc) : State := { s with pc := pc }

def withTracker (s : State) (tracker : AdmissionState) : State := { s with tracker := tracker }

def withLifecycle (s : State) (cell : Nat) (l : RequestLifecycle) : State :=
  { s with lifecycle := Function.update s.lifecycle cell l }

def setCaller (s : State) (caller : Nat) (state : Caller) : State :=
  { s with callers := Function.update s.callers caller state }

def withControl (s : State) (control : List Control) : State := { s with control := control }

/-- The receive side of a one-slot signal channel. -/
def takeToken (s : State) (c : EmbeddingRequestClass) : State :=
  { s with token := Function.update s.token c false }

/-- `tracker.complete_activity(Instant::now())`. -/
def completeActivity (s : State) : State :=
  { s with residency := s.residency.completeActivity s.clock }

def isCancelled (s : State) (r : EmbeddingRequest) : Bool :=
  (s.lifecycle r.context.lifecycle).isCancelled

/-- The entries that pruning answers: cancelled, and seen to be. -/
def drops (s : State) (late : List Nat) (r : EmbeddingRequest) : Bool :=
  s.isCancelled r && !late.contains r.response

def answer (s : State) (r : EmbeddingRequest) (response : Response) : State :=
  { s with answered := s.answered ++ [(r, response)] }

def pruneCancelled (s : State) (c : EmbeddingRequestClass) (late : List Nat) : State :=
  let dropped := (s.queue c).filter (s.drops late)
  { s with
    queue := Function.update s.queue c ((s.queue c).filter fun r => !s.drops late r)
    pruned := Function.update s.pruned c (s.pruned c ++ dropped)
    answered := s.answered ++ dropped.map fun r => (r, .cancelled)
    tracker := dropped.foldl (fun t _ => t.cancelled) s.tracker }

/-- `CancellableRequestQueue::try_push`; a full queue leaves only the pruning behind. -/
def tryPush (s : State) (c : EmbeddingRequestClass) (r : EmbeddingRequest)
    (late : List Nat) : State :=
  let s := s.pruneCancelled c late
  if (s.queue c).length ≥ queueCapacity c then s
  else
    { s with
      queue := Function.update s.queue c (s.queue c ++ [r])
      token := Function.update s.token c true
      accepted := Function.update s.accepted c (s.accepted c ++ [r]) }

/-- A request without inputs is answered here, with no vectors and completion sequence 0;
any other one gets a response channel and is pushed. -/
def submit (s : State) (c : EmbeddingRequestClass) (context : RequestContext)
    (inputs : List String) (late : List Nat) : State :=
  let r : EmbeddingRequest := ⟨context, inputs, s.channels⟩
  if inputs = [] then { s with direct := s.direct ++ [r], channels := s.channels + 1 }
  else { s.tryPush c r late with channels := s.channels + 1 }

/-- `CancellableRequestQueue::try_pop`. -/
def tryPop (s : State) (c : EmbeddingRequestClass) (late : List Nat) :
    State × Option EmbeddingRequest :=
  let s := s.pruneCancelled c late
  match s.queue c with
  | [] => (s, none)
  | r :: rest =>
    ({ s with
        queue := Function.update s.queue c rest
        dispatched := Function.update s.dispatched c (s.dispatched c ++ [r])
        token := if rest = [] then s.token else Function.update s.token c true },
      some r)

def generation (s : State) : Nat := s.loadGeneration + 1

/-- `response.send(Ok(snapshot))` to a caller of `ensure_resident`. -/
def confirmResident (s : State) (caller : Nat) (result : Option Nat) : State :=
  match s.callers caller with
  | .ensuring => s.setCaller caller (.ensured result)
  | _ => s

/-- `grant_residency_lease`: a caller whose receiver is gone is not counted. -/
def grantResidencyLease (s : State) (caller : Nat) : State :=
  match s.callers caller with
  | .acquiring =>
    { s.setCaller caller (.granted s.generation) with
      residency := s.residency.acquireLease
      grants := s.grants + 1 }
  | _ => s

def refuseLease (s : State) (caller : Nat) : State :=
  match s.callers caller with
  | .acquiring => s.setCaller caller .refused
  | _ => s

/-- `ReleaseLease` in `handle_resident_control`. -/
def releaseLease (s : State) : State :=
  { s with residency := s.residency.releaseLease s.clock, releases := s.releases + 1 }

/-- `handle_resident_control`, then on to `next`. -/
def handleResidentControl (s : State) (message : Control) (next : OwnerPc) : State :=
  match message with
  | .shutdown => (s.withTracker (s.tracker.setOwnerState .draining)).goto .stopped
  | .ensureResident caller =>
    (s.completeActivity.confirmResident caller (some s.generation)).goto next
  | .acquireLease caller => (s.grantResidencyLease caller).goto next
  | .releaseLease => s.releaseLease.goto next

/-- The model is loaded: a new tracker and a new scheduler for this generation. -/
def enterGeneration (s : State) (cfg : EngineConfig) (wake : WakeReason) : State :=
  { s with
    residency := .new cfg.idleTimeout s.clock
    nextWhenBothReady := .query
    tracker := s.tracker.setOwnerState .ready
    pc := .entry wake }

/-- A failed load is recorded once there was a resident generation before it. -/
def noteLoadFailure (s : State) : State :=
  if s.loadGeneration = 0 then s else s.withTracker (s.tracker.setOwnerState .sleeping)

/-- `fail_wake`, and back to waiting unless this was the start-up. -/
def failWake (s : State) (wake : WakeReason) : State :=
  match wake with
  | .startup => s.goto .stopped
  | .request _ r => (s.answer r .failed).goto .asleep
  | .ensureResident caller => (s.confirmResident caller none).goto .asleep
  | .acquireLease caller => (s.refuseLease caller).goto .asleep

/-- The wake reason of `serve_resident_generation`. -/
def serveWake (s : State) (wake : WakeReason) : State :=
  match wake with
  | .startup => { s with started := true }.goto .top
  | .request c r => s.goto (.handling ⟨r, c, .activate⟩ [] true)
  | .ensureResident caller =>
    (s.completeActivity.confirmResident caller (some s.generation)).goto .top
  | .acquireLease caller => (s.grantResidencyLease caller).goto .top

/-- One queue of `FairRequestScheduler::try_pop`; when both are empty the timer is set. -/
def schedulerPop (s : State) (c : EmbeddingRequestClass) (second : Bool)
    (late : List Nat) : State :=
  match s.tryPop c late with
  | (s, some r) =>
    { s with nextWhenBothReady := c.other }.goto (.handling ⟨r, c, .activate⟩ [] false)
  | (s, none) =>
    if second then s.goto (.selecting (s.clock + s.residency.remaining s.clock))
    else s.goto (.popping c.other true)

def sleep (s : State) : State :=
  ({ s with loadGeneration := s.generation }.withTracker
    (s.tracker.setOwnerState .sleeping)).goto .asleep

def startLoading (s : State) (wake : WakeReason) : State :=
  (s.withTracker (s.tracker.setOwnerState .waking)).goto (.loading wake)

/-- The biased select of a resident engine; `none` while nothing is ready. -/
def residentSelect (s : State) (deadline : Nat) : Option State :=
  match s.control with
  | message :: rest => some ((s.withControl rest).handleResidentControl message .top)
  | [] =>
    if s.token .query then some ((s.takeToken .query).goto .top)
    else if s.token .bulk then some ((s.takeToken .bulk).goto .top)
    else if deadline ≤ s.clock then
      some (if s.residency.shouldSleep s.clock then s.sleep else s.goto .top)
    else none

/-- The biased select of `wait_for_wake`. -/
def waitForWake (s : State) : Option State :=
  match s.control with
  | .shutdown :: rest => some ((s.withControl rest).goto .stopped)
  | .ensureResident caller :: rest =>
    some ((s.withControl rest).startLoading (.ensureResident caller))
  | .acquireLease caller :: rest =>
    some ((s.withControl rest).startLoading (.acquireLease caller))
  | .releaseLease :: rest => some { s.withControl rest with releases := s.releases + 1 }
  | [] =>
    if s.token .query then some ((s.takeToken .query).goto (.wakePop .query))
    else if s.token .bulk then some ((s.takeToken .bulk).goto (.wakePop .bulk))
    else none

end State

/-- The loop of `batch_end`: how many of the remaining sequences go into the next batch. -/
def batchLength (cfg : EngineConfig) : Nat → Nat → List Nat → Nat
  | taken, _, [] => taken
  | taken, total, next :: rest =>
    if taken < cfg.maxBatchSequences then
      if taken > 0 ∧ total + next > cfg.batchTokens then taken
      else batchLength cfg (taken + 1) (total + next) rest
    else taken

def batchEnd (cfg : EngineConfig) (tokens : List Nat) (offset : Nat) : Nat :=
  offset + batchLength cfg 0 0 (tokens.drop offset)

/-- The checks and the tokenization at the head of `embed_inputs`. -/
def tokenizePhase (inputs : List String) (tokenCount : String → Option Nat) : Phase :=
  if inputs = [] then .test .vectors
  else if inputs.any isBlank then .test .failed
  else
    match inputs.mapM tokenCount with
    | none => .test .failed
    | some tokens => .live tokens 0

namespace State

/-- The bottom frame goes back to the serving loop, an inner one to the frame below. -/
def leaveFrame (s : State) (c : EmbeddingRequestClass) (below : List Frame) (woken : Bool) :
    State :=
  match below with
  | outer :: rest => s.goto (.handling outer rest woken)
  | [] =>
    { s.completeActivity with
      nextWhenBothReady := if woken then c.other else s.nextWhenBothReady }.goto .top

def toPhase (s : State) (f : Frame) (below : List Frame) (woken : Bool) (phase : Phase) :
    State :=
  s.goto (.handling { f with phase := phase } below woken)

/-- One operation of `handle_request` on the innermost frame. -/
def handleStep (cfg : EngineConfig) (w : World) (s : State) (f : Frame) (below : List Frame)
    (woken : Bool) : State :=
  let move (s : State) (phase : Phase) : State := s.toPhase f below woken phase
  let cell := f.request.context.lifecycle
  match f.phase with
  | .activate =>
    move (s.withLifecycle cell (s.lifecycle cell).activate.1)
      (if (s.lifecycle cell).activate.2 then .enter else .refused)
  | .refused => move (s.withTracker s.tracker.cancelled) (.reply .cancelled)
  | .enter =>
    move (s.withTracker (s.tracker.begin f.request.context.requestId f.requestClass)) .hold
  | .hold =>
    if s.held f.requestClass then
      if s.isCancelled f.request then move s (.finish .cancelled true) else s
    else move s .tokenize
  | .tokenize => move s (tokenizePhase f.request.inputs w.tokenCount)
  | .live tokens offset =>
    move s (if offset < tokens.length then
        if s.isCancelled f.request then .test .cancelled else .encode tokens offset
      else .test .vectors)
  | .encode tokens offset =>
    move s (if w.encoded then .progress tokens (batchEnd cfg tokens offset) else .test .failed)
  | .progress tokens offset =>
    move (s.withTracker (s.tracker.progress f.requestClass))
      (if f.requestClass = .bulk ∧ offset < tokens.length then .between tokens offset
        else .live tokens offset)
  | .between tokens offset =>
    -- `take_query_between_bulk_batches`
    match s.tryPop .query w.late with
    | (s, some q) =>
      let outer := { f with phase := .recheck tokens offset }
      s.goto (.handling ⟨q, .query, .activate⟩ (outer :: below) woken)
    | (s, none) => move s (.recheck tokens offset)
  | .recheck tokens offset =>
    move s (if s.isCancelled f.request then .test .cancelled else .live tokens offset)
  | .test result =>
    move s (if s.isCancelled f.request then .finish .cancelled true else .commit result)
  | .commit result =>
    move (s.withLifecycle cell (s.lifecycle cell).commit.1)
      (if (s.lifecycle cell).commit.2 then .finish result false else .finish .cancelled false)
  | .finish result cancelled =>
    let finished := s.tracker.finish f.request.context.requestId f.requestClass
      (result = .vectors) cancelled
    move (s.withTracker finished.1) (.reply (result.respond finished.2))
  | .reply response => (s.answer f.request response).leaveFrame f.requestClass below woken

/-- The next operation of the owner thread; `none` while it is blocked or has ended. -/
def ownerStep (cfg : EngineConfig) (s : State) (w : World) : Option State :=
  match s.pc with
  | .loading wake =>
    some (if w.loaded then s.enterGeneration cfg wake else s.noteLoadFailure.failWake wake)
  | .entry wake =>
    match s.control with
    | message :: rest =>
      some ((s.withControl rest).handleResidentControl message (.waking wake))
    | [] => some (s.goto (.waking wake))
  | .waking wake => some (s.serveWake wake)
  | .top =>
    match s.control with
    | message :: rest => some ((s.withControl rest).handleResidentControl message .top)
    | [] => some (s.goto (.popping s.nextWhenBothReady false))
  | .popping c second => some (s.schedulerPop c second w.late)
  | .selecting deadline => s.residentSelect deadline
  | .handling frame below woken => some (s.handleStep cfg w frame below woken)
  | .asleep => s.waitForWake
  | .wakePop c =>
    match s.tryPop c w.late with
    | (s, some r) => some (s.goto (.wakeCheck c r))
    | (s, none) => some (s.goto .asleep)
  | .wakeCheck c r =>
    if s.isCancelled r then some ((s.withTracker s.tracker.cancelled).goto (.wakeReply r))
    else some (s.startLoading (.request c r))
  | .wakeReply r => some ((s.answer r .cancelled).goto .asleep)
  | .stopped => none

end State

inductive Action where
  | submit (c : EmbeddingRequestClass) (context : RequestContext) (inputs : List String)
      (late : List Nat)
  | cancel (lifecycle : Nat)
  | ensureResident (caller : Nat)
  | acquireLease (caller : Nat)
  | abandon (caller : Nat)
  | receive (caller : Nat)
  | leaseAcquired (caller : Nat)
  | leaseReleased (caller : Nat)
  | sendRelease (caller : Nat)
  | shutdown
  | hold (c : EmbeddingRequestClass) (held : Bool)
  | tick
  | owner (w : World)

namespace State

def send (s : State) (message : Control) : State :=
  s.withControl (s.control ++ [message])

/-- `acquire_residency_lease` and the drop of a lease, one operation at a time. A caller
may also give up before it has received anything. -/
def callerStep (s : State) : Action → Option State
  | .ensureResident i =>
    if s.started ∧ s.callers i = .idle then
      some ((s.setCaller i .ensuring).send (.ensureResident i))
    else none
  | .acquireLease i =>
    if s.started ∧ s.callers i = .idle then
      some ((s.setCaller i .acquiring).send (.acquireLease i))
    else none
  | .abandon i =>
    if s.callers i = .ensuring ∨ s.callers i = .acquiring then some (s.setCaller i .done)
    else none
  | .receive i =>
    match s.callers i with
    | .granted g => some (s.setCaller i (.received g))
    | _ => none
  | .leaseAcquired i =>
    match s.callers i with
    | .received g => some ((s.setCaller i (.holding g)).withTracker s.tracker.leaseAcquired)
    | _ => none
  | .leaseReleased i =>
    match s.callers i with
    | .holding g => some ((s.setCaller i (.releasing g)).withTracker s.tracker.leaseReleased)
    | _ => none
  | .sendRelease i =>
    match s.callers i with
    | .releasing _ => some ((s.setCaller i .done).send .releaseLease)
    | _ => none
  | _ => none

def step (cfg : EngineConfig) (s : State) (a : Action) : Option State :=
  match a with
  | .submit c context inputs late =>
    if s.started then some (s.submit c context inputs late) else none
  | .cancel cell => some (s.withLifecycle cell (s.lifecycle cell).cancel.1)
  | .shutdown => if s.started then some (s.send .shutdown) else none
  | .hold c held => some { s with held := Function.update s.held c held }
  | .tick => some { s with clock := s.clock + 1 }
  | .owner w => s.ownerStep cfg w
  | a => s.callerStep a

def initial : State where
  queue := fun _ => []
  token := fun _ => false
  control := []
  lifecycle := fun _ => .queued
  tracker := .default
  callers := fun _ => .idle
  held := fun _ => false
  clock := 0
  started := false
  pc := .loading .startup
  residency := ⟨0, 0, 0⟩
  nextWhenBothReady := .query
  loadGeneration := 0
  channels := 0
  accepted := fun _ => []
  dispatched := fun _ => []
  pruned := fun _ => []
  answered := []
  direct := []
  grants := 0
  releases := 0

theorem eight_pos : 0 < 8 := by omega

/-- The state after a list of actions from the start, in an engine that goes to sleep after
one tick. -/
def afterRun (actions : List Action) : State :=
  Transition.after (step ⟨1, 8, 8, eight_pos⟩) initial actions

theorem reach_afterRun (actions : List Action) :
    Transition.Reach (step ⟨1, 8, 8, by decide⟩) initial (afterRun actions) :=
  Transition.reach_after _ initial actions

end State

/-- An owner step in which loading and encoding succeed and every input is one token. -/
def Action.smooth : Action := .owner ⟨true, true, fun _ => some 1, []⟩

end CodeStory.Engine
