import Mathlib.Data.Finset.Basic
import CodeStory.Embedding.Admission
import CodeStory.Engine.Quiescence

/-!
# The per-user embedding server: accept loop, connection handlers and native engine

One thread accepts connections and shuts the server down when it is idle; any number of
handlers serve one connection each. A step is one operation on shared state: one locked
section, one atomic load, store or exchange, one lock or unlock of the admission gate, one
operation on the native engine. Handler `i` owns the request context whose cell is `i`, the
permit `i` and the engine caller `i`.

The wire, handler capacity, request phases, event sequences, snapshots, qualification control,
poisoned mutexes and the watchdog are left out, and so is what follows the loop after it has
stored the draining flag. Which tokens authorise a cancellation is left out too: any
registered request may be cancelled. Initialising the engine is one step, since it happens
under the gate and the engine lock.
-/

set_option autoImplicit false

namespace CodeStory.Server

open Admission (ServerRequestAdmissionDepths)

inductive Thread where
  | acceptLoop
  | handler (i : Nat)
  deriving DecidableEq, Repr

/-- The operations that register a request. -/
inductive Operation where
  | embed (c : EmbeddingRequestClass) (requestId : String) (inputs : List String)
  | ensureResident
  | acquireLease
  deriving DecidableEq, Repr

def Operation.requestClass : Operation → EmbeddingRequestClass
  | .embed c _ _ => c
  | .ensureResident | .acquireLease => .bulk

/-- Where a call of `true_idle` stands. The depths are read before they are judged, and
`clear` says that those read so far were zero. -/
inductive Look where
  | active
  | depths
  | slot
  | query
  | bulk (clear : Bool)
  | tracker (clear : Bool)
  deriving DecidableEq, Repr

/-- Where a call of `begin_draining_if_idle` stands: `again` after the exchange has failed,
`idle`, `slot`, `native`, `owner` and `withdraw` after it has succeeded. -/
inductive Drain where
  | lock
  | exchange
  | again (look : Look)
  | idle (look : Look)
  | slot
  | native (look : Look)
  | owner
  | withdraw
  | unlock (result exchanged : Bool)
  deriving DecidableEq, Repr

/-- Where a handler stands. `drop…` is the drop of a lease, `finish…` the drop of a request
guard; `thenFinish` and `keepsLease` say which of the two the handler has besides. -/
inductive Handler where
  | idle
  | hello (drain : Drain)
  | admitting (op : Operation)
  | acquiring (op : Operation) (activeExecution : Bool)
  | admitted (op : Operation)
  | lockBegin (op : Operation)
  | checkBegin (op : Operation)
  | insertBegin (op : Operation)
  | unlockBegin (op : Operation) (ok : Bool)
  | dropPermit
  | registered (op : Operation)
  | lockEngine (op : Operation)
  | checkEngine (op : Operation)
  | openEngine (op : Operation)
  | unlockEngine (op : Operation) (ok : Bool)
  | ready (op : Operation)
  | submitted
  | ensuring
  | leasing
  | leased
  | holding
  | dropRestart (thenFinish : Bool)
  | dropRelease (thenFinish : Bool)
  | dropSend (thenFinish : Bool)
  | finishActive (keepsLease : Bool)
  | finishCancellation (keepsLease : Bool)
  | finishRestart (keepsLease : Bool)
  | done
  deriving DecidableEq, Repr

inductive StopReason where
  | observedDraining
  | beganDraining
  | failed
  deriving DecidableEq, Repr

/-- Where the accept loop stands. -/
inductive AcceptLoop where
  | top
  | idleTest (look : Look)
  | stamp
  | elapsed (stamp : Nat)
  | drain (drain : Drain)
  | accept
  | acceptFailed
  | stopped (reason : StopReason)
  | closed (reason : StopReason)
  deriving DecidableEq, Repr

inductive Permit where
  | absent
  | held (c : EmbeddingRequestClass)
  | released
  deriving DecidableEq, Repr

structure Config where
  idleTimeout : Nat
  engine : Engine.EngineConfig

/-- `slot` says that the engine is initialised; before that, `native` only holds the cells
of the request contexts. -/
structure State where
  gate : Option Thread
  draining : Bool
  active : Finset Nat
  cancellations : Finset Nat
  depths : ServerRequestAdmissionDepths
  permits : Nat → Permit
  slot : Bool
  native : Engine.State
  lastWorkEndedNs : Nat
  clock : Nat
  loop : AcceptLoop
  connections : Nat
  handlers : Nat → Handler
  -- history: some call has returned true after its own exchange
  drained : Bool

/-- What the world contributes to a handler's step. `giveUp` cancels the request's context
and leaves (deadline, dead peer), `fail` leaves without that (a failed probe or write). -/
inductive Course where
  | proceed
  | giveUp
  | fail
  deriving DecidableEq, Repr

structure Turn where
  course : Course
  engineSeen : Bool
  world : Engine.World

inductive Task where
  | incompatibleHello
  | serve (op : Operation)
  deriving DecidableEq, Repr

inductive Accepted where
  | nothing
  | connection (task : Task)
  | error
  deriving DecidableEq, Repr

inductive Action where
  | loop (accepted : Accepted)
  | handler (i : Nat) (turn : Turn)
  | cancel (i : Nat)
  | owner (w : Engine.World)
  | nativeTick
  | tick

namespace State

def setHandler (s : State) (i : Nat) (h : Handler) : State :=
  { s with handlers := Function.update s.handlers i h }

def setLoop (s : State) (loop : AcceptLoop) : State := { s with loop := loop }

/-- One read of `true_idle`: where it goes on, or its answer. -/
def look (s : State) : Look → Look ⊕ Bool
  | .active => if s.active = ∅ then .inl .depths else .inr false
  | .depths => if s.depths = ⟨0, 0⟩ then .inl .slot else .inr false
  | .slot => if s.slot then .inl .query else .inr true
  | .query => .inl (.bulk (s.native.depth .query = 0))
  | .bulk clear => .inl (.tracker (clear && s.native.depth .bulk = 0))
  | .tracker clear =>
    .inr (clear && s.native.tracker.active.isEmpty && s.native.tracker.leaseCount == 0)

/-- One operation of `begin_draining_if_idle`; it blocks on the gate only. -/
def drainStep (s : State) (me : Thread) : Drain → Option (State × (Drain ⊕ Bool))
  | .lock => if s.gate = none then some ({ s with gate := some me }, .inl .exchange) else none
  | .exchange =>
    if s.draining then some (s, .inl (.again .active))
    else some ({ s with draining := true }, .inl (.idle .active))
  | .again l =>
    match s.look l with
    | .inl next => some (s, .inl (.again next))
    | .inr result => some (s, .inl (.unlock result false))
  | .idle l =>
    match s.look l with
    | .inl next => some (s, .inl (.idle next))
    | .inr true => some (s, .inl .slot)
    | .inr false => some (s, .inl .withdraw)
  | .slot => some (s, .inl (if s.slot then .native .query else .unlock true true))
  | .native l =>
    match s.look l with
    | .inl next => some (s, .inl (.native next))
    | .inr true => some (s, .inl .owner)
    | .inr false => some (s, .inl .withdraw)
  | .owner =>
    some ({ s with native := s.native.withTracker (s.native.tracker.setOwnerState .draining) },
      .inl (.unlock true true))
  | .withdraw => some ({ s with draining := false }, .inl (.unlock false true))
  | .unlock result exchanged =>
    some ({ s with gate := none, drained := s.drained || (result && exchanged) }, .inr result)

def restartIdleWindow (s : State) : State := { s with lastWorkEndedNs := s.clock }

/-- `ServerRequestAdmissionPermit::release`, and the drop of any of its handles. -/
def releasePermit (s : State) (i : Nat) : State :=
  match s.permits i with
  | .held c =>
    { s with
      depths := s.depths.decrement c
      permits := Function.update s.permits i .released }
  | _ => s

def cancelContext (s : State) (i : Nat) : State :=
  { s with native := s.native.withLifecycle i (s.native.lifecycle i).cancel.1 }

/-- `PerUserEmbeddingServerState::cancel` on the entry of handler `i`. -/
def cancel (s : State) (i : Nat) : State :=
  if i ∈ s.cancellations ∧ (s.native.lifecycle i).cancel.2 = true then
    (s.cancelContext i).releasePermit i
  else s

def engineStep (cfg : Config) (s : State) (a : Engine.Action) : Option State :=
  (Engine.State.step cfg.engine s.native a).map fun native => { s with native := native }

/-- `EmbeddingEngine::initialize`: the owner thread starts, loads and reports. -/
def initializeEngine (cfg : Config) (s : State) (w : Engine.World) : Option State :=
  if w.loaded then
    (Transition.run (Engine.State.step cfg.engine) s.native
      [.owner w, .owner w, .owner w]).map fun native => { s with native := native, slot := true }
  else none

/-- The native engine is executing a request of this class, as `try_admit_request` sees it. -/
def activeExecution (s : State) (seen : Bool) (c : EmbeddingRequestClass) : Bool :=
  seen && s.slot &&
    match s.native.tracker.active.getLast? with
    | some request => request.requestClass == c
    | none => false

def tryAcquire (s : State) (i : Nat) (op : Operation) (activeExecution : Bool) : State :=
  let c := op.requestClass
  if s.depths.depth c ≥ ServerRequestAdmissionDepths.capacity c + activeExecution.toNat then
    s.setHandler i .done
  else
    { s.setHandler i (.admitted op) with
      depths := s.depths.increment c
      permits := Function.update s.permits i (.held c) }

/-- The handler goes on to the engine call that its operation is about. -/
def callEngine (cfg : Config) (s : State) (i : Nat) (op : Operation) (w : Engine.World) :
    Option State :=
  match op with
  | .embed c requestId inputs =>
    let full := ((s.native.pruneCancelled c w.late).queue c).length ≥ Engine.queueCapacity c
    (s.engineStep cfg (.submit c ⟨requestId, i⟩ inputs w.late)).map fun s =>
      s.setHandler i (if full then .finishActive false else .submitted)
  | .ensureResident =>
    (s.engineStep cfg (.ensureResident i)).map fun s => s.setHandler i .ensuring
  | .acquireLease =>
    (s.engineStep cfg (.acquireLease i)).map fun s => s.setHandler i .leasing

/-- The native response to the request of handler `i` is there. -/
def responded (s : State) (i : Nat) : Bool :=
  s.native.responses.any fun p => p.1.context.lifecycle == i

/-- A handler that still has its request guard leaves; `giveUp` cancels the context first. -/
def leave (s : State) (i : Nat) (course : Course) : State :=
  (if course = .giveUp then s.cancelContext i else s).setHandler i (.finishActive false)

/-- The next operation of handler `i`; `none` while it is blocked or has ended. -/
def handlerStep (cfg : Config) (s : State) (i : Nat) (turn : Turn) : Option State :=
  match s.handlers i with
  | .idle | .done => none
  | .hello drain =>
    (s.drainStep (.handler i) drain).map fun
      | (s, .inl next) => s.setHandler i (.hello next)
      | (s, .inr _) => s.setHandler i .done
  | .admitting op =>
    some (s.setHandler i (.acquiring op (s.activeExecution turn.engineSeen op.requestClass)))
  | .acquiring op activeExecution => some (s.tryAcquire i op activeExecution)
  | .admitted op =>
    if turn.course = .giveUp then some ((s.cancelContext i).setHandler i .dropPermit)
    else some (s.setHandler i (.lockBegin op))
  | .lockBegin op =>
    if s.gate = none then
      some { s.setHandler i (.checkBegin op) with gate := some (.handler i) }
    else none
  | .checkBegin op =>
    some (s.setHandler i (if s.draining then .unlockBegin op false else .insertBegin op))
  | .insertBegin op =>
    some { s.setHandler i (.unlockBegin op true) with
      active := insert i s.active
      cancellations := insert i s.cancellations }
  | .unlockBegin op ok =>
    some { s.setHandler i (if ok then .registered op else .dropPermit) with gate := none }
  | .dropPermit => some ((s.releasePermit i).setHandler i .done)
  | .registered op =>
    if turn.course = .giveUp then some (s.leave i .giveUp)
    else some (s.setHandler i (.lockEngine op))
  | .lockEngine op =>
    if s.gate = none then
      some { s.setHandler i (.checkEngine op) with gate := some (.handler i) }
    else none
  | .checkEngine op =>
    some (s.setHandler i (if s.draining then .unlockEngine op false else .openEngine op))
  | .openEngine op =>
    if s.slot then some (s.setHandler i (.unlockEngine op true))
    else
      match s.initializeEngine cfg turn.world with
      | some s => some (s.setHandler i (.unlockEngine op true))
      | none => some (s.setHandler i (.unlockEngine op false))
  | .unlockEngine op ok =>
    some { s.setHandler i (if ok then .ready op else .finishActive false) with gate := none }
  | .ready op =>
    match turn.course with
    | .proceed => s.callEngine cfg i op turn.world
    | course => some (s.leave i course)
  | .submitted =>
    match turn.course with
    | .proceed => if s.responded i then some (s.leave i .fail) else none
    | course => some (s.leave i course)
  | .ensuring =>
    match s.native.callers i with
    | .ensured _ => some (s.leave i .fail)
    | _ => none
  | .leasing =>
    match s.native.callers i with
    | .granted _ => s.engineStep cfg (.receive i)
    | .received _ => (s.engineStep cfg (.leaseAcquired i)).map fun s => s.setHandler i .leased
    | .refused => some (s.leave i .fail)
    | _ => none
  | .leased =>
    some (s.setHandler i
      (if turn.course = .proceed then .finishActive true else .dropRestart true))
  | .holding => some (s.setHandler i (.dropRestart false))
  | .dropRestart thenFinish => some (s.restartIdleWindow.setHandler i (.dropRelease thenFinish))
  | .dropRelease thenFinish =>
    (s.engineStep cfg (.leaseReleased i)).map fun s => s.setHandler i (.dropSend thenFinish)
  | .dropSend thenFinish =>
    (s.engineStep cfg (.sendRelease i)).map fun s =>
      s.setHandler i (if thenFinish then .finishActive false else .done)
  | .finishActive keepsLease =>
    some { s.setHandler i (.finishCancellation keepsLease) with active := s.active.erase i }
  | .finishCancellation keepsLease =>
    some { (s.releasePermit i).setHandler i (.finishRestart keepsLease) with
      cancellations := s.cancellations.erase i }
  | .finishRestart keepsLease =>
    some (s.restartIdleWindow.setHandler i (if keepsLease then .holding else .done))

/-- The next connection gets the next handler. -/
def spawn (s : State) (task : Task) : State :=
  { s.setHandler s.connections (match task with
      | .incompatibleHello => .hello .lock
      | .serve op => .admitting op) with
    connections := s.connections + 1 }

/-- The next operation of the accept loop. -/
def loopStep (cfg : Config) (s : State) (accepted : Accepted) : Option State :=
  match s.loop with
  | .top =>
    some (s.setLoop (if s.draining then .stopped .observedDraining else .idleTest .active))
  | .idleTest l =>
    match s.look l with
    | .inl next => some (s.setLoop (.idleTest next))
    | .inr true => some (s.setLoop .stamp)
    | .inr false => some (s.setLoop .accept)
  | .stamp => some (s.setLoop (.elapsed s.lastWorkEndedNs))
  | .elapsed stamp =>
    some (s.setLoop (if s.clock - stamp ≥ cfg.idleTimeout then .drain .lock else .accept))
  | .drain drain =>
    (s.drainStep .acceptLoop drain).map fun
      | (s, .inl next) => s.setLoop (.drain next)
      | (s, .inr result) => s.setLoop (if result then .stopped .beganDraining else .accept)
  | .accept =>
    match accepted with
    | .nothing => some (s.setLoop .top)
    | .connection task => some ((s.spawn task).setLoop .top)
    | .error => some (s.setLoop .acceptFailed)
  | .acceptFailed =>
    some (s.setLoop (.stopped (if s.draining then .observedDraining else .failed)))
  | .stopped reason => some { s.setLoop (.closed reason) with draining := true }
  | .closed _ => none

def step (cfg : Config) (s : State) : Action → Option State
  | .loop accepted => s.loopStep cfg accepted
  | .handler i turn => s.handlerStep cfg i turn
  | .cancel i => some (s.cancel i)
  | .owner w => if s.slot then s.engineStep cfg (.owner w) else none
  | .nativeTick => if s.slot then s.engineStep cfg .tick else none
  | .tick => some { s with clock := s.clock + 1 }

def initial : State where
  gate := none
  draining := false
  active := ∅
  cancellations := ∅
  depths := ⟨0, 0⟩
  permits := fun _ => .absent
  slot := false
  native := Engine.State.initial
  lastWorkEndedNs := 0
  clock := 0
  loop := .top
  connections := 0
  handlers := fun _ => .idle
  drained := false

end State

end CodeStory.Server
