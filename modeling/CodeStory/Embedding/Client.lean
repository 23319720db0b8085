import Mathlib.Algebra.Ring.Nat
import CodeStory.Lib.Program
import CodeStory.Embedding.Wire

/-!
# The per-process embedding client

The call control, the connect loop, the replay loop of pure calls, and the residency
lease. Everything outside the process answers as a script: clock readings, the caller's
cancellation flag, connect outcomes, frames. Unbounded loops take fuel, so every finite
part of a call on a finite or infinite script is the run for some fuel.

The thread that watches for cancellation during an exchange shares nothing with the call
but its `completed` flag; when it fires, its connection and its cancel request happen
between the request and the response of the watched exchange. The contents of vectors
(floating point) stay behind `decodeVectors` and `normalizeAndValidateVectors`.

The log keeps the newest event first. No function reads it.
-/

set_option autoImplicit false

namespace CodeStory.Client

open Wire

inductive EmbeddingConnectOutcome where
  | connected (stream : EmbeddingTransportIdentity)
  | noOwner
  | ownerUnresponsive (failure : EmbeddingTransportFailure)
  deriving DecidableEq, Repr

/-- One answer of the world to each question a client can ask. -/
structure World where
  cancelled : Bool
  instant : Nat
  clockNs : Nat
  connect : Except EmbeddingTransportFailure EmbeddingConnectOutcome
  spawnExactCurrentExe : Except EmbeddingTransportFailure Unit
  setReadTimeout : Except String Unit
  setWriteTimeout : Except String Unit
  writeFrame : Except FrameFailure Unit
  readFrame : Except FrameFailure (EmbeddingProtocolResponse × List UInt8)
  watchTriggered : Bool

inductive Event where
  | cancelledRead (value : Bool)
  | deadlineRead (now deadline : Nat)
  | submitted (request : EmbeddingProtocolRequest)
  | attemptEnded (error : Option ClientError)
  deriving DecidableEq, Repr

structure ClientState where
  log : List Event
  uuids : Nat
  deriving DecidableEq, Repr

structure EmbeddingClientBudgets where
  connect : Nat
  spawn : Nat
  retryAfter : Nat
  queryRequest : Nat
  bulkRequest : Nat

/-- The client and what it takes from outside: digests and constants fixed by the build,
and the source of `Uuid::new_v4`, indexed by how many were drawn before. -/
structure PerUserEmbeddingClient (V : Type) where
  compatibility : EmbeddingCompatibility
  compatibilityDigest : Except ClientError String
  scopeId : String
  executableIdentity : EmbeddingExecutableIdentity
  protocolCurrent : EmbeddingServerProtocolSnapshot
  budgets : EmbeddingClientBudgets
  currentRetryAfter : Nat
  uuid : Nat → String
  decodeVectors : Nat → Nat → List UInt8 → Except ClientError (List V)
  normalizeAndValidateVectors : List V → Except ClientError (List V)

abbrev Call := Prog World ClientState ClientError

def emit (e : Event) : Call Unit := Prog.modify fun s => { s with log := e :: s.log }

/-- The latest instant a platform clock can represent, in nanoseconds. -/
def instantLimit : Nat := 2 ^ 63 * 1000000000

def instantCheckedAdd (now timeout : Nat) : Call Nat :=
  if now + timeout < instantLimit then
    pure (now + timeout)
  else
    Prog.fail (.message "embedding_server_deadline_invalid")

structure EmbeddingCallControl where
  operationTimeout : Nat
  outerDeadline : Option Nat
  operationDeadline : Option Nat

namespace EmbeddingCallControl

def activeDeadline (control : EmbeddingCallControl) : Option Nat :=
  match control.outerDeadline, control.operationDeadline with
  | some outer, some operation => some (min outer operation)
  | some outer, none => some outer
  | none, some operation => some operation
  | none, none => none

def check (control : EmbeddingCallControl) : Call Unit := do
  let cancelled ← Prog.query World.cancelled
  emit (.cancelledRead cancelled)
  if cancelled then
    Prog.fail <| .perUser
      { code := "embedding_cancelled"
        message := "the caller cancelled the embedding request"
        retryClass := "none"
        retryAfterMs := 0
        retryCondition := "the caller starts a new request"
        capacity := none }
  else
    match control.activeDeadline with
    | none => pure ()
    | some deadline => do
      let now ← Prog.query World.instant
      emit (.deadlineRead now deadline)
      if now ≥ deadline then
        Prog.fail <| .perUser
          { code := "embedding_deadline_exceeded"
            message := "the caller deadline elapsed during the embedding request"
            retryClass := "after_delay"
            retryAfterMs := 0
            retryCondition := "the caller starts a new request with a fresh deadline"
            capacity := none }
      else
        pure ()

def deadlineAfter : Option Nat → Call (Option Nat)
  | none => pure none
  | some timeout => do
    let now ← Prog.query World.instant
    let deadline ← instantCheckedAdd now timeout
    pure (some deadline)

def new (operationTimeout : Nat) (outerTimeout : Option Nat) : Call EmbeddingCallControl :=
  if operationTimeout = 0 ∨ outerTimeout = some 0 then
    Prog.fail (.message "embedding_server_deadline_invalid")
  else do
    let outerDeadline ← deadlineAfter outerTimeout
    EmbeddingCallControl.check ⟨operationTimeout, outerDeadline, none⟩
    pure ⟨operationTimeout, outerDeadline, none⟩

/-- The operation deadline is set on the first call only. -/
def setOperationDeadline (control : EmbeddingCallControl) : Call EmbeddingCallControl :=
  match control.operationDeadline with
  | some _ => pure control
  | none => do
    let now ← Prog.query World.instant
    let deadline ← instantCheckedAdd now control.operationTimeout
    pure { control with operationDeadline := some deadline }

def arm (control : EmbeddingCallControl) : Call EmbeddingCallControl := do
  let control ← control.setOperationDeadline
  control.check
  pure control

def timeLeft (control : EmbeddingCallControl) (maximum : Nat) : Call Nat :=
  match control.activeDeadline with
  | none => pure maximum
  | some deadline => do
    let now ← Prog.query World.instant
    emit (.deadlineRead now deadline)
    pure (min (deadline - now) maximum)

def remaining (control : EmbeddingCallControl) (maximum : Nat) : Call Nat := do
  control.check
  let left ← control.timeLeft maximum
  if left = 0 then do
    control.check
    Prog.fail (.message "embedding_server_deadline_invalid")
  else
    pure left

end EmbeddingCallControl

/-- `if let Some(control) = control { control.check()? }`. -/
def checkControl : Option EmbeddingCallControl → Call Unit
  | some control => control.check
  | none => pure ()

/-- The control's remaining time up to a budget, or the budget without a control. -/
def remainingOr (budget : Nat) : Option EmbeddingCallControl → Call Nat
  | some control => control.remaining budget
  | none => pure budget

structure ValidatedEmbeddingConnection where
  stream : EmbeddingTransportIdentity
  snapshot : EmbeddingServerSnapshot

section Calls
variable {V : Type} (client : PerUserEmbeddingClient V)

def newUuid : Call String := do
  let n ← Prog.read ClientState.uuids
  Prog.modify fun s => { s with uuids := n + 1 }
  pure (client.uuid n)

def configureExchangeTimeout (timeout : Nat) : Call Unit :=
  if timeout = 0 then
    Prog.fail (.message "embedding_server_timeout_invalid")
  else do
    let setRead ← Prog.query World.setReadTimeout
    match setRead with
    | .error text => Prog.fail (exchangeTimeoutConfigurationError client.currentRetryAfter text)
    | .ok () => do
      let setWrite ← Prog.query World.setWriteTimeout
      match setWrite with
      | .error text =>
        Prog.fail (exchangeTimeoutConfigurationError client.currentRetryAfter text)
      | .ok () => pure ()

/-- The part of `exchange` after its request has been handed to the stream. -/
def readResponse (sent : EmbeddingProtocolRequest) :
    Call (EmbeddingProtocolResponse × List UInt8) := do
  let frame ← Prog.query World.readFrame
  match frame with
  | .error failure => Prog.fail (mapBoundedExchangeError client.currentRetryAfter failure)
  | .ok (response, payload) =>
    if response.requestId ≠ sent.requestId then
      Prog.fail (.message "embedding_server_response_request_id_mismatch")
    else if response.protocol ≠ perUserEmbeddingProtocolV1 ∨
        response.schemaVersion ≠ perUserEmbeddingProtocolSchemaVersion then
      Prog.fail (.message "embedding_server_protocol_mismatch")
    else
      pure (response, payload)

def submit (sent : EmbeddingProtocolRequest) : Call Unit := do
  emit (.submitted sent)
  let written ← Prog.query World.writeFrame
  match written with
  | .error failure => Prog.fail (mapBoundedExchangeError client.currentRetryAfter failure)
  | .ok () => pure ()

def exchange (sent : EmbeddingProtocolRequest) :
    Call (EmbeddingProtocolResponse × List UInt8) := do
  submit client sent
  readResponse client sent

def intentName : EmbeddingConnectIntent → String
  | .activate => "activate"
  | .observe => "observe"

def hello (intent : EmbeddingConnectIntent) (stream : EmbeddingTransportIdentity) :
    Call EmbeddingServerSnapshot := do
  let requestId ← newUuid client
  let executable := client.executableIdentity
  let (response, _) ← exchange client <| request requestId client.compatibility <|
    .hello (intentName intent) executable.pid executable.processStartId
      executable.executableSha256 executable.executableVersion
  let result ← Prog.ofExcept (responseResult response)
  match result with
  | .hello compatibilitySha256 snapshot => do
    let digest ← Prog.ofExcept client.compatibilityDigest
    if compatibilitySha256 ≠ digest then
      Prog.fail (.message "embedding_server_incompatible_active_owner")
    else do
      Prog.ofExcept (validateServerSnapshot client.protocolCurrent snapshot stream executable)
      pure snapshot
  | _ => Prog.fail (.message "embedding_server_protocol_mismatch: expected hello")

/-- The closure `wait_for_convergence`; the sleep changes nothing the client can see. -/
def waitForConvergence (control : Option EmbeddingCallControl) (startedAtNs : Nat) :
    Call Unit := do
  checkControl control
  let now ← Prog.query World.clockNs
  if client.budgets.spawn - (now - startedAtNs) = 0 then
    Prog.fail (.message "embedding_server_start_timeout")
  else do
    let _ ← remainingOr (client.budgets.spawn - (now - startedAtNs)) control
    pure ()

/-- `get_or_insert_with` on the instant at which recovery started. -/
def recoveryStart (ownerRecoveryStartedAtNs : Option Nat) : Call Nat :=
  match ownerRecoveryStartedAtNs with
  | some startedAtNs => pure startedAtNs
  | none => Prog.query World.clockNs

def connectLoop (intent : EmbeddingConnectIntent) (maySpawn : Bool)
    (control : Option EmbeddingCallControl) (recoverAfterServerLoss : Bool) :
    Nat → Option Nat → Option Nat → Call ValidatedEmbeddingConnection
  | 0, _, _ => Prog.stuck
  | fuel + 1, spawnedAtNs, ownerRecoveryStartedAtNs => do
    checkControl control
    let connectBudget ← remainingOr client.budgets.connect control
    let outcome ← Prog.query World.connect
    match outcome with
    | .error failure => Prog.fail (.transport failure)
    | .ok (.connected stream) => do
      configureExchangeTimeout client connectBudget
      let greeted ← Prog.attempt (hello client intent stream)
      match greeted with
      | .ok snapshot => do
        checkControl control
        pure ⟨stream, snapshot⟩
      | .error error =>
        if recoverAfterServerLoss && isServerLoss error then do
          let startedAtNs ← recoveryStart ownerRecoveryStartedAtNs
          waitForConvergence client control startedAtNs
          connectLoop intent maySpawn control recoverAfterServerLoss fuel spawnedAtNs
            (some startedAtNs)
        else
          Prog.fail error
    | .ok .noOwner =>
      match maySpawn, spawnedAtNs with
      | true, none => do
        let spawned ← Prog.query World.spawnExactCurrentExe
        match spawned with
        | .error failure => Prog.fail (.transport failure)
        | .ok () => do
          let now ← Prog.query World.clockNs
          connectLoop intent maySpawn control recoverAfterServerLoss fuel (some now)
            ownerRecoveryStartedAtNs
      | false, _ => Prog.fail (.message "embedding_server_absent")
      | true, some startedAtNs => do
        waitForConvergence client control startedAtNs
        connectLoop intent maySpawn control recoverAfterServerLoss fuel spawnedAtNs
          ownerRecoveryStartedAtNs
    | .ok (.ownerUnresponsive failure) =>
      match spawnedAtNs with
      | some startedAtNs => do
        waitForConvergence client control startedAtNs
        connectLoop intent maySpawn control recoverAfterServerLoss fuel spawnedAtNs
          ownerRecoveryStartedAtNs
      | none =>
        if recoverAfterServerLoss then do
          let startedAtNs ← recoveryStart ownerRecoveryStartedAtNs
          waitForConvergence client control startedAtNs
          connectLoop intent maySpawn control recoverAfterServerLoss fuel spawnedAtNs
            (some startedAtNs)
        else
          Prog.fail <| .perUser
            { code := "embedding_server_owner_unresponsive"
              message := failure.message
              retryClass := "after_server_change"
              retryAfterMs := durationMs client.budgets.retryAfter
              retryCondition := "the lifetime authority changes"
              capacity := none }

def connectWithControl (fuel : Nat) (intent : EmbeddingConnectIntent) (maySpawn : Bool)
    (control : Option EmbeddingCallControl) (recoverAfterServerLoss : Bool) :
    Call ValidatedEmbeddingConnection :=
  connectLoop client intent maySpawn control recoverAfterServerLoss fuel none none

def connect (fuel : Nat) (intent : EmbeddingConnectIntent) (maySpawn : Bool) :
    Call ValidatedEmbeddingConnection :=
  connectWithControl client fuel intent maySpawn none false

def sendCancel (fuel : Nat) (targetRequestId cancelToken : String) : Call Bool := do
  let _ ← connect client fuel .activate false
  configureExchangeTimeout client client.budgets.connect
  let requestId ← newUuid client
  let (response, _) ← exchange client <| request requestId client.compatibility <|
    .cancel targetRequestId cancelToken
  let result ← Prog.ofExcept (responseResult response)
  match result with
  | .cancelled => pure true
  | .released => pure false
  | _ => Prog.fail (.message "embedding_server_protocol_mismatch: expected cancellation result")

/-- The watching thread sends at most one cancellation and ignores how it went. -/
def watchControlledCancellation (fuel : Nat) (requestId cancelToken : String) :
    Call Unit := do
  let triggered ← Prog.query World.watchTriggered
  if triggered then do
    let _ ← Prog.attempt (sendCancel client fuel requestId cancelToken)
    pure ()
  else
    pure ()

/-- The exchange under the watching thread; the scope joins that thread in every case. -/
def watchedExchange (fuel : Nat) (requestId cancelToken : String)
    (sent : EmbeddingProtocolRequest) : Call (EmbeddingProtocolResponse × List UInt8) := do
  let written ← Prog.attempt (submit client sent)
  watchControlledCancellation client fuel requestId cancelToken
  match written with
  | .error error => Prog.fail error
  | .ok () => readResponse client sent

def checkVectorsServer (snapshot : EmbeddingServerSnapshot) :
    EmbeddingResult → Except ClientError Unit
  | .vectors _ _ _ identity => validateEngineServerIdentity identity snapshot
  | _ => .ok ()

def resolveCall (control : EmbeddingCallControl) (snapshot : EmbeddingServerSnapshot)
    (exchanged : Except ClientError (EmbeddingProtocolResponse × List UInt8)) :
    Call (EmbeddingResult × List UInt8) := do
  control.check
  let (response, payload) ← Prog.ofExcept exchanged
  let result ← Prog.ofExcept (responseResult response)
  Prog.ofExcept (checkVectorsServer snapshot result)
  pure (result, payload)

def errorOf {α : Type} : Except ClientError α → Option ClientError
  | .ok _ => none
  | .error e => some e

structure EmbeddingQualificationAttemptResult where
  ordinal : Nat
  requestId : String
  serverInstanceId : String
  submittedNs : Nat
  completedNs : Nat
  outcome : String
  deriving DecidableEq, Repr

def attemptOutcome : Option ClientError → String
  | none => "completed"
  | some error => if isServerLoss error then "server_loss" else "failed"

def replayLoop (operationTimeout : Nat) (operation : Nat → String → EmbeddingOperation) :
    Nat → EmbeddingCallControl → Bool → Bool → List EmbeddingQualificationAttemptResult →
    Call ((EmbeddingResult × List UInt8) × List EmbeddingQualificationAttemptResult)
  | 0, _, _, _, _ => Prog.stuck
  | fuel + 1, control, replayed, recoverAfterInflightLoss, attempts => do
    control.check
    let connected ← Prog.attempt <|
      connectWithControl client fuel .activate true (some control) recoverAfterInflightLoss
    match connected with
    | .error error =>
      if !replayed && isServerLoss error then do
        control.check
        replayLoop operationTimeout operation fuel control true recoverAfterInflightLoss attempts
      else
        Prog.fail error
    | .ok connection => do
      let control ← control.arm
      let requestId ← newUuid client
      let cancelToken ← newUuid client
      let remaining ← control.remaining operationTimeout
      configureExchangeTimeout client remaining
      let submittedNs ← Prog.query World.clockNs
      let exchanged ← Prog.attempt <| watchedExchange client fuel requestId cancelToken <|
        request requestId client.compatibility
          (operation (positiveDurationMs remaining) cancelToken)
      let call ← Prog.attempt (resolveCall control connection.snapshot exchanged)
      let completedNs ← Prog.query World.clockNs
      emit (.attemptEnded (errorOf call))
      let attempts := attempts ++
        [⟨attempts.length + 1, requestId, connection.snapshot.process.serverInstanceId,
          submittedNs, completedNs, attemptOutcome (errorOf call)⟩]
      match call with
      | .ok result => pure (result, attempts)
      | .error error =>
        if !replayed && isServerLoss error then do
          control.check
          replayLoop operationTimeout operation fuel control true true attempts
        else
          Prog.fail error

def callPureWithReplayControlledAndAttempts (fuel operationTimeout : Nat)
    (outerTimeout : Option Nat) (operation : Nat → String → EmbeddingOperation) :
    Call ((EmbeddingResult × List UInt8) × List EmbeddingQualificationAttemptResult) := do
  let control ← EmbeddingCallControl.new operationTimeout outerTimeout
  replayLoop client operationTimeout operation fuel control false false []

def vectorsResult (result : EmbeddingResult × List UInt8) :
    Except ClientError (Nat × Nat × EmbeddingEngineIdentity × List UInt8) :=
  match result with
  | (.vectors rows columns encoding identity, payload) =>
    if encoding ≠ "f32_le" then
      .error (.message "embedding_vector_encoding_mismatch")
    else
      .ok (rows, columns, identity, payload)
  | _ => .error (.message "embedding_server_protocol_mismatch: expected vectors")

def rowCountMismatch (expected observed : Nat) : ClientError :=
  .message ("embedding_vector_row_count_mismatch: expected=" ++ toString expected ++
    " observed=" ++ toString observed)

/-- What `embed_query` does with the answer; nothing here reaches the wire. -/
def queryVector (result : EmbeddingResult × List UInt8) : Except ClientError V := do
  let (rows, columns, identity, payload) ← vectorsResult result
  if rows ≠ 1 then
    throw (rowCountMismatch 1 rows)
  let vectors ← client.decodeVectors rows columns payload
  validateEngineIdentity identity client.compatibility
  let normalized ← client.normalizeAndValidateVectors vectors
  match normalized.getLast? with
  | some vector => pure vector
  | none => throw (.message "embedding_vector_missing")

def documentVectors (expected : Nat) (result : EmbeddingResult × List UInt8) :
    Except ClientError (List V) := do
  let (rows, columns, identity, payload) ← vectorsResult result
  if rows ≠ expected then
    throw (rowCountMismatch expected rows)
  validateEngineIdentity identity client.compatibility
  let vectors ← client.decodeVectors rows columns payload
  client.normalizeAndValidateVectors vectors

def embedQuery (fuel : Nat) (text : String) (maximumTimeout : Option Nat) :
    Call (V × List EmbeddingQualificationAttemptResult) := do
  Prog.ofExcept (validateRawInputs [text])
  let (result, attempts) ← callPureWithReplayControlledAndAttempts client fuel
    client.budgets.queryRequest maximumTimeout fun deadlineMs token =>
      .embedQuery client.scopeId deadlineMs (durationMs client.budgets.retryAfter)
        (some token) text
  let vector ← Prog.ofExcept (queryVector client result)
  pure (vector, attempts)

def embedDocuments (fuel : Nat) (texts : List String) (maximumTimeout : Option Nat) :
    Call (List V × List EmbeddingQualificationAttemptResult) :=
  if texts.isEmpty then
    pure ([], [])
  else do
    Prog.ofExcept (validateRawInputs texts)
    let (result, attempts) ← callPureWithReplayControlledAndAttempts client fuel
      client.budgets.bulkRequest maximumTimeout fun deadlineMs token =>
        .embedDocuments client.scopeId deadlineMs (durationMs client.budgets.retryAfter)
          (some token) texts
    let vectors ← Prog.ofExcept (documentVectors client texts.length result)
    pure (vectors, attempts)

structure PerUserEmbeddingResidencyLease where
  stream : Option EmbeddingTransportIdentity
  lease : EmbeddingEngineLeaseIdentity
  identity : EmbeddingEngineIdentity
  server : EmbeddingServerSnapshot

def acquireResidencyLease (fuel : Nat) : Call PerUserEmbeddingResidencyLease := do
  let connection ← connect client fuel .activate true
  configureExchangeTimeout client client.budgets.bulkRequest
  let requestId ← newUuid client
  let (response, _) ← exchange client <| request requestId client.compatibility <|
    .acquireLease client.scopeId (durationMs client.budgets.bulkRequest)
      (durationMs client.budgets.retryAfter)
  let result ← Prog.ofExcept (responseResult response)
  match result with
  | .lease lease identity => do
    Prog.ofExcept (validateEngineIdentity identity client.compatibility)
    Prog.ofExcept (validateEngineServerIdentity identity connection.snapshot)
    Prog.ofExcept (validateLeaseServerIdentity lease identity connection.snapshot)
    pure ⟨some connection.stream, lease, identity, connection.snapshot⟩
  | _ => Prog.fail (.message "embedding_server_protocol_mismatch: expected lease")

/-- The lease with its refreshed identity, and that identity. -/
def revalidate (held : PerUserEmbeddingResidencyLease) :
    Call (PerUserEmbeddingResidencyLease × EmbeddingEngineIdentity) :=
  match held.stream with
  | none => Prog.fail (.message "embedding_publication_lease_released")
  | some stream => do
    configureExchangeTimeout client client.budgets.bulkRequest
    let requestId ← newUuid client
    let (response, _) ← exchange client <| request requestId client.compatibility .snapshot
    let result ← Prog.ofExcept (responseResult response)
    match result with
    | .snapshot snapshot (some lease) (some identity) =>
      if lease ≠ held.lease ∨ identity.serverInstanceId ≠ held.identity.serverInstanceId then
        Prog.fail (.message "embedding_publication_lease_changed")
      else do
        Prog.ofExcept <| validateServerSnapshot client.protocolCurrent snapshot stream
          ⟨held.server.process.pid, held.server.process.processStartId,
            held.server.process.executableSha256, held.server.process.executableVersion⟩
        Prog.ofExcept (validateSameServer snapshot held.server)
        Prog.ofExcept (validateLeaseServerIdentity lease identity snapshot)
        Prog.ofExcept (validateEngineIdentity identity client.compatibility)
        pure ({ held with identity := identity }, identity)
    | _ => Prog.fail (.message "embedding_server_protocol_mismatch: expected lease revalidation")

/-- `release_inner`; the caller keeps the lease with its stream taken, also on failure. -/
def releaseInner (held : PerUserEmbeddingResidencyLease) : Call Unit :=
  match held.stream with
  | none => pure ()
  | some _ => do
    configureExchangeTimeout client client.budgets.connect
    let requestId ← newUuid client
    let (response, _) ← exchange client <| request requestId client.compatibility <|
      .releaseLease held.lease.leaseToken
    let result ← Prog.ofExcept (responseResult response)
    match result with
    | .released => pure ()
    | _ => Prog.fail (.message "embedding_server_protocol_mismatch: expected lease release")

/-- `release` consumes the lease, so its `Drop` runs `release_inner` once more on the
lease whose stream was taken, whatever the first one returned. -/
def release (held : PerUserEmbeddingResidencyLease) : Call Unit := do
  let released ← Prog.attempt (releaseInner client held)
  let _ ← Prog.attempt (releaseInner client { held with stream := none })
  Prog.ofExcept released

end Calls

end CodeStory.Client
