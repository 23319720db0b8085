import Mathlib.Data.List.Basic
import Mathlib.Algebra.Ring.Nat
import CodeStory.Lib.Text

/-!
# The wire contract seen by an embedding client

Operations, responses, errors, and the checks a client makes on what it receives. Frame
bytes, JSON and sockets are not modelled: a frame that was written or read is an answer
of the world, and only the classification of its failure happens here. Snapshot and
identity records keep the fields that some check reads.
-/

set_option autoImplicit false

namespace CodeStory.Wire

open Text

def perUserEmbeddingProtocolV1 : String := "codestory.per-user-embedding/v1"

def perUserEmbeddingProtocolSchemaVersion : Nat := 1

def perUserEmbeddingServerSnapshotSchemaVersion : Nat := 1

def perUserEmbeddingMaxDocumentCount : Nat := 2048

def perUserEmbeddingMaxInputBytes : Nat := 1024 * 1024

structure EmbeddingCapacityPressureWire where
  reason : String
  queueClass : String
  capacity : Nat
  depth : Nat
  retryAfterMs : Nat
  retryCondition : String
  ownerState : String
  activeScopeId : Option String
  activeRequestId : Option String
  activeRequestClass : Option String
  deriving DecidableEq, Repr

structure PerUserEmbeddingError where
  code : String
  message : String
  retryClass : String
  retryAfterMs : Nat
  retryCondition : String
  capacity : Option EmbeddingCapacityPressureWire
  deriving DecidableEq, Repr

structure EmbeddingTransportFailure where
  code : String
  message : String
  deriving DecidableEq, Repr

inductive IoErrorKind where
  | timedOut
  | wouldBlock
  | brokenPipe
  | connectionAborted
  | connectionReset
  | notConnected
  | unexpectedEof
  | other
  deriving DecidableEq, Repr

/-- A failed frame: the first I/O kind in its cause chain, its text, and the text the
client would report about the peer if it judged the connection lost. -/
structure FrameFailure where
  ioKind : Option IoErrorKind
  text : String
  lostMessage : String
  deriving DecidableEq, Repr

/-- What an `anyhow::Error` carries on these paths. Only `perUser` survives a downcast
to `PerUserEmbeddingError`. -/
inductive ClientError where
  | perUser (error : PerUserEmbeddingError)
  | transport (failure : EmbeddingTransportFailure)
  | message (text : String)
  deriving DecidableEq, Repr

def isServerLoss : ClientError → Bool
  | .perUser error =>
    error.code == "embedding_server_owner_unresponsive" ||
      error.code == "embedding_server_connection_lost"
  | .transport _ => false
  | .message _ => false

/-- Durations are counts of nanoseconds. -/
def durationMs (duration : Nat) : Nat := min (duration / 1000000) (2 ^ 64 - 1)

def positiveDurationMs (duration : Nat) : Nat := max (durationMs duration) 1

def mapBoundedExchangeError (retryAfter : Nat) (failure : FrameFailure) : ClientError :=
  match failure.ioKind with
  | some .timedOut | some .wouldBlock =>
    .perUser
      { code := "embedding_server_owner_unresponsive"
        message := "the embedding server did not complete a bounded exchange"
        retryClass := "after_server_change"
        retryAfterMs := durationMs retryAfter
        retryCondition := "the lifetime authority or server instance changes"
        capacity := none }
  | some .brokenPipe | some .connectionAborted | some .connectionReset
  | some .notConnected | some .unexpectedEof =>
    .perUser
      { code := "embedding_server_connection_lost"
        message := failure.lostMessage
        retryClass := "same_rpc_once"
        retryAfterMs := 0
        retryCondition := "the server instance changes"
        capacity := none }
  | some .other | none => .message failure.text

def exchangeTimeoutConfigurationError (retryAfter : Nat) (text : String) : ClientError :=
  .perUser
    { code := "embedding_server_owner_unresponsive"
      message := "could not bound the embedding server exchange: " ++ text
      retryClass := "after_server_change"
      retryAfterMs := durationMs retryAfter
      retryCondition := "the lifetime authority or server instance changes"
      capacity := none }

structure EmbeddingTransportIdentity where
  endpointNamespaceId : String
  lifetimeAuthorityId : String
  listenerId : String
  peerVerified : Bool
  peerPid : Option Nat
  peerProcessStartId : Option String
  deriving DecidableEq, Repr

structure EmbeddingExecutableIdentity where
  pid : Nat
  processStartId : String
  executableSha256 : String
  executableVersion : String
  deriving DecidableEq, Repr

structure EmbeddingServerProtocolSnapshot where
  bootstrapVersion : Nat
  schemaVersion : Nat
  protocolSha256 : String
  constantSetSha256 : String
  measurementProtocolSha256 : String
  deriving DecidableEq, Repr

structure EmbeddingServerAuthoritySnapshot where
  endpointNamespaceId : String
  lifetimeAuthorityId : String
  listenerId : String
  peerVerified : Bool
  deriving DecidableEq, Repr

structure EmbeddingServerProcessSnapshot where
  serverInstanceId : String
  pid : Nat
  processStartId : String
  executableSha256 : String
  executableVersion : String
  deriving DecidableEq, Repr

structure EmbeddingServerSnapshot where
  schemaVersion : Nat
  protocol : EmbeddingServerProtocolSnapshot
  authority : EmbeddingServerAuthoritySnapshot
  process : EmbeddingServerProcessSnapshot
  deriving DecidableEq, Repr

structure EmbeddingEngineIdentity where
  serverInstanceId : String
  loadGeneration : Nat
  workerAlive : Bool
  loadError : Option String
  modelDigest : String
  ggmlBuildIdentity : String
  policy : String
  materializedModelSha256 : String
  deriving DecidableEq, Repr

structure EmbeddingEngineLeaseIdentity where
  leaseToken : String
  serverInstanceId : String
  loadGeneration : Nat
  compatibilitySha256 : String
  deriving DecidableEq, Repr

structure EmbeddingCompatibility where
  modelSha256 : String
  ggmlBuildIdentity : String
  policy : String
  deriving DecidableEq, Repr

inductive EmbeddingConnectIntent where
  | activate
  | observe
  deriving DecidableEq, Repr

inductive EmbeddingOperation where
  | hello (intent : String) (clientPid : Nat) (clientProcessStartId : String)
      (clientExecutableSha256 : String) (clientExecutableVersion : String)
  | snapshot
  | ensureResident (scopeId : String) (deadlineMs retryAfterMs : Nat)
  | acquireLease (scopeId : String) (deadlineMs retryAfterMs : Nat)
  | releaseLease (leaseToken : String)
  | embedQuery (scopeId : String) (deadlineMs retryAfterMs : Nat)
      (cancelToken : Option String) (input : String)
  | embedDocuments (scopeId : String) (deadlineMs retryAfterMs : Nat)
      (cancelToken : Option String) (inputs : List String)
  | cancel (targetRequestId cancelToken : String)
  deriving DecidableEq, Repr

inductive EmbeddingResult where
  | hello (compatibilitySha256 : String) (snapshot : EmbeddingServerSnapshot)
  | snapshot (snapshot : EmbeddingServerSnapshot) (lease : Option EmbeddingEngineLeaseIdentity)
      (identity : Option EmbeddingEngineIdentity)
  | identity (identity : EmbeddingEngineIdentity)
  | lease (lease : EmbeddingEngineLeaseIdentity) (identity : EmbeddingEngineIdentity)
  | vectors (rows columns : Nat) (encoding : String) (identity : EmbeddingEngineIdentity)
  | released
  | cancelled
  deriving DecidableEq, Repr

structure EmbeddingProtocolRequest where
  protocol : String
  schemaVersion : Nat
  requestId : String
  compatibility : EmbeddingCompatibility
  operation : EmbeddingOperation
  deriving DecidableEq, Repr

structure EmbeddingProtocolResponse where
  protocol : String
  schemaVersion : Nat
  requestId : String
  result : Option EmbeddingResult
  error : Option PerUserEmbeddingError
  deriving DecidableEq, Repr

def request (requestId : String) (compatibility : EmbeddingCompatibility)
    (operation : EmbeddingOperation) : EmbeddingProtocolRequest :=
  { protocol := perUserEmbeddingProtocolV1
    schemaVersion := perUserEmbeddingProtocolSchemaVersion
    requestId
    compatibility
    operation }

def responseResult (response : EmbeddingProtocolResponse) :
    Except ClientError EmbeddingResult :=
  if response.protocol ≠ perUserEmbeddingProtocolV1 ∨
      response.schemaVersion ≠ perUserEmbeddingProtocolSchemaVersion then
    .error (.message "embedding_server_protocol_mismatch")
  else
    match response.result with
    | some result => .ok result
    | none =>
      match response.error with
      | none => .error (.message "embedding server returned neither result nor error")
      | some error => .error (.perUser error)

def validateRawInputs (inputs : List String) : Except ClientError Unit :=
  if inputs.isEmpty ∨ inputs.length > perUserEmbeddingMaxDocumentCount ∨
      inputs.any isBlank then
    .error (.message "embedding_server_input_shape_invalid")
  else
    let bytes := (inputs.map String.utf8ByteSize).sum
    if 2 ^ 64 ≤ bytes then
      .error (.message "embedding_server_input_length_overflow")
    else if bytes > perUserEmbeddingMaxInputBytes then
      .error (.message "embedding_server_input_too_large")
    else
      .ok ()

def validateEngineIdentity (identity : EmbeddingEngineIdentity)
    (compatibility : EmbeddingCompatibility) : Except ClientError Unit :=
  if !identity.workerAlive ∨ identity.loadError.isSome then
    .error (.message "embedding_server_engine_unavailable")
  else if identity.modelDigest ≠ compatibility.modelSha256 ∨
      identity.ggmlBuildIdentity ≠ compatibility.ggmlBuildIdentity ∨
      identity.policy ≠ compatibility.policy ∨
      identity.materializedModelSha256 ≠ compatibility.modelSha256 ∨
      identity.loadGeneration = 0 then
    .error (.message "embedding_server_engine_identity_mismatch")
  else
    .ok ()

def validateEngineServerIdentity (identity : EmbeddingEngineIdentity)
    (server : EmbeddingServerSnapshot) : Except ClientError Unit :=
  if identity.serverInstanceId ≠ server.process.serverInstanceId then
    .error (.message "embedding_server_instance_changed")
  else
    .ok ()

def validateLeaseServerIdentity (lease : EmbeddingEngineLeaseIdentity)
    (identity : EmbeddingEngineIdentity) (server : EmbeddingServerSnapshot) :
    Except ClientError Unit :=
  if lease.serverInstanceId ≠ server.process.serverInstanceId ∨
      lease.serverInstanceId ≠ identity.serverInstanceId ∨
      lease.loadGeneration ≠ identity.loadGeneration ∨
      isBlank lease.leaseToken then
    .error (.message "embedding_publication_lease_changed")
  else
    .ok ()

def validateSameServer (observed accepted : EmbeddingServerSnapshot) :
    Except ClientError Unit :=
  if observed.process ≠ accepted.process ∨ observed.protocol ≠ accepted.protocol ∨
      observed.authority ≠ accepted.authority then
    .error (.message "embedding_server_instance_changed")
  else
    .ok ()

def validateServerSnapshot (current : EmbeddingServerProtocolSnapshot)
    (snapshot : EmbeddingServerSnapshot) (transport : EmbeddingTransportIdentity)
    (executable : EmbeddingExecutableIdentity) : Except ClientError Unit :=
  if snapshot.schemaVersion ≠ perUserEmbeddingServerSnapshotSchemaVersion ∨
      snapshot.protocol ≠ current ∨
      isBlank snapshot.process.serverInstanceId ∨
      snapshot.process.pid = 0 ∨
      isBlank snapshot.process.processStartId ∨
      isBlank snapshot.process.executableSha256 ∨
      isBlank snapshot.process.executableVersion then
    .error (.message "embedding_server_snapshot_contract_mismatch")
  else if !transport.peerVerified ∨ !snapshot.authority.peerVerified ∨
      snapshot.authority.endpointNamespaceId ≠ transport.endpointNamespaceId ∨
      snapshot.authority.lifetimeAuthorityId ≠ transport.lifetimeAuthorityId ∨
      snapshot.authority.listenerId ≠ transport.listenerId ∨
      transport.peerPid ≠ some snapshot.process.pid ∨
      transport.peerProcessStartId ≠ some snapshot.process.processStartId then
    .error (.message "embedding_server_peer_identity_mismatch")
  else if snapshot.process.executableSha256 ≠ executable.executableSha256 ∨
      snapshot.process.executableVersion ≠ executable.executableVersion then
    .error (.message "embedding_server_executable_identity_mismatch")
  else
    .ok ()

end CodeStory.Wire
