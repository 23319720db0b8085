import CodeStory.Lib.BoundedMap
import CodeStory.Lib.Transition
import CodeStory.Retrieval.Manifest
import CodeStory.Retrieval.QueryPlan

/-!
# The query cache and the executor that fills it

`RetrievalCache`, `QueryExecutor::execute` and the strict batch, for runs without deadlines
and cancellation. The searches of the sidecars are parameters: functions of the publication
identity, the manifest, the query or the anchors, and the limit. So are the roles of the files
of a core publication, the ranking, the fingerprint and the arithmetic of scores. Traces of
stages are left out, and of a query's trace only the reason for stopping and whether the cache
answered are kept.
-/

set_option autoImplicit false

namespace CodeStory.Retrieval

inductive CandidateSource where
  | lexical
  | semantic
  | scip
  | legacy
  deriving DecidableEq, Repr

inductive FileRole where
  | source
  | entrypoint
  | test
  | docs
  | benchmark
  | generated
  | vendor
  deriving DecidableEq, Repr

structure RankFeatures (F : Type) where
  lexical : F
  semantic : F
  scipDistance : F
  fileRolePrior : F
  definitionQuality : F
  tokenOverlap : F
  deriving DecidableEq, Repr

structure CandidateHit (F : Type) where
  nodeId : Option String
  filePath : String
  symbolName : Option String
  startLine : Option Nat
  score : F
  source : CandidateSource
  provenance : List String
  fileRole : Option FileRole
  scipHopDistance : Option Nat
  rankFeatures : Option (RankFeatures F)
  deriving DecidableEq, Repr

/-- Single-precision arithmetic, as far as the executor uses it. -/
structure Scores (F : Type) where
  zero : F
  massFloor : F
  marginalGainThreshold : F
  add : F → F → F
  sub : F → F → F
  div : F → F → F
  max : F → F → F
  le : F → F → Bool
  lt : F → F → Bool

structure RetrievalPublicationIdentity where
  coreGenerationId : String
  coreRunId : String
  sidecarGeneration : String
  sidecarInputHash : String
  semanticGeneration : String
  deriving DecidableEq, Repr

/-- `retrieval_publication_identity_from_storage` -/
def publicationIdentity (coreGenerationId coreRunId : String) (manifest : RetrievalIndexManifest) :
    Option RetrievalPublicationIdentity :=
  match manifest.sidecarGeneration.filter (!Text.isBlank ·),
      manifest.sidecarInputHash.filter (!Text.isBlank ·) with
  | some sidecarGeneration, some sidecarInputHash =>
    if Text.isBlank manifest.semanticGeneration then none
    else some ⟨coreGenerationId, coreRunId, sidecarGeneration, sidecarInputHash,
      manifest.semanticGeneration⟩
  | _, _ => none

/-- A pinned query session: the checks of `PinnedQuerySession::begin` on what it has read. -/
structure Session where
  identity : RetrievalPublicationIdentity
  manifest : RetrievalIndexManifest
  current : manifestHasCurrentSidecarContract manifest.projectId manifest = true
  identified : publicationIdentity identity.coreGenerationId identity.coreRunId manifest =
    some identity

/-- What the executor calls. -/
structure Sidecars (F : Type) where
  scores : Scores F
  chars : CharClasses
  queryFingerprint : String → String
  lexicalSearch : RetrievalPublicationIdentity → RetrievalIndexManifest → String → Nat →
    Except String (List (CandidateHit F))
  semanticSearch : RetrievalPublicationIdentity → RetrievalIndexManifest → String → Nat →
    Except String (List (CandidateHit F))
  scipAnchor : RetrievalPublicationIdentity → RetrievalIndexManifest → String → Nat →
    Except String (List (CandidateHit F))
  scipExpand : RetrievalPublicationIdentity → RetrievalIndexManifest → List (CandidateHit F) →
    Nat → Except String (List (CandidateHit F))
  /-- By core generation and run: the roles in the file table of that publication. -/
  fileRoles : String → String → String → Option FileRole
  classifyPath : String → FileRole
  rankCandidates : QueryFeatures → List (CandidateHit F) → List (CandidateHit F)

structure RetrievalCacheKey where
  coreGenerationId : Option String
  coreRunId : Option String
  projectId : String
  lexicalVersion : String
  semanticGeneration : String
  scipRevision : Option String
  sidecarGeneration : Option String
  sidecarInputHash : Option String
  sidecarSchemaVersion : Option Int
  projectionCount : Option Int
  queryFingerprint : String
  deriving DecidableEq, Repr

def RetrievalCacheKey.fromManifest (manifest : RetrievalIndexManifest) (queryFingerprint : String) :
    RetrievalCacheKey where
  coreGenerationId := none
  coreRunId := none
  projectId := manifest.projectId
  lexicalVersion := manifest.lexicalVersion
  semanticGeneration := manifest.semanticGeneration
  scipRevision := manifest.scipRevision
  sidecarGeneration := manifest.sidecarGeneration
  sidecarInputHash := manifest.sidecarInputHash
  sidecarSchemaVersion := manifest.sidecarSchemaVersion
  projectionCount := manifest.projectionCount
  queryFingerprint := queryFingerprint

structure RetrievalCache (F : Type) where
  map : BoundedMap RetrievalCacheKey (List (CandidateHit F))
  publicationIdentity : Option (String × String)

namespace RetrievalCache
variable {F : Type}

def withCapacity (capacity : Nat) : RetrievalCache F := ⟨.withCapacity capacity, none⟩

def new : RetrievalCache F := withCapacity 128

def clear (cache : RetrievalCache F) : RetrievalCache F := ⟨cache.map.clear, none⟩

def scopeToPublication (cache : RetrievalCache F) (identity : RetrievalPublicationIdentity) :
    RetrievalCache F :=
  let publication := (identity.coreGenerationId, identity.coreRunId)
  if cache.publicationIdentity ≠ some publication then
    { cache.clear with publicationIdentity := some publication }
  else cache

def keyForManifest (cache : RetrievalCache F) (manifest : RetrievalIndexManifest)
    (queryFingerprint : String) : RetrievalCacheKey :=
  let key := RetrievalCacheKey.fromManifest manifest queryFingerprint
  match cache.publicationIdentity with
  | some (generationId, runId) =>
    { key with coreGenerationId := some generationId, coreRunId := some runId }
  | none => key

def get (cache : RetrievalCache F) (key : RetrievalCacheKey) : Option (List (CandidateHit F)) :=
  cache.map.get key

def insert (cache : RetrievalCache F) (key : RetrievalCacheKey) (hits : List (CandidateHit F)) :
    RetrievalCache F :=
  { cache with map := cache.map.insert key hits }

def remove (cache : RetrievalCache F) (key : RetrievalCacheKey) : RetrievalCache F :=
  { cache with map := cache.map.remove key }

/-- The loop of `merge_delta_from` over the worker's keys. -/
def mergeKeys [DecidableEq F] (baseline other : RetrievalCache F) :
    List RetrievalCacheKey → RetrievalCache F → RetrievalCache F
  | [], cache => cache
  | key :: order, cache =>
    match other.get key with
    | none => mergeKeys baseline other order cache
    | some hits =>
      if baseline.get key = some hits then mergeKeys baseline other order cache
      else mergeKeys baseline other order (cache.insert key hits)

def mergeDeltaFrom [DecidableEq F] (cache baseline other : RetrievalCache F) : RetrievalCache F :=
  if cache.publicationIdentity ≠ baseline.publicationIdentity ∧
      cache.publicationIdentity ≠ other.publicationIdentity then cache
  else
    let cache :=
      if cache.publicationIdentity = baseline.publicationIdentity ∧
          other.publicationIdentity ≠ baseline.publicationIdentity then
        { cache.clear with publicationIdentity := other.publicationIdentity }
      else cache
    if cache.publicationIdentity ≠ other.publicationIdentity then cache
    else mergeKeys baseline other other.map.order cache

end RetrievalCache

structure QueryResult (F : Type) where
  query : String
  features : QueryFeatures
  hits : List (CandidateHit F)
  cancelReason : Option String
  cacheHit : Bool
  deriving DecidableEq, Repr

section Stages
variable {F : Type} (sidecars : Sidecars F)

def CandidateHit.addProvenance (hit : CandidateHit F) (label : String) : CandidateHit F :=
  if label ∈ hit.provenance then hit else { hit with provenance := hit.provenance ++ [label] }

def annotateStageProvenance (kind : RetrievalStageKind) (hits : List (CandidateHit F)) :
    List (CandidateHit F) :=
  match kind.provenanceLabel with
  | none => hits
  | some label => hits.map (·.addProvenance label)

def candidateMass (candidates : List (CandidateHit F)) : F :=
  candidates.foldl
    (fun mass hit => sidecars.scores.add mass
      (sidecars.scores.max hit.score sidecars.scores.massFloor))
    sidecars.scores.zero

def absorb (existing hit : CandidateHit F) : CandidateHit F :=
  let merged := { existing with
    score := sidecars.scores.max existing.score hit.score
    nodeId := existing.nodeId.or hit.nodeId
    startLine := existing.startLine.or hit.startLine
    fileRole := existing.fileRole.or hit.fileRole
    scipHopDistance := existing.scipHopDistance.or hit.scipHopDistance }
  hit.provenance.foldl CandidateHit.addProvenance merged

/-- One turn of `merge_candidates`: the first duplicate absorbs the hit. -/
def mergeCandidate (hit : CandidateHit F) : List (CandidateHit F) → List (CandidateHit F)
  | [] => [hit]
  | existing :: rest =>
    if existing.filePath = hit.filePath ∧ existing.symbolName = hit.symbolName then
      absorb sidecars existing hit :: rest
    else existing :: mergeCandidate hit rest

def mergeCandidates (candidates incoming : List (CandidateHit F)) : List (CandidateHit F) :=
  incoming.foldl (fun candidates hit => mergeCandidate sidecars hit candidates) candidates

/-- What follows the last occurrence of `separator`. -/
def afterLast (separator : List Char) : List Char → List Char
  | [] => []
  | c :: rest =>
    if separator <:+: rest then afterLast separator rest
    else if separator <+: c :: rest then (c :: rest).drop separator.length
    else c :: rest

def candidateIsExactSymbolAnchor (query : String) (candidate : CandidateHit F) : Bool :=
  match candidate.source, candidate.symbolName with
  | .semantic, _ => false
  | .legacy, _ => false
  | _, none => false
  | _, some symbol =>
    let queryLower := asciiLower (trim query).toList
    let symbolLower := asciiLower (trim symbol).toList
    if queryLower = [] then false
    else if symbolLower = queryLower then true
    else
      let symbolTail := afterLast ['.'] (afterLast [':', ':'] symbolLower)
      let tokens := query.toList.splitOnP fun c => !sidecars.chars.isAlphanumeric c && c ≠ '_'
      (tokens.filter fun token => 2 ≤ (String.ofList token).utf8ByteSize).any fun token =>
        asciiLower token == symbolTail

def shouldSkipAfterExactSymbolAnchor (stage : PlannedStage) (features : QueryFeatures)
    (candidates : List (CandidateHit F)) : Bool :=
  features.shape = .symbolLike && (stage.kind = .stage1bSemantic ||
    stage.kind = .stage2ScipExpand) &&
    candidates.any (candidateIsExactSymbolAnchor sidecars features.rawQuery)

def shouldSkipZeroDenseStage (stage : PlannedStage) (manifest : RetrievalIndexManifest) : Bool :=
  stage.kind = .stage1bSemantic &&
    (manifest.denseProjectionCount.or manifest.projectionCount).getD 0 ≤ 0

def lookupFileRole (fileRoles : String → Option FileRole) (filePath : String) : Option FileRole :=
  (fileRoles filePath).or
    (fileRoles (String.ofList (filePath.toList.map fun c => if c = '\\' then '/' else c)))

def enrichCandidate (fileRoles : String → Option FileRole) (candidate : CandidateHit F) :
    CandidateHit F :=
  if candidate.fileRole.isSome then candidate
  else { candidate with
    fileRole := some ((lookupFileRole fileRoles candidate.filePath).getD
      (sidecars.classifyPath candidate.filePath)) }

def runStage (session : Session) (stage : PlannedStage) (features : QueryFeatures)
    (anchors : List (CandidateHit F)) : Except String (List (CandidateHit F)) :=
  let query := features.rawQuery
  match stage.kind with
  | .stage0ScipAnchor => sidecars.scipAnchor session.identity session.manifest query stage.topK
  | .stage1Lexical => sidecars.lexicalSearch session.identity session.manifest query stage.topK
  | .stage1bSemantic => sidecars.semanticSearch session.identity session.manifest query stage.topK
  | .stage2ScipExpand => sidecars.scipExpand session.identity session.manifest anchors stage.topK
  | .stage3RepoTextFallback =>
    .error "repo-text diagnostic stage is unsupported in mandatory sidecar retrieval"

/-- Whether a stage added too little for the sequence to go on as before. -/
def isLowGain (before after : List (CandidateHit F)) : Bool :=
  let scores := sidecars.scores
  let beforeScore := candidateMass sidecars before
  let afterScore := candidateMass sidecars after
  let gain :=
    if scores.le beforeScore scores.zero then afterScore
    else scores.max (scores.div (scores.sub afterScore beforeScore) beforeScore) scores.zero
  scores.lt gain scores.marginalGainThreshold && after ≠ []

/-- `run_stage_sequence` when neither a deadline passes nor anyone cancels: the candidates, and
why the sequence stopped early. -/
def runStageSequence (session : Session) (features : QueryFeatures) :
    List PlannedStage → Nat → List (CandidateHit F) →
      Except String (List (CandidateHit F) × Option String)
  | [], _, candidates => .ok (candidates, none)
  | stage :: stages, lowGainStreak, candidates =>
    if shouldSkipAfterExactSymbolAnchor sidecars stage features candidates ||
        shouldSkipZeroDenseStage stage session.manifest then
      runStageSequence session features stages lowGainStreak candidates
    else
      match runStage sidecars session stage features candidates with
      | .error error => .error error
      | .ok hits =>
        let merged := mergeCandidates sidecars candidates (annotateStageProvenance stage.kind hits)
        if isLowGain sidecars candidates merged then
          if lowGainStreak + 1 ≥ stopAfterLowGainStreak then .ok (merged, some "marginal_gain")
          else runStageSequence session features stages (lowGainStreak + 1) merged
        else runStageSequence session features stages 0 merged

end Stages

section Execute
variable {F : Type} (sidecars : Sidecars F)

/-- The part of `QueryExecutor::execute` after a cache miss. -/
def executeStages (session : Session) (features : QueryFeatures) : Except String (QueryResult F) :=
  match runStageSequence sidecars session features (planQuery features) 0 [] with
  | .error error => .error error
  | .ok (candidates, cancelReason) =>
    let fileRoles := sidecars.fileRoles session.identity.coreGenerationId session.identity.coreRunId
    let hits := sidecars.rankCandidates features
      (candidates.map (enrichCandidate sidecars fileRoles))
    .ok ⟨features.rawQuery, features, hits, cancelReason, false⟩

/-- A result that stopped for no reason goes into the cache. -/
def storeResult (cache : RetrievalCache F) (manifest : RetrievalIndexManifest)
    (result : QueryResult F) : RetrievalCache F :=
  match result.cancelReason with
  | some _ => cache
  | none =>
    cache.insert
      (cache.keyForManifest manifest (sidecars.queryFingerprint result.features.rawQuery))
        result.hits

/-- `cached_batch_result`, which `execute` begins with as well. -/
def cachedResult (cache : RetrievalCache F) (manifest : RetrievalIndexManifest) (query : String) :
    Option (QueryResult F) :=
  let features := classifyQuery sidecars.chars query
  let key := cache.keyForManifest manifest (sidecars.queryFingerprint features.rawQuery)
  (cache.get key).map fun hits => ⟨features.rawQuery, features, hits, none, true⟩

/-- `QueryExecutor::execute` in full mode. -/
def execute (session : Session) (query : String) (cache : RetrievalCache F) :
    Except String (QueryResult F) × RetrievalCache F :=
  match cachedResult sidecars cache session.manifest query with
  | some result => (.ok result, cache)
  | none =>
    match executeStages sidecars session (classifyQuery sidecars.chars query) with
    | .error error => (.error error, cache)
    | .ok result => (.ok result, storeResult sidecars cache session.manifest result)

/-- `execute_with_cache` -/
def executeWithCache (session : Session) (query : String) (cache : RetrievalCache F) :
    Except String (QueryResult F) × RetrievalCache F :=
  execute sidecars session query (cache.scopeToPublication session.identity)

end Execute

section Batch
variable {F : Type} (sidecars : Sidecars F)

/-- `slice::chunks`: the rest of the current chunk and the chunks after it. -/
def chunksFrom {α : Type} (limit : Nat) : Nat → List α → List α × List (List α)
  | _, [] => ([], [])
  | 0, x :: xs =>
    let (chunk, chunks) := chunksFrom limit (limit - 1) xs
    ([], (x :: chunk) :: chunks)
  | room + 1, x :: xs =>
    let (chunk, chunks) := chunksFrom limit room xs
    (x :: chunk, chunks)

def chunks {α : Type} (limit : Nat) (xs : List α) : List (List α) := (chunksFrom limit 0 xs).2

/-- Look every query up; the others are the misses, with their positions. -/
def lookUpBatch (session : Session) (cache : RetrievalCache F) :
    Nat → List String → List (Option (QueryResult F)) × List (Nat × String)
  | _, [] => ([], [])
  | index, query :: queries =>
    let (results, misses) := lookUpBatch session cache (index + 1) queries
    match cachedResult sidecars cache session.manifest query with
    | some result => (some result :: results, misses)
    | none => (none :: results, (index, query) :: misses)

/-- Take the results of a wave in order; the first failure ends the batch. -/
def takeWave (session : Session) :
    List (Nat × Except String (QueryResult F)) → List (Option (QueryResult F)) → RetrievalCache F →
      Option String × List (Option (QueryResult F)) × RetrievalCache F
  | [], results, cache => (none, results, cache)
  | (_, .error error) :: _, results, cache => (some error, results, cache)
  | (index, .ok result) :: wave, results, cache =>
    takeWave session wave (results.set index (some result))
      (storeResult sidecars cache session.manifest result)

/-- The workers of a wave have caches of their own, which nobody keeps. -/
def runWave (session : Session) (wave : List (Nat × String)) :
    List (Nat × Except String (QueryResult F)) :=
  wave.map fun (index, query) => (index, (execute sidecars session query .new).1)

def runWaves (session : Session) :
    List (List (Nat × String)) → List (Option (QueryResult F)) → RetrievalCache F →
      Option String × List (Option (QueryResult F)) × RetrievalCache F
  | [], results, cache => (none, results, cache)
  | wave :: waves, results, cache =>
    match takeWave sidecars session (runWave sidecars session wave) results cache with
    | (some error, results, cache) => (some error, results, cache)
    | (none, results, cache) => runWaves session waves results cache

/-- Every position has a result, or the batch fails. -/
def collectResults : List (Option (QueryResult F)) → Except String (List (QueryResult F))
  | [] => .ok []
  | none :: _ => .error "strict retrieval batch dropped a query result"
  | some result :: results =>
    match collectResults results with
    | .error error => .error error
    | .ok collected => .ok (result :: collected)

/-- `execute_batch_with_cache` -/
def executeBatchWithCache (session : Session) (queries : List String) (workerLimit : Nat)
    (cache : RetrievalCache F) : Except String (List (QueryResult F)) × RetrievalCache F :=
  if queries = [] then (.ok [], cache)
  else
    let cache := cache.scopeToPublication session.identity
    let (results, misses) := lookUpBatch sidecars session cache 0 queries
    match runWaves sidecars session (chunks (max workerLimit 1) misses) results cache with
    | (some error, _, cache) => (.error error, cache)
    | (none, results, cache) => (collectResults results, cache)

end Batch

end CodeStory.Retrieval
