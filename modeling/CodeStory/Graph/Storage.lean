import CodeStory.Graph.Tables
import Mathlib.Data.List.Dedup

/-!
# The store and its mutators

One connection: the graph tables, the derived snapshots with their state rows, and the
in-memory node cache. A mutator is one transaction, followed by its cache update and by the
invalidations it makes; it is modelled as it succeeds, a failed one changes nothing. Foreign
keys and the uniqueness of file paths only make mutators fail, so they do not appear, except
where a move to another root brings its own paths into conflict. The content `β` of the
resolution support blob is whatever the resolver puts into it.

Occurrences, documents, anchors, structural units and artifact caches are other tables; no
function here reads them.
-/

set_option autoImplicit false

namespace CodeStory.Graph

universe u

inductive SnapshotState where
  | dirty | building | ready
deriving DecidableEq, Repr

def groundingSnapshotVersion : Int := 1

structure GroundingSnapshotMetadata where
  version : Int
  summaryState : SnapshotState
  detailState : SnapshotState
deriving DecidableEq

def GroundingSnapshotMetadata.hasReadySummary (metadata : GroundingSnapshotMetadata) : Bool :=
  metadata.version = groundingSnapshotVersion && metadata.summaryState = .ready

structure RepoStats where
  nodeCount : Nat
  edgeCount : Nat
  fileCount : Nat
  errorCount : Nat
deriving DecidableEq, Repr

structure StorageStats extends RepoStats where
  fatalErrorCount : Nat
deriving DecidableEq, Repr

structure ResolutionSupportRow (β : Type u) where
  version : Int
  state : SnapshotState
  blob : Option β

structure Storage (β : Type u) extends Tables where
  groundingMeta : Option GroundingSnapshotMetadata
  groundingFileSnapshot : List Int
  groundingRepoStats : Option RepoStats
  resolutionSupport : Option (ResolutionSupportRow β)
  nodeCache : KeyedTable Node.id

structure ProjectionBatch where
  files : List FileInfo
  fileContentHashes : List (Int × String)
  nodes : List Node
  edges : List Edge
  fileErrors : List ErrorInfo
  /-- Structural units, projections and cache writes, occurrences, accesses and callable
  states are all empty. -/
  restIsEmpty : Bool

def ProjectionBatch.isEmpty (batch : ProjectionBatch) : Bool :=
  batch.files.isEmpty && batch.fileContentHashes.isEmpty && batch.nodes.isEmpty &&
    batch.edges.isEmpty && batch.fileErrors.isEmpty && batch.restIsEmpty

/-- Every error belongs to a file of the batch, and no file has two content hashes. -/
def ProjectionBatch.accepted (batch : ProjectionBatch) : Bool :=
  batch.fileErrors.all (fun error => error.fileId.elim false (· ∈ batch.files.map (·.id))) &&
    (batch.fileContentHashes.map (·.1)).Nodup

namespace Storage
variable {β : Type u} (s : Storage β)

/-- A store just opened: whatever the database holds, and an empty cache. -/
def opened : Storage β := { s with nodeCache := .empty }

/-- A database just created. -/
def created : Storage β where
  toTables := .empty
  groundingMeta := none
  groundingFileSnapshot := []
  groundingRepoStats := none
  resolutionSupport := some ⟨0, .dirty, none⟩
  nodeCache := .empty

/-! ## State rows -/

def writeGroundingSnapshotStates (summary detail : SnapshotState) : Storage β :=
  { s with groundingMeta := some ⟨groundingSnapshotVersion, summary, detail⟩ }

def markGroundingSnapshotsDirty : Storage β := s.writeGroundingSnapshotStates .dirty .dirty

/-- On conflict the version of the row stays. -/
def invalidateResolutionSupportSnapshot : Storage β :=
  let version := (s.resolutionSupport.map (·.version)).getD 0
  { s with resolutionSupport := some ⟨version, .dirty, none⟩ }

def invalidateGroundingSnapshots : Storage β :=
  s.markGroundingSnapshotsDirty.invalidateResolutionSupportSnapshot

def hasReadyGroundingSummarySnapshots : Bool :=
  s.groundingMeta.elim false (·.hasReadySummary)

def getResolutionSupportSnapshot (version : Int) : Option β :=
  match s.resolutionSupport with
  | some row => if row.version = version && row.state = .ready then row.blob else none
  | none => none

def putResolutionSupportSnapshot (version : Int) (blob : β) : Storage β :=
  { s with resolutionSupport := some ⟨version, .ready, some blob⟩ }

/-! ## Nodes -/

def cacheNodes (nodes : List Node) : Storage β :=
  { s with nodeCache := s.nodeCache.upsertAll nodes }

def uncacheNodes (ids : List Int) : Storage β :=
  { s with nodeCache := s.nodeCache.deleteWhere fun node => node.id ∈ ids }

def writeNodes (nodes : List Node) : Storage β :=
  { s with node := s.node.upsertAll nodes }

def insertNode (node : Node) : Storage β :=
  let prepared := (s.preparedNodesForInsert [node]).headD node
  ((s.writeNodes [prepared]).cacheNodes [prepared]).invalidateGroundingSnapshots

def insertNodesBatch (nodes : List Node) : Storage β :=
  let prepared := s.preparedNodesForInsert nodes
  ((s.writeNodes (filesFirst prepared)).cacheNodes prepared).invalidateGroundingSnapshots

-- No invalidation here.
def upsertRetrievalArtifactNodesBatch (nodes : List Node) : Storage β :=
  let prepared := s.preparedNodesForInsert nodes
  (s.writeNodes prepared).cacheNodes prepared

def staleArtifactIds (keepNodeIds : List Int) : List Int :=
  (s.node.rows.filter fun node => isRetrievalArtifact node && node.id ∉ keepNodeIds).map (·.id)

def pruneRetrievalArtifactsToNodeIds (keepNodeIds : List Int) : Storage β :=
  let stale := s.staleArtifactIds keepNodeIds
  ({ s with node := s.node.deleteWhere fun node => node.id ∈ stale }.uncacheNodes
    stale).invalidateGroundingSnapshots

/-- The rows pass from database to database in SQL: neither the cache nor a state row sees
them. A source that does not exist is one without rows. -/
def copyRetrievalArtifactNodesFrom (source : KeyedTable Node.id) : Storage β :=
  s.writeNodes (source.rows.filter isRetrievalArtifact)

/-! ## Edges, files and errors -/

def insertEdgesBatch (edges : List Edge) : Storage β :=
  { s with edge := s.edge.insertAll edges }.invalidateGroundingSnapshots

def insertEdge (edge : Edge) : Storage β := s.insertEdgesBatch [edge]

def insertFile (info : FileInfo) : Storage β :=
  { s with file := s.file.upsert info }.invalidateGroundingSnapshots

def insertFilesBatch (files : List FileInfo) : Storage β :=
  if files.isEmpty then s
  else { s with file := s.file.upsertAll files }.invalidateGroundingSnapshots

-- Only the grounding snapshots become dirty; the row has to exist.
def updateFileMetadata (info : FileInfo) : Storage β :=
  let file := s.file.update (fun row => if row.id = info.id then info else row) (by
    intro row
    split <;> simp_all)
  { s with file := file }.markGroundingSnapshotsDirty

def insertErrorsBatch (errors : List ErrorInfo) : Storage β :=
  if errors.isEmpty then s
  else { s with error := s.error ++ errors }.invalidateGroundingSnapshots

def insertError (error : ErrorInfo) : Storage β := s.insertErrorsBatch [error]

def clearErrors : Storage β := { s with error := [] }.invalidateGroundingSnapshots

def removeErrorsOf (fileIds : List Int) (errors : List ErrorInfo) : List ErrorInfo :=
  errors.filter fun error => !error.fileId.elim false (· ∈ fileIds)

def replaceErrorsForFilesBatch (fileIds : List Int) (errors : List ErrorInfo) : Storage β :=
  if fileIds.isEmpty then s
  else
    let kept := removeErrorsOf fileIds s.error
    let replaced := { s with error := kept ++ errors }
    if kept.length < s.error.length || !errors.isEmpty then replaced.invalidateGroundingSnapshots
    else replaced

/-! ## Projections -/

/-- A file that is known keeps its path, and its language unless the new row is complete. -/
def refreshFile (file : KeyedTable FileInfo.id) (info : FileInfo) : KeyedTable FileInfo.id :=
  match file.lookup info.id with
  | none => file.upsert info
  | some old =>
    file.upsert { info with
      path := old.path
      language := if info.complete then info.language else old.language }

def flushProjectionBatch (batch : ProjectionBatch) : Storage β :=
  if batch.isEmpty || !batch.accepted then s
  else
    let prepared := s.preparedNodesForInsertWithFiles batch.nodes batch.files
    let kept := removeErrorsOf (batch.files.map (·.id)) s.error
    let flushed : Storage β := { s with
      file := batch.files.foldl refreshFile s.file
      node := s.node.upsertAll (filesFirst prepared)
      edge := s.edge.insertAll batch.edges
      error := kept ++ batch.fileErrors }
    flushed.invalidateGroundingSnapshots.cacheNodes prepared

/-- A repeated caller id violates the key of the cleanup table. -/
def deleteProjectionForCallers (fileId : Int) (callerIds : List Int) : Storage β :=
  if callerIds.isEmpty || !decide callerIds.Nodup then s
  else
    { s with edge := s.edge.deleteWhere fun edge =>
        edge.fileNodeId = some fileId && edge.source ∈ callerIds &&
          (edge.kind = EdgeKind.callEdge ||
            edge.kind = EdgeKind.usageEdge) }.invalidateGroundingSnapshots

/-- Resolved ends that point into the file are forgotten on the edges outside it. -/
def forgetRelated (related : List Int) (fileNodeId : Int) (edge : Edge) : Edge :=
  let outside := edge.source ∉ related ∧ edge.target ∉ related ∧ edge.fileNodeId ≠ some fileNodeId
  let edge :=
    if edge.resolvedSource.elim false (· ∈ related) ∧ outside then
      { edge with resolvedSource := none }
    else edge
  if edge.resolvedTarget.elim false (· ∈ related) ∧ outside then
    { edge with resolvedTarget := none, confidence := none, certainty := none,
                candidateTargets := none }
  else edge

theorem forgetRelated_id (related : List Int) (fileNodeId : Int) (edge : Edge) :
    (forgetRelated related fileNodeId edge).id = edge.id := by
  unfold forgetRelated
  dsimp only
  split <;> split <;> rfl

def deleteFileProjection (fileNodeId : Int) : Storage β :=
  let related := s.relatedNodeIds fileNodeId
  let edge := (s.edge.update (forgetRelated related fileNodeId)
    (forgetRelated_id related fileNodeId)).deleteWhere fun edge =>
      edge.source ∈ related || edge.target ∈ related || edge.fileNodeId = some fileNodeId
  let deleted : Storage β := { s with
    edge := edge
    node := s.node.deleteWhere fun node => node.id ∈ related
    error := removeErrorsOf [fileNodeId] s.error
    file := s.file.deleteWhere fun info => info.id = fileNodeId }
  deleted.invalidateGroundingSnapshots.uncacheNodes related

def clear : Storage β where
  toTables := .empty
  groundingMeta := some ⟨groundingSnapshotVersion, .dirty, .dirty⟩
  groundingFileSnapshot := []
  groundingRepoStats := none
  resolutionSupport := some ⟨0, .dirty, none⟩
  nodeCache := .empty

/-! ## Moving a cache to another root -/

section Rebase
variable (sourceRoot targetRoot : String)

def rebaseText (text : String) : String :=
  if SqlText.contains text sourceRoot then SqlText.replace text sourceRoot targetRoot else text

def rebaseNode (node : Node) : Node :=
  if SqlText.contains node.serializedName sourceRoot ||
      SqlText.contains (node.qualifiedName.getD "") sourceRoot ||
      SqlText.contains (node.canonicalId.getD "") sourceRoot then
    { node with
      serializedName := SqlText.replace node.serializedName sourceRoot targetRoot
      qualifiedName := node.qualifiedName.map (SqlText.replace · sourceRoot targetRoot)
      canonicalId := node.canonicalId.map (SqlText.replace · sourceRoot targetRoot) }
  else node

theorem rebaseNode_id (node : Node) : (rebaseNode sourceRoot targetRoot node).id = node.id := by
  unfold rebaseNode
  split <;> rfl

/-- An update goes through the rows in the order of their row ids. The earlier row meets the value
the later one still has, and the later row the value the earlier one has got. -/
def rebaseCollides (earlier later : String) : Bool :=
  SqlText.contains earlier sourceRoot && rebaseText sourceRoot targetRoot earlier = later ||
    SqlText.contains later sourceRoot &&
      rebaseText sourceRoot targetRoot later = rebaseText sourceRoot targetRoot earlier

/-- No update violates the uniqueness of `file.path`, or the primary key of the callable states:
`(file_id, symbol_key)` of that table, which no other function here reads, by row id. -/
def rebaseFits (callableKeys : List (Int × String)) : Bool :=
  (s.file.rows.all fun earlier => s.file.rows.all fun later =>
      !(earlier.id < later.id && rebaseCollides sourceRoot targetRoot earlier.path later.path)) &&
    callableKeys.Pairwise fun earlier later =>
      ¬ (earlier.1 = later.1 ∧ rebaseCollides sourceRoot targetRoot earlier.2 later.2 = true)

/-- Text columns rewritten and the cache emptied; no state row is written. -/
def rebased : Storage β :=
  { s with
    file := s.file.update
      (fun info => { info with path := rebaseText sourceRoot targetRoot info.path })
      fun _ => rfl
    node := s.node.update (rebaseNode sourceRoot targetRoot) (rebaseNode_id sourceRoot targetRoot)
    edge := s.edge.update
      (fun edge => { edge with
        callsiteIdentity := edge.callsiteIdentity.map (rebaseText sourceRoot targetRoot) })
      fun _ => rfl
    error := s.error.map fun error =>
      { error with message := rebaseText sourceRoot targetRoot error.message }
    nodeCache := .empty }

/-- One transaction: a violation rolls all of it back and leaves the cache alone. -/
def rebaseRehydratedPathBoundCache (callableKeys : List (Int × String)) : Option (Storage β) :=
  if s.rebaseFits sourceRoot targetRoot callableKeys then some (s.rebased sourceRoot targetRoot)
  else none

theorem rebase_cases (callableKeys : List (Int × String)) :
    (s.rebaseRehydratedPathBoundCache sourceRoot targetRoot callableKeys).getD s = s ∨
      (s.rebaseRehydratedPathBoundCache sourceRoot targetRoot callableKeys).getD s =
        s.rebased sourceRoot targetRoot := by
  unfold rebaseRehydratedPathBoundCache
  split
  · exact .inr rfl
  · exact .inl rfl

end Rebase

/-! ## Grounding snapshots -/

def fileNodeIds : List Int := (s.node.rows.filter (·.kind = .fileNode)).map (·.id)

/-- Ids of the file table, then those of FILE nodes that have no file row. -/
def allFiles : List Int :=
  s.file.keys ++ s.fileNodeIds.filter fun id => id ∉ s.file.keys

/-- `UNION` drops repeated ids. -/
def effectiveGroundingFileCount : Nat := (s.file.keys ++ s.fileNodeIds).dedup.length

def refreshGroundingSummarySnapshots : Storage β :=
  { s with
    groundingMeta := some ⟨groundingSnapshotVersion, .ready, .dirty⟩
    groundingRepoStats := none
    groundingFileSnapshot := s.allFiles }

def recordRepoStats : Storage β :=
  { s with
    groundingMeta := s.groundingMeta.map fun metadata =>
      { metadata with version := groundingSnapshotVersion, detailState := .ready }
    groundingRepoStats := some
      ⟨s.node.size, s.edge.size, s.groundingFileSnapshot.length, s.error.length⟩ }

def hydrateGroundingDetailSnapshots : Storage β :=
  if s.hasReadyGroundingSummarySnapshots then s.recordRepoStats
  else s.refreshGroundingSummarySnapshots.recordRepoStats

def refreshGroundingSnapshots : Storage β :=
  s.refreshGroundingSummarySnapshots.hydrateGroundingDetailSnapshots

/-! ## Reads -/

def fatalErrorCount : Nat := (s.error.filter (·.isFatal)).length

/-- What the tables hold. -/
def liveStats : StorageStats where
  nodeCount := s.node.size
  edgeCount := s.edge.size
  fileCount := s.effectiveGroundingFileCount
  errorCount := s.error.length
  fatalErrorCount := s.fatalErrorCount

def getStats : StorageStats :=
  if s.hasReadyGroundingSummarySnapshots then
    match s.groundingRepoStats with
    | some stats => { stats with fatalErrorCount := s.fatalErrorCount }
    | none => s.liveStats
  else s.liveStats

def getNode (id : Int) : Option Node × Storage β :=
  match s.nodeCache.lookup id with
  | some node => (some node, s)
  | none =>
    match s.node.lookup id with
    | some node => (some node, s.cacheNodes [node])
    | none => (none, s)

/-- The ids not yet cached are read from the table, in batches whose size does not matter. -/
def getNodesByIds (ids : List Int) : KeyedTable Node.id × Storage β :=
  let unique := ids.dedup
  let cached := unique.filterMap s.nodeCache.lookup
  let rows := (unique.filter fun id => (s.nodeCache.lookup id).isNone).filterMap s.node.lookup
  ((KeyedTable.empty.upsertAll cached).upsertAll rows, s.cacheNodes rows)

end Storage

/-! ## Runs -/

inductive StoreOp where
  | insertNode (node : Node)
  | insertNodesBatch (nodes : List Node)
  | upsertRetrievalArtifactNodesBatch (nodes : List Node)
  | pruneRetrievalArtifactsToNodeIds (keepNodeIds : List Int)
  | copyRetrievalArtifactNodesFrom (source : KeyedTable Node.id)
  | insertEdge (edge : Edge)
  | insertEdgesBatch (edges : List Edge)
  | insertFile (info : FileInfo)
  | insertFilesBatch (files : List FileInfo)
  | updateFileMetadata (info : FileInfo)
  | insertError (error : ErrorInfo)
  | insertErrorsBatch (errors : List ErrorInfo)
  | clearErrors
  | replaceErrorsForFilesBatch (fileIds : List Int) (errors : List ErrorInfo)
  | flushProjectionBatch (batch : ProjectionBatch)
  | deleteProjectionForCallers (fileId : Int) (callerIds : List Int)
  | deleteFileProjection (fileNodeId : Int)
  | clear
  | rebaseRehydratedPathBoundCache (sourceRoot targetRoot : String)
      (callableKeys : List (Int × String))
  | refreshGroundingSummarySnapshots
  | hydrateGroundingDetailSnapshots
  | refreshGroundingSnapshots
  | getNode (id : Int)
  | getNodesByIds (ids : List Int)
  | reopen

def Storage.step {β : Type u} (s : Storage β) : StoreOp → Storage β
  | .insertNode node => s.insertNode node
  | .insertNodesBatch nodes => s.insertNodesBatch nodes
  | .upsertRetrievalArtifactNodesBatch nodes => s.upsertRetrievalArtifactNodesBatch nodes
  | .pruneRetrievalArtifactsToNodeIds keep => s.pruneRetrievalArtifactsToNodeIds keep
  | .copyRetrievalArtifactNodesFrom source => s.copyRetrievalArtifactNodesFrom source
  | .insertEdge edge => s.insertEdge edge
  | .insertEdgesBatch edges => s.insertEdgesBatch edges
  | .insertFile info => s.insertFile info
  | .insertFilesBatch files => s.insertFilesBatch files
  | .updateFileMetadata info => s.updateFileMetadata info
  | .insertError error => s.insertError error
  | .insertErrorsBatch errors => s.insertErrorsBatch errors
  | .clearErrors => s.clearErrors
  | .replaceErrorsForFilesBatch fileIds errors => s.replaceErrorsForFilesBatch fileIds errors
  | .flushProjectionBatch batch => s.flushProjectionBatch batch
  | .deleteProjectionForCallers fileId callerIds => s.deleteProjectionForCallers fileId callerIds
  | .deleteFileProjection fileNodeId => s.deleteFileProjection fileNodeId
  | .clear => Storage.clear
  | .rebaseRehydratedPathBoundCache source target callableKeys =>
    (s.rebaseRehydratedPathBoundCache source target callableKeys).getD s
  | .refreshGroundingSummarySnapshots => s.refreshGroundingSummarySnapshots
  | .hydrateGroundingDetailSnapshots => s.hydrateGroundingDetailSnapshots
  | .refreshGroundingSnapshots => s.refreshGroundingSnapshots
  | .getNode id => (s.getNode id).2
  | .getNodesByIds ids => (s.getNodesByIds ids).2
  | .reopen => s.opened

/-- The store as a system whose actions are its operations. -/
def Storage.act {β : Type u} (s : Storage β) (op : StoreOp) : Option (Storage β) :=
  some (s.step op)

end CodeStory.Graph
