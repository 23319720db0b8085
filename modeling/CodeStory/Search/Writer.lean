import CodeStory.Search.Generations
import CodeStory.Store.Promotion

/-!
# The writer of a core publication and its search generation

The writer builds the search generation of a staged database under the catalog lock, writes its
completion marker, prunes the catalog, and promotes the staged database. Every call may fail and
every check of the cancellation token may find it cancelled. When the run does not commit, the
generation of the staged publication is discarded unless the live database carries that
publication.

A writer starts where the staged database carries its publication, so that the branch of a build
without one, in the legacy directory, is not modelled; neither is the validator of a build, which
the writers of a core pass as absent. Pruning changes the catalog in one step. Semantic documents,
timings and the in-memory state of the engine are left out.
-/

set_option autoImplicit false

namespace CodeStory.Search

open Store

structure Workspace where
  disk : Disk
  catalog : Catalog

/-- `PromotionLock::try_acquire` -/
inductive PromotionLockAnswer where
  | acquired
  | busy
  | failed (error : StorageError)
  deriving DecidableEq, Repr

/-- What the world can answer; each question reads one field. `storage` answers the calls of a
promotion, `read` those of a read of the live publication. -/
structure WriterAnswer where
  failure : Option String
  storage : Option StorageError
  read : Option StorageError
  promotionLock : PromotionLockAnswer
  cancelled : Bool
  count : Nat
  catalog : CatalogWorld

abbrev Writer := Prog WriterAnswer Workspace ApiError

abbrev StoreCall := Prog WriterAnswer Workspace StorageError

def diskPart : Prog.Part Workspace Disk where
  part := Workspace.disk
  put disk workspace := { workspace with disk := disk }
  part_put _ _ := rfl
  put_put _ _ _ := rfl
  put_part _ := rfl

def indexingCancelledError : ApiError := ⟨"cancelled", "Indexing cancelled."⟩

def ensureIndexingActive : Writer Unit := do
  let cancelled ← Prog.query WriterAnswer.cancelled
  if cancelled then Prog.fail indexingCancelledError else pure ()

/-- A call that may fail without effect. -/
def call (message : String) : Writer Unit := do
  let failure ← Prog.query WriterAnswer.failure
  match failure with
  | none => pure ()
  | some error => Prog.fail (.internal (message ++ error))

def setGeneration (name : String) (content : Option SearchGeneration) : Writer Unit :=
  Prog.modify fun workspace => { workspace with catalog := workspace.catalog.set name content }

section Reads
variable (paths : PromotionPaths)

def recoverInterruptedPromotion : StoreCall Unit := do
  let artifacts ← Prog.read fun workspace => promotionArtifactsExist workspace.disk
  if !artifacts then pure ()
  else do
    let lock ← Prog.query WriterAnswer.promotionLock
    match lock with
    | .failed error => Prog.fail error
    | .busy => pure ()
    | .acquired =>
      Prog.embed WriterAnswer.read diskPart (recoverInterruptedPromotionLocked paths)

def readLive (reader : Database → Except StorageError (Option IndexPublicationRecord)) :
    StoreCall (Option IndexPublicationRecord) := do
  recoverInterruptedPromotion paths
  Prog.embed WriterAnswer.read diskPart <| inspect .live fun
    | none => .error (.sqlite "unable to open database file")
    | some db => reader db

def databaseIndexPublication : StoreCall (Option IndexPublicationRecord) :=
  readLive paths readIndexPublication

def databaseCompleteIndexPublication : StoreCall (Option IndexPublicationRecord) :=
  readLive paths readCompleteIndexPublication

end Reads

section Catalog
variable (paths : PromotionPaths) (root : CatalogRoot) (parseUuid : String → Except String String)

/-- `SearchGenerationCatalogGuard::acquire` -/
def acquireCatalogGuard : Writer Unit := do
  call ("Failed to create search generation catalog lock directory " ++ root.parent ++ ": ")
  call ("Failed to open search generation catalog lock " ++ root.path ++ ".lock: ")
  call ("Failed to acquire search generation catalog lock " ++ root.path ++ ".lock: ")

/-- The name of the directory of `search_index_path_for_publication`. -/
def searchIndexName (publication : IndexPublicationRecord) : Except ApiError String :=
  match parseUuid publication.generationId with
  | .ok name => .ok name
  | .error error =>
    .error (.internal ("Invalid index publication generation id " ++ publication.generationId ++
      ": " ++ error))

def CatalogWorld.lists (world : CatalogWorld) : Bool :=
  world.rootIsDir && world.deletionRootError.isNone && world.listing.toOption.isSome

/-- Pruning after a build; its error is only logged. The live publication is read once the
listing is there. -/
def pruneAfterBuild (activeGenerationId : String) : Writer Unit := do
  let world ← Prog.query WriterAnswer.catalog
  if world.lists then do
    let read ← Prog.result (databaseCompleteIndexPublication paths)
    Prog.modify fun workspace =>
      { workspace with catalog := (pruneSearchGenerations root world (parseUuid · |>.isOk)
          activeGenerationId read workspace.catalog).2 }
  else pure ()

/-- The removal in `discard_unpublished_search_generation`, whose result is ignored. -/
def removeUnpublished (publication : IndexPublicationRecord) : Writer Unit :=
  match searchIndexName parseUuid publication with
  | .error _ => pure ()
  | .ok name => do
    let world ← Prog.query WriterAnswer.catalog
    match world.deletionRootError with
    | some _ => pure ()
    | none => do
      let content ← Prog.read fun workspace => workspace.catalog name
      setGeneration name (tryRemoveSearchGeneration root world name content).2

def discardUnpublishedSearchGeneration (publication : IndexPublicationRecord) : Writer Unit := do
  let read ← Prog.result (databaseIndexPublication paths)
  if read = .ok (some publication) then pure ()
  else removeUnpublished root parseUuid publication

end Catalog

/-- Whether a completed generation of this name is there and can be used again. -/
def reuseCompletedSearchState (name : String) : Writer Bool := do
  let content ← Prog.read fun workspace => workspace.catalog name
  match readSearchGenerationCompletion content name, content.bind (·.tantivyDocCount) with
  | some marker, some documents => do
    ensureIndexingActive
    call "Failed to stream canonical search symbols: "
    let rows ← Prog.query WriterAnswer.count
    let searchable ← Prog.query WriterAnswer.count
    if marker.symbolCount ≠ rows ∨ searchable ≠ rows ∨ documents ≠ marker.tantivyDocCount then
      pure false
    else do
      call "Failed to load persisted semantic docs: "
      pure true
  | _, _ => pure false

/-- The batches of symbols; each may leave more committed documents behind. -/
def indexSymbolBatches (name : String) : Nat → Writer Unit
  | 0 => call "Failed to stream canonical search symbols: "
  | batches + 1 => do
    call "Failed to stream canonical search symbols: "
    call "Failed to index search nodes: "
    let documents ← Prog.query WriterAnswer.count
    setGeneration name (some ⟨none, some documents⟩)
    ensureIndexingActive
    indexSymbolBatches name batches

def buildPersistedSearchState (name : String) : Writer Unit := do
  call "Failed to count canonical search symbols: "
  -- the exclusive lock of the generation, and its old content
  call "Failed to init search engine: "
  setGeneration name none
  call "Failed to init search engine: "
  setGeneration name (some ⟨none, none⟩)
  call "Failed to start symbol index writer: "
  let batches ← Prog.query WriterAnswer.count
  indexSymbolBatches name batches
  call "Canonical search symbol stream count changed: "
  ensureIndexingActive
  call "Failed to commit symbol index: "
  let documents ← Prog.query WriterAnswer.count
  setGeneration name (some ⟨none, some documents⟩)
  call "Persisted search generation validation failed: "
  call "Failed to load persisted semantic docs: "

/-- The generation with the marker for its own documents. -/
def SearchGeneration.complete (name : String) (symbols : Nat) (generation : SearchGeneration) :
    SearchGeneration :=
  { generation with
    completion := some ⟨searchGenerationCompletionSchemaVersion, name, symbols,
      generation.tantivyDocCount.getD 0⟩ }

def writeSearchGenerationCompletion (name : String) : Writer Unit := do
  call "Failed to create persisted search completion temp file "
  call "Failed to write persisted search completion temp file "
  call "Failed to sync persisted search completion temp file "
  call "Failed to publish persisted search completion marker "
  let symbols ← Prog.query WriterAnswer.count
  let content ← Prog.read fun workspace => workspace.catalog name
  setGeneration name (content.map (SearchGeneration.complete name symbols))

/-- `storage.get_index_publication()` on the staged database. -/
def stagedIndexPublication : Writer IndexPublicationRecord := do
  call "Failed to read search publication identity: "
  let staged ← Prog.read fun workspace => workspace.disk.staged
  match staged.map readIndexPublication with
  | some (.ok (some publication)) => pure publication
  | _ => Prog.fail (.internal "Failed to read search publication identity: no publication")

inductive CoreCommitMode where
  | full (finishRecoveryMarker : Bool)
  | incremental
  deriving DecidableEq, Repr

def CoreCommitMode.finishMarker : CoreCommitMode → Bool
  | .full finishRecoveryMarker => finishRecoveryMarker
  | .incremental => true

def CoreCommitMode.marker : CoreCommitMode → String
  | .full _ => "full-recovery"
  | .incremental => "incremental"

def CoreCommitMode.publication : CoreCommitMode → String
  | .full _ => "storage"
  | .incremental => "incremental storage"

/-- `finish_incremental_run` -/
def finishIncrementalRun (db : Database) : Database :=
  { db with incompleteIndexRun := some false, userVersion := schemaVersion }

/-- The staged database as `commit` hands it to promotion. -/
def CoreCommitMode.staged (mode : CoreCommitMode) (db : Database) : Database :=
  if mode.finishMarker then finishIncrementalRun db else db

section Run
variable (paths : PromotionPaths) (root : CatalogRoot) (parseUuid : String → Except String String)

/-- The build of a generation that is not used again, up to its completion marker. -/
def buildNewGeneration (name : String) : Writer Unit := do
  let built ← Prog.attempt (buildPersistedSearchState name)
  match built with
  | .error error =>
    Prog.fail { error with message := "Failed to rebuild search state: " ++ error.message }
  | .ok () => do
    ensureIndexingActive
    call "Prepared search generation contains "
    ensureIndexingActive
    writeSearchGenerationCompletion name

def prepareGeneration (name : String) : Writer Unit := do
  let reused ← reuseCompletedSearchState name
  ensureIndexingActive
  if reused then do
    ensureIndexingActive
    call "Prepared search generation contains "
  else buildNewGeneration name

/-- `rebuild_search_state_from_storage_for_runtime`, under the catalog lock. -/
def rebuildSearchState : Writer Unit := do
  let publication ← stagedIndexPublication
  acquireCatalogGuard root
  let name ← Prog.ofExcept (searchIndexName parseUuid publication)
  prepareGeneration name
  call ("Failed to share completed search generation " ++ generationPath root name ++ ": ")
  pruneAfterBuild paths root parseUuid name

/-- `staged.discard()`, whose error is ignored. -/
def discardStaged : Writer Unit := do
  let _ ← (Prog.result (Prog.embed WriterAnswer.storage diskPart
    (cleanupSqliteSidecars .staged)) : Writer (Except StorageError Unit))
  pure ()

/-- The incomplete-run marker of the staged database is removed where there is one. -/
def finishMarker (mode : CoreCommitMode) : Writer Unit :=
  if mode.finishMarker then do
    ensureIndexingActive
    call ("Failed to complete staged " ++ mode.marker ++ " marker: ")
    Prog.modify fun workspace => { workspace with
      disk := { workspace.disk with staged := workspace.disk.staged.map finishIncrementalRun } }
  else pure ()

/-- The part of `commit` that still owns the staged database. -/
def prepareCommit (mode : CoreCommitMode) : Writer Unit := do
  acquireCatalogGuard root
  ensureIndexingActive
  finishMarker mode
  ensureIndexingActive

/-- `publish_with_stats`: seal, then promote. -/
def publishStaged (mode : CoreCommitMode) : Writer Unit := do
  let published ← Prog.result
    (Prog.embed WriterAnswer.storage diskPart (do io; promoteStagedSnapshot paths))
  match published with
  | .ok _ => pure ()
  | .error error =>
    Prog.fail (.internal ("Failed to publish staged " ++ mode.publication ++ ": " ++ error.text ++
      ". Preserved staged snapshot at " ++ paths.database .staged))

/-- What the drop of an uncommitted `PreparedCoreCommit` does, before the error is returned. -/
def dropPrepared (publication : IndexPublicationRecord) (error : ApiError) : Writer Unit := do
  discardUnpublishedSearchGeneration paths root parseUuid publication
  Prog.fail error

/-- `PreparedCoreCommit::commit` -/
def commitPrepared (mode : CoreCommitMode) (publication : IndexPublicationRecord) :
    Writer Unit := do
  let prepared ← Prog.attempt (prepareCommit root mode)
  match prepared with
  | .error error => do
    discardStaged
    dropPrepared paths root parseUuid publication error
  | .ok () => do
    let published ← Prog.attempt (publishStaged paths mode)
    match published with
    | .error error => dropPrepared paths root parseUuid publication error
    | .ok () => pure ()

/-- The writer from a staged database on: the end of `run_incremental_indexing_common` and of
the full refresh. -/
def runIndexing (mode : CoreCommitMode) (publication : IndexPublicationRecord) :
    Writer Unit := do
  let prepared ← Prog.attempt (rebuildSearchState paths root parseUuid)
  match prepared with
  | .error error => do
    discardStaged
    dropPrepared paths root parseUuid publication error
  | .ok () => do
    let cancelled ← Prog.query WriterAnswer.cancelled
    if cancelled then do
      discardStaged
      dropPrepared paths root parseUuid publication indexingCancelledError
    else
      commitPrepared paths root parseUuid mode publication

end Run

end CodeStory.Search
