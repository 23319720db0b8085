import Mathlib.Data.List.Basic
import Mathlib.Algebra.Ring.Int.Defs
import CodeStory.Lib.Text

/-!
# What promotion and recovery read from a database file

A `Database` is the content of one SQLite file as far as these readers see it: the
answers to their queries. Tables that may be absent are optional, and a query over a
missing table fails as SQLite fails. Digests are values here, not recomputed hashes.
The write-ahead log and shared-memory sidecars belong to their database file.
-/

set_option autoImplicit false

namespace CodeStory.Store

open Text

def schemaVersion : Nat := 30

def incompleteIncrementalSchemaVersion : Nat := 0x43530001

def sourcePolicyPromotionJournalVersion : Nat := 2

def structuralTextPromotionJournalVersion : Nat := 3

def promotionJournalVersion : Nat := 5

def legacyPromotionMinSchemaVersion : Nat := 21

def sourcePolicyPromotionMinSchemaVersion : Nat := 27

def structuralTextPromotionMinSchemaVersion : Nat := 28

def structuralPolicyPromotionMinSchemaVersion : Nat := 29

def semanticProjectionPromotionMinSchemaVersion : Nat := 30

def sourcePolicyExclusionPublicationSchemaVersion : Nat := 2

def legacySourcePolicyExclusionPublicationSchemaVersion : Nat := 1

def structuralTextUnitDescriptorVersion : Nat := 1

def structuralTextUnitMigrationStateNative : String := "native_v1"

inductive StorageError where
  | sqlite (text : String)
  | other (message : String)
  deriving DecidableEq, Repr

def promotionError (message : String) : StorageError := .other message

inductive IndexPublicationMode where
  | full
  | incremental
  | semanticProjection
  deriving DecidableEq, Repr

def IndexPublicationMode.fromDb (value : String) : Except StorageError IndexPublicationMode :=
  if value = "full" then .ok .full
  else if value = "incremental" then .ok .incremental
  else if value = "semantic_projection" then .ok .semanticProjection
  else .error (.other ("Unsupported index publication mode: " ++ value))

structure IndexPublicationRecord where
  generation : Nat
  generationId : String
  runId : String
  mode : IndexPublicationMode
  publishedAtEpochMs : Int
  deriving DecidableEq, Repr

structure IndexPublicationRow where
  generation : Int
  generationId : String
  runId : String
  mode : String
  publishedAtEpochMs : Int
  deriving DecidableEq, Repr

def indexPublicationRecordFromValues (row : IndexPublicationRow) :
    Except StorageError IndexPublicationRecord :=
  if row.generation < 0 then
    .error (.other ("Invalid index publication generation: " ++ toString row.generation))
  else if row.generation = 0 ∨ isBlank row.generationId ∨ isBlank row.runId ∨
      row.publishedAtEpochMs < 0 then
    .error (.other "Index publication identity contains an empty or zero field")
  else
    match IndexPublicationMode.fromDb row.mode with
    | .error e => .error e
    | .ok mode =>
      .ok ⟨row.generation.toNat, row.generationId, row.runId, mode, row.publishedAtEpochMs⟩

structure SourcePolicyExclusionRecord where
  normalizedPath : String
  projectId : String
  workspaceId : String
  contentHash : String
  observedSize : Nat
  observedUnitCount : Nat
  policyVersion : String
  byteCap : Nat
  structuralUnitCap : Nat
  coreGenerationId : String
  coreRunId : String
  deriving DecidableEq, Repr

/-- The row of `source_policy_exclusion_publication` with `id = 1 AND complete = 1`. -/
structure SourcePolicyManifestRow where
  schemaVersion : Int
  projectId : String
  workspaceId : String
  coreGenerationId : String
  coreRunId : String
  publishedAtEpochMs : Int
  exclusionCount : Int
  exclusionDigest : String
  policyVersion : String
  byteCap : Int
  structuralUnitCap : Int
  deriving DecidableEq, Repr

/-- The two source-policy tables. `records` is what the reader of the exclusion rows
returns, and the digests are those of both formats over these records. -/
structure SourcePolicyTables where
  hasStructuralPolicyIdentity : Bool
  manifest : Option SourcePolicyManifestRow
  records : Except StorageError (List SourcePolicyExclusionRecord)
  currentDigest : String
  legacyDigest : String

structure StructuralTextManifestRow where
  coreGenerationId : String
  coreRunId : String
  publishedAtEpochMs : Int
  unitCount : Int
  unitDigest : String
  projectionCount : Int
  projectionDigest : String
  descriptorVersion : Int
  migrationState : String
  deriving DecidableEq, Repr

structure ContentSummary where
  count : Nat
  digest : String
  descriptorVersions : List Nat

/-- The structural-text tables: the complete manifest row of the current format, the two
content summaries, the row validations and the count of invalid rows. -/
structure StructuralTextTables where
  manifest : Option StructuralTextManifestRow
  units : Except StorageError ContentSummary
  projections : Except StorageError ContentSummary
  projectionRows : Except StorageError Unit
  artifactCacheRows : Except StorageError Unit
  invalidRows : Int

structure Database where
  quickCheck : String
  userVersion : Int
  incompleteIndexRun : Option Bool
  indexPublication : Option (Option IndexPublicationRow)
  sourcePolicy : Option SourcePolicyTables
  structuralText : Option StructuralTextTables
  logicalBytes : Nat

/-- The file SQLite creates when it opens a path that does not exist. -/
def Database.empty : Database := ⟨"ok", 0, none, none, none, none, 0⟩

def readIndexPublication (db : Database) :
    Except StorageError (Option IndexPublicationRecord) :=
  match db.indexPublication with
  | none => .ok none
  | some none => .ok none
  | some (some row) => (indexPublicationRecordFromValues row).map some

def readCompleteIndexPublication (db : Database) :
    Except StorageError (Option IndexPublicationRecord) :=
  match db.indexPublication, db.incompleteIndexRun with
  | none, _ => .error (.sqlite "no such table: index_publication")
  | some _, none => .error (.sqlite "no such table: incomplete_index_run")
  | some none, some _ => .ok none
  | some (some _), some true => .ok none
  | some (some row), some false => (indexPublicationRecordFromValues row).map some

def hasIncompleteIncrementalMarker (db : Database) : Bool :=
  db.incompleteIndexRun = some true

def inspectPromotionDatabase (path : String) (file : Option Database) :
    Except StorageError (Option (Database × Nat)) :=
  match file with
  | none => .ok none
  | some db =>
    if db.quickCheck ≠ "ok" then
      .error (promotionError ("SQLite promotion artifact " ++ path ++
        " failed quick_check: " ++ db.quickCheck))
    else
      .ok (some (db, db.userVersion.toNat))

inductive RecoveryDatabaseContract where
  | currentPromotion
  | journal (version : Nat)
  | legacyBackup
  deriving DecidableEq, Repr

def RecoveryDatabaseContract.supportsCompleteSchema :
    RecoveryDatabaseContract → Nat → Bool
  | .currentPromotion, version =>
    structuralPolicyPromotionMinSchemaVersion ≤ version && version ≤ schemaVersion
  | .journal 1, version =>
    legacyPromotionMinSchemaVersion ≤ version &&
      version ≤ sourcePolicyPromotionMinSchemaVersion
  | .journal 2, version => version == sourcePolicyPromotionMinSchemaVersion
  | .journal 3, version => version == structuralTextPromotionMinSchemaVersion
  | .journal 4, version => version == structuralPolicyPromotionMinSchemaVersion
  | .journal 5, version =>
    structuralPolicyPromotionMinSchemaVersion ≤ version &&
      version ≤ semanticProjectionPromotionMinSchemaVersion
  | .journal _, _ => false
  | .legacyBackup, version =>
    legacyPromotionMinSchemaVersion ≤ version && version ≤ schemaVersion

def readCompletePromotionDatabaseIdentity (path : String) (file : Option Database) :
    Except StorageError (Option IndexPublicationRecord) :=
  match inspectPromotionDatabase path file with
  | .error e => .error e
  | .ok none => .ok none
  | .ok (some (db, version)) =>
    if version = 0 then .ok none
    else if version ≠ schemaVersion then
      .error (promotionError ("SQLite promotion artifact " ++ path ++
        " has schema version " ++ toString version ++ ", expected " ++
        toString schemaVersion))
    else readCompleteIndexPublication db

def readRecoveryDatabaseIdentity (path : String) (file : Option Database)
    (contract : RecoveryDatabaseContract) :
    Except StorageError (Option IndexPublicationRecord) :=
  match inspectPromotionDatabase path file with
  | .error e => .error e
  | .ok none => .ok none
  | .ok (some (db, version)) =>
    if version = 0 then .ok none
    else if version = incompleteIncrementalSchemaVersion then
      if hasIncompleteIncrementalMarker db then readIndexPublication db
      else
        .error (promotionError ("SQLite recovery artifact " ++ path ++
          " uses the incomplete schema sentinel without its marker"))
    else if contract.supportsCompleteSchema version then readCompleteIndexPublication db
    else
      .error (promotionError ("SQLite recovery artifact " ++ path ++
        " has unsupported schema version " ++ toString version))

def requirePublication (path role : String) (read : Except StorageError
    (Option IndexPublicationRecord)) : Except StorageError IndexPublicationRecord :=
  match read with
  | .error e => .error e
  | .ok none =>
    .error (promotionError (role ++ " " ++ path ++ " has no complete publication identity"))
  | .ok (some record) => .ok record

def requireCompletePromotionDatabaseIdentity (path : String) (file : Option Database)
    (role : String) : Except StorageError IndexPublicationRecord :=
  requirePublication path role (readCompletePromotionDatabaseIdentity path file)

def requireRecoveryDatabaseIdentity (path : String) (file : Option Database) (role : String)
    (contract : RecoveryDatabaseContract) : Except StorageError IndexPublicationRecord :=
  requirePublication path role (readRecoveryDatabaseIdentity path file contract)

inductive SourcePolicyExclusionPublicationFormat where
  | current
  | legacyV1
  deriving DecidableEq, Repr

def SourcePolicyExclusionPublicationFormat.qualifies
    (record : SourcePolicyExclusionRecord) : SourcePolicyExclusionPublicationFormat → Bool
  | .current =>
    (record.observedSize > record.byteCap && record.observedUnitCount == 0) ||
      (record.observedSize ≤ record.byteCap &&
        record.observedUnitCount > record.structuralUnitCap)
  | .legacyV1 => record.observedSize > record.byteCap && record.observedUnitCount == 0

def SourcePolicyTables.digest (tables : SourcePolicyTables) :
    SourcePolicyExclusionPublicationFormat → String
  | .current => tables.currentDigest
  | .legacyV1 => tables.legacyDigest

structure SourcePolicyExclusionRollbackIdentity where
  projectId : String
  workspaceId : String
  coreGenerationId : String
  coreRunId : String
  corePublishedAtEpochMs : Int
  exclusionCount : Nat
  exclusionDigest : String
  policyVersion : String
  byteCap : Nat
  structuralUnitCap : Nat
  deriving DecidableEq, Repr

def sourcePolicyFormat (tables : SourcePolicyTables) (version : Int) :
    Except StorageError SourcePolicyExclusionPublicationFormat :=
  if version < 0 ∨ 2 ^ 32 ≤ version then
    .error (promotionError "Source policy exclusion rollback schema is invalid")
  else if version = legacySourcePolicyExclusionPublicationSchemaVersion then
    .ok .legacyV1
  else if version = sourcePolicyExclusionPublicationSchemaVersion then
    if !tables.hasStructuralPolicyIdentity then
      .error (promotionError
        "Current source policy exclusion rollback schema is missing structural identity")
    else
      .ok .current
  else
    .error (promotionError "Source policy exclusion rollback schema is unsupported")

/-- The manifest row as an identity; without the structural column the cap is the one the
query substitutes. -/
def sourcePolicyIdentity (tables : SourcePolicyTables) (row : SourcePolicyManifestRow) :
    Except StorageError SourcePolicyExclusionRollbackIdentity :=
  let structuralUnitCap :=
    if tables.hasStructuralPolicyIdentity then row.structuralUnitCap else 2048
  if row.exclusionCount < 0 then
    .error (promotionError "Source policy exclusion rollback count is invalid")
  else if row.byteCap < 0 then
    .error (promotionError "Source policy exclusion rollback cap is invalid")
  else if structuralUnitCap < 0 then
    .error (promotionError
      "Source policy exclusion rollback structural unit cap is invalid")
  else
    .ok
      { projectId := row.projectId
        workspaceId := row.workspaceId
        coreGenerationId := row.coreGenerationId
        coreRunId := row.coreRunId
        corePublishedAtEpochMs := row.publishedAtEpochMs
        exclusionCount := row.exclusionCount.toNat
        exclusionDigest := row.exclusionDigest
        policyVersion := row.policyVersion
        byteCap := row.byteCap.toNat
        structuralUnitCap := structuralUnitCap.toNat }

def sourcePolicyMatches (tables : SourcePolicyTables)
    (format : SourcePolicyExclusionPublicationFormat)
    (identity : SourcePolicyExclusionRollbackIdentity) (publication : IndexPublicationRecord)
    (records : List SourcePolicyExclusionRecord) : Bool :=
  identity.coreGenerationId == publication.generationId &&
    identity.coreRunId == publication.runId &&
    identity.corePublishedAtEpochMs == publication.publishedAtEpochMs &&
    identity.exclusionCount == records.length &&
    identity.exclusionDigest == tables.digest format &&
    records.all fun record =>
      record.projectId == identity.projectId &&
        record.workspaceId == identity.workspaceId &&
        record.coreGenerationId == identity.coreGenerationId &&
        record.coreRunId == identity.coreRunId &&
        record.policyVersion == identity.policyVersion &&
        record.byteCap == identity.byteCap &&
        record.structuralUnitCap == identity.structuralUnitCap &&
        format.qualifies record

def readSourcePolicyExclusionRollbackIdentity (path : String) (file : Option Database)
    (publication : IndexPublicationRecord) :
    Except StorageError (Option SourcePolicyExclusionRollbackIdentity) :=
  match file.bind Database.sourcePolicy with
  | none => .ok none
  | some tables =>
    match tables.manifest with
    | none => .ok none
    | some row => do
      let format ← sourcePolicyFormat tables row.schemaVersion
      let identity ← sourcePolicyIdentity tables row
      let records ← tables.records
      if sourcePolicyMatches tables format identity publication records then
        pure (some identity)
      else
        throw (promotionError
          ("Source policy exclusion rollback identity does not match " ++ path))

structure StructuralTextUnitRollbackIdentity where
  coreGenerationId : String
  coreRunId : String
  corePublishedAtEpochMs : Int
  unitCount : Nat
  unitDigest : String
  projectionCount : Nat
  projectionDigest : String
  descriptorVersion : Nat
  migrationState : String
  deriving DecidableEq, Repr

/-- Negative counts and versions become zero, as `try_from(..).unwrap_or(0)` makes them. -/
def structuralTextIdentity (row : StructuralTextManifestRow) :
    StructuralTextUnitRollbackIdentity :=
  { coreGenerationId := row.coreGenerationId
    coreRunId := row.coreRunId
    corePublishedAtEpochMs := row.publishedAtEpochMs
    unitCount := row.unitCount.toNat
    unitDigest := row.unitDigest
    projectionCount := row.projectionCount.toNat
    projectionDigest := row.projectionDigest
    descriptorVersion :=
      if row.descriptorVersion < 2 ^ 32 then row.descriptorVersion.toNat else 0
    migrationState := row.migrationState }

def structuralTextMatches (identity : StructuralTextUnitRollbackIdentity)
    (publication : IndexPublicationRecord) (units projections : ContentSummary)
    (invalidRows : Int) : Bool :=
  identity.coreGenerationId == publication.generationId &&
    identity.coreRunId == publication.runId &&
    identity.corePublishedAtEpochMs == publication.publishedAtEpochMs &&
    identity.unitCount == units.count && identity.unitDigest == units.digest &&
    identity.projectionCount == projections.count &&
    identity.projectionDigest == projections.digest &&
    identity.descriptorVersion == structuralTextUnitDescriptorVersion &&
    identity.migrationState == structuralTextUnitMigrationStateNative &&
    invalidRows == 0 &&
    (units.descriptorVersions ++ projections.descriptorVersions).all
      (· == identity.descriptorVersion)

def StorageError.text : StorageError → String
  | .sqlite text => "Database error: " ++ text
  | .other message => "Other error: " ++ message

def readStructuralTextUnitRollbackIdentity (path : String) (file : Option Database)
    (publication : IndexPublicationRecord) :
    Except StorageError (Option StructuralTextUnitRollbackIdentity) :=
  match file.bind Database.structuralText with
  | none => .ok none
  | some tables =>
    match tables.manifest with
    | none => .ok none
    | some row => do
      let units ← tables.units
      let projections ← tables.projections
      tables.projectionRows
      tables.artifactCacheRows.mapError fun error =>
        promotionError ("Structural artifact cache rollback identity does not match " ++
          path ++ ": " ++ error.text)
      let identity := structuralTextIdentity row
      if structuralTextMatches identity publication units projections tables.invalidRows then
        pure (some identity)
      else
        throw (promotionError
          ("Structural text unit rollback identity does not match " ++ path))

/-- A recorded auxiliary identity must be read back; nothing recorded asks nothing. -/
def requireRecorded {ι : Type} [DecidableEq ι] (path role what : String)
    (read : Except StorageError (Option ι)) (expected : Option ι) :
    Except StorageError Unit :=
  match expected with
  | none => .ok ()
  | some _ =>
    match read with
    | .error e => .error e
    | .ok found =>
      if found ≠ expected then
        .error (promotionError (role ++ " " ++ what ++ " identity does not match " ++ path))
      else
        .ok ()

def requireCandidate {ι : Type} [DecidableEq ι] (path role what : String)
    (read : Except StorageError (Option ι)) (expected : Option ι) :
    Except StorageError Unit :=
  match expected with
  | none =>
    .error (promotionError (role ++ " " ++ what ++ " manifest is missing for " ++ path))
  | some _ => requireRecorded path role what read expected

def requireRecordedSourcePolicyIdentity (path : String) (file : Option Database)
    (publication : IndexPublicationRecord)
    (expected : Option SourcePolicyExclusionRollbackIdentity) (role : String) :
    Except StorageError Unit :=
  requireRecorded path role "source policy exclusion"
    (readSourcePolicyExclusionRollbackIdentity path file publication) expected

def requireCandidateSourcePolicyIdentity (path : String) (file : Option Database)
    (publication : IndexPublicationRecord)
    (expected : Option SourcePolicyExclusionRollbackIdentity) (role : String) :
    Except StorageError Unit :=
  requireCandidate path role "source policy exclusion"
    (readSourcePolicyExclusionRollbackIdentity path file publication) expected

def requireRecordedStructuralTextIdentity (path : String) (file : Option Database)
    (publication : IndexPublicationRecord)
    (expected : Option StructuralTextUnitRollbackIdentity) (role : String) :
    Except StorageError Unit :=
  requireRecorded path role "structural text unit"
    (readStructuralTextUnitRollbackIdentity path file publication) expected

def requireCandidateStructuralTextIdentity (path : String) (file : Option Database)
    (publication : IndexPublicationRecord)
    (expected : Option StructuralTextUnitRollbackIdentity) (role : String) :
    Except StorageError Unit :=
  requireCandidate path role "structural text unit"
    (readStructuralTextUnitRollbackIdentity path file publication) expected

structure AuxiliaryIdentities where
  sourcePolicy : Option SourcePolicyExclusionRollbackIdentity
  structuralText : Option StructuralTextUnitRollbackIdentity
  deriving DecidableEq, Repr

def readJournalLessRecoveryAuxiliaryIdentities (path : String) (file : Option Database)
    (publication : IndexPublicationRecord) (version : Nat) (role : String) :
    Except StorageError AuxiliaryIdentities := do
  let sourcePolicy ←
    if version ≥ sourcePolicyPromotionMinSchemaVersion then
      readSourcePolicyExclusionRollbackIdentity path file publication
    else
      pure none
  if version = schemaVersion ∧ sourcePolicy = none then
    throw (promotionError ("Current-schema " ++ role ++ " " ++ path ++
      " has no complete source policy exclusion manifest"))
  if version = schemaVersion then
    match ← readStructuralTextUnitRollbackIdentity path file publication with
    | none =>
      throw (promotionError ("Current-schema " ++ role ++ " " ++ path ++
        " has no complete structural text unit manifest"))
    | some identity => pure ⟨sourcePolicy, some identity⟩
  else
    pure ⟨sourcePolicy, none⟩

end CodeStory.Store
