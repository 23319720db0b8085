import CodeStory.Lib.Program
import CodeStory.Store.Database

/-!
# Promotion of a staged database and recovery of an interrupted one

The durable state is the set of files next to the live database. Every change of a file
is one step, in program order, and a crash leaves whatever the steps before it made.
Opening a missing database creates an empty one; a SQLite copy replaces the content of
its destination in one step; a journal is created, then filled, then synced. A sync
changes nothing here, but like every other call it may fail.

Any call may fail with an error of the world's choice. Timings, the lock file and log
messages are not modelled. `renamed` records that a prepared journal became a committed
one; no function reads it.
-/

set_option autoImplicit false

namespace CodeStory.Store

structure PromotionJournal where
  version : Nat
  previous : Option IndexPublicationRecord
  candidate : IndexPublicationRecord
  previousSourcePolicy : Option SourcePolicyExclusionRollbackIdentity
  candidateSourcePolicy : Option SourcePolicyExclusionRollbackIdentity
  previousStructuralText : Option StructuralTextUnitRollbackIdentity
  candidateStructuralText : Option StructuralTextUnitRollbackIdentity
  deriving DecidableEq, Repr

/-- A journal file: its bytes are still incomplete, or they decode to a journal. -/
inductive JournalFile where
  | torn
  | written (journal : PromotionJournal)
  deriving DecidableEq, Repr

inductive DatabaseFile where
  | live
  | backup
  | staged
  deriving DecidableEq, Repr

structure Disk where
  live : Option Database
  backup : Option Database
  staged : Option Database
  prepared : Option JournalFile
  committed : Option JournalFile
  renamed : Bool

def Disk.database (d : Disk) : DatabaseFile → Option Database
  | .live => d.live
  | .backup => d.backup
  | .staged => d.staged

def Disk.setDatabase (d : Disk) (content : Option Database) : DatabaseFile → Disk
  | .live => { d with live := content }
  | .backup => { d with backup := content }
  | .staged => { d with staged := content }

structure PromotionPaths where
  database : DatabaseFile → String
  prepared : String
  committed : String

abbrev Io := Prog (Option StorageError) Disk StorageError

/-- A call to the operating system or to SQLite that may fail without effect. -/
def io : Io Unit := do
  let answer ← Prog.query id
  match answer with
  | none => pure ()
  | some error => Prog.fail error

def pathError (action path error : String) : StorageError :=
  promotionError ("Failed to " ++ action ++ " " ++ path ++ ": " ++ error)

def promotionArtifactsExist (d : Disk) : Bool :=
  d.backup.isSome || d.prepared.isSome || d.committed.isSome

/-- Queries over one database file; an absent file is answered without touching SQLite. -/
def inspect {α : Type} (file : DatabaseFile)
    (reader : Option Database → Except StorageError α) : Io α := do
  let content ← Prog.read (Disk.database · file)
  match content with
  | none => Prog.ofExcept (reader none)
  | some db => do
    io
    Prog.ofExcept (reader (some db))

/-- A check against a recorded identity; with nothing recorded no file is opened. -/
def inspectExpected {ι : Type} (expected : Option ι) (file : DatabaseFile)
    (reader : Option Database → Except StorageError Unit) : Io Unit :=
  match expected with
  | none => Prog.ofExcept (reader none)
  | some _ => inspect file reader

/-- `Connection::open`: a missing file appears, empty. -/
def openDatabase (file : DatabaseFile) : Io Unit := do
  io
  let content ← Prog.read (Disk.database · file)
  match content with
  | none => Prog.modify (Disk.setDatabase · (some Database.empty) file)
  | some _ => pure ()

/-- SQLite backup or restore, from one open database into another. -/
def copyDatabase (source destination : DatabaseFile) : Io Unit := do
  io
  Prog.modify fun d => d.setDatabase (d.database source) destination

def syncPromotionParent : Io Unit := io

def cleanupSqliteSidecars (file : DatabaseFile) : Io Unit := do
  let content ← Prog.read (Disk.database · file)
  match content with
  | none => pure ()
  | some _ => do
    io
    Prog.modify (Disk.setDatabase · none file)

def removePrepared : Io Unit := do
  let content ← Prog.read Disk.prepared
  match content with
  | none => pure ()
  | some _ => do
    io
    Prog.modify fun d => { d with prepared := none }
    syncPromotionParent

def removeCommitted : Io Unit := do
  let content ← Prog.read Disk.committed
  match content with
  | none => pure ()
  | some _ => do
    io
    Prog.modify fun d => { d with committed := none }
    syncPromotionParent

def readPromotionJournal (path : String) (file : Option JournalFile) : Io PromotionJournal :=
  match file with
  | none => Prog.fail (pathError "read" path "not found")
  | some .torn => do
    io
    Prog.fail (pathError "parse" path "incomplete JSON")
  | some (.written journal) => do
    io
    if 1 ≤ journal.version ∧ journal.version ≤ 5 then
      pure journal
    else
      Prog.fail (promotionError ("Unsupported promotion journal " ++ path ++ ": version=" ++
        toString journal.version))

section Paths
variable (paths : PromotionPaths)

/-- What `write_promotion_journal` does after a failed write or sync. -/
def discardPrepared (error : StorageError) : Io Unit := do
  let _ ← Prog.attempt (do
    io
    Prog.modify fun d => { d with prepared := none })
  let _ ← Prog.attempt syncPromotionParent
  Prog.fail error

def writePromotionJournal (journal : PromotionJournal) : Io Unit := do
  io
  let existing ← Prog.read Disk.prepared
  match existing with
  | some _ => Prog.fail (pathError "create" paths.prepared "file exists")
  | none => do
    Prog.modify fun d => { d with prepared := some .torn }
    let written ← Prog.attempt io
    match written with
    | .error error => discardPrepared (pathError "persist" paths.prepared error.text)
    | .ok () => do
      Prog.modify fun d => { d with prepared := some (.written journal) }
      let synced ← Prog.attempt io
      match synced with
      | .error error => discardPrepared (pathError "persist" paths.prepared error.text)
      | .ok () => do
        let directorySynced ← Prog.attempt syncPromotionParent
        match directorySynced with
        | .error error => discardPrepared error
        | .ok () => pure ()

def commitPromotionJournal : Io Unit := do
  let existing ← Prog.read Disk.committed
  match existing with
  | some _ =>
    Prog.fail (promotionError ("Cannot commit promotion while prior journal " ++
      paths.committed ++ " remains"))
  | none => do
    io
    Prog.modify fun d =>
      { d with committed := d.prepared, prepared := none, renamed := true }
    syncPromotionParent

def restorePromotionDatabase (source : DatabaseFile) : Io Unit := do
  openDatabase .live
  openDatabase source
  copyDatabase source .live

def cleanupCommittedPromotionArtifacts : Io Unit := do
  cleanupSqliteSidecars .backup
  removeCommitted

/-- `require_recovery_database_identity` on a file of the disk. -/
def requireRecovery (file : DatabaseFile) (role : String)
    (contract : RecoveryDatabaseContract) : Io IndexPublicationRecord :=
  inspect file fun content =>
    requireRecoveryDatabaseIdentity (paths.database file) content role contract

/-- Both recorded auxiliary identities of a database. -/
def requireRecordedIdentities (file : DatabaseFile) (publication : IndexPublicationRecord)
    (sourcePolicy : Option SourcePolicyExclusionRollbackIdentity)
    (structuralText : Option StructuralTextUnitRollbackIdentity) (role : String) :
    Io Unit := do
  inspectExpected sourcePolicy file fun content =>
    requireRecordedSourcePolicyIdentity (paths.database file) content publication
      sourcePolicy role
  inspectExpected structuralText file fun content =>
    requireRecordedStructuralTextIdentity (paths.database file) content publication
      structuralText role

def requireCandidateIdentities (file : DatabaseFile) (publication : IndexPublicationRecord)
    (sourcePolicy : Option SourcePolicyExclusionRollbackIdentity)
    (structuralText : Option StructuralTextUnitRollbackIdentity) (role : String) :
    Io Unit := do
  inspectExpected sourcePolicy file fun content =>
    requireCandidateSourcePolicyIdentity (paths.database file) content publication
      sourcePolicy role
  inspectExpected structuralText file fun content =>
    requireCandidateStructuralTextIdentity (paths.database file) content publication
      structuralText role

/-- The checks of `rollback_prepared_promotion` on whatever publication is live. -/
def checkPreparedLive (prepared : PromotionJournal) :
    Option IndexPublicationRecord → Io Unit
  | none => pure ()
  | some live =>
    if live = prepared.candidate then
      -- each candidate check is made only where its identity is recorded, and then it is
      -- the recorded check
      requireRecordedIdentities paths .live live prepared.candidateSourcePolicy
        prepared.candidateStructuralText "Prepared candidate"
    else if prepared.previous = some live then
      requireRecordedIdentities paths .live live prepared.previousSourcePolicy
        prepared.previousStructuralText "Prepared previous live database"
    else
      Prog.fail (promotionError ("Prepared promotion for " ++ paths.database .live ++
        " found an unrelated live publication"))

/-- The rollback of a promotion that replaced a recorded publication. -/
def rollbackToPrevious (prepared : PromotionJournal)
    (liveIdentity : Option IndexPublicationRecord) (expectedPrevious : IndexPublicationRecord) :
    Io Unit := do
  let contract := RecoveryDatabaseContract.journal prepared.version
  let backupIdentity ← requireRecovery paths .backup "Prepared recovery backup" contract
  if backupIdentity ≠ expectedPrevious then
    Prog.fail (promotionError ("Prepared promotion backup identity does not match " ++
      paths.database .live))
  else do
    requireRecordedIdentities paths .backup backupIdentity prepared.previousSourcePolicy
      prepared.previousStructuralText "Prepared recovery backup"
    (if liveIdentity ≠ some expectedPrevious then restorePromotionDatabase .backup
      else pure () : Io Unit)
    let restored ← requireRecovery paths .live "Restored live database" contract
    if restored ≠ expectedPrevious then
      Prog.fail (promotionError ("Prepared promotion rollback did not restore the " ++
        "recorded identity for " ++ paths.database .live))
    else do
      requireRecordedIdentities paths .live restored prepared.previousSourcePolicy
        prepared.previousStructuralText "Restored live database"
      removePrepared
      cleanupSqliteSidecars .backup

/-- The rollback of a first publication. -/
def rollbackToNone : Io Unit := do
  let backup ← Prog.read Disk.backup
  match backup with
  | some _ =>
    Prog.fail (promotionError ("Prepared first publication for " ++ paths.database .live ++
      " unexpectedly has a backup"))
  | none => do
    cleanupSqliteSidecars .live
    removePrepared

def rollbackPreparedPromotion (prepared : PromotionJournal) : Io Unit :=
  if prepared.version ≥ sourcePolicyPromotionJournalVersion ∧
      prepared.candidateSourcePolicy = none then
    Prog.fail (promotionError ("Prepared promotion candidate source policy identity is " ++
      "missing for " ++ paths.database .live))
  else if prepared.version ≥ structuralTextPromotionJournalVersion ∧
      prepared.candidateStructuralText = none then
    Prog.fail (promotionError ("Prepared promotion candidate structural text identity is " ++
      "missing for " ++ paths.database .live))
  else do
    let liveIdentity ← inspect .live fun content =>
      readRecoveryDatabaseIdentity (paths.database .live) content (.journal prepared.version)
    checkPreparedLive paths prepared liveIdentity
    match prepared.previous with
    | some expectedPrevious => rollbackToPrevious paths prepared liveIdentity expectedPrevious
    | none => rollbackToNone paths

/-- `inspect_promotion_database(..)?.map(..).ok_or_else(..)?`. -/
def requireSchemaVersion (file : DatabaseFile) (missing : String) : Io Nat :=
  inspect file fun content =>
    match inspectPromotionDatabase (paths.database file) content with
    | .error e => .error e
    | .ok none => .error (promotionError (missing ++ paths.database file ++ " is missing"))
    | .ok (some (_, version)) => .ok version

def readAuxiliary (file : DatabaseFile) (publication : IndexPublicationRecord)
    (version : Nat) (role : String) : Io AuxiliaryIdentities :=
  inspect file fun content =>
    readJournalLessRecoveryAuxiliaryIdentities (paths.database file) content publication
      version role

/-- Whether a backup without a journal has to be restored over the live database. -/
def legacyRestoreNeeded (backupIdentity : IndexPublicationRecord)
    (backupAuxiliary : AuxiliaryIdentities) :
    Except StorageError (Option IndexPublicationRecord) → Io Bool
  | .error error =>
    Prog.fail (promotionError ("Cannot validate live database " ++ paths.database .live ++
      " while a legacy promotion backup exists: " ++ error.text))
  | .ok none => pure true
  | .ok (some live) =>
    if live = backupIdentity then do
      let version ← requireSchemaVersion paths .live "Live database "
      let liveAuxiliary ← Prog.attempt (readAuxiliary paths .live live version "live database")
      match liveAuxiliary with
      | .ok found => pure (found ≠ backupAuxiliary)
      | .error _ => pure true
    else if live.generation > backupIdentity.generation then do
      let version ← requireSchemaVersion paths .live "Live database "
      let checked ← Prog.attempt
        (readAuxiliary paths .live live version "newer live database")
      match checked with
      | .ok _ => pure false
      | .error error =>
        Prog.fail (promotionError ("Cannot validate newer live database " ++
          paths.database .live ++ " while a legacy promotion backup exists: " ++ error.text))
    else
      Prog.fail (promotionError ("Ambiguous legacy promotion backup for " ++
        paths.database .live ++ "; refusing to overwrite the live database"))

def restoreLegacyBackup (backupIdentity : IndexPublicationRecord)
    (backupAuxiliary : AuxiliaryIdentities) : Io Unit := do
  restorePromotionDatabase .backup
  let restored ← requireRecovery paths .live "Recovered live database" .legacyBackup
  if restored ≠ backupIdentity then
    Prog.fail (promotionError ("Legacy promotion recovery produced an unexpected identity " ++
      "for " ++ paths.database .live))
  else
    requireRecordedIdentities paths .live restored backupAuxiliary.sourcePolicy
      backupAuxiliary.structuralText "Recovered live database"

def recoverLegacyPromotionBackup : Io Unit := do
  let version ← requireSchemaVersion paths .backup "Legacy promotion backup "
  let backupIdentity ← requireRecovery paths .backup "Legacy promotion backup" .legacyBackup
  let backupAuxiliary ← readAuxiliary paths .backup backupIdentity version
    "legacy promotion backup"
  let liveIdentity ← Prog.attempt <| inspect .live fun content =>
    readRecoveryDatabaseIdentity (paths.database .live) content .legacyBackup
  let restoreBackup ← legacyRestoreNeeded paths backupIdentity backupAuxiliary liveIdentity
  (if restoreBackup then restoreLegacyBackup paths backupIdentity backupAuxiliary
    else pure () : Io Unit)
  cleanupSqliteSidecars .backup

/-- Recovery under a committed journal: the live database must be the candidate. -/
def recoverCommitted (committed : PromotionJournal) : Io Unit := do
  let liveIdentity ← requireRecovery paths .live "Committed live database"
    (.journal committed.version)
  if liveIdentity ≠ committed.candidate then
    Prog.fail (promotionError ("Committed promotion identity does not match live database " ++
      paths.database .live))
  else do
    inspectExpected committed.candidateSourcePolicy .live fun content =>
      if committed.version ≥ sourcePolicyPromotionJournalVersion then
        requireCandidateSourcePolicyIdentity (paths.database .live) content liveIdentity
          committed.candidateSourcePolicy "Committed live database"
      else
        requireRecordedSourcePolicyIdentity (paths.database .live) content liveIdentity
          committed.candidateSourcePolicy "Legacy committed live database"
    inspectExpected committed.candidateStructuralText .live fun content =>
      if committed.version ≥ structuralTextPromotionJournalVersion then
        requireCandidateStructuralTextIdentity (paths.database .live) content liveIdentity
          committed.candidateStructuralText "Committed live database"
      else
        requireRecordedStructuralTextIdentity (paths.database .live) content liveIdentity
          committed.candidateStructuralText "Legacy committed live database"
    let _ ← Prog.attempt cleanupCommittedPromotionArtifacts
    pure ()

def recoverInterruptedPromotionLocked : Io Unit := do
  let d ← Prog.read id
  match d.committed, d.prepared, d.backup with
  | some _, some _, _ =>
    Prog.fail (promotionError ("Promotion has both prepared and committed journals for " ++
      paths.database .live))
  | some committed, none, _ => do
    let journal ← readPromotionJournal paths.committed (some committed)
    recoverCommitted paths journal
  | none, some prepared, _ => do
    let journal ← readPromotionJournal paths.prepared (some prepared)
    rollbackPreparedPromotion paths journal
  | none, none, some _ => recoverLegacyPromotionBackup paths
  | none, none, none => pure ()

structure CorePromotionStats where
  candidateBytes : Nat
  previousLiveBytes : Option Nat
  rollbackBackupBytes : Option Nat
  deriving DecidableEq, Repr

def databaseLogicalBytes (file : DatabaseFile) : Io Nat :=
  inspect file fun
    | none => .error (.sqlite "unable to open database file")
    | some db => .ok db.logicalBytes

structure Candidate where
  publication : IndexPublicationRecord
  sourcePolicy : Option SourcePolicyExclusionRollbackIdentity
  structuralText : Option StructuralTextUnitRollbackIdentity
  deriving DecidableEq, Repr

def validateCandidate : Io Candidate := do
  let path := paths.database .staged
  let candidate ← inspect .staged fun content =>
    requireCompletePromotionDatabaseIdentity path content "Staged promotion candidate"
  let sourcePolicy ← inspect .staged fun content =>
    readSourcePolicyExclusionRollbackIdentity path content candidate
  if sourcePolicy = none then
    Prog.fail (promotionError ("Staged promotion candidate " ++ path ++
      " has no complete source policy exclusion manifest"))
  else do
    let structuralText ← inspect .staged fun content =>
      readStructuralTextUnitRollbackIdentity path content candidate
    if structuralText = none then
      Prog.fail (promotionError ("Staged promotion candidate " ++ path ++
        " has no complete structural text unit manifest"))
    else
      pure ⟨candidate, sourcePolicy, structuralText⟩

structure Previous where
  publication : Option IndexPublicationRecord
  sourcePolicy : Option SourcePolicyExclusionRollbackIdentity
  structuralText : Option StructuralTextUnitRollbackIdentity
  deriving DecidableEq, Repr

def readPrevious : Io Previous := do
  let path := paths.database .live
  let previous ← inspect .live fun content =>
    readRecoveryDatabaseIdentity path content .currentPromotion
  match previous with
  | none => pure ⟨none, none, none⟩
  | some publication => do
    let sourcePolicy ← inspect .live fun content =>
      readSourcePolicyExclusionRollbackIdentity path content publication
    let structuralText ← inspect .live fun content =>
      readStructuralTextUnitRollbackIdentity path content publication
    pure ⟨some publication, sourcePolicy, structuralText⟩

/-- Copy the live database to the backup and validate the copy. -/
def backUpPrevious (previous : Previous) (publication : IndexPublicationRecord) : Io Nat := do
  openDatabase .live
  openDatabase .backup
  copyDatabase .live .backup
  let backupIdentity ← requireRecovery paths .backup "Promotion backup" .currentPromotion
  if backupIdentity ≠ publication then
    Prog.fail (promotionError ("Promotion backup identity does not match live database " ++
      paths.database .live))
  else do
    requireRecordedIdentities paths .backup backupIdentity previous.sourcePolicy
      previous.structuralText "Promotion backup"
    databaseLogicalBytes .backup

/-- Sizes and backup for the previous publication, or nothing when there is none. -/
def protectPrevious (previous : Previous) : Io (Option Nat × Option Nat) :=
  match previous.publication with
  | none => do
    cleanupSqliteSidecars .backup
    pure (none, none)
  | some publication => do
    cleanupSqliteSidecars .backup
    let liveBytes ← databaseLogicalBytes .live
    let backupBytes ← backUpPrevious paths previous publication
    pure (some liveBytes, some backupBytes)

def preparedJournal (candidate : Candidate) (previous : Previous) : PromotionJournal :=
  { version := promotionJournalVersion
    previous := previous.publication
    candidate := candidate.publication
    previousSourcePolicy := previous.sourcePolicy
    candidateSourcePolicy := candidate.sourcePolicy
    previousStructuralText := previous.structuralText
    candidateStructuralText := candidate.structuralText }

def prepare (prepared : PromotionJournal) : Io Unit := do
  let written ← Prog.attempt (writePromotionJournal paths prepared)
  match written with
  | .ok () => pure ()
  | .error error => do
    let remaining ← Prog.read Disk.prepared
    match remaining with
    | some _ => Prog.fail error
    | none => do
      let _ ← Prog.attempt (cleanupSqliteSidecars .backup)
      Prog.fail error

/-- A rollback whose own result is ignored, before the error is returned. -/
def rollBackAndFail {α : Type} (prepared : PromotionJournal) (error : StorageError) : Io α := do
  let _ ← Prog.attempt (rollbackPreparedPromotion paths prepared)
  Prog.fail error

def installCandidate (prepared : PromotionJournal) : Io Unit := do
  openDatabase .live
  io
  let restored ← Prog.attempt (do
    openDatabase .staged
    copyDatabase .staged .live)
  match restored with
  | .ok () => pure ()
  | .error error =>
    rollBackAndFail paths prepared (.other ("Failed to promote staged snapshot " ++
      paths.database .staged ++ " -> " ++ paths.database .live ++ ": " ++ error.text))

def validatePromoted (prepared : PromotionJournal) : Io Unit := do
  let published ← inspect .live fun content =>
    requireCompletePromotionDatabaseIdentity (paths.database .live) content
      "Promoted live database"
  if published ≠ prepared.candidate then
    rollBackAndFail paths prepared (promotionError
      ("Promoted live database identity does not match staged candidate " ++
        paths.database .staged))
  else do
    let checked ← Prog.attempt <| requireCandidateIdentities paths .live published
      prepared.candidateSourcePolicy prepared.candidateStructuralText "Promoted live database"
    match checked with
    | .ok () => pure ()
    | .error error => rollBackAndFail paths prepared error

def commit (prepared : PromotionJournal) : Io Unit := do
  let renamed ← Prog.attempt (commitPromotionJournal paths)
  match renamed with
  | .ok () => pure ()
  | .error error => do
    let committed ← Prog.read Disk.committed
    match committed with
    | some _ => Prog.fail error
    | none => rollBackAndFail paths prepared error

def promoteStagedSnapshot : Io CorePromotionStats := do
  io
  recoverInterruptedPromotionLocked paths
  let artifacts ← Prog.read promotionArtifactsExist
  if artifacts then
    Prog.fail (promotionError ("Cannot start a new promotion while prior artifacts remain " ++
      "for " ++ paths.database .live))
  else do
    let candidate ← validateCandidate paths
    let candidateBytes ← databaseLogicalBytes .staged
    let previous ← readPrevious paths
    let (previousLiveBytes, rollbackBackupBytes) ← protectPrevious paths previous
    let prepared := preparedJournal candidate previous
    prepare paths prepared
    installCandidate paths prepared
    validatePromoted paths prepared
    commit paths prepared
    let _ ← Prog.attempt (cleanupSqliteSidecars .staged)
    let _ ← Prog.attempt cleanupCommittedPromotionArtifacts
    pure ⟨candidateBytes, previousLiveBytes, rollbackBackupBytes⟩

end Paths

end CodeStory.Store
