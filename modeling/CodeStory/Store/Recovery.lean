import CodeStory.Store.Identity

/-!
# What an interrupted promotion leaves and what recovery makes of it

`Inv` links which of the four artifacts exist to what the live database and the backup
hold. Every step of a recovery keeps it, and a recovery that returns leaves no prepared
journal, so that `Inv` then names the live publication. `recover_wp` says this once for
every use: the places where a recovery may stop are a parameter.
-/

set_option autoImplicit false

namespace CodeStory.Store

open Prog

section Rules
variable {X : Exits (Option StorageError) Disk StorageError} {d : Disk}

/-- Where calls may fail at all, failing on this disk is acceptable. -/
def FailsSafely (X : Exits (Option StorageError) Disk StorageError) (d : Disk) : Prop :=
  ∀ e, X.answers (some e) → ∀ e', X.failed e' d

theorem io_wp {Q : Unit → Disk → Prop} (hfail : FailsSafely X d) (hQ : Q () d) :
    wp X io Q d := by
  unfold io
  rw [wp_bind, wp_query]
  intro answer hanswer
  cases answer with
  | none => exact hQ
  | some e => exact hfail e hanswer e

theorem inspect_wp {α : Type} {file : DatabaseFile}
    {reader : Option Database → Except StorageError α} {Q : α → Disk → Prop}
    (hfail : FailsSafely X d)
    (hok : ∀ a, reader (d.database file) = .ok a → Q a d)
    (herror : ∀ e, reader (d.database file) = .error e → X.failed e d) :
    wp X (inspect file reader) Q d := by
  unfold inspect
  rw [wp_bind, wp_read]
  cases hcontent : d.database file with
  | none =>
    rw [hcontent] at hok herror
    exact wp_ofExcept hok herror
  | some db =>
    rw [hcontent] at hok herror
    rw [wp_bind]
    exact io_wp hfail (wp_ofExcept hok herror)

theorem inspectExpected_wp {ι : Type} {expected : Option ι} {file : DatabaseFile}
    {reader : Option Database → Except StorageError Unit} {Q : Unit → Disk → Prop}
    (hfail : FailsSafely X d)
    (hnone : expected = none → wp X (ofExcept (reader none) : Io Unit) Q d)
    (hok : expected ≠ none → reader (d.database file) = .ok () → Q () d)
    (herror : ∀ e, expected ≠ none → reader (d.database file) = .error e → X.failed e d) :
    wp X (inspectExpected expected file reader) Q d := by
  unfold inspectExpected
  split
  · exact hnone rfl
  · exact inspect_wp hfail (fun _ h => hok (by simp) h) fun e h => herror e (by simp) h

theorem openDatabase_wp {file : DatabaseFile} {Q : Unit → Disk → Prop}
    (hfail : FailsSafely X d)
    (hcreate : d.database file = none →
      X.passed (d.setDatabase (some Database.empty) file) ∧
        Q () (d.setDatabase (some Database.empty) file))
    (hopen : d.database file ≠ none → Q () d) :
    wp X (openDatabase file) Q d := by
  unfold openDatabase
  rw [wp_bind]
  refine io_wp hfail ?_
  rw [wp_bind, wp_read]
  cases hcontent : d.database file with
  | none => exact hcreate hcontent
  | some db => exact hopen (by simp [hcontent])

theorem copyDatabase_wp {source destination : DatabaseFile} {Q : Unit → Disk → Prop}
    (hfail : FailsSafely X d)
    (hpassed : X.passed (d.setDatabase (d.database source) destination))
    (hQ : Q () (d.setDatabase (d.database source) destination)) :
    wp X (copyDatabase source destination) Q d := by
  unfold copyDatabase
  rw [wp_bind]
  exact io_wp hfail ⟨hpassed, hQ⟩

theorem cleanupSqliteSidecars_wp {file : DatabaseFile} {Q : Unit → Disk → Prop}
    (hfail : FailsSafely X d)
    (hpresent : d.database file ≠ none →
      X.passed (d.setDatabase none file) ∧ Q () (d.setDatabase none file))
    (habsent : d.database file = none → Q () d) :
    wp X (cleanupSqliteSidecars file) Q d := by
  unfold cleanupSqliteSidecars
  rw [wp_bind, wp_read]
  cases hcontent : d.database file with
  | none => exact habsent hcontent
  | some db =>
    rw [wp_bind]
    exact io_wp hfail (hpresent (by simp [hcontent]))

theorem removePrepared_wp {Q : Unit → Disk → Prop} (hfail : FailsSafely X d)
    (hpresent : d.prepared ≠ none →
      X.passed { d with prepared := none } ∧ FailsSafely X { d with prepared := none } ∧
        Q () { d with prepared := none })
    (habsent : d.prepared = none → Q () d) :
    wp X removePrepared Q d := by
  unfold removePrepared
  rw [wp_bind, wp_read]
  cases hcontent : d.prepared with
  | none => exact habsent hcontent
  | some file =>
    obtain ⟨hpassed, hfail', hQ⟩ := hpresent (by simp [hcontent])
    rw [wp_bind]
    refine io_wp hfail ?_
    rw [wp_bind, wp_modify]
    exact ⟨hpassed, io_wp hfail' hQ⟩

theorem removeCommitted_wp {Q : Unit → Disk → Prop} (hfail : FailsSafely X d)
    (hpresent : d.committed ≠ none →
      X.passed { d with committed := none } ∧ FailsSafely X { d with committed := none } ∧
        Q () { d with committed := none })
    (habsent : d.committed = none → Q () d) :
    wp X removeCommitted Q d := by
  unfold removeCommitted
  rw [wp_bind, wp_read]
  cases hcontent : d.committed with
  | none => exact habsent hcontent
  | some file =>
    obtain ⟨hpassed, hfail', hQ⟩ := hpresent (by simp [hcontent])
    rw [wp_bind]
    refine io_wp hfail ?_
    rw [wp_bind, wp_modify]
    exact ⟨hpassed, io_wp hfail' hQ⟩

end Rules

/-- The file holds the previous publication, with the identities read for it. -/
structure Holds (previous : Previous) (file : Option Database) : Prop where
  identity : Identity file previous.publication
  auxiliary : ∀ p, previous.publication = some p →
    ReadsAuxiliary file p ⟨previous.sourcePolicy, previous.structuralText⟩

structure HoldsCandidate (candidate : Candidate) (file : Option Database) : Prop where
  identity : Identity file (some candidate.publication)
  complete : ∀ path role,
    requireCompletePromotionDatabaseIdentity path file role = .ok candidate.publication
  auxiliary : ReadsAuxiliary file candidate.publication
    ⟨candidate.sourcePolicy, candidate.structuralText⟩
  sourcePolicy : candidate.sourcePolicy ≠ none
  structuralText : candidate.structuralText ≠ none

theorem holds_of_none {previous : Previous} {file : Option Database}
    (h : previous.publication = none) (hfile : Identity file none) : Holds previous file where
  identity := by rw [h]; exact hfile
  auxiliary := by simp [h]

section Invariant
variable (candidate : Candidate) (previous : Previous)

/-- No journal yet, or none any more: the live database is the previous publication. A
backup is empty until its copy is complete. -/
structure Before (d : Disk) : Prop where
  renamed : d.renamed = false
  committed : d.committed = none
  prepared : d.prepared = none
  live : Identity d.live previous.publication
  fresh : previous.publication ≠ some candidate.publication → Holds previous d.live
  backup : d.backup = none ∨ (previous.publication ≠ none ∧
    (d.backup = some Database.empty ∨ Holds previous d.backup))

/-- A journal only exists beside the backup that its rollback needs. -/
structure Protected (d : Disk) : Prop where
  renamed : d.renamed = false
  committed : d.committed = none
  first : previous.publication = none → d.backup = none
  later : previous.publication ≠ none → Holds previous d.backup

structure Torn (d : Disk) : Prop extends Protected previous d where
  prepared : d.prepared = some .torn
  live : Holds previous d.live

structure Written (d : Disk) : Prop extends Protected previous d where
  prepared : d.prepared = some (.written (preparedJournal candidate previous))
  live : Holds previous d.live ∨ HoldsCandidate candidate d.live

structure After (d : Disk) : Prop where
  renamed : d.renamed = true
  prepared : d.prepared = none
  live : HoldsCandidate candidate d.live
  committed : d.committed = some (.written (preparedJournal candidate previous)) ∨
    (d.committed = none ∧ d.backup = none)

def Inv (d : Disk) : Prop :=
  Before candidate previous d ∨ Torn previous d ∨ Written candidate previous d ∨
    After candidate previous d

/-- What a proof about recovery may assume of the places where it can stop: the invariant
suffices to be there, and a failed check is acceptable when the candidate carries the
very publication it replaces. -/
structure Tolerates (X : Exits (Option StorageError) Disk StorageError) : Prop where
  passed : ∀ d, Inv candidate previous d → X.passed d
  injected : ∀ d, Inv candidate previous d → FailsSafely X d
  stale : previous.publication = some candidate.publication →
    ∀ e d, Inv candidate previous d → X.failed e d

variable {candidate previous}

theorem Before.inv {d : Disk} (h : Before candidate previous d) : Inv candidate previous d :=
  .inl h

theorem Torn.inv {d : Disk} (h : Torn previous d) : Inv candidate previous d :=
  .inr (.inl h)

theorem Written.inv {d : Disk} (h : Written candidate previous d) : Inv candidate previous d :=
  .inr (.inr (.inl h))

theorem After.inv {d : Disk} (h : After candidate previous d) : Inv candidate previous d :=
  .inr (.inr (.inr h))

section Checks
variable {X : Exits (Option StorageError) Disk StorageError} {d : Disk}
variable (paths : PromotionPaths)

theorem requireRecovery_wp (file : DatabaseFile) {role : String}
    {contract : RecoveryDatabaseContract} {r : IndexPublicationRecord}
    {Q : IndexPublicationRecord → Disk → Prop} (hfail : FailsSafely X d)
    (hcontract : PromotionContract contract) (hid : Identity (d.database file) (some r))
    (hQ : Q r d) : wp X (requireRecovery paths file role contract) Q d := by
  have hread : requireRecoveryDatabaseIdentity (paths.database file) (d.database file) role
      contract = .ok r := by
    unfold requireRecoveryDatabaseIdentity
    rw [hid.read hcontract]
    rfl
  refine inspect_wp hfail ?_ ?_
  · intro a ha
    rw [hread] at ha
    obtain rfl := Except.ok.inj ha
    exact hQ
  · intro e he
    rw [hread] at he
    exact absurd he (by simp)

/-- Recorded identities that a reading confirms; those not recorded ask nothing. -/
def Confirms (auxiliary recorded : AuxiliaryIdentities) : Prop :=
  (recorded.sourcePolicy = none ∨ recorded.sourcePolicy = auxiliary.sourcePolicy) ∧
    (recorded.structuralText = none ∨ recorded.structuralText = auxiliary.structuralText)

theorem confirms_self (auxiliary : AuxiliaryIdentities) : Confirms auxiliary auxiliary :=
  ⟨.inr rfl, .inr rfl⟩

/-- Either a recorded identity is read back, or failing here is acceptable. -/
theorem recorded_wp {ι : Type} [DecidableEq ι] {file : DatabaseFile}
    {reader : Option Database → Except StorageError (Option ι)} {expected actual : Option ι}
    {path role what : String} {Q : Unit → Disk → Prop} (hfail : FailsSafely X d)
    (h : (reader (d.database file) = .ok actual ∧ (expected = none ∨ expected = actual)) ∨
      ∀ e, X.failed e d) (hQ : Q () d) :
    wp X (inspectExpected expected file fun content =>
      requireRecorded path role what (reader content) expected) Q d := by
  refine inspectExpected_wp hfail ?_ (fun _ _ => hQ) ?_
  · intro hnone
    rw [hnone]
    exact hQ
  · intro e hsome he
    rcases h with ⟨hread, hexpected⟩ | h
    · rw [← hexpected.resolve_left hsome] at hread
      rw [requireRecorded_ok hread] at he
      exact absurd he (by simp)
    · exact h e

theorem requireRecordedIdentities_wp (file : DatabaseFile)
    {publication : IndexPublicationRecord}
    {sourcePolicy : Option SourcePolicyExclusionRollbackIdentity}
    {structuralText : Option StructuralTextUnitRollbackIdentity} {role : String}
    {Q : Unit → Disk → Prop} (hfail : FailsSafely X d)
    (h : (∃ auxiliary, ReadsAuxiliary (d.database file) publication auxiliary ∧
      Confirms auxiliary ⟨sourcePolicy, structuralText⟩) ∨ ∀ e, X.failed e d)
    (hQ : Q () d) :
    wp X (requireRecordedIdentities paths file publication sourcePolicy structuralText role)
      Q d := by
  unfold requireRecordedIdentities
  rw [wp_bind]
  rcases h with ⟨auxiliary, hread, hsource, hstructural⟩ | h
  · exact recorded_wp hfail (.inl ⟨(hread _).1, hsource⟩)
      (recorded_wp hfail (.inl ⟨(hread _).2, hstructural⟩) hQ)
  · exact @recorded_wp X d _ _ _ _ _ sourcePolicy _ _ _ _ hfail (.inr h)
      (@recorded_wp X d _ _ _ _ _ structuralText _ _ _ _ hfail (.inr h) hQ)

theorem candidate_wp {ι : Type} [DecidableEq ι] {file : DatabaseFile}
    {reader : Option Database → Except StorageError (Option ι)} {expected : Option ι}
    {path role what : String} {Q : Unit → Disk → Prop} (hfail : FailsSafely X d)
    (hread : reader (d.database file) = .ok expected) (hsome : expected ≠ none)
    (hQ : Q () d) :
    wp X (inspectExpected expected file fun content =>
      requireCandidate path role what (reader content) expected) Q d := by
  refine inspectExpected_wp hfail (fun hnone => absurd hnone hsome) (fun _ _ => hQ) ?_
  intro e _ he
  rw [requireCandidate_ok hread hsome] at he
  exact absurd he (by simp)

theorem requireCandidateIdentities_wp (file : DatabaseFile) {role : String}
    {Q : Unit → Disk → Prop} (hfail : FailsSafely X d)
    (h : HoldsCandidate candidate (d.database file)) (hQ : Q () d) :
    wp X (requireCandidateIdentities paths file candidate.publication candidate.sourcePolicy
      candidate.structuralText role) Q d := by
  unfold requireCandidateIdentities
  rw [wp_bind]
  exact candidate_wp hfail (h.auxiliary _).1 h.sourcePolicy
    (candidate_wp hfail (h.auxiliary _).2 h.structuralText hQ)

end Checks

theorem Identity.ne_none {file : Option Database} {r : IndexPublicationRecord}
    (h : Identity file (some r)) : file ≠ none := by
  rintro rfl
  exact absurd h (by simp [Identity])

theorem restoreBackup_wp {X : Exits (Option StorageError) Disk StorageError} {d : Disk}
    {Q : Unit → Disk → Prop} (hfail : FailsSafely X d) (hlive : d.live ≠ none)
    (hbackup : d.backup ≠ none) (hpassed : X.passed { d with live := d.backup })
    (hQ : Q () { d with live := d.backup }) :
    wp X (restorePromotionDatabase .backup) Q d := by
  unfold restorePromotionDatabase
  rw [wp_bind]
  refine openDatabase_wp hfail (fun h => absurd h hlive) fun _ => ?_
  rw [wp_bind]
  refine openDatabase_wp hfail (fun h => absurd h hbackup) fun _ => ?_
  exact copyDatabase_wp hfail hpassed hQ

section Rollback
variable {X : Exits (Option StorageError) Disk StorageError} {d : Disk}
variable (paths : PromotionPaths) (hX : Tolerates candidate previous X)
include hX

/-- The publication found live under a written journal passes the checks made on it. -/
theorem checkPreparedLive_wp (hd : Written candidate previous d)
    {liveIdentity : Option IndexPublicationRecord} (hid : Identity d.live liveIdentity)
    {Q : Unit → Disk → Prop} (hQ : Q () d) :
    wp X (checkPreparedLive paths (preparedJournal candidate previous) liveIdentity) Q d := by
  have hfail := hX.injected d hd.inv
  unfold checkPreparedLive
  split
  · exact hQ
  · rename_i live
    split
    · rename_i hcandidate
      have hlive : live = candidate.publication := hcandidate
      subst hlive
      refine requireRecordedIdentities_wp paths .live hfail ?_ hQ
      rcases hd.live with hold | hnew
      · right
        intro e
        exact hX.stale (hold.identity.unique hid) e d hd.inv
      · exact .inl ⟨_, hnew.auxiliary, confirms_self _⟩
    · rename_i hne
      rcases hd.live with hold | hnew
      · have hprevious : previous.publication = some live := hold.identity.unique hid
        have hjournal : (preparedJournal candidate previous).previous = some live := hprevious
        rw [if_pos hjournal]
        exact requireRecordedIdentities_wp paths .live hfail
          (.inl ⟨_, hold.auxiliary live hprevious, confirms_self _⟩) hQ
      · exact absurd (Option.some.inj (hid.unique hnew.identity)) hne

/-- The end of a rollback: the journal goes first, then the backup. -/
theorem finishRollback_wp (hd : Written candidate previous d)
    (hlive : Identity d.live previous.publication)
    (hfresh : previous.publication ≠ some candidate.publication → Holds previous d.live)
    (hprevious : previous.publication ≠ none) :
    wp X (do removePrepared; cleanupSqliteSidecars .backup)
      (fun _ d' => Before candidate previous d' ∧ d'.backup = none) d := by
  have hbackup := hd.later hprevious
  have hbefore : Before candidate previous { d with prepared := none } :=
    ⟨hd.renamed, hd.committed, rfl, hlive, hfresh, .inr ⟨hprevious, .inr hbackup⟩⟩
  have hclean : Before candidate previous { d with prepared := none, backup := none } :=
    ⟨hd.renamed, hd.committed, rfl, hlive, hfresh, .inl rfl⟩
  rw [wp_bind]
  refine removePrepared_wp (hX.injected d hd.inv) ?_ ?_
  · intro _
    refine ⟨hX.passed _ hbefore.inv, hX.injected _ hbefore.inv, ?_⟩
    refine cleanupSqliteSidecars_wp (hX.injected _ hbefore.inv) ?_ ?_
    · intro _
      exact ⟨hX.passed _ hclean.inv, hclean, rfl⟩
    · intro habsent
      exact ⟨hbefore, habsent⟩
  · intro habsent
    rw [hd.prepared] at habsent
    exact absurd habsent (by simp)

theorem rollbackToPrevious_wp (hd : Written candidate previous d)
    {p : IndexPublicationRecord} (hp : previous.publication = some p)
    {liveIdentity : Option IndexPublicationRecord} (hid : Identity d.live liveIdentity) :
    wp X (rollbackToPrevious paths (preparedJournal candidate previous) liveIdentity p)
      (fun _ d' => Before candidate previous d' ∧ d'.backup = none) d := by
  have hprevious : previous.publication ≠ none := by simp [hp]
  have hbackup := hd.later hprevious
  have hbackupId : Identity d.backup (some p) := hp ▸ hbackup.identity
  have hcontract : PromotionContract (.journal promotionJournalVersion) := .inr (.inl rfl)
  -- what is left once the live database publishes the previous record again
  have hrest : ∀ d', Written candidate previous d' → Identity d'.live (some p) →
      wp X (do
        let restored ← requireRecovery paths .live "Restored live database"
          (.journal promotionJournalVersion)
        if restored ≠ p then
          Prog.fail (promotionError ("Prepared promotion rollback did not restore the " ++
            "recorded identity for " ++ paths.database .live))
        else do
          requireRecordedIdentities paths .live restored previous.sourcePolicy
            previous.structuralText "Restored live database"
          removePrepared
          cleanupSqliteSidecars .backup)
        (fun _ d' => Before candidate previous d' ∧ d'.backup = none) d' := by
    intro d' hd' hlive'
    have hfail' := hX.injected d' hd'.inv
    have hfresh : previous.publication ≠ some candidate.publication →
        Holds previous d'.live := by
      intro hne
      rcases hd'.live with hold | hnew
      · exact hold
      · rw [hp] at hne
        exact absurd (hlive'.unique hnew.identity) hne
    rw [wp_bind]
    refine requireRecovery_wp paths .live hfail' hcontract hlive' ?_
    rw [if_neg (by simp), wp_bind]
    refine requireRecordedIdentities_wp paths .live hfail' ?_ ?_
    · rcases hd'.live with hold | hnew
      · exact .inl ⟨_, hold.auxiliary p hp, confirms_self _⟩
      · right
        intro e
        have hstale : previous.publication = some candidate.publication := by
          rw [hp]
          exact hlive'.unique hnew.identity
        exact hX.stale hstale e d' hd'.inv
    · exact finishRollback_wp hX hd' (hp ▸ hlive') hfresh hprevious
  unfold rollbackToPrevious
  dsimp only
  rw [wp_bind]
  refine requireRecovery_wp paths .backup (hX.injected d hd.inv) hcontract hbackupId ?_
  rw [if_neg (by simp), wp_bind]
  refine requireRecordedIdentities_wp paths .backup (hX.injected d hd.inv)
    (.inl ⟨_, hbackup.auxiliary p hp, confirms_self _⟩) ?_
  rw [wp_bind]
  split
  · rename_i hchanged
    have hrestored : Written candidate previous { d with live := d.backup } :=
      { hd with live := .inl hbackup }
    have hlive : d.live ≠ none := by
      rcases hd.live with hold | hnew
      · exact (hp ▸ hold.identity).ne_none
      · exact hnew.identity.ne_none
    exact restoreBackup_wp (hX.injected d hd.inv) hlive hbackupId.ne_none
      (hX.passed _ hrestored.inv) (hrest _ hrestored hbackupId)
  · rename_i hsame
    have hsame : liveIdentity = some p := by simpa using hsame
    exact hrest d hd (hsame ▸ hid)

theorem rollbackToNone_wp (hd : Written candidate previous d)
    (hnone : previous.publication = none) :
    wp X (rollbackToNone paths)
      (fun _ d' => Before candidate previous d' ∧ d'.backup = none) d := by
  have hbackup := hd.first hnone
  have hfinish : ∀ d', Written candidate previous d' → d'.live = none →
      wp X removePrepared
        (fun _ d' => Before candidate previous d' ∧ d'.backup = none) d' := by
    intro d' hd' hlive
    have hholds : Holds previous d'.live := holds_of_none hnone (by rw [hlive]; rfl)
    have hbefore : Before candidate previous { d' with prepared := none } :=
      ⟨hd'.renamed, hd'.committed, rfl, hholds.identity, fun _ => hholds,
        .inl (hd'.first hnone)⟩
    refine removePrepared_wp (hX.injected d' hd'.inv) ?_ ?_
    · intro _
      exact ⟨hX.passed _ hbefore.inv, hX.injected _ hbefore.inv, hbefore, hd'.first hnone⟩
    · intro habsent
      rw [hd'.prepared] at habsent
      exact absurd habsent (by simp)
  unfold rollbackToNone
  rw [wp_bind, wp_read, hbackup]
  dsimp only
  rw [wp_bind]
  refine cleanupSqliteSidecars_wp (hX.injected d hd.inv) ?_ ?_
  · intro _
    have hremoved : Written candidate previous { d with live := none } :=
      { hd with live := .inl (holds_of_none hnone rfl) }
    exact ⟨hX.passed _ hremoved.inv, hfinish _ hremoved rfl⟩
  · intro habsent
    exact hfinish d hd habsent

variable (hsource : candidate.sourcePolicy ≠ none)
variable (hstructural : candidate.structuralText ≠ none)
include hsource hstructural

/-- A rollback either fails with the invariant intact or ends with a clean disk. -/
theorem rollbackPreparedPromotion_wp (hd : Written candidate previous d) :
    wp X (rollbackPreparedPromotion paths (preparedJournal candidate previous))
      (fun _ d' => Before candidate previous d' ∧ d'.backup = none) d := by
  have hid : ∃ r, Identity d.live r := by
    rcases hd.live with hold | hnew
    · exact ⟨_, hold.identity⟩
    · exact ⟨_, hnew.identity⟩
  obtain ⟨r, hid⟩ := hid
  have hread := hid.read (.inr (.inl rfl) : PromotionContract (.journal promotionJournalVersion))
    (paths.database .live)
  unfold rollbackPreparedPromotion
  rw [if_neg (fun h => hsource h.2), if_neg (fun h => hstructural h.2), wp_bind]
  refine inspect_wp (hX.injected d hd.inv) ?_ ?_
  · intro liveIdentity hlive
    obtain rfl : r = liveIdentity := Except.ok.inj (hread.symm.trans hlive)
    rw [wp_bind]
    refine checkPreparedLive_wp paths hX hd hid ?_
    cases hprevious : previous.publication with
    | none =>
      have hjournal : (preparedJournal candidate previous).previous = none := hprevious
      rw [hjournal]
      exact rollbackToNone_wp paths hX hd hprevious
    | some p =>
      have hjournal : (preparedJournal candidate previous).previous = some p := hprevious
      rw [hjournal]
      exact rollbackToPrevious_wp paths hX hd hprevious hid
  · intro e he
    exact absurd (hread.symm.trans he) (by simp)

end Rollback

/-- A backup that recovery can use without a journal: it is a copied database, and at the
current schema it has both auxiliary manifests. -/
def UsableBackup (b : Database) : Prop :=
  b.userVersion.toNat ≠ 0 ∧ (b.userVersion.toNat = schemaVersion →
    b.sourcePolicyManifest.isSome = true ∧ b.structuralTextManifest.isSome = true)

/-- The disks from which recovery can go on: the prepared journal is not half written, and
a backup that stands alone is usable. -/
def Recoverable (d : Disk) : Prop :=
  d.prepared ≠ some .torn ∧
  (d.prepared = none → d.committed = none → ∀ b, d.backup = some b → UsableBackup b)

theorem schema_of_identity {b : Database} {r : IndexPublicationRecord}
    (h : Identity (some b) (some r)) :
    b.userVersion.toNat ≠ 0 ∧ sourcePolicyPromotionMinSchemaVersion ≤ b.userVersion.toNat := by
  obtain ⟨-, ⟨-, hnone⟩ | ⟨hsentinel, -⟩ | ⟨hne, -, hsupport, -⟩⟩ := h
  · exact absurd hnone (by simp)
  · rw [hsentinel]
    exact ⟨sentinel_ne_zero, by decide⟩
  · refine ⟨hne, ?_⟩
    simp only [RecoveryDatabaseContract.supportsCompleteSchema, Bool.and_eq_true,
      decide_eq_true_eq] at hsupport
    exact Nat.le_trans (by decide) hsupport.1

theorem inspectPromotion_of_identity {path : String} {b : Database}
    {r : Option IndexPublicationRecord} (h : Identity (some b) r) :
    inspectPromotionDatabase path (some b) = .ok (some (b, b.userVersion.toNat)) := by
  unfold inspectPromotionDatabase
  dsimp only
  rw [if_neg (by simp [h.1])]

section Recover
variable {X : Exits (Option StorageError) Disk StorageError} {d : Disk}
variable (paths : PromotionPaths) (hX : Tolerates candidate previous X)
include hX

omit hX in
theorem readPromotionJournal_wp {path : String} {Q : PromotionJournal → Disk → Prop}
    (hfail : FailsSafely X d) (hQ : Q (preparedJournal candidate previous) d) :
    wp X (readPromotionJournal path (some (.written (preparedJournal candidate previous))))
      Q d := by
  unfold readPromotionJournal
  rw [wp_bind]
  refine io_wp hfail ?_
  rw [if_pos (by simp [preparedJournal, promotionJournalVersion])]
  exact hQ

/-- Cleaning up after a commit never touches the live database; without injected failures
it leaves no artifact. -/
theorem cleanupCommitted_wp (hd : After candidate previous d) :
    wp X (Prog.attempt cleanupCommittedPromotionArtifacts)
      (fun _ d' => After candidate previous d' ∧
        (promotionArtifactsExist d' = false ∨ ∃ e, X.answers (some e))) d := by
  rw [wp_attempt]
  have hinjected : ∀ d', After candidate previous d' →
      FailsSafely { X with failed := fun _ d' => After candidate previous d' ∧
        (promotionArtifactsExist d' = false ∨ ∃ e, X.answers (some e)) } d' := by
    intro d' hd' e he e'
    exact ⟨hd', .inr ⟨e, he⟩⟩
  have hfinish : ∀ d', After candidate previous d' → d'.backup = none →
      wp { X with failed := fun _ d' => After candidate previous d' ∧
        (promotionArtifactsExist d' = false ∨ ∃ e, X.answers (some e)) } removeCommitted
        (fun _ d' => After candidate previous d' ∧
          (promotionArtifactsExist d' = false ∨ ∃ e, X.answers (some e))) d' := by
    intro d' hd' hbackup
    have hdone : After candidate previous { d' with committed := none } :=
      ⟨hd'.renamed, hd'.prepared, hd'.live, .inr ⟨rfl, hbackup⟩⟩
    refine removeCommitted_wp (hinjected d' hd') ?_ ?_
    · intro _
      refine ⟨hX.passed _ hdone.inv, hinjected _ hdone, hdone, .inl ?_⟩
      simp [promotionArtifactsExist, hbackup, hd'.prepared]
    · intro habsent
      refine ⟨hd', .inl ?_⟩
      simp [promotionArtifactsExist, hbackup, hd'.prepared, habsent]
  unfold cleanupCommittedPromotionArtifacts
  rw [wp_bind]
  refine cleanupSqliteSidecars_wp (hinjected d hd) ?_ ?_
  · intro _
    have hcleaned : After candidate previous { d with backup := none } :=
      ⟨hd.renamed, hd.prepared, hd.live, hd.committed.imp_right fun h => ⟨h.1, rfl⟩⟩
    exact ⟨hX.passed _ hcleaned.inv, hfinish _ hcleaned rfl⟩
  · intro habsent
    exact hfinish d hd habsent

theorem recoverCommitted_wp (hd : After candidate previous d) :
    wp X (recoverCommitted paths (preparedJournal candidate previous))
      (fun _ d' => After candidate previous d' ∧
        (promotionArtifactsExist d' = false ∨ ∃ e, X.answers (some e))) d := by
  have hfail := hX.injected d hd.inv
  have hcontract : PromotionContract (.journal promotionJournalVersion) := .inr (.inl rfl)
  unfold recoverCommitted
  rw [wp_bind]
  refine requireRecovery_wp paths .live hfail hcontract hd.live.identity ?_
  rw [if_neg (by simp [preparedJournal]), wp_bind]
  have hsource : (preparedJournal candidate previous).version ≥
      sourcePolicyPromotionJournalVersion := by
    simp [preparedJournal, promotionJournalVersion, sourcePolicyPromotionJournalVersion]
  have hstructural : (preparedJournal candidate previous).version ≥
      structuralTextPromotionJournalVersion := by
    simp [preparedJournal, promotionJournalVersion, structuralTextPromotionJournalVersion]
  simp only [if_pos hsource, if_pos hstructural]
  refine candidate_wp hfail (hd.live.auxiliary _).1 hd.live.sourcePolicy ?_
  rw [wp_bind]
  refine candidate_wp hfail (hd.live.auxiliary _).2 hd.live.structuralText ?_
  rw [wp_bind]
  exact cleanupCommitted_wp hX hd

omit hX in
theorem requireSchemaVersion_wp (file : DatabaseFile) {missing : String} {b : Database}
    {r : Option IndexPublicationRecord} {Q : Nat → Disk → Prop} (hfail : FailsSafely X d)
    (hb : d.database file = some b) (hid : Identity (some b) r)
    (hQ : Q b.userVersion.toNat d) : wp X (requireSchemaVersion paths file missing) Q d := by
  refine inspect_wp hfail ?_ ?_
  · intro version hversion
    rw [hb, inspectPromotion_of_identity hid] at hversion
    obtain rfl := Except.ok.inj hversion
    exact hQ
  · intro e he
    rw [hb, inspectPromotion_of_identity hid] at he
    exact absurd he (by simp)

/-- An empty backup, left by a copy that did not finish, stops recovery. -/
theorem recoverLegacy_empty_wp (hd : Before candidate previous d)
    (hb : d.backup = some Database.empty) (hbad : ∀ e, X.failed e d)
    {Q : Unit → Disk → Prop} : wp X (recoverLegacyPromotionBackup paths) Q d := by
  have hfail := hX.injected d hd.inv
  unfold recoverLegacyPromotionBackup
  rw [wp_bind]
  refine requireSchemaVersion_wp paths .backup hfail hb identity_empty ?_
  rw [wp_bind]
  refine inspect_wp hfail ?_ fun e _ => hbad e
  intro r hr
  have hbackup : d.database .backup = some Database.empty := hb
  rw [hbackup] at hr
  exact absurd hr (by simp [requireRecoveryDatabaseIdentity, requirePublication,
    identity_empty.read (.inr (.inr rfl) : PromotionContract .legacyBackup)])

/-- The publication found live beside a lone backup is the backed-up one, so whether the
copy is restored or not the previous publication stays. -/
theorem legacyRestoreNeeded_wp (hd : Before candidate previous d) {p : IndexPublicationRecord}
    (hp : previous.publication = some p) {auxiliary : AuxiliaryIdentities}
    {Q : Bool → Disk → Prop} (hQ : ∀ restore, Q restore d) :
    wp X (legacyRestoreNeeded paths p auxiliary (.ok (some p))) Q d := by
  have hfail := hX.injected d hd.inv
  have hlive : Identity d.live (some p) := hp ▸ hd.live
  obtain ⟨db, hdb⟩ := Option.ne_none_iff_exists'.mp hlive.ne_none
  unfold legacyRestoreNeeded
  dsimp only
  rw [if_pos rfl, wp_bind]
  refine requireSchemaVersion_wp paths .live hfail hdb (hdb ▸ hlive) ?_
  rw [wp_bind, wp_attempt]
  refine inspect_wp ?_ ?_ ?_
  · intro _ _ _
    exact hQ true
  · intro found _
    exact hQ _
  · intro _ _
    exact hQ true

theorem restoreLegacyBackup_wp (hd : Before candidate previous d) {p : IndexPublicationRecord}
    (hp : previous.publication = some p) (hbackup : Holds previous d.backup)
    {recorded : AuxiliaryIdentities}
    (hrecorded : Confirms ⟨previous.sourcePolicy, previous.structuralText⟩ recorded)
    {Q : Unit → Disk → Prop}
    (hQ : ∀ d', Before candidate previous d' → d'.backup = d.backup → Q () d') :
    wp X (restoreLegacyBackup paths p recorded) Q d := by
  have hlive : Identity d.live (some p) := hp ▸ hd.live
  have hbackupId : Identity d.backup (some p) := hp ▸ hbackup.identity
  have hrestored : Before candidate previous { d with live := d.backup } :=
    { hd with live := hbackup.identity, fresh := fun _ => hbackup }
  have hfail := hX.injected _ hrestored.inv
  unfold restoreLegacyBackup
  rw [wp_bind]
  refine restoreBackup_wp (hX.injected d hd.inv) hlive.ne_none hbackupId.ne_none
    (hX.passed _ hrestored.inv) ?_
  rw [wp_bind]
  refine requireRecovery_wp paths .live hfail (.inr (.inr rfl)) hbackupId ?_
  rw [if_neg (by simp)]
  exact requireRecordedIdentities_wp paths .live hfail
    (.inl ⟨_, hbackup.auxiliary p hp, hrecorded⟩) (hQ _ hrestored rfl)

/-- A lone backup that is not usable stops recovery before it changes anything. -/
theorem recoverLegacy_unusable_wp (hd : Before candidate previous d) {b : Database}
    (hb : d.backup = some b) (hunusable : ¬ UsableBackup b) (hbad : ∀ e, X.failed e d)
    {Q : Unit → Disk → Prop} : wp X (recoverLegacyPromotionBackup paths) Q d := by
  have hfail := hX.injected d hd.inv
  rcases hd.backup with hnone | ⟨hprevious, hempty | hholds⟩
  · rw [hnone] at hb
    exact absurd hb (by simp)
  · exact recoverLegacy_empty_wp paths hX hd hempty hbad
  · obtain ⟨p, hp⟩ := Option.ne_none_iff_exists'.mp hprevious
    have hid : Identity (some b) (some p) := hb ▸ hp ▸ hholds.identity
    have haux := hholds.auxiliary p hp
    rw [hb] at haux
    have hne := (schema_of_identity hid).1
    obtain ⟨hsource, hstructural⟩ := haux.manifests
    have hschema : b.userVersion.toNat = schemaVersion := by
      by_contra hother
      exact hunusable ⟨hne, fun h => absurd h hother⟩
    have hmissing : previous.sourcePolicy = none ∨ previous.structuralText = none := by
      by_contra hboth
      rw [not_or] at hboth
      refine hunusable ⟨hne, fun _ => ⟨?_, ?_⟩⟩
      · rw [← hsource]
        exact Option.isSome_iff_ne_none.mpr hboth.1
      · rw [← hstructural]
        exact Option.isSome_iff_ne_none.mpr hboth.2
    unfold recoverLegacyPromotionBackup
    rw [wp_bind]
    refine requireSchemaVersion_wp paths .backup hfail hb hid ?_
    rw [wp_bind]
    refine requireRecovery_wp paths .backup hfail (.inr (.inr rfl)) (hb ▸ hid) ?_
    rw [wp_bind]
    refine inspect_wp hfail ?_ fun e _ => hbad e
    intro recorded hrecorded
    have hbackup : d.database .backup = some b := hb
    obtain ⟨e, he⟩ := readJournalLess_error haux hmissing (paths.database .backup)
      "legacy promotion backup"
    rw [hbackup, hschema, he] at hrecorded
    exact absurd hrecorded (by simp)

theorem recoverLegacy_wp (hd : Before candidate previous d) {b : Database}
    (hb : d.backup = some b) (husable : UsableBackup b) :
    wp X (recoverLegacyPromotionBackup paths)
      (fun _ d' => Before candidate previous d' ∧ d'.backup = none) d := by
  have hfail := hX.injected d hd.inv
  rcases hd.backup with hnone | ⟨hprevious, hempty | hholds⟩
  · rw [hnone] at hb
    exact absurd hb (by simp)
  · rw [hempty] at hb
    obtain rfl := Option.some.inj hb
    exact absurd rfl husable.1
  · obtain ⟨p, hp⟩ := Option.ne_none_iff_exists'.mp hprevious
    have hid : Identity (some b) (some p) := hb ▸ hp ▸ hholds.identity
    have haux := hholds.auxiliary p hp
    rw [hb] at haux
    have hmin := (schema_of_identity hid).2
    obtain ⟨hsource, hstructural⟩ := haux.manifests
    have hread := readJournalLess_ok haux hmin
      (fun h => ⟨hsource ▸ (husable.2 h).1, hstructural ▸ (husable.2 h).2⟩)
    have hbackup : d.database .backup = some b := hb
    have hclean : ∀ d', Before candidate previous d' →
        wp X (cleanupSqliteSidecars .backup)
          (fun _ d' => Before candidate previous d' ∧ d'.backup = none) d' := by
      intro d' hd'
      refine cleanupSqliteSidecars_wp (hX.injected d' hd'.inv) ?_ ?_
      · intro _
        have hdone : Before candidate previous { d' with backup := none } :=
          { hd' with backup := .inl rfl }
        exact ⟨hX.passed _ hdone.inv, hdone, rfl⟩
      · intro habsent
        exact ⟨hd', habsent⟩
    unfold recoverLegacyPromotionBackup
    rw [wp_bind]
    refine requireSchemaVersion_wp paths .backup hfail hb hid ?_
    rw [wp_bind]
    refine requireRecovery_wp paths .backup hfail (.inr (.inr rfl)) (hb ▸ hid) ?_
    rw [wp_bind]
    refine inspect_wp hfail ?_ ?_
    · intro recorded hrecorded
      rw [hbackup, hread] at hrecorded
      obtain rfl := Except.ok.inj hrecorded
      have hconfirms : Confirms ⟨previous.sourcePolicy, previous.structuralText⟩
          ⟨previous.sourcePolicy, if b.userVersion.toNat = schemaVersion then
            previous.structuralText else none⟩ := by
        refine ⟨.inr rfl, ?_⟩
        split
        · exact .inr rfl
        · exact .inl rfl
      rw [wp_bind, wp_attempt]
      have hliveRead := (hp ▸ hd.live : Identity d.live (some p)).read
        (.inr (.inr rfl) : PromotionContract .legacyBackup) (paths.database .live)
      refine inspect_wp ?_ ?_ ?_
      · intro e he e'
        dsimp only
        rw [wp_bind]
        exact hfail e he _
      · intro liveIdentity hlive
        obtain rfl : some p = liveIdentity := Except.ok.inj (hliveRead.symm.trans hlive)
        rw [wp_bind]
        refine legacyRestoreNeeded_wp paths hX hd hp ?_
        intro restore
        rw [wp_bind]
        split
        · exact restoreLegacyBackup_wp paths hX hd hp hholds hconfirms
            fun d' hd' _ => hclean d' hd'
        · exact hclean d hd
      · intro e he
        exact absurd (hliveRead.symm.trans he) (by simp)
    · intro e he
      rw [hbackup, hread] at he
      exact absurd he (by simp)

/-- From a disk it cannot go on from, recovery fails without changing anything. -/
theorem recover_unrecoverable_wp (hd : Inv candidate previous d) (h : ¬ Recoverable d)
    (hbad : ∀ e, X.failed e d) {Q : Unit → Disk → Prop} :
    wp X (recoverInterruptedPromotionLocked paths) Q d := by
  unfold recoverInterruptedPromotionLocked
  rw [wp_bind, wp_read]
  dsimp only [id]
  by_cases htorn : d.prepared = some .torn
  · rcases hd with hd | hd | hd | hd
    · exact absurd (hd.prepared.symm.trans htorn) (by simp)
    · rw [hd.committed, hd.prepared]
      dsimp only
      rw [wp_bind]
      unfold readPromotionJournal
      rw [wp_bind]
      exact io_wp (hX.injected d hd.inv) (hbad _)
    · exact absurd (hd.prepared.symm.trans htorn) (by simp)
    · exact absurd (hd.prepared.symm.trans htorn) (by simp)
  · have hlone : ∃ b, d.prepared = none ∧ d.committed = none ∧ d.backup = some b ∧
        ¬ UsableBackup b := by
      by_contra hnone
      refine h ⟨htorn, fun hprepared hcommitted b hb => ?_⟩
      by_contra hunusable
      exact hnone ⟨b, hprepared, hcommitted, hb, hunusable⟩
    obtain ⟨b, hprepared, hcommitted, hb, hunusable⟩ := hlone
    have hbefore : Before candidate previous d := by
      rcases hd with hd | hd | hd | hd
      · exact hd
      · exact absurd (hd.prepared.symm.trans hprepared) (by simp)
      · exact absurd (hd.prepared.symm.trans hprepared) (by simp)
      · rcases hd.committed with hsome | ⟨-, hbackup⟩
        · exact absurd (hsome.symm.trans hcommitted) (by simp)
        · exact absurd (hbackup.symm.trans hb) (by simp)
    rw [hcommitted, hprepared, hb]
    exact recoverLegacy_unusable_wp paths hX hbefore hb hunusable hbad

variable (candidate previous X) in
/-- What a recovery that returned has left: no prepared journal, and no artifact at all
unless calls may fail. -/
def Settled (d : Disk) : Prop :=
  (Before candidate previous d ∧ d.backup = none) ∨
    (After candidate previous d ∧
      (promotionArtifactsExist d = false ∨ ∃ e, X.answers (some e)))

variable (hsource : candidate.sourcePolicy ≠ none)
variable (hstructural : candidate.structuralText ≠ none)
include hsource hstructural

/-- Recovery keeps the invariant at every step, and it fails its own checks only on a disk
it cannot go on from, or when the candidate carries the publication it replaces. -/
theorem recover_wp (hd : Inv candidate previous d)
    (hbad : ¬ Recoverable d → ∀ e, X.failed e d) :
    wp X (recoverInterruptedPromotionLocked paths)
      (fun _ d' => Settled candidate previous X d') d := by
  by_cases hrecoverable : Recoverable d
  · have hfail := hX.injected d hd
    unfold recoverInterruptedPromotionLocked
    rw [wp_bind, wp_read]
    dsimp only [id]
    rcases hd with hd | hd | hd | hd
    · rw [hd.committed, hd.prepared]
      cases hb : d.backup with
      | none => exact .inl ⟨hd, hb⟩
      | some b =>
        have husable := hrecoverable.2 hd.prepared hd.committed b hb
        exact wp_mono (recoverLegacy_wp paths hX hd hb husable) (fun _ h => h) (fun _ h => h)
          (fun _ _ h => h) (fun _ h => h) fun _ _ h => .inl h
    · exact absurd hd.prepared hrecoverable.1
    · rw [hd.committed, hd.prepared]
      dsimp only
      rw [wp_bind]
      refine readPromotionJournal_wp hfail ?_
      exact wp_mono (rollbackPreparedPromotion_wp paths hX hsource hstructural hd)
        (fun _ h => h) (fun _ h => h) (fun _ _ h => h) (fun _ h => h) fun _ _ h => .inl h
    · rcases hd.committed with hcommitted | ⟨hcommitted, hbackup⟩
      · rw [hcommitted, hd.prepared]
        dsimp only
        rw [wp_bind]
        refine readPromotionJournal_wp hfail ?_
        exact wp_mono (recoverCommitted_wp paths hX hd) (fun _ h => h) (fun _ h => h)
          (fun _ _ h => h) (fun _ h => h) fun _ _ h => .inr h
      · rw [hcommitted, hd.prepared, hbackup]
        refine .inr ⟨hd, .inl ?_⟩
        simp [promotionArtifactsExist, hcommitted, hd.prepared, hbackup]
  · exact recover_unrecoverable_wp paths hX hd hrecoverable (hbad hrecoverable)

end Recover

end Invariant

end CodeStory.Store
