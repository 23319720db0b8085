import CodeStory.Store.CrashAtomicity

/-!
# When recovery gets through

A recovery during which no call fails returns, and removes every artifact, exactly on the
disks that `Recoverable` describes. The others are left by crashes that promotion and
recovery themselves allow: between creating the prepared journal and filling it, and
wherever the backup stands without a journal although it is still empty or, at the
current schema, lacks a manifest that promotion had recorded as absent.
-/

set_option autoImplicit false

namespace CodeStory.Store

open Prog

/-- Nothing fails from outside, and a failed check is not acceptable. -/
def undisturbed : Exits (Option StorageError) Disk StorageError :=
  ⟨fun a => a = none, fun _ => True, fun _ _ => False, fun _ => False⟩

/-- Nothing fails from outside; failed checks may happen. -/
def obstructed : Exits (Option StorageError) Disk StorageError :=
  ⟨fun a => a = none, fun _ => True, fun _ _ => True, fun _ => True⟩

section Runs
variable (paths : PromotionPaths)

/-- The next recovery, with no call failing, returns and leaves no artifact. -/
def Recovers (d : Disk) : Prop :=
  ((recoverInterruptedPromotionLocked paths).run (fun _ => none) 0 d).outcome = .returned () ∧
    promotionArtifactsExist
      ((recoverInterruptedPromotionLocked paths).run (fun _ => none) 0 d).final = false

instance (d : Disk) : Decidable (Recovers paths d) := inferInstanceAs (Decidable (_ ∧ _))

variable {paths}

theorem recovers_of_wp {d : Disk}
    (h : wp undisturbed (recoverInterruptedPromotionLocked paths)
      (fun _ d' => promotionArtifactsExist d' = false) d) : Recovers paths d := by
  have hworld : ∀ n : Nat, undisturbed.answers ((fun _ => none) n) := fun _ => rfl
  have hend := (wp_run h hworld 0).2
  unfold Recovers
  split at hend
  · rename_i hreturned
    exact ⟨hreturned, hend⟩
  · exact hend.elim
  · exact hend.elim

theorem not_recovers_of_wp {d : Disk}
    (h : wp obstructed (recoverInterruptedPromotionLocked paths) (fun _ _ => False) d) :
    ¬ Recovers paths d := by
  rintro ⟨hreturned, -⟩
  have hworld : ∀ n : Nat, obstructed.answers ((fun _ => none) n) := fun _ => rfl
  have hend := (wp_run h hworld 0).2
  rw [hreturned] at hend
  exact hend

variable {candidate : Candidate} {previous : Previous}

theorem tolerates_obstructed : Tolerates candidate previous obstructed :=
  ⟨fun _ _ => trivial, fun _ _ _ _ _ => trivial, fun _ _ _ _ => trivial⟩

theorem tolerates_undisturbed
    (hfresh : previous.publication ≠ some candidate.publication) :
    Tolerates candidate previous undisturbed := by
  refine ⟨fun _ _ => trivial, ?_, fun hstale => absurd hstale hfresh⟩
  intro d _ e he
  exact absurd he (by simp [undisturbed])

theorem Settled.no_artifacts {d : Disk} (h : Settled candidate previous undisturbed d) :
    promotionArtifactsExist d = false := by
  rcases h with ⟨hbefore, hbackup⟩ | ⟨-, hclean | ⟨e, he⟩⟩
  · simp [promotionArtifactsExist, hbackup, hbefore.prepared, hbefore.committed]
  · exact hclean
  · exact absurd he (by simp [undisturbed])

theorem Inv.recovers_iff {d : Disk} (hd : Inv candidate previous d)
    (hsource : candidate.sourcePolicy ≠ none) (hstructural : candidate.structuralText ≠ none)
    (hfresh : previous.publication ≠ some candidate.publication) :
    Recovers paths d ↔ Recoverable d := by
  constructor
  · intro hrecovers
    by_contra hstuck
    exact not_recovers_of_wp (recover_unrecoverable_wp paths
      (@tolerates_obstructed candidate previous) hd hstuck fun _ => trivial) hrecovers
  · intro hrecoverable
    apply recovers_of_wp
    refine wp_mono (recover_wp paths (tolerates_undisturbed hfresh) hsource hstructural hd ?_)
      (fun _ h => h) (fun _ h => h) (fun _ _ h => h) (fun _ h => h) ?_
    · intro hstuck
      exact absurd hrecoverable hstuck
    · intro _ d' hsettled
      exact hsettled.no_artifacts

theorem Clean.recovers {d : Disk} (h : Clean d) : Recovers paths d :=
  recovers_of_wp (recover_clean_wp paths h h.1)

theorem Clean.recoverable {d : Disk} (h : Clean d) : Recoverable d := by
  obtain ⟨hbackup, hprepared, -⟩ := h.fields
  refine ⟨by simp [hprepared], ?_⟩
  intro _ _ b hb
  exact absurd (hbackup.symm.trans hb) (by simp)

end Runs

/-- After any crashes inside a promotion and inside the recoveries that followed it, the
next recovery succeeds exactly when the prepared journal is not half written and a backup
that stands without a journal is usable. The candidate is a new publication. -/
theorem recovery_succeeds_iff (paths : PromotionPaths) {d₀ d : Disk} (hclean : Clean d₀)
    {c : IndexPublicationRecord} {p : Option IndexPublicationRecord} {path role : String}
    (hcandidate : requireCompletePromotionDatabaseIdentity path d₀.staged role = .ok c)
    (hprevious : readRecoveryDatabaseIdentity path d₀.live .currentPromotion = .ok p)
    (hfresh : p ≠ some c) (hcrashes : Recovering paths d₀ d) :
    Recovers paths d ↔ Recoverable d := by
  have hprogress := hcrashes.progress paths hclean hcandidate (identity_of_read hprevious)
  rcases hprogress with rfl | ⟨candidate, previous, hc, hp, hsource, hstructural, hinv⟩
  · exact ⟨fun _ => hclean.recoverable, fun _ => hclean.recovers⟩
  · exact hinv.recovers_iff hsource hstructural (by rw [hc, hp]; exact hfresh)

/-- A crash while the candidate is being installed: the journal is written, so recovery
rolls back. -/
theorem recovery_succeeds_iff_rolling_back :
    Recovers samplePaths (crashedAfter 5 (sampleDisk (sampleDatabase 1 "first"))) := by
  have hclean : Clean (sampleDisk (sampleDatabase 1 "first")) := ⟨rfl, rfl⟩
  have hcandidate : requireCompletePromotionDatabaseIdentity "codestory.db"
      (sampleDisk (sampleDatabase 1 "first")).staged "Candidate" =
        .ok (sampleRecord 2 "second") := by decide
  have hprevious : readRecoveryDatabaseIdentity "codestory.db"
      (sampleDisk (sampleDatabase 1 "first")).live .currentPromotion =
        .ok (some (sampleRecord 1 "first")) := by decide +kernel
  apply (recovery_succeeds_iff samplePaths hclean hcandidate hprevious (by decide)
    (crashedAfter_recovering 5 _)).mpr
  refine ⟨by decide, ?_⟩
  intro hprepared
  exact absurd hprepared (by decide)

/-- A migrated database: current schema and a publication, but neither manifest written. -/
def migratedDatabase : Database :=
  { sampleDatabase 1 "first" with
    sourcePolicy := some ⟨true, none, .ok [], "none", "none"⟩
    structuralText :=
      some ⟨none, .ok ⟨0, "none", []⟩, .ok ⟨0, "none", []⟩, .ok (), .ok (), 0⟩ }

/-- Promotion accepts both previous databases, and gets through when nothing interrupts it.
A crash between creating the journal and filling it defeats recovery for either; a crash
after the backup copy defeats it for the migrated one. -/
theorem recovery_refuses_crashes :
    (∃ d, Clean (sampleDisk (sampleDatabase 1 "first")) ∧
      Recovering samplePaths (sampleDisk (sampleDatabase 1 "first")) d ∧
      ¬ Recovers samplePaths d) ∧
    (∃ d, Clean (sampleDisk migratedDatabase) ∧
      readRecoveryDatabaseIdentity "codestory.db" (some migratedDatabase) .currentPromotion =
        .ok (some (sampleRecord 1 "first")) ∧
      ((promoteStagedSnapshot samplePaths).run (fun _ => none) 0
        (sampleDisk migratedDatabase)).outcome = .returned ⟨4096, some 4096, some 4096⟩ ∧
      Recovering samplePaths (sampleDisk migratedDatabase) d ∧
      d.backup.isSome = true ∧ d.prepared = none ∧ ¬ Recovers samplePaths d) := by
  constructor
  · exact ⟨crashedAfter 3 _, ⟨rfl, rfl⟩, crashedAfter_recovering 3 _, by decide⟩
  · exact ⟨crashedAfter 2 _, ⟨rfl, rfl⟩, by decide, by decide,
      crashedAfter_recovering 2 _, by decide, by decide +kernel, by decide⟩

section Renaming

/-- The record of the rename stays as it is. -/
def renamedFrame : Frame Disk where
  rel d d' := d'.renamed = d.renamed
  refl _ := rfl
  trans h h' := h'.trans h

theorem setDatabase_renamed (d : Disk) (content : Option Database) (file : DatabaseFile) :
    (d.setDatabase content file).renamed = d.renamed := by
  cases file <;> rfl

theorem keeps_io : Keeps renamedFrame io := by
  refine keeps_bind (keeps_query _) ?_
  intro answer
  cases answer with
  | none => exact keeps_pure ()
  | some error => exact keeps_fail error

theorem keeps_inspect {α : Type} {file : DatabaseFile}
    {reader : Option Database → Except StorageError α} :
    Keeps renamedFrame (inspect file reader) := by
  refine keeps_bind (keeps_read _) ?_
  intro content
  cases content with
  | none => exact keeps_ofExcept _
  | some db => exact keeps_bind keeps_io fun _ => keeps_ofExcept _

theorem keeps_inspectExpected {ι : Type} {expected : Option ι} {file : DatabaseFile}
    {reader : Option Database → Except StorageError Unit} :
    Keeps renamedFrame (inspectExpected expected file reader) := by
  cases expected with
  | none => exact keeps_ofExcept _
  | some _ => exact keeps_inspect

theorem keeps_openDatabase (file : DatabaseFile) : Keeps renamedFrame (openDatabase file) := by
  refine keeps_bind keeps_io fun _ => keeps_bind (keeps_read _) ?_
  intro content
  cases content with
  | none => exact keeps_modify fun d => setDatabase_renamed d _ file
  | some db => exact keeps_pure ()

theorem keeps_restorePromotionDatabase (source : DatabaseFile) :
    Keeps renamedFrame (restorePromotionDatabase source) :=
  keeps_bind (keeps_openDatabase _) fun _ => keeps_bind (keeps_openDatabase _) fun _ =>
    keeps_bind keeps_io fun _ => keeps_modify fun d => setDatabase_renamed d _ _

theorem keeps_cleanupSqliteSidecars (file : DatabaseFile) :
    Keeps renamedFrame (cleanupSqliteSidecars file) := by
  refine keeps_bind (keeps_read _) ?_
  intro content
  cases content with
  | none => exact keeps_pure ()
  | some db =>
    exact keeps_bind keeps_io fun _ => keeps_modify fun d => setDatabase_renamed d _ _

theorem keeps_removePrepared : Keeps renamedFrame removePrepared := by
  refine keeps_bind (keeps_read _) ?_
  intro content
  cases content with
  | none => exact keeps_pure ()
  | some _ =>
    exact keeps_bind keeps_io fun _ => keeps_bind (keeps_modify fun _ => rfl) fun _ => keeps_io

theorem keeps_removeCommitted : Keeps renamedFrame removeCommitted := by
  refine keeps_bind (keeps_read _) ?_
  intro content
  cases content with
  | none => exact keeps_pure ()
  | some _ =>
    exact keeps_bind keeps_io fun _ => keeps_bind (keeps_modify fun _ => rfl) fun _ => keeps_io

theorem keeps_readPromotionJournal (path : String) (file : Option JournalFile) :
    Keeps renamedFrame (readPromotionJournal path file) := by
  unfold readPromotionJournal
  split
  · exact keeps_fail _
  · exact keeps_bind keeps_io fun _ => keeps_fail _
  · refine keeps_bind keeps_io fun _ => ?_
    split
    · exact keeps_pure _
    · exact keeps_fail _

variable (paths : PromotionPaths)

theorem keeps_requireRecordedIdentities (file : DatabaseFile)
    (publication : IndexPublicationRecord)
    (sourcePolicy : Option SourcePolicyExclusionRollbackIdentity)
    (structuralText : Option StructuralTextUnitRollbackIdentity) (role : String) :
    Keeps renamedFrame (requireRecordedIdentities paths file publication sourcePolicy
      structuralText role) :=
  keeps_bind keeps_inspectExpected fun _ => keeps_inspectExpected

theorem keeps_rollbackToPrevious (prepared : PromotionJournal)
    (liveIdentity : Option IndexPublicationRecord) (expectedPrevious : IndexPublicationRecord) :
    Keeps renamedFrame (rollbackToPrevious paths prepared liveIdentity expectedPrevious) := by
  refine keeps_bind keeps_inspect fun _ => ?_
  split
  · exact keeps_fail _
  · refine keeps_bind (keeps_requireRecordedIdentities _ _ _ _ _ _) fun _ => ?_
    refine keeps_bind ?_ fun _ => keeps_bind keeps_inspect fun _ => ?_
    · split
      · exact keeps_restorePromotionDatabase _
      · exact keeps_pure ()
    · split
      · exact keeps_fail _
      · exact keeps_bind (keeps_requireRecordedIdentities _ _ _ _ _ _) fun _ =>
          keeps_bind keeps_removePrepared fun _ => keeps_cleanupSqliteSidecars _

theorem keeps_rollbackToNone : Keeps renamedFrame (rollbackToNone paths) := by
  refine keeps_bind (keeps_read _) ?_
  intro backup
  cases backup with
  | some _ => exact keeps_fail _
  | none => exact keeps_bind (keeps_cleanupSqliteSidecars _) fun _ => keeps_removePrepared

theorem keeps_checkPreparedLive (prepared : PromotionJournal)
    (live : Option IndexPublicationRecord) :
    Keeps renamedFrame (checkPreparedLive paths prepared live) := by
  unfold checkPreparedLive
  split
  · exact keeps_pure ()
  · split
    · exact keeps_requireRecordedIdentities _ _ _ _ _ _
    · split
      · exact keeps_requireRecordedIdentities _ _ _ _ _ _
      · exact keeps_fail _

theorem keeps_rollbackPreparedPromotion (prepared : PromotionJournal) :
    Keeps renamedFrame (rollbackPreparedPromotion paths prepared) := by
  unfold rollbackPreparedPromotion
  split
  · exact keeps_fail _
  · split
    · exact keeps_fail _
    · refine keeps_bind keeps_inspect fun _ => ?_
      refine keeps_bind (keeps_checkPreparedLive _ _ _) fun _ => ?_
      split
      · exact keeps_rollbackToPrevious _ _ _ _
      · exact keeps_rollbackToNone _

theorem keeps_recoverCommitted (committed : PromotionJournal) :
    Keeps renamedFrame (recoverCommitted paths committed) := by
  refine keeps_bind keeps_inspect fun _ => ?_
  split
  · exact keeps_fail _
  · refine keeps_bind keeps_inspectExpected fun _ => ?_
    refine keeps_bind keeps_inspectExpected fun _ => ?_
    refine keeps_bind (keeps_attempt ?_) fun _ => keeps_pure ()
    exact keeps_bind (keeps_cleanupSqliteSidecars _) fun _ => keeps_removeCommitted

theorem keeps_legacyRestoreNeeded (backupIdentity : IndexPublicationRecord)
    (backupAuxiliary : AuxiliaryIdentities)
    (live : Except StorageError (Option IndexPublicationRecord)) :
    Keeps renamedFrame (legacyRestoreNeeded paths backupIdentity backupAuxiliary live) := by
  unfold legacyRestoreNeeded
  split
  · exact keeps_fail _
  · exact keeps_pure _
  · split
    · refine keeps_bind keeps_inspect fun _ => keeps_bind (keeps_attempt keeps_inspect) ?_
      intro found
      cases found with
      | ok _ => exact keeps_pure _
      | error _ => exact keeps_pure _
    · split
      · refine keeps_bind keeps_inspect fun _ => keeps_bind (keeps_attempt keeps_inspect) ?_
        intro found
        cases found with
        | ok _ => exact keeps_pure _
        | error _ => exact keeps_fail _
      · exact keeps_fail _

theorem keeps_recoverLegacyPromotionBackup :
    Keeps renamedFrame (recoverLegacyPromotionBackup paths) := by
  refine keeps_bind keeps_inspect fun _ => keeps_bind keeps_inspect fun _ => ?_
  refine keeps_bind keeps_inspect fun _ => keeps_bind (keeps_attempt keeps_inspect) fun _ => ?_
  refine keeps_bind (keeps_legacyRestoreNeeded _ _ _ _) fun _ => keeps_bind ?_ fun _ =>
    keeps_cleanupSqliteSidecars _
  split
  · refine keeps_bind (keeps_restorePromotionDatabase _) fun _ =>
      keeps_bind keeps_inspect fun _ => ?_
    split
    · exact keeps_fail _
    · exact keeps_requireRecordedIdentities _ _ _ _ _ _
  · exact keeps_pure ()

/-- Recovery renames no journal. -/
theorem keeps_recoverInterruptedPromotion :
    Keeps renamedFrame (recoverInterruptedPromotionLocked paths) := by
  refine keeps_bind (keeps_read _) ?_
  intro d
  split
  · exact keeps_fail _
  · exact keeps_bind (keeps_readPromotionJournal _ _) fun _ => keeps_recoverCommitted _ _
  · exact keeps_bind (keeps_readPromotionJournal _ _) fun _ =>
      keeps_rollbackPreparedPromotion _ _
  · exact keeps_recoverLegacyPromotionBackup _
  · exact keeps_pure ()

end Renaming

section Reading
variable {d₀ d : Disk} {c : IndexPublicationRecord} {p : Option IndexPublicationRecord}

/-- A recovery whose calls all succeed fails only where the journal was not renamed. -/
theorem recover_unfailing_wp (paths : PromotionPaths) (hclean : Clean d₀) (hfresh : p ≠ some c)
    {X : Exits (Option StorageError) Disk StorageError}
    (hanswers : ∀ a, X.answers a → a = none) (hpassed : ∀ d, Progress d₀ c p d → X.passed d)
    (hfailed : ∀ e d, Progress d₀ c p d → d.renamed = false → X.failed e d)
    (hd : Progress d₀ c p d) :
    wp X (recoverInterruptedPromotionLocked paths) (fun _ => Progress d₀ c p) d := by
  rcases hd with rfl | ⟨candidate, previous, rfl, rfl, hsource, hstructural, hinv⟩
  · exact recover_clean_wp paths hclean (.inl rfl)
  · have hprogress : ∀ d', Inv candidate previous d' →
        Progress d₀ candidate.publication previous.publication d' := fun d' hd' =>
      .inr ⟨candidate, previous, rfl, rfl, hsource, hstructural, hd'⟩
    have hX : Tolerates candidate previous X := by
      refine ⟨fun d' hd' => hpassed d' (hprogress d' hd'), ?_, ?_⟩
      · intro d' _ e he
        cases hanswers _ he
      · intro hstale
        exact absurd hstale hfresh
    refine wp_mono (recover_wp paths hX hsource hstructural hinv ?_) (fun _ h => h)
      (fun _ h => h) (fun _ _ h => h) (fun _ h => h) ?_
    · intro hunrecoverable e
      refine hfailed e d (hprogress d hinv) ?_
      rcases hinv with hinv | hinv | hinv | hinv
      · exact hinv.renamed
      · exact hinv.renamed
      · exact hinv.renamed
      · -- after the rename there is nothing that recovery cannot go on from
        refine absurd ⟨by rw [hinv.prepared]; simp, ?_⟩ hunrecoverable
        intro _ hnone b hb
        rcases hinv.committed with hcommitted | ⟨_, hbackup⟩
        · cases hcommitted.symm.trans hnone
        · cases hbackup.symm.trans hb
    · rintro _ d' (⟨hbefore, _⟩ | ⟨hafter, _⟩)
      · exact hprogress d' hbefore.inv
      · exact hprogress d' hafter.inv

theorem readIndexPublication_of_complete {db : Database} {r : IndexPublicationRecord}
    (h : readCompleteIndexPublication db = .ok (some r)) :
    readIndexPublication db = .ok (some r) := by
  unfold readCompleteIndexPublication at h
  unfold readIndexPublication
  split at h
  · cases h
  · cases h
  · cases h
  · cases h
  · rename_i row hrow _
    rw [hrow]
    exact h

/-- Once the journal is renamed, the live database is the candidate, read by anyone. -/
theorem Progress.live_of_renamed (hclean : Clean d₀) (hd : Progress d₀ c p d)
    (hrenamed : d.renamed = true) :
    ∃ db, d.live = some db ∧ readIndexPublication db = .ok (some c) := by
  rcases hd with rfl | ⟨candidate, previous, rfl, _, _, _, hinv⟩
  · cases hclean.2.symm.trans hrenamed
  · rcases hinv with hinv | hinv | hinv | hinv
    · cases hinv.renamed.symm.trans hrenamed
    · cases hinv.renamed.symm.trans hrenamed
    · cases hinv.renamed.symm.trans hrenamed
    · obtain ⟨db, hdb⟩ := Option.ne_none_iff_exists'.mp hinv.live.identity.ne_none
      refine ⟨db, hdb, readIndexPublication_of_complete ?_⟩
      have hcomplete := hinv.live.complete "" ""
      rw [hdb] at hcomplete
      unfold requireCompletePromotionDatabaseIdentity requirePublication
        readCompletePromotionDatabaseIdentity at hcomplete
      split at hcomplete
      · cases hcomplete
      · cases hcomplete
      · rename_i found hfound
        split at hfound
        · cases hfound
        · cases hfound
        · rename_i db' version hinspect
          unfold inspectPromotionDatabase at hinspect
          dsimp only at hinspect
          split at hinspect
          · cases hinspect
          · cases hinspect
            split at hfound
            · cases hfound
            · split at hfound
              · cases hfound
              · rw [hfound]
                cases hcomplete
                rfl

end Reading

end CodeStory.Store
