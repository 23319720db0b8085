import CodeStory.Store.Promotion

/-!
# Which publication a database file holds

The readers of a database report the path they were given, but only in their errors.
`Identity` says what a file publishes independently of the path and of which of the
contracts that promotion and its recovery use; `Holds` adds the two auxiliary identities.
-/

set_option autoImplicit false

namespace CodeStory.Store

/-- What a whole database publishes under a contract, without the error texts. -/
def Publishes (contract : RecoveryDatabaseContract) (db : Database)
    (r : Option IndexPublicationRecord) : Prop :=
  db.quickCheck = "ok" ∧
  ((db.userVersion.toNat = 0 ∧ r = none) ∨
    (db.userVersion.toNat = incompleteIncrementalSchemaVersion ∧
      hasIncompleteIncrementalMarker db = true ∧ readIndexPublication db = .ok r) ∨
    (db.userVersion.toNat ≠ 0 ∧
      db.userVersion.toNat ≠ incompleteIncrementalSchemaVersion ∧
      contract.supportsCompleteSchema db.userVersion.toNat = true ∧
      readCompleteIndexPublication db = .ok r))

theorem sentinel_ne_zero : incompleteIncrementalSchemaVersion ≠ 0 := by decide

theorem readRecovery_eq_ok {path : String} {db : Database}
    {contract : RecoveryDatabaseContract} {r : Option IndexPublicationRecord} :
    readRecoveryDatabaseIdentity path (some db) contract = .ok r ↔
      Publishes contract db r := by
  unfold readRecoveryDatabaseIdentity inspectPromotionDatabase Publishes
  by_cases hcheck : db.quickCheck = "ok"
  · simp only [hcheck, ne_eq, not_true_eq_false, if_false, true_and]
    by_cases hzero : db.userVersion.toNat = 0
    · have hsentinel : (0 : Nat) ≠ incompleteIncrementalSchemaVersion := sentinel_ne_zero.symm
      simp only [hzero, if_true, hsentinel, false_and, not_true_eq_false, or_false, true_and,
        Except.ok.injEq]
      exact eq_comm
    · by_cases hsentinel : db.userVersion.toNat = incompleteIncrementalSchemaVersion
      · by_cases hmarker : hasIncompleteIncrementalMarker db = true
        · simp [hsentinel, sentinel_ne_zero, hmarker]
        · simp [hsentinel, sentinel_ne_zero, hmarker]
      · by_cases hsupport : contract.supportsCompleteSchema db.userVersion.toNat = true
        · simp [hzero, hsentinel, hsupport]
        · simp [hzero, hsentinel, hsupport]
  · simp [hcheck]

/-- The publication of a file as promotion reads it; an absent file publishes nothing. -/
def Identity (file : Option Database) (r : Option IndexPublicationRecord) : Prop :=
  match file with
  | none => r = none
  | some db => Publishes .currentPromotion db r

/-- The contracts under which promotion and the recovery of its own journals read. -/
def PromotionContract (contract : RecoveryDatabaseContract) : Prop :=
  contract = .currentPromotion ∨ contract = .journal promotionJournalVersion ∨
    contract = .legacyBackup

theorem supports_of_current {contract : RecoveryDatabaseContract}
    (hcontract : PromotionContract contract) {version : Nat}
    (h : RecoveryDatabaseContract.currentPromotion.supportsCompleteSchema version = true) :
    contract.supportsCompleteSchema version = true := by
  have hrange : 29 ≤ version ∧ version ≤ 30 := by
    simp only [RecoveryDatabaseContract.supportsCompleteSchema, Bool.and_eq_true,
      decide_eq_true_eq] at h
    exact h
  rcases hcontract with rfl | rfl | rfl
  · exact h
  · simp only [RecoveryDatabaseContract.supportsCompleteSchema, promotionJournalVersion,
      Bool.and_eq_true, decide_eq_true_eq]
    exact hrange
  · simp only [RecoveryDatabaseContract.supportsCompleteSchema, Bool.and_eq_true,
      decide_eq_true_eq]
    exact ⟨Nat.le_trans (by decide) hrange.1, hrange.2⟩

theorem Identity.read {file : Option Database} {r : Option IndexPublicationRecord}
    (h : Identity file r) {contract : RecoveryDatabaseContract}
    (hcontract : PromotionContract contract) (path : String) :
    readRecoveryDatabaseIdentity path file contract = .ok r := by
  cases file with
  | none =>
    have hr : r = none := h
    rw [hr]
    rfl
  | some db =>
    apply readRecovery_eq_ok.mpr
    obtain ⟨hcheck, hzero | hsentinel | ⟨hne, hns, hsupport, hread⟩⟩ := h
    · exact ⟨hcheck, .inl hzero⟩
    · exact ⟨hcheck, .inr (.inl hsentinel)⟩
    · exact ⟨hcheck, .inr (.inr ⟨hne, hns, supports_of_current hcontract hsupport, hread⟩)⟩

theorem identity_of_read {file : Option Database} {r : Option IndexPublicationRecord}
    {path : String} (h : readRecoveryDatabaseIdentity path file .currentPromotion = .ok r) :
    Identity file r := by
  cases file with
  | none => exact (Except.ok.inj h).symm
  | some db => exact readRecovery_eq_ok.mp h

theorem Identity.unique {file : Option Database} {r r' : Option IndexPublicationRecord}
    (h : Identity file r) (h' : Identity file r') : r = r' := by
  have hread := h.read (.inl rfl) ""
  rw [h'.read (.inl rfl) ""] at hread
  exact (Except.ok.inj hread).symm

theorem identity_empty : Identity (some Database.empty) none :=
  ⟨rfl, .inl ⟨rfl, rfl⟩⟩

/-- A complete candidate at the current schema publishes the same under every contract. -/
theorem identity_of_complete {path role : String} {file : Option Database}
    {r : IndexPublicationRecord}
    (h : requireCompletePromotionDatabaseIdentity path file role = .ok r) :
    Identity file (some r) ∧ ∀ path' role',
      requireCompletePromotionDatabaseIdentity path' file role' = .ok r := by
  cases file with
  | none => exact absurd h (by simp [requireCompletePromotionDatabaseIdentity,
      requirePublication, readCompletePromotionDatabaseIdentity, inspectPromotionDatabase])
  | some db =>
    unfold requireCompletePromotionDatabaseIdentity requirePublication
      readCompletePromotionDatabaseIdentity inspectPromotionDatabase at h ⊢
    by_cases hcheck : db.quickCheck = "ok"
    · by_cases hzero : db.userVersion.toNat = 0
      · simp [hcheck, hzero] at h
      · by_cases hschema : db.userVersion.toNat = schemaVersion
        · simp only [hcheck, hschema, ne_eq, not_true_eq_false, if_false] at h ⊢
          have hne : schemaVersion ≠ 0 := by decide
          simp only [hne, if_false] at h ⊢
          cases hread : readCompleteIndexPublication db with
          | error e => simp [hread] at h
          | ok found =>
            cases found with
            | none => simp [hread] at h
            | some record =>
              obtain rfl : record = r := by simpa [hread] using h
              refine ⟨⟨hcheck, .inr (.inr ⟨hzero, ?_, ?_, hread⟩)⟩, ?_⟩
              · rw [hschema]
                decide
              · rw [hschema]
                decide
              · intro path' role'
                rfl
        · simp [hcheck, hzero, hschema] at h
    · simp [hcheck] at h

/-- The complete source-policy manifest row of a database, if it has one. -/
def Database.sourcePolicyManifest (db : Database) : Option SourcePolicyManifestRow :=
  db.sourcePolicy.bind SourcePolicyTables.manifest

def Database.structuralTextManifest (db : Database) : Option StructuralTextManifestRow :=
  db.structuralText.bind StructuralTextTables.manifest

theorem readSourcePolicy_ok {path path' : String} {file : Option Database}
    {publication : IndexPublicationRecord}
    {found : Option SourcePolicyExclusionRollbackIdentity}
    (h : readSourcePolicyExclusionRollbackIdentity path file publication = .ok found) :
    readSourcePolicyExclusionRollbackIdentity path' file publication = .ok found ∧
      (found.isSome = (file.bind Database.sourcePolicyManifest).isSome) := by
  unfold readSourcePolicyExclusionRollbackIdentity at h ⊢
  cases file with
  | none =>
    obtain rfl := Except.ok.inj h
    exact ⟨rfl, rfl⟩
  | some db =>
    simp only [Option.bind_some, Database.sourcePolicyManifest] at h ⊢
    cases htables : db.sourcePolicy with
    | none =>
      rw [htables] at h
      obtain rfl := Except.ok.inj h
      exact ⟨rfl, rfl⟩
    | some tables =>
      rw [htables] at h
      simp only [Option.bind_some] at h ⊢
      cases hrow : tables.manifest with
      | none =>
        rw [hrow] at h
        obtain rfl := Except.ok.inj h
        exact ⟨rfl, rfl⟩
      | some row =>
        rw [hrow] at h
        simp only [bind, Except.bind] at h ⊢
        cases hformat : sourcePolicyFormat tables row.schemaVersion with
        | error e => simp [hformat] at h
        | ok format =>
          cases hidentity : sourcePolicyIdentity tables row with
          | error e => simp [hformat, hidentity] at h
          | ok identity =>
            cases hrecords : tables.records with
            | error e => simp [hformat, hidentity, hrecords] at h
            | ok records =>
              simp only [hformat, hidentity, hrecords] at h ⊢
              split at h
              · rename_i hmatch
                obtain rfl := Except.ok.inj h
                simp only [hmatch, if_true]
                exact ⟨rfl, rfl⟩
              · exact absurd h (by simp [throw, throwThe, MonadExceptOf.throw])

theorem readStructuralText_ok {path path' : String} {file : Option Database}
    {publication : IndexPublicationRecord}
    {found : Option StructuralTextUnitRollbackIdentity}
    (h : readStructuralTextUnitRollbackIdentity path file publication = .ok found) :
    readStructuralTextUnitRollbackIdentity path' file publication = .ok found ∧
      (found.isSome = (file.bind Database.structuralTextManifest).isSome) := by
  unfold readStructuralTextUnitRollbackIdentity at h ⊢
  cases file with
  | none =>
    obtain rfl := Except.ok.inj h
    exact ⟨rfl, rfl⟩
  | some db =>
    simp only [Option.bind_some, Database.structuralTextManifest] at h ⊢
    cases htables : db.structuralText with
    | none =>
      rw [htables] at h
      obtain rfl := Except.ok.inj h
      exact ⟨rfl, rfl⟩
    | some tables =>
      rw [htables] at h
      simp only [Option.bind_some] at h ⊢
      cases hrow : tables.manifest with
      | none =>
        rw [hrow] at h
        obtain rfl := Except.ok.inj h
        exact ⟨rfl, rfl⟩
      | some row =>
        rw [hrow] at h
        simp only [bind, Except.bind] at h ⊢
        cases hunits : tables.units with
        | error e => simp [hunits] at h
        | ok units =>
          cases hprojections : tables.projections with
          | error e => simp [hunits, hprojections] at h
          | ok projections =>
            cases hrows : tables.projectionRows with
            | error e => simp [hunits, hprojections, hrows] at h
            | ok u =>
              cases hcache : tables.artifactCacheRows with
              | error e => simp [hunits, hprojections, hrows, hcache, Except.mapError] at h
              | ok v =>
                simp only [hunits, hprojections, hrows, hcache, Except.mapError] at h ⊢
                split at h
                · rename_i hmatch
                  obtain rfl := Except.ok.inj h
                  simp only [hmatch, if_true]
                  exact ⟨rfl, rfl⟩
                · exact absurd h (by simp [throw, throwThe, MonadExceptOf.throw])

/-- What the readers of the two auxiliary identities return for a file. -/
def ReadsAuxiliary (file : Option Database) (publication : IndexPublicationRecord)
    (auxiliary : AuxiliaryIdentities) : Prop :=
  ∀ path,
    readSourcePolicyExclusionRollbackIdentity path file publication =
      .ok auxiliary.sourcePolicy ∧
    readStructuralTextUnitRollbackIdentity path file publication =
      .ok auxiliary.structuralText

theorem ReadsAuxiliary.manifests {db : Database} {publication : IndexPublicationRecord}
    {auxiliary : AuxiliaryIdentities} (h : ReadsAuxiliary (some db) publication auxiliary) :
    auxiliary.sourcePolicy.isSome = db.sourcePolicyManifest.isSome ∧
      auxiliary.structuralText.isSome = db.structuralTextManifest.isSome :=
  ⟨(@readSourcePolicy_ok "" "" _ _ _ (h "").1).2, (@readStructuralText_ok "" "" _ _ _ (h "").2).2⟩

theorem requireRecorded_ok {ι : Type} [DecidableEq ι] {path role what : String}
    {read : Except StorageError (Option ι)} {expected : Option ι} (h : read = .ok expected) :
    requireRecorded path role what read expected = .ok () := by
  unfold requireRecorded
  rw [h]
  cases expected with
  | none => rfl
  | some _ => simp

theorem requireCandidate_ok {ι : Type} [DecidableEq ι] {path role what : String}
    {read : Except StorageError (Option ι)} {expected : Option ι} (h : read = .ok expected)
    (hsome : expected ≠ none) : requireCandidate path role what read expected = .ok () := by
  cases expected with
  | none => exact absurd rfl hsome
  | some found => exact requireRecorded_ok h

/-- Without a journal, a current-schema database needs both manifests; an older one is
compared by its source policy alone. -/
theorem readJournalLess_ok {file : Option Database} {publication : IndexPublicationRecord}
    {auxiliary : AuxiliaryIdentities} (h : ReadsAuxiliary file publication auxiliary)
    {version : Nat} (hversion : sourcePolicyPromotionMinSchemaVersion ≤ version)
    (hmanifests : version = schemaVersion →
      auxiliary.sourcePolicy.isSome = true ∧ auxiliary.structuralText.isSome = true)
    (path role : String) :
    readJournalLessRecoveryAuxiliaryIdentities path file publication version role =
      .ok ⟨auxiliary.sourcePolicy,
        if version = schemaVersion then auxiliary.structuralText else none⟩ := by
  unfold readJournalLessRecoveryAuxiliaryIdentities
  obtain ⟨hsource, hstructural⟩ := h path
  by_cases hcurrent : version = schemaVersion
  · obtain ⟨hsp, hst⟩ := hmanifests hcurrent
    obtain ⟨sp, hsp⟩ := Option.isSome_iff_exists.mp hsp
    obtain ⟨st, hst⟩ := Option.isSome_iff_exists.mp hst
    simp only [hsource, hstructural, hsp, hst, hcurrent, ge_iff_le, if_true, bind,
      Except.bind, reduceCtorEq, and_false, if_false, pure, Except.pure]
    have : sourcePolicyPromotionMinSchemaVersion ≤ schemaVersion := by decide
    simp [this]
  · simp [hversion, hsource, hcurrent, bind, Except.bind, pure, Except.pure]

theorem readJournalLess_error {file : Option Database} {publication : IndexPublicationRecord}
    {auxiliary : AuxiliaryIdentities} (h : ReadsAuxiliary file publication auxiliary)
    (hmissing : auxiliary.sourcePolicy = none ∨ auxiliary.structuralText = none)
    (path role : String) :
    ∃ e, readJournalLessRecoveryAuxiliaryIdentities path file publication schemaVersion role =
      .error e := by
  unfold readJournalLessRecoveryAuxiliaryIdentities
  obtain ⟨hsource, hstructural⟩ := h path
  have hge : sourcePolicyPromotionMinSchemaVersion ≤ schemaVersion := by decide
  cases hsp : auxiliary.sourcePolicy with
  | none =>
    rw [hsp] at hsource
    exact ⟨_, by simp [hge, hsource, bind, Except.bind, throw, throwThe,
      MonadExceptOf.throw]; rfl⟩
  | some sp =>
    have hst : auxiliary.structuralText = none := by
      rcases hmissing with hmissing | hmissing
      · rw [hsp] at hmissing
        exact absurd hmissing (by simp)
      · exact hmissing
    rw [hsp] at hsource
    rw [hst] at hstructural
    exact ⟨_, by simp [hge, hsource, hstructural, bind, Except.bind, throw, throwThe,
      MonadExceptOf.throw]; rfl⟩

end CodeStory.Store
