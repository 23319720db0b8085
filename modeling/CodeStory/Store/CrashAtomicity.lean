import Mathlib.Logic.Relation
import CodeStory.Store.Recovery

/-!
# Crash atomicity of core publication

Promotion keeps the invariant of `Recovery` at every step from a clean disk on, so the
invariant holds of whatever a crash leaves behind, and of whatever any number of
interrupted recoveries make of that.
-/

set_option autoImplicit false

namespace CodeStory.Store

open Prog

section Invariant
variable {candidate : Candidate} {previous : Previous}

section Promote
variable {X : Exits (Option StorageError) Disk StorageError} {d : Disk}
variable (paths : PromotionPaths) (hX : Tolerates candidate previous X)
variable (hX' : ∀ e d, Inv candidate previous d → X.failed e d)
include hX hX'

theorem discardPrepared_wp {error : StorageError} {Q : Unit → Disk → Prop}
    (hd : Inv candidate previous d)
    (hdiscarded : Inv candidate previous { d with prepared := none }) :
    wp X (discardPrepared error) Q d := by
  have hsync : ∀ d', Inv candidate previous d' →
      wp X (do
        let _ ← Prog.attempt syncPromotionParent
        Prog.fail error : Io Unit) Q d' := by
    intro d' hd'
    rw [wp_bind, wp_attempt]
    exact io_wp (fun _ _ _ => hX' _ _ hd') (hX' _ _ hd')
  unfold discardPrepared
  rw [wp_bind, wp_attempt, wp_bind]
  refine io_wp (fun _ _ _ => hsync d hd) ?_
  exact ⟨hX.passed _ hdiscarded, hsync _ hdiscarded⟩

/-- Before the journal exists everything the rollback will need is in place. -/
structure Ready (candidate : Candidate) (previous : Previous) (d : Disk) : Prop
    extends Protected previous d where
  prepared : d.prepared = none
  live : Holds previous d.live
  staged : HoldsCandidate candidate d.staged

omit hX hX' in
theorem Ready.before {d : Disk} (hd : Ready candidate previous d) :
    Before candidate previous d := by
  refine ⟨hd.renamed, hd.committed, hd.prepared, hd.live.identity, fun _ => hd.live, ?_⟩
  by_cases hnone : previous.publication = none
  · exact .inl (hd.first hnone)
  · exact .inr ⟨hnone, .inr (hd.later hnone)⟩

omit hX hX' in
theorem Ready.torn {d : Disk} (hd : Ready candidate previous d) :
    Torn previous { d with prepared := some .torn } :=
  { renamed := hd.renamed
    committed := hd.committed
    first := hd.first
    later := hd.later
    prepared := rfl
    live := hd.live }

omit hX hX' in
theorem Ready.written {d : Disk} (hd : Ready candidate previous d) :
    Written candidate previous
      { d with prepared := some (.written (preparedJournal candidate previous)) } :=
  { renamed := hd.renamed
    committed := hd.committed
    first := hd.first
    later := hd.later
    prepared := rfl
    live := .inl hd.live }

theorem writePromotionJournal_wp (hd : Ready candidate previous d)
    {Q : Unit → Disk → Prop}
    (hQ : Q () { d with prepared := some (.written (preparedJournal candidate previous)) }) :
    wp X (writePromotionJournal paths (preparedJournal candidate previous)) Q d := by
  have hdiscard : Inv candidate previous { d with prepared := none } := by
    have hsame : { d with prepared := none } = d := by
      rw [← hd.prepared]
    rw [hsame]
    exact hd.before.inv
  have hwritten : Inv candidate previous
      { d with prepared := some (.written (preparedJournal candidate previous)) } :=
    hd.written.inv
  unfold writePromotionJournal
  rw [wp_bind]
  refine io_wp (hX.injected d hd.before.inv) ?_
  rw [wp_bind, wp_read, hd.prepared]
  dsimp only
  rw [wp_bind, wp_modify]
  refine ⟨hX.passed _ hd.torn.inv, ?_⟩
  rw [wp_bind, wp_attempt]
  refine io_wp ?_ ?_
  · intro _ _ _
    exact discardPrepared_wp hX hX' hd.torn.inv hdiscard
  · dsimp only
    rw [wp_bind, wp_modify]
    refine ⟨hX.passed _ hwritten, ?_⟩
    rw [wp_bind, wp_attempt]
    refine io_wp ?_ ?_
    · intro _ _ _
      exact discardPrepared_wp hX hX' hwritten hdiscard
    · dsimp only
      rw [wp_bind, wp_attempt]
      refine io_wp ?_ hQ
      intro _ _ _
      exact discardPrepared_wp hX hX' hwritten hdiscard

omit hX hX' in
/-- Removing the backup is harmless whenever no journal is prepared. -/
theorem inv_without_backup {d : Disk} (hd : Inv candidate previous d)
    (hprepared : d.prepared = none) : Inv candidate previous { d with backup := none } := by
  rcases hd with hd | hd | hd | hd
  · exact Before.inv { hd with backup := .inl rfl }
  · rw [hd.prepared] at hprepared
    exact absurd hprepared (by simp)
  · rw [hd.prepared] at hprepared
    exact absurd hprepared (by simp)
  · exact After.inv { hd with committed := hd.committed.imp_right fun h => ⟨h.1, rfl⟩ }

/-- After a failed write of the journal: the backup goes only if the journal is gone. -/
theorem prepareFailed_wp {error : StorageError} {Q : Unit → Disk → Prop}
    (hd : Inv candidate previous d) :
    wp X (do
      let remaining ← Prog.read Disk.prepared
      match remaining with
      | some _ => Prog.fail error
      | none => do
        let _ ← Prog.attempt (cleanupSqliteSidecars .backup)
        Prog.fail error : Io Unit) Q d := by
  rw [wp_bind, wp_read]
  cases hprepared : d.prepared with
  | some _ => exact hX' _ _ hd
  | none =>
    rw [wp_bind, wp_attempt]
    refine cleanupSqliteSidecars_wp ?_ ?_ ?_
    · intro _ _ _
      exact hX' _ _ hd
    · intro _
      have hcleaned := inv_without_backup hd hprepared
      exact ⟨hX.passed _ hcleaned, hX' _ _ hcleaned⟩
    · intro _
      exact hX' _ _ hd

theorem prepare_wp (hd : Ready candidate previous d) {Q : Unit → Disk → Prop}
    (hQ : Q () { d with prepared := some (.written (preparedJournal candidate previous)) }) :
    wp X (prepare paths (preparedJournal candidate previous)) Q d := by
  unfold prepare
  rw [wp_bind, wp_attempt]
  have hcaught : ∀ e d', Inv candidate previous d' → _ := fun (e : StorageError) d' hd' =>
    @prepareFailed_wp candidate previous X d' hX hX' e Q hd'
  refine writePromotionJournal_wp paths ?_ hcaught hd hQ
  exact ⟨hX.passed, fun d' hd' _ _ e' => hcaught e' d' hd', fun _ e d' hd' => hcaught e d' hd'⟩

variable (hsource : candidate.sourcePolicy ≠ none)
variable (hstructural : candidate.structuralText ≠ none)
include hsource hstructural

theorem rollBackAndFail_wp {α : Type} {error : StorageError} {Q : α → Disk → Prop}
    (hd : Written candidate previous d) :
    wp X (rollBackAndFail paths (preparedJournal candidate previous) error : Io α) Q d := by
  unfold rollBackAndFail
  rw [wp_bind, wp_attempt]
  have hcaught : ∀ d', Inv candidate previous d' → X.failed error d' := hX' error
  have htolerates : Tolerates candidate previous
      { X with failed := fun _ d' => X.failed error d' } :=
    ⟨hX.passed, fun d' hd' _ _ _ => hcaught d' hd', fun _ _ d' hd' => hcaught d' hd'⟩
  exact wp_mono (rollbackPreparedPromotion_wp paths htolerates hsource hstructural hd)
    (fun _ h => h) (fun _ h => h) (fun _ _ h => h) (fun _ h => h)
    fun _ d' h => hX' error d' h.1.inv

/-- The copy into the live file, once that file exists. -/
def copyToLive (prepared : PromotionJournal) : Io Unit := do
  io
  let restored ← Prog.attempt (do
    openDatabase .staged
    copyDatabase .staged .live)
  match restored with
  | .ok () => pure ()
  | .error error =>
    rollBackAndFail paths prepared (.other ("Failed to promote staged snapshot " ++
      paths.database .staged ++ " -> " ++ paths.database .live ++ ": " ++ error.text))

theorem installCandidate_wp (hd : Written candidate previous d) (hlive : Holds previous d.live)
    (hstaged : HoldsCandidate candidate d.staged) {Q : Unit → Disk → Prop}
    (hQ : ∀ d', Written candidate previous d' → HoldsCandidate candidate d'.live → Q () d') :
    wp X (installCandidate paths (preparedJournal candidate previous)) Q d := by
  have hcopy : ∀ d', Written candidate previous d' → d'.staged = d.staged →
      wp X (copyToLive paths (preparedJournal candidate previous)) Q d' := by
    intro d' hd' hsame
    unfold copyToLive
    have hstaged' : HoldsCandidate candidate d'.staged := hsame ▸ hstaged
    have hinstalled : Written candidate previous { d' with live := d'.staged } :=
      { hd' with live := .inr hstaged' }
    rw [wp_bind]
    refine io_wp (hX.injected d' hd'.inv) ?_
    rw [wp_bind, wp_attempt, wp_bind]
    refine openDatabase_wp ?_ ?_ ?_
    · intro _ _ _
      exact rollBackAndFail_wp paths hX hX' hsource hstructural hd'
    · intro habsent
      exact absurd habsent hstaged'.identity.ne_none
    · intro _
      refine copyDatabase_wp ?_ (hX.passed _ hinstalled.inv) (hQ _ hinstalled hstaged')
      intro _ _ _
      exact rollBackAndFail_wp paths hX hX' hsource hstructural hd'
  unfold installCandidate
  rw [wp_bind]
  refine openDatabase_wp (hX.injected d hd.inv) ?_ fun _ => hcopy d hd rfl
  intro habsent
  have hnone : previous.publication = none := by
    have hid := hlive.identity
    have habsent : d.live = none := habsent
    rw [habsent] at hid
    exact hid
  have hcreated : Written candidate previous { d with live := some Database.empty } :=
    { hd with live := .inl (holds_of_none hnone identity_empty) }
  exact ⟨hX.passed _ hcreated.inv, hcopy _ hcreated rfl⟩

theorem validatePromoted_wp (hd : Written candidate previous d)
    (hlive : HoldsCandidate candidate d.live) {Q : Unit → Disk → Prop} (hQ : Q () d) :
    wp X (validatePromoted paths (preparedJournal candidate previous)) Q d := by
  have hread := hlive.complete (paths.database .live) "Promoted live database"
  unfold validatePromoted
  rw [wp_bind]
  refine inspect_wp (hX.injected d hd.inv) ?_ ?_
  · intro published hpublished
    obtain rfl : candidate.publication = published :=
      Except.ok.inj (hread.symm.trans hpublished)
    rw [if_neg (by simp [preparedJournal]), wp_bind, wp_attempt]
    refine requireCandidateIdentities_wp paths .live ?_ hlive hQ
    intro _ _ _
    exact rollBackAndFail_wp paths hX hX' hsource hstructural hd
  · intro e he
    exact absurd (hread.symm.trans he) (by simp)

theorem commit_wp (hd : Written candidate previous d)
    (hlive : HoldsCandidate candidate d.live) {Q : Unit → Disk → Prop}
    (hQ : ∀ d', After candidate previous d' → Q () d') :
    wp X (commit paths (preparedJournal candidate previous)) Q d := by
  have hafter : After candidate previous
      { d with committed := d.prepared, prepared := none, renamed := true } :=
    ⟨rfl, rfl, hlive, .inl hd.prepared⟩
  unfold commit
  rw [wp_bind, wp_attempt]
  unfold commitPromotionJournal
  rw [wp_bind, wp_read, hd.committed]
  dsimp only
  rw [wp_bind]
  refine io_wp ?_ ?_
  · intro _ _ _
    dsimp only
    rw [wp_bind, wp_read, hd.committed]
    exact rollBackAndFail_wp paths hX hX' hsource hstructural hd
  · rw [wp_bind, wp_modify]
    refine ⟨hX.passed _ hafter.inv, ?_⟩
    refine io_wp ?_ (hQ _ hafter)
    intro _ _ _
    dsimp only
    rw [wp_bind, wp_read]
    have hinv := hafter.inv
    rw [hd.prepared] at hinv
    dsimp only
    rw [hd.prepared]
    exact hX' _ _ hinv

end Promote

section Start
variable {X : Exits (Option StorageError) Disk StorageError} {d : Disk}
variable (paths : PromotionPaths) (hfail : ∀ e, X.failed e d)
include hfail

theorem validateCandidate_wp {Q : Candidate → Disk → Prop}
    (hQ : ∀ candidate, HoldsCandidate candidate d.staged → Q candidate d) :
    wp X (validateCandidate paths) Q d := by
  have hsafe : FailsSafely X d := fun _ _ e' => hfail e'
  unfold validateCandidate
  rw [wp_bind]
  refine inspect_wp hsafe ?_ fun e _ => hfail e
  intro publication hpublication
  obtain ⟨hid, hcomplete⟩ := identity_of_complete hpublication
  rw [wp_bind]
  refine inspect_wp hsafe ?_ fun e _ => hfail e
  intro sourcePolicy hsource
  split
  · exact hfail _
  · rename_i hsomeSource
    rw [wp_bind]
    refine inspect_wp hsafe ?_ fun e _ => hfail e
    intro structuralText hstructural
    split
    · exact hfail _
    · rename_i hsomeStructural
      exact hQ ⟨publication, sourcePolicy, structuralText⟩
        ⟨hid, hcomplete, fun path => ⟨(readSourcePolicy_ok hsource).1,
          (readStructuralText_ok hstructural).1⟩, hsomeSource, hsomeStructural⟩

theorem readPrevious_wp {Q : Previous → Disk → Prop}
    (hQ : ∀ previous, Holds previous d.live → Q previous d) :
    wp X (readPrevious paths) Q d := by
  have hsafe : FailsSafely X d := fun _ _ e' => hfail e'
  unfold readPrevious
  rw [wp_bind]
  refine inspect_wp hsafe ?_ fun e _ => hfail e
  intro publication hpublication
  have hid := identity_of_read hpublication
  split
  · exact hQ ⟨none, none, none⟩ (holds_of_none rfl hid)
  · rename_i p
    rw [wp_bind]
    refine inspect_wp hsafe ?_ fun e _ => hfail e
    intro sourcePolicy hsource
    rw [wp_bind]
    refine inspect_wp hsafe ?_ fun e _ => hfail e
    intro structuralText hstructural
    refine hQ ⟨some p, sourcePolicy, structuralText⟩ ⟨hid, ?_⟩
    intro q hq path
    obtain rfl := Option.some.inj hq
    exact ⟨(readSourcePolicy_ok hsource).1, (readStructuralText_ok hstructural).1⟩

theorem databaseLogicalBytes_wp (file : DatabaseFile) {Q : Nat → Disk → Prop}
    (hQ : ∀ n, Q n d) : wp X (databaseLogicalBytes file) Q d := by
  refine inspect_wp (fun _ _ e' => hfail e') (fun n _ => hQ n) fun e _ => hfail e

end Start

section Backup
variable {X : Exits (Option StorageError) Disk StorageError} {d : Disk}
variable (paths : PromotionPaths) (hX : Tolerates candidate previous X)
variable (hX' : ∀ e d, Inv candidate previous d → X.failed e d)
include hX hX'

/-- From a clean disk, the previous publication is copied aside before anything else. -/
theorem protectPrevious_wp (hrenamed : d.renamed = false) (hcommitted : d.committed = none)
    (hprepared : d.prepared = none) (hbackup : d.backup = none)
    (hlive : Holds previous d.live) (hstaged : HoldsCandidate candidate d.staged)
    {Q : Option Nat × Option Nat → Disk → Prop}
    (hQ : ∀ bytes d', Ready candidate previous d' → Q bytes d') :
    wp X (protectPrevious paths previous) Q d := by
  have hbefore : Before candidate previous d :=
    ⟨hrenamed, hcommitted, hprepared, hlive.identity, fun _ => hlive, .inl hbackup⟩
  have hfail := hX.injected d hbefore.inv
  unfold protectPrevious
  cases hp : previous.publication with
  | none =>
    dsimp only
    rw [wp_bind]
    refine cleanupSqliteSidecars_wp hfail (fun h => absurd hbackup h) fun _ => ?_
    refine hQ _ d { renamed := hrenamed, committed := hcommitted, first := fun _ => hbackup,
                    later := ?_, prepared := hprepared, live := hlive, staged := hstaged }
    intro hsome
    exact absurd hp hsome
  | some p =>
    have hsome : previous.publication ≠ none := by simp [hp]
    have hliveId : Identity d.live (some p) := hp ▸ hlive.identity
    have hopened : Before candidate previous { d with backup := some Database.empty } :=
      { hbefore with backup := .inr ⟨hsome, .inl rfl⟩ }
    have hcopied : Ready candidate previous { d with backup := d.live } :=
      { renamed := hrenamed
        committed := hcommitted
        first := fun hnone => absurd hnone hsome
        later := fun _ => hlive
        prepared := hprepared
        live := hlive
        staged := hstaged }
    have hfailCopied := hX.injected _ hcopied.before.inv
    dsimp only
    rw [wp_bind]
    refine cleanupSqliteSidecars_wp hfail (fun h => absurd hbackup h) fun _ => ?_
    rw [wp_bind]
    refine databaseLogicalBytes_wp (fun e => hX' e d hbefore.inv) .live fun liveBytes => ?_
    rw [wp_bind]
    unfold backUpPrevious
    rw [wp_bind]
    refine openDatabase_wp hfail (fun h => absurd h hliveId.ne_none) fun _ => ?_
    rw [wp_bind]
    refine openDatabase_wp hfail ?_ (fun h => absurd hbackup h)
    intro _
    refine ⟨hX.passed _ hopened.inv, ?_⟩
    rw [wp_bind]
    refine copyDatabase_wp (hX.injected _ hopened.inv) (hX.passed _ hcopied.before.inv) ?_
    rw [wp_bind]
    refine requireRecovery_wp paths .backup hfailCopied (.inl rfl) hliveId ?_
    rw [if_neg (by simp), wp_bind]
    refine requireRecordedIdentities_wp paths .backup hfailCopied
      (.inl ⟨_, hlive.auxiliary p hp, confirms_self _⟩) ?_
    exact databaseLogicalBytes_wp (fun e => hX' e _ hcopied.before.inv) .backup
      fun backupBytes => hQ _ _ hcopied

end Backup

end Invariant

/-- Every disk that a promotion of candidate `c` over previous publication `p` can leave
behind: untouched, or inside the invariant. -/
def Progress (d₀ : Disk) (c : IndexPublicationRecord) (p : Option IndexPublicationRecord)
    (d : Disk) : Prop :=
  d = d₀ ∨ ∃ candidate previous, candidate.publication = c ∧ previous.publication = p ∧
    candidate.sourcePolicy ≠ none ∧ candidate.structuralText ≠ none ∧
    Inv candidate previous d

def progressExits (d₀ : Disk) (c : IndexPublicationRecord)
    (p : Option IndexPublicationRecord) : Exits (Option StorageError) Disk StorageError :=
  ⟨fun _ => True, Progress d₀ c p, fun _ => Progress d₀ c p, Progress d₀ c p⟩

/-- A disk with no trace of an earlier promotion. -/
def Clean (d : Disk) : Prop := promotionArtifactsExist d = false ∧ d.renamed = false

theorem Clean.fields {d : Disk} (h : Clean d) :
    d.backup = none ∧ d.prepared = none ∧ d.committed = none := by
  have := h.1
  simp only [promotionArtifactsExist, Bool.or_eq_false_iff, Option.isSome_eq_false_iff,
    Option.isNone_iff_eq_none] at this
  exact ⟨this.1.1, this.1.2, this.2⟩

theorem recover_clean_wp {X : Exits (Option StorageError) Disk StorageError} {d : Disk}
    (paths : PromotionPaths) (hclean : Clean d) {Q : Unit → Disk → Prop} (hQ : Q () d) :
    wp X (recoverInterruptedPromotionLocked paths) Q d := by
  obtain ⟨hbackup, hprepared, hcommitted⟩ := hclean.fields
  unfold recoverInterruptedPromotionLocked
  rw [wp_bind, wp_read]
  dsimp only [id]
  rw [hbackup, hprepared, hcommitted]
  exact hQ

/-- Every state a promotion passes through, from a clean disk. -/
theorem promoteStagedSnapshot_wp (paths : PromotionPaths) {d : Disk} (hclean : Clean d)
    {c : IndexPublicationRecord} {p : Option IndexPublicationRecord} {path role : String}
    (hcandidate : requireCompletePromotionDatabaseIdentity path d.staged role = .ok c)
    (hprevious : Identity d.live p) :
    wp (progressExits d c p) (promoteStagedSnapshot paths)
      (fun _ => Progress d c p) d := by
  have hfail : ∀ e, (progressExits d c p).failed e d := fun _ => .inl rfl
  obtain ⟨hbackup, hprepared, hcommitted⟩ := hclean.fields
  unfold promoteStagedSnapshot
  rw [wp_bind]
  refine io_wp (fun _ _ e => hfail e) ?_
  rw [wp_bind]
  refine recover_clean_wp paths hclean ?_
  rw [wp_bind, wp_read, hclean.1, if_neg (by simp), wp_bind]
  refine validateCandidate_wp paths hfail ?_
  intro candidate hstaged
  rw [wp_bind]
  refine databaseLogicalBytes_wp hfail .staged fun candidateBytes => ?_
  rw [wp_bind]
  refine readPrevious_wp paths hfail ?_
  intro previous hlive
  have hc : candidate.publication = c :=
    Except.ok.inj ((hstaged.complete path role).symm.trans hcandidate)
  have hp : previous.publication = p := hlive.identity.unique hprevious
  have hprogress : ∀ d', Inv candidate previous d' → Progress d c p d' := fun d' hd' =>
    .inr ⟨candidate, previous, hc, hp, hstaged.sourcePolicy, hstaged.structuralText, hd'⟩
  have hX' : ∀ e d', Inv candidate previous d' → (progressExits d c p).failed e d' :=
    fun _ => hprogress
  have hX : Tolerates candidate previous (progressExits d c p) :=
    ⟨hprogress, fun d' hd' _ _ _ => hprogress d' hd', fun _ _ => hprogress⟩
  rw [wp_bind]
  refine protectPrevious_wp paths hX hX' hclean.2 hcommitted hprepared hbackup hlive hstaged ?_
  intro bytes d₁ hd₁
  dsimp only
  rw [wp_bind]
  refine prepare_wp paths hX hX' hd₁ ?_
  rw [wp_bind]
  refine installCandidate_wp paths hX hX' hstaged.sourcePolicy hstaged.structuralText
    hd₁.written hd₁.live hd₁.staged ?_
  intro d₂ hd₂ hinstalled
  rw [wp_bind]
  refine validatePromoted_wp paths hX hX' hstaged.sourcePolicy hstaged.structuralText hd₂
    hinstalled ?_
  rw [wp_bind]
  refine commit_wp paths hX hX' hstaged.sourcePolicy hstaged.structuralText hd₂ hinstalled ?_
  intro d₃ hd₃
  have hfinish : ∀ d', After candidate previous d' →
      wp (progressExits d c p) (do
        let _ ← Prog.attempt cleanupCommittedPromotionArtifacts
        pure (⟨candidateBytes, bytes.1, bytes.2⟩ : CorePromotionStats))
        (fun _ => Progress d c p) d' := by
    intro d' hd'
    rw [wp_bind]
    exact wp_mono (cleanupCommitted_wp hX hd') (fun _ h => h) (fun _ h => h)
      (fun _ _ h => h) (fun _ h => h) fun _ d'' h => hprogress d'' h.1.inv
  rw [wp_bind, wp_attempt]
  refine cleanupSqliteSidecars_wp ?_ ?_ ?_
  · intro _ _ _
    exact hfinish d₃ hd₃
  · intro _
    have hremoved : After candidate previous { d₃ with staged := none } :=
      ⟨hd₃.renamed, hd₃.prepared, hd₃.live, hd₃.committed⟩
    exact ⟨hprogress _ hremoved.inv, hfinish _ hremoved⟩
  · intro _
    exact hfinish d₃ hd₃

section Runs
variable (paths : PromotionPaths) {d₀ : Disk} {c : IndexPublicationRecord}
variable {p : Option IndexPublicationRecord}

theorem Progress.passed_exits : (progressExits d₀ c p).passed = Progress d₀ c p := rfl

/-- A disk left by an interrupted promotion and any number of interrupted recoveries. -/
def Recovering (d₀ d : Disk) : Prop :=
  ∃ d₁, Leaves (promoteStagedSnapshot paths) d₀ d₁ ∧
    Relation.ReflTransGen (Leaves (recoverInterruptedPromotionLocked paths)) d₁ d

/-- One recovery, from any disk of the history, stays inside it; when it returns, the
rename alone decides which publication is live. -/
theorem recover_progress_wp (hclean : Clean d₀) (hprevious : Identity d₀.live p) {d : Disk}
    (hd : Progress d₀ c p d) :
    wp (progressExits d₀ c p) (recoverInterruptedPromotionLocked paths)
      (fun _ d' => Identity d'.live (if d'.renamed then some c else p)) d := by
  rcases hd with rfl | ⟨candidate, previous, hc, hp, hsource, hstructural, hinv⟩
  · refine recover_clean_wp paths hclean ?_
    rw [hclean.2, if_neg (by simp)]
    exact hprevious
  · have hprogress : ∀ d', Inv candidate previous d' → Progress d₀ c p d' := fun d' hd' =>
      .inr ⟨candidate, previous, hc, hp, hsource, hstructural, hd'⟩
    have hX : Tolerates candidate previous (progressExits d₀ c p) :=
      ⟨hprogress, fun d' hd' _ _ _ => hprogress d' hd', fun _ _ => hprogress⟩
    refine wp_mono (recover_wp paths hX hsource hstructural hinv fun _ _ => hprogress d hinv)
      (fun _ h => h) (fun _ h => h) (fun _ _ h => h) (fun _ h => h) ?_
    rintro _ d' (⟨hbefore, -⟩ | ⟨hafter, -⟩)
    · rw [hbefore.renamed, if_neg (by simp), ← hp]
      exact hbefore.live
    · rw [hafter.renamed, if_pos rfl, ← hc]
      exact hafter.live.identity

theorem Recovering.progress (hclean : Clean d₀) {path role : String}
    (hcandidate : requireCompletePromotionDatabaseIdentity path d₀.staged role = .ok c)
    (hprevious : Identity d₀.live p) {d : Disk} (h : Recovering paths d₀ d) :
    Progress d₀ c p d := by
  obtain ⟨d₁, hcrash, hrecoveries⟩ := h
  have hanswers : ∀ a, (progressExits d₀ c p).answers a := fun _ => trivial
  have hstart : Progress d₀ c p d₁ := by
    rw [← Progress.passed_exits]
    exact hcrash.passed hanswers (.inl rfl)
      (promoteStagedSnapshot_wp paths hclean hcandidate hprevious)
  induction hrecoveries with
  | refl => exact hstart
  | tail _ hattempt ih =>
    rw [← Progress.passed_exits]
    exact hattempt.passed hanswers ih (recover_progress_wp paths hclean hprevious ih)

/-- Crash atomicity: however often promotion and recovery were interrupted, a recovery
that returns leaves exactly the candidate live if the journal was renamed, and exactly the
previous publication, or none, otherwise. -/
theorem recovered_publication (hclean : Clean d₀) {path role : String}
    (hcandidate : requireCompletePromotionDatabaseIdentity path d₀.staged role = .ok c)
    (hprevious : readRecoveryDatabaseIdentity path d₀.live .currentPromotion = .ok p)
    {d : Disk} (hcrashes : Recovering paths d₀ d) (world : Nat → Option StorageError) (t : Nat)
    {r : Prog.Result Disk StorageError Unit}
    (hrun : (recoverInterruptedPromotionLocked paths).run world t d = r)
    (hreturned : r.outcome = .returned ()) :
    readRecoveryDatabaseIdentity path r.final.live .currentPromotion =
      .ok (if r.final.renamed then some c else p) := by
  have hid := identity_of_read hprevious
  have hprogress := hcrashes.progress paths hclean hcandidate hid
  have hworld : ∀ n, (progressExits d₀ c p).answers (world n) := fun _ => trivial
  have hend := (wp_run (recover_progress_wp paths hclean hid hprogress) hworld t).2
  rw [hrun, hreturned] at hend
  exact hend.read (.inl rfl) path

end Runs

section Sample

def samplePaths : PromotionPaths where
  database
    | .live => "codestory.db"
    | .backup => "codestory.db.promotion-backup"
    | .staged => "codestory.db.staged"
  prepared := "codestory.db.promotion-prepared.json"
  committed := "codestory.db.promotion-committed.json"

def sampleRecord (generation : Nat) (id : String) : IndexPublicationRecord :=
  ⟨generation, id, "run", .full, 7⟩

/-- A current-schema database that publishes `sampleRecord`, with both manifests. -/
def sampleDatabase (generation : Nat) (id : String) : Database where
  quickCheck := "ok"
  userVersion := 30
  incompleteIndexRun := some false
  indexPublication := some (some ⟨generation, id, "run", "full", 7⟩)
  sourcePolicy := some
    { hasStructuralPolicyIdentity := true
      manifest := some ⟨2, "project", "workspace", id, "run", 7, 0, "none", "v1", 10, 2048⟩
      records := .ok []
      currentDigest := "none"
      legacyDigest := "none" }
  structuralText := some
    { manifest := some ⟨id, "run", 7, 0, "none", 0, "none", 1, "native_v1"⟩
      units := .ok ⟨0, "none", []⟩
      projections := .ok ⟨0, "none", []⟩
      projectionRows := .ok ()
      artifactCacheRows := .ok ()
      invalidRows := 0 }
  logicalBytes := 4096

def sampleDisk (live : Database) : Disk where
  live := some live
  backup := none
  staged := some (sampleDatabase 2 "second")
  prepared := none
  committed := none
  renamed := false

/-- The disk after the first `steps` changes of an undisturbed promotion. -/
def crashedAfter (steps : Nat) (d : Disk) : Disk :=
  ((d :: ((promoteStagedSnapshot samplePaths).run (fun _ => none) 0 d).visited)[steps]?).getD d

theorem crashedAfter_recovering (steps : Nat) (d : Disk) :
    Recovering samplePaths d (crashedAfter steps d) := by
  refine ⟨crashedAfter steps d, ⟨fun _ => none, 0, ?_⟩, .refl⟩
  unfold crashedAfter
  generalize ((promoteStagedSnapshot samplePaths).run (fun _ => none) 0 d).visited = passed
  cases hget : (d :: passed)[steps]? with
  | none => exact List.mem_cons_self
  | some d' => exact List.mem_of_getElem? hget

end Sample

/-- Recovery after a crash so many steps into the promotion. -/
def recoveredAfter (steps : Nat) : Prog.Result Disk StorageError Unit :=
  (recoverInterruptedPromotionLocked samplePaths).run (fun _ => none) 0
    (crashedAfter steps (sampleDisk (sampleDatabase 1 "first")))

/-- The candidate is copied over the live database in the fifth step, and the rename is the
sixth. -/
theorem recovered_publication_around_rename :
    readRecoveryDatabaseIdentity "codestory.db" (recoveredAfter 5).final.live .currentPromotion =
        .ok (some (sampleRecord 1 "first")) ∧
      readRecoveryDatabaseIdentity "codestory.db" (recoveredAfter 6).final.live
        .currentPromotion = .ok (some (sampleRecord 2 "second")) := by
  have hclean : Clean (sampleDisk (sampleDatabase 1 "first")) := ⟨rfl, rfl⟩
  have hcandidate : requireCompletePromotionDatabaseIdentity "codestory.db"
      (sampleDisk (sampleDatabase 1 "first")).staged "Candidate" =
        .ok (sampleRecord 2 "second") := by decide
  have hprevious : readRecoveryDatabaseIdentity "codestory.db"
      (sampleDisk (sampleDatabase 1 "first")).live .currentPromotion =
        .ok (some (sampleRecord 1 "first")) := by decide
  exact ⟨recovered_publication samplePaths hclean hcandidate hprevious
      (crashedAfter_recovering 5 _) (fun _ => none) 0 rfl (by decide),
    recovered_publication samplePaths hclean hcandidate hprevious
      (crashedAfter_recovering 6 _) (fun _ => none) 0 rfl (by decide +kernel)⟩

end CodeStory.Store
