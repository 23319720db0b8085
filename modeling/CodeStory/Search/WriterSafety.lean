import CodeStory.Search.Pruning
import CodeStory.Search.Writer
import CodeStory.Store.Recoverability

/-!
# The writer keeps the generation of what is live

Whatever step fails, and wherever a promotion stops, the publication that a recovery finds live
has its search generation: the new one, completed, once the prepared journal has been renamed,
and the untouched previous one until then. This holds along every run in which the reads of the
live publication do not fail and the live database is not fenced as incomplete. A failed read is
taken for the absence of the publication, and then a completed generation is deleted under a core
that needs it.
-/

set_option autoImplicit false

namespace CodeStory.Search

open Store Prog

section Frame
variable (name : String)

/-- Everything but one generation stays as it is. -/
def offGeneration : Frame Workspace where
  rel s t := t.disk = s.disk ∧ ∀ other, other ≠ name → t.catalog other = s.catalog other
  refl _ := ⟨rfl, fun _ _ => rfl⟩
  trans h h' := ⟨h'.1.trans h.1, fun other hne => (h'.2 other hne).trans (h.2 other hne)⟩

variable {name}

theorem keeps_call {F : Frame Workspace} (message : String) : Keeps F (call message) := by
  refine keeps_bind (keeps_query _) ?_
  intro failure
  cases failure with
  | none => exact keeps_pure ()
  | some error => exact keeps_fail _

theorem keeps_ensureIndexingActive {F : Frame Workspace} : Keeps F ensureIndexingActive := by
  refine keeps_bind (keeps_query _) ?_
  intro cancelled
  cases cancelled with
  | false => exact keeps_pure ()
  | true => exact keeps_fail _

theorem keeps_acquireCatalogGuard {F : Frame Workspace} (root : CatalogRoot) :
    Keeps F (acquireCatalogGuard root) :=
  keeps_bind (keeps_call _) fun _ => keeps_bind (keeps_call _) fun _ => keeps_call _

theorem keeps_setGeneration (content : Option SearchGeneration) :
    Keeps (offGeneration name) (setGeneration name content) :=
  keeps_modify fun _ => ⟨rfl, fun _ hne => Catalog.set_of_ne hne⟩

theorem keeps_indexSymbolBatches (batches : Nat) :
    Keeps (offGeneration name) (indexSymbolBatches name batches) := by
  induction batches with
  | zero => exact keeps_call _
  | succ batches ih =>
    exact keeps_bind (keeps_call _) fun _ => keeps_bind (keeps_call _) fun _ =>
      keeps_bind (keeps_query _) fun _ => keeps_bind (keeps_setGeneration _) fun _ =>
        keeps_bind keeps_ensureIndexingActive fun _ => ih

theorem keeps_buildPersistedSearchState :
    Keeps (offGeneration name) (buildPersistedSearchState name) := by
  refine keeps_bind (keeps_call _) fun _ => keeps_bind (keeps_call _) fun _ => ?_
  refine keeps_bind (keeps_setGeneration _) fun _ => keeps_bind (keeps_call _) fun _ => ?_
  refine keeps_bind (keeps_setGeneration _) fun _ => keeps_bind (keeps_call _) fun _ => ?_
  refine keeps_bind (keeps_query _) fun _ => keeps_bind (keeps_indexSymbolBatches _) fun _ => ?_
  refine keeps_bind (keeps_call _) fun _ => keeps_bind keeps_ensureIndexingActive fun _ => ?_
  refine keeps_bind (keeps_call _) fun _ => keeps_bind (keeps_query _) fun _ => ?_
  exact keeps_bind (keeps_setGeneration _) fun _ => keeps_bind (keeps_call _) fun _ =>
    keeps_call _

theorem keeps_writeSearchGenerationCompletion :
    Keeps (offGeneration name) (writeSearchGenerationCompletion name) := by
  refine keeps_bind (keeps_call _) fun _ => keeps_bind (keeps_call _) fun _ => ?_
  refine keeps_bind (keeps_call _) fun _ => keeps_bind (keeps_call _) fun _ => ?_
  exact keeps_bind (keeps_query _) fun _ => keeps_bind (keeps_read _) fun _ =>
    keeps_setGeneration _

theorem keeps_reuseCompletedSearchState {F : Frame Workspace} :
    Keeps F (reuseCompletedSearchState name) := by
  refine keeps_bind (keeps_read _) ?_
  intro content
  split
  · refine keeps_bind keeps_ensureIndexingActive fun _ => keeps_bind (keeps_call _) fun _ => ?_
    refine keeps_bind (keeps_query _) fun _ => keeps_bind (keeps_query _) fun _ => ?_
    split
    · exact keeps_pure _
    · exact keeps_bind (keeps_call _) fun _ => keeps_pure _
  · exact keeps_pure _

theorem keeps_stagedIndexPublication {F : Frame Workspace} :
    Keeps F stagedIndexPublication := by
  refine keeps_bind (keeps_call _) fun _ => keeps_bind (keeps_read _) ?_
  intro staged
  split
  · exact keeps_pure _
  · exact keeps_fail _

theorem call_wp {X : Exits WriterAnswer Workspace ApiError} {message : String}
    {Q : Unit → Workspace → Prop} {s : Workspace} (hfail : ∀ e, X.failed e s) (hQ : Q () s) :
    wp X (call message) Q s := by
  unfold call
  rw [wp_bind, wp_query]
  intro answer _
  cases answer.failure with
  | none => exact hQ
  | some error => exact hfail _

theorem ensureIndexingActive_wp {X : Exits WriterAnswer Workspace ApiError}
    {Q : Unit → Workspace → Prop} {s : Workspace} (hfail : ∀ e, X.failed e s) (hQ : Q () s) :
    wp X ensureIndexingActive Q s := by
  unfold ensureIndexingActive
  rw [wp_bind, wp_query]
  intro answer _
  cases answer.cancelled with
  | false => exact hQ
  | true => exact hfail _

theorem wp_setGeneration {X : Exits WriterAnswer Workspace ApiError} {name : String}
    {content : Option SearchGeneration} {Q : Unit → Workspace → Prop} {s : Workspace} :
    wp X (setGeneration name content) Q s ↔
      X.passed { s with catalog := s.catalog.set name content } ∧
        Q () { s with catalog := s.catalog.set name content } :=
  wp_modify

/-- A build that returns leaves an index without a marker. -/
theorem build_any (s : Workspace) :
    wp Exits.any (buildPersistedSearchState name)
      (fun _ t => ∃ documents, t.catalog name = some ⟨none, some documents⟩) s := by
  unfold buildPersistedSearchState
  refine wp_any_bind (fun _ s => wp_any_bind (fun _ s => ?_) s) s
  refine wp_any_bind (fun _ s => wp_any_bind (fun _ s => ?_) s) s
  refine wp_any_bind (fun _ s => wp_any_bind (fun _ s => ?_) s) s
  refine wp_any_bind (fun _ s => wp_any_bind (fun _ s => ?_) s) s
  refine wp_any_bind (fun _ s => wp_any_bind (fun _ s => ?_) s) s
  refine wp_any_bind (fun _ s => wp_any_bind (fun documents s => ?_) s) s
  rw [wp_bind, wp_setGeneration]
  refine ⟨trivial, ?_⟩
  rw [wp_bind]
  refine call_wp (fun _ => trivial) (call_wp (fun _ => trivial) ?_)
  exact ⟨documents, Catalog.set_self _ _ _⟩

theorem isValid_complete (symbols documents : Nat) :
    isValid name (some (SearchGeneration.complete name symbols ⟨none, some documents⟩)) =
      true := by
  simp [isValid, readSearchGenerationCompletion, SearchGeneration.complete]

/-- The marker makes a built generation valid. -/
theorem writeCompletion_any {s : Workspace} {documents : Nat}
    (h : s.catalog name = some ⟨none, some documents⟩) :
    wp Exits.any (writeSearchGenerationCompletion name)
      (fun _ t => isValid name (t.catalog name) = true) s := by
  unfold writeSearchGenerationCompletion
  rw [wp_bind]
  refine call_wp (fun _ => trivial) ?_
  rw [wp_bind]
  refine call_wp (fun _ => trivial) ?_
  rw [wp_bind]
  refine call_wp (fun _ => trivial) ?_
  rw [wp_bind]
  refine call_wp (fun _ => trivial) ?_
  rw [wp_bind, wp_query]
  intro answer _
  rw [wp_bind, wp_read, wp_setGeneration]
  refine ⟨trivial, ?_⟩
  dsimp only
  rw [Catalog.set_self, h]
  exact isValid_complete _ _

/-- A generation is used again only when it is valid. -/
theorem reuse_any (s : Workspace) :
    wp Exits.any (reuseCompletedSearchState name)
      (fun reused t => reused = true → isValid name (t.catalog name) = true) s := by
  unfold reuseCompletedSearchState
  rw [wp_bind, wp_read]
  split
  · rename_i marker documents hmarker hdocuments
    rw [wp_bind]
    refine ensureIndexingActive_wp (fun _ => trivial) ?_
    rw [wp_bind]
    refine call_wp (fun _ => trivial) ?_
    rw [wp_bind, wp_query]
    intro rows _
    rw [wp_bind, wp_query]
    intro searchable _
    split
    · simp
    · rename_i hcounts
      rw [wp_bind]
      refine call_wp (fun _ => trivial) ?_
      intro _
      have heq : documents = marker.tantivyDocCount := by
        by_contra hne
        exact hcounts (Or.inr (Or.inr hne))
      simp [isValid, hmarker, hdocuments, heq]
  · simp

end Frame

/-- Every call of a read of the live publication succeeds. -/
def WriterAnswer.ReadsSucceed (answer : WriterAnswer) : Prop :=
  answer.read = none ∧ ∀ error, answer.promotionLock ≠ .failed error

/-- Where a writer starts: no promotion is under way, the live database holds a complete
publication with its search generation, or none, and the staged one holds a publication whose
generation id is fresh. -/
structure Launch (parseUuid : String → Except String String) (mode : CoreCommitMode)
    (candidate : IndexPublicationRecord) (previous : Option IndexPublicationRecord)
    (start : Workspace) : Prop where
  clean : Clean start.disk
  live : Identity start.disk.live previous
  complete : ∀ record, previous = some record → ∃ db, start.disk.live = some db ∧
    readCompleteIndexPublication db = .ok (some record)
  previousUuid : ∀ record, previous = some record → (parseUuid record.generationId).isOk = true
  generation : ∀ record, previous = some record →
    isValid record.generationId (start.catalog record.generationId) = true
  candidateUuid : parseUuid candidate.generationId = .ok candidate.generationId
  fresh : ∀ record, previous = some record → record.generationId ≠ candidate.generationId
  staged : ∃ db, start.disk.staged = some db ∧ readIndexPublication db = .ok (some candidate) ∧
    ∀ path role, requireCompletePromotionDatabaseIdentity path (some (mode.staged db)) role =
      .ok candidate

section Invariant
variable (candidate : IndexPublicationRecord) (previous : Option IndexPublicationRecord)
  (start : Workspace)

def KeepsPrevious (s : Workspace) : Prop :=
  ∀ record, previous = some record →
    s.catalog record.generationId = start.catalog record.generationId

def HasCandidate (s : Workspace) : Prop :=
  isValid candidate.generationId (s.catalog candidate.generationId) = true

/-- No promotion has been tried. -/
structure Quiet (s : Workspace) : Prop where
  clean : Clean s.disk
  live : s.disk.live = start.disk.live
  keepsPrevious : KeepsPrevious previous start s

/-- The disk is one that a promotion of the candidate can leave. -/
def Promoting (s : Workspace) : Prop :=
  ∃ disk, Clean disk ∧ Identity disk.live previous ∧ Progress disk candidate previous s.disk

/-- The live publication, old or new, has its generation. -/
structure InStep (s : Workspace) : Prop where
  promoting : Promoting candidate previous s
  keepsPrevious : KeepsPrevious previous start s
  published : s.disk.renamed = true → HasCandidate candidate s

def inStepExits : Exits WriterAnswer Workspace ApiError :=
  ⟨WriterAnswer.ReadsSucceed, InStep candidate previous start,
    fun _ => InStep candidate previous start, InStep candidate previous start⟩

/-- The places where a build may stop. -/
def quietExits : Exits WriterAnswer Workspace ApiError :=
  ⟨WriterAnswer.ReadsSucceed, Quiet previous start,
    fun _ s => Quiet previous start s ∧ s.disk.staged = start.disk.staged, Quiet previous start⟩

end Invariant

section Steps
variable {paths : PromotionPaths} {root : CatalogRoot} {parseUuid : String → Except String String}
  {mode : CoreCommitMode} {candidate : IndexPublicationRecord}
  {previous : Option IndexPublicationRecord} {start : Workspace}

theorem Quiet.inStep (launch : Launch parseUuid mode candidate previous start) {s : Workspace}
    (h : Quiet previous start s) : InStep candidate previous start s where
  promoting := ⟨s.disk, h.clean, by rw [h.live]; exact launch.live, Or.inl rfl⟩
  keepsPrevious := h.keepsPrevious
  published := by
    intro hrenamed
    rw [h.clean.2] at hrenamed
    cases hrenamed

/-- A build does not touch the disk or the generations of other publications. -/
theorem Quiet.off (launch : Launch parseUuid mode candidate previous start) {s t : Workspace}
    (h : Quiet previous start s) (hrel : (offGeneration candidate.generationId).rel s t) :
    Quiet previous start t where
  clean := by rw [hrel.1]; exact h.clean
  live := by rw [hrel.1]; exact h.live
  keepsPrevious := by
    intro record hrecord
    rw [hrel.2 _ (launch.fresh record hrecord)]
    exact h.keepsPrevious record hrecord

/-- What a reader answers on the live database, which has to be there. -/
def readPresent (reader : Database → Except StorageError (Option IndexPublicationRecord)) :
    Option Database → Except StorageError (Option IndexPublicationRecord)
  | none => .error (.sqlite "unable to open database file")
  | some db => reader db

/-- A read of the live database where nothing has to be recovered. -/
theorem readLive_clean_wp {X : Exits WriterAnswer Workspace StorageError}
    {reader : Database → Except StorageError (Option IndexPublicationRecord)}
    {Q : Option IndexPublicationRecord → Workspace → Prop} {s : Workspace}
    (hanswers : ∀ answer, X.answers answer → answer.ReadsSucceed) (hclean : Clean s.disk)
    (hok : ∀ db record, s.disk.live = some db → reader db = .ok record → Q record s)
    (herror : ∀ e, (∀ db, s.disk.live = some db → reader db = .error e) → X.failed e s) :
    wp X (readLive paths reader) Q s := by
  unfold readLive recoverInterruptedPromotion
  rw [wp_bind, wp_bind, wp_read, hclean.1]
  apply wp_embed
  apply inspect_wp
  · rintro e ⟨answer, hanswer, hread⟩
    rw [(hanswers answer hanswer).1] at hread
    cases hread
  · intro record hrecord
    change readPresent reader s.disk.live = _ at hrecord
    cases hlive : s.disk.live with
    | none =>
      rw [hlive] at hrecord
      cases hrecord
    | some db =>
      rw [hlive] at hrecord
      exact hok db record hlive hrecord
  · intro e he
    change readPresent reader s.disk.live = _ at he
    apply herror e
    intro db hlive
    rw [hlive] at he
    exact he

/-- Pruning with the live publication at hand keeps both generations. -/
theorem Quiet.prune (launch : Launch parseUuid mode candidate previous start) {s : Workspace}
    (h : Quiet previous start s) (hcandidate : HasCandidate candidate s) (root : CatalogRoot)
    (world : CatalogWorld)
    {read : Except StorageError (Option IndexPublicationRecord)}
    (hread : ∀ record, previous = some record → read = .ok (some record)) :
    Quiet previous start { s with catalog := (pruneSearchGenerations root world
        (parseUuid · |>.isOk) candidate.generationId read s.catalog).2 } ∧
      HasCandidate candidate { s with catalog := (pruneSearchGenerations root world
        (parseUuid · |>.isOk) candidate.generationId read s.catalog).2 } := by
  refine ⟨⟨h.clean, h.live, ?_⟩, ?_⟩
  · intro record hrecord
    have hkept := h.keepsPrevious record hrecord
    have hvalid : isValid record.generationId (s.catalog record.generationId) = true := by
      rw [hkept]
      exact launch.generation record hrecord
    have hlive := hread record hrecord
    rw [← hkept]
    apply (prune_keeps_live_iff root world _ candidate.generationId read s.catalog
      (launch.previousUuid record hrecord) hvalid ?_).mpr
    · intro hoverlooks
      exact hoverlooks.1 hlive
    · intro found hfound
      rw [hlive] at hfound
      cases hfound
      rfl
  · unfold HasCandidate
    dsimp only
    rw [prune_keeps_active]
    exact hcandidate

theorem pruneAfterBuild_wp (launch : Launch parseUuid mode candidate previous start)
    {s : Workspace} (h : Quiet previous start s) (hcandidate : HasCandidate candidate s)
    (hstaged : s.disk.staged = start.disk.staged) :
    wp (quietExits previous start) (pruneAfterBuild paths root parseUuid candidate.generationId)
      (fun _ t => Quiet previous start t ∧ HasCandidate candidate t ∧
        t.disk.staged = start.disk.staged) s := by
  unfold pruneAfterBuild
  rw [wp_bind, wp_query]
  intro answer _
  split
  · rw [wp_bind, wp_result]
    apply readLive_clean_wp (fun _ h => h) h.clean
    · intro db record hlive hrecord
      rw [wp_modify]
      have hread : ∀ found, previous = some found →
          (Except.ok record : Except StorageError _) = .ok (some found) := by
        intro found hfound
        obtain ⟨db', hlive', hcomplete⟩ := launch.complete found hfound
        rw [h.live, hlive'] at hlive
        cases hlive
        exact hrecord.symm.trans hcomplete
      obtain ⟨hquiet, hkept⟩ := h.prune launch hcandidate root answer.catalog hread
      exact ⟨hquiet, hquiet, hkept, hstaged⟩
    · intro e he
      dsimp only
      rw [wp_modify]
      have hread : ∀ found, previous = some found →
          (Except.error e : Except StorageError _) = .ok (some found) := by
        intro found hfound
        obtain ⟨db, hlive, hcomplete⟩ := launch.complete found hfound
        exact (he db (h.live.trans hlive)).symm.trans hcomplete
      obtain ⟨hquiet, hkept⟩ := h.prune launch hcandidate root answer.catalog hread
      exact ⟨hquiet, hquiet, hkept, hstaged⟩
  · exact ⟨h, hcandidate, hstaged⟩

/-- Steps that keep everything but the generation of the candidate, with what they establish. -/
theorem Quiet.off_wp (launch : Launch parseUuid mode candidate previous start) {α : Type}
    {p : Writer α} (hp : Keeps (offGeneration candidate.generationId) p) {s : Workspace}
    (h : Quiet previous start s) (hstaged : s.disk.staged = start.disk.staged)
    {P Q : α → Workspace → Prop} (hpost : wp Exits.any p P s)
    (hQ : ∀ a t, Quiet previous start t → t.disk.staged = start.disk.staged → P a t → Q a t) :
    wp (quietExits previous start) p Q s := by
  apply hp.wp_post hpost
  · intro t hrel
    exact h.off launch hrel
  · intro _ t hrel
    exact ⟨h.off launch hrel, by rw [hrel.1]; exact hstaged⟩
  · intro t hrel
    exact h.off launch hrel
  · intro a t hrel hpt
    exact hQ a t (h.off launch hrel) (by rw [hrel.1]; exact hstaged) hpt

theorem stagedIndexPublication_any (launch : Launch parseUuid mode candidate previous start)
    {s : Workspace} (hstaged : s.disk.staged = start.disk.staged) :
    wp Exits.any stagedIndexPublication (fun record _ => record = candidate) s := by
  obtain ⟨db, hdb, hread, _⟩ := launch.staged
  unfold stagedIndexPublication
  rw [wp_bind]
  refine call_wp (fun _ => trivial) ?_
  rw [wp_bind, wp_read, hstaged, hdb, Option.map_some, hread]
  exact rfl

/-- The build of a generation that was not there. -/
theorem buildNewGeneration_wp (launch : Launch parseUuid mode candidate previous start)
    {s : Workspace} (h : Quiet previous start s) (hstaged : s.disk.staged = start.disk.staged) :
    wp (quietExits previous start) (buildNewGeneration candidate.generationId)
      (fun _ t => Quiet previous start t ∧ HasCandidate candidate t ∧
        t.disk.staged = start.disk.staged) s := by
  unfold buildNewGeneration
  rw [wp_bind, wp_attempt]
  have hbuild : wp (quietExits previous start) (buildPersistedSearchState candidate.generationId)
      (fun _ t => Quiet previous start t ∧ t.disk.staged = start.disk.staged ∧
        ∃ documents, t.catalog candidate.generationId = some ⟨none, some documents⟩) s :=
    Quiet.off_wp launch keeps_buildPersistedSearchState h hstaged (build_any s)
      fun _ _ hquiet hstaged hbuilt => ⟨hquiet, hstaged, hbuilt⟩
  refine wp_mono hbuild (fun _ h => h) (fun _ h => h) (fun _ _ h => h) (fun _ h => h) ?_
  rintro _ t ⟨hquiet, hstaged, documents, hbuilt⟩
  dsimp only
  rw [wp_bind]
  refine ensureIndexingActive_wp (fun _ => ⟨hquiet, hstaged⟩) ?_
  rw [wp_bind]
  refine call_wp (fun _ => ⟨hquiet, hstaged⟩) ?_
  rw [wp_bind]
  refine ensureIndexingActive_wp (fun _ => ⟨hquiet, hstaged⟩) ?_
  exact Quiet.off_wp launch keeps_writeSearchGenerationCompletion hquiet hstaged
    (writeCompletion_any hbuilt) fun _ t hquiet hstaged hvalid => ⟨hquiet, hvalid, hstaged⟩

theorem prepareGeneration_wp (launch : Launch parseUuid mode candidate previous start)
    {s : Workspace} (h : Quiet previous start s) (hstaged : s.disk.staged = start.disk.staged) :
    wp (quietExits previous start) (prepareGeneration candidate.generationId)
      (fun _ t => Quiet previous start t ∧ HasCandidate candidate t ∧
        t.disk.staged = start.disk.staged) s := by
  unfold prepareGeneration
  rw [wp_bind]
  refine Quiet.off_wp launch keeps_reuseCompletedSearchState h hstaged (reuse_any s) ?_
  intro reused s h hstaged hreused
  rw [wp_bind]
  refine ensureIndexingActive_wp (fun _ => ⟨h, hstaged⟩) ?_
  cases reused with
  | true =>
    rw [if_pos rfl, wp_bind]
    refine ensureIndexingActive_wp (fun _ => ⟨h, hstaged⟩) ?_
    exact call_wp (fun _ => ⟨h, hstaged⟩) ⟨h, hreused rfl, hstaged⟩
  | false =>
    rw [if_neg (by simp)]
    exact buildNewGeneration_wp launch h hstaged

/-- A build that returns leaves the completed generation of the candidate. -/
theorem rebuildSearchState_wp (launch : Launch parseUuid mode candidate previous start)
    {s : Workspace} (h : Quiet previous start s) (hstaged : s.disk.staged = start.disk.staged) :
    wp (quietExits previous start) (rebuildSearchState paths root parseUuid)
      (fun _ t => Quiet previous start t ∧ HasCandidate candidate t ∧
        t.disk.staged = start.disk.staged) s := by
  unfold rebuildSearchState
  rw [wp_bind]
  refine Quiet.off_wp launch keeps_stagedIndexPublication h hstaged
    (stagedIndexPublication_any launch hstaged) ?_
  intro record s h hstaged hrecord
  subst hrecord
  rw [wp_bind]
  refine Quiet.off_wp launch (keeps_acquireCatalogGuard root) h hstaged
    (wp_any (fun _ _ => trivial) _ s : wp _ _ (fun _ _ => True) s) ?_
  intro _ s h hstaged _
  rw [wp_bind, searchIndexName, launch.candidateUuid]
  dsimp only [Prog.ofExcept]
  rw [wp_ret, wp_bind]
  refine wp_mono (prepareGeneration_wp launch h hstaged) (fun _ h => h) (fun _ h => h)
    (fun _ _ h => h) (fun _ h => h) ?_
  rintro _ t ⟨hquiet, hcandidate, hstaged⟩
  rw [wp_bind]
  exact call_wp (fun _ => ⟨hquiet, hstaged⟩) (pruneAfterBuild_wp launch hquiet hcandidate hstaged)

theorem removeUnpublished_wp (launch : Launch parseUuid mode candidate previous start)
    {X : Exits WriterAnswer Workspace ApiError} {Q : Unit → Workspace → Prop} {s : Workspace}
    (hQ : Q () s)
    (hremove : ∀ t, (offGeneration candidate.generationId).rel s t → X.passed t ∧ Q () t) :
    wp X (removeUnpublished root parseUuid candidate) Q s := by
  unfold removeUnpublished searchIndexName
  rw [launch.candidateUuid]
  dsimp only
  rw [wp_bind, wp_query]
  intro answer _
  split
  · exact hQ
  · rw [wp_bind, wp_read, wp_setGeneration]
    exact hremove _ ⟨rfl, fun _ hne => Catalog.set_of_ne hne⟩

/-- Discarding before any promotion touches nothing but the candidate. -/
theorem discard_quiet_wp (launch : Launch parseUuid mode candidate previous start)
    {s : Workspace} (h : Quiet previous start s) :
    wp (inStepExits candidate previous start)
      (discardUnpublishedSearchGeneration paths root parseUuid candidate)
      (fun _ t => InStep candidate previous start t) s := by
  have hremove : wp (inStepExits candidate previous start)
      (removeUnpublished root parseUuid candidate)
      (fun _ t => InStep candidate previous start t) s := by
    apply removeUnpublished_wp launch (h.inStep launch)
    intro t hrel
    exact ⟨(h.off launch hrel).inStep launch, (h.off launch hrel).inStep launch⟩
  unfold discardUnpublishedSearchGeneration
  rw [wp_bind, wp_result]
  apply readLive_clean_wp (fun _ h => h) h.clean
  · intro _ record _ _
    split
    · exact h.inStep launch
    · exact hremove
  · intro e _
    dsimp only
    rw [if_neg (by simp)]
    exact hremove

/-- A promotion has been tried, and the generation of the candidate is there. -/
structure Attempted (candidate : IndexPublicationRecord)
    (previous : Option IndexPublicationRecord) (start s : Workspace) : Prop where
  promoting : Promoting candidate previous s
  keepsPrevious : KeepsPrevious previous start s
  hasCandidate : HasCandidate candidate s

theorem Attempted.inStep {s : Workspace} (h : Attempted candidate previous start s) :
    InStep candidate previous start s :=
  ⟨h.promoting, h.keepsPrevious, fun _ => h.hasCandidate⟩

theorem Launch.previous_ne (launch : Launch parseUuid mode candidate previous start) :
    previous ≠ some candidate :=
  fun h => launch.fresh candidate h rfl

/-- A read after a promotion that was tried: it finds the candidate once that is durable. -/
theorem readLive_attempted_wp (launch : Launch parseUuid mode candidate previous start)
    {X : Exits WriterAnswer Workspace StorageError}
    {Q : Option IndexPublicationRecord → Workspace → Prop} {s : Workspace} {disk : Disk}
    (hclean : Clean disk) (hprogress : Progress disk candidate previous s.disk)
    (hanswers : ∀ answer, X.answers answer → answer.ReadsSucceed)
    (hpassed : ∀ d, Progress disk candidate previous d → X.passed { s with disk := d })
    (hfailed : ∀ e d, Progress disk candidate previous d → d.renamed = false →
      X.failed e { s with disk := d })
    (hQ : ∀ record d, Progress disk candidate previous d →
      (d.renamed = true → record = some candidate) → Q record { s with disk := d }) :
    wp X (databaseIndexPublication paths) Q s := by
  have hnone : ∀ t a, (X.within WriterAnswer.read diskPart t).answers a → a = none := by
    rintro t a ⟨answer, hanswer, rfl⟩
    exact (hanswers answer hanswer).1
  have hinspect : ∀ d, Progress disk candidate previous d →
      wp X (embed WriterAnswer.read diskPart (inspect .live (readPresent readIndexPublication)))
        Q { s with disk := d } := by
    intro d hd
    apply wp_embed
    apply inspect_wp
    · intro e he
      cases hnone _ _ he
    · intro record hrecord
      apply hQ record d hd
      intro hrenamed
      obtain ⟨db, hlive, hread⟩ := hd.live_of_renamed hclean hrenamed
      change readPresent readIndexPublication d.live = _ at hrecord
      rw [hlive] at hrecord
      exact Except.ok.inj (hrecord.symm.trans hread)
    · intro e he
      apply hfailed e d hd
      cases hrenamed : d.renamed with
      | false => rfl
      | true =>
        obtain ⟨db, hlive, hread⟩ := hd.live_of_renamed hclean hrenamed
        change readPresent readIndexPublication d.live = _ at he
        rw [hlive] at he
        cases he.symm.trans hread
  unfold databaseIndexPublication readLive recoverInterruptedPromotion
  rw [wp_bind, wp_bind, wp_read]
  split
  · exact hinspect s.disk hprogress
  · rw [wp_bind, wp_query]
    intro answer hanswer
    split
    · rename_i error hlock
      exact absurd hlock ((hanswers answer hanswer).2 error)
    · exact hinspect s.disk hprogress
    · apply wp_embed
      refine wp_mono (recover_unfailing_wp paths hclean launch.previous_ne (hnone s)
        hpassed hfailed hprogress) (fun _ h => h) (fun _ h => h) (fun _ _ h => h)
        (fun _ h => h) ?_
      intro _ d hd
      exact hinspect d hd

/-- Discarding after a promotion was tried keeps the candidate once it is durable. -/
theorem discard_attempted_wp (launch : Launch parseUuid mode candidate previous start)
    {s : Workspace} (h : Attempted candidate previous start s) :
    wp (inStepExits candidate previous start)
      (discardUnpublishedSearchGeneration paths root parseUuid candidate)
      (fun _ t => InStep candidate previous start t) s := by
  obtain ⟨disk, hclean, hlive, hprogress⟩ := h.promoting
  have hattempted : ∀ d, Progress disk candidate previous d →
      Attempted candidate previous start { s with disk := d } := fun d hd =>
    ⟨⟨disk, hclean, hlive, hd⟩, h.keepsPrevious, h.hasCandidate⟩
  have hremove : ∀ d, Progress disk candidate previous d → d.renamed = false →
      wp (inStepExits candidate previous start) (removeUnpublished root parseUuid candidate)
        (fun _ t => InStep candidate previous start t) { s with disk := d } := by
    intro d hd hrenamed
    apply removeUnpublished_wp launch (hattempted d hd).inStep
    intro t hrel
    have hstep : InStep candidate previous start t := by
      refine ⟨⟨disk, hclean, hlive, by rw [hrel.1]; exact hd⟩, ?_, ?_⟩
      · intro record hrecord
        rw [hrel.2 _ (launch.fresh record hrecord)]
        exact h.keepsPrevious record hrecord
      · intro hrenamed'
        rw [hrel.1] at hrenamed'
        cases hrenamed.symm.trans hrenamed'
    exact ⟨hstep, hstep⟩
  unfold discardUnpublishedSearchGeneration
  rw [wp_bind, wp_result]
  apply readLive_attempted_wp launch hclean hprogress (fun _ h => h)
  · intro d hd
    exact (hattempted d hd).inStep
  · intro e d hd hrenamed
    dsimp only
    rw [if_neg (by simp)]
    exact hremove d hd hrenamed
  · intro record d hd hrecord
    split
    · exact (hattempted d hd).inStep
    · rename_i hne
      apply hremove d hd
      cases hrenamed : d.renamed with
      | false => rfl
      | true => exact absurd (congrArg Except.ok (hrecord hrenamed)) hne

theorem dropPrepared_wp {error : ApiError} {s : Workspace}
    (h : wp (inStepExits candidate previous start)
      (discardUnpublishedSearchGeneration paths root parseUuid candidate)
      (fun _ t => InStep candidate previous start t) s) :
    wp (inStepExits candidate previous start) (dropPrepared paths root parseUuid candidate error)
      (fun _ t => InStep candidate previous start t) s := by
  unfold dropPrepared
  rw [wp_bind]
  exact h

/-- A staged database that is discarded leaves the writer where it was. -/
theorem discardStaged_wp {X : Exits WriterAnswer Workspace ApiError}
    {Q : Unit → Workspace → Prop} {s : Workspace} (h : Quiet previous start s)
    (hpassed : ∀ t, Quiet previous start t → X.passed t)
    (hQ : ∀ t, Quiet previous start t → Q () t) : wp X discardStaged Q s := by
  have hremoved : Quiet previous start { s with disk := { s.disk with staged := none } } :=
    ⟨h.clean, h.live, h.keepsPrevious⟩
  unfold discardStaged
  rw [wp_bind, wp_result]
  apply wp_embed
  apply cleanupSqliteSidecars_wp
  · intro _ _ _
    exact hQ s h
  · intro _
    exact ⟨hpassed _ hremoved, hQ _ hremoved⟩
  · intro _
    exact hQ s h

/-- The drop of a writer that has not tried a promotion. -/
theorem abandon_wp (launch : Launch parseUuid mode candidate previous start) {error : ApiError}
    {s : Workspace} (h : Quiet previous start s) :
    wp (inStepExits candidate previous start) (do
        discardStaged
        dropPrepared paths root parseUuid candidate error : Writer Unit)
      (fun _ t => InStep candidate previous start t) s := by
  rw [wp_bind]
  apply discardStaged_wp h
  · intro t ht
    exact ht.inStep launch
  · intro t ht
    exact dropPrepared_wp (discard_quiet_wp launch ht)

/-- `commit` hands over the staged database without its marker, and nothing else changes. -/
theorem prepareCommit_wp {s : Workspace} (h : Quiet previous start s)
    (hcandidate : HasCandidate candidate s) (hstaged : s.disk.staged = start.disk.staged) :
    wp ⟨WriterAnswer.ReadsSucceed, Quiet previous start, fun _ => Quiet previous start,
        Quiet previous start⟩ (prepareCommit root mode)
      (fun _ t => Quiet previous start t ∧ HasCandidate candidate t ∧
        t.disk.staged = start.disk.staged.map mode.staged) s := by
  unfold prepareCommit acquireCatalogGuard
  rw [wp_bind, wp_bind]
  refine call_wp (fun _ => h) ?_
  rw [wp_bind]
  refine call_wp (fun _ => h) (call_wp (fun _ => h) ?_)
  rw [wp_bind]
  refine ensureIndexingActive_wp (fun _ => h) ?_
  rw [wp_bind]
  unfold finishMarker
  cases hmode : mode.finishMarker with
  | false =>
    have hsame : mode.staged = id := by
      funext db
      simp [CoreCommitMode.staged, hmode]
    rw [if_neg (by simp), wp_pure]
    refine ensureIndexingActive_wp (fun _ => h) ⟨h, hcandidate, ?_⟩
    rw [hsame, Option.map_id, hstaged]
    rfl
  | true =>
    have hfinish : mode.staged = finishIncrementalRun := by
      funext db
      simp [CoreCommitMode.staged, hmode]
    have hfinished : Quiet previous start { s with disk :=
        { s.disk with staged := s.disk.staged.map finishIncrementalRun } } :=
      ⟨h.clean, h.live, h.keepsPrevious⟩
    rw [if_pos rfl, wp_bind]
    refine ensureIndexingActive_wp (fun _ => h) ?_
    rw [wp_bind]
    refine call_wp (fun _ => h) ?_
    rw [wp_modify]
    refine ⟨hfinished, ensureIndexingActive_wp (fun _ => hfinished) ⟨hfinished, hcandidate, ?_⟩⟩
    dsimp only
    rw [hfinish, hstaged]

/-- Wherever a promotion stops, it leaves a disk that a recovery can judge. -/
theorem publishStaged_wp (launch : Launch parseUuid mode candidate previous start)
    {s : Workspace} (h : Quiet previous start s) (hcandidate : HasCandidate candidate s)
    (hstaged : s.disk.staged = start.disk.staged.map mode.staged) :
    wp ⟨WriterAnswer.ReadsSucceed, Attempted candidate previous start,
        fun _ => Attempted candidate previous start, Attempted candidate previous start⟩
      (publishStaged paths mode) (fun _ => Attempted candidate previous start) s := by
  have hlive : Identity s.disk.live previous := by
    rw [h.live]
    exact launch.live
  have hattempted : ∀ d, Progress s.disk candidate previous d →
      Attempted candidate previous start { s with disk := d } := fun d hd =>
    ⟨⟨s.disk, h.clean, hlive, hd⟩, h.keepsPrevious, hcandidate⟩
  have hcomplete : requireCompletePromotionDatabaseIdentity "" s.disk.staged "" =
      .ok candidate := by
    obtain ⟨db, hdb, _, hdb'⟩ := launch.staged
    rw [hstaged, hdb]
    exact hdb' "" ""
  have hpromote := promoteStagedSnapshot_wp paths h.clean hcomplete hlive
  unfold publishStaged
  rw [wp_bind, wp_result]
  apply wp_embed
  rw [wp_bind]
  apply io_wp
  · intro _ _ _
    exact hattempted s.disk (Or.inl rfl)
  · exact wp_mono hpromote (fun _ _ => trivial) hattempted (fun _ => hattempted) hattempted
      fun _ => hattempted

theorem commitPrepared_wp (launch : Launch parseUuid mode candidate previous start)
    {s : Workspace} (h : Quiet previous start s) (hcandidate : HasCandidate candidate s)
    (hstaged : s.disk.staged = start.disk.staged) :
    wp (inStepExits candidate previous start)
      (commitPrepared paths root parseUuid mode candidate)
      (fun _ t => InStep candidate previous start t) s := by
  unfold commitPrepared
  rw [wp_bind, wp_attempt]
  refine wp_mono (prepareCommit_wp h hcandidate hstaged) (fun _ h => h)
    (fun _ ht => ht.inStep launch) (fun _ _ ht => abandon_wp launch ht)
    (fun _ ht => ht.inStep launch) ?_
  rintro _ t ⟨hquiet, hcandidate, hstaged⟩
  dsimp only
  rw [wp_bind, wp_attempt]
  refine wp_mono (publishStaged_wp launch hquiet hcandidate hstaged) (fun _ h => h)
    (fun _ ht => ht.inStep)
    (fun _ _ ht => dropPrepared_wp (discard_attempted_wp launch ht)) (fun _ ht => ht.inStep) ?_
  intro _ t ht
  exact ht.inStep

/-- Every state that a run of the writer passes through, and its end, is in step. -/
theorem runIndexing_wp (launch : Launch parseUuid mode candidate previous start) :
    wp (inStepExits candidate previous start)
      (runIndexing paths root parseUuid mode candidate)
      (fun _ t => InStep candidate previous start t) start := by
  have hstart : Quiet previous start start := ⟨launch.clean, rfl, fun _ _ => rfl⟩
  unfold runIndexing
  rw [wp_bind, wp_attempt]
  refine wp_mono (rebuildSearchState_wp launch hstart rfl) (fun _ h => h)
    (fun _ ht => ht.inStep launch) (fun _ _ ht => abandon_wp launch ht.1)
    (fun _ ht => ht.inStep launch) ?_
  rintro _ t ⟨hquiet, hcandidate, hstaged⟩
  dsimp only
  rw [wp_bind, wp_query]
  intro answer _
  split
  · exact abandon_wp launch hquiet
  · exact commitPrepared_wp launch hquiet hcandidate hstaged

end Steps

/-- What is live after a recovery that returns has its search generation: the candidate its
completed one, or the previous publication the one it had at the start. -/
def LiveHasGeneration (paths : PromotionPaths) (candidate : IndexPublicationRecord)
    (previous : Option IndexPublicationRecord) (start s : Workspace) : Prop :=
  ∀ (world : Nat → Option StorageError) (t : Nat) (path : String),
    ((recoverInterruptedPromotionLocked paths).run world t s.disk).outcome = .returned () →
    (readRecoveryDatabaseIdentity path
        ((recoverInterruptedPromotionLocked paths).run world t s.disk).final.live
        .currentPromotion = .ok (some candidate) ∧ HasCandidate candidate s) ∨
      (readRecoveryDatabaseIdentity path
        ((recoverInterruptedPromotionLocked paths).run world t s.disk).final.live
        .currentPromotion = .ok previous ∧ KeepsPrevious previous start s)

theorem InStep.liveHasGeneration {paths : PromotionPaths} {candidate : IndexPublicationRecord}
    {previous : Option IndexPublicationRecord} {start s : Workspace}
    (h : InStep candidate previous start s) :
    LiveHasGeneration paths candidate previous start s := by
  intro world t path hreturned
  obtain ⟨disk, hclean, hlive, hprogress⟩ := h.promoting
  have hanswers : ∀ n, (progressExits disk candidate previous).answers (world n) :=
    fun _ => trivial
  have hend := (wp_run (recover_progress_wp paths hclean hlive hprogress) hanswers t).2
  have hanswers' : ∀ n : Nat, (renamedFrame.exits s.disk :
      Exits (Option StorageError) Disk StorageError).answers (world n) := fun _ => trivial
  have hrenamed := (wp_run (keeps_recoverInterruptedPromotion paths s.disk) hanswers' t).2
  rw [hreturned] at hend hrenamed
  have hread := hend.read (.inl rfl) path
  have hsame : ((recoverInterruptedPromotionLocked paths).run world t s.disk).final.renamed =
      s.disk.renamed := hrenamed
  rw [hsame] at hread
  cases hcase : s.disk.renamed with
  | true =>
    rw [hcase] at hread
    exact Or.inl ⟨hread, h.published hcase⟩
  | false =>
    rw [hcase] at hread
    exact Or.inr ⟨hread, h.keepsPrevious⟩

/-- In every run whose reads of the live publication succeed, whatever else fails or is
cancelled, the live publication has its search generation in every state the run passes through
and at its end. -/
theorem live_has_generation (paths : PromotionPaths) (root : CatalogRoot)
    (parseUuid : String → Except String String) (mode : CoreCommitMode)
    (candidate : IndexPublicationRecord) (previous : Option IndexPublicationRecord)
    (start : Workspace) (launch : Launch parseUuid mode candidate previous start)
    (script : Nat → WriterAnswer) (hreads : ∀ t, (script t).ReadsSucceed) :
    (∀ s ∈ ((runIndexing paths root parseUuid mode candidate).run script 0 start).visited,
      LiveHasGeneration paths candidate previous start s) ∧
    LiveHasGeneration paths candidate previous start
      ((runIndexing paths root parseUuid mode candidate).run script 0 start).final := by
  obtain ⟨hvisited, hend⟩ := wp_run
    (@runIndexing_wp paths root parseUuid mode candidate previous start launch) hreads 0
  refine ⟨fun s hs => (hvisited s hs).liveHasGeneration, ?_⟩
  apply InStep.liveHasGeneration
  split at hend
  · exact hend
  · exact hend
  · exact hend

section Sample

def parseHyphenated (id : String) : Except String String :=
  if isHyphenatedUuid id then .ok id else .error "invalid character"

/-- A live publication with its generation, and a staged one. -/
def sampleStart : Workspace where
  disk := { sampleDisk (sampleDatabase 1 liveId) with staged := some (sampleDatabase 2 preparedId) }
  catalog := fun name => if name = liveId then some (completedGeneration liveId) else none

/-- Nothing fails. -/
def sampleAnswer : WriterAnswer where
  failure := none
  storage := none
  read := none
  promotionLock := .acquired
  cancelled := false
  count := 1
  catalog := sampleWorld

/-- Call number `lost` of the run fails, and so does every later read of the live database. -/
def losingScript (lost : Nat) (t : Nat) : WriterAnswer :=
  { sampleAnswer with
    storage := if t = lost then some (.sqlite "disk I/O error") else none
    read := if lost < t then some (.sqlite "database is locked") else none }

theorem sample_launch : Launch parseHyphenated .incremental (sampleRecord 2 preparedId)
    (some (sampleRecord 1 liveId)) sampleStart where
  clean := ⟨rfl, rfl⟩
  live := by
    have hread : readRecoveryDatabaseIdentity "" sampleStart.disk.live .currentPromotion =
      .ok (some (sampleRecord 1 liveId)) := by decide
    exact identity_of_read hread
  complete := by
    rintro record h
    cases h
    exact ⟨sampleDatabase 1 liveId, rfl, by decide⟩
  previousUuid := by
    rintro record h
    cases h
    decide
  generation := by
    rintro record h
    cases h
    decide
  candidateUuid := by decide
  fresh := by
    rintro record h
    cases h
    decide
  staged := by
    refine ⟨sampleDatabase 2 preparedId, rfl, by decide, ?_⟩
    have hcomplete : requireCompletePromotionDatabaseIdentity ""
        (some (CoreCommitMode.incremental.staged (sampleDatabase 2 preparedId))) "" =
      .ok (sampleRecord 2 preparedId) := by decide
    exact (identity_of_complete hcomplete).2

/-- The sync of the directory after the rename fails: promotion reports an error for a
publication that is durable, and the reads that follow find it. -/
theorem live_has_generation_after_failed_sync :
    LiveHasGeneration samplePaths (sampleRecord 2 preparedId) (some (sampleRecord 1 liveId))
      sampleStart ((runIndexing samplePaths sampleRoot parseHyphenated .incremental
        (sampleRecord 2 preparedId)).run
          (fun t => { losingScript 69 t with read := none }) 0 sampleStart).final := by
  refine (live_has_generation samplePaths sampleRoot parseHyphenated .incremental
    (sampleRecord 2 preparedId) (some (sampleRecord 1 liveId)) sampleStart sample_launch
    (fun t => { losingScript 69 t with read := none }) ?_).2
  intro t
  refine ⟨rfl, ?_⟩
  intro error h
  cases h

/-- The same failed sync, and a live database that is busy when it is read again: the generation
of the publication that is live is deleted. -/
theorem failed_read_discards_published :
    Launch parseHyphenated .incremental (sampleRecord 2 preparedId)
      (some (sampleRecord 1 liveId)) sampleStart ∧
    ((runIndexing samplePaths sampleRoot parseHyphenated .incremental
      (sampleRecord 2 preparedId)).run (losingScript 69) 0 sampleStart).final.catalog preparedId =
        none ∧
    ¬ LiveHasGeneration samplePaths (sampleRecord 2 preparedId) (some (sampleRecord 1 liveId))
      sampleStart ((runIndexing samplePaths sampleRoot parseHyphenated .incremental
        (sampleRecord 2 preparedId)).run (losingScript 69) 0 sampleStart).final := by
  have hlost : ((runIndexing samplePaths sampleRoot parseHyphenated .incremental
      (sampleRecord 2 preparedId)).run (losingScript 69) 0 sampleStart).final.catalog
        preparedId = none := by decide
  refine ⟨sample_launch, hlost, ?_⟩
  intro h
  rcases h (fun _ => none) 0 "" (by decide) with ⟨_, hvalid⟩ | ⟨hread, _⟩
  · unfold HasCandidate at hvalid
    rw [show (sampleRecord 2 preparedId).generationId = preparedId from rfl, hlost] at hvalid
    revert hvalid
    decide
  · revert hread
    decide +kernel

end Sample

end CodeStory.Search
