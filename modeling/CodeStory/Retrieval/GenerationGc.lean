import CodeStory.Lib.Transition
import CodeStory.Retrieval.Retention

/-!
# Publication and cleanup of generations by several workspaces

Workspaces that share a sidecar layout and a project id, each with its own core database, run
`finalize_index_for_runtime` one at a time under the exclusive retention lock of the project.
A run builds artifacts, commits its publication, derives its marker, scans and plans, and
removes; it may stop between any two of these, and every write of a marker, every read of the
scan and every removal may fail. `removed` is a history: what retention has removed and
nothing has built again.

The databases of a scan are those of the cache root and the caller's own. A workspace whose
database is elsewhere is protected by its marker alone, which is written after the commit.
-/

set_option autoImplicit false

namespace CodeStory.Retrieval

open Transition

/-- `validate_rollback_record` -/
def validateRollbackRecord (current : RetrievalIndexManifest) :
    Option RetrievalIndexRollbackRecord → Bool
  | none => true
  | some rollback =>
    match current.sidecarGeneration.filter (!Text.isBlank ·),
        rollback.manifest.sidecarGeneration.filter (!Text.isBlank ·) with
    | some currentGeneration, some rollbackGeneration =>
      rollback.manifest.projectId = current.projectId && rollbackGeneration ≠ currentGeneration &&
        !Text.isBlank rollback.manifest.semanticGeneration &&
        rollback.manifest.sidecarInputHash.any (!Text.isBlank ·) &&
        0 ≤ rollback.verifiedAtEpochMs
    | _, _ => false

/-- The workspaces of one layout and project, and whose database a scan of the cache root
finds. -/
structure Fleet where
  projectId : String
  workspaces : List String
  inCacheRoot : String → Bool

inductive RunPc where
  | building
  | committed
  | marked (markerError : Option RetentionError)
  | applying (todo : List Artifact)
  deriving DecidableEq, Repr

structure Run where
  workspace : String
  pc : RunPc
  deriving DecidableEq, Repr

structure State where
  databases : String → List Publication
  markers : String → Option GenerationRetentionMarker
  data : SidecarData
  removed : List Artifact
  run : Option Run

inductive Action where
  | acquire (workspace : String)
  | build (kind : ArtifactKind) (entry : DirEntry)
  | commit (manifest : RetrievalIndexManifest) (rollback : Option RetrievalIndexRollbackRecord)
  | marker (written : Bool)
  | plan (unreadable unreadableMarkers : List String)
  | remove (succeeds : Bool)
  | release

section Scan
variable (fleet : Fleet) (databases : String → List Publication)
  (markers : String → Option GenerationRetentionMarker) (caller : String)
  (unreadable unreadableMarkers : List String)

/-- `storage_paths_for_scan` -/
def storagePathsForScan : List String :=
  fleet.workspaces.filter fun workspace => workspace = caller || fleet.inCacheRoot workspace

/-- `list_retrieval_index_publications` gives the rows, or fails. -/
def isReadable (workspace : String) : Bool :=
  workspace ∉ unreadable &&
    (databases workspace).all fun row => validateRollbackRecord row.active row.rollback

def scannedPublications : List Publication :=
  ((storagePathsForScan fleet caller).filter (isReadable databases unreadable)).flatMap databases

def scannedMarkers : List GenerationRetentionMarker :=
  (fleet.workspaces.filter (· ∉ unreadableMarkers)).filterMap fun workspace =>
    (markers workspace).filter validateMarker

def scanErrors : List RetentionError :=
  ((storagePathsForScan fleet caller).filter (!isReadable databases unreadable ·)).map
      .scanManifests ++
    (fleet.workspaces.filter fun workspace => (markers workspace).isSome &&
      (workspace ∈ unreadableMarkers || !(markers workspace).all validateMarker)).map .scanMarker

def scanRetentionProtection : RetentionProtectionScan :=
  let publications := scannedPublications fleet databases caller unreadable
  let authoritative := if caller ∈ storagePathsForScan fleet caller ∧
    isReadable databases unreadable caller then databases caller else []
  let scanned := scannedMarkers fleet markers unreadableMarkers
  { authoritativeActive := deduplicateManifests (authoritative.map (·.active))
    authoritativeRollback := deduplicateManifests
      (authoritative.filterMap fun row => row.rollback.map (·.manifest))
    active := deduplicateManifests (publications.map (·.active) ++ scanned.map (·.active))
    rollback := deduplicateManifests
      (publications.filterMap (fun row => row.rollback.map (·.manifest)) ++
        scanned.filterMap fun marker => marker.rollback.map (·.manifest))
    errors := scanErrors fleet databases markers caller unreadable unreadableMarkers }

end Scan

namespace State

/-- The row of a project: `get_retrieval_index_publication`. -/
def publicationOf (rows : List Publication) (projectId : String) : Option Publication :=
  rows.find? fun row => row.active.projectId = projectId

/-- Insert or replace the row of the manifest's project. -/
def publishRow (rows : List Publication) (publication : Publication) : List Publication :=
  publication :: rows.filter fun row => row.active.projectId ≠ publication.active.projectId

/-- Every directory that the manifest refers to is there: the probes and the deep validation
of the candidate and of the rollback, which look into them. -/
def validated (data : SidecarData) (projectId : String) (manifest : RetrievalIndexManifest) :
    Bool :=
  manifest.projectId = projectId && manifestHasCurrentSidecarContract projectId manifest &&
    [ArtifactKind.lexical, .scip, .semantic].all fun kind =>
      (manifest.artifact kind).all fun artifact => data.Has artifact

def commitStep (fleet : Fleet) (s : State) (workspace : String)
    (manifest : RetrievalIndexManifest) (rollback : Option RetrievalIndexRollbackRecord) :
    Option State :=
  if validated s.data fleet.projectId manifest &&
      rollback.all (fun record => validated s.data fleet.projectId record.manifest) &&
      validateRollbackRecord manifest rollback then
    some { s with
      databases := Function.update s.databases workspace
        (publishRow (s.databases workspace) ⟨manifest, rollback⟩)
      run := some ⟨workspace, .committed⟩ }
  else none

/-- `publish_derived_retention_marker`; its failure is a warning and an error of the scan. -/
def markerStep (fleet : Fleet) (s : State) (workspace : String) (written : Bool) : State :=
  let marker := (publicationOf (s.databases workspace) fleet.projectId).bind fun publication =>
    GenerationRetentionMarker.next workspace publication.active publication.rollback
  match marker, written with
  | some marker, true =>
    { s with
      markers := Function.update s.markers workspace (some marker)
      run := some ⟨workspace, .marked none⟩ }
  | _, _ => { s with run := some ⟨workspace, .marked (some .publishMarker)⟩ }

/-- What the scan of a run finds, with the failure of its marker. -/
def protection (fleet : Fleet) (s : State) (workspace : String)
    (markerError : Option RetentionError) (unreadable unreadableMarkers : List String) :
    RetentionProtectionScan :=
  let scan := scanRetentionProtection fleet s.databases s.markers workspace unreadable
    unreadableMarkers
  { scan with errors := scan.errors ++ markerError.toList }

/-- `retain_published_generations`, up to the first removal. -/
def planStep (fleet : Fleet) (s : State) (workspace : String)
    (markerError : Option RetentionError) (unreadable unreadableMarkers : List String) : State :=
  let plan := planGenerationRetention fleet.projectId s.data
    (s.protection fleet workspace markerError unreadable unreadableMarkers) .reclaimable
  { s with run := some ⟨workspace, .applying plan.removals⟩ }

def removeStep (s : State) (workspace : String) (artifact : Artifact) (todo : List Artifact)
    (succeeds : Bool) : State :=
  let s := { s with run := some ⟨workspace, .applying todo⟩ }
  if succeeds && decide (s.data.Has artifact) then
    { s with
      data := s.data.update (·.filter fun entry => entry.name ≠ artifact.2) artifact.1
      removed := artifact :: s.removed }
  else s

/-- `none` when the action is not enabled. -/
def step (fleet : Fleet) (s : State) : Action → Option State
  | .acquire workspace =>
    match s.run with
    | some _ => none
    | none =>
      if workspace ∈ fleet.workspaces then some { s with run := some ⟨workspace, .building⟩ }
      else none
  | .build kind entry =>
    match s.run with
    | some ⟨_, .building⟩ =>
      some { s with
        data := s.data.update (fun entries => entry :: entries.filter (·.name ≠ entry.name)) kind
        removed := s.removed.filter (· ≠ (kind, entry.name)) }
    | _ => none
  | .commit manifest rollback =>
    match s.run with
    | some ⟨workspace, .building⟩ => s.commitStep fleet workspace manifest rollback
    | _ => none
  | .marker written =>
    match s.run with
    | some ⟨workspace, .committed⟩ => some (s.markerStep fleet workspace written)
    | _ => none
  | .plan unreadable unreadableMarkers =>
    match s.run with
    | some ⟨workspace, .marked markerError⟩ =>
      some (s.planStep fleet workspace markerError unreadable unreadableMarkers)
    | _ => none
  | .remove succeeds =>
    match s.run with
    | some ⟨workspace, .applying (artifact :: todo)⟩ =>
      some (s.removeStep workspace artifact todo succeeds)
    | _ => none
  | .release =>
    match s.run with
    | some _ => some { s with run := none }
    | none => none

/-- Nothing has been removed yet; the workspaces may have been used before. -/
def initial (databases : String → List Publication)
    (markers : String → Option GenerationRetentionMarker) (data : SidecarData) : State :=
  ⟨databases, markers, data, [], none⟩

/-- The artifact belongs to the active or the rollback generation of a workspace. -/
def Live (fleet : Fleet) (s : State) (artifact : Artifact) : Prop :=
  ∃ workspace ∈ fleet.workspaces, ∃ publication ∈ s.databases workspace,
    ∃ manifest ∈ publication.manifests, manifest.projectId = fleet.projectId ∧
      ∃ kind, manifest.artifact kind = some artifact

/-- The marker of the workspace names the generations of its committed publication. -/
def markerCovers (fleet : Fleet) (s : State) (workspace : String) : Bool :=
  (s.databases workspace).all fun publication => publication.manifests.all fun manifest =>
    manifest.projectId ≠ fleet.projectId ||
      (s.markers workspace).any fun marker =>
        marker.manifests.any fun named => named.key = manifest.key

/-- A scan comes when the marker of every workspace whose database it does not read covers
that workspace's publication. -/
def covered (fleet : Fleet) (s : State) : Action → Bool
  | .plan _ _ =>
    match s.run with
    | some ⟨caller, .marked _⟩ =>
      fleet.workspaces.all fun workspace =>
        workspace ∈ storagePathsForScan fleet caller || s.markerCovers fleet workspace
    | _ => true
  | _ => true

section Scan
variable {fleet : Fleet} {databases : String → List Publication}
  {markers : String → Option GenerationRetentionMarker} {caller workspace : String}
  {unreadable unreadableMarkers : List String} {manifest : RetrievalIndexManifest}

/-- The scan has a manifest with these generations. -/
def Protects (protection : RetentionProtectionScan) (manifest : RetrievalIndexManifest) : Prop :=
  ∃ kept, (kept ∈ protection.active ∨ kept ∈ protection.rollback) ∧ kept.key = manifest.key

theorem mem_publication_manifests {publication : Publication} :
    manifest ∈ publication.manifests ↔ manifest = publication.active ∨
      publication.rollback.map (·.manifest) = some manifest := by
  rw [Publication.manifests, List.mem_cons, Option.mem_toList]

theorem mem_marker_manifests {marker : GenerationRetentionMarker} :
    manifest ∈ marker.manifests ↔ manifest = marker.active ∨
      marker.rollback.map (·.manifest) = some manifest := by
  rw [GenerationRetentionMarker.manifests, List.mem_cons, Option.mem_toList]

/-- A database that the scan reads protects what it has, unless the scan fails. -/
theorem protects_of_publication (hscanned : workspace ∈ storagePathsForScan fleet caller)
    {publication : Publication} (hrow : publication ∈ databases workspace)
    (hmanifest : manifest ∈ publication.manifests)
    (herrors : scanErrors fleet databases markers caller unreadable unreadableMarkers = []) :
    Protects (scanRetentionProtection fleet databases markers caller unreadable unreadableMarkers)
      manifest := by
  have hreadable : isReadable databases unreadable workspace = true := by
    by_contra hreadable
    have hmem : workspace ∈ (storagePathsForScan fleet caller).filter
        (!isReadable databases unreadable ·) :=
      List.mem_filter.mpr ⟨hscanned, by simpa using hreadable⟩
    rw [List.map_eq_nil_iff.mp (List.append_eq_nil_iff.mp herrors).1] at hmem
    exact absurd hmem (by simp)
  have hpublication : publication ∈ scannedPublications fleet databases caller unreadable :=
    List.mem_flatMap.mpr ⟨workspace, List.mem_filter.mpr ⟨hscanned, hreadable⟩, hrow⟩
  rcases mem_publication_manifests.mp hmanifest with rfl | hrollback
  · obtain ⟨kept, hkept, hkey⟩ := mem_deduplicateManifests
      (List.mem_append_left ((scannedMarkers fleet markers unreadableMarkers).map (·.active))
        (List.mem_map_of_mem (f := (·.active)) hpublication))
    exact ⟨kept, .inl hkept, hkey⟩
  · have hmem : manifest ∈ (scannedPublications fleet databases caller unreadable).filterMap
        fun row => row.rollback.map (·.manifest) :=
      List.mem_filterMap.mpr ⟨publication, hpublication, hrollback⟩
    obtain ⟨kept, hkept, hkey⟩ := mem_deduplicateManifests
      (List.mem_append_left ((scannedMarkers fleet markers unreadableMarkers).filterMap
        fun marker => marker.rollback.map (·.manifest)) hmem)
    exact ⟨kept, .inr hkept, hkey⟩

/-- A marker protects what it names, unless the scan fails. -/
theorem protects_of_marker (hworkspace : workspace ∈ fleet.workspaces)
    {marker : GenerationRetentionMarker} (hmarker : markers workspace = some marker)
    (hmanifest : manifest ∈ marker.manifests)
    (herrors : scanErrors fleet databases markers caller unreadable unreadableMarkers = []) :
    Protects (scanRetentionProtection fleet databases markers caller unreadable unreadableMarkers)
      manifest := by
  have hread : workspace ∉ unreadableMarkers ∧ validateMarker marker = true := by
    by_contra hread
    have hmem : workspace ∈ fleet.workspaces.filter fun workspace =>
        (markers workspace).isSome && (workspace ∈ unreadableMarkers ||
          !(markers workspace).all validateMarker) := by
      refine List.mem_filter.mpr ⟨hworkspace, ?_⟩
      rw [hmarker]
      by_cases hunreadable : workspace ∈ unreadableMarkers
      · simp [hunreadable]
      · simpa [hunreadable] using hread
    rw [List.map_eq_nil_iff.mp (List.append_eq_nil_iff.mp herrors).2] at hmem
    exact absurd hmem (by simp)
  have hscanned : marker ∈ scannedMarkers fleet markers unreadableMarkers := by
    refine List.mem_filterMap.mpr ⟨workspace, ?_, ?_⟩
    · exact List.mem_filter.mpr ⟨hworkspace, decide_eq_true hread.1⟩
    · rw [hmarker, Option.filter_some, if_pos hread.2]
  rcases mem_marker_manifests.mp hmanifest with rfl | hrollback
  · obtain ⟨kept, hkept, hkey⟩ := mem_deduplicateManifests
      (List.mem_append_right ((scannedPublications fleet databases caller unreadable).map
        (·.active))
        (List.mem_map_of_mem (f := (·.active)) hscanned))
    exact ⟨kept, .inl hkept, hkey⟩
  · have hmem : manifest ∈ (scannedMarkers fleet markers unreadableMarkers).filterMap
        fun marker => marker.rollback.map (·.manifest) :=
      List.mem_filterMap.mpr ⟨marker, hscanned, hrollback⟩
    obtain ⟨kept, hkept, hkey⟩ := mem_deduplicateManifests
      (List.mem_append_right ((scannedPublications fleet databases caller unreadable).filterMap
        fun row => row.rollback.map (·.manifest)) hmem)
    exact ⟨kept, .inr hkept, hkey⟩

/-- What the scan protects is not removed. -/
theorem not_mem_removals_of_protects {projectId : String} {data : SidecarData}
    {protection : RetentionProtectionScan} (h : Protects protection manifest)
    (hproject : manifest.projectId = projectId) {kind : ArtifactKind} {artifact : Artifact}
    (hartifact : manifest.artifact kind = some artifact) :
    artifact ∉ (planGenerationRetention projectId data protection .reclaimable).removals := by
  obtain ⟨kept, hkept, hkey⟩ := h
  simp only [RetrievalIndexManifest.key, Prod.mk.injEq] at hkey
  obtain ⟨hkeptProject, hgeneration, hsemantic⟩ := hkey
  have hsame : kept.artifact kind = manifest.artifact kind := by
    cases kind with
    | lexical => simp only [RetrievalIndexManifest.artifact, hgeneration]
    | scip => simp only [RetrievalIndexManifest.artifact, hgeneration]
    | semantic => simp only [RetrievalIndexManifest.artifact, hsemantic]
  exact not_mem_removals hkept (hkeptProject.trans hproject) (hsame.trans hartifact)

end Scan

section Invariant
variable {fleet : Fleet} {s t : State}

/-- Nothing live has been removed or is about to be, and what was removed is not there. -/
structure Kept (fleet : Fleet) (s : State) : Prop where
  kept : ∀ artifact, s.Live fleet artifact → artifact ∉ s.removed
  gone : ∀ artifact ∈ s.removed, ¬ s.data.Has artifact
  pending : ∀ workspace todo, s.run = some ⟨workspace, .applying todo⟩ →
    ∀ artifact, s.Live fleet artifact → artifact ∉ todo
  owner : ∀ run, s.run = some run → run.workspace ∈ fleet.workspaces

theorem has_update {data : SidecarData} {f : List DirEntry → List DirEntry} {kind : ArtifactKind}
    {artifact : Artifact} :
    (data.update f kind).Has artifact ↔
      if artifact.1 = kind then artifact.2 ∈ (f (data.entries kind)).map (·.name)
      else data.Has artifact := by
  obtain ⟨k, name⟩ := artifact
  cases kind <;> cases k <;> simp [SidecarData.Has, SidecarData.update, SidecarData.entries]

/-- A run that has not planned removals keeps the invariant if it moves on. -/
theorem Kept.move (h : s.Kept fleet) {run : Option Run}
    (hrun : ∀ workspace todo, run ≠ some ⟨workspace, .applying todo⟩)
    (howner : ∀ r, run = some r → r.workspace ∈ fleet.workspaces) :
    ({ s with run := run } : State).Kept fleet :=
  ⟨h.kept, h.gone, fun workspace todo hrun' => absurd hrun' (hrun workspace todo), howner⟩

theorem Kept.build (h : s.Kept fleet) (hrun : ∀ w todo, s.run ≠ some ⟨w, .applying todo⟩)
    (kind : ArtifactKind) (entry : DirEntry) :
    ({ s with
      data := s.data.update (fun entries => entry :: entries.filter (·.name ≠ entry.name)) kind
      removed := s.removed.filter (· ≠ (kind, entry.name)) } : State).Kept fleet := by
  refine ⟨?_, ?_, fun w todo hrun' => absurd hrun' (hrun w todo), h.owner⟩
  · intro artifact hlive hremoved
    exact h.kept artifact hlive (List.mem_filter.mp hremoved).1
  · intro artifact hremoved hhas
    obtain ⟨hremoved, hne⟩ := List.mem_filter.mp hremoved
    have hne : artifact ≠ (kind, entry.name) := of_decide_eq_true hne
    rw [has_update] at hhas
    split at hhas
    · rename_i hkind
      rw [List.map_cons, List.mem_cons] at hhas
      rcases hhas with hname | hhas
      · exact hne (Prod.ext hkind hname)
      · obtain ⟨old, hold, hname⟩ := List.mem_map.mp hhas
        apply h.gone artifact hremoved
        unfold SidecarData.Has
        rw [hkind]
        exact List.mem_map.mpr ⟨old, (List.mem_filter.mp hold).1, hname⟩
    · exact h.gone artifact hremoved hhas

theorem validated_has {data : SidecarData} {projectId : String} {manifest : RetrievalIndexManifest}
    (h : validated data projectId manifest = true) {kind : ArtifactKind} {artifact : Artifact}
    (hartifact : manifest.artifact kind = some artifact) : data.Has artifact := by
  unfold validated at h
  rw [Bool.and_eq_true] at h
  have hkind := List.all_eq_true.mp h.2 kind (by cases kind <;> simp)
  rw [hartifact] at hkind
  exact of_decide_eq_true hkind

/-- The new publication was validated, so none of its artifacts has been removed. -/
theorem Kept.commitStep (h : s.Kept fleet) {workspace : String}
    (hworkspace : workspace ∈ fleet.workspaces) {manifest : RetrievalIndexManifest}
    {rollback : Option RetrievalIndexRollbackRecord}
    (hstep : s.commitStep fleet workspace manifest rollback = some t) : t.Kept fleet := by
  unfold State.commitStep at hstep
  split at hstep
  · rename_i hvalid
    simp only [Bool.and_eq_true] at hvalid
    obtain ⟨⟨hactive, hrollback⟩, -⟩ := hvalid
    obtain rfl := Option.some.inj hstep
    refine ⟨?_, h.gone, ?_, ?_⟩
    · rintro artifact ⟨w, hw, publication, hrow, m, hm, hproject, kind, hartifact⟩ hremoved
      dsimp only at hrow
      by_cases hsame : w = workspace
      · rw [hsame, Function.update_self] at hrow
        rcases List.mem_cons.mp hrow with rfl | hrow
        · rcases mem_publication_manifests.mp hm with rfl | hm
          · exact h.gone artifact hremoved (validated_has hactive hartifact)
          · obtain ⟨record, rfl, rfl⟩ := Option.map_eq_some_iff.mp hm
            exact h.gone artifact hremoved (validated_has hrollback hartifact)
        · exact h.kept artifact ⟨workspace, hworkspace, publication, (List.mem_filter.mp hrow).1, m,
            hm, hproject, kind, hartifact⟩ hremoved
      · rw [Function.update_of_ne hsame] at hrow
        exact h.kept artifact ⟨w, hw, publication, hrow, m, hm, hproject, kind, hartifact⟩ hremoved
    · intro w todo hrun
      exact absurd hrun (by simp)
    · intro run hrun
      obtain rfl := Option.some.inj hrun
      exact hworkspace
  · exact absurd hstep (by simp)

theorem Kept.markerStep (h : s.Kept fleet) {workspace : String}
    (hworkspace : workspace ∈ fleet.workspaces) (written : Bool) :
    (s.markerStep fleet workspace written).Kept fleet := by
  unfold State.markerStep
  dsimp only
  split
  · refine ⟨h.kept, h.gone, fun w todo hrun => absurd hrun (by simp), ?_⟩
    intro run hrun
    obtain rfl := Option.some.inj hrun
    exact hworkspace
  · apply h.move
    · simp
    · intro run hrun
      obtain rfl := Option.some.inj hrun
      exact hworkspace

/-- A plan that is made when the markers cover what the scan does not read removes nothing
live. -/
theorem Kept.planStep (h : s.Kept fleet) {workspace : String}
    (hworkspace : workspace ∈ fleet.workspaces) (markerError : Option RetentionError)
    (unreadable unreadableMarkers : List String)
    (hcovered : ∀ w ∈ fleet.workspaces,
      w ∈ storagePathsForScan fleet workspace ∨ s.markerCovers fleet w = true) :
    (s.planStep fleet workspace markerError unreadable unreadableMarkers).Kept fleet := by
  refine ⟨h.kept, h.gone, ?_, ?_⟩
  · intro w todo hrun artifact hlive hremoved
    obtain ⟨-, htodo⟩ := Run.mk.inj (Option.some.inj hrun)
    obtain rfl := RunPc.applying.inj htodo
    obtain ⟨v, hv, publication, hrow, m, hm, hproject, kind, hartifact⟩ := hlive
    -- a scan with errors plans no removal
    have herrors : scanErrors fleet s.databases s.markers workspace unreadable
        unreadableMarkers = [] := by
      obtain ⟨herrors, -⟩ := mem_removals hremoved
      unfold planErrors at herrors
      simp only [List.append_eq_nil_iff] at herrors
      obtain ⟨⟨⟨⟨⟨⟨herrors, -⟩, -⟩, -⟩, -⟩, -⟩, -⟩ := herrors
      exact (List.append_eq_nil_iff.mp herrors).1
    have hprotects : Protects (s.protection fleet workspace markerError unreadable
        unreadableMarkers) m := by
      rcases hcovered v hv with hscanned | hmarker
      · exact protects_of_publication hscanned hrow hm herrors
      · have hnamed := List.all_eq_true.mp (List.all_eq_true.mp hmarker publication hrow) m hm
        rw [Bool.or_eq_true, decide_eq_true_eq] at hnamed
        rcases hnamed with hother | hnamed
        · exact absurd hproject hother
        · obtain ⟨marker, hmarker, hnamed⟩ := Option.any_eq_true _ _ |>.mp hnamed
          obtain ⟨named, hnamed, hkey⟩ := List.any_eq_true.mp hnamed
          obtain ⟨kept, hkept, hkeptKey⟩ := protects_of_marker hv hmarker hnamed herrors
          exact ⟨kept, hkept, hkeptKey.trans (of_decide_eq_true hkey)⟩
    exact not_mem_removals_of_protects hprotects hproject hartifact hremoved
  · intro run hrun
    obtain rfl := Option.some.inj hrun
    exact hworkspace

theorem Kept.removeStep (h : s.Kept fleet) {workspace : String} {artifact : Artifact}
    {todo : List Artifact} (hrun : s.run = some ⟨workspace, .applying (artifact :: todo)⟩)
    (succeeds : Bool) : (s.removeStep workspace artifact todo succeeds).Kept fleet := by
  have hpending := h.pending workspace _ hrun
  have howner : ∀ run, some (⟨workspace, .applying todo⟩ : Run) = some run →
      run.workspace ∈ fleet.workspaces := by
    intro run hsome
    obtain rfl := Option.some.inj hsome
    have hworkspace := h.owner _ hrun
    exact hworkspace
  have htodo : ∀ w todo',
      some (⟨workspace, .applying todo⟩ : Run) = some ⟨w, .applying todo'⟩ →
        ∀ a, s.Live fleet a → a ∉ todo' := by
    intro w todo' hsome a hlive hmem
    obtain ⟨-, rfl⟩ : workspace = w ∧ todo = todo' := by simpa using hsome
    exact hpending a hlive (List.mem_cons_of_mem _ hmem)
  unfold State.removeStep
  dsimp only
  split
  · refine ⟨?_, ?_, htodo, howner⟩
    · intro a hlive hremoved
      rcases List.mem_cons.mp hremoved with rfl | hremoved
      · exact hpending a hlive List.mem_cons_self
      · exact h.kept a hlive hremoved
    · intro a hremoved hhas
      rw [has_update] at hhas
      rcases List.mem_cons.mp hremoved with rfl | hremoved
      · rw [if_pos rfl] at hhas
        obtain ⟨entry, hentry, hname⟩ := List.mem_map.mp hhas
        exact absurd hname (of_decide_eq_true (List.mem_filter.mp hentry).2)
      · apply h.gone a hremoved
        split at hhas
        · rename_i hkind
          obtain ⟨entry, hentry, hname⟩ := List.mem_map.mp hhas
          unfold SidecarData.Has
          rw [hkind]
          exact List.mem_map.mpr ⟨entry, (List.mem_filter.mp hentry).1, hname⟩
        · exact hhas
  · exact ⟨h.kept, h.gone, htodo, howner⟩

theorem step_kept (h : s.Kept fleet) {action : Action} (hcovered : s.covered fleet action = true)
    (hstep : step fleet s action = some t) : t.Kept fleet := by
  cases action with
  | acquire workspace =>
    simp only [step] at hstep
    split at hstep
    · exact absurd hstep (by simp)
    · split at hstep
      · rename_i hworkspace
        obtain rfl := Option.some.inj hstep
        apply h.move
        · simp
        · intro run hrun
          obtain rfl := Option.some.inj hrun
          exact hworkspace
      · exact absurd hstep (by simp)
  | build kind entry =>
    simp only [step] at hstep
    split at hstep
    · rename_i hrun
      obtain rfl := Option.some.inj hstep
      exact h.build (by simp [hrun]) kind entry
    · exact absurd hstep (by simp)
  | commit manifest rollback =>
    simp only [step] at hstep
    split at hstep
    · rename_i hrun
      exact h.commitStep (h.owner _ hrun) hstep
    · exact absurd hstep (by simp)
  | marker written =>
    simp only [step] at hstep
    split at hstep
    · rename_i hrun
      obtain rfl := Option.some.inj hstep
      exact h.markerStep (h.owner _ hrun) written
    · exact absurd hstep (by simp)
  | plan unreadable unreadableMarkers =>
    simp only [step] at hstep
    split at hstep
    · rename_i workspace markerError hrun
      obtain rfl := Option.some.inj hstep
      simp only [covered, hrun] at hcovered
      apply h.planStep (h.owner _ hrun)
      intro w hw
      have hw := List.all_eq_true.mp hcovered w hw
      rw [Bool.or_eq_true, decide_eq_true_eq] at hw
      exact hw
    · exact absurd hstep (by simp)
  | remove succeeds =>
    simp only [step] at hstep
    split at hstep
    · rename_i hrun
      obtain rfl := Option.some.inj hstep
      exact h.removeStep hrun succeeds
    · exact absurd hstep (by simp)
  | release =>
    simp only [step] at hstep
    split at hstep
    · obtain rfl := Option.some.inj hstep
      exact h.move (by simp) (by simp)
    · exact absurd hstep (by simp)

end Invariant

/-- In every run in which each scan comes when the markers cover the workspaces whose
databases it does not read, nothing of a live generation has been removed. -/
theorem live_generations_kept (fleet : Fleet) (databases : String → List Publication)
    (markers : String → Option GenerationRetentionMarker) (data : SidecarData) {s : State}
    (hreach : Reach (guarded (fun s action => s.covered fleet action = true) (step fleet))
      (initial databases markers data) s) :
    ∀ artifact, s.Live fleet artifact → artifact ∉ s.removed := by
  have hinitial : (initial databases markers data).Kept fleet :=
    ⟨by simp [initial], by simp [initial], by simp [initial], by simp [initial]⟩
  have hkept : s.Kept fleet := by
    refine hreach.invariant ?_ hinitial
    intro s action t h hstep
    obtain ⟨hcovered, hstep⟩ := guarded_eq_some.mp hstep
    exact step_kept h hcovered hstep
  exact hkept.kept

/-- Two workspaces; the database of `b` is outside the cache root. -/
def twoWorkspaces : Fleet := ⟨"p", ["a", "b"], fun workspace => workspace = "a"⟩

def manifestOf (hash : String) : RetrievalIndexManifest where
  projectId := "p"
  lexicalVersion := lexicalIndexVersion
  semanticGeneration := "codestory_p_" ++ hash
  scipRevision := none
  sidecarSchemaVersion := some sidecarSchemaVersion
  sidecarInputHash := some hash
  sidecarGeneration := some ("p-" ++ hash)
  projectionCount := some 0
  denseProjectionCount := some 0

def fresh : State := initial (fun _ => []) (fun _ => none) ⟨[], [], []⟩

/-- A workspace builds and commits a generation. -/
def publishing (workspace hash : String) : List Action :=
  [.acquire workspace, .build .lexical ⟨"p-" ++ hash, true, some 1⟩,
    .build .scip ⟨"p-" ++ hash, true, some 1⟩,
    .build .semantic ⟨"codestory_p_" ++ hash, true, some 1⟩, .commit (manifestOf hash) none]

/-- `b` completes its run, a build of `a` is left over, and the next run of `a` removes it. -/
theorem live_generations_kept_leftover :
    let s := after (guarded (fun s action => s.covered twoWorkspaces action = true)
        (step twoWorkspaces)) fresh
      (publishing "b" "bbbbbbbbbbbbbbbb" ++ [Action.marker true, .plan [] [], .release] ++
        (publishing "a" "cccccccccccccccc").take 4 ++ [Action.release] ++
        publishing "a" "aaaaaaaaaaaaaaaa" ++
        [Action.marker true, .plan [] [], .remove true, .remove true, .remove true])
    s.removed = [(.scip, "p-cccccccccccccccc"), (.lexical, "p-cccccccccccccccc"),
        (.semantic, "codestory_p_cccccccccccccccc")] ∧
      s.Live twoWorkspaces (.lexical, "p-bbbbbbbbbbbbbbbb") ∧
      (.lexical, "p-bbbbbbbbbbbbbbbb") ∉ s.removed := by
  intro s
  have hrow : ⟨manifestOf "bbbbbbbbbbbbbbbb", none⟩ ∈ s.databases "b" := by decide
  have hlive : s.Live twoWorkspaces (.lexical, "p-bbbbbbbbbbbbbbbb") :=
    ⟨"b", by decide, _, hrow, _, List.mem_cons_self, by decide, .lexical, by decide⟩
  exact ⟨by decide, hlive, live_generations_kept twoWorkspaces _ _ _ (reach_after ..) _
    hlive⟩

/-- `b` stops between its commit and its marker; the next run of `a` removes what `b` has
published. -/
theorem live_generation_removed :
    ∃ s, Reach (step twoWorkspaces) fresh s ∧
      s.Live twoWorkspaces (.lexical, "p-bbbbbbbbbbbbbbbb") ∧
      (.lexical, "p-bbbbbbbbbbbbbbbb") ∈ s.removed := by
  refine ⟨after (step twoWorkspaces) fresh (publishing "b" "bbbbbbbbbbbbbbbb" ++ [Action.release] ++
    publishing "a" "aaaaaaaaaaaaaaaa" ++
    [Action.marker true, .plan [] [], .remove true, .remove true]), reach_after .., ?_, ?_⟩
  · exact ⟨"b", by decide, ⟨manifestOf "bbbbbbbbbbbbbbbb", none⟩, by decide, _,
      List.mem_cons_self, by decide, .lexical, by decide⟩
  · decide +kernel

end State

end CodeStory.Retrieval
