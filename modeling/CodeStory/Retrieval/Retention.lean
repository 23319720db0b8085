import Mathlib.Algebra.Ring.Nat
import CodeStory.Lib.Selection
import CodeStory.Retrieval.Manifest

/-!
# Retention of sidecar generations

`scan_retention_protection`, `plan_generation_retention` and what `apply_generation_retention`
removes, for one sidecar layout. A name stands for the path that ends in it, since the layout
fixes the directory of each kind of artifact. Of a failure only where it happened is kept.
The time stamps of markers and the byte counts of the report are left out.
-/

set_option autoImplicit false

namespace CodeStory.Retrieval

structure RetrievalIndexRollbackRecord where
  manifest : RetrievalIndexManifest
  verifiedAtEpochMs : Int
  deriving DecidableEq, Repr

/-- The current manifest and the rollback pointer of one row. -/
structure Publication where
  active : RetrievalIndexManifest
  rollback : Option RetrievalIndexRollbackRecord
  deriving DecidableEq, Repr

def Publication.manifests (publication : Publication) : List RetrievalIndexManifest :=
  publication.active :: (publication.rollback.map (·.manifest)).toList

inductive ManifestFault where
  | missingGeneration
  | noncanonicalGeneration
  | mismatchedGenerations
  deriving DecidableEq, Repr

def canonicalManifestGeneration (manifest : RetrievalIndexManifest) :
    Except ManifestFault String :=
  match manifest.sidecarGeneration with
  | none => .error .missingGeneration
  | some generation =>
    match canonicalGenerationSuffix manifest.projectId generation with
    | none => .error .noncanonicalGeneration
    | some suffix =>
      if manifest.semanticGeneration ≠ collectionLead manifest.projectId ++ suffix then
        .error .mismatchedGenerations
      else .ok generation

/-- What a canonical manifest names. -/
theorem canonicalManifestGeneration_eq {manifest : RetrievalIndexManifest} {generation : String}
    (h : canonicalManifestGeneration manifest = .ok generation) :
    ∃ suffix, manifest.sidecarGeneration = some generation ∧
      generation = generationLead manifest.projectId ++ suffix ∧
      manifest.semanticGeneration = collectionLead manifest.projectId ++ suffix := by
  unfold canonicalManifestGeneration at h
  split at h
  · exact absurd h (by simp)
  · rename_i generation' hgeneration
    split at h
    · exact absurd h (by simp)
    · rename_i suffix hsuffix
      split at h
      · exact absurd h (by simp)
      · rename_i hsemantic
        obtain rfl := Except.ok.inj h
        exact ⟨suffix, hgeneration, canonicalGenerationSuffix_eq hsuffix, not_not.mp hsemantic⟩

inductive ArtifactKind where
  | lexical
  | scip
  | semantic
  deriving DecidableEq, Repr

/-- An artifact directory of the layout. -/
abbrev Artifact := ArtifactKind × String

/-- An entry of an artifact root. `size` is absent when it cannot be measured. -/
structure DirEntry where
  name : String
  isDirectory : Bool
  size : Option Nat
  deriving DecidableEq, Repr

/-- The three artifact roots of the layout, as listed. -/
structure SidecarData where
  lexical : List DirEntry
  scip : List DirEntry
  semantic : List DirEntry
  deriving DecidableEq, Repr

def SidecarData.entries (data : SidecarData) : ArtifactKind → List DirEntry
  | .lexical => data.lexical
  | .scip => data.scip
  | .semantic => data.semantic

def SidecarData.update (data : SidecarData) (f : List DirEntry → List DirEntry) :
    ArtifactKind → SidecarData
  | .lexical => { data with lexical := f data.lexical }
  | .scip => { data with scip := f data.scip }
  | .semantic => { data with semantic := f data.semantic }

def SidecarData.Has (data : SidecarData) (artifact : Artifact) : Prop :=
  artifact.2 ∈ (data.entries artifact.1).map (·.name)

instance (data : SidecarData) (artifact : Artifact) : Decidable (data.Has artifact) :=
  inferInstanceAs (Decidable (artifact.2 ∈ (data.entries artifact.1).map (·.name)))

/-- The directory of this kind that a manifest refers to. -/
def RetrievalIndexManifest.artifact (manifest : RetrievalIndexManifest) :
    ArtifactKind → Option Artifact
  | .lexical => manifest.sidecarGeneration.map fun generation => (.lexical, generation)
  | .scip => manifest.sidecarGeneration.map fun generation => (.scip, generation)
  | .semantic => some (.semantic, manifest.semanticGeneration)

inductive ProtectionRole where
  | active
  | sharedActive
  | sharedRollback
  | authoritativeRollback
  deriving DecidableEq, Repr

/-- Why `read_direct_directory` or `direct_directory_exists_or_missing` gives up on a root. -/
inductive RootFault where
  | uninspectable
  | notDirect
  | unlistable
  deriving DecidableEq, Repr

inductive RetentionError where
  | scanManifests (workspace : String)
  | scanMarker (workspace : String)
  | publishMarker
  | unsafeEvidence (role : ProtectionRole) (fault : ManifestFault)
  | noActiveGeneration
  | dataRoot (kind : ArtifactKind) (fault : RootFault)
  | artifactRoot (kind : ArtifactKind) (fault : RootFault)
  | readEntry (kind : ArtifactKind)
  | unsafeEntry (kind : ArtifactKind) (name reason : String)
  | measure (kind : ArtifactKind) (name : String)
  deriving DecidableEq, Repr

structure GenerationRetentionMarker where
  workspaceId : String
  projectId : String
  active : RetrievalIndexManifest
  rollback : Option RetrievalIndexRollbackRecord
  deriving DecidableEq, Repr

def GenerationRetentionMarker.manifests (marker : GenerationRetentionMarker) :
    List RetrievalIndexManifest :=
  marker.active :: (marker.rollback.map (·.manifest)).toList

/-- `validate_retention_component` -/
def isRetentionComponent (component : String) : Bool :=
  component ≠ "" && component.toList.all fun c => c.isAlphanum || c = '-' || c = '_'

def validateMarker (marker : GenerationRetentionMarker) : Bool :=
  isRetentionComponent marker.workspaceId && marker.projectId = marker.active.projectId &&
    match canonicalManifestGeneration marker.active with
    | .error _ => false
    | .ok activeGeneration =>
      match marker.rollback with
      | none => true
      | some rollback =>
        rollback.manifest.projectId = marker.projectId &&
          match canonicalManifestGeneration rollback.manifest with
          | .error _ => false
          | .ok generation => generation ≠ activeGeneration

/-- `GenerationRetentionMarker::next` -/
def GenerationRetentionMarker.next (workspaceId : String) (active : RetrievalIndexManifest)
    (verifiedPrevious : Option RetrievalIndexRollbackRecord) :
    Option GenerationRetentionMarker :=
  if isRetentionComponent workspaceId then
    match canonicalManifestGeneration active with
    | .error _ => none
    | .ok activeGeneration =>
      let rollback := verifiedPrevious.filter fun rollback =>
        rollback.manifest.projectId = active.projectId &&
          match canonicalManifestGeneration rollback.manifest with
          | .error _ => false
          | .ok generation => generation ≠ activeGeneration
      let marker : GenerationRetentionMarker := ⟨workspaceId, active.projectId, active, rollback⟩
      if validateMarker marker then some marker else none
  else none

structure RetentionProtectionScan where
  authoritativeActive : List RetrievalIndexManifest
  authoritativeRollback : List RetrievalIndexManifest
  active : List RetrievalIndexManifest
  rollback : List RetrievalIndexManifest
  errors : List RetentionError
  deriving DecidableEq, Repr

section Deduplicate

abbrev ManifestKey := String × Option String × String

def RetrievalIndexManifest.key (manifest : RetrievalIndexManifest) : ManifestKey :=
  (manifest.projectId, manifest.sidecarGeneration, manifest.semanticGeneration)

/-- The order of tuples, with `None` before every `Some`. -/
def ManifestKey.le : ManifestKey → ManifestKey → Bool
  | (p, g, s), (p', g', s') =>
    p < p' || (p = p' &&
      match g, g' with
      | none, none => s ≤ s'
      | none, some _ => true
      | some _, none => false
      | some g, some g' => g < g' || (g = g' && s ≤ s'))

def deduplicateManifests (manifests : List RetrievalIndexManifest) :
    List RetrievalIndexManifest :=
  (manifests.insertionSort fun left right => left.key.le right.key = true).destutter
    fun left right => left.key ≠ right.key

/-- A manifest is dropped only for one with the same generations. -/
theorem mem_deduplicateManifests {manifests : List RetrievalIndexManifest}
    {manifest : RetrievalIndexManifest} (h : manifest ∈ manifests) :
    ∃ kept ∈ deduplicateManifests manifests, kept.key = manifest.key := by
  have hsorted := (List.mem_insertionSort
    (fun left right : RetrievalIndexManifest => left.key.le right.key = true)).mpr h
  exact Selection.exists_mem_destutter RetrievalIndexManifest.key hsorted

end Deduplicate

inductive GenerationRetentionState where
  | active
  | rollback
  | building
  | reclaimable
  deriving DecidableEq, Repr

structure GenerationArtifact where
  name : String
  bytes : Nat
  deriving DecidableEq, Repr

structure GenerationBundle where
  generation : String
  semanticGeneration : String
  state : GenerationRetentionState
  lexical : Option GenerationArtifact
  scip : Option GenerationArtifact
  semantic : Option GenerationArtifact
  bytes : Nat
  deriving DecidableEq, Repr

structure GenerationRetentionPlan where
  pruningSuppressed : Bool
  activeBytes : Nat
  rollbackBytes : Nat
  buildingBytes : Nat
  retainedBytes : Nat
  reclaimableBytes : Nat
  bundles : List GenerationBundle
  blocked : List (Artifact × String)
  errors : List RetentionError
  deriving DecidableEq, Repr

def saturatingAdd (a b : Nat) : Nat := min (a + b) (2 ^ 64 - 1)

section Discover

/-- What an entry of an artifact root is to the plan. -/
inductive Discovery where
  | other
  | artifact (generation : String) (artifact : GenerationArtifact)
  | blocked (reason : String)
  | unmeasured
  deriving DecidableEq, Repr

def ArtifactKind.lead (projectId : String) : ArtifactKind → String
  | .lexical => generationLead projectId
  | .scip => generationLead projectId
  | .semantic => collectionLead projectId

def ArtifactKind.suffix (projectId name : String) : ArtifactKind → Option String
  | .lexical => canonicalGenerationSuffix projectId name
  | .scip => canonicalGenerationSuffix projectId name
  | .semantic => canonicalCollectionSuffix projectId name

def ArtifactKind.malformed : ArtifactKind → String
  | .semantic => "malformed semantic vector generation name"
  | _ => "malformed generation name"

def ArtifactKind.notDirect : ArtifactKind → String
  | .semantic => "semantic vector generation entry is not a direct directory"
  | _ => "generation entry is not a direct directory"

/-- One turn of `discover_generation_dirs` and of `discover_vector_generations`. -/
def discover (projectId : String) (kind : ArtifactKind) (entry : DirEntry) : Discovery :=
  if (stripLead (kind.lead projectId) entry.name).isNone then .other
  else
    match kind.suffix projectId entry.name with
    | none => .blocked kind.malformed
    | some suffix =>
      if entry.isDirectory = false then .blocked kind.notDirect
      else
        match entry.size with
        | none => .unmeasured
        | some bytes => .artifact (generationLead projectId ++ suffix) ⟨entry.name, bytes⟩

def Discovery.error (kind : ArtifactKind) (name : String) : Discovery → Option RetentionError
  | .other => none
  | .artifact _ _ => none
  | .blocked reason => some (.unsafeEntry kind name reason)
  | .unmeasured => some (.measure kind name)

def Discovery.generation : Discovery → Option String
  | .artifact generation _ => some generation
  | _ => none

/-- The artifact of a generation in a root, as the builders have it. -/
def discovered (projectId : String) (kind : ArtifactKind) (entries : List DirEntry)
    (generation : String) : Option GenerationArtifact :=
  entries.reverse.findSome? fun entry =>
    match discover projectId kind entry with
    | .artifact g artifact => if g = generation then some artifact else none
    | _ => none

def discoveryErrors (projectId : String) (data : SidecarData) (kind : ArtifactKind) :
    List RetentionError :=
  (data.entries kind).filterMap fun entry =>
    (discover projectId kind entry).error kind entry.name

def discoveryBlocked (projectId : String) (data : SidecarData) (kind : ArtifactKind) :
    List (Artifact × String) :=
  (data.entries kind).filterMap fun entry =>
    match discover projectId kind entry with
    | .blocked reason => some ((kind, entry.name), reason)
    | _ => none

def discoveredGenerations (projectId : String) (data : SidecarData) (kind : ArtifactKind) :
    List String :=
  (data.entries kind).filterMap fun entry => (discover projectId kind entry).generation

end Discover

def collectProtectedGenerations (projectId : String) (manifests : List RetrievalIndexManifest) :
    List String :=
  (manifests.filter (·.projectId = projectId)).filterMap fun manifest =>
    (canonicalManifestGeneration manifest).toOption

def protectionErrors (projectId : String) (role : ProtectionRole)
    (manifests : List RetrievalIndexManifest) : List RetentionError :=
  (manifests.filter (·.projectId = projectId)).filterMap fun manifest =>
    match canonicalManifestGeneration manifest with
    | .error fault => some (.unsafeEvidence role fault)
    | .ok _ => none

/-- `BundleBuilder::finish` -/
def finishBundle (projectId : String) (data : SidecarData) (generation : String)
    (state : GenerationRetentionState) : GenerationBundle :=
  let lexical := discovered projectId .lexical data.lexical generation
  let scip := discovered projectId .scip data.scip generation
  let semantic := discovered projectId .semantic data.semantic generation
  let bytes := [lexical, scip, semantic].reduceOption.foldl
    (fun total artifact => saturatingAdd total artifact.bytes) 0
  -- a planned generation has the lead: see `planned_suffix`
  let suffix := (stripLead (generationLead projectId) generation).getD ""
  ⟨generation, collectionLead projectId ++ suffix, state, lexical, scip, semantic, bytes⟩

def bytesFor (bundles : List GenerationBundle) (state : GenerationRetentionState) : Nat :=
  (bundles.filter (·.state = state)).foldl (fun total bundle => saturatingAdd total bundle.bytes) 0

def plannedGenerations (projectId : String) (data : SidecarData)
    (protection : RetentionProtectionScan) : List String :=
  let kinds := [ArtifactKind.lexical, .scip, .semantic]
  (kinds.flatMap (discoveredGenerations projectId data) ++
    collectProtectedGenerations projectId protection.authoritativeActive ++
    collectProtectedGenerations projectId protection.active ++
    collectProtectedGenerations projectId protection.rollback ++
    collectProtectedGenerations projectId protection.authoritativeRollback).dedup.insertionSort
      (· ≤ ·)

def planErrors (projectId : String) (data : SidecarData) (protection : RetentionProtectionScan) :
    List RetentionError :=
  let kinds := [ArtifactKind.lexical, .scip, .semantic]
  let active := collectProtectedGenerations projectId protection.authoritativeActive ++
    collectProtectedGenerations projectId protection.active
  protection.errors ++ kinds.flatMap (discoveryErrors projectId data) ++
    protectionErrors projectId .active protection.authoritativeActive ++
    protectionErrors projectId .sharedActive protection.active ++
    protectionErrors projectId .sharedRollback protection.rollback ++
    protectionErrors projectId .authoritativeRollback protection.authoritativeRollback ++
    if active = [] then [.noActiveGeneration] else []

/-- `plan_generation_retention_with_unrooted_state` -/
def planGenerationRetention (projectId : String) (data : SidecarData)
    (protection : RetentionProtectionScan) (unrooted : GenerationRetentionState) :
    GenerationRetentionPlan :=
  let kinds := [ArtifactKind.lexical, .scip, .semantic]
  let active := collectProtectedGenerations projectId protection.authoritativeActive ++
    collectProtectedGenerations projectId protection.active
  let rollback := collectProtectedGenerations projectId protection.rollback ++
    collectProtectedGenerations projectId protection.authoritativeRollback
  let errors := planErrors projectId data protection
  let effective := if errors = [] then unrooted else .building
  let bundles := (plannedGenerations projectId data protection).map fun generation =>
    finishBundle projectId data generation
      (if generation ∈ active then .active
      else if generation ∈ rollback then .rollback
      else effective)
  let activeBytes := bytesFor bundles .active
  let rollbackBytes := bytesFor bundles .rollback
  let buildingBytes := bytesFor bundles .building
  { pruningSuppressed := effective = .building
    activeBytes := activeBytes
    rollbackBytes := rollbackBytes
    buildingBytes := buildingBytes
    retainedBytes := saturatingAdd (saturatingAdd activeBytes rollbackBytes) buildingBytes
    reclaimableBytes := bytesFor bundles .reclaimable
    bundles := bundles
    blocked := kinds.flatMap (discoveryBlocked projectId data)
    errors := errors }

/-- What `apply_generation_retention` removes, in its order. -/
def GenerationRetentionPlan.removals (plan : GenerationRetentionPlan) : List Artifact :=
  if plan.pruningSuppressed then []
  else
    (plan.bundles.filter (·.state = .reclaimable)).flatMap fun bundle =>
      (.semantic, bundle.semanticGeneration) ::
        ((bundle.lexical.map fun artifact => (ArtifactKind.lexical, artifact.name)).toList ++
          (bundle.scip.map fun artifact => (ArtifactKind.scip, artifact.name)).toList)

section Plan
variable {projectId : String} {data : SidecarData} {protection : RetentionProtectionScan}

theorem discover_artifact {kind : ArtifactKind} {entry : DirEntry} {generation : String}
    {artifact : GenerationArtifact}
    (h : discover projectId kind entry = .artifact generation artifact) :
    ∃ suffix, generation = generationLead projectId ++ suffix ∧
      kind.suffix projectId entry.name = some suffix ∧ artifact.name = entry.name := by
  unfold discover at h
  split at h
  · exact absurd h (by simp)
  · split at h
    · exact absurd h (by simp)
    · rename_i suffix hsuffix
      split at h
      · exact absurd h (by simp)
      · split at h
        · exact absurd h (by simp)
        · obtain ⟨rfl, rfl⟩ := Discovery.artifact.inj h
          exact ⟨suffix, rfl, hsuffix, rfl⟩

/-- A directory that the plan found for a generation is named after it. -/
theorem discovered_name {kind : ArtifactKind} {entries : List DirEntry} {generation : String}
    {artifact : GenerationArtifact}
    (h : discovered projectId kind entries generation = some artifact) :
    ∃ suffix, generation = generationLead projectId ++ suffix ∧
      artifact.name = kind.lead projectId ++ suffix := by
  obtain ⟨entry, -, hentry⟩ := List.exists_of_findSome?_eq_some h
  split at hentry
  · rename_i g artifact' hdiscover
    split at hentry
    · rename_i hgeneration
      obtain rfl := Option.some.inj hentry
      subst hgeneration
      obtain ⟨suffix, hgeneration, hsuffix, hname⟩ := discover_artifact hdiscover
      refine ⟨suffix, hgeneration, hname.trans ?_⟩
      cases kind with
      | lexical => exact canonicalGenerationSuffix_eq hsuffix
      | scip => exact canonicalGenerationSuffix_eq hsuffix
      | semantic => exact canonicalCollectionSuffix_eq hsuffix
    · exact absurd hentry (by simp)
  · exact absurd hentry (by simp)

theorem mem_collectProtectedGenerations {manifests : List RetrievalIndexManifest}
    {generation : String} :
    generation ∈ collectProtectedGenerations projectId manifests ↔
      ∃ manifest ∈ manifests, manifest.projectId = projectId ∧
        canonicalManifestGeneration manifest = .ok generation := by
  unfold collectProtectedGenerations
  rw [List.mem_filterMap]
  constructor
  · rintro ⟨manifest, hmanifest, hgeneration⟩
    rw [List.mem_filter] at hmanifest
    refine ⟨manifest, hmanifest.1, of_decide_eq_true hmanifest.2, ?_⟩
    cases hcanonical : canonicalManifestGeneration manifest with
    | error fault =>
      rw [hcanonical] at hgeneration
      exact absurd hgeneration (by simp [Except.toOption])
    | ok g =>
      rw [hcanonical] at hgeneration
      exact congrArg Except.ok (Option.some.inj hgeneration)
  · rintro ⟨manifest, hmanifest, hproject, hgeneration⟩
    refine ⟨manifest, List.mem_filter.mpr ⟨hmanifest, decide_eq_true hproject⟩, ?_⟩
    rw [hgeneration]
    rfl

theorem collected_suffix {manifests : List RetrievalIndexManifest} {generation : String}
    (h : generation ∈ collectProtectedGenerations projectId manifests) :
    ∃ suffix, generation = generationLead projectId ++ suffix := by
  obtain ⟨manifest, -, rfl, hgeneration⟩ := mem_collectProtectedGenerations.mp h
  obtain ⟨suffix, -, hsuffix, -⟩ := canonicalManifestGeneration_eq hgeneration
  exact ⟨suffix, hsuffix⟩

/-- The `expect` of `BundleBuilder::finish`: every planned generation is canonical. -/
theorem planned_suffix {generation : String}
    (h : generation ∈ plannedGenerations projectId data protection) :
    ∃ suffix, generation = generationLead projectId ++ suffix := by
  unfold plannedGenerations at h
  rw [List.mem_insertionSort, List.mem_dedup] at h
  simp only [List.mem_append] at h
  rcases h with (((h | h) | h) | h) | h
  · obtain ⟨kind, -, hkind⟩ := List.mem_flatMap.mp h
    obtain ⟨entry, -, hentry⟩ := List.mem_filterMap.mp hkind
    cases hdiscover : discover projectId kind entry with
    | artifact g artifact =>
      rw [hdiscover] at hentry
      obtain rfl : g = generation := Option.some.inj hentry
      obtain ⟨suffix, hsuffix, -⟩ := discover_artifact hdiscover
      exact ⟨suffix, hsuffix⟩
    | other | blocked reason | unmeasured => simp [hdiscover, Discovery.generation] at hentry
  · exact collected_suffix h
  · exact collected_suffix h
  · exact collected_suffix h
  · exact collected_suffix h

/-- Without errors, a removal is of a generation that nothing protects. -/
theorem mem_removals {artifact : Artifact}
    (h : artifact ∈ (planGenerationRetention projectId data protection .reclaimable).removals) :
    planErrors projectId data protection = [] ∧
      ∃ suffix, artifact.2 = artifact.1.lead projectId ++ suffix ∧
        ∀ manifests ∈ [protection.authoritativeActive, protection.active, protection.rollback,
            protection.authoritativeRollback],
          generationLead projectId ++ suffix ∉ collectProtectedGenerations projectId manifests := by
  unfold GenerationRetentionPlan.removals at h
  split at h
  · exact absurd h (by simp)
  · rename_i hsuppressed
    have herrors : planErrors projectId data protection = [] := by
      by_contra herrors
      apply hsuppressed
      simp [planGenerationRetention, herrors]
    refine ⟨herrors, ?_⟩
    obtain ⟨bundle, hbundle, hartifact⟩ := List.mem_flatMap.mp h
    obtain ⟨hbundle, hstate⟩ := List.mem_filter.mp hbundle
    obtain ⟨generation, hplanned, rfl⟩ := List.mem_map.mp hbundle
    have hunrooted : generation ∉ collectProtectedGenerations projectId
          protection.authoritativeActive ++ collectProtectedGenerations projectId
          protection.active ∧ generation ∉ collectProtectedGenerations projectId
          protection.rollback ++ collectProtectedGenerations projectId
          protection.authoritativeRollback := by
      constructor
      · intro hactive
        simp [finishBundle, List.mem_append.mp hactive] at hstate
      · intro hrollback
        simp only [finishBundle] at hstate
        split at hstate
        · exact absurd hstate (by simp)
        · exact absurd hstate (by simp)
    have hprotected : ∀ manifests ∈ [protection.authoritativeActive, protection.active,
        protection.rollback, protection.authoritativeRollback],
        generation ∉ collectProtectedGenerations projectId manifests := by
      simp only [List.mem_append, not_or] at hunrooted
      simp [hunrooted]
    obtain ⟨suffix, hsuffix⟩ := planned_suffix hplanned
    -- the vector directory is named after the generation, the others were found under it
    rcases List.mem_cons.mp hartifact with rfl | hartifact
    · refine ⟨suffix, ?_, by rw [← hsuffix]; exact hprotected⟩
      simp [finishBundle, ArtifactKind.lead, stripLead_eq_some.mpr hsuffix]
    · rcases List.mem_append.mp hartifact with hartifact | hartifact
      · obtain ⟨found, hfound, rfl⟩ := Option.map_eq_some_iff.mp (Option.mem_toList.mp hartifact)
        obtain ⟨suffix', hsuffix', hname⟩ := discovered_name hfound
        exact ⟨suffix', hname, by rw [← hsuffix']; exact hprotected⟩
      · obtain ⟨found, hfound, rfl⟩ := Option.map_eq_some_iff.mp (Option.mem_toList.mp hartifact)
        obtain ⟨suffix', hsuffix', hname⟩ := discovered_name hfound
        exact ⟨suffix', hname, by rw [← hsuffix']; exact hprotected⟩

/-- Without errors, every manifest of the project that was scanned is canonical. -/
theorem canonical_of_planErrors (h : planErrors projectId data protection = [])
    {manifests : List RetrievalIndexManifest}
    (hmanifests : manifests = protection.active ∨ manifests = protection.rollback)
    {manifest : RetrievalIndexManifest} (hmem : manifest ∈ manifests)
    (hproject : manifest.projectId = projectId) :
    ∃ generation, canonicalManifestGeneration manifest = .ok generation := by
  unfold planErrors at h
  simp only [List.append_eq_nil_iff] at h
  obtain ⟨⟨⟨⟨⟨-, -⟩, hactive⟩, hrollback⟩, -⟩, -⟩ := h
  have hnone : ∀ role, protectionErrors projectId role manifests = [] →
      ∃ generation, canonicalManifestGeneration manifest = .ok generation := by
    intro role hrole
    cases hcanonical : canonicalManifestGeneration manifest with
    | ok generation => exact ⟨generation, rfl⟩
    | error fault =>
      have hfault := List.filterMap_eq_nil_iff.mp hrole manifest
        (List.mem_filter.mpr ⟨hmem, decide_eq_true hproject⟩)
      rw [hcanonical] at hfault
      exact absurd hfault (by simp)
  rcases hmanifests with rfl | rfl
  · exact hnone _ hactive
  · exact hnone _ hrollback

/-- What a scanned manifest refers to is not removed. -/
theorem not_mem_removals {manifest : RetrievalIndexManifest}
    (hmem : manifest ∈ protection.active ∨ manifest ∈ protection.rollback)
    (hproject : manifest.projectId = projectId) {kind : ArtifactKind} {artifact : Artifact}
    (hartifact : manifest.artifact kind = some artifact) :
    artifact ∉ (planGenerationRetention projectId data protection .reclaimable).removals := by
  intro hremoved
  obtain ⟨herrors, suffix, hname, hfree⟩ := mem_removals hremoved
  obtain ⟨manifests, hmanifests, hlisted, hmem⟩ :
      ∃ manifests, (manifests = protection.active ∨ manifests = protection.rollback) ∧
        manifests ∈ [protection.authoritativeActive, protection.active, protection.rollback,
            protection.authoritativeRollback] ∧ manifest ∈ manifests := by
    rcases hmem with hmem | hmem
    · exact ⟨_, .inl rfl, by simp, hmem⟩
    · exact ⟨_, .inr rfl, by simp, hmem⟩
  obtain ⟨generation, hgeneration⟩ := canonical_of_planErrors herrors hmanifests hmem hproject
  obtain ⟨suffix', hsidecar, hcanonical, hsemantic⟩ := canonicalManifestGeneration_eq hgeneration
  rw [hproject] at hcanonical hsemantic
  apply hfree manifests hlisted
  apply mem_collectProtectedGenerations.mpr
  refine ⟨manifest, hmem, hproject, ?_⟩
  rw [hgeneration]
  congr 1
  cases kind with
  | lexical =>
    obtain rfl : (ArtifactKind.lexical, generation) = artifact := by
      simpa [RetrievalIndexManifest.artifact, hsidecar] using hartifact
    exact hname
  | scip =>
    obtain rfl : (ArtifactKind.scip, generation) = artifact := by
      simpa [RetrievalIndexManifest.artifact, hsidecar] using hartifact
    exact hname
  | semantic =>
    obtain rfl : (ArtifactKind.semantic, manifest.semanticGeneration) = artifact :=
      Option.some.inj hartifact
    have hsuffix : suffix' = suffix := append_left_cancel (hsemantic.symm.trans hname)
    rw [hcanonical, hsuffix]

end Plan

end CodeStory.Retrieval
