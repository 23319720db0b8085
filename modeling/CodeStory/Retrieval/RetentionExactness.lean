import Mathlib.Algebra.BigOperators.Group.List.Basic
import Mathlib.Algebra.Order.BigOperators.Group.List
import Mathlib.Algebra.Order.Group.Nat
import Mathlib.Data.List.ReduceOption
import CodeStory.Lib.Encoding
import CodeStory.Retrieval.ArtifactRoots

/-!
# What retention removes, exactly

The plan of one project against what it is for: a scan with an error removes nothing, and
otherwise the unprotected generations of the project go, with nothing of another project and
with every byte accounted for. The loop of `apply_generation_retention` asks for the vector
directory of every reclaimable generation, found or not, so the paths are the right ones only
when each of these generations has one.
-/

set_option autoImplicit false

namespace CodeStory.Retrieval

/-- Every manifest that the scan found. -/
def RetentionProtectionScan.manifests (protection : RetentionProtectionScan) :
    List RetrievalIndexManifest :=
  protection.authoritativeActive ++ protection.active ++ protection.rollback ++
    protection.authoritativeRollback

/-- No manifest of the project refers to the artifact. -/
def Unprotected (projectId : String) (protection : RetentionProtectionScan)
    (artifact : Artifact) : Prop :=
  ∀ manifest ∈ protection.manifests, manifest.projectId = projectId →
    manifest.artifact artifact.1 ≠ some artifact

/-- The canonical, direct and measurable directories of the project, with what is in them. -/
def SidecarRoots.discoveredArtifacts (layout : SidecarRoots) (projectId : String) :
    List (Artifact × FsNode) :=
  [ArtifactKind.lexical, .scip, .semantic].flatMap fun kind =>
    ((layout.listed kind).filter fun item =>
      (kind.suffix projectId item.1).isSome && (directorySize item.2).isSome).map
        fun item => ((kind, item.1), item.2)

def SidecarRoots.discoveredBytes (layout : SidecarRoots) (projectId : String) : Nat :=
  ((layout.discoveredArtifacts projectId).map fun artifact => artifact.2.diskBytes).sum

/-- What the plan and its removal are for, of the paths passed to the remover. -/
structure RetentionExact (projectId : String) (layout : SidecarRoots)
    (protection : RetentionProtectionScan) (passed : List Artifact) : Prop where
  suppressed : (planRoots projectId layout protection).errors ≠ [] → passed = []
  rootless : (∀ manifest ∈ protection.authoritativeActive ++ protection.active,
    manifest.projectId = projectId →
      ∀ generation, canonicalManifestGeneration manifest ≠ .ok generation) → passed = []
  exact : (planRoots projectId layout protection).errors = [] → ∀ artifact,
    artifact ∈ passed ↔ artifact ∈ (layout.discoveredArtifacts projectId).map (·.1) ∧
      Unprotected projectId protection artifact
  distinct : passed.Nodup
  own : ∀ artifact ∈ passed, ∀ other, (artifact.1.suffix other artifact.2).isSome →
    other = projectId
  bytes : layout.discoveredBytes projectId < 2 ^ 64 →
    (planRoots projectId layout protection).retainedBytes +
      (planRoots projectId layout protection).reclaimableBytes = layout.discoveredBytes projectId

/-- Nothing that the scan reads is an error. -/
structure CleanScan (projectId : String) (layout : SidecarRoots)
    (protection : RetentionProtectionScan) : Prop where
  scan : protection.errors = []
  roots : ∀ kind, layout.rootErrors kind = []
  entries : ∀ kind, ∀ item ∈ layout.listed kind,
    (stripLead (kind.lead projectId) item.1).isSome →
      (kind.suffix projectId item.1).isSome ∧ (directorySize item.2).isSome
  manifests : ∀ manifest ∈ protection.manifests, manifest.projectId = projectId →
    ∃ generation, canonicalManifestGeneration manifest = .ok generation
  active : ∃ manifest ∈ protection.authoritativeActive ++ protection.active,
    manifest.projectId = projectId

/-- Every unprotected generation of the project that is found in a root has a vector
directory. -/
def VectorsPresent (projectId : String) (layout : SidecarRoots)
    (protection : RetentionProtectionScan) : Prop :=
  ∀ kind, ∀ item ∈ layout.listed kind, ∀ suffix, kind.suffix projectId item.1 = some suffix →
    Unprotected projectId protection (kind, item.1) →
    collectionLead projectId ++ suffix ∈ (layout.listed .semantic).map (·.1)

section Clean
variable {projectId : String} {layout : SidecarRoots} {protection : RetentionProtectionScan}

theorem entries_data (kind : ArtifactKind) :
    layout.data.entries kind = (layout.listed kind).map dirEntry := by
  cases kind with
  | lexical => rfl
  | scip => rfl
  | semantic => rfl

theorem discover_eq_other {kind : ArtifactKind} {entry : DirEntry} :
    discover projectId kind entry = .other ↔
      stripLead (kind.lead projectId) entry.name = none := by
  unfold discover
  rw [← Option.isNone_iff_eq_none]
  split
  · rename_i hlead
    exact iff_of_true rfl hlead
  · rename_i hlead
    refine iff_of_false ?_ hlead
    split
    · simp
    · split
      · simp
      · split
        · simp
        · simp

/-- An entry under the project's lead is an error unless it is an artifact. -/
theorem discover_error_eq_none {kind : ArtifactKind} {item : String × FsNode} :
    (discover projectId kind (dirEntry item)).error kind (dirEntry item).name = none ↔
      ((stripLead (kind.lead projectId) item.1).isSome →
        (kind.suffix projectId item.1).isSome ∧ (directorySize item.2).isSome) := by
  have hartifact : (kind.suffix projectId item.1).isSome ∧ (directorySize item.2).isSome →
      ∃ generation artifact,
        discover projectId kind (dirEntry item) = .artifact generation artifact := by
    rintro ⟨hsuffix, hsize⟩
    obtain ⟨suffix, hsuffix⟩ := Option.isSome_iff_exists.mp hsuffix
    obtain ⟨bytes, hbytes⟩ := Option.isSome_iff_exists.mp hsize
    exact ⟨_, _, discover_dirEntry.mpr ⟨suffix, bytes, hsuffix, hbytes, rfl, rfl⟩⟩
  have hother := @discover_eq_other projectId kind (dirEntry item)
  rw [dirEntry_name] at hother
  cases hdiscover : discover projectId kind (dirEntry item) with
  | artifact generation artifact =>
    obtain ⟨suffix, bytes, hsuffix, hbytes, -⟩ := discover_dirEntry.mp hdiscover
    simp [Discovery.error, hsuffix, hbytes]
  | other => simp [Discovery.error, hother.mp hdiscover]
  | blocked reason | unmeasured =>
    rw [hdiscover] at hartifact hother
    have hlead : stripLead (kind.lead projectId) item.1 ≠ none :=
      fun h => by simpa using hother.mpr h
    refine iff_of_false (by simp [Discovery.error]) fun h => ?_
    simpa using hartifact (h (Option.isSome_iff_ne_none.mpr hlead))

theorem discoveryErrors_eq_nil {kind : ArtifactKind} :
    discoveryErrors projectId layout.data kind = [] ↔
      ∀ item ∈ layout.listed kind, (stripLead (kind.lead projectId) item.1).isSome →
        (kind.suffix projectId item.1).isSome ∧ (directorySize item.2).isSome := by
  unfold discoveryErrors
  rw [entries_data, List.filterMap_eq_nil_iff]
  constructor
  · intro h item hitem
    exact discover_error_eq_none.mp (h (dirEntry item) (List.mem_map_of_mem hitem))
  · intro h entry hentry
    obtain ⟨item, hitem, rfl⟩ := List.mem_map.mp hentry
    exact discover_error_eq_none.mpr (h item hitem)

theorem protectionErrors_eq_nil {role : ProtectionRole} {manifests : List RetrievalIndexManifest} :
    protectionErrors projectId role manifests = [] ↔
      ∀ manifest ∈ manifests, manifest.projectId = projectId →
        ∃ generation, canonicalManifestGeneration manifest = .ok generation := by
  unfold protectionErrors
  rw [List.filterMap_eq_nil_iff]
  constructor
  · intro h manifest hmanifest hproject
    have hnone := h manifest (List.mem_filter.mpr ⟨hmanifest, decide_eq_true hproject⟩)
    cases hcanonical : canonicalManifestGeneration manifest with
    | ok generation => exact ⟨generation, rfl⟩
    | error fault => simp [hcanonical] at hnone
  · intro h manifest hmanifest
    rw [List.mem_filter] at hmanifest
    obtain ⟨generation, hgeneration⟩ := h manifest hmanifest.1 (of_decide_eq_true hmanifest.2)
    rw [hgeneration]

theorem collectProtectedGenerations_append (left right : List RetrievalIndexManifest) :
    collectProtectedGenerations projectId (left ++ right) =
      collectProtectedGenerations projectId left ++
        collectProtectedGenerations projectId right := by
  unfold collectProtectedGenerations
  rw [List.filter_append, List.filterMap_append]

theorem mem_kinds (kind : ArtifactKind) : kind ∈ [ArtifactKind.lexical, .scip, .semantic] := by
  cases kind with
  | lexical => simp
  | scip => simp
  | semantic => simp

theorem forall_kinds {P : ArtifactKind → Prop} :
    (∀ kind ∈ [ArtifactKind.lexical, .scip, .semantic], P kind) ↔ ∀ kind, P kind :=
  ⟨fun h kind => h kind (mem_kinds kind), fun h kind _ => h kind⟩

/-- The plan records no error exactly when nothing it reads is one. -/
theorem planErrors_eq_nil_iff :
    (planRoots projectId layout protection).errors = [] ↔
      CleanScan projectId layout protection := by
  have hroots : [ArtifactKind.lexical, .scip, .semantic].flatMap layout.rootErrors = [] ↔
      ∀ kind, layout.rootErrors kind = [] := by
    rw [List.flatMap_eq_nil_iff, forall_kinds]
  have hentries : [ArtifactKind.lexical, .scip, .semantic].flatMap
      (discoveryErrors projectId layout.data) = [] ↔
      ∀ kind, discoveryErrors projectId layout.data kind = [] := by
    rw [List.flatMap_eq_nil_iff, forall_kinds]
  change planErrors projectId layout.data (layout.scan protection) = [] ↔ _
  unfold planErrors
  simp only [SidecarRoots.scan, List.append_eq_nil_iff, hroots, hentries, discoveryErrors_eq_nil,
    protectionErrors_eq_nil, ite_eq_right_iff, reduceCtorEq, imp_false]
  constructor
  · rintro ⟨⟨⟨⟨⟨⟨⟨hscan, hroots⟩, hentries⟩, hfirst⟩, hsecond⟩, hthird⟩, hfourth⟩, hactive⟩
    refine ⟨hscan, hroots, hentries, ?_, ?_⟩
    · intro manifest hmanifest
      simp only [RetentionProtectionScan.manifests, List.mem_append] at hmanifest
      rcases hmanifest with ((hmanifest | hmanifest) | hmanifest) | hmanifest
      · exact hfirst manifest hmanifest
      · exact hsecond manifest hmanifest
      · exact hthird manifest hmanifest
      · exact hfourth manifest hmanifest
    · rw [← List.append_eq_nil_iff, ← collectProtectedGenerations_append] at hactive
      obtain ⟨generation, hgeneration⟩ := List.exists_mem_of_ne_nil _ hactive
      obtain ⟨manifest, hmanifest, hproject, -⟩ := mem_collectProtectedGenerations.mp hgeneration
      exact ⟨manifest, hmanifest, hproject⟩
  · rintro ⟨hscan, hroots, hentries, hmanifests, manifest, hmanifest, hproject⟩
    simp only [RetentionProtectionScan.manifests, List.mem_append] at hmanifests
    refine ⟨⟨⟨⟨⟨⟨⟨hscan, hroots⟩, hentries⟩, ?_⟩, ?_⟩, ?_⟩, ?_⟩, ?_⟩
    · exact fun manifest h => hmanifests manifest (.inl (.inl (.inl h)))
    · exact fun manifest h => hmanifests manifest (.inl (.inl (.inr h)))
    · exact fun manifest h => hmanifests manifest (.inl (.inr h))
    · exact fun manifest h => hmanifests manifest (.inr h)
    · rw [← List.append_eq_nil_iff, ← collectProtectedGenerations_append]
      obtain ⟨generation, hgeneration⟩ :=
        hmanifests manifest (.inl (.inl (List.mem_append.mp hmanifest))) hproject
      exact List.ne_nil_of_mem
        (mem_collectProtectedGenerations.mpr ⟨manifest, hmanifest, hproject, hgeneration⟩)

end Clean

section Found
variable {projectId : String} {layout : SidecarRoots} {protection : RetentionProtectionScan}

theorem suffix_eq_some {kind : ArtifactKind} {name suffix : String} :
    kind.suffix projectId name = some suffix ↔
      name = kind.lead projectId ++ suffix ∧ canonicalSuffix suffix = some suffix := by
  have hlead : kind.suffix projectId name =
      (stripLead (kind.lead projectId) name).bind canonicalSuffix := by
    cases kind with
    | lexical => rfl
    | scip => rfl
    | semantic => rfl
  rw [hlead, Option.bind_eq_some_iff]
  constructor
  · rintro ⟨rest, hrest, hsuffix⟩
    obtain rfl := canonicalSuffix_eq hsuffix
    exact ⟨stripLead_eq_some.mp hrest, hsuffix⟩
  · rintro ⟨hname, hsuffix⟩
    exact ⟨suffix, stripLead_eq_some.mpr hname, hsuffix⟩

/-- The root holds a canonical, direct and measurable directory with this suffix. -/
def Found (projectId : String) (layout : SidecarRoots) (kind : ArtifactKind) (suffix : String) :
    Prop :=
  ∃ item ∈ layout.listed kind, kind.suffix projectId item.1 = some suffix ∧
    (directorySize item.2).isSome

theorem mem_discoveredArtifacts {artifact : Artifact} :
    artifact ∈ (layout.discoveredArtifacts projectId).map (·.1) ↔
      ∃ suffix, Found projectId layout artifact.1 suffix ∧
        artifact.2 = artifact.1.lead projectId ++ suffix := by
  obtain ⟨kind, name⟩ := artifact
  unfold SidecarRoots.discoveredArtifacts
  constructor
  · intro h
    obtain ⟨found, hfound, hname⟩ := List.mem_map.mp h
    obtain ⟨kind', -, hkind⟩ := List.mem_flatMap.mp hfound
    obtain ⟨item, hitem, rfl⟩ := List.mem_map.mp hkind
    obtain ⟨rfl, rfl⟩ := Prod.mk.inj hname
    rw [List.mem_filter, Bool.and_eq_true] at hitem
    obtain ⟨suffix, hsuffix⟩ := Option.isSome_iff_exists.mp hitem.2.1
    exact ⟨suffix, ⟨item, hitem.1, hsuffix, hitem.2.2⟩, suffix_eq hsuffix⟩
  · rintro ⟨suffix, ⟨item, hitem, hsuffix, hsize⟩, hname⟩
    refine List.mem_map.mpr ⟨((kind, item.1), item.2), ?_, ?_⟩
    · apply List.mem_flatMap.mpr
      refine ⟨kind, mem_kinds kind, List.mem_map_of_mem (List.mem_filter.mpr ⟨hitem, ?_⟩)⟩
      rw [hsuffix, hsize]
      rfl
    · exact congrArg (Prod.mk kind) ((suffix_eq hsuffix).trans hname.symm)

theorem listed_nodup (layout : SidecarRoots) (kind : ArtifactKind) :
    ((layout.listed kind).map (·.1)).Nodup := by
  have hdirect : ∀ kind (root : ArtifactRoot),
      ((readDirectDirectory kind root).1.reduceOption.map (·.1)).Nodup := by
    intro kind root
    unfold readDirectDirectory
    split
    · exact List.nodup_nil
    · exact List.nodup_nil
    · exact List.nodup_nil
    · exact List.nodup_nil
    · rename_i listing
      exact listing.nodup
  have hdata : ∀ kind (root : DirectPath ArtifactRoot),
      ((readDataDirectory kind root).1.reduceOption.map (·.1)).Nodup := by
    intro kind root
    unfold readDataDirectory
    split
    · exact List.nodup_nil
    · exact List.nodup_nil
    · exact List.nodup_nil
    · exact hdirect kind _
  cases kind with
  | lexical => exact hdata .lexical layout.lexicalData
  | scip => exact hdirect .scip layout.scip
  | semantic => exact hdata .semantic layout.semanticData

/-- What the builders hold of a generation. -/
theorem discovered_eq_some {kind : ArtifactKind} {suffix : String}
    {artifact : GenerationArtifact} :
    discovered projectId kind (layout.data.entries kind) (generationLead projectId ++ suffix) =
        some artifact ↔
      ∃ item ∈ layout.listed kind, kind.suffix projectId item.1 = some suffix ∧
        directorySize item.2 = some artifact.bytes ∧ artifact.name = item.1 := by
  have hsound : ∀ {artifact : GenerationArtifact},
      discovered projectId kind (layout.data.entries kind) (generationLead projectId ++ suffix) =
        some artifact →
      ∃ item ∈ layout.listed kind, kind.suffix projectId item.1 = some suffix ∧
        directorySize item.2 = some artifact.bytes ∧ artifact.name = item.1 := by
    intro artifact h
    obtain ⟨entry, hentry, hfound⟩ := List.exists_of_findSome?_eq_some h
    rw [List.mem_reverse, entries_data] at hentry
    obtain ⟨item, hitem, rfl⟩ := List.mem_map.mp hentry
    split at hfound
    · rename_i generation artifact' hdiscover
      split at hfound
      · rename_i hgeneration
        obtain rfl := Option.some.inj hfound
        obtain ⟨suffix', bytes, hsuffix, hbytes, hlead, rfl⟩ := discover_dirEntry.mp hdiscover
        obtain rfl := append_left_cancel (hlead.symm.trans hgeneration)
        exact ⟨item, hitem, hsuffix, hbytes, rfl⟩
      · exact absurd hfound (by simp)
    · exact absurd hfound (by simp)
  refine ⟨hsound, ?_⟩
  rintro ⟨item, hitem, hsuffix, hbytes, hname⟩
  obtain ⟨artifact', hartifact'⟩ : ∃ artifact', discovered projectId kind
      (layout.data.entries kind) (generationLead projectId ++ suffix) = some artifact' := by
    apply Option.isSome_iff_exists.mp
    unfold discovered
    rw [List.findSome?_isSome_iff]
    refine ⟨dirEntry item, ?_, ?_⟩
    · rw [List.mem_reverse, entries_data]
      exact List.mem_map_of_mem hitem
    · rw [discover_dirEntry.mpr ⟨suffix, artifact.bytes, hsuffix, hbytes, rfl, rfl⟩]
      simp
  obtain ⟨item', hitem', hsuffix', hbytes', hname'⟩ := hsound hartifact'
  -- a root lists a name once
  have hsame : item' = item := by
    apply List.inj_on_of_nodup_map (listed_nodup layout kind) hitem' hitem
    exact (suffix_eq hsuffix').trans (suffix_eq hsuffix).symm
  subst hsame
  rw [hbytes] at hbytes'
  rw [hartifact']
  change some (GenerationArtifact.mk artifact'.name artifact'.bytes) =
    some (GenerationArtifact.mk artifact.name artifact.bytes)
  rw [hname', hname, Option.some.inj hbytes']

theorem discovered_isSome_iff {kind : ArtifactKind} {suffix : String} :
    (discovered projectId kind (layout.data.entries kind)
        (generationLead projectId ++ suffix)).isSome ↔ Found projectId layout kind suffix := by
  rw [Option.isSome_iff_exists]
  constructor
  · rintro ⟨artifact, h⟩
    obtain ⟨item, hitem, hsuffix, hbytes, -⟩ := discovered_eq_some.mp h
    exact ⟨item, hitem, hsuffix, by rw [hbytes]; rfl⟩
  · rintro ⟨item, hitem, hsuffix, hsize⟩
    obtain ⟨bytes, hbytes⟩ := Option.isSome_iff_exists.mp hsize
    exact ⟨⟨item.1, bytes⟩, discovered_eq_some.mpr ⟨item, hitem, hsuffix, hbytes, rfl⟩⟩

theorem mem_discoveredGenerations {kind : ArtifactKind} {generation : String} :
    generation ∈ discoveredGenerations projectId layout.data kind ↔
      ∃ suffix, generation = generationLead projectId ++ suffix ∧
        Found projectId layout kind suffix := by
  unfold discoveredGenerations
  rw [List.mem_filterMap, entries_data]
  constructor
  · rintro ⟨entry, hentry, hgeneration⟩
    obtain ⟨item, hitem, rfl⟩ := List.mem_map.mp hentry
    cases hdiscover : discover projectId kind (dirEntry item) with
    | artifact generation' artifact =>
      rw [hdiscover] at hgeneration
      obtain rfl : generation' = generation := Option.some.inj hgeneration
      obtain ⟨suffix, bytes, hsuffix, hbytes, rfl, -⟩ := discover_dirEntry.mp hdiscover
      exact ⟨suffix, rfl, item, hitem, hsuffix, by rw [hbytes]; rfl⟩
    | other | blocked reason | unmeasured => simp [hdiscover, Discovery.generation] at hgeneration
  · rintro ⟨suffix, rfl, item, hitem, hsuffix, hsize⟩
    obtain ⟨bytes, hbytes⟩ := Option.isSome_iff_exists.mp hsize
    refine ⟨dirEntry item, List.mem_map_of_mem hitem, ?_⟩
    rw [discover_dirEntry.mpr ⟨suffix, bytes, hsuffix, hbytes, rfl, rfl⟩]
    rfl

theorem mem_plannedGenerations {generation : String} :
    generation ∈ plannedGenerations projectId layout.data (layout.scan protection) ↔
      (∃ suffix, generation = generationLead projectId ++ suffix ∧
        ∃ kind, Found projectId layout kind suffix) ∨
      generation ∈ collectProtectedGenerations projectId protection.manifests := by
  have hkinds : generation ∈ [ArtifactKind.lexical, .scip, .semantic].flatMap
      (discoveredGenerations projectId layout.data) ↔
      ∃ suffix, generation = generationLead projectId ++ suffix ∧
        ∃ kind, Found projectId layout kind suffix := by
    rw [List.mem_flatMap]
    constructor
    · rintro ⟨kind, -, h⟩
      obtain ⟨suffix, hsuffix, hfound⟩ := mem_discoveredGenerations.mp h
      exact ⟨suffix, hsuffix, kind, hfound⟩
    · rintro ⟨suffix, hsuffix, kind, hfound⟩
      exact ⟨kind, mem_kinds kind, mem_discoveredGenerations.mpr ⟨suffix, hsuffix, hfound⟩⟩
  unfold plannedGenerations RetentionProtectionScan.manifests
  rw [List.mem_insertionSort, List.mem_dedup]
  simp only [collectProtectedGenerations_append, SidecarRoots.scan, List.mem_append, hkinds,
    or_assoc]

end Found

section Removals
variable {projectId : String} {layout : SidecarRoots} {protection : RetentionProtectionScan}

/-- The paths of a bundle that is removed. -/
def GenerationBundle.paths (bundle : GenerationBundle) : List Artifact :=
  (.semantic, bundle.semanticGeneration) ::
    ((bundle.lexical.map fun artifact => (ArtifactKind.lexical, artifact.name)).toList ++
      (bundle.scip.map fun artifact => (ArtifactKind.scip, artifact.name)).toList)

theorem mem_paths {suffix : String} {state : GenerationRetentionState} {artifact : Artifact} :
    artifact ∈ (finishBundle projectId layout.data (generationLead projectId ++ suffix)
        state).paths ↔
      artifact.2 = artifact.1.lead projectId ++ suffix ∧
        (artifact.1 = .semantic ∨ Found projectId layout artifact.1 suffix) := by
  have hfound : ∀ kind, artifact ∈ ((discovered projectId kind (layout.data.entries kind)
      (generationLead projectId ++ suffix)).map fun found => (kind, found.name)).toList ↔
      artifact = (kind, kind.lead projectId ++ suffix) ∧ Found projectId layout kind suffix := by
    intro kind
    rw [Option.mem_toList, Option.map_eq_some_iff]
    constructor
    · rintro ⟨found, hfound, rfl⟩
      obtain ⟨item, hitem, hsuffix, hbytes, hname⟩ := discovered_eq_some.mp hfound
      refine ⟨?_, item, hitem, hsuffix, by rw [hbytes]; rfl⟩
      rw [hname, ← suffix_eq hsuffix]
    · rintro ⟨rfl, hfound⟩
      obtain ⟨found, hdiscovered⟩ := Option.isSome_iff_exists.mp (discovered_isSome_iff.mpr hfound)
      obtain ⟨item, -, hsuffix, -, hname⟩ := discovered_eq_some.mp hdiscovered
      exact ⟨found, hdiscovered, by rw [hname, ← suffix_eq hsuffix]⟩
  have hlead : stripLead (generationLead projectId) (generationLead projectId ++ suffix) =
      some suffix := stripLead_eq_some.mpr rfl
  unfold GenerationBundle.paths finishBundle
  dsimp only
  rw [List.mem_cons, List.mem_append, hlead]
  have hlexical := hfound .lexical
  have hscip := hfound .scip
  simp only [SidecarData.entries] at hlexical hscip
  rw [hlexical, hscip]
  obtain ⟨kind, name⟩ := artifact
  cases kind with
  | lexical => simp [ArtifactKind.lead]
  | scip => simp [ArtifactKind.lead]
  | semantic => simp [ArtifactKind.lead]

/-- The generations of the plan with the state they are given when there is no error. -/
theorem bundles_eq (h : (planRoots projectId layout protection).errors = []) :
    (planRoots projectId layout protection).bundles.filter (·.state = .reclaimable) =
      ((plannedGenerations projectId layout.data (layout.scan protection)).filter
        (· ∉ collectProtectedGenerations projectId protection.manifests)).map
          fun generation => finishBundle projectId layout.data generation .reclaimable := by
  change planErrors projectId layout.data (layout.scan protection) = [] at h
  unfold planRoots planGenerationRetention
  dsimp only
  rw [if_pos h, List.filter_map]
  have hprotected : ∀ generation,
      generation ∉ collectProtectedGenerations projectId protection.manifests ↔
        generation ∉ collectProtectedGenerations projectId
            (layout.scan protection).authoritativeActive ++
          collectProtectedGenerations projectId (layout.scan protection).active ∧
        generation ∉ collectProtectedGenerations projectId (layout.scan protection).rollback ++
          collectProtectedGenerations projectId
            (layout.scan protection).authoritativeRollback := by
    intro generation
    unfold RetentionProtectionScan.manifests
    simp only [collectProtectedGenerations_append, SidecarRoots.scan, List.mem_append, not_or]
    tauto
  rw [List.filter_congr (fun generation _ => ?_)]
  · apply List.map_congr_left
    intro generation hgeneration
    obtain ⟨hactive, hrollback⟩ := (hprotected generation).mp
      (of_decide_eq_true (List.mem_filter.mp hgeneration).2)
    rw [if_neg hactive, if_neg hrollback]
  · rw [Function.comp_apply, decide_eq_decide, hprotected]
    simp only [finishBundle]
    split
    · rename_i hactive
      simp [hactive]
    · rename_i hactive
      split
      · rename_i hrollback
        simp [hrollback]
      · rename_i hrollback
        simp [hactive, hrollback]

theorem removals_eq_nil (h : (planRoots projectId layout protection).errors ≠ []) :
    (planRoots projectId layout protection).removals = [] := by
  change planErrors projectId layout.data (layout.scan protection) ≠ [] at h
  have hsuppressed : (planRoots projectId layout protection).pruningSuppressed = true := by
    simp [planRoots, planGenerationRetention, h]
  unfold GenerationRetentionPlan.removals
  rw [if_pos hsuppressed]

theorem removals_eq (h : (planRoots projectId layout protection).errors = []) :
    (planRoots projectId layout protection).removals =
      ((plannedGenerations projectId layout.data (layout.scan protection)).filter
        (· ∉ collectProtectedGenerations projectId protection.manifests)).flatMap
          fun generation =>
            (finishBundle projectId layout.data generation .reclaimable).paths := by
  have hpruned : (planRoots projectId layout protection).pruningSuppressed ≠ true := by
    change planErrors projectId layout.data (layout.scan protection) = [] at h
    simp [planRoots, planGenerationRetention, h]
  unfold GenerationRetentionPlan.removals
  rw [if_neg hpruned, bundles_eq h, List.flatMap_map]
  rfl

/-- The removals of a plan without errors. -/
theorem mem_removals_iff (h : (planRoots projectId layout protection).errors = [])
    {artifact : Artifact} :
    artifact ∈ (planRoots projectId layout protection).removals ↔
      ∃ suffix, generationLead projectId ++ suffix ∉
          collectProtectedGenerations projectId protection.manifests ∧
        (∃ kind, Found projectId layout kind suffix) ∧
        artifact.2 = artifact.1.lead projectId ++ suffix ∧
        (artifact.1 = .semantic ∨ Found projectId layout artifact.1 suffix) := by
  rw [removals_eq h, List.mem_flatMap]
  constructor
  · rintro ⟨generation, hgeneration, hartifact⟩
    obtain ⟨hplanned, hfree⟩ := List.mem_filter.mp hgeneration
    have hfree := of_decide_eq_true hfree
    rcases mem_plannedGenerations.mp hplanned with ⟨suffix, rfl, hfound⟩ | hprotected
    · exact ⟨suffix, hfree, hfound, mem_paths.mp hartifact⟩
    · exact absurd hprotected hfree
  · rintro ⟨suffix, hfree, hfound, hartifact⟩
    refine ⟨generationLead projectId ++ suffix, ?_, mem_paths.mpr hartifact⟩
    apply List.mem_filter.mpr
    exact ⟨mem_plannedGenerations.mpr (.inl ⟨suffix, rfl, hfound⟩), decide_eq_true hfree⟩

theorem plannedGenerations_nodup :
    (plannedGenerations projectId layout.data (layout.scan protection)).Nodup :=
  (List.perm_insertionSort _ _).nodup_iff.mpr (List.nodup_dedup _)

theorem paths_nodup (bundle : GenerationBundle) : bundle.paths.Nodup := by
  unfold GenerationBundle.paths
  cases bundle.lexical with
  | none => cases bundle.scip <;> simp
  | some lexical => cases bundle.scip <;> simp

theorem removals_nodup : (planRoots projectId layout protection).removals.Nodup := by
  by_cases h : (planRoots projectId layout protection).errors = []
  · rw [removals_eq h, List.nodup_flatMap]
    refine ⟨fun generation _ => paths_nodup _, ?_⟩
    have hnodup := (@plannedGenerations_nodup projectId layout protection).filter
      (· ∉ collectProtectedGenerations projectId protection.manifests)
    apply hnodup.imp_of_mem
    intro left right hleft hright hne artifact hin hin'
    -- the name of a path gives the generation back
    obtain ⟨suffix, rfl⟩ := planned_suffix (List.mem_filter.mp hleft).1
    obtain ⟨suffix', rfl⟩ := planned_suffix (List.mem_filter.mp hright).1
    apply hne
    rw [append_left_cancel ((mem_paths.mp hin).1.symm.trans (mem_paths.mp hin').1)]
  · rw [removals_eq_nil h]
    exact List.nodup_nil

/-- Without errors, a manifest protects the directories of its generation and no others. -/
theorem unprotected_iff (h : CleanScan projectId layout protection) {kind : ArtifactKind}
    {suffix : String} :
    Unprotected projectId protection (kind, kind.lead projectId ++ suffix) ↔
      generationLead projectId ++ suffix ∉
        collectProtectedGenerations projectId protection.manifests := by
  rw [mem_collectProtectedGenerations]
  unfold Unprotected
  have hartifact : ∀ manifest ∈ protection.manifests, manifest.projectId = projectId →
      (manifest.artifact kind = some (kind, kind.lead projectId ++ suffix) ↔
        canonicalManifestGeneration manifest = .ok (generationLead projectId ++ suffix)) := by
    intro manifest hmanifest hproject
    obtain ⟨generation, hgeneration⟩ := h.manifests manifest hmanifest hproject
    obtain ⟨suffix', hsidecar, hlead, hsemantic⟩ := canonicalManifestGeneration_eq hgeneration
    rw [hproject] at hlead hsemantic
    have hcancel : ∀ lead, lead ++ suffix' = lead ++ suffix ↔ suffix' = suffix := fun lead =>
      ⟨append_left_cancel, fun heq => by rw [heq]⟩
    rw [hgeneration]
    cases kind with
    | lexical | scip =>
      simp [RetrievalIndexManifest.artifact, hsidecar, hlead, ArtifactKind.lead]
    | semantic =>
      simp [RetrievalIndexManifest.artifact, hsemantic, hlead, ArtifactKind.lead, hcancel]
  constructor
  · rintro hfree ⟨manifest, hmanifest, hproject, hgeneration⟩
    exact hfree manifest hmanifest hproject
      ((hartifact manifest hmanifest hproject).mpr hgeneration)
  · intro hfree manifest hmanifest hproject hnames
    exact hfree ⟨manifest, hmanifest, hproject,
      (hartifact manifest hmanifest hproject).mp hnames⟩

/-- Sixteen digits leave one way to read the project id off a name. -/
theorem suffix_project {kind : ArtifactKind} {other name suffix suffix' : String}
    (h : kind.suffix projectId name = some suffix) (h' : kind.suffix other name = some suffix') :
    other = projectId := by
  have hsize : ∀ {text : String}, canonicalSuffix text = some text → text.utf8ByteSize = 16 := by
    intro text htext
    unfold canonicalSuffix at htext
    split at htext
    · rename_i hdigits
      exact hdigits.1
    · exact absurd htext (by simp)
  obtain ⟨hname, hdigits⟩ := suffix_eq_some.mp h
  obtain ⟨hname', hdigits'⟩ := suffix_eq_some.mp h'
  have hlead : kind.lead other = kind.lead projectId :=
    (Encoding.append_inj_of_size ((hsize hdigits').trans (hsize hdigits).symm)
      (hname'.symm.trans hname)).1
  have hgeneration : ∀ {left right : String}, left ++ "-" = right ++ "-" → left = right :=
    fun heq => (Encoding.append_inj_of_size rfl heq).1
  cases kind with
  | lexical => exact hgeneration hlead
  | scip => exact hgeneration hlead
  | semantic =>
    exact append_left_cancel (Encoding.append_inj_of_size rfl hlead).1

end Removals

section Bytes
variable {projectId : String} {layout : SidecarRoots} {protection : RetentionProtectionScan}

/-- The bytes that the builders hold of a generation in one root. -/
def foundBytes (projectId : String) (layout : SidecarRoots) (kind : ArtifactKind)
    (generation : String) : Nat :=
  ((discovered projectId kind (layout.data.entries kind) generation).map (·.bytes)).getD 0

def measuredItems (projectId : String) (layout : SidecarRoots) (kind : ArtifactKind) :
    List (String × FsNode) :=
  (layout.listed kind).filter fun item =>
    (kind.suffix projectId item.1).isSome && (directorySize item.2).isSome

theorem finishBundle_bytes (generation : String) (state : GenerationRetentionState) :
    (finishBundle projectId layout.data generation state).bytes =
      min (foundBytes projectId layout .lexical generation +
        foundBytes projectId layout .scip generation +
        foundBytes projectId layout .semantic generation) (2 ^ 64 - 1) := by
  have hfold := foldl_saturatingAdd (fun artifact : GenerationArtifact => artifact.bytes)
    [discovered projectId .lexical layout.data.lexical generation,
      discovered projectId .scip layout.data.scip generation,
      discovered projectId .semantic layout.data.semantic generation].reduceOption 0
  rw [Nat.zero_min, Nat.zero_add] at hfold
  unfold finishBundle
  dsimp only
  rw [hfold]
  congr 1
  unfold foundBytes
  simp only [SidecarData.entries]
  cases discovered projectId .lexical layout.data.lexical generation <;>
    cases discovered projectId .scip layout.data.scip generation <;>
    cases discovered projectId .semantic layout.data.semantic generation <;>
    simp [Nat.add_assoc]

theorem foundBytes_item {kind : ArtifactKind} {item : String × FsNode}
    (hitem : item ∈ layout.listed kind) {suffix : String}
    (hsuffix : kind.suffix projectId item.1 = some suffix) {bytes : Nat}
    (hbytes : directorySize item.2 = some bytes) :
    foundBytes projectId layout kind (generationLead projectId ++ suffix) = bytes := by
  unfold foundBytes
  rw [discovered_eq_some.mpr
    ⟨item, hitem, hsuffix, hbytes, (rfl : (GenerationArtifact.mk item.1 bytes).name = item.1)⟩]
  rfl

theorem measuredItems_spec {kind : ArtifactKind} {item : String × FsNode}
    (h : item ∈ measuredItems projectId layout kind) :
    item ∈ layout.listed kind ∧ ∃ suffix bytes, kind.suffix projectId item.1 = some suffix ∧
      directorySize item.2 = some bytes := by
  unfold measuredItems at h
  rw [List.mem_filter, Bool.and_eq_true] at h
  obtain ⟨suffix, hsuffix⟩ := Option.isSome_iff_exists.mp h.2.1
  obtain ⟨bytes, hbytes⟩ := Option.isSome_iff_exists.mp h.2.2
  exact ⟨h.1, suffix, bytes, hsuffix, hbytes⟩

/-- The generations that a root has something of are those of its measured directories. -/
theorem perm_found (kind : ArtifactKind) :
    ((plannedGenerations projectId layout.data (layout.scan protection)).filter fun generation =>
      (discovered projectId kind (layout.data.entries kind) generation).isSome).Perm
      ((measuredItems projectId layout kind).map fun item =>
        generationLead projectId ++ (kind.suffix projectId item.1).getD "") := by
  apply (List.perm_ext_iff_of_nodup (plannedGenerations_nodup.filter _) ?_).mpr
  · intro generation
    rw [List.mem_filter, List.mem_map]
    constructor
    · rintro ⟨hplanned, hfound⟩
      obtain ⟨suffix, rfl⟩ := planned_suffix hplanned
      obtain ⟨item, hitem, hsuffix, hsize⟩ := discovered_isSome_iff.mp hfound
      refine ⟨item, List.mem_filter.mpr ⟨hitem, ?_⟩, ?_⟩
      · rw [hsuffix, hsize]
        rfl
      · rw [hsuffix, Option.getD_some]
    · rintro ⟨item, hitem, rfl⟩
      obtain ⟨hlisted, suffix, bytes, hsuffix, hbytes⟩ := measuredItems_spec hitem
      have hfound : Found projectId layout kind suffix :=
        ⟨item, hlisted, hsuffix, by rw [hbytes]; rfl⟩
      rw [hsuffix, Option.getD_some]
      exact ⟨mem_plannedGenerations.mpr (.inl ⟨suffix, rfl, kind, hfound⟩),
        discovered_isSome_iff.mpr hfound⟩
  · have hitems : (measuredItems projectId layout kind).Nodup :=
      (List.Nodup.of_map _ (listed_nodup layout kind)).filter _
    apply hitems.map_on
    intro left hleft right hright heq
    obtain ⟨hlisted, suffix, -, hsuffix, -⟩ := measuredItems_spec hleft
    obtain ⟨hlisted', suffix', -, hsuffix', -⟩ := measuredItems_spec hright
    rw [hsuffix, hsuffix', Option.getD_some, Option.getD_some] at heq
    obtain rfl := append_left_cancel heq
    apply List.inj_on_of_nodup_map (listed_nodup layout kind) hlisted hlisted'
    exact (suffix_eq hsuffix).trans (suffix_eq hsuffix').symm

/-- The planned generations hold what was measured in a root, each directory once. -/
theorem sum_foundBytes (kind : ArtifactKind) :
    ((plannedGenerations projectId layout.data (layout.scan protection)).map
      (foundBytes projectId layout kind)).sum =
      ((measuredItems projectId layout kind).map
        fun item => (directorySize item.2).getD 0).sum := by
  have hnone : (((plannedGenerations projectId layout.data (layout.scan protection)).filter
      fun generation => ¬ (discovered projectId kind (layout.data.entries kind)
        generation).isSome = true).map (foundBytes projectId layout kind)).sum = 0 := by
    apply List.sum_eq_zero
    intro bytes hbytes
    obtain ⟨generation, hgeneration, rfl⟩ := List.mem_map.mp hbytes
    have hfound := of_decide_eq_true (List.mem_filter.mp hgeneration).2
    rw [Option.not_isSome_iff_eq_none] at hfound
    unfold foundBytes
    rw [hfound]
    rfl
  have hitem : (measuredItems projectId layout kind).map (fun item =>
      foundBytes projectId layout kind
        (generationLead projectId ++ (kind.suffix projectId item.1).getD "")) =
      (measuredItems projectId layout kind).map fun item => (directorySize item.2).getD 0 := by
    apply List.map_congr_left
    intro item hitem
    obtain ⟨hlisted, suffix, bytes, hsuffix, hbytes⟩ := measuredItems_spec hitem
    rw [hsuffix, Option.getD_some, foundBytes_item hlisted hsuffix hbytes, hbytes,
      Option.getD_some]
  rw [← List.sum_map_filter_add_sum_map_filter_not
    (fun generation => (discovered projectId kind (layout.data.entries kind)
      generation).isSome = true), hnone, Nat.add_zero, ← hitem]
  simp only [Bool.decide_eq_true]
  rw [((perm_found kind).map (foundBytes projectId layout kind)).sum_eq, List.map_map]
  rfl

theorem discoveredBytes_eq :
    layout.discoveredBytes projectId =
      ((measuredItems projectId layout .lexical).map fun item => item.2.diskBytes).sum +
        ((measuredItems projectId layout .scip).map fun item => item.2.diskBytes).sum +
        ((measuredItems projectId layout .semantic).map fun item => item.2.diskBytes).sum := by
  unfold SidecarRoots.discoveredBytes SidecarRoots.discoveredArtifacts measuredItems
  simp [List.flatMap_cons, List.map_append, Function.comp_def, Nat.add_assoc]

/-- Without saturation the measured sizes are the bytes on disk. -/
theorem measured_eq {kind : ArtifactKind}
    (h : ((measuredItems projectId layout kind).map fun item => item.2.diskBytes).sum < 2 ^ 64) :
    ((measuredItems projectId layout kind).map fun item => (directorySize item.2).getD 0).sum =
      ((measuredItems projectId layout kind).map fun item => item.2.diskBytes).sum := by
  congr 1
  apply List.map_congr_left
  intro item hitem
  obtain ⟨-, -, bytes, -, hbytes⟩ := measuredItems_spec hitem
  have hle : item.2.diskBytes ≤
      ((measuredItems projectId layout kind).map fun item => item.2.diskBytes).sum :=
    List.le_sum_of_mem (List.mem_map_of_mem hitem)
  rw [hbytes, Option.getD_some, directorySize_eq hbytes]
  omega

theorem sum_states (bundles : List GenerationBundle) :
    ((bundles.filter (·.state = .active)).map (·.bytes)).sum +
      ((bundles.filter (·.state = .rollback)).map (·.bytes)).sum +
      ((bundles.filter (·.state = .building)).map (·.bytes)).sum +
      ((bundles.filter (·.state = .reclaimable)).map (·.bytes)).sum =
      (bundles.map (·.bytes)).sum := by
  induction bundles with
  | nil => rfl
  | cons bundle rest ih =>
    simp only [List.filter_cons, List.map_cons, List.sum_cons]
    cases bundle.state with
    | active => simp; omega
    | rollback => simp; omega
    | building => simp; omega
    | reclaimable => simp; omega

theorem bytesFor_eq (bundles : List GenerationBundle) (state : GenerationRetentionState) :
    bytesFor bundles state =
      min ((bundles.filter (·.state = state)).map (·.bytes)).sum (2 ^ 64 - 1) := by
  have hfold := foldl_saturatingAdd (fun bundle : GenerationBundle => bundle.bytes)
    (bundles.filter (·.state = state)) 0
  rw [Nat.zero_min, Nat.zero_add] at hfold
  exact hfold

/-- Every discovered byte is counted once, as retained or as reclaimable. -/
theorem retained_add_reclaimable (h : layout.discoveredBytes projectId < 2 ^ 64) :
    (planRoots projectId layout protection).retainedBytes +
      (planRoots projectId layout protection).reclaimableBytes =
      layout.discoveredBytes projectId := by
  let planned := plannedGenerations projectId layout.data (layout.scan protection)
  let raw := fun generation => foundBytes projectId layout .lexical generation +
    foundBytes projectId layout .scip generation + foundBytes projectId layout .semantic generation
  have htotal : (planned.map raw).sum = layout.discoveredBytes projectId := by
    have hsum := @discoveredBytes_eq projectId layout
    rw [List.sum_map_add, List.sum_map_add, sum_foundBytes, sum_foundBytes, sum_foundBytes,
      measured_eq (by omega), measured_eq (by omega), measured_eq (by omega), hsum]
  have hbundles : ((planRoots projectId layout protection).bundles.map (·.bytes)) =
      planned.map raw := by
    unfold planRoots planGenerationRetention
    dsimp only
    rw [List.map_map]
    apply List.map_congr_left
    intro generation hgeneration
    have hle : raw generation ≤ (planned.map raw).sum :=
      List.le_sum_of_mem (List.mem_map_of_mem hgeneration)
    rw [Function.comp_apply, finishBundle_bytes]
    change min (raw generation) _ = raw generation
    omega
  have hstates := sum_states (planRoots projectId layout protection).bundles
  rw [hbundles, htotal] at hstates
  have hretained : (planRoots projectId layout protection).retainedBytes =
      saturatingAdd (saturatingAdd
        (bytesFor (planRoots projectId layout protection).bundles .active)
        (bytesFor (planRoots projectId layout protection).bundles .rollback))
        (bytesFor (planRoots projectId layout protection).bundles .building) := rfl
  have hreclaimable : (planRoots projectId layout protection).reclaimableBytes =
      bytesFor (planRoots projectId layout protection).bundles .reclaimable := rfl
  rw [hretained, hreclaimable, bytesFor_eq, bytesFor_eq, bytesFor_eq, bytesFor_eq]
  unfold saturatingAdd
  omega

end Bytes

section Exact
variable {projectId : String} {layout : SidecarRoots} {protection : RetentionProtectionScan}

theorem found_canonical {kind : ArtifactKind} {suffix : String}
    (h : Found projectId layout kind suffix) : canonicalSuffix suffix = some suffix := by
  obtain ⟨item, -, hsuffix, -⟩ := h
  exact (suffix_eq_some.mp hsuffix).2

/-- In a clean scan the vector directories are there when each unprotected suffix that is
found has one. -/
theorem vectorsPresent_iff (h : CleanScan projectId layout protection) :
    VectorsPresent projectId layout protection ↔
      ∀ suffix, generationLead projectId ++ suffix ∉
          collectProtectedGenerations projectId protection.manifests →
        (∃ kind, Found projectId layout kind suffix) →
        Found projectId layout .semantic suffix := by
  constructor
  · rintro hpresent suffix hfree ⟨kind, hfound⟩
    obtain ⟨item, hitem, hsuffix, hsize⟩ := hfound
    have hname := suffix_eq hsuffix
    have hunprotected : Unprotected projectId protection (kind, item.1) := by
      rw [hname]
      exact (unprotected_iff h).mpr hfree
    obtain ⟨vector, hvector, hvectorName⟩ :=
      List.mem_map.mp (hpresent kind item hitem suffix hsuffix hunprotected)
    have hcanonical : ArtifactKind.suffix projectId vector.1 .semantic = some suffix :=
      suffix_eq_some.mpr ⟨hvectorName, (suffix_eq_some.mp hsuffix).2⟩
    have hlead : (stripLead (ArtifactKind.lead projectId .semantic) vector.1).isSome :=
      Option.isSome_iff_exists.mpr ⟨suffix, stripLead_eq_some.mpr hvectorName⟩
    exact ⟨vector, hvector, hcanonical, (h.entries .semantic vector hvector hlead).2⟩
  · intro hfound kind item hitem suffix hsuffix hunprotected
    have hname := suffix_eq hsuffix
    rw [hname] at hunprotected
    have hfree := (unprotected_iff h).mp hunprotected
    have hlead : (stripLead (kind.lead projectId) item.1).isSome :=
      Option.isSome_iff_exists.mpr ⟨suffix, stripLead_eq_some.mpr hname⟩
    obtain ⟨vector, hvector, hcanonical, -⟩ := hfound suffix hfree
      ⟨kind, item, hitem, hsuffix, (h.entries kind item hitem hlead).2⟩
    exact List.mem_map.mpr ⟨vector, hvector, suffix_eq hcanonical⟩

/-- The removals of a clean scan are the unprotected artifacts exactly when no vector
directory is asked for that is not there. -/
theorem removals_exact_iff (h : CleanScan projectId layout protection) :
    (∀ artifact, artifact ∈ (planRoots projectId layout protection).removals ↔
      artifact ∈ (layout.discoveredArtifacts projectId).map (·.1) ∧
        Unprotected projectId protection artifact) ↔
      VectorsPresent projectId layout protection := by
  have herrors := planErrors_eq_nil_iff.mpr h
  rw [vectorsPresent_iff h]
  constructor
  · rintro hexact suffix hfree ⟨kind, hfound⟩
    have hremoved : (ArtifactKind.semantic, collectionLead projectId ++ suffix) ∈
        (planRoots projectId layout protection).removals :=
      (mem_removals_iff herrors).mpr ⟨suffix, hfree, ⟨kind, hfound⟩, rfl, .inl rfl⟩
    obtain ⟨suffix', hvector, hname⟩ :=
      mem_discoveredArtifacts.mp ((hexact _).mp hremoved).1
    obtain rfl : suffix = suffix' := append_left_cancel hname
    exact hvector
  · intro hvectors artifact
    rw [mem_removals_iff herrors, mem_discoveredArtifacts]
    constructor
    · rintro ⟨suffix, hfree, hfound, hname, hasked⟩
      have hhere : Found projectId layout artifact.1 suffix := by
        rcases hasked with hsemantic | hhere
        · rw [hsemantic]
          exact hvectors suffix hfree hfound
        · exact hhere
      refine ⟨⟨suffix, hhere, hname⟩, ?_⟩
      have hunprotected := (@unprotected_iff _ _ _ h artifact.1 suffix).mpr hfree
      rw [← hname] at hunprotected
      exact hunprotected
    · rintro ⟨⟨suffix, hhere, hname⟩, hunprotected⟩
      refine ⟨suffix, ?_, ⟨artifact.1, hhere⟩, hname, .inr hhere⟩
      apply (@unprotected_iff _ _ _ h artifact.1 suffix).mp
      rw [← hname]
      exact hunprotected

/-- Nothing of another project is removed. -/
theorem removals_own {artifact : Artifact}
    (hremoved : artifact ∈ (planRoots projectId layout protection).removals) {other : String}
    (hother : (artifact.1.suffix other artifact.2).isSome) : other = projectId := by
  have herrors : (planRoots projectId layout protection).errors = [] := by
    by_contra herrors
    rw [removals_eq_nil herrors] at hremoved
    exact absurd hremoved List.not_mem_nil
  obtain ⟨suffix, -, ⟨kind, hfound⟩, hname, -⟩ := (mem_removals_iff herrors).mp hremoved
  obtain ⟨suffix', hsuffix'⟩ := Option.isSome_iff_exists.mp hother
  exact suffix_project (suffix_eq_some.mpr ⟨hname, found_canonical hfound⟩) hsuffix'

/-- Whatever the remover answers, the retention of a project does what it is for exactly when
its scan meets an error or every generation it reclaims has a vector directory. -/
theorem retentionExact_iff {σ : Type} (remover : GenerationRemover σ) (s : σ) :
    RetentionExact projectId layout protection
        (pathsPassed remover (planRoots projectId layout protection) s) ↔
      (CleanScan projectId layout protection → VectorsPresent projectId layout protection) := by
  rw [pathsPassed_eq]
  constructor
  · intro h hclean
    exact (removals_exact_iff hclean).mp (h.exact (planErrors_eq_nil_iff.mpr hclean))
  · intro h
    refine ⟨removals_eq_nil, ?_, ?_, removals_nodup, ?_, retained_add_reclaimable⟩
    · intro hrootless
      apply removals_eq_nil
      intro herrors
      have hclean := planErrors_eq_nil_iff.mp herrors
      obtain ⟨manifest, hmanifest, hproject⟩ := hclean.active
      obtain ⟨generation, hgeneration⟩ := hclean.manifests manifest
        (by
          unfold RetentionProtectionScan.manifests
          exact List.mem_append_left _ (List.mem_append_left _ hmanifest)) hproject
      exact hrootless manifest hmanifest hproject generation hgeneration
    · intro herrors
      have hclean := planErrors_eq_nil_iff.mp herrors
      exact (removals_exact_iff hclean).mpr (h hclean)
    · intro artifact hremoved other hother
      exact removals_own hremoved hother

/-- A generation of which only the lexical directory is left, as a removal leaves it that
deletes the last vector directory and then fails. -/
def staleLexical : SidecarRoots where
  lexicalData := .direct (.direct (some
    ⟨[some ("proj-00000000000000aa", .directory [.file 3])], List.nodup_singleton _⟩))
  scip := .missing
  semanticData := .direct (.direct (some ⟨[], List.nodup_nil⟩))

def activeElsewhere : RetentionProtectionScan where
  authoritativeActive := [⟨"proj", lexicalIndexVersion, "codestory_proj_00000000000000bb", none,
    none, none, some "proj-00000000000000bb", none, none⟩]
  authoritativeRollback := []
  active := []
  rollback := []
  errors := []

/-- The missing vector directory is asked for, and reported as one that remains. -/
theorem staleLexical_not_exact :
    ¬ RetentionExact "proj" staleLexical activeElsewhere
        (pathsPassed fsGenerationRemover (planRoots "proj" staleLexical activeElsewhere)
          staleLexical) ∧
      (applyGenerationRetention fsGenerationRemover
        (planRoots "proj" staleLexical activeElsewhere) staleLexical).1.errors =
        [.vectorRemains "codestory_proj_00000000000000aa"] := by
  have hpassed : pathsPassed fsGenerationRemover (planRoots "proj" staleLexical activeElsewhere)
      staleLexical =
      [(.semantic, "codestory_proj_00000000000000aa"), (.lexical, "proj-00000000000000aa")] := by
    decide
  refine ⟨fun h => ?_, by decide +kernel⟩
  rw [hpassed] at h
  have hfound := ((h.exact (by decide +kernel) (.semantic, "codestory_proj_00000000000000aa")).mp
    List.mem_cons_self).1
  revert hfound
  decide +kernel

end Exact

end CodeStory.Retrieval
