import Mathlib.Algebra.Ring.Nat
import CodeStory.Retrieval.Retention

/-!
# The artifact roots on disk and the removal of a plan

What `plan_generation_retention` reads of the three artifact roots before it lists their
entries, `directory_size`, and `apply_generation_retention` with the remover it is given. File
names are text. An entry whose type cannot be read counts as one that cannot be measured: both
are errors that name the entry and leave it in place.
-/

set_option autoImplicit false

namespace CodeStory.Retrieval

/-- What `symlink_metadata` finds at a path, and `read_dir` below it. -/
inductive FsNode where
  | file (len : Nat)
  | directory (entries : List FsNode)
  | unlistable
  | link
  | special
  | uninspectable
  deriving Repr

section Size

mutual

/-- What one entry adds to `directory_size`, absent when the scan stops at it. -/
def entrySize : FsNode → Option Nat
  | .file len => some len
  | .directory entries => entriesSize 0 entries
  | .unlistable => none
  | .link => none
  | .special => none
  | .uninspectable => none

def entriesSize (total : Nat) : List FsNode → Option Nat
  | [] => some total
  | entry :: rest => (entrySize entry).bind fun size => entriesSize (saturatingAdd total size) rest

end

def directorySize : FsNode → Option Nat
  | .directory entries => entriesSize 0 entries
  | _ => none

mutual

/-- The bytes of the files of a tree. -/
def FsNode.diskBytes : FsNode → Nat
  | .file len => len
  | .directory entries => diskBytesOf entries
  | .unlistable => 0
  | .link => 0
  | .special => 0
  | .uninspectable => 0

def diskBytesOf : List FsNode → Nat
  | [] => 0
  | entry :: rest => entry.diskBytes + diskBytesOf rest

end

end Size

/-- A path that has to be a directory itself. -/
inductive DirectPath (α : Type) where
  | missing
  | uninspectable
  | notDirect
  | direct (content : α)

/-- What `read_dir` yields, an item being absent when it cannot be read. -/
structure Listing where
  items : List (Option (String × FsNode))
  nodup : (items.reduceOption.map (·.1)).Nodup

/-- The listing is absent when `read_dir` fails. -/
abbrev ArtifactRoot := DirectPath (Option Listing)

/-- The artifact roots of a `SidecarLayout`. The lexical and the semantic root stand in a data
directory of their own. -/
structure SidecarRoots where
  lexicalData : DirectPath ArtifactRoot
  scip : ArtifactRoot
  semanticData : DirectPath ArtifactRoot

/-- `read_direct_directory` -/
def readDirectDirectory (kind : ArtifactKind) :
    ArtifactRoot → List (Option (String × FsNode)) × List RetentionError
  | .missing => ([], [])
  | .uninspectable => ([], [.artifactRoot kind .uninspectable])
  | .notDirect => ([], [.artifactRoot kind .notDirect])
  | .direct none => ([], [.artifactRoot kind .unlistable])
  | .direct (some listing) => (listing.items, [])

/-- `direct_directory_exists_or_missing`, and the root below when it is there. -/
def readDataDirectory (kind : ArtifactKind) :
    DirectPath ArtifactRoot → List (Option (String × FsNode)) × List RetentionError
  | .missing => ([], [])
  | .uninspectable => ([], [.dataRoot kind .uninspectable])
  | .notDirect => ([], [.dataRoot kind .notDirect])
  | .direct root => readDirectDirectory kind root

namespace SidecarRoots
variable (layout : SidecarRoots)

def read : ArtifactKind → List (Option (String × FsNode)) × List RetentionError
  | .lexical => readDataDirectory .lexical layout.lexicalData
  | .scip => readDirectDirectory .scip layout.scip
  | .semantic => readDataDirectory .semantic layout.semanticData

def listed (kind : ArtifactKind) : List (String × FsNode) := (layout.read kind).1.reduceOption

/-- The errors of a root that are not about a named entry. -/
def rootErrors (kind : ArtifactKind) : List RetentionError :=
  (layout.read kind).2 ++ (layout.read kind).1.filterMap fun item =>
    if item.isNone then some (.readEntry kind) else none

end SidecarRoots

def dirEntry (item : String × FsNode) : DirEntry :=
  match item.2 with
  | .file _ => ⟨item.1, false, none⟩
  | .link => ⟨item.1, false, none⟩
  | .special => ⟨item.1, false, none⟩
  | .directory entries => ⟨item.1, true, directorySize (.directory entries)⟩
  | .unlistable => ⟨item.1, true, none⟩
  | .uninspectable => ⟨item.1, true, none⟩

def SidecarRoots.data (layout : SidecarRoots) : SidecarData where
  lexical := (layout.listed .lexical).map dirEntry
  scip := (layout.listed .scip).map dirEntry
  semantic := (layout.listed .semantic).map dirEntry

/-- The scan with the errors of the roots. -/
def SidecarRoots.scan (layout : SidecarRoots) (protection : RetentionProtectionScan) :
    RetentionProtectionScan :=
  { protection with
    errors := protection.errors ++
      [ArtifactKind.lexical, .scip, .semantic].flatMap layout.rootErrors }

/-- `plan_generation_retention` -/
def planRoots (projectId : String) (layout : SidecarRoots)
    (protection : RetentionProtectionScan) : GenerationRetentionPlan :=
  planGenerationRetention projectId layout.data (layout.scan protection) .reclaimable

section Apply
variable {σ : Type}

/-- `GenerationRemover`, over the state that it changes. A path is given by its artifact. -/
structure GenerationRemover (σ : Type) where
  removeGenerationDir : σ → Artifact → Except String Unit × σ
  removeVectorGeneration : σ → String → Except String Bool × σ

inductive ApplyError where
  | plan (error : RetentionError)
  | vectorRemains (generation : String)
  | vector (generation error : String)
  | path (artifact : Artifact) (error : String)
  deriving DecidableEq, Repr

structure GenerationRemovalResult where
  generation : String
  semanticGeneration : String
  removedPaths : List Artifact
  semanticGenerationRemoved : Bool
  removedBytes : Nat
  remainingReclaimableBytes : Nat
  errors : List ApplyError
  deriving DecidableEq, Repr

structure GenerationRetentionApplyReport where
  pruningSuppressed : Bool
  activeBytes : Nat
  rollbackBytes : Nat
  buildingBytes : Nat
  retainedBytes : Nat
  reclaimableBytes : Nat
  removedBytes : Nat
  remainingReclaimableBytes : Nat
  removals : List GenerationRemovalResult
  errors : List ApplyError
  deriving DecidableEq, Repr

variable (remover : GenerationRemover σ)

def removeVector (s : σ) (bundle : GenerationBundle) (result : GenerationRemovalResult) :
    GenerationRemovalResult × σ :=
  match remover.removeVectorGeneration s bundle.semanticGeneration with
  | (.ok true, s) =>
    ({ result with
      semanticGenerationRemoved := true
      removedBytes := saturatingAdd result.removedBytes
        ((bundle.semantic.map (·.bytes)).getD 0) }, s)
  | (.ok false, s) =>
    ({ result with
      errors := result.errors ++ [.vectorRemains bundle.semanticGeneration] }, s)
  | (.error error, s) =>
    ({ result with
      errors := result.errors ++ [.vector bundle.semanticGeneration error] }, s)

def removeDir (kind : ArtifactKind) (artifact : Option GenerationArtifact)
    (result : GenerationRemovalResult × σ) : GenerationRemovalResult × σ :=
  match artifact with
  | none => result
  | some artifact =>
    match remover.removeGenerationDir result.2 (kind, artifact.name) with
    | (.ok _, s) =>
      ({ result.1 with
        removedPaths := result.1.removedPaths ++ [(kind, artifact.name)]
        removedBytes := saturatingAdd result.1.removedBytes artifact.bytes }, s)
    | (.error error, s) =>
      ({ result.1 with
        errors := result.1.errors ++ [.path (kind, artifact.name) error] }, s)

/-- One turn of the loop of `apply_generation_retention`. -/
def removeBundle (s : σ) (bundle : GenerationBundle) : GenerationRemovalResult × σ :=
  let result := removeDir remover .scip bundle.scip
    (removeDir remover .lexical bundle.lexical
      (removeVector remover s bundle
        ⟨bundle.generation, bundle.semanticGeneration, [], false, 0, bundle.bytes, []⟩))
  ({ result.1 with
    remainingReclaimableBytes := bundle.bytes - result.1.removedBytes }, result.2)

def removeBundles (s : σ) : List GenerationBundle → List GenerationRemovalResult × σ
  | [] => ([], s)
  | bundle :: rest =>
    let result := removeBundle remover s bundle
    let results := removeBundles result.2 rest
    (result.1 :: results.1, results.2)

def applyGenerationRetention (plan : GenerationRetentionPlan) (s : σ) :
    GenerationRetentionApplyReport × σ :=
  if plan.pruningSuppressed then
    (⟨true, plan.activeBytes, plan.rollbackBytes, plan.buildingBytes, plan.retainedBytes,
      plan.reclaimableBytes, 0, plan.reclaimableBytes, [], plan.errors.map .plan⟩, s)
  else
    let results := removeBundles remover s (plan.bundles.filter (·.state = .reclaimable))
    let removedBytes := results.1.foldl
      (fun total result => saturatingAdd total result.removedBytes) 0
    (⟨false, plan.activeBytes, plan.rollbackBytes, plan.buildingBytes, plan.retainedBytes,
      plan.reclaimableBytes, removedBytes, plan.reclaimableBytes - removedBytes, results.1,
      results.1.flatMap (·.errors)⟩, results.2)

/-- The remover, with the paths that it was given. -/
def GenerationRemover.recorded : GenerationRemover (σ × List Artifact) where
  removeGenerationDir s artifact :=
    let result := remover.removeGenerationDir s.1 artifact
    (result.1, result.2, s.2 ++ [artifact])
  removeVectorGeneration s generation :=
    let result := remover.removeVectorGeneration s.1 generation
    (result.1, result.2, s.2 ++ [(.semantic, generation)])

def Listing.without (listing : Listing) (name : String) : Listing where
  items := listing.items.filter fun item => item.map (·.1) ≠ some name
  nodup := by
    exact ((List.filter_sublist.filterMap id).map _).nodup listing.nodup

/-- `OwnedDeletionRoot::remove` once the directories above an artifact root are opened: only a
missing leaf counts as removed already, a directory above it that cannot be opened is an error.
What is found at the leaf can be removed. -/
def removeLeaf (name : String) : ArtifactRoot → Except String Bool × ArtifactRoot
  | .direct (some listing) =>
    if some name ∈ listing.items.map (·.map (·.1)) then
      (.ok true, .direct (some (listing.without name)))
    else (.ok false, .direct (some listing))
  | root => (.error "remove owned generation path", root)

def removeBelow (name : String) :
    DirectPath ArtifactRoot → Except String Bool × DirectPath ArtifactRoot
  | .direct root => ((removeLeaf name root).1, .direct (removeLeaf name root).2)
  | data => (.error "remove owned generation path", data)

def SidecarRoots.removeOwnedPath (layout : SidecarRoots) :
    Artifact → Except String Bool × SidecarRoots
  | (.lexical, name) =>
    let result := removeBelow name layout.lexicalData
    (result.1, { layout with lexicalData := result.2 })
  | (.scip, name) =>
    let result := removeLeaf name layout.scip
    (result.1, { layout with scip := result.2 })
  | (.semantic, name) =>
    let result := removeBelow name layout.semanticData
    (result.1, { layout with semanticData := result.2 })

/-- `FsGenerationRemover` -/
def fsGenerationRemover : GenerationRemover SidecarRoots where
  removeGenerationDir layout artifact :=
    let result := layout.removeOwnedPath artifact
    let removed := result.1.bind fun removed =>
      if removed then .ok () else .error "generation directory disappeared before removal"
    (removed, result.2)
  removeVectorGeneration layout generation := layout.removeOwnedPath (.semantic, generation)

def pathsPassed (plan : GenerationRetentionPlan) (s : σ) : List Artifact :=
  (applyGenerationRetention remover.recorded plan (s, [])).2.2

end Apply

section Passed
variable {σ : Type} {remover : GenerationRemover σ}

theorem removeVector_recorded (s : σ × List Artifact) (bundle : GenerationBundle)
    (result : GenerationRemovalResult) :
    (removeVector remover.recorded s bundle result).2.2 =
      s.2 ++ [(.semantic, bundle.semanticGeneration)] := by
  unfold removeVector GenerationRemover.recorded
  dsimp only
  split
  all_goals
    rename_i heq
    exact (congrArg (·.2.2) heq).symm

theorem removeDir_recorded (kind : ArtifactKind) (artifact : Option GenerationArtifact)
    (result : GenerationRemovalResult × σ × List Artifact) :
    (removeDir remover.recorded kind artifact result).2.2 =
      result.2.2 ++ (artifact.map fun artifact => (kind, artifact.name)).toList := by
  cases artifact with
  | none => simp [removeDir]
  | some artifact =>
    unfold removeDir GenerationRemover.recorded
    dsimp only
    split
    all_goals
      rename_i heq
      exact (congrArg (·.2.2) heq).symm

theorem removeBundle_recorded (s : σ × List Artifact) (bundle : GenerationBundle) :
    (removeBundle remover.recorded s bundle).2.2 =
      s.2 ++ ((.semantic, bundle.semanticGeneration) ::
        ((bundle.lexical.map fun artifact => (ArtifactKind.lexical, artifact.name)).toList ++
          (bundle.scip.map fun artifact => (ArtifactKind.scip, artifact.name)).toList)) := by
  unfold removeBundle
  dsimp only
  rw [removeDir_recorded, removeDir_recorded, removeVector_recorded, List.append_assoc,
    List.append_assoc, List.singleton_append]

theorem removeBundles_recorded (bundles : List GenerationBundle) (s : σ × List Artifact) :
    (removeBundles remover.recorded s bundles).2.2 =
      s.2 ++ bundles.flatMap fun bundle =>
        (.semantic, bundle.semanticGeneration) ::
          ((bundle.lexical.map fun artifact => (ArtifactKind.lexical, artifact.name)).toList ++
            (bundle.scip.map fun artifact => (ArtifactKind.scip, artifact.name)).toList) := by
  induction bundles generalizing s with
  | nil => simp [removeBundles]
  | cons bundle rest ih =>
    unfold removeBundles
    dsimp only
    rw [ih, removeBundle_recorded, List.flatMap_cons, List.append_assoc]

/-- Whatever the remover answers, it is given the same paths. -/
theorem pathsPassed_eq (plan : GenerationRetentionPlan) (s : σ) :
    pathsPassed remover plan s = plan.removals := by
  unfold pathsPassed applyGenerationRetention GenerationRetentionPlan.removals
  split
  · rfl
  · exact (removeBundles_recorded _ _).trans (List.nil_append _)

end Passed

section Measure

/-- A fold of saturating additions saturates the sum. -/
theorem foldl_saturatingAdd {α : Type} (f : α → Nat) (items : List α) (total : Nat) :
    items.foldl (fun total item => saturatingAdd total (f item)) (min total (2 ^ 64 - 1)) =
      min (total + (items.map f).sum) (2 ^ 64 - 1) := by
  induction items generalizing total with
  | nil => simp
  | cons item rest ih =>
    have hstep : saturatingAdd (min total (2 ^ 64 - 1)) (f item) =
        min (total + f item) (2 ^ 64 - 1) := by
      unfold saturatingAdd
      omega
    rw [List.foldl_cons, hstep, ih, List.map_cons, List.sum_cons, Nat.add_assoc]

mutual

theorem entrySize_eq {size : Nat} :
    ∀ {node : FsNode}, entrySize node = some size →
      min size (2 ^ 64 - 1) = min node.diskBytes (2 ^ 64 - 1)
  | .file len, h => by
    obtain rfl : len = size := by simpa [entrySize] using h
    rfl
  | .directory entries, h => by
    rw [entrySize] at h
    have hsize := entriesSize_eq 0 h
    rw [FsNode.diskBytes]
    omega
  | .unlistable, h => by simp [entrySize] at h
  | .link, h => by simp [entrySize] at h
  | .special, h => by simp [entrySize] at h
  | .uninspectable, h => by simp [entrySize] at h

theorem entriesSize_eq {size : Nat} (total : Nat) :
    ∀ {entries : List FsNode}, entriesSize (min total (2 ^ 64 - 1)) entries = some size →
      size = min (total + diskBytesOf entries) (2 ^ 64 - 1)
  | [], h => by
    rw [entriesSize] at h
    rw [diskBytesOf, Nat.add_zero]
    exact (Option.some.inj h).symm
  | entry :: rest, h => by
    rw [entriesSize] at h
    obtain ⟨first, hfirst, hrest⟩ := Option.bind_eq_some_iff.mp h
    have hentry := entrySize_eq hfirst
    have hstep : saturatingAdd (min total (2 ^ 64 - 1)) first =
        min (total + entry.diskBytes) (2 ^ 64 - 1) := by
      unfold saturatingAdd
      omega
    rw [hstep] at hrest
    rw [entriesSize_eq _ hrest, diskBytesOf, Nat.add_assoc]

end

/-- A measured directory holds the bytes of its files, up to saturation. -/
theorem directorySize_eq {node : FsNode} {size : Nat} (h : directorySize node = some size) :
    size = min node.diskBytes (2 ^ 64 - 1) := by
  unfold directorySize at h
  split at h
  · rename_i entries
    have hsize := entriesSize_eq 0 h
    rw [FsNode.diskBytes]
    omega
  · exact absurd h (by simp)

end Measure

section Discovered
variable {projectId : String} {kind : ArtifactKind}

theorem suffix_eq {name suffix : String} (h : kind.suffix projectId name = some suffix) :
    name = kind.lead projectId ++ suffix := by
  cases kind with
  | lexical => exact canonicalGenerationSuffix_eq h
  | scip => exact canonicalGenerationSuffix_eq h
  | semantic => exact canonicalCollectionSuffix_eq h

theorem dirEntry_name (item : String × FsNode) : (dirEntry item).name = item.1 := by
  unfold dirEntry
  split
  all_goals rfl

/-- What the plan takes for an artifact. -/
theorem discover_dirEntry {item : String × FsNode} {generation : String}
    {artifact : GenerationArtifact} :
    discover projectId kind (dirEntry item) = .artifact generation artifact ↔
      ∃ suffix bytes, kind.suffix projectId item.1 = some suffix ∧
        directorySize item.2 = some bytes ∧ generation = generationLead projectId ++ suffix ∧
        artifact = ⟨item.1, bytes⟩ := by
  have hentry : ∀ bytes, directorySize item.2 = some bytes ↔
      (dirEntry item).isDirectory = true ∧ (dirEntry item).size = some bytes := by
    intro bytes
    unfold dirEntry
    split
    all_goals
      rename_i hnode
      simp [hnode, directorySize]
  constructor
  · intro h
    obtain ⟨suffix, hgeneration, hsuffix, hname⟩ := discover_artifact h
    unfold discover at h
    split at h
    · exact absurd h (by simp)
    · split at h
      · exact absurd h (by simp)
      · split at h
        · exact absurd h (by simp)
        · rename_i hdirectory
          split at h
          · exact absurd h (by simp)
          · rename_i bytes hsize
            obtain ⟨-, rfl⟩ := Discovery.artifact.inj h
            rw [dirEntry_name] at hsuffix
            exact ⟨suffix, bytes, hsuffix, (hentry bytes).mpr ⟨by simpa using hdirectory, hsize⟩,
              hgeneration, by rw [dirEntry_name]⟩
  · rintro ⟨suffix, bytes, hsuffix, hbytes, rfl, rfl⟩
    obtain ⟨hdirectory, hsize⟩ := (hentry bytes).mp hbytes
    have hlead : stripLead (kind.lead projectId) item.1 = some suffix :=
      stripLead_eq_some.mpr (suffix_eq hsuffix)
    unfold discover
    rw [dirEntry_name, hlead, hsuffix, hdirectory, hsize]
    rfl

end Discovered

end CodeStory.Retrieval
