import Mathlib.Data.Prod.Lex
import CodeStory.Affected.Impacts

/-!
# The completeness an analysis reports

Gaps in the evidence, uncovered inputs, lists that were cut and missing freshness each take away
the right to say that nothing else is impacted. The analysis starts from an open project that is
not being indexed and whose tables could be read; the refusals before that are not modelled.
-/

set_option autoImplicit false

namespace CodeStory.Affected

open CodeStory.Graph (Edge ErrorInfo Node)
open BreadthFirst

/-- `u32::MAX` -/
def u32Max : Nat := 4294967295

def clampUsizeToU32 (n : Nat) : Nat := min n u32Max

structure GapCategory where
  count : Nat
  sample : Option String
  deriving DecidableEq, Repr

structure RelevantGaps where
  current : GapCategory
  previous : GapCategory
  indexed : GapCategory
  freshness : GapCategory
  deriving DecidableEq, Repr

structure GapInput where
  resolvedInputs : List ResolvedInput
  matchedRecordFlags : List Bool
  currentIdentityErrors : List (Option String)
  previousIdentityErrors : List (Option String)
  unavailableIndexedIdentityCount : Nat
  unavailableIndexedIdentitySample : Option String
  freshnessEvidenceAffectsRequestedClaim : Bool
  freshnessIdentityGapCount : Nat
  freshnessIdentityGapSample : Option String

section Gaps
variable (indexable : String → Bool) (input : GapInput)

/-- The errors of the records whose resolved input is relevant. -/
def relevantErrors (errors : List (Option String)) (relevant : Bool → ResolvedInput → Bool) :
    List String :=
  errors.zipIdx.filterMap fun entry =>
    match entry.1, input.resolvedInputs[entry.2]? with
    | some error, some resolved =>
      if relevant (input.matchedRecordFlags.getD entry.2 false) resolved then some error else none
    | _, _ => none

def indexedIdentityIsRelevant : Bool :=
  input.resolvedInputs.zipIdx.any fun entry =>
    input.matchedRecordFlags.getD entry.2 false || indexable entry.1.current ||
      entry.1.previous.any indexable

def affectedRelevantEvidenceGaps : RelevantGaps :=
  let currentErrors := relevantErrors input input.currentIdentityErrors
    fun matched resolved => matched || indexable resolved.current
  let previousErrors := relevantErrors input input.previousIdentityErrors
    fun matched resolved => !matched && resolved.previous.any indexable
  { current := ⟨currentErrors.length, currentErrors.head?⟩
    previous := ⟨previousErrors.length, previousErrors.head?⟩
    indexed :=
      if indexedIdentityIsRelevant indexable input then
        ⟨input.unavailableIndexedIdentityCount, input.unavailableIndexedIdentitySample⟩
      else ⟨0, none⟩
    freshness :=
      if input.freshnessEvidenceAffectsRequestedClaim then
        ⟨input.freshnessIdentityGapCount, input.freshnessIdentityGapSample⟩
      else ⟨0, none⟩ }

end Gaps

structure GapComposition where
  gapFree : Bool
  unavailableEvidenceCount : Nat
  blindSpots : List String
  deriving DecidableEq, Repr

def GapComposition.confidence (composition : GapComposition) : String :=
  if composition.gapFree then "complete" else "bounded"

def gapBlindSpot (gap : GapCategory) (before after : String) : List String :=
  if gap.count > 0 then
    [before ++ toString gap.count ++ after ++ " (" ++
      gap.sample.getD "no identity error sample available" ++ ")"]
  else []

def composeAffectedEvidenceGaps (baseUnavailableEvidenceCount : Nat) (gaps : RelevantGaps) :
    GapComposition where
  gapFree := gaps.current.count == 0 && gaps.previous.count == 0 && gaps.indexed.count == 0 &&
    gaps.freshness.count == 0
  unavailableEvidenceCount :=
    [baseUnavailableEvidenceCount, gaps.current.count, gaps.previous.count, gaps.indexed.count,
      gaps.freshness.count].foldl (fun sum n => min (sum + n) Graph.usizeMax) 0
  blindSpots :=
    gapBlindSpot gaps.current "native current-path identity was unavailable for "
      " relevant changed records; completeness was downgraded" ++
    gapBlindSpot gaps.previous "native previous-path identity was unavailable for "
      " unmatched rename/copy records; completeness was downgraded" ++
    gapBlindSpot gaps.indexed "native path identity was unavailable for "
      " relevant indexed files; completeness was downgraded" ++
    gapBlindSpot gaps.freshness "native path identity was unavailable for "
      " refresh-plan paths needed by the requested claim"

structure Completeness where
  complete : Bool
  confidence : String
  directImpactCount : Nat
  propagatedImpactCount : Nat
  candidateTestCount : Nat
  uncoveredInputCount : Nat
  unavailableEvidenceCount : Nat
  truncated : Bool
  truncationReasons : List String
  deriving DecidableEq, Repr

structure CompletenessInput where
  uncoveredInputCount : Nat
  directImpactCount : Nat
  propagatedImpactCount : Nat
  candidateTestCount : Nat
  freshnessEvidenceAffectsRequestedClaim : Bool
  gapComposition : GapComposition
  truncationReasons : List String

def composeAffectedCompleteness (input : CompletenessInput) : Completeness :=
  let truncated := !input.truncationReasons.isEmpty
  let complete := input.uncoveredInputCount == 0 && !truncated && input.gapComposition.gapFree &&
    !input.freshnessEvidenceAffectsRequestedClaim
  { complete := complete
    confidence :=
      if complete then "complete"
      else if !input.gapComposition.gapFree then input.gapComposition.confidence
      else "bounded"
    directImpactCount := clampUsizeToU32 input.directImpactCount
    propagatedImpactCount := clampUsizeToU32 input.propagatedImpactCount
    candidateTestCount := clampUsizeToU32 input.candidateTestCount
    uncoveredInputCount := clampUsizeToU32 input.uncoveredInputCount
    unavailableEvidenceCount := clampUsizeToU32 input.gapComposition.unavailableEvidenceCount
    truncated := truncated
    truncationReasons := input.truncationReasons }

theorem composeAffectedCompleteness_complete {input : CompletenessInput} :
    (composeAffectedCompleteness input).complete = true ↔
      input.uncoveredInputCount = 0 ∧ input.truncationReasons = [] ∧
        input.gapComposition.gapFree = true ∧
        input.freshnessEvidenceAffectsRequestedClaim = false := by
  simp [composeAffectedCompleteness, and_assoc]

/-! ## What to do next -/

structure FollowUpInvocation where
  program : String
  args : List String
  deriving DecidableEq, Repr

structure FollowUp where
  action : String
  reason : String
  confidence : String
  invocation : Option FollowUpInvocation
  deriving DecidableEq, Repr

def affectedFilesFollowUpInvocation (project path : String) : FollowUpInvocation where
  program := "codestory-cli"
  args := ["files", "--project", project, "--path", path, "--format", "markdown"]

def affectedClassificationRank : InputClassification → Nat
  | .staleIndex => 0
  | .missing | .expectedDeleted | .renameUnresolved => 1
  | .malformed => 2
  | .unavailableEvidence => 3
  | .validUncovered => 4

def compareUncovered (left right : UncoveredInput) : Ordering :=
  (compare (affectedClassificationRank left.classification)
    (affectedClassificationRank right.classification)).then <|
  (compare left.path right.path).then <|
  compare left.reason right.reason

def malformedFollowUp (project : String) (input : UncoveredInput) : FollowUp :=
  let recordedError := input.evidence.any fun evidence =>
    "indexed file error_count=".toList.isPrefixOf evidence.toList
  { action := if recordedError then "inspect_recorded_index_error" else "inspect_malformed_input"
    reason :=
      if recordedError then
        "inspect the exact recorded parse/index error for " ++ input.path ++
          " before retrying impact analysis"
      else
        "confirm " ++ input.path ++
          " is a regular project file before retrying impact analysis"
    confidence := "direct"
    invocation := some (affectedFilesFollowUpInvocation project input.path) }

/-- The priority, the path under which follow-ups are the same, and the follow-up. -/
def followUpFor (project : String) (input : UncoveredInput) : Nat × String × FollowUp :=
  match input.classification with
  | .validUncovered =>
    (5, input.path,
      { action := "inspect_graph_boundary"
        reason := input.path ++ " is a valid project file outside current graph coverage; " ++
          "source inspection is the relevant next step"
        confidence := "direct"
        invocation := none })
  | .staleIndex =>
    (0, "",
      { action := "refresh_stale_index"
        reason := "complete requested-path freshness evidence shows the publication is stale"
        confidence := "direct"
        invocation := some ⟨"codestory-cli",
          ["index", "--project", project, "--refresh", "incremental"]⟩ })
  | .missing | .renameUnresolved | .expectedDeleted =>
    (1, input.path,
      { action := "locate_input_path"
        reason := "confirm the exact project-relative spelling and file state for " ++ input.path
        confidence := "direct"
        invocation := some (affectedFilesFollowUpInvocation project input.path) })
  | .malformed => (2, input.path, malformedFollowUp project input)
  | .unavailableEvidence =>
    (3, input.path,
      { action := "inspect_input_evidence"
        reason := "inspect the focused inventory row for " ++ input.path ++
          "; current evidence cannot classify its graph absence more strongly"
        confidence := "bounded"
        invocation := some (affectedFilesFollowUpInvocation project input.path) })

abbrev FollowUps := SortedMap (Nat ×ₗ String ×ₗ String) FollowUp

def followUpKey (priority : Nat) (action path : String) : Nat ×ₗ String ×ₗ String :=
  toLex (priority, toLex (action, path))

def freshnessFollowUp (project reason : String) : FollowUp where
  action := "establish_freshness_evidence"
  reason := reason
  confidence := "bounded"
  invocation := some ⟨"codestory-cli", ["doctor", "--project", project, "--format", "markdown"]⟩

/-- The first follow-up under a key stays. -/
def affectedFollowUps (project : String) (uncoveredInputs : List UncoveredInput)
    (freshnessDiagnostic : Option String) : List FollowUp :=
  let inputs := uncoveredInputs.insertionSort fun left right => compareUncovered left right ≠ .gt
  let followUps : FollowUps := inputs.foldl (fun followUps input =>
    let next := followUpFor project input
    followUps.offer (fun _ _ => false) (followUpKey next.1 next.2.2.action next.2.1)
      next.2.2) .empty
  let followUps := match freshnessDiagnostic with
    | none => followUps
    | some reason =>
      followUps.put (followUpKey 4 "establish_freshness_evidence" "")
        (freshnessFollowUp project reason)
  followUps.entries.map (·.2)

/-! ## The analysis -/

structure Bounds where
  requestedDepth : Nat
  maximumDepth : Nat
  visitedNodeCount : Nat
  visitedEdgeCount : Nat
  impactedSymbolLimit : Nat
  impactedRouteLimit : Nat
  deriving DecidableEq, Repr

structure CompletionInput (I : Type) where
  root : String
  resolvedInputs : List ResolvedInput
  classified : ClassifiedInputs
  freshness : FreshnessObservation I
  changeRecordCount : Nat
  symbolImpacts : SymbolImpacts
  routeImpacts : RouteImpacts
  impactedTests : List AffectedTestFile
  depth : Nat
  visitedNodeCount : Nat
  visitedEdgeCount : Nat

structure Completion where
  project : String
  bounds : Bounds
  completeness : Completeness
  blindSpots : List String
  followUps : List FollowUp
  notes : List String

section Completion
variable {I : Type} (indexable : String → Bool) (input : CompletionInput I)

def affectedFreshnessDiagnostic : Option String :=
  if input.classified.freshnessEvidenceAffectsRequestedClaim then
    some (match input.freshness.reason with
      | some reason => "inspect observational freshness because requested-path evidence was " ++
          "unavailable: " ++ reason
      | none => "inspect observational freshness because requested-path refresh-plan identity " ++
          "evidence was unavailable")
  else none

def completionGaps : RelevantGaps :=
  affectedRelevantEvidenceGaps indexable
    { resolvedInputs := input.resolvedInputs
      matchedRecordFlags := input.classified.matchedRecordFlags
      currentIdentityErrors := input.classified.currentIdentityErrors
      previousIdentityErrors := input.classified.previousIdentityErrors
      unavailableIndexedIdentityCount := input.classified.unavailableIndexedIdentityCount
      unavailableIndexedIdentitySample := input.classified.unavailableIndexedIdentitySample
      freshnessEvidenceAffectsRequestedClaim :=
        input.classified.freshnessEvidenceAffectsRequestedClaim
      freshnessIdentityGapCount := input.freshness.identityGapCount
      freshnessIdentityGapSample := input.freshness.identityGapSample }

def completionGapComposition : GapComposition :=
  composeAffectedEvidenceGaps
    (input.classified.uncoveredInputs.countP (·.classification = .unavailableEvidence))
    (completionGaps indexable input)

def truncationReasons : List String :=
  (if input.symbolImpacts.truncated then
    ["impacted_symbols retained 200 of " ++ toString input.symbolImpacts.total ++ " results"]
  else []) ++
  (if input.routeImpacts.truncated then
    ["impacted_routes retained 100 of " ++ toString input.routeImpacts.total ++ " results"]
  else [])

def noMatchNote : String :=
  "no current input paths matched indexed file identity; inspect the typed uncovered-input evidence"

def previousOnlySeedCount : Nat :=
  (input.classified.graphSeededRecordFlags.zip input.classified.matchedRecordFlags).countP
    fun flags => flags.1 && !flags.2

def completionNotes : List String :=
  (if input.classified.matchedFileIds.keys.length = 0 then [noMatchNote]
  else ["matched " ++ toString input.classified.matchedFileIds.keys.length ++
    " indexed files by current path; dependency walk expanded files into contained symbols"]) ++
  (if previousOnlySeedCount input > 0 then
    [toString (previousOnlySeedCount input) ++ " current input paths were classified separately " ++
      "while their previous indexed identities seeded graph traversal"]
  else []) ++
  (if input.impactedTests.isEmpty then
    ["no impacted test-like files found in the indexed graph"]
  else [])

def graphUnseededInputCount : Nat :=
  input.changeRecordCount - input.classified.graphSeededRecordFlags.countP (· = true)

def completionBlindSpots : List String :=
  (if input.classified.matchedFileIds.keys.length = 0 ∧
      input.classified.graphSeedFileIds.keys.length = 0 then [noMatchNote] else []) ++
  (if graphUnseededInputCount input > 0 then
    [toString (graphUnseededInputCount input) ++ " inputs had no indexed current or previous " ++
      "identity and were excluded from graph traversal"]
  else []) ++
  (completionGapComposition indexable input).blindSpots ++
  (if input.classified.matchedFiles.any (fun file => !file.complete || file.errorCount > 0) then
    ["one or more matched files are incomplete or have recorded index errors"]
  else []) ++
  (if input.routeImpacts.routes.isEmpty then
    ["no route/endpoint evidence found for matched files or dependents"]
  else []) ++
  truncationReasons input ++
  (if input.freshness.status = .stale ∧
      ¬input.classified.uncoveredInputs.any (·.classification = .staleIndex) then
    ["the workspace has unrelated stale index state, but no requested input was classified stale"]
  else []) ++
  (if (affectedFreshnessDiagnostic input).isSome then
    ["bounded index freshness evidence was unavailable for a requested indexable path; no " ++
      "complete no-impact claim is possible"]
  else [])

def completeAffectedAnalysis : Completion where
  project := input.root
  bounds :=
    { requestedDepth := input.depth
      maximumDepth := 8
      visitedNodeCount := clampUsizeToU32 input.visitedNodeCount
      visitedEdgeCount := clampUsizeToU32 input.visitedEdgeCount
      impactedSymbolLimit := 200
      impactedRouteLimit := 100 }
  completeness := composeAffectedCompleteness
    { uncoveredInputCount := input.classified.uncoveredInputs.length
      directImpactCount := input.symbolImpacts.directCount
      propagatedImpactCount := input.symbolImpacts.propagatedCount
      candidateTestCount := input.impactedTests.length
      freshnessEvidenceAffectsRequestedClaim :=
        input.classified.freshnessEvidenceAffectsRequestedClaim
      gapComposition := completionGapComposition indexable input
      truncationReasons := truncationReasons input }
  blindSpots := completionBlindSpots indexable input
  followUps := affectedFollowUps input.root input.classified.uncoveredInputs
    (affectedFreshnessDiagnostic input)
  notes := completionNotes input

end Completion

/-- What surrounds one analysis and stays fixed while it runs. -/
structure Surroundings (I : Type) where
  root : String
  resolveProjectFilePath : String → Except ApiError String
  resolve : String → Except String I
  metadata : String → PathMetadata
  indexable : String → Bool
  freshness : FreshnessObservation I
  relativePath : String → String
  pathRoleFromKey : String → FileRole
  routeEndpointMetadata : Node → Option String → String → Option RouteMetadata
  cachedLabel : Int → Option String

structure StoredState where
  files : KeyedTable IndexedFile.id
  nodes : KeyedTable Node.id
  edges : List Edge
  errors : List ErrorInfo

/-- The tables are held in memory, so the counts do not reach the end of `u32`. -/
def StoredState.errorsByFile (state : StoredState) (fileId : Int) : Nat :=
  state.errors.countP (·.fileId = some fileId)

structure AnalysisRequest where
  input : AnalysisInput
  depth : Option Nat
  filter : Option String

def AnalysisRequest.clampedDepth (request : AnalysisRequest) : Nat :=
  max 1 (min 8 (request.depth.getD 2))

structure Analysis where
  projectRoot : String
  changedPaths : List String
  changeRecords : List ChangeRecord
  matchedFiles : List MatchedFile
  unmatchedPaths : List UnmatchedPath
  uncoveredInputs : List UncoveredInput
  matchedFileCount : Nat
  depth : Nat
  impactedSymbols : List AffectedSymbol
  impactedRoutes : List AffectedRoute
  impactedTests : List AffectedTestFile
  bounds : Bounds
  completeness : Completeness
  blindSpots : List String
  followUps : List FollowUp
  notes : List String

section Analysis
variable {I : Type} [DecidableEq I] (surroundings : Surroundings I) (state : StoredState)

def resolveInput (record : ChangeRecord) : Except ApiError ResolvedInput := do
  let current ← surroundings.resolveProjectFilePath record.path
  let previous ← record.previousPath.mapM surroundings.resolveProjectFilePath
  return ⟨current, previous⟩

def classificationContext (records : List ChangeRecord) : ClassificationContext I where
  root := surroundings.root
  records := records
  freshness := surroundings.freshness
  metadata := surroundings.metadata
  indexable := surroundings.indexable
  relativePath := surroundings.relativePath
  pathRoleFromKey := surroundings.pathRoleFromKey

def storedMatches (records : List ChangeRecord) : IdentityMatches I :=
  matchAffectedFileIdentities surroundings.root surroundings.resolve records state.files.rows

def classified (records : List ChangeRecord) (resolvedInputs : List ResolvedInput) :
    ClassifiedInputs :=
  classifyAffectedInputs (classificationContext surroundings records) resolvedInputs
    state.files.rows state.errorsByFile (storedMatches surroundings state records)

def graphIndex : GraphIndex :=
  affectedGraphIndex surroundings.cachedLabel surroundings.relativePath state.files state.nodes

def reverseWalk (depth : Nat) (found : ClassifiedInputs) : ReverseWalk :=
  affectedReverseWalk state.edges (graphIndex surroundings state).labels depth
    (affectedGraphSeeds found.previousIdentitySeedEvidence
      (graphIndex surroundings state).nodeIdsByFile found.graphSeedFileIds.keys)

/-- The analysis of a request that has been accepted. -/
def analyse (depth : Nat) (filter : Option String) (changedPaths : List String)
    (records : List ChangeRecord) (resolvedInputs : List ResolvedInput) : Analysis :=
  let found := classified surroundings state records resolvedInputs
  let graph := graphIndex surroundings state
  let walk := reverseWalk surroundings state depth found
  let symbolImpacts := affectedSymbolImpacts graph walk.distances walk.evidence filter
  let routeImpacts := affectedRouteImpacts graph surroundings.routeEndpointMetadata
    walk.distances walk.evidence filter
  let impactedTests := affectedTestImpacts surroundings.pathRoleFromKey symbolImpacts.symbols
  let completion := completeAffectedAnalysis surroundings.indexable
    { root := surroundings.root
      resolvedInputs := resolvedInputs
      classified := found
      freshness := surroundings.freshness
      changeRecordCount := records.length
      symbolImpacts := symbolImpacts
      routeImpacts := routeImpacts
      impactedTests := impactedTests
      depth := depth
      visitedNodeCount := walk.distances.keys.length
      visitedEdgeCount := walk.visitedEdgeCount }
  { projectRoot := completion.project
    changedPaths := changedPaths
    changeRecords := records
    matchedFiles := found.matchedFiles
    unmatchedPaths := found.unmatchedPaths
    uncoveredInputs := found.uncoveredInputs
    matchedFileCount := min found.matchedFileIds.keys.length u32Max
    depth := depth
    impactedSymbols := symbolImpacts.symbols
    impactedRoutes := routeImpacts.routes
    impactedTests := impactedTests
    bounds := completion.bounds
    completeness := completion.completeness
    blindSpots := completion.blindSpots
    followUps := completion.followUps
    notes := completion.notes }

def affectedAnalysis (request : AnalysisRequest) : Except ApiError Analysis := do
  let normalized ← normalizedAffectedInput request.input
  let resolvedInputs ← normalized.2.mapM (resolveInput surroundings)
  return analyse surroundings state request.clampedDepth (request.filter.map normalizePathKey)
    normalized.1 normalized.2 resolvedInputs

end Analysis

/-! ## A complete analysis -/

section Spec
variable {I : Type} [DecidableEq I] {surroundings : Surroundings I} {state : StoredState}

/-- The current path of the record has the identity of the file. -/
def Names (surroundings : Surroundings I) (record : ChangeRecord) (file : IndexedFile) : Prop :=
  ∃ identity, surroundings.resolve (affectedChangePath surroundings.root record.path) =
      .ok identity ∧
    surroundings.resolve (affectedChangePath surroundings.root file.path) = .ok identity

/-- A file that a record names, or a node declared in one. -/
def Seed (surroundings : Surroundings I) (state : StoredState) (records : List ChangeRecord)
    (b : Int) : Prop :=
  ∃ file ∈ state.files.rows, (∃ record ∈ records, Names surroundings record file) ∧
    (b = file.id ∨ ∃ node ∈ state.nodes.rows, node.id = b ∧ node.fileNodeId = some file.id)

/-- What a complete analysis promises. -/
structure Covered (surroundings : Surroundings I) (state : StoredState) (request : AnalysisRequest)
    (analysis : Analysis) : Prop where
  accepted : normalizedAffectedInput request.input =
    .ok (analysis.changedPaths, analysis.changeRecords)
  named : ∀ record ∈ analysis.changeRecords, ∃ file ∈ state.files.rows,
    Names surroundings record file
  sound : ∀ record ∈ analysis.changeRecords, ∀ file ∈ state.files.rows,
    Names surroundings record file →
      file.indexed = true ∧ file.complete = true ∧
      (∀ error ∈ state.errors, error.fileId ≠ some file.id) ∧
      ∀ identity, surroundings.resolve (affectedChangePath surroundings.root file.path) =
        .ok identity → identity ∉ surroundings.freshness.staleIdentities
  inventory : surroundings.freshness.inventoryComplete = true
  currentLookups : ∀ record ∈ analysis.changeRecords, ∃ identity,
    surroundings.resolve (affectedChangePath surroundings.root record.path) = .ok identity
  indexedLookups : ∀ file ∈ state.files.rows, ∃ identity,
    surroundings.resolve (affectedChangePath surroundings.root file.path) = .ok identity
  evidence : analysis.completeness.unavailableEvidenceCount = 0
  depth : analysis.depth = request.clampedDepth
  symbols : ∀ nodeId n,
    (∃ symbol ∈ analysis.impactedSymbols, symbol.nodeId = nodeId ∧ symbol.distance = n) ↔
      (∃ node, state.nodes.lookup nodeId = some node ∧ node.kind ≠ .fileNode ∧
        passesFilter (graphIndex surroundings state) (request.filter.map normalizePathKey) node =
          true) ∧
      n ≤ analysis.depth ∧
      IsLayer (Dependent state.edges) (Seed surroundings state analysis.changeRecords) nodeId n

theorem affectedAnalysis_eq_ok {request : AnalysisRequest} {analysis : Analysis}
    (h : affectedAnalysis surroundings state request = .ok analysis) :
    ∃ paths records resolvedInputs, normalizedAffectedInput request.input = .ok (paths, records) ∧
      records.mapM (resolveInput surroundings) = .ok resolvedInputs ∧
      analysis = analyse surroundings state request.clampedDepth
        (request.filter.map normalizePathKey) paths records resolvedInputs := by
  unfold affectedAnalysis at h
  cases hnormalized : normalizedAffectedInput request.input with
  | error error =>
    rw [hnormalized] at h
    cases h
  | ok normalized =>
    rw [hnormalized] at h
    cases hresolved : normalized.2.mapM (resolveInput surroundings) with
    | error error =>
      change (normalized.2.mapM (resolveInput surroundings) >>= _) = _ at h
      rw [hresolved] at h
      cases h
    | ok resolvedInputs =>
      change (normalized.2.mapM (resolveInput surroundings) >>= _) = _ at h
      rw [hresolved] at h
      cases h
      exact ⟨normalized.1, normalized.2, resolvedInputs, rfl, hresolved, rfl⟩

omit [DecidableEq I] in
theorem truncationReasons_eq_nil {input : CompletionInput I} :
    truncationReasons input = [] ↔
      input.symbolImpacts.truncated = false ∧ input.routeImpacts.truncated = false := by
  unfold truncationReasons
  cases input.symbolImpacts.truncated <;> cases input.routeImpacts.truncated <;> simp

/-- With a matched record every failed lookup of an indexed file is a gap. -/
theorem indexed_count_of_gapFree {indexable : String → Bool} {input : GapInput} {base : Nat}
    (hgapFree : (composeAffectedEvidenceGaps base
      (affectedRelevantEvidenceGaps indexable input)).gapFree = true)
    (hinputs : input.resolvedInputs ≠ [])
    (hmatched : input.matchedRecordFlags.getD 0 false = true) :
    input.unavailableIndexedIdentityCount = 0 := by
  have hrelevant : indexedIdentityIsRelevant indexable input = true := by
    obtain ⟨resolved, rest, hcons⟩ := List.exists_cons_of_ne_nil hinputs
    unfold indexedIdentityIsRelevant
    rw [List.any_eq_true]
    refine ⟨(resolved, 0), ?_, ?_⟩
    · rw [hcons]
      exact List.mk_mem_zipIdx_iff_getElem?.mpr rfl
    · dsimp only
      rw [hmatched]
      rfl
  unfold composeAffectedEvidenceGaps at hgapFree
  simp only [Bool.and_eq_true, beq_iff_eq] at hgapFree
  have hcount := hgapFree.1.2
  unfold affectedRelevantEvidenceGaps at hcount
  dsimp only at hcount
  rw [if_pos hrelevant] at hcount
  exact hcount

theorem unavailableEvidenceCount_of_gapFree {gaps : RelevantGaps}
    (hgapFree : (composeAffectedEvidenceGaps 0 gaps).gapFree = true) :
    (composeAffectedEvidenceGaps 0 gaps).unavailableEvidenceCount = 0 := by
  unfold composeAffectedEvidenceGaps at hgapFree ⊢
  simp only [Bool.and_eq_true, beq_iff_eq] at hgapFree
  obtain ⟨⟨⟨hcurrent, hprevious⟩, hindexed⟩, hfreshness⟩ := hgapFree
  simp [hcurrent, hprevious, hindexed, hfreshness]

section Matched
variable {records : List ChangeRecord}

theorem mem_storedMatches {fileId : Int} :
    fileId ∈ (storedMatches surroundings state records).matchedFileIds.keys ↔
      ∃ file ∈ state.files.rows, file.id = fileId ∧
        ∃ record ∈ records, Names surroundings record file := by
  unfold storedMatches matchAffectedFileIdentities
  dsimp only
  rw [mem_currentMatches]
  constructor
  · rintro ⟨identity, i, hholds, hfile⟩
    obtain ⟨record, hrecord, hcurrent⟩ := holds_recordIdentities.mp hholds
    obtain ⟨file, hmem, hid, hindexed⟩ := mem_fileIds.mp hfile
    exact ⟨file, hmem, hid, record, List.mem_of_getElem? hrecord, identity, hcurrent, hindexed⟩
  · rintro ⟨file, hmem, hid, record, hrecord, identity, hcurrent, hindexed⟩
    obtain ⟨i, hi⟩ := List.mem_iff_getElem?.mp hrecord
    exact ⟨identity, i, holds_recordIdentities.mpr ⟨record, hi, hcurrent⟩,
      mem_fileIds.mpr ⟨file, hmem, hid, hindexed⟩⟩

theorem named_of_flag {i : Nat} {record : ChangeRecord}
    (hflag : (storedMatches surroundings state records).matchedRecordFlags.getD i false = true)
    (hrecord : records[i]? = some record) :
    ∃ file ∈ state.files.rows, Names surroundings record file := by
  unfold storedMatches matchAffectedFileIdentities at hflag
  obtain ⟨identity, hholds, hne⟩ := flag_currentMatches hflag
  obtain ⟨other, hother, hcurrent⟩ := holds_recordIdentities.mp hholds
  rw [hrecord] at hother
  cases hother
  obtain ⟨fileId, hfileId⟩ := List.exists_mem_of_ne_nil _ hne
  obtain ⟨file, hmem, _, hindexed⟩ := mem_fileIds.mp hfileId
  exact ⟨file, hmem, identity, hcurrent, hindexed⟩

theorem no_previous_of_flags
    (hflags : ∀ i < records.length,
      (storedMatches surroundings state records).matchedRecordFlags.getD i false = true) :
    (storedMatches surroundings state records).previousRecordIndexByFileId = .empty := by
  unfold storedMatches matchAffectedFileIdentities at hflags ⊢
  dsimp only at hflags ⊢
  rw [previousMatches_of_matched]
  intro identity i hholds
  exact hflags i (previous_holds_lt hholds)

theorem mem_seeds {found : ClassifiedInputs} {b : Int}
    (hfiles : found.graphSeedFileIds = (storedMatches surroundings state records).matchedFileIds) :
    b ∈ (affectedGraphSeeds found.previousIdentitySeedEvidence
        (graphIndex surroundings state).nodeIdsByFile found.graphSeedFileIds.keys).keys ↔
      Seed surroundings state records b := by
  rw [mem_affectedGraphSeeds, hfiles]
  unfold graphIndex Seed
  constructor
  · rintro ⟨fileId, hfileId, hb⟩
    obtain ⟨file, hmem, rfl, hnamed⟩ := mem_storedMatches.mp hfileId
    refine ⟨file, hmem, hnamed, ?_⟩
    rcases hb with hb | hb
    · exact Or.inl hb
    · exact Or.inr (mem_nodeIdsByFile.mp hb)
  · rintro ⟨file, hmem, hnamed, hb⟩
    refine ⟨file.id, mem_storedMatches.mpr ⟨file, hmem, rfl, hnamed⟩, ?_⟩
    rcases hb with hb | hb
    · exact Or.inl hb
    · exact Or.inr (mem_nodeIdsByFile.mpr hb)

theorem get_indexedIdentity {file : IndexedFile} (hfile : file ∈ state.files.rows) {identity : I}
    (hresolve : surroundings.resolve (affectedChangePath surroundings.root file.path) =
      .ok identity) :
    (storedMatches surroundings state records).indexedIdentityByFileId.get file.id =
      some identity :=
  get_identityByFileId state.files.nodup hfile hresolve

end Matched

theorem errors_of_errorsByFile_eq_zero {fileId : Int} (h : state.errorsByFile fileId = 0) :
    ∀ error ∈ state.errors, error.fileId ≠ some fileId := by
  unfold StoredState.errorsByFile at h
  rw [List.countP_eq_zero] at h
  intro error herror heq
  exact h error herror (by simpa using heq)

/-- The walk from the seeds of an analysis gives the distances from the named files. -/
theorem reverseWalk_distances {records : List ChangeRecord} {found : ClassifiedInputs}
    (hfiles : found.graphSeedFileIds = (storedMatches surroundings state records).matchedFileIds)
    (depth : Nat) (b : Int) (n : Nat) :
    (reverseWalk surroundings state depth found).distances.get b = some n ↔
      n ≤ depth ∧
        IsLayer (Dependent state.edges) (Seed surroundings state records) b n := by
  unfold reverseWalk
  rw [affectedReverseWalk_distances]
  have hsource : (fun b => b ∈ (affectedGraphSeeds found.previousIdentitySeedEvidence
      (graphIndex surroundings state).nodeIdsByFile found.graphSeedFileIds.keys).keys) =
      Seed surroundings state records := by
    funext b
    exact propext (mem_seeds hfiles)
  rw [hsource]

/-- An analysis that says it is complete has found everything that depends on the change. -/
theorem affectedAnalysis_complete {request : AnalysisRequest} {analysis : Analysis}
    (h : affectedAnalysis surroundings state request = .ok analysis)
    (hcomplete : analysis.completeness.complete = true) :
    Covered surroundings state request analysis := by
  obtain ⟨paths, records, resolvedInputs, hnormalized, hresolved, rfl⟩ := affectedAnalysis_eq_ok h
  obtain ⟨huncovered, htruncation, hgapFree, _⟩ :=
    composeAffectedCompleteness_complete.mp hcomplete
  have hnil := List.eq_nil_of_length_eq_zero huncovered
  obtain ⟨hflags, hsound⟩ := matched_of_uncoveredInputs_nil hnil
  have hrecords : 0 < records.length :=
    List.length_pos_iff.mpr (normalizedAffectedInput_nonempty hnormalized)
  have hinputs : resolvedInputs ≠ [] := by
    intro hempty
    have := length_mapM_ok hresolved
    rw [hempty, List.length_nil] at this
    omega
  have hnamed : ∀ record ∈ records, ∃ file ∈ state.files.rows,
      Names surroundings record file := by
    intro record hrecord
    obtain ⟨i, hi⟩ := List.mem_iff_getElem?.mp hrecord
    obtain ⟨hlt, _⟩ := List.getElem?_eq_some_iff.mp hi
    exact named_of_flag (hflags i hlt) hi
  have hfile : ∀ record ∈ records, ∀ file ∈ state.files.rows, Names surroundings record file →
      Sound surroundings.freshness
        (storedMatches surroundings state records).indexedIdentityByFileId state.errorsByFile
        file := by
    intro record hrecord file hmem hnames
    exact hsound file hmem (mem_storedMatches.mpr ⟨file, hmem, rfl, record, hrecord, hnames⟩)
  have hseeds : (classified surroundings state records resolvedInputs).graphSeedFileIds =
      (storedMatches surroundings state records).matchedFileIds :=
    graphSeedFileIds_of_no_previous (no_previous_of_flags hflags)
  obtain ⟨huncut, _⟩ := truncationReasons_eq_nil.mp htruncation
  exact
    { accepted := hnormalized
      named := hnamed
      sound := by
        intro record hrecord file hmem hnames
        have hgood := hfile record hrecord file hmem hnames
        refine ⟨hgood.indexed, hgood.complete, errors_of_errorsByFile_eq_zero hgood.errorFree, ?_⟩
        intro identity hidentity
        exact hgood.fresh identity (get_indexedIdentity hmem hidentity)
      inventory := by
        obtain ⟨record, hrecord⟩ := List.exists_mem_of_length_pos hrecords
        obtain ⟨file, hmem, hnames⟩ := hnamed record hrecord
        exact (hfile record hrecord file hmem hnames).inventoryComplete
      currentLookups := by
        intro record hrecord
        obtain ⟨_, _, identity, hcurrent, _⟩ := hnamed record hrecord
        exact ⟨identity, hcurrent⟩
      indexedLookups :=
        unavailableCount_eq_zero (indexed_count_of_gapFree hgapFree hinputs (hflags 0 hrecords))
      evidence := by
        change clampUsizeToU32 (composeAffectedEvidenceGaps _ _).unavailableEvidenceCount = 0
        change (composeAffectedEvidenceGaps _ _).gapFree = true at hgapFree
        rw [hnil, List.countP_nil] at hgapFree ⊢
        rw [unavailableEvidenceCount_of_gapFree hgapFree]
        rfl
      depth := rfl
      symbols := by
        intro nodeId n
        refine (mem_affectedSymbolImpacts huncut nodeId n).trans ?_
        rw [reverseWalk_distances hseeds, and_comm]
        rfl }

end Spec

/-- Every path is its own identity, and the index is fresh. -/
def freshSurroundings : Surroundings String where
  root := "/p"
  resolveProjectFilePath path := .ok (joinPath "/p" path)
  resolve path := .ok path
  metadata _ := .regularFile
  indexable _ := true
  freshness := ⟨.fresh, none, true, ["/p/a.rs", "/p/b.rs"], [], 0, none⟩
  relativePath path := path
  pathRoleFromKey _ := .source
  routeEndpointMetadata _ _ _ := none
  cachedLabel _ := none

/-- A function of `b.rs` calls one of `a.rs`. -/
def callerState : StoredState where
  files := ⟨[⟨1, "a.rs", true, true⟩, ⟨2, "b.rs", true, true⟩], by decide⟩
  nodes := ⟨[Graph.plainNode 1 .fileNode "a.rs", Graph.plainNode 2 .fileNode "b.rs",
    { Graph.plainNode 10 .functionNode "f" with fileNodeId := some 1 },
    { Graph.plainNode 20 .functionNode "g" with fileNodeId := some 2 }], by decide⟩
  edges := [⟨7, 20, 10, .callEdge, none, none, none, none, none, none, none, none⟩]
  errors := []

theorem affectedAnalysis_complete_caller :
    ∃ analysis, affectedAnalysis freshSurroundings callerState ⟨.paths ["a.rs"], none, none⟩ =
        .ok analysis ∧
      analysis.completeness.complete = true ∧
      analysis.impactedSymbols.map (fun symbol => (symbol.nodeId, symbol.distance)) =
        [(10, 0), (20, 1)] ∧
      Covered freshSurroundings callerState ⟨.paths ["a.rs"], none, none⟩ analysis :=
  ⟨_, rfl, by decide, by decide,
    affectedAnalysis_complete rfl (by decide +kernel)⟩

end CodeStory.Affected
