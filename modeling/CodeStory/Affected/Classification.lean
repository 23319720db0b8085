import CodeStory.Affected.Identities
import CodeStory.Affected.ReverseWalk

/-!
# How the records of a request are covered

An unmatched record is always reported, with a class, a reason and the evidence for it. A matched
file is reported unless it is indexed, complete, free of errors and known to be fresh. The state
of paths on disk, the freshness observation and the tests for indexable paths and file roles are
fixed answers; a kind of I/O error is the text it is printed as.
-/

set_option autoImplicit false

namespace CodeStory.Affected

inductive InputClassification where
  | validUncovered | missing | expectedDeleted | renameUnresolved | staleIndex | malformed
  | unavailableEvidence
  deriving DecidableEq, Repr

inductive FileRole where
  | source | test | generated | vendor | unknown
  deriving DecidableEq, Repr

inductive FreshnessStatus where
  | fresh | stale | notChecked
  deriving DecidableEq, Repr

structure ResolvedInput where
  current : String
  previous : Option String
  deriving DecidableEq, Repr

structure FreshnessObservation (I : Type) where
  status : FreshnessStatus
  reason : Option String
  inventoryComplete : Bool
  admittedIdentities : List I
  staleIdentities : List I
  identityGapCount : Nat
  identityGapSample : Option String

inductive PathMetadata where
  | regularFile
  | nonRegular
  | missing
  | unavailable (kind message : String)
  deriving DecidableEq, Repr

structure MatchedFile where
  path : String
  role : FileRole
  indexed : Bool
  complete : Bool
  changeKind : Option ChangeKind
  changeStatus : Option String
  previousPath : Option String
  errorCount : Nat
  deriving DecidableEq, Repr

structure UncoveredInput where
  path : String
  classification : InputClassification
  reason : String
  evidence : List String
  deriving DecidableEq, Repr

structure UnmatchedPath where
  path : String
  classification : InputClassification
  reason : String
  evidence : List String
  changeKind : Option ChangeKind
  changeStatus : Option String
  previousPath : Option String
  deriving DecidableEq, Repr

/-- A class, its reason, and the evidence for it. -/
abbrev Verdict := InputClassification × String × List String

section Classification
variable {I : Type} [DecidableEq I] (freshness : FreshnessObservation I)

namespace FreshnessObservation

def identityIsAdmitted (identity : I) : Bool := identity ∈ freshness.admittedIdentities

def identityIsStale (identity : I) : Bool := identity ∈ freshness.staleIdentities

end FreshnessObservation

variable (metadata : String → PathMetadata) (indexable : String → Bool)

def classifyIndexableFile (currentIdentity : Option I) (currentIdentityError : Option String)
    (evidence : List String) : Verdict :=
  match currentIdentityError, currentIdentity with
  | some error, _ =>
    (.unavailableEvidence,
      "path exists and is indexable, but native identity evidence was unavailable",
      evidence ++ ["native current-path identity was unavailable: " ++ error])
  | none, none =>
    (.unavailableEvidence,
      "path exists and is indexable, but native identity evidence was unavailable",
      evidence ++ ["native current-path identity was not observed"])
  | none, some identity =>
    if freshness.identityIsStale identity then
      (.staleIndex,
        "path is indexable and complete freshness evidence shows the publication is stale for it",
        evidence ++ ["complete freshness evidence identifies this path as changed or new"])
    else if freshness.inventoryComplete && !freshness.identityIsAdmitted identity then
      (.validUncovered,
        "regular file exists inside the project but is excluded from current graph/index coverage",
        evidence ++
          ["complete workspace inventory excludes this path from the admitted index set"])
    else if !freshness.inventoryComplete then
      (.unavailableEvidence,
        "path exists and is indexable, but bounded freshness evidence cannot explain its " ++
          "graph absence",
        evidence ++ ["bounded freshness or refresh-plan identity evidence was unavailable for " ++
          "this indexable path"])
    else
      (.unavailableEvidence,
        "path exists and is indexable, but current evidence cannot explain its absence from " ++
          "the graph",
        evidence ++ ["path is indexable, but no indexed row or exact stale/error evidence was " ++
          "available"])

/-- The verdict on a renamed or copied record whose current path is missing. -/
def classifyMissingRename (previous : Option String) (previousIdentityError : Option String)
    (evidence : List String) : Verdict :=
  let unresolved (evidence : List String) : Verdict :=
    (.renameUnresolved,
      "neither the current nor previous rename/copy path matched indexed file identity", evidence)
  match previousIdentityError, previous with
  | some error, _ =>
    (.unavailableEvidence,
      "previous rename/copy identity was unavailable, so bounded proxy coverage could not be " ++
        "established",
      evidence ++ ["native previous-path identity was unavailable: " ++ error])
  | none, none => unresolved evidence
  | none, some previous =>
    match metadata previous with
    | .regularFile => unresolved (evidence ++ ["previous path exists as a regular file"])
    | .nonRegular => unresolved (evidence ++ ["previous path exists but is not a regular file"])
    | .missing => unresolved (evidence ++ ["previous path is missing"])
    | .unavailable kind message =>
      (.unavailableEvidence,
        "previous rename/copy path metadata was unavailable, so its file state could not be " ++
          "established",
        evidence ++ ["metadata read failed for resolved previous project path " ++ previous ++
          ": kind=" ++ kind ++ " error=" ++ message])

def classifyMissingInput (record : ChangeRecord) (resolved : ResolvedInput)
    (currentIdentityError previousIdentityError : Option String) (evidence : List String) :
    Verdict :=
  match currentIdentityError with
  | some error =>
    (.unavailableEvidence,
      "missing-path identity was unavailable, so indexed membership could not be established",
      evidence ++ ["native current-path identity was unavailable: " ++ error])
  | none =>
    match record.kind with
    | .deleted =>
      (.expectedDeleted,
        "deleted path is absent from both the workspace and indexed file inventory", evidence)
    | .renamed | .copied =>
      classifyMissingRename metadata resolved.previous previousIdentityError evidence
    | .added | .modified | .untracked | .unknown =>
      (.missing, "path does not exist inside the project and did not match indexed file identity",
        evidence)

def classifyUnmatchedAffectedInput (record : ChangeRecord) (resolved : ResolvedInput)
    (currentIdentity : Option I) (currentIdentityError previousIdentityError : Option String) :
    Verdict :=
  let path := resolved.current
  match metadata path with
  | .regularFile =>
    let evidence := ["resolved existing regular project file: " ++ path]
    if !indexable path then
      (.validUncovered,
        "regular file exists inside the project but is outside current graph/index coverage",
        evidence)
    else classifyIndexableFile freshness currentIdentity currentIdentityError evidence
  | .nonRegular =>
    (.malformed, "resolved project path is not a regular file",
      ["resolved existing non-regular project path: " ++ path])
  | .missing =>
    classifyMissingInput metadata record resolved currentIdentityError previousIdentityError
      ["resolved missing project path: " ++ path]
  | .unavailable kind message =>
    (.unavailableEvidence,
      "resolved project path metadata was unavailable, so existence and regular-file status " ++
        "could not be established",
      ["metadata read failed for resolved project path " ++ path ++ ": kind=" ++ kind ++
        " error=" ++ message])

end Classification

def boolText (b : Bool) : String := if b then "true" else "false"

def classifyMatchedAffectedInput (file : MatchedFile) (stale freshnessAvailable : Bool) :
    Option Verdict :=
  if file.errorCount > 0 then
    some (.malformed, "indexed path has exact recorded parse/index errors",
      ["indexed file error_count=" ++ toString file.errorCount])
  else if stale then
    some (.staleIndex, "matched path has exact complete-inventory evidence of stale publication",
      ["complete freshness evidence identifies this path as stale"])
  else if !freshnessAvailable then
    some (.unavailableEvidence,
      "matched file identity is known, but bounded freshness evidence was unavailable",
      ["bounded freshness or refresh-plan identity evidence was unavailable for this matched path"])
  else if file.indexed && file.complete then none
  else
    some (.unavailableEvidence,
      "matched file is incomplete or not indexed without an exact recorded error",
      ["indexed=" ++ boolText file.indexed ++ " complete=" ++ boolText file.complete ++
        " error_count=" ++ toString file.errorCount])

/-- A matched file raises nothing exactly when all is known to be well with it. -/
theorem classifyMatchedAffectedInput_eq_none {file : MatchedFile}
    {stale freshnessAvailable : Bool} :
    classifyMatchedAffectedInput file stale freshnessAvailable = none ↔
      file.errorCount = 0 ∧ stale = false ∧ freshnessAvailable = true ∧ file.indexed = true ∧
        file.complete = true := by
  unfold classifyMatchedAffectedInput
  by_cases herrors : file.errorCount > 0
  · rw [if_pos herrors]
    simp [Nat.pos_iff_ne_zero.mp herrors]
  · have hzero : file.errorCount = 0 := by omega
    rw [if_neg herrors]
    cases stale <;> cases freshnessAvailable <;> simp [hzero]

/-! ## All records of a request -/

/-- What the classification of one request takes as given. -/
structure ClassificationContext (I : Type) where
  root : String
  records : List ChangeRecord
  freshness : FreshnessObservation I
  metadata : String → PathMetadata
  indexable : String → Bool
  relativePath : String → String
  pathRoleFromKey : String → FileRole

structure MatchedClassification where
  files : List MatchedFile
  uncovered : List UncoveredInput
  freshnessUnavailable : Bool

structure ClassifiedInputs where
  matchedFiles : List MatchedFile
  unmatchedPaths : List UnmatchedPath
  uncoveredInputs : List UncoveredInput
  matchedFileIds : SortedSet
  matchedRecordFlags : List Bool
  graphSeededRecordFlags : List Bool
  currentIdentityErrors : List (Option String)
  previousIdentityErrors : List (Option String)
  unavailableIndexedIdentityCount : Nat
  unavailableIndexedIdentitySample : Option String
  freshnessEvidenceAffectsRequestedClaim : Bool
  previousIdentitySeedEvidence : EvidenceMap
  graphSeedFileIds : SortedSet

/-- Only renamed and copied records have previous identities. -/
def renameText : ChangeKind → String
  | .renamed => "renamed"
  | _ => "copied"

def previousIdentitySeedEvidence (records : List ChangeRecord)
    (previousRecordIndexByFileId : SortedMap Int Nat) : EvidenceMap :=
  previousRecordIndexByFileId.entries.foldl (fun seeds entry =>
    match records[entry.2]? with
    | none => seeds
    | some record =>
      seeds.put entry.1 (.seed entry.1
        ("previous indexed identity " ++ record.previousPath.getD "" ++
          " proxy-seeded graph evidence for current " ++ renameText record.kind ++ " path " ++
          record.path)
        .bounded true)) .empty

section Request
variable {I : Type} [DecidableEq I] (context : ClassificationContext I)

def matchedFile (errorsByFile : Int → Nat) (matchedRecordIndexByFileId : SortedMap Int Nat)
    (file : IndexedFile) : MatchedFile :=
  let record := (matchedRecordIndexByFileId.get file.id).bind (context.records[·]?)
  { path := context.relativePath file.path
    role := context.pathRoleFromKey (normalizePathKey file.path)
    indexed := file.indexed
    complete := file.complete
    changeKind := record.map (·.kind)
    changeStatus := record.map (·.status)
    previousPath := record.bind (·.previousPath)
    errorCount := errorsByFile file.id }

def compareMatched (left right : Int × MatchedFile) : Ordering :=
  (compare left.2.path right.2.path).then (compare left.1 right.1)

def isStaleFile (indexedIdentityByFileId : SortedMap Int I) (fileId : Int) : Bool :=
  (indexedIdentityByFileId.get fileId).any context.freshness.identityIsStale

def uncoveredMatched (indexedIdentityByFileId : SortedMap Int I) (entry : Int × MatchedFile) :
    Option UncoveredInput :=
  (classifyMatchedAffectedInput entry.2 (isStaleFile context indexedIdentityByFileId entry.1)
    (context.freshness.inventoryComplete && context.freshness.status != .notChecked)).map
    fun verdict => ⟨entry.2.path, verdict.1, verdict.2.1, verdict.2.2⟩

def classifyMatchedAffectedFiles (files : List IndexedFile) (errorsByFile : Int → Nat)
    (matchedFileIds : SortedSet) (matchedRecordIndexByFileId : SortedMap Int Nat)
    (indexedIdentityByFileId : SortedMap Int I) : MatchedClassification :=
  let found := ((files.filter fun file => (matchedFileIds.get file.id).isSome).map fun file =>
    (file.id, matchedFile context errorsByFile matchedRecordIndexByFileId file)).insertionSort
      fun left right => compareMatched left right ≠ .gt
  { files := found.map (·.2)
    uncovered := found.filterMap (uncoveredMatched context indexedIdentityByFileId)
    freshnessUnavailable := found.any fun entry =>
      !isStaleFile context indexedIdentityByFileId entry.1 && entry.2.errorCount == 0 &&
        !context.freshness.inventoryComplete }

/-- What was learned about one record. -/
structure RecordFacts (I : Type) where
  resolved : ResolvedInput
  graphSeeded : Bool
  currentIdentity : Option I
  currentIdentityError : Option String
  previousIdentityError : Option String

def unmatchedPath (record : ChangeRecord) (facts : RecordFacts I) : UnmatchedPath :=
  let verdict := classifyUnmatchedAffectedInput context.freshness context.metadata
    context.indexable record facts.resolved facts.currentIdentity facts.currentIdentityError
    facts.previousIdentityError
  { path := record.path
    classification := verdict.1
    reason :=
      if facts.graphSeeded ∧ verdict.1 = .renameUnresolved then
        "current rename/copy path remains unresolved; the previous indexed identity supplies " ++
          "bounded graph evidence but does not establish current-path coverage"
      else verdict.2.1
    evidence :=
      if facts.graphSeeded then
        verdict.2.2 ++ ["previous indexed identity " ++ record.previousPath.getD "" ++
          " supplied bounded proxy graph evidence"]
      else verdict.2.2
    changeKind := some record.kind
    changeStatus := some record.status
    previousPath := record.previousPath }

def unmatchedFreshnessUnavailable (facts : RecordFacts I) : Bool :=
  context.metadata facts.resolved.current == .regularFile &&
    context.indexable facts.resolved.current && facts.currentIdentityError.isNone &&
    facts.currentIdentity.any (fun identity => !context.freshness.identityIsStale identity) &&
    !context.freshness.inventoryComplete

-- The lists have one entry for each record, so the defaults are never read.
def recordFacts (resolvedInputs : List ResolvedInput) (identityMatches : IdentityMatches I)
    (index : Nat) : RecordFacts I where
  resolved := resolvedInputs.getD index ⟨"", none⟩
  graphSeeded := identityMatches.graphSeededRecordFlags.getD index false
  currentIdentity := identityMatches.currentIdentityByRecord.getD index none
  currentIdentityError := identityMatches.currentIdentityErrorByRecord.getD index none
  previousIdentityError := identityMatches.previousIdentityErrorByRecord.getD index none

def classifyUnmatchedAffectedPaths (resolvedInputs : List ResolvedInput)
    (identityMatches : IdentityMatches I) : List UnmatchedPath × Bool :=
  let unmatched := context.records.zipIdx.filter fun entry =>
    !identityMatches.matchedRecordFlags.getD entry.2 false
  (unmatched.map fun entry =>
      unmatchedPath context entry.1 (recordFacts resolvedInputs identityMatches entry.2),
    unmatched.any fun entry =>
      unmatchedFreshnessUnavailable context (recordFacts resolvedInputs identityMatches entry.2))

def classifyAffectedInputs (resolvedInputs : List ResolvedInput) (files : List IndexedFile)
    (errorsByFile : Int → Nat) (identityMatches : IdentityMatches I) : ClassifiedInputs :=
  let previousSeeds := previousIdentitySeedEvidence context.records
    identityMatches.previousRecordIndexByFileId
  let matched :=
    classifyMatchedAffectedFiles context files errorsByFile identityMatches.matchedFileIds
    identityMatches.matchedRecordIndexByFileId identityMatches.indexedIdentityByFileId
  let unmatched := classifyUnmatchedAffectedPaths context resolvedInputs identityMatches
  { matchedFiles := matched.files
    unmatchedPaths := unmatched.1
    uncoveredInputs := unmatched.1.map
      (fun input => ⟨input.path, input.classification, input.reason, input.evidence⟩) ++
      matched.uncovered
    matchedFileIds := identityMatches.matchedFileIds
    matchedRecordFlags := identityMatches.matchedRecordFlags
    graphSeededRecordFlags := identityMatches.graphSeededRecordFlags
    currentIdentityErrors := identityMatches.currentIdentityErrorByRecord
    previousIdentityErrors := identityMatches.previousIdentityErrorByRecord
    unavailableIndexedIdentityCount := identityMatches.unavailableIndexedIdentityCount
    unavailableIndexedIdentitySample := identityMatches.unavailableIndexedIdentitySample
    freshnessEvidenceAffectsRequestedClaim := unmatched.2 || matched.freshnessUnavailable
    previousIdentitySeedEvidence := previousSeeds
    graphSeedFileIds := previousSeeds.keys.foldl (fun m fileId => m.put fileId ())
      identityMatches.matchedFileIds }

end Request

section Spec
variable {I : Type} [DecidableEq I] {context : ClassificationContext I}
  {resolvedInputs : List ResolvedInput} {files : List IndexedFile} {errorsByFile : Int → Nat}
  {identityMatches : IdentityMatches I}

/-- All is known to be well with an indexed file. -/
structure Sound (freshness : FreshnessObservation I) (identityByFileId : SortedMap Int I)
    (errorsByFile : Int → Nat) (file : IndexedFile) : Prop where
  indexed : file.indexed = true
  complete : file.complete = true
  errorFree : errorsByFile file.id = 0
  fresh : ∀ identity, identityByFileId.get file.id = some identity →
    identity ∉ freshness.staleIdentities
  inventoryComplete : freshness.inventoryComplete = true
  checked : freshness.status ≠ .notChecked

theorem sound_of_uncovered_nil
    (h : (classifyMatchedAffectedFiles context files errorsByFile identityMatches.matchedFileIds
      identityMatches.matchedRecordIndexByFileId
      identityMatches.indexedIdentityByFileId).uncovered = [])
    {file : IndexedFile} (hfile : file ∈ files)
    (hmatched : file.id ∈ identityMatches.matchedFileIds.keys) :
    Sound context.freshness identityMatches.indexedIdentityByFileId errorsByFile file := by
  unfold classifyMatchedAffectedFiles at h
  dsimp only at h
  rw [List.filterMap_eq_nil_iff] at h
  obtain ⟨_, hget⟩ := SortedMap.mem_keys_iff.mp hmatched
  have hnone := h (file.id, matchedFile context errorsByFile
    identityMatches.matchedRecordIndexByFileId file) (by
      rw [List.mem_insertionSort]
      apply List.mem_map_of_mem
      exact List.mem_filter.mpr ⟨hfile, by simp [hget]⟩)
  unfold uncoveredMatched at hnone
  rw [Option.map_eq_none_iff, classifyMatchedAffectedInput_eq_none] at hnone
  obtain ⟨herrors, hstale, havailable, hindexed, hcomplete⟩ := hnone
  rw [Bool.and_eq_true, bne_iff_ne] at havailable
  refine ⟨hindexed, hcomplete, herrors, ?_, havailable.1, havailable.2⟩
  intro identity hidentity
  simpa [isStaleFile, hidentity, FreshnessObservation.identityIsStale] using hstale

/-- Nothing is left uncovered only if every record is matched and all is well with the files. -/
theorem matched_of_uncoveredInputs_nil
    (h : (classifyAffectedInputs context resolvedInputs files errorsByFile
      identityMatches).uncoveredInputs = []) :
    (∀ i < context.records.length, identityMatches.matchedRecordFlags.getD i false = true) ∧
      ∀ file ∈ files, file.id ∈ identityMatches.matchedFileIds.keys →
        Sound context.freshness identityMatches.indexedIdentityByFileId errorsByFile file := by
  obtain ⟨hunmatched, hmatched⟩ := List.append_eq_nil_iff.mp h
  refine ⟨?_, fun file hfile hkey => sound_of_uncovered_nil hmatched hfile hkey⟩
  intro i hi
  rw [List.map_eq_nil_iff] at hunmatched
  unfold classifyUnmatchedAffectedPaths at hunmatched
  dsimp only at hunmatched
  rw [List.map_eq_nil_iff, List.filter_eq_nil_iff] at hunmatched
  have hmem : (context.records[i], i) ∈ context.records.zipIdx :=
    List.mk_mem_zipIdx_iff_getElem?.mpr (List.getElem?_eq_getElem hi)
  simpa using hunmatched _ hmem

/-- Without previous identities the matched files are the only seeds. -/
theorem graphSeedFileIds_of_no_previous
    (h : identityMatches.previousRecordIndexByFileId = .empty) :
    (classifyAffectedInputs context resolvedInputs files errorsByFile
      identityMatches).graphSeedFileIds = identityMatches.matchedFileIds := by
  unfold classifyAffectedInputs previousIdentitySeedEvidence
  dsimp only
  rw [h]
  rfl

end Spec

end CodeStory.Affected
