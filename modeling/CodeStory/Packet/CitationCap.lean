import CodeStory.Graph.Tables
import CodeStory.Lib.TaggedPool
import CodeStory.Retrieval.FileRoles

/-!
# The cap on a packet's citations

`cap_citations_with_protected` of `packet_capping.rs`: one pass over the citations that admits,
swaps in or defers each of them, and a second one over what was deferred. How a citation gets its
evidence role and claim key, how a path is displayed and which role a path has are parameters. A
score is only ever compared, so it is of any type with a decidable order. The fields that nothing
here reads travel along as one.
-/

set_option autoImplicit false

namespace CodeStory.Packet

open CodeStory.Graph (NodeKind)
open CodeStory.Retrieval (asciiLower containsText forwardSlashes lastSegment)

universe u v

inductive PacketEvidenceRole where
  | sqlTableDefinition
  | sqlRelationshipConstraint
  | sqlSchemaFile
  | testsAndRegressionCoverage
  | sourceGroupConfiguration
  | indexingWorkQueue
  | interceptorManagement
  | requestDispatch
  | transportAdapter
  | clientFactory
  | eventLoop
  | networkCommandInput
  | commandDispatch
  | argumentPlanning
  | searchExecutionUnit
  | candidateFileConstruction
  | searchDriver
  | commandEntrypoint
  | eventOutputProcessing
  | appServerRequestProtocol
  | runtimeOrchestration
  | workspaceDiscoveryAndPlanning
  | snapshotRefresh
  | persistenceAndSearchProjection
  | symbolExtraction
  | routeHandling
  | bufferedIo
  | collectionConfiguration
  | sourceEvidence
  deriving DecidableEq, Repr

def PacketEvidenceRole.isLowPriorityCapRole (role : PacketEvidenceRole) : Bool :=
  role = .testsAndRegressionCoverage

inductive RetrievalFileRole where
  | source
  | test
  | docs
  | benchmark
  | generated
  | vendor
  deriving DecidableEq, Repr

def RetrievalFileRole.isNonPrimary (role : RetrievalFileRole) : Bool := role ≠ .source

inductive SearchHitOrigin where
  | indexedSymbol
  | textMatch
  deriving DecidableEq, Repr

structure AgentCitation (S : Type u) (R : Type v) where
  nodeId : String
  displayName : String
  kind : NodeKind
  filePath : Option String
  line : Option Nat
  score : S
  origin : SearchHitOrigin
  resolvable : Bool
  coverageRole : Option String
  rest : R
  deriving DecidableEq, Repr

/-- What the cap asks about a citation and leaves to other modules. -/
structure CitationReading (S : Type u) (R : Type v) where
  packetEvidenceRole : AgentCitation S R → Option PacketEvidenceRole
  packetClaimKeyForCitation : PacketEvidenceRole → AgentCitation S R → String
  retrievalFileRoleFromPath : String → RetrievalFileRole
  packetDisplayPath : String → String

structure PacketBudgetLimits where
  maxAnchors : Nat
  maxFiles : Nat

variable {S : Type u} {R : Type v}

/-! ## Names and paths -/

def packetCitationKey (citation : AgentCitation S R) : String :=
  citation.nodeId ++ "\t" ++ citation.filePath.getD "" ++ "\t" ++ toString (citation.line.getD 0)

def normalizeIdentifier (value : List Char) : List Char :=
  (value.filter Char.isAlphanum).map Char.toLower

def packetLowSignalDisplayName (normalizedDisplay : List Char) : Bool :=
  (["current", "actual", "existing"].map String.toList).contains normalizedDisplay

/-- `rsplit_once('.')`, the part before the dot, or all of it. -/
def stemOf (fileName : List Char) : List Char :=
  match fileName.reverse.dropWhile (· ≠ '.') with
  | [] => fileName
  | _ :: before => before.reverse

def packetFileStemMatchesQuery (query : String) (path : Option String) : Bool :=
  match path with
  | none => false
  | some path =>
    let trimmedName := fun text : String =>
      (Text.trim (String.ofList (lastSegment (forwardSlashes text.toList)))).toList
    let normalizedQuery := normalizeIdentifier (stemOf (trimmedName query))
    if normalizedQuery = [] then false
    else normalizeIdentifier (stemOf (trimmedName path)) = normalizedQuery

def definesType (kind : NodeKind) : Bool :=
  kind = .structNode ∨ kind = .classNode ∨ kind = .interfaceNode ∨ kind = .unionNode ∨
    kind = .enumNode ∨ kind = .typedefNode

def packetExactDefinitionFileCitation (citation : AgentCitation S R) : Bool :=
  citation.origin = .indexedSymbol && citation.resolvable && definesType citation.kind &&
    !packetLowSignalDisplayName (normalizeIdentifier citation.displayName.toList) &&
    packetFileStemMatchesQuery citation.displayName citation.filePath

namespace CitationReading

variable (reading : CitationReading S R)

def file (citation : AgentCitation S R) : Option String :=
  citation.filePath.map reading.packetDisplayPath

def packetNearStemTypeDefinitionFile (citation : AgentCitation S R) : Bool :=
  if citation.origin ≠ .indexedSymbol ∨ !citation.resolvable ∨ !definesType citation.kind then false
  else
    let normalizedDisplay := normalizeIdentifier citation.displayName.toList
    if normalizedDisplay = [] ∨ packetLowSignalDisplayName normalizedDisplay ∨
        packetExactDefinitionFileCitation citation then false
    else
      let stem := ((reading.file citation).map fun path =>
        normalizeIdentifier (stemOf (lastSegment path.toList))).getD []
      if stem = [] then false
      else if 2 < (normalizedDisplay.length - stem.length) +
          (stem.length - normalizedDisplay.length) then false
      else
        let shared := ((normalizedDisplay.zip stem).takeWhile
          fun (left, right) => left = right).length
        8 ≤ shared ∧ min normalizedDisplay.length stem.length * 4 ≤ shared * 5

def packetPrimaryDefinitionFileCitation (citation : AgentCitation S R) : Bool :=
  packetExactDefinitionFileCitation citation || reading.packetNearStemTypeDefinitionFile citation

def loweredPath (citation : AgentCitation S R) : List Char :=
  asciiLower ((reading.file citation).getD "").toList

def packetPreferFlowAnchorPathCitation (candidate existing : AgentCitation S R) : Bool :=
  let candidatePath := reading.loweredPath candidate
  let existingPath := reading.loweredPath existing
  if candidatePath = existingPath then false
  else
    reading.retrievalFileRoleFromPath (String.ofList candidatePath) = .source &&
      (reading.retrievalFileRoleFromPath (String.ofList existingPath)).isNonPrimary

def packetPreferDuplicateClaimCitation (candidate existing : AgentCitation S R) : Bool :=
  if reading.packetPreferFlowAnchorPathCitation candidate existing then true
  else
    normalizeIdentifier candidate.displayName.toList =
        normalizeIdentifier existing.displayName.toList &&
      packetExactDefinitionFileCitation candidate && !packetExactDefinitionFileCitation existing

def packetMandatorySecondaryPathCitation (citation : AgentCitation S R) : Bool :=
  let path := reading.loweredPath citation
  ["event_processor", "_events", "-events", "/cli/"].any (containsText path ·.toList) ||
    "/main.rs".toList.isSuffixOf path

def packetKeepSecondaryClaimDefinition (citation : AgentCitation S R) : Bool :=
  if !reading.packetPrimaryDefinitionFileCitation citation then false
  else reading.packetMandatorySecondaryPathCitation citation

def claimKey (citation : AgentCitation S R) : Option String :=
  (reading.packetEvidenceRole citation).map (reading.packetClaimKeyForCitation · citation)

end CitationReading

def packetLowPriorityCapRole (role : Option PacketEvidenceRole) : Bool :=
  role.any PacketEvidenceRole.isLowPriorityCapRole

/-! ## Protection -/

section Protection

variable (protectedCitationKeys : Finset String)

def packetCitationProtectionRank (citation : AgentCitation S R) : Nat :=
  if citation.coverageRole = some "explicit exact probe" then 0
  else if packetCitationKey citation ∈ protectedCitationKeys then 1
  else 2

def packetCitationIsProtected (citation : AgentCitation S R) : Bool :=
  packetCitationProtectionRank protectedCitationKeys citation < 2

def prioritizeProtectedCitations (citations : List (AgentCitation S R)) :
    List (AgentCitation S R) :=
  citations.insertionSort (Selection.RankLe (packetCitationProtectionRank protectedCitationKeys))

end Protection

/-! ## Replacing a citation that is kept -/

def CitationReading.filesOf (reading : CitationReading S R) (kept : List (AgentCitation S R)) :
    Finset String :=
  TaggedPool.tags reading.file kept

def packetFileFitsLimit (path : Option String) (files : Finset String) (maxFiles : Nat) : Prop :=
  TaggedPool.Fits files maxFiles path

instance (path : Option String) (files : Finset String) (maxFiles : Nat) :
    Decidable (packetFileFitsLimit path files maxFiles) :=
  inferInstanceAs (Decidable (TaggedPool.Fits files maxFiles path))

section Replacing

variable (reading : CitationReading S R)

def packetFileFitsLimitAfterReplacement (path : Option String) (kept : List (AgentCitation S R))
    (replacementIndex maxFiles : Nat) : Prop :=
  packetFileFitsLimit path (reading.filesOf (kept.eraseIdx replacementIndex)) maxFiles

instance (path : Option String) (kept : List (AgentCitation S R)) (index maxFiles : Nat) :
    Decidable (packetFileFitsLimitAfterReplacement reading path kept index maxFiles) :=
  inferInstanceAs (Decidable (packetFileFitsLimit _ _ _))

variable [LT S] [DecidableLT S]

/-- One turn of the loop over the kept citations: those without a priority are passed over, and of
the others a greater priority wins, then a lower score. -/
def considerReplacement (priority : AgentCitation S R → Nat → Option Nat)
    (replacement : Option (Nat × Nat × S)) (entry : AgentCitation S R × Nat) :
    Option (Nat × Nat × S) :=
  match priority entry.1 entry.2 with
  | none => replacement
  | some found =>
    if replacement.all fun (_, bestPriority, bestRank) =>
        bestPriority < found ∨ found = bestPriority ∧ entry.1.score < bestRank then
      some (entry.2, found, entry.1.score)
    else replacement

/-- The kept citations with the candidate in place of the one the loop settles on. -/
def replaceBest (priority : AgentCitation S R → Nat → Option Nat) (kept : List (AgentCitation S R))
    (candidate : AgentCitation S R) : Option (List (AgentCitation S R)) :=
  (kept.zipIdx.foldl (considerReplacement priority) none).map fun (index, _, _) =>
    kept.set index candidate

variable (protectedCitationKeys : Finset String) (limits : PacketBudgetLimits)

def sameRolePriority (kept : List (AgentCitation S R)) (candidate existing : AgentCitation S R)
    (index : Nat) : Option Nat :=
  if packetCitationIsProtected protectedCitationKeys existing then none
  else if ¬ packetFileFitsLimitAfterReplacement reading (reading.file candidate) kept index
      limits.maxFiles then none
  else if packetLowPriorityCapRole (reading.packetEvidenceRole existing) then some 3
  else if (reading.packetEvidenceRole candidate).isSome ∧
      reading.packetEvidenceRole candidate = reading.packetEvidenceRole existing ∧
      !reading.packetPrimaryDefinitionFileCitation existing then some 2
  else none

/-- `None` where the source returns `false` and leaves the kept citations alone. -/
def replaceWeakerSameRoleOrLowPriorityCitation (kept : List (AgentCitation S R))
    (candidate : AgentCitation S R) : Option (List (AgentCitation S R)) :=
  replaceBest (sameRolePriority reading protectedCitationKeys limits kept candidate) kept candidate

def roleCount (kept : List (AgentCitation S R)) (role : PacketEvidenceRole) : Nat :=
  (kept.filterMap reading.packetEvidenceRole).count role

def overrepresentedPriority (kept : List (AgentCitation S R))
    (candidate existing : AgentCitation S R) (index : Nat) : Option Nat :=
  if packetCitationIsProtected protectedCitationKeys existing then none
  else
    match reading.packetEvidenceRole existing with
    | none => none
    | some existingRole =>
      if roleCount reading kept existingRole ≤ 1 then none
      else if ¬ packetFileFitsLimitAfterReplacement reading (reading.file candidate) kept index
          limits.maxFiles then none
      else some (roleCount reading kept existingRole)

def replaceOverrepresentedRoleCitation (kept : List (AgentCitation S R))
    (candidate : AgentCitation S R) : Option (List (AgentCitation S R)) :=
  match reading.packetEvidenceRole candidate with
  | none => none
  | some candidateRole =>
    if kept.any fun citation => reading.packetEvidenceRole citation = some candidateRole then none
    else
      replaceBest (overrepresentedPriority reading protectedCitationKeys limits kept candidate) kept
        candidate

/-- The place the candidate is put at, if it replaces anything: that of the first kept citation with
the claim key. Unlike its two siblings this one is not given the limits and replaces whatever file
the citation has. -/
def replaceWeakerDuplicateClaimCitation (kept : List (AgentCitation S R)) (claimKey : String)
    (candidate : AgentCitation S R) : Option Nat :=
  match kept.findIdx? fun citation => reading.claimKey citation = some claimKey with
  | none => none
  | some index =>
    match kept[index]? with
    | none => none
    | some existing =>
      if packetCitationIsProtected protectedCitationKeys existing then none
      else if reading.packetPreferDuplicateClaimCitation candidate existing then some index
      else none

end Replacing

/-! ## The two passes -/

structure CapState (S : Type u) (R : Type v) where
  files : Finset String
  roles : Finset PacketEvidenceRole
  claimKeys : Finset String
  secondaryClaimKeys : Finset String
  kept : List (AgentCitation S R)
  deferred : List (AgentCitation S R)

def CapState.start : CapState S R := ⟨∅, ∅, ∅, ∅, [], []⟩

namespace CapState

variable (reading : CitationReading S R)

/-- `rebuild_packet_cap_tracking`, which leaves the secondary claim keys as they are. -/
def rebuildPacketCapTracking (st : CapState S R) (kept : List (AgentCitation S R)) :
    CapState S R :=
  { st with
    kept := kept
    files := reading.filesOf kept
    roles := (kept.filterMap reading.packetEvidenceRole).toFinset
    claimKeys := (kept.filterMap reading.claimKey).toFinset }

/-- A citation is kept and its file, role and claim key are noted. -/
def keep (st : CapState S R) (citation : AgentCitation S R) : CapState S R :=
  { st with
    kept := st.kept ++ [citation]
    files := (reading.file citation).toFinset ∪ st.files
    roles := (reading.packetEvidenceRole citation).toFinset ∪ st.roles
    claimKeys := (reading.claimKey citation).toFinset ∪ st.claimKeys }

variable [LT S] [DecidableLT S]
variable (protectedCitationKeys : Finset String) (limits : PacketBudgetLimits)

def admitsProtected (st : CapState S R) (citation : AgentCitation S R) : Prop :=
  packetCitationIsProtected protectedCitationKeys citation ∧
    st.kept.length < limits.maxAnchors ∧
    packetFileFitsLimit (reading.file citation) st.files limits.maxFiles

instance (st : CapState S R) (citation : AgentCitation S R) :
    Decidable (st.admitsProtected reading protectedCitationKeys limits citation) :=
  inferInstanceAs (Decidable (_ ∧ _ ∧ _))

/-- Where the swap against a citation of the same claim key goes, if it is made. -/
def duplicateClaimIndex (st : CapState S R) (citation : AgentCitation S R) : Option Nat :=
  match reading.claimKey citation with
  | none => none
  | some claimKey =>
    if claimKey ∈ st.claimKeys then
      replaceWeakerDuplicateClaimCitation reading protectedCitationKeys st.kept claimKey citation
    else none

def sameRoleSwap (st : CapState S R) (citation : AgentCitation S R) :
    Option (List (AgentCitation S R)) :=
  if limits.maxAnchors ≤ st.kept.length ∧ reading.packetPrimaryDefinitionFileCitation citation then
    replaceWeakerSameRoleOrLowPriorityCitation reading protectedCitationKeys limits st.kept citation
  else none

def roleIsNew (st : CapState S R) (citation : AgentCitation S R) : Bool :=
  (reading.packetEvidenceRole citation).any (· ∉ st.roles)

def overrepresentedSwap (st : CapState S R) (citation : AgentCitation S R) :
    Option (List (AgentCitation S R)) :=
  if limits.maxAnchors ≤ st.kept.length ∧
      !packetLowPriorityCapRole (reading.packetEvidenceRole citation) ∧
      st.roleIsNew reading citation then
    replaceOverrepresentedRoleCitation reading protectedCitationKeys limits st.kept citation
  else none

def secondaryClaimDefinition (st : CapState S R) (citation : AgentCitation S R) : Bool :=
  (reading.claimKey citation).any fun key =>
    key ∈ st.claimKeys ∧ key ∉ st.secondaryClaimKeys ∧
      reading.packetKeepSecondaryClaimDefinition citation

def expandsPrimaryPacketCoverage (st : CapState S R) (citation : AgentCitation S R) : Bool :=
  let claimKey := reading.claimKey citation
  let fileIsNew := (reading.file citation).any (· ∉ st.files)
  let claimKeyIsNew := claimKey.any (· ∉ st.claimKeys)
  let lowPriorityRole := packetLowPriorityCapRole (reading.packetEvidenceRole citation)
  let claimKeyExpands :=
    !lowPriorityRole && claimKeyIsNew && (st.roleIsNew reading citation || fileIsNew)
  !lowPriorityRole &&
    (claimKeyExpands || st.roleIsNew reading citation || st.kept.isEmpty ||
      (claimKey.isNone && fileIsNew) || st.secondaryClaimDefinition reading citation)

/-- One turn of the first loop. -/
def visit (st : CapState S R) (citation : AgentCitation S R) : CapState S R :=
  if st.admitsProtected reading protectedCitationKeys limits citation then st.keep reading citation
  else
    match st.duplicateClaimIndex reading protectedCitationKeys citation with
    | some index => st.rebuildPacketCapTracking reading (st.kept.set index citation)
    | none =>
      match st.sameRoleSwap reading protectedCitationKeys limits citation with
      | some kept => st.rebuildPacketCapTracking reading kept
      | none =>
        match st.overrepresentedSwap reading protectedCitationKeys limits citation with
        | some kept => st.rebuildPacketCapTracking reading kept
        | none =>
          if st.kept.length < limits.maxAnchors ∧
              st.expandsPrimaryPacketCoverage reading citation ∧
              packetFileFitsLimit (reading.file citation) st.files limits.maxFiles then
            { st.keep reading citation with
              secondaryClaimKeys :=
                if st.secondaryClaimDefinition reading citation then
                  (reading.claimKey citation).toFinset ∪ st.secondaryClaimKeys
                else st.secondaryClaimKeys }
          else { st with deferred := st.deferred ++ [citation] }

/-- The first loop over citations already in order. -/
def visitAll (citations : List (AgentCitation S R)) : CapState S R :=
  citations.foldl (visit reading protectedCitationKeys limits) start

end CapState

section Cap

variable (reading : CitationReading S R)

/-- The deferred citations: those with a new file before the others of their group, and the low
priority ones last. -/
def deferredInOrder (st : CapState S R) : List (AgentCitation S R) :=
  let duplicateFile := fun citation => (reading.file citation).any (· ∈ st.files)
  let lowPriority := fun citation =>
    packetLowPriorityCapRole (reading.packetEvidenceRole citation)
  st.deferred.filter (fun citation => !lowPriority citation && !duplicateFile citation) ++
    st.deferred.filter (fun citation => !lowPriority citation && duplicateFile citation) ++
    st.deferred.filter (fun citation => lowPriority citation && !duplicateFile citation) ++
    st.deferred.filter fun citation => lowPriority citation && duplicateFile citation

/-- One turn of the second loop. -/
def CapState.fill (limits : PacketBudgetLimits) (st : CapState S R)
    (citation : AgentCitation S R) : CapState S R :=
  if limits.maxAnchors ≤ st.kept.length then st
  else if ¬ packetFileFitsLimit (reading.file citation) st.files limits.maxFiles then st
  else
    { st with
      files := (reading.file citation).toFinset ∪ st.files
      kept := st.kept ++ [citation] }

variable [LT S] [DecidableLT S]
variable (protectedCitationKeys : Finset String) (limits : PacketBudgetLimits)

/-- The citations that are kept and whether the packet counts as truncated. -/
def capCitationsWithProtected (citations : List (AgentCitation S R)) :
    List (AgentCitation S R) × Bool :=
  let candidates := prioritizeProtectedCitations protectedCitationKeys citations
  let visited := CapState.visitAll reading protectedCitationKeys limits candidates
  let filled := (deferredInOrder reading visited).foldl (CapState.fill reading limits) visited
  (filled.kept, filled.kept.length < citations.length)

end Cap

end CodeStory.Packet
