import CodeStory.Graph.Tables

/-!
# The resolution pass over the edge table

Calls, imports and overrides are resolved one after the other. Each part first prepares the
edges of its kind (calls also forget stale resolutions), then selects a worklist, computes a
target for each row of it and writes the staged updates back. What a target is computed from
is a parameter `P`: the state prepared before the first write. The functions that compute the
three kinds of target are parameters too.

The order of the worklist makes no difference, since each row is computed on its own and its
update only reaches its own edge. Counters and timings are left out.
-/

set_option autoImplicit false

namespace CodeStory.Graph

universe u

namespace ResolutionCertainty

/-- The single-precision value of 0.85. -/
def certainMin : Rat := 14260634 / 16777216

/-- The single-precision value of 0.55. -/
def probableMin : Rat := 9227469 / 16777216

def fromConfidence (confidence : Rat) : ResolutionCertainty :=
  if confidence ≥ certainMin then .certain
  else if confidence ≥ probableMin then .probable
  else .uncertain

end ResolutionCertainty

structure ResolutionFlags where
  legacyMode : Bool
  enableSemantic : Bool
  storeCandidates : Bool

/-- In legacy mode the single-precision value of 0.40. -/
def ResolutionFlags.minCallConfidence (flags : ResolutionFlags) : Rat :=
  if flags.legacyMode then 13421773 / 33554432 else ResolutionCertainty.probableMin

def commonUnqualifiedCallNames : List String :=
  ["add", "any", "clear", "clone", "commit", "collect", "copied", "dedup", "default", "execute",
    "extend", "from", "is_empty", "insert", "iter", "len", "map", "map_err", "once", "ok", "pop",
    "push", "remove", "sort", "sort_by", "sort_by_key", "truncate"]

inductive ScopeCallerContext where
  | unscoped
  | scopedCallers (callerIds : List Int)
  | empty

/-- The callers in scope are the nodes of the files in scope. -/
def ScopeCallerContext.prepare (tables : Tables) : Option (List Int) → ScopeCallerContext
  | none => .unscoped
  | some [] => .empty
  | some fileIds =>
    .scopedCallers ((tables.node.rows.filter fun node =>
      node.fileNodeId.elim false (· ∈ fileIds)).map (·.id))

def ScopeCallerContext.covers : ScopeCallerContext → Edge → Bool
  | .unscoped, _ => true
  | .scopedCallers callerIds, edge => edge.source ∈ callerIds
  | .empty, _ => false

/-! ## Conditions on the target -/

namespace Tables
variable (tables : Tables)

def hasFrameworkCanonicalId (node : Node) : Bool :=
  SqlText.likeNullable "tauri:command:%" node.canonicalId ||
    SqlText.likeNullable "openapi:endpoint:%" node.canonicalId ||
    SqlText.likeNullable "route_endpoint:%" node.canonicalId ||
    SqlText.likeNullable "payload:collection:%" node.canonicalId

def targetsFramework (edge : Edge) : Bool :=
  (tables.node.lookup edge.target).any hasFrameworkCanonicalId

def targetsCommonName (edge : Edge) : Bool :=
  (tables.node.lookup edge.target).any fun node =>
    SqlText.lower node.serializedName ∈ commonUnqualifiedCallNames

end Tables

/-! ## Preparing edges -/

section Prepare
variable (tables : Tables) (flags : ResolutionFlags) (scope : ScopeCallerContext)

/-- `resolved_source_node_id = source_node_id` where it is not set. -/
def prepareSource (kind : EdgeKind) (edge : Edge) : Edge :=
  if edge.kind = kind ∧ edge.resolvedSource = none ∧ scope.covers edge then
    { edge with resolvedSource := some edge.source }
  else edge

def clearResolution (edge : Edge) : Edge :=
  { edge with resolvedTarget := none, confidence := none, certainty := none }

/-- The first update of the cleanup. -/
def clearLowConfidence (edge : Edge) : Edge :=
  if edge.kind = .callEdge ∧ edge.confidence.any (· < flags.minCallConfidence) ∧
      tables.targetsFramework edge = false ∧ scope.covers edge then
    clearResolution edge
  else edge

/-- The second update: legacy mode forgets every resolved call of a common name, strict mode
those that are not certain. -/
def clearCommonName (edge : Edge) : Edge :=
  if edge.kind = .callEdge ∧ edge.resolvedTarget ≠ none ∧ tables.targetsCommonName edge ∧
      (flags.legacyMode ∨ edge.certainty ≠ some .certain) ∧ scope.covers edge then
    clearResolution edge
  else edge

def cleanupStaleCallResolution (edge : Edge) : Edge :=
  clearCommonName tables flags scope (clearLowConfidence tables flags scope edge)

/-- Overrides are always resolved anew. -/
def prepareOverride (edge : Edge) : Edge :=
  if edge.kind = .overrideEdge ∧ scope.covers edge then
    { edge with
      resolvedSource := some edge.source
      resolvedTarget := none
      confidence := none
      certainty := none
      candidateTargets := none }
  else edge

end Prepare

/-! ## The worklist -/

structure UnresolvedEdgeRow where
  edgeId : Int
  fileId : Option Int
  callerQualified : Option String
  callerName : String
  targetName : String
  targetNodeId : Int
  filePath : Option String
  callsiteIdentity : Option String

/-- Calls that carry metadata were classified before and stay out. -/
def isUnresolved (kind : EdgeKind) (edge : Edge) : Bool :=
  edge.resolvedTarget.isNone &&
    (kind ≠ .callEdge || edge.confidence.isNone && edge.certainty.isNone)

namespace Tables
variable (tables : Tables)

/-- The columns of an edge and of the nodes it joins; nothing of a resolution. -/
def unresolvedRow (edge : Edge) : Option UnresolvedEdgeRow :=
  match tables.node.lookup edge.source, tables.node.lookup edge.target with
  | some caller, some target =>
    if hasFrameworkCanonicalId target then none
    else
      let fileId := caller.fileNodeId.or edge.fileNodeId
      some
        { edgeId := edge.id
          fileId := fileId
          callerQualified := caller.qualifiedName
          callerName := caller.serializedName
          targetName := target.serializedName
          targetNodeId := edge.target
          filePath := (fileId.bind tables.node.lookup).map (·.serializedName)
          callsiteIdentity := edge.callsiteIdentity }
  | _, _ => none

def worklistRow (kind : EdgeKind) (scope : ScopeCallerContext) (edge : Edge) :
    Option UnresolvedEdgeRow :=
  if edge.kind = kind ∧ isUnresolved kind edge ∧ scope.covers edge then
    tables.unresolvedRow edge
  else none

def unresolvedEdges (kind : EdgeKind) (scope : ScopeCallerContext) : List UnresolvedEdgeRow :=
  tables.edge.rows.filterMap (tables.worklistRow kind scope)

structure UnresolvedOverrideRow where
  edgeId : Int
  sourceId : Int
  sourceName : String

def overrideRow (scope : ScopeCallerContext) (edge : Edge) : Option UnresolvedOverrideRow :=
  if edge.kind = .overrideEdge ∧ edge.resolvedTarget.isNone ∧ scope.covers edge then
    (tables.node.lookup edge.source).map fun source =>
      ⟨edge.id, edge.source, source.serializedName⟩
  else none

def unresolvedOverrideEdges (scope : ScopeCallerContext) : List UnresolvedOverrideRow :=
  tables.edge.rows.filterMap (tables.overrideRow scope)

end Tables

/-! ## Updates -/

/-- What a computation selects: a target with its confidence, and the candidates to record. -/
structure Selection where
  selected : Option (Int × Rat)
  candidates : List Int

structure ResolvedEdgeUpdate where
  edgeId : Int
  resolvedTarget : Option Int
  confidence : Option Rat
  certainty : Option ResolutionCertainty
  candidatePayload : Option (List Int)
  touchMetadata : Bool

def candidateJson (candidates : List Int) : Option (List Int) :=
  if candidates.isEmpty then none else some candidates

def buildResolvedEdgeUpdate (edgeId : Int) (selection : Selection) : ResolvedEdgeUpdate :=
  match selection.selected with
  | some (target, confidence) =>
    ⟨edgeId, some target, some confidence, some (.fromConfidence confidence),
      candidateJson selection.candidates, true⟩
  | none => ⟨edgeId, none, none, none, candidateJson selection.candidates, false⟩

def applyUpdate (update : ResolvedEdgeUpdate) (edge : Edge) : Edge :=
  { edge with
    resolvedTarget := if update.touchMetadata then update.resolvedTarget else edge.resolvedTarget
    confidence := if update.touchMetadata then update.confidence else edge.confidence
    certainty := if update.touchMetadata then update.certainty else edge.certainty
    candidateTargets := update.candidatePayload.or edge.candidateTargets }

/-- The staged updates reach the edges of their ids. -/
def applyResolutionUpdates (updates : List ResolvedEdgeUpdate) (edge : Edge) : Edge :=
  match updates.find? (·.edgeId = edge.id) with
  | some update => applyUpdate update edge
  | none => edge

theorem prepareSource_id (scope : ScopeCallerContext) (kind : EdgeKind) (edge : Edge) :
    (prepareSource scope kind edge).id = edge.id := by
  unfold prepareSource
  split <;> rfl

theorem clearLowConfidence_id (tables : Tables) (flags : ResolutionFlags)
    (scope : ScopeCallerContext) (edge : Edge) :
    (clearLowConfidence tables flags scope edge).id = edge.id := by
  unfold clearLowConfidence
  split <;> rfl

theorem clearCommonName_id (tables : Tables) (flags : ResolutionFlags)
    (scope : ScopeCallerContext) (edge : Edge) :
    (clearCommonName tables flags scope edge).id = edge.id := by
  unfold clearCommonName
  split <;> rfl

theorem cleanupStaleCallResolution_id (tables : Tables) (flags : ResolutionFlags)
    (scope : ScopeCallerContext) (edge : Edge) :
    (cleanupStaleCallResolution tables flags scope edge).id = edge.id := by
  unfold cleanupStaleCallResolution
  rw [clearCommonName_id, clearLowConfidence_id]

theorem prepareOverride_id (scope : ScopeCallerContext) (edge : Edge) :
    (prepareOverride scope edge).id = edge.id := by
  unfold prepareOverride
  split <;> rfl

theorem applyResolutionUpdates_id (updates : List ResolvedEdgeUpdate) (edge : Edge) :
    (applyResolutionUpdates updates edge).id = edge.id := by
  unfold applyResolutionUpdates
  split <;> rfl

/-! ## The pass -/

structure ResolutionPass (P : Type u) where
  flags : ResolutionFlags
  computeCallResolution : P → UnresolvedEdgeRow → Selection
  computeImportResolution : P → UnresolvedEdgeRow → Selection
  computeOverrideResolution : P → Tables.UnresolvedOverrideRow → Selection

namespace ResolutionPass
variable {P : Type u} (pass : ResolutionPass P) (prepared : P) (scope : ScopeCallerContext)
  (tables : Tables)

def updateEdges (f : Edge → Edge) (hf : ∀ edge, (f edge).id = edge.id) : Tables :=
  { tables with edge := tables.edge.update f hf }

def resolveCallsPrepared : Tables :=
  updateEdges (updateEdges tables (prepareSource scope .callEdge)
      (prepareSource_id scope .callEdge))
    (cleanupStaleCallResolution tables pass.flags scope)
    (cleanupStaleCallResolution_id tables pass.flags scope)

/-- Compute the worklist of a kind and write the updates. -/
def resolveEdgesAfterPrepare (kind : EdgeKind) (compute : UnresolvedEdgeRow → Selection) :
    Tables :=
  let updates := (tables.unresolvedEdges kind scope).map fun row =>
    buildResolvedEdgeUpdate row.edgeId (compute row)
  updateEdges tables (applyResolutionUpdates updates) (applyResolutionUpdates_id updates)

def resolveCalls : Tables :=
  resolveEdgesAfterPrepare scope (pass.resolveCallsPrepared scope tables) .callEdge
    (pass.computeCallResolution prepared)

def resolveImports : Tables :=
  resolveEdgesAfterPrepare scope
    (updateEdges tables (prepareSource scope .importEdge) (prepareSource_id scope .importEdge))
    .importEdge (pass.computeImportResolution prepared)

def resolveOverrides : Tables :=
  let tables := updateEdges tables (prepareOverride scope) (prepareOverride_id scope)
  let updates := (tables.unresolvedOverrideEdges scope).map fun row =>
    buildResolvedEdgeUpdate row.edgeId (pass.computeOverrideResolution prepared row)
  updateEdges tables (applyResolutionUpdates updates) (applyResolutionUpdates_id updates)

/-- One run, given the state prepared from the tables it starts with. -/
def run : Tables :=
  pass.resolveOverrides prepared scope
    (pass.resolveImports prepared scope (pass.resolveCalls prepared scope tables))

end ResolutionPass

end CodeStory.Graph
