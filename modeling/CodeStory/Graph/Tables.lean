import CodeStory.Lib.KeyedTable
import CodeStory.Lib.SqlText
import Mathlib.Data.Rat.Defs

/-!
# The graph tables of the store

Rows of `node`, `edge`, `file` and `error`, and the preparation every node insertion goes
through: synthetic framework nodes of one id compete for the row, all other nodes are written
as they come. Identifiers are the store's 64-bit integers, read as integers.

Left out are the columns that nothing here reads: of a file its modification time, line
count, role and content hash, of an error its position and coverage reason.
-/

set_option autoImplicit false

namespace CodeStory.Graph

inductive NodeKind where
  | moduleNode | namespaceNode | packageNode | fileNode
  | structNode | classNode | interfaceNode | annotationNode | unionNode | enumNode
  | typedefNode | typeParameterNode | builtinTypeNode
  | functionNode | methodNode | macroNode
  | globalVariableNode | fieldNode | variableNode | constantNode | enumConstantNode
  | unknownNode
deriving DecidableEq, Repr

inductive EdgeKind where
  | memberEdge | typeUsageEdge | usageEdge | callEdge | inheritanceEdge | overrideEdge
  | typeArgumentEdge | templateSpecializationEdge | includeEdge | importEdge
  | macroUsageEdge | annotationUsageEdge | unknownEdge
deriving DecidableEq, Repr

inductive ResolutionCertainty where
  | certain | probable | uncertain
deriving DecidableEq, Repr

structure Node where
  id : Int
  kind : NodeKind
  serializedName : String
  qualifiedName : Option String
  canonicalId : Option String
  fileNodeId : Option Int
  startLine : Option Nat
  startCol : Option Nat
  endLine : Option Nat
  endCol : Option Nat
deriving DecidableEq, Repr

/-- A node of which only the required columns are set. -/
def plainNode (id : Int) (kind : NodeKind) (name : String) : Node :=
  ⟨id, kind, name, none, none, none, none, none, none, none⟩

structure Edge where
  id : Int
  source : Int
  target : Int
  kind : EdgeKind
  fileNodeId : Option Int
  line : Option Nat
  resolvedSource : Option Int
  resolvedTarget : Option Int
  confidence : Option Rat
  callsiteIdentity : Option String
  certainty : Option ResolutionCertainty
  candidateTargets : Option (List Int)
deriving DecidableEq

structure FileInfo where
  id : Int
  path : String
  language : String
  complete : Bool
deriving DecidableEq, Repr

structure ErrorInfo where
  message : String
  fileId : Option Int
  isFatal : Bool
deriving DecidableEq, Repr

@[ext] structure Tables where
  node : KeyedTable Node.id
  edge : KeyedTable Edge.id
  file : KeyedTable FileInfo.id
  error : List ErrorInfo

def Tables.empty : Tables := ⟨.empty, .empty, .empty, []⟩

/-! ## Framework nodes -/

def startsWith (text start : String) : Bool := start.toList.isPrefixOf text.toList

def endsWith (text tail : String) : Bool := tail.toList.isSuffixOf text.toList

def isFrameworkSyntheticNode (node : Node) : Bool :=
  node.canonicalId.elim false fun canonicalId =>
    startsWith canonicalId "tauri:command:" || startsWith canonicalId "payload:collection:" ||
      startsWith canonicalId "route_endpoint:" || startsWith canonicalId "openapi:endpoint:"

def isEndpointSyntheticNode (node : Node) : Bool :=
  node.canonicalId.elim false fun canonicalId =>
    startsWith canonicalId "route_endpoint:" || startsWith canonicalId "openapi:endpoint:"

/-- Paths known from the batch itself: its file rows, overridden by its FILE nodes. -/
def batchFilePaths (nodes : List Node) (files : List FileInfo) (id : Int) : Option String :=
  ((KeyedTable.lastRow Node.id (nodes.filter (·.kind = .fileNode)) id).map
    (·.serializedName)).or
      ((KeyedTable.lastRow FileInfo.id files id).map (·.path))

namespace Tables
variable (tables : Tables) (batchPaths : Int → Option String)

def frameworkNodeFilePath (node : Node) : Option String :=
  match node.fileNodeId with
  | none => none
  | some fileNodeId =>
    ((batchPaths fileNodeId).or ((tables.file.lookup fileNodeId).map (·.path))).or
      ((tables.node.lookup fileNodeId).map (·.serializedName))

def normalizeFrameworkSourcePath (path : String) : String :=
  SqlText.lower (String.ofList (path.toList.map fun c => if c = '\\' then '/' else c))

def frameworkNodeSourcePath (node : Node) : String :=
  ((tables.frameworkNodeFilePath batchPaths node).map normalizeFrameworkSourcePath).getD ""

def frameworkNodeSourceRank (node : Node) : Nat :=
  let canonicalId := node.canonicalId.getD ""
  let path := tables.frameworkNodeSourcePath batchPaths node
  if startsWith canonicalId "tauri:command:" then
    if SqlText.contains path "/src-tauri/" || endsWith path ".rs" then 4
    else node.startLine.isSome.toNat
  else if startsWith canonicalId "payload:collection:" then
    if SqlText.contains path "/collections/" || SqlText.contains path "/payload.config." then 4
    else if node.startCol = some 1 then 3
    else (path != "").toNat
  else if startsWith canonicalId "route_endpoint:" ||
    startsWith canonicalId "openapi:endpoint:" then
    if path != "" && node.startLine.isSome then 4
    else if path != "" then 3
    else node.startLine.isSome.toNat
  else 0

structure SourceKey where
  path : String
  line : Nat
  col : Nat
  name : String

def u32Max : Nat := 4294967295

def frameworkNodeStableSourceKey (node : Node) : SourceKey :=
  ⟨tables.frameworkNodeSourcePath batchPaths node, node.startLine.getD u32Max,
    node.startCol.getD u32Max, node.serializedName⟩

/-- The order of the key's tuple, component by component. -/
def SourceKey.before (a b : SourceKey) : Bool :=
  if a.path ≠ b.path then a.path < b.path
  else if a.line ≠ b.line then a.line < b.line
  else if a.col ≠ b.col then a.col < b.col
  else a.name < b.name

def preferredFrameworkNode (existing candidate : Node) : Node :=
  let existingRank := tables.frameworkNodeSourceRank batchPaths existing
  let candidateRank := tables.frameworkNodeSourceRank batchPaths candidate
  if candidateRank > existingRank then candidate
  else if candidateRank = existingRank && isEndpointSyntheticNode candidate then
    if (tables.frameworkNodeStableSourceKey batchPaths candidate).before
        (tables.frameworkNodeStableSourceKey batchPaths existing) then candidate
    else existing
  else existing

/-- One node of the batch: appended, or weighed against the framework node of its id that is
in hand already or in the table. -/
def prepareNode (acc : List Node × KeyedTable Node.id) (node : Node) :
    List Node × KeyedTable Node.id :=
  if !isFrameworkSyntheticNode node then (acc.1 ++ [node], acc.2)
  else
    let candidate :=
      match (acc.2.lookup node.id).or (tables.node.lookup node.id) with
      | some existing => tables.preferredFrameworkNode batchPaths existing node
      | none => node
    (acc.1, acc.2.upsert candidate)

end Tables

/-- Framework nodes come last, one for each id. The source hands them over in the order of a
hash map; with distinct ids the order makes no difference to any table. -/
def Tables.preparedNodesForInsertWithFiles (tables : Tables) (nodes : List Node)
    (files : List FileInfo) : List Node :=
  let prepared :=
    nodes.foldl (tables.prepareNode (batchFilePaths nodes files)) ([], KeyedTable.empty)
  prepared.1 ++ prepared.2.rows

def Tables.preparedNodesForInsert (tables : Tables) (nodes : List Node) : List Node :=
  tables.preparedNodesForInsertWithFiles nodes []

/-! ## Statements over the node table -/

/-- FILE rows first, so that the references of the others are satisfied. -/
def filesFirst (nodes : List Node) : List Node :=
  nodes.filter (·.kind = .fileNode) ++ nodes.filter (·.kind ≠ .fileNode)

/-- The condition by which the store recognises generated retrieval artifacts. -/
def isRetrievalArtifact (node : Node) : Bool :=
  SqlText.like "component_report:%" node.serializedName ||
    SqlText.likeNullable "codestory:component_report:%" node.canonicalId

/-- The nodes that belong to a file: its own node and the ones that name it. -/
def isRelatedNode (fileNodeId : Int) (node : Node) : Bool :=
  node.id = fileNodeId || node.fileNodeId = some fileNodeId

def Tables.relatedNodeIds (tables : Tables) (fileNodeId : Int) : List Int :=
  (tables.node.rows.filter (isRelatedNode fileNodeId)).map (·.id)

end CodeStory.Graph
