import Mathlib.Data.String.Basic
import Mathlib.Data.List.Sort
import Mathlib.Algebra.Ring.Int.Defs
import CodeStory.Graph.Resolution
import CodeStory.Lib.SortedMap
import CodeStory.Lib.SqlText
import CodeStory.Lib.Text

/-!
# The canonical layout of a graph

Members are shown inside their hosts, nodes that look alike are merged, and edges between the
same shown places are folded into one. A host is a structural node that a member edge names, or
that the label of the member names, or else one that is made up for the label. Widths and heights
are floating-point numbers and are left out; mean depths are rounded exactly.
-/

set_option autoImplicit false

namespace CodeStory.Layout

open CodeStory.Graph (EdgeKind NodeKind)

inductive MemberAccess where
  | publicAccess | protectedAccess | privateAccess | defaultAccess
  deriving DecidableEq, Repr

inductive MemberVisibility where
  | publicMember | protectedMember | privateMember | defaultMember
  deriving DecidableEq, Repr

structure GraphNode where
  id : String
  label : String
  kind : NodeKind
  depth : Nat
  badgeVisibleMembers : Option Nat
  badgeTotalMembers : Option Nat
  memberAccess : Option MemberAccess
  deriving DecidableEq, Repr

structure GraphEdge where
  id : String
  source : String
  target : String
  kind : EdgeKind
  confidence : Option Rat
  certainty : Option String
  callsiteIdentity : Option String
  deriving DecidableEq, Repr

structure CanonicalMember where
  id : String
  label : String
  kind : NodeKind
  visibility : MemberVisibility
  deriving DecidableEq, Repr

inductive NodeStyle where
  | card | pill
  deriving DecidableEq, Repr

inductive EdgeFamily where
  | flow | hierarchy
  deriving DecidableEq, Repr

inductive RouteKind where
  | direct | hierarchy
  deriving DecidableEq, Repr

structure CanonicalNode where
  id : String
  kind : NodeKind
  label : String
  center : Bool
  nodeStyle : NodeStyle
  isNonIndexed : Bool
  duplicateCount : Nat
  mergedSymbolIds : List String
  memberCount : Nat
  badgeVisibleMembers : Option Nat
  badgeTotalMembers : Option Nat
  members : List CanonicalMember
  xRank : Int
  yRank : Nat
  deriving DecidableEq, Repr

structure CanonicalEdge where
  id : String
  sourceEdgeIds : List String
  source : String
  target : String
  sourceHandle : String
  targetHandle : String
  kind : EdgeKind
  certainty : Option String
  multiplicity : Nat
  family : EdgeFamily
  routeKind : RouteKind
  deriving DecidableEq, Repr

structure CanonicalLayout where
  schemaVersion : Nat
  centerNodeId : String
  nodes : List CanonicalNode
  edges : List CanonicalEdge
  deriving DecidableEq, Repr

/-! ## Kinds -/

def isStructuralKind : NodeKind → Bool
  | .classNode | .structNode | .interfaceNode | .unionNode | .enumNode | .namespaceNode
  | .moduleNode | .packageNode => true
  | _ => false

def isCardNodeKind (kind : NodeKind) : Bool := isStructuralKind kind || kind = .fileNode

def isPrivateMemberKind : NodeKind → Bool
  | .fieldNode | .variableNode | .globalVariableNode | .constantNode | .enumConstantNode => true
  | _ => false

def isPublicMemberKind : NodeKind → Bool
  | .functionNode | .methodNode | .macroNode => true
  | _ => false

def edgeFamilyForKind : EdgeKind → EdgeFamily
  | .inheritanceEdge | .overrideEdge | .typeArgumentEdge | .templateSpecializationEdge =>
    .hierarchy
  | _ => .flow

def edgeKindName : EdgeKind → String
  | .memberEdge => "MEMBER"
  | .typeUsageEdge => "TYPE_USAGE"
  | .usageEdge => "USAGE"
  | .callEdge => "CALL"
  | .inheritanceEdge => "INHERITANCE"
  | .overrideEdge => "OVERRIDE"
  | .typeArgumentEdge => "TYPE_ARGUMENT"
  | .templateSpecializationEdge => "TEMPLATE_SPECIALIZATION"
  | .includeEdge => "INCLUDE"
  | .importEdge => "IMPORT"
  | .macroUsageEdge => "MACRO_USAGE"
  | .annotationUsageEdge => "ANNOTATION_USAGE"
  | .unknownEdge => "UNKNOWN"

def nodeKindName : NodeKind → String
  | .moduleNode => "MODULE"
  | .namespaceNode => "NAMESPACE"
  | .packageNode => "PACKAGE"
  | .fileNode => "FILE"
  | .structNode => "STRUCT"
  | .classNode => "CLASS"
  | .interfaceNode => "INTERFACE"
  | .annotationNode => "ANNOTATION"
  | .unionNode => "UNION"
  | .enumNode => "ENUM"
  | .typedefNode => "TYPEDEF"
  | .typeParameterNode => "TYPE_PARAMETER"
  | .builtinTypeNode => "BUILTIN_TYPE"
  | .functionNode => "FUNCTION"
  | .methodNode => "METHOD"
  | .macroNode => "MACRO"
  | .globalVariableNode => "GLOBAL_VARIABLE"
  | .fieldNode => "FIELD"
  | .variableNode => "VARIABLE"
  | .constantNode => "CONSTANT"
  | .enumConstantNode => "ENUM_CONSTANT"
  | .unknownNode => "UNKNOWN"

/-! ## Members and hosts -/

def isAsciiAlphanumeric (c : Char) : Bool :=
  ('a' ≤ c && c ≤ 'z') || ('A' ≤ c && c ≤ 'Z') || ('0' ≤ c && c ≤ '9')

/-- A private-looking name: `_x`, `x_` or `m_x`. -/
def looksPrivate (label : String) : Bool :=
  label.toList.head? = some '_' || label.toList.getLast? = some '_' ||
    match label.toList with
    | 'm' :: '_' :: c :: _ => isAsciiAlphanumeric c
    | _ => false

def inferMemberVisibility (kind : NodeKind) (label : String)
    (explicitAccess : Option MemberAccess) : MemberVisibility :=
  match explicitAccess with
  | some .publicAccess => .publicMember
  | some .protectedAccess => .protectedMember
  | some .privateAccess => .privateMember
  | some .defaultAccess => .defaultMember
  | none =>
    if isPrivateMemberKind kind then .privateMember
    else if isPublicMemberKind kind then .publicMember
    else if looksPrivate label then .privateMember
    else .publicMember

def canonicalMember (node : GraphNode) : CanonicalMember :=
  ⟨node.id, node.label, node.kind, inferMemberVisibility node.kind node.label node.memberAccess⟩

/-- What stands before the first `::`. -/
def beforeSeparator : List Char → Option (List Char)
  | [] => none
  | ':' :: ':' :: _ => some []
  | c :: rest => (beforeSeparator rest).map (c :: ·)

/-- The label of the host that a qualified label names. -/
def hostLabel (label : String) : Option String :=
  match beforeSeparator label.toList with
  | none | some [] => none
  | some host => some (String.ofList host)

-- The flag says that the slug ends in a dash.
def slugChar (slug : List Char × Bool) (c : Char) : List Char × Bool :=
  let lowered := SqlText.asciiLower c
  if isAsciiAlphanumeric lowered then (slug.1 ++ [lowered], false)
  else if slug.1 ≠ [] ∧ slug.2 = false then (slug.1 ++ ['-'], true)
  else slug

def slugOf (label : String) : List Char :=
  let slug := (((Text.trim label).toList.foldl slugChar ([], false)).1.reverse.dropWhile
    (· = '-')).reverse
  if slug = [] then "anonymous".toList else slug

def syntheticHostId (label : String) : String :=
  "__synthetic_host__" ++ String.ofList (slugOf label)

/-- A later node takes the place of an earlier one with its id. -/
def nodeById (nodes : List GraphNode) (id : String) : Option GraphNode :=
  nodes.reverse.find? (·.id = id)

structure MemberExtraction where
  memberHostById : SortedMap String String := .empty
  membersByHost : SortedMap String (List CanonicalMember) := .empty
  syntheticHosts : List GraphNode := []

def MemberExtraction.addMember (extraction : MemberExtraction) (hostId : String)
    (node : GraphNode) : MemberExtraction :=
  let members := (extraction.membersByHost.get hostId).getD []
  { extraction with
    memberHostById := extraction.memberHostById.put node.id hostId
    membersByHost :=
      if members.any (·.id = node.id) then extraction.membersByHost
      else extraction.membersByHost.put hostId (members ++ [canonicalMember node]) }

/-- The member and the host of a member edge between a structural node and another one. -/
def memberAndHost (nodes : List GraphNode) (edge : GraphEdge) : Option (GraphNode × GraphNode) :=
  if edge.kind ≠ .memberEdge then none
  else
    match nodeById nodes edge.source, nodeById nodes edge.target with
    | some source, some target =>
      if isStructuralKind source.kind && !isStructuralKind target.kind then some (target, source)
      else if !isStructuralKind source.kind && isStructuralKind target.kind then
        some (source, target)
      else none
    | _, _ => none

def visitMemberEdge (nodes : List GraphNode) (extraction : MemberExtraction) (edge : GraphEdge) :
    MemberExtraction :=
  match memberAndHost nodes edge with
  | none => extraction
  | some (member, host) => extraction.addMember host.id member

structure HostSearch where
  extraction : MemberExtraction
  hostIdsByLabel : SortedMap String String

def syntheticHost (label : String) (member : GraphNode) : GraphNode where
  id := syntheticHostId label
  label := label
  kind := .classNode
  depth := max 1 (member.depth - 1)
  badgeVisibleMembers := none
  badgeTotalMembers := none
  memberAccess := none

/-- Make up a host for a label that no structural node has. -/
def HostSearch.makeHost (search : HostSearch) (label : String) (member : GraphNode) : HostSearch :=
  let host := syntheticHost label member
  { extraction :=
      { search.extraction with
        syntheticHosts :=
          if search.extraction.syntheticHosts.any (·.id = host.id) then
            search.extraction.syntheticHosts
          else search.extraction.syntheticHosts ++ [host] }
    hostIdsByLabel := search.hostIdsByLabel.put label host.id }

def HostSearch.attach (search : HostSearch) (hostId : String) (member : GraphNode) : HostSearch :=
  { search with extraction := search.extraction.addMember hostId member }

def visitQualifiedNode (search : HostSearch) (node : GraphNode) : HostSearch :=
  if isStructuralKind node.kind || (search.extraction.memberHostById.get node.id).isSome then
    search
  else
    match hostLabel node.label with
    | none => search
    | some label =>
      match search.hostIdsByLabel.get label with
      | some hostId => search.attach hostId node
      | none => (search.makeHost label node).attach (syntheticHostId label) node

def structuralHostIds (nodes : List GraphNode) : SortedMap String String :=
  (nodes.filter fun node => isStructuralKind node.kind).foldl
    (fun hosts node => hosts.put node.label node.id) .empty

def extractMembers (nodes : List GraphNode) (edges : List GraphEdge) : MemberExtraction :=
  (nodes.foldl visitQualifiedNode
    ⟨edges.foldl (visitMemberEdge nodes) {}, structuralHostIds nodes⟩).extraction

/-! ## Depths -/

/-- `depth as i32` -/
def asI32 (n : Nat) : Int :=
  if n % 4294967296 < 2147483648 then n % 4294967296 else n % 4294967296 - 4294967296

def edgeBias (center id : String) (edge : GraphEdge) : Int :=
  if edge.kind = .memberEdge then 0
  else
    (if edge.source = center ∧ edge.target ≠ center ∧ edge.target = id then 1 else 0) -
      (if edge.target = center ∧ edge.source ≠ center ∧ edge.source = id then 1 else 0)

def directionBias (edges : List GraphEdge) (center id : String) : Int :=
  (edges.map (edgeBias center id)).sum

/-- Negative for what mostly points to the center. -/
def signedDepth (nodes : List GraphNode) (edges : List GraphEdge) (center id : String) :
    Option Int :=
  (nodeById nodes id).map fun node =>
    if id = center then 0
    else if directionBias edges center id < 0 then -max 1 (asI32 node.depth)
    else max 1 (asI32 node.depth)

/-! ## Merging nodes and folding edges -/

def dedupeKeyForNode (kind : NodeKind) (label : String) (depth : Int) (isCenter : Bool) :
    Option String :=
  if isCenter then none
  else if isCardNodeKind kind then some (nodeKindName kind ++ ":" ++ SqlText.lower label)
  else some (nodeKindName kind ++ ":" ++ SqlText.lower label ++ ":" ++ toString depth)

structure NodeFold where
  canonicalNodeById : SortedMap String String := .empty
  canonicalNodeByKey : SortedMap String String := .empty
  duplicateCountByCanonical : SortedMap String Nat := .empty
  mergedIdsByCanonical : SortedMap String (List String) := .empty

def NodeFold.canonicalIdFor (found : NodeFold) (key : Option String) (id : String) : String :=
  (key.bind found.canonicalNodeByKey.get).getD id

def foldNode (memberHostById : SortedMap String String) (depthOf : String → Option Int)
    (center : String) (found : NodeFold) (node : GraphNode) : NodeFold :=
  if (memberHostById.get node.id).isSome then found
  else
    let key := dedupeKeyForNode node.kind node.label
      ((depthOf node.id).getD (max 1 (asI32 node.depth))) (node.id = center)
    let canonicalId := found.canonicalIdFor key node.id
    { canonicalNodeById := found.canonicalNodeById.put node.id canonicalId
      canonicalNodeByKey :=
        match key with
        | none => found.canonicalNodeByKey
        | some key => found.canonicalNodeByKey.offer (fun _ _ => false) key canonicalId
      duplicateCountByCanonical := found.duplicateCountByCanonical.put canonicalId
        ((found.duplicateCountByCanonical.get canonicalId).getD 0 + 1)
      mergedIdsByCanonical := found.mergedIdsByCanonical.put canonicalId
        ((found.mergedIdsByCanonical.get canonicalId).getD [] ++ [node.id]) }

def certaintyRank (certainty : Option String) : Nat :=
  match certainty.map SqlText.lower with
  | some "uncertain" => 2
  | some "probable" => 1
  | _ => 0

def mergeCertainty (existing next : Option String) : Option String :=
  if certaintyRank next > certaintyRank existing then next else existing

/-- Where the layout shows a node. -/
structure Placement where
  memberHostById : SortedMap String String
  canonicalNodeById : SortedMap String String

namespace Placement
variable (placement : Placement)

def host (id : String) : String := (placement.memberHostById.get id).getD id

def place (id : String) : String :=
  (placement.canonicalNodeById.get (placement.host id)).getD (placement.host id)

def sourceHandle (edge : GraphEdge) : String :=
  if (placement.memberHostById.get edge.source).isSome then "source-member-" ++ edge.source
  else if edgeFamilyForKind edge.kind = .hierarchy then "source-node-top"
  else "source-node"

def targetHandle (edge : GraphEdge) : String :=
  if (placement.memberHostById.get edge.target).isSome then "target-member-" ++ edge.target
  else if edgeFamilyForKind edge.kind = .hierarchy then "target-node-bottom"
  else "target-node"

def edgeKey (edge : GraphEdge) : String :=
  edgeKindName edge.kind ++ ":" ++ placement.place edge.source ++ ":" ++
    placement.sourceHandle edge ++ ":" ++ placement.place edge.target ++ ":" ++
    placement.targetHandle edge

def firstFolded (edge : GraphEdge) : CanonicalEdge where
  id := placement.edgeKey edge
  sourceEdgeIds := [edge.id]
  source := placement.place edge.source
  target := placement.place edge.target
  sourceHandle := placement.sourceHandle edge
  targetHandle := placement.targetHandle edge
  kind := edge.kind
  certainty := edge.certainty
  multiplicity := 1
  family := edgeFamilyForKind edge.kind
  routeKind := if edgeFamilyForKind edge.kind = .hierarchy then .hierarchy else .direct

def foldEdge (folded : SortedMap String CanonicalEdge) (edge : GraphEdge) :
    SortedMap String CanonicalEdge :=
  if edge.kind = .memberEdge ∨ placement.place edge.source = placement.place edge.target then
    folded
  else
    match folded.get (placement.edgeKey edge) with
    | none => folded.put (placement.edgeKey edge) (placement.firstFolded edge)
    | some existing =>
      folded.put (placement.edgeKey edge)
        { existing with
          multiplicity := min (existing.multiplicity + 1) 4294967295
          sourceEdgeIds := existing.sourceEdgeIds ++ [edge.id]
          certainty := mergeCertainty existing.certainty edge.certainty }

end Placement

/-! ## The layout -/

/-- What the layout of a graph is computed from. -/
structure Arrangement where
  allNodes : List GraphNode
  centerHost : String
  extraction : MemberExtraction
  depthOf : String → Option Int
  nodeFold : NodeFold

def arrange (centerId : String) (nodes : List GraphNode) (edges : List GraphEdge) : Arrangement :=
  let extraction := extractMembers nodes edges
  let allNodes := nodes ++ extraction.syntheticHosts
  let centerHost := (extraction.memberHostById.get centerId).getD centerId
  let depthOf := signedDepth allNodes edges centerHost
  { allNodes := allNodes
    centerHost := centerHost
    extraction := extraction
    depthOf := depthOf
    nodeFold := allNodes.foldl (foldNode extraction.memberHostById depthOf centerHost) {} }

namespace Arrangement
variable (arrangement : Arrangement)

def placement : Placement :=
  ⟨arrangement.extraction.memberHostById, arrangement.nodeFold.canonicalNodeById⟩

def addMembers (merged : SortedMap String (List CanonicalMember)) (entry : String × String) :
    SortedMap String (List CanonicalMember) :=
  match arrangement.extraction.membersByHost.get entry.1 with
  | none | some [] => merged
  | some members =>
    merged.put entry.2 (members.foldl
      (fun known member => if known.any (·.id = member.id) then known else known ++ [member])
      ((merged.get entry.2).getD []))

def compareMembers (left right : CanonicalMember) : Ordering :=
  (compare left.label right.label).then (compare left.id right.id)

def membersOf (canonicalId : String) : List CanonicalMember :=
  (((arrangement.nodeFold.canonicalNodeById.entries.foldl arrangement.addMembers .empty).get
    canonicalId).getD []).insertionSort fun left right => compareMembers left right ≠ .gt

def mergedIds (canonicalId : String) : List String :=
  (arrangement.nodeFold.mergedIdsByCanonical.get canonicalId).getD [canonicalId]

/-- The mean of the depths, with halves rounded up. -/
def meanDepth (canonicalId : String) : Int :=
  let depths := (arrangement.mergedIds canonicalId).map fun id => (arrangement.depthOf id).getD 0
  if depths = [] then 0 else (2 * depths.sum + depths.length) / (2 * depths.length)

def labelOf (id : String) : String := ((nodeById arrangement.allNodes id).map (·.label)).getD id

def compareNodeIds (left right : String) : Ordering :=
  (compare (arrangement.meanDepth left) (arrangement.meanDepth right)).then <|
  (compare (arrangement.labelOf left) (arrangement.labelOf right)).then <|
  compare left right

def canonicalNodeIds : List String :=
  ((arrangement.nodeFold.canonicalNodeById.entries.map (·.2)).dedup).insertionSort
    fun left right => arrangement.compareNodeIds left right ≠ .gt

def centerNodeId : String :=
  (arrangement.nodeFold.canonicalNodeById.get arrangement.centerHost).getD arrangement.centerHost

def canonicalNode (id : String) (node : GraphNode) (row : Nat) : CanonicalNode :=
  let members := arrangement.membersOf id
  { id := id
    kind := node.kind
    label := node.label
    center := id = arrangement.centerNodeId
    nodeStyle := if isCardNodeKind node.kind then .card else .pill
    isNonIndexed := node.kind = .unknownNode || node.kind = .builtinTypeNode
    duplicateCount := (arrangement.nodeFold.duplicateCountByCanonical.get id).getD 1
    mergedSymbolIds := (arrangement.mergedIds id).take 6
    memberCount := node.badgeVisibleMembers.getD (min members.length 4294967295)
    badgeVisibleMembers := node.badgeVisibleMembers
    badgeTotalMembers := node.badgeTotalMembers
    members := members
    xRank := arrangement.meanDepth id
    yRank := row }

/-- Place the nodes in rows; a row counts the nodes of its depth. -/
def placeNodes : SortedMap Int Nat → List String → List CanonicalNode
  | _, [] => []
  | rowByDepth, id :: rest =>
    match nodeById arrangement.allNodes id with
    | none => placeNodes rowByDepth rest
    | some node =>
      let row := (rowByDepth.get (arrangement.meanDepth id)).getD 0
      arrangement.canonicalNode id node row ::
        placeNodes (rowByDepth.put (arrangement.meanDepth id) (min (row + 1) 4294967295)) rest

end Arrangement

def foldEdges (placement : Placement) (edges : List GraphEdge) : SortedMap String CanonicalEdge :=
  edges.foldl placement.foldEdge .empty

def buildCanonicalLayout (centerId : String) (nodes : List GraphNode) (edges : List GraphEdge) :
    CanonicalLayout :=
  let arrangement := arrange centerId nodes edges
  { schemaVersion := 1
    centerNodeId := arrangement.centerNodeId
    nodes := arrangement.placeNodes .empty arrangement.canonicalNodeIds
    edges := (foldEdges arrangement.placement edges).entries.map (·.2) }

end CodeStory.Layout
