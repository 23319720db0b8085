import Mathlib.Data.String.Basic
import CodeStory.Affected.Classification

/-!
# What the walk says about symbols, routes and tests

The nodes with a distance are the impacted ones. Symbols are the nodes that are no files; routes
are the nodes that the route metadata, a fixed answer, knows. Both lists are filtered, sorted and
cut, and the cut is reported. A node id is printed as its number.
-/

set_option autoImplicit false

namespace CodeStory.Affected

open CodeStory.Graph (Edge Node NodeKind)

structure GraphIndex where
  labels : Int → Option String
  filePathById : Int → Option String
  nodesById : Int → Option Node
  nodeIdsByFile : Int → List Int

/-- A cached label goes before the names of the node. -/
def affectedGraphIndex (cachedLabel : Int → Option String) (relativePath : String → String)
    (files : KeyedTable IndexedFile.id) (nodes : KeyedTable Node.id) : GraphIndex where
  labels nodeId := (nodes.lookup nodeId).map fun node =>
    (cachedLabel nodeId).getD (node.qualifiedName.getD node.serializedName)
  filePathById fileId := (files.lookup fileId).map fun file => relativePath file.path
  nodesById := nodes.lookup
  nodeIdsByFile fileId :=
    ((nodes.rows.filter (·.fileNodeId = some fileId)).map (·.id)).insertionSort (· ≤ ·)

structure AffectedSymbol where
  nodeId : Int
  displayName : String
  kind : NodeKind
  filePath : Option String
  line : Option Nat
  distance : Nat
  graphDepth : Nat
  reason : String
  confidence : String
  deriving DecidableEq, Repr

/-- The part of the metadata of a route that the analysis reads. -/
structure RouteMetadata where
  confidence : Option String
  deriving DecidableEq, Repr

structure AffectedRoute where
  nodeId : Int
  displayName : String
  filePath : Option String
  line : Option Nat
  distance : Nat
  graphDepth : Nat
  reason : String
  confidence : String
  route : RouteMetadata
  deriving DecidableEq, Repr

section Impacts
variable (graph : GraphIndex)

def nodeFilePath (node : Node) : Option String := node.fileNodeId.bind graph.filePathById

/-- The needle occurs in the label of the node or in the path of its file. -/
def passesFilter (filter : Option String) (node : Node) : Bool :=
  filter.all fun needle =>
    (graph.labels node.id).any (fun label => SqlText.contains (normalizePathKey label) needle) ||
      (nodeFilePath graph node).any (fun path => SqlText.contains (normalizePathKey path) needle)

def displayName (node : Node) : String := (graph.labels node.id).getD node.serializedName

/-- The evidence of the walk, or else some that only knows the distance. -/
def evidenceOf (evidence : EvidenceMap) (nodeId : Int) (distance : Nat) (reason : String) :
    GraphEvidence :=
  (evidence.get nodeId).getD
    { GraphEvidence.seed nodeId reason (.fromLabel "graph") false with distance := distance }

def affectedSymbol (evidence : EvidenceMap) (filter : Option String) (entry : Int × Nat) :
    Option AffectedSymbol :=
  (graph.nodesById entry.1).bind fun node =>
    if node.kind = .fileNode then none
    else if !passesFilter graph filter node then none
    else
      let graphEvidence := evidenceOf evidence entry.1 entry.2 "reached by dependent graph walk"
      some {
        nodeId := entry.1
        displayName := displayName graph node
        kind := node.kind
        filePath := nodeFilePath graph node
        line := node.startLine
        distance := entry.2
        graphDepth := graphEvidence.distance
        reason := graphEvidence.reason
        confidence := graphEvidence.confidenceFloor.label }

/-- By distance, then file path, then name, then the printed id. -/
def compareImpacts (left right : Nat × Option String × String × Int) : Ordering :=
  (compare left.1 right.1).then <|
  (compare left.2.1 right.2.1).then <|
  (compare left.2.2.1 right.2.2.1).then <|
  compare (toString left.2.2.2) (toString right.2.2.2)

structure SymbolImpacts where
  symbols : List AffectedSymbol
  total : Nat
  truncated : Bool
  directCount : Nat
  propagatedCount : Nat

def AffectedSymbol.sortKey (symbol : AffectedSymbol) : Nat × Option String × String × Int :=
  (symbol.distance, symbol.filePath, symbol.displayName, symbol.nodeId)

def affectedSymbolImpacts (distances : SortedMap Int Nat) (evidence : EvidenceMap)
    (filter : Option String) : SymbolImpacts :=
  let found := distances.entries.filterMap (affectedSymbol graph evidence filter)
  let sorted := found.insertionSort fun left right =>
    compareImpacts left.sortKey right.sortKey ≠ .gt
  { symbols := sorted.take 200
    total := sorted.length
    truncated := decide (sorted.length > 200)
    directCount := found.countP (·.distance = 0)
    propagatedCount := found.countP (·.distance > 0) }

def affectedRouteConfidence (graphEvidence : GraphEvidence) (routeConfidence : Option String) :
    String :=
  (graphEvidence.confidenceFloor.weakest (.fromLabel (routeConfidence.getD "graph"))).label

variable (routeEndpointMetadata : Node → Option String → String → Option RouteMetadata)

def affectedRoute (evidence : EvidenceMap) (filter : Option String) (entry : Int × Nat) :
    Option AffectedRoute :=
  (graph.nodesById entry.1).bind fun node =>
    if !passesFilter graph filter node then none
    else
      (routeEndpointMetadata node (nodeFilePath graph node) (displayName graph node)).map
        fun route =>
          let graphEvidence := evidenceOf evidence entry.1 entry.2
            "route endpoint reached by dependent graph walk"
          { nodeId := entry.1
            displayName := displayName graph node
            filePath := nodeFilePath graph node
            line := node.startLine
            distance := entry.2
            graphDepth := graphEvidence.distance
            reason := graphEvidence.reason
            confidence := affectedRouteConfidence graphEvidence route.confidence
            route := route }

structure RouteImpacts where
  routes : List AffectedRoute
  total : Nat
  truncated : Bool

def AffectedRoute.sortKey (route : AffectedRoute) : Nat × Option String × String × Int :=
  (route.distance, route.filePath, route.displayName, route.nodeId)

def affectedRouteImpacts (distances : SortedMap Int Nat) (evidence : EvidenceMap)
    (filter : Option String) : RouteImpacts :=
  let sorted :=
    (distances.entries.filterMap (affectedRoute graph routeEndpointMetadata evidence
      filter)).insertionSort fun left right => compareImpacts left.sortKey right.sortKey ≠ .gt
  { routes := sorted.take 100
    total := sorted.length
    truncated := decide (sorted.length > 100) }

end Impacts

structure AffectedTestFile where
  path : String
  reason : String
  confidence : String
  distance : Nat
  graphDepth : Nat
  impactedSymbolCount : Nat
  deriving DecidableEq, Repr

/-- The symbols, the smallest depth and its confidence for each test-like path. -/
def countTest (pathRoleFromKey : String → FileRole) (byFile : SortedMap String (Nat × Nat × String))
    (symbol : AffectedSymbol) : SortedMap String (Nat × Nat × String) :=
  match symbol.filePath with
  | none => byFile
  | some path =>
    if pathRoleFromKey (normalizePathKey path) ≠ .test then byFile
    else
      let entry := (byFile.get path).getD (0, symbol.graphDepth, symbol.confidence)
      byFile.put path
        (if symbol.graphDepth < entry.2.1 then (entry.1 + 1, symbol.graphDepth, symbol.confidence)
        else (entry.1 + 1, entry.2))

def affectedTestImpacts (pathRoleFromKey : String → FileRole) (symbols : List AffectedSymbol) :
    List AffectedTestFile :=
  (symbols.foldl (countTest pathRoleFromKey) .empty).entries.map fun entry =>
    { path := entry.1
      reason := "focused test hint: test-like path reached by affected graph walk"
      confidence := entry.2.2.2
      distance := entry.2.2.1
      graphDepth := entry.2.2.1
      impactedSymbolCount := entry.2.1 }

/-! ## The reported symbols -/

section Spec
variable {graph : GraphIndex} {distances : SortedMap Int Nat} {evidence : EvidenceMap}
  {filter : Option String}

theorem affectedSymbol_eq_some {nodeId : Int} {n : Nat} :
    (∃ symbol, affectedSymbol graph evidence filter (nodeId, n) = some symbol ∧
        symbol.nodeId = nodeId ∧ symbol.distance = n) ↔
      ∃ node, graph.nodesById nodeId = some node ∧ node.kind ≠ .fileNode ∧
        passesFilter graph filter node = true := by
  unfold affectedSymbol
  dsimp only
  cases graph.nodesById nodeId with
  | none => simp
  | some node =>
    by_cases hkind : node.kind = .fileNode
    · simp [hkind]
    · cases hpass : passesFilter graph filter node <;> simp [hkind, hpass]

theorem affectedSymbol_ids {entry : Int × Nat} {symbol : AffectedSymbol}
    (h : affectedSymbol graph evidence filter entry = some symbol) :
    symbol.nodeId = entry.1 ∧ symbol.distance = entry.2 := by
  unfold affectedSymbol at h
  obtain ⟨node, _, h⟩ := Option.bind_eq_some_iff.mp h
  split at h
  · cases h
  · split at h
    · cases h
    · cases h
      exact ⟨rfl, rfl⟩

/-- An uncut list has exactly the nodes with a distance that are no files and pass the filter. -/
theorem mem_affectedSymbolImpacts
    (huncut : (affectedSymbolImpacts graph distances evidence filter).truncated = false)
    (nodeId : Int) (n : Nat) :
    (∃ symbol ∈ (affectedSymbolImpacts graph distances evidence filter).symbols,
        symbol.nodeId = nodeId ∧ symbol.distance = n) ↔
      distances.get nodeId = some n ∧ ∃ node, graph.nodesById nodeId = some node ∧
        node.kind ≠ .fileNode ∧ passesFilter graph filter node = true := by
  unfold affectedSymbolImpacts at huncut ⊢
  dsimp only at huncut ⊢
  rw [decide_eq_false_iff_not, not_lt] at huncut
  rw [List.take_of_length_le huncut]
  constructor
  · rintro ⟨symbol, hmem, rfl, rfl⟩
    obtain ⟨entry, hentry, hsymbol⟩ := List.mem_filterMap.mp ((List.mem_insertionSort _).mp hmem)
    obtain ⟨hid, hdistance⟩ := affectedSymbol_ids hsymbol
    rw [hid, hdistance]
    exact ⟨SortedMap.mem_entries_iff.mp hentry,
      affectedSymbol_eq_some.mp ⟨symbol, hsymbol, hid, hdistance⟩⟩
  · rintro ⟨hget, hnode⟩
    obtain ⟨symbol, hsymbol, hid, hdistance⟩ := affectedSymbol_eq_some.mpr hnode
    refine ⟨symbol, ?_, hid, hdistance⟩
    rw [List.mem_insertionSort]
    exact List.mem_filterMap.mpr ⟨(nodeId, n), SortedMap.mem_entries_iff.mpr hget, hsymbol⟩

theorem mem_nodeIdsByFile {cachedLabel : Int → Option String} {relativePath : String → String}
    {files : KeyedTable IndexedFile.id} {nodes : KeyedTable Node.id} {fileId b : Int} :
    b ∈ (affectedGraphIndex cachedLabel relativePath files nodes).nodeIdsByFile fileId ↔
      ∃ node ∈ nodes.rows, node.id = b ∧ node.fileNodeId = some fileId := by
  unfold affectedGraphIndex
  dsimp only
  rw [List.mem_insertionSort, List.mem_map]
  constructor
  · rintro ⟨node, hmem, hid⟩
    obtain ⟨hmem, hfile⟩ := List.mem_filter.mp hmem
    exact ⟨node, hmem, hid, by simpa using hfile⟩
  · rintro ⟨node, hmem, hid, hfile⟩
    exact ⟨node, List.mem_filter.mpr ⟨hmem, by simpa using hfile⟩, hid⟩

end Spec

end CodeStory.Affected
