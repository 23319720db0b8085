import CodeStory.Graph.Resolution
import CodeStory.Graph.Storage
import CodeStory.Lib.Worklist
import Mathlib.Data.List.Sort

/-!
# Trails

The two searches behind `get_trail`: the neighbourhood of a root, and the paths from a root to a
target. Both fetch the edges of one node at a time, in the order of their ids, drop resolutions
of calls that are too weak, filter, and stop at budgets of nodes and edges. Each loop takes fuel
and answers `none` when it runs out.

A read of a node may put its row into the cache; that changes no later read, so the storage is
not passed along. Errors of the database and rows that do not parse are left out.
-/

set_option autoImplicit false

namespace CodeStory.Graph

universe u

inductive TrailMode where
  | neighborhood | allReferenced | allReferencing | toTargetSymbol
deriving DecidableEq, Repr

inductive TrailDirection where
  | incoming | outgoing | both
deriving DecidableEq, Repr

inductive TrailCallerScope where
  | productionOnly | includeTestsAndBenches
deriving DecidableEq, Repr

/-- What an edge has to pass besides touching the node. -/
structure EdgeFilters where
  edgeFilter : List EdgeKind
  callerScope : TrailCallerScope
  showUtilityCalls : Bool

structure TrailConfig extends EdgeFilters where
  rootId : Int
  mode : TrailMode
  targetId : Option Int
  depth : Nat
  direction : TrailDirection
  nodeFilter : List NodeKind
  maxNodes : Nat

abbrev DepthMap := KeyedTable (Prod.fst : Int × Nat → Int)

def DepthMap.get (depths : DepthMap) (id : Int) : Option Nat := (depths.lookup id).map (·.2)

structure TrailResult where
  nodes : List Node
  edges : List Edge
  depthMap : DepthMap
  truncated : Bool
  omittedEdgeCount : Nat

open Tables (u32Max)

def usizeMax : Nat := 18446744073709551615

def u32SaturatingAdd (a b : Nat) : Nat := min (a + b) u32Max

def usizeSaturatingMul (a b : Nat) : Nat := min (a * b) usizeMax

namespace Edge

def effectiveSource (edge : Edge) : Int := edge.resolvedSource.getD edge.source

def effectiveTarget (edge : Edge) : Int := edge.resolvedTarget.getD edge.target

end Edge

/-! ## The edges of a node -/

def isTestOrBenchPath (path : String) : Bool :=
  let normalized :=
    SqlText.lower (String.ofList (path.toList.map fun c => if c = '\\' then '/' else c))
  ["tests/", "test/", "benches/", "bench/", "__tests__/", "__test__/"].any
      (startsWith normalized ·) ||
    ["/tests/", "/test/", "/__tests__/", "/__test__/", "/benches/", "/bench/"].any
      (SqlText.contains normalized ·) ||
    endsWith normalized "_test.rs" || SqlText.contains normalized ".test." ||
    SqlText.contains normalized ".spec."

def isCallerScopeAllowed (scope : TrailCallerScope) (callerFilePath : Option String) : Bool :=
  match scope with
  | .includeTestsAndBenches => true
  | .productionOnly => callerFilePath.elim true fun path => !isTestOrBenchPath path

def isIndexerHelperCall (name : String) : Bool :=
  SqlText.contains name "seed_symbol_table" || SqlText.contains name "flush_projection_batch" ||
    SqlText.contains name "flush_errors"

/-- The names for which the store shows calls only on request. -/
def utilityCallNames : List String :=
  ["add", "all", "any", "append", "clear", "collect", "contains", "dedup", "extend", "filter",
    "insert", "into_iter", "iter", "iter_mut", "len", "map", "pop", "push", "remove", "retain",
    "sort", "sort_by", "sort_by_key", "truncate"]

/-- `is_common_unqualified_call_name` of the store. -/
def isUtilityCallName (name : String) : Bool :=
  if SqlText.contains name "::" || SqlText.contains name "." then false
  else utilityCallNames.contains name

def shouldIgnoreCallResolution (targetSymbol : String) (certainty : Option ResolutionCertainty)
    (confidence : Option Rat) : Bool :=
  if isIndexerHelperCall targetSymbol then false
  else
    match certainty.or (confidence.map .fromConfidence) with
    | none => false
    | some .uncertain => true
    | some .probable => isUtilityCallName targetSymbol
    | some .certain => false

def dropIgnoredResolution (targetSymbol : String) (edge : Edge) : Edge :=
  if edge.kind = .callEdge && edge.resolvedTarget.isSome &&
      shouldIgnoreCallResolution targetSymbol edge.certainty edge.confidence then
    { edge with resolvedTarget := none, confidence := none, certainty := none }
  else edge

def EdgeFilters.passes (filters : EdgeFilters) (targetSymbol : String)
    (callerFilePath : Option String) (edge : Edge) : Bool :=
  !(edge.kind = .callEdge && !filters.showUtilityCalls && isUtilityCallName targetSymbol) &&
    isCallerScopeAllowed filters.callerScope callerFilePath &&
    (filters.edgeFilter.isEmpty || filters.edgeFilter.contains edge.kind)

/-- The condition of the query, on the columns of the row. -/
def rowTouches (direction : TrailDirection) (nodeId : Int) (row : Edge) : Bool :=
  match direction with
  | .outgoing => row.source = nodeId || row.resolvedSource = some nodeId
  | .incoming => row.target = nodeId || row.resolvedTarget = some nodeId
  | .both => row.source = nodeId || row.target = nodeId || row.resolvedSource = some nodeId ||
      row.resolvedTarget = some nodeId

/-- The condition on the endpoints that count. -/
def Edge.touches (direction : TrailDirection) (nodeId : Int) (edge : Edge) : Bool :=
  match direction with
  | .outgoing => edge.effectiveSource = nodeId
  | .incoming => edge.effectiveTarget = nodeId
  | .both => edge.effectiveSource = nodeId || edge.effectiveTarget = nodeId

def neighborForDirection (currentId : Int) (direction : TrailDirection) (edge : Edge) :
    Option Int :=
  match direction with
  | .outgoing =>
    if edge.effectiveSource = currentId then some edge.effectiveTarget
    else if edge.source = currentId then some edge.target
    else none
  | .incoming =>
    if edge.effectiveTarget = currentId then some edge.effectiveSource
    else if edge.target = currentId then some edge.source
    else none
  | .both =>
    if edge.effectiveSource = currentId then some edge.effectiveTarget
    else if edge.effectiveTarget = currentId then some edge.effectiveSource
    else if edge.source = currentId then some edge.target
    else if edge.target = currentId then some edge.source
    else none

structure EdgeFetchResult where
  edges : List Edge
  truncated : Bool

/-- The loop over the rows of the query: `accept` is what its body keeps of a row. -/
def collectEdges (edgeBudget : Option Nat) (accept : Edge → Option Edge) :
    List Edge → List Edge → EdgeFetchResult
  | [], edges => ⟨edges, false⟩
  | row :: rows, edges =>
    match accept row with
    | none => collectEdges edgeBudget accept rows edges
    | some edge =>
      if edgeBudget.any (· ≤ (edges ++ [edge]).length) then ⟨edges ++ [edge], true⟩
      else collectEdges edgeBudget accept rows (edges ++ [edge])

namespace Storage
variable {β : Type u} (s : Storage β)

def readNode (id : Int) : Option Node := (s.getNode id).1

def edgesById : List Edge := s.edge.rows.insertionSort fun a b => a.id ≤ b.id

/-- A row of the edge table as the searches see it. The target's row is joined, the file's row
if there is one. -/
def visibleEdge (filters : EdgeFilters) (row : Edge) : Option Edge :=
  match s.node.lookup row.target with
  | none => none
  | some target =>
    let callerFilePath :=
      row.fileNodeId.bind fun file => (s.node.lookup file).map (·.serializedName)
    let edge := dropIgnoredResolution target.serializedName row
    if filters.passes target.serializedName callerFilePath edge then some edge else none

def getEdgesForNodeLimited (nodeId : Int) (direction : TrailDirection) (filters : EdgeFilters)
    (edgeBudget : Option Nat) : EdgeFetchResult :=
  if edgeBudget = some 0 then ⟨[], true⟩
  else
    collectEdges edgeBudget
      (fun row => (s.visibleEdge filters row).filter (·.touches direction nodeId))
      (s.edgesById.filter (rowTouches direction nodeId)) []

/-- The edges of the graph the searches walk on. -/
def visibleEdges (filters : EdgeFilters) : List Edge :=
  s.edgesById.filterMap (s.visibleEdge filters)

/-- Every edge of a node, when no budget stops the fetch. -/
def incidentEdges (filters : EdgeFilters) (direction : TrailDirection) (nodeId : Int) :
    List Edge :=
  (s.visibleEdges filters).filter (·.touches direction nodeId)

end Storage

/-- The ids a row refers to. -/
def Edge.endpoints (row : Edge) : List Int :=
  [row.source, row.target] ++ row.resolvedSource.toList ++ row.resolvedTarget.toList

section Fetch
variable {β : Type u} {s : Storage β} {filters : EdgeFilters} {direction : TrailDirection}
  {nodeId : Int} {row edge : Edge}

theorem dropIgnoredResolution_eq (targetSymbol : String) (row : Edge) :
    (dropIgnoredResolution targetSymbol row).id = row.id ∧
      (dropIgnoredResolution targetSymbol row).source = row.source ∧
      (dropIgnoredResolution targetSymbol row).target = row.target ∧
      (dropIgnoredResolution targetSymbol row).resolvedSource = row.resolvedSource ∧
      ((dropIgnoredResolution targetSymbol row).resolvedTarget = row.resolvedTarget ∨
        (dropIgnoredResolution targetSymbol row).resolvedTarget = none) := by
  unfold dropIgnoredResolution
  split
  · exact ⟨rfl, rfl, rfl, rfl, .inr rfl⟩
  · exact ⟨rfl, rfl, rfl, rfl, .inl rfl⟩

theorem eq_of_visibleEdge (h : s.visibleEdge filters row = some edge) :
    ∃ targetSymbol, edge = dropIgnoredResolution targetSymbol row := by
  unfold Storage.visibleEdge at h
  split at h
  · exact absurd h (by simp)
  · rename_i target _
    dsimp only at h
    split at h
    · exact ⟨target.serializedName, (Option.some.inj h).symm⟩
    · exact absurd h (by simp)

theorem id_of_visibleEdge (h : s.visibleEdge filters row = some edge) : edge.id = row.id := by
  obtain ⟨targetSymbol, rfl⟩ := eq_of_visibleEdge h
  exact (dropIgnoredResolution_eq targetSymbol row).1

theorem effectiveSource_of_visibleEdge (h : s.visibleEdge filters row = some edge) :
    row.source = edge.effectiveSource ∨ row.resolvedSource = some edge.effectiveSource := by
  obtain ⟨targetSymbol, rfl⟩ := eq_of_visibleEdge h
  obtain ⟨-, hsource, -, hresolved, -⟩ := dropIgnoredResolution_eq targetSymbol row
  unfold Edge.effectiveSource
  rw [hsource, hresolved]
  cases row.resolvedSource with
  | none => exact .inl rfl
  | some id => exact .inr rfl

theorem effectiveTarget_of_visibleEdge (h : s.visibleEdge filters row = some edge) :
    row.target = edge.effectiveTarget ∨ row.resolvedTarget = some edge.effectiveTarget := by
  obtain ⟨targetSymbol, rfl⟩ := eq_of_visibleEdge h
  obtain ⟨-, -, htarget, -, hresolved⟩ := dropIgnoredResolution_eq targetSymbol row
  unfold Edge.effectiveTarget
  rw [htarget]
  rcases hresolved with hresolved | hresolved
  · rw [hresolved]
    cases row.resolvedTarget with
    | none => exact .inl rfl
    | some id => exact .inr rfl
  · rw [hresolved]
    exact .inl rfl

/-- The query misses no row whose edge touches the node. -/
theorem rowTouches_of_touches (h : s.visibleEdge filters row = some edge)
    (htouches : edge.touches direction nodeId = true) : rowTouches direction nodeId row = true := by
  have hsource := effectiveSource_of_visibleEdge h
  have htarget := effectiveTarget_of_visibleEdge h
  cases direction with
  | outgoing =>
    simp only [Edge.touches, decide_eq_true_eq] at htouches
    rw [htouches] at hsource
    simpa [rowTouches] using hsource
  | incoming =>
    simp only [Edge.touches, decide_eq_true_eq] at htouches
    rw [htouches] at htarget
    simpa [rowTouches] using htarget
  | both =>
    simp only [Edge.touches, Bool.or_eq_true, decide_eq_true_eq] at htouches
    rcases htouches with htouches | htouches
    · rw [htouches] at hsource
      rcases hsource with hsource | hsource <;> simp [rowTouches, hsource]
    · rw [htouches] at htarget
      rcases htarget with htarget | htarget <;> simp [rowTouches, htarget]

theorem mem_edgesById : row ∈ s.edgesById ↔ row ∈ s.edge.rows :=
  List.mem_insertionSort _

theorem mem_visibleEdges :
    edge ∈ s.visibleEdges filters ↔ ∃ row ∈ s.edge.rows, s.visibleEdge filters row = some edge := by
  unfold Storage.visibleEdges
  simp only [List.mem_filterMap, mem_edgesById]

theorem endpoints_of_mem_visibleEdges (h : edge ∈ s.visibleEdges filters) :
    ∃ row ∈ s.edge.rows,
      edge.effectiveSource ∈ row.endpoints ∧ edge.effectiveTarget ∈ row.endpoints := by
  obtain ⟨row, hrow, hedge⟩ := mem_visibleEdges.mp h
  refine ⟨row, hrow, ?_, ?_⟩
  · rcases effectiveSource_of_visibleEdge hedge with hsource | hsource
    · simp [Edge.endpoints, ← hsource]
    · simp [Edge.endpoints, hsource]
  · rcases effectiveTarget_of_visibleEdge hedge with htarget | htarget
    · simp [Edge.endpoints, ← htarget]
    · simp [Edge.endpoints, htarget]

theorem map_filterMap_sublist {f : Edge → Option Edge}
    (hf : ∀ row edge, f row = some edge → edge.id = row.id) (rows : List Edge) :
    ((rows.filterMap f).map (·.id)).Sublist (rows.map (·.id)) := by
  induction rows with
  | nil => exact List.Sublist.refl _
  | cons row rows ih =>
    cases h : f row with
    | none =>
      rw [List.filterMap_cons_none h]
      exact ih.cons _
    | some edge =>
      rw [List.filterMap_cons_some h, List.map_cons, List.map_cons, hf row edge h]
      exact ih.cons_cons _

theorem nodup_visibleEdges (s : Storage β) (filters : EdgeFilters) :
    ((s.visibleEdges filters).map (·.id)).Nodup := by
  have hrows : (s.edgesById.map (·.id)).Nodup :=
    ((List.perm_insertionSort _ s.edge.rows).map _).nodup_iff.mpr s.edge.nodup
  exact (map_filterMap_sublist (fun _ _ h => id_of_visibleEdge h) _).nodup hrows

theorem nodup_incidentEdges (s : Storage β) (filters : EdgeFilters) (direction : TrailDirection)
    (nodeId : Int) : ((s.incidentEdges filters direction nodeId).map (·.id)).Nodup :=
  (List.filter_sublist.map _).nodup (nodup_visibleEdges s filters)

theorem mem_incidentEdges :
    edge ∈ s.incidentEdges filters direction nodeId ↔
      edge ∈ s.visibleEdges filters ∧ edge.touches direction nodeId = true :=
  List.mem_filter

/-- What is fetched comes from the rows, and a fetch that stops early says so. -/
theorem collectEdges_spec (edgeBudget : Option Nat) (accept : Edge → Option Edge)
    (rows edges : List Edge) :
    (∀ edge ∈ (collectEdges edgeBudget accept rows edges).edges,
        edge ∈ edges ∨ edge ∈ rows.filterMap accept) ∧
      ((collectEdges edgeBudget accept rows edges).truncated = false →
        (collectEdges edgeBudget accept rows edges).edges = edges ++ rows.filterMap accept) := by
  induction rows generalizing edges with
  | nil =>
    refine ⟨fun edge hedge => .inl hedge, fun _ => ?_⟩
    simp [collectEdges]
  | cons row rows ih =>
    unfold collectEdges
    cases h : accept row with
    | none =>
      rw [List.filterMap_cons_none h]
      exact ih edges
    | some found =>
      rw [List.filterMap_cons_some h]
      dsimp only
      split
      · refine ⟨?_, fun hfalse => absurd hfalse (by simp)⟩
        intro edge hedge
        rcases List.mem_append.mp hedge with hedge | hedge
        · exact .inl hedge
        · rw [List.mem_singleton.mp hedge]
          exact .inr List.mem_cons_self
      · obtain ⟨hmem, hall⟩ := ih (edges ++ [found])
        refine ⟨?_, ?_⟩
        · intro edge hedge
          rcases hmem edge hedge with hedge | hedge
          · rcases List.mem_append.mp hedge with hedge | hedge
            · exact .inl hedge
            · rw [List.mem_singleton.mp hedge]
              exact .inr List.mem_cons_self
          · exact .inr (List.mem_cons_of_mem _ hedge)
        · intro htruncated
          rw [hall htruncated]
          simp

theorem filterMap_touching_rows (s : Storage β) (filters : EdgeFilters)
    (direction : TrailDirection) (nodeId : Int) :
    (s.edgesById.filter (rowTouches direction nodeId)).filterMap
        (fun row => (s.visibleEdge filters row).filter (·.touches direction nodeId)) =
      s.incidentEdges filters direction nodeId := by
  unfold Storage.incidentEdges Storage.visibleEdges
  rw [List.filter_filterMap, List.filterMap_filter]
  apply List.filterMap_congr
  intro row _
  cases h : s.visibleEdge filters row with
  | none => simp
  | some edge =>
    by_cases htouches : edge.touches direction nodeId = true
    · rw [rowTouches_of_touches h htouches]
      simp
    · rw [Option.filter_some, if_neg htouches]
      simp

theorem mem_incidentEdges_of_mem_fetch {edgeBudget : Option Nat}
    (h : edge ∈ (s.getEdgesForNodeLimited nodeId direction filters edgeBudget).edges) :
    edge ∈ s.incidentEdges filters direction nodeId := by
  unfold Storage.getEdgesForNodeLimited at h
  split at h
  · exact absurd h (by simp)
  · rcases (collectEdges_spec _ _ _ _).1 edge h with h | h
    · exact absurd h (by simp)
    · rwa [filterMap_touching_rows] at h

theorem fetch_eq_incidentEdges {edgeBudget : Option Nat}
    (h : (s.getEdgesForNodeLimited nodeId direction filters edgeBudget).truncated = false) :
    (s.getEdgesForNodeLimited nodeId direction filters edgeBudget).edges =
      s.incidentEdges filters direction nodeId := by
  unfold Storage.getEdgesForNodeLimited at h ⊢
  split at h
  · exact absurd h (by simp)
  · rename_i hbudget
    rw [if_neg hbudget, (collectEdges_spec _ _ _ _).2 h, filterMap_touching_rows]
    rfl

/-- The neighbour of a node along an edge that touches it is the other end. -/
theorem neighbor_of_touches (h : edge.touches direction nodeId = true) :
    ∃ b, neighborForDirection nodeId direction edge = some b ∧
      ((edge.effectiveSource = nodeId ∧ b = edge.effectiveTarget) ∨
        (edge.effectiveTarget = nodeId ∧ b = edge.effectiveSource)) := by
  cases direction with
  | outgoing =>
    have hsource : edge.effectiveSource = nodeId := of_decide_eq_true h
    exact ⟨edge.effectiveTarget, if_pos hsource, .inl ⟨hsource, rfl⟩⟩
  | incoming =>
    have htarget : edge.effectiveTarget = nodeId := of_decide_eq_true h
    exact ⟨edge.effectiveSource, if_pos htarget, .inr ⟨htarget, rfl⟩⟩
  | both =>
    simp only [Edge.touches, Bool.or_eq_true, decide_eq_true_eq] at h
    by_cases hsource : edge.effectiveSource = nodeId
    · exact ⟨edge.effectiveTarget, if_pos hsource, .inl ⟨hsource, rfl⟩⟩
    · have htarget := h.resolve_left hsource
      refine ⟨edge.effectiveSource, ?_, .inr ⟨htarget, rfl⟩⟩
      simp only [neighborForDirection, if_neg hsource, if_pos htarget]

theorem neighborForDirection_of_touches (h : edge.touches direction nodeId = true) {b : Int}
    (hb : neighborForDirection nodeId direction edge = some b) :
    (edge.effectiveSource = nodeId ∧ b = edge.effectiveTarget) ∨
      (edge.effectiveTarget = nodeId ∧ b = edge.effectiveSource) := by
  obtain ⟨c, hc, hends⟩ := neighbor_of_touches h
  obtain rfl : c = b := Option.some.inj (hc.symm.trans hb)
  exact hends

end Fetch

namespace TrailConfig
variable (config : TrailConfig)

def maxDepth : Nat := if config.depth = 0 then u32Max else config.depth

def maxEdges : Nat := max (usizeSaturatingMul config.maxNodes 3) 128

def bfsDirection : TrailDirection :=
  match config.mode with
  | .allReferenced => .outgoing
  | .allReferencing => .incoming
  | _ => config.direction

end TrailConfig

def applyTrailNodeFilter (config : TrailConfig) (result : TrailResult) : TrailResult :=
  if config.nodeFilter.isEmpty then result
  else
    let listed := (result.nodes.filter (config.nodeFilter.contains ·.kind)).map (·.id)
    let allowed := listed ++ [config.rootId] ++ config.targetId.toList
    { result with
      nodes := result.nodes.filter (allowed.contains ·.id)
      edges := result.edges.filter fun edge =>
        allowed.contains edge.effectiveSource && allowed.contains edge.effectiveTarget
      depthMap := result.depthMap.deleteWhere fun entry => !allowed.contains entry.1 }

/-- The end of both searches: only edges between selected nodes stay. -/
def keepSelectedEdges (result : TrailResult) : TrailResult :=
  let selectedIds := result.nodes.map (·.id)
  let isSelected (edge : Edge) : Bool :=
    selectedIds.contains edge.effectiveSource && selectedIds.contains edge.effectiveTarget
  { result with
    edges := result.edges.filter isSelected
    omittedEdgeCount := result.omittedEdgeCount + (result.edges.filter (!isSelected ·)).length }

/-! ## The neighbourhood -/

structure BfsState where
  nodes : List Node
  edges : List Edge
  depthMap : DepthMap
  visited : List Int
  queue : List (Int × Nat)
  truncated : Bool

/-- The loop over the fetched edges of one node. -/
def BfsState.absorb (config : TrailConfig) (currentId : Int) (depth : Nat) :
    List Edge → BfsState → BfsState
  | [], state => state
  | edge :: edges, state =>
    if state.edges.length ≥ config.maxEdges then { state with truncated := true }
    else
      let state := { state with edges := state.edges ++ [edge] }
      match neighborForDirection currentId config.bfsDirection edge with
      | none => absorb config currentId depth edges state
      | some neighborId =>
        if neighborId ∈ state.visited then absorb config currentId depth edges state
        else absorb config currentId depth edges { state with
          visited := state.visited ++ [neighborId]
          depthMap := state.depthMap.upsert (neighborId, depth + 1)
          queue := state.queue ++ [(neighborId, depth + 1)] }

def BfsState.initial (rootId : Int) : BfsState where
  nodes := []
  edges := []
  depthMap := KeyedTable.empty.upsert (rootId, 0)
  visited := [rootId]
  queue := [(rootId, 0)]
  truncated := false

def BfsState.result (state : BfsState) : TrailResult :=
  ⟨state.nodes, state.edges, state.depthMap, state.truncated, 0⟩

namespace Storage
variable {β : Type u} (s : Storage β) (config : TrailConfig)

def trailBfsLoop : Nat → BfsState → Option BfsState
  | 0, _ => none
  | fuel + 1, state =>
    match state.queue with
    | [] => some state
    | (currentId, depth) :: queue =>
      let state := { state with queue }
      if state.nodes.length ≥ config.maxNodes then some { state with truncated := true }
      else
        let state := { state with nodes := state.nodes ++ (s.readNode currentId).toList }
        if depth < config.maxDepth then
          let remainingEdges := config.maxEdges - state.edges.length
          if remainingEdges = 0 then some { state with truncated := true }
          else
            let edgeFetch := s.getEdgesForNodeLimited currentId config.bfsDirection
              config.toEdgeFilters (some remainingEdges)
            let state := { state with truncated := state.truncated || edgeFetch.truncated }
            let state := state.absorb config currentId depth edgeFetch.edges
            if state.truncated then some state else trailBfsLoop fuel state
        else trailBfsLoop fuel state

def getTrailBfs (fuel : Nat) : Option TrailResult :=
  (s.trailBfsLoop config fuel (.initial config.rootId)).map fun state =>
    keepSelectedEdges (applyTrailNodeFilter config state.result)

end Storage

end CodeStory.Graph
