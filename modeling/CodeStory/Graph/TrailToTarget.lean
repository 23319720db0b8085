import CodeStory.Graph.TrailNeighborhood

/-!
# The paths to a target

`get_trail_to_target` searches forward from the root, then backward from the target through what
the root reaches, follows one shortest path greedily, and fills the selection up with other nodes
that lie on short enough walks. The sets of the source are lists here, and the orders it sorts by
are total, so the order a set is read in makes no difference.
-/

set_option autoImplicit false

namespace CodeStory.Graph

universe u

open BreadthFirst (Walk IsDistance Search Discovers discover discover_discovers)
open Tables (u32Max)
open Worklist (push)

structure BfsTraversalOptions extends EdgeFilters where
  maxDepth : Nat
  maxNodes : Nat
  maxEdgesPerNode : Nat

namespace Storage
variable {β : Type u} (s : Storage β)

/-- The loop over the fetched edges of one node; `allow` is what the caller asks of a neighbour
and its distance. -/
def relax (allow : Int → Nat → Bool) (direction : TrailDirection) (currentId : Int)
    (depth : Nat) : List Edge → DepthMap × List (Int × Nat) → DepthMap × List (Int × Nat)
  | [], state => state
  | edge :: edges, (dist, queue) =>
    match neighborForDirection currentId direction edge with
    | none => relax allow direction currentId depth edges (dist, queue)
    | some neighborId =>
      let nextDepth := u32SaturatingAdd depth 1
      if allow neighborId nextDepth && !dist.keys.contains neighborId then
        relax allow direction currentId depth edges
          (dist.insertNew (neighborId, nextDepth), queue ++ [(neighborId, nextDepth)])
      else relax allow direction currentId depth edges (dist, queue)

/-- The loop of both searches for distances. -/
def distancesLoop (allow : Int → Nat → Bool) (direction : TrailDirection)
    (options : BfsTraversalOptions) :
    Nat → DepthMap → List (Int × Nat) → Bool → Option (DepthMap × Bool)
  | 0, _, _, _ => none
  | _ + 1, dist, [], truncated => some (dist, truncated)
  | fuel + 1, dist, (currentId, depth) :: queue, truncated =>
    if dist.size ≥ options.maxNodes then some (dist, true)
    else if depth ≥ options.maxDepth then
      distancesLoop allow direction options fuel dist queue truncated
    else
      let edgeFetch := s.getEdgesForNodeLimited currentId direction options.toEdgeFilters
        (some options.maxEdgesPerNode)
      let found := relax allow direction currentId depth edgeFetch.edges (dist, queue)
      distancesLoop allow direction options fuel found.1 found.2
        (truncated || edgeFetch.truncated)

def bfsDistances (start : Int) (direction : TrailDirection) (options : BfsTraversalOptions)
    (fuel : Nat) : Option (DepthMap × Bool) :=
  s.distancesLoop (fun _ _ => true) direction options fuel
    (KeyedTable.empty.upsert (start, 0)) [(start, 0)] false

/-- A neighbour the root reaches, unless the walk through it would be too long. -/
def throughRoot (distFromRoot : DepthMap) (options : BfsTraversalOptions) (neighborId : Int)
    (nextDepth : Nat) : Bool :=
  (distFromRoot.get neighborId).any fun distRoot =>
    options.maxDepth = u32Max || distRoot + nextDepth ≤ options.maxDepth

def bfsDistancesToTargetThroughRootReachable (targetId : Int) (distFromRoot : DepthMap)
    (options : BfsTraversalOptions) (fuel : Nat) : Option (DepthMap × Bool) :=
  s.distancesLoop (throughRoot distFromRoot options) .incoming options fuel
    (KeyedTable.empty.upsert (targetId, 0)) [(targetId, 0)] false

end Storage

namespace TrailConfig
variable (config : TrailConfig)

def bfsCap : Nat :=
  min (max (usizeSaturatingMul config.maxNodes 4) config.maxNodes) 100000

def traversalOptions : BfsTraversalOptions where
  toEdgeFilters := config.toEdgeFilters
  maxDepth := config.maxDepth
  maxNodes := config.bfsCap
  maxEdgesPerNode := config.maxEdges

end TrailConfig

/-- The two searches a path is put together from. -/
structure PathSearch where
  distFromRoot : DepthMap
  distToTarget : DepthMap
  maxDepth : Nat
  rootId : Int
  targetId : Int

namespace PathSearch
variable (search : PathSearch)

def fits (length : Nat) : Bool := search.maxDepth = u32Max || length ≤ search.maxDepth

def included : List Int :=
  let short := search.distFromRoot.rows.filter fun entry =>
    (search.distToTarget.get entry.1).any fun dTo => search.fits (entry.2 + dTo)
  push (push (short.map (·.1)) search.rootId) search.targetId

/-- The key of an edge's far end, if the path may go on there. -/
def candidate (current : Int) (dCur : Nat) (edge : Edge) : Option (Nat × Int) :=
  if edge.effectiveSource ≠ current then none
  else
    let next := edge.effectiveTarget
    match search.distFromRoot.get next, search.distToTarget.get next with
    | some dNext, some dTo =>
      if dNext = u32SaturatingAdd dCur 1 && search.fits (dCur + 1 + dTo) &&
          search.included.contains next then some (dTo, next)
      else none
    | _, _ => none

def keyBefore (a b : Nat × Int) : Bool := a.1 < b.1 || (a.1 = b.1 && a.2 < b.2)

/-- The loop over the edges of the current node: the least key wins. -/
def bestNext (current : Int) (dCur : Nat) : List Edge → Option (Nat × Int) → Option (Nat × Int)
  | [], best => best
  | edge :: edges, best =>
    match search.candidate current dCur edge with
    | none => bestNext current dCur edges best
    | some key =>
      if best.all (keyBefore key ·) then bestNext current dCur edges (some key)
      else bestNext current dCur edges best

/-- Ascending by the length of the walk through a node, its distance and its id. -/
def otherBefore (a b : Int) : Bool :=
  let da := (search.distFromRoot.get a).getD u32Max
  let db := (search.distFromRoot.get b).getD u32Max
  let ta := u32SaturatingAdd da ((search.distToTarget.get a).getD u32Max)
  let tb := u32SaturatingAdd db ((search.distToTarget.get b).getD u32Max)
  ta < tb || (ta = tb && (da < db || (da = db && a ≤ b)))

def rootBefore (a b : Int) : Bool :=
  let da := (search.distFromRoot.get a).getD u32Max
  let db := (search.distFromRoot.get b).getD u32Max
  da < db || (da = db && a ≤ b)

def fillSelected (maxNodes : Nat) : List Int → List Int → List Int
  | [], selected => selected
  | id :: other, selected =>
    if selected.length ≥ maxNodes then selected
    else fillSelected maxNodes other (push selected id)

def selected (maxNodes : Nat) (pathNodes : List Int) : List Int :=
  fillSelected maxNodes (search.included.insertionSort (search.otherBefore · ·))
    (push (pathNodes.foldl push []) search.targetId)

/-- Whether an edge of a selected node belongs to the result. -/
def keepsEdge (selected : List Int) (id : Int) (dRoot : Nat) (edge : Edge) : Bool :=
  edge.effectiveSource = id && selected.contains edge.effectiveTarget &&
    (search.distToTarget.get edge.effectiveTarget).any fun dTo => search.fits (dRoot + 1 + dTo)

/-- An edge is taken unless its id has been. -/
def addEdge (edges : List Edge) (edge : Edge) : List Edge :=
  if edges.any (·.id = edge.id) then edges else edges ++ [edge]

end PathSearch

namespace Storage
variable {β : Type u} (s : Storage β) (config : TrailConfig)

def outgoingEdges (id : Int) : EdgeFetchResult :=
  s.getEdgesForNodeLimited id .outgoing config.toEdgeFilters (some config.maxEdges)

/-- The loop that follows a path from the current node; the nodes so far, and whether a fetch
was cut short. -/
def reconstructPath (search : PathSearch) :
    Nat → Int → List Int → Bool → Option (List Int × Bool)
  | 0, _, _, _ => none
  | fuel + 1, current, pathNodes, truncated =>
    if current = search.targetId then some (pathNodes, truncated)
    else
      match search.distFromRoot.get current with
      | none => some (pathNodes, truncated)
      | some dCur =>
        let edgeFetch := s.outgoingEdges config current
        let truncated := truncated || edgeFetch.truncated
        match search.bestNext current dCur edgeFetch.edges none with
        | none => some (pathNodes, truncated)
        | some (_, next) => reconstructPath search fuel next (pathNodes ++ [next]) truncated

/-- The loop over the selected nodes that gathers their edges. -/
def selectEdges (search : PathSearch) (selected : List Int) :
    List Int → List Edge → Bool → List Edge × Bool
  | [], edges, truncated => (edges, truncated)
  | id :: ids, edges, truncated =>
    match search.distFromRoot.get id with
    | none => selectEdges search selected ids edges truncated
    | some dRoot =>
      let edgeFetch := s.outgoingEdges config id
      selectEdges search selected ids
        ((edgeFetch.edges.filter (search.keepsEdge selected id dRoot)).foldl
          PathSearch.addEdge edges)
        (truncated || edgeFetch.truncated)

/-- The result when the search from the root has not met the target. -/
def unreachedResult (targetId : Int) (truncated : Bool) : TrailResult :=
  let root := s.readNode config.rootId
  let target := if targetId ≠ config.rootId then s.readNode targetId else none
  { nodes := root.toList ++ target.toList
    edges := []
    depthMap := if root.isSome then KeyedTable.empty.upsert (config.rootId, 0) else .empty
    truncated := truncated
    omittedEdgeCount := 0 }

/-- What the source does with the path it has followed. -/
def pathResult (search : PathSearch) (pathNodes : List Int) (truncated : Bool) : TrailResult :=
  let selected := search.selected config.maxNodes pathNodes
  let truncated := truncated || search.included.length > config.maxNodes ||
    selected.length < search.included.length
  let sorted := selected.insertionSort (search.rootBefore · ·)
  let gathered := s.selectEdges config search selected sorted [] truncated
  { nodes := sorted.filterMap s.readNode
    edges := gathered.1.insertionSort fun a b => a.id ≤ b.id
    depthMap := KeyedTable.empty.upsertAll
      (sorted.map fun id => (id, (search.distFromRoot.get id).getD 0))
    truncated := gathered.2
    omittedEdgeCount := 0 }

def getTrailToTarget (fuel : Nat) : Option (Except String TrailResult) :=
  match config.targetId with
  | none => some (.error "TrailMode::ToTargetSymbol requires TrailConfig.target_id")
  | some targetId =>
    match s.bfsDistances config.rootId .outgoing config.traversalOptions fuel with
    | none => none
    | some (distFromRoot, truncatedFromRoot) =>
      if !distFromRoot.keys.contains targetId then
        some (.ok (applyTrailNodeFilter config
          (s.unreachedResult config targetId truncatedFromRoot)))
      else
        match s.bfsDistancesToTargetThroughRootReachable targetId distFromRoot
            config.traversalOptions fuel with
        | none => none
        | some (distToTarget, truncatedToTarget) =>
          let search : PathSearch :=
            ⟨distFromRoot, distToTarget, config.maxDepth, config.rootId, targetId⟩
          match s.reconstructPath config search fuel config.rootId [config.rootId] false with
          | none => none
          | some (pathNodes, pathTruncated) =>
            let truncated := truncatedFromRoot || truncatedToTarget || pathTruncated
            some (.ok (keepSelectedEdges
              (applyTrailNodeFilter config (s.pathResult config search pathNodes truncated))))

def getTrail (fuel : Nat) : Option (Except String TrailResult) :=
  match config.mode with
  | .toTargetSymbol => s.getTrailToTarget config fuel
  | _ => (s.getTrailBfs config fuel).map .ok

end Storage

end CodeStory.Graph
