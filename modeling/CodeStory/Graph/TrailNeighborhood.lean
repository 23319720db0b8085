import CodeStory.Graph.Trail
import CodeStory.Lib.BreadthFirst
import Mathlib.Data.List.Pairwise

/-!
# The neighbourhood of a root

`get_trail_bfs` is a breadth-first search over the visible edges. When it reports no truncation
it has found every node within the depth limit, with its distance, and every visible edge of the
nodes it expanded. An edge is listed once for each expanded node it touches: when edges are
followed both ways, an edge between two expanded nodes comes twice.
-/

set_option autoImplicit false

namespace CodeStory.Graph

universe u

open BreadthFirst (Walk IsDistance Search Discovers discover discover_discovers)

variable {β : Type u}

namespace Storage
variable (s : Storage β) (config : TrailConfig)

/-- One step of the search: along a visible edge that touches the node in the direction of the
search, to the neighbour the edge has there. -/
def TrailStep (a b : Int) : Prop :=
  ∃ edge ∈ s.visibleEdges config.toEdgeFilters,
    edge.touches config.bfsDirection a = true ∧
      neighborForDirection a config.bfsDirection edge = some b

/-- A step within the depth limit. -/
def TrailAllowed (level : Nat) (a b : Int) : Prop :=
  level < config.maxDepth ∧ s.TrailStep config a b

/-- The rows the edges refer to exist. -/
def EndpointsStored : Prop :=
  ∀ row ∈ s.edge.rows, ∀ id ∈ row.endpoints, ∃ node, s.node.lookup id = some node

/-- Everything a search can come across. -/
def trailPlaces : List Int := config.rootId :: s.edge.rows.flatMap Edge.endpoints

end Storage

section Places
variable {s : Storage β} {config : TrailConfig}

theorem endpoint_mem_trailPlaces {edge : Edge}
    (h : edge ∈ s.visibleEdges config.toEdgeFilters) :
    edge.effectiveSource ∈ s.trailPlaces config ∧ edge.effectiveTarget ∈ s.trailPlaces config := by
  obtain ⟨row, hrow, hsource, htarget⟩ := endpoints_of_mem_visibleEdges h
  have hplaces : ∀ id ∈ row.endpoints, id ∈ s.trailPlaces config := by
    intro id hid
    exact List.mem_cons_of_mem _ (List.mem_flatMap.mpr ⟨row, hrow, hid⟩)
  exact ⟨hplaces _ hsource, hplaces _ htarget⟩

theorem neighbor_mem_trailPlaces {edge : Edge} {direction : TrailDirection} {a b : Int}
    (h : edge ∈ s.visibleEdges config.toEdgeFilters) (htouches : edge.touches direction a = true)
    (hb : neighborForDirection a direction edge = some b) : b ∈ s.trailPlaces config := by
  obtain ⟨hsource, htarget⟩ := endpoint_mem_trailPlaces h
  rcases neighborForDirection_of_touches htouches hb with ⟨-, rfl⟩ | ⟨-, rfl⟩
  · exact htarget
  · exact hsource

theorem readNode_eq_some {id : Int} {row : Node} (h : s.node.lookup id = some row) :
    ∃ node, s.readNode id = some node := by
  unfold Storage.readNode Storage.getNode
  cases s.nodeCache.lookup id with
  | none => exact ⟨row, by simp [h]⟩
  | some node => exact ⟨node, rfl⟩

theorem id_of_readNode {id : Int} {node : Node} (h : s.readNode id = some node) :
    node.id = id := by
  unfold Storage.readNode Storage.getNode at h
  cases hcache : s.nodeCache.lookup id with
  | some cached =>
    simp only [hcache] at h
    exact Option.some.inj h ▸ KeyedTable.key_of_lookup hcache
  | none =>
    simp only [hcache] at h
    cases hrow : s.node.lookup id with
    | none => simp [hrow] at h
    | some row =>
      simp only [hrow] at h
      exact Option.some.inj h ▸ KeyedTable.key_of_lookup hrow

theorem readNode_of_mem_trailPlaces (hrows : s.EndpointsStored)
    (hroot : ∃ node, s.node.lookup config.rootId = some node) {id : Int}
    (h : id ∈ s.trailPlaces config) : ∃ node, s.readNode id = some node := by
  rcases List.mem_cons.mp h with rfl | h
  · obtain ⟨row, hrow⟩ := hroot
    exact readNode_eq_some hrow
  · obtain ⟨row, hrow, hid⟩ := List.mem_flatMap.mp h
    obtain ⟨node, hnode⟩ := hrows row hrow id hid
    exact readNode_eq_some hnode

end Places

/-! ## One turn -/

theorem get_eq_some_iff {depths : DepthMap} {id : Int} {n : Nat} :
    depths.get id = some n ↔ (id, n) ∈ depths.rows := by
  unfold DepthMap.get
  rw [Option.map_eq_some_iff]
  constructor
  · rintro ⟨⟨other, m⟩, hlookup, rfl⟩
    obtain ⟨hmem, rfl⟩ := KeyedTable.lookup_eq_some_iff.mp hlookup
    exact hmem
  · intro hmem
    exact ⟨(id, n), KeyedTable.lookup_eq_some_iff.mpr ⟨hmem, rfl⟩, rfl⟩

theorem upsert_fresh {depths : DepthMap} {id : Int} {level : Nat}
    (h : id ∉ depths.rows.map (·.1)) :
    (depths.upsert (id, level)).rows = depths.rows ++ [(id, level)] := by
  unfold KeyedTable.upsert
  dsimp only
  rw [List.filter_eq_self.mpr]
  intro entry hentry
  refine decide_eq_true ?_
  intro heq
  exact h (List.mem_map.mpr ⟨entry, hentry, heq⟩)

/-- Absorbing edges without truncation adds them all, and what they newly lead to. -/
theorem absorb_spec {config : TrailConfig} {currentId : Int} {depth : Nat} (edges : List Edge)
    (state : BfsState) (hvisited : state.depthMap.rows.map (·.1) = state.visited)
    (h : (state.absorb config currentId depth edges).truncated = false) :
    let found := discover (depth + 1)
      (edges.filterMap (neighborForDirection currentId config.bfsDirection)) state.visited
    let next := state.absorb config currentId depth edges
    state.truncated = false ∧ next.nodes = state.nodes ∧ next.edges = state.edges ++ edges ∧
      next.depthMap.rows = state.depthMap.rows ++ found ∧
      next.visited = state.visited ++ found.map (·.1) ∧ next.queue = state.queue ++ found := by
  induction edges generalizing state with
  | nil =>
    refine ⟨h, rfl, ?_, ?_, ?_, ?_⟩ <;> simp [BfsState.absorb, discover]
  | cons edge edges ih =>
    unfold BfsState.absorb at h ⊢
    split at h
    · exact absurd h (by simp)
    · rename_i hroom
      rw [if_neg hroom]
      dsimp only at h ⊢
      cases hneighbor : neighborForDirection currentId config.bfsDirection edge with
      | none =>
        rw [hneighbor] at h
        dsimp only at h ⊢
        rw [List.filterMap_cons_none hneighbor]
        obtain ⟨htruncated, hnodes, hedges, hrest⟩ :=
          ih { state with edges := state.edges ++ [edge] } hvisited h
        exact ⟨htruncated, hnodes, by rw [hedges]; simp, hrest⟩
      | some neighborId =>
        rw [hneighbor] at h
        dsimp only at h ⊢
        rw [List.filterMap_cons_some hneighbor]
        by_cases hseen : neighborId ∈ state.visited
        · rw [if_pos hseen] at h ⊢
          simp only [discover, if_pos hseen]
          obtain ⟨htruncated, hnodes, hedges, hrest⟩ :=
          ih { state with edges := state.edges ++ [edge] } hvisited h
          exact ⟨htruncated, hnodes, by rw [hedges]; simp, hrest⟩
        · rw [if_neg hseen] at h ⊢
          simp only [discover, if_neg hseen]
          have hfresh : neighborId ∉ state.depthMap.rows.map (·.1) := by rwa [hvisited]
          have hrows := @upsert_fresh _ _ (depth + 1) hfresh
          obtain ⟨htruncated, hnodes, hedges, hdepths, hvisited', hqueue⟩ :=
            ih _ (by rw [hrows, List.map_append, hvisited]; rfl) h
          refine ⟨htruncated, hnodes, by rw [hedges]; simp, ?_, ?_, ?_⟩
          · rw [hdepths, hrows]
            simp
          · rw [hvisited']
            simp
          · rw [hqueue]
            simp

/-! ## The loop -/

section Loop
variable {s : Storage β} {config : TrailConfig} {state : BfsState} {taken : List (Int × Nat)}

/-- What one turn leads to. -/
theorem mem_neighbors_iff {level : Nat} (hlevel : level < config.maxDepth) {a b : Int} :
    b ∈ (s.incidentEdges config.toEdgeFilters config.bfsDirection a).filterMap
        (neighborForDirection a config.bfsDirection) ↔ s.TrailAllowed config level a b := by
  rw [List.mem_filterMap]
  constructor
  · rintro ⟨edge, hedge, hb⟩
    obtain ⟨hvisible, htouches⟩ := mem_incidentEdges.mp hedge
    exact ⟨hlevel, edge, hvisible, htouches, hb⟩
  · rintro ⟨-, edge, hvisible, htouches, hb⟩
    exact ⟨edge, mem_incidentEdges.mpr ⟨hvisible, htouches⟩, hb⟩

/-- The edges the search lists when it has taken some places off its queue. -/
def expandedEdges (s : Storage β) (config : TrailConfig) (taken : List (Int × Nat)) : List Edge :=
  (taken.filter fun p => p.2 < config.maxDepth).flatMap fun p =>
    s.incidentEdges config.toEdgeFilters config.bfsDirection p.1

/-- The state of a search that has not been truncated, with what it has taken off its queue. -/
structure Explores (s : Storage β) (config : TrailConfig) (state : BfsState)
    (taken : List (Int × Nat)) : Prop where
  search : Search (s.TrailAllowed config) config.rootId taken state.queue
  depths : state.depthMap.rows = taken ++ state.queue
  visited : state.visited = (taken ++ state.queue).map (·.1)
  nodes : state.nodes.map (·.id) = taken.map (·.1)
  edges : state.edges = expandedEdges s config taken
  complete : state.truncated = false

theorem explores_initial : Explores s config (.initial config.rootId) [] where
  search := .start
  depths := rfl
  visited := rfl
  nodes := rfl
  edges := rfl
  complete := rfl

theorem length_le_trailPlaces (h : Explores s config state taken) :
    (taken ++ state.queue).length ≤ (s.trailPlaces config).length := by
  apply h.search.length_le List.mem_cons_self
  rintro level a b ⟨-, edge, hvisible, htouches, hb⟩
  exact neighbor_mem_trailPlaces hvisible htouches hb

variable (hread : ∀ id ∈ s.trailPlaces config, ∃ node, s.readNode id = some node)
include hread

theorem Explores.read_nodes (h : Explores s config state taken) {currentId : Int} {depth : Nat}
    {queue : List (Int × Nat)} (hqueue : state.queue = (currentId, depth) :: queue) :
    (state.nodes ++ (s.readNode currentId).toList).map (·.id) =
      (taken ++ [(currentId, depth)]).map (·.1) := by
  have hplace : currentId ∈ s.trailPlaces config := by
    have hwalk := h.search.walked (currentId, depth) (by simp [hqueue])
    cases hwalk with
    | nil => exact List.mem_cons_self
    | snoc _ hstep =>
      obtain ⟨-, edge, hvisible, htouches, hb⟩ := hstep
      exact neighbor_mem_trailPlaces hvisible htouches hb
  obtain ⟨node, hnode⟩ := hread currentId hplace
  rw [hnode, List.map_append, h.nodes, List.map_append]
  simp [id_of_readNode hnode]

/-- A node at the depth limit is taken and not expanded. -/
theorem Explores.skip (h : Explores s config state taken) {currentId : Int} {depth : Nat}
    {queue : List (Int × Nat)} (hqueue : state.queue = (currentId, depth) :: queue)
    (hdepth : ¬ depth < config.maxDepth) :
    Explores s config
      { state with queue, nodes := state.nodes ++ (s.readNode currentId).toList }
      (taken ++ [(currentId, depth)]) where
  search := by
    have hsearch := h.search
    rw [hqueue] at hsearch
    exact hsearch.skip fun b hb => hdepth hb.1
  depths := by
    rw [h.depths, hqueue]
    simp
  visited := by
    rw [h.visited, hqueue]
    simp
  nodes := h.read_nodes hread hqueue
  edges := by
    rw [h.edges]
    simp [expandedEdges, List.filter_append, hdepth]
  complete := h.complete

/-- A node below the limit is expanded; if nothing stops the search, all its edges are taken. -/
theorem Explores.expand (h : Explores s config state taken) {currentId : Int} {depth : Nat}
    {queue : List (Int × Nat)} (hqueue : state.queue = (currentId, depth) :: queue)
    (hdepth : depth < config.maxDepth) {edgeBudget : Option Nat} {edgeFetch : EdgeFetchResult}
    (hfetch : edgeFetch = s.getEdgesForNodeLimited currentId config.bfsDirection
      config.toEdgeFilters edgeBudget)
    {next : BfsState}
    (hnext : next = BfsState.absorb config currentId depth edgeFetch.edges
      { state with
        queue
        nodes := state.nodes ++ (s.readNode currentId).toList
        truncated := state.truncated || edgeFetch.truncated })
    (hcomplete : next.truncated = false) :
    Explores s config next (taken ++ [(currentId, depth)]) := by
  have hkeys : state.depthMap.rows.map (·.1) = state.visited := by rw [h.depths, h.visited]
  rw [hnext] at hcomplete
  obtain ⟨htruncated, hnodes, hedges, hdepths, hvisited, hqueue'⟩ :=
    absorb_spec edgeFetch.edges
      { state with
        queue
        nodes := state.nodes ++ (s.readNode currentId).toList
        truncated := state.truncated || edgeFetch.truncated } hkeys hcomplete
  simp only [Bool.or_eq_false_iff] at htruncated
  have hall : edgeFetch.edges =
      s.incidentEdges config.toEdgeFilters config.bfsDirection currentId := by
    rw [hfetch]
    exact fetch_eq_incidentEdges (hfetch ▸ htruncated.2)
  rw [← hnext] at hnodes hedges hdepths hvisited hqueue' hcomplete
  dsimp only at hnodes hedges hdepths hvisited hqueue'
  have hfound := discover_discovers (depth + 1)
    (edgeFetch.edges.filterMap (neighborForDirection currentId config.bfsDirection)) state.visited
  generalize discover (depth + 1)
    (edgeFetch.edges.filterMap (neighborForDirection currentId config.bfsDirection))
    state.visited = found at hfound hdepths hvisited hqueue'
  rw [hall] at hfound hedges
  rw [h.visited, hqueue] at hfound hvisited
  have hsearch := h.search
  rw [hqueue] at hsearch
  refine ⟨?_, ?_, ?_, ?_, ?_, hcomplete⟩
  · rw [hqueue']
    exact hsearch.take (hfound.congr fun b => mem_neighbors_iff hdepth)
  · rw [hdepths, hqueue', h.depths, hqueue]
    simp
  · rw [hvisited, hqueue']
    simp
  · rw [hnodes]
    exact h.read_nodes hread hqueue
  · rw [hedges, h.edges]
    simp [expandedEdges, List.filter_append, hdepth]

/-- The loop ends, and unless it says it was truncated it has explored everything. -/
theorem trailBfsLoop_spec (fuel : Nat) (h : Explores s config state taken)
    (hfuel : (s.trailPlaces config).length < fuel + taken.length) :
    ∃ final, s.trailBfsLoop config fuel state = some final ∧
      (final.truncated = false →
        ∃ taken, Explores s config final taken ∧ final.queue = []) := by
  induction fuel generalizing state taken with
  | zero =>
    have hlength := length_le_trailPlaces h
    rw [List.length_append] at hlength
    omega
  | succ fuel ih =>
    unfold Storage.trailBfsLoop
    cases hqueue : state.queue with
    | nil => exact ⟨state, rfl, fun _ => ⟨taken, h, hqueue⟩⟩
    | cons place queue =>
      obtain ⟨currentId, depth⟩ := place
      have hfuel' : (s.trailPlaces config).length <
          fuel + (taken ++ [(currentId, depth)]).length := by
        rw [List.length_append, List.length_singleton]
        omega
      dsimp only
      split
      · exact ⟨_, rfl, fun hfalse => absurd hfalse (by simp)⟩
      · split
        · rename_i hdepth
          split
          · exact ⟨_, rfl, fun hfalse => absurd hfalse (by simp)⟩
          · split
            · rename_i htruncated
              refine ⟨_, rfl, ?_⟩
              intro hfalse
              rw [htruncated] at hfalse
              exact absurd hfalse (by simp)
            · rename_i hcomplete
              refine ih ?_ hfuel'
              exact h.expand hread hqueue hdepth rfl rfl (Bool.eq_false_iff.mpr hcomplete)
        · rename_i hdepth
          exact ih (h.skip hread hqueue hdepth) hfuel'

end Loop

/-! ## The result -/

section Result
variable (s : Storage β) (config : TrailConfig)

/-- What a trail that was not truncated should be. -/
structure NeighborhoodCorrect (result : TrailResult) : Prop where
  nodes_exact : ∀ id, id ∈ result.nodes.map (·.id) ↔
    ∃ n ≤ config.maxDepth, Walk (fun _ => s.TrailStep config) config.rootId n id
  depths_exact : ∀ id n, result.depthMap.get id = some n ↔
    n ≤ config.maxDepth ∧ IsDistance (fun _ => s.TrailStep config) config.rootId id n
  edges_exact : ∀ edge, edge ∈ result.edges ↔ edge ∈ s.visibleEdges config.toEdgeFilters ∧
    ∃ id, edge.touches config.bfsDirection id = true ∧
      ∃ n < config.maxDepth, IsDistance (fun _ => s.TrailStep config) config.rootId id n
  edges_once : (result.edges.map (·.id)).Nodup

/-- Edges are followed both ways, and one joins two different nodes that are both expanded. -/
def SharesEdge : Prop :=
  config.bfsDirection = .both ∧ ∃ edge ∈ s.visibleEdges config.toEdgeFilters,
    edge.effectiveSource ≠ edge.effectiveTarget ∧
      (∃ n < config.maxDepth,
        Walk (fun _ => s.TrailStep config) config.rootId n edge.effectiveSource) ∧
      ∃ n < config.maxDepth,
        Walk (fun _ => s.TrailStep config) config.rootId n edge.effectiveTarget

variable {s config} {taken : List (Int × Nat)}

theorem mem_taken_iff (h : Search (s.TrailAllowed config) config.rootId taken []) {id : Int}
    {n : Nat} : (id, n) ∈ taken ↔
      n ≤ config.maxDepth ∧ IsDistance (fun _ => s.TrailStep config) config.rootId id n := by
  rw [h.mem_iff_isDistance]
  · exact BreadthFirst.isDistance_limited_iff
  · rintro m n a b hmn ⟨hn, hstep⟩
    exact ⟨Nat.lt_of_le_of_lt hmn hn, hstep⟩

theorem mem_expandedEdges (h : Search (s.TrailAllowed config) config.rootId taken [])
    {edge : Edge} : edge ∈ expandedEdges s config taken ↔
      edge ∈ s.visibleEdges config.toEdgeFilters ∧
        ∃ id, edge.touches config.bfsDirection id = true ∧
          ∃ n < config.maxDepth, IsDistance (fun _ => s.TrailStep config) config.rootId id n := by
  unfold expandedEdges
  simp only [List.mem_flatMap, List.mem_filter, decide_eq_true_eq, mem_incidentEdges]
  constructor
  · rintro ⟨⟨id, n⟩, ⟨hmem, hn⟩, hvisible, htouches⟩
    exact ⟨hvisible, id, htouches, n, hn, ((mem_taken_iff h).mp hmem).2⟩
  · rintro ⟨hvisible, id, htouches, n, hn, hdistance⟩
    exact ⟨(id, n), ⟨(mem_taken_iff h).mpr ⟨Nat.le_of_lt hn, hdistance⟩, hn⟩, hvisible, htouches⟩

/-- Both ends of an edge of an expanded node have been found. -/
theorem endpoints_taken (h : Search (s.TrailAllowed config) config.rootId taken []) {edge : Edge}
    (hedge : edge ∈ expandedEdges s config taken) :
    edge.effectiveSource ∈ taken.map (·.1) ∧ edge.effectiveTarget ∈ taken.map (·.1) := by
  obtain ⟨hvisible, id, htouches, n, hn, hdistance⟩ := (mem_expandedEdges h).mp hedge
  have hmem : (id, n) ∈ taken := (mem_taken_iff h).mpr ⟨Nat.le_of_lt hn, hdistance⟩
  have hid : id ∈ taken.map (·.1) := List.mem_map.mpr ⟨_, hmem, rfl⟩
  obtain ⟨b, hb, hends⟩ := neighbor_of_touches htouches
  obtain ⟨m, hm, -⟩ := h.closed (id, n) hmem b ⟨hn, edge, hvisible, htouches, hb⟩
  rw [List.append_nil] at hm
  have hother : b ∈ taken.map (·.1) := List.mem_map.mpr ⟨_, hm, rfl⟩
  rcases hends with ⟨rfl, rfl⟩ | ⟨rfl, rfl⟩
  · exact ⟨hid, hother⟩
  · exact ⟨hother, hid⟩

/-- An edge that touches two different nodes is followed both ways and joins them. -/
theorem ends_of_touches_two {edge : Edge} {direction : TrailDirection} {a b : Int} (hne : a ≠ b)
    (ha : edge.touches direction a = true) (hb : edge.touches direction b = true) :
    direction = .both ∧ ((edge.effectiveSource = a ∧ edge.effectiveTarget = b) ∨
      (edge.effectiveSource = b ∧ edge.effectiveTarget = a)) := by
  cases direction with
  | outgoing | incoming =>
    exact absurd ((of_decide_eq_true ha).symm.trans (of_decide_eq_true hb)) hne
  | both =>
    refine ⟨rfl, ?_⟩
    simp only [Edge.touches, Bool.or_eq_true, decide_eq_true_eq] at ha hb
    rcases ha with ha | ha <;> rcases hb with hb | hb
    · exact absurd (ha.symm.trans hb) hne
    · exact .inl ⟨ha, hb⟩
    · exact .inr ⟨hb, ha⟩
    · exact absurd (ha.symm.trans hb) hne

theorem walk_of_mem_taken (h : Search (s.TrailAllowed config) config.rootId taken []) {id : Int}
    {n : Nat} (hmem : (id, n) ∈ taken) :
    Walk (fun _ => s.TrailStep config) config.rootId n id :=
  ((mem_taken_iff h).mp hmem).2.1

theorem exists_mem_taken (h : Search (s.TrailAllowed config) config.rootId taken []) {id : Int}
    (hwalk : ∃ n < config.maxDepth, Walk (fun _ => s.TrailStep config) config.rootId n id) :
    ∃ n, (id, n) ∈ taken.filter fun p => p.2 < config.maxDepth := by
  obtain ⟨n, hn, hwalk⟩ := hwalk
  obtain ⟨m, hm, hdistance⟩ := hwalk.exists_isDistance
  have hlt : m < config.maxDepth := Nat.lt_of_le_of_lt hm hn
  refine ⟨m, List.mem_filter.mpr ⟨?_, decide_eq_true hlt⟩⟩
  exact (mem_taken_iff h).mpr ⟨Nat.le_of_lt hlt, hdistance⟩

/-- No edge is listed twice exactly when no edge is shared. -/
theorem nodup_expandedEdges_iff (h : Search (s.TrailAllowed config) config.rootId taken []) :
    ((expandedEdges s config taken).map (·.id)).Nodup ↔ ¬ SharesEdge s config := by
  unfold expandedEdges
  rw [List.map_flatMap, List.nodup_flatMap]
  constructor
  · rintro ⟨-, hpairwise⟩ ⟨hboth, edge, hvisible, hne, hsource, htarget⟩
    obtain ⟨m, hm⟩ := exists_mem_taken h hsource
    obtain ⟨n, hn⟩ := exists_mem_taken h htarget
    have : Std.Symm (Function.onFun List.Disjoint fun p : Int × Nat =>
        (s.incidentEdges config.toEdgeFilters config.bfsDirection p.1).map (·.id)) :=
      ⟨fun _ _ hdisjoint => List.Disjoint.symm hdisjoint⟩
    have hdisjoint := hpairwise.forall hm hn fun heq => hne (congrArg Prod.fst heq)
    have hincident : ∀ id, edge.effectiveSource = id ∨ edge.effectiveTarget = id →
        edge.id ∈ (s.incidentEdges config.toEdgeFilters config.bfsDirection id).map (·.id) := by
      intro id hid
      refine List.mem_map.mpr ⟨edge, mem_incidentEdges.mpr ⟨hvisible, ?_⟩, rfl⟩
      rw [hboth]
      simpa [Edge.touches] using hid
    exact hdisjoint (hincident _ (.inl rfl)) (hincident _ (.inr rfl))
  · intro hshares
    refine ⟨fun p _ => nodup_incidentEdges s config.toEdgeFilters config.bfsDirection p.1, ?_⟩
    have honce : (taken.filter fun p => p.2 < config.maxDepth).Pairwise fun p q => p.1 ≠ q.1 := by
      have hkeys := h.once
      rw [List.append_nil] at hkeys
      exact (List.pairwise_map.mp hkeys).filter _
    refine honce.imp_of_mem ?_
    rintro ⟨a, m⟩ ⟨b, n⟩ hm hn hne edgeId ha hb
    obtain ⟨edge, hedge, rfl⟩ := List.mem_map.mp ha
    obtain ⟨other, hother, hid⟩ := List.mem_map.mp hb
    obtain ⟨hvisible, htoucha⟩ := mem_incidentEdges.mp hedge
    obtain ⟨hvisible', htouchb⟩ := mem_incidentEdges.mp hother
    obtain rfl : other = edge :=
      List.inj_on_of_nodup_map (nodup_visibleEdges s _) hvisible' hvisible hid
    obtain ⟨hm, hm'⟩ := List.mem_filter.mp hm
    obtain ⟨hn, hn'⟩ := List.mem_filter.mp hn
    have hwalka : ∃ n < config.maxDepth,
        Walk (fun _ => s.TrailStep config) config.rootId n a :=
      ⟨m, of_decide_eq_true hm', walk_of_mem_taken h hm⟩
    have hwalkb : ∃ n < config.maxDepth,
        Walk (fun _ => s.TrailStep config) config.rootId n b :=
      ⟨n, of_decide_eq_true hn', walk_of_mem_taken h hn⟩
    obtain ⟨hboth, hends⟩ := ends_of_touches_two hne htoucha htouchb
    refine hshares ⟨hboth, other, hvisible', ?_⟩
    rcases hends with ⟨hsource, htarget⟩ | ⟨hsource, htarget⟩
    · rw [hsource, htarget]
      exact ⟨hne, hwalka, hwalkb⟩
    · rw [hsource, htarget]
      exact ⟨hne.symm, hwalkb, hwalka⟩

/-- The neighbourhood search ends. When it reports no truncation, its nodes, distances and edges
are exactly those of the neighbourhood, and it lists each edge once exactly when it shares no
edge between two nodes. -/
theorem neighborhood_trail_correct_iff (hfilter : config.nodeFilter = [])
    (hrows : s.EndpointsStored) (hroot : ∃ node, s.node.lookup config.rootId = some node)
    {fuel : Nat} (hfuel : (s.trailPlaces config).length < fuel) :
    ∃ result, s.getTrailBfs config fuel = some result ∧ (result.truncated = false →
      (NeighborhoodCorrect s config result ↔ ¬ SharesEdge s config)) := by
  have hread : ∀ id ∈ s.trailPlaces config, ∃ node, s.readNode id = some node :=
    fun id hid => readNode_of_mem_trailPlaces hrows hroot hid
  obtain ⟨final, hfinal, hexplored⟩ :=
    trailBfsLoop_spec hread fuel (explores_initial (s := s)) (by simpa using hfuel)
  have hnofilter : applyTrailNodeFilter config final.result = final.result := by
    simp [applyTrailNodeFilter, hfilter]
  refine ⟨keepSelectedEdges final.result, ?_, ?_⟩
  · unfold Storage.getTrailBfs
    rw [hfinal, Option.map_some, hnofilter]
  · intro hcomplete
    obtain ⟨taken, hexplores, hqueue⟩ := hexplored hcomplete
    have hsearch := hexplores.search
    have hdepths := hexplores.depths
    rw [hqueue] at hsearch
    rw [hqueue, List.append_nil] at hdepths
    have hedges : (keepSelectedEdges final.result).edges = expandedEdges s config taken := by
      have hkept : (keepSelectedEdges final.result).edges = final.edges.filter fun edge =>
          (final.nodes.map (·.id)).contains edge.effectiveSource &&
            (final.nodes.map (·.id)).contains edge.effectiveTarget := rfl
      rw [hkept, hexplores.nodes, hexplores.edges, List.filter_eq_self]
      intro edge hedge
      obtain ⟨hsource, htarget⟩ := endpoints_taken hsearch hedge
      rw [Bool.and_eq_true, List.contains_iff_mem, List.contains_iff_mem]
      exact ⟨hsource, htarget⟩
    rw [← nodup_expandedEdges_iff hsearch, ← hedges]
    refine ⟨fun h => h.edges_once, fun honce => ⟨?_, ?_, ?_, honce⟩⟩
    · intro id
      have hnodes : (keepSelectedEdges final.result).nodes.map (·.id) = taken.map (·.1) :=
        hexplores.nodes
      rw [hnodes, List.mem_map]
      constructor
      · rintro ⟨⟨id, n⟩, hmem, rfl⟩
        obtain ⟨hn, hdistance⟩ := (mem_taken_iff hsearch).mp hmem
        exact ⟨n, hn, hdistance.1⟩
      · rintro ⟨n, hn, hwalk⟩
        obtain ⟨m, hm, hdistance⟩ := hwalk.exists_isDistance
        exact ⟨(id, m), (mem_taken_iff hsearch).mpr ⟨Nat.le_trans hm hn, hdistance⟩, rfl⟩
    · intro id n
      rw [← mem_taken_iff hsearch, ← hdepths]
      exact get_eq_some_iff
    · intro edge
      rw [hedges]
      exact mem_expandedEdges hsearch

end Result

/-! ## Two nodes and a call -/

def callEdge (id source target : Int) : Edge where
  id := id
  source := source
  target := target
  kind := .callEdge
  fileNodeId := none
  line := none
  resolvedSource := none
  resolvedTarget := none
  confidence := none
  callsiteIdentity := none
  certainty := none
  candidateTargets := none

def callPair : Storage Unit where
  node := ⟨[plainNode 1 .functionNode "caller", plainNode 2 .functionNode "callee"], by decide⟩
  edge := ⟨[callEdge 7 1 2], by decide⟩
  file := .empty
  error := []
  groundingMeta := none
  groundingFileSnapshot := []
  groundingRepoStats := none
  resolutionSupport := none
  nodeCache := .empty

/-- The default request at node 1, with the given direction. -/
def aroundCaller (direction : TrailDirection) : TrailConfig where
  edgeFilter := []
  callerScope := .productionOnly
  showUtilityCalls := false
  rootId := 1
  mode := .neighborhood
  targetId := none
  depth := 2
  direction := direction
  nodeFilter := []
  maxNodes := 500

theorem callPair_endpointsStored : callPair.EndpointsStored := by
  intro row hrow id hid
  obtain rfl : row = callEdge 7 1 2 := by simpa [callPair] using hrow
  have hends : id = 1 ∨ id = 2 := by simpa [Edge.endpoints, callEdge] using hid
  rcases hends with rfl | rfl
  · exact ⟨_, rfl⟩
  · exact ⟨_, rfl⟩

theorem neighborhood_of_caller :
    ∃ result, callPair.getTrailBfs (aroundCaller .outgoing) 10 = some result ∧
      result.truncated = false ∧ NeighborhoodCorrect callPair (aroundCaller .outgoing) result := by
  obtain ⟨result, hresult, hcorrect⟩ :=
    @neighborhood_trail_correct_iff Unit callPair (aroundCaller .outgoing)
      rfl callPair_endpointsStored ⟨_, rfl⟩ 10 (by decide)
  have hcomplete : result.truncated = false := by
    have heval : (callPair.getTrailBfs (aroundCaller .outgoing) 10).map (·.truncated) =
        some false := by decide
    rw [hresult] at heval
    exact Option.some.inj heval
  refine ⟨result, hresult, hcomplete, (hcorrect hcomplete).mpr ?_⟩
  rintro ⟨hboth, -⟩
  exact absurd hboth (by decide)

theorem shared_edge_is_listed_twice :
    ∃ result, callPair.getTrailBfs (aroundCaller .both) 10 = some result ∧
      result.truncated = false ∧ result.edges.map (·.id) = [7, 7] ∧
      ¬ NeighborhoodCorrect callPair (aroundCaller .both) result := by
  have heval : (callPair.getTrailBfs (aroundCaller .both) 10).map
      (fun result => (result.truncated, result.edges.map (·.id))) = some (false, [7, 7]) := by
    decide
  obtain ⟨result, hresult, hvalues⟩ := Option.map_eq_some_iff.mp heval
  obtain ⟨hcomplete, hedges⟩ := Prod.mk.inj hvalues
  refine ⟨result, hresult, hcomplete, hedges, ?_⟩
  intro hcorrect
  have honce := hcorrect.edges_once
  rw [hedges] at honce
  exact absurd honce (by decide)

end CodeStory.Graph
