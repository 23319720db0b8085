import CodeStory.Graph.TrailPath

/-!
# The nodes and edges of a path trail

What is selected around the path, which edges are gathered between the selected nodes, and the
theorem about the whole of `get_trail_to_target`.
-/

set_option autoImplicit false

namespace CodeStory.Graph

universe u

open BreadthFirst (Walk IsDistance)
open Tables (u32Max)
open Worklist (push mem_push mem_extend)

variable {β : Type u}

/-! ## Selected nodes -/

section Selected
variable {search : PathSearch} {id : Int}

theorem mem_of_mem_fillSelected {maxNodes : Nat} {other selected : List Int}
    (h : id ∈ PathSearch.fillSelected maxNodes other selected) : id ∈ selected ∨ id ∈ other := by
  induction other generalizing selected with
  | nil => exact .inl h
  | cons next other ih =>
    unfold PathSearch.fillSelected at h
    split at h
    · exact .inl h
    · rcases ih h with h | h
      · rcases mem_push.mp h with h | rfl
        · exact .inl h
        · exact .inr List.mem_cons_self
      · exact .inr (List.mem_cons_of_mem _ h)

theorem mem_fillSelected {maxNodes : Nat} (other : List Int) {selected : List Int}
    (h : id ∈ selected) : id ∈ PathSearch.fillSelected maxNodes other selected := by
  induction other generalizing selected with
  | nil => exact h
  | cons next other ih =>
    unfold PathSearch.fillSelected
    split
    · exact h
    · exact ih (mem_push.mpr (.inl h))

theorem mem_of_mem_selected {maxNodes : Nat} {pathNodes : List Int}
    (h : id ∈ search.selected maxNodes pathNodes) :
    id ∈ pathNodes ∨ id = search.targetId ∨ id ∈ search.included := by
  rcases mem_of_mem_fillSelected h with h | h
  · rcases mem_push.mp h with h | h
    · rcases mem_extend.mp h with h | h
      · exact absurd h (by simp)
      · exact .inl h
    · exact .inr (.inl h)
  · exact .inr (.inr ((List.mem_insertionSort _).mp h))

theorem mem_selected_of_path {maxNodes : Nat} {pathNodes : List Int} (h : id ∈ pathNodes) :
    id ∈ search.selected maxNodes pathNodes :=
  mem_fillSelected _ (mem_push.mpr (.inl (mem_extend.mpr (.inr h))))

theorem mem_of_mem_included (h : id ∈ search.included) :
    (∃ i m, search.distFromRoot.get id = some i ∧ search.distToTarget.get id = some m ∧
      search.fits (i + m) = true) ∨ id = search.rootId ∨ id = search.targetId := by
  unfold PathSearch.included at h
  rcases mem_push.mp h with h | h
  · rcases mem_push.mp h with h | h
    · obtain ⟨⟨id, i⟩, hentry, rfl⟩ := List.mem_map.mp h
      obtain ⟨hmem, hshort⟩ := List.mem_filter.mp hentry
      obtain ⟨m, hm, hfits⟩ := (Option.any_eq_true _ _).mp hshort
      exact .inl ⟨i, m, get_eq_some_iff.mpr hmem, hm, hfits⟩
    · exact .inr (.inl h)
  · exact .inr (.inr h)

end Selected

section Fits
variable {s : Storage β} {config : TrailConfig} {search : PathSearch} {T : Nat}

/-- The node is on a walk from the root to the target that is short enough. -/
def PathSearch.OnWalk (config : TrailConfig) (search : PathSearch) (id : Int) : Prop :=
  ∃ i m, search.distFromRoot.get id = some i ∧ search.distToTarget.get id = some m ∧
    i + m ≤ config.maxDepth

variable (h : search.Exact s config) (hT : search.distFromRoot.get search.targetId = some T)
include h hT

theorem onWalk_of_onShortest {id : Int} {i : Nat} (hid : search.OnShortest T id i) :
    search.OnWalk config id := by
  refine ⟨i, T - i, hid.from_eq, hid.to_eq, ?_⟩
  have hle := hid.le
  have hmax := le_maxDepth h hT
  omega

theorem onWalk_of_shortestFrom {current : Int} {i : Nat} {rest : List Int}
    (hrest : search.ShortestFrom s config T current i rest) :
    ∀ id ∈ rest, search.OnWalk config id := by
  induction rest generalizing current i with
  | nil => simp
  | cons next rest ih =>
    obtain ⟨-, hnext, hrest⟩ := hrest
    intro id hid
    rcases List.mem_cons.mp hid with rfl | hid
    · exact onWalk_of_onShortest h hT hnext
    · exact ih hrest id hid

theorem onWalk_of_mem_selected {maxNodes : Nat} {rest : List Int}
    (hrest : search.ShortestFrom s config T config.rootId 0 rest) {id : Int}
    (hid : id ∈ search.selected maxNodes (config.rootId :: rest)) :
    search.OnWalk config id := by
  have hroot : search.OnWalk config config.rootId :=
    onWalk_of_onShortest h hT (root_onShortest h hT)
  have htarget : search.OnWalk config search.targetId :=
    onWalk_of_onShortest h hT (onShortest_of_walk h hT hT .nil (Nat.add_zero T))
  rcases mem_of_mem_selected hid with hid | rfl | hid
  · rcases List.mem_cons.mp hid with rfl | hid
    · exact hroot
    · exact onWalk_of_shortestFrom h hT hrest id hid
  · exact htarget
  · rcases mem_of_mem_included hid with ⟨i, m, hfrom, hto, hfits⟩ | rfl | rfl
    · have hi := h.from_le id i hfrom
      have hm := h.to_le id m hto
      exact ⟨i, m, hfrom, hto, (h.fits_iff (by omega)).mp hfits⟩
    · rw [h.rootId_eq]
      exact hroot
    · exact htarget

end Fits

/-! ## Gathered edges -/

section Gathered
variable {s : Storage β} {config : TrailConfig} {search : PathSearch} {selected : List Int}

theorem mem_addEdge {filters : EdgeFilters} {edges : List Edge} {edge other : Edge}
    (hedges : ∀ e ∈ edges, e ∈ s.visibleEdges filters) (hedge : edge ∈ s.visibleEdges filters) :
    other ∈ PathSearch.addEdge edges edge ↔ other ∈ edges ∨ other = edge := by
  unfold PathSearch.addEdge
  split
  · rename_i hknown
    obtain ⟨known, hmem, hid⟩ := List.any_eq_true.mp hknown
    have heq : known = edge := List.inj_on_of_nodup_map (nodup_visibleEdges s filters)
      (hedges known hmem) hedge (of_decide_eq_true hid)
    constructor
    · exact .inl
    · rintro (hother | rfl)
      · exact hother
      · exact heq ▸ hmem
  · simp

theorem mem_foldl_addEdge {filters : EdgeFilters} {edges more : List Edge} {other : Edge}
    (hedges : ∀ e ∈ edges, e ∈ s.visibleEdges filters)
    (hmore : ∀ e ∈ more, e ∈ s.visibleEdges filters) :
    other ∈ more.foldl PathSearch.addEdge edges ↔ other ∈ edges ∨ other ∈ more := by
  induction more generalizing edges with
  | nil => simp
  | cons edge more ih =>
    have hedge := hmore edge List.mem_cons_self
    rw [List.foldl_cons, ih ?_ fun e he => hmore e (List.mem_cons_of_mem _ he),
      mem_addEdge hedges hedge, List.mem_cons, or_assoc]
    intro e he
    rcases (mem_addEdge hedges hedge).mp he with he | rfl
    · exact hedges e he
    · exact hedge

theorem mem_visibleEdges_of_outgoing {id : Int} {edge : Edge}
    (h : edge ∈ (s.outgoingEdges config id).edges) :
    edge ∈ s.visibleEdges config.toEdgeFilters :=
  (mem_incidentEdges.mp (mem_incidentEdges_of_mem_fetch h)).1

/-- Everything worth keeping is gathered, and no fetch that was cut short is forgotten. -/
theorem selectEdges_spec (ids : List Int) (edges : List Edge) (truncated : Bool)
    (hedges : ∀ e ∈ edges, e ∈ s.visibleEdges config.toEdgeFilters) :
    (∀ e ∈ edges, e ∈ (s.selectEdges config search selected ids edges truncated).1) ∧
      (∀ id ∈ ids, ∀ dRoot, search.distFromRoot.get id = some dRoot →
        ∀ e ∈ (s.outgoingEdges config id).edges, search.keepsEdge selected id dRoot e = true →
          e ∈ (s.selectEdges config search selected ids edges truncated).1) ∧
      ((s.selectEdges config search selected ids edges truncated).2 = false →
        truncated = false ∧ ∀ id ∈ ids, ∀ dRoot, search.distFromRoot.get id = some dRoot →
          (s.outgoingEdges config id).truncated = false) := by
  induction ids generalizing edges truncated with
  | nil => exact ⟨fun e he => he, by simp, fun h => ⟨h, by simp⟩⟩
  | cons id ids ih =>
    unfold Storage.selectEdges
    cases hfrom : search.distFromRoot.get id with
    | none =>
      obtain ⟨hold, hnew, hcomplete⟩ := ih edges truncated hedges
      refine ⟨hold, ?_, ?_⟩
      · intro other hother dRoot hget
        rcases List.mem_cons.mp hother with rfl | hother
        · rw [hfrom] at hget
          exact absurd hget (by simp)
        · exact hnew other hother dRoot hget
      · intro h
        refine ⟨(hcomplete h).1, ?_⟩
        intro other hother dRoot hget
        rcases List.mem_cons.mp hother with rfl | hother
        · rw [hfrom] at hget
          exact absurd hget (by simp)
        · exact (hcomplete h).2 other hother dRoot hget
    | some dRoot =>
      dsimp only
      have hkept : ∀ e ∈ (s.outgoingEdges config id).edges.filter
          (search.keepsEdge selected id dRoot), e ∈ s.visibleEdges config.toEdgeFilters :=
        fun e he => mem_visibleEdges_of_outgoing (List.mem_filter.mp he).1
      have hmem : ∀ other, other ∈ ((s.outgoingEdges config id).edges.filter
          (search.keepsEdge selected id dRoot)).foldl PathSearch.addEdge edges ↔
            other ∈ edges ∨ other ∈ (s.outgoingEdges config id).edges.filter
              (search.keepsEdge selected id dRoot) :=
        fun other => mem_foldl_addEdge hedges hkept
      obtain ⟨hold, hnew, hcomplete⟩ := ih
        (((s.outgoingEdges config id).edges.filter
          (search.keepsEdge selected id dRoot)).foldl PathSearch.addEdge edges)
        (truncated || (s.outgoingEdges config id).truncated)
        fun e he => ((hmem e).mp he).elim (hedges e) (hkept e)
      refine ⟨fun e he => hold e ((hmem e).mpr (.inl he)), ?_, ?_⟩
      · intro other hother d hget e he hkeeps
        rcases List.mem_cons.mp hother with rfl | hother
        · obtain rfl : dRoot = d := Option.some.inj (hfrom.symm.trans hget)
          exact hold e ((hmem e).mpr (.inr (List.mem_filter.mpr ⟨he, hkeeps⟩)))
        · exact hnew other hother d hget e he hkeeps
      · intro h
        obtain ⟨htruncated, hrest⟩ := hcomplete h
        rw [Bool.or_eq_false_iff] at htruncated
        refine ⟨htruncated.1, ?_⟩
        intro other hother d hget
        rcases List.mem_cons.mp hother with rfl | hother
        · exact htruncated.2
        · exact hrest other hother d hget

end Gathered

/-! ## The result -/

/-- Edges one after another from `a` to `b`, by the endpoints that count. -/
def IsPath : Int → List Edge → Int → Prop
  | a, [], b => a = b
  | a, edge :: edges, b => edge.effectiveSource = a ∧ IsPath edge.effectiveTarget edges b

section Path
variable {s : Storage β} {config : TrailConfig} {search : PathSearch} {T : Nat}

/-- A visible edge between two neighbours on a shortest path. -/
def PathSearch.OnPath (s : Storage β) (config : TrailConfig) (search : PathSearch) (T : Nat)
    (nodes : List Int) (edge : Edge) : Prop :=
  edge ∈ s.visibleEdges config.toEdgeFilters ∧ edge.effectiveSource ∈ nodes ∧
    edge.effectiveTarget ∈ nodes ∧ ∃ i, search.OnShortest T edge.effectiveSource i ∧
      search.OnShortest T edge.effectiveTarget (i + 1)

theorem exists_path_edges {current : Int} {i : Nat} {rest : List Int}
    (hcurrent : search.OnShortest T current i)
    (hrest : search.ShortestFrom s config T current i rest) :
    ∃ path, IsPath current path search.targetId ∧ i + path.length = T ∧
      ∀ edge ∈ path, search.OnPath s config T (current :: rest) edge := by
  induction rest generalizing current i with
  | nil => exact ⟨[], hrest.1, hrest.2, by simp⟩
  | cons next rest ih =>
    obtain ⟨⟨edge, hvisible, hsource, htarget⟩, hnext, hrest⟩ := hrest
    obtain ⟨path, hpath, hlength, hedges⟩ := ih hnext hrest
    refine ⟨edge :: path, ⟨hsource, htarget ▸ hpath⟩, ?_, ?_⟩
    · rw [List.length_cons]
      omega
    · intro other hother
      rcases List.mem_cons.mp hother with rfl | hother
      · exact ⟨hvisible, by simp [hsource], by simp [htarget], i, hsource ▸ hcurrent,
          htarget ▸ hnext⟩
      · obtain ⟨hvisible, hsource, htarget, hends⟩ := hedges other hother
        exact ⟨hvisible, List.mem_cons_of_mem _ hsource, List.mem_cons_of_mem _ htarget, hends⟩

theorem keepsEdge_of_onPath (h : search.Exact s config)
    (hT : search.distFromRoot.get search.targetId = some T) {selected : List Int}
    {edge : Edge} {i : Nat} (htarget : search.OnShortest T edge.effectiveTarget (i + 1))
    (hselected : edge.effectiveTarget ∈ selected) :
    search.keepsEdge selected edge.effectiveSource i edge = true := by
  have hle := htarget.le
  have hmax := le_maxDepth h hT
  have hsmall := h.from_le _ _ hT
  have hfits : search.fits (i + 1 + (T - (i + 1))) = true :=
    (h.fits_iff (by omega)).mpr (by omega)
  unfold PathSearch.keepsEdge
  rw [htarget.to_eq]
  simp [hselected, hfits]

end Path

/-- What the trail to a reachable target should be. -/
structure PathTrailCorrect (s : Storage β) (config : TrailConfig) (targetId : Int)
    (result : TrailResult) : Prop where
  contains_shortest : ∃ path, IsPath config.rootId path targetId ∧
    IsDistance (fun _ => OutStep s config) config.rootId targetId path.length ∧
    config.rootId ∈ result.nodes.map (·.id) ∧
    ∀ edge ∈ path, edge ∈ result.edges ∧ edge.effectiveTarget ∈ result.nodes.map (·.id)
  on_walk : ∀ node ∈ result.nodes, ∃ m n, m + n ≤ config.maxDepth ∧
    Walk (fun _ => OutStep s config) config.rootId m node.id ∧
    Walk (fun _ => OutStep s config) node.id n targetId
  has_depth : ∀ node ∈ result.nodes, ∃ n, result.depthMap.get node.id = some n
  depth_exact : ∀ id n, result.depthMap.get id = some n →
    IsDistance (fun _ => OutStep s config) config.rootId id n

section Result
variable {s : Storage β} {config : TrailConfig} {search : PathSearch} {T : Nat}

theorem get_upsertAll_map (ids : List Int) (depth : Int → Nat) {id : Int} {n : Nat} :
    DepthMap.get (KeyedTable.empty.upsertAll (ids.map fun id => (id, depth id))) id = some n ↔
      id ∈ ids ∧ n = depth id := by
  unfold DepthMap.get
  rw [KeyedTable.lookup_upsertAll, KeyedTable.lookup_empty, Option.or_none]
  have hentry : ∀ entry, KeyedTable.lastRow Prod.fst (ids.map fun id => (id, depth id)) id =
      some entry → id ∈ ids ∧ entry.2 = depth id := by
    intro entry hlast
    obtain ⟨hmem, rfl⟩ := KeyedTable.mem_of_lastRow hlast
    obtain ⟨id, hid, rfl⟩ := List.mem_map.mp hmem
    exact ⟨hid, rfl⟩
  constructor
  · intro h
    obtain ⟨entry, hlast, rfl⟩ := Option.map_eq_some_iff.mp h
    exact hentry entry hlast
  · rintro ⟨hid, rfl⟩
    obtain ⟨entry, hlast⟩ := @KeyedTable.exists_lastRow _ _ Prod.fst _ _ _
      (List.mem_map.mpr ⟨id, hid, rfl⟩ : (id, depth id) ∈ ids.map fun id => (id, depth id))
    rw [hlast, Option.map_some, (hentry entry hlast).2]

theorem mem_trailPlaces_of_walk {id : Int} {n : Nat}
    (h : Walk (fun _ => OutStep s config) config.rootId n id) : id ∈ s.trailPlaces config := by
  cases h with
  | nil => exact List.mem_cons_self
  | snoc _ hstep =>
    obtain ⟨edge, hvisible, -, rfl⟩ := hstep
    exact (endpoint_mem_trailPlaces hvisible).2

/-- A result made of nodes on short walks, with the path and its edges among them. -/
theorem assembled_correct (h : search.Exact s config)
    (hT : search.distFromRoot.get search.targetId = some T)
    (hread : ∀ id ∈ s.trailPlaces config, ∃ node, s.readNode id = some node) {rest : List Int}
    (hrest : search.ShortestFrom s config T config.rootId 0 rest) {ids : List Int}
    (hwalks : ∀ id ∈ ids, search.OnWalk config id)
    (hpath : ∀ id ∈ config.rootId :: rest, id ∈ ids) {edges : List Edge}
    (hedges : ∀ edge, search.OnPath s config T (config.rootId :: rest) edge → edge ∈ edges)
    (truncated : Bool) :
    PathTrailCorrect s config search.targetId (keepSelectedEdges
      { nodes := ids.filterMap s.readNode
        edges := edges
        depthMap := KeyedTable.empty.upsertAll
          (ids.map fun id => (id, (search.distFromRoot.get id).getD 0))
        truncated := truncated
        omittedEdgeCount := 0 }) := by
  -- every selected node has a row, so the nodes of the result are the selected ones
  have hnodes : ∀ id, id ∈ (ids.filterMap s.readNode).map (·.id) ↔ id ∈ ids := by
    intro id
    simp only [List.mem_map, List.mem_filterMap]
    constructor
    · rintro ⟨node, ⟨other, hother, hnode⟩, rfl⟩
      rw [id_of_readNode hnode]
      exact hother
    · intro hid
      obtain ⟨i, m, hfrom, -, -⟩ := hwalks id hid
      obtain ⟨node, hnode⟩ := hread id (mem_trailPlaces_of_walk (h.walk_from hfrom))
      exact ⟨node, ⟨id, hid, hnode⟩, id_of_readNode hnode⟩
  have hmemnode : ∀ node ∈ ids.filterMap s.readNode, node.id ∈ ids :=
    fun node hnode => (hnodes node.id).mp (List.mem_map.mpr ⟨node, hnode, rfl⟩)
  refine ⟨?_, ?_, ?_, ?_⟩
  · obtain ⟨path, hispath, hlength, honpath⟩ := exists_path_edges (root_onShortest h hT) hrest
    rw [Nat.zero_add] at hlength
    refine ⟨path, hispath, ?_, (hnodes _).mpr (hpath _ List.mem_cons_self), ?_⟩
    · rw [hlength]
      exact ((h.from_iff _ _).mp hT).2
    · intro edge hedge
      obtain ⟨-, hsource, htarget, -⟩ := honpath edge hedge
      have hsource := (hnodes _).mpr (hpath _ hsource)
      have htarget := (hnodes _).mpr (hpath _ htarget)
      refine ⟨List.mem_filter.mpr ⟨hedges edge (honpath edge hedge), ?_⟩, htarget⟩
      rw [Bool.and_eq_true, List.contains_iff_mem, List.contains_iff_mem]
      exact ⟨hsource, htarget⟩
  · intro node hnode
    obtain ⟨i, m, hfrom, hto, hfits⟩ := hwalks node.id (hmemnode node hnode)
    exact ⟨i, m, hfits, h.walk_from hfrom, h.walk_to hto⟩
  · intro node hnode
    exact ⟨_, (get_upsertAll_map ids _).mpr ⟨hmemnode node hnode, rfl⟩⟩
  · intro id n hget
    obtain ⟨hid, rfl⟩ := (get_upsertAll_map ids _).mp hget
    obtain ⟨i, m, hfrom, -, -⟩ := hwalks id hid
    rw [hfrom]
    exact ((h.from_iff id i).mp hfrom).2

theorem pathResult_correct (h : search.Exact s config)
    (hT : search.distFromRoot.get search.targetId = some T)
    (hread : ∀ id ∈ s.trailPlaces config, ∃ node, s.readNode id = some node) {rest : List Int}
    (hrest : search.ShortestFrom s config T config.rootId 0 rest) {truncated : Bool}
    (hcomplete : (s.pathResult config search (config.rootId :: rest) truncated).truncated = false) :
    PathTrailCorrect s config search.targetId
      (keepSelectedEdges (s.pathResult config search (config.rootId :: rest) truncated)) := by
  have hmem : ∀ id, id ∈ (search.selected config.maxNodes (config.rootId :: rest)).insertionSort
      (search.rootBefore · ·) ↔ id ∈ search.selected config.maxNodes (config.rootId :: rest) :=
    fun id => List.mem_insertionSort _
  unfold Storage.pathResult at hcomplete ⊢
  dsimp only at hcomplete ⊢
  refine assembled_correct h hT hread hrest ?_ ?_ ?_ _
  · intro id hid
    exact onWalk_of_mem_selected h hT hrest ((hmem id).mp hid)
  · intro id hid
    exact (hmem id).mpr (mem_selected_of_path hid)
  · rintro edge ⟨hvisible, hsource, htarget, i, hfrom, hto⟩
    have hselected := (hmem edge.effectiveSource).mpr (mem_selected_of_path hsource)
    obtain ⟨-, hgather, hfetched⟩ := @selectEdges_spec β s config search _ _ [] _ (by simp)
    have hfetch := (hfetched hcomplete).2 _ hselected i hfrom.from_eq
    rw [List.mem_insertionSort]
    refine hgather _ hselected i hfrom.from_eq edge ?_ ?_
    · have hall : (s.outgoingEdges config edge.effectiveSource).edges =
          s.incidentEdges config.toEdgeFilters .outgoing edge.effectiveSource :=
        fetch_eq_incidentEdges hfetch
      rw [hall]
      exact mem_incidentEdges.mpr ⟨hvisible, decide_eq_true rfl⟩
    · exact keepsEdge_of_onPath h hT hto (mem_selected_of_path htarget)

end Result

/-! ## The two searches and the loop together -/

section Whole
variable {s : Storage β} {config : TrailConfig} {dist : DepthMap} {taken : List (Int × Nat)}

theorem forward_get_iff
    (h : Measures s (fun _ _ => true) .outgoing config.traversalOptions config.rootId dist []
      false taken) (id : Int) (n : Nat) :
    dist.get id = some n ↔
      n ≤ config.maxDepth ∧ IsDistance (fun _ => OutStep s config) config.rootId id n := by
  have hsteps : VisibleStep s (fun _ _ => true) .outgoing config.traversalOptions =
      fun level a b => level < config.maxDepth ∧ OutStep s config a b := by
    funext level a b
    exact propext visibleStep_outgoing_iff
  rw [h.get_eq_some_iff fun _ _ _ _ hallow => hallow, hsteps]
  exact BreadthFirst.isDistance_limited_iff

theorem throughRoot_antitone {distFromRoot : DepthMap} {options : BfsTraversalOptions} {b : Int}
    {m n : Nat} (hmn : m ≤ n) (h : Storage.throughRoot distFromRoot options b n = true) :
    Storage.throughRoot distFromRoot options b m = true := by
  unfold Storage.throughRoot at h ⊢
  obtain ⟨r, hr, hfits⟩ := (Option.any_eq_true _ _).mp h
  refine (Option.any_eq_true _ _).mpr ⟨r, hr, ?_⟩
  simp only [Bool.or_eq_true, decide_eq_true_eq] at hfits ⊢
  omega

theorem backward_get_iff {distFromRoot : DepthMap} {targetId : Int}
    (h : Measures s (Storage.throughRoot distFromRoot config.traversalOptions) .incoming
      config.traversalOptions targetId dist [] false taken) (id : Int) (n : Nat) :
    dist.get id = some n ↔ IsDistance (BackStep s config distFromRoot) targetId id n := by
  have hsteps : VisibleStep s (Storage.throughRoot distFromRoot config.traversalOptions) .incoming
      config.traversalOptions = BackStep s config distFromRoot := by
    funext level a b
    exact propext visibleStep_incoming_iff
  rw [h.get_eq_some_iff fun _ _ _ hmn hallow => throughRoot_antitone hmn hallow, hsteps]

theorem incident_neighbor_mem_trailPlaces {direction : TrailDirection} {a b : Int}
    (h : ∃ edge ∈ s.incidentEdges config.toEdgeFilters direction a,
      neighborForDirection a direction edge = some b) : b ∈ s.trailPlaces config := by
  obtain ⟨edge, hedge, hb⟩ := h
  obtain ⟨hvisible, htouches⟩ := mem_incidentEdges.mp hedge
  exact neighbor_mem_trailPlaces hvisible htouches hb

/-- What the search from the root has met is one of the places. -/
theorem mem_trailPlaces_of_key {queue : List (Int × Nat)} {truncated : Bool}
    (h : Measures s (fun _ _ => true) .outgoing config.traversalOptions config.rootId dist queue
      truncated taken) {id : Int} (hid : id ∈ dist.keys) : id ∈ s.trailPlaces config := by
  obtain ⟨⟨id, n⟩, hmem, rfl⟩ := List.mem_map.mp hid
  rw [h.rows] at hmem
  cases h.search.walked _ hmem with
  | nil => exact List.mem_cons_self
  | snoc _ hstep => exact incident_neighbor_mem_trailPlaces hstep.visible.2.1

/-- A search from the root that was not cut short meets everything in reach. -/
theorem mem_keys_of_reachable {queue : List (Int × Nat)} {truncated : Bool}
    (h : Measures s (fun _ _ => true) .outgoing config.traversalOptions config.rootId dist queue
      truncated taken) (hend : truncated = false → queue = []) (hcomplete : truncated = false)
    {id : Int}
    (hreach : ∃ n ≤ config.maxDepth, Walk (fun _ => OutStep s config) config.rootId n id) :
    id ∈ dist.keys := by
  obtain rfl := hend hcomplete
  obtain rfl := hcomplete
  obtain ⟨n, hn, hwalk⟩ := hreach
  obtain ⟨m, hm, hdistance⟩ := hwalk.exists_isDistance
  have hget := (forward_get_iff h id m).mpr ⟨by omega, hdistance⟩
  exact List.mem_map.mpr ⟨(id, m), get_eq_some_iff.mp hget, rfl⟩

theorem get_root {queue : List (Int × Nat)} {truncated : Bool}
    (h : Measures s (fun _ _ => true) .outgoing config.traversalOptions config.rootId dist queue
      truncated taken) : dist.get config.rootId = some 0 := by
  rw [get_eq_some_iff, h.rows]
  exact h.search.started

/-- Both searches and the path together, when nothing was cut short. -/
theorem path_trail_correct {distFromRoot distToTarget : DepthMap} {targetId : Int}
    {takenF queueF takenB queueB : List (Int × Nat)}
    {truncatedF truncatedB truncatedP : Bool}
    (hforward : Measures s (fun _ _ => true) .outgoing config.traversalOptions config.rootId
      distFromRoot queueF truncatedF takenF) (hendF : truncatedF = false → queueF = [])
    (hbackward : Measures s (Storage.throughRoot distFromRoot config.traversalOptions) .incoming
      config.traversalOptions targetId distToTarget queueB truncatedB takenB)
    (hendB : truncatedB = false → queueB = []) (hmet : targetId ∈ distFromRoot.keys)
    {fuel : Nat} {pathNodes : List Int}
    (hpath : s.reconstructPath config
      ⟨distFromRoot, distToTarget, config.maxDepth, config.rootId, targetId⟩ fuel config.rootId
      [config.rootId] false = some (pathNodes, truncatedP))
    (hrows : s.EndpointsStored) (hroot : ∃ node, s.node.lookup config.rootId = some node)
    (hcomplete : (s.pathResult config
      ⟨distFromRoot, distToTarget, config.maxDepth, config.rootId, targetId⟩ pathNodes
      (truncatedF || truncatedB || truncatedP)).truncated = false) :
    PathTrailCorrect s config targetId (keepSelectedEdges (s.pathResult config
      ⟨distFromRoot, distToTarget, config.maxDepth, config.rootId, targetId⟩ pathNodes
      (truncatedF || truncatedB || truncatedP))) := by
  have hflags : (truncatedF || truncatedB || truncatedP) = false := by
    have hgathered := (selectEdges_spec _ _ _ (by simp)).2.2 hcomplete
    simp only [Bool.or_eq_false_iff] at hgathered
    simp only [Bool.or_eq_false_iff]
    exact hgathered.1.1.1
  simp only [Bool.or_eq_false_iff] at hflags
  obtain ⟨⟨rfl, rfl⟩, rfl⟩ := hflags
  obtain rfl := hendF rfl
  obtain rfl := hendB rfl
  have hexact : PathSearch.Exact s config
      ⟨distFromRoot, distToTarget, config.maxDepth, config.rootId, targetId⟩ :=
    { maxDepth_eq := rfl
      rootId_eq := rfl
      from_iff := forward_get_iff hforward
      to_iff := backward_get_iff hbackward
      from_le := fun _ _ hget => Nat.le_trans (hforward.get_le hget) (bfsCap_le config)
      to_le := fun _ _ hget => Nat.le_trans (hbackward.get_le hget) (bfsCap_le config) }
  obtain ⟨⟨id, T⟩, hmem, rfl⟩ := List.mem_map.mp hmet
  have hT : distFromRoot.get id = some T := get_eq_some_iff.mpr hmem
  obtain ⟨-, rest, rfl, hrest⟩ :=
    reconstructPath_spec hexact hT fuel (root_onShortest hexact hT) hpath rfl
  have hread : ∀ id ∈ s.trailPlaces config, ∃ node, s.readNode id = some node :=
    fun id hid => readNode_of_mem_trailPlaces hrows hroot hid
  exact pathResult_correct hexact hT hread hrest hcomplete

variable (s config)

/-- Each search for distances ends. -/
theorem distances_end (allow : Int → Nat → Bool) (direction : TrailDirection) {start : Int}
    (hstart : start ∈ s.trailPlaces config) {fuel : Nat}
    (hfuel : (s.trailPlaces config).length < fuel) :
    ∃ dist truncated, s.distancesLoop allow direction config.traversalOptions fuel
        (KeyedTable.empty.upsert (start, 0)) [(start, 0)] false = some (dist, truncated) ∧
      ∃ taken queue, Measures s allow direction config.traversalOptions start dist queue truncated
        taken ∧ (truncated = false → queue = []) := by
  have hcap : config.traversalOptions.maxNodes ≤ u32Max :=
    Nat.le_trans (bfsCap_le config) (by decide)
  refine distancesLoop_spec hcap hstart ?_ fuel (measures_start start) ?_
  · intro a b hb
    exact incident_neighbor_mem_trailPlaces hb
  · simpa using hfuel

/-- `get_trail_to_target` ends on every input. When its result is not truncated and the root
reaches the target within the depth limit, the result holds a shortest path, only nodes that lie
on short enough walks to the target, and their distances from the root. -/
theorem target_trail_correct (hfilter : config.nodeFilter = []) {fuel : Nat}
    (hfuel : (s.trailPlaces config).length + 100001 < fuel) :
    ∃ outcome, s.getTrailToTarget config fuel = some outcome ∧
      ∀ targetId result, config.targetId = some targetId → outcome = .ok result →
        s.EndpointsStored → (∃ node, s.node.lookup config.rootId = some node) →
        result.truncated = false →
        (∃ n ≤ config.maxDepth, Walk (fun _ => OutStep s config) config.rootId n targetId) →
        PathTrailCorrect s config targetId result := by
  have hplaces : (s.trailPlaces config).length < fuel := by omega
  have hnofilter : ∀ result, applyTrailNodeFilter config result = result := by
    intro result
    simp [applyTrailNodeFilter, hfilter]
  unfold Storage.getTrailToTarget
  cases htarget : config.targetId with
  | none => exact ⟨_, rfl, fun _ _ hnone => absurd hnone (by simp)⟩
  | some target =>
    obtain ⟨distFromRoot, truncatedFromRoot, hforward, takenF, queueF, hmeasuresF, hendF⟩ :=
      distances_end s config (fun _ _ => true) .outgoing List.mem_cons_self hplaces
    have hforward' : s.bfsDistances config.rootId .outgoing config.traversalOptions fuel =
        some (distFromRoot, truncatedFromRoot) := hforward
    dsimp only
    rw [hforward']
    dsimp only
    by_cases hmet : target ∈ distFromRoot.keys
    · rw [if_neg (by simp [hmet])]
      obtain ⟨distToTarget, truncatedToTarget, hbackward, takenB, queueB, hmeasuresB, hendB⟩ :=
        distances_end s config (Storage.throughRoot distFromRoot config.traversalOptions) .incoming
          (mem_trailPlaces_of_key hmeasuresF hmet) hplaces
      have hbackward' : s.bfsDistancesToTargetThroughRootReachable target distFromRoot
          config.traversalOptions fuel = some (distToTarget, truncatedToTarget) := hbackward
      rw [hbackward']
      dsimp only
      obtain ⟨⟨pathNodes, pathTruncated⟩, hpath⟩ := @reconstructPath_ends β
        ⟨distFromRoot, distToTarget, config.maxDepth, config.rootId, target⟩ config.rootId 0 s
        config 100000
        (fun id n hget => Nat.le_trans (hmeasuresF.get_le hget) (bfsCap_le config)) (by decide)
        fuel [config.rootId] false (get_root hmeasuresF) (by omega)
      rw [hpath]
      refine ⟨_, rfl, ?_⟩
      intro targetId result hsame hok hrows hroot hcomplete _
      obtain rfl := Option.some.inj hsame
      obtain rfl := Except.ok.inj hok
      rw [hnofilter] at hcomplete ⊢
      exact path_trail_correct hmeasuresF hendF hmeasuresB hendB hmet hpath hrows hroot hcomplete
    · rw [if_pos (by simp [hmet])]
      refine ⟨_, rfl, ?_⟩
      intro targetId result hsame hok _ _ hcomplete hreach
      obtain rfl := Option.some.inj hsame
      obtain rfl := Except.ok.inj hok
      rw [hnofilter] at hcomplete
      exact absurd (mem_keys_of_reachable hmeasuresF hendF hcomplete hreach) hmet

end Whole

/-- From the caller to the callee of a pair. -/
def toCallee : TrailConfig :=
  { aroundCaller .outgoing with mode := .toTargetSymbol, targetId := some 2 }

theorem callPair_outStep : OutStep callPair toCallee 1 2 :=
  ⟨callEdge 7 1 2, by decide, rfl, rfl⟩

theorem trail_to_callee :
    ∃ result, callPair.getTrailToTarget toCallee 100010 = some (.ok result) ∧
      result.truncated = false ∧ PathTrailCorrect callPair toCallee 2 result := by
  obtain ⟨outcome, houtcome, hcorrect⟩ :=
    @target_trail_correct Unit callPair toCallee rfl 100010 (by decide)
  have heval : (callPair.getTrailToTarget toCallee 100010).map
      (fun outcome => outcome.toOption.map (·.truncated)) = some (some false) := by
    decide
  rw [houtcome] at heval
  obtain ⟨result, hok, hcomplete⟩ := Option.map_eq_some_iff.mp (Option.some.inj heval)
  obtain rfl : outcome = .ok result := by
    cases outcome with
    | error message => exact absurd hok (by simp [Except.toOption])
    | ok other => rw [Option.some.inj hok]
  refine ⟨result, houtcome, hcomplete, ?_⟩
  refine hcorrect 2 result rfl rfl callPair_endpointsStored ⟨_, rfl⟩ hcomplete ?_
  exact ⟨1, by decide, .snoc .nil callPair_outStep⟩

end CodeStory.Graph
