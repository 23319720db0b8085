import CodeStory.Lib.Worklist
import CodeStory.Layout.Folding

/-!
# Filters on a graph and its layout

A response carries a graph and the layout that was built for it. Three filters take edges away:
one hides speculative edges and what they alone connect, one drops loops and repetitions, one
cuts the edges to a budget. Each cuts the layout in its own way. A filter is faithful to a layout
when it treats the edges folded into one alike and keeps the nodes at their shown ends; along
faithful filters the layout keeps agreeing with the graph.
-/

set_option autoImplicit false

namespace CodeStory.Layout

open CodeStory.Graph (EdgeKind)

structure GraphResponse where
  centerId : String
  nodes : List GraphNode
  edges : List GraphEdge
  truncated : Bool
  omittedEdgeCount : Nat
  canonicalLayout : Option CanonicalLayout
  deriving DecidableEq, Repr

def u32Max : Nat := 4294967295

def saturatingAdd (a b : Nat) : Nat := min (a + b) u32Max

/-! ## Loops and repetitions -/

def noiseKey (edge : GraphEdge) : String × String × EdgeKind × Option String :=
  (edge.source, edge.target, edge.kind, edge.callsiteIdentity)

/-- The edges that are no loops and repeat no key seen before. -/
def quietEdges : List (String × String × EdgeKind × Option String) → List GraphEdge →
    List GraphEdge
  | _, [] => []
  | seen, edge :: rest =>
    if edge.source = edge.target then quietEdges seen rest
    else if noiseKey edge ∈ seen then quietEdges seen rest
    else edge :: quietEdges (noiseKey edge :: seen) rest

/-- Some edge that the folded one stands for is retained. -/
def standsFor (folded : CanonicalEdge) (retained : List GraphEdge) : Bool :=
  folded.sourceEdgeIds.any fun id => id ∈ retained.map (·.id)

def suppressDefaultTrailNoise (response : GraphResponse) : GraphResponse :=
  let edges := quietEdges [] response.edges
  { response with
    edges := edges
    omittedEdgeCount := saturatingAdd response.omittedEdgeCount
      ((response.edges.length - edges.length) % (u32Max + 1))
    canonicalLayout := response.canonicalLayout.map fun layout =>
      { layout with
        edges := layout.edges.filter fun folded =>
          folded.source ≠ folded.target && standsFor folded edges } }

/-! ## Speculative edges -/

def isSpeculativeCertaintyLabel (certainty : Option String) : Bool :=
  certainty.any fun label => SqlText.lower label = "uncertain" ||
    SqlText.lower label = "speculative"

def isProbableCertaintyLabel (certainty : Option String) : Bool :=
  certainty.any fun label => SqlText.lower label = "probable"

def isRuntimeBridgeEdge (kind : EdgeKind) : Bool := kind = .callEdge || kind = .macroUsageEdge

def isSpeculativeTrailEdge (edge : GraphEdge) : Bool :=
  isSpeculativeCertaintyLabel edge.certainty ||
    (isRuntimeBridgeEdge edge.kind &&
      (isProbableCertaintyLabel edge.certainty ||
        edge.confidence.any fun confidence => confidence < Graph.ResolutionCertainty.certainMin))

/-- An edge is followed both ways. -/
def adjacencyRows (edges : List GraphEdge) : List (String × String) :=
  edges.flatMap fun edge => [(edge.source, edge.target), (edge.target, edge.source)]

def hideSpeculativeTrailEdges (response : GraphResponse) : GraphResponse :=
  let retainedEdges := response.edges.filter fun edge => !isSpeculativeTrailEdge edge
  let reachable := Worklist.reachableFrom (adjacencyRows retainedEdges) response.centerId
  let edges := retainedEdges.filter fun edge =>
    decide (edge.source ∈ reachable) && decide (edge.target ∈ reachable)
  { response with
    nodes := response.nodes.filter fun node => node.id ∈ reachable
    edges := edges
    omittedEdgeCount := saturatingAdd response.omittedEdgeCount
      ((response.edges.length - edges.length) % (u32Max + 1))
    canonicalLayout := response.canonicalLayout.map fun layout =>
      { layout with
        nodes := layout.nodes.filter fun node => node.id ∈ reachable
        edges := layout.edges.filter fun folded =>
          standsFor folded edges && decide (folded.source ∈ reachable) &&
            decide (folded.target ∈ reachable) } }

/-! ## A budget of edges -/

/-- The center and the ends of the edges. -/
def retainedNodeIds (response : GraphResponse) : List String :=
  response.centerId :: response.edges.flatMap fun edge => [edge.source, edge.target]

def pruneLayout (retainedIds : List String) (edges : List GraphEdge) (layout : CanonicalLayout) :
    CanonicalLayout :=
  { layout with
    edges := layout.edges.filter fun folded =>
      decide (folded.source ∈ retainedIds) && decide (folded.target ∈ retainedIds) &&
        (folded.sourceEdgeIds.isEmpty || standsFor folded edges)
    nodes := layout.nodes.filter fun node => node.id ∈ retainedIds }

/-- The pruned graph, and whether anything was pruned. -/
def pruneGraphToRetainedEdges (graph : GraphResponse) : GraphResponse × Bool :=
  let retainedIds := retainedNodeIds graph
  let nodes := graph.nodes.filter fun node => node.id ∈ retainedIds
  let layout := graph.canonicalLayout.map (pruneLayout retainedIds graph.edges)
  let pruned := decide (nodes.length < graph.nodes.length) ||
    layout.any (fun layout => layout.nodes.length <
      (graph.canonicalLayout.map (·.nodes.length)).getD 0) ||
    layout.any (fun layout => layout.edges.length <
      (graph.canonicalLayout.map (·.edges.length)).getD 0)
  ({ graph with
      nodes := nodes
      canonicalLayout := layout
      truncated := graph.truncated || pruned }, pruned)

def truncateEdges (remaining : Nat) (graph : GraphResponse) : GraphResponse :=
  if graph.edges.length > remaining then
    { graph with
      edges := graph.edges.take remaining
      truncated := true
      omittedEdgeCount := saturatingAdd graph.omittedEdgeCount
        (min (graph.edges.length - remaining) u32Max) }
  else graph

inductive GraphArtifact where
  | uml (graph : GraphResponse)
  | mermaid (text : String)

/-- The budget goes through the graphs of an answer in order. -/
def capGraphEdges : Nat → List GraphArtifact → List GraphArtifact × Bool
  | _, [] => ([], false)
  | remaining, .mermaid text :: rest =>
    let capped := capGraphEdges remaining rest
    (.mermaid text :: capped.1, capped.2)
  | remaining, .uml graph :: rest =>
    let pruned := pruneGraphToRetainedEdges (truncateEdges remaining graph)
    let capped := capGraphEdges (remaining - graph.edges.length) rest
    (.uml pruned.1 :: capped.1,
      decide (graph.edges.length > remaining) || pruned.2 || capped.2)

/-- What a budget does to one graph. -/
def capGraph (remaining : Nat) (graph : GraphResponse) : GraphResponse :=
  (pruneGraphToRetainedEdges (truncateEdges remaining graph)).1

inductive Filter where
  | hideSpeculative
  | suppressNoise
  | capEdges (budget : Nat)
  deriving DecidableEq, Repr

def Filter.apply : Filter → GraphResponse → GraphResponse
  | .hideSpeculative, response => hideSpeculativeTrailEdges response
  | .suppressNoise, response => suppressDefaultTrailNoise response
  | .capEdges budget, response => capGraph budget response

def run (filters : List Filter) (response : GraphResponse) : GraphResponse :=
  filters.foldl (fun response filter => filter.apply response) response

/-! ## Faithful filters -/

section Conditions
variable (response : GraphResponse)

/-- An edge that is not speculative joins the two nodes. -/
def Joined (a b : String) : Prop :=
  ∃ edge ∈ response.edges, isSpeculativeTrailEdge edge = false ∧
    ((edge.source = a ∧ edge.target = b) ∨ (edge.target = a ∧ edge.source = b))

/-- Edges that are not speculative lead from the center to the node. -/
def Connected (id : String) : Prop := Relation.ReflTransGen (Joined response) response.centerId id

/-- No loop, and no earlier edge has the same ends, kind and call site. -/
def Quiet (edge : GraphEdge) : Prop :=
  edge.source ≠ edge.target ∧ ∃ before after, response.edges = before ++ edge :: after ∧
    ∀ earlier ∈ before, noiseKey earlier ≠ noiseKey edge

end Conditions

/-- An edge with this id stays under the filter. -/
def Filter.Stays : Filter → GraphResponse → String → Prop
  | .hideSpeculative, response, id => ∃ edge ∈ response.edges, edge.id = id ∧
      isSpeculativeTrailEdge edge = false ∧ Connected response edge.source
  | .suppressNoise, response, id => ∃ edge, edge.id = id ∧ Quiet response edge
  | .capEdges budget, response, id => ∃ edge ∈ response.edges.take budget, edge.id = id

/-- The filter keeps a node of the layout that has this id. -/
def Filter.Keeps : Filter → GraphResponse → String → Prop
  | .hideSpeculative, response, id => Connected response id
  | .suppressNoise, _, _ => True
  | .capEdges budget, response, id => id = response.centerId ∨
      ∃ edge ∈ response.edges.take budget, id = edge.source ∨ id = edge.target

/-- Edges folded into one all stay or all go, with the ends they are shown on; the center of the
layout is kept. -/
structure Filter.FaithfulTo (filter : Filter) (response : GraphResponse)
    (layout : CanonicalLayout) : Prop where
  folded : ∀ folded ∈ layout.edges, (∃ id ∈ folded.sourceEdgeIds, filter.Stays response id) →
    (∀ id ∈ folded.sourceEdgeIds, filter.Stays response id) ∧
      filter.Keeps response folded.source ∧ filter.Keeps response folded.target
  center : filter.Keeps response layout.centerNodeId

def Filter.Faithful (filter : Filter) (response : GraphResponse) : Prop :=
  ∀ layout, response.canonicalLayout = some layout → filter.FaithfulTo response layout

/-- Every filter of the run is faithful when it is applied. -/
def FaithfulRun : List Filter → GraphResponse → Prop
  | [], _ => True
  | filter :: filters, response =>
    filter.Faithful response ∧ FaithfulRun filters (filter.apply response)

/-- The response carries a layout that agrees with its edges. -/
def LayoutAgrees (place : String → String) (response : GraphResponse) : Prop :=
  ∃ layout, response.canonicalLayout = some layout ∧ Agrees place response.edges layout

section Restriction
variable {place : String → String} {edges edges' : List GraphEdge}
  {layout layout' : CanonicalLayout} {stays keeps : String → Prop}

/-- What every filter does, said by the edges that stay and the nodes that are kept. -/
structure Restricts (stays keeps : String → Prop) (edges edges' : List GraphEdge)
    (layout layout' : CanonicalLayout) : Prop where
  stay : ∀ edge ∈ edges', edge ∈ edges ∧ stays edge.id
  left : ∀ id, stays id → id ∈ edges'.map (·.id)
  nodes : ∀ id, id ∈ layout'.nodes.map (·.id) ↔ id ∈ layout.nodes.map (·.id) ∧ keeps id
  center : layout'.centerNodeId = layout.centerNodeId
  dropped : ∀ folded ∈ layout'.edges, folded ∈ layout.edges ∧
    (folded.sourceEdgeIds = [] ∨ ∃ id ∈ folded.sourceEdgeIds, stays id) ∧
    keeps folded.source ∧ keeps folded.target
  retained : ∀ folded ∈ layout.edges, (∃ id ∈ folded.sourceEdgeIds, stays id) →
    keeps folded.source → keeps folded.target → folded ∈ layout'.edges

/-- A faithful restriction of a layout that agrees agrees again. -/
theorem Agrees.restrict (h : Agrees place edges layout)
    (hrestricts : Restricts stays keeps edges edges' layout layout')
    (hfolded : ∀ folded ∈ layout.edges, (∃ id ∈ folded.sourceEdgeIds, stays id) →
      (∀ id ∈ folded.sourceEdgeIds, stays id) ∧ keeps folded.source ∧ keeps folded.target)
    (hcenter : keeps layout.centerNodeId) : Agrees place edges' layout' := by
  refine ⟨?_, ?_, ?_, ?_⟩
  · intro folded hmem id hid
    obtain ⟨hbefore, hstays, _⟩ := hrestricts.dropped folded hmem
    rcases hstays with hnil | hstays
    · rw [hnil] at hid
      cases hid
    · exact hrestricts.left id ((hfolded folded hbefore hstays).1 id hid)
  · intro folded hmem
    obtain ⟨hbefore, _, hsource, htarget⟩ := hrestricts.dropped folded hmem
    obtain ⟨hsourceMem, htargetMem⟩ := h.ends folded hbefore
    exact ⟨(hrestricts.nodes _).mpr ⟨hsourceMem, hsource⟩,
      (hrestricts.nodes _).mpr ⟨htargetMem, htarget⟩⟩
  · rw [hrestricts.center, hrestricts.nodes]
    exact ⟨h.center, hcenter⟩
  · intro edge hedge hkind hapart
    obtain ⟨hbefore, hstays⟩ := hrestricts.stay edge hedge
    obtain ⟨folded, hmem, hid, hshown⟩ := h.represented edge hbefore hkind hapart
    obtain ⟨_, hsource, htarget⟩ := hfolded folded hmem ⟨edge.id, hid, hstays⟩
    exact ⟨folded, hrestricts.retained folded hmem ⟨edge.id, hid, hstays⟩ hsource htarget, hid,
      hshown⟩

theorem mem_map_id_filter {nodes : List CanonicalNode} {p : String → Bool} {id : String} :
    id ∈ (nodes.filter fun node => p node.id).map (·.id) ↔
      id ∈ nodes.map (·.id) ∧ p id = true := by
  constructor
  · intro h
    obtain ⟨node, hnode, rfl⟩ := List.mem_map.mp h
    obtain ⟨hnode, hp⟩ := List.mem_filter.mp hnode
    exact ⟨List.mem_map_of_mem hnode, hp⟩
  · rintro ⟨h, hp⟩
    obtain ⟨node, hnode, rfl⟩ := List.mem_map.mp h
    exact List.mem_map_of_mem (List.mem_filter.mpr ⟨hnode, hp⟩)

theorem standsFor_iff {folded : CanonicalEdge} {retained : List GraphEdge} :
    standsFor folded retained = true ↔
      ∃ id ∈ folded.sourceEdgeIds, id ∈ retained.map (·.id) := by
  unfold standsFor
  simp only [List.any_eq_true, decide_eq_true_eq]

end Restriction

section Filters
variable {response : GraphResponse} {layout : CanonicalLayout}

theorem mem_quietEdges {edges : List GraphEdge} {edge : GraphEdge}
    {seen : List (String × String × EdgeKind × Option String)} :
    edge ∈ quietEdges seen edges ↔ edge.source ≠ edge.target ∧ noiseKey edge ∉ seen ∧
      ∃ before after, edges = before ++ edge :: after ∧
        ∀ earlier ∈ before, noiseKey earlier ≠ noiseKey edge := by
  induction edges generalizing seen with
  | nil => simp [quietEdges]
  | cons head rest ih =>
    have hskip : (head.source = head.target ∨ noiseKey head ∈ seen) →
        edge.source ≠ edge.target → noiseKey edge ∉ seen → noiseKey head ≠ noiseKey edge := by
      intro hhead hloop hseen heq
      rcases hhead with hhead | hhead
      · obtain ⟨hsource, htarget, _⟩ := by simpa [noiseKey] using heq
        rw [hsource, htarget] at hhead
        exact hloop hhead
      · rw [heq] at hhead
        exact hseen hhead
    have hdrop : (head.source = head.target ∨ noiseKey head ∈ seen) →
        (edge ∈ quietEdges seen rest ↔ edge.source ≠ edge.target ∧ noiseKey edge ∉ seen ∧
          ∃ before after, head :: rest = before ++ edge :: after ∧
            ∀ earlier ∈ before, noiseKey earlier ≠ noiseKey edge) := by
      intro hhead
      rw [ih]
      constructor
      · rintro ⟨hloop, hseen, before, after, rfl, hearlier⟩
        refine ⟨hloop, hseen, head :: before, after, rfl, ?_⟩
        intro earlier hmem
        rcases List.mem_cons.mp hmem with rfl | hmem
        · exact hskip hhead hloop hseen
        · exact hearlier earlier hmem
      · rintro ⟨hloop, hseen, before, after, hsplit, hearlier⟩
        refine ⟨hloop, hseen, ?_⟩
        cases before with
        | nil =>
          injection hsplit with hhd _
          rw [hhd] at hhead
          exact absurd rfl (hhd ▸ hskip (hhd ▸ hhead) hloop hseen)
        | cons first before =>
          injection hsplit with _ hrest
          exact ⟨before, after, hrest, fun earlier hmem =>
            hearlier earlier (List.mem_cons_of_mem _ hmem)⟩
    unfold quietEdges
    split
    · rename_i hloop
      exact hdrop (Or.inl hloop)
    · rename_i hloop
      split
      · rename_i hseen
        exact hdrop (Or.inr hseen)
      · rename_i hnew
        rw [List.mem_cons, ih]
        constructor
        · rintro (rfl | ⟨hne, hseen, before, after, rfl, hearlier⟩)
          · exact ⟨hloop, hnew, [], rest, rfl, by simp⟩
          · rw [List.mem_cons, not_or] at hseen
            refine ⟨hne, hseen.2, head :: before, after, rfl, ?_⟩
            intro earlier hmem
            rcases List.mem_cons.mp hmem with rfl | hmem
            · exact fun heq => hseen.1 heq.symm
            · exact hearlier earlier hmem
        · rintro ⟨hne, hseen, before, after, hsplit, hearlier⟩
          cases before with
          | nil =>
            injection hsplit with hhd _
            exact Or.inl hhd.symm
          | cons first before =>
            injection hsplit with hhd hrest
            refine Or.inr ⟨hne, ?_, before, after, hrest, fun earlier hmem =>
              hearlier earlier (List.mem_cons_of_mem _ hmem)⟩
            rw [List.mem_cons, not_or]
            refine ⟨?_, hseen⟩
            rw [hhd]
            exact fun heq => hearlier first List.mem_cons_self heq.symm

theorem mem_quietEdges_iff_quiet {edge : GraphEdge} :
    edge ∈ quietEdges [] response.edges ↔ Quiet response edge := by
  rw [mem_quietEdges]
  unfold Quiet
  simp

theorem restricts_suppress (hapart : ∀ folded ∈ layout.edges, folded.source ≠ folded.target) :
    Restricts (Filter.suppressNoise.Stays response) (Filter.suppressNoise.Keeps response)
      response.edges (quietEdges [] response.edges) layout
      { layout with
        edges := layout.edges.filter fun folded =>
          folded.source ≠ folded.target && standsFor folded (quietEdges [] response.edges) } := by
  have hleft : ∀ id, Filter.suppressNoise.Stays response id ↔
      id ∈ (quietEdges [] response.edges).map (·.id) := by
    intro id
    constructor
    · rintro ⟨edge, rfl, hquiet⟩
      exact List.mem_map_of_mem (mem_quietEdges_iff_quiet.mpr hquiet)
    · intro h
      obtain ⟨edge, hedge, rfl⟩ := List.mem_map.mp h
      exact ⟨edge, rfl, mem_quietEdges_iff_quiet.mp hedge⟩
  have hstands : ∀ folded : CanonicalEdge,
      standsFor folded (quietEdges [] response.edges) = true ↔
        ∃ id ∈ folded.sourceEdgeIds, Filter.suppressNoise.Stays response id := by
    intro folded
    rw [standsFor_iff]
    simp only [hleft]
  refine ⟨?_, fun id hid => (hleft id).mp hid, ?_, rfl, ?_, ?_⟩
  · intro edge hedge
    obtain ⟨_, before, after, hsplit, _⟩ := mem_quietEdges_iff_quiet.mp hedge
    refine ⟨by rw [hsplit]; simp, (hleft _).mpr (List.mem_map_of_mem hedge)⟩
  · intro id
    exact ⟨fun h => ⟨h, trivial⟩, fun h => h.1⟩
  · intro folded hmem
    obtain ⟨hmem, hcond⟩ := List.mem_filter.mp hmem
    rw [Bool.and_eq_true] at hcond
    exact ⟨hmem, Or.inr ((hstands folded).mp hcond.2), trivial, trivial⟩
  · intro folded hmem hstays _ _
    refine List.mem_filter.mpr ⟨hmem, ?_⟩
    rw [Bool.and_eq_true]
    exact ⟨by simpa using hapart folded hmem, (hstands folded).mpr hstays⟩

/-- The rows of the retained edges join what edges that are not speculative join. -/
theorem mem_adjacencyRows {a b : String} :
    (a, b) ∈ adjacencyRows (response.edges.filter fun edge => !isSpeculativeTrailEdge edge) ↔
      Joined response a b := by
  unfold adjacencyRows Joined
  rw [List.mem_flatMap]
  constructor
  · rintro ⟨edge, hedge, hrow⟩
    obtain ⟨hedge, hcertain⟩ := List.mem_filter.mp hedge
    refine ⟨edge, hedge, by simpa using hcertain, ?_⟩
    rcases List.mem_cons.mp hrow with hrow | hrow
    · cases hrow
      exact Or.inl ⟨rfl, rfl⟩
    · cases List.mem_singleton.mp hrow
      exact Or.inr ⟨rfl, rfl⟩
  · rintro ⟨edge, hedge, hcertain, hends⟩
    refine ⟨edge, List.mem_filter.mpr ⟨hedge, by simpa using hcertain⟩, ?_⟩
    rcases hends with ⟨rfl, rfl⟩ | ⟨rfl, rfl⟩
    · exact List.mem_cons_self
    · exact List.mem_cons_of_mem _ (List.mem_singleton.mpr rfl)

def reachableIds (response : GraphResponse) : List String :=
  Worklist.reachableFrom
    (adjacencyRows (response.edges.filter fun edge => !isSpeculativeTrailEdge edge))
    response.centerId

theorem mem_reachableIds {id : String} : id ∈ reachableIds response ↔ Connected response id := by
  unfold reachableIds Connected
  rw [Worklist.mem_reachableFrom_iff]
  have hrel : (fun a b => (a, b) ∈ adjacencyRows
      (response.edges.filter fun edge => !isSpeculativeTrailEdge edge)) = Joined response := by
    funext a b
    exact propext mem_adjacencyRows
  rw [hrel]

theorem mem_hidden_edges {edge : GraphEdge} :
    edge ∈ (hideSpeculativeTrailEdges response).edges ↔ edge ∈ response.edges ∧
      isSpeculativeTrailEdge edge = false ∧ Connected response edge.source := by
  change edge ∈ (response.edges.filter fun edge => !isSpeculativeTrailEdge edge).filter
    (fun edge => decide (edge.source ∈ reachableIds response) &&
      decide (edge.target ∈ reachableIds response)) ↔ _
  rw [List.mem_filter, List.mem_filter, Bool.and_eq_true, decide_eq_true_eq, decide_eq_true_eq,
    mem_reachableIds, mem_reachableIds, Bool.not_eq_true']
  constructor
  · rintro ⟨⟨hedge, hcertain⟩, hsource, _⟩
    exact ⟨hedge, hcertain, hsource⟩
  · rintro ⟨hedge, hcertain, hsource⟩
    exact ⟨⟨hedge, hcertain⟩, hsource,
      hsource.tail ⟨edge, hedge, hcertain, Or.inl ⟨rfl, rfl⟩⟩⟩

theorem restricts_hide :
    Restricts (Filter.hideSpeculative.Stays response) (Filter.hideSpeculative.Keeps response)
      response.edges (hideSpeculativeTrailEdges response).edges layout
      { layout with
        nodes := layout.nodes.filter fun node => node.id ∈ reachableIds response
        edges := layout.edges.filter fun folded =>
          standsFor folded (hideSpeculativeTrailEdges response).edges &&
            decide (folded.source ∈ reachableIds response) &&
            decide (folded.target ∈ reachableIds response) } := by
  have hleft : ∀ id, Filter.hideSpeculative.Stays response id ↔
      id ∈ (hideSpeculativeTrailEdges response).edges.map (·.id) := by
    intro id
    constructor
    · rintro ⟨edge, hedge, rfl, hcertain, hsource⟩
      exact List.mem_map_of_mem (mem_hidden_edges.mpr ⟨hedge, hcertain, hsource⟩)
    · intro h
      obtain ⟨edge, hedge, rfl⟩ := List.mem_map.mp h
      obtain ⟨hedge, hcertain, hsource⟩ := mem_hidden_edges.mp hedge
      exact ⟨edge, hedge, rfl, hcertain, hsource⟩
  have hfolded : ∀ folded : CanonicalEdge,
      (standsFor folded (hideSpeculativeTrailEdges response).edges &&
          decide (folded.source ∈ reachableIds response) &&
          decide (folded.target ∈ reachableIds response)) = true ↔
        (∃ id ∈ folded.sourceEdgeIds, Filter.hideSpeculative.Stays response id) ∧
          Connected response folded.source ∧ Connected response folded.target := by
    intro folded
    rw [Bool.and_eq_true, Bool.and_eq_true, decide_eq_true_eq, decide_eq_true_eq, standsFor_iff,
      mem_reachableIds, mem_reachableIds, and_assoc]
    simp only [hleft]
  refine ⟨?_, fun id hid => (hleft id).mp hid, ?_, rfl, ?_, ?_⟩
  · intro edge hedge
    exact ⟨(mem_hidden_edges.mp hedge).1, (hleft _).mpr (List.mem_map_of_mem hedge)⟩
  · intro id
    dsimp only
    rw [mem_map_id_filter (p := fun id => decide (id ∈ reachableIds response)),
      decide_eq_true_eq, mem_reachableIds]
    rfl
  · intro folded hmem
    obtain ⟨hmem, hcond⟩ := List.mem_filter.mp hmem
    obtain ⟨hstays, hends⟩ := (hfolded folded).mp hcond
    exact ⟨hmem, Or.inr hstays, hends⟩
  · intro folded hmem hstays hsource htarget
    exact List.mem_filter.mpr ⟨hmem, (hfolded folded).mpr ⟨hstays, hsource, htarget⟩⟩

theorem edges_truncateEdges (budget : Nat) :
    (truncateEdges budget response).edges = response.edges.take budget := by
  unfold truncateEdges
  split
  · rfl
  · rename_i hfits
    rw [List.take_of_length_le (by omega)]

theorem mem_retainedNodeIds {budget : Nat} {id : String} :
    id ∈ retainedNodeIds (truncateEdges budget response) ↔
      (Filter.capEdges budget).Keeps response id := by
  have hcenter : (truncateEdges budget response).centerId = response.centerId := by
    unfold truncateEdges
    split <;> rfl
  unfold retainedNodeIds
  rw [edges_truncateEdges, hcenter, List.mem_cons, List.mem_flatMap]
  simp only [List.mem_cons, List.not_mem_nil, or_false]
  rfl

theorem restricts_cap (response : GraphResponse) (layout : CanonicalLayout) (budget : Nat) :
    Restricts ((Filter.capEdges budget).Stays response) ((Filter.capEdges budget).Keeps response)
      response.edges (response.edges.take budget) layout
      (pruneLayout (retainedNodeIds (truncateEdges budget response))
        (truncateEdges budget response).edges layout) := by
  have hleft : ∀ id, (Filter.capEdges budget).Stays response id ↔
      id ∈ (response.edges.take budget).map (·.id) := by
    intro id
    rw [List.mem_map]
    rfl
  have hfolded : ∀ folded : CanonicalEdge,
      (decide (folded.source ∈ retainedNodeIds (truncateEdges budget response)) &&
          decide (folded.target ∈ retainedNodeIds (truncateEdges budget response)) &&
          (folded.sourceEdgeIds.isEmpty ||
            standsFor folded (truncateEdges budget response).edges)) = true ↔
        ((Filter.capEdges budget).Keeps response folded.source ∧
          (Filter.capEdges budget).Keeps response folded.target) ∧
          (folded.sourceEdgeIds = [] ∨
            ∃ id ∈ folded.sourceEdgeIds, (Filter.capEdges budget).Stays response id) := by
    intro folded
    rw [Bool.and_eq_true, Bool.and_eq_true, Bool.or_eq_true, decide_eq_true_eq, decide_eq_true_eq,
      standsFor_iff, mem_retainedNodeIds, mem_retainedNodeIds, List.isEmpty_iff,
      edges_truncateEdges]
    simp only [hleft]
  refine ⟨?_, fun id hid => (hleft id).mp hid, ?_, rfl, ?_, ?_⟩
  · intro edge hedge
    exact ⟨List.mem_of_mem_take hedge, (hleft _).mpr (List.mem_map_of_mem hedge)⟩
  · intro id
    unfold pruneLayout
    dsimp only
    rw [mem_map_id_filter
      (p := fun id => decide (id ∈ retainedNodeIds (truncateEdges budget response))),
      decide_eq_true_eq, mem_retainedNodeIds]
  · intro folded hmem
    obtain ⟨hmem, hcond⟩ := List.mem_filter.mp hmem
    obtain ⟨hends, hstays⟩ := (hfolded folded).mp hcond
    exact ⟨hmem, hstays, hends⟩
  · intro folded hmem hstays hsource htarget
    exact List.mem_filter.mpr ⟨hmem, (hfolded folded).mpr ⟨⟨hsource, htarget⟩, Or.inr hstays⟩⟩

/-- What every filter of a run relies on: agreement, and no folded edge is a loop. -/
def Laid (place : String → String) (response : GraphResponse) : Prop :=
  ∃ layout, response.canonicalLayout = some layout ∧ Agrees place response.edges layout ∧
    ∀ folded ∈ layout.edges, folded.source ≠ folded.target

/-- The filters only ever restrict the edges and the layout. -/
theorem Filter.restricts (filter : Filter) (hlayout : response.canonicalLayout = some layout)
    (hapart : ∀ folded ∈ layout.edges, folded.source ≠ folded.target) :
    ∃ layout', (filter.apply response).canonicalLayout = some layout' ∧
      Restricts (filter.Stays response) (filter.Keeps response) response.edges
        (filter.apply response).edges layout layout' := by
  cases filter with
  | hideSpeculative =>
    refine ⟨_, ?_, restricts_hide⟩
    change response.canonicalLayout.map _ = _
    rw [hlayout]
    rfl
  | suppressNoise =>
    refine ⟨_, ?_, restricts_suppress hapart⟩
    change response.canonicalLayout.map _ = _
    rw [hlayout]
    rfl
  | capEdges budget =>
    have hsame : (truncateEdges budget response).canonicalLayout = response.canonicalLayout := by
      unfold truncateEdges
      split <;> rfl
    refine ⟨pruneLayout (retainedNodeIds (truncateEdges budget response))
      (truncateEdges budget response).edges layout, ?_, ?_⟩
    · change (truncateEdges budget response).canonicalLayout.map _ = _
      rw [hsame, hlayout]
      rfl
    · change Restricts _ _ _ (truncateEdges budget response).edges _ _
      have hrestricts := restricts_cap response layout budget
      rw [← edges_truncateEdges] at hrestricts
      exact hrestricts

theorem Laid.apply {place : String → String} (h : Laid place response) {filter : Filter}
    (hfaithful : filter.Faithful response) : Laid place (filter.apply response) := by
  obtain ⟨layout, hlayout, hagrees, hapart⟩ := h
  obtain ⟨layout', hlayout', hrestricts⟩ := filter.restricts hlayout hapart
  obtain ⟨hfolded, hcenter⟩ := hfaithful layout hlayout
  refine ⟨layout', hlayout', hagrees.restrict hrestricts hfolded hcenter, ?_⟩
  intro folded hmem
  exact hapart folded (hrestricts.dropped folded hmem).1

theorem Laid.run {place : String → String} {filters : List Filter} (h : Laid place response)
    (hrun : FaithfulRun filters response) : Laid place (Layout.run filters response) := by
  induction filters generalizing response with
  | nil => exact h
  | cons filter filters ih =>
    obtain ⟨hfaithful, hrest⟩ := hrun
    exact ih (h.apply hfaithful) hrest

end Filters

/-! ## Runs from a fresh layout -/

/-- A response whose layout has just been built. -/
def laidOut (centerId : String) (nodes : List GraphNode) (edges : List GraphEdge)
    (truncated : Bool) (omittedEdgeCount : Nat) : GraphResponse where
  centerId := centerId
  nodes := nodes
  edges := edges
  truncated := truncated
  omittedEdgeCount := omittedEdgeCount
  canonicalLayout := some (buildCanonicalLayout centerId nodes edges)

/-- Along faithful filters the layout keeps agreeing with the graph. -/
theorem layout_agrees_along_run {centerId : String} {nodes : List GraphNode}
    {edges : List GraphEdge} {truncated : Bool} {omittedEdgeCount : Nat} {filters : List Filter}
    (hgraph : ProperGraph nodes edges) (hcenter : centerId ∈ nodes.map (·.id))
    (hunclaimed : HostsUnclaimed nodes)
    (hrun : FaithfulRun filters (laidOut centerId nodes edges truncated omittedEdgeCount)) :
    LayoutAgrees (arrange centerId nodes edges).placement.place
      (run filters (laidOut centerId nodes edges truncated omittedEdgeCount)) := by
  obtain ⟨hagrees, hapart⟩ := agrees_buildCanonicalLayout hgraph hunclaimed hcenter
  have hlaid : Laid (arrange centerId nodes edges).placement.place
      (laidOut centerId nodes edges truncated omittedEdgeCount) := ⟨_, rfl, hagrees, hapart⟩
  obtain ⟨layout, hlayout, hagrees, _⟩ := hlaid.run hrun
  exact ⟨layout, hlayout, hagrees⟩

/-! ## Two calls of one function -/

section Decide
variable {response : GraphResponse}

instance (id : String) : Decidable (Connected response id) :=
  decidable_of_iff (id ∈ reachableIds response) mem_reachableIds

instance (edge : GraphEdge) : Decidable (Quiet response edge) :=
  decidable_of_iff (edge ∈ quietEdges [] response.edges) mem_quietEdges_iff_quiet

instance (id : String) : Decidable (∃ edge, edge.id = id ∧ Quiet response edge) :=
  decidable_of_iff (∃ edge ∈ response.edges, edge.id = id ∧ Quiet response edge) (by
    constructor
    · rintro ⟨edge, _, hedge⟩
      exact ⟨edge, hedge⟩
    · rintro ⟨edge, hid, hquiet⟩
      have hmem : edge ∈ response.edges := by
        obtain ⟨_, before, after, hsplit, _⟩ := hquiet
        rw [hsplit]
        simp
      exact ⟨edge, hmem, hid, hquiet⟩)

instance (filter : Filter) (id : String) : Decidable (filter.Stays response id) :=
  match filter with
  | .hideSpeculative => inferInstanceAs (Decidable (∃ edge ∈ response.edges, edge.id = id ∧
      isSpeculativeTrailEdge edge = false ∧ Connected response edge.source))
  | .suppressNoise => inferInstanceAs (Decidable (∃ edge, edge.id = id ∧ Quiet response edge))
  | .capEdges budget =>
    inferInstanceAs (Decidable (∃ edge ∈ response.edges.take budget, edge.id = id))

instance (filter : Filter) (id : String) : Decidable (filter.Keeps response id) :=
  match filter with
  | .hideSpeculative => inferInstanceAs (Decidable (Connected response id))
  | .suppressNoise => inferInstanceAs (Decidable True)
  | .capEdges budget => inferInstanceAs (Decidable (id = response.centerId ∨
      ∃ edge ∈ response.edges.take budget, id = edge.source ∨ id = edge.target))

instance (filter : Filter) (layout : CanonicalLayout) :
    Decidable (filter.FaithfulTo response layout) :=
  decidable_of_iff ((∀ folded ∈ layout.edges,
      (∃ id ∈ folded.sourceEdgeIds, filter.Stays response id) →
        (∀ id ∈ folded.sourceEdgeIds, filter.Stays response id) ∧
          filter.Keeps response folded.source ∧ filter.Keeps response folded.target) ∧
      filter.Keeps response layout.centerNodeId)
    ⟨fun h => ⟨h.1, h.2⟩, fun h => ⟨h.folded, h.center⟩⟩

instance (filter : Filter) : Decidable (filter.Faithful response) :=
  match h : response.canonicalLayout with
  | none => isTrue fun layout hlayout => absurd (h.symm.trans hlayout) (by simp)
  | some layout =>
    decidable_of_iff (filter.FaithfulTo response layout)
      ⟨fun hf other hother => Option.some.inj (h.symm.trans hother) ▸ hf, fun hf => hf layout h⟩

end Decide

instance decidableFaithfulRun : (filters : List Filter) → (response : GraphResponse) →
    Decidable (FaithfulRun filters response)
  | [], _ => isTrue trivial
  | filter :: filters, response =>
    have := decidableFaithfulRun filters (filter.apply response)
    inferInstanceAs (Decidable (filter.Faithful response ∧
      FaithfulRun filters (filter.apply response)))

def functionNode (id label : String) : GraphNode := ⟨id, label, .functionNode, 1, none, none, none⟩

def callEdge (id source target certainty : String) : GraphEdge :=
  ⟨id, source, target, .callEdge, none, some certainty, none⟩

theorem hostsUnclaimed_of_head {nodes : List GraphNode}
    (h : ∀ node ∈ nodes, node.id.toList.head? ≠ some '_') : HostsUnclaimed nodes := by
  intro node hnode _ label hid
  apply h node hnode
  rw [hid]
  unfold syntheticHostId
  rw [String.toList_append]
  rfl

instance (text : String) : Decidable (Plain text) :=
  inferInstanceAs (Decidable (':' ∉ text.toList))

def callerAndCallee : List GraphNode := [functionNode "a" "caller", functionNode "b" "callee"]

/-- Two certain calls that fold into one, and a probable one. -/
def callsOfCaller : List GraphEdge :=
  [callEdge "1" "a" "b" "certain", callEdge "2" "a" "b" "certain", callEdge "3" "a" "c" "probable"]

/-- The probable call is hidden, and its callee is pruned. -/
theorem layout_agrees_after_all_filters :
    (run [.hideSpeculative, .capEdges 2] (laidOut "a"
      (callerAndCallee ++ [functionNode "c" "other"]) callsOfCaller false 0)).edges =
        callsOfCaller.take 2 ∧
    LayoutAgrees
      (arrange "a" (callerAndCallee ++ [functionNode "c" "other"]) callsOfCaller).placement.place
      (run [.hideSpeculative, .capEdges 2] (laidOut "a"
        (callerAndCallee ++ [functionNode "c" "other"]) callsOfCaller false 0)) :=
  ⟨by decide, layout_agrees_along_run ⟨by decide, by decide, by decide⟩ (by decide)
    (hostsUnclaimed_of_head (by decide)) (by decide)⟩

/-- A certain and a probable call fold into one, and hiding leaves the id of the probable one. -/
theorem hidden_call_stays_in_layout :
    ProperGraph callerAndCallee
        [callEdge "1" "a" "b" "certain", callEdge "2" "a" "b" "probable"] ∧
      "a" ∈ callerAndCallee.map (·.id) ∧
      ¬LayoutAgrees
        (arrange "a" callerAndCallee
          [callEdge "1" "a" "b" "certain", callEdge "2" "a" "b" "probable"]).placement.place
        (run [.hideSpeculative] (laidOut "a" callerAndCallee
          [callEdge "1" "a" "b" "certain", callEdge "2" "a" "b" "probable"] false 0)) := by
  refine ⟨⟨by decide, by decide, by decide⟩, by decide, ?_⟩
  rintro ⟨layout, hlayout, hagrees⟩
  have hleak : ∃ left, (run [.hideSpeculative] (laidOut "a" callerAndCallee
      [callEdge "1" "a" "b" "certain", callEdge "2" "a" "b" "probable"] false 0)).canonicalLayout =
        some left ∧ ∃ folded ∈ left.edges, "2" ∈ folded.sourceEdgeIds :=
    ⟨_, rfl, by decide⟩
  obtain ⟨left, hleft, folded, hmem, hid⟩ := hleak
  obtain rfl : left = layout := Option.some.inj (hleft.symm.trans hlayout)
  exact absurd (hagrees.ids folded hmem "2" hid) (by decide)

end CodeStory.Layout
