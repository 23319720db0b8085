import CodeStory.Layout.Orders

/-!
# Conservation of the graph

The canonical layout loses no node and no edge and shows none twice, whatever the order in which
its hash maps are walked. The ids of made-up hosts are reserved: a node that has one may hide the
host, and with it the members that are shown there.
-/

set_option autoImplicit false

namespace CodeStory.Layout

open CodeStory.Graph (EdgeKind NodeKind)

/-! ## Rows -/

section Rows
variable {arrangement : Arrangement}

theorem placeNodes_ids (ids : List String)
    (hids : ∀ id ∈ ids, ∃ node, nodeById arrangement.allNodes id = some node) :
    ∀ rows, (arrangement.placeNodes rows ids).map (·.id) = ids := by
  induction ids with
  | nil => exact fun _ => rfl
  | cons id ids ih =>
    intro rows
    obtain ⟨node, hnode⟩ := hids id List.mem_cons_self
    have hrest := ih fun id hid => hids id (List.mem_cons_of_mem _ hid)
    unfold Arrangement.placeNodes
    rw [hnode]
    dsimp only
    rw [List.map_cons, hrest]
    rfl

theorem mem_placeNodes_eq (ids : List String) {shown : CanonicalNode} :
    ∀ rows, shown ∈ arrangement.placeNodes rows ids →
      ∃ node row, shown = arrangement.canonicalNode shown.id node row := by
  induction ids with
  | nil => exact fun _ h => absurd h List.not_mem_nil
  | cons id ids ih =>
    intro rows h
    unfold Arrangement.placeNodes at h
    split at h
    · exact ih _ h
    · rename_i node _
      rcases List.mem_cons.mp h with h | h
      · exact ⟨node, _, by rw [h]; rfl⟩
      · exact ih _ h

/-- The rows of a depth are counted up as long as the counter has room. -/
theorem placeNodes_rows (ids : List String) :
    ∀ rows, (∀ depth, (rows.get depth).getD 0 + ids.length ≤ 4294967296) →
      ((arrangement.placeNodes rows ids).map fun shown => (shown.xRank, shown.yRank)).Nodup ∧
        ∀ shown ∈ arrangement.placeNodes rows ids,
          (rows.get shown.xRank).getD 0 ≤ shown.yRank := by
  induction ids with
  | nil => exact fun _ _ => ⟨List.nodup_nil, fun _ h => absurd h List.not_mem_nil⟩
  | cons id ids ih =>
    intro rows hroom
    rw [List.length_cons] at hroom
    unfold Arrangement.placeNodes
    split
    · exact ih rows fun depth => by have := hroom depth; omega
    · rename_i node _
      dsimp only
      have hrow := hroom (arrangement.meanDepth id)
      have hget : ∀ depth, ((rows.put (arrangement.meanDepth id)
          (min ((rows.get (arrangement.meanDepth id)).getD 0 + 1) 4294967295)).get depth).getD 0 =
            if depth = arrangement.meanDepth id then
              min ((rows.get (arrangement.meanDepth id)).getD 0 + 1) 4294967295
            else (rows.get depth).getD 0 := by
        intro depth
        rw [SortedMap.get_put]
        split
        · rfl
        · rfl
      obtain ⟨hnodup, hleast⟩ := ih (rows.put (arrangement.meanDepth id)
        (min ((rows.get (arrangement.meanDepth id)).getD 0 + 1) 4294967295)) (by
          intro depth
          rw [hget]
          have := hroom depth
          split
          · omega
          · omega)
      refine ⟨?_, ?_⟩
      · rw [List.map_cons, List.nodup_cons]
        refine ⟨?_, hnodup⟩
        intro hmem
        obtain ⟨later, hlater, heq⟩ := List.mem_map.mp hmem
        rw [Prod.mk.injEq] at heq
        have hx : later.xRank = arrangement.meanDepth id := heq.1
        have hy : later.yRank = (rows.get (arrangement.meanDepth id)).getD 0 := heq.2
        have hpositive : 0 < ids.length := by
          cases ids with
          | nil => exact absurd hlater List.not_mem_nil
          | cons _ _ => exact Nat.succ_pos _
        have hle := hleast later hlater
        rw [hget, if_pos hx, hy] at hle
        omega
      · intro shown hshown
        rcases List.mem_cons.mp hshown with hshown | hshown
        · rw [hshown]
          exact Nat.le_refl _
        · have hle := hleast shown hshown
          rw [hget] at hle
          split at hle
          · rename_i hx
            rw [hx]
            omega
          · exact hle

end Rows

/-! ## Groups and members of the layout -/

/-- What the layout keeps of the graph. -/
structure Conserved (arrangement : Arrangement) (nodes : List GraphNode) (edges : List GraphEdge)
    (layout : CanonicalLayout) : Prop where
  distinct : (layout.nodes.map (·.id)).Nodup
  group : ∀ shown ∈ layout.nodes, (arrangement.mergedIds shown.id).Nodup ∧
    shown.duplicateCount = (arrangement.mergedIds shown.id).length
  accounted : ∀ node ∈ nodes,
    (∃ shown ∈ layout.nodes, shown.id = arrangement.placement.place node.id ∧
      node.id ∈ shown.members.map (·.id)) ∨
    ∃! shown, shown ∈ layout.nodes ∧ node.id ∈ arrangement.mergedIds shown.id
  apart : ∀ shown ∈ layout.nodes, ∀ id ∈ shown.members.map (·.id), ∀ other ∈ layout.nodes,
    id ∉ arrangement.mergedIds other.id
  keyed : (layout.edges.map (·.id)).Nodup
  folded : ∀ folded ∈ layout.edges, folded.sourceEdgeIds =
    (edgesWithKey arrangement.placement edges folded.id).map (·.id)
  once : ∀ edge ∈ edges, joinsPlaces arrangement.placement edge = true →
    ∃! folded, folded ∈ layout.edges ∧ edge ∈ edgesWithKey arrangement.placement edges folded.id
  total : (layout.edges.flatMap (·.sourceEdgeIds)).Perm
    ((edges.filter (joinsPlaces arrangement.placement)).map (·.id))
  multiplicity : ∀ folded ∈ layout.edges,
    folded.multiplicity = min folded.sourceEdgeIds.length 4294967295
  handles : ∀ folded ∈ layout.edges, ∀ id,
    (folded.sourceHandle = "source-member-" ++ id → ∃ shown ∈ layout.nodes,
      shown.id = folded.source ∧ id ∈ shown.members.map (·.id)) ∧
    (folded.targetHandle = "target-member-" ++ id → ∃ shown ∈ layout.nodes,
      shown.id = folded.target ∧ id ∈ shown.members.map (·.id))
  ranks : layout.nodes.length ≤ 4294967296 →
    (layout.nodes.map fun shown => (shown.xRank, shown.yRank)).Nodup

section Shown
variable {nodes : List GraphNode} {edges : List GraphEdge} (centerId : String)

theorem mem_canonicalNodeIds {arrangement : Arrangement} {canonical : String} :
    canonical ∈ arrangement.canonicalNodeIds ↔
      ∃ id, arrangement.nodeFold.canonicalNodeById.get id = some canonical := by
  unfold Arrangement.canonicalNodeIds
  rw [List.mem_insertionSort, List.mem_dedup, List.mem_map]
  constructor
  · rintro ⟨⟨id, _⟩, hentry, rfl⟩
    exact ⟨id, SortedMap.mem_entries_iff.mp hentry⟩
  · rintro ⟨id, hget⟩
    exact ⟨(id, canonical), SortedMap.mem_entries_iff.mpr hget, rfl⟩

theorem ids_buildCanonicalLayout :
    (buildCanonicalLayout centerId nodes edges).nodes.map (·.id) =
      (arrange centerId nodes edges).canonicalNodeIds := by
  apply placeNodes_ids
  intro id hid
  obtain ⟨key, hget⟩ := mem_canonicalNodeIds.mp hid
  exact nodeById_isSome ((merged_arrange centerId).value _ _ hget)

theorem nodup_canonicalNodeIds (arrangement : Arrangement) :
    arrangement.canonicalNodeIds.Nodup := by
  unfold Arrangement.canonicalNodeIds
  exact (List.perm_insertionSort _ _).nodup_iff.mpr (List.nodup_dedup _)

theorem mem_layout_nodes {shown : CanonicalNode}
    (h : shown ∈ (buildCanonicalLayout centerId nodes edges).nodes) :
    ∃ node row, shown = (arrange centerId nodes edges).canonicalNode shown.id node row :=
  mem_placeNodes_eq _ _ h

theorem mem_membersOf (hdistinct : (nodes.map (·.id)).Nodup) {canonical : String}
    {member : CanonicalMember} :
    member ∈ (arrange centerId nodes edges).membersOf canonical ↔ ∃ host members,
      (arrange centerId nodes edges).nodeFold.canonicalNodeById.get host = some canonical ∧
      (extractMembers nodes edges).membersByHost.get host = some members ∧ member ∈ members := by
  have hgathered := gathered_addMembers (arrange centerId nodes edges) hdistinct
    (genuine_extractMembers nodes edges)
    (arrange centerId nodes edges).nodeFold.canonicalNodeById.entries
  unfold Arrangement.membersOf
  rw [List.mem_insertionSort, hgathered.mem]
  constructor
  · rintro ⟨host, members, hentry, h⟩
    exact ⟨host, members, SortedMap.mem_entries_iff.mp hentry, h⟩
  · rintro ⟨host, members, hget, h⟩
    exact ⟨host, members, SortedMap.mem_entries_iff.mpr hget, h⟩

/-- A member is listed where the layout shows it. -/
theorem member_listed (hgraph : ProperGraph nodes edges) (hfree : Unreserved nodes)
    {id host : String} (hid : id ∈ nodes.map (·.id))
    (hhost : (extractMembers nodes edges).memberHostById.get id = some host) :
    ∃ shown ∈ (buildCanonicalLayout centerId nodes edges).nodes,
      shown.id = (arrange centerId nodes edges).placement.place id ∧
        id ∈ shown.members.map (·.id) := by
  obtain ⟨hmem, hnone⟩ := host_mem centerId hgraph hfree.hostsUnclaimed hid
  have hown : (arrange centerId nodes edges).placement.host id = host := by
    change ((extractMembers nodes edges).memberHostById.get id).getD id = host
    rw [hhost]
    rfl
  rw [hown] at hmem hnone
  obtain ⟨made, hmade, rfl⟩ := List.mem_map.mp hmem
  obtain ⟨canonical, hcanonical⟩ := (merged_arrange centerId).total made hmade hnone
  have hplace : (arrange centerId nodes edges).placement.place id = canonical := by
    unfold Placement.place
    rw [hown]
    change ((arrange centerId nodes edges).nodeFold.canonicalNodeById.get made.id).getD made.id = _
    rw [hcanonical]
    rfl
  obtain ⟨members, hmembers, hlisted⟩ :=
    (listed_extractMembers nodes edges).listed id made.id hhost
  obtain ⟨member, hmember, rfl⟩ := List.mem_map.mp hlisted
  have hids : canonical ∈ (buildCanonicalLayout centerId nodes edges).nodes.map (·.id) := by
    rw [ids_buildCanonicalLayout]
    exact mem_canonicalNodeIds.mpr ⟨made.id, hcanonical⟩
  obtain ⟨shown, hshown, rfl⟩ := List.mem_map.mp hids
  refine ⟨shown, hshown, hplace.symm, List.mem_map.mpr ⟨member, ?_, rfl⟩⟩
  obtain ⟨node, row, heq⟩ := mem_layout_nodes centerId hshown
  rw [heq]
  exact (mem_membersOf centerId hgraph.distinct).mpr
    ⟨made.id, members, hcanonical, hmembers, hmember⟩

/-- What is listed as a member has a host. -/
theorem isSome_of_listed (hdistinct : (nodes.map (·.id)).Nodup) {shown : CanonicalNode}
    (hshown : shown ∈ (buildCanonicalLayout centerId nodes edges).nodes) {id : String}
    (hid : id ∈ shown.members.map (·.id)) :
    ((extractMembers nodes edges).memberHostById.get id).isSome := by
  obtain ⟨node, row, heq⟩ := mem_layout_nodes centerId hshown
  obtain ⟨member, hmember, rfl⟩ := List.mem_map.mp hid
  rw [heq] at hmember
  obtain ⟨host, members, -, hmembers, hmember⟩ := (mem_membersOf centerId hdistinct).mp hmember
  obtain ⟨node, -, rfl, hsome⟩ :=
    (listed_extractMembers nodes edges).genuine host members hmembers member hmember
  exact hsome

/-! ## Merge groups -/

/-- The nodes that are shown as the one with this id. -/
def mergeGroup (nodes : List GraphNode) (edges : List GraphEdge) (canonical : String) :
    List GraphNode :=
  groupOf (extractMembers nodes edges).memberHostById (arrange centerId nodes edges).depthOf
    (arrange centerId nodes edges).centerHost (arrange centerId nodes edges).allNodes canonical

theorem grouped_arrange (hdistinct : (nodes.map (·.id)).Nodup) (hfree : Unreserved nodes) :
    Grouped (extractMembers nodes edges).memberHostById (arrange centerId nodes edges).depthOf
      (arrange centerId nodes edges).centerHost (arrange centerId nodes edges).allNodes
      (arrange centerId nodes edges).nodeFold :=
  grouped_foldNodes _ _ _ (distinct_allNodes hdistinct hfree edges)

theorem mem_mergeGroup {canonical : String} {node : GraphNode} :
    node ∈ mergeGroup centerId nodes edges canonical ↔
      node ∈ (arrange centerId nodes edges).allNodes ∧
      shownAlone (extractMembers nodes edges).memberHostById node = true ∧
      canonOf (extractMembers nodes edges).memberHostById (arrange centerId nodes edges).depthOf
        (arrange centerId nodes edges).centerHost (arrange centerId nodes edges).allNodes node =
          canonical := by
  unfold mergeGroup groupOf
  rw [List.mem_filter, Bool.and_eq_true, decide_eq_true_eq]

theorem mergeGroup_ne_nil (hdistinct : (nodes.map (·.id)).Nodup) (hfree : Unreserved nodes)
    {shown : CanonicalNode}
    (hshown : shown ∈ (buildCanonicalLayout centerId nodes edges).nodes) :
    mergeGroup centerId nodes edges shown.id ≠ [] := by
  have hid : shown.id ∈ (arrange centerId nodes edges).canonicalNodeIds := by
    rw [← ids_buildCanonicalLayout]
    exact List.mem_map_of_mem hshown
  obtain ⟨id, hget⟩ := mem_canonicalNodeIds.mp hid
  rw [(grouped_arrange centerId hdistinct hfree).canon] at hget
  obtain ⟨node, hfind, hcanon⟩ := Option.map_eq_some_iff.mp hget
  have hp := List.find?_some hfind
  rw [Bool.and_eq_true] at hp
  apply List.ne_nil_of_mem
  exact (mem_mergeGroup centerId).mpr ⟨List.mem_of_find?_eq_some hfind, hp.1, hcanon⟩

theorem mergedIds_eq (hdistinct : (nodes.map (·.id)).Nodup) (hfree : Unreserved nodes)
    {shown : CanonicalNode}
    (hshown : shown ∈ (buildCanonicalLayout centerId nodes edges).nodes) :
    (arrange centerId nodes edges).mergedIds shown.id =
      (mergeGroup centerId nodes edges shown.id).map (·.id) := by
  unfold Arrangement.mergedIds
  rw [(grouped_arrange centerId hdistinct hfree).merged]
  have hne := mergeGroup_ne_nil centerId hdistinct hfree hshown
  unfold mergeGroup at hne
  unfold keptFor
  rw [if_neg hne]
  rfl

theorem duplicateCount_eq (hdistinct : (nodes.map (·.id)).Nodup) (hfree : Unreserved nodes)
    {shown : CanonicalNode}
    (hshown : shown ∈ (buildCanonicalLayout centerId nodes edges).nodes) :
    shown.duplicateCount = (mergeGroup centerId nodes edges shown.id).length := by
  have hcount : shown.duplicateCount =
      ((arrange centerId nodes edges).nodeFold.duplicateCountByCanonical.get shown.id).getD 1 := by
    obtain ⟨node, row, heq⟩ := mem_layout_nodes centerId hshown
    rw [heq]
    rfl
  have hne := mergeGroup_ne_nil centerId hdistinct hfree hshown
  unfold mergeGroup at hne
  rw [hcount, (grouped_arrange centerId hdistinct hfree).count]
  unfold keptFor
  rw [if_neg hne]
  rfl

theorem nodup_mergeGroup (hdistinct : (nodes.map (·.id)).Nodup) (hfree : Unreserved nodes)
    (canonical : String) : ((mergeGroup centerId nodes edges canonical).map (·.id)).Nodup :=
  ((List.filter_sublist).map _).nodup (distinct_allNodes hdistinct hfree edges)

/-- A node that is not a member is in the group of one shown node. -/
theorem grouped_once (hdistinct : (nodes.map (·.id)).Nodup) (hfree : Unreserved nodes)
    {node : GraphNode} (hnode : node ∈ nodes)
    (hnone : (extractMembers nodes edges).memberHostById.get node.id = none) :
    ∃! shown, shown ∈ (buildCanonicalLayout centerId nodes edges).nodes ∧
      node.id ∈ (arrange centerId nodes edges).mergedIds shown.id := by
  have hall : node ∈ (arrange centerId nodes edges).allNodes := List.mem_append_left _ hnode
  have halone : shownAlone (extractMembers nodes edges).memberHostById node = true := by
    unfold shownAlone
    rw [hnone]
    rfl
  obtain ⟨canonical, hcanonical⟩ := (merged_arrange centerId).total node hall hnone
  have hids : canonical ∈ (buildCanonicalLayout centerId nodes edges).nodes.map (·.id) := by
    rw [ids_buildCanonicalLayout]
    exact mem_canonicalNodeIds.mpr ⟨node.id, hcanonical⟩
  obtain ⟨shown, hshown, rfl⟩ := List.mem_map.mp hids
  have hgroup : ∀ other ∈ (buildCanonicalLayout centerId nodes edges).nodes,
      node.id ∈ (arrange centerId nodes edges).mergedIds other.id ↔
        node ∈ mergeGroup centerId nodes edges other.id := by
    intro other hother
    rw [mergedIds_eq centerId hdistinct hfree hother]
    constructor
    · intro h
      obtain ⟨same, hsame, hid⟩ := List.mem_map.mp h
      have heq := List.inj_on_of_nodup_map (distinct_allNodes hdistinct hfree edges)
        ((mem_mergeGroup centerId).mp hsame).1 hall hid
      rw [← heq]
      exact hsame
    · exact fun h => List.mem_map_of_mem h
  have hown : canonOf (extractMembers nodes edges).memberHostById
      (arrange centerId nodes edges).depthOf (arrange centerId nodes edges).centerHost
      (arrange centerId nodes edges).allNodes node = shown.id := by
    rw [(grouped_arrange centerId hdistinct hfree).canon] at hcanonical
    obtain ⟨same, hfind, hcanon⟩ := Option.map_eq_some_iff.mp hcanonical
    have hp := List.find?_some hfind
    rw [Bool.and_eq_true] at hp
    have heq := List.inj_on_of_nodup_map (distinct_allNodes hdistinct hfree edges)
      (List.mem_of_find?_eq_some hfind) hall (of_decide_eq_true hp.2)
    rw [← heq]
    exact hcanon
  refine ⟨shown, ⟨hshown, (hgroup shown hshown).mpr ?_⟩, ?_⟩
  · exact (mem_mergeGroup centerId).mpr ⟨hall, halone, hown⟩
  · rintro other ⟨hother, hmem⟩
    have hcanon := ((mem_mergeGroup centerId).mp ((hgroup other hother).mp hmem)).2.2
    have hids : ((buildCanonicalLayout centerId nodes edges).nodes.map (·.id)).Nodup := by
      rw [ids_buildCanonicalLayout]
      exact nodup_canonicalNodeIds _
    exact List.inj_on_of_nodup_map hids hother hshown (hcanon.symm.trans hown)

/-! ## Folded edges of the layout -/

theorem mem_layout_edges {folded : CanonicalEdge}
    (h : folded ∈ (buildCanonicalLayout centerId nodes edges).edges) :
    (foldEdges (arrange centerId nodes edges).placement edges).get folded.id = some folded := by
  obtain ⟨⟨key, entry⟩, hentry, rfl⟩ := List.mem_map.mp h
  have hget := SortedMap.mem_entries_iff.mp hentry
  have hid := ((foldedTogether_foldEdges _ edges).entry key entry hget).2.1
  dsimp only
  rw [hid]
  exact hget

theorem nodup_layout_edges :
    ((buildCanonicalLayout centerId nodes edges).edges.map (·.id)).Nodup := by
  unfold List.Nodup
  rw [List.pairwise_map]
  exact (sorted_foldedEdges (arrange centerId nodes edges).placement edges).imp fun h => ne_of_lt h

/-- Every edge between two places is folded under its key. -/
theorem folded_of_joins {edge : GraphEdge} (hedge : edge ∈ edges)
    (hjoins : joinsPlaces (arrange centerId nodes edges).placement edge = true) :
    ∃ folded ∈ (buildCanonicalLayout centerId nodes edges).edges,
      folded.id = (arrange centerId nodes edges).placement.edgeKey edge := by
  have hfolded := foldedTogether_foldEdges (arrange centerId nodes edges).placement edges
  have hmem : edge ∈ edgesWithKey (arrange centerId nodes edges).placement edges
      ((arrange centerId nodes edges).placement.edgeKey edge) := by
    unfold edgesWithKey
    rw [List.mem_filter, hjoins, Bool.true_and]
    exact ⟨hedge, decide_eq_true rfl⟩
  cases hget : (foldEdges (arrange centerId nodes edges).placement edges).get
      ((arrange centerId nodes edges).placement.edgeKey edge) with
  | none => exact absurd (hfolded.absent _ hget ▸ hmem) List.not_mem_nil
  | some entry =>
    refine ⟨entry, ?_, (hfolded.entry _ _ hget).2.1⟩
    exact List.mem_map.mpr ⟨_, SortedMap.mem_entries_iff.mpr hget, rfl⟩

theorem total_sourceEdgeIds :
    ((buildCanonicalLayout centerId nodes edges).edges.flatMap (·.sourceEdgeIds)).Perm
      ((edges.filter (joinsPlaces (arrange centerId nodes edges).placement)).map (·.id)) := by
  have hfolded := foldedTogether_foldEdges (arrange centerId nodes edges).placement edges
  have hids : (buildCanonicalLayout centerId nodes edges).edges.flatMap (·.sourceEdgeIds) =
      (((buildCanonicalLayout centerId nodes edges).edges.map (·.id)).flatMap fun key =>
        (edges.filter (joinsPlaces (arrange centerId nodes edges).placement)).filter fun edge =>
          (arrange centerId nodes edges).placement.edgeKey edge = key).map (·.id) := by
    rw [List.map_flatMap, List.flatMap_map]
    apply List.flatMap_congr
    intro folded hmem
    rw [(hfolded.entry _ _ (mem_layout_edges centerId hmem)).2.2.1, List.filter_filter]
    unfold edgesWithKey
    congr 1
    apply List.filter_congr
    intro edge _
    exact Bool.and_comm _ _
  rw [hids]
  apply List.Perm.map
  apply Selection.flatMap_filter_perm _ (nodup_layout_edges centerId)
  intro edge hedge
  obtain ⟨hedge, hjoins⟩ := List.mem_filter.mp hedge
  obtain ⟨folded, hmem, hid⟩ := folded_of_joins centerId hedge hjoins
  exact List.mem_map.mpr ⟨folded, hmem, hid⟩

/-- The handle of an endpoint that is a member names it, and no other handle names a member. -/
theorem member_of_handle {name other id : String} {hosted : Bool} {front : String}
    (hother : ∀ id, other ≠ front ++ id)
    (h : (if hosted = true then front ++ name else other) = front ++ id) :
    hosted = true ∧ name = id := by
  split at h
  · rename_i hhosted
    refine ⟨hhosted, ?_⟩
    have hchars := congrArg String.toList h
    rw [String.toList_append, String.toList_append] at hchars
    exact String.toList_inj.mp (List.append_cancel_left hchars)
  · exact absurd h (hother id)

theorem ne_append {text front : String} (h : ¬ front.toList.isPrefixOf text.toList = true)
    (id : String) : text ≠ front ++ id := by
  intro heq
  apply h
  rw [heq, String.toList_append, List.isPrefixOf_iff_prefix]
  exact List.prefix_append _ _

theorem source_of_handle {placement : Placement} {edge : GraphEdge} {id : String}
    (h : placement.sourceHandle edge = "source-member-" ++ id) :
    edge.source = id ∧ ∃ host, placement.memberHostById.get id = some host := by
  obtain ⟨hhosted, rfl⟩ := member_of_handle (fun id => by
    split
    · exact ne_append (by decide) id
    · exact ne_append (by decide) id) h
  exact ⟨rfl, Option.isSome_iff_exists.mp hhosted⟩

theorem target_of_handle {placement : Placement} {edge : GraphEdge} {id : String}
    (h : placement.targetHandle edge = "target-member-" ++ id) :
    edge.target = id ∧ ∃ host, placement.memberHostById.get id = some host := by
  obtain ⟨hhosted, rfl⟩ := member_of_handle (fun id => by
    split
    · exact ne_append (by decide) id
    · exact ne_append (by decide) id) h
  exact ⟨rfl, Option.isSome_iff_exists.mp hhosted⟩

theorem handles_listed (hgraph : ProperGraph nodes edges) (hfree : Unreserved nodes)
    {folded : CanonicalEdge} (hmem : folded ∈ (buildCanonicalLayout centerId nodes edges).edges)
    (id : String) :
    (folded.sourceHandle = "source-member-" ++ id →
      ∃ shown ∈ (buildCanonicalLayout centerId nodes edges).nodes,
        shown.id = folded.source ∧ id ∈ shown.members.map (·.id)) ∧
    (folded.targetHandle = "target-member-" ++ id →
      ∃ shown ∈ (buildCanonicalLayout centerId nodes edges).nodes,
        shown.id = folded.target ∧ id ∈ shown.members.map (·.id)) := by
  obtain ⟨edge, hkeyed, hsource, htarget, hsourceHandle, htargetHandle⟩ :=
    (foldedTogether_foldEdges (arrange centerId nodes edges).placement edges).first _ _
      (mem_layout_edges centerId hmem)
  have hends := hgraph.ends edge (List.mem_filter.mp hkeyed).1
  rw [hsource, htarget, hsourceHandle, htargetHandle]
  constructor
  · intro h
    obtain ⟨rfl, host, hhost⟩ := source_of_handle h
    exact member_listed centerId hgraph hfree hends.1 hhost
  · intro h
    obtain ⟨rfl, host, hhost⟩ := target_of_handle h
    exact member_listed centerId hgraph hfree hends.2 hhost

end Shown

/-- The layout conserves the graph and is the same in every order of its hash maps. -/
theorem canonical_layout_conserves_the_graph (centerId : String) (nodes : List GraphNode)
    (edges : List GraphEdge) (hgraph : ProperGraph nodes edges) (hfree : Unreserved nodes) :
    Conserved (arrange centerId nodes edges) nodes edges
        (buildCanonicalLayout centerId nodes edges) ∧
      ∀ order, layoutIn order centerId nodes edges = buildCanonicalLayout centerId nodes edges := by
  have hdistinct := hgraph.distinct
  have hfolded := foldedTogether_foldEdges (arrange centerId nodes edges).placement edges
  refine ⟨⟨?_, ?_, ?_, ?_, nodup_layout_edges centerId, ?_, ?_, total_sourceEdgeIds centerId, ?_,
    fun folded hmem id => handles_listed centerId hgraph hfree hmem id, ?_⟩,
    fun order => layoutIn_eq order centerId hdistinct hfree⟩
  · rw [ids_buildCanonicalLayout]
    exact nodup_canonicalNodeIds _
  · intro shown hshown
    rw [mergedIds_eq centerId hdistinct hfree hshown, List.length_map]
    exact ⟨nodup_mergeGroup centerId hdistinct hfree _,
      duplicateCount_eq centerId hdistinct hfree hshown⟩
  · intro node hnode
    cases hhost : (extractMembers nodes edges).memberHostById.get node.id with
    | none => exact .inr (grouped_once centerId hdistinct hfree hnode hhost)
    | some host =>
      exact .inl (member_listed centerId hgraph hfree (List.mem_map_of_mem hnode) hhost)
  · intro shown hshown id hid other hother hmem
    have hsome := isSome_of_listed centerId hdistinct hshown hid
    rw [mergedIds_eq centerId hdistinct hfree hother] at hmem
    obtain ⟨node, hnode, rfl⟩ := List.mem_map.mp hmem
    have halone := ((mem_mergeGroup centerId).mp hnode).2.1
    unfold shownAlone at halone
    rw [Option.isNone_iff_eq_none] at halone
    rw [halone] at hsome
    cases hsome
  · intro folded hmem
    exact (hfolded.entry _ _ (mem_layout_edges centerId hmem)).2.2.1
  · intro edge hedge hjoins
    obtain ⟨folded, hmem, hid⟩ := folded_of_joins centerId hedge hjoins
    refine ⟨folded, ⟨hmem, ?_⟩, ?_⟩
    · unfold edgesWithKey
      rw [List.mem_filter, hjoins, Bool.true_and]
      exact ⟨hedge, decide_eq_true hid.symm⟩
    · rintro other ⟨hother, hkeyed⟩
      unfold edgesWithKey at hkeyed
      rw [List.mem_filter, Bool.and_eq_true] at hkeyed
      exact List.inj_on_of_nodup_map (nodup_layout_edges centerId) hother hmem
        ((of_decide_eq_true hkeyed.2.2).symm.trans hid.symm)
  · intro folded hmem
    obtain ⟨-, -, hids, hcount⟩ := hfolded.entry _ _ (mem_layout_edges centerId hmem)
    rw [hcount, hids, List.length_map]
  · intro hroom
    refine (placeNodes_rows _ _ fun depth => ?_).1
    have hlength : (arrange centerId nodes edges).canonicalNodeIds.length =
        (buildCanonicalLayout centerId nodes edges).nodes.length := by
      rw [← ids_buildCanonicalLayout, List.length_map]
    rw [hlength]
    change 0 + _ ≤ 4294967296
    omega

theorem unreserved_of_head {nodes : List GraphNode}
    (h : ∀ node ∈ nodes, node.id.toList.head? ≠ some '_') : Unreserved nodes := by
  intro node hnode label heq
  apply h node hnode
  rw [heq]
  unfold syntheticHostId
  rw [String.toList_append]
  rfl

def plainNode (id label : String) (kind : NodeKind) : GraphNode :=
  ⟨id, label, kind, 1, none, none, none⟩

def plainEdge (id source target : String) (kind : EdgeKind) : GraphEdge :=
  ⟨id, source, target, kind, none, none, none⟩

def sampleNodes : List GraphNode :=
  [plainNode "1" "Store" .classNode, plainNode "2" "Store::open" .methodNode,
    plainNode "3" "Cache::read" .methodNode, plainNode "4" "helper" .functionNode,
    plainNode "5" "Helper" .functionNode]

def sampleEdges : List GraphEdge :=
  [plainEdge "10" "1" "2" .memberEdge, plainEdge "11" "2" "4" .callEdge,
    plainEdge "12" "2" "5" .callEdge, plainEdge "13" "3" "2" .callEdge]

theorem sample_layout_conserves_the_graph :
    (Conserved (arrange "1" sampleNodes sampleEdges) sampleNodes sampleEdges
        (buildCanonicalLayout "1" sampleNodes sampleEdges) ∧
      ∀ order, layoutIn order "1" sampleNodes sampleEdges =
        buildCanonicalLayout "1" sampleNodes sampleEdges) ∧
      (buildCanonicalLayout "1" sampleNodes sampleEdges).edges.map (·.sourceEdgeIds) =
        [["11", "12"], ["13"]] := by
  refine ⟨canonical_layout_conserves_the_graph "1" sampleNodes sampleEdges ⟨?_, ?_, ?_⟩ ?_, ?_⟩
  · decide
  · unfold Plain
    decide
  · decide
  · apply unreserved_of_head
    decide
  · decide

/-- A function that has the reserved id of the host of `Foo::bar`. -/
def hiddenHostNodes : List GraphNode :=
  [plainNode "__synthetic_host__foo" "X::y" .functionNode,
    plainNode "2" "Foo::bar" .functionNode]

/-- The host is taken for a member of another one, and `Foo::bar` is not shown. -/
theorem reserved_id_loses_a_node :
    ProperGraph hiddenHostNodes [] ∧
      ∀ shown ∈ (buildCanonicalLayout "2" hiddenHostNodes []).nodes,
        "2" ∉ shown.members.map (·.id) ∧
          "2" ∉ (arrange "2" hiddenHostNodes []).mergedIds shown.id := by
  refine ⟨⟨?_, ?_, ?_⟩, ?_⟩
  · decide
  · unfold Plain
    decide
  · exact fun edge hedge => absurd hedge List.not_mem_nil
  · decide

end CodeStory.Layout
