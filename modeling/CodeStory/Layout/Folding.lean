import Mathlib.Data.List.Dedup
import CodeStory.Layout.Canonical
import CodeStory.Lib.Encoding

/-!
# A fresh layout agrees with its graph

Every end of an edge and the center are shown on a node of the layout, every folded edge stands
for edges of the graph, and every edge between different shown places is folded into one. That
keys of folded edges do not clash rests on ids without a colon.
-/

set_option autoImplicit false

namespace CodeStory.Layout

open CodeStory.Graph (EdgeKind NodeKind)

/-! ## Texts without a colon -/

def Plain (text : String) : Prop := ':' ∉ text.toList

theorem Plain.append {a b : String} (ha : Plain a) (hb : Plain b) : Plain (a ++ b) := by
  unfold Plain at *
  rw [String.toList_append, List.mem_append]
  exact fun h => h.elim ha hb

/-- The first four fields of a text joined by colons can be read back. -/
theorem join_inj {a b c d e a' b' c' d' e' : String} (ha : Plain a) (hb : Plain b) (hc : Plain c)
    (hd : Plain d) (ha' : Plain a') (hb' : Plain b') (hc' : Plain c') (hd' : Plain d')
    (h : a ++ ":" ++ b ++ ":" ++ c ++ ":" ++ d ++ ":" ++ e =
      a' ++ ":" ++ b' ++ ":" ++ c' ++ ":" ++ d' ++ ":" ++ e') :
    a = a' ∧ b = b' ∧ c = c' ∧ d = d' := by
  have hlist := congrArg String.toList h
  simp only [String.toList_append, List.append_assoc] at hlist
  obtain ⟨h1, hlist⟩ := Encoding.append_cons_inj ha ha' hlist
  obtain ⟨h2, hlist⟩ := Encoding.append_cons_inj hb hb' hlist
  obtain ⟨h3, hlist⟩ := Encoding.append_cons_inj hc hc' hlist
  obtain ⟨h4, _⟩ := Encoding.append_cons_inj hd hd' hlist
  exact ⟨String.toList_inj.mp h1, String.toList_inj.mp h2, String.toList_inj.mp h3,
    String.toList_inj.mp h4⟩

theorem plain_edgeKindName (kind : EdgeKind) : Plain (edgeKindName kind) := by
  unfold Plain
  cases kind <;> decide

theorem edgeKindName_inj {kind kind' : EdgeKind} (h : edgeKindName kind = edgeKindName kind') :
    kind = kind' := by
  cases kind <;> cases kind' <;> first | rfl | (exact absurd h (by decide))

theorem slugChar_plain {slug : List Char × Bool} {c : Char} (h : ':' ∉ slug.1) :
    ':' ∉ (slugChar slug c).1 := by
  unfold slugChar
  dsimp only
  split
  · rename_i halnum
    rw [List.mem_append, List.mem_singleton]
    rintro (hmem | hcolon)
    · exact h hmem
    · rw [← hcolon] at halnum
      exact absurd halnum (by decide)
  · split
    · rw [List.mem_append, List.mem_singleton]
      rintro (hmem | hcolon)
      · exact h hmem
      · exact absurd hcolon (by decide)
    · exact h

theorem plain_syntheticHostId (label : String) : Plain (syntheticHostId label) := by
  have hfold : ∀ (chars : List Char) (slug : List Char × Bool), ':' ∉ slug.1 →
      ':' ∉ (chars.foldl slugChar slug).1 := by
    intro chars
    induction chars with
    | nil => exact fun slug h => h
    | cons c chars ih => exact fun slug h => ih _ (slugChar_plain h)
  apply Plain.append
  · unfold Plain
    decide
  · unfold Plain slugOf
    rw [String.toList_ofList]
    dsimp only
    split
    · decide
    · rw [List.mem_reverse]
      intro hmem
      have hmem := (List.dropWhile_sublist _).subset hmem
      rw [List.mem_reverse] at hmem
      exact hfold _ _ (by simp) hmem

/-! ## Members and hosts -/

theorem mem_of_nodeById {nodes : List GraphNode} {id : String} {node : GraphNode}
    (h : nodeById nodes id = some node) : node ∈ nodes ∧ node.id = id := by
  unfold nodeById at h
  exact ⟨List.mem_reverse.mp (List.mem_of_find?_eq_some h), by simpa using List.find?_some h⟩

theorem nodeById_isSome {nodes : List GraphNode} {id : String} (h : id ∈ nodes.map (·.id)) :
    ∃ node, nodeById nodes id = some node := by
  obtain ⟨node, hnode, rfl⟩ := List.mem_map.mp h
  unfold nodeById
  rw [← Option.isSome_iff_exists, List.find?_isSome]
  exact ⟨node, List.mem_reverse.mpr hnode, by simp⟩

section Members
variable {nodes : List GraphNode}

/-- An id that may stand for a host. -/
def HostId (nodes synthetic : List GraphNode) (id : String) : Prop :=
  (∃ node ∈ nodes, node.id = id ∧ isStructuralKind node.kind = true) ∨
    ∃ host ∈ synthetic, host.id = id

theorem HostId.mono {synthetic synthetic' : List GraphNode} {id : String}
    (h : HostId nodes synthetic id) (hsub : synthetic ⊆ synthetic') :
    HostId nodes synthetic' id := by
  rcases h with h | ⟨host, hhost, hid⟩
  · exact Or.inl h
  · exact Or.inr ⟨host, hsub hhost, hid⟩

/-- Members are nodes that are not structural; hosts are structural or made up. -/
structure Hosted (nodes : List GraphNode) (extraction : MemberExtraction) : Prop where
  member : ∀ id host, extraction.memberHostById.get id = some host →
    ∃ node ∈ nodes, node.id = id ∧ isStructuralKind node.kind = false
  host : ∀ id host, extraction.memberHostById.get id = some host →
    HostId nodes extraction.syntheticHosts host
  synthetic : ∀ host ∈ extraction.syntheticHosts, ∃ label, host.id = syntheticHostId label

theorem Hosted.addMember {extraction : MemberExtraction} (h : Hosted nodes extraction)
    {hostId : String} {node : GraphNode} (hhost : HostId nodes extraction.syntheticHosts hostId)
    (hnode : node ∈ nodes) (hkind : isStructuralKind node.kind = false) :
    Hosted nodes (extraction.addMember hostId node) := by
  refine ⟨?_, ?_, h.synthetic⟩
  · intro id host hget
    simp only [MemberExtraction.addMember, SortedMap.get_put] at hget
    split at hget
    · rename_i hid
      exact ⟨node, hnode, hid.symm, hkind⟩
    · exact h.member id host hget
  · intro id host hget
    simp only [MemberExtraction.addMember, SortedMap.get_put] at hget
    split at hget
    · cases hget
      exact hhost
    · exact h.host id host hget

theorem memberAndHost_spec {edge : GraphEdge} {member host : GraphNode}
    (h : memberAndHost nodes edge = some (member, host)) :
    member ∈ nodes ∧ isStructuralKind member.kind = false ∧ host ∈ nodes ∧
      isStructuralKind host.kind = true := by
  unfold memberAndHost at h
  split at h
  · cases h
  · split at h
    · rename_i source target hsource htarget
      have hsource := (mem_of_nodeById hsource).1
      have htarget := (mem_of_nodeById htarget).1
      split at h
      · rename_i hkinds
        cases h
        simp only [Bool.and_eq_true, Bool.not_eq_true'] at hkinds
        exact ⟨htarget, hkinds.2, hsource, hkinds.1⟩
      · split at h
        · rename_i hkinds
          cases h
          simp only [Bool.and_eq_true, Bool.not_eq_true'] at hkinds
          exact ⟨hsource, hkinds.1, htarget, hkinds.2⟩
        · cases h
    · cases h

theorem hosted_memberEdges (edges : List GraphEdge) :
    Hosted nodes (edges.foldl (visitMemberEdge nodes) {}) := by
  have hfold : ∀ (edges : List GraphEdge) (extraction : MemberExtraction),
      Hosted nodes extraction → Hosted nodes (edges.foldl (visitMemberEdge nodes) extraction) := by
    intro edges
    induction edges with
    | nil => exact fun extraction h => h
    | cons edge edges ih =>
      intro extraction h
      apply ih
      unfold visitMemberEdge
      split
      · exact h
      · rename_i member host hspec
        obtain ⟨hmember, hkind, hhost, hstructural⟩ := memberAndHost_spec hspec
        exact h.addMember (Or.inl ⟨host, hhost, rfl, hstructural⟩) hmember hkind
  apply hfold
  exact ⟨by simp, by simp, by simp⟩

/-- The invariant of the search for the hosts of qualified labels. -/
structure Searched (nodes : List GraphNode) (search : HostSearch) : Prop where
  hosted : Hosted nodes search.extraction
  labelled : ∀ label host, search.hostIdsByLabel.get label = some host →
    HostId nodes search.extraction.syntheticHosts host

theorem Searched.makeHost {search : HostSearch} (h : Searched nodes search) (label : String)
    (member : GraphNode) :
    Searched nodes (search.makeHost label member) ∧
      HostId nodes (search.makeHost label member).extraction.syntheticHosts
        (syntheticHostId label) := by
  have hsub : search.extraction.syntheticHosts ⊆
      (search.makeHost label member).extraction.syntheticHosts := by
    unfold HostSearch.makeHost
    dsimp only
    split
    · exact fun _ h => h
    · exact List.subset_append_left _ _
  have hmade : HostId nodes (search.makeHost label member).extraction.syntheticHosts
      (syntheticHostId label) := by
    unfold HostSearch.makeHost
    dsimp only
    split
    · rename_i hany
      obtain ⟨host, hhost, hid⟩ := List.any_eq_true.mp hany
      exact Or.inr ⟨host, hhost, of_decide_eq_true hid⟩
    · exact Or.inr ⟨syntheticHost label member, by simp, rfl⟩
  refine ⟨⟨⟨h.hosted.member, ?_, ?_⟩, ?_⟩, hmade⟩
  · intro id host hget
    exact (h.hosted.host id host hget).mono hsub
  · intro host hhost
    unfold HostSearch.makeHost at hhost
    dsimp only at hhost
    split at hhost
    · exact h.hosted.synthetic host hhost
    · rcases List.mem_append.mp hhost with hhost | hhost
      · exact h.hosted.synthetic host hhost
      · rw [List.mem_singleton.mp hhost]
        exact ⟨label, rfl⟩
  · intro label' host hget
    change (search.hostIdsByLabel.put label (syntheticHostId label)).get label' = some host at hget
    rw [SortedMap.get_put] at hget
    split at hget
    · cases hget
      exact hmade
    · exact (h.labelled label' host hget).mono hsub

theorem Searched.attach {search : HostSearch} (h : Searched nodes search) {hostId : String}
    {node : GraphNode} (hhost : HostId nodes search.extraction.syntheticHosts hostId)
    (hnode : node ∈ nodes) (hkind : isStructuralKind node.kind = false) :
    Searched nodes (search.attach hostId node) :=
  ⟨h.hosted.addMember hhost hnode hkind, h.labelled⟩

theorem Searched.visit {search : HostSearch} (h : Searched nodes search) {node : GraphNode}
    (hnode : node ∈ nodes) : Searched nodes (visitQualifiedNode search node) := by
  unfold visitQualifiedNode
  split
  · exact h
  · rename_i hskip
    have hkind : isStructuralKind node.kind = false := by
      cases hstructural : isStructuralKind node.kind with
      | false => rfl
      | true => simp [hstructural] at hskip
    split
    · exact h
    · rename_i label _
      split
      · rename_i hostId hget
        exact h.attach (h.labelled label hostId hget) hnode hkind
      · obtain ⟨hmade, hhost⟩ := h.makeHost label node
        exact hmade.attach hhost hnode hkind

theorem structuralHostIds_spec {label host : String}
    (h : (structuralHostIds nodes).get label = some host) :
    ∃ node ∈ nodes, node.id = host ∧ isStructuralKind node.kind = true := by
  have hfold : ∀ (structural : List GraphNode) (hosts : SortedMap String String),
      (structural.foldl (fun hosts node => hosts.put node.label node.id) hosts).get label =
        some host → (∃ node ∈ structural, node.id = host) ∨ hosts.get label = some host := by
    intro structural
    induction structural with
    | nil => exact fun hosts h => Or.inr h
    | cons node structural ih =>
      intro hosts h
      rcases ih _ h with ⟨other, hother, hid⟩ | h
      · exact Or.inl ⟨other, List.mem_cons_of_mem _ hother, hid⟩
      · rw [SortedMap.get_put] at h
        split at h
        · cases h
          exact Or.inl ⟨node, List.mem_cons_self, rfl⟩
        · exact Or.inr h
  rcases hfold _ _ h with ⟨node, hnode, hid⟩ | h
  · obtain ⟨hnode, hkind⟩ := List.mem_filter.mp hnode
    exact ⟨node, hnode, hid, hkind⟩
  · cases h

theorem hosted_extractMembers (nodes : List GraphNode) (edges : List GraphEdge) :
    Hosted nodes (extractMembers nodes edges) := by
  have hfold : ∀ (rest : List GraphNode) (search : HostSearch), rest ⊆ nodes →
      Searched nodes search → Searched nodes (rest.foldl visitQualifiedNode search) := by
    intro rest
    induction rest with
    | nil => exact fun search _ h => h
    | cons node rest ih =>
      intro search hsub h
      exact ih _ (fun other hother => hsub (List.mem_cons_of_mem _ hother))
        (h.visit (hsub List.mem_cons_self))
  unfold extractMembers
  refine (hfold nodes _ (fun _ h => h) ⟨hosted_memberEdges edges, ?_⟩).hosted
  intro label host hget
  exact Or.inl (structuralHostIds_spec hget)

end Members

/-! ## Merged nodes -/

section Merging
variable {memberHostById : SortedMap String String} {depthOf : String → Option Int}
  {center : String} {allNodes : List GraphNode}

/-- Nodes are merged into nodes, and no visited node is forgotten unless it is a member. -/
structure Merged (memberHostById : SortedMap String String) (allNodes visited : List GraphNode)
    (found : NodeFold) : Prop where
  total : ∀ node ∈ visited, memberHostById.get node.id = none →
    ∃ canonical, found.canonicalNodeById.get node.id = some canonical
  value : ∀ id canonical, found.canonicalNodeById.get id = some canonical →
    canonical ∈ allNodes.map (·.id)
  keyed : ∀ key canonical, found.canonicalNodeByKey.get key = some canonical →
    canonical ∈ allNodes.map (·.id)

theorem Merged.canonicalIdFor {visited : List GraphNode} {found : NodeFold}
    (h : Merged memberHostById allNodes visited found) {node : GraphNode} (hnode : node ∈ allNodes)
    (key : Option String) : found.canonicalIdFor key node.id ∈ allNodes.map (·.id) := by
  unfold NodeFold.canonicalIdFor
  cases hget : key.bind found.canonicalNodeByKey.get with
  | none => exact List.mem_map_of_mem hnode
  | some canonical =>
    obtain ⟨key', _, hkey⟩ := Option.bind_eq_some_iff.mp hget
    exact h.keyed key' canonical hkey

theorem Merged.foldNode {visited : List GraphNode} {found : NodeFold}
    (h : Merged memberHostById allNodes visited found) {node : GraphNode}
    (hnode : node ∈ allNodes) :
    Merged memberHostById allNodes (node :: visited)
      (Layout.foldNode memberHostById depthOf center found node) := by
  unfold Layout.foldNode
  split
  · rename_i hmember
    refine ⟨?_, h.value, h.keyed⟩
    intro other hother hnone
    rcases List.mem_cons.mp hother with rfl | hother
    · rw [hnone] at hmember
      cases hmember
    · exact h.total other hother hnone
  · dsimp only
    refine ⟨?_, ?_, ?_⟩
    · intro other hother hnone
      rw [SortedMap.get_put]
      split
      · exact ⟨_, rfl⟩
      · rename_i hne
        rcases List.mem_cons.mp hother with rfl | hother
        · exact absurd rfl hne
        · exact h.total other hother hnone
    · intro id canonical hget
      rw [SortedMap.get_put] at hget
      split at hget
      · cases hget
        exact h.canonicalIdFor hnode _
      · exact h.value id canonical hget
    · intro key canonical hget
      split at hget
      · exact h.keyed key canonical hget
      · rename_i key' _
        unfold SortedMap.offer at hget
        split at hget
        · rw [SortedMap.get_put] at hget
          split at hget
          · cases hget
            exact h.canonicalIdFor hnode _
          · exact h.keyed key canonical hget
        · exact h.keyed key canonical hget

theorem merged_foldNodes :
    Merged memberHostById allNodes allNodes
      (allNodes.foldl (Layout.foldNode memberHostById depthOf center) {}) := by
  have hfold : ∀ (rest visited : List GraphNode) (found : NodeFold), rest ⊆ allNodes →
      Merged memberHostById allNodes visited found →
      ∃ visited', visited ⊆ visited' ∧ rest ⊆ visited' ∧ Merged memberHostById allNodes visited'
        (rest.foldl (Layout.foldNode memberHostById depthOf center) found) := by
    intro rest
    induction rest with
    | nil => exact fun visited found _ h => ⟨visited, fun _ h => h, by simp, h⟩
    | cons node rest ih =>
      intro visited found hsub h
      obtain ⟨visited', hvisited, hrest, hmerged⟩ :=
        ih (node :: visited) _ (fun other hother => hsub (List.mem_cons_of_mem _ hother))
          (h.foldNode (hsub List.mem_cons_self))
      refine ⟨visited', fun other hother => hvisited (List.mem_cons_of_mem _ hother), ?_, hmerged⟩
      intro other hother
      rcases List.mem_cons.mp hother with rfl | hother
      · exact hvisited List.mem_cons_self
      · exact hrest hother
  obtain ⟨visited', _, hsub, h⟩ := hfold allNodes [] {} (fun _ h => h)
    ⟨by simp, by simp, by simp⟩
  exact ⟨fun node hnode => h.total node (hsub hnode), h.value, h.keyed⟩

end Merging

/-! ## Where nodes are shown -/

/-- A graph with distinct plain ids whose edges join its nodes. -/
structure ProperGraph (nodes : List GraphNode) (edges : List GraphEdge) : Prop where
  distinct : (nodes.map (·.id)).Nodup
  plain : ∀ node ∈ nodes, Plain node.id
  ends : ∀ edge ∈ edges, edge.source ∈ nodes.map (·.id) ∧ edge.target ∈ nodes.map (·.id)

/-- Only structural nodes may have the id of a host that is made up. -/
def HostsUnclaimed (nodes : List GraphNode) : Prop :=
  ∀ node ∈ nodes, isStructuralKind node.kind = false → ∀ label, node.id ≠ syntheticHostId label

section Placing
variable {nodes : List GraphNode} {edges : List GraphEdge} (centerId : String)

theorem host_not_member (hgraph : ProperGraph nodes edges) (hunclaimed : HostsUnclaimed nodes)
    {id : String} (h : HostId nodes (extractMembers nodes edges).syntheticHosts id) :
    (extractMembers nodes edges).memberHostById.get id = none := by
  have hhosted := hosted_extractMembers nodes edges
  cases hget : (extractMembers nodes edges).memberHostById.get id with
  | none => rfl
  | some host =>
    obtain ⟨member, hmember, hid, hkind⟩ := hhosted.member id host hget
    rcases h with ⟨node, hnode, hnodeId, hstructural⟩ | ⟨made, hmade, hmadeId⟩
    · have hsame : node = member :=
        List.inj_on_of_nodup_map hgraph.distinct hnode hmember (hnodeId.trans hid.symm)
      rw [hsame, hkind] at hstructural
      cases hstructural
    · obtain ⟨label, hlabel⟩ := hhosted.synthetic made hmade
      exact absurd (hid.trans (hmadeId.symm.trans hlabel)) (hunclaimed member hmember hkind label)

/-- The host of a node is a node of the arrangement that is not itself a member. -/
theorem host_mem (hgraph : ProperGraph nodes edges) (hunclaimed : HostsUnclaimed nodes)
    {id : String} (hid : id ∈ nodes.map (·.id)) :
    (arrange centerId nodes edges).placement.host id ∈
        (arrange centerId nodes edges).allNodes.map (·.id) ∧
      (extractMembers nodes edges).memberHostById.get
        ((arrange centerId nodes edges).placement.host id) = none := by
  have hhosted := hosted_extractMembers nodes edges
  change ((extractMembers nodes edges).memberHostById.get id).getD id ∈
      (nodes ++ (extractMembers nodes edges).syntheticHosts).map (·.id) ∧
    (extractMembers nodes edges).memberHostById.get
      (((extractMembers nodes edges).memberHostById.get id).getD id) = none
  rw [List.map_append, List.mem_append]
  cases hget : (extractMembers nodes edges).memberHostById.get id with
  | none => exact ⟨Or.inl hid, hget⟩
  | some host =>
    have hhost := hhosted.host id host hget
    refine ⟨?_, host_not_member hgraph hunclaimed hhost⟩
    rcases hhost with ⟨node, hnode, rfl, _⟩ | ⟨made, hmade, rfl⟩
    · exact Or.inl (List.mem_map_of_mem hnode)
    · exact Or.inr (List.mem_map_of_mem hmade)

theorem merged_arrange :
    Merged (extractMembers nodes edges).memberHostById (arrange centerId nodes edges).allNodes
      (arrange centerId nodes edges).allNodes (arrange centerId nodes edges).nodeFold :=
  merged_foldNodes

/-- A node is shown on a canonical node. -/
theorem place_spec (hgraph : ProperGraph nodes edges) (hunclaimed : HostsUnclaimed nodes)
    {id : String} (hid : id ∈ nodes.map (·.id)) :
    ∃ key, (arrange centerId nodes edges).nodeFold.canonicalNodeById.get key =
      some ((arrange centerId nodes edges).placement.place id) := by
  obtain ⟨hmem, hnone⟩ := host_mem centerId hgraph hunclaimed hid
  obtain ⟨node, hnode, hnodeId⟩ := List.mem_map.mp hmem
  obtain ⟨canonical, hcanonical⟩ :=
    (merged_arrange centerId).total node hnode (by rw [hnodeId]; exact hnone)
  rw [hnodeId] at hcanonical
  refine ⟨(arrange centerId nodes edges).placement.host id, ?_⟩
  unfold Placement.place
  change _ = some (((arrange centerId nodes edges).nodeFold.canonicalNodeById.get _).getD _)
  rw [hcanonical]
  rfl

theorem plain_place (hgraph : ProperGraph nodes edges) (hunclaimed : HostsUnclaimed nodes)
    {id : String} (hid : id ∈ nodes.map (·.id)) :
    Plain ((arrange centerId nodes edges).placement.place id) := by
  obtain ⟨key, hget⟩ := place_spec centerId hgraph hunclaimed hid
  have hmem := (merged_arrange centerId).value _ _ hget
  change _ ∈ (nodes ++ (extractMembers nodes edges).syntheticHosts).map (·.id) at hmem
  rw [List.map_append, List.mem_append] at hmem
  rcases hmem with hmem | hmem
  · obtain ⟨node, hnode, heq⟩ := List.mem_map.mp hmem
    rw [← heq]
    exact hgraph.plain node hnode
  · obtain ⟨made, hmade, heq⟩ := List.mem_map.mp hmem
    obtain ⟨label, hlabel⟩ := (hosted_extractMembers nodes edges).synthetic made hmade
    rw [← heq, hlabel]
    exact plain_syntheticHostId label

theorem mem_placeNodes {arrangement : Arrangement} {id : String}
    (hid : ∃ node, nodeById arrangement.allNodes id = some node) :
    ∀ (ids : List String) (rows : SortedMap Int Nat), id ∈ ids →
      id ∈ (arrangement.placeNodes rows ids).map (·.id) := by
  intro ids
  induction ids with
  | nil => exact fun rows h => absurd h (by simp)
  | cons other ids ih =>
    intro rows h
    unfold Arrangement.placeNodes
    split
    · rename_i hnone
      rcases List.mem_cons.mp h with rfl | h
      · obtain ⟨node, hnode⟩ := hid
        rw [hnode] at hnone
        cases hnone
      · exact ih rows h
    · rw [List.map_cons, List.mem_cons]
      rcases List.mem_cons.mp h with rfl | h
      · exact Or.inl rfl
      · exact Or.inr (ih _ h)

/-- The layout has the canonical node on which a node is shown. -/
theorem place_mem_layout (hgraph : ProperGraph nodes edges) (hunclaimed : HostsUnclaimed nodes)
    {id : String} (hid : id ∈ nodes.map (·.id)) :
    (arrange centerId nodes edges).placement.place id ∈
      (buildCanonicalLayout centerId nodes edges).nodes.map (·.id) := by
  obtain ⟨key, hget⟩ := place_spec centerId hgraph hunclaimed hid
  apply mem_placeNodes
  · exact nodeById_isSome ((merged_arrange centerId).value _ _ hget)
  · unfold Arrangement.canonicalNodeIds
    rw [List.mem_insertionSort, List.mem_dedup]
    exact List.mem_map.mpr ⟨_, SortedMap.mem_entries_iff.mpr hget, rfl⟩

end Placing

/-! ## Folded edges -/

section Folding
variable {placement : Placement}

/-- The folded edges stand for the visited edges. -/
structure Folded (placement : Placement) (visited : List GraphEdge)
    (folded : SortedMap String CanonicalEdge) : Prop where
  shown : ∀ key entry, folded.get key = some entry → ∃ edge ∈ visited,
    key = placement.edgeKey edge ∧ entry.source = placement.place edge.source ∧
      entry.target = placement.place edge.target ∧ entry.kind = edge.kind ∧
      placement.place edge.source ≠ placement.place edge.target
  ids : ∀ key entry, folded.get key = some entry → ∀ id ∈ entry.sourceEdgeIds,
    id ∈ visited.map (·.id)
  represented : ∀ edge ∈ visited, edge.kind ≠ .memberEdge →
    placement.place edge.source ≠ placement.place edge.target →
    ∃ entry, folded.get (placement.edgeKey edge) = some entry ∧ edge.id ∈ entry.sourceEdgeIds

theorem Folded.skip {visited : List GraphEdge} {folded : SortedMap String CanonicalEdge}
    (h : Folded placement visited folded) {edge : GraphEdge}
    (hskip : edge.kind = .memberEdge ∨
      placement.place edge.source = placement.place edge.target) :
    Folded placement (visited ++ [edge]) folded := by
  refine ⟨?_, ?_, ?_⟩
  · intro key entry hget
    obtain ⟨first, hfirst, hshown⟩ := h.shown key entry hget
    exact ⟨first, List.mem_append_left _ hfirst, hshown⟩
  · intro key entry hget id hid
    rw [List.map_append]
    exact List.mem_append_left _ (h.ids key entry hget id hid)
  · intro other hother hkind hapart
    rcases List.mem_append.mp hother with hother | hother
    · exact h.represented other hother hkind hapart
    · rw [List.mem_singleton.mp hother] at hkind hapart
      rcases hskip with hskip | hskip
      · exact absurd hskip hkind
      · exact absurd hskip hapart

/-- Writing an entry for an edge keeps the other entries and what the entry stood for. -/
theorem Folded.write {visited : List GraphEdge} {folded : SortedMap String CanonicalEdge}
    (h : Folded placement visited folded) {edge : GraphEdge} {entry : CanonicalEdge}
    (hshown : ∃ first ∈ visited ++ [edge], placement.edgeKey edge = placement.edgeKey first ∧
      entry.source = placement.place first.source ∧ entry.target = placement.place first.target ∧
      entry.kind = first.kind ∧ placement.place first.source ≠ placement.place first.target)
    (hids : ∀ id ∈ entry.sourceEdgeIds, id ∈ (visited ++ [edge]).map (·.id))
    (hkeeps : ∀ before, folded.get (placement.edgeKey edge) = some before →
      before.sourceEdgeIds ⊆ entry.sourceEdgeIds)
    (hnew : edge.id ∈ entry.sourceEdgeIds) :
    Folded placement (visited ++ [edge]) (folded.put (placement.edgeKey edge) entry) := by
  refine ⟨?_, ?_, ?_⟩
  · intro key found hget
    rw [SortedMap.get_put] at hget
    split at hget
    · rename_i hkey
      cases hget
      rw [hkey]
      exact hshown
    · obtain ⟨first, hfirst, hshown⟩ := h.shown key found hget
      exact ⟨first, List.mem_append_left _ hfirst, hshown⟩
  · intro key found hget
    rw [SortedMap.get_put] at hget
    split at hget
    · cases hget
      exact hids
    · intro id hid
      rw [List.map_append]
      exact List.mem_append_left _ (h.ids key found hget id hid)
  · intro other hother hkind hapart
    rw [SortedMap.get_put]
    by_cases hkey : placement.edgeKey other = placement.edgeKey edge
    · rw [if_pos hkey]
      refine ⟨entry, rfl, ?_⟩
      rcases List.mem_append.mp hother with hother | hother
      · obtain ⟨before, hget, hmem⟩ := h.represented other hother hkind hapart
        rw [hkey] at hget
        exact hkeeps before hget hmem
      · rw [List.mem_singleton.mp hother]
        exact hnew
    · rw [if_neg hkey]
      rcases List.mem_append.mp hother with hother | hother
      · exact h.represented other hother hkind hapart
      · rw [List.mem_singleton.mp hother] at hkey
        exact absurd rfl hkey

theorem Folded.foldEdge {visited : List GraphEdge} {folded : SortedMap String CanonicalEdge}
    (h : Folded placement visited folded) (edge : GraphEdge) :
    Folded placement (visited ++ [edge]) (placement.foldEdge folded edge) := by
  unfold Placement.foldEdge
  split
  · rename_i hskip
    exact h.skip hskip
  · rename_i hskip
    obtain ⟨_, hapart⟩ := not_or.mp hskip
    split
    · rename_i hnone
      apply h.write
      · exact ⟨edge, by simp, rfl, rfl, rfl, rfl, hapart⟩
      · intro id hid
        rw [List.mem_singleton.mp hid]
        simp
      · intro before hget
        rw [hnone] at hget
        cases hget
      · exact List.mem_singleton.mpr rfl
    · rename_i existing hexisting
      obtain ⟨first, hfirst, hshown⟩ := h.shown _ existing hexisting
      apply h.write
      · exact ⟨first, List.mem_append_left _ hfirst, hshown⟩
      · intro id hid
        rw [List.map_append]
        rcases List.mem_append.mp hid with hid | hid
        · exact List.mem_append_left _ (h.ids _ existing hexisting id hid)
        · exact List.mem_append_right _ (by simpa using hid)
      · intro before hget
        rw [hexisting] at hget
        cases hget
        exact List.subset_append_left _ _
      · exact List.mem_append_right _ (List.mem_singleton.mpr rfl)

theorem folded_foldEdges (placement : Placement) (edges : List GraphEdge) :
    Folded placement edges (foldEdges placement edges) := by
  have hfold : ∀ (rest visited : List GraphEdge) (folded : SortedMap String CanonicalEdge),
      Folded placement visited folded →
      Folded placement (visited ++ rest) (rest.foldl placement.foldEdge folded) := by
    intro rest
    induction rest with
    | nil =>
      intro visited folded h
      rw [List.append_nil]
      exact h
    | cons edge rest ih =>
      intro visited folded h
      rw [List.append_cons]
      exact ih _ _ (h.foldEdge edge)
  exact hfold edges [] .empty ⟨by simp, by simp, by simp⟩

end Folding

/-! ## Agreement -/

/-- The layout agrees with the edges, given where it shows the nodes. -/
structure Agrees (place : String → String) (edges : List GraphEdge) (layout : CanonicalLayout) :
    Prop where
  ids : ∀ folded ∈ layout.edges, ∀ id ∈ folded.sourceEdgeIds, id ∈ edges.map (·.id)
  ends : ∀ folded ∈ layout.edges, folded.source ∈ layout.nodes.map (·.id) ∧
    folded.target ∈ layout.nodes.map (·.id)
  center : layout.centerNodeId ∈ layout.nodes.map (·.id)
  represented : ∀ edge ∈ edges, edge.kind ≠ .memberEdge → place edge.source ≠ place edge.target →
    ∃ folded ∈ layout.edges, edge.id ∈ folded.sourceEdgeIds ∧
      folded.source = place edge.source ∧ folded.target = place edge.target ∧
      folded.kind = edge.kind

section Fresh
variable {nodes : List GraphNode} {edges : List GraphEdge} {centerId : String}

theorem plain_sourceHandle (hgraph : ProperGraph nodes edges) (placement : Placement)
    {edge : GraphEdge} (hedge : edge ∈ edges) : Plain (placement.sourceHandle edge) := by
  obtain ⟨node, hnode, hid⟩ := List.mem_map.mp (hgraph.ends edge hedge).1
  unfold Placement.sourceHandle
  split
  · apply Plain.append
    · unfold Plain
      decide
    · rw [← hid]
      exact hgraph.plain node hnode
  · unfold Plain
    split <;> decide

/-- The key of a folded edge tells where and as what it is shown. -/
theorem edgeKey_inj (hgraph : ProperGraph nodes edges) (hunclaimed : HostsUnclaimed nodes)
    {edge edge' : GraphEdge} (hedge : edge ∈ edges) (hedge' : edge' ∈ edges)
    (h : (arrange centerId nodes edges).placement.edgeKey edge =
      (arrange centerId nodes edges).placement.edgeKey edge') :
    edge.kind = edge'.kind ∧
      (arrange centerId nodes edges).placement.place edge.source =
        (arrange centerId nodes edges).placement.place edge'.source ∧
      (arrange centerId nodes edges).placement.place edge.target =
        (arrange centerId nodes edges).placement.place edge'.target := by
  obtain ⟨hkind, hsource, _, htarget⟩ := join_inj (plain_edgeKindName _)
    (plain_place centerId hgraph hunclaimed (hgraph.ends edge hedge).1)
    (plain_sourceHandle hgraph _ hedge)
    (plain_place centerId hgraph hunclaimed (hgraph.ends edge hedge).2)
    (plain_edgeKindName _)
    (plain_place centerId hgraph hunclaimed (hgraph.ends edge' hedge').1)
    (plain_sourceHandle hgraph _ hedge')
    (plain_place centerId hgraph hunclaimed (hgraph.ends edge' hedge').2) h
  exact ⟨edgeKindName_inj hkind, hsource, htarget⟩

/-- A fresh layout agrees with its graph, and no folded edge is a loop. -/
theorem agrees_buildCanonicalLayout (hgraph : ProperGraph nodes edges)
    (hunclaimed : HostsUnclaimed nodes) (hcenter : centerId ∈ nodes.map (·.id)) :
    Agrees (arrange centerId nodes edges).placement.place edges
        (buildCanonicalLayout centerId nodes edges) ∧
      ∀ folded ∈ (buildCanonicalLayout centerId nodes edges).edges,
        folded.source ≠ folded.target := by
  have hfolded := folded_foldEdges (arrange centerId nodes edges).placement edges
  have hentry : ∀ folded ∈ (buildCanonicalLayout centerId nodes edges).edges, ∃ key,
      (foldEdges (arrange centerId nodes edges).placement edges).get key = some folded := by
    intro folded hmem
    obtain ⟨⟨key, entry⟩, hentry, rfl⟩ := List.mem_map.mp hmem
    exact ⟨key, SortedMap.mem_entries_iff.mp hentry⟩
  refine ⟨⟨?_, ?_, ?_, ?_⟩, ?_⟩
  · intro folded hmem id hid
    obtain ⟨key, hget⟩ := hentry folded hmem
    exact hfolded.ids key folded hget id hid
  · intro folded hmem
    obtain ⟨key, hget⟩ := hentry folded hmem
    obtain ⟨edge, hedge, _, hsource, htarget, _⟩ := hfolded.shown key folded hget
    rw [hsource, htarget]
    exact ⟨place_mem_layout centerId hgraph hunclaimed (hgraph.ends edge hedge).1,
      place_mem_layout centerId hgraph hunclaimed (hgraph.ends edge hedge).2⟩
  · exact place_mem_layout centerId hgraph hunclaimed hcenter
  · intro edge hedge hkind hapart
    obtain ⟨folded, hget, hid⟩ := hfolded.represented edge hedge hkind hapart
    obtain ⟨first, hfirst, hkey, hsource, htarget, hsame, _⟩ := hfolded.shown _ folded hget
    obtain ⟨hkinds, hsources, htargets⟩ := edgeKey_inj hgraph hunclaimed hedge hfirst hkey
    refine ⟨folded, List.mem_map.mpr ⟨_, SortedMap.mem_entries_iff.mpr hget, rfl⟩, hid, ?_, ?_, ?_⟩
    · rw [hsource, hsources]
    · rw [htarget, htargets]
    · rw [hsame, hkinds]
  · intro folded hmem
    obtain ⟨key, hget⟩ := hentry folded hmem
    obtain ⟨edge, _, _, hsource, htarget, _, hapart⟩ := hfolded.shown key folded hget
    rw [hsource, htarget]
    exact hapart

end Fresh

end CodeStory.Layout
