import CodeStory.Layout.Membership
import CodeStory.Lib.Selection

/-!
# Walks over hash maps

The made-up hosts, the canonical ids and the folded edges are kept in hash maps, which are walked
in an unspecified order. `layoutIn` follows a given order wherever the layout does so, and the
layout is the same for all of them.
-/

set_option autoImplicit false

namespace CodeStory.Layout

/-- The orders in which the hash maps are walked. -/
structure WalkOrder where
  hosts : List GraphNode → List GraphNode
  entries : List (String × String) → List (String × String)
  ids : List String → List String
  folded : List CanonicalEdge → List CanonicalEdge
  hosts_perm : ∀ l, (hosts l).Perm l
  entries_perm : ∀ l, (entries l).Perm l
  ids_perm : ∀ l, (ids l).Perm l
  folded_perm : ∀ l, (folded l).Perm l

def arrangeIn (order : WalkOrder) (centerId : String) (nodes : List GraphNode)
    (edges : List GraphEdge) : Arrangement :=
  let extraction := extractMembers nodes edges
  let allNodes := nodes ++ order.hosts extraction.syntheticHosts
  let centerHost := (extraction.memberHostById.get centerId).getD centerId
  let depthOf := signedDepth allNodes edges centerHost
  { allNodes := allNodes
    centerHost := centerHost
    extraction := extraction
    depthOf := depthOf
    nodeFold := allNodes.foldl (foldNode extraction.memberHostById depthOf centerHost) {} }

namespace Arrangement
variable (arrangement : Arrangement) (order : WalkOrder)

def membersIn (canonicalId : String) : List CanonicalMember :=
  ((((order.entries arrangement.nodeFold.canonicalNodeById.entries).foldl arrangement.addMembers
    .empty).get canonicalId).getD []).insertionSort
      fun left right => compareMembers left right ≠ .gt

/-- The ids are first sorted as texts and then by depth and label. -/
def nodeIdsIn : List String :=
  ((order.ids (arrangement.nodeFold.canonicalNodeById.entries.map (·.2)).dedup).insertionSort
    fun left right => compare left right ≠ .gt).insertionSort
      fun left right => arrangement.compareNodeIds left right ≠ .gt

end Arrangement

def CanonicalNode.showMembers (node : CanonicalNode) (members : List CanonicalMember) :
    CanonicalNode :=
  { node with
    memberCount := node.badgeVisibleMembers.getD (min members.length 4294967295)
    members := members }

def layoutIn (order : WalkOrder) (centerId : String) (nodes : List GraphNode)
    (edges : List GraphEdge) : CanonicalLayout :=
  let arrangement := arrangeIn order centerId nodes edges
  { schemaVersion := 1
    centerNodeId := arrangement.centerNodeId
    nodes := (arrangement.placeNodes .empty (arrangement.nodeIdsIn order)).map fun node =>
      node.showMembers (arrangement.membersIn order node.id)
    edges := (order.folded ((foldEdges arrangement.placement edges).entries.map
      (·.2))).insertionSort
      fun left right => compare left.id right.id ≠ .gt }

/-- No node has the id of a host that may be made up. -/
def Unreserved (nodes : List GraphNode) : Prop :=
  ∀ node ∈ nodes, ∀ label, node.id ≠ syntheticHostId label

theorem Unreserved.hostsUnclaimed {nodes : List GraphNode} (h : Unreserved nodes) :
    HostsUnclaimed nodes :=
  fun node hnode _ => h node hnode

/-! ## The order of the made-up hosts -/

theorem distinct_allNodes {nodes : List GraphNode} (hdistinct : (nodes.map (·.id)).Nodup)
    (hfree : Unreserved nodes) (edges : List GraphEdge) :
    ((nodes ++ (extractMembers nodes edges).syntheticHosts).map (·.id)).Nodup := by
  have hmade := made_extractMembers nodes edges
  rw [List.map_append, List.nodup_append]
  refine ⟨hdistinct, hmade.distinct, ?_⟩
  intro a ha b hb heq
  obtain ⟨node, hnode, rfl⟩ := List.mem_map.mp ha
  obtain ⟨host, hhost, rfl⟩ := List.mem_map.mp hb
  exact hfree node hnode host.label (heq.trans (hmade.id host hhost))

theorem nodeById_perm {l l' : List GraphNode} (hperm : l.Perm l')
    (hdistinct : (l.map (·.id)).Nodup) (id : String) : nodeById l id = nodeById l' id := by
  unfold nodeById
  apply Selection.find?_eq_of_perm ((l.reverse_perm.trans hperm).trans l'.reverse_perm.symm)
  intro a ha b hb hida hidb
  exact List.inj_on_of_nodup_map hdistinct (List.mem_reverse.mp ha) (List.mem_reverse.mp hb)
    ((of_decide_eq_true hida).trans (of_decide_eq_true hidb).symm)

section Hosts
variable {memberHostById : SortedMap String String} {depthOf : String → Option Int}
  {center : String}

variable (depthOf center) in
/-- A node is shown as one with its key, or as itself when it is the center. -/
theorem canonOf_spec {visited : List GraphNode} {node : GraphNode} (hnode : node ∈ visited)
    (hshown : shownAlone memberHostById node = true) :
    ∃ first ∈ visited, shownAlone memberHostById first = true ∧
      keyOf depthOf center first = keyOf depthOf center node ∧
      canonOf memberHostById depthOf center visited node = first.id := by
  unfold canonOf
  cases hkey : keyOf depthOf center node with
  | none => exact ⟨node, hnode, hshown, hkey, rfl⟩
  | some key =>
    obtain ⟨first, hfirst⟩ := Option.isSome_iff_exists.mp (firstWithKey_isSome hnode hshown hkey)
    obtain ⟨hmem, hfirstShown, hfirstKey⟩ := firstWithKey_spec hfirst
    refine ⟨first, hmem, hfirstShown, hfirstKey, ?_⟩
    dsimp only
    rw [hfirst]
    rfl

theorem canonOf_of_keyOf_eq_none {visited : List GraphNode} {node : GraphNode}
    (h : keyOf depthOf center node = none) :
    canonOf memberHostById depthOf center visited node = node.id := by
  unfold canonOf
  rw [h]

variable {nodes hosts hosts' : List GraphNode}

theorem firstWithKey_hosts (hmade : Made hosts) (hperm : hosts.Perm hosts') (key : String) :
    firstWithKey memberHostById depthOf center (nodes ++ hosts) key =
      firstWithKey memberHostById depthOf center (nodes ++ hosts') key := by
  unfold firstWithKey
  rw [List.find?_append, List.find?_append]
  congr 1
  apply Selection.find?_eq_of_perm hperm
  intro a ha b hb hpa hpb
  rw [Bool.and_eq_true] at hpa hpb
  exact hmade.eq_of_keyOf ha hb (of_decide_eq_true hpa.2) (of_decide_eq_true hpb.2)

theorem canonOf_hosts (hmade : Made hosts) (hperm : hosts.Perm hosts') :
    canonOf memberHostById depthOf center (nodes ++ hosts) =
      canonOf memberHostById depthOf center (nodes ++ hosts') := by
  funext node
  unfold canonOf
  split
  · rfl
  · rw [firstWithKey_hosts hmade hperm]

/-- A group has at most one made-up host. -/
theorem host_unique (hmade : Made hosts) (hdistinct : ((nodes ++ hosts).map (·.id)).Nodup)
    {host host' : GraphNode} (hhost : host ∈ hosts) (hhost' : host' ∈ hosts)
    (hshown : shownAlone memberHostById host = true)
    (hshown' : shownAlone memberHostById host' = true)
    (heq : canonOf memberHostById depthOf center (nodes ++ hosts) host =
      canonOf memberHostById depthOf center (nodes ++ hosts) host') : host = host' := by
  have hmem := List.mem_append_right nodes hhost
  have hmem' := List.mem_append_right nodes hhost'
  obtain ⟨first, hfirst, -, hkey, hcanon⟩ :=
    canonOf_spec depthOf center hmem hshown
  obtain ⟨first', hfirst', -, hkey', hcanon'⟩ :=
    canonOf_spec depthOf center hmem' hshown'
  have hsame : first = first' :=
    List.inj_on_of_nodup_map hdistinct hfirst hfirst' (hcanon.symm.trans (heq.trans hcanon'))
  rw [← hsame, hkey] at hkey'
  cases hown : keyOf depthOf center host with
  | none =>
    rw [canonOf_of_keyOf_eq_none hown, canonOf_of_keyOf_eq_none (hkey'.symm.trans hown)] at heq
    exact List.inj_on_of_nodup_map hdistinct hmem hmem' heq
  | some key => exact hmade.eq_of_keyOf hhost hhost' hown (hkey'.symm.trans hown)

theorem groupOf_hosts (hmade : Made hosts) (hperm : hosts.Perm hosts')
    (hdistinct : ((nodes ++ hosts).map (·.id)).Nodup) (canonical : String) :
    groupOf memberHostById depthOf center (nodes ++ hosts) canonical =
      groupOf memberHostById depthOf center (nodes ++ hosts') canonical := by
  unfold groupOf
  rw [← canonOf_hosts hmade hperm, List.filter_append, List.filter_append]
  congr 1
  apply Selection.filter_eq_of_perm hperm
  intro a ha b hb hpa hpb
  rw [Bool.and_eq_true] at hpa hpb
  exact host_unique hmade hdistinct ha hb hpa.1 hpb.1
    ((of_decide_eq_true hpa.2).trans (of_decide_eq_true hpb.2).symm)

/-- Folding the nodes leaves the same maps in every order of the made-up hosts. -/
theorem foldNodes_hosts (hmade : Made hosts) (hperm : hosts.Perm hosts')
    (hdistinct : ((nodes ++ hosts).map (·.id)).Nodup) :
    (nodes ++ hosts').foldl (foldNode memberHostById depthOf center) {} =
      (nodes ++ hosts).foldl (foldNode memberHostById depthOf center) {} := by
  have hdistinct' : ((nodes ++ hosts').map (·.id)).Nodup :=
    ((hperm.append_left nodes).map _).nodup_iff.mp hdistinct
  have hfound := grouped_foldNodes memberHostById depthOf center hdistinct
  have hfound' := grouped_foldNodes memberHostById depthOf center hdistinct'
  have hfind : ∀ id, (nodes ++ hosts).find? (fun node => shownAlone memberHostById node &&
      node.id = id) = (nodes ++ hosts').find? fun node => shownAlone memberHostById node &&
      node.id = id := by
    intro id
    apply Selection.find?_eq_of_perm (hperm.append_left nodes)
    intro a ha b hb hpa hpb
    rw [Bool.and_eq_true] at hpa hpb
    exact List.inj_on_of_nodup_map hdistinct ha hb
      ((of_decide_eq_true hpa.2).trans (of_decide_eq_true hpb.2).symm)
  generalize (nodes ++ hosts).foldl (foldNode memberHostById depthOf center) {} = found
    at hfound ⊢
  generalize (nodes ++ hosts').foldl (foldNode memberHostById depthOf center) {} = found'
    at hfound' ⊢
  have hcanon : found'.canonicalNodeById = found.canonicalNodeById := by
    apply SortedMap.ext_get
    intro id
    rw [hfound.canon, hfound'.canon, hfind, canonOf_hosts hmade hperm]
  have hkey : found'.canonicalNodeByKey = found.canonicalNodeByKey := by
    apply SortedMap.ext_get
    intro key
    rw [hfound.byKey, hfound'.byKey, firstWithKey_hosts hmade hperm]
  have hcount : found'.duplicateCountByCanonical = found.duplicateCountByCanonical := by
    apply SortedMap.ext_get
    intro canonical
    rw [hfound.count, hfound'.count, groupOf_hosts hmade hperm hdistinct]
  have hmerged : found'.mergedIdsByCanonical = found.mergedIdsByCanonical := by
    apply SortedMap.ext_get
    intro canonical
    rw [hfound.merged, hfound'.merged, groupOf_hosts hmade hperm hdistinct]
  cases found
  cases found'
  dsimp only at hcanon hkey hcount hmerged
  rw [hcanon, hkey, hcount, hmerged]

end Hosts

/-! ## The members of a shown node -/

def Genuine (nodes : List GraphNode) (member : CanonicalMember) : Prop :=
  ∃ node ∈ nodes, member = canonicalMember node

theorem genuine_inj {nodes : List GraphNode} (hdistinct : (nodes.map (·.id)).Nodup)
    {member member' : CanonicalMember} (h : Genuine nodes member) (h' : Genuine nodes member')
    (hid : member.id = member'.id) : member = member' := by
  obtain ⟨node, hnode, rfl⟩ := h
  obtain ⟨node', hnode', rfl⟩ := h'
  rw [List.inj_on_of_nodup_map hdistinct hnode hnode' hid]

theorem addKnown_spec {nodes : List GraphNode} (hdistinct : (nodes.map (·.id)).Nodup)
    {members : List CanonicalMember} (hmembers : ∀ member ∈ members, Genuine nodes member)
    {known : List CanonicalMember} (hknown : ∀ member ∈ known, Genuine nodes member)
    (hnodup : (known.map (·.id)).Nodup) :
    ((members.foldl (fun known member => if known.any (·.id = member.id) then known
        else known ++ [member]) known).map (·.id)).Nodup ∧
      ∀ member, member ∈ members.foldl (fun known member => if known.any (·.id = member.id) then
        known else known ++ [member]) known ↔ member ∈ known ∨ member ∈ members := by
  induction members generalizing known with
  | nil => exact ⟨hnodup, fun member => by simp⟩
  | cons first members ih =>
    have hfirst := hmembers first List.mem_cons_self
    have hrest := fun member hmember => hmembers member (List.mem_cons_of_mem first hmember)
    rw [List.foldl_cons]
    by_cases hany : known.any (·.id = first.id) = true
    · rw [if_pos hany]
      obtain ⟨other, hother, hid⟩ := List.any_eq_true.mp hany
      obtain rfl := genuine_inj hdistinct (hknown other hother) hfirst (of_decide_eq_true hid)
      obtain ⟨hids, hmem⟩ := ih hrest hknown hnodup
      refine ⟨hids, fun member => ?_⟩
      rw [hmem, List.mem_cons]
      constructor
      · rintro (h | h)
        · exact .inl h
        · exact .inr (.inr h)
      · rintro (h | rfl | h)
        · exact .inl h
        · exact .inl hother
        · exact .inr h
    · rw [if_neg hany]
      have hknown' : ∀ member ∈ known ++ [first], Genuine nodes member := by
        intro member hmember
        rcases List.mem_append.mp hmember with hmember | hmember
        · exact hknown member hmember
        · rw [List.mem_singleton.mp hmember]
          exact hfirst
      have hnodup' : ((known ++ [first]).map (·.id)).Nodup := by
        rw [List.map_append, List.nodup_append]
        refine ⟨hnodup, List.nodup_singleton _, ?_⟩
        intro a ha b hb heq
        obtain rfl := List.mem_singleton.mp hb
        obtain ⟨other, hother, hid⟩ := List.mem_map.mp ha
        exact hany (List.any_eq_true.mpr ⟨other, hother, decide_eq_true (hid.trans heq)⟩)
      obtain ⟨hids, hmem⟩ := ih hrest hknown' hnodup'
      refine ⟨hids, fun member => ?_⟩
      rw [hmem, List.mem_append, List.mem_singleton, List.mem_cons, or_assoc]

/-- The members of the hosts that were visited, under the ids these are shown with. -/
structure Gathered (membersByHost : SortedMap String (List CanonicalMember))
    (visited : List (String × String)) (merged : SortedMap String (List CanonicalMember)) :
    Prop where
  distinct : ∀ canonical, (((merged.get canonical).getD []).map (·.id)).Nodup
  mem : ∀ canonical member, member ∈ (merged.get canonical).getD [] ↔ ∃ host members,
    (host, canonical) ∈ visited ∧ membersByHost.get host = some members ∧ member ∈ members

section Gathering
variable {nodes : List GraphNode} {arrangement : Arrangement}

theorem Gathered.addMembers (hdistinct : (nodes.map (·.id)).Nodup)
    (hgenuine : ∀ host members, arrangement.extraction.membersByHost.get host = some members →
      ∀ member ∈ members, Genuine nodes member)
    {visited : List (String × String)} {merged : SortedMap String (List CanonicalMember)}
    (h : Gathered arrangement.extraction.membersByHost visited merged) (entry : String × String) :
    Gathered arrangement.extraction.membersByHost (visited ++ [entry])
      (arrangement.addMembers merged entry) := by
  have hskip : (∀ members, arrangement.extraction.membersByHost.get entry.1 = some members →
      members = []) → Gathered arrangement.extraction.membersByHost (visited ++ [entry])
        merged := by
    intro hnone
    refine ⟨h.distinct, fun canonical member => ?_⟩
    rw [h.mem]
    constructor
    · rintro ⟨host, members, hvisited, hget, hmember⟩
      exact ⟨host, members, List.mem_append_left _ hvisited, hget, hmember⟩
    · rintro ⟨host, members, hvisited, hget, hmember⟩
      rcases List.mem_append.mp hvisited with hvisited | hvisited
      · exact ⟨host, members, hvisited, hget, hmember⟩
      · rw [← List.mem_singleton.mp hvisited] at hnone
        rw [hnone members hget] at hmember
        exact absurd hmember List.not_mem_nil
  unfold Arrangement.addMembers
  split
  · rename_i hnone
    exact hskip fun members hget => absurd (hnone.symm.trans hget) (by simp)
  · rename_i hempty
    exact hskip fun members hget => Option.some.inj (hget.symm.trans hempty)
  · rename_i members _ hmembers
    have hknown : ∀ member ∈ (merged.get entry.2).getD [], Genuine nodes member := by
      intro member hmember
      obtain ⟨host, listed, _, hget, hlisted⟩ := (h.mem _ _).mp hmember
      exact hgenuine host listed hget member hlisted
    obtain ⟨hids, hmem⟩ := addKnown_spec hdistinct (hgenuine _ _ hmembers) hknown
      (h.distinct entry.2)
    refine ⟨fun canonical => ?_, fun canonical member => ?_⟩
    · rw [SortedMap.get_put]
      split
      · exact hids
      · exact h.distinct canonical
    · rw [SortedMap.get_put]
      by_cases hcanonical : canonical = entry.2
      · rw [if_pos hcanonical, Option.getD_some, hmem, h.mem]
        constructor
        · rintro (⟨host, listed, hvisited, hget, hlisted⟩ | hmember)
          · rw [hcanonical]
            exact ⟨host, listed, List.mem_append_left _ hvisited, hget, hlisted⟩
          · rw [hcanonical]
            exact ⟨entry.1, members, List.mem_append_right _ List.mem_cons_self, hmembers, hmember⟩
        · rintro ⟨host, listed, hvisited, hget, hlisted⟩
          rcases List.mem_append.mp hvisited with hvisited | hvisited
          · rw [← hcanonical]
            exact .inl ⟨host, listed, hvisited, hget, hlisted⟩
          · rw [← List.mem_singleton.mp hvisited] at hmembers
            rw [Option.some.inj (hget.symm.trans hmembers)] at hlisted
            exact .inr hlisted
      · rw [if_neg hcanonical, h.mem]
        constructor
        · rintro ⟨host, listed, hvisited, hget, hlisted⟩
          exact ⟨host, listed, List.mem_append_left _ hvisited, hget, hlisted⟩
        · rintro ⟨host, listed, hvisited, hget, hlisted⟩
          rcases List.mem_append.mp hvisited with hvisited | hvisited
          · exact ⟨host, listed, hvisited, hget, hlisted⟩
          · exact absurd (congrArg Prod.snd (List.mem_singleton.mp hvisited)) hcanonical

variable (arrangement) in
theorem gathered_addMembers (hdistinct : (nodes.map (·.id)).Nodup)
    (hgenuine : ∀ host members, arrangement.extraction.membersByHost.get host = some members →
      ∀ member ∈ members, Genuine nodes member) (entries : List (String × String)) :
    Gathered arrangement.extraction.membersByHost entries
      (entries.foldl arrangement.addMembers .empty) := by
  induction entries using List.reverseRecOn with
  | nil =>
    refine ⟨fun _ => List.nodup_nil, fun canonical member => ?_⟩
    constructor
    · exact fun h => absurd h List.not_mem_nil
    · rintro ⟨_, _, h, _⟩
      exact absurd h List.not_mem_nil
  | append_singleton entries entry ih =>
    rw [List.foldl_append]
    exact ih.addMembers hdistinct hgenuine entry

instance : Std.TransCmp Arrangement.compareMembers :=
  inferInstanceAs (Std.TransCmp (compareLex (compareOn CanonicalMember.label)
    (compareOn CanonicalMember.id)))

variable (arrangement) in
/-- The members of a shown node do not depend on the order in which its hosts are walked. -/
theorem membersIn_eq (order : WalkOrder) (hdistinct : (nodes.map (·.id)).Nodup)
    (hgenuine : ∀ host members, arrangement.extraction.membersByHost.get host = some members →
      ∀ member ∈ members, Genuine nodes member) (canonical : String) :
    arrangement.membersIn order canonical = arrangement.membersOf canonical := by
  have hordered := gathered_addMembers arrangement hdistinct hgenuine
    (order.entries arrangement.nodeFold.canonicalNodeById.entries)
  have hplain := gathered_addMembers arrangement hdistinct hgenuine
    arrangement.nodeFold.canonicalNodeById.entries
  change Selection.sortBy Arrangement.compareMembers _ =
    Selection.sortBy Arrangement.compareMembers _
  apply Selection.sortBy_congr
  · rw [List.perm_ext_iff_of_nodup (hordered.distinct canonical).of_map
      (hplain.distinct canonical).of_map]
    intro member
    rw [hordered.mem, hplain.mem]
    constructor
    · rintro ⟨host, members, hentry, h⟩
      exact ⟨host, members, (order.entries_perm _).mem_iff.mp hentry, h⟩
    · rintro ⟨host, members, hentry, h⟩
      exact ⟨host, members, (order.entries_perm _).mem_iff.mpr hentry, h⟩
  · intro a ha b hb heq
    apply List.inj_on_of_nodup_map (hordered.distinct canonical) ha hb
    unfold Arrangement.compareMembers at heq
    exact Std.LawfulEqCmp.eq_of_compare (Ordering.then_eq_eq.mp heq).2

end Gathering

/-! ## Folded edges -/

section Edges
variable (placement : Placement)

/-- The edge is not a member edge and joins two places. -/
def joinsPlaces (edge : GraphEdge) : Bool :=
  edge.kind ≠ .memberEdge && placement.place edge.source ≠ placement.place edge.target

def edgesWithKey (edges : List GraphEdge) (key : String) : List GraphEdge :=
  edges.filter fun edge => joinsPlaces placement edge && placement.edgeKey edge = key

structure FoldedTogether (visited : List GraphEdge) (folded : SortedMap String CanonicalEdge) :
    Prop where
  absent : ∀ key, folded.get key = none → edgesWithKey placement visited key = []
  entry : ∀ key entry, folded.get key = some entry →
    edgesWithKey placement visited key ≠ [] ∧ entry.id = key ∧
      entry.sourceEdgeIds = (edgesWithKey placement visited key).map (·.id) ∧
      entry.multiplicity = min (edgesWithKey placement visited key).length 4294967295
  first : ∀ key entry, folded.get key = some entry →
    ∃ edge ∈ edgesWithKey placement visited key, entry.source = placement.place edge.source ∧
      entry.target = placement.place edge.target ∧
      entry.sourceHandle = placement.sourceHandle edge ∧
      entry.targetHandle = placement.targetHandle edge

variable {placement} {visited : List GraphEdge} {folded : SortedMap String CanonicalEdge}

theorem edgesWithKey_snoc (edge : GraphEdge) (key : String) :
    edgesWithKey placement (visited ++ [edge]) key =
      edgesWithKey placement visited key ++
        if joinsPlaces placement edge = true ∧
          placement.edgeKey edge = key then [edge] else [] := by
  unfold edgesWithKey
  rw [List.filter_append]
  congr 1
  by_cases hjoins : joinsPlaces placement edge = true
  · by_cases hkey : placement.edgeKey edge = key
    · simp [hjoins, hkey]
    · simp [hjoins, hkey]
  · simp [hjoins]

theorem FoldedTogether.foldEdge (h : FoldedTogether placement visited folded) (edge : GraphEdge) :
    FoldedTogether placement (visited ++ [edge]) (placement.foldEdge folded edge) := by
  unfold Placement.foldEdge
  split
  · rename_i hskip
    have hkeys : ∀ key, edgesWithKey placement (visited ++ [edge]) key =
        edgesWithKey placement visited key := by
      intro key
      rw [edgesWithKey_snoc, if_neg, List.append_nil]
      rintro ⟨hjoins, -⟩
      unfold joinsPlaces at hjoins
      rw [Bool.and_eq_true] at hjoins
      rcases hskip with hkind | hplace
      · exact of_decide_eq_true hjoins.1 hkind
      · exact of_decide_eq_true hjoins.2 hplace
    refine ⟨fun key hget => ?_, fun key entry hget => ?_, fun key entry hget => ?_⟩
    · rw [hkeys]
      exact h.absent key hget
    · rw [hkeys]
      exact h.entry key entry hget
    · rw [hkeys]
      exact h.first key entry hget
  · rename_i hshown
    rw [not_or] at hshown
    have hjoins : joinsPlaces placement edge = true := by
      unfold joinsPlaces
      rw [Bool.and_eq_true]
      exact ⟨decide_eq_true hshown.1, decide_eq_true hshown.2⟩
    have hown : edgesWithKey placement (visited ++ [edge]) (placement.edgeKey edge) =
        edgesWithKey placement visited (placement.edgeKey edge) ++ [edge] := by
      rw [edgesWithKey_snoc, if_pos ⟨hjoins, rfl⟩]
    have hother : ∀ key, key ≠ placement.edgeKey edge →
        edgesWithKey placement (visited ++ [edge]) key = edgesWithKey placement visited key := by
      intro key hne
      rw [edgesWithKey_snoc, if_neg (fun heq => hne heq.2.symm), List.append_nil]
    have hwrite : ∀ written : CanonicalEdge, written.id = placement.edgeKey edge →
        written.sourceEdgeIds =
          (edgesWithKey placement visited (placement.edgeKey edge)).map (·.id) ++ [edge.id] →
        written.multiplicity =
          min ((edgesWithKey placement visited (placement.edgeKey edge)).length + 1) 4294967295 →
        (∃ first ∈ edgesWithKey placement visited (placement.edgeKey edge) ++ [edge],
          written.source = placement.place first.source ∧
          written.target = placement.place first.target ∧
          written.sourceHandle = placement.sourceHandle first ∧
          written.targetHandle = placement.targetHandle first) →
        FoldedTogether placement (visited ++ [edge])
          (folded.put (placement.edgeKey edge) written) := by
      intro written hid hids hcount hfirst
      refine ⟨fun key hget => ?_, fun key entry hget => ?_, fun key entry hget => ?_⟩
      · rw [SortedMap.get_put] at hget
        split at hget
        · cases hget
        · rename_i hne
          rw [hother key hne]
          exact h.absent key hget
      · rw [SortedMap.get_put] at hget
        split at hget
        · rename_i heq
          obtain rfl := Option.some.inj hget
          rw [heq, hown, List.map_append, List.length_append]
          exact ⟨List.append_ne_nil_of_right_ne_nil _ (List.cons_ne_nil _ _), hid, hids, hcount⟩
        · rename_i hne
          rw [hother key hne]
          exact h.entry key entry hget
      · rw [SortedMap.get_put] at hget
        split at hget
        · rename_i heq
          obtain rfl := Option.some.inj hget
          rw [heq, hown]
          exact hfirst
        · rename_i hne
          rw [hother key hne]
          exact h.first key entry hget
    split
    · rename_i hnone
      have hempty := h.absent _ hnone
      refine hwrite _ rfl ?_ ?_ ?_
      · rw [hempty]
        rfl
      · rw [hempty]
        rfl
      · exact ⟨edge, List.mem_append_right _ List.mem_cons_self, rfl, rfl, rfl, rfl⟩
    · rename_i existing hexisting
      obtain ⟨-, hid, hids, hcount⟩ := h.entry _ _ hexisting
      obtain ⟨first, hfirst, hrest⟩ := h.first _ _ hexisting
      refine hwrite _ hid ?_ ?_ ⟨first, List.mem_append_left _ hfirst, hrest⟩
      · dsimp only
        rw [hids]
      · dsimp only
        rw [hcount]
        omega

variable (placement) in
theorem foldedTogether_foldEdges (edges : List GraphEdge) :
    FoldedTogether placement edges (foldEdges placement edges) := by
  unfold foldEdges
  induction edges using List.reverseRecOn with
  | nil =>
    refine ⟨fun _ _ => rfl, fun _ _ h => ?_, fun _ _ h => ?_⟩
    · cases h
    · cases h
  | append_singleton edges edge ih =>
    rw [List.foldl_append]
    exact ih.foldEdge edge

variable (placement) in
theorem sorted_foldedEdges (edges : List GraphEdge) :
    ((foldEdges placement edges).entries.map (·.2)).Pairwise
      fun left right => left.id < right.id := by
  rw [List.pairwise_map]
  apply List.Pairwise.imp_of_mem ?_ (foldEdges placement edges).sorted
  rintro ⟨key, entry⟩ ⟨key', entry'⟩ hentry hentry' hlt
  have hfolded := foldedTogether_foldEdges placement edges
  obtain ⟨-, hid, -⟩ := hfolded.entry key entry (SortedMap.mem_entries_iff.mp hentry)
  obtain ⟨-, hid', -⟩ := hfolded.entry key' entry' (SortedMap.mem_entries_iff.mp hentry')
  dsimp only at hlt ⊢
  rw [hid, hid']
  exact hlt

def compareEdges (left right : CanonicalEdge) : Ordering := compare left.id right.id

instance : Std.TransCmp compareEdges :=
  inferInstanceAs (Std.TransCmp (compareOn CanonicalEdge.id))

theorem foldedIn_eq (order : WalkOrder) (edges : List GraphEdge) :
    (order.folded ((foldEdges placement edges).entries.map (·.2))).insertionSort
        (fun left right => compare left.id right.id ≠ .gt) =
      (foldEdges placement edges).entries.map (·.2) := by
  have hsorted := sorted_foldedEdges placement edges
  generalize (foldEdges placement edges).entries.map (·.2) = entries at hsorted ⊢
  have hperm : (Selection.sortBy compareEdges (order.folded entries)).Perm entries :=
    (Selection.perm_sortBy _).trans (order.folded_perm _)
  have hsortedIn : (Selection.sortBy compareEdges (order.folded entries)).Pairwise
      fun left right => (compareEdges left right).isLE := Selection.pairwise_sortBy _
  change Selection.sortBy compareEdges (order.folded entries) = entries
  refine Selection.sorted_unique hperm ?_ hsortedIn ?_
  · intro a ha b hb heq
    have hids : (entries.map (·.id)).Nodup := by
      unfold List.Nodup
      rw [List.pairwise_map]
      exact hsorted.imp fun h => ne_of_lt h
    exact List.inj_on_of_nodup_map hids (hperm.mem_iff.mp ha) (hperm.mem_iff.mp hb)
      (Std.LawfulEqCmp.eq_of_compare heq)
  · apply hsorted.imp
    intro a b hlt
    rw [Ordering.isLE_iff_ne_gt]
    unfold compareEdges
    intro hgt
    exact absurd (compare_gt_iff_gt.mp hgt) (lt_asymm hlt)

end Edges

/-! ## The layout in every order -/

section Layouts
variable {nodes : List GraphNode} {edges : List GraphEdge}

instance (arrangement : Arrangement) : Std.TransCmp arrangement.compareNodeIds :=
  inferInstanceAs (Std.TransCmp (compareLex (compareOn arrangement.meanDepth)
    (compareLex (compareOn arrangement.labelOf) compare)))

theorem nodeIdsIn_eq (arrangement : Arrangement) (order : WalkOrder) :
    arrangement.nodeIdsIn order = arrangement.canonicalNodeIds := by
  unfold Arrangement.nodeIdsIn Arrangement.canonicalNodeIds
  change Selection.sortBy arrangement.compareNodeIds _ =
    Selection.sortBy arrangement.compareNodeIds _
  apply Selection.sortBy_congr
  · exact (List.perm_insertionSort _ _).trans (order.ids_perm _)
  · intro a _ b _ heq
    unfold Arrangement.compareNodeIds at heq
    rw [Ordering.then_eq_eq, Ordering.then_eq_eq] at heq
    exact Std.LawfulEqCmp.eq_of_compare heq.2.2

/-- Only what the ids of the nodes are looked up to matters. -/
theorem placeNodes_congr (arrangement : Arrangement) {allNodes : List GraphNode}
    (hnodes : ∀ id, nodeById allNodes id = nodeById arrangement.allNodes id) (ids : List String) :
    ∀ rows, ({ arrangement with allNodes := allNodes } : Arrangement).placeNodes rows ids =
      arrangement.placeNodes rows ids := by
  induction ids with
  | nil => exact fun _ => rfl
  | cons id ids ih =>
    intro rows
    unfold Arrangement.placeNodes
    dsimp only
    rw [hnodes]
    split
    · exact ih rows
    · rw [ih]
      rfl

theorem canonicalNodeIds_congr (arrangement : Arrangement) {allNodes : List GraphNode}
    (hnodes : ∀ id, nodeById allNodes id = nodeById arrangement.allNodes id) :
    ({ arrangement with allNodes := allNodes } : Arrangement).canonicalNodeIds =
      arrangement.canonicalNodeIds := by
  have hlabel : ({ arrangement with allNodes := allNodes } : Arrangement).labelOf =
      arrangement.labelOf := by
    funext id
    unfold Arrangement.labelOf
    dsimp only
    rw [hnodes]
  unfold Arrangement.canonicalNodeIds Arrangement.compareNodeIds
  rw [hlabel]
  rfl

variable (edges) in
theorem arrangeIn_eq (order : WalkOrder) (centerId : String)
    (hdistinct : (nodes.map (·.id)).Nodup) (hfree : Unreserved nodes) :
    arrangeIn order centerId nodes edges =
        { arrange centerId nodes edges with
          allNodes := nodes ++ order.hosts (extractMembers nodes edges).syntheticHosts } ∧
      ∀ id, nodeById (nodes ++ order.hosts (extractMembers nodes edges).syntheticHosts) id =
        nodeById (arrange centerId nodes edges).allNodes id := by
  have hmade := made_extractMembers nodes edges
  have hall := distinct_allNodes hdistinct hfree edges
  have hperm := (order.hosts_perm (extractMembers nodes edges).syntheticHosts).symm
  have hnodes : ∀ id,
      nodeById (nodes ++ order.hosts (extractMembers nodes edges).syntheticHosts) id =
        nodeById (arrange centerId nodes edges).allNodes id :=
    fun id => (nodeById_perm (hperm.append_left nodes) hall id).symm
  have hdepth : ∀ center, signedDepth
      (nodes ++ order.hosts (extractMembers nodes edges).syntheticHosts) edges center =
        signedDepth (arrange centerId nodes edges).allNodes edges center := by
    intro center
    funext id
    unfold signedDepth
    rw [hnodes]
  refine ⟨?_, hnodes⟩
  unfold arrangeIn
  dsimp only
  rw [hdepth, foldNodes_hosts hmade hperm hall]
  rfl

theorem map_showMembers (arrangement : Arrangement) (ids : List String) :
    ∀ rows, (arrangement.placeNodes rows ids).map (fun node =>
      node.showMembers (arrangement.membersOf node.id)) = arrangement.placeNodes rows ids := by
  induction ids with
  | nil => exact fun _ => rfl
  | cons id ids ih =>
    intro rows
    unfold Arrangement.placeNodes
    split
    · exact ih rows
    · rw [List.map_cons, ih]
      rfl

theorem genuine_extractMembers (nodes : List GraphNode) (edges : List GraphEdge) (host : String)
    (members : List CanonicalMember)
    (hget : (extractMembers nodes edges).membersByHost.get host = some members) :
    ∀ member ∈ members, Genuine nodes member := by
  intro member hmember
  obtain ⟨node, hnode, heq, -⟩ :=
    (listed_extractMembers nodes edges).genuine host members hget member hmember
  exact ⟨node, hnode, heq⟩

theorem layoutIn_eq (order : WalkOrder) (centerId : String)
    (hdistinct : (nodes.map (·.id)).Nodup) (hfree : Unreserved nodes) :
    layoutIn order centerId nodes edges = buildCanonicalLayout centerId nodes edges := by
  obtain ⟨harrange, hnodes⟩ := arrangeIn_eq edges order centerId hdistinct hfree
  have hmembers := membersIn_eq (arrange centerId nodes edges) order hdistinct
    (genuine_extractMembers nodes edges)
  unfold layoutIn buildCanonicalLayout
  dsimp only
  rw [harrange, nodeIdsIn_eq, canonicalNodeIds_congr _ hnodes, placeNodes_congr _ hnodes]
  congr 1
  · refine Eq.trans ?_ (map_showMembers (arrange centerId nodes edges) _ _)
    apply List.map_congr_left
    intro node _
    exact congrArg node.showMembers (hmembers node.id)
  · exact foldedIn_eq order edges

end Layouts

end CodeStory.Layout
