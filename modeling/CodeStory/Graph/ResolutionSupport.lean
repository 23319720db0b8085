import CodeStory.Graph.OverrideSupport

/-!
# What a resolution run is prepared from

The state of a run is read from the node and edge tables, or rebuilt from a snapshot of an
earlier read. An index is its list of nodes; the maps the source builds over it are functions
of that list, as are the normalised path and the lower-case names. A set of ids is the sorted
list of its elements. How a language is told from a path is a parameter.

The rows for overrides leave the state in the order of a hash map, so a snapshot is
determined up to the order of these four lists. The encoding of the snapshot is not modelled.
-/

set_option autoImplicit false

namespace CodeStory.Graph

structure CandidateNode where
  id : Int
  fileNodeId : Option Int
  filePath : Option String
  serializedName : String
  qualifiedName : Option String
deriving DecidableEq

structure SemanticCandidateNode where
  id : Int
  kind : NodeKind
  serializedName : String
  qualifiedName : Option String
  fileNodeId : Option Int
  languageFamily : Option String
deriving DecidableEq

structure CandidateIndex where
  nodes : List CandidateNode
  relativeImportNodes : List CandidateNode
  importBindingNodeIds : List Int
deriving DecidableEq

structure PreparedResolutionState where
  callCandidateIndex : CandidateIndex
  importCandidateIndex : CandidateIndex
  callSemanticIndex : List SemanticCandidateNode
  importSemanticIndex : List SemanticCandidateNode
  overrideSupport : OverrideSupport

structure ResolutionSupportSnapshot where
  enableSemantic : Bool
  callCandidates : List CandidateNode
  callImportBindingNodeIds : List Int
  importCandidates : List CandidateNode
  relativeImportCandidates : List CandidateNode
  callSemanticNodes : List SemanticCandidateNode
  importSemanticNodes : List SemanticCandidateNode
  overrideMembers : List OverrideMember
  overrideInheritance : List (Int × Int)
  overrideInheritanceByName : List (String × String)
  nodeNames : List (Int × String)
deriving DecidableEq

def resolutionSupportSnapshotVersion : Int := 4

/-! ## Queries -/

def callCandidateKinds : List NodeKind := [.functionNode, .methodNode, .macroNode]

def importCandidateKinds : List NodeKind := [.moduleNode, .namespaceNode, .packageNode]

def callSemanticKinds : List NodeKind := [.functionNode, .methodNode]

def importSemanticKinds : List NodeKind :=
  [.moduleNode, .namespaceNode, .packageNode, .classNode, .structNode, .interfaceNode,
    .annotationNode, .unionNode, .enumNode, .typedefNode, .functionNode, .methodNode]

/-- `ORDER BY COALESCE(start_line, -9223372036854775808), id`. -/
def lineOrder (node : Node) : Int × Int :=
  (node.startLine.elim (-9223372036854775808) (↑), node.id)

def OrderBefore {γ : Type} (a b : (Int × Int) × γ) : Prop :=
  a.1.1 < b.1.1 ∨ a.1.1 = b.1.1 ∧ a.1.2 ≤ b.1.2

instance {γ : Type} : DecidableRel (OrderBefore : (Int × Int) × γ → (Int × Int) × γ → Prop) :=
  fun a b => inferInstanceAs (Decidable (a.1.1 < b.1.1 ∨ a.1.1 = b.1.1 ∧ a.1.2 ≤ b.1.2))

def ordered {γ : Type} (rows : List ((Int × Int) × γ)) : List γ :=
  (rows.insertionSort OrderBefore).map (·.2)

namespace Tables
variable (tables : Tables)

def nodeName (id : Int) : Option String := (tables.node.lookup id).map (·.serializedName)

def candidateNode (node : Node) : CandidateNode where
  id := node.id
  fileNodeId := node.fileNodeId
  filePath := node.fileNodeId.bind tables.nodeName
  serializedName := node.serializedName
  qualifiedName := node.qualifiedName

def semanticCandidateNode (languageFamily : String → Option String) (node : Node) :
    SemanticCandidateNode where
  id := node.id
  kind := node.kind
  serializedName := node.serializedName
  qualifiedName := node.qualifiedName
  fileNodeId := node.fileNodeId
  languageFamily := (node.fileNodeId.bind tables.nodeName).bind languageFamily

/-- The nodes of some kinds, as a query reads them. -/
def loadNodes {γ : Type} (kinds : List NodeKind) (read : Node → γ) : List γ :=
  ordered (tables.node.rows.filterMap fun node =>
    if node.kind ∈ kinds then some (lineOrder node, read node) else none)

def loadImportBindingNodeIds : List Int :=
  OverrideSupport.sortedDistinct
    ((tables.edge.rows.filter (·.kind = .importEdge)).map (·.source))

def overrideMemberRow (edge : Edge) : Option OverrideMember :=
  if edge.kind = .memberEdge then
    match tables.node.lookup edge.source, tables.node.lookup edge.target with
    | some owner, some method =>
      if method.kind = .methodNode then
        some ⟨owner.id, owner.serializedName, method.id, shortMemberName method.serializedName⟩
      else none
    | _, _ => none
  else none

/-- `COALESCE(resolved_target_node_id, target_node_id)`. -/
def inheritedId (edge : Edge) : Int := edge.resolvedTarget.getD edge.target

def overrideInheritanceRow (edge : Edge) : Option (Int × Int) :=
  if edge.kind = .inheritanceEdge then some (edge.source, inheritedId edge) else none

def overrideInheritanceByNameRow (edge : Edge) : Option (String × String) :=
  if edge.kind = .inheritanceEdge then
    match tables.nodeName edge.source, tables.nodeName (inheritedId edge) with
    | some source, some target => some (source, target)
    | _, _ => none
  else none

def loadOverrideSupport : OverrideSupport where
  members := tables.edge.rows.filterMap tables.overrideMemberRow
  inheritance := tables.edge.rows.filterMap overrideInheritanceRow
  inheritanceByName := tables.edge.rows.filterMap tables.overrideInheritanceByNameRow
  nodeNames := tables.node.rows.map fun node => (node.id, node.serializedName)

end Tables

/-- Without nodes of its own for relative imports an index uses the others. -/
def CandidateIndex.build (nodes relativeImportNodes : List CandidateNode)
    (importBindingNodeIds : List Int) : CandidateIndex where
  nodes := nodes
  relativeImportNodes := if relativeImportNodes.isEmpty then nodes else relativeImportNodes
  importBindingNodeIds := importBindingNodeIds

namespace OverrideSupport
variable (support : OverrideSupport)

def overrideMemberRows : List OverrideMember :=
  support.members.map fun member =>
    { member with ownerName := (support.ownerNameById member.ownerId).getD "" }

/-- The entries of the map from ids to names. -/
def nodeNameRows : List (Int × String) :=
  (support.members.map (·.ownerId) ++ support.nodeNames.map (·.1)).dedup.filterMap fun id =>
    (support.ownerNameById id).map (id, ·)

end OverrideSupport

namespace PreparedResolutionState

section Load
variable (languageFamily : String → Option String) (enableSemantic : Bool) (tables : Tables)

/-- A load from the tables. -/
def load : PreparedResolutionState where
  callCandidateIndex :=
    .build (tables.loadNodes callCandidateKinds tables.candidateNode) []
      tables.loadImportBindingNodeIds
  importCandidateIndex :=
    .build (tables.loadNodes importCandidateKinds tables.candidateNode)
      (tables.loadNodes importSemanticKinds tables.candidateNode) []
  callSemanticIndex :=
    if enableSemantic then
      tables.loadNodes callSemanticKinds (tables.semanticCandidateNode languageFamily)
    else []
  importSemanticIndex :=
    if enableSemantic then
      tables.loadNodes importSemanticKinds (tables.semanticCandidateNode languageFamily)
    else []
  overrideSupport := tables.loadOverrideSupport

end Load

def snapshot (prepared : PreparedResolutionState) (enableSemantic : Bool) :
    ResolutionSupportSnapshot where
  enableSemantic := enableSemantic
  callCandidates := prepared.callCandidateIndex.nodes
  callImportBindingNodeIds := prepared.callCandidateIndex.importBindingNodeIds
  importCandidates := prepared.importCandidateIndex.nodes
  relativeImportCandidates := prepared.importCandidateIndex.relativeImportNodes
  callSemanticNodes := prepared.callSemanticIndex
  importSemanticNodes := prepared.importSemanticIndex
  overrideMembers := prepared.overrideSupport.overrideMemberRows
  overrideInheritance := prepared.overrideSupport.inheritance
  overrideInheritanceByName := prepared.overrideSupport.inheritanceByName
  nodeNames := prepared.overrideSupport.nodeNameRows

def fromSnapshot (snapshot : ResolutionSupportSnapshot) (enableSemantic : Bool) :
    PreparedResolutionState where
  callCandidateIndex := .build snapshot.callCandidates [] snapshot.callImportBindingNodeIds
  importCandidateIndex := .build snapshot.importCandidates snapshot.relativeImportCandidates []
  callSemanticIndex := if enableSemantic then snapshot.callSemanticNodes else []
  importSemanticIndex := if enableSemantic then snapshot.importSemanticNodes else []
  overrideSupport :=
    ⟨snapshot.overrideMembers, snapshot.overrideInheritance, snapshot.overrideInheritanceByName,
      snapshot.nodeNames⟩

end PreparedResolutionState

/-! ## What is read of the tables -/

def candidateKinds : List NodeKind := .macroNode :: importSemanticKinds

/-- The columns of a node that some query reads. Of a kind that no query asks for it is the
name only. -/
structure SupportColumns where
  id : Int
  serializedName : String
  candidate : Option (NodeKind × Option String × Option Int × Option Nat)
deriving DecidableEq

def supportColumns (node : Node) : SupportColumns where
  id := node.id
  serializedName := node.serializedName
  candidate :=
    if node.kind ∈ candidateKinds then
      some (node.kind, node.qualifiedName, node.fileNodeId, node.startLine)
    else none

/-- The columns of an edge that some query reads. -/
def supportEdge (edge : Edge) : Int × Int × EdgeKind × Option Int :=
  (edge.source, edge.target, edge.kind,
    if edge.kind = .inheritanceEdge then edge.resolvedTarget else none)

/-- The tables agree in everything that is read. -/
structure SameSupport (tables other : Tables) : Prop where
  node : ∀ id,
    (tables.node.lookup id).map supportColumns = (other.node.lookup id).map supportColumns
  edge : tables.edge.rows.map supportEdge = other.edge.rows.map supportEdge

theorem filterMap_eq_of_map_eq {α δ γ : Type} {c : α → δ} {f g : α → Option γ}
    (hread : ∀ x y, c x = c y → f x = g y) :
    ∀ {xs ys : List α}, xs.map c = ys.map c → xs.filterMap f = ys.filterMap g := by
  intro xs
  induction xs with
  | nil =>
    intro ys h
    cases ys with
    | nil => rfl
    | cons y ys => simp at h
  | cons x xs ih =>
    intro ys h
    cases ys with
    | nil => simp at h
    | cons y ys =>
      obtain ⟨hxy, hrest⟩ := List.cons.inj h
      rw [List.filterMap_cons, List.filterMap_cons, hread x y hxy, ih hrest]

instance {γ : Type} : Std.Total (OrderBefore : (Int × Int) × γ → (Int × Int) × γ → Prop) where
  total := by
    intro a b
    unfold OrderBefore
    omega

instance {γ : Type} : IsTrans ((Int × Int) × γ) OrderBefore where
  trans := by
    intro a b c hab hbc
    unfold OrderBefore at *
    omega

theorem ordered_eq_of_perm {γ : Type} {rows other : List ((Int × Int) × γ)}
    (h : rows.Perm other)
    (hunique : ∀ a ∈ rows, ∀ b ∈ rows, a.1.2 = b.1.2 → a = b) :
    ordered rows = ordered other := by
  have hperm : (rows.insertionSort OrderBefore).Perm (other.insertionSort OrderBefore) :=
    ((List.perm_insertionSort _ _).trans h).trans (List.perm_insertionSort _ _).symm
  have heq : rows.insertionSort OrderBefore = other.insertionSort OrderBefore := by
    refine hperm.eq_of_pairwise ?_ (List.pairwise_insertionSort _ rows)
      (List.pairwise_insertionSort _ other)
    intro a b ha hb hab hba
    have ha' := (List.mem_insertionSort _).mp ha
    have hb' := h.mem_iff.mpr ((List.mem_insertionSort _).mp hb)
    apply hunique a ha' b hb'
    unfold OrderBefore at hab hba
    omega
  unfold ordered
  rw [heq]

namespace SameSupport
variable {tables other : Tables}

theorem nodeName (h : SameSupport tables other) : tables.nodeName = other.nodeName := by
  funext id
  have hname : ∀ t : Tables, t.nodeName id =
      ((t.node.lookup id).map supportColumns).map (·.serializedName) := by
    intro t
    rw [Option.map_map]
    rfl
  rw [hname, hname, h.node id]

theorem supportColumns_eq {node node' : Node} (h : supportColumns node = supportColumns node') :
    node.id = node'.id ∧ node.serializedName = node'.serializedName ∧
      (node.kind = node'.kind ∧ node.qualifiedName = node'.qualifiedName ∧
          node.fileNodeId = node'.fileNodeId ∧ node.startLine = node'.startLine ∨
        node.kind ∉ candidateKinds ∧ node'.kind ∉ candidateKinds) := by
  have hid : node.id = node'.id := congrArg SupportColumns.id h
  have hname : node.serializedName = node'.serializedName :=
    congrArg SupportColumns.serializedName h
  have hcandidate := congrArg SupportColumns.candidate h
  refine ⟨hid, hname, ?_⟩
  simp only [supportColumns] at hcandidate
  by_cases hkind : node.kind ∈ candidateKinds
  · by_cases hkind' : node'.kind ∈ candidateKinds
    · rw [if_pos hkind, if_pos hkind'] at hcandidate
      left
      simpa using hcandidate
    · rw [if_pos hkind, if_neg hkind'] at hcandidate
      cases hcandidate
  · by_cases hkind' : node'.kind ∈ candidateKinds
    · rw [if_neg hkind, if_pos hkind'] at hcandidate
      cases hcandidate
    · exact .inr ⟨hkind, hkind'⟩

/-- Two reads that agree on nodes with the same columns load the same list. -/
theorem loadNodes_eq {γ : Type} (h : SameSupport tables other) {kinds : List NodeKind}
    (hkinds : kinds ⊆ candidateKinds) {read read' : Node → γ}
    (hread : ∀ node node' : Node, node.id = node'.id →
      node.serializedName = node'.serializedName → node.kind = node'.kind →
      node.qualifiedName = node'.qualifiedName → node.fileNodeId = node'.fileNodeId →
      read node = read' node') :
    tables.loadNodes kinds read = other.loadNodes kinds read' := by
  unfold Tables.loadNodes
  apply ordered_eq_of_perm
  · apply KeyedTable.filterMap_perm h.node
    intro node node' hcolumns
    obtain ⟨hid, hname, ⟨hkind, hqualified, hfile, hline⟩ | ⟨hkind, hkind'⟩⟩ :=
      supportColumns_eq hcolumns
    · rw [hread node node' hid hname hkind hqualified hfile, lineOrder, lineOrder, hline, hid,
        hkind]
    · rw [if_neg fun hin => hkind (hkinds hin), if_neg fun hin => hkind' (hkinds hin)]
  · intro a ha b hb hids
    obtain ⟨node, hnode, ha⟩ := List.mem_filterMap.mp ha
    obtain ⟨node', hnode', hb⟩ := List.mem_filterMap.mp hb
    split at ha
    · split at hb
      · obtain rfl := Option.some.inj ha
        obtain rfl := Option.some.inj hb
        rw [KeyedTable.eq_of_key_eq hnode hnode' hids]
      · cases hb
    · cases ha

theorem candidateNode_eq (h : SameSupport tables other) (kinds : List NodeKind)
    (hkinds : kinds ⊆ candidateKinds) :
    tables.loadNodes kinds tables.candidateNode = other.loadNodes kinds other.candidateNode := by
  apply h.loadNodes_eq hkinds
  intro node node' hid hname _ hqualified hfile
  unfold Tables.candidateNode
  rw [hid, hname, hqualified, hfile, h.nodeName]

theorem semanticCandidateNode_eq (h : SameSupport tables other) (kinds : List NodeKind)
    (hkinds : kinds ⊆ candidateKinds) (languageFamily : String → Option String) :
    tables.loadNodes kinds (tables.semanticCandidateNode languageFamily) =
      other.loadNodes kinds (other.semanticCandidateNode languageFamily) := by
  apply h.loadNodes_eq hkinds
  intro node node' hid hname hkind hqualified hfile
  unfold Tables.semanticCandidateNode
  rw [hid, hname, hkind, hqualified, hfile, h.nodeName]

theorem loadImportBindingNodeIds_eq (h : SameSupport tables other) :
    tables.loadImportBindingNodeIds = other.loadImportBindingNodeIds := by
  have hsources : ∀ t : Tables, (t.edge.rows.filter (·.kind = .importEdge)).map (·.source) =
      ((t.edge.rows.map supportEdge).filter (·.2.2.1 = .importEdge)).map (·.1) := by
    intro t
    rw [List.filter_map, List.map_map]
    rfl
  unfold Tables.loadImportBindingNodeIds
  rw [hsources, hsources, h.edge]

/-- Of a node found by its id: the name, and whether it is a method. -/
theorem lookup_cases (h : SameSupport tables other) (id : Int) :
    (tables.node.lookup id = none ∧ other.node.lookup id = none) ∨
      ∃ node node', tables.node.lookup id = some node ∧ other.node.lookup id = some node' ∧
        node.id = node'.id ∧ node.serializedName = node'.serializedName ∧
        (node.kind = .methodNode ↔ node'.kind = .methodNode) := by
  have hid := h.node id
  cases hnode : tables.node.lookup id with
  | none =>
    cases hnode' : other.node.lookup id with
    | none => exact .inl ⟨rfl, rfl⟩
    | some node' => simp [hnode, hnode'] at hid
  | some node =>
    cases hnode' : other.node.lookup id with
    | none => simp [hnode, hnode'] at hid
    | some node' =>
      rw [hnode, hnode'] at hid
      obtain ⟨hids, hname, ⟨hkind, -⟩ | ⟨hkind, hkind'⟩⟩ :=
        supportColumns_eq (Option.some.inj hid)
      · exact .inr ⟨node, node', rfl, rfl, hids, hname, by rw [hkind]⟩
      · refine .inr ⟨node, node', rfl, rfl, hids, hname, iff_of_false ?_ ?_⟩
        · intro hmethod
          exact hkind (hmethod ▸ by decide)
        · intro hmethod
          exact hkind' (hmethod ▸ by decide)

theorem supportEdge_eq {edge edge' : Edge} (h : supportEdge edge = supportEdge edge') :
    edge.source = edge'.source ∧ edge.target = edge'.target ∧ edge.kind = edge'.kind ∧
      (edge'.kind = .inheritanceEdge → Tables.inheritedId edge = Tables.inheritedId edge') := by
  simp only [supportEdge, Prod.mk.injEq] at h
  obtain ⟨hsource, htarget, hkind, hresolved⟩ := h
  refine ⟨hsource, htarget, hkind, ?_⟩
  intro hinheritance
  rw [hkind, if_pos hinheritance, if_pos hinheritance] at hresolved
  unfold Tables.inheritedId
  rw [htarget, hresolved]

theorem overrideMemberRow_eq (h : SameSupport tables other) {edge edge' : Edge}
    (hedge : supportEdge edge = supportEdge edge') :
    tables.overrideMemberRow edge = other.overrideMemberRow edge' := by
  obtain ⟨hsource, htarget, hkind, -⟩ := supportEdge_eq hedge
  unfold Tables.overrideMemberRow
  rw [hsource, htarget, hkind]
  split
  · rcases h.lookup_cases edge'.source with ⟨hnone, hnone'⟩ |
      ⟨owner, owner', ho, ho', hids, hname, -⟩
    · rw [hnone, hnone']
    · rw [ho, ho']
      rcases h.lookup_cases edge'.target with
        ⟨hnone, hnone'⟩ | ⟨method, method', hm, hm', hmids, hmname, hmethod⟩
      · rw [hnone, hnone']
      · rw [hm, hm']
        simp only [hids, hname, hmids, hmname, hmethod]
  · rfl

theorem loadOverrideSupport_reordered (h : SameSupport tables other) :
    tables.loadOverrideSupport.Reordered other.loadOverrideSupport where
  members := by
    refine .of_eq (filterMap_eq_of_map_eq ?_ h.edge)
    intro edge edge' hedge
    exact h.overrideMemberRow_eq hedge
  inheritance := by
    refine .of_eq (filterMap_eq_of_map_eq ?_ h.edge)
    intro edge edge' hedge
    obtain ⟨hsource, -, hkind, hinherited⟩ := supportEdge_eq hedge
    unfold Tables.overrideInheritanceRow
    rw [hsource, hkind]
    split
    · rename_i hinheritance
      rw [hinherited hinheritance]
    · rfl
  inheritanceByName := by
    refine .of_eq (filterMap_eq_of_map_eq ?_ h.edge)
    intro edge edge' hedge
    obtain ⟨hsource, -, hkind, hinherited⟩ := supportEdge_eq hedge
    unfold Tables.overrideInheritanceByNameRow
    rw [hsource, hkind, h.nodeName]
    split
    · rename_i hinheritance
      rw [hinherited hinheritance]
    · rfl
  nodeNames := by
    have hperm := KeyedTable.filterMap_perm h.node
      (f := fun node => some (node.id, node.serializedName))
      (g := fun node => some (node.id, node.serializedName)) (by
        intro node node' hcolumns
        obtain ⟨hid, hname, -⟩ := supportColumns_eq hcolumns
        rw [hid, hname])
    simpa [Tables.loadOverrideSupport, List.filterMap_eq_map'] using hperm

end SameSupport

/-! ## States that resolve alike -/

namespace PreparedResolutionState

/-- Equal but for the order of the rows for overrides. -/
structure Same (prepared other : PreparedResolutionState) : Prop where
  callCandidateIndex : prepared.callCandidateIndex = other.callCandidateIndex
  importCandidateIndex : prepared.importCandidateIndex = other.importCandidateIndex
  callSemanticIndex : prepared.callSemanticIndex = other.callSemanticIndex
  importSemanticIndex : prepared.importSemanticIndex = other.importSemanticIndex
  overrideSupport : prepared.overrideSupport.Reordered other.overrideSupport

theorem Same.symm {prepared other : PreparedResolutionState} (h : prepared.Same other) :
    other.Same prepared where
  callCandidateIndex := h.callCandidateIndex.symm
  importCandidateIndex := h.importCandidateIndex.symm
  callSemanticIndex := h.callSemanticIndex.symm
  importSemanticIndex := h.importSemanticIndex.symm
  overrideSupport := h.overrideSupport.symm

theorem load_same {tables other : Tables} (h : SameSupport tables other)
    (languageFamily : String → Option String) (enableSemantic : Bool) :
    (load languageFamily enableSemantic tables).Same
      (load languageFamily enableSemantic other) where
  callCandidateIndex := by
    simp only [load, h.candidateNode_eq callCandidateKinds (by decide),
      h.loadImportBindingNodeIds_eq]
  importCandidateIndex := by
    simp only [load, h.candidateNode_eq importCandidateKinds (by decide),
      h.candidateNode_eq importSemanticKinds (by decide)]
  callSemanticIndex := by
    simp only [load, h.semanticCandidateNode_eq callSemanticKinds (by decide)]
  importSemanticIndex := by
    simp only [load, h.semanticCandidateNode_eq importSemanticKinds (by decide)]
  overrideSupport := h.loadOverrideSupport_reordered

end PreparedResolutionState

namespace Tables

theorem consistent_loadOverrideSupport (tables : Tables) :
    tables.loadOverrideSupport.Consistent where
  names := by
    have hkeys : tables.loadOverrideSupport.nodeNames.map (·.1) = tables.node.keys := by
      unfold loadOverrideSupport KeyedTable.keys
      rw [List.map_map]
      rfl
    rw [hkeys]
    exact tables.node.nodup
  owners := by
    intro member hmember
    obtain ⟨edge, -, hrow⟩ := List.mem_filterMap.mp hmember
    unfold overrideMemberRow at hrow
    split at hrow
    · split at hrow
      · rename_i owner method howner _
        split at hrow
        · obtain rfl := Option.some.inj hrow
          have hin := (KeyedTable.lookup_eq_some_iff.mp howner).1
          exact List.mem_map_of_mem (f := fun node : Node => (node.id, node.serializedName)) hin
        · cases hrow
      · cases hrow
    · cases hrow

end Tables

namespace OverrideSupport
variable {support : OverrideSupport}

theorem Consistent.overrideMemberRows_eq (h : support.Consistent) :
    support.overrideMemberRows = support.members := by
  unfold overrideMemberRows
  conv_rhs => rw [← List.map_id support.members]
  apply List.map_congr_left
  intro member hmember
  rw [h.ownerNameById_iff.mpr (h.owners member hmember)]
  rfl

theorem Consistent.nodeNameRows_perm (h : support.Consistent) :
    support.nodeNameRows.Perm support.nodeNames := by
  have hnodup : support.nodeNameRows.Nodup := by
    apply (List.nodup_dedup _).filterMap
    intro id id' entry hid hid'
    obtain ⟨name, -, rfl⟩ := Option.map_eq_some_iff.mp hid
    obtain ⟨name', -, hentry⟩ := Option.map_eq_some_iff.mp hid'
    exact (congrArg Prod.fst hentry).symm
  apply (List.perm_ext_iff_of_nodup hnodup (List.Nodup.of_map _ h.names)).mpr
  rintro ⟨id, name⟩
  unfold nodeNameRows
  rw [List.mem_filterMap]
  constructor
  · rintro ⟨id', -, hentry⟩
    obtain ⟨name', hname, hpair⟩ := Option.map_eq_some_iff.mp hentry
    cases hpair
    exact h.ownerNameById_iff.mp hname
  · intro hin
    refine ⟨id, ?_, ?_⟩
    · rw [List.mem_dedup, List.mem_append]
      exact .inr (List.mem_map_of_mem hin)
    · rw [h.ownerNameById_iff.mpr hin]
      rfl

end OverrideSupport

/-! ## Snapshots up to order -/

namespace ResolutionSupportSnapshot

/-- Equal but for the order of the rows for overrides. -/
structure SameUpToOrder (snapshot other : ResolutionSupportSnapshot) : Prop where
  enableSemantic : snapshot.enableSemantic = other.enableSemantic
  callCandidates : snapshot.callCandidates = other.callCandidates
  callImportBindingNodeIds : snapshot.callImportBindingNodeIds = other.callImportBindingNodeIds
  importCandidates : snapshot.importCandidates = other.importCandidates
  relativeImportCandidates : snapshot.relativeImportCandidates = other.relativeImportCandidates
  callSemanticNodes : snapshot.callSemanticNodes = other.callSemanticNodes
  importSemanticNodes : snapshot.importSemanticNodes = other.importSemanticNodes
  overrideMembers : snapshot.overrideMembers.Perm other.overrideMembers
  overrideInheritance : snapshot.overrideInheritance.Perm other.overrideInheritance
  overrideInheritanceByName :
    snapshot.overrideInheritanceByName.Perm other.overrideInheritanceByName
  nodeNames : snapshot.nodeNames.Perm other.nodeNames

variable {snapshot other third : ResolutionSupportSnapshot}

theorem SameUpToOrder.trans (h : snapshot.SameUpToOrder other) (h' : other.SameUpToOrder third) :
    snapshot.SameUpToOrder third where
  enableSemantic := h.enableSemantic.trans h'.enableSemantic
  callCandidates := h.callCandidates.trans h'.callCandidates
  callImportBindingNodeIds := h.callImportBindingNodeIds.trans h'.callImportBindingNodeIds
  importCandidates := h.importCandidates.trans h'.importCandidates
  relativeImportCandidates := h.relativeImportCandidates.trans h'.relativeImportCandidates
  callSemanticNodes := h.callSemanticNodes.trans h'.callSemanticNodes
  importSemanticNodes := h.importSemanticNodes.trans h'.importSemanticNodes
  overrideMembers := h.overrideMembers.trans h'.overrideMembers
  overrideInheritance := h.overrideInheritance.trans h'.overrideInheritance
  overrideInheritanceByName := h.overrideInheritanceByName.trans h'.overrideInheritanceByName
  nodeNames := h.nodeNames.trans h'.nodeNames

instance (snapshot other : ResolutionSupportSnapshot) :
    Decidable (snapshot.SameUpToOrder other) :=
  decidable_of_iff
    ((snapshot.enableSemantic = other.enableSemantic ∧
        snapshot.callCandidates = other.callCandidates ∧
        snapshot.callImportBindingNodeIds = other.callImportBindingNodeIds ∧
        snapshot.importCandidates = other.importCandidates ∧
        snapshot.relativeImportCandidates = other.relativeImportCandidates ∧
        snapshot.callSemanticNodes = other.callSemanticNodes ∧
        snapshot.importSemanticNodes = other.importSemanticNodes) ∧
      snapshot.overrideMembers.Perm other.overrideMembers ∧
      snapshot.overrideInheritance.Perm other.overrideInheritance ∧
      snapshot.overrideInheritanceByName.Perm other.overrideInheritanceByName ∧
      snapshot.nodeNames.Perm other.nodeNames)
    ⟨fun ⟨⟨h₁, h₂, h₃, h₄, h₅, h₆, h₇⟩, h₈, h₉, h₁₀, h₁₁⟩ =>
        ⟨h₁, h₂, h₃, h₄, h₅, h₆, h₇, h₈, h₉, h₁₀, h₁₁⟩,
      fun ⟨h₁, h₂, h₃, h₄, h₅, h₆, h₇, h₈, h₉, h₁₀, h₁₁⟩ =>
        ⟨⟨h₁, h₂, h₃, h₄, h₅, h₆, h₇⟩, h₈, h₉, h₁₀, h₁₁⟩⟩

end ResolutionSupportSnapshot

namespace PreparedResolutionState

theorem Same.snapshot {prepared other : PreparedResolutionState} (h : prepared.Same other)
    (hconsistent : prepared.overrideSupport.Consistent) (enableSemantic : Bool) :
    (prepared.snapshot enableSemantic).SameUpToOrder (other.snapshot enableSemantic) where
  enableSemantic := rfl
  callCandidates := congrArg CandidateIndex.nodes h.callCandidateIndex
  callImportBindingNodeIds := congrArg CandidateIndex.importBindingNodeIds h.callCandidateIndex
  importCandidates := congrArg CandidateIndex.nodes h.importCandidateIndex
  relativeImportCandidates := congrArg CandidateIndex.relativeImportNodes h.importCandidateIndex
  callSemanticNodes := h.callSemanticIndex
  importSemanticNodes := h.importSemanticIndex
  overrideMembers := by
    have hother := hconsistent.reordered h.overrideSupport
    simp only [PreparedResolutionState.snapshot, hconsistent.overrideMemberRows_eq,
      hother.overrideMemberRows_eq]
    exact h.overrideSupport.members
  overrideInheritance := h.overrideSupport.inheritance
  overrideInheritanceByName := h.overrideSupport.inheritanceByName
  nodeNames := by
    have hother := hconsistent.reordered h.overrideSupport
    exact (hconsistent.nodeNameRows_perm.trans h.overrideSupport.nodeNames).trans
      hother.nodeNameRows_perm.symm

/-- What a snapshot of a load is rebuilt to. -/
theorem fromSnapshot_same {languageFamily : String → Option String} {enableSemantic : Bool}
    {tables : Tables} {snapshot : ResolutionSupportSnapshot}
    (h : snapshot.SameUpToOrder
      ((load languageFamily enableSemantic tables).snapshot enableSemantic)) :
    (fromSnapshot snapshot enableSemantic).Same (load languageFamily enableSemantic tables) where
  callCandidateIndex := by
    simp only [fromSnapshot, h.callCandidates, h.callImportBindingNodeIds]
    rfl
  importCandidateIndex := by
    simp only [fromSnapshot, h.importCandidates, h.relativeImportCandidates]
    simp only [PreparedResolutionState.snapshot, load, CandidateIndex.build]
    split
    · rename_i hempty
      split <;> simp_all
    · rfl
  callSemanticIndex := by
    simp only [fromSnapshot, h.callSemanticNodes]
    cases enableSemantic <;> rfl
  importSemanticIndex := by
    simp only [fromSnapshot, h.importSemanticNodes]
    cases enableSemantic <;> rfl
  overrideSupport := by
    have hconsistent := tables.consistent_loadOverrideSupport
    constructor
    · refine h.overrideMembers.trans (.of_eq ?_)
      exact hconsistent.overrideMemberRows_eq
    · exact h.overrideInheritance
    · exact h.overrideInheritanceByName
    · exact h.nodeNames.trans hconsistent.nodeNameRows_perm

end PreparedResolutionState

end CodeStory.Graph
