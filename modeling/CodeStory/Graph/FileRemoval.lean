import CodeStory.Graph.Storage

/-!
# Removing the projection of a file

Besides the graph tables the store has tables of occurrences, bookmarks, access levels,
callable states, structural text units, documents and summaries, and most of their rows refer
to nodes. Removing a file deletes its node, the nodes that name it and, table by table, the rows
that refer to any of these. A column that is declared as a reference makes the last statements
fail while it still points to a removed row; the ids of an occurrence and the candidates of an
edge are not declared.

Columns that are neither a reference nor part of a key are left out, save one or two that a
reader would look for. Of a publication row only its presence is kept.
-/

set_option autoImplicit false

namespace CodeStory.Graph

universe u

structure Occurrence where
  elementId : Int
  fileNodeId : Int
  startLine : Nat
  startCol : Nat
  endLine : Nat
  endCol : Nat
deriving DecidableEq

structure ComponentAccess where
  nodeId : Option Int
  access : Option Nat
deriving DecidableEq

structure BookmarkNode where
  id : Int
  categoryId : Option Int
  nodeId : Option Int
  comment : Option String
deriving DecidableEq

structure CallableProjectionState where
  fileId : Int
  symbolKey : String
  nodeId : Int
deriving DecidableEq

structure StructuralTextUnit where
  nodeId : Int
  fileId : Int
  placementId : String
deriving DecidableEq

structure StructuralTextProjection where
  fileId : Int
  unitCount : Nat
deriving DecidableEq

structure StructuralTextArtifact where
  filePath : String
  fileId : Int
deriving DecidableEq

structure LocalSymbol where
  id : Int
  name : String
  fileId : Option Int
deriving DecidableEq

/-- A row of `llm_symbol_doc`, `dense_anchor_input` or `symbol_search_doc`. -/
structure NodeDocument where
  nodeId : Int
  fileNodeId : Option Int
  displayName : String
deriving DecidableEq

structure SymbolSummary where
  nodeId : Int
  contentHash : String
deriving DecidableEq

structure SearchSymbolProjection where
  nodeId : Int
  displayName : String
deriving DecidableEq

structure ProjectionStore (β : Type u) extends Storage β where
  occurrence : List Occurrence
  bookmarkNode : List BookmarkNode
  componentAccess : List ComponentAccess
  callableProjectionState : List CallableProjectionState
  structuralTextUnit : List StructuralTextUnit
  structuralTextProjection : List StructuralTextProjection
  structuralTextArtifactCache : List StructuralTextArtifact
  structuralTextUnitPublished : Bool
  localSymbol : List LocalSymbol
  llmSymbolDoc : List NodeDocument
  denseAnchorInput : List NodeDocument
  denseAnchorPublished : Bool
  symbolSearchDoc : List NodeDocument
  searchSymbolProjection : List SearchSymbolProjection
  symbolSummary : List SymbolSummary

structure FileProjectionRemovalSummary where
  canonicalFileNodeId : Int
  removedNodeCount : Nat
  removedEdgeCount : Nat
  removedOccurrenceCount : Nat
  removedErrorCount : Nat
  removedBookmarkNodeCount : Nat
  removedComponentAccessCount : Nat
  removedLocalSymbolCount : Nat
  removedFileRowCount : Nat
  removedCallableProjectionStateCount : Nat
deriving DecidableEq

/-! ## References -/

/-- The columns of an edge that are declared as references. -/
def Edge.references (edge : Edge) : List Int :=
  [edge.source, edge.target] ++ edge.fileNodeId.toList ++ edge.resolvedSource.toList ++
    edge.resolvedTarget.toList

def Edge.candidates (edge : Edge) : List Int := edge.candidateTargets.getD []

def NodeDocument.references (doc : NodeDocument) : List Int :=
  doc.nodeId :: doc.fileNodeId.toList

namespace ProjectionStore
variable {β : Type u} (s : ProjectionStore β)

/-- What the columns that are declared as references to a node point to. -/
def declaredReferences : List Int :=
  s.node.rows.filterMap (·.fileNodeId) ++ s.edge.rows.flatMap Edge.references ++
    s.bookmarkNode.filterMap (·.nodeId) ++ s.componentAccess.filterMap (·.nodeId) ++
    s.callableProjectionState.map (·.nodeId) ++ s.structuralTextUnit.map (·.nodeId) ++
    s.llmSymbolDoc.flatMap NodeDocument.references ++
    s.denseAnchorInput.flatMap NodeDocument.references ++
    s.symbolSearchDoc.flatMap NodeDocument.references ++
    s.searchSymbolProjection.map (·.nodeId) ++ s.symbolSummary.map (·.nodeId)

/-- What the other columns with node ids point to. -/
def undeclaredReferences : List Int :=
  s.occurrence.flatMap (fun occurrence => [occurrence.elementId, occurrence.fileNodeId]) ++
    s.edge.rows.flatMap Edge.candidates

def references : List Int := s.declaredReferences ++ s.undeclaredReferences

/-- What the columns that are declared as references to a file point to. -/
def fileReferences : List Int :=
  s.callableProjectionState.map (·.fileId) ++ s.structuralTextUnit.map (·.fileId) ++
    s.structuralTextProjection.map (·.fileId) ++ s.localSymbol.filterMap (·.fileId) ++
    s.error.filterMap (·.fileId)

/-! ## The removal -/

section Removal
variable (fileNodeId : Int)

def removesEdge (related : List Int) (edge : Edge) : Bool :=
  edge.source ∈ related || edge.target ∈ related || edge.fileNodeId = some fileNodeId

def removesOccurrence (related : List Int) (occurrence : Occurrence) : Bool :=
  occurrence.fileNodeId = fileNodeId || occurrence.elementId ∈ related

def removesCallable (related : List Int) (state : CallableProjectionState) : Bool :=
  state.fileId = fileNodeId || state.nodeId ∈ related

def removesUnit (related : List Int) (textUnit : StructuralTextUnit) : Bool :=
  textUnit.fileId = fileNodeId || textUnit.nodeId ∈ related

def removesDocument (related : List Int) (doc : NodeDocument) : Bool :=
  doc.nodeId ∈ related || doc.fileNodeId = some fileNodeId

/-- What the statements leave. -/
def withoutFile : ProjectionStore β :=
  let related := s.relatedNodeIds fileNodeId
  { toStorage := s.toStorage.deleteFileProjection fileNodeId
    occurrence := s.occurrence.filter (!removesOccurrence fileNodeId related ·)
    bookmarkNode := s.bookmarkNode.filter fun row => !row.nodeId.any (· ∈ related)
    componentAccess := s.componentAccess.filter fun row => !row.nodeId.any (· ∈ related)
    callableProjectionState :=
      s.callableProjectionState.filter (!removesCallable fileNodeId related ·)
    structuralTextUnit := s.structuralTextUnit.filter (!removesUnit fileNodeId related ·)
    structuralTextProjection := s.structuralTextProjection.filter (·.fileId ≠ fileNodeId)
    structuralTextArtifactCache := s.structuralTextArtifactCache.filter (·.fileId ≠ fileNodeId)
    structuralTextUnitPublished := false
    localSymbol := s.localSymbol.filter (·.fileId ≠ some fileNodeId)
    llmSymbolDoc := s.llmSymbolDoc.filter (!removesDocument fileNodeId related ·)
    denseAnchorInput := s.denseAnchorInput.filter (!removesDocument fileNodeId related ·)
    denseAnchorPublished := false
    symbolSearchDoc := s.symbolSearchDoc.filter (!removesDocument fileNodeId related ·)
    searchSymbolProjection := s.searchSymbolProjection.filter (·.nodeId ∉ related)
    symbolSummary := s.symbolSummary.filter (·.nodeId ∉ related) }

/-- The numbers of deleted rows that are reported. -/
def removalSummary : FileProjectionRemovalSummary :=
  let related := s.relatedNodeIds fileNodeId
  { canonicalFileNodeId := fileNodeId
    removedNodeCount := s.node.rows.countP (·.id ∈ related)
    removedEdgeCount := s.edge.rows.countP (removesEdge fileNodeId related)
    removedOccurrenceCount := s.occurrence.countP (removesOccurrence fileNodeId related)
    removedErrorCount := s.error.countP (·.fileId = some fileNodeId)
    removedBookmarkNodeCount := s.bookmarkNode.countP fun row => row.nodeId.any (· ∈ related)
    removedComponentAccessCount :=
      s.componentAccess.countP fun row => row.nodeId.any (· ∈ related)
    removedLocalSymbolCount := s.localSymbol.countP (·.fileId = some fileNodeId)
    removedFileRowCount := s.file.rows.countP (·.id = fileNodeId)
    removedCallableProjectionStateCount :=
      s.callableProjectionState.countP (removesCallable fileNodeId related) }

/-- References are checked at the end of each statement: the rows that refer to a node are final
when the nodes go, and the same holds of the file row. A violation rolls everything back. -/
def deleteFileProjection : Option (ProjectionStore β × FileProjectionRemovalSummary) :=
  let deleted := s.withoutFile fileNodeId
  if deleted.declaredReferences.any (· ∈ s.relatedNodeIds fileNodeId) ||
      deleted.fileReferences.any (· = fileNodeId) then none
  else some (deleted, s.removalSummary fileNodeId)

end Removal

end ProjectionStore

/-! ## Edges -/

/-- The edge without the ends that were resolved to one of the nodes. A resolved target takes
its confidence, its certainty and the candidates with it. -/
def Edge.forgetNodes (removed : List Int) (edge : Edge) : Edge :=
  let edge :=
    if edge.resolvedSource.any (· ∈ removed) then { edge with resolvedSource := none } else edge
  if edge.resolvedTarget.any (· ∈ removed) then
    { edge with resolvedTarget := none, confidence := none, certainty := none,
                candidateTargets := none }
  else edge

section Edges
variable {removed : List Int} {edge : Edge}

theorem Edge.forgetNodes_id : (edge.forgetNodes removed).id = edge.id := by
  unfold forgetNodes
  dsimp only
  split <;> split <;> rfl

theorem filter_not_mem_eq (resolved : Option Int) :
    resolved.filter (· ∉ removed) = if resolved.any (· ∈ removed) then none else resolved := by
  cases resolved with
  | none => rfl
  | some id => by_cases hid : id ∈ removed <;> simp [Option.filter, hid]

theorem Edge.ends_forgetNodes :
    (edge.forgetNodes removed).source = edge.source ∧
      (edge.forgetNodes removed).target = edge.target ∧
      (edge.forgetNodes removed).fileNodeId = edge.fileNodeId ∧
      (edge.forgetNodes removed).resolvedSource = edge.resolvedSource.filter (· ∉ removed) ∧
      (edge.forgetNodes removed).resolvedTarget = edge.resolvedTarget.filter (· ∉ removed) := by
  rw [filter_not_mem_eq, filter_not_mem_eq]
  unfold forgetNodes
  by_cases hsource : edge.resolvedSource.any (· ∈ removed) = true <;>
    by_cases htarget : edge.resolvedTarget.any (· ∈ removed) = true <;> simp [hsource, htarget]

/-- No end of an edge that stays is a removed node, unless its file is one. -/
theorem Edge.references_forgetNodes (hsource : edge.source ∉ removed)
    (htarget : edge.target ∉ removed) {id : Int} (hid : id ∈ removed) :
    id ∈ (edge.forgetNodes removed).references ↔ edge.fileNodeId = some id := by
  obtain ⟨hsource', htarget', hfile, hresolvedSource, hresolvedTarget⟩ :=
    @ends_forgetNodes removed edge
  have hfilter : ∀ resolved : Option Int, id ∉ (resolved.filter (· ∉ removed)).toList := by
    intro resolved hmem
    rw [Option.mem_toList, Option.filter_eq_some_iff] at hmem
    exact of_decide_eq_true hmem.2 hid
  have hne : ¬ (id = edge.source ∨ id = edge.target) := by
    rintro (rfl | rfl)
    · exact hsource hid
    · exact htarget hid
  unfold references
  rw [hsource', htarget', hfile, hresolvedSource, hresolvedTarget]
  simp only [List.mem_append, hfilter, or_false, List.mem_cons, List.not_mem_nil, hne, false_or,
    Option.mem_toList]

theorem Edge.candidates_forgetNodes :
    (edge.forgetNodes removed).candidates =
      if edge.resolvedTarget.any (· ∈ removed) then [] else edge.candidates := by
  unfold forgetNodes candidates
  dsimp only
  split <;> split <;> rfl

end Edges

namespace ProjectionStore
variable {β : Type u} {s : ProjectionStore β} {fileNodeId : Int}

theorem removesEdge_eq_false_iff {related : List Int} {edge : Edge} :
    removesEdge fileNodeId related edge = false ↔
      edge.source ∉ related ∧ edge.target ∉ related ∧ edge.fileNodeId ≠ some fileNodeId := by
  unfold removesEdge
  simp only [Bool.or_eq_false_iff, decide_eq_false_iff_not, and_assoc, ne_eq]

/-- On the edges that stay, the two updates forget the removed nodes. -/
theorem forgetRelated_eq {related : List Int} {edge : Edge}
    (h : removesEdge fileNodeId related edge = false) :
    Storage.forgetRelated related fileNodeId edge = edge.forgetNodes related := by
  have houtside := removesEdge_eq_false_iff.mp h
  have helim : ∀ resolved : Option Int,
      (resolved.elim false fun id => decide (id ∈ related)) = resolved.any (· ∈ related) := by
    intro resolved
    cases resolved <;> rfl
  unfold Storage.forgetRelated Edge.forgetNodes
  simp only [helim, and_iff_left houtside]

theorem removesEdge_forgetRelated (related : List Int) (edge : Edge) :
    removesEdge fileNodeId related (Storage.forgetRelated related fileNodeId edge) =
      removesEdge fileNodeId related edge := by
  unfold Storage.forgetRelated removesEdge
  dsimp only
  split <;> split <;> rfl

theorem mem_edge_withoutFile {edge : Edge} :
    edge ∈ (s.withoutFile fileNodeId).edge.rows ↔
      ∃ before ∈ s.edge.rows,
        removesEdge fileNodeId (s.relatedNodeIds fileNodeId) before = false ∧
          before.forgetNodes (s.relatedNodeIds fileNodeId) = edge := by
  change edge ∈ (s.edge.rows.map
    (Storage.forgetRelated (s.relatedNodeIds fileNodeId) fileNodeId)).filter
      (!removesEdge fileNodeId (s.relatedNodeIds fileNodeId) ·) ↔ _
  rw [List.mem_filter, List.mem_map, Bool.not_eq_true']
  constructor
  · rintro ⟨⟨before, hbefore, rfl⟩, hstays⟩
    rw [removesEdge_forgetRelated] at hstays
    exact ⟨before, hbefore, hstays, (forgetRelated_eq hstays).symm⟩
  · rintro ⟨before, hbefore, hstays, rfl⟩
    rw [← forgetRelated_eq hstays, removesEdge_forgetRelated]
    exact ⟨⟨before, hbefore, rfl⟩, hstays⟩

/-- An edge outside the file stays, without what pointed into the file. -/
theorem lookup_edge_withoutFile {edge : Edge} (hedge : edge ∈ s.edge.rows)
    (hstays : removesEdge fileNodeId (s.relatedNodeIds fileNodeId) edge = false) :
    (s.withoutFile fileNodeId).edge.lookup edge.id =
      some (edge.forgetNodes (s.relatedNodeIds fileNodeId)) := by
  apply KeyedTable.lookup_eq_some_iff.mpr
  exact ⟨mem_edge_withoutFile.mpr ⟨edge, hedge, hstays, rfl⟩, Edge.forgetNodes_id⟩

/-! ## When the removal succeeds -/

section Columns
variable {α : Type u} {related : List Int} {id : Int}

/-- A column by which rows are deleted points to no removed node. -/
theorem not_mem_column {p : α → Bool} {column : α → Int} {rows : List α} (hid : id ∈ related)
    (h : ∀ row, p row = true → column row ∉ related) : id ∉ (rows.filter p).map column := by
  intro hmem
  obtain ⟨row, hrow, rfl⟩ := List.mem_map.mp hmem
  exact h row (List.mem_filter.mp hrow).2 hid

theorem not_mem_nullable {column : α → Option Int} {rows : List α} (hid : id ∈ related) :
    id ∉ (rows.filter fun row => !(column row).any (· ∈ related)).filterMap column := by
  intro hmem
  obtain ⟨row, hrow, hcolumn⟩ := List.mem_filterMap.mp hmem
  have hkept := (List.mem_filter.mp hrow).2
  simp [hcolumn, hid] at hkept

/-- Of a document that stays, only the file can be a removed node. -/
theorem mem_document_references {docs : List NodeDocument} (hid : id ∈ related) :
    id ∈ (docs.filter (!removesDocument fileNodeId related ·)).flatMap
        NodeDocument.references ↔
      id ∈ (docs.filter (!removesDocument fileNodeId related ·)).filterMap (·.fileNodeId) := by
  rw [List.mem_flatMap, List.mem_filterMap]
  apply exists_congr
  intro doc
  apply and_congr_right
  intro hdoc
  have hkept := (List.mem_filter.mp hdoc).2
  have hnode : id ≠ doc.nodeId := by
    rintro rfl
    simp [removesDocument, hid] at hkept
  unfold NodeDocument.references
  rw [List.mem_cons, or_iff_right hnode, Option.mem_toList]

end Columns

variable (s fileNodeId) in
/-- The files that the nodes, edges and documents name that stay. -/
def keptFileColumns : List Int :=
  let related := s.relatedNodeIds fileNodeId
  (s.node.rows.filter (·.id ∉ related)).filterMap (·.fileNodeId) ++
    (s.edge.rows.filter (!removesEdge fileNodeId related ·)).filterMap (·.fileNodeId) ++
    (s.llmSymbolDoc.filter (!removesDocument fileNodeId related ·)).filterMap (·.fileNodeId) ++
    (s.denseAnchorInput.filter (!removesDocument fileNodeId related ·)).filterMap
      (·.fileNodeId) ++
    (s.symbolSearchDoc.filter (!removesDocument fileNodeId related ·)).filterMap (·.fileNodeId)

theorem mem_edge_references {id : Int} (hid : id ∈ s.relatedNodeIds fileNodeId) :
    id ∈ (s.withoutFile fileNodeId).edge.rows.flatMap Edge.references ↔
      id ∈ (s.edge.rows.filter
        (!removesEdge fileNodeId (s.relatedNodeIds fileNodeId) ·)).filterMap (·.fileNodeId) := by
  rw [List.mem_flatMap, List.mem_filterMap]
  constructor
  · rintro ⟨edge, hedge, hmem⟩
    obtain ⟨before, hbefore, hstays, rfl⟩ := mem_edge_withoutFile.mp hedge
    obtain ⟨hsource, htarget, -⟩ := removesEdge_eq_false_iff.mp hstays
    exact ⟨before, List.mem_filter.mpr ⟨hbefore, by simp [hstays]⟩,
      (Edge.references_forgetNodes hsource htarget hid).mp hmem⟩
  · rintro ⟨before, hbefore, hfile⟩
    obtain ⟨hbefore, hkept⟩ := List.mem_filter.mp hbefore
    have hstays : removesEdge fileNodeId (s.relatedNodeIds fileNodeId) before = false := by
      simpa using hkept
    obtain ⟨hsource, htarget, -⟩ := removesEdge_eq_false_iff.mp hstays
    exact ⟨_, mem_edge_withoutFile.mpr ⟨before, hbefore, hstays, rfl⟩,
      (Edge.references_forgetNodes hsource htarget hid).mpr hfile⟩

theorem mem_declaredReferences_withoutFile {id : Int}
    (hid : id ∈ s.relatedNodeIds fileNodeId) :
    id ∈ (s.withoutFile fileNodeId).declaredReferences ↔ id ∈ s.keptFileColumns fileNodeId := by
  have hbookmark : id ∉ (s.withoutFile fileNodeId).bookmarkNode.filterMap (·.nodeId) :=
    not_mem_nullable hid
  have haccess : id ∉ (s.withoutFile fileNodeId).componentAccess.filterMap (·.nodeId) :=
    not_mem_nullable hid
  have hcallable : id ∉ (s.withoutFile fileNodeId).callableProjectionState.map (·.nodeId) := by
    apply not_mem_column hid
    intro row hrow
    simp only [removesCallable, Bool.not_eq_true', Bool.or_eq_false_iff] at hrow
    exact of_decide_eq_false hrow.2
  have hunit : id ∉ (s.withoutFile fileNodeId).structuralTextUnit.map (·.nodeId) := by
    apply not_mem_column hid
    intro row hrow
    simp only [removesUnit, Bool.not_eq_true', Bool.or_eq_false_iff] at hrow
    exact of_decide_eq_false hrow.2
  have hsearch : id ∉ (s.withoutFile fileNodeId).searchSymbolProjection.map (·.nodeId) :=
    not_mem_column hid fun row hrow => of_decide_eq_true hrow
  have hsummary : id ∉ (s.withoutFile fileNodeId).symbolSummary.map (·.nodeId) :=
    not_mem_column hid fun row hrow => of_decide_eq_true hrow
  have hnode : (s.withoutFile fileNodeId).node.rows =
      s.node.rows.filter (·.id ∉ s.relatedNodeIds fileNodeId) := by
    change s.node.rows.filter (fun node => !decide (node.id ∈ s.relatedNodeIds fileNodeId)) = _
    simp only [decide_not]
  unfold declaredReferences keptFileColumns
  simp only [List.mem_append, hbookmark, haccess, hcallable, hunit, hsearch, hsummary, or_false,
    mem_edge_references hid, hnode]
  change (((_ ∨ _) ∨ id ∈ (s.llmSymbolDoc.filter _).flatMap NodeDocument.references) ∨
      id ∈ (s.denseAnchorInput.filter _).flatMap NodeDocument.references) ∨
      id ∈ (s.symbolSearchDoc.filter _).flatMap NodeDocument.references ↔ _
  rw [mem_document_references hid, mem_document_references hid, mem_document_references hid]

/-- Nothing that stays refers to the file row. -/
theorem not_mem_fileReferences_withoutFile :
    fileNodeId ∉ (s.withoutFile fileNodeId).fileReferences := by
  have hid : fileNodeId ∈ [fileNodeId] := List.mem_singleton_self fileNodeId
  have hcallable : fileNodeId ∉
      (s.withoutFile fileNodeId).callableProjectionState.map (·.fileId) := by
    apply not_mem_column hid
    intro row hrow
    simp only [removesCallable, Bool.not_eq_true', Bool.or_eq_false_iff] at hrow
    simpa using hrow.1
  have hunit : fileNodeId ∉ (s.withoutFile fileNodeId).structuralTextUnit.map (·.fileId) := by
    apply not_mem_column hid
    intro row hrow
    simp only [removesUnit, Bool.not_eq_true', Bool.or_eq_false_iff] at hrow
    simpa using hrow.1
  have hprojection : fileNodeId ∉
      (s.withoutFile fileNodeId).structuralTextProjection.map (·.fileId) := by
    apply not_mem_column hid
    intro row hrow
    simpa using hrow
  have hlocal : fileNodeId ∉ (s.withoutFile fileNodeId).localSymbol.filterMap (·.fileId) := by
    intro hmem
    obtain ⟨row, hrow, hfile⟩ := List.mem_filterMap.mp hmem
    exact of_decide_eq_true (List.mem_filter.mp hrow).2 hfile
  have herror : fileNodeId ∉ (s.withoutFile fileNodeId).error.filterMap (·.fileId) := by
    intro hmem
    obtain ⟨row, hrow, hfile⟩ := List.mem_filterMap.mp hmem
    have hkept := (List.mem_filter.mp hrow).2
    simp [hfile] at hkept
  unfold fileReferences
  simp only [List.mem_append, hcallable, hunit, hprojection, hlocal, herror, or_self,
    not_false_eq_true]

/-- Removing a file succeeds unless something outside takes one of its symbols for a file. -/
theorem deleteFileProjection_eq_some_iff
    {result : ProjectionStore β × FileProjectionRemovalSummary} :
    s.deleteFileProjection fileNodeId = some result ↔
      (s.withoutFile fileNodeId, s.removalSummary fileNodeId) = result ∧
        ∀ id ∈ s.keptFileColumns fileNodeId, id ∉ s.relatedNodeIds fileNodeId := by
  have hfile : (s.withoutFile fileNodeId).fileReferences.any (· = fileNodeId) = false := by
    simpa using fun id hmem (heq : id = fileNodeId) =>
      not_mem_fileReferences_withoutFile (heq ▸ hmem)
  have hnode : (s.withoutFile fileNodeId).declaredReferences.any
        (· ∈ s.relatedNodeIds fileNodeId) = false ↔
      ∀ id ∈ s.keptFileColumns fileNodeId, id ∉ s.relatedNodeIds fileNodeId := by
    simp only [List.any_eq_false, decide_eq_true_eq]
    constructor
    · intro h id hmem hid
      exact h id ((mem_declaredReferences_withoutFile hid).mpr hmem) hid
    · intro h id hmem hid
      exact h id ((mem_declaredReferences_withoutFile hid).mp hmem) hid
  unfold deleteFileProjection
  dsimp only
  rw [hfile, Bool.or_false, ← hnode]
  cases (s.withoutFile fileNodeId).declaredReferences.any
      (· ∈ s.relatedNodeIds fileNodeId) with
  | true => simp
  | false => simp

/-! ## What a removal leaves behind -/

variable (s fileNodeId) in
/-- No edge that stays lists a removed node as a candidate without being resolved to one, and
no occurrence that stays takes one for its file. -/
structure Detached : Prop where
  candidates : ∀ edge ∈ s.edge.rows,
    removesEdge fileNodeId (s.relatedNodeIds fileNodeId) edge = false →
      edge.resolvedTarget.any (· ∈ s.relatedNodeIds fileNodeId) = false →
        ∀ id ∈ edge.candidates, id ∉ s.relatedNodeIds fileNodeId
  occurrences : ∀ occurrence ∈ s.occurrence,
    removesOccurrence fileNodeId (s.relatedNodeIds fileNodeId) occurrence = false →
      occurrence.fileNodeId ∉ s.relatedNodeIds fileNodeId

/-- The columns that are not declared are clean exactly when nothing was left in them. -/
theorem undeclaredReferences_withoutFile :
    (∀ id ∈ (s.withoutFile fileNodeId).undeclaredReferences,
      id ∉ s.relatedNodeIds fileNodeId) ↔ s.Detached fileNodeId := by
  unfold undeclaredReferences
  constructor
  · intro h
    constructor
    · intro edge hedge hstays htarget id hid
      apply h id
      apply List.mem_append_right
      apply List.mem_flatMap.mpr
      refine ⟨_, mem_edge_withoutFile.mpr ⟨edge, hedge, hstays, rfl⟩, ?_⟩
      rw [Edge.candidates_forgetNodes, htarget, if_neg Bool.false_ne_true]
      exact hid
    · intro occurrence hoccurrence hstays
      apply h
      apply List.mem_append_left
      apply List.mem_flatMap.mpr
      refine ⟨occurrence, List.mem_filter.mpr ⟨hoccurrence, by simp [hstays]⟩, ?_⟩
      exact List.mem_cons_of_mem _ List.mem_cons_self
  · intro h id hmem
    rcases List.mem_append.mp hmem with hmem | hmem
    · obtain ⟨occurrence, hoccurrence, hid⟩ := List.mem_flatMap.mp hmem
      obtain ⟨hoccurrence, hkept⟩ := List.mem_filter.mp hoccurrence
      have hstays : removesOccurrence fileNodeId (s.relatedNodeIds fileNodeId) occurrence =
          false := by
        simpa using hkept
      rcases List.mem_pair.mp hid with rfl | rfl
      · simp only [removesOccurrence, Bool.or_eq_false_iff] at hstays
        exact of_decide_eq_false hstays.2
      · exact h.occurrences occurrence hoccurrence hstays
    · obtain ⟨edge, hedge, hid⟩ := List.mem_flatMap.mp hmem
      obtain ⟨before, hbefore, hstays, rfl⟩ := mem_edge_withoutFile.mp hedge
      rw [Edge.candidates_forgetNodes] at hid
      split at hid
      · cases hid
      · rename_i htarget
        exact h.candidates before hbefore hstays (by simpa using htarget) id hid

/-- After a removal that succeeds, nothing refers to a removed node and the edges outside are
as they were but for what pointed there, exactly when the file was detached. -/
theorem deleteFileProjection_clean_iff {after : ProjectionStore β}
    {summary : FileProjectionRemovalSummary}
    (h : s.deleteFileProjection fileNodeId = some (after, summary)) :
    ((∀ id ∈ after.references, id ∉ s.relatedNodeIds fileNodeId) ∧
        ∀ edge ∈ s.edge.rows, edge.fileNodeId ≠ some fileNodeId →
          edge.source ∉ s.relatedNodeIds fileNodeId →
            edge.target ∉ s.relatedNodeIds fileNodeId →
              after.edge.lookup edge.id =
                some (edge.forgetNodes (s.relatedNodeIds fileNodeId))) ↔
      s.Detached fileNodeId := by
  obtain ⟨hresult, hfiles⟩ := deleteFileProjection_eq_some_iff.mp h
  obtain ⟨rfl, rfl⟩ := Prod.mk.inj hresult
  rw [← undeclaredReferences_withoutFile]
  constructor
  · rintro ⟨hclean, -⟩ id hmem
    exact hclean id (List.mem_append_right _ hmem)
  · intro hundeclared
    constructor
    · intro id hmem hid
      rcases List.mem_append.mp hmem with hdeclared | hmem
      · exact hfiles id ((mem_declaredReferences_withoutFile hid).mp hdeclared) hid
      · exact hundeclared id hmem hid
    · intro edge hedge hfile hsource htarget
      exact lookup_edge_withoutFile hedge (removesEdge_eq_false_iff.mpr ⟨hsource, htarget, hfile⟩)

/-- Files 1 and 2 with a symbol each, 11 and 21, and file 3 with 31. A call from 11 is resolved
to `resolved`. -/
def resolvedCallStore (resolved : Int) (candidates : List Int) : ProjectionStore Unit where
  toStorage := { Storage.created with
    node := ⟨[plainNode 1 .fileNode "src/a.rs", plainNode 2 .fileNode "src/b.rs",
        plainNode 3 .fileNode "src/c.rs",
        { plainNode 11 .functionNode "caller" with fileNodeId := some 1 },
        { plainNode 12 .functionNode "callee" with fileNodeId := some 1 },
        { plainNode 21 .functionNode "callee" with fileNodeId := some 2 },
        { plainNode 31 .functionNode "callee" with fileNodeId := some 3 }],
      by simp [plainNode]⟩
    edge := ⟨[⟨300, 11, 12, .callEdge, some 1, none, none, some resolved, none, none,
      some .probable, some candidates⟩], by simp⟩
    file := ⟨[⟨1, "src/a.rs", "rust", true⟩, ⟨2, "src/b.rs", "rust", true⟩,
      ⟨3, "src/c.rs", "rust", true⟩], by simp⟩ }
  occurrence := [⟨11, 1, 1, 1, 1, 9⟩, ⟨21, 2, 1, 1, 1, 9⟩]
  bookmarkNode := [⟨1, some 1, some 21, none⟩]
  componentAccess := []
  callableProjectionState := [⟨1, "src/a.rs::caller:FUNCTION", 11⟩]
  structuralTextUnit := []
  structuralTextProjection := []
  structuralTextArtifactCache := []
  structuralTextUnitPublished := false
  localSymbol := []
  llmSymbolDoc := []
  denseAnchorInput := []
  denseAnchorPublished := false
  symbolSearchDoc := [⟨21, some 2, "callee"⟩]
  searchSymbolProjection := [⟨21, "callee"⟩]
  symbolSummary := []

theorem deleteFileProjection_clean_of_resolved :
    ∃ after summary,
      (resolvedCallStore 21 [21]).deleteFileProjection 2 = some (after, summary) ∧
        ((∀ id ∈ after.references, id ∉ (resolvedCallStore 21 [21]).relatedNodeIds 2) ∧
          ∀ edge ∈ (resolvedCallStore 21 [21]).edge.rows, edge.fileNodeId ≠ some 2 →
            edge.source ∉ (resolvedCallStore 21 [21]).relatedNodeIds 2 →
              edge.target ∉ (resolvedCallStore 21 [21]).relatedNodeIds 2 →
                after.edge.lookup edge.id =
                  some (edge.forgetNodes ((resolvedCallStore 21 [21]).relatedNodeIds 2))) := by
  have hresult : (resolvedCallStore 21 [21]).deleteFileProjection 2 =
      some ((resolvedCallStore 21 [21]).withoutFile 2,
        (resolvedCallStore 21 [21]).removalSummary 2) :=
    deleteFileProjection_eq_some_iff.mpr ⟨rfl, by decide⟩
  refine ⟨_, _, hresult, (deleteFileProjection_clean_iff hresult).mpr ?_⟩
  exact ⟨by decide, by decide⟩

/-- The call was resolved elsewhere; of its two candidates one is gone. -/
theorem deleteFileProjection_of_candidate :
    (∀ id ∈ (resolvedCallStore 31 [31, 21]).references,
        id ∈ (resolvedCallStore 31 [31, 21]).node.keys) ∧
      (((resolvedCallStore 31 [31, 21]).deleteFileProjection 2).map fun result =>
        (result.1.node.keys, result.1.edge.rows.map Edge.candidates)) =
          some ([1, 3, 11, 12, 31], [[31, 21]]) := by
  decide

end ProjectionStore

end CodeStory.Graph
