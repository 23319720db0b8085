import CodeStory.Graph.ResolutionSupport
import CodeStory.Graph.ResolutionIdempotence
import CodeStory.Graph.GroundingStats

/-!
# The support snapshot over runs of the store

A resolution run takes its state from the support snapshot when there is one of the current
version and of its semantic flag, and otherwise loads the tables and leaves a new snapshot.
What guards the snapshot is a state row that mutators reset. Three of them write nodes and do
not: the upsert and the copy of retrieval artifacts, and the move of a cache to another root.

The functions that select the target of a call and of an import are parameters; they see one
candidate index and one semantic index. A blob that cannot be read, because it exceeds a
limit or does not decode, is given by the run, as is whether a new one fits.
-/

set_option autoImplicit false

namespace CodeStory.Graph

/-! ## Runs -/

structure Resolver where
  languageFamily : String → Option String
  computeCallResolution :
    ResolutionFlags → CandidateIndex → List SemanticCandidateNode → UnresolvedEdgeRow → Selection
  computeImportResolution :
    ResolutionFlags → CandidateIndex → List SemanticCandidateNode → UnresolvedEdgeRow → Selection

def Resolver.pass (resolver : Resolver) (flags : ResolutionFlags) :
    ResolutionPass PreparedResolutionState where
  flags := flags
  computeCallResolution := fun prepared =>
    resolver.computeCallResolution flags prepared.callCandidateIndex prepared.callSemanticIndex
  computeImportResolution := fun prepared =>
    resolver.computeImportResolution flags prepared.importCandidateIndex
      prepared.importSemanticIndex
  computeOverrideResolution := fun prepared => prepared.overrideSupport.resolveOverride flags

structure ResolutionRun where
  flags : ResolutionFlags
  callerScopeFileIds : Option (List Int)
  /-- A stored blob is within the limit and decodes. -/
  readable : Bool
  /-- The blob that a load leaves, unless it exceeds the limit. -/
  stored : Option ResolutionSupportSnapshot

/-- Operations of the store, and resolution runs over it. -/
inductive ResolutionOp where
  | store (op : StoreOp)
  | resolve (run : ResolutionRun)

namespace Storage
variable (resolver : Resolver) (s : Storage ResolutionSupportSnapshot)

def currentSupport : Option ResolutionSupportSnapshot :=
  s.getResolutionSupportSnapshot resolutionSupportSnapshotVersion

def loadFresh (enableSemantic : Bool) : PreparedResolutionState :=
  .load resolver.languageFamily enableSemantic s.toTables

/-- What a load leaves depends on the order of hash maps, so any order of its rows is a
possible step. -/
def loadPrepared (run : ResolutionRun) :
    Option (PreparedResolutionState × Storage ResolutionSupportSnapshot) :=
  let hit := s.currentSupport.filter fun blob =>
    run.readable && blob.enableSemantic = run.flags.enableSemantic
  match hit with
  | some blob => some (.fromSnapshot blob run.flags.enableSemantic, s)
  | none =>
    let prepared := s.loadFresh resolver run.flags.enableSemantic
    match run.stored with
    | none => some (prepared, s.invalidateResolutionSupportSnapshot)
    | some blob =>
      if blob.SameUpToOrder (prepared.snapshot run.flags.enableSemantic) then
        some (prepared, s.putResolutionSupportSnapshot resolutionSupportSnapshotVersion blob)
      else none

def resolve (run : ResolutionRun) : Option (Storage ResolutionSupportSnapshot) :=
  let scope := ScopeCallerContext.prepare s.toTables run.callerScopeFileIds
  (s.loadPrepared resolver run).map fun (prepared, loaded) =>
    { loaded with toTables := (resolver.pass run.flags).run prepared scope loaded.toTables }

def actWithRuns : ResolutionOp → Option (Storage ResolutionSupportSnapshot)
  | .store op => some (s.step op)
  | .resolve run => s.resolve resolver run

end Storage

/-! ## Targets -/

def Tables.resolvedTargets (tables : Tables) : List (Int × Option Int) :=
  tables.edge.rows.map fun edge => (edge.id, edge.resolvedTarget)

theorem resolveRow_resolvedTarget {ρ : Type} {row : Option ρ} {edgeId : ρ → Int}
    {compute compute' : ρ → Selection} (h : ∀ row, (compute row).selected = (compute' row).selected)
    (edge : Edge) :
    (resolveRow row edgeId compute edge).resolvedTarget =
      (resolveRow row edgeId compute' edge).resolvedTarget := by
  cases row with
  | none => rfl
  | some row =>
    unfold resolveRow buildResolvedEdgeUpdate
    dsimp only
    rw [h row]
    cases (compute' row).selected <;> rfl

/-- States that are equal but for the order of the rows for overrides resolve every edge to
the same target. -/
theorem PreparedResolutionState.Same.resolvedTargets {prepared other : PreparedResolutionState}
    (h : prepared.Same other) (hconsistent : prepared.overrideSupport.Consistent)
    (resolver : Resolver) (flags : ResolutionFlags) (scope : ScopeCallerContext)
    (tables : Tables) :
    ((resolver.pass flags).run prepared scope tables).resolvedTargets =
      ((resolver.pass flags).run other scope tables).resolvedTargets := by
  have hcall : (resolver.pass flags).callEdge prepared scope tables =
      (resolver.pass flags).callEdge other scope tables := by
    have hcompute : (resolver.pass flags).computeCallResolution prepared =
        (resolver.pass flags).computeCallResolution other := by
      simp only [Resolver.pass, h.callCandidateIndex, h.callSemanticIndex]
    funext edge
    unfold ResolutionPass.callEdge
    rw [hcompute]
  have himport : (resolver.pass flags).importEdge prepared scope tables =
      (resolver.pass flags).importEdge other scope tables := by
    have hcompute : (resolver.pass flags).computeImportResolution prepared =
        (resolver.pass flags).computeImportResolution other := by
      simp only [Resolver.pass, h.importCandidateIndex, h.importSemanticIndex]
    funext edge
    unfold ResolutionPass.importEdge
    rw [hcompute]
  unfold Tables.resolvedTargets
  rw [ResolutionPass.run_rows, ResolutionPass.run_rows, List.map_map, List.map_map]
  apply List.map_congr_left
  intro edge _
  have hid : ∀ state, ((resolver.pass flags).runEdge state scope tables edge).id = edge.id := by
    intro state
    exact id_of_erase ((resolver.pass flags).runEdge_erase state scope tables edge)
  have htarget : ((resolver.pass flags).runEdge prepared scope tables edge).resolvedTarget =
      ((resolver.pass flags).runEdge other scope tables edge).resolvedTarget := by
    unfold ResolutionPass.runEdge
    rw [hcall, himport]
    unfold ResolutionPass.overrideEdge
    apply resolveRow_resolvedTarget
    intro row
    exact OverrideSupport.resolveOverride_reordered h.overrideSupport hconsistent flags row
  rw [Function.comp_apply, Function.comp_apply, hid, hid, htarget]

/-! ## Steps that leave the support alone -/

theorem SameSupport.of_eq {tables other : Tables} (hnode : tables.node = other.node)
    (hedge : tables.edge = other.edge) : SameSupport tables other where
  node := by
    intro id
    rw [hnode]
  edge := by rw [hedge]

theorem SameSupport.symm {tables other : Tables} (h : SameSupport tables other) :
    SameSupport other tables where
  node := fun id => (h.node id).symm
  edge := h.edge.symm

namespace Storage
variable {s t : Storage ResolutionSupportSnapshot}

/-- Every row overwrites one that has the same columns. -/
def keepsColumns (s : Storage ResolutionSupportSnapshot) (rows : List Node) : Bool :=
  rows.all fun row =>
    (KeyedTable.lastRow Node.id rows row.id).map supportColumns =
      (s.node.lookup row.id).map supportColumns

/-- The operations that keep a fresh snapshot fresh. -/
def keepsSupport (s : Storage ResolutionSupportSnapshot) : ResolutionOp → Bool
  | .store (.upsertRetrievalArtifactNodesBatch nodes) =>
    s.currentSupport.isNone || s.keepsColumns (s.preparedNodesForInsert nodes)
  | .store (.copyRetrievalArtifactNodesFrom source) =>
    s.currentSupport.isNone || s.keepsColumns (source.rows.filter isRetrievalArtifact)
  | .store (.rebaseRehydratedPathBoundCache sourceRoot targetRoot _) =>
    s.currentSupport.isNone || s.node.rows.all fun node =>
      supportColumns (rebaseNode sourceRoot targetRoot node) = supportColumns node
  | _ => true

theorem sameSupport_writeNodes {rows : List Node} (h : s.keepsColumns rows = true) :
    SameSupport (s.writeNodes rows).toTables s.toTables where
  node := by
    intro id
    have hnode : (s.writeNodes rows).node = s.node.upsertAll rows := rfl
    rw [hnode, KeyedTable.lookup_upsertAll]
    cases hlast : KeyedTable.lastRow Node.id rows id with
    | none => rw [Option.none_or]
    | some row =>
      obtain ⟨hrow, rfl⟩ := KeyedTable.mem_of_lastRow hlast
      have hcolumns := of_decide_eq_true (List.all_eq_true.mp h row hrow)
      rw [Option.some_or, ← hcolumns, hlast]
  edge := rfl

theorem sameSupport_rebase {sourceRoot targetRoot : String}
    (h : ∀ node ∈ s.node.rows,
      supportColumns (rebaseNode sourceRoot targetRoot node) = supportColumns node) :
    SameSupport (s.rebased sourceRoot targetRoot).toTables s.toTables where
  node := by
    intro id
    have hnode : (s.rebased sourceRoot targetRoot).node =
        s.node.update (rebaseNode sourceRoot targetRoot) (rebaseNode_id sourceRoot targetRoot) :=
      rfl
    rw [hnode, KeyedTable.lookup_update, Option.map_map]
    cases hlookup : s.node.lookup id with
    | none => rfl
    | some node =>
      have hin := (KeyedTable.lookup_eq_some_iff.mp hlookup).1
      simp only [Option.map_some, Function.comp_apply, h node hin]
  edge := by
    simp only [rebased, KeyedTable.update, List.map_map]
    rfl

/-- A run writes no node, and of an edge only columns that no query reads. -/
theorem sameSupport_run {P : Type} (pass : ResolutionPass P) (prepared : P)
    (scope : ScopeCallerContext) (tables : Tables) :
    SameSupport (pass.run prepared scope tables) tables where
  node := by
    intro id
    rw [pass.run_node]
  edge := by
    rw [pass.run_rows, List.map_map]
    apply List.map_congr_left
    intro edge _
    have herase := pass.runEdge_erase prepared scope tables edge
    simp only [Function.comp_apply, supportEdge, source_of_erase herase, target_of_erase herase,
      kind_of_erase herase]
    by_cases hinheritance : edge.kind = .inheritanceEdge
    · rw [pass.runEdge_of_other prepared scope tables] <;> rw [hinheritance] <;> decide
    · rw [if_neg hinheritance, if_neg hinheritance]

/-! ## Freshness -/

/-- The snapshot that is returned is the one a load would build now. -/
def SupportFresh (resolver : Resolver) (s : Storage ResolutionSupportSnapshot) : Prop :=
  ∀ blob, s.currentSupport = some blob →
    blob.SameUpToOrder
      ((s.loadFresh resolver blob.enableSemantic).snapshot blob.enableSemantic)

variable {resolver : Resolver}

theorem SupportFresh.of_none (h : s.currentSupport = none) : s.SupportFresh resolver := by
  intro blob hblob
  rw [h] at hblob
  cases hblob

theorem SupportFresh.of_dirty {version : Int}
    (h : s.resolutionSupport = some ⟨version, .dirty, none⟩) : s.SupportFresh resolver := by
  apply of_none
  unfold currentSupport getResolutionSupportSnapshot
  rw [h]
  simp

theorem SupportFresh.of_same (h : s.SupportFresh resolver)
    (hrow : t.resolutionSupport = s.resolutionSupport)
    (hsame : s.currentSupport ≠ none → SameSupport t.toTables s.toTables) :
    t.SupportFresh resolver := by
  intro blob hblob
  have hcurrent : s.currentSupport = some blob := by
    unfold currentSupport getResolutionSupportSnapshot at hblob ⊢
    rw [← hrow]
    exact hblob
  have hsame' := hsame (by simp [hcurrent])
  have hload := PreparedResolutionState.load_same hsame'.symm resolver.languageFamily
    blob.enableSemantic
  have hconsistent := s.toTables.consistent_loadOverrideSupport
  exact (h blob hcurrent).trans (hload.snapshot hconsistent blob.enableSemantic)

/-- Neither nodes nor edges change. -/
theorem SupportFresh.of_eq (h : s.SupportFresh resolver)
    (hrow : t.resolutionSupport = s.resolutionSupport) (hnode : t.node = s.node)
    (hedge : t.edge = s.edge) : t.SupportFresh resolver :=
  h.of_same hrow fun _ => .of_eq hnode hedge

theorem SupportFresh.writeNodes (h : s.SupportFresh resolver) {rows : List Node}
    (hkeeps : (s.currentSupport.isNone || s.keepsColumns rows) = true) :
    (s.writeNodes rows).SupportFresh resolver := by
  refine h.of_same rfl ?_
  intro hcurrent
  rcases Bool.or_eq_true_iff.mp hkeeps with hnone | hcolumns
  · exact absurd (Option.isNone_iff_eq_none.mp hnone) hcurrent
  · exact sameSupport_writeNodes hcolumns

theorem SupportFresh.rebase (h : s.SupportFresh resolver) {sourceRoot targetRoot : String}
    {callableKeys : List (Int × String)}
    (hkeeps : s.keepsSupport
      (.store (.rebaseRehydratedPathBoundCache sourceRoot targetRoot callableKeys)) = true) :
    ((s.rebaseRehydratedPathBoundCache sourceRoot targetRoot callableKeys).getD s).SupportFresh
      resolver := by
  rcases s.rebase_cases sourceRoot targetRoot callableKeys with hsame | hrebased
  · rwa [hsame]
  rw [hrebased]
  refine h.of_same rfl ?_
  intro hcurrent
  rcases Bool.or_eq_true_iff.mp hkeeps with hnone | hcolumns
  · exact absurd (Option.isNone_iff_eq_none.mp hnone) hcurrent
  · apply sameSupport_rebase
    intro node hnode
    exact of_decide_eq_true (List.all_eq_true.mp hcolumns node hnode)

/-- One operation of the store. -/
theorem SupportFresh.step (h : s.SupportFresh resolver) {op : StoreOp}
    (hkeeps : s.keepsSupport (.store op) = true) : (s.step op).SupportFresh resolver := by
  cases op with
  | upsertRetrievalArtifactNodesBatch nodes => exact (h.writeNodes hkeeps).of_eq rfl rfl rfl
  | copyRetrievalArtifactNodesFrom source => exact h.writeNodes hkeeps
  | rebaseRehydratedPathBoundCache sourceRoot targetRoot callableKeys => exact h.rebase hkeeps
  | updateFileMetadata info | refreshGroundingSummarySnapshots | getNodesByIds ids | reopen =>
    exact h.of_eq rfl rfl rfl
  | hydrateGroundingDetailSnapshots =>
    simp only [Storage.step, hydrateGroundingDetailSnapshots]
    split
    · exact h.of_eq rfl rfl rfl
    · exact h.of_eq rfl rfl rfl
  | refreshGroundingSnapshots =>
    simp only [Storage.step, refreshGroundingSnapshots, hydrateGroundingDetailSnapshots]
    split
    · exact h.of_eq rfl rfl rfl
    · exact h.of_eq rfl rfl rfl
  | getNode id =>
    simp only [Storage.step, Storage.getNode]
    split
    · exact h
    · split
      · exact h.of_eq rfl rfl rfl
      · exact h
  | insertFilesBatch files =>
    simp only [Storage.step, insertFilesBatch]
    split
    · exact h
    · exact .of_dirty rfl
  | insertErrorsBatch errors =>
    simp only [Storage.step, insertErrorsBatch]
    split
    · exact h
    · exact .of_dirty rfl
  | replaceErrorsForFilesBatch fileIds errors =>
    simp only [Storage.step, replaceErrorsForFilesBatch]
    split
    · exact h
    · split
      · exact .of_dirty rfl
      · exact h.of_eq rfl rfl rfl
  | flushProjectionBatch batch =>
    simp only [Storage.step, flushProjectionBatch]
    split
    · exact h
    · exact .of_dirty rfl
  | deleteProjectionForCallers fileId callerIds =>
    simp only [Storage.step, deleteProjectionForCallers]
    split
    · exact h
    · exact .of_dirty rfl
  | _ => exact .of_dirty rfl

/-- A load leaves the tables, and a fresh snapshot or none. -/
theorem SupportFresh.loadPrepared (h : s.SupportFresh resolver) {run : ResolutionRun}
    {prepared : PreparedResolutionState}
    (hload : s.loadPrepared resolver run = some (prepared, t)) :
    t.SupportFresh resolver := by
  unfold Storage.loadPrepared at hload
  dsimp only at hload
  split at hload
  · obtain rfl : s = t := congrArg Prod.snd (Option.some.inj hload)
    exact h
  · split at hload
    · obtain rfl := congrArg Prod.snd (Option.some.inj hload)
      exact .of_dirty rfl
    · rename_i blob _
      split at hload
      · rename_i hblob
        obtain rfl := congrArg Prod.snd (Option.some.inj hload)
        intro current hcurrent
        have hput : (s.putResolutionSupportSnapshot resolutionSupportSnapshotVersion
            blob).currentSupport = some blob := by
          simp [currentSupport, getResolutionSupportSnapshot, putResolutionSupportSnapshot]
        obtain rfl : blob = current := Option.some.inj (hput.symm.trans hcurrent)
        have hflag : blob.enableSemantic = run.flags.enableSemantic := hblob.enableSemantic
        rw [hflag]
        exact hblob
      · cases hload

theorem SupportFresh.resolve (h : s.SupportFresh resolver) {run : ResolutionRun}
    (hrun : s.resolve resolver run = some t) : t.SupportFresh resolver := by
  obtain ⟨⟨prepared, loaded⟩, hload, rfl⟩ := Option.map_eq_some_iff.mp hrun
  refine (h.loadPrepared hload).of_same rfl ?_
  intro _
  exact sameSupport_run _ _ _ _

/-! ## Runs of the store and the resolver -/

/-- From any database without a current snapshot, in every state reached by operations and
runs that keep the support: a snapshot that is returned is the one that a load of the tables
builds, and to resolve from it gives every edge the target that a fresh load gives it. -/
theorem support_snapshot_is_fresh (resolver : Resolver)
    {db s : Storage ResolutionSupportSnapshot} (hdb : db.currentSupport = none)
    (h : Transition.Reach
      (Transition.guarded (fun s op => s.keepsSupport op = true) (actWithRuns resolver)) db s)
    {blob : ResolutionSupportSnapshot} (hblob : s.currentSupport = some blob) :
    blob.SameUpToOrder
        ((s.loadFresh resolver blob.enableSemantic).snapshot blob.enableSemantic) ∧
      ∀ (flags : ResolutionFlags) (scope : ScopeCallerContext),
        flags.enableSemantic = blob.enableSemantic →
          ((resolver.pass flags).run (.fromSnapshot blob flags.enableSemantic) scope
              s.toTables).resolvedTargets =
            ((resolver.pass flags).run (s.loadFresh resolver flags.enableSemantic) scope
              s.toTables).resolvedTargets := by
  have hs : s.SupportFresh resolver := by
    refine h.invariant (I := SupportFresh resolver) ?_ (.of_none hdb)
    intro s op t hs hstep
    obtain ⟨hkeeps, hact⟩ := Transition.guarded_eq_some.mp hstep
    cases op with
    | store op =>
      obtain rfl : s.step op = t := Option.some.inj hact
      exact hs.step hkeeps
    | resolve run => exact hs.resolve hact
  have hfresh := hs blob hblob
  refine ⟨hfresh, ?_⟩
  intro flags scope hflag
  rw [hflag]
  have hsame := PreparedResolutionState.fromSnapshot_same hfresh
  exact (hsame.symm.resolvedTargets s.toTables.consistent_loadOverrideSupport resolver flags scope
    s.toTables).symm

section Inputs

/-- Without calls and imports the selections do not matter. -/
def rustResolver : Resolver where
  languageFamily := fun path => if endsWith path ".rs" then some "rust" else none
  computeCallResolution := fun _ _ _ _ => ⟨none, []⟩
  computeImportResolution := fun _ _ _ _ => ⟨none, []⟩

def plainEdge (id source target : Int) (kind : EdgeKind) : Edge :=
  ⟨id, source, target, kind, none, none, none, none, none, none, none, none⟩

/-- Two types in one file, each with a method `run`, the second type derived from the first. -/
def indexTypes : List StoreOp :=
  [.insertNodesBatch
      [plainNode 1 .fileNode "/old/a.rs",
        { plainNode 2 .classNode "Base" with fileNodeId := some 1 },
        { plainNode 3 .classNode "Derived" with fileNodeId := some 1 },
        { plainNode 4 .methodNode "run" with fileNodeId := some 1 },
        { plainNode 5 .methodNode "run" with fileNodeId := some 1 },
        plainNode 6 .unknownNode "component_report:a"],
    .insertEdgesBatch
      [plainEdge 1 2 4 .memberEdge, plainEdge 2 3 5 .memberEdge, plainEdge 3 3 2 .inheritanceEdge,
        plainEdge 4 5 5 .overrideEdge]]

def typesIndexed : Storage ResolutionSupportSnapshot := indexTypes.foldl Storage.step created

/-- A run over them that leaves a snapshot. -/
def typesRun : ResolutionRun where
  flags := ⟨false, true, true⟩
  callerScopeFileIds := none
  readable := true
  stored := some ((typesIndexed.loadFresh rustResolver true).snapshot true)

def resolveThen (op : StoreOp) : List ResolutionOp :=
  indexTypes.map .store ++ [.resolve typesRun, .store op]

/-- A report that is written again under its name leaves the snapshot fresh. -/
theorem support_after_keepingRun :
    ∃ s blob, Transition.run
        (Transition.guarded (fun s op => s.keepsSupport op = true) (actWithRuns rustResolver))
          created (resolveThen (.upsertRetrievalArtifactNodesBatch
            [{ plainNode 6 .unknownNode "component_report:a" with endLine := some 9 }])) = some s ∧
      s.currentSupport = some blob ∧ (4, some 4) ∈ s.resolvedTargets ∧
      blob.SameUpToOrder
        ((s.loadFresh rustResolver blob.enableSemantic).snapshot blob.enableSemantic) := by
  have hrun : ∃ s ∈ Transition.run
      (Transition.guarded (fun s op => s.keepsSupport op = true) (actWithRuns rustResolver))
        created (resolveThen (.upsertRetrievalArtifactNodesBatch
          [{ plainNode 6 .unknownNode "component_report:a" with endLine := some 9 }])),
        s.currentSupport.isSome = true ∧ (4, some 4) ∈ s.resolvedTargets := by
    decide +kernel
  obtain ⟨s, hs, hsome, htarget⟩ := hrun
  obtain ⟨blob, hblob⟩ := Option.isSome_iff_exists.mp hsome
  exact ⟨s, blob, hs, hblob, htarget,
    (support_snapshot_is_fresh rustResolver (by rfl) (Transition.reach_of_run hs) hblob).1⟩

/-- After the resolution run and the operation, the snapshot that is handed out is not the one a
fresh load would build. -/
def LeavesSupportStale (op : StoreOp) : Prop :=
  ∃ s ∈ Transition.run (actWithRuns rustResolver) created (resolveThen op),
    ∃ blob ∈ s.currentSupport, blob.enableSemantic = true ∧
      ¬ blob.SameUpToOrder ((s.loadFresh rustResolver true).snapshot true)

/-- The snapshot outlives a move of the file, a new report and a copied one. -/
theorem support_snapshot_is_stale :
    LeavesSupportStale (.rebaseRehydratedPathBoundCache "/old" "/new" []) ∧
    LeavesSupportStale
      (.upsertRetrievalArtifactNodesBatch [plainNode 7 .unknownNode "component_report:b"]) ∧
    LeavesSupportStale (.copyRetrievalArtifactNodesFrom
      (KeyedTable.empty.upsert (plainNode 7 .unknownNode "component_report:b"))) := by
  unfold LeavesSupportStale
  decide +kernel

end Inputs

end Storage

end CodeStory.Graph
