import CodeStory.Graph.Storage
import CodeStory.Lib.Transition

/-!
# The node cache and the node table

A mutator writes the table in SQL and the cache in memory, each in its own order. The cache
stays a partial copy of the table under every operation except two: a batch that writes FILE
rows first but caches in list order, when an id has rows of both sorts and a FILE row is its
last, and a copy between databases, which never touches the cache, when an id it overwrites is
cached with another row. `keepsCache` names these inputs exactly.
-/

set_option autoImplicit false

namespace CodeStory.Graph

universe u

/-! ## FILE rows first -/

/-- An id that has both FILE rows and other rows ends with one of the others. -/
def mixedIdsEndOther (nodes : List Node) : Bool :=
  nodes.all fun node => node.kind = .fileNode ||
    (KeyedTable.lastRow Node.id nodes node.id).all fun last => last.kind ≠ .fileNode

theorem mem_filesFirst {nodes : List Node} {node : Node} :
    node ∈ filesFirst nodes ↔ node ∈ nodes := by
  by_cases h : node.kind = .fileNode <;> simp [filesFirst, h]

theorem lastRow_filesFirst_eq_none_iff {nodes : List Node} {id : Int} :
    KeyedTable.lastRow Node.id nodes id = none ↔
      KeyedTable.lastRow Node.id (filesFirst nodes) id = none := by
  simp only [KeyedTable.lastRow_eq_none_iff, mem_filesFirst]

theorem lastRow_filesFirst (nodes : List Node) (id : Int) :
    KeyedTable.lastRow Node.id (filesFirst nodes) id =
      (KeyedTable.lastRow Node.id (nodes.filter (·.kind ≠ .fileNode)) id).or
        (KeyedTable.lastRow Node.id (nodes.filter (·.kind = .fileNode)) id) :=
  KeyedTable.lastRow_append _ _ id

/-- Writing FILE rows first leaves every id with the row the list order would leave. -/
theorem lastRow_filesFirst_iff {nodes : List Node} :
    (∀ id, KeyedTable.lastRow Node.id (filesFirst nodes) id =
      KeyedTable.lastRow Node.id nodes id) ↔ mixedIdsEndOther nodes = true := by
  constructor
  · intro hsame
    apply List.all_eq_true.mpr
    intro node hnode
    by_cases hkind : node.kind = .fileNode
    · simp [hkind]
    · have hother : node ∈ nodes.filter (·.kind ≠ .fileNode) := by simp [hnode, hkind]
      obtain ⟨last, hlast⟩ : ∃ last, KeyedTable.lastRow Node.id
          (nodes.filter (·.kind ≠ .fileNode)) node.id = some last :=
        KeyedTable.exists_lastRow hother
      have hmem := (List.mem_filter.mp (KeyedTable.mem_of_lastRow hlast).1).2
      have hrow : KeyedTable.lastRow Node.id nodes node.id = some last := by
        rw [← hsame, lastRow_filesFirst, hlast]
        rfl
      simpa [hrow] using Or.inr hmem
  · intro hmixed id
    rw [lastRow_filesFirst]
    cases hrow : KeyedTable.lastRow Node.id nodes id with
    | none =>
      have hnone : ∀ p : Node → Bool, KeyedTable.lastRow Node.id (nodes.filter p) id = none := by
        intro p
        apply KeyedTable.lastRow_eq_none_iff.mpr
        intro node hnode
        exact KeyedTable.lastRow_eq_none_iff.mp hrow node (List.mem_filter.mp hnode).1
      rw [hnone, hnone]
      rfl
    | some last =>
      by_cases hkind : last.kind = .fileNode
      · -- A row of another kind would contradict the condition.
        have hno : KeyedTable.lastRow Node.id (nodes.filter (·.kind ≠ .fileNode)) id = none := by
          apply KeyedTable.lastRow_eq_none_iff.mpr
          rintro node hnode rfl
          obtain ⟨hmem, hother⟩ := List.mem_filter.mp hnode
          have hend := List.all_eq_true.mp hmixed node hmem
          simp_all
        rw [hno, KeyedTable.lastRow_filter hrow (by simp [hkind])]
        rfl
      · rw [KeyedTable.lastRow_filter hrow (by simp [hkind])]
        rfl

/-! ## Coherence -/

namespace Storage
variable {β : Type u} {s : Storage β}

/-- Every entry of the cache equals the table row of its id. -/
def CacheCoherent (s : Storage β) : Prop := s.nodeCache.Within s.node

/-- The operations that keep a coherent cache coherent. -/
def keepsCache (s : Storage β) : StoreOp → Bool
  | .insertNodesBatch nodes => mixedIdsEndOther (s.preparedNodesForInsert nodes)
  | .flushProjectionBatch batch =>
    batch.isEmpty || !batch.accepted ||
      mixedIdsEndOther (s.preparedNodesForInsertWithFiles batch.nodes batch.files)
  | .copyRetrievalArtifactNodesFrom source =>
    source.rows.all fun row =>
      !isRetrievalArtifact row || (s.nodeCache.lookup row.id).all (· = row)
  | _ => true

theorem CacheCoherent.of_eq {t : Storage β} (h : s.CacheCoherent) (hnode : t.node = s.node)
    (hcache : t.nodeCache = s.nodeCache) : t.CacheCoherent := by
  unfold CacheCoherent
  rw [hnode, hcache]
  exact h

theorem CacheCoherent.of_empty (hcache : s.nodeCache = .empty) : s.CacheCoherent := by
  unfold CacheCoherent
  rw [hcache]
  exact .empty _

theorem CacheCoherent.write (h : s.CacheCoherent) (nodes : List Node) :
    ((s.writeNodes nodes).cacheNodes nodes).CacheCoherent :=
  (KeyedTable.Within.upsertAll_iff h fun _ => Iff.rfl).mpr fun _ => rfl

theorem CacheCoherent.writeFilesFirst_iff (h : s.CacheCoherent) (nodes : List Node) :
    ((s.writeNodes (filesFirst nodes)).cacheNodes nodes).CacheCoherent ↔
      mixedIdsEndOther nodes = true :=
  (KeyedTable.Within.upsertAll_iff h fun _ => lastRow_filesFirst_eq_none_iff).trans
    lastRow_filesFirst_iff

theorem CacheCoherent.copy_iff (h : s.CacheCoherent) (source : KeyedTable Node.id) :
    (s.copyRetrievalArtifactNodesFrom source).CacheCoherent ↔
      s.keepsCache (.copyRetrievalArtifactNodesFrom source) = true := by
  refine (KeyedTable.Within.upsertAll_right_iff h).trans ?_
  constructor
  · intro hsame
    apply List.all_eq_true.mpr
    intro row hrow
    by_cases hart : isRetrievalArtifact row = true
    · cases hcached : s.nodeCache.lookup row.id with
      | none => simp
      | some cached =>
        have hmem : row ∈ source.rows.filter isRetrievalArtifact :=
          List.mem_filter.mpr ⟨hrow, hart⟩
        obtain ⟨last, hlast⟩ : ∃ last, KeyedTable.lastRow Node.id
            (source.rows.filter isRetrievalArtifact) row.id = some last :=
          KeyedTable.exists_lastRow hmem
        obtain ⟨hin, hid⟩ := KeyedTable.mem_of_lastRow hlast
        obtain rfl := KeyedTable.eq_of_key_eq (List.mem_filter.mp hin).1 hrow hid
        simpa [hart] using hsame _ _ _ hcached hlast
    · simp [hart]
  · intro hall id cached row hcached hlast
    obtain ⟨hin, rfl⟩ := KeyedTable.mem_of_lastRow hlast
    obtain ⟨hrow, hart⟩ := List.mem_filter.mp hin
    have hsame := List.all_eq_true.mp hall row hrow
    simpa [hart, hcached] using hsame

theorem CacheCoherent.flush_iff (h : s.CacheCoherent) (batch : ProjectionBatch) :
    (s.flushProjectionBatch batch).CacheCoherent ↔
      s.keepsCache (.flushProjectionBatch batch) = true := by
  unfold flushProjectionBatch keepsCache
  by_cases hskip : (batch.isEmpty || !batch.accepted) = true
  · simpa [hskip] using h
  · rw [if_neg hskip, Bool.or_eq_true, or_iff_right hskip]
    exact h.writeFilesFirst_iff _

theorem CacheCoherent.getNode (h : s.CacheCoherent) (id : Int) :
    (s.getNode id).2.CacheCoherent := by
  unfold Storage.getNode
  split
  · exact h
  · split
    · rename_i node hnode
      apply KeyedTable.Within.upsertAll_left h
      intro row hrow
      obtain rfl : row = node := by simpa using hrow
      rwa [KeyedTable.key_of_lookup hnode]
    · exact h

theorem CacheCoherent.getNodesByIds (h : s.CacheCoherent) (ids : List Int) :
    (s.getNodesByIds ids).2.CacheCoherent := by
  apply KeyedTable.Within.upsertAll_left h
  intro row hrow
  obtain ⟨id, -, hid⟩ := List.mem_filterMap.mp hrow
  rwa [KeyedTable.key_of_lookup hid]

/-- One step keeps a coherent cache coherent exactly when `keepsCache` says so. -/
theorem CacheCoherent.step_iff (h : s.CacheCoherent) (op : StoreOp) :
    (s.step op).CacheCoherent ↔ s.keepsCache op = true := by
  cases op with
  | insertNode node | upsertRetrievalArtifactNodesBatch nodes => exact iff_of_true (h.write _) rfl
  | insertNodesBatch nodes => exact h.writeFilesFirst_iff _
  | pruneRetrievalArtifactsToNodeIds keep =>
    exact iff_of_true (KeyedTable.Within.deleteWhere h) rfl
  | copyRetrievalArtifactNodesFrom source => exact h.copy_iff source
  | flushProjectionBatch batch => exact h.flush_iff batch
  | deleteFileProjection fileNodeId => exact iff_of_true (KeyedTable.Within.deleteWhere h) rfl
  | clear | reopen => exact iff_of_true (.of_empty rfl) rfl
  | rebaseRehydratedPathBoundCache source target callableKeys =>
    refine iff_of_true ?_ rfl
    rw [Storage.step]
    rcases s.rebase_cases source target callableKeys with hsame | hrebased
    · rwa [hsame]
    · rw [hrebased]
      exact .of_empty rfl
  | getNode id => exact iff_of_true (h.getNode id) rfl
  | getNodesByIds ids => exact iff_of_true (h.getNodesByIds ids) rfl
  | insertFilesBatch files =>
    refine iff_of_true (h.of_eq ?_ ?_) rfl <;>
      · simp only [Storage.step, insertFilesBatch]
        split <;> rfl
  | insertErrorsBatch errors =>
    refine iff_of_true (h.of_eq ?_ ?_) rfl <;>
      · simp only [Storage.step, insertErrorsBatch]
        split <;> rfl
  | replaceErrorsForFilesBatch fileIds errors =>
    refine iff_of_true (h.of_eq ?_ ?_) rfl <;>
      · simp only [Storage.step, replaceErrorsForFilesBatch]
        split
        · rfl
        · split <;> rfl
  | deleteProjectionForCallers fileId callerIds =>
    refine iff_of_true (h.of_eq ?_ ?_) rfl <;>
      · simp only [Storage.step, deleteProjectionForCallers]
        split <;> rfl
  | hydrateGroundingDetailSnapshots =>
    refine iff_of_true (h.of_eq ?_ ?_) rfl <;>
      · simp only [Storage.step, hydrateGroundingDetailSnapshots]
        split <;> rfl
  | _ => exact iff_of_true (h.of_eq rfl rfl) rfl

/-! ## Reads -/

theorem CacheCoherent.getNode_fst (h : s.CacheCoherent) (id : Int) :
    (s.getNode id).1 = s.node.lookup id := by
  unfold Storage.getNode
  split
  · rename_i node hnode
    exact (h id node hnode).symm
  · split
    · rename_i node hnode
      exact hnode.symm
    · rename_i hnone
      exact hnone.symm

theorem CacheCoherent.getNodesByIds_fst (h : s.CacheCoherent) (ids : List Int) (id : Int) :
    (s.getNodesByIds ids).1.lookup id = if id ∈ ids then s.node.lookup id else none := by
  unfold Storage.getNodesByIds
  dsimp only
  rw [KeyedTable.lookup_upsertAll, KeyedTable.lookup_upsertAll,
    KeyedTable.lastRow_filterMap_lookup, KeyedTable.lastRow_filterMap_lookup]
  by_cases hid : id ∈ ids
  · cases hcached : s.nodeCache.lookup id with
    | none => simp [hid, hcached]
    | some node =>
      have hrow : s.node.lookup id = some node := h id node hcached
      simp [hid, hcached, hrow]
  · simp [hid]

/-! ## Runs -/

/-- From any database, in every state reached by operations that keep the cache: every cache
entry is the row of its id, and both reads return the rows of the table. -/
theorem cached_reads_return_table_rows {db s : Storage β}
    (h : Transition.Reach (Transition.guarded (fun s op => s.keepsCache op = true) act)
      db.opened s) :
    s.CacheCoherent ∧ (∀ id, (s.getNode id).1 = s.node.lookup id) ∧
      ∀ ids id, (s.getNodesByIds ids).1.lookup id =
        if id ∈ ids then s.node.lookup id else none := by
  have hs : s.CacheCoherent := by
    refine h.invariant (I := CacheCoherent) ?_ (.of_empty rfl)
    intro s op t hs hstep
    obtain ⟨hkeeps, hact⟩ := Transition.guarded_eq_some.mp hstep
    obtain rfl : s.step op = t := Option.some.inj hact
    exact (hs.step_iff op).mpr hkeeps
  exact ⟨hs, hs.getNode_fst, hs.getNodesByIds_fst⟩

section Inputs

/-- A repeated id whose FILE row comes first, a read, an artifact copied over an id that is
not cached, and its pruning. -/
def coherentRun : List StoreOp :=
  [.insertNodesBatch [plainNode 1 .fileNode "a.rs", plainNode 1 .classNode "A"],
    .getNodesByIds [1, 2],
    .copyRetrievalArtifactNodesFrom
      (KeyedTable.empty.upsert (plainNode 2 .unknownNode "component_report:x")),
    .getNode 2,
    .pruneRetrievalArtifactsToNodeIds []]

theorem cached_reads_after_coherentRun :
    ∃ s, Transition.run (Transition.guarded (fun s op => s.keepsCache op = true) act)
        (created : Storage Unit).opened coherentRun = some s ∧
      s.CacheCoherent ∧ (∀ id, (s.getNode id).1 = s.node.lookup id) ∧
      ∀ ids id, (s.getNodesByIds ids).1.lookup id =
        if id ∈ ids then s.node.lookup id else none := by
  have hrun : (Transition.run (Transition.guarded (fun s op => s.keepsCache op = true) act)
      (created : Storage Unit).opened coherentRun).isSome = true := by decide
  obtain ⟨s, hs⟩ := Option.isSome_iff_exists.mp hrun
  exact ⟨s, hs, cached_reads_return_table_rows (Transition.reach_of_run hs)⟩

/-- A class row and then a FILE row under one id. -/
def mixedBatch : Storage Unit :=
  created.step (.insertNodesBatch [plainNode 1 .classNode "A", plainNode 1 .fileNode "a.rs"])

/-- A report copied over a cached report. -/
def copiedReport : Storage Unit :=
  (created.step (.insertNode (plainNode 2 .unknownNode "component_report:old"))).step
    (.copyRetrievalArtifactNodesFrom
      (KeyedTable.empty.upsert (plainNode 2 .unknownNode "component_report:new")))

/-- The table keeps the class and the new report, the cache serves the file and the old one. -/
theorem cached_read_is_stale :
    (mixedBatch.getNode 1).1 = some (plainNode 1 .fileNode "a.rs") ∧
      mixedBatch.node.lookup 1 = some (plainNode 1 .classNode "A") ∧
      (copiedReport.getNode 2).1 = some (plainNode 2 .unknownNode "component_report:old") ∧
      copiedReport.node.lookup 2 = some (plainNode 2 .unknownNode "component_report:new") := by
  decide

end Inputs

end Storage
end CodeStory.Graph
