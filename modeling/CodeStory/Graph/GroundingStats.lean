import CodeStory.Graph.Storage
import CodeStory.Lib.Transition

/-!
# Counts read from the grounding snapshot

While the summary snapshot is ready, `getStats` trusts a recorded row. Every mutator that can
change a count makes the snapshot dirty, with two exceptions: the retrieval-artifact upsert
and the retrieval-artifact copy. What has to hold of a ready snapshot is `SnapshotFresh`; the
count of the file snapshot belongs to it, since a later hydration records that count without
building the snapshot again.
-/

set_option autoImplicit false

namespace CodeStory.Graph

universe u

namespace Storage
variable {β : Type u} {s : Storage β}

/-! ## Counting files -/

theorem nodup_fileNodeIds (s : Storage β) : s.fileNodeIds.Nodup :=
  (List.filter_sublist.map Node.id).nodup s.node.nodup

theorem nodup_allFiles (s : Storage β) : s.allFiles.Nodup := by
  apply List.Nodup.append s.file.nodup
  · exact s.nodup_fileNodeIds.filter _
  · intro id hfile hnode
    have hout := (List.mem_filter.mp hnode).2
    exact of_decide_eq_true hout hfile

/-- Adding the FILE nodes without a file row counts what `UNION` counts. -/
theorem length_allFiles (s : Storage β) : s.allFiles.length = s.effectiveGroundingFileCount := by
  apply List.Perm.length_eq
  apply (List.perm_ext_iff_of_nodup s.nodup_allFiles (List.nodup_dedup _)).mpr
  intro id
  unfold allFiles
  rw [List.mem_dedup, List.mem_append, List.mem_append, List.mem_filter]
  by_cases hfile : id ∈ s.file.keys <;> simp [hfile]

/-- The count only looks at the keys of the file table and at ids and kinds of nodes. -/
theorem effectiveGroundingFileCount_congr {t : Storage β} (hfile : t.file.keys = s.file.keys)
    (hnode : t.fileNodeIds = s.fileNodeIds) :
    t.effectiveGroundingFileCount = s.effectiveGroundingFileCount := by
  unfold effectiveGroundingFileCount
  rw [hfile, hnode]

/-! ## Freshness -/

/-- What a ready summary snapshot has to agree with. -/
structure Agrees (s : Storage β) : Prop where
  files : s.groundingFileSnapshot.length = s.effectiveGroundingFileCount
  stats : ∀ stats, s.groundingRepoStats = some stats → stats = s.liveStats.toRepoStats

def SnapshotFresh (s : Storage β) : Prop :=
  s.hasReadyGroundingSummarySnapshots = true → s.Agrees

theorem SnapshotFresh.of_not_ready (h : s.hasReadyGroundingSummarySnapshots = false) :
    s.SnapshotFresh := by
  intro hready
  rw [h] at hready
  cases hready

theorem SnapshotFresh.of_dirty
    (h : s.groundingMeta = some ⟨groundingSnapshotVersion, .dirty, .dirty⟩) :
    s.SnapshotFresh := by
  apply of_not_ready
  unfold hasReadyGroundingSummarySnapshots
  rw [h]
  rfl

/-- The node cache has no part in it. -/
theorem snapshotFresh_setCache {cache : KeyedTable Node.id} :
    SnapshotFresh { s with nodeCache := cache } ↔ s.SnapshotFresh := by
  constructor
  · intro h hready
    exact ⟨(h hready).files, (h hready).stats⟩
  · intro h hready
    exact ⟨(h hready).files, (h hready).stats⟩

theorem SnapshotFresh.getStats_eq (h : s.SnapshotFresh) : s.getStats = s.liveStats := by
  unfold getStats
  split
  · rename_i hready
    split
    · rename_i stats hstats
      rw [(h hready).stats stats hstats]
      rfl
    · rfl
  · rfl

/-! ## Operations -/

/-- A write of node rows that goes unnoticed: under a recorded row every id has to be known,
and the number of file ids must not change. -/
def keepsCounts (s : Storage β) (rows : List Node) : Bool :=
  (s.groundingRepoStats.isNone || rows.all fun row => row.id ∈ s.node.keys) &&
    (s.writeNodes rows).effectiveGroundingFileCount = s.effectiveGroundingFileCount

/-- The operations that keep a fresh snapshot fresh. -/
def keepsSnapshot (s : Storage β) : StoreOp → Bool
  | .upsertRetrievalArtifactNodesBatch nodes =>
    !s.hasReadyGroundingSummarySnapshots || s.keepsCounts (s.preparedNodesForInsert nodes)
  | .copyRetrievalArtifactNodesFrom source =>
    !s.hasReadyGroundingSummarySnapshots ||
      s.keepsCounts (source.rows.filter isRetrievalArtifact)
  | _ => true

theorem SnapshotFresh.writeNodes_iff (h : s.SnapshotFresh) (rows : List Node) :
    (s.writeNodes rows).SnapshotFresh ↔
      (!s.hasReadyGroundingSummarySnapshots || s.keepsCounts rows) = true := by
  by_cases hready : s.hasReadyGroundingSummarySnapshots = true
  · have hagrees := h hready
    have hsize : (s.node.upsertAll rows).size = s.node.size ↔ ∀ row ∈ rows, row.id ∈ s.node.keys :=
      KeyedTable.size_upsertAll_eq_iff
    rw [hready, Bool.not_true, Bool.false_or, keepsCounts, Bool.and_eq_true, Bool.or_eq_true,
      decide_eq_true_iff, Option.isNone_iff_eq_none]
    constructor
    · intro hfresh
      have hafter := hfresh hready
      have hcount : (s.writeNodes rows).effectiveGroundingFileCount =
          s.effectiveGroundingFileCount := hafter.files.symm.trans hagrees.files
      refine ⟨?_, hcount⟩
      cases hstats : s.groundingRepoStats with
      | none => exact .inl rfl
      | some stats =>
        right
        have hbefore := hagrees.stats stats hstats
        have hnow := hafter.stats stats hstats
        have hnodes : (s.node.upsertAll rows).size = s.node.size :=
          congrArg RepoStats.nodeCount (hnow.symm.trans hbefore)
        simpa using hsize.mp hnodes
    · rintro ⟨hknown, hcount⟩ -
      refine ⟨hagrees.files.trans hcount.symm, ?_⟩
      intro stats hstats
      have hstats' : s.groundingRepoStats = some stats := hstats
      rw [hstats', or_iff_right (by simp)] at hknown
      have hnodes : (s.node.upsertAll rows).size = s.node.size :=
        hsize.mpr (by simpa using hknown)
      rw [hagrees.stats stats hstats']
      have hnodes' : (s.writeNodes rows).node.size = s.node.size := hnodes
      simp only [liveStats, hnodes', hcount]
      rfl
  · have hready' : s.hasReadyGroundingSummarySnapshots = false := by simpa using hready
    rw [hready']
    exact iff_of_true (.of_not_ready hready') rfl

theorem agrees_refreshGroundingSummarySnapshots (s : Storage β) :
    s.refreshGroundingSummarySnapshots.Agrees where
  files := s.length_allFiles
  stats := by
    intro stats hstats
    cases hstats

theorem Agrees.recordRepoStats (h : s.Agrees) : s.recordRepoStats.Agrees where
  files := h.files
  stats := by
    intro stats hstats
    obtain rfl := Option.some.inj hstats
    simp only [h.files]
    rfl

theorem SnapshotFresh.hydrate (h : s.SnapshotFresh) :
    s.hydrateGroundingDetailSnapshots.SnapshotFresh := by
  intro _
  unfold hydrateGroundingDetailSnapshots
  split
  · rename_i hready
    exact (h hready).recordRepoStats
  · exact s.agrees_refreshGroundingSummarySnapshots.recordRepoStats

/-- Nothing removed and nothing added is the one case without an invalidation. -/
theorem SnapshotFresh.replaceErrors (h : s.SnapshotFresh) (fileIds : List Int)
    (errors : List ErrorInfo) : (s.replaceErrorsForFilesBatch fileIds errors).SnapshotFresh := by
  unfold replaceErrorsForFilesBatch
  dsimp only
  split
  · exact h
  · split
    · exact .of_dirty rfl
    · rename_i hsame
      simp only [Bool.or_eq_true, decide_eq_true_iff, not_or, Bool.not_eq_true,
        Bool.not_eq_false', List.isEmpty_iff] at hsame
      obtain ⟨hlength, rfl⟩ := hsame
      have hkept : removeErrorsOf fileIds s.error = s.error :=
        List.Sublist.eq_of_length_le List.filter_sublist (Nat.le_of_not_lt hlength)
      rw [hkept, List.append_nil]
      exact h

/-! Moving a cache rewrites text only. -/

section Rebase
variable (sourceRoot targetRoot : String)

theorem rebaseNode_kind (node : Node) :
    (rebaseNode sourceRoot targetRoot node).kind = node.kind := by
  unfold rebaseNode
  split <;> rfl

theorem rebase_fileNodeIds (s : Storage β) :
    (s.rebased sourceRoot targetRoot).fileNodeIds = s.fileNodeIds := by
  have hnode : (s.rebased sourceRoot targetRoot).node.rows =
      s.node.rows.map (rebaseNode sourceRoot targetRoot) := rfl
  unfold fileNodeIds
  rw [hnode, List.filter_map, List.map_map]
  simp only [Function.comp_def, rebaseNode_kind, rebaseNode_id]

theorem rebase_fileKeys (s : Storage β) :
    (s.rebased sourceRoot targetRoot).file.keys = s.file.keys := by
  simp [rebased, KeyedTable.keys, KeyedTable.update, Function.comp_def]

theorem rebase_repoStats (s : Storage β) :
    (s.rebased sourceRoot targetRoot).liveStats.toRepoStats =
      s.liveStats.toRepoStats := by
  have hfiles := effectiveGroundingFileCount_congr (rebase_fileKeys sourceRoot targetRoot s)
    (rebase_fileNodeIds sourceRoot targetRoot s)
  simp only [liveStats, hfiles]
  simp [rebased, KeyedTable.size, KeyedTable.update]

theorem SnapshotFresh.rebase (h : s.SnapshotFresh) :
    (s.rebased sourceRoot targetRoot).SnapshotFresh := by
  intro hready
  have hagrees := h hready
  constructor
  · have hfiles := effectiveGroundingFileCount_congr (rebase_fileKeys sourceRoot targetRoot s)
      (rebase_fileNodeIds sourceRoot targetRoot s)
    rw [hfiles]
    exact hagrees.files
  · intro stats hstats
    rw [rebase_repoStats]
    exact hagrees.stats stats hstats

end Rebase

/-- One step keeps a fresh snapshot fresh exactly when `keepsSnapshot` says so. -/
theorem SnapshotFresh.step_iff (h : s.SnapshotFresh) (op : StoreOp) :
    (s.step op).SnapshotFresh ↔ s.keepsSnapshot op = true := by
  cases op with
  | upsertRetrievalArtifactNodesBatch nodes =>
    exact snapshotFresh_setCache.trans (h.writeNodes_iff _)
  | copyRetrievalArtifactNodesFrom source => exact h.writeNodes_iff _
  | rebaseRehydratedPathBoundCache source target callableKeys =>
    refine iff_of_true ?_ rfl
    rw [Storage.step]
    rcases s.rebase_cases source target callableKeys with hsame | hrebased
    · rwa [hsame]
    · rw [hrebased]
      exact h.rebase source target
  | refreshGroundingSummarySnapshots =>
    exact iff_of_true (fun _ => s.agrees_refreshGroundingSummarySnapshots) rfl
  | hydrateGroundingDetailSnapshots => exact iff_of_true h.hydrate rfl
  | refreshGroundingSnapshots =>
    refine iff_of_true (hydrate ?_) rfl
    exact fun _ => s.agrees_refreshGroundingSummarySnapshots
  | getNode id =>
    refine iff_of_true ?_ rfl
    simp only [Storage.step, Storage.getNode]
    split
    · exact h
    · split
      · exact snapshotFresh_setCache.mpr h
      · exact h
  | getNodesByIds ids => exact iff_of_true (snapshotFresh_setCache.mpr h) rfl
  | reopen => exact iff_of_true (snapshotFresh_setCache.mpr h) rfl
  | insertFilesBatch files =>
    refine iff_of_true ?_ rfl
    simp only [Storage.step, insertFilesBatch]
    split
    · exact h
    · exact .of_dirty rfl
  | insertErrorsBatch errors =>
    refine iff_of_true ?_ rfl
    simp only [Storage.step, insertErrorsBatch]
    split
    · exact h
    · exact .of_dirty rfl
  | replaceErrorsForFilesBatch fileIds errors =>
    refine iff_of_true ?_ rfl
    exact h.replaceErrors fileIds errors
  | flushProjectionBatch batch =>
    refine iff_of_true ?_ rfl
    simp only [Storage.step, flushProjectionBatch]
    split
    · exact h
    · exact .of_dirty rfl
  | deleteProjectionForCallers fileId callerIds =>
    refine iff_of_true ?_ rfl
    simp only [Storage.step, deleteProjectionForCallers]
    split
    · exact h
    · exact .of_dirty rfl
  | _ => exact iff_of_true (.of_dirty rfl) rfl

/-! ## Runs -/

/-- From any database whose summary snapshot is not ready, in every state reached by operations
that keep the snapshot: the counts are those of the live tables, which is also what a dirty
snapshot would give. -/
theorem stats_are_live {db s : Storage β} (hdb : db.hasReadyGroundingSummarySnapshots = false)
    (h : Transition.Reach (Transition.guarded (fun s op => s.keepsSnapshot op = true) act) db s) :
    s.getStats = s.liveStats ∧ s.getStats = s.markGroundingSnapshotsDirty.getStats := by
  have hs : s.SnapshotFresh := by
    refine h.invariant (I := SnapshotFresh) ?_ (.of_not_ready hdb)
    intro s op t hs hstep
    obtain ⟨hkeeps, hact⟩ := Transition.guarded_eq_some.mp hstep
    obtain rfl : s.step op = t := Option.some.inj hact
    exact (hs.step_iff op).mpr hkeeps
  exact ⟨hs.getStats_eq, hs.getStats_eq⟩

section Inputs

/-- A report that is there before the snapshot is built may be written again after it. -/
def freshRun : List StoreOp :=
  [.insertNodesBatch [plainNode 1 .fileNode "a.rs", plainNode 2 .unknownNode "component_report:x"],
    .refreshGroundingSnapshots,
    .upsertRetrievalArtifactNodesBatch [plainNode 2 .unknownNode "component_report:y"]]

theorem stats_after_freshRun :
    ∃ s, Transition.run (Transition.guarded (fun s op => s.keepsSnapshot op = true) act)
        (created : Storage Unit) freshRun = some s ∧
      s.hasReadyGroundingSummarySnapshots = true ∧
      s.getStats = s.liveStats ∧ s.getStats = s.markGroundingSnapshotsDirty.getStats := by
  have hrun : (Transition.run (Transition.guarded (fun s op => s.keepsSnapshot op = true) act)
      (created : Storage Unit) freshRun).map (·.hasReadyGroundingSummarySnapshots) =
        some true := by decide
  obtain ⟨s, hs, hready⟩ := Option.map_eq_some_iff.mp hrun
  exact ⟨s, hs, hready, stats_are_live (by rfl) (Transition.reach_of_run hs)⟩

/-- A report written for the first time after the snapshot was built. -/
def lateReport : Storage Unit :=
  ((created : Storage Unit).step .refreshGroundingSnapshots).step
    (.upsertRetrievalArtifactNodesBatch [plainNode 2 .unknownNode "component_report:x"])

/-- The same report copied from another database. -/
def lateCopy : Storage Unit :=
  ((created : Storage Unit).step .refreshGroundingSnapshots).step
    (.copyRetrievalArtifactNodesFrom
      (KeyedTable.empty.upsert (plainNode 2 .unknownNode "component_report:x")))

theorem stats_are_stale :
    (lateReport.hasReadyGroundingSummarySnapshots = true ∧ lateReport.getStats.nodeCount = 0 ∧
      lateReport.liveStats.nodeCount = 1) ∧
    (lateCopy.hasReadyGroundingSummarySnapshots = true ∧ lateCopy.getStats.nodeCount = 0 ∧
      lateCopy.liveStats.nodeCount = 1) := by
  decide

end Inputs

end Storage
end CodeStory.Graph
