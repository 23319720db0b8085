import CodeStory.Graph.Resolution

/-!
# Running the resolution twice

Every statement of a run rewrites an edge from its own columns and from the node table, so a
run is one function applied to each edge, and idempotence is a fact about that function. The
columns that a target is computed from are never written; they are what `eraseResolution`
leaves.

A call that the cleanup forgets is looked at again in the same run, unless its target carries
a framework canonical id: the cleanup of common names has no exception for these, while the
worklist leaves them out.
-/

set_option autoImplicit false

namespace CodeStory.Graph

universe u

/-! ## What a run does to one edge -/

/-- The edge without what a run may write. -/
def eraseResolution (edge : Edge) : Edge :=
  { edge with resolvedSource := none, resolvedTarget := none, confidence := none,
              certainty := none, candidateTargets := none }

def resolveRow {ρ : Type u} (row : Option ρ) (edgeId : ρ → Int) (compute : ρ → Selection)
    (edge : Edge) : Edge :=
  match row with
  | some row => applyUpdate (buildResolvedEdgeUpdate (edgeId row) (compute row)) edge
  | none => edge

namespace Tables
variable {tables : Tables}

theorem unresolvedRow_erase (edge : Edge) :
    tables.unresolvedRow (eraseResolution edge) = tables.unresolvedRow edge := rfl

theorem edgeId_of_unresolvedRow {edge : Edge} {row : UnresolvedEdgeRow}
    (h : tables.unresolvedRow edge = some row) : row.edgeId = edge.id := by
  unfold unresolvedRow at h
  split at h
  · dsimp only at h
    split at h
    · cases h
    · obtain rfl := Option.some.inj h
      rfl
  · cases h

theorem edgeId_of_worklistRow {kind : EdgeKind} {scope : ScopeCallerContext} {edge : Edge}
    {row : UnresolvedEdgeRow} (h : tables.worklistRow kind scope edge = some row) :
    row.edgeId = edge.id := by
  unfold worklistRow at h
  split at h
  · exact edgeId_of_unresolvedRow h
  · cases h

theorem edgeId_of_overrideRow {scope : ScopeCallerContext} {edge : Edge}
    {row : UnresolvedOverrideRow} (h : tables.overrideRow scope edge = some row) :
    row.edgeId = edge.id := by
  unfold overrideRow at h
  split at h
  · obtain ⟨source, -, rfl⟩ := Option.map_eq_some_iff.mp h
    rfl
  · cases h

end Tables

theorem applyResolutionUpdates_eq {ρ : Type u} (table : KeyedTable Edge.id)
    {rowOf : Edge → Option ρ} {edgeId : ρ → Int} (compute : ρ → Selection)
    (hrow : ∀ edge row, rowOf edge = some row → edgeId row = edge.id) {edge : Edge}
    (hedge : edge ∈ table.rows) :
    applyResolutionUpdates ((table.rows.filterMap rowOf).map fun row =>
        buildResolvedEdgeUpdate (edgeId row) (compute row)) edge =
      resolveRow (rowOf edge) edgeId compute edge := by
  have hlabel : ∀ edge row, rowOf edge = some row →
      (buildResolvedEdgeUpdate (edgeId row) (compute row)).edgeId = edge.id := by
    intro edge row h
    rw [← hrow edge row h]
    unfold buildResolvedEdgeUpdate
    split <;> rfl
  unfold applyResolutionUpdates resolveRow
  rw [KeyedTable.find?_filterMap hlabel hedge]
  cases rowOf edge <;> rfl

namespace ResolutionPass
variable {P : Type u} (pass : ResolutionPass P) (prepared : P) (scope : ScopeCallerContext)
  (tables : Tables)

def callEdge (edge : Edge) : Edge :=
  let edge := cleanupStaleCallResolution tables pass.flags scope
    (prepareSource scope .callEdge edge)
  resolveRow (tables.worklistRow .callEdge scope edge) (·.edgeId)
    (pass.computeCallResolution prepared) edge

def importEdge (edge : Edge) : Edge :=
  let edge := prepareSource scope .importEdge edge
  resolveRow (tables.worklistRow .importEdge scope edge) (·.edgeId)
    (pass.computeImportResolution prepared) edge

def overrideEdge (edge : Edge) : Edge :=
  let edge := prepareOverride scope edge
  resolveRow (tables.overrideRow scope edge) (·.edgeId)
    (pass.computeOverrideResolution prepared) edge

def runEdge (edge : Edge) : Edge :=
  pass.overrideEdge prepared scope tables
    (pass.importEdge prepared scope tables (pass.callEdge prepared scope tables edge))

theorem resolveEdgesAfterPrepare_rows (kind : EdgeKind) (compute : UnresolvedEdgeRow → Selection) :
    (resolveEdgesAfterPrepare scope tables kind compute).edge.rows =
      tables.edge.rows.map fun edge =>
        resolveRow (tables.worklistRow kind scope edge) (·.edgeId) compute edge := by
  apply List.map_congr_left
  intro edge hedge
  exact applyResolutionUpdates_eq tables.edge compute
    (fun _ _ => Tables.edgeId_of_worklistRow) hedge

theorem resolveCalls_rows :
    (pass.resolveCalls prepared scope tables).edge.rows =
      tables.edge.rows.map (pass.callEdge prepared scope tables) := by
  unfold resolveCalls
  rw [resolveEdgesAfterPrepare_rows]
  have hprepared : (pass.resolveCallsPrepared scope tables).edge.rows =
      (tables.edge.rows.map (prepareSource scope .callEdge)).map
        (cleanupStaleCallResolution tables pass.flags scope) := rfl
  rw [hprepared, List.map_map, List.map_map]
  rfl

theorem resolveImports_rows :
    (pass.resolveImports prepared scope tables).edge.rows =
      tables.edge.rows.map (pass.importEdge prepared scope tables) := by
  unfold resolveImports
  rw [resolveEdgesAfterPrepare_rows]
  have hprepared : (updateEdges tables (prepareSource scope .importEdge)
      (prepareSource_id scope .importEdge)).edge.rows =
        tables.edge.rows.map (prepareSource scope .importEdge) := rfl
  rw [hprepared, List.map_map]
  rfl

theorem resolveOverrides_rows :
    (pass.resolveOverrides prepared scope tables).edge.rows =
      tables.edge.rows.map (pass.overrideEdge prepared scope tables) := by
  have hwritten : (pass.resolveOverrides prepared scope tables).edge.rows =
      (tables.edge.rows.map (prepareOverride scope)).map fun edge =>
        resolveRow (tables.overrideRow scope edge) (·.edgeId)
          (pass.computeOverrideResolution prepared) edge := by
    apply List.map_congr_left
    intro edge hedge
    exact applyResolutionUpdates_eq _ _ (fun _ _ => Tables.edgeId_of_overrideRow) hedge
  rw [hwritten, List.map_map]
  rfl

theorem resolveCalls_node : (pass.resolveCalls prepared scope tables).node = tables.node := rfl

theorem resolveImports_node : (pass.resolveImports prepared scope tables).node = tables.node := rfl

theorem importEdge_congr {tables other : Tables} (h : other.node = tables.node) :
    pass.importEdge prepared scope other = pass.importEdge prepared scope tables := by
  have hrow : other.worklistRow .importEdge scope = tables.worklistRow .importEdge scope := by
    funext edge
    unfold Tables.worklistRow Tables.unresolvedRow
    rw [h]
  unfold importEdge
  rw [hrow]

theorem overrideEdge_congr {tables other : Tables} (h : other.node = tables.node) :
    pass.overrideEdge prepared scope other = pass.overrideEdge prepared scope tables := by
  have hrow : other.overrideRow scope = tables.overrideRow scope := by
    funext edge
    unfold Tables.overrideRow
    rw [h]
  unfold overrideEdge
  rw [hrow]

/-- A run applies one function to each edge and writes nothing else. -/
theorem run_rows :
    (pass.run prepared scope tables).edge.rows =
      tables.edge.rows.map (pass.runEdge prepared scope tables) := by
  have himport := pass.importEdge_congr prepared scope
    (pass.resolveCalls_node prepared scope tables)
  have hoverride := pass.overrideEdge_congr prepared scope
    ((pass.resolveImports_node prepared scope (pass.resolveCalls prepared scope tables)).trans
      (pass.resolveCalls_node prepared scope tables))
  unfold run
  rw [resolveOverrides_rows, resolveImports_rows, resolveCalls_rows, himport, hoverride,
    List.map_map, List.map_map]
  apply List.map_congr_left
  intro edge _
  simp only [Function.comp_apply, runEdge]

theorem run_node : (pass.run prepared scope tables).node = tables.node := rfl

theorem run_file : (pass.run prepared scope tables).file = tables.file := rfl

theorem run_error : (pass.run prepared scope tables).error = tables.error := rfl

end ResolutionPass

/-! ## The cleanup of calls -/

section Cleanup
variable {tables : Tables} {flags : ResolutionFlags} {scope : ScopeCallerContext} {edge : Edge}

/-- The calls that the cleanup forgets. -/
def IsStale (tables : Tables) (flags : ResolutionFlags) (scope : ScopeCallerContext)
    (edge : Edge) : Prop :=
  edge.kind = .callEdge ∧ scope.covers edge = true ∧
    ((edge.confidence.any (· < flags.minCallConfidence) = true ∧
        tables.targetsFramework edge = false) ∨
      (edge.resolvedTarget ≠ none ∧ tables.targetsCommonName edge = true ∧
        (flags.legacyMode = true ∨ edge.certainty ≠ some .certain)))

theorem not_isStale_clear : ¬ IsStale tables flags scope (clearResolution edge) := by
  rintro ⟨-, -, ⟨hlow, -⟩ | ⟨hresolved, -⟩⟩
  · simp [clearResolution] at hlow
  · simp [clearResolution] at hresolved

theorem clearCommonName_clear :
    clearCommonName tables flags scope (clearResolution edge) = clearResolution edge := by
  unfold clearCommonName
  rw [if_neg]
  rintro ⟨-, hresolved, -⟩
  exact hresolved rfl

theorem cleanup_of_isStale (h : IsStale tables flags scope edge) :
    cleanupStaleCallResolution tables flags scope edge = clearResolution edge := by
  obtain ⟨hkind, hcovers, hwhy⟩ := h
  unfold cleanupStaleCallResolution clearLowConfidence
  split
  · exact clearCommonName_clear
  · rename_i hlow
    rcases hwhy with ⟨hconfidence, hframework⟩ | ⟨hresolved, hname, hmode⟩
    · exact absurd ⟨hkind, hconfidence, hframework, hcovers⟩ hlow
    · unfold clearCommonName
      rw [if_pos ⟨hkind, hresolved, hname, hmode, hcovers⟩]

theorem cleanup_of_not_isStale (h : ¬ IsStale tables flags scope edge) :
    cleanupStaleCallResolution tables flags scope edge = edge := by
  have hlow : clearLowConfidence tables flags scope edge = edge := by
    unfold clearLowConfidence
    rw [if_neg]
    rintro ⟨hkind, hconfidence, hframework, hcovers⟩
    exact h ⟨hkind, hcovers, .inl ⟨hconfidence, hframework⟩⟩
  unfold cleanupStaleCallResolution
  rw [hlow]
  unfold clearCommonName
  rw [if_neg]
  rintro ⟨hkind, hresolved, hname, hmode, hcovers⟩
  exact h ⟨hkind, hcovers, .inr ⟨hresolved, hname, hmode⟩⟩

theorem cleanup_erase :
    eraseResolution (cleanupStaleCallResolution tables flags scope edge) =
      eraseResolution edge := by
  by_cases h : IsStale tables flags scope edge
  · rw [cleanup_of_isStale h]
    rfl
  · rw [cleanup_of_not_isStale h]

theorem cleanup_idem :
    cleanupStaleCallResolution tables flags scope
        (cleanupStaleCallResolution tables flags scope edge) =
      cleanupStaleCallResolution tables flags scope edge := by
  by_cases h : IsStale tables flags scope edge
  · rw [cleanup_of_isStale h, cleanup_of_not_isStale not_isStale_clear]
  · rw [cleanup_of_not_isStale h, cleanup_of_not_isStale h]

end Cleanup

/-! ## Applying an update twice -/

section Update
variable {edge : Edge}

theorem applyUpdate_idem (update : ResolvedEdgeUpdate) :
    applyUpdate update (applyUpdate update edge) = applyUpdate update edge := by
  unfold applyUpdate
  cases update.candidatePayload <;> cases update.touchMetadata <;> simp

/-- Forgetting what an update wrote to an unresolved call and writing it again. -/
theorem applyUpdate_clear (update : ResolvedEdgeUpdate) (h : clearResolution edge = edge) :
    applyUpdate update (clearResolution (applyUpdate update edge)) = applyUpdate update edge := by
  rw [← h]
  unfold applyUpdate clearResolution
  cases update.candidatePayload <;> cases update.touchMetadata <;> simp

theorem applyUpdate_erase (update : ResolvedEdgeUpdate) :
    eraseResolution (applyUpdate update edge) = eraseResolution edge := rfl

theorem resolveRow_erase {ρ : Type u} (row : Option ρ) (edgeId : ρ → Int)
    (compute : ρ → Selection) :
    eraseResolution (resolveRow row edgeId compute edge) = eraseResolution edge := by
  cases row <;> rfl

theorem resolveRow_resolvedSource {ρ : Type u} (row : Option ρ) (edgeId : ρ → Int)
    (compute : ρ → Selection) :
    (resolveRow row edgeId compute edge).resolvedSource = edge.resolvedSource := by
  cases row <;> rfl

theorem clear_of_isUnresolved (h : isUnresolved .callEdge edge = true) :
    clearResolution edge = edge := by
  obtain ⟨hresolved, hrest⟩ := Bool.and_eq_true_iff.mp h
  have hmetadata : edge.confidence.isNone = true ∧ edge.certainty.isNone = true := by
    simpa using hrest
  cases edge
  simp_all [clearResolution]

/-- An update either leaves the edge unresolved or gives it a target. -/
theorem applyUpdate_isUnresolved {kind : EdgeKind} {edgeId : Int} {selection : Selection}
    (h : isUnresolved kind edge = true) (hselected : selection.selected = none) :
    isUnresolved kind (applyUpdate (buildResolvedEdgeUpdate edgeId selection) edge) = true := by
  unfold buildResolvedEdgeUpdate
  rw [hselected]
  exact h

theorem applyUpdate_not_isUnresolved {kind : EdgeKind} {edgeId : Int} {selection : Selection}
    (hselected : selection.selected ≠ none) :
    isUnresolved kind (applyUpdate (buildResolvedEdgeUpdate edgeId selection) edge) = false := by
  obtain ⟨choice, hchoice⟩ := Option.ne_none_iff_exists'.mp hselected
  unfold buildResolvedEdgeUpdate
  rw [hchoice]
  rfl

end Update

/-! ## Idempotence for one edge -/

section OfErase
variable {edge other : Edge} (h : eraseResolution edge = eraseResolution other)
include h

theorem id_of_erase : edge.id = other.id := by
  have hid := congrArg Edge.id h
  exact hid

theorem source_of_erase : edge.source = other.source := by
  have hsource := congrArg Edge.source h
  exact hsource

theorem target_of_erase : edge.target = other.target := by
  have htarget := congrArg Edge.target h
  exact htarget

theorem kind_of_erase : edge.kind = other.kind := by
  have hkind := congrArg Edge.kind h
  exact hkind

theorem covers_of_erase {scope : ScopeCallerContext} : scope.covers edge = scope.covers other := by
  have hsource := source_of_erase h
  cases scope <;> simp [ScopeCallerContext.covers, hsource]

end OfErase

theorem prepareSource_erase {scope : ScopeCallerContext} {kind : EdgeKind} {edge : Edge} :
    eraseResolution (prepareSource scope kind edge) = eraseResolution edge := by
  unfold prepareSource
  split <;> rfl

theorem prepareSource_again {scope : ScopeCallerContext} {kind : EdgeKind} {edge other : Edge}
    (herase : eraseResolution other = eraseResolution edge)
    (hsource : other.resolvedSource = (prepareSource scope kind edge).resolvedSource) :
    prepareSource scope kind other = other := by
  have hkind := kind_of_erase herase
  have hcovers : scope.covers other = scope.covers edge := covers_of_erase herase
  unfold prepareSource
  rw [if_neg]
  rintro ⟨hk, hnone, hc⟩
  rw [hnone] at hsource
  unfold prepareSource at hsource
  split at hsource
  · cases hsource
  · rename_i hnot
    exact hnot ⟨hkind ▸ hk, hsource.symm, hcovers ▸ hc⟩

namespace Tables
variable {tables : Tables}

theorem unresolvedRow_of_erase {edge other : Edge}
    (h : eraseResolution edge = eraseResolution other) :
    tables.unresolvedRow edge = tables.unresolvedRow other := by
  rw [← unresolvedRow_erase edge, h, unresolvedRow_erase]

theorem worklistRow_again {kind : EdgeKind} {scope : ScopeCallerContext} {edge other : Edge}
    {row : UnresolvedEdgeRow} (herase : eraseResolution other = eraseResolution edge)
    (hunresolved : isUnresolved kind other = true)
    (hrow : tables.worklistRow kind scope edge = some row) :
    tables.worklistRow kind scope other = some row := by
  unfold worklistRow at hrow ⊢
  split at hrow
  · rename_i hcond
    obtain ⟨hkind, -, hcovers⟩ := hcond
    have hcovers' : scope.covers other = true := (covers_of_erase herase).trans hcovers
    rw [if_pos ⟨(kind_of_erase herase).trans hkind, hunresolved, hcovers'⟩,
      unresolvedRow_of_erase herase]
    exact hrow
  · cases hrow

theorem isUnresolved_of_worklistRow {kind : EdgeKind} {scope : ScopeCallerContext} {edge : Edge}
    {row : UnresolvedEdgeRow} (h : tables.worklistRow kind scope edge = some row) :
    isUnresolved kind edge = true := by
  unfold worklistRow at h
  split at h
  · rename_i hcond
    exact hcond.2.1
  · cases h

theorem worklistRow_resolved {kind : EdgeKind} {scope : ScopeCallerContext} {edge : Edge}
    (h : isUnresolved kind edge = false) : tables.worklistRow kind scope edge = none := by
  unfold worklistRow
  rw [if_neg]
  rintro ⟨-, hunresolved, -⟩
  rw [h] at hunresolved
  cases hunresolved

/-- What has been computed is not computed to anything else. -/
theorem resolveRow_again {kind : EdgeKind} {scope : ScopeCallerContext} {edge : Edge}
    {row : UnresolvedEdgeRow} (compute : UnresolvedEdgeRow → Selection)
    (hrow : tables.worklistRow kind scope edge = some row) :
    let resolved := applyUpdate (buildResolvedEdgeUpdate row.edgeId (compute row)) edge
    resolveRow (tables.worklistRow kind scope resolved) (·.edgeId) compute resolved = resolved := by
  intro resolved
  by_cases hselected : (compute row).selected = none
  · have hunresolved : isUnresolved kind resolved = true :=
      applyUpdate_isUnresolved (isUnresolved_of_worklistRow hrow) hselected
    rw [worklistRow_again (applyUpdate_erase _) hunresolved hrow]
    exact applyUpdate_idem _
  · rw [worklistRow_resolved (applyUpdate_not_isUnresolved hselected)]
    rfl

theorem worklistRow_of_ne {kind : EdgeKind} {scope : ScopeCallerContext} {edge : Edge}
    (h : edge.kind ≠ kind) : tables.worklistRow kind scope edge = none := by
  unfold worklistRow
  rw [if_neg]
  exact fun hcond => h hcond.1

end Tables

namespace ResolutionPass
variable {P : Type u} (pass : ResolutionPass P) (prepared : P) (scope : ScopeCallerContext)
  (tables : Tables) (edge : Edge)

theorem callEdge_erase :
    eraseResolution (pass.callEdge prepared scope tables edge) = eraseResolution edge := by
  unfold callEdge
  rw [resolveRow_erase, cleanup_erase, prepareSource_erase]

theorem importEdge_erase :
    eraseResolution (pass.importEdge prepared scope tables edge) = eraseResolution edge := by
  unfold importEdge
  rw [resolveRow_erase, prepareSource_erase]

theorem callEdge_resolvedSource :
    (pass.callEdge prepared scope tables edge).resolvedSource =
      (prepareSource scope .callEdge edge).resolvedSource := by
  have hcleanup : ∀ other,
      (cleanupStaleCallResolution tables pass.flags scope other).resolvedSource =
        other.resolvedSource := by
    intro other
    by_cases h : IsStale tables pass.flags scope other
    · rw [cleanup_of_isStale h]
      rfl
    · rw [cleanup_of_not_isStale h]
  unfold callEdge
  rw [resolveRow_resolvedSource, hcleanup]

theorem callEdge_idem :
    pass.callEdge prepared scope tables (pass.callEdge prepared scope tables edge) =
      pass.callEdge prepared scope tables edge := by
  have hsource := prepareSource_again (pass.callEdge_erase prepared scope tables edge)
    (pass.callEdge_resolvedSource prepared scope tables edge)
  rw [callEdge.eq_1 pass prepared scope tables (pass.callEdge prepared scope tables edge), hsource]
  unfold callEdge
  generalize hclean :
    cleanupStaleCallResolution tables pass.flags scope (prepareSource scope .callEdge edge) =
      cleaned
  dsimp only
  have hagain : cleanupStaleCallResolution tables pass.flags scope cleaned = cleaned := by
    rw [← hclean, cleanup_idem]
  cases hrow : tables.worklistRow .callEdge scope cleaned with
  | none =>
    simp only [resolveRow, hagain, hrow]
  | some row =>
    simp only [resolveRow]
    generalize hresolved : applyUpdate
      (buildResolvedEdgeUpdate row.edgeId (pass.computeCallResolution prepared row)) cleaned =
        resolved
    by_cases hstale : IsStale tables pass.flags scope resolved
    · -- The result is forgotten, so the same row is computed again.
      rw [cleanup_of_isStale hstale]
      have hforgotten : tables.worklistRow .callEdge scope (clearResolution resolved) =
        some row := by
        refine Tables.worklistRow_again ?_ rfl hrow
        rw [← hresolved]
        rfl
      rw [hforgotten]
      have hcleared := clear_of_isUnresolved (Tables.isUnresolved_of_worklistRow hrow)
      rw [← hresolved]
      exact applyUpdate_clear _ hcleared
    · rw [cleanup_of_not_isStale hstale, ← hresolved]
      exact Tables.resolveRow_again _ hrow

theorem importEdge_idem :
    pass.importEdge prepared scope tables (pass.importEdge prepared scope tables edge) =
      pass.importEdge prepared scope tables edge := by
  have hsource : prepareSource scope .importEdge (pass.importEdge prepared scope tables edge) =
      pass.importEdge prepared scope tables edge := by
    apply prepareSource_again (pass.importEdge_erase prepared scope tables edge)
    unfold importEdge
    rw [resolveRow_resolvedSource]
  rw [importEdge.eq_1 pass prepared scope tables (pass.importEdge prepared scope tables edge),
    hsource]
  unfold importEdge
  generalize prepareSource scope .importEdge edge = started
  dsimp only
  cases hrow : tables.worklistRow .importEdge scope started with
  | none => simp only [resolveRow, hrow]
  | some row => exact Tables.resolveRow_again _ hrow

theorem overrideEdge_of_not (h : ¬ (edge.kind = .overrideEdge ∧ scope.covers edge = true)) :
    pass.overrideEdge prepared scope tables edge = edge := by
  have hprepare : prepareOverride scope edge = edge := by
    unfold prepareOverride
    rw [if_neg h]
  have hrow : tables.overrideRow scope edge = none := by
    unfold Tables.overrideRow
    rw [if_neg]
    exact fun hcond => h ⟨hcond.1, hcond.2.2⟩
  unfold overrideEdge
  simp only [hprepare, hrow, resolveRow]

theorem overrideEdge_erase :
    eraseResolution (pass.overrideEdge prepared scope tables edge) = eraseResolution edge := by
  have hprepare : eraseResolution (prepareOverride scope edge) = eraseResolution edge := by
    unfold prepareOverride
    split <;> rfl
  unfold overrideEdge
  rw [resolveRow_erase, hprepare]

theorem overrideEdge_idem :
    pass.overrideEdge prepared scope tables (pass.overrideEdge prepared scope tables edge) =
      pass.overrideEdge prepared scope tables edge := by
  by_cases h : edge.kind = .overrideEdge ∧ scope.covers edge = true
  · have herase := pass.overrideEdge_erase prepared scope tables edge
    have hcond : (pass.overrideEdge prepared scope tables edge).kind = .overrideEdge ∧
        scope.covers (pass.overrideEdge prepared scope tables edge) = true :=
      ⟨(kind_of_erase herase).trans h.1, (covers_of_erase herase).trans h.2⟩
    -- Preparing overwrites all that a run wrote.
    have hprepare : prepareOverride scope (pass.overrideEdge prepared scope tables edge) =
        prepareOverride scope edge := by
      unfold prepareOverride
      rw [if_pos hcond, if_pos h]
      generalize pass.overrideEdge prepared scope tables edge = written at herase
      cases written
      cases edge
      simp_all [eraseResolution]
    rw [overrideEdge.eq_1 pass prepared scope tables (pass.overrideEdge prepared scope tables edge),
      hprepare]
    rfl
  · rw [overrideEdge_of_not pass prepared scope tables edge h,
      overrideEdge_of_not pass prepared scope tables edge h]

theorem callEdge_of_ne (h : edge.kind ≠ .callEdge) :
    pass.callEdge prepared scope tables edge = edge := by
  have hsource : prepareSource scope .callEdge edge = edge := by
    unfold prepareSource
    rw [if_neg fun hcond => h hcond.1]
  have hclean := cleanup_of_not_isStale (fun hstale : IsStale tables pass.flags scope edge =>
    h hstale.1)
  unfold callEdge
  simp only [hsource, hclean, Tables.worklistRow_of_ne h, resolveRow]

theorem importEdge_of_ne (h : edge.kind ≠ .importEdge) :
    pass.importEdge prepared scope tables edge = edge := by
  have hsource : prepareSource scope .importEdge edge = edge := by
    unfold prepareSource
    rw [if_neg fun hcond => h hcond.1]
  unfold importEdge
  simp only [hsource, Tables.worklistRow_of_ne h, resolveRow]

/-- The three parts of a run touch edges of three kinds. -/
theorem runEdge_idem :
    pass.runEdge prepared scope tables (pass.runEdge prepared scope tables edge) =
      pass.runEdge prepared scope tables edge := by
  have hcall := kind_of_erase (pass.callEdge_erase prepared scope tables edge)
  have himport := kind_of_erase (pass.importEdge_erase prepared scope tables edge)
  have hover := kind_of_erase (pass.overrideEdge_erase prepared scope tables edge)
  unfold runEdge
  by_cases hc : edge.kind = .callEdge
  · have hi : (pass.callEdge prepared scope tables edge).kind ≠ .importEdge := by simp [hcall, hc]
    have ho : (pass.callEdge prepared scope tables edge).kind ≠ .overrideEdge := by simp [hcall, hc]
    simp only [importEdge_of_ne pass prepared scope tables _ hi,
      overrideEdge_of_not pass prepared scope tables _ (fun h => ho h.1), callEdge_idem]
  · rw [callEdge_of_ne pass prepared scope tables edge hc]
    by_cases hi : edge.kind = .importEdge
    · have hc' : (pass.importEdge prepared scope tables edge).kind ≠ .callEdge := by
        simp [himport, hi]
      have ho : (pass.importEdge prepared scope tables edge).kind ≠ .overrideEdge := by
        simp [himport, hi]
      simp only [callEdge_of_ne pass prepared scope tables _ hc',
        overrideEdge_of_not pass prepared scope tables _ (fun h => ho h.1), importEdge_idem]
    · rw [importEdge_of_ne pass prepared scope tables edge hi]
      have hc' : (pass.overrideEdge prepared scope tables edge).kind ≠ .callEdge := by
        rw [hover]
        exact hc
      have hi' : (pass.overrideEdge prepared scope tables edge).kind ≠ .importEdge := by
        rw [hover]
        exact hi
      rw [callEdge_of_ne pass prepared scope tables _ hc',
        importEdge_of_ne pass prepared scope tables _ hi', overrideEdge_idem]

end ResolutionPass

/-! ## Whole runs -/

/-- The tables without what a run may write. Inheritance edges keep their resolved targets,
which no run writes and overrides are computed from. -/
def Tables.unresolved (tables : Tables) : Tables :=
  { tables with
    edge := tables.edge.update
      (fun edge =>
        if edge.kind = .callEdge ∨ edge.kind = .importEdge ∨ edge.kind = .overrideEdge then
          eraseResolution edge
        else edge)
      (by
        intro edge
        split <;> rfl) }

/-- The foreign keys of the edge table. -/
def Tables.EndpointsExist (tables : Tables) : Prop :=
  ∀ edge ∈ tables.edge.rows, edge.source ∈ tables.node.keys ∧ edge.target ∈ tables.node.keys

namespace ResolutionPass
variable {P : Type u} (pass : ResolutionPass P)

/-- A run that prepares its state from the columns it does not write. -/
def runFrom (prepare : Tables → P) (scope : ScopeCallerContext) (tables : Tables) : Tables :=
  pass.run (prepare tables.unresolved) scope tables

theorem runEdge_of_other (prepared : P) (scope : ScopeCallerContext) (tables : Tables)
    {edge : Edge} (hcall : edge.kind ≠ .callEdge) (himport : edge.kind ≠ .importEdge)
    (hoverride : edge.kind ≠ .overrideEdge) : pass.runEdge prepared scope tables edge = edge := by
  unfold runEdge
  rw [callEdge_of_ne pass prepared scope tables edge hcall,
    importEdge_of_ne pass prepared scope tables edge himport,
    overrideEdge_of_not pass prepared scope tables edge fun h => hoverride h.1]

theorem runEdge_erase (prepared : P) (scope : ScopeCallerContext) (tables : Tables) (edge : Edge) :
    eraseResolution (pass.runEdge prepared scope tables edge) = eraseResolution edge := by
  unfold runEdge
  rw [overrideEdge_erase, importEdge_erase, callEdge_erase]

/-- No run changes what the next one prepares its state from. -/
theorem run_unresolved (prepared : P) (scope : ScopeCallerContext) (tables : Tables) :
    (pass.run prepared scope tables).unresolved = tables.unresolved := by
  have hrows : (pass.run prepared scope tables).unresolved.edge = tables.unresolved.edge := by
    apply KeyedTable.ext
    have hrun := pass.run_rows prepared scope tables
    unfold Tables.unresolved KeyedTable.update
    dsimp only
    rw [hrun, List.map_map]
    apply List.map_congr_left
    intro edge _
    have herase := pass.runEdge_erase prepared scope tables edge
    have hkind := kind_of_erase herase
    rw [Function.comp_apply, hkind]
    split
    · exact herase
    · rename_i hother
      simp only [not_or] at hother
      exact pass.runEdge_of_other prepared scope tables hother.1 hother.2.1 hother.2.2
  exact Tables.ext rfl hrows rfl rfl

theorem runEdge_congr (prepared : P) (scope : ScopeCallerContext) {tables other : Tables}
    (h : other.node = tables.node) :
    pass.runEdge prepared scope other = pass.runEdge prepared scope tables := by
  have hcall : pass.callEdge prepared scope other = pass.callEdge prepared scope tables := by
    funext edge
    unfold callEdge cleanupStaleCallResolution clearCommonName clearLowConfidence
      Tables.targetsFramework Tables.targetsCommonName Tables.worklistRow Tables.unresolvedRow
    rw [h]
  funext edge
  unfold runEdge
  rw [hcall, pass.importEdge_congr prepared scope h, pass.overrideEdge_congr prepared scope h]

theorem run_run (prepared : P) (scope : ScopeCallerContext) (tables : Tables) :
    pass.run prepared scope (pass.run prepared scope tables) = pass.run prepared scope tables := by
  have hedge : (pass.run prepared scope (pass.run prepared scope tables)).edge =
      (pass.run prepared scope tables).edge := by
    apply KeyedTable.ext
    rw [run_rows, runEdge_congr pass prepared scope (pass.run_node prepared scope tables), run_rows,
      List.map_map]
    apply List.map_congr_left
    intro edge _
    rw [Function.comp_apply]
    exact pass.runEdge_idem prepared scope tables edge
  exact Tables.ext (pass.run_node prepared scope _) hedge (pass.run_file prepared scope _)
    (pass.run_error prepared scope _)

theorem runFrom_runFrom (prepare : Tables → P) (scope : ScopeCallerContext) (tables : Tables) :
    pass.runFrom prepare scope (pass.runFrom prepare scope tables) =
      pass.runFrom prepare scope tables := by
  unfold runFrom
  rw [run_unresolved]
  exact pass.run_run _ scope tables

end ResolutionPass

/-! ## Forgotten calls are reconsidered -/

/-- A resolved call to a framework node whose name is a common one: the second cleanup forgets
it, the worklist leaves it out. -/
def Tables.losesFrameworkCall (tables : Tables) (flags : ResolutionFlags) (edge : Edge) : Bool :=
  edge.kind = .callEdge && edge.resolvedTarget ≠ none && tables.targetsFramework edge &&
    tables.targetsCommonName edge && (flags.legacyMode || edge.certainty ≠ some .certain)

theorem Tables.unresolvedRow_isSome_iff {tables : Tables} {edge : Edge}
    (hsource : edge.source ∈ tables.node.keys) (htarget : edge.target ∈ tables.node.keys) :
    (∃ row, tables.unresolvedRow edge = some row) ↔ tables.targetsFramework edge = false := by
  obtain ⟨caller, hcaller⟩ := KeyedTable.mem_keys_iff.mp hsource
  obtain ⟨target, htarget⟩ := KeyedTable.mem_keys_iff.mp htarget
  unfold unresolvedRow targetsFramework
  rw [hcaller, htarget]
  cases hframework : hasFrameworkCanonicalId target <;> simp [hframework]

namespace ResolutionPass
variable {P : Type u} {pass : ResolutionPass P} {tables : Tables} {edge : Edge}

/-- Every call that had a resolved target and has none after the cleanup is in the worklist of
the same run. -/
def Reconsiders (pass : ResolutionPass P) (tables : Tables) : Prop :=
  ∀ edge ∈ tables.edge.rows, edge.kind = .callEdge → edge.resolvedTarget ≠ none →
    ∀ cleaned, (pass.resolveCallsPrepared .unscoped tables).edge.lookup edge.id = some cleaned →
      cleaned.resolvedTarget = none →
        edge.id ∈ ((pass.resolveCallsPrepared .unscoped tables).unresolvedEdges .callEdge
          .unscoped).map (·.edgeId)

theorem lookup_resolveCallsPrepared (pass : ResolutionPass P) (hedge : edge ∈ tables.edge.rows) :
    (pass.resolveCallsPrepared .unscoped tables).edge.lookup edge.id =
      some (cleanupStaleCallResolution tables pass.flags .unscoped
        (prepareSource .unscoped .callEdge edge)) := by
  have hrow := KeyedTable.lookup_eq_some_iff.mpr ⟨hedge, rfl⟩
  have hcleanup : (pass.resolveCallsPrepared .unscoped tables).edge.lookup edge.id =
      ((tables.edge.lookup edge.id).map (prepareSource .unscoped .callEdge)).map
        (cleanupStaleCallResolution tables pass.flags .unscoped) := by
    rw [← KeyedTable.lookup_update _ _ (prepareSource_id .unscoped .callEdge),
      ← KeyedTable.lookup_update _ _ (cleanupStaleCallResolution_id tables pass.flags .unscoped)]
    rfl
  rw [hcleanup, hrow]
  rfl

theorem mem_worklist_iff (hedge : edge ∈ tables.edge.rows)
    (hsource : edge.source ∈ tables.node.keys) (htarget : edge.target ∈ tables.node.keys)
    (hstale : IsStale tables pass.flags .unscoped (prepareSource .unscoped .callEdge edge)) :
    edge.id ∈ ((pass.resolveCallsPrepared .unscoped tables).unresolvedEdges .callEdge
        .unscoped).map (·.edgeId) ↔ tables.targetsFramework edge = false := by
  have hcleaned := lookup_resolveCallsPrepared pass hedge
  rw [cleanup_of_isStale hstale] at hcleaned
  have hkind : edge.kind = .callEdge := (kind_of_erase prepareSource_erase).symm.trans hstale.1
  have herase : eraseResolution (clearResolution (prepareSource .unscoped .callEdge edge)) =
      eraseResolution edge := prepareSource_erase
  -- The row of the forgotten call depends on its target only.
  have hrow : tables.worklistRow .callEdge .unscoped
      (clearResolution (prepareSource .unscoped .callEdge edge)) = tables.unresolvedRow edge := by
    unfold Tables.worklistRow
    rw [if_pos ⟨(kind_of_erase herase).trans hkind, rfl, rfl⟩,
      Tables.unresolvedRow_of_erase herase]
  rw [← Tables.unresolvedRow_isSome_iff hsource htarget]
  obtain ⟨hmem, -⟩ := KeyedTable.lookup_eq_some_iff.mp hcleaned
  constructor
  · intro hid
    obtain ⟨row, hrows, hrowid⟩ := List.mem_map.mp hid
    obtain ⟨other, hother, hotherrow⟩ := List.mem_filterMap.mp hrows
    have hsame : other.id = edge.id := (Tables.edgeId_of_worklistRow hotherrow).symm.trans hrowid
    have hfound := KeyedTable.lookup_eq_some_iff.mpr ⟨hother, hsame⟩
    obtain rfl := Option.some.inj (hfound.symm.trans hcleaned)
    exact ⟨row, hrow.symm.trans hotherrow⟩
  · rintro ⟨row, hunresolved⟩
    refine List.mem_map.mpr ⟨row, ?_, Tables.edgeId_of_unresolvedRow hunresolved⟩
    exact List.mem_filterMap.mpr ⟨_, hmem, hrow.trans hunresolved⟩

theorem isStale_prepareSource :
    IsStale tables pass.flags .unscoped (prepareSource .unscoped .callEdge edge) ↔
      IsStale tables pass.flags .unscoped edge := by
  unfold prepareSource
  split
  · exact Iff.rfl
  · exact Iff.rfl

theorem losesFrameworkCall_iff :
    tables.losesFrameworkCall pass.flags edge = true ↔
      edge.resolvedTarget ≠ none ∧ tables.targetsFramework edge = true ∧
        IsStale tables pass.flags .unscoped edge := by
  unfold Tables.losesFrameworkCall IsStale
  simp only [Bool.and_eq_true, Bool.or_eq_true, decide_eq_true_iff]
  constructor
  · rintro ⟨⟨⟨⟨hkind, hresolved⟩, hframework⟩, hname⟩, hmode⟩
    exact ⟨hresolved, hframework, hkind, rfl, .inr ⟨hresolved, hname, hmode⟩⟩
  · rintro ⟨hresolved, hframework, hkind, -, ⟨-, hother⟩ | ⟨-, hname, hmode⟩⟩
    · rw [hframework] at hother
      cases hother
    · exact ⟨⟨⟨⟨hkind, hresolved⟩, hframework⟩, hname⟩, hmode⟩

theorem reconsiders_iff (hkeys : tables.EndpointsExist) :
    pass.Reconsiders tables ↔
      ∀ edge ∈ tables.edge.rows, tables.losesFrameworkCall pass.flags edge = false := by
  constructor
  · intro hall edge hedge
    apply Bool.eq_false_iff.mpr
    intro hloses
    obtain ⟨hresolved, hframework, hstale⟩ := losesFrameworkCall_iff.mp hloses
    have hstale' := isStale_prepareSource.mpr hstale
    have hcleaned := lookup_resolveCallsPrepared pass hedge
    rw [cleanup_of_isStale hstale'] at hcleaned
    have hmem := hall edge hedge hstale.1 hresolved _ hcleaned rfl
    have hother := (mem_worklist_iff hedge (hkeys edge hedge).1 (hkeys edge hedge).2
      hstale').mp hmem
    rw [hframework] at hother
    cases hother
  · intro hnone edge hedge _ hresolved cleaned hcleaned hforgotten
    rw [lookup_resolveCallsPrepared pass hedge] at hcleaned
    obtain rfl := Option.some.inj hcleaned
    by_cases hstale : IsStale tables pass.flags .unscoped edge
    · apply (mem_worklist_iff hedge (hkeys edge hedge).1 (hkeys edge hedge).2
        (isStale_prepareSource.mpr hstale)).mpr
      apply Bool.eq_false_iff.mpr
      intro hframework
      have hloses := losesFrameworkCall_iff.mpr ⟨hresolved, hframework, hstale⟩
      rw [hnone edge hedge] at hloses
      cases hloses
    · rw [cleanup_of_not_isStale (fun h => hstale (isStale_prepareSource.mp h))] at hforgotten
      have hkept : (prepareSource .unscoped .callEdge edge).resolvedTarget =
        edge.resolvedTarget := by
        unfold prepareSource
        split <;> rfl
      exact absurd (hkept.symm.trans hforgotten) hresolved

/-- For every pass, whatever it computes its targets from, and for all tables that satisfy the
foreign keys: two unscoped runs are one, and no forgotten call stays out of the worklist,
exactly if no resolved call to a framework node of a common name is there to be forgotten. -/
theorem runs_once_and_reconsiders_iff (pass : ResolutionPass P) (prepare : Tables → P)
    (tables : Tables) (hkeys : tables.EndpointsExist) :
    (pass.runFrom prepare .unscoped (pass.runFrom prepare .unscoped tables) =
        pass.runFrom prepare .unscoped tables ∧ pass.Reconsiders tables) ↔
      ∀ edge ∈ tables.edge.rows, tables.losesFrameworkCall pass.flags edge = false := by
  rw [and_iff_right (pass.runFrom_runFrom prepare .unscoped tables)]
  exact reconsiders_iff hkeys

section Inputs

/-- A caller, and a target called `clone` with the given canonical id. -/
def cloneTables (canonicalId : Option String) : Tables where
  node := KeyedTable.empty.upsertAll
    [plainNode 1 .functionNode "main",
      { plainNode 2 .functionNode "clone" with canonicalId := canonicalId }]
  edge := KeyedTable.empty.insertAll
    [⟨10, 1, 2, .callEdge, none, some 7, some 1, some 2, some (5 / 8), none, some .probable, none⟩]
  file := .empty
  error := []

/-- A pass that finds no target. -/
def idlePass : ResolutionPass Unit where
  flags := ⟨false, true, false⟩
  computeCallResolution _ _ := ⟨none, []⟩
  computeImportResolution _ _ := ⟨none, []⟩
  computeOverrideResolution _ _ := ⟨none, []⟩

theorem plain_clone_is_reconsidered :
    (cloneTables none).EndpointsExist ∧
      idlePass.runFrom (fun _ => ()) .unscoped
          (idlePass.runFrom (fun _ => ()) .unscoped (cloneTables none)) =
        idlePass.runFrom (fun _ => ()) .unscoped (cloneTables none) ∧
      idlePass.Reconsiders (cloneTables none) := by
  have hkeys : (cloneTables none).EndpointsExist := by
    unfold Tables.EndpointsExist
    decide
  refine ⟨hkeys, (runs_once_and_reconsiders_iff idlePass (fun _ => ()) _ hkeys).mpr ?_⟩
  decide

/-- The resolved call to a command called `clone` loses its target and is not looked at. -/
theorem framework_clone_is_lost :
    let tables := cloneTables (some "tauri:command:clone")
    let cleaned := idlePass.resolveCallsPrepared .unscoped tables
    (tables.edge.lookup 10).map (·.resolvedTarget) = some (some 2) ∧
      (cleaned.edge.lookup 10).map (·.resolvedTarget) = some none ∧
      (cleaned.unresolvedEdges .callEdge .unscoped).map (·.edgeId) = [] := by
  decide +kernel

end Inputs

end ResolutionPass

end CodeStory.Graph
