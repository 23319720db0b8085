import CodeStory.Graph.Trail
import CodeStory.Lib.Selection
import CodeStory.Lib.SinglePrecision
import CodeStory.Lib.Tally

/-!
# Edge digests

For each node the number of its edges of each kind. Hydrating the detail snapshot computes the
numbers for every node of the grounding node snapshot in one SQL statement; without a ready
snapshot they are counted from the rows of the edge table. Both leave out the resolution of a
call that is too weak, and the rule for that is written twice, in SQL and in the host language.

The label of a stored certainty is written by the store only, so a row holds one of the three.
A stored confidence is a single-precision number; the statement compares it with the double
that its literal denotes. The counter of the scan is a 32-bit one and its increment is checked.
-/

set_option autoImplicit false

namespace CodeStory.Graph

universe u

open Tally (Counters)
open SinglePrecision (IsSingle)
open Tables (u32Max)

/-- The number a kind is stored as. -/
def EdgeKind.discriminant : EdgeKind → Nat
  | .memberEdge => 0
  | .typeUsageEdge => 1
  | .usageEdge => 2
  | .callEdge => 3
  | .inheritanceEdge => 4
  | .overrideEdge => 5
  | .typeArgumentEdge => 6
  | .templateSpecializationEdge => 7
  | .includeEdge => 8
  | .importEdge => 9
  | .macroUsageEdge => 10
  | .annotationUsageEdge => 11
  | .unknownEdge => 12

theorem EdgeKind.discriminant_injective : Function.Injective EdgeKind.discriminant := by
  intro a b h
  cases a <;> cases b <;> first | rfl | cases h

structure GroundingEdgeKindCount where
  nodeId : Int
  kind : EdgeKind
  count : Nat
deriving DecidableEq

namespace GroundingEdgeKindCount

def ofRow (row : (Int × EdgeKind) × Nat) : GroundingEdgeKindCount := ⟨row.1.1, row.1.2, row.2⟩

def order (left right : GroundingEdgeKindCount) : Ordering :=
  (compare left.nodeId right.nodeId).then
    (compare left.kind.discriminant right.kind.discriminant)

/-- Rows in the order both paths return them in. -/
def ordered (rows : List ((Int × EdgeKind) × Nat)) : List GroundingEdgeKindCount :=
  Selection.sortBy order (rows.map ofRow)

end GroundingEdgeKindCount

/-! ## The statement -/

namespace DigestSql

/-- The double that the literal `0.85` denotes. -/
def certainMin : Rat := 7656119366529843 / 9007199254740992

/-- The double that the literal `0.55` denotes. -/
def probableMin : Rat := 4953959590107546 / 9007199254740992

/-- The `CASE` over a confidence that is not `NULL`. -/
def fromConfidence (confidence : Rat) : ResolutionCertainty :=
  if confidence ≥ certainMin then .certain
  else if confidence ≥ probableMin then .probable
  else .uncertain

/-- `COALESCE(e.certainty, CASE .. END)`. -/
def certainty (edge : Edge) : Option ResolutionCertainty :=
  edge.certainty.or (edge.confidence.map fromConfidence)

def likeHelper (name : String) : Bool :=
  SqlText.like "%seed_symbol_table%" name || SqlText.like "%flush_projection_batch%" name ||
    SqlText.like "%flush_errors%" name

/-- The inner `CASE`. A comparison with `NULL` is not true. -/
def ignoresCallResolution (name : String) (edge : Edge) : Bool :=
  if likeHelper name then false
  else if certainty edge = some .uncertain then true
  else if !SqlText.contains name "::" && !SqlText.contains name "." &&
      utilityCallNames.contains name && (certainty edge).any (· ≠ .certain) then true
  else false

def effectiveTarget (name : String) (edge : Edge) : Int :=
  if edge.kind = .callEdge && ignoresCallResolution name edge then edge.target
  else edge.resolvedTarget.getD edge.target

structure EffectiveEdge where
  source : Int
  target : Int
  kind : EdgeKind

/-- `UNION ALL` of the sources and of the targets that are not the source. -/
def perEndpoint (edges : List EffectiveEdge) : List (Int × EdgeKind) :=
  edges.map (fun edge => (edge.source, edge.kind)) ++
    (edges.filter fun edge => edge.target ≠ edge.source).map fun edge => (edge.target, edge.kind)

end DigestSql

namespace Storage
variable {β : Type u} (s : Storage β)

/-- `edge JOIN node`: a row with the name of its target. -/
def joinTarget (row : Edge) : Option (Edge × String) :=
  (s.node.lookup row.target).map fun target => (row, target.serializedName)

def joinedEdges : List (Edge × String) := s.edge.rows.filterMap s.joinTarget

def edgeEffective : List DigestSql.EffectiveEdge :=
  s.joinedEdges.map fun row =>
    ⟨row.1.resolvedSource.getD row.1.source, DigestSql.effectiveTarget row.2 row.1, row.1.kind⟩

/-- The digest table after hydration. An id is the key of the node snapshot, so joining with it
selects. -/
def edgeDigestSnapshot (snapshotNodes : List Int) : Counters (Int × EdgeKind) :=
  Tally.group ((DigestSql.perEndpoint s.edgeEffective).filter (·.1 ∈ snapshotNodes))

end Storage

/-- `SELECT .. WHERE node_id IN (..) ORDER BY node_id, kind` on the digest table. -/
def selectEdgeDigest (digest : Counters (Int × EdgeKind)) (nodeIds : List Int) :
    List GroundingEdgeKindCount :=
  GroundingEdgeKindCount.ordered (digest.rows.filter (·.1.1 ∈ nodeIds))

/-! ## The scan -/

/-- The condition of the query. -/
def rowMentions (nodeIds : List Int) (row : Edge) : Bool :=
  row.source ∈ nodeIds || row.target ∈ nodeIds || row.resolvedSource.any (· ∈ nodeIds) ||
    row.resolvedTarget.any (· ∈ nodeIds)

/-- The loop's body: the counters of the endpoints that were asked for. -/
def countEdge (nodeIds : List Int) (counts : Counters (Int × EdgeKind)) (row : Edge × String) :
    Option (Counters (Int × EdgeKind)) := do
  let edge := dropIgnoredResolution row.2 row.1
  let source := edge.effectiveSource
  let target := edge.effectiveTarget
  let counts ← if source ∈ nodeIds then Tally.bump u32Max counts (source, edge.kind)
    else some counts
  if target ≠ source ∧ target ∈ nodeIds then Tally.bump u32Max counts (target, edge.kind)
  else some counts

namespace Storage
variable {β : Type u} (s : Storage β)

/-- `get_grounding_edge_digest_counts` where no snapshot is ready; `none`
when a counter overflows. -/
def scanEdgeDigestCounts (nodeIds : List Int) : Option (List GroundingEdgeKindCount) :=
  ((((s.edgesById.filter (rowMentions nodeIds)).filterMap s.joinTarget).foldlM
    (countEdge nodeIds) .empty).map fun counts =>
      GroundingEdgeKindCount.ordered counts.rows)

end Storage

/-! ## The rule, twice -/

/-- The certainty of a call as both versions of the rule see it. -/
def Edge.derivedCertainty (edge : Edge) : Option ResolutionCertainty :=
  edge.certainty.or (edge.confidence.map .fromConfidence)

/-- A weak call of a name that is like the name of a helper and does not contain one. The
statement keeps its resolution, the scan drops it. -/
def isLookalikeCall (row : Edge × String) : Bool :=
  row.1.kind = .callEdge && row.1.resolvedTarget.isSome && DigestSql.likeHelper row.2 &&
    !isIndexerHelperCall row.2 && row.1.derivedCertainty = some .uncertain

/-- Every confidence of the row is a single-precision number. -/
def Edge.HasSingleConfidence (edge : Edge) : Prop :=
  ∀ confidence, edge.confidence = some confidence → IsSingle confidence

namespace DigestSql

theorem fromConfidence_eq {confidence : Rat} (h : IsSingle confidence) :
    fromConfidence confidence = .fromConfidence confidence := by
  have hcertain : confidence ≥ certainMin ↔ confidence ≥ ResolutionCertainty.certainMin := by
    have hle := @IsSingle.le_iff _ h certainMin 14260634 (by norm_num [certainMin])
      (by norm_num [certainMin]) (by norm_num [certainMin])
    norm_num at hle
    norm_num [ResolutionCertainty.certainMin]
    exact hle
  have hprobable : confidence ≥ probableMin ↔ confidence ≥ ResolutionCertainty.probableMin := by
    have hle := @IsSingle.le_iff _ h probableMin 9227469 (by norm_num [probableMin])
      (by norm_num [probableMin]) (by norm_num [probableMin])
    norm_num at hle
    norm_num [ResolutionCertainty.probableMin]
    exact hle
  unfold fromConfidence ResolutionCertainty.fromConfidence
  simp only [hcertain, hprobable]

theorem certainty_eq {edge : Edge} (h : edge.HasSingleConfidence) :
    certainty edge = edge.derivedCertainty := by
  unfold certainty Edge.derivedCertainty
  cases hconfidence : edge.confidence with
  | none => rw [Option.map_none, Option.map_none]
  | some confidence =>
    rw [Option.map_some, Option.map_some, fromConfidence_eq (h confidence hconfidence)]

theorem likeHelper_of_isIndexerHelperCall {name : String} (h : isIndexerHelperCall name = true) :
    likeHelper name = true := by
  unfold isIndexerHelperCall at h
  unfold likeHelper
  rw [Bool.or_eq_true, Bool.or_eq_true] at h ⊢
  rcases h with (h | h) | h
  · exact .inl (.inl (SqlText.like_of_contains (by decide) (by decide +kernel) h))
  · exact .inl (.inr (SqlText.like_of_contains (by decide) (by decide) h))
  · exact .inr (SqlText.like_of_contains (by decide) (by decide) h)

/-- No common name is like the name of a helper. -/
theorem likeHelper_of_isUtilityCallName {name : String} (h : isUtilityCallName name = true) :
    likeHelper name = false := by
  have hall : ∀ name ∈ utilityCallNames, likeHelper name = false := by decide
  unfold isUtilityCallName at h
  split at h
  · cases h
  · exact hall name (List.contains_iff_mem.mp h)

theorem shouldIgnoreCallResolution_of_not_helper {name : String}
    (h : isIndexerHelperCall name = false) (edge : Edge) :
    shouldIgnoreCallResolution name edge.certainty edge.confidence =
      (decide (edge.derivedCertainty = some .uncertain) ||
        isUtilityCallName name && edge.derivedCertainty.any (· ≠ .certain)) := by
  have hcertainty : edge.certainty.or (edge.confidence.map .fromConfidence) =
      edge.derivedCertainty := rfl
  unfold shouldIgnoreCallResolution
  rw [h, if_neg Bool.false_ne_true, hcertainty]
  cases edge.derivedCertainty with
  | none => simp
  | some certainty => cases certainty <;> simp

theorem ignoresCallResolution_eq {edge : Edge} (h : edge.HasSingleConfidence) (name : String) :
    ignoresCallResolution name edge =
      (!likeHelper name && shouldIgnoreCallResolution name edge.certainty edge.confidence) := by
  cases hlike : likeHelper name with
  | true =>
    unfold ignoresCallResolution
    rw [if_pos hlike]
    rfl
  | false =>
    have hhelper : isIndexerHelperCall name = false := by
      cases hhelper : isIndexerHelperCall name with
      | false => rfl
      | true => rw [likeHelper_of_isIndexerHelperCall hhelper] at hlike; cases hlike
    have hname : (!SqlText.contains name "::" && !SqlText.contains name "." &&
        utilityCallNames.contains name) = isUtilityCallName name := by
      unfold isUtilityCallName
      cases SqlText.contains name "::" <;> cases SqlText.contains name "." <;> rfl
    rw [shouldIgnoreCallResolution_of_not_helper hhelper]
    unfold ignoresCallResolution
    rw [hlike, hname, certainty_eq h, if_neg Bool.false_ne_true]
    by_cases hweak : edge.derivedCertainty = some .uncertain <;> simp [hweak]

/-- Of a name that is like a helper's, only weak calls are ignored. -/
theorem shouldIgnoreCallResolution_of_like {name : String} (h : likeHelper name = true)
    (edge : Edge) :
    shouldIgnoreCallResolution name edge.certainty edge.confidence =
      (!isIndexerHelperCall name && edge.derivedCertainty = some .uncertain) := by
  cases hhelper : isIndexerHelperCall name with
  | true =>
    unfold shouldIgnoreCallResolution
    rw [hhelper, if_pos rfl]
    rfl
  | false =>
    have hutility : isUtilityCallName name = false := by
      cases hutility : isUtilityCallName name with
      | false => rfl
      | true => rw [likeHelper_of_isUtilityCallName hutility] at h; cases h
    rw [shouldIgnoreCallResolution_of_not_helper hhelper, hutility]
    simp

variable {row : Edge × String}

/-- The two rules give an edge the same target, unless it is a call of a lookalike. -/
theorem effectiveTarget_of_not_lookalike (h : row.1.HasSingleConfidence)
    (hrow : isLookalikeCall row = false) :
    effectiveTarget row.2 row.1 = (dropIgnoredResolution row.2 row.1).effectiveTarget := by
  obtain ⟨edge, name⟩ := row
  unfold effectiveTarget dropIgnoredResolution Edge.effectiveTarget
  rw [ignoresCallResolution_eq h]
  by_cases hcall : edge.kind = .callEdge
  · cases hresolved : edge.resolvedTarget with
    | none => simp [hresolved]
    | some resolved =>
      cases hlike : likeHelper name with
      | false =>
        cases shouldIgnoreCallResolution name edge.certainty edge.confidence <;>
          simp [hcall, hresolved]
      | true =>
        have hkeep : shouldIgnoreCallResolution name edge.certainty edge.confidence = false := by
          rw [shouldIgnoreCallResolution_of_like hlike]
          simpa [isLookalikeCall, hcall, hresolved, hlike] using hrow
        simp [hkeep, hresolved]
  · simp [hcall]

theorem effectiveTarget_of_lookalike (h : row.1.HasSingleConfidence)
    (hrow : isLookalikeCall row = true) :
    row.1.resolvedTarget = some (effectiveTarget row.2 row.1) ∧
      (dropIgnoredResolution row.2 row.1).effectiveTarget = row.1.target := by
  obtain ⟨edge, name⟩ := row
  unfold isLookalikeCall at hrow
  simp only [Bool.and_eq_true, decide_eq_true_eq] at hrow
  obtain ⟨⟨⟨⟨hcall, hsome⟩, hlike⟩, hhelper⟩, hweak⟩ := hrow
  obtain ⟨resolved, hresolved⟩ := Option.isSome_iff_exists.mp hsome
  have hignore : shouldIgnoreCallResolution name edge.certainty edge.confidence = true := by
    rw [shouldIgnoreCallResolution_of_like hlike]
    simp [hhelper, hweak]
  constructor
  · unfold effectiveTarget
    rw [ignoresCallResolution_eq h]
    simp [hlike, hresolved]
  · unfold dropIgnoredResolution
    rw [if_pos (by simp [hcall, hresolved, hignore])]
    rfl

end DigestSql

/-! ## Endpoints -/

namespace DigestSql

/-- What one edge contributes. -/
def EffectiveEdge.keys (edge : EffectiveEdge) : List (Int × EdgeKind) :=
  (edge.source, edge.kind) ::
    if edge.target ≠ edge.source then [(edge.target, edge.kind)] else []

theorem perEndpoint_perm (edges : List EffectiveEdge) :
    (perEndpoint edges).Perm (edges.flatMap EffectiveEdge.keys) := by
  induction edges with
  | nil => exact .nil
  | cons edge edges ih =>
    rw [List.flatMap_cons]
    by_cases hself : edge.target = edge.source
    · have hkeys : edge.keys = [(edge.source, edge.kind)] := by
        unfold EffectiveEdge.keys
        rw [if_neg (not_not.mpr hself)]
      have hcons : perEndpoint (edge :: edges) =
          (edge.source, edge.kind) :: perEndpoint edges := by
        unfold perEndpoint
        rw [List.filter_cons_of_neg (by simp [hself])]
        rfl
      rw [hkeys, hcons]
      exact ih.cons _
    · have hkeys : edge.keys = [(edge.source, edge.kind), (edge.target, edge.kind)] := by
        unfold EffectiveEdge.keys
        rw [if_pos hself]
      have hcons : perEndpoint (edge :: edges) = (edge.source, edge.kind) ::
          (edges.map (fun edge => (edge.source, edge.kind)) ++ (edge.target, edge.kind) ::
            (edges.filter fun edge => edge.target ≠ edge.source).map
              fun edge => (edge.target, edge.kind)) := by
        unfold perEndpoint
        rw [List.filter_cons_of_pos (by simp [hself])]
        rfl
      rw [hkeys, hcons]
      exact ((List.perm_middle).trans (ih.cons _)).cons _

end DigestSql

open DigestSql (EffectiveEdge)

/-- A row as the statement sees it. -/
def statementEdge (row : Edge × String) : EffectiveEdge :=
  ⟨row.1.effectiveSource, DigestSql.effectiveTarget row.2 row.1, row.1.kind⟩

/-- A row as the scan sees it. -/
def scanEdge (row : Edge × String) : EffectiveEdge :=
  ⟨row.1.effectiveSource, (dropIgnoredResolution row.2 row.1).effectiveTarget, row.1.kind⟩

/-- A lookalike that the statement counts at the node it was resolved to. -/
def gains (nodeId : Int) (row : Edge × String) : Bool :=
  isLookalikeCall row && row.1.resolvedTarget = some nodeId && row.1.effectiveSource ≠ nodeId

/-- A lookalike that the scan counts at the node it names. -/
def loses (nodeId : Int) (row : Edge × String) : Bool :=
  isLookalikeCall row && row.1.target = nodeId && row.1.effectiveSource ≠ nodeId

theorem count_keys (edge : EffectiveEdge) (nodeId : Int) (kind : EdgeKind) :
    edge.keys.count (nodeId, kind) =
      if edge.kind = kind then
        (if edge.source = nodeId then 1 else 0) +
          if edge.target = nodeId ∧ edge.source ≠ nodeId then 1 else 0
      else 0 := by
  unfold EffectiveEdge.keys
  by_cases hself : edge.target = edge.source
  · rw [if_neg (not_not.mpr hself), List.count_singleton]
    simp only [beq_iff_eq, Prod.mk.injEq, hself]
    by_cases hkind : edge.kind = kind <;> simp [hkind]
  · rw [if_pos hself, List.count_cons, List.count_singleton]
    simp only [beq_iff_eq, Prod.mk.injEq]
    by_cases hkind : edge.kind = kind
    · by_cases hsource : edge.source = nodeId
      · have htarget : edge.target ≠ nodeId := fun h => hself (h.trans hsource.symm)
        simp [hkind, hsource, htarget]
      · simp [hkind, hsource]
    · simp [hkind]

/-- What one row contributes on each side. -/
theorem count_statementEdge {row : Edge × String} (h : row.1.HasSingleConfidence) (nodeId : Int)
    (kind : EdgeKind) :
    (statementEdge row).keys.count (nodeId, kind) +
        (if kind = .callEdge then (loses nodeId row).toNat else 0) =
      (scanEdge row).keys.count (nodeId, kind) +
        if kind = .callEdge then (gains nodeId row).toNat else 0 := by
  cases hrow : isLookalikeCall row with
  | false =>
    have hsame : statementEdge row = scanEdge row := by
      unfold statementEdge scanEdge
      rw [DigestSql.effectiveTarget_of_not_lookalike h hrow]
    simp [hsame, gains, loses, hrow]
  | true =>
    obtain ⟨hresolved, hkept⟩ := DigestSql.effectiveTarget_of_lookalike h hrow
    have hcall : row.1.kind = .callEdge := by
      unfold isLookalikeCall at hrow
      simp only [Bool.and_eq_true, decide_eq_true_eq] at hrow
      exact hrow.1.1.1.1
    rw [count_keys, count_keys]
    simp only [statementEdge, scanEdge, gains, loses, hrow, hresolved, hkept, hcall]
    by_cases hkind : EdgeKind.callEdge = kind
    · subst hkind
      by_cases hsource : row.1.effectiveSource = nodeId
      · simp [hsource]
      · by_cases hstatement : DigestSql.effectiveTarget row.2 row.1 = nodeId <;>
          by_cases hscan : row.1.target = nodeId <;> simp [hsource, hstatement, hscan]
    · simp [hkind, Ne.symm hkind]

theorem count_flatMap_statementEdge {rows : List (Edge × String)}
    (h : ∀ row ∈ rows, row.1.HasSingleConfidence) (nodeId : Int) (kind : EdgeKind) :
    (rows.flatMap fun row => (statementEdge row).keys).count (nodeId, kind) +
        (if kind = .callEdge then rows.countP (loses nodeId) else 0) =
      (rows.flatMap fun row => (scanEdge row).keys).count (nodeId, kind) +
        if kind = .callEdge then rows.countP (gains nodeId) else 0 := by
  induction rows with
  | nil => simp
  | cons row rows ih =>
    have hrow := count_statementEdge (h row List.mem_cons_self) nodeId kind
    have hrest := ih fun row hrow => h row (List.mem_cons_of_mem _ hrow)
    have hcons : ∀ p : Edge × String → Bool, (row :: rows).countP p =
        rows.countP p + (p row).toNat := by
      intro p
      rw [List.countP_cons]
      cases p row <;> rfl
    simp only [List.flatMap_cons, List.count_append, hcons]
    by_cases hkind : kind = .callEdge
    · simp only [hkind, if_true] at hrow hrest ⊢
      omega
    · simp only [hkind, if_false] at hrow hrest ⊢
      omega

/-! ## The loop of the scan -/

theorem countEdge_eq (nodeIds : List Int) (counts : Counters (Int × EdgeKind))
    (row : Edge × String) :
    countEdge nodeIds counts row =
      Tally.bumpAll u32Max counts ((scanEdge row).keys.filter (·.1 ∈ nodeIds)) := by
  have hkind : (dropIgnoredResolution row.2 row.1).kind = row.1.kind := by
    unfold dropIgnoredResolution
    split <;> rfl
  have hsource : (dropIgnoredResolution row.2 row.1).effectiveSource = row.1.effectiveSource := by
    unfold dropIgnoredResolution
    split <;> rfl
  unfold countEdge
  dsimp only
  rw [hkind, hsource]
  unfold scanEdge EffectiveEdge.keys
  generalize (dropIgnoredResolution row.2 row.1).effectiveTarget = target
  generalize row.1.effectiveSource = source
  dsimp only
  by_cases hself : target = source
  · subst hself
    by_cases hin : target ∈ nodeIds <;> simp [hin, Tally.bumpAll]
  · by_cases hin : source ∈ nodeIds <;> by_cases htarget : target ∈ nodeIds <;>
      simp [hself, hin, htarget, Tally.bumpAll]

theorem foldlM_countEdge (nodeIds : List Int) (rows : List (Edge × String))
    (counts : Counters (Int × EdgeKind)) :
    rows.foldlM (countEdge nodeIds) counts =
      Tally.bumpAll u32Max counts
        ((rows.flatMap fun row => (scanEdge row).keys).filter (·.1 ∈ nodeIds)) := by
  induction rows generalizing counts with
  | nil => rfl
  | cons row rows ih =>
    rw [List.foldlM_cons, List.flatMap_cons, List.filter_append, Tally.bumpAll,
      List.foldlM_append, countEdge_eq]
    simp only [ih]
    rfl

/-- A row the query leaves out has no endpoint that was asked for. -/
theorem filter_keys_of_not_mentions {nodeIds : List Int} {row : Edge}
    (h : rowMentions nodeIds row = false) (name : String) :
    (scanEdge (row, name)).keys.filter (·.1 ∈ nodeIds) = [] := by
  unfold rowMentions at h
  simp only [Bool.or_eq_false_iff, decide_eq_false_iff_not] at h
  obtain ⟨⟨⟨hsource, htarget⟩, hresolvedSource⟩, hresolvedTarget⟩ := h
  have houtSource : row.effectiveSource ∉ nodeIds := by
    unfold Edge.effectiveSource
    cases hresolved : row.resolvedSource with
    | none => exact hsource
    | some id =>
      rw [hresolved] at hresolvedSource
      simpa using hresolvedSource
  have houtTarget : (dropIgnoredResolution name row).effectiveTarget ∉ nodeIds := by
    obtain ⟨-, -, heq, -, hkept⟩ := dropIgnoredResolution_eq name row
    unfold Edge.effectiveTarget
    rw [heq]
    rcases hkept with hkept | hkept
    · rw [hkept]
      cases hresolved : row.resolvedTarget with
      | none => exact htarget
      | some id =>
        rw [hresolved] at hresolvedTarget
        simpa using hresolvedTarget
    · rw [hkept]
      exact htarget
  unfold scanEdge EffectiveEdge.keys
  split <;> simp [houtSource, houtTarget]

namespace Storage
variable {β : Type u} (s : Storage β)

/-- The endpoints of all edges as the scan sees them. -/
def scanEndpoints : List (Int × EdgeKind) :=
  s.joinedEdges.flatMap fun row => (scanEdge row).keys

def statementEndpoints : List (Int × EdgeKind) :=
  s.joinedEdges.flatMap fun row => (statementEdge row).keys

theorem filter_scanned_eq (nodeIds : List Int) (rows : List Edge) :
    ((((rows.filter (rowMentions nodeIds)).filterMap s.joinTarget).flatMap
        fun row => (scanEdge row).keys).filter (·.1 ∈ nodeIds)) =
      ((rows.filterMap s.joinTarget).flatMap fun row => (scanEdge row).keys).filter
        (·.1 ∈ nodeIds) := by
  induction rows with
  | nil => rfl
  | cons row rows ih =>
    cases hjoin : s.joinTarget row with
    | none =>
      rw [List.filterMap_cons_none hjoin, ← ih, List.filter_cons]
      split
      · rw [List.filterMap_cons_none hjoin]
      · rfl
    | some joined =>
      rw [List.filterMap_cons_some hjoin, List.flatMap_cons, List.filter_append, ← ih,
        List.filter_cons]
      split
      · rw [List.filterMap_cons_some hjoin, List.flatMap_cons, List.filter_append]
      · rename_i hmentions
        obtain ⟨target, -, rfl⟩ := Option.map_eq_some_iff.mp hjoin
        rw [filter_keys_of_not_mentions (by simpa using hmentions)]
        rfl

theorem scanned_perm (nodeIds : List Int) :
    ((((s.edgesById.filter (rowMentions nodeIds)).filterMap s.joinTarget).flatMap
        fun row => (scanEdge row).keys).filter (·.1 ∈ nodeIds)).Perm
      (s.scanEndpoints.filter (·.1 ∈ nodeIds)) := by
  rw [filter_scanned_eq]
  apply List.Perm.filter
  apply List.Perm.flatMap_right
  exact (List.perm_insertionSort _ s.edge.rows).filterMap _

theorem statement_perm : (DigestSql.perEndpoint s.edgeEffective).Perm s.statementEndpoints := by
  apply (DigestSql.perEndpoint_perm _).trans
  unfold edgeEffective
  rw [List.flatMap_map]
  exact .refl _

end Storage

/-! ## The answers as lists -/

namespace GroundingEdgeKindCount

instance : Std.TransCmp order :=
  inferInstanceAs (Std.TransCmp (compareLex (compareOn nodeId)
    (compareOn fun row : GroundingEdgeKindCount => row.kind.discriminant)))

theorem key_eq_of_order_eq {left right : GroundingEdgeKindCount} (h : order left right = .eq) :
    left.nodeId = right.nodeId ∧ left.kind = right.kind := by
  unfold order at h
  rw [Ordering.then_eq_eq, compare_eq_iff_eq, compare_eq_iff_eq] at h
  exact ⟨h.1, EdgeKind.discriminant_injective h.2⟩

theorem ofRow_injective : Function.Injective ofRow := by
  rintro ⟨⟨id, kind⟩, count⟩ ⟨⟨id', kind'⟩, count'⟩ h
  cases h
  rfl

/-- With one row for each key, the order hides nothing and adds nothing. -/
theorem ordered_eq_iff {rows other : List ((Int × EdgeKind) × Nat)}
    (h : (rows.map Prod.fst).Nodup) : ordered rows = ordered other ↔ rows.Perm other := by
  constructor
  · intro heq
    have hperm : (rows.map ofRow).Perm (other.map ofRow) :=
      (Selection.perm_sortBy _).symm.trans ((List.Perm.of_eq heq).trans (Selection.perm_sortBy _))
    exact (List.map_perm_map_iff ofRow_injective).mp hperm
  · intro hperm
    apply Selection.sortBy_congr (hperm.map ofRow)
    intro left hleft right hright hsame
    obtain ⟨a, ha, rfl⟩ := List.mem_map.mp hleft
    obtain ⟨b, hb, rfl⟩ := List.mem_map.mp hright
    obtain ⟨hid, hkind⟩ := key_eq_of_order_eq hsame
    have hkey : a.1 = b.1 := Prod.ext hid hkind
    rw [List.inj_on_of_nodup_map h ha hb hkey]

end GroundingEdgeKindCount

/-! ## When the statement and the scan agree -/

/-- An edge of the kind that has the node for an end. -/
def meets (nodeId : Int) (kind : EdgeKind) (row : Edge × String) : Bool :=
  row.1.kind = kind && (row.1.effectiveSource = nodeId ||
    (dropIgnoredResolution row.2 row.1).effectiveTarget = nodeId)

namespace Storage
variable {β : Type u} (s : Storage β)

theorem count_scanEndpoints (nodeId : Int) (kind : EdgeKind) :
    s.scanEndpoints.count (nodeId, kind) = s.joinedEdges.countP (meets nodeId kind) := by
  unfold scanEndpoints
  induction s.joinedEdges with
  | nil => rfl
  | cons row rows ih =>
    rw [List.flatMap_cons, List.count_append, List.countP_cons, ih, count_keys, Nat.add_comm]
    congr 1
    unfold scanEdge meets
    dsimp only
    by_cases hkind : row.1.kind = kind
    · by_cases hsource : row.1.effectiveSource = nodeId <;> simp [hkind, hsource]
    · simp [hkind]

theorem joined_of_rows {p : Edge → Prop} (h : ∀ row ∈ s.edge.rows, p row) :
    ∀ row ∈ s.joinedEdges, p row.1 := by
  intro row hrow
  obtain ⟨edge, hedge, hjoin⟩ := List.mem_filterMap.mp hrow
  obtain ⟨target, -, rfl⟩ := Option.map_eq_some_iff.mp hjoin
  exact h edge hedge

/-- The loop of the scan ends exactly when no counter overflows. -/
theorem scan_ends_iff (nodeIds : List Int) {keys : List (Int × EdgeKind)}
    (h : keys.Perm (s.scanEndpoints.filter (·.1 ∈ nodeIds))) :
    (∃ counts, Tally.bumpAll u32Max .empty keys = some counts) ↔
      ∀ key, key.1 ∈ nodeIds → s.scanEndpoints.count key ≤ u32Max := by
  rw [Tally.bumpAll_isSome_iff]
  have hcount : ∀ key : Int × EdgeKind, key.1 ∈ nodeIds →
      keys.count key = s.scanEndpoints.count key := by
    intro key hkey
    rw [h.count_eq, List.count_filter (by simpa using hkey)]
  have hzero : ∀ key : Int × EdgeKind, Tally.Counters.get .empty key = 0 := fun _ => rfl
  constructor
  · intro hlimit key hkey
    by_cases hmem : key ∈ keys
    · have := hlimit key hmem
      rw [hcount key hkey, hzero] at this
      omega
    · rw [← hcount key hkey, List.count_eq_zero_of_not_mem hmem]
      exact Nat.zero_le _
  · intro hlimit key hmem
    have hkey : key.1 ∈ nodeIds := by
      simpa using (List.mem_filter.mp (h.mem_iff.mp hmem)).2
    rw [hcount key hkey, hzero, Nat.zero_add]
    exact hlimit key hkey

theorem scan_eq_some_iff (nodeIds : List Int) {rows : List ((Int × EdgeKind) × Nat)} :
    s.scanEdgeDigestCounts nodeIds = some (GroundingEdgeKindCount.ordered rows) ↔
      (∀ key, key.1 ∈ nodeIds → s.scanEndpoints.count key ≤ u32Max) ∧
        (Tally.group (s.scanEndpoints.filter (·.1 ∈ nodeIds))).rows.Perm rows := by
  have hscanned := s.scanned_perm nodeIds
  rw [← s.scan_ends_iff nodeIds hscanned]
  unfold scanEdgeDigestCounts
  rw [foldlM_countEdge]
  generalize ((((s.edgesById.filter (rowMentions nodeIds)).filterMap s.joinTarget).flatMap
    fun row => (scanEdge row).keys).filter (·.1 ∈ nodeIds)) = keys at hscanned ⊢
  cases hbump : Tally.bumpAll u32Max .empty keys with
  | none =>
    apply iff_of_false
    · intro h
      cases h
    · rintro ⟨⟨counts, h⟩, -⟩
      cases h
  | some counts =>
    have hcounts : counts.rows.Perm (Tally.group (s.scanEndpoints.filter (·.1 ∈ nodeIds))).rows :=
      (Tally.bumpAll_perm_group hbump).trans (Tally.group_perm_iff.mpr hscanned)
    rw [Option.map_some, Option.some.injEq, GroundingEdgeKindCount.ordered_eq_iff counts.nodup,
      and_iff_right ⟨counts, rfl⟩]
    exact ⟨hcounts.symm.trans, hcounts.trans⟩

/-- Nodes of the snapshot: their digest is the count of the statement's endpoints. -/
theorem select_rows_perm {snapshotNodes nodeIds : List Int}
    (h : ∀ id ∈ nodeIds, id ∈ snapshotNodes) :
    ((s.edgeDigestSnapshot snapshotNodes).rows.filter (·.1.1 ∈ nodeIds)).Perm
      (Tally.group (s.statementEndpoints.filter (·.1 ∈ nodeIds))).rows := by
  apply (Tally.filter_group_perm fun key : Int × EdgeKind => key.1 ∈ nodeIds).trans
  apply Tally.group_perm_iff.mpr
  rw [List.filter_filter]
  have hboth : ∀ key : Int × EdgeKind,
      (decide (key.1 ∈ nodeIds) && decide (key.1 ∈ snapshotNodes)) = decide (key.1 ∈ nodeIds) := by
    intro key
    by_cases hkey : key.1 ∈ nodeIds
    · simp [hkey, h key.1 hkey]
    · simp [hkey]
  simp only [hboth]
  exact s.statement_perm.filter _

theorem scan_eq_select_iff {snapshotNodes nodeIds : List Int}
    (h : ∀ id ∈ nodeIds, id ∈ snapshotNodes) :
    s.scanEdgeDigestCounts nodeIds =
        some (selectEdgeDigest (s.edgeDigestSnapshot snapshotNodes) nodeIds) ↔
      ∀ id ∈ nodeIds, ∀ kind, s.scanEndpoints.count (id, kind) ≤ u32Max ∧
        s.scanEndpoints.count (id, kind) = s.statementEndpoints.count (id, kind) := by
  have hselect := s.select_rows_perm h
  have hgroup : ∀ rows : List ((Int × EdgeKind) × Nat),
      rows.Perm ((s.edgeDigestSnapshot snapshotNodes).rows.filter (·.1.1 ∈ nodeIds)) ↔
        rows.Perm (Tally.group (s.statementEndpoints.filter (·.1 ∈ nodeIds))).rows :=
    fun rows => ⟨fun hrows => hrows.trans hselect, fun hrows => hrows.trans hselect.symm⟩
  unfold selectEdgeDigest
  rw [scan_eq_some_iff, hgroup, Tally.group_perm_iff, List.perm_iff_count]
  constructor
  · rintro ⟨hlimit, hcount⟩ id hid kind
    have hkey := hcount (id, kind)
    rw [List.count_filter (by simpa using hid), List.count_filter (by simpa using hid)] at hkey
    exact ⟨hlimit (id, kind) hid, hkey⟩
  · intro hsame
    refine ⟨fun key hkey => (hsame key.1 hkey key.2).1, fun key => ?_⟩
    by_cases hkey : key.1 ∈ nodeIds
    · rw [List.count_filter (by simpa using hkey), List.count_filter (by simpa using hkey)]
      exact (hsame key.1 hkey key.2).2
    · rw [List.count_eq_zero_of_not_mem, List.count_eq_zero_of_not_mem]
      · intro hmem
        exact hkey (by simpa using (List.mem_filter.mp hmem).2)
      · intro hmem
        exact hkey (by simpa using (List.mem_filter.mp hmem).2)

/-- The two digests are one exactly when every node of the snapshot gains as many lookalikes
as it loses and no 32-bit counter overflows. -/
theorem edgeDigest_eq_iff (hsingle : ∀ row ∈ s.edge.rows, row.HasSingleConfidence)
    (snapshotNodes : List Int) :
    (∀ nodeIds : List Int, (∀ id ∈ nodeIds, id ∈ snapshotNodes) →
      s.scanEdgeDigestCounts nodeIds =
        some (selectEdgeDigest (s.edgeDigestSnapshot snapshotNodes) nodeIds)) ↔
      ∀ id ∈ snapshotNodes,
        s.joinedEdges.countP (gains id) = s.joinedEdges.countP (loses id) ∧
          ∀ kind, s.joinedEdges.countP (meets id kind) ≤ u32Max := by
  have hcounts := fun id kind =>
    count_flatMap_statementEdge (s.joined_of_rows hsingle) id kind
  constructor
  · intro h id hid
    have hone := (s.scan_eq_select_iff (by simpa using hid)).mp (h [id] (by simpa using hid)) id
      List.mem_cons_self
    refine ⟨?_, fun kind => ?_⟩
    · have hcall := hcounts id .callEdge
      have hsame := (hone .callEdge).2
      unfold scanEndpoints statementEndpoints at hsame
      rw [if_pos rfl, if_pos rfl] at hcall
      omega
    · rw [← count_scanEndpoints]
      exact (hone kind).1
  · intro h nodeIds hnodeIds
    apply (s.scan_eq_select_iff hnodeIds).mpr
    intro id hid kind
    obtain ⟨hbalance, hlimit⟩ := h id (hnodeIds id hid)
    refine ⟨?_, ?_⟩
    · rw [count_scanEndpoints]
      exact hlimit kind
    · have hcount := hcounts id kind
      unfold scanEndpoints statementEndpoints
      by_cases hkind : kind = .callEdge
      · rw [if_pos hkind, if_pos hkind] at hcount
        omega
      · rw [if_neg hkind, if_neg hkind] at hcount
        omega

end Storage

/-- A function that calls `name`, and a resolution of the call below every threshold. -/
def weakCallStore (name : String) : Storage Unit :=
  { Storage.created with
    node := ⟨[plainNode 1 .functionNode "report", plainNode 2 .unknownNode name,
      plainNode 3 .functionNode "ErrorSink::flush"], by simp [plainNode]⟩
    edge := ⟨[⟨10, 1, 2, .callEdge, none, none, none, some 3, some (1 / 2), none, none, none⟩],
      by simp⟩ }

theorem weakCallStore_single (name : String) :
    ∀ row ∈ (weakCallStore name).edge.rows, row.HasSingleConfidence := by
  intro row hrow confidence hconfidence
  obtain rfl := List.mem_singleton.mp hrow
  obtain rfl := Option.some.inj hconfidence
  exact ⟨1, -1, by norm_num, by norm_num, by norm_num, by norm_num⟩

theorem edgeDigest_of_helper :
    (∀ row ∈ (weakCallStore "flush_errors").edge.rows, row.HasSingleConfidence) ∧
      ∀ nodeIds : List Int, (∀ id ∈ nodeIds, id ∈ [1, 3]) →
        (weakCallStore "flush_errors").scanEdgeDigestCounts nodeIds =
          some (selectEdgeDigest ((weakCallStore "flush_errors").edgeDigestSnapshot [1, 3])
            nodeIds) := by
  refine ⟨weakCallStore_single _,
    ((weakCallStore "flush_errors").edgeDigest_eq_iff (weakCallStore_single _) [1, 3]).mpr ?_⟩
  intro id hid
  refine ⟨?_, fun kind => List.countP_le_length.trans (by decide)⟩
  simp only [List.mem_cons, List.not_mem_nil, or_false] at hid
  rcases hid with rfl | rfl <;> decide

/-- The scan drops the resolution, whose node the statement counts the call at. -/
theorem edgeDigest_of_lookalike :
    (weakCallStore "FLUSH_ERRORS").scanEdgeDigestCounts [1, 3] =
        some [⟨1, .callEdge, 1⟩] ∧
      selectEdgeDigest ((weakCallStore "FLUSH_ERRORS").edgeDigestSnapshot [1, 3]) [1, 3] =
        [⟨1, .callEdge, 1⟩, ⟨3, .callEdge, 1⟩] := by
  decide +kernel

end CodeStory.Graph
